import StoragePlatform.Proofs.UniqueStored
import StoragePlatform.Proofs.Deleted
import StoragePlatform.Proofs.Offline
import StoragePlatform.Proofs.RoundTrip
import StoragePlatform.Proofs.Capacity
import StoragePlatform.Proofs.Flap
import StoragePlatform.Proofs.FailedPlan
import StoragePlatform.Proofs.PlacementTx
import StoragePlatform.Proofs.Versions
import StoragePlatform.Proofs.Registration
import StoragePlatform.Proofs.HalfHour
import StoragePlatform.Proofs.SingleUse
import StoragePlatform.Proofs.Renewal
import StoragePlatform.Proofs.Rotation
import StoragePlatform.Proofs.StatusEvents
import StoragePlatform.Proofs.Verdicts
import StoragePlatform.Proofs.ChallengeUse
import StoragePlatform.Proofs.Egress
import StoragePlatform.Proofs.LateAccrual
import StoragePlatform.Proofs.Archive
import StoragePlatform.Proofs.Rename
import StoragePlatform.Proofs.Statements
import StoragePlatform.Proofs.SelfDealing
import StoragePlatform.Proofs.StoreRace
import StoragePlatform.Proofs.Scrub
import StoragePlatform.Proofs.HonestNode
import StoragePlatform.Proofs.ReceiptKinds
import StoragePlatform.Proofs.NextStatus
import StoragePlatform.Proofs.EmptiedBucket
import StoragePlatform.Proofs.Listing
import StoragePlatform.Proofs.Reaper
import StoragePlatform.Proofs.RateLimit
