/-
Module: StoragePlatform.Store.Schema
Purpose: The control-plane tables of the placement map and the constraints the
  migrations declare on them (internal/store/store.go, deploy/migrations).
Trusted boundary: human-reviewed spec
Main exports: Node, File, FileVersion, Chunk, Fragment, Placement, DB, StoreErr
-/
import StoragePlatform.Lib.Table
import Mathlib.Data.BitVec

namespace StoragePlatform

open Lib

/-!
One Lean structure per table row, one constructor per value the code writes in
a status column.  Columns that no modelled statement reads or tests (creation
and update stamps, certificates in PEM, labels) are left out.  A `TEXT` column
is the list of its characters, `BYTEA` the list of its bytes, a time stamp the
number of seconds since the epoch; the nullable `region` is the empty text when
it is NULL, as the scan functions have it.
-/

abbrev Uuid := BitVec 128
abbrev Bytes := List UInt8
abbrev Text := List Char
abbrev Time := Int

instance : LawfulBEq Uuid := inferInstance
instance : LawfulBEq Bytes := inferInstance

inductive NodeStatus where
  | pending | online | suspect | offline | draining | quarantined | retired
deriving DecidableEq, Repr, Inhabited

inductive FileStatus where
  | uploading | active | deleted
deriving DecidableEq, Repr, Inhabited

inductive VersionStatus where
  | pending | committed | aborted | expired
deriving DecidableEq, Repr, Inhabited

inductive PlacementStatus where
  | pending | stored | lost | expiring | deleted
deriving DecidableEq, Repr, Inhabited

/-- A row of `buckets`. -/
structure Bucket where
  id : Uuid
  ownerId : Uuid
deriving DecidableEq, Repr, Inhabited

/-- A row of `files`; `deletedAt` is set by the soft delete. -/
structure File where
  id : Uuid
  bucketId : Uuid
  path : Text
  isFolder : Bool
  currentVersion : Option Uuid
  status : FileStatus
  deletedAt : Option Time
deriving DecidableEq, Repr, Inhabited

/-- A row of `file_versions`. -/
structure FileVersion where
  id : Uuid
  fileId : Uuid
  versionNo : Nat
  sizeBytes : Int
  contentSha256 : Bytes
  encryptionMeta : Bytes
  chunkSize : Int
  ecDataShards : Int
  ecParityShards : Int
  status : VersionStatus
deriving DecidableEq, Repr, Inhabited

/-- A row of `chunks`. -/
structure Chunk where
  id : Uuid
  versionId : Uuid
  seq : Int
  sizeBytes : Int
  sha256 : Bytes
deriving DecidableEq, Repr, Inhabited

/-- A row of `fragments`. -/
structure Fragment where
  id : Uuid
  chunkId : Uuid
  shardIndex : Int
  sizeBytes : Int
  sha256 : Bytes
deriving DecidableEq, Repr, Inhabited

/-- A row of `nodes`. -/
structure Node where
  id : Uuid
  ownerId : Uuid
  publicKey : Bytes
  region : Text
  asn : Option Int
  endpoint : Text
  capacityBytes : Int
  usedBytes : Int
  status : NodeStatus
  certExpiresAt : Option Time
  probationUntil : Option Time
  revokedAt : Option Time
deriving DecidableEq, Repr, Inhabited

/-- A row of `fragment_placements`. -/
structure Placement where
  id : Nat
  fragmentId : Uuid
  nodeId : Uuid
  status : PlacementStatus
deriving DecidableEq, Repr, Inhabited

/-- A row of `download_tickets`: a GET ticket nonce issued for a file. -/
structure DownloadTicket where
  nonce : Bytes
  fileId : Uuid
  fragmentId : Uuid
  nodeId : Uuid
  sizeBytes : Int
  expiresAt : Time
deriving DecidableEq, Repr, Inhabited

/-- The placement map.  `nextPlacementId` is the `BIGSERIAL` sequence of
`fragment_placements`. -/
structure DB where
  buckets : List Bucket
  files : List File
  versions : List FileVersion
  chunks : List Chunk
  fragments : List Fragment
  nodes : List Node
  placements : List Placement
  nextPlacementId : Nat
  downloadTickets : List DownloadTicket
deriving DecidableEq, Repr

/-- The database right after the migrations. -/
def DB.empty : DB where
  buckets := []
  files := []
  versions := []
  chunks := []
  fragments := []
  nodes := []
  placements := []
  nextPlacementId := 1
  downloadTickets := []

/-- The errors of the store package.  `query` stands for any wrapped driver or
constraint error that is not a missing row and not a unique violation. -/
inductive StoreErr where
  | notFound
  | conflict
  | notEmpty
  | invalid
  | incomplete
  | unavailable
  | nodeDenied
  | query (op : String)
deriving DecidableEq, Repr

/-- Pending and stored rows are the live ones: `status IN ('pending', 'stored')`. -/
def Placement.live (p : Placement) : Bool :=
  p.status = .pending ∨ p.status = .stored

/-! ### Declared constraints -/

/-- What the primary keys, UNIQUE constraints, foreign keys and the placement
sequence of the migrations guarantee of every stored state. -/
structure DB.Schema (db : DB) : Prop where
  file_pk : UniqueOn File.id db.files
  file_live_path :
    UniqueOn (fun f : File => (f.bucketId, f.path))
      (db.files.filter fun f => f.deletedAt.isNone)
  version_pk : UniqueOn FileVersion.id db.versions
  version_file : ∀ v ∈ db.versions, ∃ f ∈ db.files, f.id = v.fileId
  chunk_pk : UniqueOn Chunk.id db.chunks
  chunk_seq : UniqueOn (fun c : Chunk => (c.versionId, c.seq)) db.chunks
  chunk_version : ∀ c ∈ db.chunks, ∃ v ∈ db.versions, v.id = c.versionId
  fragment_pk : UniqueOn Fragment.id db.fragments
  fragment_shard : UniqueOn (fun fr : Fragment => (fr.chunkId, fr.shardIndex)) db.fragments
  fragment_chunk : ∀ fr ∈ db.fragments, ∃ c ∈ db.chunks, c.id = fr.chunkId
  node_pk : UniqueOn Node.id db.nodes
  placement_pk : UniqueOn Placement.id db.placements
  placement_pair : UniqueOn (fun p : Placement => (p.fragmentId, p.nodeId)) db.placements
  placement_fragment : ∀ p ∈ db.placements, ∃ fr ∈ db.fragments, fr.id = p.fragmentId
  placement_node : ∀ p ∈ db.placements, ∃ n ∈ db.nodes, n.id = p.nodeId
  placement_seq : ∀ p ∈ db.placements, p.id < db.nextPlacementId

theorem DB.Schema.empty : DB.empty.Schema := by
  constructor <;> simp [DB.empty, UniqueOn]

end StoragePlatform
