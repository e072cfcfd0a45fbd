/-
Module: StoragePlatform.Lifecycle.Reaper
Purpose: The deletion of expiring placements on their nodes: Reaper.once and reap
  (internal/lifecycle/reaper.go), the lifecycle queries (internal/store/lifecycle.go) and
  IssueDeleteTicket (internal/metadata/lifecycle.go).
Trusted boundary: human-reviewed spec; the requests to the metadata service arrive and the
  statements of the store do not fail
Main exports: ExpiringPlacement, DB.listExpiringPlacements, DeleteTicket, DB.afterReaps
-/
import StoragePlatform.Metadata.Plan

namespace StoragePlatform

open Lib

structure ExpiringPlacement where
  id : Nat
  fragmentId : Uuid
  nodeId : Uuid
  endpoint : Text
  sha256 : Bytes
  sizeBytes : Int
deriving DecidableEq, Repr

/-- The columns that both queries select. -/
def PlacementTarget.expiring (t : PlacementTarget) : ExpiringPlacement where
  id := t.placement.id
  fragmentId := t.placement.fragmentId
  nodeId := t.placement.nodeId
  endpoint := t.node.endpoint
  sha256 := t.fragment.sha256
  sizeBytes := t.fragment.sizeBytes

/-- The rows of `ListExpiringPlacements` before its LIMIT. -/
def DB.expiringQueue (db : DB) : List ExpiringPlacement :=
  (orderBy (fun a b : PlacementTarget => a.placement.id ≤ b.placement.id)
    (db.placementTargets.filter fun t => t.placement.status = .expiring)).map
      PlacementTarget.expiring

/-- `ListExpiringPlacements`. -/
def DB.listExpiringPlacements (db : DB) (limit : Int) : List ExpiringPlacement :=
  db.expiringQueue.take (if limit ≤ 0 then 64 else limit.toNat)

/-- `ExpiringPlacementByID`. -/
def DB.expiringPlacementById (db : DB) (id : Nat) : Except StoreErr ExpiringPlacement :=
  match db.placementTargets.find? fun t =>
      t.placement.id = id ∧ t.placement.status = .expiring with
  | none => .error .notFound
  | some t => .ok t.expiring

structure DeleteTicket where
  placementId : Nat
  fragmentId : Uuid
  nodeId : Uuid
  endpoint : Text
  ticket : Text
deriving DecidableEq, Repr

/-- The ticket that `IssueDeleteTicket` makes for a row.  The service may have no signer. -/
def signDelete (sign : Option SignTicket) (p : ExpiringPlacement) : Except StoreErr DeleteTicket :=
  match sign with
  | none => .error .invalid
  | some sign =>
    match sign .delete p.fragmentId p.nodeId p.sha256 (toUint64 p.sizeBytes) with
    | .error e => .error e
    | .ok (wire, _) =>
      .ok
        { placementId := p.id
          fragmentId := p.fragmentId
          nodeId := p.nodeId
          endpoint := p.endpoint
          ticket := wire }

/-- `IssueDeleteTicket`.  That there is no signer is found out first. -/
def DB.issueDeleteTicket (db : DB) (sign : Option SignTicket) (placementId : Nat) :
    Except StoreErr DeleteTicket :=
  if sign.isNone then .error .invalid
  else
    match db.expiringPlacementById placementId with
    | .error e => .error e
    | .ok p => signDelete sign p

/-- The signer of the metadata service, and the status a node answers a DELETE with; `none`
is a request without an answer. -/
structure ReapEnv where
  sign : Option SignTicket
  answer : DeleteTicket → Option Nat

/-- `deleteFragment`: 204 and 404 are confirmations. -/
def ReapEnv.deleteFragment (env : ReapEnv) (tk : DeleteTicket) : Bool :=
  env.answer tk = some 204 ∨ env.answer tk = some 404

/-- `reap`; whether it succeeds is only logged. -/
def DB.reap (db : DB) (env : ReapEnv) (p : ExpiringPlacement) : DB :=
  match db.issueDeleteTicket env.sign p.id with
  | .error _ => db
  | .ok tk => if env.deleteFragment tk then db.markPlacementDeleted p.id else db

/-- `once`. -/
def DB.reapOnce (db : DB) (env : ReapEnv) : DB :=
  (db.listExpiringPlacements 64).foldl (fun db p => db.reap env p) db

/-- The tables after `k` passes; `env i` is met by pass number `i`. -/
def DB.afterReaps (env : Nat → ReapEnv) (db : DB) : Nat → DB
  | 0 => db
  | k + 1 => (db.afterReaps env k).reapOnce (env k)

end StoragePlatform
