/-
Module: StoragePlatform.Metadata.Download
Purpose: PlanDownload of the metadata service (internal/metadata/upload.go).
Trusted boundary: human-reviewed spec; ticket signing and the success of the
  ticket INSERT are parameters
Main exports: pickDownloadPlacements, DownloadEnv, DownloadResult, DB.planDownload
-/
import StoragePlatform.Metadata.Plan

namespace StoragePlatform

open Lib

/-- Neither revoked nor quarantined. -/
def DownloadPlacement.admissible (p : DownloadPlacement) : Bool :=
  p.node.revokedAt = none ∧ p.node.status ≠ .quarantined

/-- `pickDownloadPlacements`: the online copies if they are enough, otherwise the
online ones and then the rest. -/
def pickDownloadPlacements (all : List DownloadPlacement) (need : Nat) :
    List DownloadPlacement :=
  let usable := all.filter DownloadPlacement.admissible
  let online := usable.filter fun p => p.node.status = .online
  let rest := usable.filter fun p => p.node.status ≠ .online
  if need ≤ online.length then online else online ++ rest

structure DownloadEnv where
  sign : SignTicket
  /-- The nonce `tickets.Decode` finds in a wire. -/
  nonce : Text → Option Bytes
  /-- The INSERT of a ticket with this nonce succeeds. -/
  record : Bytes → Bool

/-- `InsertDownloadTicket`: an INSERT that skips a known nonce. -/
def DB.insertDownloadTicket (db : DB) (env : DownloadEnv) (ticket : DownloadTicket) :
    Except StoreErr DB :=
  if env.record ticket.nonce = false then .error (.query "store.insertDownloadTicket")
  else if db.downloadTickets.any fun old => old.nonce = ticket.nonce then .ok db
  else .ok { db with downloadTickets := db.downloadTickets ++ [ticket] }

/-- A ticket for one copy: signed, and recorded when its wire decodes. -/
def DB.issueTicket (db : DB) (env : DownloadEnv) (fileId : Uuid) (p : DownloadPlacement) :
    Except StoreErr (ShardRef × DB) :=
  match signShard env.sign .get p.fragment p.node with
  | .error e => .error e
  | .ok (wire, until_) =>
    match env.nonce wire with
    | none => .ok (shardRef p.fragment p.node wire, db)
    | some nonce =>
      match db.insertDownloadTicket env
          { nonce := nonce, fileId := fileId, fragmentId := p.fragment.id,
            nodeId := p.node.id, sizeBytes := p.fragment.sizeBytes, expiresAt := until_ } with
      | .error e => .error e
      | .ok db' => .ok (shardRef p.fragment p.node wire, db')

/-- The ticket `issueTicket` hands out, if its wire decodes. -/
def issuedTicket (env : DownloadEnv) (fileId : Uuid) (p : DownloadPlacement) :
    Option DownloadTicket :=
  match signShard env.sign .get p.fragment p.node with
  | .error _ => none
  | .ok (wire, until_) =>
    (env.nonce wire).map fun nonce =>
      { nonce := nonce, fileId := fileId, fragmentId := p.fragment.id,
        nodeId := p.node.id, sizeBytes := p.fragment.sizeBytes, expiresAt := until_ }

/-- The inner loop of `PlanDownload`; `total` is the number of tickets so far. -/
def planFragments (env : DownloadEnv) (fileId : Uuid) :
    DB → Nat → List DownloadPlacement → Except StoreErr (List ShardRef) × DB
  | db, _, [] => (.ok [], db)
  | db, total, p :: rest =>
    if maxPlanFragments ≤ total then (.error .invalid, db)
    else
      match db.issueTicket env fileId p with
      | .error e => (.error e, db)
      | .ok (ref, db') =>
        match planFragments env fileId db' (total + 1) rest with
        | (.error e, db'') => (.error e, db'')
        | (.ok refs, db'') => (.ok (ref :: refs), db'')

structure DownloadResultChunk where
  seq : Int
  sha256 : Bytes
  sizeBytes : Int
  fragments : List ShardRef
deriving DecidableEq, Repr

structure DownloadResult where
  fileId : Uuid
  versionNo : Nat
  sizeBytes : Int
  contentSha256 : Bytes
  encryptionMeta : Bytes
  chunks : List DownloadResultChunk
deriving DecidableEq, Repr

/-- The outer loop of `PlanDownload`. -/
def planChunks (env : DownloadEnv) (fileId : Uuid) (need : Nat) :
    DB → Nat → List DownloadChunk → Except StoreErr (List DownloadResultChunk) × DB
  | db, _, [] => (.ok [], db)
  | db, total, ch :: rest =>
    let picked := pickDownloadPlacements ch.placements need
    if picked.length < need then (.error .unavailable, db)
    else
      match planFragments env fileId db total picked with
      | (.error e, db') => (.error e, db')
      | (.ok refs, db') =>
        match planChunks env fileId need db' (total + picked.length) rest with
        | (.error e, db'') => (.error e, db'')
        | (.ok chunks, db'') =>
          (.ok ({ seq := ch.chunk.seq
                  sha256 := ch.chunk.sha256
                  sizeBytes := ch.chunk.sizeBytes
                  fragments := refs } :: chunks), db'')

/-- Shards a chunk of the version needs; the default stands in for a version
without a code. -/
def FileVersion.need (v : FileVersion) : Nat :=
  if v.ecDataShards ≤ 0 then 10 else v.ecDataShards.toNat

/-- `PlanDownload`.  A refused plan may have recorded tickets. -/
def DB.planDownload (db : DB) (env : DownloadEnv) (ownerId fileId : Uuid) :
    Except StoreErr DownloadResult × DB :=
  match db.loadDownload ownerId fileId with
  | .error e => (.error e, db)
  | .ok (f, v, chunks) =>
    match planChunks env f.id v.need db 0 chunks with
    | (.error e, db') => (.error e, db')
    | (.ok planned, db') =>
      (.ok
        { fileId := f.id
          versionNo := v.versionNo
          sizeBytes := v.sizeBytes
          contentSha256 := v.contentSha256
          encryptionMeta := v.encryptionMeta
          chunks := planned }, db')

end StoragePlatform
