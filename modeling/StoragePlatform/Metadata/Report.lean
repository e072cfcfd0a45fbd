/-
Module: StoragePlatform.Metadata.Report
Purpose: ReportDownload of the metadata service (internal/metadata/upload.go).
Trusted boundary: human-reviewed spec; the signature check is a parameter, a store
  or publish call that has passed its constraints succeeds
Main exports: receiptNonce, DB.verifyEgress, DB.verifyEgress_inv, UsageDB.reportDownload
-/
import StoragePlatform.Store.Usage

namespace StoragePlatform

open Lib

/-- `ParseUnsigned` and the length check: the nonce a wire names. -/
def receiptNonce (wire : Text) : Option Bytes :=
  match decodeWire wire with
  | .error _ => none
  | .ok (payload, _) =>
    match decodeReceipt payload with
    | .error _ => none
    | .ok r => if r.nonce.length ≠ 16 then none else some r.nonce

/-- The checks of one wire against the ticket its nonce names: the ticket and the
receipt, verified under the key of the ticket's node. -/
def DB.verifyEgress (db : DB) (sigOk : SigCheck) (userId fileId : Uuid) (nonce : Bytes)
    (wire : Text) : Option (DownloadTicket × Receipt) :=
  match db.downloadTicketByNonce userId fileId nonce with
  | none => none
  | some (t, publicKey) =>
    match parseReceipt sigOk wire publicKey with
    | .error _ => none
    | .ok got =>
      if got.nodeId ≠ t.nodeId ∨ got.fragmentId ≠ t.fragmentId then none
      else if got.size ≠ toUint64 t.sizeBytes then none
      else some (t, got)

/-- What the checks of a wire have established: the ticket is one of the caller's for
this file, and the wire is signed by the ticket's node for what the ticket says. -/
structure DB.EgressVerified (db : DB) (sigOk : SigCheck) (userId fileId : Uuid) (nonce : Bytes)
    (wire : Text) (t : DownloadTicket) (got : Receipt) : Prop where
  ticket : t ∈ db.downloadTickets
  sameNonce : t.nonce = nonce
  sameFile : t.fileId = fileId
  owned : ∃ f ∈ db.files, f.id = fileId ∧ ∃ b ∈ db.buckets, b.id = f.bucketId ∧ b.ownerId = userId
  signed : ∃ n ∈ db.nodes, n.id = t.nodeId ∧ parseReceipt sigOk wire n.publicKey = .ok got
  sameNode : got.nodeId = t.nodeId
  sameFragment : got.fragmentId = t.fragmentId
  sameSize : got.size = toUint64 t.sizeBytes

theorem DB.verifyEgress_inv {db : DB} {sigOk : SigCheck} {userId fileId : Uuid} {nonce : Bytes}
    {wire : Text} {t : DownloadTicket} {got : Receipt}
    (verified : db.verifyEgress sigOk userId fileId nonce wire = some (t, got)) :
    db.EgressVerified sigOk userId fileId nonce wire t got := by
  simp only [DB.verifyEgress] at verified
  split at verified
  · cases verified
  rename_i t' publicKey looked
  split at verified
  · cases verified
  rename_i got' parsed
  split at verified
  · cases verified
  rename_i sameIds
  split at verified <;> cases verified
  rename_i sameSize
  simp only [DB.downloadTicketByNonce, Option.map_eq_some_iff] at looked
  obtain ⟨⟨⟨⟨ticket, f⟩, b⟩, n⟩, isFirst, same⟩ := looked
  cases same
  have listed := List.mem_of_find?_eq_some isFirst
  have chosen := List.find?_some isFirst
  simp only [decide_eq_true_eq] at chosen
  simp only [DB.ticketRows, mem_innerJoin, decide_eq_true_eq] at listed
  obtain ⟨⟨⟨inTickets, inFiles, ofFile⟩, inBuckets, ofBucket⟩, inNodes, ofNode⟩ := listed
  rw [not_or, not_not, not_not] at sameIds
  exact
    { ticket := inTickets
      sameNonce := chosen.1
      sameFile := chosen.2.1
      owned := ⟨f, inFiles, ofFile.trans chosen.2.1, b, inBuckets, ofBucket, chosen.2.2⟩
      signed := ⟨n, inNodes, ofNode, parsed⟩
      sameNode := sameIds.1
      sameFragment := sameIds.2
      sameSize := not_not.mp sameSize }

/-- The unsigned parse and the signed one read the same nonce. -/
theorem nonce_of_receiptNonce {wire : Text} {nonce nodePub : Bytes} {sigOk : SigCheck}
    {got : Receipt} (named : receiptNonce wire = some nonce)
    (parsed : parseReceipt sigOk wire nodePub = .ok got) : got.nonce = nonce := by
  obtain ⟨payload, sig, r, wired, _, decoded, rfl⟩ := parseReceipt_inv parsed
  simp only [receiptNonce, wired, decoded] at named
  split at named
  · cases named
  · exact Option.some.inj named

/-- An accepted receipt, as the later loops use it. -/
structure EgressRec where
  nonce : Bytes
  nodeId : Uuid
  bytes : Int
deriving DecidableEq, Repr

/-- The clock readings of one call: of the INSERT for the wire at a position, of the
counter update for a node, and of the events. -/
structure ReportEnv where
  sigOk : SigCheck
  insertAt : Nat → Time
  bumpAt : Uuid → Time
  publishAt : Time

namespace UsageDB

/-- One pass of the validation loop; `none` is `ErrInvalid`. -/
def reportWire (s : UsageDB) (env : ReportEnv) (userId fileId : Uuid) (seen : List Bytes)
    (i : Nat) (wire : Text) : Option (EgressRec × UsageDB) :=
  match receiptNonce wire with
  | none => none
  | some nonce =>
    if nonce ∈ seen then none
    else
      match s.db.verifyEgress env.sigOk userId fileId nonce wire with
      | none => none
      | some (t, got) =>
        match s.consumeDownloadReceipt
            { nonce := nonce, fileId := fileId, fragmentId := t.fragmentId,
              nodeId := t.nodeId, bytes := toInt64 got.size, createdAt := env.insertAt i } with
        | none => none
        | some s' => some (⟨nonce, t.nodeId, toInt64 got.size⟩, s')

/-- The validation loop: the accepted receipts, or `none` for `ErrInvalid`, and the
state it leaves. -/
def reportWires (env : ReportEnv) (userId fileId : Uuid) :
    UsageDB → List Bytes → Nat → List Text → Option (List EgressRec) × UsageDB
  | s, _, _, [] => (some [], s)
  | s, seen, i, wire :: wires =>
    match s.reportWire env userId fileId seen i wire with
    | none => (none, s)
    | some (rec_, s') =>
      match reportWires env userId fileId s' (rec_.nonce :: seen) (i + 1) wires with
      | (none, s'') => (none, s'')
      | (some recs, s'') => (some (rec_ :: recs), s'')

/-- `perNode`: the sum of a node's receipts in 64-bit arithmetic. -/
def perNode (recs : List EgressRec) (nodeId : Uuid) : Int :=
  (((recs.filter fun r => r.nodeId = nodeId).map EgressRec.bytes).sum).bmod (2 ^ 64)

/-- The two loops after validation.  The source ranges over a map, in any order; the
nodes are distinct, so the order does not show in a node's counter. -/
def meterEgress (s : UsageDB) (env : ReportEnv) (userId fileId : Uuid)
    (recs : List EgressRec) : UsageDB :=
  let bumped := (recs.map EgressRec.nodeId).dedup.foldl
    (fun s nodeId => s.bumpNodeBytes nodeId 0 (perNode recs nodeId) (env.bumpAt nodeId)) s
  { bumped with
    published := bumped.published ++ recs.map fun r =>
      { subjectId := userId, window := env.publishAt, nonce := r.nonce, fileId := fileId,
        bytes := r.bytes } }

/-- `ReportDownload`. -/
def reportDownload (s : UsageDB) (env : ReportEnv) (userId fileId : Uuid) (wires : List Text) :
    Except StoreErr Unit × UsageDB :=
  match s.db.fileById userId fileId with
  | .error e => (.error e, s)
  | .ok _ =>
    match reportWires env userId fileId s [] 0 wires with
    | (none, s') => (.error .invalid, s')
    | (some recs, s') => (.ok (), s'.meterEgress env userId fileId recs)

end UsageDB

end StoragePlatform
