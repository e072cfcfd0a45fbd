/-
Module: StoragePlatform.Proofs.Egress
Purpose: Every egress receipt rests on an issued ticket, for every interleaving of
  download plans and reports, and what a customer is charged is bounded by the
  tickets issued to that customer.
Trusted boundary: none
Main exports: ReceiptBacking, Egress.Backed, EgressInv, egressStep_inv, egress_backed
-/
import StoragePlatform.Metadata.Egress
import StoragePlatform.Proofs.Download
import StoragePlatform.Proofs.Owners
import StoragePlatform.Proofs.Report
import StoragePlatform.Store.Meters

namespace StoragePlatform

open Lib List Sample

variable {call call' : EgressCall} {m : EgressMove} {issued : List (Uuid × DownloadTicket)}
variable {db' : DB} {fileId : Uuid} {p : DownloadPlacement} {ref : ShardRef} {r : DownloadReceipt}
variable {i : Nat} {usage : UsageDB}

/-! ### What is claimed of a state -/

/-- What a receipt row rests on: a ticket issued for its file to the owner of the
file, and a reported wire that the node of the ticket has signed for it. -/
structure ReceiptBacking (sigOk : SigCheck) (s : Egress) (r : DownloadReceipt) (owner : Uuid)
    (t : DownloadTicket) (wire : Text) (n : Node) (got : Receipt) : Prop where
  issued : (owner, t) ∈ s.issued
  recorded : t ∈ s.usage.db.downloadTickets
  owns : s.usage.db.OwnsFile owner r.fileId
  nonce : t.nonce = r.nonce
  file : t.fileId = r.fileId
  fragment : t.fragmentId = r.fragmentId
  node : t.nodeId = r.nodeId
  bytes : r.bytes = toInt64 (toUint64 t.sizeBytes)
  reported : (owner, r.fileId, wire) ∈ s.reported
  known : n ∈ s.usage.db.nodes ∧ n.id = r.nodeId
  signed : parseReceipt sigOk wire n.publicKey = .ok got
  agrees : got.nodeId = t.nodeId ∧ got.fragmentId = t.fragmentId ∧
    got.size = toUint64 t.sizeBytes ∧ got.nonce = t.nonce

def Egress.Backed (sigOk : SigCheck) (s : Egress) (r : DownloadReceipt) : Prop :=
  ∃ owner t wire n got, ReceiptBacking sigOk s r owner t wire n got

/-- The bytes a customer is charged for over a set of hours. -/
def UsageDB.customerEgress (s : UsageDB) (customer : Uuid) (hours : Time → Bool) : Int :=
  total (fun row => row.1.1.bytes)
    (fun row => decide (row.2.ownerId = customer) && hours (truncHour row.1.1.createdAt))
    s.receiptRows

/-- The sizes of the tickets issued to a customer. -/
def Egress.issuedBytes (s : Egress) (customer : Uuid) : Int :=
  total (fun issue => issue.2.sizeBytes) (fun issue => decide (issue.1 = customer)) s.issued

/-- A ticket about to be issued is for a fragment of non-negative size. -/
def issuesBytes (s : Egress) : EgressEvent → Bool
  | .move i (.issue _) =>
    match s.downloads[i]? with
    | some (.planning _ _ _ _ (p :: _) _) => 0 ≤ p.fragment.sizeBytes
    | _ => true
  | _ => true

/-! ### One statement of a call -/

section Statement

variable {s s' : UsageDB} {sigOk : SigCheck}

/-- What a statement of a download call does. -/
inductive DownloadStep (sigOk : SigCheck) (s : UsageDB) :
    EgressCall → EgressMove → EgressCall → UsageDB → List (Uuid × DownloadTicket) → Prop
  | ended {call : EgressCall} {m : EgressMove} : DownloadStep sigOk s call m .done s []
  | version {ownerId : Uuid} {f : File} {v : FileVersion} :
      DownloadStep sigOk s (.fileFound ownerId f) .loadVersion (.versionFound ownerId f v) s []
  | rows {ownerId : Uuid} {f : File} {v : FileVersion} {rest : List DownloadChunk} :
      DownloadStep sigOk s (.versionFound ownerId f v) .loadRows
        (.planning ownerId f.id v.need 0 [] rest) s []
  | chunk {ownerId fileId : Uuid} {need total : Nat} {picked : List DownloadPlacement}
      {ch : DownloadChunk} {rest : List DownloadChunk} :
      DownloadStep sigOk s (.planning ownerId fileId need total [] (ch :: rest)) .nextChunk
        (.planning ownerId fileId need total picked rest) s []
  | issued {ownerId fileId : Uuid} {need total : Nat} {p : DownloadPlacement}
      {current : List DownloadPlacement} {rest : List DownloadChunk} {env : DownloadEnv}
      {ref : ShardRef} {db' : DB} (ok : s.db.issueTicket env fileId p = .ok (ref, db')) :
      DownloadStep sigOk s (.planning ownerId fileId need total (p :: current) rest) (.issue env)
        (.planning ownerId fileId need (total + 1) current rest) { s with db := db' }
        ((issuedTicket env fileId p).map fun t => (ownerId, t)).toList
  | found {userId fileId : Uuid} {recs : List EgressRec} {wire : Text} {wires : List Text}
      {nonce : Bytes} {t : DownloadTicket} {got : Receipt}
      (named : receiptNonce wire = some nonce)
      (verified : s.db.verifyEgress sigOk userId fileId nonce wire = some (t, got)) :
      DownloadStep sigOk s (.reporting userId fileId recs (wire :: wires)) .lookup
        (.verified userId fileId recs nonce t got wires) s []
  | consumed {userId fileId : Uuid} {recs recs' : List EgressRec} {nonce : Bytes}
      {t : DownloadTicket} {got : Receipt} {wires : List Text} {now : Time} {s' : UsageDB}
      (ok : s.consumeDownloadReceipt
        { nonce := nonce, fileId := fileId, fragmentId := t.fragmentId, nodeId := t.nodeId,
          bytes := toInt64 got.size, createdAt := now } = some s') :
      DownloadStep sigOk s (.verified userId fileId recs nonce t got wires) (.consume now)
        (.reporting userId fileId recs' wires) s' []
  | metered {userId fileId : Uuid} {recs : List EgressRec} {env : ReportEnv} :
      DownloadStep sigOk s (.reporting userId fileId recs []) (.meter env) .done
        (s.meterEgress env userId fileId recs) []

theorem advanceDownload_inv (moved : s.advanceDownload sigOk call m = some (call', s', issued)) :
    DownloadStep sigOk s call m call' s' issued := by
  unfold UsageDB.advanceDownload at moved
  repeat' first | split at moved | dsimp only at moved
  all_goals cases moved
  any_goals exact .ended
  · exact .version
  · exact .rows
  · exact .chunk
  · exact .issued ‹_›
  · exact .found ‹_› ‹_›
  · exact .consumed ‹_›
  · exact .metered

end Statement

/-! ### The invariant -/

section Invariant

variable {sigOk : SigCheck} {s t : Egress}

/-- What holds of a call between two statements. -/
def Egress.CallOk (sigOk : SigCheck) (s : Egress) : EgressCall → Prop
  | .done => True
  | .fileFound ownerId f => s.usage.db.OwnsFile ownerId f.id
  | .versionFound ownerId f _ => s.usage.db.OwnsFile ownerId f.id
  | .planning ownerId fileId _ _ _ _ => s.usage.db.OwnsFile ownerId fileId
  | .reporting userId fileId _ wires => ∀ wire ∈ wires, (userId, fileId, wire) ∈ s.reported
  | .verified userId fileId _ nonce t got wires =>
    (∀ wire ∈ wires, (userId, fileId, wire) ∈ s.reported) ∧
      ∀ now, s.Backed sigOk
        { nonce := nonce, fileId := fileId, fragmentId := t.fragmentId, nodeId := t.nodeId,
          bytes := toInt64 got.size, createdAt := now }

structure EgressInv (sigOk : SigCheck) (s : Egress) : Prop where
  schema : s.usage.db.Schema
  bucket_pk : UniqueOn Bucket.id s.usage.db.buckets
  ticket_pk : UniqueOn DownloadTicket.nonce s.usage.db.downloadTickets
  receipt_pk : UniqueOn DownloadReceipt.nonce s.usage.receipts
  tickets : ∀ t ∈ s.usage.db.downloadTickets, ∃ owner, (owner, t) ∈ s.issued ∧
    s.usage.db.OwnsFile owner t.fileId
  receipts : ∀ r ∈ s.usage.receipts, s.Backed sigOk r
  calls : ∀ call ∈ s.downloads, s.CallOk sigOk call

/-- What no step takes away from a receipt. -/
structure EgressGrows (s t : Egress) : Prop where
  owns : ∀ {userId fileId : Uuid}, s.usage.db.OwnsFile userId fileId →
    t.usage.db.OwnsFile userId fileId
  tickets : s.usage.db.downloadTickets ⊆ t.usage.db.downloadTickets
  nodes : Carried Node.Kept s.usage.db.nodes t.usage.db.nodes
  issued : s.issued ⊆ t.issued
  reported : s.reported ⊆ t.reported

theorem EgressGrows.of_db (db : t.usage.db = s.usage.db) (issued : s.issued ⊆ t.issued)
    (reported : s.reported ⊆ t.reported) : EgressGrows s t where
  owns owns := db ▸ owns
  tickets := by rw [db]; exact List.Subset.refl _
  nodes := by rw [db]; exact .of_subset Node.Kept.refl (List.Subset.refl _)
  issued := issued
  reported := reported

theorem Egress.Backed.grow (backed : s.Backed sigOk r) (grows : EgressGrows s t) :
    t.Backed sigOk r := by
  obtain ⟨owner, ticket, wire, n, got, backing⟩ := backed
  obtain ⟨n', inNodes', sameId, sameKey, -⟩ := grows.nodes n backing.known.1
  exact ⟨owner, ticket, wire, n', got,
    { backing with
      issued := grows.issued backing.issued
      recorded := grows.tickets backing.recorded
      owns := grows.owns backing.owns
      reported := grows.reported backing.reported
      known := ⟨inNodes', sameId.trans backing.known.2⟩
      signed := by rw [sameKey]; exact backing.signed }⟩

theorem Egress.CallOk.grow (ok : s.CallOk sigOk call) (grows : EgressGrows s t) :
    t.CallOk sigOk call := by
  cases call with
  | done => trivial
  | fileFound | versionFound | planning => exact grows.owns ok
  | reporting => exact fun wire member => grows.reported (ok wire member)
  | verified =>
    exact ⟨fun wire member => grows.reported (ok.1 wire member), fun now => (ok.2 now).grow grows⟩

section Step

variable (inv : EgressInv sigOk s)
include inv

/-- One step: the keys hold, and every new row and call is accounted for. -/
theorem EgressInv.next (grows : EgressGrows s t)
    (schema : t.usage.db.Schema) (bucket_pk : UniqueOn Bucket.id t.usage.db.buckets)
    (ticket_pk : UniqueOn DownloadTicket.nonce t.usage.db.downloadTickets)
    (receipt_pk : UniqueOn DownloadReceipt.nonce t.usage.receipts)
    (tickets : ∀ ticket ∈ t.usage.db.downloadTickets, ticket ∈ s.usage.db.downloadTickets ∨
      ∃ owner, (owner, ticket) ∈ t.issued ∧ t.usage.db.OwnsFile owner ticket.fileId)
    (receipts : ∀ r ∈ t.usage.receipts, r ∈ s.usage.receipts ∨ t.Backed sigOk r)
    (calls : ∀ call ∈ t.downloads, call ∈ s.downloads ∨ t.CallOk sigOk call) :
    EgressInv sigOk t where
  schema := schema
  bucket_pk := bucket_pk
  ticket_pk := ticket_pk
  receipt_pk := receipt_pk
  tickets ticket member := by
    rcases tickets ticket member with old | new
    · obtain ⟨owner, issued, owns⟩ := inv.tickets ticket old
      exact ⟨owner, grows.issued issued, grows.owns owns⟩
    · exact new
  receipts r member := by
    rcases receipts r member with old | new
    · exact (inv.receipts r old).grow grows
    · exact new
  calls call member := by
    rcases calls call member with old | new
    · exact (inv.calls call old).grow grows
    · exact new

/-- A step that writes neither tickets nor receipts. -/
theorem EgressInv.quiet (db : t.usage.db = s.usage.db)
    (receipts : t.usage.receipts = s.usage.receipts) (issued : t.issued = s.issued)
    (reported : s.reported ⊆ t.reported)
    (calls : ∀ call ∈ t.downloads, call ∈ s.downloads ∨ t.CallOk sigOk call) :
    EgressInv sigOk t := by
  refine inv.next (.of_db db ?_ reported) (db ▸ inv.schema) (db ▸ inv.bucket_pk)
    (db ▸ inv.ticket_pk) (receipts ▸ inv.receipt_pk) ?_ ?_ calls
  · rw [issued]
    exact List.Subset.refl _
  · exact fun ticket member => .inl (db ▸ member)
  · exact fun r member => .inl (receipts ▸ member)

theorem EgressInv.system {e : Event} {next : System}
    (moved : step sigOk { db := s.usage.db, calls := s.calls } e = some next) :
    EgressInv sigOk
      { s with usage := { s.usage with db := next.db }, calls := next.calls } := by
  have owned := step_grows moved
  refine inv.next ?_ (step_schema _ e next inv.schema moved) (owned.bucket_pk inv.bucket_pk) ?_
    inv.receipt_pk ?_ ?_ ?_
  · exact
      { owns := fun owns => owns.carried owned
        tickets := by rw [owned.tickets]; exact List.Subset.refl _
        nodes := owned.nodes
        issued := List.Subset.refl _
        reported := List.Subset.refl _ }
  · rw [owned.tickets]
    exact inv.ticket_pk
  · rw [owned.tickets]
    exact fun _ member => .inl member
  · exact fun _ member => .inl member
  · exact fun _ member => .inl member

omit inv in
/-- The call whose turn it is, or another one. -/
theorem calls_set {P : EgressCall → Prop} (ok : P call') {downloads : List EgressCall} :
    ∀ call ∈ downloads.set i call', call ∈ downloads ∨ P call := by
  intro call member
  rcases mem_or_eq_of_mem_set member with old | rfl
  · exact .inl old
  · exact .inr ok

theorem EgressInv.issue {ownerId : Uuid} {need total : Nat}
    {current : List DownloadPlacement} {rest : List DownloadChunk} {env : DownloadEnv}
    (owns : s.usage.db.OwnsFile ownerId fileId)
    (ok : s.usage.db.issueTicket env fileId p = .ok (ref, db')) :
    EgressInv sigOk
      { s with
        usage := { s.usage with db := db' }
        downloads := s.downloads.set i (.planning ownerId fileId need (total + 1) current rest)
        issued := s.issued ++
          ((issuedTicket env fileId p).map fun ticket => (ownerId, ticket)).toList } := by
  rcases DB.issueTicket_recorded ok with rfl | ⟨ticket, isTicket, fresh, rfl⟩
  · refine inv.next (.of_db rfl (subset_append_left _ _) (List.Subset.refl _)) inv.schema
      inv.bucket_pk inv.ticket_pk inv.receipt_pk ?_ ?_ ?_
    · exact fun _ member => .inl member
    · exact fun _ member => .inl member
    · exact calls_set owns
  · rw [isTicket]
    refine inv.next ?_ { inv.schema with } inv.bucket_pk (inv.ticket_pk.append_singleton fresh)
      inv.receipt_pk ?_ ?_ ?_
    · exact
        { owns := id
          tickets := subset_append_left _ _
          nodes := .of_subset Node.Kept.refl (List.Subset.refl _)
          issued := subset_append_left _ _
          reported := List.Subset.refl _ }
    · intro other member
      rcases mem_append_row.mp member with old | rfl
      · exact .inl old
      · refine .inr ⟨ownerId, by simp, ?_⟩
        rw [(issuedTicket_some isTicket).1]
        exact owns
    · exact fun _ member => .inl member
    · exact calls_set owns

/-- A wire that has passed the checks backs the row it will become. -/
theorem EgressInv.backed_of_verified {userId : Uuid} {nonce : Bytes}
    {wire : Text} {ticket : DownloadTicket} {got : Receipt} (named : receiptNonce wire = some nonce)
    (checked : s.usage.db.EgressVerified sigOk userId fileId nonce wire ticket got)
    (reported : (userId, fileId, wire) ∈ s.reported) (now : Time) :
    s.Backed sigOk
      { nonce := nonce, fileId := fileId, fragmentId := ticket.fragmentId,
        nodeId := ticket.nodeId, bytes := toInt64 got.size, createdAt := now } := by
  obtain ⟨owner, issued, owns⟩ := inv.tickets ticket checked.ticket
  obtain ⟨n, inNodes, sameId, parsed⟩ := checked.signed
  rw [checked.sameFile] at owns
  -- the ticket was issued to the owner of the file, and the caller owns it
  obtain rfl : owner = userId := owns.unique checked.owned inv.schema.file_pk inv.bucket_pk
  exact ⟨owner, ticket, wire, n, got,
    { issued := issued
      recorded := checked.ticket
      owns := owns
      nonce := checked.sameNonce
      file := checked.sameFile
      fragment := rfl
      node := rfl
      bytes := by rw [checked.sameSize]
      reported := reported
      known := ⟨inNodes, sameId⟩
      signed := parsed
      agrees := ⟨checked.sameNode, checked.sameFragment, checked.sameSize,
        (nonce_of_receiptNonce named parsed).trans checked.sameNonce.symm⟩ }⟩

theorem EgressInv.consume (backed : s.Backed sigOk r) (callOk : s.CallOk sigOk call')
    (ok : s.usage.consumeDownloadReceipt r = some usage) :
    EgressInv sigOk { s with usage := usage, downloads := s.downloads.set i call' } := by
  obtain ⟨fresh, -, rfl⟩ := UsageDB.consumeDownloadReceipt_ok ok
  have grows : EgressGrows s
      { s with
        usage := { s.usage with receipts := s.usage.receipts ++ [r] }
        downloads := s.downloads.set i call' } :=
    .of_db rfl (List.Subset.refl _) (List.Subset.refl _)
  refine inv.next grows inv.schema inv.bucket_pk inv.ticket_pk
    (inv.receipt_pk.append_singleton fresh) ?_ ?_ (calls_set (callOk.grow grows))
  · exact fun _ member => .inl member
  · intro row member
    rcases mem_append_row.mp member with old | rfl
    · exact .inl old
    · exact .inr (backed.grow grows)

theorem EgressInv.move (current : s.downloads[i]? = some call)
    (moved : DownloadStep sigOk s.usage call m call' usage issued) :
    EgressInv sigOk
      { s with usage := usage, downloads := s.downloads.set i call',
               issued := s.issued ++ issued } := by
  have callOk := inv.calls call (mem_of_getElem? current)
  cases moved with
  | ended => exact inv.quiet rfl rfl (append_nil _) (List.Subset.refl _) (calls_set trivial)
  | version | rows | chunk =>
    refine inv.quiet rfl rfl (append_nil _) (List.Subset.refl _) (calls_set ?_)
    exact callOk
  | issued ok => exact inv.issue callOk ok
  | found named verified =>
    have checked := DB.verifyEgress_inv verified
    have backed := inv.backed_of_verified named checked (callOk _ mem_cons_self)
    rw [append_nil]
    refine inv.quiet rfl rfl rfl (List.Subset.refl _) (calls_set ?_)
    exact ⟨fun wire member => callOk wire (mem_cons_of_mem _ member),
      fun now => (backed now).grow (.of_db rfl (List.Subset.refl _) (List.Subset.refl _))⟩
  | consumed ok =>
    rw [append_nil]
    exact inv.consume (callOk.2 _) callOk.1 ok
  | @metered userId fileId recs env =>
    obtain ⟨stats, metered⟩ := s.usage.meterEgress_frame env userId fileId recs
    rw [metered]
    exact inv.quiet rfl rfl (append_nil _) (List.Subset.refl _) (calls_set trivial)

end Step

theorem egressStep_inv (s : Egress) (e : EgressEvent) (t : Egress) (inv : EgressInv sigOk s)
    (moved : egressStep sigOk s e = some t) : EgressInv sigOk t := by
  cases e with
  | system e =>
    simp only [egressStep] at moved
    split at moved <;> cases moved
    rename_i next stepped
    exact inv.system stepped
  | planDownload ownerId fileId =>
    simp only [egressStep] at moved
    split at moved <;> cases moved
    rename_i f found
    obtain ⟨inFiles, named, -, owned⟩ := DB.fileById_mem found
    refine inv.quiet rfl rfl rfl (List.Subset.refl _) fun call member => ?_
    rcases mem_append_row.mp member with old | rfl
    · exact .inl old
    · refine .inr ?_
      exact ⟨f, inFiles, rfl, owned⟩
  | reportDownload userId fileId wires =>
    simp only [egressStep] at moved
    split at moved <;> cases moved
    refine inv.quiet rfl rfl rfl (subset_append_left _ _) fun call member => ?_
    rcases mem_append_row.mp member with old | rfl
    · exact .inl old
    · exact .inr fun wire inWires => mem_append_right _ (mem_map_of_mem inWires)
  | move i m =>
    simp only [egressStep] at moved
    split at moved
    · cases moved
    · rename_i call current
      split at moved <;> cases moved
      rename_i advanced
      exact inv.move current (advanceDownload_inv advanced)

theorem EgressInv.init : EgressInv sigOk Egress.init where
  schema := DB.Schema.empty
  bucket_pk := .nil _
  ticket_pk := .nil _
  receipt_pk := .nil _
  tickets _ member := by cases member
  receipts _ member := by cases member
  calls _ member := by cases member

/-! ### The bound -/

/-- The receipts of a customer have distinct tickets of that customer behind them. -/
theorem EgressInv.charged_le (inv : EgressInv sigOk s)
    (nonneg : ∀ issue ∈ s.issued, 0 ≤ issue.2.sizeBytes) (customer : Uuid)
    (hours : Time → Bool) : s.usage.customerEgress customer hours ≤ s.issuedBytes customer := by
  have oneFile : UniqueOn (fun row : DownloadReceipt × File => row.1.nonce)
      (innerJoin (fun r f => f.id = r.fileId) s.usage.receipts s.usage.db.files) := by
    refine inv.receipt_pk.innerJoin inv.schema.file_pk.nodup ?_
    intro r _ f inFiles f' inFiles' same same'
    exact inv.schema.file_pk.eq_of_key inFiles inFiles'
      ((of_decide_eq_true same).trans (of_decide_eq_true same').symm)
  have oneRow : UniqueOn (fun row : (DownloadReceipt × File) × Bucket => row.1.1.nonce)
      s.usage.receiptRows := by
    refine oneFile.innerJoin inv.bucket_pk.nodup ?_
    intro row _ b inBuckets b' inBuckets' same same'
    exact inv.bucket_pk.eq_of_key inBuckets inBuckets'
      ((of_decide_eq_true same).trans (of_decide_eq_true same').symm)
  refine total_le_of_key (fun issue : Uuid × DownloadTicket => issue.2.nonce) oneRow ?_
    fun issue member _ => nonneg issue member
  rintro ⟨⟨r, f⟩, b⟩ member chosen
  simp only [UsageDB.receiptRows, mem_innerJoin, decide_eq_true_eq] at member
  obtain ⟨⟨inReceipts, inFiles, ofFile⟩, inBuckets, ofBucket⟩ := member
  simp only [Bool.and_eq_true, decide_eq_true_eq] at chosen
  obtain ⟨owner, ticket, wire, n, got, backing⟩ := inv.receipts r inReceipts
  have own : s.usage.db.OwnsFile customer r.fileId :=
    ⟨f, inFiles, ofFile, b, inBuckets, ofBucket, chosen.1⟩
  obtain rfl := backing.owns.unique own inv.schema.file_pk inv.bucket_pk
  refine ⟨(owner, ticket), backing.issued, by simp, backing.nonce, ?_⟩
  dsimp only
  rw [backing.bytes]
  exact toInt64_toUint64_le (nonneg _ backing.issued)

/-- Steps that meet the condition issue no negative ticket. -/
theorem egressStep_nonneg {e : EgressEvent} (moved : egressStep sigOk s e = some t)
    (bytes : issuesBytes s e = true) (nonneg : ∀ issue ∈ s.issued, 0 ≤ issue.2.sizeBytes) :
    ∀ issue ∈ t.issued, 0 ≤ issue.2.sizeBytes := by
  cases e with
  | system | planDownload | reportDownload =>
    simp only [egressStep] at moved
    split at moved <;> cases moved
    exact nonneg
  | move i m =>
    simp only [egressStep] at moved
    split at moved
    · cases moved
    · rename_i call current
      split at moved <;> cases moved
      rename_i advanced
      cases advanceDownload_inv advanced with
      | issued ok =>
        simp only [issuesBytes, current, decide_eq_true_eq] at bytes
        intro issue member
        rcases mem_append.mp member with old | new
        · exact nonneg issue old
        · obtain ⟨ticket, isTicket, rfl⟩ := Option.map_eq_some_iff.mp (Option.mem_toList.mp new)
          rw [(issuedTicket_some isTicket).2]
          exact bytes
      | _ => simpa using nonneg

end Invariant

/-- For every signature check and every interleaving of plans, reports with arbitrary
wires and steps of the control plane, in every state: each receipt rests on a ticket
issued for its file to the owner of the file and on a wire its node has signed, and
each nonce has one receipt.  If no ticket is for a negative size, no customer is
charged more than the tickets issued to that customer, in whatever hours. -/
theorem egress_backed (sigOk : SigCheck) (events : List EgressEvent) :
    EveryState (egressStep sigOk)
      (fun s => (∀ r ∈ s.usage.receipts, s.Backed sigOk r) ∧
        UniqueOn DownloadReceipt.nonce s.usage.receipts) Egress.init events ∧
    (EveryStep (egressStep sigOk) (fun s e _ => issuesBytes s e = true) Egress.init events →
      EveryState (egressStep sigOk)
        (fun s => ∀ customer hours, s.usage.customerEgress customer hours ≤ s.issuedBytes customer)
        Egress.init events) := by
  constructor
  · refine EveryState.mono (P := EgressInv sigOk) (fun s inv => ⟨inv.receipts, inv.receipt_pk⟩) ?_
    exact EveryState.of_step (fun s e t inv moved _ => egressStep_inv s e t inv moved)
      EgressInv.init EveryStep.unguarded
  · intro bytes
    refine EveryState.mono
      (P := fun s => EgressInv sigOk s ∧ ∀ issue ∈ s.issued, 0 ≤ issue.2.sizeBytes)
      (fun s inv customer hours => inv.1.charged_le inv.2 customer hours) ?_
    refine EveryState.of_step (fun s e t inv moved good => ?_)
      ⟨EgressInv.init, by simp [Egress.init]⟩
      bytes
    exact ⟨egressStep_inv s e t inv.1 moved, egressStep_nonneg moved good inv.2⟩

/-- Steps of the control plane run alike with downloads beside them. -/
theorem exec_egress_system {sigOk : SigCheck} {s : Egress} {events : List Event} {t : System}
    (run : exec (step sigOk) ⟨s.usage.db, s.calls⟩ events = some t) :
    exec (egressStep sigOk) s (events.map .system) =
      some { s with usage := { s.usage with db := t.db }, calls := t.calls } :=
  exec_map (fun s => ⟨s.usage.db, s.calls⟩) (fun (s : Egress) (t : System) =>
      { s with usage := { s.usage with db := t.db }, calls := t.calls })
    (fun s e u moved => by simp only [egressStep, moved]) (fun _ _ => rfl) (fun _ _ _ => rfl)
    (fun _ => rfl) run

namespace Sample

/-- Tickets with the given byte in their nonce. -/
def ticketEnv (b : UInt8) : DownloadEnv where
  sign := sign
  nonce _ := some (List.replicate 16 b)
  record _ := true

/-- Two tickets are issued, and the receipt for the first is reported. -/
def served : List EgressEvent :=
  [.planDownload owner (gen 0), .move 0 .loadVersion, .move 0 .loadRows, .move 0 .nextChunk,
    .move 0 (.issue (ticketEnv 7)), .move 0 (.issue (ticketEnv 8)),
    .reportDownload owner (gen 0) [egressWire], .move 1 .lookup, .move 1 (.consume 0)]

def serving (uploaded : List Event) : List EgressEvent := uploaded.map .system ++ served

/-- The state after the upload of the worked run. -/
def uploadedEgress : Egress :=
  { Egress.init with
    usage := { Egress.init.usage with db := committed.db }, calls := committed.calls }

theorem uploadedEgress_reached :
    exec (egressStep toySig) Egress.init (upload.map .system) = some uploadedEgress :=
  exec_egress_system (s := Egress.init) upload_committed

end Sample

theorem served_within_tickets :
    ∃ t, exec (egressStep toySig) Egress.init (serving upload) = some t ∧
      t.usage.receipts.map DownloadReceipt.bytes = [1] ∧
      t.usage.customerEgress owner (fun _ => true) ≤ t.issuedBytes owner := by
  have ran : (exec (egressStep toySig) Egress.init (serving upload)).map
      (fun t => t.usage.receipts.map DownloadReceipt.bytes) = some [1] := by
    rw [serving, exec_append, uploadedEgress_reached]
    decide +kernel
  obtain ⟨t, run, charged⟩ := Option.map_eq_some_iff.mp ran
  have issues : EveryStep (egressStep toySig) (fun s e _ => issuesBytes s e = true) Egress.init
      (serving upload) := by
    refine EveryStep.append_of (EveryStep.of_label fun e member s t => ?_) fun s reached => ?_
    · obtain ⟨e, -, rfl⟩ := mem_map.mp member
      rfl
    · obtain rfl := Option.some.inj (uploadedEgress_reached.symm.trans reached)
      decide +kernel
  have within := (egress_backed toySig (serving upload)).2 issues
  exact ⟨t, run, charged, within.last run owner _⟩

namespace Sample

/-- The shards of a chunk whose second one has the size -5. -/
def debitFragment (i : Nat) : Fragment :=
  { fragment i with sizeBytes := if i = 1 then -5 else 1 }

def debitManifest : UploadManifest :=
  { manifest with
    chunks :=
      [{ seq := 0, sizeBytes := 10, sha256 := digest,
         fragments := (List.range 16).map fun i : Nat =>
           { shardIndex := i, sizeBytes := (debitFragment i).sizeBytes, sha256 := digest } }] }

def debitWire (i : Nat) : Text :=
  encodeWire
    (Receipt.encode
      { nodeId := (node i).id, fragmentId := (debitFragment i).id, sha256 := digest,
        size := toUint64 (debitFragment i).sizeBytes, storedAt := 0, nonce := [], raw := [] })
    ((node i).publicKey ++ (node i).publicKey)

def debitUpload : List Event :=
  planRun debitManifest ++
    [.request (.commitUpload owner (gen 1) ((List.range 14).map debitWire)
        ((List.range 14).map fun i => { target (i + 1) i i with fragment := debitFragment i })),
      .move 1 .commit]

end Sample

/-- The manifest names a negative shard and is accepted.  Of the two tickets only the
first is reported: the customer is charged for 1 byte, the tickets sum to -4. -/
theorem charged_above_tickets :
    (exec (egressStep toySig) Egress.init (serving debitUpload)).map
      (fun t => (t.usage.customerEgress owner (fun _ => true),
        t.issuedBytes owner)) = some (1, -4) := by
  decide +kernel

end StoragePlatform
