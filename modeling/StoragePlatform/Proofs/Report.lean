/-
Module: StoragePlatform.Proofs.Report
Purpose: What one ReportDownload leaves in the three egress meters, for every list
  of wires and every clock.
Trusted boundary: none
Main exports: UsageDB.MetersAgree, UsageDB.acceptable, OneHour, report_agrees_iff
-/
import StoragePlatform.Lib.Totals
import StoragePlatform.Metadata.Report
import StoragePlatform.Proofs.Steps

namespace StoragePlatform

open Lib List Sample

variable {seen : List Bytes} {i : Nat} {rec_ : EgressRec} {env : ReportEnv} {recs : List EgressRec}
variable {wire : Text}

/-! ### The three meters -/

/-- The node a ticket nonce was issued for. -/
def DB.ticketNode (db : DB) (nonce : Bytes) : Option Uuid :=
  (db.downloadTickets.find? fun t => t.nonce = nonce).map DownloadTicket.nodeId

namespace UsageDB

/-- `bytes_served` of a node and an hour. -/
def servedBytes (s : UsageDB) (nodeId : Uuid) (hour : Time) : Int :=
  total NodeStat.bytesServed (fun row => decide ((row.nodeId, row.windowStart) = (nodeId, hour)))
    s.stats

/-- The receipts of a node created in an hour. -/
def egressBytes (s : UsageDB) (nodeId : Uuid) (hour : Time) : Int :=
  total DownloadReceipt.bytes
    (fun r => decide (r.nodeId = nodeId) && decide (truncHour r.createdAt = hour)) s.receipts

/-- All receipts of a node. -/
def egressTotal (s : UsageDB) (nodeId : Uuid) : Int :=
  total DownloadReceipt.bytes (fun r => decide (r.nodeId = nodeId)) s.receipts

/-- The published egress of the tickets of a node. -/
def eventBytes (s : UsageDB) (nodeId : Uuid) : Int :=
  total UsageEvent.bytes (fun e => decide (s.db.ticketNode e.nonce = some nodeId)) s.published

/-- The counter of the node has grown in every hour by the receipts created in that
hour, and the events have grown by the receipts. -/
def MetersAgree (before after : UsageDB) (nodeId : Uuid) : Prop :=
  (∀ hour, after.servedBytes nodeId hour - before.servedBytes nodeId hour =
    after.egressBytes nodeId hour - before.egressBytes nodeId hour) ∧
  after.eventBytes nodeId - before.eventBytes nodeId =
    after.egressTotal nodeId - before.egressTotal nodeId

/-! ### The condition -/

/-- What a wire yields as the only one of a call. -/
def acceptable (s : UsageDB) (env : ReportEnv) (userId fileId : Uuid) (wire : Text) :
    Option EgressRec :=
  (s.reportWire env userId fileId [] 0 wire).map Prod.fst

/-- Every wire is acceptable on its own and no two name the same nonce. -/
def ValidReport (s : UsageDB) (env : ReportEnv) (userId fileId : Uuid) (wires : List Text)
    (recs : List EgressRec) : Prop :=
  wires.mapM (s.acceptable env userId fileId) = some recs ∧ (recs.map EgressRec.nonce).Nodup

end UsageDB

/-- The receipts with the clock readings of their INSERTs. -/
def stamped (env : ReportEnv) : Nat → List EgressRec → List (EgressRec × Time)
  | _, [] => []
  | i, r :: recs => (r, env.insertAt i) :: stamped env (i + 1) recs

/-- Per node, no bytes are stamped in another hour than that of the counter update,
and the sum fits 64 bits. -/
def OneHour (env : ReportEnv) (recs : List EgressRec) : Prop :=
  ∀ nodeId, InInt64 (total EgressRec.bytes (fun r => decide (r.nodeId = nodeId)) recs) ∧
    ∀ hour, hour ≠ truncHour (env.bumpAt nodeId) →
      total (fun st => st.1.bytes)
        (fun st => decide (st.1.nodeId = nodeId) && decide (truncHour st.2 = hour))
        (stamped env 0 recs) = 0

/-- A report whose wires are all good has its clock readings in one hour; in any
other report the first wire is bad already. -/
def UsageDB.ReportClean (s : UsageDB) (env : ReportEnv) (userId fileId : Uuid)
    (wires : List Text) : Prop :=
  ∀ file, s.db.fileById userId fileId = .ok file →
    (∀ recs, s.ValidReport env userId fileId wires recs → OneHour env recs) ∧
    ((¬ ∃ recs, s.ValidReport env userId fileId wires recs) →
      ∀ wire, wires.head? = some wire → s.acceptable env userId fileId wire = none)

open UsageDB

/-! ### One wire -/

section Wire

variable {s s' : UsageDB} {userId fileId : Uuid}

/-- A state of the validation loop: the receipts accepted so far are appended, and
`seen` are their nonces. -/
structure InLoop (s s' : UsageDB) (seen : List Bytes) : Prop where
  db : s'.db = s.db
  receipts : ∃ added, s'.receipts = s.receipts ++ added ∧
    ∀ nonce, (∃ r ∈ added, r.nonce = nonce) ↔ nonce ∈ seen

/-- The row an accepted receipt becomes. -/
structure EgressRow (env : ReportEnv) (fileId : Uuid) (i : Nat) (rec_ : EgressRec)
    (r : DownloadReceipt) : Prop where
  nonce : r.nonce = rec_.nonce
  fileId : r.fileId = fileId
  nodeId : r.nodeId = rec_.nodeId
  bytes : r.bytes = rec_.bytes
  createdAt : r.createdAt = env.insertAt i

theorem InLoop.start (s : UsageDB) : InLoop s s [] where
  db := rfl
  receipts := ⟨[], by simp, by simp⟩

theorem InLoop.any_nonce (loop : InLoop s s' seen) (nonce : Bytes) :
    (s'.receipts.any fun old => old.nonce = nonce) = true ↔
      (s.receipts.any fun old => old.nonce = nonce) = true ∨ nonce ∈ seen := by
  obtain ⟨added, grown, named⟩ := loop.receipts
  simp only [grown, any_append, Bool.or_eq_true, ← named nonce]
  simp only [any_eq_true, decide_eq_true_eq]

/-- In the loop a wire is accepted exactly if it is acceptable on its own and its
nonce is new; the state grows by its row. -/
theorem reportWire_iff {seen : List Bytes} (loop : InLoop s s' seen) (i : Nat) (wire : Text) :
    (∀ rec_ s'', s'.reportWire env userId fileId seen i wire = some (rec_, s'') →
      s.acceptable env userId fileId wire = some rec_ ∧ rec_.nonce ∉ seen ∧
        ∃ r, EgressRow env fileId i rec_ r ∧ s'' = { s' with receipts := s'.receipts ++ [r] }) ∧
    (∀ rec_, s.acceptable env userId fileId wire = some rec_ → rec_.nonce ∉ seen →
      (s'.reportWire env userId fileId seen i wire).isSome) := by
  have sameDb := loop.db
  simp only [acceptable, reportWire, sameDb]
  cases receiptNonce wire with
  | none => simp
  | some nonce =>
    dsimp only
    cases s.db.verifyEgress env.sigOk userId fileId nonce wire with
    | none => simp
    | some pair =>
      obtain ⟨t, got⟩ := pair
      dsimp only
      have conflict := loop.any_nonce nonce
      simp only [consumeDownloadReceipt, sameDb, conflict]
      constructor
      · intro rec_ s'' accepted
        split at accepted
        · cases accepted
        · rename_i unseen
          split at accepted
          · cases accepted
          · rename_i row inserted
            split at inserted <;> cases inserted
            rename_i fine
            cases accepted
            refine ⟨?_, unseen, ⟨nonce, fileId, t.fragmentId, t.nodeId, toInt64 got.size,
              env.insertAt i⟩, ⟨rfl, rfl, rfl, rfl, rfl⟩, rfl⟩
            have alone : ¬ ((s.receipts.any fun old => old.nonce = nonce) = true ∨
                ¬ (s.db.files.any fun f => f.id = fileId) = true ∨
                ¬ (s.db.fragments.any fun fr => fr.id = t.fragmentId) = true ∨
                ¬ (s.db.nodes.any fun n => n.id = t.nodeId) = true) :=
              fun bad => fine (bad.imp_left .inl)
            simp only [not_mem_nil, if_false, if_neg alone, Option.map_some]
      · intro rec_ accepted unseen
        simp only [not_mem_nil, if_false] at accepted
        split at accepted
        · cases accepted
        · rename_i row inserted
          split at inserted
          · cases inserted
          · rename_i fine
            simp only [Option.map_some, Option.some.injEq] at accepted
            subst accepted
            have still : ¬ (((s.receipts.any fun old => old.nonce = nonce) = true ∨ nonce ∈ seen) ∨
                ¬ (s.db.files.any fun f => f.id = fileId) = true ∨
                ¬ (s.db.fragments.any fun fr => fr.id = t.fragmentId) = true ∨
                ¬ (s.db.nodes.any fun n => n.id = t.nodeId) = true) := by
              rintro ((old | isSeen) | other)
              · exact fine (.inl old)
              · exact unseen isSeen
              · exact fine (.inr other)
            simp only [if_neg unseen, if_neg still, Option.isSome_some]

theorem InLoop.next (loop : InLoop s s' seen) {r : DownloadReceipt}
    (row : EgressRow env fileId i rec_ r) :
    InLoop s { s' with receipts := s'.receipts ++ [r] } (rec_.nonce :: seen) where
  db := loop.db
  receipts := by
    obtain ⟨added, grown, named⟩ := loop.receipts
    refine ⟨added ++ [r], by simp [grown], fun nonce => ?_⟩
    rw [mem_cons, ← named nonce]
    simp only [mem_append, mem_singleton]
    constructor
    · rintro ⟨r', old | rfl, same⟩
      · exact .inr ⟨r', old, same⟩
      · exact .inl (same.symm.trans row.nonce)
    · rintro (rfl | ⟨r', old, same⟩)
      · exact ⟨r, .inr rfl, row.nonce⟩
      · exact ⟨r', .inl old, same⟩

end Wire

/-! ### The validation loop -/

section Loop

variable {s s' : UsageDB} {userId fileId : Uuid}

/-- The rows of the accepted receipts, in order. -/
def EgressRows (env : ReportEnv) (fileId : Uuid) :
    Nat → List EgressRec → List DownloadReceipt → Prop
  | _, [], rows => rows = []
  | i, rec_ :: recs, rows => ∃ r rest, rows = r :: rest ∧ EgressRow env fileId i rec_ r ∧
      EgressRows env fileId (i + 1) recs rest

/-- What the validation loop returns and what it leaves behind. -/
theorem reportWires_spec {seen : List Bytes} (loop : InLoop s s' seen) (i : Nat)
    (wires : List Text) :
    (∃ added, (reportWires env userId fileId s' seen i wires).2 =
        { s' with receipts := s'.receipts ++ added } ∧
      (∀ r ∈ added, ∃ wire rec_ j, s.acceptable env userId fileId wire = some rec_ ∧
        EgressRow env fileId j rec_ r) ∧
      ∀ recs, (reportWires env userId fileId s' seen i wires).1 = some recs →
        EgressRows env fileId i recs added) ∧
    ∀ recs, (reportWires env userId fileId s' seen i wires).1 = some recs ↔
      wires.mapM (s.acceptable env userId fileId) = some recs ∧
        (recs.map EgressRec.nonce).Nodup ∧ ∀ r ∈ recs, r.nonce ∉ seen := by
  induction wires generalizing s' seen i with
  | nil =>
    refine ⟨⟨[], by simp [reportWires], by simp, ?_⟩, fun recs => ?_⟩
    · intro recs done
      cases done
      rfl
    · constructor
      · intro done
        cases done
        exact ⟨rfl, nodup_nil, by simp⟩
      · rintro ⟨all, _⟩
        cases all
        rfl
  | cons wire wires ih =>
    obtain ⟨sound, complete⟩ := @reportWire_iff env s s' userId fileId seen loop i wire
    cases accepted : s'.reportWire env userId fileId seen i wire with
    | none =>
      have stops : reportWires env userId fileId s' seen i (wire :: wires) =
          (none, s') := by
        simp only [reportWires, accepted]
      rw [stops]
      refine ⟨⟨[], by simp, by simp, by simp⟩, fun recs => iff_of_false (by simp) ?_⟩
      rintro ⟨all, _, unseen⟩
      simp only [mapM_cons, bind, Option.bind_eq_some_iff] at all
      obtain ⟨rec_, first, rest, _, made⟩ := all
      cases made
      have passes := complete rec_ first (unseen rec_ mem_cons_self)
      rw [accepted] at passes
      cases passes
    | some pair =>
      obtain ⟨rec_, s₁⟩ := pair
      obtain ⟨first, unseen, r, row, rfl⟩ := sound rec_ s₁ accepted
      obtain ⟨⟨added, left, good, rows⟩, result⟩ := ih (loop.next row) (i + 1)
      have goesOn : reportWires env userId fileId s' seen i (wire :: wires) =
          ((reportWires env userId fileId { s' with receipts := s'.receipts ++ [r] }
              (rec_.nonce :: seen) (i + 1) wires).1.map (rec_ :: ·),
            (reportWires env userId fileId { s' with receipts := s'.receipts ++ [r] }
              (rec_.nonce :: seen) (i + 1) wires).2) := by
        simp only [reportWires, accepted]
        split <;> rename_i eq <;> simp [eq]
      rw [goesOn]
      refine ⟨⟨r :: added, ?_, forall_mem_cons.mpr ⟨⟨wire, rec_, i, first, row⟩, good⟩,
        fun recs done => ?_⟩, fun recs => ?_⟩
      · rw [left]
        simp
      · obtain ⟨rest, more, rfl⟩ := Option.map_eq_some_iff.mp done
        exact ⟨r, added, rfl, row, rows rest more⟩
      · simp only [Option.map_eq_some_iff, result, mapM_cons, bind,
          Option.bind_eq_some_iff, first, Option.some.injEq]
        constructor
        · rintro ⟨rest, ⟨all, nodup, fresh⟩, rfl⟩
          refine ⟨⟨rec_, rfl, rest, all, rfl⟩, ?_, ?_⟩
          · rw [map_cons, nodup_cons]
            refine ⟨fun again => ?_, nodup⟩
            obtain ⟨other, member, same⟩ := mem_map.mp again
            exact fresh other member (by rw [same]; exact mem_cons_self)
          · intro other member
            rcases mem_cons.mp member with rfl | member
            · exact unseen
            · exact fun isSeen => fresh other member (mem_cons_of_mem _ isSeen)
        · rintro ⟨⟨_, rfl, rest, all, made⟩, nodup, fresh⟩
          cases made
          rw [map_cons, nodup_cons] at nodup
          refine ⟨rest, ⟨all, nodup.2, fun other member isSeen => ?_⟩, rfl⟩
          rcases mem_cons.mp isSeen with same | isSeen
          · exact nodup.1 (same ▸ mem_map_of_mem member)
          · exact fresh other (mem_cons_of_mem _ member) isSeen

/-- A failed report has added no row exactly if its first wire is bad. -/
theorem reportWires_nothing_iff {wires : List Text}
    (failed : (reportWires env userId fileId s [] 0 wires).1 = none) :
    (reportWires env userId fileId s [] 0 wires).2.receipts = s.receipts ↔
      ∀ wire, wires.head? = some wire → s.acceptable env userId fileId wire = none := by
  cases wires with
  | nil => cases failed
  | cons wire wires =>
    obtain ⟨sound, complete⟩ :=
      @reportWire_iff env s s userId fileId [] (InLoop.start s) 0 wire
    cases accepted : s.reportWire env userId fileId [] 0 wire with
    | none =>
      refine iff_of_true ?_ fun other first => ?_
      · simp only [reportWires, accepted]
      · cases first
        simp [acceptable, accepted]
    | some pair =>
      obtain ⟨rec_, s₁⟩ := pair
      obtain ⟨first, _, r, row, rfl⟩ := sound rec_ s₁ accepted
      obtain ⟨⟨added, left, _, _⟩, _⟩ := @reportWires_spec env s _ userId fileId _
        ((InLoop.start s).next row) 1 wires
      refine iff_of_false (fun same => ?_) fun bad => ?_
      · have grown : (reportWires env userId fileId s [] 0 (wire :: wires)).2.receipts =
            s.receipts ++ [r] ++ added := by
          simp only [reportWires, accepted]
          split <;> rename_i eq <;> simp only [eq] at left <;> rw [left]
        have lengths := congrArg List.length (grown.symm.trans same)
        simp at lengths
      · have refused := bad wire rfl
        rw [first] at refused
        cases refused

end Loop

/-! ### What the receipts add up to -/

/-- The bytes of a node in the receipts. -/
def nodeBytes (recs : List EgressRec) (nodeId : Uuid) : Int :=
  total EgressRec.bytes (fun r => decide (r.nodeId = nodeId)) recs

/-- The bytes of a node stamped in an hour. -/
def stampedBytes (env : ReportEnv) (recs : List EgressRec) (nodeId : Uuid) (hour : Time) : Int :=
  total (fun st => st.1.bytes)
    (fun st => decide (st.1.nodeId = nodeId) && decide (truncHour st.2 = hour)) (stamped env 0 recs)

theorem total_egressRows {rows : List DownloadReceipt} (sel : Uuid → Time → Bool)
    {fileId : Uuid} (made : EgressRows env fileId i recs rows) :
    total DownloadReceipt.bytes (fun r => sel r.nodeId r.createdAt) rows =
      total (fun st => st.1.bytes) (fun st => sel st.1.nodeId st.2) (stamped env i recs) := by
  induction recs generalizing i rows with
  | nil =>
    rw [made]
    rfl
  | cons rec_ recs ih =>
    obtain ⟨r, rest, rfl, row, more⟩ := made
    rw [stamped, total_cons, total_cons, ih more, row.nodeId, row.bytes, row.createdAt]

theorem total_stamped (env : ReportEnv) (i : Nat) (recs : List EgressRec)
    (sel : EgressRec → Bool) :
    total (fun st => st.1.bytes) (fun st => sel st.1) (stamped env i recs) =
      total EgressRec.bytes sel recs := by
  induction recs generalizing i with
  | nil => rfl
  | cons rec_ recs ih => rw [stamped, total_cons, total_cons, ih]

/-! ### What the counters and events add up to -/

section Meters

variable {s : UsageDB} {userId fileId : Uuid}

theorem statKey_bump (keyed : UniqueOn statKey s.stats) (nodeId : Uuid) (served : Int)
    (now : Time) : UniqueOn statKey (s.bumpNodeBytes nodeId 0 served now).stats := by
  simp only [bumpNodeBytes]
  split
  · exact keyed
  · exact statKey_upsertStat keyed fun _ => rfl

theorem servedBytes_bump (keyed : UniqueOn statKey s.stats) (nodeId : Uuid) (served : Int)
    (now : Time) (node : Uuid) (hour : Time) :
    (s.bumpNodeBytes nodeId 0 served now).servedBytes node hour =
      s.servedBytes node hour + if (node, hour) = (nodeId, truncHour now) then served else 0 := by
  simp only [bumpNodeBytes, servedBytes, upsertStat]
  split
  · rename_i nothing
    rw [nothing.2, ite_self, Int.add_zero]
  · simp only [stat_selected]
    split
    · rename_i present
      obtain ⟨row, member, same⟩ := any_eq_true.mp present
      refine total_updateWhere_key keyed ⟨row, member, of_decide_eq_true same⟩ ?_ ?_ (node, hour)
      · exact fun _ => rfl
      · exact fun _ => rfl
    · rw [total_append, total_singleton]
      congr 1
      exact if_congr (by rw [decide_eq_true_eq]; exact eq_comm) rfl rfl

/-- The loop over the nodes. -/
def UsageDB.bumps (s : UsageDB) (amount : Uuid → Int) (bumpAt : Uuid → Time) (nodes : List Uuid) :
    UsageDB :=
  nodes.foldl (fun s nodeId => s.bumpNodeBytes nodeId 0 (amount nodeId) (bumpAt nodeId)) s

/-- The counters after the loop. -/
theorem servedBytes_bumps (keyed : UniqueOn statKey s.stats) (amount : Uuid → Int)
    (bumpAt : Uuid → Time) {nodes : List Uuid} (distinct : nodes.Nodup) (node : Uuid)
    (hour : Time) :
    (s.bumps amount bumpAt nodes).servedBytes node hour =
      s.servedBytes node hour +
        if node ∈ nodes ∧ hour = truncHour (bumpAt node) then amount node else 0 := by
  induction nodes generalizing s with
  | nil => simp [bumps]
  | cons first rest ih =>
    rw [nodup_cons] at distinct
    rw [bumps, foldl_cons, ← bumps, ih (statKey_bump keyed ..) distinct.2,
      servedBytes_bump keyed]
    by_cases own : node = first
    · subst own
      by_cases here : hour = truncHour (bumpAt node)
      · simp [here, distinct.1]
      · simp [here]
    · simp [own]

/-- The loop touches nothing but the statistics. -/
theorem bumps_frame (amount : Uuid → Int) (bumpAt : Uuid → Time) (nodes : List Uuid) :
    ∃ stats, s.bumps amount bumpAt nodes = { s with stats := stats } := by
  induction nodes generalizing s with
  | nil => exact ⟨_, rfl⟩
  | cons first rest ih =>
    obtain ⟨stats, bumped⟩ : ∃ stats, s.bumpNodeBytes first 0 (amount first) (bumpAt first) =
        { s with stats := stats } := by
      rw [bumpNodeBytes]
      split <;> exact ⟨_, rfl⟩
    obtain ⟨stats', others⟩ := @ih { s with stats := stats }
    refine ⟨stats', ?_⟩
    rw [bumps, foldl_cons, bumped]
    exact others

/-- What `ReportDownload` publishes of an accepted receipt. -/
def EgressRec.event (env : ReportEnv) (userId fileId : Uuid) (r : EgressRec) : UsageEvent where
  subjectId := userId
  window := env.publishAt
  nonce := r.nonce
  fileId := fileId
  bytes := r.bytes

theorem UsageDB.meterEgress_frame (s : UsageDB) (env : ReportEnv) (userId fileId : Uuid)
    (recs : List EgressRec) :
    ∃ stats, s.meterEgress env userId fileId recs =
      { s with
        stats := stats
        published := s.published ++ recs.map (EgressRec.event env userId fileId) } := by
  obtain ⟨stats, bumped⟩ := @bumps_frame s (perNode recs) env.bumpAt
    (recs.map EgressRec.nodeId).dedup
  refine ⟨stats, ?_⟩
  rw [bumps] at bumped
  rw [meterEgress, bumped]
  rfl

theorem perNode_eq (recs : List EgressRec) (nodeId : Uuid) :
    perNode recs nodeId = (nodeBytes recs nodeId).bmod (2 ^ 64) := rfl

/-- A node without receipts adds nothing. -/
theorem perNode_of_not_mem {nodeId : Uuid} (absent : nodeId ∉ recs.map EgressRec.nodeId) :
    perNode recs nodeId = 0 := by
  have none_ : recs.filter (fun r => decide (r.nodeId = nodeId)) = [] := by
    rw [filter_eq_nil_iff]
    intro r member same
    exact absent (of_decide_eq_true same ▸ mem_map_of_mem member)
  simp [perNode, none_]

theorem servedBytes_meterEgress (keyed : UniqueOn statKey s.stats) (recs : List EgressRec)
    (nodeId : Uuid) (hour : Time) :
    (s.meterEgress env userId fileId recs).servedBytes nodeId hour =
      s.servedBytes nodeId hour +
        if hour = truncHour (env.bumpAt nodeId) then perNode recs nodeId else 0 := by
  have counted := servedBytes_bumps keyed (perNode recs) env.bumpAt
    (nodup_dedup (recs.map EgressRec.nodeId)) nodeId hour
  refine counted.trans ?_
  by_cases listed : nodeId ∈ recs.map EgressRec.nodeId
  · simp [mem_dedup, listed]
  · simp [mem_dedup, listed, perNode_of_not_mem listed]

/-- What the checks of an acceptable wire have established. -/
theorem verified_of_acceptable (accepted : s.acceptable env userId fileId wire = some rec_) :
    ∃ t got, receiptNonce wire = some rec_.nonce ∧ t.nodeId = rec_.nodeId ∧
      (∀ old ∈ s.receipts, old.nonce ≠ rec_.nonce) ∧
      s.db.EgressVerified env.sigOk userId fileId rec_.nonce wire t got := by
  simp only [acceptable, reportWire, Option.map_eq_some_iff] at accepted
  obtain ⟨pair, passed, rfl⟩ := accepted
  split at passed
  · cases passed
  rename_i nonce named
  split at passed
  · cases passed
  split at passed
  · cases passed
  rename_i t got verified
  split at passed <;> cases passed
  rename_i consumed
  exact ⟨t, got, named, rfl, (consumeDownloadReceipt_ok consumed).1,
    DB.verifyEgress_inv verified⟩

/-- The ticket of an acceptable wire is the one its nonce names. -/
theorem ticketNode_of_acceptable (schema : s.Schema)
    (accepted : s.acceptable env userId fileId wire = some rec_) :
    s.db.ticketNode rec_.nonce = some rec_.nodeId := by
  obtain ⟨t, got, -, sameNode, -, checked⟩ := verified_of_acceptable accepted
  have lookup := schema.ticket_pk.find_key checked.ticket checked.sameNonce
  simp only [DB.ticketNode, lookup, Option.map_some, sameNode]

theorem total_events {db : DB} (named : ∀ r ∈ recs, db.ticketNode r.nonce = some r.nodeId)
    (nodeId : Uuid) :
    total UsageEvent.bytes (fun e => decide (db.ticketNode e.nonce = some nodeId))
        (recs.map (EgressRec.event env userId fileId)) = nodeBytes recs nodeId := by
  induction recs with
  | nil => rfl
  | cons r rest ih =>
    rw [nodeBytes, map_cons, total_cons, total_cons,
      ih fun other member => named other (mem_cons_of_mem _ member), EgressRec.event,
      named r mem_cons_self]
    simp only [Option.some.injEq]
    rfl

theorem eventBytes_meterEgress (named : ∀ r ∈ recs, s.db.ticketNode r.nonce = some r.nodeId)
    (nodeId : Uuid) :
    (s.meterEgress env userId fileId recs).eventBytes nodeId =
      s.eventBytes nodeId + nodeBytes recs nodeId := by
  obtain ⟨stats, metered⟩ := s.meterEgress_frame env userId fileId recs
  rw [metered, eventBytes, total_append, total_events named]
  rfl

theorem egress_meterEgress (recs : List EgressRec) :
    (s.meterEgress env userId fileId recs).receipts = s.receipts := by
  obtain ⟨stats, metered⟩ := s.meterEgress_frame env userId fileId recs
  rw [metered]

end Meters

/-- Grouped by the hour of the stamp, the bytes of a node are all in the hour of its
counter exactly if the counter agrees with the receipts in every hour. -/
theorem oneHour_iff (env : ReportEnv) (recs : List EgressRec) :
    OneHour env recs ↔ ∀ nodeId hour,
      (if hour = truncHour (env.bumpAt nodeId) then perNode recs nodeId else 0) =
        stampedBytes env recs nodeId hour := by
  -- what is stamped in the counter's hour is the whole, if the other hours have nothing
  have whole : ∀ nodeId, (∀ hour, hour ≠ truncHour (env.bumpAt nodeId) →
        stampedBytes env recs nodeId hour = 0) →
      stampedBytes env recs nodeId (truncHour (env.bumpAt nodeId)) = nodeBytes recs nodeId := by
    intro nodeId others
    rw [nodeBytes, ← total_stamped env 0 recs fun r => decide (r.nodeId = nodeId)]
    exact (total_eq_class (fun st : EgressRec × Time => truncHour st.2) others).symm
  constructor
  · intro oneHour nodeId hour
    obtain ⟨fits, others⟩ := oneHour nodeId
    by_cases here : hour = truncHour (env.bumpAt nodeId)
    · rw [if_pos here, here, whole nodeId others, perNode_eq]
      exact bmod_eq_of_inInt64 fits
    · rw [if_neg here]
      exact (others hour here).symm
  · intro agree nodeId
    have others : ∀ hour, hour ≠ truncHour (env.bumpAt nodeId) →
        stampedBytes env recs nodeId hour = 0 := by
      intro hour elsewhere
      rw [← agree nodeId hour, if_neg elsewhere]
    refine ⟨?_, others⟩
    have own := agree nodeId (truncHour (env.bumpAt nodeId))
    rw [if_pos rfl, whole nodeId others, perNode_eq] at own
    rw [← nodeBytes, ← own]
    exact inInt64_bmod _

/-- After the counters and the events are written, the three meters have grown alike
exactly if the stamps are in the hours of the counters. -/
theorem metersAgree_iff {s s' : UsageDB} {userId fileId : Uuid} {added : List DownloadReceipt}
    (keyed : UniqueOn statKey s.stats) (made : EgressRows env fileId 0 recs added)
    (named : ∀ r ∈ recs, s.db.ticketNode r.nonce = some r.nodeId)
    (grown : s' = { s with receipts := s.receipts ++ added }) :
    (∀ nodeId, s.MetersAgree (s'.meterEgress env userId fileId recs) nodeId) ↔
      OneHour env recs := by
  have served : ∀ nodeId hour, (s'.meterEgress env userId fileId recs).servedBytes nodeId hour =
      s.servedBytes nodeId hour +
        if hour = truncHour (env.bumpAt nodeId) then perNode recs nodeId else 0 := by
    rw [grown]
    exact servedBytes_meterEgress (s := { s with receipts := s.receipts ++ added }) keyed recs
  have inHour : ∀ nodeId hour, (s'.meterEgress env userId fileId recs).egressBytes nodeId hour =
      s.egressBytes nodeId hour + stampedBytes env recs nodeId hour := by
    intro nodeId hour
    rw [egressBytes, egress_meterEgress, grown, total_append, total_egressRows
        (fun node at_ => decide (node = nodeId) && decide (truncHour at_ = hour)) made]
    rfl
  have inAll : ∀ nodeId, (s'.meterEgress env userId fileId recs).egressTotal nodeId =
      s.egressTotal nodeId + nodeBytes recs nodeId := by
    intro nodeId
    rw [egressTotal, egress_meterEgress, grown, total_append,
      total_egressRows (fun node _ => decide (node = nodeId)) made,
      total_stamped env 0 recs fun r => decide (r.nodeId = nodeId)]
    rfl
  have events : ∀ nodeId, (s'.meterEgress env userId fileId recs).eventBytes nodeId =
      s.eventBytes nodeId + nodeBytes recs nodeId := by
    rw [grown]
    exact eventBytes_meterEgress (s := { s with receipts := s.receipts ++ added }) named
  rw [oneHour_iff]
  refine forall_congr' fun nodeId => ?_
  simp only [UsageDB.MetersAgree, served, inHour, inAll, events, add_sub_cancel_left, and_true]

/-! ### Two reports -/

namespace Sample

def ticketNonce : Bytes := List.replicate 16 7

/-- The file of the worked run with one GET ticket issued. -/
def ticketed : UsageDB where
  db :=
    { committed.db with
      downloadTickets :=
        [{ nonce := ticketNonce, fileId := gen 0, fragmentId := (fragment 0).id,
           nodeId := (node 0).id, sizeBytes := 1, expiresAt := 900 }] }
  receipts := []
  stats := []
  published := []

/-- The receipt of node 0 for having served that ticket. -/
def egressWire : Text :=
  encodeWire
    (Receipt.encode
      { nodeId := (node 0).id, fragmentId := (fragment 0).id, sha256 := digest, size := 1,
        storedAt := 0, nonce := ticketNonce, raw := [] })
    ((node 0).publicKey ++ (node 0).publicKey)

/-- Rows are inserted at one time and counters updated at another. -/
def reportEnv (inserted bumped : Time) : ReportEnv where
  sigOk := toySig
  insertAt _ := inserted
  bumpAt _ := bumped
  publishAt := bumped

theorem ticketed_schema : ticketed.Schema where
  ticket_pk := by decide
  receipt_pk := by decide
  stat_pk := by decide

theorem egressWire_acceptable :
    ticketed.acceptable (reportEnv 3599 3599) owner (gen 0) egressWire =
      some ⟨ticketNonce, (node 0).id, 1⟩ := by
  decide +kernel

end Sample

/-- For every state, every list of wires and every clock: a failed report leaves no
row and a successful one leaves the three meters in step, exactly if the wires of a
good report are stamped in the hour of the counters and a bad report is bad from its
first wire on. -/
theorem report_agrees_iff (s : UsageDB) (schema : s.Schema) (env : ReportEnv)
    (userId fileId : Uuid) (wires : List Text) :
    ((∀ e, (s.reportDownload env userId fileId wires).1 = .error e →
        (s.reportDownload env userId fileId wires).2.receipts = s.receipts) ∧
      ((s.reportDownload env userId fileId wires).1 = .ok () →
        ∀ nodeId, s.MetersAgree (s.reportDownload env userId fileId wires).2 nodeId)) ↔
      s.ReportClean env userId fileId wires := by
  cases found : s.db.fileById userId fileId with
  | error e =>
    refine iff_of_true ?_ fun file isFile => ?_
    · simp [reportDownload, found]
    · rw [found] at isFile
      cases isFile
  | ok file =>
    have only : s.ReportClean env userId fileId wires ↔
        (∀ recs, s.ValidReport env userId fileId wires recs → OneHour env recs) ∧
        ((¬ ∃ recs, s.ValidReport env userId fileId wires recs) →
          ∀ wire, wires.head? = some wire → s.acceptable env userId fileId wire = none) := by
      simp [UsageDB.ReportClean, found]
    rw [only]
    obtain ⟨⟨added, left, _, rows⟩, valid⟩ :=
      @reportWires_spec env s s userId fileId [] (InLoop.start s) 0 wires
    have valid_iff : ∀ recs, (reportWires env userId fileId s [] 0 wires).1 = some recs ↔
          s.ValidReport env userId fileId wires recs := by
      intro recs
      rw [valid, UsageDB.ValidReport]
      simp
    cases result : (reportWires env userId fileId s [] 0 wires).1 with
    | none =>
      have outcome : s.reportDownload env userId fileId wires =
          (.error .invalid, (reportWires env userId fileId s [] 0 wires).2) := by
        simp only [reportDownload, found]
        split <;> rename_i eq <;> rw [eq] at result <;> cases result
        rw [eq]
      have invalid : ¬ ∃ recs, s.ValidReport env userId fileId wires recs := by
        rintro ⟨recs, isValid⟩
        rw [← valid_iff, result] at isValid
        cases isValid
      rw [outcome]
      have nothing := @reportWires_nothing_iff env s userId fileId wires result
      constructor
      · rintro ⟨clean, _⟩
        exact ⟨fun recs isValid => absurd ⟨recs, isValid⟩ invalid,
          fun _ => nothing.mp (clean .invalid rfl)⟩
      · rintro ⟨_, bad⟩
        refine ⟨fun _ _ => nothing.mpr (bad invalid), fun done => ?_⟩
        cases done
    | some recs =>
      have outcome : s.reportDownload env userId fileId wires =
          (.ok (), (reportWires env userId fileId s [] 0 wires).2.meterEgress env
            userId fileId recs) := by
        simp only [reportDownload, found]
        split <;> rename_i eq <;> rw [eq] at result <;> cases result
        rw [eq]
      have isValid := (valid_iff recs).mp result
      have made := rows recs result
      have named : ∀ r ∈ recs, s.db.ticketNode r.nonce = some r.nodeId := by
        intro r member
        obtain ⟨_, _, sameNode⟩ := forall₂_right (forall₂_of_mapM
          (R := fun _ r => s.db.ticketNode r.nonce = some r.nodeId)
          (fun _ _ accepted => ticketNode_of_acceptable schema accepted) isValid.1) member
        exact sameNode
      have agree := @metersAgree_iff env recs s _ userId fileId added schema.stat_pk made named left
      rw [outcome]
      constructor
      · rintro ⟨_, meters⟩
        refine ⟨fun recs' isValid' => ?_, fun none_ => absurd ⟨recs, isValid⟩ none_⟩
        obtain rfl : recs = recs' := Option.some.inj (isValid.1.symm.trans isValid'.1)
        exact agree.mp (meters rfl)
      · rintro ⟨oneHour, _⟩
        refine ⟨fun e failed => ?_, fun _ => agree.mpr (oneHour recs isValid)⟩
        cases failed

theorem report_in_one_hour :
    ticketed.Schema ∧
      ∀ nodeId, ticketed.MetersAgree (ticketed.reportDownload
        (reportEnv 3599 3599) owner (gen 0) [egressWire]).2 nodeId := by
  have accepted := egressWire_acceptable
  have valid : ticketed.ValidReport (reportEnv 3599 3599) owner
      (gen 0) [egressWire] [⟨ticketNonce, (node 0).id, 1⟩] := by
    refine ⟨?_, by simp⟩
    simp only [mapM_cons, mapM_nil, accepted]
    rfl
  have clean : ticketed.ReportClean (reportEnv 3599 3599) owner (gen 0) [egressWire] := by
    intro _ _
    refine ⟨fun recs isValid => ?_, fun none_ => absurd ⟨_, valid⟩ none_⟩
    obtain rfl := Option.some.inj (valid.1.symm.trans isValid.1)
    intro nodeId
    constructor
    · rw [total_singleton]
      split <;> decide
    · intro hour elsewhere
      simp only [stamped, total_singleton, reportEnv] at elsewhere ⊢
      rw [if_neg]
      simp [Ne.symm elsewhere]
  exact ⟨ticketed_schema, ((report_agrees_iff ticketed ticketed_schema
    (reportEnv 3599 3599) owner (gen 0) [egressWire]).mpr clean).2
    (by decide +kernel)⟩

/-- A report that is refused at its second wire has recorded the first; a report whose
counter update falls into the next hour is accepted with the hours apart. -/
theorem rejected_report_charges :
    ((ticketed.reportDownload (reportEnv 3599 3599) owner (gen 0)
        [egressWire, []]).1 = .error .invalid ∧
      (ticketed.reportDownload (reportEnv 3599 3599) owner (gen 0)
        [egressWire, []]).2.receipts ≠ ticketed.receipts) ∧
    (ticketed.reportDownload (reportEnv 3599 3600) owner (gen 0)
        [egressWire]).1 = .ok () ∧
      ¬ ticketed.MetersAgree (ticketed.reportDownload
        (reportEnv 3599 3600) owner (gen 0) [egressWire]).2
        (node 0).id := by
  refine ⟨by decide +kernel, by decide +kernel, fun agree => ?_⟩
  exact absurd (agree.1 0) (by decide +kernel)

end StoragePlatform
