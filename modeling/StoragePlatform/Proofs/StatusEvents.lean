/-
Module: StoragePlatform.Proofs.StatusEvents
Purpose: When the published status transitions of a node tell what happened to
  its row, over every interleaving of heartbeats and scans.
Trusted boundary: none
Main exports: Linked, StatusCurrent, RowCurrent, OfflineTold, status_events_truthful
-/
import StoragePlatform.Healthmon.Status

namespace StoragePlatform

open Lib

variable {first : NodeStatus} {changes : List StatusChange} {params : HealthParams} {now : Instant}
variable {snapshot : HealthRow} {e : StatusEvent}

/-! ### Chains of transitions -/

/-- The transitions lead from one status to another, each starting where the one
before it ended. -/
def Linked (first : NodeStatus) : List StatusChange → NodeStatus → Prop
  | [], last => first = last
  | change :: changes, last =>
    change.old = first ∧ change.old ≠ change.new ∧ Linked change.new changes last

theorem Linked.unique {last last' : NodeStatus} (one : Linked first changes last)
    (two : Linked first changes last') : last = last' := by
  induction changes generalizing first with
  | nil => exact one.symm.trans two
  | cons change changes ih => exact ih one.2.2 two.2.2

theorem linked_append_singleton {last : NodeStatus} {change : StatusChange} :
    Linked first (changes ++ [change]) last ↔
      Linked first changes change.old ∧ change.old ≠ change.new ∧ change.new = last := by
  induction changes generalizing first with
  | nil =>
    simp only [List.nil_append, Linked, eq_comm]
  | cons head changes ih =>
    simp only [List.cons_append, Linked, ih, and_assoc]

/-- A chain that ends where the row was goes on with what a write publishes
exactly if what is published as the old status is the status before the write, or
the write published nothing and changed nothing. -/
theorem Linked.publish_iff {before : NodeStatus} (linked : Linked first changes before)
    (change : StatusChange) :
    Linked first (changes ++ publishChange change) change.new ↔
      if change.old = change.new then change.new = before else change.old = before := by
  simp only [publishChange]
  by_cases same : change.old = change.new
  · simp only [same, ne_eq, not_true_eq_false, if_false, if_true, List.append_nil]
    constructor
    · intro ends
      exact ends.unique linked
    · rintro rfl
      exact linked
  · simp only [same, ne_eq, not_false_eq_true, if_true, if_false, linked_append_singleton]
    constructor
    · rintro ⟨starts, _⟩
      exact starts.unique linked
    · rintro rfl
      exact ⟨linked, trivial, trivial⟩

/-! ### What a write publishes -/

/-- A heartbeat publishes the truth exactly if its snapshot has the status of the
row it updates. -/
theorem touch_truthful_iff (snapshot row : NodeStatus) :
    (if snapshot = touchedStatus row then touchedStatus row = row else snapshot = row) ↔
      row = snapshot := by
  cases snapshot <;> cases row <;> decide

/-- So does a scan: it only ever writes `suspect` over a snapshot that is online
and `offline` over one that is online or suspect. -/
theorem scan_truthful_iff (matched : scanMatches params now snapshot = true) (row : HealthRow) :
    (if snapshot.status = scannedStatus params now snapshot row then
        scannedStatus params now snapshot row = row.status
      else snapshot.status = row.status) ↔ row.status = snapshot.status := by
  have different : snapshot.status ≠ scannedStatus params now snapshot row := by
    cases seen : snapshot.lastSeenAt with
    | none => simp [scanMatches, seen] at matched
    | some lastSeen =>
      simp only [scanMatches, seen, Bool.and_eq_true, Bool.or_eq_true, decide_eq_true_eq] at matched
      simp only [scannedStatus, seen]
      obtain ⟨live, stale⟩ := matched
      split
      · rcases live with online | suspect
        · simp [online]
        · simp [suspect]
      · rename_i heard
        obtain ⟨online, silent⟩ := stale.resolve_left heard
        rw [if_pos ⟨online, silent⟩, online]
        decide
  rw [if_neg different]
  exact eq_comm

theorem StatusStmt.truthful_iff {stmt : StatusStmt}
    (applies : stmt.applies params now snapshot = true) (row : HealthRow) :
    (if snapshot.status = (stmt.write params now snapshot row).status then
        (stmt.write params now snapshot row).status = row.status
      else snapshot.status = row.status) ↔ row.status = snapshot.status := by
  cases stmt with
  | touch usedBytes capacityBytes => exact touch_truthful_iff snapshot.status row.status
  | scan => exact scan_truthful_iff applies row

/-! ### Runs -/

/-- A statement that updates the row finds the status its snapshot has. -/
def StatusCurrent (params : HealthParams) (s : StatusSystem) : StatusEvent → Prop
  | .write i =>
    match s.stmts[i]? with
    | some (.running stmt snapshot now) =>
      stmt.applies params now snapshot = true → s.row.status = snapshot.status
    | _ => True
  | _ => True

/-- A statement that updates the row finds the status and the last heartbeat its
snapshot has. -/
def RowCurrent (params : HealthParams) (s : StatusSystem) : StatusEvent → Prop
  | .write i =>
    match s.stmts[i]? with
    | some (.running stmt snapshot now) =>
      stmt.applies params now snapshot = true →
        s.row.status = snapshot.status ∧ s.row.lastSeenAt = snapshot.lastSeenAt
    | _ => True
  | _ => True

instance (params : HealthParams) (s : StatusSystem) (e : StatusEvent) :
    Decidable (RowCurrent params s e) := by
  unfold RowCurrent
  split
  · split <;> infer_instance
  · infer_instance

theorem StatusCurrent.of_row {s : StatusSystem} (rowCurrent : RowCurrent params s e) :
    StatusCurrent params s e := by
  cases e with
  | write i =>
    simp only [StatusCurrent]
    simp only [RowCurrent] at rowCurrent
    split
    · rename_i stmt snapshot now current
      simp only [current] at rowCurrent
      exact fun applies => (rowCurrent applies).1
    · trivial
  | _ => trivial

/-- A scan that marks the node offline does so after more than `OfflineAfter`
without a heartbeat, counted at the time of the write. -/
def OfflineTold (params : HealthParams) (s : StatusSystem) (e : StatusEvent) (t : StatusSystem) :
    Prop :=
  ∀ i snapshot now, e = .write i → s.stmts[i]? = some (.running .scan snapshot now) →
    s.row.status ≠ .offline → t.row.status = .offline →
      ∃ lastSeen, s.row.lastSeenAt = some lastSeen ∧ params.offlineAfter < s.clock - lastSeen

/-- A heartbeat of an offline node publishes that it is online again. -/
def OnlineTold (s : StatusSystem) (e : StatusEvent) (t : StatusSystem) : Prop :=
  ∀ i usedBytes capacityBytes snapshot now, e = .write i →
    s.stmts[i]? = some (.running (.touch usedBytes capacityBytes) snapshot now) →
    s.row.status = .offline →
      t.row.status = .online ∧ t.published = s.published ++ [⟨.offline, .online⟩]

section Steps

variable {s t : StatusSystem}

/-- What a write does, for a statement that updates the row and for one that does
not. -/
theorem StatusSystem.write_inv {i : Nat} (moved : s.step params (.write i) = some t) :
    ∃ stmt snapshot now, s.stmts[i]? = some (.running stmt snapshot now) ∧
      ((stmt.applies params now snapshot = true ∧
          t.row = stmt.write params now snapshot s.row ∧
          t.published = s.published ++ publishChange ⟨snapshot.status, t.row.status⟩) ∨
        (stmt.applies params now snapshot = false ∧ t.row = s.row ∧
          t.published = s.published)) := by
  simp only [step] at moved
  split at moved
  · rename_i stmt snapshot now current
    refine ⟨stmt, snapshot, now, current, ?_⟩
    split at moved
    · rename_i applies
      cases moved
      exact .inl ⟨applies, rfl, rfl⟩
    · rename_i applies
      cases moved
      exact .inr ⟨Bool.eq_false_iff.mpr applies, rfl, rfl⟩
  · cases moved

/-- From a chain that ends at the row's status, a step leads to another one
exactly if the statement it writes for is current. -/
theorem linked_step_iff (linked : Linked first s.published s.row.status)
    (moved : s.step params e = some t) :
    Linked first t.published t.row.status ↔ StatusCurrent params s e := by
  cases e with
  | tick now =>
    simp only [StatusSystem.step] at moved
    split at moved <;> cases moved
    exact iff_of_true linked trivial
  | start stmt now =>
    simp only [StatusSystem.step] at moved
    split at moved <;> cases moved
    exact iff_of_true linked trivial
  | write i =>
    obtain ⟨stmt, snapshot, now, current, effect⟩ := StatusSystem.write_inv moved
    simp only [StatusCurrent, current]
    rcases effect with ⟨applies, row, published⟩ | ⟨skipped, row, published⟩
    · rw [published, linked.publish_iff, row, StatusStmt.truthful_iff applies]
      exact ⟨fun same _ => same, fun asked => asked applies⟩
    · rw [published, row]
      refine iff_of_true linked fun applies => ?_
      rw [skipped] at applies
      cases applies

/-- The clocks of running statements are not ahead of the system's. -/
def StartedBefore (s : StatusSystem) : Prop :=
  ∀ stmt snapshot now, .running stmt snapshot now ∈ s.stmts → now ≤ s.clock

theorem StartedBefore.step (before : StartedBefore s) (moved : s.step params e = some t) :
    StartedBefore t := by
  have done : ∀ i stmt snapshot now, .running stmt snapshot now ∈ s.stmts.set i .done →
      now ≤ s.clock := by
    intro i stmt snapshot now member
    rcases List.mem_or_eq_of_mem_set member with old | new
    · exact before stmt snapshot now old
    · cases new
  cases e with
  | tick now =>
    simp only [StatusSystem.step] at moved
    split at moved <;> cases moved
    rename_i later
    exact fun stmt snapshot now' member => (before stmt snapshot now' member).trans later
  | start stmt now =>
    simp only [StatusSystem.step] at moved
    split at moved <;> cases moved
    rename_i started
    intro stmt' snapshot now' member
    rcases List.mem_append.mp member with old | new
    · exact before stmt' snapshot now' old
    · cases List.mem_singleton.mp new
      exact started
  | write i =>
    simp only [StatusSystem.step] at moved
    split at moved
    · split at moved
      all_goals
        cases moved
        exact done i
    · cases moved

theorem silentFor_iff {seconds : Int} {lastSeen : Instant} :
    silentFor seconds lastSeen now = true ↔ lastSeen < now - seconds * 1000000000 := by
  simp [silentFor]

theorem silent_of_offline {row : HealthRow} (whole : params.offlineAfter % 1000000000 = 0)
    (awake : row.status ≠ .offline) (marked : scannedStatus params now snapshot row = .offline) :
    ∃ lastSeen, snapshot.lastSeenAt = some lastSeen ∧ params.offlineAfter < now - lastSeen := by
  simp only [scannedStatus] at marked
  split at marked
  · exact absurd marked awake
  · rename_i lastSeen seen
    refine ⟨lastSeen, seen, ?_⟩
    split at marked
    · rename_i silent
      obtain ⟨seconds, exactly⟩ := Int.dvd_of_emod_eq_zero whole
      rw [mul_comm] at exactly
      rw [silentFor_iff, exactly, wholeSeconds_mul, ← exactly] at silent
      exact lt_sub_comm.mp silent
    · split at marked
      · cases marked
      · exact absurd marked awake

theorem offlineTold_of_current (whole : params.offlineAfter % 1000000000 = 0)
    (before : StartedBefore s) (moved : s.step params e = some t)
    (rowCurrent : RowCurrent params s e) : OfflineTold params s e t := by
  rintro i snapshot now rfl current awake marked
  obtain ⟨stmt, snapshot', now', found, effect⟩ := StatusSystem.write_inv moved
  cases current.symm.trans found
  rcases effect with ⟨applies, row, _⟩ | ⟨_, row, _⟩
  · simp only [RowCurrent, current] at rowCurrent
    obtain ⟨_, sameSeen⟩ := rowCurrent applies
    rw [row] at marked
    obtain ⟨lastSeen, seen, silent⟩ := silent_of_offline whole awake marked
    have started : now ≤ s.clock := before _ _ _ (List.mem_of_getElem? current)
    exact ⟨lastSeen, sameSeen.trans seen, lt_of_lt_of_le silent (Int.sub_le_sub_right started _)⟩
  · rw [row] at marked
    exact absurd marked awake

theorem onlineTold_of_current (moved : s.step params e = some t)
    (rowCurrent : RowCurrent params s e) : OnlineTold s e t := by
  rintro i usedBytes capacityBytes snapshot now rfl current offline
  obtain ⟨stmt, snapshot', now', found, effect⟩ := StatusSystem.write_inv moved
  cases current.symm.trans found
  rcases effect with ⟨applies, row, published⟩ | ⟨skipped, _, _⟩
  · simp only [RowCurrent, current] at rowCurrent
    obtain ⟨sameStatus, _⟩ := rowCurrent applies
    have online : t.row.status = .online := by
      rw [row]
      simp [StatusStmt.write, touchRow, touchedStatus, offline]
    refine ⟨online, ?_⟩
    rw [published, online, ← sameStatus, offline]
    rfl
  · cases skipped

end Steps

/-- The published transitions of a node are a chain that ends at its status, in
every state of a run, exactly if every statement that updates the row finds the
status its snapshot has.  If it also finds the last heartbeat of its snapshot, and
`OfflineAfter` is whole seconds, then no scan marks a node offline that was heard
of within that time and every heartbeat of an offline node is published. -/
theorem status_events_truthful (params : HealthParams) (row : HealthRow) (clock : Instant)
    (events : List StatusEvent) :
    (EveryState (StatusSystem.step params) (fun s => Linked row.status s.published s.row.status)
        (.init row clock) events ↔
      EveryStep (StatusSystem.step params) (fun s e _ => StatusCurrent params s e)
        (.init row clock) events) ∧
    (params.offlineAfter % 1000000000 = 0 →
      EveryStep (StatusSystem.step params) (fun s e _ => RowCurrent params s e)
        (.init row clock) events →
      EveryState (StatusSystem.step params) (fun s => Linked row.status s.published s.row.status)
        (.init row clock) events ∧
      EveryStep (StatusSystem.step params)
        (fun s e t => OfflineTold params s e t ∧ OnlineTold s e t) (.init row clock) events) := by
  have start : Linked row.status (StatusSystem.init row clock).published
      (StatusSystem.init row clock).row.status := rfl
  have chain : EveryState (StatusSystem.step params)
        (fun s => Linked row.status s.published s.row.status) (.init row clock) events ↔
      EveryStep (StatusSystem.step params) (fun s e _ => StatusCurrent params s e)
        (.init row clock) events := by
    apply EveryState.iff_everyStep (I := fun s => Linked row.status s.published s.row.status)
    · exact fun s linked => linked
    · exact fun s e t linked moved after => (linked_step_iff linked moved).mp after
    · exact fun s e t linked moved current => (linked_step_iff linked moved).mpr current
    · exact start
  refine ⟨chain, fun whole current => ⟨?_, ?_⟩⟩
  · rw [chain]
    exact EveryStep.of_inv (I := fun _ => True) (fun _ _ _ _ _ _ => trivial)
      (fun s e t _ _ good => StatusCurrent.of_row good) trivial current
  · refine EveryStep.of_inv (I := StartedBefore)
      (fun s e t before moved _ => before.step moved) (fun s e t before moved good => ?_)
      (by simp [StartedBefore, StatusSystem.init]) current
    exact ⟨offlineTold_of_current whole before moved good, onlineTold_of_current moved good⟩

namespace Sample

/-- The defaults: 30 seconds and 5 minutes. -/
def healthParams : HealthParams := ⟨30000000000, 300000000000⟩

def heardAtZero : HealthRow := ⟨.online, some 0, 5, 10⟩

/-- A node falls silent, is marked offline and comes back. -/
def nodeOutage : List StatusEvent :=
  [.tick 400000000000, .start .scan 400000000000, .write 0,
    .start (.touch 6 10) 400000000000, .write 1]

/-- After 400 seconds of silence a heartbeat and a scan start together, both on
the row as it was, and write in the given order. -/
def race (first second : Nat) : List StatusEvent :=
  [.tick 400000000000, .start (.touch 6 10) 400000000000, .start .scan 400000000000,
    .write first, .write second]

end Sample

open Sample

/-- An outage seen in order: two truthful transitions. -/
theorem outage_told :
    ∃ t, exec (StatusSystem.step healthParams) (.init heardAtZero 0)
        nodeOutage = some t ∧
      t.published = [⟨.online, .offline⟩, ⟨.offline, .online⟩] ∧
      Linked .online t.published t.row.status := by
  have ran : (exec (StatusSystem.step healthParams) (.init heardAtZero 0)
      nodeOutage).map (fun t => t.published) =
        some [⟨.online, .offline⟩, ⟨.offline, .online⟩] := by
    decide +kernel
  rw [Option.map_eq_some_iff] at ran
  obtain ⟨t, reached, published⟩ := ran
  have current : EveryStep (StatusSystem.step healthParams)
      (fun s e _ => RowCurrent healthParams s e) (.init heardAtZero 0)
      nodeOutage := by
    decide +kernel
  have told := ((status_events_truthful healthParams heardAtZero 0
    nodeOutage).2 (by decide) current).1
  exact ⟨t, reached, published, told.last reached⟩

/-- If the scan writes first, the heartbeat brings the node back from offline and
publishes nothing.  If it writes second, it marks a node offline whose heartbeat
was written at that very second. -/
theorem racing_scan_untold :
    (∃ t, exec (StatusSystem.step healthParams) (.init heardAtZero 0)
        (race 1 0) = some t ∧
      t.row.status = .online ∧ t.published = [⟨.online, .offline⟩] ∧
      ¬ Linked .online t.published t.row.status) ∧
    (∃ t, exec (StatusSystem.step healthParams) (.init heardAtZero 0)
        (race 0 1) = some t ∧
      t.row.status = .offline ∧ t.row.lastSeenAt = some 400000000000 ∧
      t.clock = 400000000000) := by
  constructor
  · have ran : (exec (StatusSystem.step healthParams) (.init heardAtZero 0)
        (race 1 0)).map (fun t => (t.row.status, t.published)) =
          some (.online, [⟨.online, .offline⟩]) := by
      decide +kernel
    simp only [Option.map_eq_some_iff, Prod.mk.injEq] at ran
    obtain ⟨t, reached, status, published⟩ := ran
    refine ⟨t, reached, status, published, ?_⟩
    rw [published, status]
    simp [Linked]
  · have ran : (exec (StatusSystem.step healthParams) (.init heardAtZero 0)
        (race 0 1)).map (fun t => (t.row.status, t.row.lastSeenAt, t.clock)) =
          some (.offline, some 400000000000, 400000000000) := by
      decide +kernel
    simp only [Option.map_eq_some_iff, Prod.mk.injEq] at ran
    exact ran

end StoragePlatform
