/-
Module: StoragePlatform.Proofs.PlacementTx
Purpose: What a transaction on the placement table can rely on while others run
  between its statements and its COMMIT, and that with nothing in between it is the
  step the system takes.
Trusted boundary: none
Main exports: RowTx.Sound, rowInvariant, commits_isolated, deleteTx_alone, commitTx_alone
-/
import StoragePlatform.PlacementTx

namespace StoragePlatform

open Lib List

variable {rows rows' : List Placement} {t u : RowTx} {op : RowOp} {p q : Placement} {id : Nat}

/-- The operation selects by fragment. -/
def ByFragment (sel : Placement → Bool) : Prop :=
  ∀ p q : Placement, p.fragmentId = q.fragmentId → sel p = sel q

/-- No operation brings a row back that is on its way out. -/
theorem RowOp.after_held (becomes : op.after p = some q.status) (held : q.held = true) :
    p.held = true := by
  by_contra out
  have leaving : p.status = .expiring ∨ p.status = .deleted := by
    cases now : p.status <;> simp [Placement.held, now] at out ⊢
  rcases RowOp.after_leaving leaving becomes with gone | gone
  all_goals simp [Placement.held, gone] at held

theorem unique_setStatus (f : Placement → Option PlacementStatus)
    (unique : UniqueOn Placement.id rows) :
    UniqueOn Placement.id (rows.filterMap fun p => (f p).map fun status => p.setStatus status) := by
  refine pairwise_map.mpr (pairwise_filterMap.mpr ((pairwise_map.mp unique).imp ?_))
  intro p p' differ q becomes q' becomes'
  obtain ⟨_, -, rfl⟩ := Option.map_eq_some_iff.mp becomes
  obtain ⟨_, -, rfl⟩ := Option.map_eq_some_iff.mp becomes'
  exact differ

namespace RowTx

/-! ### What an open transaction knows -/

structure Sound (rows : List Placement) (t : RowTx) : Prop where
  /-- The rows it has changed are as it has read them. -/
  kept : ∀ p ∈ t.changed, p ∈ rows
  /-- It has every held row that was there when it expired them. -/
  expired : ∀ sel, t.op = .expire sel → ByFragment sel → ∀ p ∈ rows,
    (∃ q ∈ t.found, q.id = p.id) → sel p = true → p.held = true → t.locks p.id = true

/-- A change of the table beside an open transaction: its rows stay, no row comes back
to be held, and a new row is none it has looked at. -/
structure Beside (u : RowTx) (rows rows' : List Placement) : Prop where
  kept : ∀ p ∈ rows, u.locks p.id = true → p ∈ rows'
  origin : ∀ q ∈ rows', (∃ p ∈ rows, p.id = q.id ∧ p.fragmentId = q.fragmentId ∧
    (q.held = true → p.held = true)) ∨ ∀ q' ∈ u.found, q'.id ≠ q.id

theorem Sound.beside (sound : Sound rows u) (beside : Beside u rows rows') : Sound rows' u where
  kept p changed := beside.kept p (sound.kept p changed)
    (any_eq_true.mpr ⟨p, changed, decide_eq_true rfl⟩)
  expired sel expires byFragment q member inFound selected held := by
    rcases beside.origin q member with ⟨p, inRows, sameId, sameFragment, before⟩ | new
    · rw [← sameId] at inFound ⊢
      exact sound.expired sel expires byFragment p inRows inFound
        ((byFragment p q sameFragment).trans selected) (before held)
    · obtain ⟨q', listed, same⟩ := inFound
      exact absurd same (new q' listed)

theorem after_held (becomes : t.after p = some q.status) (held : q.held = true) :
    p.held = true := by
  rw [after] at becomes
  split at becomes
  · exact RowOp.after_held becomes held
  · simpa [Placement.held, Option.some.inj becomes] using held

/-- The COMMIT of a transaction that holds no lock of this one. -/
theorem commit_beside (committed : t.commit rows = some rows')
    (apart : ∀ id, t.locks id = true → ¬ u.locks id = true) : Beside u rows rows' := by
  simp only [commit] at committed
  split at committed <;> cases committed
  constructor
  · intro p member locked
    refine mem_filterMap.mpr ⟨p, member, ?_⟩
    rw [after, if_neg fun own => apart p.id own locked, Option.map_some, Placement.setStatus_self]
  · intro q member
    obtain ⟨p, inRows, becomes⟩ := mem_filterMap.mp member
    obtain ⟨status, gives, rfl⟩ := Option.map_eq_some_iff.mp becomes
    exact .inl ⟨p, inRows, rfl, rfl, after_held gives⟩

/-- A statement that changes no row of the transaction. -/
theorem single_beside (waits : ∀ p ∈ rows, op.after p = some p.status ∨ u.locks p.id = false)
    (unused : ∀ q ∈ u.found, q.id ≠ id) : Beside u rows (op.apply id rows) where
  kept p member locked := RowOp.mem_apply.mpr (.inl ⟨p, member,
    (waits p member).resolve_right (by simp [locked]), p.setStatus_self⟩)
  origin q member := by
    rcases RowOp.mem_apply_inv member with ⟨p, inRows, becomes, same⟩ | ⟨f, n, -, rfl⟩
    · exact .inl ⟨p, inRows, congrArg Prod.fst same, congrArg (·.2.1) same,
        RowOp.after_held becomes⟩
    · exact .inr unused

/-- What the statements of a transaction do. -/
theorem next_inv {others : List RowTx} {t' : RowTx} (ran : t.next rows others = some t') :
    t' = { t with
      ready := true
      changed := rows.filter fun p => t.op.after p ≠ some p.status
      found := rows } ∧
    ∀ p ∈ t'.changed, ∀ u ∈ others, ¬ u.locks p.id = true := by
  simp only [next] at ran
  split at ran <;> cases ran
  rename_i waits
  simp only [not_or, any_eq_true, not_exists, not_and] at waits
  exact ⟨rfl, fun p changed u other => waits.2.1 p changed u other⟩

theorem Sound.updated : Sound rows { t with
    ready := true
    changed := rows.filter fun p => t.op.after p ≠ some p.status
    found := rows } where
  kept p changed := (mem_filter.mp changed).1
  expired sel expires byFragment p member _ selected held := by
    refine any_eq_true.mpr ⟨p, mem_filter.mpr ⟨member, ?_⟩, decide_eq_true rfl⟩
    have differs : t.op.after p ≠ some p.status := by
      intro same
      rw [show t.op = .expire sel from expires] at same
      rcases RowOp.after_expire selected same with out | out <;> simp [Placement.held, out] at held
    simpa using differs

end RowTx

/-! ### Any number of transactions -/

/-- The invariant of the open transactions. -/
def rowInvariant : TxInvariant rowRules fun _ _ => True where
  whole := UniqueOn Placement.id
  each := RowTx.Sound
  apart t u := ∀ id, t.locks id = true → ¬ u.locks id = true
  symm _ _ apart id locked other := apart id other locked
  started rows request t _ started := by
    simp only [rowRules] at started
    split at started <;> cases started
    exact ⟨⟨forall_mem_nil _, fun _ _ _ _ _ looked => by simp at looked⟩, fun _ _ => nofun⟩
  ran rows others t _ t' _ _ against _ ran := by
    obtain ⟨rfl, unlocked⟩ := RowTx.next_inv ran
    refine ⟨.updated, fun u other id locked => ?_⟩
    obtain ⟨p, changed, named⟩ := any_eq_true.mp locked
    rw [← of_decide_eq_true named]
    exact unlocked p changed u other
  committed rows t rows' unique _ committed := by
    refine ⟨?_, fun u other apart => other.beside (RowTx.commit_beside committed apart)⟩
    simp only [rowRules, RowTx.commit] at committed
    split at committed <;> cases committed
    exact unique_setStatus _ unique

variable {s s' : TxState (List Placement) RowTx} {e : RowEvent}

theorem rowStep_holds (inv : rowInvariant.Holds s) (moved : rowStep s e = some s') :
    rowInvariant.Holds s' := by
  cases e with
  | tx e => exact inv.step moved (by cases e <;> simp [TxGuarded])
  | single op id =>
    simp only [rowStep] at moved
    split at moved <;> cases moved
    rename_i enabled
    obtain ⟨waits, unused⟩ := enabled
    refine ⟨?_, fun u member => (inv.each u member).beside (RowTx.single_beside
      (fun p inRows => (waits p inRows).imp_right fun free => free u member) fun q looked =>
        unused q (mem_append_right _ (mem_flatMap.mpr ⟨u, member, looked⟩))), inv.apart⟩
    change UniqueOn Placement.id (op.apply id s.db)
    cases op with
    | insert f n =>
      rw [RowOp.apply_insert]
      exact inv.whole.append_singleton fun p inRows => unused p (mem_append_left _ inRows)
    | _ => simpa only [RowOp.apply, RowOp.added, append_nil] using unique_setStatus _ inv.whole

/-- What a COMMIT finds and leaves.  The rows the transaction has changed are still as it
read them and get the status it gave them.  Of the rows it was to expire, those still
held afterwards were not in the table when its UPDATE ran. -/
def CommitIsolated (s : TxState (List Placement) RowTx) (e : RowEvent)
    (s' : TxState (List Placement) RowTx) : Prop :=
  ∀ i t, e = .tx (.commit i) → s.txs[i]? = some t →
    (∀ p ∈ t.changed, p ∈ s.db ∧ ∀ q ∈ s'.db, q.id = p.id → t.op.after p = some q.status) ∧
    ∀ sel, t.op = .expire sel → ByFragment sel →
      ∀ q ∈ s'.db, sel q = true → q.held = true → ∀ q' ∈ t.found, q'.id ≠ q.id

theorem commits_isolated (unique : UniqueOn Placement.id rows) (events : List RowEvent) :
    EveryStep rowStep CommitIsolated ⟨rows, []⟩ events := by
  refine EveryStep.of_closed (I := rowInvariant.Holds)
    (fun s e s' inv moved => rowStep_holds inv moved)
    (fun s e s' inv moved i t commits current => ?_) ⟨unique, forall_mem_nil _, .nil⟩
  subst commits
  have sound : RowTx.Sound s.db t := inv.each t (mem_of_getElem? current)
  have stepped : rowRules.step s (.commit i) = some s' := moved
  cases TxRules.step_inv stepped with
  | commit current' committed =>
    cases current.symm.trans current'
    simp only [rowRules, RowTx.commit] at committed
    split at committed <;> cases committed
    refine ⟨fun p changed => ⟨sound.kept p changed, fun q member same => ?_⟩, ?_⟩
    · obtain ⟨p', inRows, becomes⟩ := mem_filterMap.mp member
      obtain ⟨status, gives, rfl⟩ := Option.map_eq_some_iff.mp becomes
      have locked : t.locks p.id = true :=
        any_eq_true.mpr ⟨p, changed, decide_eq_true rfl⟩
      rwa [inv.whole.eq_of_key inRows (sound.kept p changed) same, RowTx.after,
        if_pos locked] at gives
    · intro sel expires byFragment q member selected held q' looked same
      obtain ⟨p, inRows, becomes⟩ := mem_filterMap.mp member
      obtain ⟨status, gives, rfl⟩ := Option.map_eq_some_iff.mp becomes
      have chosen : sel p = true := (byFragment p (p.setStatus status) rfl).trans selected
      have locked := sound.expired sel expires byFragment p inRows ⟨q', looked, same⟩ chosen
        (RowTx.after_held gives held)
      rw [RowTx.after, if_pos locked, expires] at gives
      rcases RowOp.after_expire chosen gives with rfl | rfl <;> simp [Placement.held] at held

/-- A row is inserted between the UPDATE of a delete and its COMMIT, and stays. -/
example :
    (exec rowStep ⟨[⟨1, 7, 8, .stored⟩], []⟩
      [.tx (.start ⟨.expire fun p => p.fragmentId = 7, fun _ => true, false, [], []⟩),
        .tx (.next 0 ()), .single (.insert 7 9) 2, .tx (.commit 0)]).map
      (fun s => s.db.map Placement.status) = some [.expiring, .pending] := by
  decide

/-- A commit counts two stored rows, and one of them is lost before its COMMIT. -/
example :
    (exec rowStep ⟨[⟨1, 7, 8, .pending⟩, ⟨2, 7, 9, .stored⟩], []⟩
      [.tx (.start ⟨.store [7], fun rows => 2 ≤ rows.countP fun p => p.status = .stored, false, [],
          []⟩),
        .tx (.next 0 ()), .single (.lose fun p => p.nodeId = 9) 3, .tx (.commit 0)]).map
      (fun s => s.db.map Placement.status) = some [.stored, .lost] := by
  decide

/-! ### Nothing in between -/

/-- The statements and the COMMIT of a transaction with nothing in between. -/
theorem rowRules_alone (waiting : t.ready = false) (passes : t.passes (t.op.apply 0 rows) = true)
    (adds : t.op.added 0 = []) : rowRules.alone rows t [()] = some (t.op.apply 0 rows) := by
  have runs : rowRules.next rows [] t () = some { t with
      ready := true
      changed := rows.filter fun p => t.op.after p ≠ some p.status
      found := rows } := by
    simp [rowRules, RowTx.next, waiting, passes]
  rw [TxRules.alone_cons runs, TxRules.alone]
  simp only [rowRules, RowTx.commit, if_true, RowOp.apply, adds, append_nil, Option.some.injEq]
  refine filterMap_congr fun p member => congrArg (Option.map _) ?_
  rw [RowTx.after]
  split
  · rfl
  · rename_i free
    by_contra differs
    refine free (any_eq_true.mpr ⟨p, mem_filter.mpr ⟨member, ?_⟩, decide_eq_true rfl⟩)
    simpa using fun same => differs same.symm

theorem deleteTx_alone (db : DB) (f : File) (now : Time) :
    rowRules.alone db.placements (deleteTx db f) [()] =
      some (db.softDeleteTx f now).placements := by
  rw [rowRules_alone rfl rfl rfl]
  refine congrArg some (RowOp.apply_eq_updateWhere (fun p => ?_) 0 rfl _)
  simp [deleteTx, RowOp.after]

theorem commitTx_alone {db db' : DB} {ownerId versionId : Uuid} {stored : List Uuid}
    {f : File} {v : FileVersion} {result : File × FileVersion}
    (found : db.scanVersion ownerId versionId = .ok (f, v)) (pending : v.status = .pending)
    (ok : db.commitUpload ownerId versionId stored = .ok (result, db')) :
    rowRules.alone db.placements (commitTx db versionId stored) [()] = some db'.placements := by
  cases DB.commitUpload_inv ok with
  | already found' before =>
    cases found.symm.trans found'
    simp [pending] at before
  | now _ _ enough =>
    rw [rowRules_alone rfl (by simpa [commitTx, RowOp.apply_store] using enough) rfl, commitTx,
      RowOp.apply_store]

end StoragePlatform
