/-
Module: StoragePlatform.Proofs.Scrub
Purpose: Which fragments consecutive scrub calls look at, and what becomes of the bad ones
  a call finds.
Trusted boundary: none
Main exports: ChunkStore.Readable, ChunkStore.Shrinks, ScrubCovers, findingsKept_iff
-/
import StoragePlatform.Agent.Scrub
import StoragePlatform.Proofs.ChunkPut

namespace StoragePlatform

open Lib List Sample
open Std (ExtTreeMap)

/-!
Every call begins at the first key again.  It looks at the first eight, and what it may
delete is among them, so a later key moves up only by deletions before it and is reached
only when fewer than eight keys before it are left.
-/

/-! ### One call -/

namespace ChunkStore

variable {hash : Bytes → Bytes} {s s' : ChunkStore} {id : Uuid} {fragMeta : FragMeta}
variable {rows : List (Uuid × IndexRow)}

/-- The records before the first row that cannot be read. -/
def records : List (Uuid × IndexRow) → List (Uuid × FragMeta)
  | [] => []
  | (_, .unreadable) :: _ => []
  | (id, .record fragMeta) :: rows => (id, fragMeta) :: records rows

theorem eachRow_eq {σ : Type} (visit : σ → Uuid × FragMeta → σ) (state : σ)
    (rows : List (Uuid × IndexRow)) :
    (eachRow visit state rows).1 = (records rows).foldl visit state ∧
      ((eachRow visit state rows).2 = .ok () ↔ ∀ row ∈ rows, row.2 ≠ .unreadable) := by
  induction rows generalizing state with
  | nil => simp [eachRow, records]
  | cons row rows ih =>
    obtain ⟨id, row⟩ := row
    cases row with
    | record fragMeta => simpa [eachRow, records] using ih (visit state (id, fragMeta))
    | unreadable => simp [eachRow, records]

theorem mem_records {row : Uuid × FragMeta} (member : row ∈ records rows) :
    (row.1, .record row.2) ∈ rows := by
  induction rows with
  | nil => exact absurd member not_mem_nil
  | cons first rows ih =>
    obtain ⟨id, first⟩ := first
    cases first with
    | record fragMeta =>
      rcases mem_cons.mp member with rfl | later
      · exact mem_cons_self
      · exact mem_cons_of_mem _ (ih later)
    | unreadable => exact absurd member not_mem_nil

theorem records_keys_initial (rows : List (Uuid × IndexRow)) :
    ((records rows).map Prod.fst) <+: rows.map Prod.fst := by
  induction rows with
  | nil => exact prefix_rfl
  | cons row rows ih =>
    obtain ⟨id, row⟩ := row
    cases row with
    | record fragMeta => exact (prefix_cons_inj id).mpr ih
    | unreadable => exact nil_prefix

theorem records_keys (readable : ∀ row ∈ rows, row.2 ≠ .unreadable) :
    (records rows).map Prod.fst = rows.map Prod.fst := by
  induction rows with
  | nil => rfl
  | cons row rows ih =>
    obtain ⟨first, rest⟩ := forall_mem_cons.mp readable
    obtain ⟨id, row⟩ := row
    cases row with
    | record fragMeta => simp [records, ih rest]
    | unreadable => exact absurd rfl first

theorem foldl_scrubVisit (hash : Bytes → Bytes) (s : ChunkStore) (pass : ScrubPass)
    (rows : List (Uuid × FragMeta)) :
    (rows.foldl (s.scrubVisit hash) pass).checked =
        pass.checked ++ (rows.take (scrubBatch - pass.n)).map Prod.fst ∧
      (rows.foldl (s.scrubVisit hash) pass).lost =
        pass.lost ++ ((rows.take (scrubBatch - pass.n)).filter fun row =>
          !s.fragmentHashOK hash row.1 row.2).map Prod.fst := by
  induction rows generalizing pass with
  | nil => simp
  | cons row rows ih =>
    rw [foldl_cons]
    by_cases full : scrubBatch ≤ pass.n
    · have stays : s.scrubVisit hash pass row = pass := if_pos full
      have none : scrubBatch - pass.n = 0 := Nat.sub_eq_zero_of_le full
      rw [stays]
      simpa [none] using ih pass
    · have left : scrubBatch - pass.n = scrubBatch - (pass.n + 1) + 1 := by omega
      obtain ⟨checked, lost⟩ := ih (s.scrubVisit hash pass row)
      simp only [scrubVisit, if_neg full] at checked lost ⊢
      rw [checked, lost, left]
      constructor
      · simp
      · cases ok : s.fragmentHashOK hash row.1 row.2 <;> simp [ok]

/-- Every row can be read. -/
def Readable (s : ChunkStore) : Prop := ∀ id : Uuid, s.index[id]? ≠ some .unreadable

theorem readable_iff : s.Readable ↔ ∀ row ∈ s.index.toList, row.2 ≠ .unreadable := by
  constructor
  · rintro readable ⟨id, row⟩ member rfl
    exact readable id (ExtTreeMap.mem_toList_iff_getElem?_eq_some.mp member)
  · intro readable id row
    exact readable (id, .unreadable) (ExtTreeMap.mem_toList_iff_getElem?_eq_some.mpr row) rfl

theorem scrubEach_ok : (s.scrubEach hash).2 = .ok () ↔ s.Readable := by
  rw [readable_iff]
  exact (eachRow_eq _ _ _).2

theorem scrubEach_checked (hash : Bytes → Bytes) (s : ChunkStore) :
    (s.scrubEach hash).1.checked = ((records s.index.toList).map Prod.fst).take scrubBatch := by
  rw [scrubEach, each, (eachRow_eq _ _ _).1, (foldl_scrubVisit hash s _ _).1, map_take]
  rfl

/-- Only the first keys are looked at. -/
theorem scrubEach_early (checked : id ∈ (s.scrubEach hash).1.checked) :
    id ∈ s.index.keys.take scrubBatch := by
  rw [scrubEach_checked] at checked
  rw [← ExtTreeMap.map_fst_toList_eq_keys]
  exact ((records_keys_initial s.index.toList).take scrubBatch).subset checked

theorem scrubEach_readable (readable : s.Readable) :
    (s.scrubEach hash).1.checked = s.index.keys.take scrubBatch := by
  rw [scrubEach_checked, records_keys (readable_iff.mp readable), ExtTreeMap.map_fst_toList_eq_keys]

/-- What is looked at has a record. -/
theorem record_of_checked (checked : id ∈ (s.scrubEach hash).1.checked) :
    ∃ fragMeta, s.index[id]? = some (.record fragMeta) := by
  rw [scrubEach_checked] at checked
  obtain ⟨row, member, rfl⟩ := mem_map.mp (mem_of_mem_take checked)
  exact ⟨row.2, ExtTreeMap.mem_toList_iff_getElem?_eq_some.mp (mem_records member)⟩

theorem scrubEach_lost (hash : Bytes → Bytes) (s : ChunkStore) :
    (s.scrubEach hash).1.lost = (((records s.index.toList).take scrubBatch).filter
      fun row => !s.fragmentHashOK hash row.1 row.2).map Prod.fst := by
  rw [scrubEach, each, (eachRow_eq _ _ _).1, (foldl_scrubVisit hash s _ _).2]
  rfl

theorem mem_scrubEach_lost : id ∈ (s.scrubEach hash).1.lost ↔
    id ∈ (s.scrubEach hash).1.checked ∧
      ∃ fragMeta, s.index[id]? = some (.record fragMeta) ∧
        s.fragmentHashOK hash id fragMeta = false := by
  have recorded : ∀ fragMeta, (id, fragMeta) ∈ (records s.index.toList).take scrubBatch →
      s.index[id]? = some (.record fragMeta) := fun fragMeta inRows =>
    ExtTreeMap.mem_toList_iff_getElem?_eq_some.mp (mem_records (mem_of_mem_take inRows))
  rw [scrubEach_lost, scrubEach_checked, ← map_take]
  simp only [mem_map, mem_filter, Bool.not_eq_true', Prod.exists, exists_and_right, exists_eq_right]
  constructor
  · rintro ⟨fragMeta, inRows, bad⟩
    exact ⟨⟨fragMeta, inRows⟩, fragMeta, recorded fragMeta inRows, bad⟩
  · rintro ⟨⟨fragMeta, inRows⟩, fragMeta', row', bad⟩
    have row := (recorded fragMeta inRows).symm.trans row'
    obtain rfl : fragMeta = fragMeta' := IndexRow.record.inj (Option.some.inj row)
    exact ⟨fragMeta, inRows, bad⟩

/-! ### What calls take away -/

/-- Rows and files have at most disappeared. -/
structure Shrinks (s s' : ChunkStore) : Prop where
  rows : ∀ (id : Uuid) (row : IndexRow), s'.index[id]? = some row → s.index[id]? = some row
  files : ∀ id : Uuid, s'.files[id]? = s.files[id]? ∨ s'.files[id]? = none

theorem Shrinks.refl (s : ChunkStore) : s.Shrinks s := ⟨fun _ _ row => row, fun _ => .inl rfl⟩

theorem Shrinks.trans {s'' : ChunkStore} (first : s.Shrinks s') (second : s'.Shrinks s'') :
    s.Shrinks s'' := by
  refine ⟨fun id row found => first.rows id row (second.rows id row found), ?_⟩
  intro id
  rcases second.files id with same | gone
  · rw [same]
    exact first.files id
  · exact .inr gone

theorem Shrinks.mem (shrinks : s.Shrinks s') (member : id ∈ s'.index) : id ∈ s.index := by
  rw [← ExtTreeMap.isSome_getElem?_iff_mem, Option.isSome_iff_exists] at member ⊢
  obtain ⟨row, found⟩ := member
  exact ⟨row, shrinks.rows id row found⟩

theorem Shrinks.readable (shrinks : s.Shrinks s') (readable : s.Readable) : s'.Readable :=
  fun id found => readable id (shrinks.rows id _ found)

/-- The keys that are left are in the order they were in. -/
theorem Shrinks.keys (shrinks : s.Shrinks s') : s'.index.keys.Sublist s.index.keys := by
  have antisymm : Std.Antisymm fun a b : Uuid => compare a b = .lt :=
    ⟨fun _ _ less more => absurd more (Std.OrientedCmp.not_lt_of_lt less)⟩
  refine sublist_of_subperm_of_pairwise (ExtTreeMap.nodup_keys.subperm fun id member => ?_)
    ExtTreeMap.ordered_keys ExtTreeMap.ordered_keys
  rw [ExtTreeMap.mem_keys] at member ⊢
  exact shrinks.mem member

theorem delete_shrinks (s : ChunkStore) (id : Uuid) (fault : Bool) :
    s.Shrinks (s.delete id fault).2 := by
  have files : ∀ other : Uuid, (s.files.erase id)[other]? = s.files[other]? ∨
      (s.files.erase id)[other]? = none := by
    intro other
    rw [lookup_erase]
    split
    · exact .inr rfl
    · exact .inl rfl
  rw [delete]
  split
  · exact ⟨fun _ _ row => row, files⟩
  · refine ⟨fun other row found => ?_, files⟩
    simp only [unlink, indexDelete, lookup_erase] at found
    split at found
    · cases found
    · exact found

theorem delete_row (s : ChunkStore) {id other : Uuid} (differ : other ≠ id) (fault : Bool) :
    (s.delete id fault).2.index[other]? = s.index[other]? := by
  rw [delete]
  split
  · rfl
  · simp only [unlink, indexDelete, lookup_erase, if_neg differ.symm]

/-- The loop takes away rows of `lost` only. -/
theorem dropLost_spec (env : ScrubEnv) (s : ChunkStore) (lost : List Uuid) :
    s.Shrinks (dropLost env s lost).store ∧
      ∀ id ∉ lost, (dropLost env s lost).store.index[id]? = s.index[id]? := by
  induction lost generalizing s with
  | nil => exact ⟨.refl s, fun _ _ => rfl⟩
  | cons id lost ih =>
    have shrinks := s.delete_shrinks id (env.deleteFails id)
    obtain ⟨rest, kept⟩ := ih (s.delete id (env.deleteFails id)).2
    rw [dropLost]
    split
    · refine ⟨shrinks, fun other outside => ?_⟩
      rw [mem_cons, not_or] at outside
      exact s.delete_row outside.1 _
    · refine ⟨shrinks.trans rest, fun other outside => ?_⟩
      rw [mem_cons, not_or] at outside
      rw [kept other outside.2, s.delete_row outside.1]

/-! ### Calls in a row -/

variable {env : Nat → ScrubEnv}

theorem scrubOnce_readable (env : ScrubEnv) (readable : s.Readable) :
    s.scrubOnce hash env = dropLost env s (s.scrubEach hash).1.lost := by
  have ok : (s.scrubEach hash).2 = .ok () := scrubEach_ok.mpr readable
  rw [scrubOnce]
  split
  · rename_i each
    rw [each] at ok
    cases ok
  · rename_i each
    rw [each]

/-- A row that cannot be read ends the call before anything is taken away. -/
theorem scrubOnce_unreadable (env : ScrubEnv) (unreadable : ¬ s.Readable) :
    (s.scrubOnce hash env).store = s := by
  rw [scrubOnce]
  split
  · rfl
  · rename_i each
    exact absurd (scrubEach_ok.mp (congrArg Prod.snd each)) unreadable

/-- A call takes away rows it has found lost, if it takes away anything. -/
theorem scrubOnce_spec (hash : Bytes → Bytes) (env : ScrubEnv) (s : ChunkStore) :
    s.Shrinks (s.scrubOnce hash env).store ∧
      ∀ id ∉ (s.scrubEach hash).1.lost,
        (s.scrubOnce hash env).store.index[id]? = s.index[id]? := by
  by_cases readable : s.Readable
  · rw [scrubOnce_readable env readable]
    exact dropLost_spec env s _
  · rw [scrubOnce_unreadable env readable]
    exact ⟨.refl s, fun _ _ => rfl⟩

theorem afterPasses_shrinks (hash : Bytes → Bytes) (env : Nat → ScrubEnv) (s : ChunkStore)
    {j k : Nat} (before : j ≤ k) :
    (s.afterPasses hash env j).Shrinks (s.afterPasses hash env k) := by
  induction k, before using Nat.le_induction with
  | base => exact .refl _
  | succ k _ ih => exact ih.trans (scrubOnce_spec hash (env k) _).1

/-- A row that a call has taken away, it has looked at. -/
theorem checked_of_gone {k : Nat} (present : id ∈ (s.afterPasses hash env k).index)
    (gone : id ∉ (s.afterPasses hash env (k + 1)).index) :
    id ∈ (s.passAt hash env k).1.checked := by
  have lost : id ∈ (s.passAt hash env k).1.lost := by
    by_contra kept
    have same := (scrubOnce_spec hash (env k) (s.afterPasses hash env k)).2 id kept
    rw [← ExtTreeMap.isSome_getElem?_iff_mem, ← same, ExtTreeMap.isSome_getElem?_iff_mem] at present
    exact gone present
  exact (mem_scrubEach_lost.mp lost).1

/-- A fragment is still indexed or was looked at. -/
theorem indexed_or_checked (member : id ∈ s.index) (k : Nat) :
    id ∈ (s.afterPasses hash env k).index ∨ ∃ j < k, id ∈ (s.passAt hash env j).1.checked := by
  induction k with
  | zero => exact .inl member
  | succ k ih =>
    rcases ih with present | ⟨j, before, checked⟩
    · by_cases still : id ∈ (s.afterPasses hash env (k + 1)).index
      · exact .inl still
      · exact .inr ⟨k, k.lt_succ_self, checked_of_gone present still⟩
    · exact .inr ⟨j, before.trans k.lt_succ_self, checked⟩

/-- A fragment that was bad at the beginning is found by any call that looks at it. -/
theorem lost_of_checked {k : Nat} (row : s.index[id]? = some (.record fragMeta))
    (bad : s.fragmentHashOK hash id fragMeta = false)
    (checked : id ∈ (s.passAt hash env k).1.checked) : id ∈ (s.passAt hash env k).1.lost := by
  have shrinks := afterPasses_shrinks hash env s (Nat.zero_le k)
  obtain ⟨fragMeta', row'⟩ := record_of_checked checked
  have same := row.symm.trans (shrinks.rows id _ row')
  obtain rfl : fragMeta = fragMeta' := IndexRow.record.inj (Option.some.inj same)
  refine mem_scrubEach_lost.mpr ⟨checked, fragMeta, row', ?_⟩
  rw [fragmentHashOK] at bad ⊢
  rcases shrinks.files id with same | gone
  · rw [same]
    exact bad
  · rw [gone]

end ChunkStore

/-- An element among the first `n` of a list is among the first `n` of what is left of it. -/
theorem mem_take_of_sublist {α : Type} {l l' : List α} {x : α} {n : Nat} (left : l'.Sublist l)
    (distinct : l.Nodup) (early : x ∈ l.take n) (kept : x ∈ l') : x ∈ l'.take n := by
  induction left generalizing n with
  | slnil => exact absurd kept not_mem_nil
  | cons a left ih =>
    obtain ⟨outside, distinct⟩ := nodup_cons.mp distinct
    cases n with
    | zero => exact absurd early not_mem_nil
    | succ n =>
      rw [take_succ_cons, mem_cons] at early
      rcases early with rfl | early
      · exact absurd (left.subset kept) outside
      · exact take_subset_take_left _ n.le_succ (ih distinct early kept)
  | cons_cons a left ih =>
    obtain ⟨outside, distinct⟩ := nodup_cons.mp distinct
    cases n with
    | zero => exact absurd early not_mem_nil
    | succ n =>
      rw [take_succ_cons, mem_cons] at early ⊢
      rcases early with same | early
      · exact .inl same
      · rcases mem_cons.mp kept with same | kept
        · exact .inl same
        · exact .inr (ih distinct early kept)

/-! ### Coverage -/

/-- As many calls as it takes to look at every fragment once, eight at a time. -/
def ChunkStore.fullCycle (s : ChunkStore) : Nat := (s.index.size + 7) / 8

/-- The calls of a full cycle look at every fragment, and find the bad ones. -/
structure ScrubCovers (hash : Bytes → Bytes) (env : Nat → ScrubEnv) (s : ChunkStore) : Prop where
  checked : ∀ id ∈ s.index, ∃ k < s.fullCycle, id ∈ (s.passAt hash env k).1.checked
  found : ∀ (id : Uuid) (fragMeta : FragMeta), s.index[id]? = some (.record fragMeta) →
    s.fragmentHashOK hash id fragMeta = false →
      ∃ k < s.fullCycle, (s.passAt hash env k).2 = .ok () ∧ id ∈ (s.passAt hash env k).1.lost

section Coverage

open ChunkStore

variable {hash : Bytes → Bytes} {env : Nat → ScrubEnv} {s : ChunkStore}

theorem ScrubCovers.readable (covers : ScrubCovers hash env s) : s.Readable := by
  intro id unreadable
  have member := ExtTreeMap.isSome_getElem?_iff_mem.mp (Option.isSome_of_eq_some unreadable)
  obtain ⟨k, -, checked⟩ := covers.checked id member
  obtain ⟨fragMeta, row⟩ := record_of_checked checked
  have before := (afterPasses_shrinks hash env s (Nat.zero_le k)).rows id _ row
  rw [afterPasses, unreadable] at before
  cases before

/-- Whatever is left before the last call was among the first eight when it was looked at,
so it still is. -/
theorem ScrubCovers.few (covers : ScrubCovers hash env s) :
    (s.afterPasses hash env (s.fullCycle - 1)).index.size ≤ scrubBatch := by
  have early : (s.afterPasses hash env (s.fullCycle - 1)).index.keys ⊆
      (s.afterPasses hash env (s.fullCycle - 1)).index.keys.take scrubBatch := by
    intro id kept
    have shrinks := afterPasses_shrinks hash env s (Nat.zero_le (s.fullCycle - 1))
    obtain ⟨k, inCycle, checked⟩ := covers.checked id (shrinks.mem (ExtTreeMap.mem_keys.mp kept))
    have later := afterPasses_shrinks hash env s (Nat.le_sub_one_of_lt inCycle)
    exact mem_take_of_sublist later.keys ExtTreeMap.nodup_keys
      (scrubEach_early checked) kept
  rw [← ExtTreeMap.length_keys]
  exact (ExtTreeMap.nodup_keys.subperm early).length_le.trans (length_take_le _ _)

/-- What was taken away before the last call was looked at, and the last call looks at the
rest. -/
theorem scrubCovers_of_few (readable : s.Readable)
    (few : (s.afterPasses hash env (s.fullCycle - 1)).index.size ≤ scrubBatch) :
    ScrubCovers hash env s := by
  have still : ∀ k, (s.afterPasses hash env k).Readable := fun k =>
    (afterPasses_shrinks hash env s (Nat.zero_le k)).readable readable
  have checked : ∀ id ∈ s.index, ∃ k < s.fullCycle, id ∈ (s.passAt hash env k).1.checked := by
    intro id member
    have positive : 0 < s.fullCycle := by
      have some_row : 0 < s.index.size := by
        rw [← ExtTreeMap.length_keys]
        exact length_pos_of_mem (ExtTreeMap.mem_keys.mpr member)
      rw [fullCycle]
      omega
    rcases @indexed_or_checked hash s id env member (s.fullCycle - 1) with
      left | ⟨k, before, checked⟩
    · refine ⟨s.fullCycle - 1, by omega, ?_⟩
      rw [passAt, scrubEach_readable (still _),
        take_of_length_le (ExtTreeMap.length_keys.trans_le few)]
      exact ExtTreeMap.mem_keys.mpr left
    · exact ⟨k, by omega, checked⟩
  refine ⟨checked, fun id fragMeta row bad => ?_⟩
  have member := ExtTreeMap.isSome_getElem?_iff_mem.mp (Option.isSome_of_eq_some row)
  obtain ⟨k, inCycle, looked⟩ := checked id member
  exact ⟨k, inCycle, scrubEach_ok.mpr (still k),
    lost_of_checked row bad looked⟩

end Coverage

/-- A full cycle of calls covers the index exactly if every row can be read and at most
eight fragments are left when the last of them begins. -/
theorem scrubCovers_iff (hash : Bytes → Bytes) (env : Nat → ScrubEnv) (s : ChunkStore) :
    ScrubCovers hash env s ↔ s.Readable ∧
      (s.afterPasses hash env (s.fullCycle - 1)).index.size ≤ scrubBatch :=
  ⟨fun covers => ⟨covers.readable, covers.few⟩, fun both => scrubCovers_of_few both.1 both.2⟩

namespace Sample

/-- Nine fragments of one byte, the last of which has no file any more. -/
def nineFragments : ChunkStore where
  files := (List.range 8).foldl (fun files i => files.insert (BitVec.ofNat 128 i) [7]) ∅
  temps := ∅
  index := (List.range 9).foldl (fun index i =>
    index.insert (BitVec.ofNat 128 i) (.record (ChunkStore.metaOf padHash [7] 900 0))) ∅

def noFaults : ScrubEnv := ⟨fun _ => false, true, fun _ => .accepted⟩

end Sample

/-- The lost ninth fragment is not found by the two calls of its cycle. -/
theorem ninth_fragment_missed :
    nineFragments.fullCycle = 2 ∧
      (nineFragments.passAt padHash (fun _ => noFaults) 0).1.checked =
        [0, 1, 2, 3, 4, 5, 6, 7] ∧
      (nineFragments.passAt padHash (fun _ => noFaults) 1).1.checked =
        [0, 1, 2, 3, 4, 5, 6, 7] ∧
      ¬ ScrubCovers padHash (fun _ => noFaults) nineFragments := by
  refine ⟨by decide +kernel, by decide +kernel, by decide +kernel, fun covers => ?_⟩
  exact absurd covers.few (by decide +kernel)

/-! ### What becomes of a finding

A bad fragment leaves the index before its report is sent, so what the call has found may be
known to nobody when it ends.
-/

/-- The ids the loop comes to: up to the first report that fails. -/
def ScrubEnv.reached (env : ScrubEnv) : List Uuid → List Uuid
  | [] => []
  | id :: lost =>
    match env.reportScrub id with
    | .error _ => [id]
    | .ok _ => id :: env.reached lost

theorem ScrubEnv.reached_subset (env : ScrubEnv) (lost : List Uuid) : env.reached lost ⊆ lost := by
  induction lost with
  | nil => exact nil_subset _
  | cons id lost ih =>
    rw [reached]
    split
    · exact cons_subset_cons id (nil_subset lost)
    · exact cons_subset_cons id ih

/-- What a call has found is known to the monitor, or still in the index for a later call
to find. -/
def FindingsKept (hash : Bytes → Bytes) (env : ScrubEnv) (s : ChunkStore) : Prop :=
  ∀ id ∈ (s.scrubEach hash).1.lost,
    id ∈ (s.scrubOnce hash env).reported ∨ id ∈ (s.scrubOnce hash env).store.index

namespace ChunkStore

variable {hash : Bytes → Bytes} {env : ScrubEnv} {s : ChunkStore} {id : Uuid} {lost : List Uuid}

theorem mem_delete_index {other : Uuid} {fault : Bool} :
    other ∈ (s.delete id fault).2.index ↔ other ∈ s.index ∧ (other = id → fault = true) := by
  simp only [← ExtTreeMap.isSome_getElem?_iff_mem, delete]
  cases fault with
  | true => simp [unlink]
  | false =>
    simp only [Bool.false_eq_true, if_false, unlink, indexDelete, lookup_erase, imp_false]
    split
    · rename_i same
      simp [same]
    · rename_i differ
      simp [Ne.symm differ]

theorem dropLost_reported (env : ScrubEnv) (s : ChunkStore) (lost : List Uuid) :
    (dropLost env s lost).reported ⊆ lost := by
  induction lost generalizing s with
  | nil => exact nil_subset _
  | cons id lost ih =>
    have told : (if env.informs id then [id] else []) ⊆ id :: lost := by
      split
      · exact cons_subset_cons id (nil_subset lost)
      · exact nil_subset _
    rw [dropLost]
    split
    · exact told
    · exact append_subset.mpr ⟨told, subset_cons_of_subset id (ih _)⟩

/-- The loop takes the rows it comes to, unless the index fails, and tells the monitor of
those whose report arrives. -/
theorem dropLost_found (distinct : lost.Nodup) (indexed : ∀ id ∈ lost, id ∈ s.index) :
    ∀ id ∈ lost,
      (id ∈ (dropLost env s lost).reported ↔ id ∈ env.reached lost ∧ env.informs id = true) ∧
      (id ∈ (dropLost env s lost).store.index ↔
        id ∉ env.reached lost ∨ env.deleteFails id = true) := by
  induction lost generalizing s with
  | nil => exact fun id member => absurd member not_mem_nil
  | cons first lost ih =>
    obtain ⟨outside, distinct⟩ := nodup_cons.mp distinct
    obtain ⟨firstIndexed, indexed⟩ := forall_mem_cons.mp indexed
    have differ : ∀ id ∈ lost, id ≠ first := fun id member same => outside (same ▸ member)
    rw [dropLost, ScrubEnv.reached]
    cases answer : env.reportScrub first with
    | error e =>
      refine forall_mem_cons.mpr ⟨?_, fun id member => ?_⟩
      · simp only [mem_delete_index, firstIndexed]
        cases env.informs first <;> simp
      · have later := differ id member
        simp only [mem_delete_index, indexed id member]
        cases env.informs first <;> simp [later]
    | ok _ =>
      have kept : ∀ id ∈ lost, id ∈ (s.delete first (env.deleteFails first)).2.index :=
        fun id member => mem_delete_index.mpr
          ⟨indexed id member, fun same => absurd same (differ id member)⟩
      obtain rest := ih distinct kept
      refine forall_mem_cons.mpr ⟨?_, fun id member => ?_⟩
      · -- nothing in the rest of the loop touches the first id
        have untouched := (dropLost_spec env (s.delete first (env.deleteFails first)).2
          lost).2 first outside
        have unheard : first ∉ (dropLost env (s.delete first (env.deleteFails first)).2
            lost).reported := fun heard => outside (dropLost_reported env _ lost heard)
        simp only [← ExtTreeMap.isSome_getElem?_iff_mem, untouched]
        simp only [ExtTreeMap.isSome_getElem?_iff_mem, mem_delete_index, firstIndexed]
        cases env.informs first <;> simp [unheard]
      · have later := differ id member
        simp only [mem_append, (rest id member).1, (rest id member).2]
        cases env.informs first <;> simp [later]

theorem scrubEach_lost_nodup (hash : Bytes → Bytes) (s : ChunkStore) :
    (s.scrubEach hash).1.lost.Nodup := by
  have distinct : ((records s.index.toList).map Prod.fst).Nodup := by
    refine (records_keys_initial s.index.toList).sublist.nodup ?_
    rw [ExtTreeMap.map_fst_toList_eq_keys]
    exact ExtTreeMap.nodup_keys
  rw [scrubEach_lost]
  exact (((filter_sublist.trans (take_sublist _ _)).map Prod.fst).nodup distinct)

end ChunkStore

/-- A call keeps what it finds exactly if it ends with the walk over the index, or each
fragment it comes to is one whose row stays or whose report arrives. -/
theorem findingsKept_iff (hash : Bytes → Bytes) (env : ScrubEnv) (s : ChunkStore) :
    FindingsKept hash env s ↔
      (s.Readable → ∀ id ∈ env.reached (s.scrubEach hash).1.lost,
        env.deleteFails id = true ∨ env.informs id = true) := by
  have indexed : ∀ id ∈ (s.scrubEach hash).1.lost, id ∈ s.index := by
    intro id lost
    obtain ⟨-, fragMeta, row, -⟩ := ChunkStore.mem_scrubEach_lost.mp lost
    exact ExtTreeMap.isSome_getElem?_iff_mem.mp (Option.isSome_of_eq_some row)
  by_cases readable : s.Readable
  · have once := @ChunkStore.scrubOnce_readable hash s env readable
    have found := @ChunkStore.dropLost_found env s _ (ChunkStore.scrubEach_lost_nodup hash s)
      indexed
    rw [FindingsKept, once]
    constructor
    · intro kept _ id come
      have lost := ScrubEnv.reached_subset env _ come
      rcases kept id lost with told | row
      · exact .inr ((found id lost).1.mp told).2
      · exact .inl (((found id lost).2.mp row).resolve_left (not_not_intro come))
    · intro each id lost
      by_cases come : id ∈ env.reached (s.scrubEach hash).1.lost
      · rcases each readable id come with stays | arrives
        · exact .inr ((found id lost).2.mpr (.inr stays))
        · exact .inl ((found id lost).1.mpr ⟨come, arrives⟩)
      · exact .inr ((found id lost).2.mpr (.inl come))
  · -- the walk fails at a row that cannot be read, and nothing is taken away
    have once := @ChunkStore.scrubOnce_unreadable hash s env readable
    refine iff_of_true (fun id lost => .inr ?_) fun possible => absurd possible readable
    rw [once]
    exact indexed id lost

namespace Sample

/-- A fragment whose file is gone. -/
def goneFragment : ChunkStore where
  files := ∅
  temps := ∅
  index := ExtTreeMap.insert ∅ 3 (.record (ChunkStore.metaOf padHash [7] 900 0))

/-- The monitor is away. -/
def noMonitor : ScrubEnv := ⟨fun _ => false, true, fun _ => .failed⟩

end Sample

/-- The call finds the fragment, drops its row and fails to report it; the next call finds
nothing. -/
theorem finding_forgotten :
    (goneFragment.scrubEach padHash).1.lost = [3] ∧
      (goneFragment.scrubOnce padHash noMonitor).reported = [] ∧
      (((goneFragment.scrubOnce padHash noMonitor).store.scrubEach
        padHash).1.checked = []) ∧
      ¬ FindingsKept padHash noMonitor goneFragment := by
  refine ⟨by decide +kernel, by decide +kernel, by decide +kernel, fun kept => ?_⟩
  rcases kept 3 (by decide +kernel) with told | row
  · exact absurd told (by decide +kernel)
  · exact absurd row (by decide +kernel)

end StoragePlatform
