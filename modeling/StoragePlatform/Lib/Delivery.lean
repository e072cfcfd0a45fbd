/-
Module: StoragePlatform.Lib.Delivery
Purpose: A stream that drops a publish whose id it has seen and delivers the others at
  least once, into a table that ignores an id it has.
Trusted boundary: none
Main exports: Delivery, Delivery.publish, Delivery.deliver, Delivery.Kept.rows_perm_iff
-/
import StoragePlatform.Lib.Table

namespace StoragePlatform.Lib

open List

/-- The messages published, those the stream has accepted, the positions of those
delivered, and the messages in the table.  `published` is history. -/
structure Delivery (μ : Type*) where
  published : List μ
  stream : List μ
  delivered : List Nat
  rows : List μ
deriving DecidableEq, Repr

namespace Delivery

variable {μ κ : Type*} [DecidableEq κ] (key : μ → κ)

def empty : Delivery μ := ⟨[], [], [], []⟩

/-- The rows with one more, unless its key is among theirs. -/
def insertNew (rows : List μ) (m : μ) : List μ :=
  if rows.any fun row => key row = key m then rows else rows ++ [m]

def publish (d : Delivery μ) (m : μ) : Delivery μ :=
  { d with published := d.published ++ [m], stream := insertNew key d.stream m }

/-- The consumer handles the message at a position, for the first time or again. -/
def deliver (d : Delivery μ) (i : Nat) : Option (Delivery μ) :=
  match d.stream[i]? with
  | none => none
  | some m => some { d with delivered := i :: d.delivered, rows := insertNew key d.rows m }

/-- Every message of the stream was delivered. -/
def Settled (d : Delivery μ) : Prop := ∀ i < d.stream.length, i ∈ d.delivered

instance (d : Delivery μ) : Decidable d.Settled :=
  inferInstanceAs (Decidable (∀ i < d.stream.length, i ∈ d.delivered))

section Insert

variable {key} {rows : List μ} {m n : μ}

theorem unique_insertNew (unique : UniqueOn key rows) : UniqueOn key (insertNew key rows m) := by
  rw [Delivery.insertNew]
  split
  · exact unique
  · rename_i fresh
    refine unique.append_singleton fun old member same => fresh ?_
    exact any_eq_true.mpr ⟨old, member, decide_eq_true same⟩

theorem subset_insertNew (rows : List μ) (m : μ) : rows ⊆ insertNew key rows m := by
  rw [insertNew]
  split
  · exact List.Subset.refl _
  · exact subset_append_left _ _

theorem of_mem_insertNew (member : n ∈ insertNew key rows m) : n ∈ rows ∨ n = m := by
  rw [insertNew] at member
  split at member
  · exact .inl member
  · simpa using member

/-- The key of what was inserted is there. -/
theorem key_mem_insertNew (rows : List μ) (m : μ) : ∃ n ∈ insertNew key rows m, key n = key m := by
  rw [insertNew]
  split
  · rename_i present
    obtain ⟨old, member, same⟩ := any_eq_true.mp present
    exact ⟨old, member, of_decide_eq_true same⟩
  · exact ⟨m, by simp, rfl⟩

/-- Positions keep what they hold. -/
theorem getElem?_insertNew {i : Nat} {row : μ} (here : i < rows.length)
    (found : (insertNew key rows m)[i]? = some row) : rows[i]? = some row := by
  rw [insertNew] at found
  split at found
  · exact found
  · rwa [getElem?_append_left here] at found

end Insert

variable {key} in
theorem published_deliver {d d' : Delivery μ} {i : Nat} (moved : d.deliver key i = some d') :
    d'.published = d.published := by
  rw [deliver] at moved
  split at moved <;> cases moved
  rfl

/-- What publishing and delivering keep: each list holds one message of each key the list
before it holds, the table as far as delivered. -/
structure Kept (d : Delivery μ) : Prop where
  stream_unique : UniqueOn key d.stream
  stream_from : d.stream ⊆ d.published
  stream_all : ∀ m ∈ d.published, ∃ n ∈ d.stream, key n = key m
  rows_unique : UniqueOn key d.rows
  rows_from : d.rows ⊆ d.stream
  delivered_lt : ∀ i ∈ d.delivered, i < d.stream.length
  rows_all : ∀ i ∈ d.delivered, ∀ m, d.stream[i]? = some m → ∃ n ∈ d.rows, key n = key m

variable {key} {d d' : Delivery μ}

omit [DecidableEq κ] in
theorem Kept.empty : (Delivery.empty : Delivery μ).Kept key where
  stream_unique := .nil key
  stream_from := List.Subset.refl _
  stream_all _ member := absurd member not_mem_nil
  rows_unique := .nil key
  rows_from := List.Subset.refl _
  delivered_lt _ member := absurd member not_mem_nil
  rows_all _ member := absurd member not_mem_nil

theorem Kept.publish (kept : d.Kept key) (m : μ) : (d.publish key m).Kept key where
  stream_unique := unique_insertNew kept.stream_unique
  stream_from := by
    intro n member
    rcases of_mem_insertNew member with old | rfl
    · exact mem_append_left _ (kept.stream_from old)
    · exact mem_append_right _ (mem_singleton.mpr rfl)
  stream_all := by
    intro n member
    rcases mem_append_row.mp member with old | rfl
    · obtain ⟨twin, inStream, same⟩ := kept.stream_all n old
      exact ⟨twin, subset_insertNew _ _ inStream, same⟩
    · exact key_mem_insertNew d.stream n
  rows_unique := kept.rows_unique
  rows_from := List.Subset.trans kept.rows_from (subset_insertNew _ _)
  delivered_lt := by
    intro i member
    refine Nat.lt_of_lt_of_le (kept.delivered_lt i member) ?_
    rw [Delivery.publish, insertNew]
    split <;> simp
  rows_all := by
    intro i member n found
    exact kept.rows_all i member n (getElem?_insertNew (kept.delivered_lt i member) found)

/-- One publish after the other. -/
theorem Kept.publishes (kept : d.Kept key) (ms : List μ) :
    (ms.foldl (Delivery.publish key) d).Kept key ∧
      (ms.foldl (Delivery.publish key) d).published = d.published ++ ms := by
  induction ms generalizing d with
  | nil => exact ⟨kept, (append_nil _).symm⟩
  | cons m ms ih =>
    obtain ⟨kept', published⟩ := ih (kept.publish m)
    refine ⟨kept', published.trans ?_⟩
    rw [Delivery.publish, append_assoc]
    rfl

theorem Kept.deliver (kept : d.Kept key) {i : Nat} (moved : d.deliver key i = some d') :
    d'.Kept key := by
  rw [Delivery.deliver] at moved
  split at moved <;> cases moved
  rename_i m found
  exact
    { kept with
      rows_unique := unique_insertNew kept.rows_unique
      rows_from := by
        intro n member
        rcases of_mem_insertNew member with old | rfl
        · exact kept.rows_from old
        · exact mem_of_getElem? found
      delivered_lt := by
        intro j member
        rcases mem_cons.mp member with rfl | before
        · exact (List.getElem?_eq_some_iff.mp found).1
        · exact kept.delivered_lt j before
      rows_all := by
        intro j member n here
        rcases mem_cons.mp member with rfl | before
        · cases found.symm.trans here
          exact key_mem_insertNew d.rows m
        · obtain ⟨row, inRows, same⟩ := kept.rows_all j before n here
          exact ⟨row, subset_insertNew _ _ inRows, same⟩ }

omit [DecidableEq κ] in
/-- When everything was delivered, the table holds what was published exactly if no two
messages share a key. -/
theorem Kept.rows_perm_iff (kept : d.Kept key) (settled : d.Settled) :
    d.rows.Perm d.published ↔ UniqueOn key d.published := by
  constructor
  · intro order
    exact kept.rows_unique.perm order.symm
  · intro unique
    refine (perm_ext_iff_of_nodup kept.rows_unique.nodup unique.nodup).mpr fun m => ?_
    constructor
    · exact fun inRows => kept.stream_from (kept.rows_from inRows)
    · intro inPublished
      obtain ⟨n, inStream, sameN⟩ := kept.stream_all m inPublished
      obtain ⟨i, here⟩ := mem_iff_getElem?.mp inStream
      have inRange : i < d.stream.length := (List.getElem?_eq_some_iff.mp here).1
      obtain ⟨row, inRows, sameRow⟩ := kept.rows_all i (settled i inRange) n here
      have published := kept.stream_from (kept.rows_from inRows)
      rw [← unique.eq_of_key published inPublished (sameRow.trans sameN)]
      exact inRows

end Delivery

end StoragePlatform.Lib
