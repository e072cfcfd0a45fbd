/-
Module: StoragePlatform.Lib.Blocks
Purpose: Cutting a list into blocks of one size, the last of which may be
  shorter.
Trusted boundary: none
Main exports: blocks, Framed, blocks_flatten, blocks_framed, Framed.blocks_eq
-/
import Mathlib.Data.List.Basic

namespace StoragePlatform.Lib

open List

variable {size : Nat}

variable {α : Type*}

/-- The blocks of a list.  Without a size there are none. -/
def blocks (size : Nat) (data : List α) : List (List α) :=
  if data = [] ∨ size = 0 then [] else data.take size :: blocks size (data.drop size)
termination_by data.length
decreasing_by
  rename_i proper
  rw [not_or] at proper
  have := length_pos_of_ne_nil proper.1
  rw [length_drop]
  omega

@[simp] theorem blocks_nil (size : Nat) : blocks size ([] : List α) = [] := by
  rw [blocks, if_pos (.inl rfl)]

theorem blocks_of_ne_nil (positive : 0 < size) {data : List α} (some_data : data ≠ []) :
    blocks size data = data.take size :: blocks size (data.drop size) := by
  rw [blocks, if_neg]
  rintro (none_left | zero)
  · exact some_data none_left
  · omega

theorem length_blocks_le (positive : 0 < size) (data : List α) :
    (blocks size data).length ≤ data.length := by
  fun_induction blocks size data with
  | case1 data _ => exact Nat.zero_le _
  | case2 data proper ih =>
    rw [not_or] at proper
    have some_data := length_pos_of_ne_nil proper.1
    rw [length_drop] at ih
    rw [length_cons]
    omega

theorem length_le_of_mem_blocks {data block : List α} (member : block ∈ blocks size data) :
    block.length ≤ size := by
  fun_induction blocks size data with
  | case1 data _ => cases member
  | case2 data _ ih =>
    rcases mem_cons.mp member with rfl | later
    · exact length_take_le size data
    · exact ih later

/-- Every block but the last is full, and no block is empty. -/
inductive Framed (size : Nat) : List (List α) → Prop
  | nil : Framed size []
  | last {block : List α} : block ≠ [] → block.length ≤ size → Framed size [block]
  | more {block next : List α} {rest : List (List α)} :
      block.length = size → Framed size (next :: rest) → Framed size (block :: next :: rest)

theorem Framed.head_ne_nil (positive : 0 < size) {block : List α} {rest : List (List α)}
    (framed : Framed size (block :: rest)) : block ≠ [] := by
  cases framed with
  | last some_data _ => exact some_data
  | more full _ =>
    rintro rfl
    rw [length_nil] at full
    omega

theorem blocks_flatten (positive : 0 < size) (data : List α) :
    (blocks size data).flatten = data := by
  fun_induction blocks size data with
  | case1 data done =>
    rcases done with rfl | zero
    · rfl
    · omega
  | case2 data _ ih => rw [flatten_cons, ih, take_append_drop]

theorem blocks_framed (positive : 0 < size) (data : List α) : Framed size (blocks size data) := by
  fun_induction blocks size data with
  | case1 data _ => exact .nil
  | case2 data proper ih =>
    have some_data : data ≠ [] := fun none_left => proper (.inl none_left)
    by_cases whole : data.drop size = []
    · rw [whole, blocks_nil]
      have short := drop_eq_nil_iff.mp whole
      rw [take_of_length_le short]
      exact .last some_data short
    · have long : size < data.length := by
        rw [drop_eq_nil_iff] at whole
        omega
      rw [blocks_of_ne_nil positive whole] at ih ⊢
      exact .more (by rw [length_take]; omega) ih

/-- The blocks of a concatenation of blocks are those blocks. -/
theorem Framed.blocks_eq (positive : 0 < size) {parts : List (List α)} (framed : Framed size parts)
    : blocks size parts.flatten = parts := by
  induction framed with
  | nil => simp
  | last some_data short =>
    rw [flatten_singleton, blocks_of_ne_nil positive some_data, take_of_length_le short,
      drop_of_length_le short, blocks_nil]
  | @more block next rest full later ih =>
    have some_data : (block :: next :: rest).flatten ≠ [] := by
      intro empty
      rw [flatten_cons, append_eq_nil_iff] at empty
      rw [empty.1, length_nil] at full
      omega
    rw [blocks_of_ne_nil positive some_data, flatten_cons, ← full, take_left, drop_left, full, ih]

end StoragePlatform.Lib
