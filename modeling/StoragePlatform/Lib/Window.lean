/-
Module: StoragePlatform.Lib.Window
Purpose: A queue that is served through a window at its front: what a pass does not settle
  stays where it is.
Trusted boundary: none
Main exports: windowPass, windowPasses, windowPasses_stuck, windowPasses_served
-/
import Mathlib.Algebra.Order.Ring.Nat
import Mathlib.Data.List.Nodup

namespace StoragePlatform.Lib

open List

variable {α : Type} {n : Nat} {ok : α → Bool} {queue early late : List α} {x : α}

/-- One pass tries the first `n` and takes away those that are settled. -/
def windowPass (n : Nat) (ok : α → Bool) (queue : List α) : List α :=
  ((queue.take n).filter fun x => !ok x) ++ queue.drop n

def windowPasses (n : Nat) (ok : α → Bool) (queue : List α) : Nat → List α
  | 0 => queue
  | k + 1 => windowPass n ok (windowPasses n ok queue k)

theorem windowPass_sublist (n : Nat) (ok : α → Bool) (queue : List α) :
    (windowPass n ok queue).Sublist queue := by
  rw [windowPass]
  nth_rewrite 3 [← take_append_drop n queue]
  exact filter_sublist.append (List.Sublist.refl _)

theorem windowPasses_sublist (n : Nat) (ok : α → Bool) (queue : List α) (k : Nat) :
    (windowPasses n ok queue k).Sublist queue := by
  induction k with
  | zero => exact List.Sublist.refl _
  | succ k ih => exact (windowPass_sublist n ok _).trans ih

/-- What cannot be settled is never taken away. -/
theorem filter_windowPass (n : Nat) (ok : α → Bool) (queue : List α) :
    (windowPass n ok queue).filter (fun x => !ok x) = queue.filter fun x => !ok x := by
  rw [windowPass, filter_append, filter_filter]
  simp only [Bool.and_self]
  rw [← filter_append, take_append_drop]

theorem mem_windowPasses (member : x ∈ queue) (blocked : ok x = false) (k : Nat) :
    x ∈ windowPasses n ok queue k := by
  induction k with
  | zero => exact member
  | succ k ih =>
    have kept : x ∈ (windowPasses n ok queue k).filter fun x => !ok x :=
      mem_filter.mpr ⟨ih, by rw [blocked]; rfl⟩
    rw [← filter_windowPass n] at kept
    exact (mem_filter.mp kept).1

theorem windowPass_congr {ok' : α → Bool} (same : ∀ x ∈ queue, ok x = ok' x) :
    windowPass n ok queue = windowPass n ok' queue := by
  rw [windowPass, windowPass,
    filter_congr fun x member => congrArg (!·) (same x (mem_of_mem_take member))]

/-- A pass does not reach what is behind the window. -/
theorem windowPass_append (behind : n ≤ early.length) :
    windowPass n ok (early ++ late) = windowPass n ok early ++ late := by
  rw [windowPass, windowPass, take_append_of_le_length behind,
    drop_append_of_le_length behind, append_assoc]

/-- A pass settles what is in the window. -/
theorem notMem_windowPass (distinct : (early ++ x :: late).Nodup) (settles : ok x = true)
    (inside : early.length < n) : x ∉ windowPass n ok (early ++ x :: late) := by
  intro member
  rcases mem_append.mp member with tried | untried
  · rw [mem_filter, settles] at tried
    exact absurd tried.2 Bool.false_ne_true
  · have taken : x ∈ (early ++ x :: late).take n := by
      rw [take_append, take_of_length_le inside.le]
      refine mem_append_right _ ?_
      obtain ⟨m, rest⟩ := Nat.exists_eq_add_of_lt inside
      rw [show n - early.length = m + 1 by omega, take_succ_cons]
      exact mem_cons_self
    rw [← take_append_drop n (early ++ x :: late), nodup_append] at distinct
    exact distinct.2.2 x taken x untried rfl

/-- A window with something in it that can be settled becomes shorter. -/
theorem length_windowPass_lt (behind : n ≤ queue.length)
    (few : (queue.filter fun x => !ok x).length < n) :
    (windowPass n ok queue).length < queue.length := by
  have blocked : ((queue.take n).filter fun x => !ok x).length < n :=
    ((take_sublist n queue).filter _).length_le.trans_lt few
  rw [windowPass, length_append, length_drop]
  omega

/-- Behind `n` that cannot be settled, nothing is ever tried. -/
theorem windowPasses_stuck (many : n ≤ (early.filter fun x => !ok x).length) (k : Nat) :
    ∃ early', windowPasses n ok (early ++ late) k = early' ++ late ∧
      (early'.filter fun x => !ok x) = early.filter fun x => !ok x := by
  induction k with
  | zero => exact ⟨early, rfl, rfl⟩
  | succ k ih =>
    obtain ⟨early', queue, same⟩ := ih
    have behind : n ≤ early'.length := by
      rw [← same] at many
      exact many.trans (length_filter_le _ _)
    refine ⟨windowPass n ok early', ?_, ?_⟩
    · rw [windowPasses, queue, windowPass_append behind]
    · rw [filter_windowPass, same]

/-- With fewer than `n` in front of it that cannot be settled, an element that can be moves
forward with every pass until it is settled. -/
theorem windowPasses_forward (distinct : (early ++ x :: late).Nodup) (settles : ok x = true)
    (few : (early.filter fun x => !ok x).length < n) (k : Nat) :
    x ∉ windowPasses n ok (early ++ x :: late) k ∨
      ∃ early', windowPasses n ok (early ++ x :: late) k = early' ++ x :: late ∧
        (early'.filter fun x => !ok x).length < n ∧ early'.length + k ≤ early.length := by
  induction k with
  | zero => exact .inr ⟨early, rfl, few, le_rfl⟩
  | succ k ih =>
    rcases ih with gone | ⟨early', queue, few', nearer⟩
    · exact .inl fun member => gone ((windowPass_sublist n ok _).subset member)
    · rw [windowPasses, queue]
      by_cases inside : early'.length < n
      · have distinct' := (windowPasses_sublist n ok (early ++ x :: late) k).nodup distinct
        rw [queue] at distinct'
        exact .inl (notMem_windowPass distinct' settles inside)
      · have behind := not_lt.mp inside
        have shorter := length_windowPass_lt behind few'
        refine .inr ⟨windowPass n ok early', windowPass_append behind, ?_, by omega⟩
        rw [filter_windowPass]
        exact few'

/-- As many passes as there are elements settle it. -/
theorem windowPasses_served (distinct : (early ++ x :: late).Nodup) (settles : ok x = true)
    (few : (early.filter fun x => !ok x).length < n) {k : Nat} (enough : early.length < k) :
    x ∉ windowPasses n ok (early ++ x :: late) k := by
  rcases windowPasses_forward distinct settles few k with gone | ⟨early', -, -, nearer⟩
  · exact gone
  · omega

end StoragePlatform.Lib
