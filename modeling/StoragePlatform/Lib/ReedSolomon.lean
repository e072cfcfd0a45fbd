/-
Module: StoragePlatform.Lib.ReedSolomon
Purpose: Systematic Reed-Solomon codes by Lagrange interpolation, on single
  symbols and on lists of symbols.
Trusted boundary: none
Main exports: lagrange, lagrange_node, lagrange_recovers, rebuild, rebuild_recovers
-/
import Mathlib.LinearAlgebra.Lagrange

namespace StoragePlatform.Lib

open List Polynomial

variable {F : Type*} [Field F]

/-! ### Symbols -/

/-- The value at position `x` of the polynomial of least degree that has the values
`y` at the positions `known`; position `i` stands for the point `pt i`. -/
noncomputable def lagrange (pt : Nat → F) (known : Finset Nat) (y : Nat → F) (x : Nat) : F :=
  (Lagrange.interpolate known pt y).eval (pt x)

variable {pt : Nat → F} {known given : Finset Nat} {y : Nat → F}

theorem lagrange_node (different : Set.InjOn pt known) {i : Nat} (member : i ∈ known) :
    lagrange pt known y i = y i :=
  Lagrange.eval_interpolate_at_node y different member

/-- A codeword is determined by its values at as many positions as it was made
from. -/
theorem lagrange_recovers (different : Set.InjOn pt known) (different' : Set.InjOn pt given)
    (enough : known.card ≤ given.card) (x : Nat) :
    lagrange pt given (lagrange pt known y) x = lagrange pt known y x := by
  have degree : (Lagrange.interpolate known pt y).degree < given.card :=
    (Lagrange.degree_interpolate_lt y different).trans_le (by exact_mod_cast enough)
  have same := Lagrange.eq_interpolate_of_eval_eq (lagrange pt known y) different' degree
    fun _ _ => rfl
  rw [lagrange, ← same, ← lagrange]

/-! ### Lists of symbols -/

/-- The list at position `x`, symbol by symbol. -/
noncomputable def rebuild (pt : Nat → F) (known : Finset Nat) (size : Nat)
    (lists : Nat → List F) (x : Nat) : List F :=
  (List.range size).map fun col => lagrange pt known (fun i => (lists i).getD col 0) x

variable {size : Nat} {lists : Nat → List F}

@[simp] theorem length_rebuild (x : Nat) : (rebuild pt known size lists x).length = size := by
  simp [rebuild]

theorem getD_rebuild {col : Nat} (inside : col < size) (x : Nat) :
    (rebuild pt known size lists x).getD col 0 =
      lagrange pt known (fun i => (lists i).getD col 0) x := by
  rw [rebuild, getD_eq_getElem?_getD, getElem?_map, getElem?_range inside]
  rfl

theorem rebuild_node (different : Set.InjOn pt known) {i : Nat} (member : i ∈ known)
    (length : (lists i).length = size) : rebuild pt known size lists i = lists i := by
  refine ext_getElem (by rw [length_rebuild, length]) fun col inside inside' => ?_
  have value := @getD_rebuild _ _ pt known size lists col (by rwa [length_rebuild] at inside) i
  rw [lagrange_node different member] at value
  simpa only [getD_eq_getElem?_getD, getElem?_eq_getElem inside,
    getElem?_eq_getElem inside', Option.getD_some] using value

/-- The lists of a codeword come back from any of its lists that are enough. -/
theorem rebuild_recovers (different : Set.InjOn pt known) (different' : Set.InjOn pt given)
    (enough : known.card ≤ given.card) {found : Nat → List F}
    (same : ∀ i ∈ given, found i = rebuild pt known size lists i) (x : Nat) :
    rebuild pt given size found x = rebuild pt known size lists x := by
  refine map_congr_left fun col member => ?_
  have inside : col < size := mem_range.mp member
  rw [← lagrange_recovers different different' enough x]
  refine congrArg (eval (pt x)) (Lagrange.interpolate_eq_of_values_eq_on _ _ fun i inGiven => ?_)
  rw [same i inGiven, getD_rebuild inside]

end StoragePlatform.Lib
