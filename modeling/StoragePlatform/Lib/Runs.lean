/-
Module: StoragePlatform.Lib.Runs
Purpose: Finite runs of a deterministic labelled step function.  A run is the
  list of its labels; a label that is not enabled ends the run.
Trusted boundary: none
Main exports: exec, EveryState, EveryStep, EveryState.of_step
-/
import Mathlib.Logic.Basic
import Mathlib.Data.Option.Basic

namespace StoragePlatform.Lib

/-!
All nondeterminism of a modelled system sits in the label: which process moves,
what an outside party answers, which of several legal orders a query returns.
The step function itself is deterministic and partial, so that a concrete run
evaluates and a proof about all runs is one induction on the list of labels.
-/

section Runs

variable {σ ε : Type*} (step : σ → ε → Option σ)

/-- The state a run ends in, when every label of it is enabled. -/
def exec : σ → List ε → Option σ
  | s, [] => some s
  | s, e :: es =>
    match step s e with
    | none => none
    | some t => exec t es

/-- `P` holds in every state the run visits, the first one included. -/
def EveryState (P : σ → Prop) : σ → List ε → Prop
  | s, [] => P s
  | s, e :: es => P s ∧ ∀ t, step s e = some t → EveryState P t es

/-- `Q` holds of every step the run takes: the state before it, its label and
the state after it. -/
def EveryStep (Q : σ → ε → σ → Prop) : σ → List ε → Prop
  | _, [] => True
  | s, e :: es =>
    ∀ t, step s e = some t → Q s e t ∧ EveryStep Q t es

variable {step}

theorem exec_append (s : σ) (es es' : List ε) :
    exec step s (es ++ es') =
      match exec step s es with
      | none => none
      | some t => exec step t es' := by
  induction es generalizing s with
  | nil => rfl
  | cons e es ih =>
    simp only [List.cons_append, exec]
    cases step s e with
    | none => rfl
    | some t => exact ih t

theorem exec_cons {s t : σ} {e : ε} {es : List ε} :
    exec step s (e :: es) = some t ↔ ∃ u, step s e = some u ∧ exec step u es = some t := by
  rw [exec]
  cases step s e <;> simp

variable {P P' I : σ → Prop} {A G Q R : σ → ε → σ → Prop} {s t u : σ} {e : ε} {es es' : List ε}

theorem EveryState.head (h : EveryState step P s es) : P s := by
  cases es with
  | nil => exact h
  | cons e es => exact h.1

theorem EveryState.mono (weaker : ∀ s, P s → P' s) (h : EveryState step P s es) :
    EveryState step P' s es := by
  induction es generalizing s with
  | nil => exact weaker s h
  | cons e es ih => exact ⟨weaker s h.1, fun t moved => ih (h.2 t moved)⟩

/-- The state a run ends in is one of its states. -/
theorem EveryState.last (h : EveryState step P s es) (run : exec step s es = some t) : P t := by
  induction es generalizing s with
  | nil =>
    cases run
    exact h
  | cons e es ih =>
    obtain ⟨u, moved, rest⟩ := exec_cons.mp run
    exact ih (h.2 u moved) rest

/-- What a run leaves to be said after its first part. -/
theorem EveryStep.append (h : EveryStep step Q s (es ++ es')) (run : exec step s es = some t) :
    EveryStep step Q t es' := by
  induction es generalizing s with
  | nil =>
    cases run
    exact h
  | cons e es ih =>
    obtain ⟨u, moved, rest⟩ := exec_cons.mp run
    exact ih (h u moved).2 rest

theorem EveryStep.append_of (front : EveryStep step Q s es)
    (back : ∀ t, exec step s es = some t → EveryStep step Q t es') :
    EveryStep step Q s (es ++ es') := by
  induction es generalizing s with
  | nil => exact back s rfl
  | cons e es ih =>
    intro t moved
    exact ⟨(front t moved).1, ih (front t moved).2 fun u run =>
      back u (exec_cons.mpr ⟨t, moved, run⟩)⟩

/-- The last step of a run is one of its steps. -/
theorem EveryStep.last (h : EveryStep step Q s (es ++ [e])) (run : exec step s es = some t)
    (moved : step t e = some u) : Q t e u :=
  (h.append run u moved).1

/-- A step property that follows from an invariant and the guard holds of every
step of a guarded run. -/
theorem EveryStep.of_inv (preserved : ∀ s e t, I s → step s e = some t → G s e t → I t)
    (holds : ∀ s e t, I s → step s e = some t → G s e t → Q s e t) (start : I s)
    (guarded : EveryStep step G s es) : EveryStep step Q s es := by
  induction es generalizing s with
  | nil => trivial
  | cons e es ih =>
    intro t moved
    obtain ⟨good, rest⟩ := guarded t moved
    exact ⟨holds s e t start moved good, ih (preserved s e t start moved good) rest⟩

/-- A condition on the labels alone. -/
theorem EveryStep.of_label (holds : ∀ e ∈ es, ∀ s t, Q s e t) : EveryStep step Q s es := by
  induction es generalizing s with
  | nil => trivial
  | cons e es ih =>
    exact fun t _ => ⟨holds e (.head es) s t, ih fun e' later => holds e' (.tail e later)⟩

theorem EveryStep.unguarded : EveryStep step (fun _ _ _ => True) s es :=
  of_label fun _ _ _ _ => trivial

/-- The steps of the first part of a run. -/
theorem EveryStep.left (h : EveryStep step Q s (es ++ es')) : EveryStep step Q s es := by
  induction es generalizing s with
  | nil => trivial
  | cons e es ih => exact fun t moved => ⟨(h t moved).1, ih (h t moved).2⟩

theorem EveryStep.mono (weaker : ∀ s e t, Q s e t → R s e t) (h : EveryStep step Q s es) :
    EveryStep step R s es :=
  of_inv (I := fun _ => True) (fun _ _ _ _ _ _ => trivial) (fun s e t _ _ => weaker s e t)
    trivial h

theorem EveryStep.and (q : EveryStep step Q s es) (r : EveryStep step R s es) :
    EveryStep step (fun s e t => Q s e t ∧ R s e t) s es := by
  induction es generalizing s with
  | nil => trivial
  | cons e es ih =>
    intro t moved
    exact ⟨⟨(q t moved).1, (r t moved).1⟩, ih (q t moved).2 (r t moved).2⟩

/-- The exact form of the invariant rule.  `P` is what is asked of every state
and `I` the invariant that carries it; `A` is what is assumed of every step.  When
a step from inside `I` that ends in `P` meets `G`, and a step from inside `I` that
meets `G` ends inside `I`, then a run satisfies `P` throughout exactly if all its
steps meet `G`. -/
theorem EveryState.iff_everyStep_of (sound : ∀ s, I s → P s)
    (necessary : ∀ s e t, I s → step s e = some t → A s e t → P t → G s e t)
    (preserved : ∀ s e t, I s → step s e = some t → A s e t → G s e t → I t) (start : I s)
    (assumed : EveryStep step A s es) : EveryState step P s es ↔ EveryStep step G s es := by
  induction es generalizing s with
  | nil => exact ⟨fun _ => trivial, fun _ => sound s start⟩
  | cons e es ih =>
    constructor
    · intro states t moved
      obtain ⟨given, later⟩ := assumed t moved
      have good := necessary s e t start moved given (states.2 t moved).head
      exact ⟨good, (ih (preserved s e t start moved given good) later).mp (states.2 t moved)⟩
    · intro steps
      refine ⟨sound s start, fun t moved => ?_⟩
      obtain ⟨given, later⟩ := assumed t moved
      obtain ⟨good, rest⟩ := steps t moved
      exact (ih (preserved s e t start moved given good) later).mpr rest

/-- The rule when nothing is assumed of the steps. -/
theorem EveryState.iff_everyStep (sound : ∀ s, I s → P s)
    (necessary : ∀ s e t, I s → step s e = some t → P t → G s e t)
    (preserved : ∀ s e t, I s → step s e = some t → G s e t → I t) (start : I s) :
    EveryState step P s es ↔ EveryStep step G s es :=
  iff_everyStep_of sound (fun s e t inside moved _ => necessary s e t inside moved)
    (fun s e t inside moved _ => preserved s e t inside moved) start EveryStep.unguarded

/-- The invariant rule.  Steps that meet `G` preserve `I`, so a run all of whose
steps meet `G` stays inside `I`. -/
theorem EveryState.of_step (preserved : ∀ s e t, I s → step s e = some t → G s e t → I t)
    (start : I s) (guarded : EveryStep step G s es) : EveryState step I s es :=
  (iff_everyStep_of (fun _ inside => inside) (fun _ _ _ _ _ good _ => good)
    (fun s e t inside moved _ => preserved s e t inside moved) start guarded).mpr guarded

/-- A predicate closed under all steps holds where any run ends. -/
theorem exec_induction (preserved : ∀ s e t, I s → step s e = some t → I t) (start : I s)
    (run : exec step s es = some t) : I t :=
  EveryState.last (P := I) (EveryState.of_step
    (fun s e t inside moved _ => preserved s e t inside moved) start EveryStep.unguarded) run

/-- The step property an invariant of all steps gives. -/
theorem EveryStep.of_closed (preserved : ∀ s e t, I s → step s e = some t → I t)
    (holds : ∀ s e t, I s → step s e = some t → Q s e t) (start : I s) :
    EveryStep step Q s es :=
  of_inv (fun s e t inside moved _ => preserved s e t inside moved)
    (fun s e t inside moved _ => holds s e t inside moved) start unguarded

/-- A system inside another: `get` is its state there, `put` replaces that.  Labels the outer
system passes on run alike in both. -/
theorem exec_map {σ' ε' : Type*} {outer : σ' → ε' → Option σ'} (get : σ' → σ)
    (put : σ' → σ → σ') {wrap : ε → ε'} {s : σ'} (passes : ∀ s e t, step (get s) e = some t →
      outer s (wrap e) = some (put s t))
    (get_put : ∀ s t, get (put s t) = t) (put_put : ∀ s t u, put (put s t) u = put s u)
    (put_get : ∀ s, put s (get s) = s) (run : exec step (get s) es = some t) :
    exec outer s (es.map wrap) = some (put s t) := by
  induction es generalizing s with
  | nil =>
    cases run
    exact congrArg some (put_get s).symm
  | cons e es ih =>
    obtain ⟨u, moved, rest⟩ := exec_cons.mp run
    refine exec_cons.mpr ⟨put s u, passes s e u moved, ?_⟩
    rw [ih ((get_put s u).symm ▸ rest), put_put]

/-! ### Evaluating a run -/

/-- A concrete run can be checked step by step. -/
instance EveryStep.decidable {Q : σ → ε → σ → Prop} [∀ s e t, Decidable (Q s e t)] :
    ∀ s es, Decidable (EveryStep step Q s es)
  | _, [] => isTrue trivial
  | s, e :: es =>
    match moved : step s e with
    | none => isTrue fun t found => absurd (moved.symm.trans found) (by simp)
    | some t =>
      have : Decidable (EveryStep step Q t es) := EveryStep.decidable t es
      decidable_of_iff (Q s e t ∧ EveryStep step Q t es)
        ⟨fun both u found => Option.some.inj (moved.symm.trans found) ▸ both,
          fun all => all t moved⟩

end Runs

end StoragePlatform.Lib
