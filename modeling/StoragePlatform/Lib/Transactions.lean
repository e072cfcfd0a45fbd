/-
Module: StoragePlatform.Lib.Transactions
Purpose: Interleaved transactions at statement granularity under READ COMMITTED,
  and the non-interference rule for their invariants.
Trusted boundary: none
Main exports: TxRules, TxRules.step, TxRules.alone, TxInvariant, TxInvariant.everyState
-/
import Mathlib.Data.List.Perm.Basic
import StoragePlatform.Lib.Runs

namespace StoragePlatform.Lib

open List

/-!
A transaction is a value that says which statement comes next, what its reads
found, and what it has written and not yet committed.  A statement sees the
committed database and, where it has to wait for a lock or a key, what the other
open transactions hold.  Writes reach the database at commit.  A transaction may
be rolled back between any two statements: that is how errors, deadlocks and lost
connections end it.
-/

section Transactions

variable {σ ρ τ ι : Type*}

/-- How the transactions of a system run. -/
structure TxRules (σ ρ τ ι : Type*) where
  /-- A request up to and with its first statement. -/
  start : σ → ρ → Option τ
  /-- The next statement, next to the other open transactions.  `none` means that it
  waits, or that it fails and the transaction will be rolled back. -/
  next : σ → List τ → τ → ι → Option τ
  /-- The database after the commit of a transaction that has run its statements. -/
  commit : σ → τ → Option σ

/-- The committed database and the open transactions. -/
structure TxState (σ τ : Type*) where
  db : σ
  txs : List τ
deriving DecidableEq, Repr

inductive TxEvent (ρ ι : Type*) where
  | start (request : ρ)
  | next (i : Nat) (input : ι)
  | commit (i : Nat)
  | rollback (i : Nat)
deriving DecidableEq, Repr

def TxRules.step (rules : TxRules σ ρ τ ι) (s : TxState σ τ) :
    TxEvent ρ ι → Option (TxState σ τ)
  | .start request =>
    match rules.start s.db request with
    | none => none
    | some t => some { s with txs := s.txs ++ [t] }
  | .next i input =>
    match s.txs[i]? with
    | none => none
    | some t =>
      match rules.next s.db (s.txs.eraseIdx i) t input with
      | none => none
      | some t' => some { s with txs := s.txs.set i t' }
  | .commit i =>
    match s.txs[i]? with
    | none => none
    | some t =>
      match rules.commit s.db t with
      | none => none
      | some db' => some { db := db', txs := s.txs.eraseIdx i }
  | .rollback i =>
    match s.txs[i]? with
    | none => none
    | some _ => some { s with txs := s.txs.eraseIdx i }

/-- What a step does. -/
inductive TxRules.Stepped (rules : TxRules σ ρ τ ι) (s : TxState σ τ) :
    TxEvent ρ ι → TxState σ τ → Prop
  | start {request : ρ} {t : τ} (started : rules.start s.db request = some t) :
      Stepped rules s (.start request) { s with txs := s.txs ++ [t] }
  | next {i : Nat} {input : ι} {t t' : τ} (current : s.txs[i]? = some t)
      (ran : rules.next s.db (s.txs.eraseIdx i) t input = some t') :
      Stepped rules s (.next i input) { s with txs := s.txs.set i t' }
  | commit {i : Nat} {t : τ} {db' : σ} (current : s.txs[i]? = some t)
      (committed : rules.commit s.db t = some db') :
      Stepped rules s (.commit i) { db := db', txs := s.txs.eraseIdx i }
  | rollback {i : Nat} {t : τ} (current : s.txs[i]? = some t) :
      Stepped rules s (.rollback i) { s with txs := s.txs.eraseIdx i }

theorem TxRules.step_inv {rules : TxRules σ ρ τ ι} {s s' : TxState σ τ} {e : TxEvent ρ ι}
    (moved : rules.step s e = some s') : rules.Stepped s e s' := by
  cases e with
  | start request =>
    simp only [step] at moved
    split at moved <;> cases moved
    exact .start ‹_›
  | next i input =>
    simp only [step] at moved
    split at moved
    · cases moved
    · split at moved <;> cases moved
      exact .next ‹_› ‹_›
  | commit i =>
    simp only [step] at moved
    split at moved
    · cases moved
    · split at moved <;> cases moved
      exact .commit ‹_› ‹_›
  | rollback i =>
    simp only [step] at moved
    split at moved <;> cases moved
    exact .rollback ‹_›

/-! ### One transaction at a time -/

/-- The statements of a transaction with these inputs and its commit, with no other
transaction open. -/
def TxRules.alone (rules : TxRules σ ρ τ ι) (db : σ) : τ → List ι → Option σ
  | t, [] => rules.commit db t
  | t, input :: inputs =>
    match rules.next db [] t input with
    | none => none
    | some t' => rules.alone db t' inputs

theorem TxRules.alone_cons {rules : TxRules σ ρ τ ι} {db : σ} {t t' : τ} {input : ι}
    (ran : rules.next db [] t input = some t') (inputs : List ι) :
    rules.alone db t (input :: inputs) = rules.alone db t' inputs := by
  rw [alone, ran]

/-! ### Invariants -/

/-- The guard holds of every transaction that runs a statement. -/
def TxGuarded (guard : σ → τ → Prop) (s : TxState σ τ) (e : TxEvent ρ ι) (_ : TxState σ τ) :
    Prop :=
  match e with
  | .next i _ => ∀ t ∈ s.txs[i]?, guard s.db t
  | _ => True

instance (guard : σ → τ → Prop) [∀ db t, Decidable (guard db t)] (s : TxState σ τ)
    (e : TxEvent ρ ι) (s' : TxState σ τ) : Decidable (TxGuarded guard s e s') :=
  match e with
  | .next i _ => inferInstanceAs (Decidable (∀ t ∈ s.txs[i]?, guard s.db t))
  | .start _ => isTrue trivial
  | .commit _ => isTrue trivial
  | .rollback _ => isTrue trivial

/-- An invariant in three parts: of the committed database, of each open
transaction against it, and of each two open transactions against each other.
The obligations say what one transaction does to the other parts when it starts,
runs a statement and commits; a rollback has none. -/
structure TxInvariant (rules : TxRules σ ρ τ ι) (guard : σ → τ → Prop) where
  whole : σ → Prop
  each : σ → τ → Prop
  apart : τ → τ → Prop
  symm : ∀ t u, apart t u → apart u t
  started : ∀ db request t, whole db → rules.start db request = some t →
    each db t ∧ ∀ u, apart t u
  ran : ∀ db others t input t', whole db → each db t →
    (∀ u ∈ others, each db u ∧ apart t u) → guard db t →
    rules.next db others t input = some t' → each db t' ∧ ∀ u ∈ others, apart t' u
  committed : ∀ db t db', whole db → each db t → rules.commit db t = some db' →
    whole db' ∧ ∀ u, each db u → apart t u → each db' u

namespace TxInvariant

variable {rules : TxRules σ ρ τ ι} {guard : σ → τ → Prop}

/-- The invariant at a state. -/
structure Holds (inv : TxInvariant rules guard) (s : TxState σ τ) : Prop where
  whole : inv.whole s.db
  each : ∀ t ∈ s.txs, inv.each s.db t
  apart : s.txs.Pairwise inv.apart

/-- The invariant does not depend on the order of the open transactions. -/
theorem Holds.perm {inv : TxInvariant rules guard} {db : σ} {txs txs' : List τ}
    (h : inv.Holds ⟨db, txs⟩) (order : txs'.Perm txs) : inv.Holds ⟨db, txs'⟩ where
  whole := h.whole
  each t member := h.each t (order.mem_iff.mp member)
  apart := (order.pairwise_iff (inv.symm _ _)).mpr h.apart

theorem Holds.cons_iff {inv : TxInvariant rules guard} {db : σ} {t : τ} {others : List τ} :
    inv.Holds ⟨db, t :: others⟩ ↔
      inv.Holds ⟨db, others⟩ ∧ inv.each db t ∧ ∀ u ∈ others, inv.apart t u := by
  constructor
  · rintro ⟨whole, each, apart⟩
    obtain ⟨here, later⟩ := forall_mem_cons.mp each
    obtain ⟨against, rest⟩ := pairwise_cons.mp apart
    exact ⟨⟨whole, later, rest⟩, here, against⟩
  · rintro ⟨⟨whole, each, apart⟩, here, against⟩
    exact ⟨whole, forall_mem_cons.mpr ⟨here, each⟩, pairwise_cons.mpr ⟨against, apart⟩⟩

/-- One open transaction singled out. -/
theorem Holds.focus {inv : TxInvariant rules guard} {s : TxState σ τ} (h : inv.Holds s) {i : Nat}
    {t : τ} (current : s.txs[i]? = some t) :
    inv.Holds ⟨s.db, s.txs.eraseIdx i⟩ ∧ inv.each s.db t ∧
      ∀ u ∈ s.txs.eraseIdx i, inv.apart t u := by
  obtain ⟨inRange, rfl⟩ := List.getElem?_eq_some_iff.mp current
  exact Holds.cons_iff.mp (h.perm (getElem_cons_eraseIdx_perm inRange))

theorem Holds.step {inv : TxInvariant rules guard} {s s' : TxState σ τ} {e : TxEvent ρ ι}
    (h : inv.Holds s) (moved : rules.step s e = some s') (good : TxGuarded guard s e s') :
    inv.Holds s' := by
  cases TxRules.step_inv moved with
  | start started =>
    obtain ⟨own, against⟩ := inv.started _ _ _ h.whole started
    exact (Holds.cons_iff.mpr ⟨h, own, fun u _ => against u⟩).perm (perm_append_singleton _ _)
  | next current ran =>
    obtain ⟨others, own, against⟩ := h.focus current
    obtain ⟨own', against'⟩ := inv.ran _ _ _ _ _ h.whole own
      (fun u member => ⟨others.each u member, against u member⟩) (good _ current) ran
    obtain ⟨inRange, -⟩ := List.getElem?_eq_some_iff.mp current
    exact (Holds.cons_iff.mpr ⟨others, own', against'⟩).perm (set_perm_cons_eraseIdx inRange _)
  | commit current committed =>
    obtain ⟨others, own, against⟩ := h.focus current
    obtain ⟨whole, kept⟩ := inv.committed _ _ _ h.whole own committed
    exact ⟨whole, fun u member => kept u (others.each u member) (against u member), others.apart⟩
  | rollback current => exact (h.focus current).1

/-- In a run all of whose statements meet the guard the invariant holds throughout. -/
theorem everyState (inv : TxInvariant rules guard) {db : σ} (start : inv.whole db)
    {events : List (TxEvent ρ ι)}
    (guarded : EveryStep rules.step (TxGuarded guard) ⟨db, []⟩ events) :
    EveryState rules.step inv.Holds ⟨db, []⟩ events :=
  EveryState.of_step (fun _ _ _ h moved good => h.step moved good)
    ⟨start, fun _ member => absurd member not_mem_nil, .nil⟩ guarded

end TxInvariant

end Transactions

end StoragePlatform.Lib
