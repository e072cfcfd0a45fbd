/-
Module: StoragePlatform.Agent.StoreCalls
Purpose: Concurrent Put and Delete calls on the fragment store, as the steps that other
  calls can see (internal/agent/store.go).
Trusted boundary: human-reviewed spec; nothing fails by itself
Main exports: StoreAct, CallPhase, StoreSystem, StoreEvent, delete_alone
-/
import StoragePlatform.Proofs.ChunkPut

namespace StoragePlatform

open Lib
open Std (ExtTreeMap)

/-!
No lock spans the directory and the index.  `Put` renames and then writes its row, `Delete`
unlinks and then deletes the row, and each of the four is atomic by itself.  The temporary
file of a `Put` belongs to the call alone until the rename, so it is kept with the call and
not in the store.
-/

/-- A step on the files or on the index. -/
inductive StoreAct where
  | rename (id : Uuid) (data : Bytes)
  | unlink (id : Uuid)
  | indexPut (id : Uuid) (row : IndexRow)
  | indexDelete (id : Uuid)
deriving DecidableEq, Repr

/-- Where a call stands.  `stored` and `deleted` have returned nil; `handlePut` signs its
receipt after `stored`. -/
inductive CallPhase where
  | putting (r : Upload) (wantSHA : Bytes) (maxBytes : Nat) (expires : Instant)
  | staged (data : Bytes) (expires : Instant)
  | renamed (data : Bytes) (expires : Instant)
  | stored (fragMeta : FragMeta)
  | refused (e : ChunkErr)
  | deleting
  | unlinked
  | deleted
deriving DecidableEq, Repr

structure StoreCall where
  id : Uuid
  phase : CallPhase
deriving DecidableEq, Repr

/-- The store, the calls on it and the history of the acts. -/
structure StoreSystem where
  store : ChunkStore
  calls : List StoreCall
  acts : List StoreAct

/-- A store on which no call has been made yet. -/
def StoreSystem.init (store : ChunkStore) : StoreSystem := ⟨store, [], []⟩

inductive StoreEvent where
  | put (id : Uuid) (r : Upload) (wantSHA : Bytes) (maxBytes : Nat) (expires : Instant)
  /-- `Put` up to the rename, with the name `os.CreateTemp` finds. -/
  | stage (i : Nat) (tmp : Nat)
  | rename (i : Nat)
  /-- The index write of `Put`, with the clock it has read. -/
  | indexPut (i : Nat) (now : Instant)
  /-- A `Delete`, of a request or of a scrub. -/
  | delete (id : Uuid)
  | unlink (i : Nat)
  | indexDelete (i : Nat)
deriving DecidableEq, Repr

namespace StoreSystem

variable (hash : Bytes → Bytes)

/-- The call moves to `phase` and does `act`. -/
def act (s : StoreSystem) (i : Nat) (id : Uuid) (phase : CallPhase) (store : ChunkStore)
    (done : StoreAct) : StoreSystem where
  store := store
  calls := s.calls.set i ⟨id, phase⟩
  acts := s.acts ++ [done]

def step (s : StoreSystem) : StoreEvent → Option StoreSystem
  | .put id r wantSHA maxBytes expires =>
    some { s with calls := s.calls ++ [⟨id, .putting r wantSHA maxBytes expires⟩] }
  | .delete id => some { s with calls := s.calls ++ [⟨id, .deleting⟩] }
  | .stage i tmp =>
    match s.calls[i]? with
    | some ⟨id, .putting r wantSHA maxBytes expires⟩ =>
      if tmp ∈ s.store.temps then none
      else
        match (s.store.stage hash r wantSHA maxBytes ⟨tmp, 0, none⟩).1 with
        | .error e => some { s with calls := s.calls.set i ⟨id, .refused e⟩ }
        | .ok data => some { s with calls := s.calls.set i ⟨id, .staged data expires⟩ }
    | _ => none
  | .rename i =>
    match s.calls[i]? with
    | some ⟨id, .staged data expires⟩ =>
      some (s.act i id (.renamed data expires)
        { s.store with files := s.store.files.insert id data } (.rename id data))
    | _ => none
  | .indexPut i now =>
    match s.calls[i]? with
    | some ⟨id, .renamed data expires⟩ =>
      let fragMeta := ChunkStore.metaOf hash data expires now
      some (s.act i id (.stored fragMeta) (s.store.indexPut id fragMeta.row)
        (.indexPut id fragMeta.row))
    | _ => none
  | .unlink i =>
    match s.calls[i]? with
    | some ⟨id, .deleting⟩ => some (s.act i id .unlinked (s.store.unlink id) (.unlink id))
    | _ => none
  | .indexDelete i =>
    match s.calls[i]? with
    | some ⟨id, .unlinked⟩ =>
      some (s.act i id .deleted (s.store.indexDelete id) (.indexDelete id))
    | _ => none

end StoreSystem

/-! ### Calls by themselves -/

/-- The steps of a `Put` that nothing interrupts are the `Put`. -/
theorem put_alone (hash : Bytes → Bytes) (s : ChunkStore) (id : Uuid) (r : Upload)
    (wantSHA : Bytes) (maxBytes : Nat) (expires now : Instant) {tmp : Nat} (fresh : tmp ∉ s.temps)
    {fragMeta : FragMeta} {s' : ChunkStore}
    (put : s.put hash id r wantSHA maxBytes expires ⟨tmp, now, none⟩ = (.ok fragMeta, s')) :
    ∃ acts, exec (StoreSystem.step hash) (.init s)
      [.put id r wantSHA maxBytes expires, .stage 0 tmp, .rename 0, .indexPut 0 now] =
        some ⟨s', [⟨id, .stored fragMeta⟩], acts⟩ := by
  rcases ChunkStore.put_cases hash s id r wantSHA maxBytes expires ⟨tmp, now, none⟩ with
    ⟨e, result, -⟩ | ⟨e, -, fault, -⟩ | ⟨data, staged, -, result⟩
  · rw [put] at result
    cases result
  · cases fault
  · rw [put] at result
    cases result
    have staged' : ChunkStore.Staged hash s r wantSHA maxBytes ⟨tmp, 0, none⟩ data :=
      ⟨staged.fresh, staged.read, staged.bounded, staged.hashed, .inl rfl⟩
    refine ⟨[.rename id data, .indexPut id (ChunkStore.metaOf hash data expires now).row], ?_⟩
    simp [exec, StoreSystem.step, StoreSystem.init, StoreSystem.act, fresh,
      ChunkStore.stage_of_staged staged', ChunkStore.indexPut]

theorem delete_alone (hash : Bytes → Bytes) (s : ChunkStore) (id : Uuid) :
    ∃ acts, exec (StoreSystem.step hash) (.init s) [.delete id, .unlink 0, .indexDelete 0] =
      some ⟨(s.delete id false).2, [⟨id, .deleted⟩], acts⟩ := by
  refine ⟨[.unlink id, .indexDelete id], ?_⟩
  simp [exec, StoreSystem.step, StoreSystem.init, StoreSystem.act, ChunkStore.delete]

end StoragePlatform
