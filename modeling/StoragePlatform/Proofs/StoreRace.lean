/-
Module: StoragePlatform.Proofs.StoreRace
Purpose: Which interleavings of Put and Delete keep files and index together, and which
  receipts are covered by a fragment.
Trusted boundary: none
Main exports: StoreMove, StoreSystem.step_inv, lastFile, lastRow, exclusive_keeps
-/
import StoragePlatform.Agent.StoreCalls

namespace StoragePlatform

open Lib List Sample
open Std (ExtTreeMap)

variable {calls : List StoreCall} {i : Nat} {id₀ : Uuid} {events : List StoreEvent}

/-! ### What a step does -/

/-- What a call between its step on the files and its step on the index has made of the
file. -/
def CallPhase.left : CallPhase → Option (Option Bytes)
  | .renamed data _ => some (some data)
  | .unlinked => some none
  | _ => none

/-- The call is between its two steps. -/
def CallPhase.between (phase : CallPhase) : Bool := phase.left.isSome

/-- The call has done both steps. -/
def CallPhase.complete : CallPhase → Bool
  | .stored _ | .deleted => true
  | _ => false

/-- The call has done its step on the files. -/
def CallPhase.filed (phase : CallPhase) : Bool := phase.between || phase.complete

/-- The call has returned. -/
def CallPhase.returned : CallPhase → Bool
  | .stored _ | .refused _ | .deleted => true
  | _ => false

/-- The acts of one step, with the call before and after.  A step without an act adds a
call that has done nothing, or leaves a call that has done nothing. -/
inductive StoreMove (hash : Bytes → Bytes) (s : StoreSystem) : StoreEvent → StoreSystem → Prop
  | arrive {e : StoreEvent} (c : StoreCall) (idle : c.phase.between = false)
      (fresh : c.phase.complete = false) : StoreMove hash s e { s with calls := s.calls ++ [c] }
  | prepare {e : StoreEvent} {i : Nat} {c : StoreCall} (phase : CallPhase)
      (here : s.calls[i]? = some c) (idle : c.phase.between = false)
      (fresh : c.phase.complete = false) (idle' : phase.between = false)
      (fresh' : phase.complete = false) :
      StoreMove hash s e { s with calls := s.calls.set i ⟨c.id, phase⟩ }
  | rename {i : Nat} {id : Uuid} {data : Bytes} {expires : Instant}
      (here : s.calls[i]? = some ⟨id, .staged data expires⟩) :
      StoreMove hash s (.rename i) (s.act i id (.renamed data expires)
        { s.store with files := s.store.files.insert id data } (.rename id data))
  | indexPut {i : Nat} {id : Uuid} {data : Bytes} {expires now : Instant}
      (here : s.calls[i]? = some ⟨id, .renamed data expires⟩) :
      StoreMove hash s (.indexPut i now)
        (s.act i id (.stored (ChunkStore.metaOf hash data expires now))
          (s.store.indexPut id (ChunkStore.metaOf hash data expires now).row)
          (.indexPut id (ChunkStore.metaOf hash data expires now).row))
  | unlink {i : Nat} {id : Uuid} (here : s.calls[i]? = some ⟨id, .deleting⟩) :
      StoreMove hash s (.unlink i) (s.act i id .unlinked (s.store.unlink id) (.unlink id))
  | indexDelete {i : Nat} {id : Uuid} (here : s.calls[i]? = some ⟨id, .unlinked⟩) :
      StoreMove hash s (.indexDelete i)
        (s.act i id .deleted (s.store.indexDelete id) (.indexDelete id))

variable {hash : Bytes → Bytes} {s s' : StoreSystem} {e : StoreEvent} {store : ChunkStore}
  {id : Uuid}

theorem StoreSystem.step_inv (stepped : s.step hash e = some s') : StoreMove hash s e s' := by
  cases e with
  | put | delete =>
    cases stepped
    exact .arrive _ rfl rfl
  | stage i tmp =>
    simp only [step] at stepped
    split at stepped
    · rename_i here
      split at stepped
      · cases stepped
      split at stepped <;> cases stepped
      all_goals exact .prepare _ here rfl rfl rfl rfl
    · cases stepped
  | rename i =>
    simp only [step] at stepped
    split at stepped <;> cases stepped
    exact .rename ‹_›
  | indexPut i now =>
    simp only [step] at stepped
    split at stepped <;> cases stepped
    exact .indexPut ‹_›
  | unlink i =>
    simp only [step] at stepped
    split at stepped <;> cases stepped
    exact .unlink ‹_›
  | indexDelete i =>
    simp only [step] at stepped
    split at stepped <;> cases stepped
    exact .indexDelete ‹_›

/-! ### The last steps on an id -/

/-- What an act makes of the file of the id, if it is about it. -/
def StoreAct.file (id : Uuid) : StoreAct → Option (Option Bytes)
  | .rename id' data => if id' = id then some (some data) else none
  | .unlink id' => if id' = id then some none else none
  | .indexPut _ _ | .indexDelete _ => none

/-- What an act makes of the index row of the id, if it is about it. -/
def StoreAct.row (id : Uuid) : StoreAct → Option (Option IndexRow)
  | .indexPut id' row => if id' = id then some (some row) else none
  | .indexDelete id' => if id' = id then some none else none
  | .rename _ _ | .unlink _ => none

/-- The last step on the file of the id: a rename with its content, or an unlink. -/
def lastFile (id : Uuid) (acts : List StoreAct) : Option (Option Bytes) :=
  acts.reverse.findSome? (StoreAct.file id)

/-- The last step on the index row of the id. -/
def lastRow (id : Uuid) (acts : List StoreAct) : Option (Option IndexRow) :=
  acts.reverse.findSome? (StoreAct.row id)

theorem lastFile_append (id : Uuid) (acts : List StoreAct) (done : StoreAct) :
    lastFile id (acts ++ [done]) = (done.file id).or (lastFile id acts) := by
  rw [lastFile, reverse_append, findSome?_append]
  simp [lastFile]

theorem lastRow_append (id : Uuid) (acts : List StoreAct) (done : StoreAct) :
    lastRow id (acts ++ [done]) = (done.row id).or (lastRow id acts) := by
  rw [lastRow, reverse_append, findSome?_append]
  simp [lastRow]

/-- The store is what the acts have made of the first one. -/
structure StoreSystem.Described (store : ChunkStore) (s : StoreSystem) : Prop where
  files : ∀ id : Uuid, s.store.files[id]? = (lastFile id s.acts).getD store.files[id]?
  rows : ∀ id : Uuid, s.store.index[id]? = (lastRow id s.acts).getD store.index[id]?
  /-- There is a step on the file exactly if a call on the id has got that far. -/
  filed : ∀ id : Uuid, (lastFile id s.acts).isSome = true ↔
    ∃ c ∈ s.calls, c.id = id ∧ c.phase.filed = true
  rowed : ∀ id : Uuid, (lastRow id s.acts).isSome = true ↔
    ∃ c ∈ s.calls, c.id = id ∧ c.phase.complete = true

/-- A property of phases that a call does not lose, after the call has moved. -/
theorem exists_set_iff {calls : List StoreCall} {P : CallPhase → Bool} {i : Nat} {id₀ : Uuid}
    {old new : CallPhase} (here : calls[i]? = some ⟨id₀, old⟩)
    (kept : P old = true → P new = true) (id : Uuid) :
    (∃ c ∈ calls.set i ⟨id₀, new⟩, c.id = id ∧ P c.phase = true) ↔
      (∃ c ∈ calls, c.id = id ∧ P c.phase = true) ∨ (id₀ = id ∧ P new = true) := by
  obtain ⟨inRange, isOld⟩ := List.getElem?_eq_some_iff.mp here
  constructor
  · rintro ⟨c, member, same, holds⟩
    rcases mem_or_eq_of_mem_set member with earlier | rfl
    · exact .inl ⟨c, earlier, same, holds⟩
    · exact .inr ⟨same, holds⟩
  · rintro (⟨c, member, same, holds⟩ | ⟨same, holds⟩)
    · by_cases own : c = ⟨id₀, old⟩
      · subst own
        exact ⟨⟨id₀, new⟩, mem_set inRange _, same, kept holds⟩
      · exact ⟨c, mem_set_of_ne here member own, same, holds⟩
    · exact ⟨⟨id₀, new⟩, mem_set inRange _, same, holds⟩

/-- A step with an act, which is the one that takes its call from `old` to `new`. -/
theorem StoreSystem.Described.act (described : s.Described store) {i : Nat} {id₀ : Uuid}
    {old new : CallPhase} {store' : ChunkStore} {done : StoreAct}
    (here : s.calls[i]? = some ⟨id₀, old⟩)
    (files : ∀ id : Uuid, store'.files[id]? = (done.file id).getD s.store.files[id]?)
    (rows : ∀ id : Uuid, store'.index[id]? = (done.row id).getD s.store.index[id]?)
    (keptFile : old.filed = true → new.filed = true)
    (keptRow : old.complete = true → new.complete = true)
    (filed : ∀ id : Uuid, (done.file id).isSome = true ↔
      id₀ = id ∧ old.filed = false ∧ new.filed = true)
    (rowed : ∀ id : Uuid, (done.row id).isSome = true ↔
      id₀ = id ∧ old.complete = false ∧ new.complete = true) :
    (s.act i id₀ new store' done).Described store := by
  have before : ∀ P : CallPhase → Bool, P old = true →
      ∃ c ∈ s.calls, c.id = id₀ ∧ P c.phase = true := fun P holds =>
    ⟨_, mem_of_getElem? here, rfl, holds⟩
  refine ⟨fun id => ?_, fun id => ?_, fun id => ?_, fun id => ?_⟩
  · simp only [StoreSystem.act, lastFile_append]
    rw [files]
    cases done.file id with
    | none => exact described.files id
    | some file => rfl
  · simp only [StoreSystem.act, lastRow_append]
    rw [rows]
    cases done.row id with
    | none => exact described.rows id
    | some row => rfl
  · simp only [StoreSystem.act, lastFile_append, exists_set_iff here keptFile, Option.isSome_or,
      Bool.or_eq_true, described.filed, filed]
    have known := before CallPhase.filed
    grind
  · simp only [StoreSystem.act, lastRow_append, exists_set_iff here keptRow, Option.isSome_or,
      Bool.or_eq_true, described.rowed, rowed]
    have known := before CallPhase.complete
    grind

theorem StoreSystem.Described.step (described : s.Described store)
    (stepped : s.step hash e = some s') : s'.Described store := by
  cases StoreSystem.step_inv stepped with
  | arrive c idle fresh =>
    have still : c.phase.filed = false := by rw [CallPhase.filed, idle, fresh]; rfl
    refine ⟨described.files, described.rows, fun id => ?_, fun id => ?_⟩
    · rw [described.filed]
      simp [or_and_right, exists_or, still]
    · rw [described.rowed]
      simp [or_and_right, exists_or, fresh]
  | @prepare _ i c phase here idle fresh idle' fresh' =>
    have still : phase.filed = false := by rw [CallPhase.filed, idle', fresh']; rfl
    have none : c.phase.filed = false := by rw [CallPhase.filed, idle, fresh]; rfl
    refine ⟨described.files, described.rows, fun id => ?_, fun id => ?_⟩
    · rw [described.filed, @exists_set_iff _ CallPhase.filed i c.id c.phase phase here
        (by simp [none])]
      simp [still]
    · rw [described.rowed, @exists_set_iff _ CallPhase.complete i c.id c.phase phase here
        (by simp [fresh])]
      simp [fresh']
  | rename here | unlink here =>
    refine described.act here (fun id => ?_) (fun id => rfl) (fun _ => rfl)
      (fun complete => complete) (fun id => ?_) (fun id => ?_)
    · simp only [ChunkStore.unlink, StoreAct.file, lookup_insert, lookup_erase]
      split <;> rfl
    · simp [StoreAct.file, CallPhase.filed, CallPhase.between, CallPhase.left, CallPhase.complete]
    · simp [StoreAct.row, CallPhase.complete]
  | indexPut here | indexDelete here =>
    refine described.act here (fun id => rfl) (fun id => ?_) (fun _ => rfl) (fun _ => rfl)
      (fun id => ?_) (fun id => ?_)
    · simp only [ChunkStore.indexPut, ChunkStore.indexDelete, StoreAct.row, lookup_insert,
        lookup_erase]
      split <;> rfl
    · simp [StoreAct.file, CallPhase.filed, CallPhase.between, CallPhase.left]
    · simp [StoreAct.row, CallPhase.complete]

theorem StoreSystem.Described.run (run : exec (StoreSystem.step hash) (.init store) events = some s)
    : s.Described store := by
  refine exec_induction (I := fun s => s.Described store) ?_ ?_ run
  · exact fun _ _ _ described stepped => described.step stepped
  · exact ⟨fun _ => rfl, fun _ => rfl, fun _ => by simp [StoreSystem.init, lastFile],
      fun _ => by simp [StoreSystem.init, lastRow]⟩

/-- A row that was stepped on stays so. -/
theorem StoreSystem.lastRow_run (run : exec (StoreSystem.step hash) s events = some s')
    (stepped : (lastRow id s.acts).isSome = true) : (lastRow id s'.acts).isSome = true := by
  refine exec_induction (I := fun s => (lastRow id s.acts).isSome = true) ?_ stepped run
  intro s e s' before moved
  cases StoreSystem.step_inv moved with
  | arrive | prepare => exact before
  | rename | indexPut | unlink | indexDelete =>
    simp only [StoreSystem.act, lastRow_append, Option.isSome_or, before, Bool.or_true]

/-! ### Safe runs -/

/-- Every call on the id has returned. -/
def StoreSystem.Quiet (s : StoreSystem) (id : Uuid) : Prop :=
  ∀ c ∈ s.calls, c.id = id → c.phase.returned = true

/-- `Get` finds a file with the hash. -/
def ChunkStore.Serves (hash : Bytes → Bytes) (s : ChunkStore) (id : Uuid) (sha : Bytes) : Prop :=
  ∃ data fragMeta, s.get id = .ok (data, fragMeta) ∧ hash data = sha

/-- The run ends with `settled` for every id whose calls have returned, and `served` holds
at some moment after each index write of a `Put`, for the hash its receipt states. -/
structure RunKeeps (hash : Bytes → Bytes) (store : ChunkStore) (events : List StoreEvent)
    (settled : StoreSystem → Uuid → Prop) (served : StoreSystem → Uuid → Bytes → Prop) :
    Prop where
  atRest : ∀ s, exec (StoreSystem.step hash) (.init store) events = some s →
    ∀ id, s.Quiet id → settled s id
  afterWrite : ∀ n i now, events[n]? = some (.indexPut i now) →
    ∀ s id fragMeta, exec (StoreSystem.step hash) (.init store) (events.take (n + 1)) = some s →
      s.calls[i]? = some ⟨id, .stored fragMeta⟩ →
        ∃ k t, n < k ∧ k ≤ events.length ∧
          exec (StoreSystem.step hash) (.init store) (events.take k) = some t ∧
          served t id fragMeta.sha256

/-- The last step on the file and the last one on the row are two deletions, or belong to
contents of one hash. -/
def LastAgree (hash : Bytes → Bytes) (s : StoreSystem) (id : Uuid) : Prop :=
  (lastFile id s.acts).map (Option.map fun data => some (hash data)) =
    (lastRow id s.acts).map (Option.map IndexRow.sha256)

/-- The last step on the file is a rename of a content with the hash, the last one on the
row a write of a record that can be read. -/
def LastServes (hash : Bytes → Bytes) (s : StoreSystem) (id : Uuid) (sha : Bytes) : Prop :=
  ∃ data fragMeta, lastFile id s.acts = some (some data) ∧
    lastRow id s.acts = some (some (.record fragMeta)) ∧ hash data = sha

theorem filed_of_rowed (described : s.Described store)
    (stepped : (lastRow id s.acts).isSome = true) : (lastFile id s.acts).isSome = true := by
  obtain ⟨c, member, same, complete⟩ := (described.rowed id).mp stepped
  exact (described.filed id).mpr ⟨c, member, same, by simp [CallPhase.filed, complete]⟩

theorem consistent_iff (described : s.Described store) (start : store.Consistent hash id)
    (quiet : s.Quiet id) : s.store.Consistent hash id ↔ LastAgree hash s id := by
  have rowed_of_filed : (lastFile id s.acts).isSome = true → (lastRow id s.acts).isSome = true := by
    intro stepped
    obtain ⟨c, member, same, filed⟩ := (described.filed id).mp stepped
    refine (described.rowed id).mpr ⟨c, member, same, ?_⟩
    have returned := quiet c member same
    cases phase : c.phase <;>
      simp_all [CallPhase.filed, CallPhase.between, CallPhase.left, CallPhase.complete,
        CallPhase.returned]
  have filed := @filed_of_rowed s store id described
  rw [ChunkStore.Consistent, described.files, described.rows, LastAgree]
  cases file : lastFile id s.acts with
  | none =>
    cases row : lastRow id s.acts with
    | none => simpa [ChunkStore.Consistent] using start
    | some r => simp [file, row] at filed
  | some f =>
    cases row : lastRow id s.acts with
    | none => simp [file, row] at rowed_of_filed
    | some r => simp

theorem serves_iff (described : s.Described store) (stepped : (lastRow id s.acts).isSome = true)
    (sha : Bytes) : s.store.Serves hash id sha ↔ LastServes hash s id sha := by
  have filed := filed_of_rowed described stepped
  obtain ⟨f, file⟩ := Option.isSome_iff_exists.mp filed
  obtain ⟨r, row⟩ := Option.isSome_iff_exists.mp stepped
  simp only [ChunkStore.Serves, ChunkStore.get, LastServes, described.files, described.rows, file,
    row, Option.getD_some]
  cases r with
  | none => simp
  | some r => cases r <;> cases f <;> simp

/-- The same at a moment after a call on the id was complete. -/
theorem serves_later_iff {n k : Nat} {t : StoreSystem} (later : n < k)
    (first : exec (StoreSystem.step hash) (.init store) (events.take (n + 1)) = some s)
    (second : exec (StoreSystem.step hash) (.init store) (events.take k) = some t)
    (complete : ∃ c ∈ s.calls, c.id = id ∧ c.phase.complete = true) (sha : Bytes) :
    t.store.Serves hash id sha ↔ LastServes hash t id sha := by
  have described := StoreSystem.Described.run second
  have split : events.take k = events.take (n + 1) ++ (events.drop (n + 1)).take (k - (n + 1)) := by
    rw [← take_add, Nat.add_sub_of_le later]
  rw [split, exec_append, first] at second
  exact serves_iff described (StoreSystem.lastRow_run second
    (((StoreSystem.Described.run first).rowed id).mpr complete)) sha

theorem RunKeeps.imp {settled settled' : StoreSystem → Uuid → Prop}
    {served served' : StoreSystem → Uuid → Bytes → Prop}
    (keeps : RunKeeps hash store events settled served)
    (rest : ∀ s id, exec (StoreSystem.step hash) (.init store) events = some s → s.Quiet id →
      settled s id → settled' s id) (later : ∀ n k s t id sha, n < k →
      exec (StoreSystem.step hash) (.init store) (events.take (n + 1)) = some s →
      exec (StoreSystem.step hash) (.init store) (events.take k) = some t →
      (∃ c ∈ s.calls, c.id = id ∧ c.phase.complete = true) → served t id sha → served' t id sha) :
    RunKeeps hash store events settled' served' := by
  refine ⟨fun s run id quiet => rest s id run quiet (keeps.atRest s run id quiet), ?_⟩
  intro n i now written s id fragMeta first stored
  obtain ⟨k, t, after, inRun, second, serves⟩ :=
    keeps.afterWrite n i now written s id fragMeta first stored
  exact ⟨k, t, after, inRun, second, later n k s t id _ after first second
    ⟨_, mem_of_getElem? stored, rfl, rfl⟩ serves⟩

/-- Files and index are together after all calls, and each receipt was covered by a
fragment, exactly if the interleaving ends with steps that agree and, after each index
write, has a moment at which the last steps are those of puts of its content. -/
theorem storeRace_iff (start : ∀ id, store.Consistent hash id) (events : List StoreEvent) :
    RunKeeps hash store events (fun s id => s.store.Consistent hash id)
        (fun s id sha => s.store.Serves hash id sha) ↔
      RunKeeps hash store events (LastAgree hash) (LastServes hash) := by
  have atRest : ∀ s id, exec (StoreSystem.step hash) (.init store) events = some s →
      s.Quiet id → (s.store.Consistent hash id ↔ LastAgree hash s id) := fun s id run quiet =>
    consistent_iff (StoreSystem.Described.run run) (start id) quiet
  constructor
  · intro keeps
    refine keeps.imp (fun s id run quiet => (atRest s id run quiet).mp) ?_
    exact fun n k s t id sha after first second complete =>
      (serves_later_iff after first second complete sha).mp
  · intro keeps
    refine keeps.imp (fun s id run quiet => (atRest s id run quiet).mpr) ?_
    exact fun n k s t id sha after first second complete =>
      (serves_later_iff after first second complete sha).mpr

/-! ### One call at a time -/

/-- A call takes its step on the file only while no other call on the id is between its
two steps, as under a lock on the id. -/
def Exclusive (s : StoreSystem) (event : StoreEvent) (_ : StoreSystem) : Prop :=
  match event with
  | .rename i | .unlink i => ∀ c ∈ s.calls[i]?, ∀ other ∈ s.calls, other.id = c.id →
      other.phase.between = false
  | _ => True

instance (s : StoreSystem) (event : StoreEvent) (after : StoreSystem) :
    Decidable (Exclusive s event after) :=
  match event with
  | .rename _ | .unlink _ => inferInstanceAs (Decidable (∀ c ∈ _, ∀ other ∈ _, _))
  | .put .. | .stage .. | .indexPut .. | .delete .. | .indexDelete .. => isTrue trivial

/-- When a call that has renamed its file was told it expires. -/
def CallPhase.expiry : CallPhase → Option Instant
  | .renamed _ expires => some expires
  | _ => none

/-- An index write has a record that can be read back. -/
def Dated (s : StoreSystem) (event : StoreEvent) (_ : StoreSystem) : Prop :=
  match event with
  | .indexPut i now => ∀ c ∈ s.calls[i]?, ∀ expires ∈ c.phase.expiry,
      expires.marshals ∧ now.marshals
  | _ => True

instance (s : StoreSystem) (event : StoreEvent) (after : StoreSystem) :
    Decidable (Dated s event after) :=
  match event with
  | .indexPut _ _ => inferInstanceAs (Decidable (∀ c ∈ _, ∀ expires ∈ _, _))
  | .put .. | .stage .. | .rename .. | .delete .. | .unlink .. | .indexDelete .. => isTrue trivial

/-- At most one call on an id is between its steps, and the file is as it has left it.
Otherwise files and index are together. -/
structure StoreSystem.Locked (hash : Bytes → Bytes) (s : StoreSystem) : Prop where
  consistent : ∀ id, (∀ c ∈ s.calls, c.id = id → c.phase.between = false) →
    s.store.Consistent hash id
  file : ∀ (i : Nat) (c : StoreCall) (file : Option Bytes), s.calls[i]? = some c →
    c.phase.left = some file → s.store.files[c.id]? = file
  alone : ∀ (i j : Nat) (c c' : StoreCall), s.calls[i]? = some c → s.calls[j]? = some c' →
    c.id = c'.id → c.phase.between = true → c'.phase.between = true → i = j

namespace StoreSystem.Locked

/-- No call has come between its steps or has left. -/
theorem idle (locked : s.Locked hash) (kept : ∀ c ∈ s.calls, c.phase.between = true → c ∈ calls)
    (old : ∀ (i : Nat) (c : StoreCall), calls[i]? = some c → c.phase.between = true →
      s.calls[i]? = some c) : ({ s with calls := calls } : StoreSystem).Locked hash := by
  refine ⟨fun id none => ?_, fun i c file found left => ?_, fun i j c c' here there same b b' => ?_⟩
  · refine locked.consistent id fun c member same => ?_
    by_contra between
    rw [Bool.not_eq_false] at between
    rw [none c (kept c member between) same] at between
    cases between
  · exact locked.file i c file (old i c found (by rw [CallPhase.between, left]; rfl)) left
  · exact locked.alone i j c c' (old i c here b) (old j c' there b') same b b'

variable {phase new : CallPhase} {store' : ChunkStore} {done : StoreAct}

/-- A step on the file of an id that no other call is busy with. -/
theorem fileAct (locked : s.Locked hash) (here : s.calls[i]? = some ⟨id₀, phase⟩)
    {file : Option Bytes} (left : new.left = some file)
    (busy : ∀ other ∈ s.calls, other.id = id₀ → other.phase.between = false)
    (files : ∀ id : Uuid, store'.files[id]? = if id₀ = id then file else s.store.files[id]?)
    (rows : store'.index = s.store.index) : (s.act i id₀ new store' done).Locked hash := by
  obtain ⟨inRange, -⟩ := List.getElem?_eq_some_iff.mp here
  have between : new.between = true := by rw [CallPhase.between, left]; rfl
  -- a call between its steps is the one that has moved, or an old one on another id
  have which : ∀ (j : Nat) (c : StoreCall), (s.calls.set i ⟨id₀, new⟩)[j]? = some c →
      c.phase.between = true → (j = i ∧ c = ⟨id₀, new⟩) ∨
        (s.calls[j]? = some c ∧ id₀ ≠ c.id) := by
    intro j c found between
    rcases getElem?_set_inv found with ⟨rfl, isNew⟩ | ⟨-, found⟩
    · exact .inl ⟨rfl, isNew⟩
    · refine .inr ⟨found, fun same => ?_⟩
      rw [busy c (mem_of_getElem? found) same.symm] at between
      cases between
  refine ⟨fun id none => ?_, fun j c f found isLeft => ?_, fun j k c c' at_ at' same b b' => ?_⟩
  · have differ : id₀ ≠ id := by
      intro same
      have wrong := none ⟨id₀, new⟩ (mem_set inRange _) same
      rw [between] at wrong
      cases wrong
    have before : s.store.Consistent hash id := locked.consistent id fun c member same =>
      none c (mem_set_of_ne here member (by rintro rfl; exact differ same)) same
    simp only [ChunkStore.Consistent, StoreSystem.act, files, rows, if_neg differ] at before ⊢
    exact before
  · rcases which j c found (by rw [CallPhase.between, isLeft]; rfl) with ⟨-, rfl⟩ | ⟨there, differ⟩
    · simp only [StoreSystem.act, files, if_true]
      exact Option.some.inj (left.symm.trans isLeft)
    · simp only [StoreSystem.act, files, if_neg differ]
      exact locked.file j c f there isLeft
  · rcases which j c at_ b with ⟨rfl, rfl⟩ | ⟨there, differ⟩ <;>
      rcases which k c' at' b' with ⟨rfl, rfl⟩ | ⟨there', differ'⟩
    · rfl
    · exact absurd same differ'
    · exact absurd same.symm differ
    · exact locked.alone j k c c' there there' same b b'

/-- The step on the row of a call that was between its steps. -/
theorem rowAct (locked : s.Locked hash) (here : s.calls[i]? = some ⟨id₀, phase⟩)
    {file : Option Bytes} {row : Option IndexRow} (left : phase.left = some file)
    (ended : new.between = false)
    (agree : file.map (fun data => some (hash data)) = row.map IndexRow.sha256)
    (files : store'.files = s.store.files)
    (rows : ∀ id : Uuid, store'.index[id]? = if id₀ = id then row else s.store.index[id]?) :
    (s.act i id₀ new store' done).Locked hash := by
  have old : ∀ (j : Nat) (c : StoreCall), (s.calls.set i ⟨id₀, new⟩)[j]? = some c →
      c.phase.between = true → s.calls[j]? = some c := by
    intro j c found isBetween
    rcases getElem?_set_inv found with ⟨-, rfl⟩ | ⟨-, found⟩
    · rw [ended] at isBetween
      cases isBetween
    · exact found
  refine ⟨fun id none => ?_, fun j c f found isLeft => ?_, fun j k c c' at_ at' same b b' => ?_⟩
  · by_cases own : id₀ = id
    · subst own
      have isFile := locked.file i _ file here left
      simp only [ChunkStore.Consistent, StoreSystem.act, files, rows, if_true]
      rw [isFile]
      exact agree
    · have before : s.store.Consistent hash id := locked.consistent id fun c member same =>
        none c (mem_set_of_ne here member (by rintro rfl; exact own same)) same
      simp only [ChunkStore.Consistent, StoreSystem.act, files, rows, if_neg own] at before ⊢
      exact before
  · simp only [StoreSystem.act, files]
    exact locked.file j c f (old j c found (by rw [CallPhase.between, isLeft]; rfl)) isLeft
  · exact locked.alone j k c c' (old j c at_ b) (old k c' at' b') same b b'

theorem step (locked : s.Locked hash) (stepped : s.step hash e = some s')
    (exclusive : Exclusive s e s') (dated : Dated s e s') : s'.Locked hash := by
  cases StoreSystem.step_inv stepped with
  | arrive c idle fresh =>
    refine locked.idle (fun c member _ => mem_append_left _ member) fun i c' found b => ?_
    rcases getElem?_append_inv found with found | ⟨-, rfl⟩
    · exact found
    · rw [idle] at b
      cases b
  | @prepare _ i c phase here idle fresh idle' fresh' =>
    refine locked.idle (fun c' member b => mem_set_of_ne here member ?_) fun j c' found b => ?_
    · rintro rfl
      rw [idle] at b
      cases b
    · rcases getElem?_set_inv found with ⟨-, rfl⟩ | ⟨-, found⟩
      · rw [idle'] at b
        cases b
      · exact found
  | rename here =>
    exact locked.fileAct here rfl (exclusive _ here) (fun id => lookup_insert _ _ _ _) rfl
  | indexPut here =>
    refine locked.rowAct here rfl rfl ?_ rfl fun id => lookup_insert _ _ _ _
    rw [metaOf_row_iff.mpr (dated _ here _ rfl)]
    rfl
  | unlink here =>
    exact locked.fileAct here rfl (exclusive _ here) (fun id => lookup_erase _ _ _) rfl
  | indexDelete here =>
    exact locked.rowAct here rfl rfl rfl rfl fun id => lookup_erase _ _ _

end StoreSystem.Locked

/-- The row that an index write leaves, and the content of the file it was written for. -/
theorem StoreSystem.Locked.serves (locked : s.Locked hash) {now : Instant}
    (stepped : s.step hash (.indexPut i now) = some s') (dated : Dated s (.indexPut i now) s')
    {fragMeta : FragMeta} (stored : s'.calls[i]? = some ⟨id, .stored fragMeta⟩) :
    s'.store.Serves hash id fragMeta.sha256 := by
  simp only [StoreSystem.step] at stepped
  split at stepped <;> cases stepped
  rename_i id' data expires here
  rw [StoreSystem.act, getElem?_set_here here] at stored
  cases stored
  have file : s.store.files[id]? = some data := locked.file i _ (some data) here rfl
  refine ⟨data, ChunkStore.metaOf hash data expires now, ?_, rfl⟩
  simp [ChunkStore.get, StoreSystem.act, ChunkStore.indexPut, file,
    metaOf_row_iff.mpr (dated _ here _ rfl)]

/-- The causal form: under a lock on the id, and with records that can be read back, nothing
comes apart and a fragment can be fetched right after its index write. -/
theorem exclusive_keeps (start : ∀ id, store.Consistent hash id)
    (guarded : EveryStep (StoreSystem.step hash) (fun s e t => Exclusive s e t ∧ Dated s e t)
      (.init store) events) :
    RunKeeps hash store events (fun s id => s.store.Consistent hash id)
      (fun s id sha => s.store.Serves hash id sha) := by
  have locked : ∀ {early late s}, events = early ++ late →
      exec (StoreSystem.step hash) (.init store) early = some s → s.Locked hash := by
    rintro early late s rfl run
    refine EveryState.last (P := fun s => s.Locked hash) (EveryState.of_step ?_ ?_ guarded.left) run
    · exact fun _ _ _ inside stepped both => inside.step stepped both.1 both.2
    · refine ⟨fun id _ => start id, fun i c file found => ?_, fun i j c c' found => ?_⟩
      · cases found
      · cases found
  refine ⟨fun s run id quiet => ?_, ?_⟩
  · refine (locked (append_nil events).symm run).consistent id fun c member same => ?_
    have returned := quiet c member same
    cases phase : c.phase <;>
      simp_all [CallPhase.between, CallPhase.left, CallPhase.returned]
  · intro n i now written s id fragMeta first stored
    obtain ⟨inRange, isWrite⟩ := List.getElem?_eq_some_iff.mp written
    refine ⟨n + 1, s, n.lt_succ_self, Nat.succ_le_of_lt inRange, first, ?_⟩
    have upTo := guarded
    rw [← take_append_drop (n + 1) events] at upTo
    have upTo := upTo.left
    rw [take_succ_eq_append_getElem inRange, isWrite] at upTo
    rw [take_succ_eq_append_getElem inRange, isWrite, exec_append] at first
    cases before : exec (StoreSystem.step hash) (.init store) (events.take n) with
    | none => simp [before] at first
    | some u =>
      simp only [before, exec] at first
      split at first <;> cases first
      rename_i t stepped
      exact (locked (take_append_drop n events).symm before).serves stepped
        (upTo.last before stepped).2 stored

namespace Sample

/-- A `Put` of one byte on fragment 1 and a `Delete` of it, both ready for their first
step. -/
def putAndDelete : List StoreEvent :=
  [.put 1 ⟨[7], false⟩ (padHash [7]) 1 900, .stage 0 0, .delete 1]

/-- The four steps with the deletion inside the `Put`. -/
def deletedInside : List StoreEvent :=
  putAndDelete ++ [.rename 0, .unlink 1, .indexDelete 1, .indexPut 0 5]

/-- The four steps with the deletion before the `Put`. -/
def deletedBefore : List StoreEvent :=
  putAndDelete ++ [.unlink 1, .indexDelete 1, .rename 0, .indexPut 0 5]

end Sample

theorem empty_consistent (hash : Bytes → Bytes) (id : Uuid) :
    ChunkStore.empty.Consistent hash id := by
  simp [ChunkStore.Consistent, ChunkStore.empty]

/-- A deletion that is over before the `Put` begins leaves its last steps in agreement. -/
theorem deletedBefore_agrees :
    RunKeeps padHash .empty deletedBefore (LastAgree padHash)
      (LastServes padHash) :=
  (storeRace_iff (empty_consistent _) _).mp
    (exclusive_keeps (empty_consistent _) (by decide +kernel))

/-- A deletion between the rename and the index write of a `Put` leaves a row without a
file, for which the `Put` has returned nil. -/
theorem deletedInside_loses_file :
    ∃ s, exec (StoreSystem.step padHash) (.init .empty) deletedInside = some s ∧
      s.calls = [⟨1, .stored (ChunkStore.metaOf padHash [7] 900 5)⟩, ⟨1, .deleted⟩] ∧
      s.store.index[(1 : Uuid)]? = some (.record (ChunkStore.metaOf padHash [7] 900 5)) ∧
      s.store.get 1 = .error (.io "agent.get") ∧ ¬ s.store.Consistent padHash 1 := by
  decide +kernel

end StoragePlatform
