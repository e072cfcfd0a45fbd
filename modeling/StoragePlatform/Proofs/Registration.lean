/-
Module: StoragePlatform.Proofs.Registration
Purpose: What interleaved RegisterNode and ConsumeRegistrationCode transactions leave of
  codes and nodes.
Trusted boundary: none
Main exports: RegistryDB.Schema, CodesHonoured, registration_honoured
-/
import StoragePlatform.Store.Registration

namespace StoragePlatform

open Lib List
open RegistryDB (clashes)

/-- The keys of the two tables and the foreign key between them. -/
structure RegistryDB.Schema (db : RegistryDB) : Prop where
  code_pk : UniqueOn RegistrationCode.id db.codes
  code_hash : UniqueOn RegistrationCode.codeHash db.codes
  node_pk : UniqueOn NodeRow.id db.nodes
  node_fingerprint : UniqueOn NodeRow.certFingerprint db.nodes
  code_node : ∀ c ∈ db.codes, ∀ id, c.nodeId = some id → ∃ n ∈ db.nodes, n.id = id

def RegistryDB.Used (db : RegistryDB) (codeId : Uuid) : Prop :=
  ∃ c ∈ db.codes, c.id = codeId ∧ c.usedAt ≠ none

/-- What the provider declared for the code and the registry has of the node. -/
structure Attributes where
  ownerId : Uuid
  country : Text
  region : Text
  asn : Option Int
  endpoint : Text
deriving DecidableEq, Repr

def RegistrationCode.attributes (c : RegistrationCode) : Attributes :=
  ⟨c.ownerId, c.country, c.region, c.asn, c.endpoint⟩

def NodeRow.attributes (n : NodeRow) : Attributes :=
  ⟨n.ownerId, n.country, n.region, n.asn, n.endpoint⟩

/-- The code of a node: RegisterNode has bound it to the node, with the node's attributes,
and every other code of the node was bound to it by a ConsumeRegistrationCode. -/
def RegistryDB.Admits (db : RegistryDB) (codeId : Uuid) (n : NodeRow) : Prop :=
  ∃ c ∈ db.codes, c.id = codeId ∧ c.usedAt ≠ none ∧ c.nodeId = some n.id ∧
    n.attributes = c.attributes ∧
    ∀ other ∈ db.codes, other.nodeId = some n.id → other ≠ c → ⟨other.id, n.id, none⟩ ∈ db.history

/-- The registry after some transactions, against the one they began with. -/
structure CodesHonoured (start now : RegistryDB) : Prop where
  /-- No two transactions have bound one code, and none a code that was used. -/
  once : (now.history.map Binding.codeId).Nodup
  unused : ∀ b ∈ now.history, ¬ start.Used b.codeId
  /-- The codes used are those used before and those of the transactions. -/
  used : ∀ c ∈ now.codes, c.usedAt ≠ none ↔ start.Used c.id ∨ c.id ∈ now.history.map Binding.codeId
  /-- The nodes are those there before and those the transactions inserted. -/
  nodes : now.nodes = start.nodes ++ now.history.filterMap Binding.inserted
  /-- A node inserted is admitted by the code of its transaction. -/
  admitted : ∀ b ∈ now.history, ∀ n ∈ b.inserted, b.nodeId = n.id ∧ now.Admits b.codeId n

/-! ### What open transactions hold -/

namespace RegistrationTx

variable {db db' : RegistryDB} {others : List RegistrationTx} {t u t' : RegistrationTx}

/-- What an open transaction has read is still so: it has the row locked. -/
structure Sound (db : RegistryDB) (t : RegistrationTx) : Prop where
  holds : ∀ c ∈ t.code?, c ∈ db.codes
  free : ∀ n ∈ t.node?, ∀ m ∈ db.nodes, clashes n m = false
  ready : match t with
    | checked c _ _ => c.usedAt = none
    | inserted c node _ => c.usedAt = none ∧ node.attributes = c.attributes
    | bound c nodeId (some node) _ =>
      c.usedAt = none ∧ node.attributes = c.attributes ∧ nodeId = node.id
    | bound c nodeId none _ => c.usedAt = none ∧ ∃ n ∈ db.nodes, n.id = nodeId
    | _ => True

/-- Two open transactions hold different codes and have inserted different nodes. -/
structure Apart (t u : RegistrationTx) : Prop where
  codes : ∀ c ∈ t.code?, ∀ d ∈ u.code?, c.id ≠ d.id
  nodes : ∀ n ∈ t.node?, ∀ m ∈ u.node?, clashes n m = false

theorem clashes_symm (a b : NodeRow) : clashes a b = clashes b a := by
  simp only [clashes, eq_comm]

theorem Apart.symm (apart : Apart t u) : Apart u t where
  codes c held d held' same := apart.codes d held' c held same.symm
  nodes n own m own' := (clashes_symm n m).trans (apart.nodes m own' n own)

/-- A request has read nothing that its transaction relies on. -/
theorem start_begun {service : RegistrationService} {request : RegistrationRequest}
    (started : start service db request = some t) :
    ∃ codeHash purpose began, t = begun codeHash purpose began := by
  cases request with
  | register codeHash params began =>
    cases started
    exact ⟨_, _, _, rfl⟩
  | consume codeHash nodeId began =>
    cases started
    exact ⟨_, _, _, rfl⟩
  | service call now began =>
    simp only [start] at started
    split at started <;> cases started
    exact ⟨_, _, _, rfl⟩

/-- What the next statement of a transaction is. -/
inductive Ran (db : RegistryDB) (others : List RegistrationTx) :
    RegistrationTx → RegistrationTx → Prop
  | lock {codeHash : Text} {purpose : CodeUse} {began : Time} {c : RegistrationCode}
      (stored : c ∈ db.codes) (alone : ∀ u ∈ others, ∀ d ∈ u.code?, d.id ≠ c.id) :
      Ran db others (begun codeHash purpose began) (locked c purpose began)
  | check {c : RegistrationCode} {purpose : CodeUse} {began : Time} (unused : c.usedAt = none) :
      Ran db others (locked c purpose began) (checked c purpose began)
  | insert {c : RegistrationCode} {p : CreateNodeParams} {id : Uuid} {began : Time}
      (free : ∀ m ∈ db.nodes, clashes (registeredNode c p id began) m = false)
      (alone : ∀ u ∈ others, ∀ m ∈ u.node?,
        clashes (registeredNode c p id began) m = false) :
      Ran db others (checked c (.register p) began)
        (inserted c (registeredNode c p id began) began)
  | bindNew {c : RegistrationCode} {node : NodeRow} {began : Time} :
      Ran db others (inserted c node began) (bound c node.id (some node) began)
  | bindOld {c : RegistrationCode} {nodeId : Uuid} {began : Time}
      (known : ∃ n ∈ db.nodes, n.id = nodeId) :
      Ran db others (checked c (.consume nodeId) began) (bound c nodeId none began)

theorem next_inv {input : RegistrationInput} (ran : next db others t input = some t') :
    Ran db others t t' := by
  unfold next at ran
  split at ran
  · split at ran
    · cases ran
    · rename_i codeHash purpose began _ c found
      split at ran <;> cases ran
      rename_i lone
      refine .lock ?_ ?_
      · rw [RegistryDB.registrationCodeByHash] at found
        split at found <;> cases found
        exact mem_of_find?_eq_some ‹_›
      · intro u member d held same
        refine lone (any_eq_true.mpr ⟨u, member, ?_⟩)
        rw [Option.mem_def.mp held]
        simpa using same
  · split at ran <;> cases ran
    rename_i passed
    rw [RegistryDB.checkCode] at passed
    split at passed
    · cases passed
    · exact .check (not_not.mp ‹_›)
  · dsimp only at ran
    split at ran
    · cases ran
    split at ran <;> cases ran
    rename_i free lone
    refine .insert (fun m stored => ?_) fun u member m own => ?_
    · simpa using fun clash => free (any_eq_true.mpr ⟨m, stored, clash⟩)
    · simp only [Bool.not_eq_true, any_eq_false] at lone
      have apart := lone u member
      rw [Option.mem_def.mp own] at apart
      simpa using apart
  · cases ran
    exact .bindNew
  · split at ran <;> cases ran
    rename_i known
    refine .bindOld ?_
    simpa using known
  · cases ran

theorem Ran.sound (ran : Ran db others t t') (sound : Sound db t) : Sound db t' := by
  cases ran with
  | lock stored alone =>
    refine ⟨fun d held => ?_, nofun, trivial⟩
    cases held
    exact stored
  | check unused => exact ⟨sound.holds, nofun, unused⟩
  | insert free alone =>
    refine ⟨sound.holds, fun n own => ?_, sound.ready, rfl⟩
    cases own
    exact free
  | bindNew => exact ⟨sound.holds, sound.free, sound.ready.1, sound.ready.2, rfl⟩
  | bindOld known => exact ⟨sound.holds, nofun, sound.ready, known⟩

theorem Ran.apart (ran : Ran db others t t') (member : u ∈ others) (before : Apart t u) :
    Apart t' u := by
  cases ran with
  | lock stored alone =>
    refine ⟨fun d held e held' => ?_, nofun⟩
    cases held
    exact (alone u member e held').symm
  | check unused => exact ⟨before.codes, nofun⟩
  | insert free alone =>
    refine ⟨before.codes, fun n own m own' => ?_⟩
    cases own
    exact alone u member m own'
  | bindNew => exact ⟨before.codes, before.nodes⟩
  | bindOld known => exact ⟨before.codes, nofun⟩

end RegistrationTx

/-! ### A commit -/

section Bind

variable {κ : Type*} {start db : RegistryDB} {c : RegistrationCode} {nodeId : Uuid}
  {node : Option NodeRow} {began : Time}

/-- The row of the code after the transaction. -/
def RegistrationCode.boundTo (c : RegistrationCode) (nodeId : Uuid) (began : Time) :
    RegistrationCode :=
  { c with usedAt := some began, nodeId := some nodeId }

/-- What a transaction that binds the code relies on. -/
structure Binds (db : RegistryDB) (c : RegistrationCode) (nodeId : Uuid) (node : Option NodeRow) :
    Prop where
  stored : c ∈ db.codes
  unused : c.usedAt = none
  known : ∃ n ∈ db.nodes ++ node.toList, n.id = nodeId
  free : ∀ n ∈ node, ∀ m ∈ db.nodes, clashes n m = false
  own : ∀ n ∈ node, nodeId = n.id ∧ n.attributes = c.attributes

theorem RegistryDB.mem_bind_codes (schema : db.Schema) (stored : c ∈ db.codes)
    {d : RegistrationCode} :
    d ∈ (db.bind c.id nodeId node began).codes ↔
      d = c.boundTo nodeId began ∨ d ∈ db.codes ∧ d.id ≠ c.id := by
  rw [bind, mem_updateWhere]
  constructor
  · rintro (⟨e, member, same, rfl⟩ | ⟨member, other⟩)
    · rw [schema.code_pk.eq_of_key member stored (of_decide_eq_true same)]
      exact .inl rfl
    · exact .inr ⟨member, of_decide_eq_false other⟩
  · rintro (rfl | ⟨member, other⟩)
    · exact .inl ⟨c, stored, decide_eq_true rfl, rfl⟩
    · exact .inr ⟨member, decide_eq_false other⟩

/-- The keys of `nodes` stay unique. -/
theorem Binds.unique {key : NodeRow → κ} (binds : Binds db c nodeId node)
    (unique : UniqueOn key db.nodes)
    (clash : ∀ a b, key a = key b → clashes a b = true) :
    UniqueOn key (db.nodes ++ node.toList) := by
  cases node with
  | none => simpa using unique
  | some n =>
    refine unique.append_singleton fun m stored same => ?_
    have apart := binds.free n rfl m stored
    rw [clash n m same.symm] at apart
    cases apart

theorem Binds.schema (binds : Binds db c nodeId node) (schema : db.Schema) :
    (db.bind c.id nodeId node began).Schema where
  code_pk := by
    refine UniqueOn.updateWhere (fun d => ?_) schema.code_pk
    rfl
  code_hash := by
    refine UniqueOn.updateWhere (fun d => ?_) schema.code_hash
    rfl
  node_pk := binds.unique schema.node_pk fun a b same => by simp [clashes, same]
  node_fingerprint :=
    binds.unique schema.node_fingerprint fun a b same => by simp [clashes, same]
  code_node := by
    intro d member id names
    rcases (RegistryDB.mem_bind_codes schema binds.stored).mp member with rfl | ⟨old, _⟩
    · cases names
      exact binds.known
    · obtain ⟨n, stored, same⟩ := schema.code_node d old id names
      exact ⟨n, mem_append_left _ stored, same⟩

/-- A node admitted before is admitted still. -/
theorem Binds.admits (binds : Binds db c nodeId node) (schema : db.Schema) {codeId : Uuid}
    {n : NodeRow} (there : n ∈ db.nodes) (admits : db.Admits codeId n) :
    (db.bind c.id nodeId node began).Admits codeId n := by
  obtain ⟨d, stored, same, used, names, attributes, others⟩ := admits
  have apart : d.id ≠ c.id := by
    intro clash
    rw [schema.code_pk.eq_of_key stored binds.stored clash] at used
    exact used binds.unused
  refine ⟨d, (RegistryDB.mem_bind_codes schema binds.stored).mpr (.inr ⟨stored, apart⟩), same,
    used, names, attributes, fun other member names' differs => ?_⟩
  rcases (RegistryDB.mem_bind_codes schema binds.stored).mp member with rfl | ⟨old, _⟩
  · -- the code bound now: a node inserted now would clash with the one that is there
    have toIt : nodeId = n.id := Option.some.inj names'
    cases node with
    | none =>
      rw [toIt]
      exact mem_append_right _ (mem_singleton.mpr rfl)
    | some m =>
      have clash := binds.free m rfl n there
      have twin : m.id = n.id := (binds.own m rfl).1.symm.trans toIt
      simp [clashes, twin] at clash
  · exact mem_append_left _ (others other old names' differs)

/-- The node inserted now is admitted by the code bound now. -/
theorem Binds.admits_new (schema : db.Schema) {n : NodeRow} (binds : Binds db c nodeId (some n)) :
    (db.bind c.id nodeId (some n) began).Admits c.id n := by
  obtain ⟨toIt, attributes⟩ := binds.own n rfl
  refine ⟨c.boundTo nodeId began, (RegistryDB.mem_bind_codes schema binds.stored).mpr (.inl rfl),
    rfl, nofun, congrArg some toIt, attributes, fun other member names differs => ?_⟩
  rcases (RegistryDB.mem_bind_codes schema binds.stored).mp member with rfl | ⟨old, _⟩
  · exact absurd rfl differs
  · obtain ⟨m, there, same⟩ := schema.code_node other old n.id names
    have clash := binds.free n rfl m there
    simp [clashes, same] at clash

theorem Binds.honoured (binds : Binds db c nodeId node) (schema : db.Schema)
    (honoured : CodesHonoured start db) :
    CodesHonoured start (db.bind c.id nodeId node began) := by
  have neither : ¬ (start.Used c.id ∨ c.id ∈ db.history.map Binding.codeId) :=
    fun used => (honoured.used c binds.stored).mpr used binds.unused
  rw [not_or] at neither
  have ids : (db.bind c.id nodeId node began).history.map Binding.codeId =
      db.history.map Binding.codeId ++ [c.id] := by
    simp [RegistryDB.bind]
  constructor
  case once =>
    rw [ids, nodup_append]
    refine ⟨honoured.once, nodup_singleton _, fun id before last same => ?_⟩
    rw [mem_singleton.mp same]
    rintro rfl
    exact neither.2 before
  case unused =>
    intro b member
    rcases mem_append_row.mp member with before | rfl
    · exact honoured.unused b before
    · exact neither.1
  case used =>
    intro d member
    rw [ids, mem_append, mem_singleton]
    rcases (RegistryDB.mem_bind_codes schema binds.stored).mp member with rfl | ⟨old, apart⟩
    · exact iff_of_true nofun (.inr (.inr rfl))
    · rw [honoured.used d old, or_iff_left apart]
  case nodes =>
    cases node <;> simp [RegistryDB.bind, honoured.nodes]
  case admitted =>
    intro b member n inserts
    rcases mem_append.mp member with before | now
    · obtain ⟨names, admits⟩ := honoured.admitted b before n inserts
      have there : n ∈ db.nodes := by
        rw [honoured.nodes]
        exact mem_append_right _ (mem_filterMap.mpr ⟨b, before, inserts⟩)
      exact ⟨names, binds.admits schema there admits⟩
    · cases mem_singleton.mp now
      cases Option.mem_def.mp inserts
      exact ⟨(binds.own n rfl).1, binds.admits_new schema⟩

end Bind

namespace RegistrationTx

variable {start db db' : RegistryDB} {t u : RegistrationTx}

/-- A transaction that commits binds its code. -/
theorem Sound.binds (sound : Sound db t) (committed : commit db t = some db') :
    ∃ c nodeId node began, t = bound c nodeId node began ∧ Binds db c nodeId node ∧
      db' = db.bind c.id nodeId node began := by
  unfold commit at committed
  split at committed <;> cases committed
  rename_i c nodeId node began
  refine ⟨c, nodeId, node, began, rfl, ?_, rfl⟩
  cases node with
  | none =>
    obtain ⟨unused, n, stored, same⟩ := sound.ready
    exact ⟨sound.holds c rfl, unused, ⟨n, mem_append_left _ stored, same⟩, nofun, nofun⟩
  | some n =>
    obtain ⟨unused, attributes, toIt⟩ := sound.ready
    refine ⟨sound.holds c rfl, unused, ⟨n, by simp, toIt.symm⟩, sound.free, fun m own => ?_⟩
    cases own
    exact ⟨toIt, attributes⟩

/-- Another open transaction does not notice. -/
theorem Sound.bind {c : RegistrationCode} {nodeId : Uuid} {node : Option NodeRow} {began : Time}
    (schema : db.Schema) (stored : c ∈ db.codes) (sound : Sound db u)
    (apart : Apart (bound c nodeId node began) u) :
    Sound (db.bind c.id nodeId node began) u := by
  refine ⟨fun d held => ?_, fun n own m stored' => ?_, ?_⟩
  · refine (RegistryDB.mem_bind_codes schema stored).mpr (.inr ⟨sound.holds d held, ?_⟩)
    exact (apart.codes c rfl d held).symm
  · rcases mem_append.mp stored' with old | new
    · exact sound.free n own m old
    · rw [clashes_symm]
      exact apart.nodes m (Option.mem_toList.mp new) n own
  · have ready := sound.ready
    cases u with
    | bound d otherId other began' =>
      cases other with
      | none =>
        obtain ⟨unused, n, there, same⟩ := ready
        exact ⟨unused, n, mem_append_left _ there, same⟩
      | some m => exact ready
    | _ => exact ready

end RegistrationTx

/-- The invariant of the registry and of everything open on it. -/
def registrationInvariant (service : RegistrationService) (start : RegistryDB) :
    TxInvariant (registrationRules service) fun _ _ => True where
  whole db := db.Schema ∧ CodesHonoured start db
  each := RegistrationTx.Sound
  apart := RegistrationTx.Apart
  symm _ _ := RegistrationTx.Apart.symm
  started _ _ _ _ started := by
    obtain ⟨_, _, _, rfl⟩ := RegistrationTx.start_begun started
    exact ⟨⟨nofun, nofun, trivial⟩, fun u => ⟨nofun, nofun⟩⟩
  ran _ _ _ _ _ _ each others _ ran :=
    have ran := RegistrationTx.next_inv ran
    ⟨ran.sound each, fun u member => ran.apart member (others u member).2⟩
  committed _ _ _ whole each committed := by
    obtain ⟨c, nodeId, node, began, rfl, binds, rfl⟩ := each.binds committed
    exact ⟨⟨binds.schema whole.1, binds.honoured whole.1 whole.2⟩,
      fun u sound apart => sound.bind whole.1 binds.stored apart⟩

/-- For every registry and every interleaving of registrations and consumptions with any
parameters, rolled back at any point: codes and nodes are as `CodesHonoured` says in every
state, and a step that is not a commit changes neither. -/
theorem registration_honoured (service : RegistrationService) (db : RegistryDB)
    (schema : db.Schema) (begins : db.history = [])
    (events : List (TxEvent RegistrationRequest RegistrationInput)) :
    EveryState (registrationRules service).step (fun s => CodesHonoured db s.db) ⟨db, []⟩ events ∧
    EveryStep (registrationRules service).step
      (fun s e s' => (∀ i, e ≠ .commit i) → s'.db = s.db) ⟨db, []⟩ events := by
  have start : CodesHonoured db db := by
    constructor
    case used =>
      intro c stored
      rw [begins]
      constructor
      · intro used
        exact .inl ⟨c, stored, rfl, used⟩
      · rintro (⟨d, stored', same, used⟩ | none)
        · rwa [← schema.code_pk.eq_of_key stored' stored same]
        · cases none
    all_goals simp [begins]
  have free : EveryStep (registrationRules service).step (TxGuarded fun _ _ => True) ⟨db, []⟩
      events := by
    refine EveryStep.of_closed (I := fun _ => True) (fun _ _ _ _ _ => trivial) ?_ trivial
    intro s e t _ _
    cases e with
    | next i input => exact fun _ _ => trivial
    | _ => trivial
  constructor
  · have carried := (registrationInvariant service db).everyState ⟨schema, start⟩ free
    exact carried.mono fun s holds => holds.whole.2
  · refine EveryStep.of_closed (I := fun _ => True) (fun _ _ _ _ _ => trivial) ?_ trivial
    intro s e t _ moved notCommit
    cases TxRules.step_inv moved with
    | commit current committed => exact absurd rfl (notCommit _)
    | _ => rfl

namespace Sample

/-- The service hashes a code to itself and issues certificates that carry its id. -/
def registration : RegistrationService where
  hashSecret := id
  issueNode csr nodeId _ := some ⟨csr, csr, [(nodeId.toNat % 256).toUInt8], 1000⟩

def mintedCode (i : Nat) (region : String) : RegistrationCode where
  id := BitVec.ofNat 128 (300 + i)
  ownerId := 1
  codeHash := [Char.ofNat (97 + i)]
  endpoint := "https://node".toList
  country := "GE".toList
  region := region.toList
  asn := some 64500
  expiresAt := 100
  usedAt := none
  nodeId := none

/-- Two codes that nobody has used. -/
def mintedCodes : RegistryDB := ⟨[mintedCode 0 "west", mintedCode 1 "east"], [], []⟩

/-- What an agent sends; the endpoint is its own assertion. -/
def agentCall (i : Nat) (code : String) : RegisterCall where
  code := code.toList
  csr := [1]
  endpoint := "https://elsewhere".toList
  os := []
  version := []
  label := []
  capacity := 0
  nodeId := BitVec.ofNat 128 i

/-- Two agents with one code: the second waits for the row, finds it used and is rolled
back. -/
def oneCodeTwice : List (TxEvent RegistrationRequest RegistrationInput) :=
  [.start (.service (agentCall 10 "a") 5 5), .start (.service (agentCall 11 "a") 5 5),
    .next 0 .nothing, .next 0 (.clock 6), .next 0 (.drawn 0), .next 0 .nothing, .commit 0,
    .next 0 .nothing, .rollback 0]

/-- A registration with the first code, and the second one consumed for the same node. -/
def secondCode : List (TxEvent RegistrationRequest RegistrationInput) :=
  [.start (.service (agentCall 10 "a") 5 5), .next 0 .nothing, .next 0 (.clock 6),
    .next 0 (.drawn 0), .next 0 .nothing, .commit 0, .start (.consume ['b'] 10 7),
    .next 0 .nothing, .next 0 (.clock 8), .next 0 .nothing, .commit 0]

end Sample

open Sample

instance (db : RegistryDB) : Decidable db.Schema :=
  decidable_of_iff
    (UniqueOn RegistrationCode.id db.codes ∧ UniqueOn RegistrationCode.codeHash db.codes ∧
      UniqueOn NodeRow.id db.nodes ∧ UniqueOn NodeRow.certFingerprint db.nodes ∧
      ∀ c ∈ db.codes, ∀ id ∈ c.nodeId.toList, ∃ n ∈ db.nodes, n.id = id)
    ⟨fun ⟨a, b, c, d, e⟩ => ⟨a, b, c, d, fun row member id names =>
        e row member id (by simp [names])⟩,
      fun s => ⟨s.code_pk, s.code_hash, s.node_pk, s.node_fingerprint, fun row member id names =>
        s.code_node row member id (by simpa using names)⟩⟩

/-- Two agents with one code make one node, with the attributes of the code. -/
theorem oneCodeTwice_honoured :
    EveryState (registrationRules registration).step
      (fun s => CodesHonoured mintedCodes s.db) ⟨mintedCodes, []⟩
      oneCodeTwice ∧
    ((exec (registrationRules registration).step ⟨mintedCodes, []⟩
      oneCodeTwice).map fun s => s.db.nodes.map NodeRow.attributes) =
        some [(mintedCode 0 "west").attributes] :=
  ⟨(registration_honoured registration mintedCodes (by decide +kernel) rfl
    oneCodeTwice).1, by decide +kernel⟩

/-- A node of RegisterNode may be bound to two codes: the second was consumed for it, and
has another region. -/
theorem secondCode_binds_again :
    ((exec (registrationRules registration).step ⟨mintedCodes, []⟩
      secondCode).map fun s => s.db.history.filterMap fun b => b.inserted.map fun n =>
        (n.id, s.db.codes.countP fun c => c.nodeId = some n.id)) = some [(10, 2)] ∧
    ((exec (registrationRules registration).step ⟨mintedCodes, []⟩
      secondCode).map fun s => (s.db.codes.map fun c => (c.nodeId, c.region),
        s.db.nodes.map NodeRow.region)) =
      some ([(some 10, "west".toList), (some 10, "east".toList)], ["west".toList]) := by
  constructor <;> decide +kernel

end StoragePlatform
