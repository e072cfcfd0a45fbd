/-
Module: StoragePlatform.Proofs.ChunkPut
Purpose: What one Put of the fragment store accepts, and what a failed one leaves behind.
Trusted boundary: none
Main exports: ChunkStore.stage_inv, ChunkStore.put_ok, exactPut_iff
-/
import StoragePlatform.Agent.Store

namespace StoragePlatform

open Lib
open Std (ExtTreeMap)

/-! ### Lookups -/

section Lookups

variable {V : Type} (m : ExtTreeMap Uuid V compare) (k a : Uuid) (v : V)

theorem lookup_insert : (m.insert k v)[a]? = if k = a then some v else m[a]? := by
  simp [ExtTreeMap.getElem?_insert]

theorem lookup_erase : (m.erase k)[a]? = if k = a then none else m[a]? := by
  simp [ExtTreeMap.getElem?_erase]

variable {temps : ExtTreeMap Nat Bytes compare} {tmp : Nat}

theorem erase_of_fresh (fresh : tmp ∉ temps) : temps.erase tmp = temps := by
  refine ExtTreeMap.ext_getElem? fun k => ?_
  rw [ExtTreeMap.getElem?_erase]
  split
  · rename_i same
    rw [← compare_eq_iff_eq.mp same]
    exact (ExtTreeMap.getElem?_eq_none fresh).symm
  · rfl

theorem erase_insert_of_fresh (fresh : tmp ∉ temps) (data : Bytes) :
    (temps.insert tmp data).erase tmp = temps := by
  refine ExtTreeMap.ext_getElem? fun k => ?_
  rw [ExtTreeMap.getElem?_erase, ExtTreeMap.getElem?_insert]
  split
  · rename_i same
    rw [← compare_eq_iff_eq.mp same]
    exact (ExtTreeMap.getElem?_eq_none fresh).symm
  · rfl

end Lookups

namespace ChunkStore

variable (s : ChunkStore) {tmp : Nat} {data : Bytes} {id : Uuid}

/-- A new temporary file that is removed leaves no trace. -/
theorem removeTemp_writeTemp (fresh : tmp ∉ s.temps) (data : Bytes) :
    (s.writeTemp tmp data).removeTemp tmp = s := by
  rw [writeTemp, removeTemp, erase_insert_of_fresh fresh]

/-- A temporary file that is renamed leaves its content at the new path. -/
theorem rename_writeTemp (fresh : tmp ∉ s.temps) (data : Bytes) (id : Uuid) :
    (s.writeTemp tmp data).rename tmp id = { s with files := s.files.insert id data } := by
  simp only [writeTemp, rename, ExtTreeMap.getElem?_insert_self, erase_insert_of_fresh fresh]

/-! ### Staging -/

variable {s} {hash : Bytes → Bytes} {r : Upload} {wantSHA : Bytes} {maxBytes : Nat}
  {expires : Instant} {env : PutEnv}

/-- What staged bytes have passed. -/
structure Staged (hash : Bytes → Bytes) (s : ChunkStore) (r : Upload) (wantSHA : Bytes)
    (maxBytes : Nat) (env : PutEnv) (data : Bytes) : Prop where
  fresh : env.tmp ∉ s.temps
  read : r.readLimited (putLimit maxBytes) = (data, false)
  bounded : data.length ≤ maxBytes
  hashed : hash data = wantSHA
  passed : env.fault = none ∨ env.fault = some .rename ∨ env.fault = some .index

/-- Staging leaves the store as it was, or adds the checked temporary file. -/
theorem stage_cases (hash : Bytes → Bytes) (s : ChunkStore) (r : Upload) (wantSHA : Bytes)
    (maxBytes : Nat) (env : PutEnv) :
    (∃ e, s.stage hash r wantSHA maxBytes env = (.error e, s)) ∨
      ∃ data, s.stage hash r wantSHA maxBytes env = (.ok data, s.writeTemp env.tmp data) ∧
        Staged hash s r wantSHA maxBytes env data := by
  rw [stage]
  split
  · exact .inl ⟨_, rfl⟩
  rename_i noMkdir
  split
  · exact .inl ⟨_, rfl⟩
  rename_i created
  rw [not_or] at created
  simp only [s.removeTemp_writeTemp created.2]
  split
  · exact .inl ⟨_, rfl⟩
  rename_i copied
  rw [not_or, Bool.not_eq_true] at copied
  split
  · exact .inl ⟨_, rfl⟩
  rename_i bounded
  split
  · exact .inl ⟨_, rfl⟩
  rename_i same
  rw [Bool.not_eq_false, equalSHA_iff] at same
  split
  · exact .inl ⟨_, rfl⟩
  rename_i synced
  rw [not_or] at synced
  refine .inr ⟨_, rfl, created.2, ?_, not_lt.mp bounded, same.symm, ?_⟩
  · rw [← copied.1]
  · cases fault : env.fault with
    | none => exact .inl rfl
    | some step => cases step <;> simp_all

theorem stage_of_staged (staged : Staged hash s r wantSHA maxBytes env data) :
    s.stage hash r wantSHA maxBytes env = (.ok data, s.writeTemp env.tmp data) := by
  have same : equalSHA wantSHA (hash data) = true := equalSHA_iff.mpr staged.hashed.symm
  simp only [stage, staged.read, same]
  rcases staged.passed with fault | fault | fault <;> simp [fault, staged.fresh, staged.bounded]

/-! ### Put -/

/-- A `Put` either changes nothing, or fails at the index and loses the file of the id,
or stores the staged bytes. -/
theorem put_cases (hash : Bytes → Bytes) (s : ChunkStore) (id : Uuid) (r : Upload)
    (wantSHA : Bytes) (maxBytes : Nat) (expires : Instant) (env : PutEnv) :
    (∃ e, s.put hash id r wantSHA maxBytes expires env = (.error e, s) ∧
        ¬ (env.fault = some .index ∧ ∃ data, Staged hash s r wantSHA maxBytes env data)) ∨
      (∃ e, s.put hash id r wantSHA maxBytes expires env = (.error e, s.unlink id) ∧
        env.fault = some .index ∧ ∃ data, Staged hash s r wantSHA maxBytes env data) ∨
      ∃ data, Staged hash s r wantSHA maxBytes env data ∧ env.fault = none ∧
        s.put hash id r wantSHA maxBytes expires env =
          (.ok (metaOf hash data expires env.now),
            { s with
              files := s.files.insert id data
              index := s.index.insert id (metaOf hash data expires env.now).row }) := by
  rcases stage_cases hash s r wantSHA maxBytes env with ⟨e, failed⟩ | ⟨data, done, staged⟩
  · refine .inl ⟨e, by rw [put, failed], ?_⟩
    rintro ⟨-, data, staged⟩
    rw [stage_of_staged staged] at failed
    cases failed
  · rw [put, done]
    simp only [s.rename_writeTemp staged.fresh, s.removeTemp_writeTemp staged.fresh]
    rcases staged.passed with fault | fault | fault
    · refine .inr (.inr ⟨data, staged, fault, ?_⟩)
      simp only [fault, reduceCtorEq, if_false, indexPut, removeTemp, erase_of_fresh staged.fresh]
    · refine .inl ⟨_, by rw [if_pos fault], ?_⟩
      rintro ⟨other, -⟩
      rw [fault] at other
      cases other
    · refine .inr (.inl ⟨.io "agent.put", ?_, fault, data, staged⟩)
      have files : (s.files.insert id data).erase id = s.files.erase id := by
        refine ExtTreeMap.ext_getElem? fun k => ?_
        rw [lookup_erase, lookup_insert, lookup_erase]
        split <;> rfl
      simp only [fault, Option.some.injEq, reduceCtorEq, if_false, if_true, unlink, removeTemp,
        erase_of_fresh staged.fresh, files]

/-! ### A failed Put -/

/-- The id is absent from files and index, or in both with the hash of its file. -/
def Consistent (hash : Bytes → Bytes) (s : ChunkStore) (id : Uuid) : Prop :=
  s.files[id]?.map (fun data => some (hash data)) = s.index[id]?.map IndexRow.sha256
deriving Decidable

/-- The bytes pass every check and the write of the index row fails. -/
def FailsAtIndex (hash : Bytes → Bytes) (s : ChunkStore) (r : Upload) (wantSHA : Bytes)
    (maxBytes : Nat) (env : PutEnv) : Prop :=
  env.fault = some .index ∧ ∃ data, Staged hash s r wantSHA maxBytes env data

theorem get_unlink (s : ChunkStore) (id : Uuid) : (s.unlink id).get id =
    match s.index[id]? with
    | none => .error .notStored
    | some .unreadable => .error .unmarshal
    | some (.record _) => .error (.io "agent.get") := by
  cases found : s.index[id]? with
  | none => simp [get, unlink, found]
  | some row => cases row <;> simp [get, unlink, found]

/-- A failed `Put` leaves what `Get` finds, and no temporary file, unless the index write
failed and there was an earlier copy. -/
theorem failed_put_iff (consistent : s.Consistent hash id) {e : ChunkErr}
    (failed : (s.put hash id r wantSHA maxBytes expires env).1 = .error e) :
    ((s.put hash id r wantSHA maxBytes expires env).2.get id = s.get id ∧
        (s.put hash id r wantSHA maxBytes expires env).2.temps = s.temps) ↔
      ¬ (s.FailsAtIndex hash r wantSHA maxBytes env ∧ id ∈ s.index) := by
  rcases put_cases hash s id r wantSHA maxBytes expires env with
    ⟨e', result, early⟩ | ⟨e', result, atIndex⟩ | ⟨data, -, -, result⟩
  · rw [result]
    exact iff_of_true ⟨rfl, rfl⟩ fun both => early both.1
  · rw [result]
    have temps : (s.unlink id).temps = s.temps := rfl
    rw [get_unlink, temps, get]
    simp only [Consistent] at consistent
    cases found : s.index[id]? with
    | none =>
      have absent : id ∉ s.index := by simp [← ExtTreeMap.isSome_getElem?_iff_mem, found]
      simp [absent]
    | some row =>
      have present : id ∈ s.index := by simp [← ExtTreeMap.isSome_getElem?_iff_mem, found]
      have both : s.FailsAtIndex hash r wantSHA maxBytes env ∧ id ∈ s.index :=
        ⟨atIndex, present⟩
      -- a file and a row that agree are a file and a record
      cases file : s.files[id]? with
      | none => simp [found, file] at consistent
      | some data =>
        cases row with
        | record fragMeta => simp [both]
        | unreadable => simp [found, file, IndexRow.sha256] at consistent
  · rw [result] at failed
    cases failed

end ChunkStore

namespace Sample

/-- A hash for runs: the first 32 bytes, padded. -/
def padHash (data : Bytes) : Bytes := (data ++ List.replicate 32 0).take 32

/-- A store with one fragment. -/
def oneFragment : ChunkStore where
  files := (∅ : ExtTreeMap Uuid Bytes compare).insert 1 [7]
  temps := ∅
  index := (∅ : ExtTreeMap Uuid IndexRow compare).insert 1
    (.record (ChunkStore.metaOf padHash [7] 900 0))

end Sample

open Sample

/-- A `Put` of a body with the wrong hash leaves the earlier copy. -/
theorem mismatched_put_keeps_copy :
    (oneFragment.put padHash 1 ⟨[8], false⟩ (padHash [9]) 1 900
      { tmp := 0, now := 5, fault := some .index }).2.get 1 = oneFragment.get 1 := by
  refine ((@ChunkStore.failed_put_iff oneFragment 1 padHash ⟨[8], false⟩
    (padHash [9]) 1 900 { tmp := 0, now := 5, fault := some .index } (by decide +kernel)
    .hash (by decide +kernel)).mpr ?_).1
  rintro ⟨⟨-, data, staged⟩, -⟩
  obtain rfl : [8] = data := congrArg Prod.fst (staged.read : ([8], false) = (data, false))
  exact absurd staged.hashed (by decide)

/-- A second `Put` of the same bytes that cannot write its index row loses the first
copy. -/
theorem failed_put_loses_copy :
    oneFragment.Consistent padHash 1 ∧
      oneFragment.get 1 = .ok ([7], ChunkStore.metaOf padHash [7] 900 0) ∧
      ∃ s', oneFragment.put padHash 1 ⟨[7], false⟩ (padHash [7]) 1 900
          { tmp := 0, now := 5, fault := some .index } = (.error (.io "agent.put"), s') ∧
        s'.get 1 = .error (.io "agent.get") := by
  refine ⟨by decide +kernel, by decide +kernel, oneFragment.unlink 1, ?_, ?_⟩ <;> decide +kernel

/-! ### What a Put accepts -/

/-- `Put` accepts the bodies within the bound that have the hash, and stores them whole. -/
structure ExactPut (hash : Bytes → Bytes) (s : ChunkStore) (id : Uuid) (r : Upload)
    (wantSHA : Bytes) (maxBytes : Nat) (expires : Instant) (env : PutEnv) : Prop where
  accepted : (∃ fragMeta, (s.put hash id r wantSHA maxBytes expires env).1 = .ok fragMeta) ↔
    r.bytes.length ≤ maxBytes ∧ hash r.bytes = wantSHA
  stored : ∀ fragMeta, (s.put hash id r wantSHA maxBytes expires env).1 = .ok fragMeta →
    (s.put hash id r wantSHA maxBytes expires env).2.files[id]? = some r.bytes ∧
      (s.put hash id r wantSHA maxBytes expires env).2.index[id]? = some (.record fragMeta) ∧
      fragMeta.size = r.bytes.length

section Exact

variable {hash : Bytes → Bytes} {s : ChunkStore} {id : Uuid} {r : Upload} {wantSHA : Bytes}
  {maxBytes : Nat} {expires : Instant} {env : PutEnv}

theorem putLimit_of_small (small : maxBytes < 2 ^ 63 - 1) : putLimit maxBytes = maxBytes + 1 := by
  have word : toInt64 maxBytes = maxBytes := if_pos (by omega)
  rw [putLimit, word, toInt64_toUint64] <;> omega

/-- From `MaxInt64` on the limit is not positive. -/
theorem putLimit_of_large (large : 2 ^ 63 - 1 ≤ maxBytes) (word : maxBytes < 2 ^ 64) :
    putLimit maxBytes ≤ 0 := by
  simp only [putLimit, toInt64, toUint64]
  split <;> split <;> omega

/-- Nothing fails by itself: the bytes that are read decide. -/
theorem put_calm (id : Uuid) (expires : Instant) (calm : env.fault = none)
    (fresh : env.tmp ∉ s.temps) {data : Bytes}
    (read : r.readLimited (putLimit maxBytes) = (data, false)) :
    s.put hash id r wantSHA maxBytes expires env =
        (.ok (ChunkStore.metaOf hash data expires env.now),
          { s with
            files := s.files.insert id data
            index := s.index.insert id (ChunkStore.metaOf hash data expires env.now).row }) ∧
      data.length ≤ maxBytes ∧ hash data = wantSHA ∨
    (∃ e, s.put hash id r wantSHA maxBytes expires env = (.error e, s)) ∧
      ¬ (data.length ≤ maxBytes ∧ hash data = wantSHA) := by
  rcases ChunkStore.put_cases hash s id r wantSHA maxBytes expires env with
    ⟨e, result, -⟩ | ⟨e, -, fault, -⟩ | ⟨data', staged, -, result⟩
  · refine .inr ⟨⟨e, result⟩, ?_⟩
    rintro ⟨bounded, hashed⟩
    have staged : ChunkStore.Staged hash s r wantSHA maxBytes env data :=
      ⟨fresh, read, bounded, hashed, .inl calm⟩
    simp [ChunkStore.put, ChunkStore.stage_of_staged staged, calm] at result
  · rw [calm] at fault
    cases fault
  · have same := staged.read
    rw [read] at same
    cases same
    exact .inl ⟨result, staged.bounded, staged.hashed⟩

/-- The record of a `Put` can be read back exactly if both its times have a year that JSON
takes. -/
theorem metaOf_row_iff {data : Bytes} {now : Instant} :
    (ChunkStore.metaOf hash data expires now).row =
        .record (ChunkStore.metaOf hash data expires now) ↔
      expires.marshals ∧ now.marshals := by
  simp only [FragMeta.row, ChunkStore.metaOf, and_self]
  split <;> simp_all

/-- In terms of the bytes that are read. -/
theorem exactPut_read_iff (calm : env.fault = none) (fresh : env.tmp ∉ s.temps) {data : Bytes}
    (read : r.readLimited (putLimit maxBytes) = (data, false)) :
    ExactPut hash s id r wantSHA maxBytes expires env ↔
      ((data.length ≤ maxBytes ∧ hash data = wantSHA) ↔
          (r.bytes.length ≤ maxBytes ∧ hash r.bytes = wantSHA)) ∧
        (data.length ≤ maxBytes ∧ hash data = wantSHA →
          data = r.bytes ∧ expires.marshals ∧ env.now.marshals) := by
  rcases put_calm id expires calm fresh read with ⟨result, passed⟩ | ⟨⟨e, result⟩, refused⟩
  · have put := congrArg Prod.fst result
    constructor
    · intro exact_
      obtain ⟨kept, row, -⟩ := exact_.stored _ put
      rw [result, ExtTreeMap.getElem?_insert_self] at kept row
      exact ⟨iff_of_true passed (exact_.accepted.mp ⟨_, put⟩),
        fun _ => ⟨Option.some.inj kept, metaOf_row_iff.mp (Option.some.inj row)⟩⟩
    · rintro ⟨agree, whole⟩
      obtain ⟨same, dated⟩ := whole passed
      refine ⟨iff_of_true ⟨_, put⟩ (agree.mp passed), fun fragMeta ok => ?_⟩
      rw [← same]
      rw [result] at ok ⊢
      cases ok
      refine ⟨ExtTreeMap.getElem?_insert_self, ?_, rfl⟩
      rw [ExtTreeMap.getElem?_insert_self, metaOf_row_iff.mpr dated]
  · have never : ∀ fragMeta, (s.put hash id r wantSHA maxBytes expires env).1 ≠ .ok fragMeta := by
      intro fragMeta ok
      rw [result] at ok
      cases ok
    constructor
    · intro exact_
      refine ⟨iff_of_false refused fun passed => ?_, fun passed => absurd passed refused⟩
      obtain ⟨fragMeta, ok⟩ := exact_.accepted.mpr passed
      exact never fragMeta ok
    · rintro ⟨agree, -⟩
      refine ⟨iff_of_false ?_ (agree.not.mp refused), fun fragMeta ok => absurd ok (never fragMeta)⟩
      rintro ⟨fragMeta, ok⟩
      exact never fragMeta ok

/-- `Put` is exact below `MaxInt64` as long as its record can be read back.  From there on
nothing is read, and it is exact only for the empty body and for bodies that are refused
rightly. -/
theorem exactPut_iff (word : maxBytes < 2 ^ 64) (whole : r.broken = false)
    (calm : env.fault = none) (fresh : env.tmp ∉ s.temps) :
    ExactPut hash s id r wantSHA maxBytes expires env ↔
      (maxBytes < 2 ^ 63 - 1 ∨ r.bytes = [] ∨
        (hash [] ≠ wantSHA ∧ ¬ (r.bytes.length ≤ maxBytes ∧ hash r.bytes = wantSHA))) ∧
      (r.bytes.length ≤ maxBytes ∧ hash r.bytes = wantSHA →
        expires.marshals ∧ env.now.marshals) := by
  by_cases small : maxBytes < 2 ^ 63 - 1
  · have limit := putLimit_of_small small
    by_cases long : maxBytes < r.bytes.length
    · have read : r.readLimited (putLimit maxBytes) = (r.bytes.take (maxBytes + 1), false) := by
        rw [limit, Upload.readLimited, if_neg (by omega), if_pos (by omega)]
        rfl
      have cut : (r.bytes.take (maxBytes + 1)).length = maxBytes + 1 :=
        List.length_take_of_le long
      -- too long as read and as it is
      have tooLong : ¬ (r.bytes.take (maxBytes + 1)).length ≤ maxBytes := by omega
      have refused : ¬ r.bytes.length ≤ maxBytes := not_le.mpr long
      rw [exactPut_read_iff calm fresh read]
      refine iff_of_true ⟨iff_of_false ?_ ?_, ?_⟩ ⟨.inl small, ?_⟩
      · exact fun passed => tooLong passed.1
      · exact fun passed => refused passed.1
      · exact fun passed => absurd passed.1 tooLong
      · exact fun passed => absurd passed.1 refused
    · have read : r.readLimited (putLimit maxBytes) = (r.bytes, false) := by
        rw [limit, Upload.readLimited, if_neg (by omega), if_neg (by omega), whole]
      rw [exactPut_read_iff calm fresh read]
      constructor
      · rintro ⟨-, stored⟩
        exact ⟨.inl small, fun passed => (stored passed).2⟩
      · rintro ⟨-, dated⟩
        exact ⟨Iff.rfl, fun passed => ⟨rfl, dated passed⟩⟩
  · have read : r.readLimited (putLimit maxBytes) = ([], false) :=
      if_pos (putLimit_of_large (not_lt.mp small) word)
    rw [exactPut_read_iff calm fresh read]
    have empty : ([] : Bytes).length ≤ maxBytes := Nat.zero_le _
    by_cases nothing : r.bytes = []
    · simp [nothing]
    · have differ : [] ≠ r.bytes := fun same => nothing same.symm
      simp only [empty, true_and, small, nothing, differ, false_or, false_and, imp_false]
      grind

end Exact

/-- A body of one byte within a bound of one is stored. -/
theorem small_put_exact :
    ExactPut padHash .empty 1 ⟨[7], false⟩ (padHash [7]) 1 900
      { tmp := 0, now := 5, fault := none } :=
  (exactPut_iff (by decide) rfl rfl (by decide +kernel)).mpr ⟨.inl (by decide), by decide⟩

/-- With the bound at `MaxInt64` the authorised body is refused. -/
theorem largest_bound_refused :
    (ChunkStore.empty.put padHash 1 ⟨[7], false⟩ (padHash [7]) (2 ^ 63 - 1) 900
        { tmp := 0, now := 5, fault := none }).1 = .error .hash ∧
      ¬ ExactPut padHash .empty 1 ⟨[7], false⟩ (padHash [7]) (2 ^ 63 - 1) 900
        { tmp := 0, now := 5, fault := none } := by
  have refused : (ChunkStore.empty.put padHash 1 ⟨[7], false⟩ (padHash [7])
      (2 ^ 63 - 1) 900 { tmp := 0, now := 5, fault := none }).1 = .error .hash := by
    decide +kernel
  refine ⟨refused, fun exact_ => ?_⟩
  obtain ⟨fragMeta, ok⟩ := exact_.accepted.mpr ⟨by decide, rfl⟩
  rw [refused] at ok
  cases ok

end StoragePlatform
