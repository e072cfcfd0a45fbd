/-
Module: StoragePlatform.Agent.Store
Purpose: The fragment store of an agent: fragment files, temporary files and the
  index (internal/agent/store.go).
Trusted boundary: human-reviewed spec; SHA-256 is a parameter, the JSON of a record
  reads back as the record, os.Remove of an existing file succeeds
Main exports: FragMeta, IndexRow, ChunkStore, Upload, PutStep, equalSHA, ChunkStore.each
-/
import StoragePlatform.Agent.Requests

namespace StoragePlatform

open Lib
open Std (ExtTreeMap)

/-!
A fragment has one path, made from its id, and the paths of two ids differ, so the
fragment files are a map from ids.  `bbolt` keeps the keys of a bucket in the order of
their bytes, which for an id is the order of the 128-bit numbers.
-/

instance uuidTransCmp : Std.TransCmp (compare : Uuid → Uuid → Ordering) := inferInstance

instance nameTransCmp : Std.TransCmp (compare : Nat → Nat → Ordering) := inferInstance

/-- `FragMeta`: the index record. -/
structure FragMeta where
  size : Int
  sha256 : Bytes
  expiresAt : Instant
  storedAt : Instant
  lastVerified : Instant
deriving DecidableEq, Repr

/-- `Time.MarshalJSON` takes the years 0 to 9999. -/
def Instant.marshals (t : Instant) : Bool := -62167219200 ≤ t.unix ∧ t.unix < 253402300800

/-- The value of an index row, as `json.Unmarshal` reads it. -/
inductive IndexRow where
  | record (fragMeta : FragMeta)
  /-- The empty value. -/
  | unreadable
deriving DecidableEq, Repr

/-- `json.Marshal` of a record.  `Put` drops its error and then writes no bytes. -/
def FragMeta.row (fragMeta : FragMeta) : IndexRow :=
  if fragMeta.expiresAt.marshals ∧ fragMeta.storedAt.marshals ∧ fragMeta.lastVerified.marshals then
    .record fragMeta
  else .unreadable

/-- The hash a row states, if it can be read. -/
def IndexRow.sha256 : IndexRow → Option Bytes
  | .record fragMeta => some fragMeta.sha256
  | .unreadable => none

/-- The fragment files, the temporary files by name and the `fragments` bucket. -/
structure ChunkStore where
  files : ExtTreeMap Uuid Bytes compare
  temps : ExtTreeMap Nat Bytes compare
  index : ExtTreeMap Uuid IndexRow compare
deriving DecidableEq

def ChunkStore.empty : ChunkStore := ⟨∅, ∅, ∅⟩

inductive ChunkErr where
  | notStored
  | hash
  | tooLarge
  /-- An error of `json.Unmarshal`. -/
  | unmarshal
  /-- An error of the file system, of the index or of the reader. -/
  | io (op : String)
deriving DecidableEq, Repr

/-! ### The steps on files and index -/

namespace ChunkStore

variable (s : ChunkStore)

def writeTemp (tmp : Nat) (data : Bytes) : ChunkStore := { s with temps := s.temps.insert tmp data }

def removeTemp (tmp : Nat) : ChunkStore := { s with temps := s.temps.erase tmp }

/-- `os.Rename` of a temporary file to the path of a fragment. -/
def rename (tmp : Nat) (id : Uuid) : ChunkStore :=
  match s.temps[tmp]? with
  | none => s
  | some data => { s with files := s.files.insert id data, temps := s.temps.erase tmp }

/-- `os.Remove` of the file of a fragment. -/
def unlink (id : Uuid) : ChunkStore := { s with files := s.files.erase id }

def indexPut (id : Uuid) (row : IndexRow) : ChunkStore :=
  { s with index := s.index.insert id row }

def indexDelete (id : Uuid) : ChunkStore := { s with index := s.index.erase id }

end ChunkStore

/-! ### Put -/

/-- What a reader delivers: its bytes, then the end or an error. -/
structure Upload where
  bytes : Bytes
  broken : Bool
deriving DecidableEq, Repr

/-- `io.LimitReader` read to its end: the bytes, and whether an error came.  After
`limit` bytes the reader is not asked again. -/
def Upload.readLimited (r : Upload) (limit : Int) : Bytes × Bool :=
  if limit ≤ 0 then ([], false)
  else if limit ≤ r.bytes.length then (r.bytes.take limit.toNat, false)
  else (r.bytes, r.broken)

/-- `equalSHA`. -/
def equalSHA (a b : Bytes) : Bool :=
  if a.length ≠ b.length then false
  else (List.zipWith (fun x y => x ^^^ y) a b).foldl (fun v x => v ||| x) 0 = 0

/-- The steps of `Put` that can fail by themselves; `copy` is a write to the temporary
file. -/
inductive PutStep where
  | mkdir | createTemp | copy | sync | close | rename | index
deriving DecidableEq, Repr

/-- What the surroundings give a `Put`: the name `os.CreateTemp` finds, the clock, and
the step that fails, if one does. -/
structure PutEnv where
  tmp : Nat
  now : Instant
  fault : Option PutStep
deriving DecidableEq, Repr

/-- The limit of the copy, `int64(maxBytes) + 1`. -/
def putLimit (maxBytes : Nat) : Int := toInt64 (toUint64 (toInt64 maxBytes + 1))

namespace ChunkStore

/-- `Put` up to the rename: the temporary file is written, checked, synced and closed.
Each error removes it. -/
def stage (hash : Bytes → Bytes) (s : ChunkStore) (r : Upload) (wantSHA : Bytes)
    (maxBytes : Nat) (env : PutEnv) : Except ChunkErr Bytes × ChunkStore :=
  if env.fault = some .mkdir then (.error (.io "agent.put"), s)
  else if env.fault = some .createTemp ∨ env.tmp ∈ s.temps then (.error (.io "agent.put"), s)
  else
    let read := r.readLimited (putLimit maxBytes)
    let written := s.writeTemp env.tmp read.1
    if read.2 = true ∨ env.fault = some .copy then
      (.error (.io "agent.put"), written.removeTemp env.tmp)
    else if maxBytes < read.1.length then (.error .tooLarge, written.removeTemp env.tmp)
    else if equalSHA wantSHA (hash read.1) = false then
      (.error .hash, written.removeTemp env.tmp)
    else if env.fault = some .sync ∨ env.fault = some .close then
      (.error (.io "agent.put"), written.removeTemp env.tmp)
    else (.ok read.1, written)

/-- The index record of staged bytes. -/
def metaOf (hash : Bytes → Bytes) (data : Bytes) (expires now : Instant) : FragMeta where
  size := data.length
  sha256 := hash data
  expiresAt := expires
  storedAt := now
  lastVerified := now

/-- `Put`.  The deferred `os.Remove` of the temporary name runs last. -/
def put (hash : Bytes → Bytes) (s : ChunkStore) (id : Uuid) (r : Upload) (wantSHA : Bytes)
    (maxBytes : Nat) (expires : Instant) (env : PutEnv) : Except ChunkErr FragMeta × ChunkStore :=
  match s.stage hash r wantSHA maxBytes env with
  | (.error e, s') => (.error e, s')
  | (.ok data, staged) =>
    if env.fault = some .rename then (.error (.io "agent.put"), staged.removeTemp env.tmp)
    else
      let renamed := staged.rename env.tmp id
      let fragMeta := metaOf hash data expires env.now
      if env.fault = some .index then
        (.error (.io "agent.put"), (renamed.unlink id).removeTemp env.tmp)
      else (.ok fragMeta, (renamed.indexPut id fragMeta.row).removeTemp env.tmp)

/-! ### Reading and deleting -/

/-- `Get`: the content of the file and the index record. -/
def get (s : ChunkStore) (id : Uuid) : Except ChunkErr (Bytes × FragMeta) :=
  match s.index[id]? with
  | none => .error .notStored
  | some .unreadable => .error .unmarshal
  | some (.record fragMeta) =>
    match s.files[id]? with
    | none => .error (.io "agent.get")
    | some data => .ok (data, fragMeta)

/-- `ReadRange`; the sum is an `int64`, and `ReadAt` fails at the end of the file. -/
def readRange (s : ChunkStore) (id : Uuid) (offset length : Int) : Except ChunkErr Bytes :=
  if length ≤ 0 ∨ maxChallengeRange < length then .error .tooLarge
  else
    match s.get id with
    | .error e => .error e
    | .ok (data, fragMeta) =>
      if offset < 0 ∨ fragMeta.size < offset ∨
          fragMeta.size < toInt64 (toUint64 (offset + length)) then
        .error .tooLarge
      else if data.length < offset + length then .error (.io "agent.readRange")
      else .ok ((data.drop offset.toNat).take length.toNat)

/-- `Delete`; `fault` is an error of the index. -/
def delete (s : ChunkStore) (id : Uuid) (fault : Bool) : Except ChunkErr Unit × ChunkStore :=
  if fault then (.error (.io "agent.delete"), s.unlink id)
  else (.ok (), (s.unlink id).indexDelete id)

/-- The loop of `Each` with a callback that does not fail. -/
def eachRow {σ : Type} (visit : σ → Uuid × FragMeta → σ) :
    σ → List (Uuid × IndexRow) → σ × Except ChunkErr Unit
  | state, [] => (state, .ok ())
  | state, (_, .unreadable) :: _ => (state, .error .unmarshal)
  | state, (id, .record fragMeta) :: rows => eachRow visit (visit state (id, fragMeta)) rows

/-- `Each` visits the rows in the order of their keys. -/
def each {σ : Type} (s : ChunkStore) (visit : σ → Uuid × FragMeta → σ) (init : σ) :
    σ × Except ChunkErr Unit :=
  eachRow visit init s.index.toList

end ChunkStore

/-! ### Comparing hashes -/

theorem foldl_or_eq_zero {bytes : Bytes} {v : UInt8} :
    bytes.foldl (fun v x => v ||| x) v = 0 ↔ v = 0 ∧ ∀ x ∈ bytes, x = 0 := by
  induction bytes generalizing v with
  | nil => simp
  | cons x bytes ih =>
    rw [List.foldl_cons, ih, UInt8.or_eq_zero_iff]
    simp [and_assoc]

theorem zipWith_xor_zero {a b : Bytes} (sized : a.length = b.length) :
    (∀ x ∈ List.zipWith (fun x y => x ^^^ y) a b, x = 0) ↔ a = b := by
  induction a generalizing b with
  | nil => simp [List.length_eq_zero_iff.mp sized.symm]
  | cons x a ih =>
    cases b with
    | nil => cases sized
    | cons y b =>
      simp only [List.zipWith_cons_cons, List.forall_mem_cons, UInt8.xor_eq_zero_iff,
        ih (Nat.succ.inj sized), List.cons.injEq]

theorem equalSHA_iff {a b : Bytes} : equalSHA a b = true ↔ a = b := by
  rw [equalSHA]
  split
  · rename_i unequal
    simp only [Bool.false_eq_true, false_iff]
    rintro rfl
    exact unequal rfl
  · rename_i equal
    rw [decide_eq_true_eq, foldl_or_eq_zero, zipWith_xor_zero (not_not.mp equal)]
    simp

end StoragePlatform
