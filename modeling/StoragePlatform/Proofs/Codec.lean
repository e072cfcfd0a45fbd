/-
Module: StoragePlatform.Proofs.Codec
Purpose: A systematic Vandermonde code over the field of 256 elements, as the
  package's default is, recovers from any ten shards.
Trusted boundary: none
Main exports: presentIndices, vandermonde, vandermonde_recovers
-/
import Mathlib.FieldTheory.Finite.GaloisField
import StoragePlatform.Lib.ReedSolomon
import StoragePlatform.Pipeline.Erasure

namespace StoragePlatform

open Lib List

/-! ### Which shards are there -/

def presentIndices (present : List (Option Bytes)) : List Nat :=
  (present.zipIdx.filter fun entry => entry.1.isSome).map Prod.snd

theorem mem_presentIndices {present : List (Option Bytes)} {i : Nat} :
    i ∈ presentIndices present ↔ ∃ shard, present[i]? = some (some shard) := by
  simp only [presentIndices, mem_map, mem_filter, Prod.exists, exists_eq_right,
    mem_zipIdx_iff_getElem?, Option.isSome_iff_exists]
  constructor
  · rintro ⟨slot, found, shard, rfl⟩
    exact ⟨shard, found⟩
  · rintro ⟨shard, found⟩
    exact ⟨some shard, found, shard, rfl⟩

theorem length_presentIndices (present : List (Option Bytes)) :
    (presentIndices present).length = present.countP Option.isSome := by
  rw [presentIndices, length_map, ← countP_eq_length_filter]
  conv_rhs => rw [← zipIdx_map_fst 0 present, countP_map]
  rfl

theorem nodup_presentIndices (present : List (Option Bytes)) : (presentIndices present).Nodup := by
  refine List.Nodup.sublist (filter_sublist.map Prod.snd) ?_
  rw [zipIdx_map_snd]
  exact nodup_range'

/-! ### Splitting and joining -/

/-- Equal shards: the data is padded with zeros, and the parity shards are blank. -/
def splitShards (data : Bytes) : Except PipelineErr (List Bytes) :=
  if data = [] then .error .codec
  else
    let perShard := (data.length + ecData - 1) / ecData
    let padded := data ++ List.replicate (ecTotal * perShard - data.length) 0
    .ok ((List.range ecTotal).map fun i => (padded.drop (i * perShard)).take perShard)

def joinShards (shards : List (Option Bytes)) (outSize : Nat) : Except PipelineErr Bytes :=
  let data := shards.take ecData
  if data.length < ecData ∨ none ∈ data then .error .codec
  else
    let bytes := (data.filterMap fun shard => shard).flatten
    if bytes.length < outSize then .error .codec
    else .ok (bytes.take outSize)

theorem flatten_slices {α : Type} (data : List α) (size count : Nat) :
    ((List.range count).map fun i => (data.drop (i * size)).take size).flatten =
      data.take (count * size) := by
  induction count with
  | zero => simp
  | succ count ih =>
    rw [range_succ, map_append, flatten_append, ih, Nat.succ_mul, take_add]
    simp

theorem splitShards_ok {data : Bytes} (some_data : data ≠ []) :
    ∃ size shards blank pad, splitShards data = .ok (shards ++ blank) ∧
      EqualShards size shards blank ∧ shards.flatten = data ++ pad ∧ size ≤ data.length := by
  have positive := length_pos_of_ne_nil some_data
  obtain ⟨size, size_eq⟩ : ∃ size, size = (data.length + ecData - 1) / ecData := ⟨_, rfl⟩
  have fits : data.length ≤ ecData * size ∧ 0 < size ∧ size ≤ data.length := by
    rw [size_eq, ecData]
    omega
  obtain ⟨padded, padded_eq⟩ : ∃ padded,
      padded = data ++ List.replicate (ecTotal * size - data.length) 0 := ⟨_, rfl⟩
  have length : padded.length = ecTotal * size := by
    rw [padded_eq, length_append, length_replicate]
    have : ecTotal * size = ecData * size + ecParity * size := Nat.add_mul ..
    omega
  have slice : ∀ i < ecTotal, ((padded.drop (i * size)).take size).length = size := by
    intro i inRange
    have next : (i + 1) * size ≤ ecTotal * size := Nat.mul_le_mul_right _ inRange
    rw [Nat.succ_mul] at next
    rw [length_take, length_drop]
    omega
  refine ⟨size, (List.range ecData).map fun i => (padded.drop (i * size)).take size,
    ((List.range ecParity).map (ecData + ·)).map fun i => (padded.drop (i * size)).take size,
    List.replicate (ecData * size - data.length) 0, ?_, ⟨fits.2.1, by simp, by simp, ?_, ?_⟩, ?_,
    fits.2.2⟩
  · rw [splitShards, if_neg some_data]
    simp only [← size_eq, ← padded_eq]
    rw [← map_append, ← range_add]
    rfl
  · intro shard member
    obtain ⟨i, inRange, rfl⟩ := mem_map.mp member
    rw [mem_range] at inRange
    exact slice i (by rw [ecTotal]; omega)
  · intro shard member
    obtain ⟨j, inRange, rfl⟩ := mem_map.mp member
    obtain ⟨i, inRange', rfl⟩ := mem_map.mp inRange
    rw [mem_range] at inRange'
    exact slice (ecData + i) (by rw [ecTotal]; omega)
  · rw [flatten_slices, padded_eq, take_append, take_of_length_le fits.1, take_replicate]
    congr 2
    have : ecTotal * size = ecData * size + ecParity * size := Nat.add_mul ..
    omega

theorem joinShards_ok {shards : List Bytes} {outSize : Nat} (count : shards.length = ecTotal)
    (long : outSize ≤ (shards.take ecData).flatten.length) :
    joinShards (shards.map some) outSize = .ok ((shards.take ecData).flatten.take outSize) := by
  have bytes : (((shards.map some).take ecData).filterMap fun shard => shard).flatten =
      (shards.take ecData).flatten := by
    rw [← map_take, filterMap_map]
    simp
  have whole : ¬ (((shards.map some).take ecData).length < ecData ∨
      none ∈ (shards.map some).take ecData) := by
    rw [← map_take, length_map, length_take, count]
    rintro (few | missing)
    · rw [ecTotal] at few
      omega
    · obtain ⟨shard, -, absent⟩ := mem_map.mp missing
      cases absent
  simp only [joinShards]
  rw [if_neg whole, bytes, if_neg (by omega)]

/-! ### The code -/

/-- The bytes as the elements of the field, in some order. -/
noncomputable def byteField : UInt8 ≃ GaloisField 2 8 :=
  Equiv.trans ⟨UInt8.toFin, UInt8.ofFin, fun _ => rfl, fun _ => rfl⟩
    (Finite.equivFinOfCardEq (GaloisField.card 2 8 (by decide))).symm

/-- The point of a position. -/
noncomputable def byteFieldPoint (i : Nat) : GaloisField 2 8 := byteField (UInt8.ofNat i)

/-- The shard at position `x` of the codeword through the known shards. -/
noncomputable def rebuildShard (known : Finset Nat) (size : Nat) (shards : Nat → Bytes)
    (x : Nat) : Bytes :=
  (rebuild byteFieldPoint known size (fun i => (shards i).map byteField) x).map byteField.symm

/-- `reedsolomon.New(10, 6)`: row `r` of the matrix is that of the point `r`, and
the first ten rows are made the identity. -/
noncomputable def vandermonde : ReedSolomon where
  split := splitShards
  join := joinShards
  encode shards :=
    let size := (shards.headD []).length
    let data := shards.take ecData
    if shards.length ≠ ecTotal ∨ size = 0 ∨ ∃ shard ∈ shards, shard.length ≠ size then
      .error .codec
    else
      .ok (data ++ (List.range ecParity).map fun j =>
        rebuildShard (Finset.range ecData) size (fun i => data.getD i []) (ecData + j))
  reconstruct present :=
    let found := (presentIndices present).take ecData
    let shards := fun i => ((present[i]?).getD none).getD []
    if present.length ≠ ecTotal ∨ found.length < ecData then .error .codec
    else
      let size := (shards (found.headD 0)).length
      .ok (present.mapIdx fun i shard =>
        some (shard.getD (rebuildShard found.toFinset size shards i)))

theorem points_injective {known : Finset Nat} (inRange : ∀ i ∈ known, i < ecTotal) :
    Set.InjOn byteFieldPoint known := by
  intro i inKnown j inKnown' same
  have small := inRange i inKnown
  have small' := inRange j inKnown'
  rw [ecTotal, ecData, ecParity] at small small'
  have values := congrArg UInt8.toNat (byteField.injective same)
  simp only [UInt8.toNat_ofNat'] at values
  omega

theorem length_rebuildShard (known : Finset Nat) (size : Nat) (shards : Nat → Bytes) (x : Nat) :
    (rebuildShard known size shards x).length = size := by
  rw [rebuildShard, length_map, length_rebuild]

theorem rebuildShard_node {known : Finset Nat} (inRange : ∀ i ∈ known, i < ecTotal) {size i : Nat}
    {shards : Nat → Bytes} (member : i ∈ known) (length : (shards i).length = size) :
    rebuildShard known size shards i = shards i := by
  rw [rebuildShard, rebuild_node (points_injective inRange) member (by simpa using length), map_map]
  simp [Function.comp_def]

theorem dataRange : ∀ i ∈ Finset.range ecData, i < ecTotal := by
  decide

/-- Ten shards of a codeword determine the others. -/
theorem rebuildShard_recovers {given : Finset Nat} (inRange : ∀ i ∈ given, i < ecTotal)
    (ten : ecData ≤ given.card) {size : Nat} {data found : Nat → Bytes}
    (same : ∀ i ∈ given, found i = rebuildShard (Finset.range ecData) size data i) (x : Nat) :
    rebuildShard given size found x = rebuildShard (Finset.range ecData) size data x := by
  have symbols : ∀ i ∈ given, (found i).map byteField =
      rebuild byteFieldPoint (Finset.range ecData) size (fun i => (data i).map byteField) i := by
    intro i member
    rw [same i member, rebuildShard, map_map]
    simp [Function.comp_def]
  rw [rebuildShard, rebuildShard,
    rebuild_recovers (points_injective dataRange) (points_injective inRange)
      (by rwa [Finset.card_range]) symbols]

/-! ### It keeps the promise -/

theorem vandermonde_encode {size : Nat} {data blank : List Bytes}
    (equal : EqualShards size data blank) :
    vandermonde.encode (data ++ blank) = .ok (data ++ (List.range ecParity).map fun j =>
      rebuildShard (Finset.range ecData) size (fun i => data.getD i []) (ecData + j)) := by
  have head : ((data ++ blank).headD []).length = size := by
    cases data with
    | nil => cases equal.dataCount
    | cons first rest => exact equal.dataSize first (by simp)
  have cut : (data ++ blank).take ecData = data := by
    rw [take_append_of_le_length equal.dataCount.ge, take_of_length_le equal.dataCount.le]
  have fine : ¬ ((data ++ blank).length ≠ ecTotal ∨ size = 0 ∨
      ∃ shard ∈ data ++ blank, shard.length ≠ size) := by
    rintro (count | zero | ⟨shard, member, other⟩)
    · rw [length_append, equal.dataCount, equal.blankCount] at count
      exact count rfl
    · have := equal.positive
      omega
    · rcases mem_append.mp member with inData | inBlank
      · exact other (equal.dataSize shard inData)
      · exact other (equal.blankSize shard inBlank)
  simp only [vandermonde, head, cut]
  rw [if_neg fine]

/-- Every shard of a codeword is the codeword's value at its position. -/
theorem vandermonde_shard {size : Nat} {data blank shards : List Bytes}
    (equal : EqualShards size data blank)
    (encoded : vandermonde.encode (data ++ blank) = .ok shards) {i : Nat} (inRange : i < ecTotal) :
    shards[i]? = some (rebuildShard (Finset.range ecData) size (fun i => data.getD i []) i) := by
  rw [vandermonde_encode equal] at encoded
  cases encoded
  by_cases inData : i < ecData
  · have inside : i < data.length := by rw [equal.dataCount]; exact inData
    have value : data.getD i [] = data[i] := by simp [getD_eq_getElem?_getD, inside]
    have length : (data.getD i []).length = size := by
      rw [value]
      exact equal.dataSize _ (getElem_mem inside)
    rw [getElem?_append_left inside, getElem?_eq_getElem inside,
      rebuildShard_node dataRange (Finset.mem_range.mpr inData) length, value]
  · have parity : i - ecData < ecParity := by
      rw [ecTotal] at inRange
      omega
    rw [getElem?_append_right (by rw [equal.dataCount]; omega), equal.dataCount,
      getElem?_map, getElem?_range parity, Option.map_some]
    congr 3
    omega

theorem vandermonde_recovers : vandermonde.Recovers where
  split := splitShards_ok
  join := joinShards_ok
  encode equal := by
    refine ⟨_, by simp, fun shard member => ?_, vandermonde_encode equal⟩
    obtain ⟨j, -, rfl⟩ := mem_map.mp member
    exact length_rebuildShard ..
  reconstruct := by
    intro size data blank shards equal encoded present count sound enough
    have code := fun {i : Nat} => @vandermonde_shard size data blank shards equal encoded i
    obtain ⟨found, found_eq⟩ : ∃ found, found = (presentIndices present).take ecData := ⟨_, rfl⟩
    have ten : found.length = ecData := by
      rw [found_eq, length_take, length_presentIndices]
      omega
    have there : ∀ i ∈ found, i < ecTotal ∧ ((present[i]?).getD none).getD [] =
        rebuildShard (Finset.range ecData) size (fun i => data.getD i []) i := by
      intro i member
      rw [found_eq] at member
      obtain ⟨shard, slot⟩ := mem_presentIndices.mp (mem_of_mem_take member)
      have inRange : i < ecTotal := count ▸ (List.getElem?_eq_some_iff.mp slot).1
      have value := (sound i shard slot).symm.trans (code inRange)
      rw [slot]
      exact ⟨inRange, Option.some.inj value⟩
    have firstSize : (((present[found.headD 0]?).getD none).getD []).length = size := by
      cases found with
      | nil => cases ten
      | cons first rest =>
        rw [headD_cons, (there first (by simp)).2, length_rebuildShard]
    have card : ecData ≤ found.toFinset.card := by
      rw [toFinset_card_of_nodup, ten]
      rw [found_eq]
      exact (nodup_presentIndices present).sublist (take_sublist _ _)
    have rebuilt := rebuildShard_recovers
      (fun i member => (there i (mem_toFinset.mp member)).1) card
      (fun i member => (there i (mem_toFinset.mp member)).2)
    simp only [vandermonde, ← found_eq]
    rw [if_neg (by omega), firstSize]
    congr 1
    refine ext_getElem? fun i => ?_
    rw [getElem?_mapIdx, getElem?_map]
    by_cases inRange : i < ecTotal
    · rw [code inRange, getElem?_eq_getElem (by omega)]
      cases slot : present[i] with
      | some shard =>
        have found_slot : present[i]? = some (some shard) := by
          rw [getElem?_eq_getElem (by omega), slot]
        have value := (sound i shard found_slot).symm.trans (code inRange)
        simpa using Option.some.inj value
      | none => simp [rebuilt]
    · have lengths : shards.length = ecTotal := by
        rw [vandermonde_encode equal] at encoded
        cases encoded
        rw [length_append, equal.dataCount, length_map, length_range]
        rfl
      rw [getElem?_eq_none (by omega), getElem?_eq_none (by omega)]
      rfl

end StoragePlatform
