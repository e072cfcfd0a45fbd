/-
Module: StoragePlatform.Pipeline.Erasure
Purpose: Reed-Solomon encoding of ciphertext chunks (internal/pipeline/erasure.go).
Trusted boundary: human-reviewed spec; the Reed-Solomon package is a parameter
Main exports: ReedSolomon, ReedSolomon.Recovers, encodeChunk, reconstructShards
-/
import StoragePlatform.Pipeline.Crypt

namespace StoragePlatform

def ecData : Nat := 10
def ecParity : Nat := 6
def ecTotal : Nat := ecData + ecParity

/-- An encoder of the package for 10 data and 6 parity shards.  Missing shards
are `none`. -/
structure ReedSolomon where
  /-- Cuts data into shards, with room for the parity. -/
  split : Bytes → Except PipelineErr (List Bytes)
  /-- Fills in the parity shards. -/
  encode : List Bytes → Except PipelineErr (List Bytes)
  /-- Fills in the missing shards. -/
  reconstruct : List (Option Bytes) → Except PipelineErr (List (Option Bytes))
  /-- The first bytes of the data shards, as many as asked for. -/
  join : List (Option Bytes) → Nat → Except PipelineErr Bytes

/-! ### What the package promises -/

/-- Ten data shards and six blank ones of one size. -/
structure EqualShards (size : Nat) (data blank : List Bytes) : Prop where
  positive : 0 < size
  dataCount : data.length = ecData
  blankCount : blank.length = ecParity
  dataSize : ∀ shard ∈ data, shard.length = size
  blankSize : ∀ shard ∈ blank, shard.length = size

/-- Splitting pads the data, encoding keeps the data shards, any ten of the sixteen shards
give back all of them, and joining undoes the splitting. -/
structure ReedSolomon.Recovers (rs : ReedSolomon) : Prop where
  split : ∀ {data : Bytes}, data ≠ [] → ∃ size shards blank pad,
    rs.split data = .ok (shards ++ blank) ∧ EqualShards size shards blank ∧
      shards.flatten = data ++ pad ∧ size ≤ data.length
  encode : ∀ {size : Nat} {data blank : List Bytes}, EqualShards size data blank →
    ∃ parity, parity.length = ecParity ∧ (∀ shard ∈ parity, shard.length = size) ∧
      rs.encode (data ++ blank) = .ok (data ++ parity)
  reconstruct : ∀ {size : Nat} {data blank shards : List Bytes}, EqualShards size data blank →
    rs.encode (data ++ blank) = .ok shards → ∀ present : List (Option Bytes),
      present.length = ecTotal →
      (∀ (i : Nat) (shard : Bytes), present[i]? = some (some shard) → shards[i]? = some shard) →
      ecData ≤ present.countP Option.isSome → rs.reconstruct present = .ok (shards.map some)
  join : ∀ {shards : List Bytes} {outSize : Nat}, shards.length = ecTotal →
    outSize ≤ (shards.take ecData).flatten.length →
      rs.join (shards.map some) outSize = .ok ((shards.take ecData).flatten.take outSize)

/-! ### The pipeline's functions -/

/-- `EncodeChunk`: an empty chunk is encoded as one zero byte. -/
def encodeChunk (rs : ReedSolomon) (chunk : Bytes) : Except PipelineErr (List Bytes) :=
  match rs.split (if chunk = [] then [0] else chunk) with
  | .error e => .error e
  | .ok shards => rs.encode shards

/-- `ReconstructChunk`: `chunkSize` trims the padding. -/
def reconstructChunk (rs : ReedSolomon) (shards : List (Option Bytes)) (chunkSize : Int) :
    Except PipelineErr Bytes :=
  if shards.length ≠ ecTotal then .error .shards
  else if chunkSize < 0 then .error .shards
  else if chunkSize = 0 then .ok []
  else if shards.countP Option.isSome < ecData then .error .shards
  else
    match rs.reconstruct shards with
    | .error e => .error e
    | .ok work => rs.join work chunkSize.toNat

/-- `ReconstructShards`: all sixteen shards. -/
def reconstructShards (rs : ReedSolomon) (shards : List (Option Bytes)) :
    Except PipelineErr (List (Option Bytes)) :=
  if shards.length ≠ ecTotal then .error .shards
  else if shards.countP Option.isSome < ecData then .error .shards
  else rs.reconstruct shards

end StoragePlatform
