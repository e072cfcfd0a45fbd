/-
Module: StoragePlatform.Metadata.Manifest
Purpose: decodeManifest of the metadata service (internal/metadata/http.go): from
  the JSON body of an upload request to the manifest the store takes.
Trusted boundary: human-reviewed spec; json.Unmarshal has filled the JSON record,
  and uuid.Parse is a parameter
Main exports: JsonManifest, decodeManifest, JsonChunk.Gives, decodeManifest_inv
-/
import StoragePlatform.Store.Uploads
import StoragePlatform.Lib.Bytes

namespace StoragePlatform

open Lib

/-! ### The body

`int` and `int64` of the source are both 64 bits wide.  A number outside this
range fails in json.Unmarshal.
-/

structure JsonFragment where
  shardIndex : Int64
  sha256 : Text
  sizeBytes : Int64
deriving DecidableEq

structure JsonChunk where
  seq : Int64
  sha256 : Text
  sizeBytes : Int64
  fragments : List JsonFragment
deriving DecidableEq

structure JsonManifest where
  bucketId : Text
  path : Text
  sizeBytes : Int64
  contentSha256 : Text
  encryptionMeta : Bytes
  chunkSize : Int64
  ecData : Int64
  ecParity : Int64
  chunks : List JsonChunk
deriving DecidableEq

/-! ### Decoding

Every failure is the same answer to the client, so they are not told apart.
-/

/-- The shard index is narrowed to 16 bits without a check. -/
def decodeFragment (fr : JsonFragment) : Option ManifestFragment := do
  let sum ← decodeHex fr.sha256
  some
    { shardIndex := fr.shardIndex.toInt16.toInt
      sizeBytes := fr.sizeBytes.toInt
      sha256 := sum }

def decodeChunk (ch : JsonChunk) : Option ManifestChunk := do
  let sum ← decodeHex ch.sha256
  let fragments ← ch.fragments.mapM decodeFragment
  some
    { seq := ch.seq.toInt
      sizeBytes := ch.sizeBytes.toInt
      sha256 := sum
      fragments := fragments }

/-- `decodeManifest`. -/
def decodeManifest (parseUuid : Text → Option Uuid) (jm : JsonManifest) :
    Option UploadManifest := do
  let bucketId ← parseUuid jm.bucketId
  let sum ← decodeHex jm.contentSha256
  let chunks ← jm.chunks.mapM decodeChunk
  some
    { bucketId := bucketId
      path := jm.path
      sizeBytes := jm.sizeBytes.toInt
      contentSha256 := sum
      encryptionMeta := jm.encryptionMeta
      chunkSize := jm.chunkSize.toInt
      ecData := jm.ecData.toInt16.toInt
      ecParity := jm.ecParity.toInt16.toInt
      chunks := chunks }

/-! ### What decoding keeps -/

/-- The numbers of a fragment as they reach the store: shard index and size. -/
def JsonFragment.numbers (jf : JsonFragment) : Int × Int :=
  (jf.shardIndex.toInt16.toInt, jf.sizeBytes.toInt)

def ManifestFragment.numbers (fr : ManifestFragment) : Int × Int := (fr.shardIndex, fr.sizeBytes)

/-- The numbers of a decoded chunk, fragment by fragment. -/
def JsonChunk.Gives (jc : JsonChunk) (ch : ManifestChunk) : Prop :=
  ch.seq = jc.seq.toInt ∧ ch.sizeBytes = jc.sizeBytes.toInt ∧
    ch.fragments.map ManifestFragment.numbers = jc.fragments.map JsonFragment.numbers

theorem decodeFragment_numbers (jf : JsonFragment) (fr : ManifestFragment)
    (decoded : decodeFragment jf = some fr) : fr.numbers = jf.numbers := by
  simp only [decodeFragment, bind, Option.bind_eq_some_iff] at decoded
  obtain ⟨sum, -, made⟩ := decoded
  cases made
  rfl

theorem decodeChunk_gives (jc : JsonChunk) (ch : ManifestChunk)
    (decoded : decodeChunk jc = some ch) : jc.Gives ch := by
  simp only [decodeChunk, bind, Option.bind_eq_some_iff] at decoded
  obtain ⟨sum, -, fragments, each, made⟩ := decoded
  cases made
  exact ⟨rfl, rfl, map_of_mapM decodeFragment_numbers each⟩

theorem decodeManifest_inv {parseUuid : Text → Option Uuid} {jm : JsonManifest}
    {m : UploadManifest} (decoded : decodeManifest parseUuid jm = some m) :
    m.sizeBytes = jm.sizeBytes.toInt ∧ m.ecData = jm.ecData.toInt16.toInt ∧
      List.Forall₂ JsonChunk.Gives jm.chunks m.chunks := by
  simp only [decodeManifest, bind, Option.bind_eq_some_iff] at decoded
  obtain ⟨bucketId, -, sum, -, chunks, each, made⟩ := decoded
  cases made
  exact ⟨rfl, rfl, forall₂_of_mapM decodeChunk_gives each⟩

end StoragePlatform
