/-
Module: StoragePlatform.Client.Transfer
Purpose: How the command line client cuts a file for upload and puts it together
  again (cmd/dsp/transfer.go).
Trusted boundary: human-reviewed spec; what the nodes answer, and in which order,
  is a parameter
Main exports: PutChunk, putChunks, PutChunk.manifest, DownloadFrag, Arrival, cmdGet
-/
import StoragePlatform.Pipeline.Erasure

namespace StoragePlatform

open Lib

/-! ### Upload -/

/-- A chunk of the upload with its shards: `chunkBuf`. -/
structure PutChunk where
  info : ChunkInfo
  shards : List Bytes
deriving DecidableEq, Repr

/-- The chunks `cmdPut` makes of the ciphertext. -/
def putChunks (rs : ReedSolomon) (sha256 : Bytes → Bytes) (cipher : Bytes) (chunkSize : Int) :
    Except PipelineErr (List PutChunk) :=
  splitChunks sha256 cipher chunkSize
    (fun info chunk chunks =>
      match encodeChunk rs chunk with
      | .error e => .error e
      | .ok shards => .ok (chunks ++ [{ info := info, shards := shards }]))
    []

/-- An entry of the manifest that `cmdPut` sends, hashes in hexadecimal. -/
structure PutFragment where
  shardIndex : Nat
  sha256 : Text
  sizeBytes : Nat
deriving DecidableEq, Repr

/-- The entries `cmdPut` writes for the shards of a chunk. -/
def PutChunk.manifest (sha256 : Bytes → Bytes) (ch : PutChunk) : List PutFragment :=
  ch.shards.mapIdx fun i shard =>
    { shardIndex := i, sha256 := encodeHex (sha256 shard), sizeBytes := shard.length }

/-! ### Download -/

inductive ClientErr where
  | noFragments
  | tooFewShards (got : Nat)
  | chunkHashMismatch
  | contentHashMismatch
  | pipeline (e : PipelineErr)
deriving DecidableEq, Repr

/-- What `fetchChunk` uses of a fragment once the node has answered. -/
structure DownloadFrag where
  shardIndex : Int
  sha256 : Text
deriving DecidableEq, Repr

/-- A fragment with the answer of its node: the bytes and a receipt, or nothing. -/
structure Arrival where
  frag : DownloadFrag
  reply : Option (Bytes × Text)
deriving DecidableEq, Repr

structure Hit where
  idx : Int
  data : Bytes
  receipt : Text
deriving DecidableEq, Repr

/-- One goroutine of `fetchChunk`: a wrong hash is dropped. -/
def Arrival.hit (sha256 : Bytes → Bytes) (a : Arrival) : Option Hit :=
  match a.reply, decodeHex a.frag.sha256 with
  | some (data, receipt), some want =>
    if sha256 data = want then some { idx := a.frag.shardIndex, data := data, receipt := receipt }
    else none
  | _, _ => none

/-- The variables of the collecting loop. -/
structure Collected where
  shards : List (Option Bytes)
  got : Nat
  receipts : List Text
deriving DecidableEq, Repr

def Collected.empty : Collected where
  shards := List.replicate ecTotal none
  got := 0
  receipts := []

/-- The index is a shard number, and that shard is still missing. -/
def Collected.wants (c : Collected) (idx : Int) : Bool :=
  decide (0 ≤ idx ∧ idx < ecTotal) && c.shards[idx.toNat]? == some none

def Collected.take (c : Collected) (h : Hit) : Collected where
  shards := c.shards.set h.idx.toNat (some h.data)
  got := c.got + 1
  receipts := if h.receipt = [] then c.receipts else c.receipts ++ [h.receipt]

/-- The loop over the hits, in the order they arrive; it stops at ten shards. -/
def collectHits : List Hit → Collected → Collected
  | [], c => c
  | h :: hits, c =>
    if c.wants h.idx then
      if ecData ≤ (c.take h).got then c.take h else collectHits hits (c.take h)
    else collectHits hits c

/-- `fetchChunk`, where `arrivals` lists the fragments in the order their nodes
answer. -/
def fetchChunk (rs : ReedSolomon) (sha256 : Bytes → Bytes) (chunkSHA : Text) (sizeBytes : Int)
    (arrivals : List Arrival) : Except ClientErr (Bytes × List Text) :=
  if arrivals = [] then .error .noFragments
  else
    let c := collectHits (arrivals.filterMap (Arrival.hit sha256)) .empty
    if c.got < ecData then .error (.tooFewShards c.got)
    else
      match reconstructChunk rs c.shards sizeBytes with
      | .error e => .error (.pipeline e)
      | .ok chunk =>
        if decodeHex chunkSHA = some (sha256 chunk) then .ok (chunk, c.receipts)
        else .error .chunkHashMismatch

/-- A chunk of the download plan with the answers to its requests. -/
structure GetChunk where
  seq : Nat
  sha256 : Text
  sizeBytes : Int
  arrivals : List Arrival
deriving DecidableEq, Repr

/-- The loop of `cmdGet`: the chunks in the order of the plan, and the receipts. -/
def fetchChunks (rs : ReedSolomon) (sha256 : Bytes → Bytes) :
    List GetChunk → Except ClientErr (Bytes × List Text)
  | [] => .ok ([], [])
  | ch :: rest =>
    match fetchChunk rs sha256 ch.sha256 ch.sizeBytes ch.arrivals with
    | .error e => .error e
    | .ok (chunk, receipts) =>
      match fetchChunks rs sha256 rest with
      | .error e => .error e
      | .ok (later, egress) => .ok (chunk ++ later, receipts ++ egress)

/-- `cmdGet` from the plan on, with the unlocked file key: nil or the error, and
the contents of the destination file.  The error of decoding `content_sha256` is
not looked at. -/
def cmdGet (gcm : Bytes → Aead) (rs : ReedSolomon) (sha256 : Bytes → Bytes)
    (contentSHA : Text) (chunks : List GetChunk) (fk noncePrefix : Bytes) :
    Except ClientErr Unit × Bytes :=
  match fetchChunks rs sha256 chunks with
  | .error e => (.error e, [])
  | .ok (cipher, _) =>
    if sha256 cipher ≠ (readHex contentSHA).1 then (.error .contentHashMismatch, [])
    else
      match decrypt gcm cipher fk noncePrefix with
      | (.error e, written) => (.error (.pipeline e), written)
      | (.ok (), written) => (.ok (), written)

end StoragePlatform
