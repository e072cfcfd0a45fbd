/-
Module: StoragePlatform.Pipeline.Crypt
Purpose: Streaming encryption, decryption and chunking of the client
  (internal/pipeline/pipeline.go).
Trusted boundary: human-reviewed spec; AES-GCM, SHA-256 and the random source are
  parameters, and the readers and writers do not fail
Main exports: Aead, readFull, segmentNonce, aad, encrypt, decrypt, splitChunks
-/
import StoragePlatform.Lib.Bytes
import StoragePlatform.Store.Schema

namespace StoragePlatform

open Lib

def fileKeySize : Nat := 32
def segmentSize : Nat := 64 * 1024
def gcmTagSize : Nat := 16
def noncePrefixLen : Nat := 4
def defaultChunk : Nat := 16 * 1024 * 1024

inductive PipelineErr where
  /-- `ErrAuth`. -/
  | auth
  /-- `ErrKey`. -/
  | key
  /-- `ErrTruncated`. -/
  | truncated
  /-- `ErrShards`. -/
  | shards
  /-- The random source fails. -/
  | random
  /-- The Reed-Solomon package reports an error. -/
  | codec
deriving DecidableEq, Repr

/-- `cipher.AEAD` under one key: `Seal` and `Open`. -/
structure Aead where
  sealBytes : (nonce plain aad : Bytes) → Bytes
  openBytes : (nonce sealed aad : Bytes) → Option Bytes

/-! ### Reading -/

inductive ReadErr where
  | eof | unexpectedEOF
deriving DecidableEq, Repr

/-- `io.ReadFull` from a byte string: what was read, the error, what is left. -/
def readFull (size : Nat) (src : Bytes) : Bytes × Option ReadErr × Bytes :=
  let got := src.take size
  if got.length = size then (got, none, src.drop size)
  else if got = [] then (got, some .eof, src.drop size)
  else (got, some .unexpectedEOF, src.drop size)

/-- A read without an error consumes. -/
theorem length_lt_of_readFull {size : Nat} (positive : 0 < size) {src got rest : Bytes}
    (full : readFull size src = (got, none, rest)) : rest.length < src.length := by
  simp only [readFull] at full
  split at full
  · rename_i whole
    rw [List.length_take] at whole
    cases full
    rw [List.length_drop]
    omega
  · split at full <;> cases full

/-! ### Segments -/

/-- The nonce of a segment: four bytes of the file and the sequence number. -/
def segmentNonce (noncePrefix : Bytes) (seq : UInt64) : Bytes :=
  (noncePrefix ++ List.replicate 12 0).take 4 ++ bytesBE 8 seq.toNat

/-- Sequence number and a flag that says whether another segment follows. -/
def aad (seq : UInt64) (more : Bool) : Bytes :=
  bytesBE 8 seq.toNat ++ [if more then 1 else 0]

/-- The variables of the loop in `Encrypt`; `written` is what went to the writer. -/
structure Sealing where
  written : Bytes
  plainSize : Nat
  cipherSize : Nat
  seq : UInt64
  pending : Option Bytes

def writeSeg (aead : Aead) (noncePrefix : Bytes) (seq : UInt64) (plain : Bytes) (more : Bool)
    (s : Sealing) : Sealing :=
  let sealed := aead.sealBytes (segmentNonce noncePrefix seq) plain (aad seq more)
  { s with written := s.written ++ sealed, cipherSize := s.cipherSize + sealed.length }

/-- A block was read: the one before it is not the last. -/
def Sealing.next (aead : Aead) (noncePrefix : Bytes) (s : Sealing) (got : Bytes) : Sealing :=
  if got = [] then s
  else
    let flushed := match s.pending with
      | none => s
      | some plain => { writeSeg aead noncePrefix s.seq plain true s with seq := s.seq + 1 }
    { flushed with pending := some got, plainSize := flushed.plainSize + got.length }

/-- The end of the plaintext: an empty file is one empty segment. -/
def Sealing.finish (aead : Aead) (noncePrefix : Bytes) (s : Sealing) : Sealing :=
  match s.pending with
  | none => writeSeg aead noncePrefix 0 [] false s
  | some plain => writeSeg aead noncePrefix s.seq plain false s

def encryptLoop (aead : Aead) (noncePrefix : Bytes) (s : Sealing) (src : Bytes) : Sealing :=
  match _read : readFull segmentSize src with
  | (got, none, rest) => encryptLoop aead noncePrefix (s.next aead noncePrefix got) rest
  | (got, some _, _) => (s.next aead noncePrefix got).finish aead noncePrefix
termination_by src.length
decreasing_by exact length_lt_of_readFull (by decide) _read

/-- What `Encrypt` returns, with the ciphertext it wrote. -/
structure Encrypted where
  noncePrefix : Bytes
  plainSize : Nat
  cipherSize : Nat
  contentSHA : Bytes
  written : Bytes

def encrypt (gcm : Bytes → Aead) (sha256 : Bytes → Bytes) (rand : Option Bytes) (src fk : Bytes) :
    Except PipelineErr Encrypted :=
  if fk.length ≠ fileKeySize then .error .key
  else
    match rand with
    | none => .error .random
    | some noncePrefix =>
      let done := encryptLoop (gcm fk) noncePrefix
        { written := noncePrefix, plainSize := 0, cipherSize := noncePrefixLen, seq := 0,
          pending := none } src
      .ok
        { noncePrefix := noncePrefix, plainSize := done.plainSize,
          cipherSize := done.cipherSize, contentSHA := sha256 done.written,
          written := done.written }

/-! ### Opening -/

/-- `openSegment` up to the write of the plaintext. -/
def openSegment (aead : Aead) (noncePrefix : Bytes) (seq : UInt64) (sealed : Bytes) (more : Bool) :
    Except PipelineErr Bytes :=
  if sealed.length < gcmTagSize then .error .truncated
  else
    match aead.openBytes (segmentNonce noncePrefix seq) sealed (aad seq more) with
    | none => .error .auth
    | some plain => .ok plain

/-- The last segment: the result of the call and all that was written. -/
def openLast (aead : Aead) (noncePrefix : Bytes) (seq : UInt64) (sealed written : Bytes) :
    Except PipelineErr Unit × Bytes :=
  match openSegment aead noncePrefix seq sealed false with
  | .error e => (.error e, written)
  | .ok plain => (.ok (), written ++ plain)

/-- The loop of `Decrypt`.  A segment is opened when it is known whether another
one follows. -/
def decryptLoop (aead : Aead) (noncePrefix : Bytes) (seq : UInt64) (pending : Option Bytes)
    (written src : Bytes) : Except PipelineErr Unit × Bytes :=
  match _read : readFull (segmentSize + gcmTagSize) src with
  | (got, none, rest) =>
    match pending with
    | none => decryptLoop aead noncePrefix seq (some got) written rest
    | some sealed =>
      match openSegment aead noncePrefix seq sealed true with
      | .error e => (.error e, written)
      | .ok plain =>
        decryptLoop aead noncePrefix (seq + 1) (some got) (written ++ plain) rest
  | (got, some .unexpectedEOF, _) =>
    match pending with
    | none => openLast aead noncePrefix seq got written
    | some sealed =>
      match openSegment aead noncePrefix seq sealed true with
      | .error e => (.error e, written)
      | .ok plain => openLast aead noncePrefix (seq + 1) got (written ++ plain)
  | (_, some .eof, _) =>
    match pending with
    | none => (.error .truncated, written)
    | some sealed => openLast aead noncePrefix seq sealed written
termination_by src.length
decreasing_by all_goals exact length_lt_of_readFull (by decide) _read

/-- `Decrypt`: the error or nil, and the bytes written to `dst`. -/
def decrypt (gcm : Bytes → Aead) (src fk noncePrefix : Bytes) : Except PipelineErr Unit × Bytes :=
  if fk.length ≠ fileKeySize ∨ noncePrefix.length ≠ noncePrefixLen then (.error .key, [])
  else
    match readFull noncePrefixLen src with
    | (_, some _, _) => (.error .truncated, [])
    | (gotPrefix, none, rest) =>
      if gotPrefix ≠ noncePrefix then (.error .auth, [])
      else decryptLoop (gcm fk) noncePrefix 0 none [] rest

/-! ### Chunks -/

structure ChunkInfo where
  seq : Nat
  sizeBytes : Nat
  sha256 : Bytes
deriving DecidableEq, Repr

variable {σ : Type}

/-- The loop of `SplitChunks`; `emit` is the callback, with the state it keeps. -/
def splitLoop (sha256 : Bytes → Bytes) (size : Nat) (positive : 0 < size)
    (emit : ChunkInfo → Bytes → σ → Except PipelineErr σ) (seq : Nat) (s : σ) (r : Bytes) :
    Except PipelineErr σ :=
  match _read : readFull size r with
  | (got, none, rest) =>
    match emit { seq := seq, sizeBytes := got.length, sha256 := sha256 got } got s with
    | .error e => .error e
    | .ok s' => splitLoop sha256 size positive emit (seq + 1) s' rest
  | (got, some .unexpectedEOF, _) =>
    emit { seq := seq, sizeBytes := got.length, sha256 := sha256 got } got s
  | (_, some .eof, _) =>
    if seq = 0 then emit { seq := 0, sizeBytes := 0, sha256 := sha256 [] } [] s
    else .ok s
termination_by r.length
decreasing_by exact length_lt_of_readFull positive _read

/-- The size `SplitChunks` works with. -/
def chunkSizeOf (chunkSize : Int) : Nat :=
  if chunkSize ≤ 0 then defaultChunk else chunkSize.toNat

theorem chunkSizeOf_pos (chunkSize : Int) : 0 < chunkSizeOf chunkSize := by
  rw [chunkSizeOf]
  split
  · decide
  · omega

def splitChunks (sha256 : Bytes → Bytes) (r : Bytes) (chunkSize : Int)
    (emit : ChunkInfo → Bytes → σ → Except PipelineErr σ) (s : σ) : Except PipelineErr σ :=
  splitLoop sha256 (chunkSizeOf chunkSize) (chunkSizeOf_pos chunkSize) emit 0 s r

end StoragePlatform
