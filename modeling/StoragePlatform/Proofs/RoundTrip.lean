/-
Module: StoragePlatform.Proofs.RoundTrip
Purpose: A file that is encrypted, chunked and encoded comes back from any ten
  good shards of each chunk.
Trusted boundary: none
Main exports: InvertingAead, Encoded, Collected.Of, Delivered, cmdGet_putChunks
-/
import StoragePlatform.Client.Transfer
import StoragePlatform.Proofs.Codec
import StoragePlatform.Proofs.Stream

namespace StoragePlatform

open Lib List

variable {data chunk shard noncePrefix : Bytes} {sha256 : Bytes → Bytes} {rs : ReedSolomon}
variable {pieces shards : List Bytes} {present : List (Option Bytes)} {c : Collected} {h : Hit}
variable {i size : Nat} {pc : PutChunk} {a : Arrival} {g : GetChunk} {chunks : List PutChunk}

/-! ### What AES-GCM promises -/

/-- `Open` inverts `Seal`, which adds a tag. -/
structure InvertingAead (aead : Aead) : Prop where
  tag : ∀ nonce plain aad, (aead.sealBytes nonce plain aad).length = plain.length + gcmTagSize
  opens : ∀ nonce plain aad,
    aead.openBytes nonce (aead.sealBytes nonce plain aad) aad = some plain

/-! ### Opening what was sealed -/

theorem openAll_sealAll {aead : Aead} (inverts : InvertingAead aead) (seq : UInt64)
    {parts : List Bytes} (some_parts : parts ≠ []) :
    openAll aead noncePrefix seq (sealAll aead noncePrefix seq parts) =
      (.ok (), parts.flatten) := by
  have opened : ∀ seq plain more, openSegment aead noncePrefix seq
      ((sealCall noncePrefix seq plain more).sealed aead) more = .ok plain := by
    intro seq plain more
    have long : ((sealCall noncePrefix seq plain more).sealed aead).length =
        plain.length + gcmTagSize := inverts.tag ..
    have recovered : aead.openBytes (segmentNonce noncePrefix seq)
        ((sealCall noncePrefix seq plain more).sealed aead) (aad seq more) = some plain :=
      inverts.opens ..
    rw [openSegment, if_neg (by omega), recovered]
  induction parts generalizing seq with
  | nil => exact absurd rfl some_parts
  | cons plain rest ih =>
    cases rest with
    | nil =>
      have last := opened seq plain false
      simp only [sealAll_cons, sealAll_nil, openAll, openLast, isEmpty_nil, Bool.not_true]
      rw [last]
      simp
    | cons next rest =>
      have later := ih (seq + 1) (by simp)
      rw [sealAll_cons] at later ⊢
      rw [sealAll_cons, openAll_cons_cons, isEmpty_cons, Bool.not_false, opened, later]
      simp

theorem decrypt_encrypt {gcm : Bytes → Aead} {plain fk : Bytes} {e : Encrypted}
    (inverts : InvertingAead (gcm fk)) (short : noncePrefix.length = noncePrefixLen)
    (sealed : encrypt gcm sha256 (some noncePrefix) plain fk = .ok e) :
    decrypt gcm e.written fk noncePrefix = (.ok (), plain) := by
  obtain ⟨key, -, -, written⟩ := encrypt_ok sealed
  have framed := @segments_sealed_framed (gcm fk) noncePrefix plain fun call _ =>
    inverts.tag call.nonce call.plain call.aad
  rcases @decrypt_eq noncePrefix gcm e.written fk key short with ⟨rest, cut, run⟩ | ⟨other, -⟩
  · have same : rest = (sealAll (gcm fk) noncePrefix 0 (segments plain)).flatten :=
      append_cancel_left (cut.symm.trans written)
    rw [run, same, framed.blocks_eq (by decide), openAll_sealAll inverts 0 (segments_ne_nil plain),
      segments_flatten]
  · exact absurd ⟨_, written.symm⟩ other

/-! ### Shards -/

/-- The shards of a chunk: any ten of them give back all, and these the chunk. -/
structure Encoded (rs : ReedSolomon) (chunk : Bytes) (shards : List Bytes) : Prop where
  count : shards.length = ecTotal
  sizes : ∃ size, 0 < size ∧ size ≤ chunk.length + 1 ∧ ∀ shard ∈ shards, shard.length = size
  joined : rs.join (shards.map some) chunk.length = .ok chunk
  recovered : ∀ present : List (Option Bytes), present.length = ecTotal →
    (∀ (i : Nat) (shard : Bytes), present[i]? = some (some shard) → shards[i]? = some shard) →
    ecData ≤ present.countP Option.isSome → rs.reconstruct present = .ok (shards.map some)

theorem encodeChunk_ok (recovers : rs.Recovers) (chunk : Bytes) :
    ∃ shards, encodeChunk rs chunk = .ok shards ∧ Encoded rs chunk shards := by
  have some_data : (if chunk = [] then [0] else chunk) ≠ [] := by
    split
    · simp
    · assumption
  obtain ⟨size, data, blank, pad, split, equal, joined, small⟩ := recovers.split some_data
  obtain ⟨parity, parityCount, paritySize, encoded⟩ := recovers.encode equal
  have count : (data ++ parity).length = ecTotal := by
    rw [length_append, equal.dataCount, parityCount]
    rfl
  refine ⟨data ++ parity, ?_, count, ?_, ?_, recovers.reconstruct equal encoded⟩
  · rw [encodeChunk, split]
    exact encoded
  · have upto : size ≤ chunk.length + 1 := by
      split at small
      · rename_i empty
        simpa [empty] using small
      · omega
    refine ⟨size, equal.positive, upto, fun shard member => ?_⟩
    rcases mem_append.mp member with inData | inParity
    · exact equal.dataSize shard inData
    · exact paritySize shard inParity
  · obtain ⟨rest, bytes⟩ : ∃ rest, ((data ++ parity).take ecData).flatten = chunk ++ rest := by
      rw [take_append_of_le_length equal.dataCount.ge, take_of_length_le equal.dataCount.le, joined]
      by_cases empty : chunk = []
      · exact ⟨[0] ++ pad, by rw [if_pos empty, empty]; rfl⟩
      · exact ⟨pad, by rw [if_neg empty]⟩
    rw [recovers.join count (by rw [bytes, length_append]; omega), bytes, take_left]

/-- Ten good shards give the chunk back, without the padding. -/
theorem reconstructChunk_ok (encoded : Encoded rs chunk shards) (count : present.length = ecTotal)
    (sound : ∀ (i : Nat) (shard : Bytes), present[i]? = some (some shard) →
      shards[i]? = some shard) (enough : ecData ≤ present.countP Option.isSome) :
    reconstructChunk rs present chunk.length = .ok chunk := by
  rw [reconstructChunk, if_neg (not_not.mpr count), if_neg (by omega)]
  by_cases empty : chunk = []
  · subst empty
    simp
  · have positive := length_pos_of_ne_nil empty
    rw [if_neg (by omega), if_neg (by omega), encoded.recovered present count sound enough]
    exact encoded.joined

/-! ### Collecting hits -/

/-- The collected shards are shards of the chunk, and `got` counts them. -/
structure Collected.Of (shards : List Bytes) (c : Collected) : Prop where
  length : c.shards.length = ecTotal
  count : c.got = c.shards.countP Option.isSome
  sound : ∀ (i : Nat) (shard : Bytes), c.shards[i]? = some (some shard) →
    shards[i]? = some shard

theorem Collected.Of.empty (shards : List Bytes) : Collected.Of shards .empty := by
  refine ⟨by simp [Collected.empty], by decide, fun i shard present => ?_⟩
  simp [Collected.empty, getElem?_replicate] at present

theorem Collected.wants_iff {idx : Int} :
    c.wants idx = true ↔ (0 ≤ idx ∧ idx < ecTotal) ∧ c.shards[idx.toNat]? = some none := by
  simp [Collected.wants]

theorem Collected.Of.take (of : Collected.Of shards c) (wanted : c.wants h.idx = true)
    (good : shards[h.idx.toNat]? = some h.data) : Collected.Of shards (c.take h) := by
  obtain ⟨range, missing⟩ := Collected.wants_iff.mp wanted
  obtain ⟨inside, value⟩ := List.getElem?_eq_some_iff.mp missing
  refine ⟨by rw [Collected.take, length_set, of.length], ?_, fun i shard present => ?_⟩
  · rw [Collected.take, countP_set inside, of.count, value]
    simp
  · rw [Collected.take, getElem?_set] at present
    split at present
    · rename_i same
      subst same
      cases present
      exact good
    · exact of.sound i shard present

/-- A shard that is there stays there. -/
theorem Collected.take_keeps (present : c.shards[i]? = some (some shard)) :
    ∃ shard', (c.take h).shards[i]? = some (some shard') := by
  rw [Collected.take, getElem?_set]
  split
  · rename_i same
    subst same
    obtain ⟨inside, -⟩ := List.getElem?_eq_some_iff.mp present
    exact ⟨h.data, by rw [if_pos inside]⟩
  · exact ⟨shard, present⟩

section Collect

variable {hits : List Hit}

theorem collectHits_of
    (good : ∀ h ∈ hits, 0 ≤ h.idx → h.idx < ecTotal → shards[h.idx.toNat]? = some h.data)
    {c : Collected} (of : Collected.Of shards c) : Collected.Of shards (collectHits hits c) := by
  induction hits generalizing c with
  | nil => exact of
  | cons h hits ih =>
    have later := fun h' (member : h' ∈ hits) => good h' (mem_cons_of_mem _ member)
    rw [collectHits]
    split
    · rename_i wanted
      have range := (Collected.wants_iff.mp wanted).1
      have taken := of.take wanted (good h mem_cons_self range.1 range.2)
      split
      · exact taken
      · exact ih later taken
    · exact ih later of

theorem collectHits_keeps (present : c.shards[i]? = some (some shard)) :
    ∃ shard', (collectHits hits c).shards[i]? = some (some shard') := by
  induction hits generalizing c shard with
  | nil => exact ⟨shard, present⟩
  | cons h hits ih =>
    rw [collectHits]
    split
    · obtain ⟨shard', kept⟩ := Collected.take_keeps present
      split
      · exact ⟨shard', kept⟩
      · exact ih kept
    · exact ih present

/-- The loop ends with ten shards, or with every shard that arrived. -/
theorem collectHits_all {c : Collected} (length : c.shards.length = ecTotal) :
    ecData ≤ (collectHits hits c).got ∨ ∀ h ∈ hits, 0 ≤ h.idx → h.idx < ecTotal →
      ∃ shard, (collectHits hits c).shards[h.idx.toNat]? = some (some shard) := by
  induction hits generalizing c with
  | nil => exact .inr (by simp)
  | cons h hits ih =>
    rw [collectHits]
    split
    · rename_i wanted
      obtain ⟨-, missing⟩ := Collected.wants_iff.mp wanted
      obtain ⟨inside, -⟩ := List.getElem?_eq_some_iff.mp missing
      split
      · rename_i enough
        exact .inl enough
      · have taken : (c.take h).shards[h.idx.toNat]? = some (some h.data) := by
          rw [Collected.take, getElem?_set_self inside]
        refine (ih (by rw [Collected.take, length_set, length])).imp_right fun all => ?_
        intro h' member
        rcases mem_cons.mp member with rfl | later
        · exact fun _ _ => collectHits_keeps taken
        · exact all h' later
    · rename_i unwanted
      refine (ih length).imp_right fun all => ?_
      intro h' member low high
      rcases mem_cons.mp member with rfl | later
      · -- an index in range that is not wanted is there already
        have inside : h'.idx.toNat < c.shards.length := by
          rw [length]
          omega
        obtain ⟨slot, found⟩ : ∃ slot, c.shards[h'.idx.toNat]? = some slot :=
          ⟨_, getElem?_eq_getElem inside⟩
        cases slot with
        | none => exact absurd (Collected.wants_iff.mpr ⟨⟨low, high⟩, found⟩) unwanted
        | some shard => exact collectHits_keeps found
      · exact all h' later low high

end Collect

theorem length_le_countP {indices : List Nat} (different : indices.Nodup)
    (filled : ∀ i ∈ indices, ∃ shard, present[i]? = some (some shard)) :
    indices.length ≤ present.countP Option.isSome := by
  rw [← length_presentIndices]
  exact (different.subperm fun i member => mem_presentIndices.mpr (filled i member)).length_le

/-! ### One chunk -/

/-- The download of a chunk the claimed way: the plan repeats the manifest, and
shards with ten different indices arrive with the bytes the manifest names.
Anything else may be missing, corrupt, repeated or out of range; no other bytes
that arrive have the hash of a shard. -/
structure Delivered (sha256 : Bytes → Bytes) (pc : PutChunk) (g : GetChunk) : Prop where
  seq : g.seq = pc.info.seq
  chunkHash : g.sha256 = encodeHex pc.info.sha256
  size : g.sizeBytes = pc.info.sizeBytes
  manifest : ∀ a ∈ g.arrivals, 0 ≤ a.frag.shardIndex → a.frag.shardIndex < ecTotal →
    ∃ entry ∈ pc.manifest sha256,
      (entry.shardIndex : Int) = a.frag.shardIndex ∧ entry.sha256 = a.frag.sha256
  collisionFree : ∀ a ∈ g.arrivals, ∀ data receipt, a.reply = some (data, receipt) →
    ∀ shard ∈ pc.shards, sha256 data = sha256 shard → data = shard
  enough : ∃ indices : List Nat, indices.Nodup ∧ ecData ≤ indices.length ∧
    ∀ i ∈ indices, ∃ a ∈ g.arrivals, a.frag.shardIndex = i ∧ ∃ data receipt shard,
      a.reply = some (data, receipt) ∧ pc.shards[i]? = some shard ∧ sha256 data = sha256 shard

theorem PutChunk.mem_manifest {entry : PutFragment} (member : entry ∈ pc.manifest sha256) :
    ∃ shard, pc.shards[entry.shardIndex]? = some shard ∧
      entry.sha256 = encodeHex (sha256 shard) := by
  obtain ⟨i, inside, rfl⟩ := mem_mapIdx.mp member
  exact ⟨pc.shards[i], getElem?_eq_getElem inside, rfl⟩

theorem Arrival.hit_inv (accepted : a.hit sha256 = some h) :
    a.reply = some (h.data, h.receipt) ∧ h.idx = a.frag.shardIndex ∧
      decodeHex a.frag.sha256 = some (sha256 h.data) := by
  simp only [Arrival.hit] at accepted
  split at accepted
  · rename_i data receipt want replied decoded
    split at accepted <;> cases accepted
    rename_i same
    exact ⟨replied, rfl, by rw [decoded, same]⟩
  · cases accepted

/-- A hit in range is the shard of that index. -/
theorem Delivered.good (delivered : Delivered sha256 pc g)
    (member : h ∈ g.arrivals.filterMap (Arrival.hit sha256)) (low : 0 ≤ h.idx)
    (high : h.idx < ecTotal) : pc.shards[h.idx.toNat]? = some h.data := by
  obtain ⟨a, arrived, accepted⟩ := mem_filterMap.mp member
  obtain ⟨replied, index, decoded⟩ := Arrival.hit_inv accepted
  obtain ⟨entry, listed, sameIndex, sameHash⟩ :=
    delivered.manifest a arrived (index ▸ low) (index ▸ high)
  obtain ⟨shard, found, hash⟩ := PutChunk.mem_manifest listed
  rw [← sameHash, hash, decodeHex_encodeHex] at decoded
  have same : h.data = shard := delivered.collisionFree a arrived _ _ replied shard
    (mem_of_getElem? found) (Option.some.inj decoded).symm
  have position : h.idx.toNat = entry.shardIndex := by omega
  rw [position, same]
  exact found

theorem Delivered.arrives (delivered : Delivered sha256 pc g) (count : pc.shards.length = ecTotal)
    (arrived : a ∈ g.arrivals) (index : a.frag.shardIndex = i) {receipt : Text}
    (replied : a.reply = some (data, receipt)) (found : pc.shards[i]? = some shard)
    (hash : sha256 data = sha256 shard) :
    ∃ h ∈ g.arrivals.filterMap (Arrival.hit sha256),
      h.idx = i ∧ 0 ≤ h.idx ∧ h.idx < ecTotal := by
  obtain ⟨inside, -⟩ := List.getElem?_eq_some_iff.mp found
  have high : a.frag.shardIndex < ecTotal := by
    rw [index]
    omega
  obtain ⟨entry, listed, sameIndex, sameHash⟩ :=
    delivered.manifest a arrived (by rw [index]; omega) high
  obtain ⟨shard', found', entryHash⟩ := PutChunk.mem_manifest listed
  have position : entry.shardIndex = i := by omega
  rw [position, found] at found'
  cases found'
  have decoded : decodeHex a.frag.sha256 = some (sha256 shard) := by
    rw [← sameHash, entryHash, decodeHex_encodeHex]
  refine ⟨{ idx := a.frag.shardIndex, data := data, receipt := receipt },
    mem_filterMap.mpr ⟨a, arrived, ?_⟩, index, by dsimp only; omega, high⟩
  simp only [Arrival.hit, replied, decoded, hash, if_true]

theorem fetchChunk_ok (encoded : Encoded rs chunk pc.shards)
    (size : pc.info.sizeBytes = chunk.length) (hash : pc.info.sha256 = sha256 chunk)
    (delivered : Delivered sha256 pc g) :
    ∃ receipts, fetchChunk rs sha256 g.sha256 g.sizeBytes g.arrivals = .ok (chunk, receipts) := by
  obtain ⟨indices, different, ten, arrive⟩ := delivered.enough
  have some_arrivals : g.arrivals ≠ [] := by
    have some_index : indices ≠ [] := ne_nil_of_length_pos (by rw [ecData] at ten; omega)
    obtain ⟨i, member⟩ := exists_mem_of_ne_nil _ some_index
    obtain ⟨a, arrived, -⟩ := arrive i member
    exact ne_nil_of_mem arrived
  have of := @collectHits_of pc.shards (g.arrivals.filterMap (Arrival.hit sha256))
    (fun h member low high => delivered.good member low high) _ (Collected.Of.empty pc.shards)
  have enough : ecData ≤ (collectHits (g.arrivals.filterMap (Arrival.hit sha256)) .empty).got := by
    rcases @collectHits_all (g.arrivals.filterMap (Arrival.hit sha256)) _
      (Collected.Of.empty pc.shards).length with full | all
    · exact full
    · rw [of.count]
      refine ten.trans (length_le_countP different fun i member => ?_)
      obtain ⟨a, arrived, index, data, receipt, shard, replied, found, same⟩ := arrive i member
      obtain ⟨h, isHit, idx, low, high⟩ :=
        delivered.arrives encoded.count arrived index replied found same
      have slot := all h isHit low high
      rwa [idx, Int.toNat_natCast] at slot
  have rebuilt := reconstructChunk_ok encoded of.length of.sound (of.count ▸ enough)
  simp only [fetchChunk]
  rw [if_neg some_arrivals, if_neg (by omega), delivered.size, size, rebuilt]
  simp only [delivered.chunkHash, hash, decodeHex_encodeHex, if_true]
  exact ⟨_, rfl⟩

/-! ### The whole file -/

/-- The upload's entry for a piece of the ciphertext. -/
structure PutOf (rs : ReedSolomon) (sha256 : Bytes → Bytes) (chunk : Bytes) (pc : PutChunk) :
    Prop where
  size : pc.info.sizeBytes = chunk.length
  hash : pc.info.sha256 = sha256 chunk
  encoded : Encoded rs chunk pc.shards

theorem splitLoop_put (recovers : rs.Recovers) (positive : 0 < size) (seq : Nat)
    (chunks : List PutChunk) (cipher : Bytes) (started : seq ≠ 0 ∨ cipher ≠ []) :
    ∃ added, splitLoop sha256 size positive
        (fun info chunk chunks =>
          match encodeChunk rs chunk with
          | .error e => .error e
          | .ok shards => .ok (chunks ++ [{ info := info, shards := shards }]))
        seq chunks cipher = .ok (chunks ++ added) ∧
      List.Forall₂ (PutOf rs sha256) (blocks size cipher) added ∧
      added.map (fun pc => pc.info.seq) = List.range' seq added.length := by
  induction length : cipher.length using Nat.strong_induction_on
    generalizing seq chunks cipher with
  | _ n ih =>
  rw [splitLoop]
  split
  · rename_i got rest read
    have shorter := length_lt_of_readFull positive read
    obtain ⟨shards, encode, encoded⟩ := encodeChunk_ok recovers got
    obtain ⟨added, run, puts, numbers⟩ := ih rest.length (length ▸ shorter) (seq + 1)
      (chunks ++ [{ info := { seq := seq, sizeBytes := got.length, sha256 := sha256 got },
                    shards := shards }]) rest (.inl (Nat.succ_ne_zero seq)) rfl
    rw [readFull_full positive read]
    simp only [encode, run]
    refine ⟨_ :: added, by rw [append_assoc]; rfl, .cons ⟨rfl, rfl, encoded⟩ puts, ?_⟩
    rw [map_cons, numbers]
    rfl
  · rename_i got rest read
    obtain ⟨shards, encode, encoded⟩ := encodeChunk_ok recovers got
    rw [(readFull_short positive read).1]
    simp only [encode]
    exact ⟨[_], rfl, .cons ⟨rfl, rfl, encoded⟩ .nil, rfl⟩
  · rename_i got rest read
    obtain ⟨rfl, -⟩ := readFull_eof positive read
    rw [if_neg (started.resolve_right (by simp)), blocks_nil]
    exact ⟨[], by rw [append_nil], .nil, rfl⟩

theorem fetchChunks_ok {gets : List GetChunk} (puts : List.Forall₂ (PutOf rs sha256) pieces chunks)
    (delivered : List.Forall₂ (Delivered sha256) chunks gets) :
    ∃ egress, fetchChunks rs sha256 gets = .ok (pieces.flatten, egress) := by
  induction puts generalizing gets with
  | nil =>
    cases delivered
    exact ⟨[], rfl⟩
  | cons put _ ih =>
    cases delivered with
    | cons one more =>
      obtain ⟨receipts, fetched⟩ := fetchChunk_ok put.encoded put.size put.hash one
      obtain ⟨egress, rest⟩ := ih more
      simp only [fetchChunks, fetched, rest, flatten_cons]
      exact ⟨_, rfl⟩

/-- Encryption, chunking and encoding succeed, and from any delivery of the chunks
`cmdGet` writes the plaintext. -/
theorem cmdGet_putChunks {gcm : Bytes → Aead} {rs : ReedSolomon} (sha256 : Bytes → Bytes)
    (plain : Bytes) {fk noncePrefix : Bytes} (chunkSize : Int)
    (key : fk.length = fileKeySize) (short : noncePrefix.length = noncePrefixLen)
    (inverts : InvertingAead (gcm fk)) (recovers : rs.Recovers) :
    ∃ e chunks, encrypt gcm sha256 (some noncePrefix) plain fk = .ok e ∧
      putChunks rs sha256 e.written chunkSize = .ok chunks ∧
      chunks.map (fun pc => pc.info.seq) = List.range chunks.length ∧
      ∀ gets, List.Forall₂ (Delivered sha256) chunks gets →
        cmdGet gcm rs sha256 (encodeHex e.contentSHA) gets fk e.noncePrefix = (.ok (), plain) := by
  obtain ⟨e, sealed⟩ := @encrypt_succeeds noncePrefix gcm sha256 plain fk key
  obtain ⟨-, samePrefix, contentHash, written⟩ := encrypt_ok sealed
  have some_bytes : e.written ≠ [] := by
    intro empty
    rw [written, append_eq_nil_iff] at empty
    rw [empty.1] at short
    cases short
  obtain ⟨chunks, put, puts, numbers⟩ := splitLoop_put recovers (chunkSizeOf_pos chunkSize) 0 []
    e.written (.inr some_bytes)
  refine ⟨e, chunks, sealed, put, by rw [numbers, range_eq_range'], fun gets delivered => ?_⟩
  obtain ⟨egress, fetched⟩ := fetchChunks_ok puts delivered
  rw [blocks_flatten (chunkSizeOf_pos chunkSize)] at fetched
  simp only [cmdGet, fetched, readHex_encodeHex, contentHash, ne_eq, not_true, if_false,
    samePrefix, decrypt_encrypt inverts short sealed]

/-! ### A delivery -/

/-- A stand-in for AES-GCM: no encryption, and the tag is made of nonce and
associated data. -/
def tagAead : Aead where
  sealBytes nonce plain aad :=
    plain ++ (nonce ++ aad ++ List.replicate gcmTagSize 0).take gcmTagSize
  openBytes nonce sealed aad :=
    if sealed.drop (sealed.length - gcmTagSize) =
        (nonce ++ aad ++ List.replicate gcmTagSize 0).take gcmTagSize then
      some (sealed.take (sealed.length - gcmTagSize))
    else none

theorem tagAead_inverts : InvertingAead tagAead where
  tag nonce plain aad := by
    simp only [tagAead, length_append, length_take, length_replicate]
    omega
  opens nonce plain aad := by
    have size : ((nonce ++ aad ++ List.replicate gcmTagSize 0).take gcmTagSize).length =
        gcmTagSize := by
      simp only [length_append, length_take, length_replicate]
      omega
    simp only [tagAead, length_append, size, Nat.add_sub_cancel, drop_left, take_left, if_true]

/-- Answers for a chunk: shard 3 arrives with a byte too many, the node of shard 7
does not answer, and one answer has an index out of range. -/
def relayed (sha256 : Bytes → Bytes) (pc : PutChunk) : GetChunk where
  seq := pc.info.seq
  sha256 := encodeHex pc.info.sha256
  sizeBytes := pc.info.sizeBytes
  arrivals :=
    { frag := { shardIndex := 40, sha256 := [] }, reply := some ([], []) } ::
      (pc.shards.mapIdx fun i shard =>
        { frag := { shardIndex := i, sha256 := encodeHex (sha256 shard) }
          reply := if i = 3 then some (shard ++ [0], []) else if i = 7 then none
            else some (shard, []) }).reverse

theorem mem_relayed (arrived : a ∈ (relayed sha256 pc).arrivals) :
    a = { frag := { shardIndex := 40, sha256 := [] }, reply := some ([], []) } ∨
      ∃ (i : Nat) (shard : Bytes), pc.shards[i]? = some shard ∧ a =
        { frag := { shardIndex := i, sha256 := encodeHex (sha256 shard) }
          reply := if i = 3 then some (shard ++ [0], []) else if i = 7 then none
            else some (shard, []) } := by
  rcases mem_cons.mp arrived with first | later
  · exact .inl first
  · obtain ⟨i, inside, rfl⟩ := mem_mapIdx.mp (mem_reverse.mp later)
    exact .inr ⟨i, pc.shards[i], getElem?_eq_getElem inside, rfl⟩

/-- Shards of equal size below 32 bytes are told apart by their first 32 bytes. -/
theorem relayed_delivered (count : pc.shards.length = ecTotal)
    (sizes : ∀ shard ∈ pc.shards, shard.length = size) (small : 0 < size ∧ size < 32) :
    Delivered (fun bytes => bytes.take 32) pc (relayed (fun bytes => bytes.take 32) pc) where
  seq := rfl
  chunkHash := rfl
  size := rfl
  manifest := by
    intro a arrived low high
    rcases mem_relayed arrived with rfl | ⟨i, shard, found, rfl⟩
    · exact absurd high (by decide)
    · obtain ⟨inside, value⟩ := List.getElem?_eq_some_iff.mp found
      refine ⟨{ shardIndex := i, sha256 := encodeHex (shard.take 32), sizeBytes := shard.length },
        mem_mapIdx.mpr ⟨i, inside, ?_⟩, rfl, rfl⟩
      rw [value]
  collisionFree := by
    intro a arrived data receipt replied shard' member same
    have length' := sizes shard' member
    have lengths := congrArg List.length same
    simp only [length_take] at lengths
    rcases mem_relayed arrived with rfl | ⟨i, shard, found, rfl⟩
    · cases replied
      rw [length_nil] at lengths
      omega
    · have length := sizes shard (mem_of_getElem? found)
      dsimp only at replied
      split at replied
      · cases replied
        rw [length_append, length_singleton] at lengths
        omega
      · split at replied <;> cases replied
        rwa [take_of_length_le (by omega), take_of_length_le (by omega)] at same
  enough := by
    refine ⟨(List.range ecTotal).filter fun i => i ≠ 3 ∧ i ≠ 7, nodup_range.filter _, by decide,
      fun i member => ?_⟩
    rw [mem_filter, mem_range, decide_eq_true_eq] at member
    have inside : i < pc.shards.length := by omega
    refine ⟨_, mem_cons_of_mem _ (mem_reverse.mpr
      (mem_mapIdx.mpr ⟨i, inside, rfl⟩)), rfl, pc.shards[i], [], pc.shards[i], ?_,
      getElem?_eq_getElem inside, rfl⟩
    simp [member.2.1, member.2.2]

theorem relayed_forall₂ (puts : List.Forall₂ (PutOf rs fun bytes => bytes.take 32) pieces chunks)
    (small : ∀ piece ∈ pieces, piece.length ≤ 30) :
    List.Forall₂ (Delivered fun bytes => bytes.take 32) chunks
      (chunks.map (relayed fun bytes => bytes.take 32)) := by
  induction puts with
  | nil => exact .nil
  | cons put _ ih =>
    obtain ⟨size, positive, upto, sizes⟩ := put.encoded.sizes
    have short := small _ mem_cons_self
    refine .cons (relayed_delivered put.encoded.count sizes ⟨positive, by omega⟩) ?_
    exact ih fun piece member => small piece (mem_cons_of_mem _ member)

theorem smallFile_roundTrip :
    ∃ e chunks, encrypt (fun _ => tagAead) (fun bytes => bytes.take 32) (some [9, 9, 9, 9])
        [1, 2, 3] (List.replicate 32 7) = .ok e ∧
      putChunks vandermonde (fun bytes => bytes.take 32) e.written 8 = .ok chunks ∧
      cmdGet (fun _ => tagAead) vandermonde (fun bytes => bytes.take 32) (encodeHex e.contentSHA)
        (chunks.map (relayed fun bytes => bytes.take 32)) (List.replicate 32 7) e.noncePrefix =
        (.ok (), [1, 2, 3]) := by
  obtain ⟨e, chunks, sealed, put, -, get⟩ :=
    @cmdGet_putChunks (fun _ => tagAead) vandermonde (fun bytes => bytes.take 32) [1, 2, 3]
      (List.replicate 32 7) [9, 9, 9, 9] 8 (by decide) (by decide) tagAead_inverts
      vandermonde_recovers
  refine ⟨e, chunks, sealed, put, get _ ?_⟩
  have some_bytes : e.written ≠ [] := by
    rw [(encrypt_ok sealed).2.2.2]
    simp
  obtain ⟨added, run, puts, -⟩ := splitLoop_put vandermonde_recovers (chunkSizeOf_pos 8) 0 []
    e.written (.inr some_bytes)
  obtain rfl : added = chunks := Except.ok.inj (run.symm.trans put)
  refine relayed_forall₂ puts fun piece member => ?_
  exact (length_le_of_mem_blocks member).trans (by decide)

end StoragePlatform
