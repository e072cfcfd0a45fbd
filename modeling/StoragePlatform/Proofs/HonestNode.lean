/-
Module: StoragePlatform.Proofs.HonestNode
Purpose: When a node that keeps what it stored answers the challenges the auditor can
  compute.
Trusted boundary: none
Main exports: InRange, computeChallengeSet_inRange, honest_node_passes
-/
import StoragePlatform.Agent.Handlers
import StoragePlatform.Healthmon.Challenge
import StoragePlatform.Proofs.ChunkPut
import StoragePlatform.Proofs.WireCodec

namespace StoragePlatform

open Lib Sample
open Std (ExtTreeMap)

/-! ### The auditor's tuples -/

/-- What the agent asks of a range before it reads it, and the answer it should give. -/
structure InRange (hash : Bytes → Bytes) (data : Bytes) (ch : Challenge) : Prop where
  positive : 1 ≤ ch.length
  bounded : ch.length ≤ maxChallengeRange
  start : 0 ≤ ch.offset
  inside : ch.offset + ch.length ≤ data.length
  expected : ch.expected =
    hash (ch.nonce ++ (data.drop ch.offset.toNat).take ch.length.toNat)

/-- Every tuple is in range, whatever is drawn. -/
theorem computeChallengeSet_inRange {hash : Bytes → Bytes} {data : Bytes} {fragmentId nodeId : Uuid}
    {n maxRange : Int} {draw : Nat → ChallengeDraw} {ch : Challenge}
    (member : ch ∈ computeChallengeSet hash data fragmentId nodeId n maxRange draw) :
    InRange hash data ch ∧ ∃ i, ch.nonce = (draw i).nonce := by
  simp only [computeChallengeSet] at member
  split at member
  · exact absurd member List.not_mem_nil
  rename_i some_data
  obtain ⟨i, -, rfl⟩ := List.mem_map.mp member
  -- the clamped range, before a length is drawn from it
  obtain ⟨most, isMost⟩ : ∃ most : Nat, most = min
      (if maxChallengeRange < (if maxRange ≤ 0 then defaultChallengeMaxRange else maxRange)
        then maxChallengeRange
        else if maxRange ≤ 0 then defaultChallengeMaxRange else maxRange).toNat data.length :=
    ⟨_, rfl⟩
  have clamped : 1 ≤ most ∧ (most : Int) ≤ maxChallengeRange ∧ most ≤ data.length := by
    simp only [maxChallengeRange, defaultChallengeMaxRange] at isMost ⊢
    split at isMost <;> split at isMost <;> omega
  rw [← isMost]
  obtain ⟨length, isLength⟩ : ∃ length : Nat,
      length = if 1 < most then 1 + (draw i).length % most else most := ⟨_, rfl⟩
  have drawn : 1 ≤ length ∧ length ≤ most := by
    have := Nat.mod_lt (draw i).length (by omega : 0 < most)
    split at isLength <;> omega
  rw [← isLength]
  obtain ⟨offset, isOffset⟩ : ∃ offset : Nat, offset =
      if 0 < data.length - length then (draw i).offset % (data.length - length + 1) else 0 :=
    ⟨_, rfl⟩
  have fits : offset + length ≤ data.length := by
    have := Nat.mod_lt (draw i).offset (by omega : 0 < data.length - length + 1)
    split at isOffset <;> omega
  rw [← isOffset]
  exact
    ⟨{ positive := by simp only; omega
       bounded := by simp only; omega
       start := by simp only; omega
       inside := by simp only; omega
       expected := by simp }, i, rfl⟩

/-! ### The agent's side -/

namespace ChunkStore

variable {hash : Bytes → Bytes} {s s' : ChunkStore} {id : Uuid} {r : Upload} {wantSHA : Bytes}
  {maxBytes : Nat} {expires : Instant} {env : PutEnv} {fragMeta : FragMeta} {data : Bytes}

/-- What `Get` finds after a `Put` whose record can be read back. -/
theorem get_of_put (put : s.put hash id r wantSHA maxBytes expires env = (.ok fragMeta, s'))
    (dated : expires.marshals ∧ env.now.marshals) :
    ∃ data, s'.files[id]? = some data ∧ fragMeta.size = data.length ∧
      s'.get id = .ok (data, fragMeta) := by
  rcases put_cases hash s id r wantSHA maxBytes expires env with
    ⟨e, result, -⟩ | ⟨e, result, -⟩ | ⟨data, -, -, result⟩
  · rw [put] at result
    cases result
  · rw [put] at result
    cases result
  · rw [put] at result
    cases result
    refine ⟨data, ExtTreeMap.getElem?_insert_self, rfl, ?_⟩
    simp only [get, ExtTreeMap.getElem?_insert_self]
    rw [metaOf_row_iff.mpr dated]

/-- A range of the auditor is read. -/
theorem readRange_inRange (found : s.get id = .ok (data, fragMeta))
    (sized : fragMeta.size = data.length) {ch : Challenge} (inRange : InRange hash data ch) :
    s.readRange id ch.offset ch.length =
      .ok ((data.drop ch.offset.toNat).take ch.length.toNat) := by
  obtain ⟨positive, bounded, start, inside, -⟩ := inRange
  have wrapped := toInt64_toUint64_le (by omega : 0 ≤ ch.offset + ch.length)
  rw [readRange, if_neg (by omega), found]
  simp only
  rw [sized, if_neg (by omega), if_neg (by omega)]

end ChunkStore

/-- A tuple of the auditor passes the checks before the store is asked. -/
theorem admitChallenge_inRange {env : NodeEnv} {data : Bytes} {ch : Challenge}
    (inRange : InRange env.hash data ch) (nonce : ch.nonce.length = 16) {now : Instant} {id : Uuid}
    {wire : Text} {tk : Ticket}
    (valid : verifyTicket env.sigOk env.ticketKey now wire .challenge env.nodeId id = .ok tk)
    (room : tk.maxBytes = 0 ∨ 65536 ≤ tk.maxBytes) :
    admitChallenge env.toAgentEnv now (some id) (some ch.offset) (some ch.length) (some ch.nonce)
      wire = .ok tk := by
  obtain ⟨positive, bounded, start, -, -⟩ := inRange
  have some_nonce : ch.nonce ≠ [] := List.ne_nil_of_length_eq_add_one nonce
  have small : toUint64 ch.length ≤ 65536 := by
    rw [toUint64]
    simp only [maxChallengeRange] at bounded
    omega
  simp only [admitChallenge, Option.getD_some, valid]
  rw [if_neg (by omega), if_neg (by omega), if_neg (by omega), if_neg some_nonce, if_neg (by omega)]

/-! ### The tickets there are -/

theorem Instant.inInt64_of_marshals {t : Instant} (dated : t.marshals = true) :
    InInt64 t.unix := by
  have range := of_decide_eq_true dated
  exact ⟨by omega, by omega⟩

/-- The planning calls leave the expiry of a ticket to `Sign`, so what an agent reads is the
signer's clock plus fifteen minutes. -/
theorem expiry_of_signShard {signer : TicketSigner} {op op' : TicketOp} {fr : Fragment}
    {node : Node} {made : Text × Time} {sigOk : SigCheck} {pub : Bytes} {now : Instant}
    {nodeId fragmentId : Uuid} {tk : Ticket}
    (issued : signShard (signTicketFromSigner signer) op fr node = .ok made)
    (dated : Instant.marshals (signer.now + ticketTtl) = true)
    (received : verifyTicket sigOk pub now made.1 op' nodeId fragmentId = .ok tk) :
    tk.expiresAt = .ofUnix (Instant.unix (signer.now + ticketTtl)) := by
  obtain ⟨parts, t, wired, decoded, rfl, -⟩ := verifyTicket_inv received
  simp only [signShard, signTicketFromSigner] at issued
  split at issued <;> cases issued
  rename_i t' signed
  obtain ⟨-, -, -, -, -, -, -, -, expiry, raw, -⟩ := Ticket.sign_inv signed
  have expiry : t'.expiresAt = signer.now + ticketTtl := expiry
  have word : toUint64 fr.sizeBytes < 2 ^ 64 := by
    rw [toUint64]
    omega
  have sized := Ticket.sign_wellSized signed word
    (by rw [expiry]; exact Instant.inInt64_of_marshals dated)
  rw [raw] at wired
  rw [payload_of_encodeWire wired, decodeTicket_encode sized] at decoded
  cases decoded
  rw [← expiry]

/-- An honest node passes every challenge.  The record of the `Put` can be read back because
its ticket was issued by the service, and the clocks of signer and agent show the years 0 to
9999. -/
theorem honest_node_passes {env : NodeEnv} {signer : TicketSigner} {fr : Fragment} {node : Node}
    {made : Text × Time} (issued : signShard (signTicketFromSigner signer) .put fr node = .ok made)
    (dated : Instant.marshals (signer.now + ticketTtl) = true) {putAt : Instant}
    {putTicket : Ticket}
    (received : verifyTicket env.sigOk env.ticketKey putAt made.1 .put env.nodeId fr.id =
      .ok putTicket)
    {s s' : ChunkStore} {r : Upload} {putEnv : PutEnv} (clock : putEnv.now.marshals = true)
    {fragMeta : FragMeta}
    (put : s.put env.hash fr.id r putTicket.sha256 putTicket.maxBytes putTicket.expiresAt putEnv =
      (.ok fragMeta, s'))
    {disk : AgentDisk} (kept : disk.store.get fr.id = s'.get fr.id) {data : Bytes}
    (stored : s'.files[fr.id]? = some data) (n maxRange : Int)
    {draw : Nat → ChallengeDraw} (nonces : ∀ i, (draw i).nonce.length = 16) {ch : Challenge}
    (member : ch ∈ computeChallengeSet env.hash data fr.id env.nodeId n maxRange draw)
    {at_ : Clocks} {wire : Text} {tk : Ticket}
    (valid : verifyTicket env.sigOk env.ticketKey at_.verify wire .challenge env.nodeId fr.id =
      .ok tk)
    (room : tk.maxBytes = 0 ∨ 65536 ≤ tk.maxBytes) (unused : disk.nonces tk.nonce = none) :
    (1 ≤ ch.length ∧ ch.length ≤ 65536 ∧ 0 ≤ ch.offset ∧
        ch.offset + ch.length ≤ fragMeta.size) ∧
      (handleChallenge env disk at_ (some fr.id) (some ch.offset) (some ch.length)
        (some ch.nonce) wire).reply = .sha256 (encodeHex ch.expected) := by
  have expiry : putTicket.expiresAt.marshals = true := by
    rw [expiry_of_signShard issued dated received, Instant.marshals, Instant.unix_ofUnix]
    exact dated
  obtain ⟨inRange, i, drawn⟩ := computeChallengeSet_inRange member
  obtain ⟨data', file, sized, found⟩ := ChunkStore.get_of_put put ⟨expiry, clock⟩
  obtain rfl : data = data' := Option.some.inj (stored.symm.trans file)
  have admitted := admitChallenge_inRange inRange (drawn ▸ nonces i) valid room
  have reads := ChunkStore.readRange_inRange (kept.trans found) sized inRange
  refine ⟨⟨inRange.positive, inRange.bounded, inRange.start, sized ▸ inRange.inside⟩, ?_⟩
  simp only [handleChallenge, admitted, consumeThen, consumeNonce, unused, Option.getD_some,
    reads, inRange.expected]

namespace Sample

/-- A challenge ticket for fragment 1 on node 2 that expires at second 100. -/
def challengeTicket : Ticket where
  op := TicketOp.bytes .challenge
  fragmentId := 1
  nodeId := 2
  sha256 := padHash [7, 8, 9]
  maxBytes := 65536
  expiresAt := .ofUnix 100
  nonce := List.replicate 16 5
  raw := []

def challengeWire : Text := encodeWire challengeTicket.encode (List.replicate 64 0)

def nodeEnv : NodeEnv where
  sigOk := fun _ _ _ => true
  ticketKey := List.replicate 32 1
  nodeId := 2
  hash := padHash
  priv := ⟨64, fun _ => List.replicate 64 0⟩

/-- The fragment of three bytes, and the ticket to store it. -/
def threeFragment : Fragment where
  id := 1
  chunkId := 70
  shardIndex := 0
  sizeBytes := 3
  sha256 := padHash [7, 8, 9]

def putTicket : Ticket where
  op := TicketOp.bytes .put
  fragmentId := 1
  nodeId := 2
  sha256 := padHash [7, 8, 9]
  maxBytes := 3
  expiresAt := .ofUnix 900
  nonce := List.replicate 16 4
  raw := []

def putWire : Text := encodeWire putTicket.encode (List.replicate 64 0)

def putSigner : TicketSigner where
  priv := nodeEnv.priv
  now := 0
  random := some (List.replicate 16 4)

/-- The store of a node after the `Put`. -/
def threeBytes : ChunkStore :=
  (ChunkStore.empty.put padHash 1 ⟨[7, 8, 9], false⟩ (padHash [7, 8, 9]) 3 (.ofUnix 900)
    ⟨0, 5, none⟩).2

def draws : Nat → ChallengeDraw := fun _ => ⟨4, 7, List.replicate 16 3⟩

/-- The tuple of these draws: the last two bytes. -/
def lastTwo : Challenge where
  fragmentId := 1
  nodeId := 2
  seq := 0
  offset := 1
  length := 2
  nonce := List.replicate 16 3
  expected := padHash (List.replicate 16 3 ++ [8, 9])

end Sample

theorem lastTwo_answered :
    (handleChallenge nodeEnv ⟨threeBytes, fun _ => none⟩ ⟨0, 0⟩ (some 1) (some 1)
      (some 2) (some (List.replicate 16 3)) challengeWire).reply =
        .sha256 (encodeHex lastTwo.expected) := by
  have issued : signShard (signTicketFromSigner putSigner) .put threeFragment
      { (default : Node) with id := 2 } = .ok (putWire, 900) := by
    decide +kernel
  have received : verifyTicket nodeEnv.sigOk nodeEnv.ticketKey 0 putWire
      .put nodeEnv.nodeId threeFragment.id =
        .ok { putTicket with raw := putWire } := by
    decide +kernel
  have put : ChunkStore.empty.put nodeEnv.hash 1 ⟨[7, 8, 9], false⟩
      (padHash [7, 8, 9]) 3 (.ofUnix 900) ⟨0, 5, none⟩ =
        (.ok (ChunkStore.metaOf padHash [7, 8, 9] (.ofUnix 900) 5), threeBytes) := by
    decide +kernel
  have kept : (⟨threeBytes, fun _ => none⟩ : AgentDisk).store.get 1 = threeBytes.get 1 := rfl
  have stored : threeBytes.files[(1 : Uuid)]? = some [7, 8, 9] := by decide +kernel
  have sixteen : ∀ i, (draws i).nonce.length = 16 := fun _ => rfl
  have member : lastTwo ∈ computeChallengeSet nodeEnv.hash [7, 8, 9] 1
      nodeEnv.nodeId 1 0 draws := by
    decide +kernel
  have valid : verifyTicket nodeEnv.sigOk nodeEnv.ticketKey
      (⟨0, 0⟩ : Clocks).verify challengeWire .challenge nodeEnv.nodeId 1 =
        .ok { challengeTicket with raw := challengeWire } := by
    decide +kernel
  exact (honest_node_passes issued (by decide) received (by decide) put kept stored 1 0 sixteen
    member valid (.inr (by decide)) rfl).2

end StoragePlatform
