/-
Module: StoragePlatform.Proofs.WireCodec
Purpose: The payloads of tickets and receipts lose nothing: decoding inverts encoding, and
  encoding inverts decoding.
Trusted boundary: none
Main exports: Ticket.WellSized, decodeTicket_encode, encode_decodeTicket, codecs_exact
-/
import StoragePlatform.Signing

namespace StoragePlatform

open Lib List

variable {p s bytes : Bytes} {t : Ticket}

/-! ### Fields of fixed width -/

theorem bytesBE_natBE_of_length {width : Nat} (length : bytes.length = width) :
    bytesBE width (natBE bytes) = bytes := by
  rw [← length]
  exact bytesBE_natBE bytes

/-- Sixteen bytes are read back from the id they are read as. -/
theorem bytes_of_uuid (length : bytes.length = 16) :
    bytesBE 16 (BitVec.ofNat 128 (natBE bytes)).toNat = bytes := by
  have small : natBE bytes < 2 ^ 128 := by
    have bound := natBE_lt bytes
    rw [length] at bound
    exact bound.trans_eq (by decide)
  rw [BitVec.toNat_ofNat, Nat.mod_eq_of_lt small]
  exact bytesBE_natBE_of_length length

/-- Eight bytes are read back from the signed number they are read as. -/
theorem bytes_of_int64 (length : bytes.length = 8) :
    bytesBE 8 (toUint64 (toInt64 (natBE bytes))) = bytes := by
  have small : natBE bytes < 2 ^ 64 := by
    have bound := natBE_lt bytes
    rw [length] at bound
    exact bound.trans_eq (by decide)
  rw [toUint64_toInt64 small]
  exact bytesBE_natBE_of_length length

/-! ### Length-prefixed text -/

theorem appendU16String_of_short (short : s.length < 65536) :
    appendU16String s = bytesBE 2 s.length ++ s := by
  rw [appendU16String, take_of_length_le (Nat.le_of_lt_succ short)]

theorem takeU16String_append (short : s.length < 65536) (rest : Bytes) :
    takeU16String (appendU16String s ++ rest) = .ok (s, rest) := by
  have front : (bytesBE 2 s.length ++ (s ++ rest)).take 2 = bytesBE 2 s.length :=
    take_left' (length_bytesBE 2 s.length)
  have back : (bytesBE 2 s.length ++ (s ++ rest)).drop 2 = s ++ rest :=
    drop_left' (length_bytesBE 2 s.length)
  have count : natBE (bytesBE 2 s.length) = s.length :=
    (natBE_bytesBE 2 s.length).trans (Nat.mod_eq_of_lt short)
  rw [appendU16String_of_short short, append_assoc, takeU16String]
  simp only [front, back, count, length_append, length_bytesBE, take_left, drop_left]
  rw [if_neg (by omega), if_neg (by omega)]

theorem takeU16String_inv {op rest : Bytes} (taken : takeU16String p = .ok (op, rest)) :
    appendU16String op ++ rest = p := by
  simp only [takeU16String] at taken
  split at taken
  · cases taken
  rename_i long
  split at taken <;> cases taken
  rename_i enough
  have two : (p.take 2).length = 2 := length_take_of_le (not_lt.mp long)
  have bound : natBE (p.take 2) < 65536 := by
    have bound := natBE_lt (p.take 2)
    rw [two] at bound
    exact bound
  have length : ((p.drop 2).take (natBE (p.take 2))).length = natBE (p.take 2) :=
    length_take_of_le (not_lt.mp enough)
  rw [appendU16String_of_short (lt_of_eq_of_lt length bound), length, bytesBE_natBE_of_length two,
    append_assoc, take_append_drop, take_append_drop]

/-! ### Tickets -/

/-- The ranges of the fields of a ticket, as the Go types have them, and the lengths
`Sign` asks for. -/
structure Ticket.WellSized (t : Ticket) : Prop where
  op : t.op.length < 65536
  sha256 : t.sha256.length = 32
  maxBytes : t.maxBytes < 2 ^ 64
  expiry : InInt64 t.expiresAt.unix
  nonce : t.nonce.length = 16

theorem decodeTicket_encode (sized : t.WellSized) :
    decodeTicket t.encode =
      .ok { t with expiresAt := .ofUnix t.expiresAt.unix, raw := [] } := by
  obtain ⟨rest, rest_eq⟩ : ∃ rest, rest = bytesBE 16 t.fragmentId.toNat ++
      (bytesBE 16 t.nodeId.toNat ++ (t.sha256 ++ (bytesBE 8 t.maxBytes ++
        (bytesBE 8 (toUint64 t.expiresAt.unix) ++ t.nonce)))) := ⟨_, rfl⟩
  have encoded : t.encode = appendU16String t.op ++ rest := by
    simp only [Ticket.encode, rest_eq, append_assoc]
  have length : rest.length = 96 := by
    simp only [rest_eq, length_append, length_bytesBE, sized.sha256, sized.nonce]
  have parts : rest.take 16 = bytesBE 16 t.fragmentId.toNat ∧
      (rest.drop 16).take 16 = bytesBE 16 t.nodeId.toNat ∧
      (rest.drop 32).take 32 = t.sha256 ∧ (rest.drop 64).take 8 = bytesBE 8 t.maxBytes ∧
      ((rest.drop 64).drop 8).take 8 = bytesBE 8 (toUint64 t.expiresAt.unix) ∧
      ((rest.drop 64).drop 16).take 16 = t.nonce := by
    simp [rest_eq, sized.sha256, sized.nonce, drop_append, drop_eq_nil_of_le, take_of_length_le]
  obtain ⟨fragmentPart, nodePart, shaPart, maxPart, expiryPart, noncePart⟩ := parts
  have max : natBE (bytesBE 8 t.maxBytes) = t.maxBytes :=
    (natBE_bytesBE 8 _).trans (Nat.mod_eq_of_lt sized.maxBytes)
  have expiry : natBE (bytesBE 8 (toUint64 t.expiresAt.unix)) = toUint64 t.expiresAt.unix := by
    refine (natBE_bytesBE 8 _).trans (Nat.mod_eq_of_lt ?_)
    rw [toUint64]
    omega
  rw [encoded, decodeTicket, takeU16String_append sized.op]
  simp only [length_drop, length, fragmentPart, nodePart, shaPart, maxPart, expiryPart,
    noncePart, uuid_of_bytes, max, expiry, toInt64_toUint64 sized.expiry.1 sized.expiry.2]
  rw [if_neg (by decide), if_neg (by decide)]

theorem encode_decodeTicket (decoded : decodeTicket p = .ok t) : t.encode = p := by
  simp only [decodeTicket] at decoded
  split at decoded
  · cases decoded
  rename_i op rest taken
  split at decoded
  · cases decoded
  split at decoded <;> cases decoded
  rename_i sized
  have length : rest.length = 96 := by
    rw [length_drop, not_not] at sized
    omega
  -- the slices of the decoder, in order, are the whole
  have glued : rest.take 16 ++ (rest.drop 16).take 16 ++ (rest.drop 32).take 32 ++
      (rest.drop 64).take 8 ++ (rest.drop 72).take 8 ++ (rest.drop 80).take 16 = rest := by
    rw [← take_add, ← take_add, ← take_add, ← take_add, ← take_add]
    exact take_of_length_le length.le
  rw [Ticket.encode, Instant.unix_ofUnix, bytes_of_uuid (by simp [length]),
    bytes_of_uuid (by simp [length]), bytesBE_natBE_of_length (by simp [length]),
    bytes_of_int64 (by simp [length]), drop_drop, drop_drop]
  calc appendU16String op ++ rest.take 16 ++ (rest.drop 16).take 16 ++ (rest.drop 32).take 32 ++
        (rest.drop 64).take 8 ++ (rest.drop 72).take 8 ++ (rest.drop 80).take 16
      = appendU16String op ++ (rest.take 16 ++ (rest.drop 16).take 16 ++ (rest.drop 32).take 32 ++
        (rest.drop 64).take 8 ++ (rest.drop 72).take 8 ++ (rest.drop 80).take 16) := by
        simp only [append_assoc]
    _ = p := by rw [glued, takeU16String_inv taken]

theorem Ticket.sign_wellSized {signer : TicketSigner} {t' : Ticket}
    (signed : t.sign signer = .ok t') (word : t.maxBytes < 2 ^ 64)
    (range : InInt64 t'.expiresAt.unix) : t'.WellSized := by
  obtain ⟨op, -, sameOp, -, -, hashed, nonce, -, -, -, same⟩ := Ticket.sign_inv signed
  have short : t.op.length < 65536 := by
    rw [sameOp]
    cases op <;> decide
  rw [same]
  exact ⟨short, hashed, word, range, nonce⟩

/-! ### Receipts -/

theorem encode_decodeReceipt {r : Receipt} (decoded : decodeReceipt p = .ok r) : r.encode = p := by
  simp only [decodeReceipt] at decoded
  split at decoded <;> cases decoded
  rename_i accepted
  have length : p.length = 80 ∨ p.length = 96 := by
    simp only [receiptBase] at accepted
    omega
  have tail : (if (p.drop receiptBase).length = 16 then p.drop receiptBase else []) =
      p.drop receiptBase := by
    rcases length with short | long
    · simp [receiptBase, short]
    · simp [receiptBase, long]
  have glued : p.take 16 ++ (p.drop 16).take 16 ++ (p.drop 32).take 32 ++ (p.drop 64).take 8 ++
      (p.drop 72).take 8 ++ p.drop receiptBase = p := by
    rw [← take_add, ← take_add, ← take_add, ← take_add]
    exact take_append_drop ..
  have slice : ∀ at_ width, at_ + width ≤ 80 → ((p.drop at_).take width).length = width := by
    intro at_ width inside
    rw [length_take, length_drop]
    omega
  have first : (p.take 16).length = 16 := slice 0 16 (by decide)
  rw [Receipt.encode, tail, bytes_of_uuid first, bytes_of_uuid (slice 16 16 (by decide)),
    bytesBE_natBE_of_length (slice 64 8 (by decide)), bytes_of_int64 (slice 72 8 (by decide))]
  exact glued

/-! ### Both ways -/

/-- The codecs of tickets and receipts are exact in both directions on everything the
signing functions accept, so that what is signed determines every field, times to the
second. -/
theorem codecs_exact :
    (∀ signer (t t' : Ticket), t.sign signer = .ok t' → t.maxBytes < 2 ^ 64 →
      ∀ u : Ticket, (u = t' ∨ u = t ∧ t.nonce ≠ []) → InInt64 u.expiresAt.unix →
        decodeTicket u.encode = .ok { u with expiresAt := .ofUnix u.expiresAt.unix, raw := [] }) ∧
    (∀ p t, decodeTicket p = .ok t → t.encode = p) ∧
    (∀ priv (r : Receipt), r.Signed priv → decodeReceipt r.encode = .ok { r with raw := [] }) ∧
    (∀ p r, decodeReceipt p = .ok r → r.encode = p) ∧
    (∀ signer signer' (t t' u u' : Ticket), t.sign signer = .ok t' → u.sign signer' = .ok u' →
      t.maxBytes < 2 ^ 64 → u.maxBytes < 2 ^ 64 → InInt64 t'.expiresAt.unix →
      InInt64 u'.expiresAt.unix → t'.encode = u'.encode →
        { t' with expiresAt := .ofUnix t'.expiresAt.unix, raw := [] } =
          { u' with expiresAt := .ofUnix u'.expiresAt.unix, raw := [] }) ∧
    (∀ priv priv' (r s : Receipt), r.Signed priv → s.Signed priv' → r.encode = s.encode →
      { r with raw := [] } = { s with raw := [] }) := by
  refine ⟨?ticket, fun p t => encode_decodeTicket, ?receipt, fun p r => encode_decodeReceipt,
    ?tickets, ?receipts⟩
  case ticket =>
    intro signer t t' signed word u which range
    apply decodeTicket_encode
    rcases which with rfl | ⟨rfl, given⟩
    · exact Ticket.sign_wellSized signed word range
    · obtain ⟨op, -, sameOp, -, -, hashed, nonce, kept, -⟩ := Ticket.sign_inv signed
      refine ⟨?_, hashed, word, range, kept given ▸ nonce⟩
      rw [sameOp]
      cases op <;> decide
  case receipt => exact fun priv r signed => decodeReceipt_encode signed.wellSized
  case tickets =>
    intro signer signer' t t' u u' signed signed' word word' range range' same
    have left := decodeTicket_encode (Ticket.sign_wellSized signed word range)
    have right := decodeTicket_encode (Ticket.sign_wellSized signed' word' range')
    rw [same] at left
    exact Except.ok.inj (left.symm.trans right)
  case receipts =>
    intro priv priv' r s signed signed' same
    have left := decodeReceipt_encode signed.wellSized
    rw [same] at left
    exact Except.ok.inj (left.symm.trans (decodeReceipt_encode signed'.wellSized))

namespace Sample

def signingKey : PrivateKey where
  length := 64
  sign _ := List.replicate 64 7

/-- A signer at half a second past the epoch. -/
def halfPast : TicketSigner where
  priv := signingKey
  now := 500000000
  random := some (List.replicate 16 1)

/-- A GET ticket without a nonce or an expiry. -/
def blankTicket : Ticket where
  op := TicketOp.get.bytes
  fragmentId := 5
  nodeId := 6
  sha256 := List.replicate 32 9
  maxBytes := 10
  expiresAt := .zero
  nonce := []
  raw := []

def filledTicket : Ticket :=
  { blankTicket with nonce := List.replicate 16 1, expiresAt := 900500000000 }

theorem blankTicket_signed : blankTicket.sign halfPast =
    .ok { filledTicket with raw := encodeWire filledTicket.encode (List.replicate 64 7) } := rfl

def getReceipt : Receipt where
  nodeId := 6
  fragmentId := 5
  sha256 := List.replicate 32 9
  size := 10
  storedAt := -1
  nonce := List.replicate 16 1
  raw := []

theorem getReceipt_signed :
    Receipt.Signed signingKey
      { getReceipt with raw := encodeWire getReceipt.encode (List.replicate 64 7) } :=
  ⟨6, 5, List.replicate 32 9, 10, -1, by decide, by decide, .inr ⟨List.replicate 16 1, rfl⟩⟩

end Sample

open Sample

/-- A blank ticket is filled in, signed and read back with its expiry cut to the second, and
so is an egress receipt for a fragment stored just before the epoch. -/
theorem signed_read_back :
    decodeTicket filledTicket.encode =
      .ok { filledTicket with expiresAt := 900000000000 } ∧
    decodeReceipt getReceipt.encode = .ok getReceipt := by
  have ticket := codecs_exact.1 _ _ _ blankTicket_signed (by decide) _ (.inl rfl) (by decide)
  have receipt := codecs_exact.2.2.1 _ _ getReceipt_signed
  simp only [Ticket.encode, Receipt.encode] at ticket receipt ⊢
  exact ⟨ticket, receipt⟩

end StoragePlatform
