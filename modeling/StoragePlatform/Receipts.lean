/-
Module: StoragePlatform.Receipts
Purpose: Node-signed storage receipts: the binary payload, the wire text and the
  checks a commit makes on them (internal/receipts/receipts.go).
Trusted boundary: human-reviewed spec; the signature check itself is a parameter
Main exports: Receipt, Receipt.encode, encodeWire, decodeReceipt, verifyReceipt_signed
-/
import StoragePlatform.Store.Placements
import StoragePlatform.Lib.Bytes

namespace StoragePlatform

open Lib

variable {sigOk : SigCheck} {wire : Text} {nodePub : Bytes} {r : Receipt}

/-- A decoded receipt. -/
structure Receipt where
  nodeId : Uuid
  fragmentId : Uuid
  sha256 : Bytes
  size : Nat
  storedAt : Time
  nonce : Bytes
  raw : Text
deriving DecidableEq, Repr

inductive ReceiptErr where
  | invalid
  | signature
  | mismatch
deriving DecidableEq, Repr

/-- `ed25519.Verify` on public key, message and signature. -/
abbrev SigCheck := Bytes → Bytes → Bytes → Bool

/-! ### Encoding -/

/-- `encode`. -/
def Receipt.encode (r : Receipt) : Bytes :=
  bytesBE 16 r.nodeId.toNat ++ bytesBE 16 r.fragmentId.toNat ++ r.sha256 ++
    bytesBE 8 r.size ++ bytesBE 8 (toUint64 r.storedAt) ++
    (if r.nonce.length = 16 then r.nonce else [])

def receiptBase : Nat := 16 + 16 + 32 + 8 + 8

/-- `decode`: 80 bytes, or 96 with the nonce of an egress receipt. -/
def decodeReceipt (p : Bytes) : Except ReceiptErr Receipt :=
  if p.length ≠ receiptBase ∧ p.length ≠ receiptBase + 16 then .error .invalid
  else
    .ok
      { nodeId := BitVec.ofNat 128 (natBE (p.take 16))
        fragmentId := BitVec.ofNat 128 (natBE ((p.drop 16).take 16))
        sha256 := (p.drop 32).take 32
        size := natBE ((p.drop 64).take 8)
        storedAt := toInt64 (natBE ((p.drop 72).take 8))
        nonce := p.drop receiptBase
        raw := [] }

/-- `encodeWire`. -/
def encodeWire (payload sig : Bytes) : Text :=
  encodeBase64 payload ++ '.' :: encodeBase64 sig

/-- `decodeWire`: the text before and after the first dot, neither empty, and a
64-byte signature. -/
def decodeWire (wire : Text) : Except ReceiptErr (Bytes × Bytes) :=
  let head := wire.takeWhile (· ≠ '.')
  let tail := wire.drop (head.length + 1)
  if head = [] ∨ tail = [] then .error .invalid
  else
    match decodeBase64 head, decodeBase64 tail with
    | some payload, some sig => if sig.length ≠ 64 then .error .invalid else .ok (payload, sig)
    | _, _ => .error .invalid

/-! ### Verifying -/

/-- `Parse`. -/
def parseReceipt (sigOk : SigCheck) (wire : Text) (nodePub : Bytes) :
    Except ReceiptErr Receipt :=
  match decodeWire wire with
  | .error e => .error e
  | .ok (payload, sig) =>
    if nodePub.length ≠ 32 ∨ sigOk nodePub payload sig = false then .error .signature
    else
      match decodeReceipt payload with
      | .error e => .error e
      | .ok r => .ok { r with raw := wire }

/-- `Verify`. -/
def verifyReceipt (sigOk : SigCheck) (wire : Text) (nodePub : Bytes) (nodeId fragmentId : Uuid)
    (wantSha : Bytes) (wantSize : Nat) : Except ReceiptErr Receipt :=
  match parseReceipt sigOk wire nodePub with
  | .error e => .error e
  | .ok r =>
    if r.nodeId ≠ nodeId ∨ r.fragmentId ≠ fragmentId then .error .mismatch
    else if r.size ≠ wantSize then .error .mismatch
    else if wantSha.length ≠ 32 ∨ r.sha256 ≠ wantSha then .error .mismatch
    else .ok r

/-- The check both commit paths make of a wire against a placement target. -/
def PlacementTarget.accepts (sigOk : SigCheck) (t : PlacementTarget) (wire : Text) : Bool :=
  match verifyReceipt sigOk wire t.node.publicKey t.node.id t.fragment.id t.fragment.sha256
      (toUint64 t.fragment.sizeBytes) with
  | .ok _ => true
  | .error _ => false

theorem parseReceipt_inv (parsed : parseReceipt sigOk wire nodePub = .ok r) :
    ∃ payload sig r₀, decodeWire wire = .ok (payload, sig) ∧ sigOk nodePub payload sig = true ∧
      decodeReceipt payload = .ok r₀ ∧ r = { r₀ with raw := wire } := by
  simp only [parseReceipt] at parsed
  cases wired : decodeWire wire with
  | error e => simp [wired] at parsed
  | ok parts =>
    obtain ⟨payload, sig⟩ := parts
    simp only [wired] at parsed
    split at parsed
    · cases parsed
    · rename_i signed
      cases decoded : decodeReceipt payload with
      | error e => simp [decoded] at parsed
      | ok r₀ =>
        simp only [decoded, Except.ok.injEq] at parsed
        exact ⟨payload, sig, r₀, rfl, by grind, decoded, parsed.symm⟩

theorem verifyReceipt_inv {nodeId fragmentId : Uuid} {wantSha : Bytes} {wantSize : Nat}
    (verified : verifyReceipt sigOk wire nodePub nodeId fragmentId wantSha wantSize = .ok r) :
    parseReceipt sigOk wire nodePub = .ok r ∧ r.nodeId = nodeId ∧ r.fragmentId = fragmentId ∧
      r.size = wantSize ∧ r.sha256 = wantSha := by
  simp only [verifyReceipt] at verified
  cases parsed : parseReceipt sigOk wire nodePub with
  | error e => simp [parsed] at verified
  | ok r₀ =>
    simp only [parsed] at verified
    grind

theorem PlacementTarget.accepts_inv {t : PlacementTarget} (accepted : t.accepts sigOk wire = true) :
    ∃ r, parseReceipt sigOk wire t.node.publicKey = .ok r ∧ r.fragmentId = t.fragment.id ∧
      r.nodeId = t.node.id := by
  simp only [accepts] at accepted
  split at accepted
  · rename_i r verified
    obtain ⟨parsed, node, fragment, -, -⟩ := verifyReceipt_inv verified
    exact ⟨r, parsed, fragment, node⟩
  · cases accepted

/-- A wire names one fragment and one node: two targets that accept it agree on
both. -/
theorem PlacementTarget.accepts_same {t u : PlacementTarget} (ht : t.accepts sigOk wire = true)
    (hu : u.accepts sigOk wire = true) : t.fragment.id = u.fragment.id ∧ t.node.id = u.node.id := by
  obtain ⟨r, parsed, fragment, node⟩ := accepts_inv ht
  obtain ⟨r', parsed', fragment', node'⟩ := accepts_inv hu
  obtain ⟨payload, sig, r₀, wired, -, decoded, rfl⟩ := parseReceipt_inv parsed
  obtain ⟨payload', sig', r₀', wired', -, decoded', rfl⟩ := parseReceipt_inv parsed'
  rw [wired] at wired'
  cases wired'
  rw [decoded] at decoded'
  cases decoded'
  exact ⟨fragment.symm.trans fragment', node.symm.trans node'⟩

/-! ### Round trip -/

theorem encodeWire_head (payload sig : Bytes) :
    (encodeWire payload sig).takeWhile (· ≠ '.') = encodeBase64 payload := by
  rw [encodeWire, List.takeWhile_append_of_pos]
  · simp
  · intro c member
    have different : c ≠ '.' := fun dot => dot_not_mem_encodeBase64 payload (dot ▸ member)
    simpa using different

/-- Whatever the signature, only the payload that was encoded is read. -/
theorem payload_of_encodeWire {payload sig : Bytes} {parts : Bytes × Bytes}
    (decoded : decodeWire (encodeWire payload sig) = .ok parts) : parts.1 = payload := by
  simp only [decodeWire, encodeWire_head, decodeBase64_encodeBase64] at decoded
  split at decoded
  · cases decoded
  · split at decoded
    · rename_i same _
      split at decoded <;> cases decoded
      exact (Option.some.inj same).symm
    · cases decoded

theorem decodeWire_encodeWire {payload sig : Bytes} (some_payload : payload ≠ [])
    (sized : sig.length = 64) : decodeWire (encodeWire payload sig) = .ok (payload, sig) := by
  have headPart := encodeWire_head payload sig
  have tailPart : (encodeWire payload sig).drop ((encodeBase64 payload).length + 1) =
      encodeBase64 sig := by
    simp [encodeWire, List.drop_append]
  have some_sig : sig ≠ [] := by
    rintro rfl
    cases sized
  simp only [decodeWire, headPart, tailPart, encodeBase64_ne_nil some_payload,
    encodeBase64_ne_nil some_sig, decodeBase64_encodeBase64, sized, or_self, if_false, ne_eq,
    not_true_eq_false]

/-- The ranges of the fields of a receipt, as the Go types have them. -/
structure Receipt.WellSized (r : Receipt) : Prop where
  sha256 : r.sha256.length = 32
  size : r.size < 2 ^ 64
  storedLow : -2 ^ 63 ≤ r.storedAt
  storedHigh : r.storedAt < 2 ^ 63
  nonce : r.nonce = [] ∨ r.nonce.length = 16

/-- An id is read back from its sixteen bytes. -/
theorem uuid_of_bytes (id : Uuid) : BitVec.ofNat 128 (natBE (bytesBE 16 id.toNat)) = id := by
  have small : id.toNat < 256 ^ 16 := id.isLt.trans_eq (by decide)
  rw [natBE_bytesBE, Nat.mod_eq_of_lt small, BitVec.ofNat_toNat, BitVec.setWidth_eq]

theorem decodeReceipt_encode (sized : r.WellSized) :
    decodeReceipt r.encode = .ok { r with raw := [] } := by
  have tail : (if r.nonce.length = 16 then r.nonce else []) = r.nonce := by
    rcases sized.nonce with empty | long
    · simp [empty]
    · rw [if_pos long]
  have length : r.encode.length = receiptBase + r.nonce.length := by
    simp only [Receipt.encode, tail, List.length_append, length_bytesBE, sized.sha256, receiptBase]
  have accepted : ¬ (r.encode.length ≠ receiptBase ∧ r.encode.length ≠ receiptBase + 16) := by
    rw [length]
    rcases sized.nonce with empty | long
    · simp [empty]
    · simp [long]
  have size : r.size % 256 ^ 8 = r.size := Nat.mod_eq_of_lt sized.size
  have stored : toUint64 r.storedAt % 256 ^ 8 = toUint64 r.storedAt := by
    rw [toUint64]
    omega
  have parts : r.encode.take 16 = bytesBE 16 r.nodeId.toNat ∧
      (r.encode.drop 16).take 16 = bytesBE 16 r.fragmentId.toNat ∧
      (r.encode.drop 32).take 32 = r.sha256 ∧ (r.encode.drop 64).take 8 = bytesBE 8 r.size ∧
      (r.encode.drop 72).take 8 = bytesBE 8 (toUint64 r.storedAt) ∧
      r.encode.drop receiptBase = r.nonce := by
    simp [Receipt.encode, tail, sized.sha256, receiptBase, List.drop_append, List.drop_eq_nil_of_le]
  obtain ⟨nodePart, fragmentPart, shaPart, sizePart, storedPart, noncePart⟩ := parts
  rw [decodeReceipt, if_neg accepted, nodePart, fragmentPart, shaPart, sizePart, storedPart,
    noncePart, uuid_of_bytes, uuid_of_bytes, natBE_bytesBE, natBE_bytesBE, size, stored,
    toInt64_toUint64 sized.storedLow sized.storedHigh]

/-- A receipt that the node signed is accepted for what it names. -/
theorem verifyReceipt_signed (sized : r.WellSized) {sig : Bytes} (keyed : nodePub.length = 32)
    (long : sig.length = 64) (signed : sigOk nodePub r.encode sig = true) :
    verifyReceipt sigOk (encodeWire r.encode sig) nodePub r.nodeId r.fragmentId r.sha256 r.size =
      .ok { r with raw := encodeWire r.encode sig } := by
  have some_payload : r.encode ≠ [] := by
    intro empty
    have lengths := congrArg List.length empty
    simp [Receipt.encode] at lengths
  simp [verifyReceipt, parseReceipt, decodeWire_encodeWire some_payload long, keyed, signed,
    decodeReceipt_encode sized, sized.sha256]

end StoragePlatform
