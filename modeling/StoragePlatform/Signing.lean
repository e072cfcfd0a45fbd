/-
Module: StoragePlatform.Signing
Purpose: The issuing side of tickets and receipts: Signer.Sign of
  internal/tickets/tickets.go, Sign and SignEgress of internal/receipts/receipts.go.
Trusted boundary: human-reviewed spec; the Ed25519 signature, the clock and the
  random source are parameters
Main exports: PrivateKey, TicketSigner, Ticket.sign, signTicketFromSigner, signReceipt
-/
import StoragePlatform.Tickets
import StoragePlatform.Lib.Word64

namespace StoragePlatform

open Lib

variable {priv : PrivateKey} {nodeId fragmentId : Uuid} {nonce : Bytes} {size : Nat}
variable {storedAt : Instant} {r : Receipt}

/-- An `ed25519.PrivateKey`: its length, and the signature it gives a message. -/
structure PrivateKey where
  length : Nat
  sign : Bytes → Bytes

/-! ### Tickets -/

/-- `DefaultTTL`, 15 minutes. -/
def ticketTtl : Int := 900000000000

/-- A `Signer` with the clock it reads and what `rand.Read` fills a nonce with, `none` if it
fails. -/
structure TicketSigner where
  priv : PrivateKey
  now : Instant
  random : Option Bytes

inductive SignErr where
  | ticket (e : TicketErr)
  /-- `tickets.sign`: the random source has failed. -/
  | random
deriving DecidableEq, Repr

def TicketOp.all : List TicketOp := [.put, .get, .delete, .challenge]

/-- `Signer.Sign`. -/
def Ticket.sign (signer : TicketSigner) (t : Ticket) : Except SignErr Ticket :=
  if TicketOp.all.all fun op => t.op ≠ op.bytes then .error (.ticket .op)
  else if t.fragmentId = 0 ∨ t.nodeId = 0 then .error (.ticket .invalid)
  else if t.sha256.length ≠ 32 then .error (.ticket .invalid)
  else
    match if t.nonce = [] then signer.random else some t.nonce with
    | none => .error .random
    | some nonce =>
      if nonce.length ≠ 16 then .error (.ticket .invalid)
      else
        let expiresAt :=
          if t.expiresAt = .zero then signer.now + ticketTtl else t.expiresAt
        let filled := { t with nonce := nonce, expiresAt := expiresAt }
        .ok { filled with raw := encodeWire filled.encode (signer.priv.sign filled.encode) }

/-- `SignTicketFromSigner` (internal/metadata/upload.go): `Sign` fills in the nonce and the
expiry.  Its errors are none of the store's. -/
def signTicketFromSigner (signer : TicketSigner) : SignTicket :=
  fun op fragmentId nodeId sha maxBytes =>
    let t : Ticket :=
      { op := op.bytes, fragmentId := fragmentId, nodeId := nodeId, sha256 := sha,
        maxBytes := maxBytes, expiresAt := .zero, nonce := [], raw := [] }
    match t.sign signer with
    | .error _ => .error (.query "tickets.sign")
    | .ok t => .ok (t.raw, t.expiresAt.unix)

/-- What `Sign` asks of the fragment, the node and the hash of a ticket. -/
def signable (fragmentId nodeId : Uuid) (sha : Bytes) : Bool :=
  fragmentId ≠ 0 ∧ nodeId ≠ 0 ∧ sha.length = 32

/-! ### Receipts -/

/-- `sign`: what `Sign` and `SignEgress` share.  A `Receipt` of the model keeps the time
of storage in whole seconds, as the payload does. -/
def signFields (priv : PrivateKey) (nodeId fragmentId : Uuid) (sha : Bytes) (size : Nat)
    (storedAt : Instant) (nonce : Bytes) : Except ReceiptErr Receipt :=
  if priv.length ≠ 64 ∨ sha.length ≠ 32 then .error .invalid
  else if nodeId = 0 ∨ fragmentId = 0 then .error .invalid
  else
    let r : Receipt :=
      { nodeId := nodeId, fragmentId := fragmentId, sha256 := sha, size := size,
        storedAt := storedAt.unix, nonce := nonce, raw := [] }
    .ok { r with raw := encodeWire r.encode (priv.sign r.encode) }

/-- `Sign`. -/
def signReceipt (priv : PrivateKey) (nodeId fragmentId : Uuid) (sha : Bytes) (size : Nat)
    (storedAt : Instant) : Except ReceiptErr Receipt :=
  signFields priv nodeId fragmentId sha size storedAt []

/-- `SignEgress`. -/
def signEgress (priv : PrivateKey) (nodeId fragmentId : Uuid) (sha : Bytes) (size : Nat)
    (storedAt : Instant) (nonce : Bytes) : Except ReceiptErr Receipt :=
  if nonce.length ≠ 16 then .error .invalid
  else signFields priv nodeId fragmentId sha size storedAt nonce

/-- One of the two functions has returned the receipt, for a 64-bit size and time. -/
def Receipt.Signed (priv : PrivateKey) (r : Receipt) : Prop :=
  ∃ nodeId fragmentId sha size storedAt, size < 2 ^ 64 ∧ InInt64 (Instant.unix storedAt) ∧
    (signReceipt priv nodeId fragmentId sha size storedAt = .ok r ∨
      ∃ nonce, signEgress priv nodeId fragmentId sha size storedAt nonce = .ok r)

/-! ### What was signed -/

theorem Ticket.sign_inv {signer : TicketSigner} {t t' : Ticket} (signed : t.sign signer = .ok t') :
    ∃ op ∈ TicketOp.all, t.op = op.bytes ∧ t.fragmentId ≠ 0 ∧ t.nodeId ≠ 0 ∧
      t.sha256.length = 32 ∧ t'.nonce.length = 16 ∧
      (t.nonce ≠ [] → t'.nonce = t.nonce) ∧
      t'.expiresAt = (if t.expiresAt = .zero then signer.now + ticketTtl else t.expiresAt) ∧
      t'.raw = encodeWire t'.encode (signer.priv.sign t'.encode) ∧
      t' = { t with nonce := t'.nonce, expiresAt := t'.expiresAt, raw := t'.raw } := by
  simp only [sign, refuse_eq_ok, List.all_eq_true, decide_eq_true_eq, not_forall, not_not,
    not_or] at signed
  obtain ⟨⟨op, member, same⟩, named, hashed, signed⟩ := signed
  split at signed
  · cases signed
  rename_i nonce drawn
  split at signed <;> cases signed
  rename_i sized
  refine ⟨op, member, same, named.1, named.2, hashed, not_not.mp sized, ?_, rfl, ?_, rfl⟩
  · intro given
    rw [if_neg given] at drawn
    exact (Option.some.inj drawn).symm
  -- the payload does not depend on the wire it goes into
  · simp only [Ticket.encode]

theorem signTicketFromSigner_ok {signer : TicketSigner} {random : Bytes}
    (drawn : signer.random = some random) (sized : random.length = 16) (op : TicketOp)
    (fragmentId nodeId : Uuid) (sha : Bytes) (maxBytes : Nat) :
    (∃ made, signTicketFromSigner signer op fragmentId nodeId sha maxBytes = .ok made) ↔
      signable fragmentId nodeId sha = true := by
  have known : (TicketOp.all.all fun o => decide (op.bytes ≠ o.bytes)) = false := by
    cases op <;> decide
  simp only [signTicketFromSigner, Ticket.sign, known, Bool.false_eq_true, if_false, if_true,
    drawn, sized, ne_eq, not_true_eq_false, signable, decide_eq_true_eq]
  by_cases named : fragmentId = 0 ∨ nodeId = 0
  · rw [if_pos named]
    constructor
    · rintro ⟨made, made_eq⟩
      cases made_eq
    · exact fun asked => absurd named (not_or.mpr ⟨asked.1, asked.2.1⟩)
  · rw [if_neg named]
    by_cases hashed : sha.length = 32
    · rw [if_neg (not_not_intro hashed)]
      exact ⟨fun _ => ⟨(not_or.mp named).1, (not_or.mp named).2, hashed⟩, fun _ => ⟨_, rfl⟩⟩
    · rw [if_pos hashed]
      constructor
      · rintro ⟨made, made_eq⟩
        cases made_eq
      · exact fun asked => absurd asked.2.2 hashed

theorem signFields_inv {sha : Bytes}
    (signed : signFields priv nodeId fragmentId sha size storedAt nonce = .ok r) :
    sha.length = 32 ∧ nodeId ≠ 0 ∧ fragmentId ≠ 0 ∧
      r = { nodeId := nodeId, fragmentId := fragmentId, sha256 := sha, size := size,
            storedAt := storedAt.unix, nonce := nonce, raw := r.raw } ∧
      r.raw = encodeWire r.encode (priv.sign r.encode) := by
  simp only [signFields] at signed
  split at signed
  · cases signed
  rename_i shaped
  split at signed <;> cases signed
  rename_i named
  rw [not_or, not_not, not_not] at shaped
  rw [not_or] at named
  refine ⟨shaped.2, named.1, named.2, rfl, ?_⟩
  -- the payload does not depend on the wire it goes into
  simp only [Receipt.encode]

theorem signEgress_inv {sha : Bytes}
    (signed : signEgress priv nodeId fragmentId sha size storedAt nonce = .ok r) :
    nonce.length = 16 ∧ signFields priv nodeId fragmentId sha size storedAt nonce = .ok r := by
  simp only [signEgress] at signed
  split at signed
  · cases signed
  · rename_i sized
    exact ⟨not_not.mp sized, signed⟩

/-- What has been signed has fields of the widths the payload gives them. -/
theorem Receipt.Signed.wellSized (signed : r.Signed priv) : r.WellSized := by
  obtain ⟨nodeId, fragmentId, sha, size, storedAt, word, range, kind⟩ := signed
  have fields : ∀ nonce, (nonce = [] ∨ nonce.length = 16) →
      signFields priv nodeId fragmentId sha size storedAt nonce = .ok r → r.WellSized := by
    intro nonce optional made
    obtain ⟨hashed, -, -, same, -⟩ := signFields_inv made
    rw [same]
    exact ⟨hashed, word, range.1, range.2, optional⟩
  rcases kind with stored | ⟨nonce, served⟩
  · exact fields [] (.inl rfl) stored
  · exact fields nonce (.inr (signEgress_inv served).1) (signEgress_inv served).2

end StoragePlatform
