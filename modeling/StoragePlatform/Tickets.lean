/-
Module: StoragePlatform.Tickets
Purpose: Signed tickets: the binary payload and the checks an agent makes of a
  wire before it serves a request (internal/tickets/tickets.go).
Trusted boundary: human-reviewed spec; the signature check itself is a parameter
Main exports: Instant, Ticket, Ticket.encode, decodeTicket, verifyTicket_expiry
-/
import StoragePlatform.Metadata.Plan
import StoragePlatform.Receipts

namespace StoragePlatform

open Lib

/-- A `time.Time`, in nanoseconds since 1970. -/
abbrev Instant := Int

/-- `Unix`: the whole seconds of an instant, rounded down. -/
def Instant.unix (t : Instant) : Int := t / 1000000000

/-- `time.Unix(seconds, 0)`. -/
def Instant.ofUnix (seconds : Int) : Instant := seconds * 1000000000

/-- `time.Time{}`, 1 January of year 1. -/
def Instant.zero : Instant := .ofUnix (-62135596800)

@[simp] theorem Instant.unix_ofUnix (seconds : Int) : (ofUnix seconds).unix = seconds := by
  simp only [unix, ofUnix]
  omega

/-- The operation names a ticket carries. -/
def TicketOp.bytes : TicketOp → Bytes
  | .put => [112, 117, 116]
  | .get => [103, 101, 116]
  | .delete => [100, 101, 108, 101, 116, 101]
  | .challenge => [99, 104, 97, 108, 108, 101, 110, 103, 101]

/-- A decoded ticket.  The operation is the text on the wire, not yet known to be
one of the four. -/
structure Ticket where
  op : Bytes
  fragmentId : Uuid
  nodeId : Uuid
  sha256 : Bytes
  maxBytes : Nat
  expiresAt : Instant
  nonce : Bytes
  raw : Text
deriving DecidableEq, Repr

inductive TicketErr where
  | invalid
  | signature
  | expired
  | bound
  | op
deriving DecidableEq, Repr

/-! ### Encoding -/

/-- `appendU16String` on an empty buffer. -/
def appendU16String (s : Bytes) : Bytes :=
  let kept := s.take 65535
  bytesBE 2 kept.length ++ kept

/-- `takeU16String`. -/
def takeU16String (p : Bytes) : Except TicketErr (Bytes × Bytes) :=
  if p.length < 2 then .error .invalid
  else
    let n := natBE (p.take 2)
    let rest := p.drop 2
    if rest.length < n then .error .invalid else .ok (rest.take n, rest.drop n)

/-- `encode`. -/
def Ticket.encode (t : Ticket) : Bytes :=
  appendU16String t.op ++ bytesBE 16 t.fragmentId.toNat ++ bytesBE 16 t.nodeId.toNat ++ t.sha256 ++
    bytesBE 8 t.maxBytes ++ bytesBE 8 (toUint64 t.expiresAt.unix) ++ t.nonce

/-- `decode`. -/
def decodeTicket (p : Bytes) : Except TicketErr Ticket :=
  match takeU16String p with
  | .error e => .error e
  | .ok (op, rest) =>
    if rest.length < 16 + 16 + 32 + 8 + 8 + 16 then .error .invalid
    else
      let tail := rest.drop 64
      if tail.length ≠ 16 + 16 then .error .invalid
      else
        .ok
          { op := op
            fragmentId := BitVec.ofNat 128 (natBE (rest.take 16))
            nodeId := BitVec.ofNat 128 (natBE ((rest.drop 16).take 16))
            sha256 := (rest.drop 32).take 32
            maxBytes := natBE (tail.take 8)
            expiresAt := .ofUnix (toInt64 (natBE ((tail.drop 8).take 8)))
            nonce := (tail.drop 16).take 16
            raw := [] }

/-! ### Verifying -/

/-- `Verifier.Parse` with the clock it reads.  Tickets and receipts have the same
wire form. -/
def parseTicket (sigOk : SigCheck) (pub : Bytes) (now : Instant) (wire : Text) :
    Except TicketErr Ticket :=
  match decodeWire wire with
  | .error _ => .error .invalid
  | .ok (payload, sig) =>
    if sigOk pub payload sig = false then .error .signature
    else
      match decodeTicket payload with
      | .error e => .error e
      | .ok t => if t.expiresAt ≤ now then .error .expired else .ok { t with raw := wire }

/-- `Verifier.Verify`. -/
def verifyTicket (sigOk : SigCheck) (pub : Bytes) (now : Instant) (wire : Text) (op : TicketOp)
    (nodeId fragmentId : Uuid) : Except TicketErr Ticket :=
  match parseTicket sigOk pub now wire with
  | .error e => .error e
  | .ok t =>
    if t.op ≠ op.bytes then .error .op
    else if t.nodeId ≠ nodeId ∨ t.fragmentId ≠ fragmentId then .error .bound
    else .ok t

/-- The expiry on a wire is eight bytes, so its seconds survive a second trip
through eight bytes. -/
theorem decodeTicket_expiry {p : Bytes} {t : Ticket} (decoded : decodeTicket p = .ok t) :
    toInt64 (toUint64 t.expiresAt.unix) = t.expiresAt.unix := by
  simp only [decodeTicket] at decoded
  split at decoded
  · cases decoded
  · rename_i op rest taken
    split at decoded
    · cases decoded
    · split at decoded <;> cases decoded
      have bounded := natBE_lt (((rest.drop 64).drop 8).take 8)
      have short : (((rest.drop 64).drop 8).take 8).length ≤ 8 := List.length_take_le ..
      have word : natBE (((rest.drop 64).drop 8).take 8) < 2 ^ 64 :=
        lt_of_lt_of_le bounded (Nat.pow_le_pow_right (by decide : 256 > 0) short)
      rw [Instant.unix_ofUnix]
      apply toInt64_toUint64
      · simp only [toInt64]
        split <;> omega
      · simp only [toInt64]
        split <;> omega

theorem verifyTicket_inv {sigOk : SigCheck} {pub : Bytes} {now : Instant} {wire : Text}
    {op : TicketOp} {nodeId fragmentId : Uuid} {t : Ticket}
    (verified : verifyTicket sigOk pub now wire op nodeId fragmentId = .ok t) :
    ∃ parts t₀, decodeWire wire = .ok parts ∧ decodeTicket parts.1 = .ok t₀ ∧
      t = { t₀ with raw := wire } ∧ t.nodeId = nodeId ∧ t.fragmentId = fragmentId := by
  simp only [verifyTicket, parseTicket] at verified
  cases wired : decodeWire wire with
  | error e => simp [wired] at verified
  | ok parts =>
    cases decoded : decodeTicket parts.1 with
    | error e =>
      simp only [wired, decoded] at verified
      grind
    | ok t₀ =>
      simp only [wired, decoded] at verified
      exact ⟨parts, t₀, rfl, decoded, by grind, by grind, by grind⟩

theorem verifyTicket_expiry {sigOk : SigCheck} {pub : Bytes} {now : Instant} {wire : Text}
    {op : TicketOp} {nodeId fragmentId : Uuid} {t : Ticket}
    (verified : verifyTicket sigOk pub now wire op nodeId fragmentId = .ok t) :
    toInt64 (toUint64 t.expiresAt.unix) = t.expiresAt.unix := by
  obtain ⟨parts, t₀, -, decoded, rfl, -⟩ := verifyTicket_inv verified
  have expiry := decodeTicket_expiry decoded
  exact expiry

end StoragePlatform
