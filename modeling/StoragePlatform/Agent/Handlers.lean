/-
Module: StoragePlatform.Agent.Handlers
Purpose: The four fragment handlers of an agent, whole (internal/agent/fragments.go), and
  a run of requests with what the node signs on the way.
Trusted boundary: human-reviewed spec; SHA-256 and the node's key are parameters, path and
  query values arrive as parsed or as unparsable
Main exports: NodeEnv, AgentDisk, Reply, Signing, handlePut, handleGet, NodeSystem.step
-/
import StoragePlatform.Agent.Store
import StoragePlatform.Signing

namespace StoragePlatform

open Lib

/-- An agent with its identity key. -/
structure NodeEnv extends AgentEnv where
  hash : Bytes → Bytes
  priv : PrivateKey

structure AgentDisk where
  store : ChunkStore
  nonces : NonceBucket

inductive Reply where
  | error (answer : Answer)
  /-- The JSON object of a PUT. -/
  | receipt (wire : Text)
  /-- The body of a GET, its `Content-Length` and its `X-DSP-Receipt`.  A range request is
  cut from the same file. -/
  | fragment (data : Bytes) (length : Int) (receipt : Text)
  | noContent
  /-- The JSON object of a challenge. -/
  | sha256 (hex : Text)
deriving DecidableEq, Repr

/-- A receipt the node has signed, with the ticket of the request: by `Sign` for a PUT, by
`SignEgress` for a GET. -/
inductive Signing where
  | stored (ticket : Ticket) (receipt : Receipt)
  | served (ticket : Ticket) (receipt : Receipt)
deriving DecidableEq, Repr

def Signing.receipt : Signing → Receipt
  | .stored _ r | .served _ r => r

/-- What a handler answers, leaves on disk and has signed. -/
structure Handled where
  reply : Reply
  disk : AgentDisk
  signed : Option Signing

def Handled.refuse (disk : AgentDisk) (answer : Answer) : Handled := ⟨.error answer, disk, none⟩

/-- The clocks of a request: of `Verify` and of `ConsumeNonce`. -/
structure Clocks where
  verify : Instant
  consume : Instant
deriving DecidableEq, Repr

/-- What all handlers do after `Verify`: the nonce is consumed, or the request is a
replay. -/
def consumeThen (disk : AgentDisk) (tk : Ticket) (now : Instant) (serve : AgentDisk → Handled) :
    Handled :=
  match consumeNonce disk.nonces tk.nonce tk.expiresAt now with
  | none => .refuse disk .replay
  | some nonces => serve { disk with nonces := nonces }

/-- `handlePut`. -/
def handlePut (env : NodeEnv) (disk : AgentDisk) (at_ : Clocks) (id : Option Uuid) (wire : Text)
    (body : Upload) (putEnv : PutEnv) : Handled :=
  match admitFragment env.toAgentEnv at_.verify .put id wire with
  | .error answer => .refuse disk answer
  | .ok tk =>
    consumeThen disk tk at_.consume fun disk =>
      match disk.store.put env.hash (id.getD 0) body tk.sha256 tk.maxBytes tk.expiresAt
          putEnv with
      | (.error .hash, store) =>
        .refuse { disk with store := store } ⟨400, "agent: fragment hash mismatch"⟩
      | (.error .tooLarge, store) =>
        .refuse { disk with store := store } ⟨400, "agent: fragment exceeds max_bytes"⟩
      | (.error _, store) => .refuse { disk with store := store } ⟨500, "store failed"⟩
      | (.ok fragMeta, store) =>
        match signReceipt env.priv env.nodeId (id.getD 0) fragMeta.sha256
            (toUint64 fragMeta.size) fragMeta.storedAt with
        | .error _ => .refuse { disk with store := store } ⟨500, "sign failed"⟩
        | .ok r => ⟨.receipt r.raw, { disk with store := store }, some (.stored tk r)⟩

/-- `handleGet`. -/
def handleGet (env : NodeEnv) (disk : AgentDisk) (at_ : Clocks) (id : Option Uuid)
    (wire : Text) : Handled :=
  match admitFragment env.toAgentEnv at_.verify .get id wire with
  | .error answer => .refuse disk answer
  | .ok tk =>
    consumeThen disk tk at_.consume fun disk =>
      match disk.store.get (id.getD 0) with
      | .error _ => .refuse disk ⟨404, "not found"⟩
      | .ok (data, fragMeta) =>
        -- a ticket of zeros does not name a hash
        if tk.sha256.length = 32 ∧ tk.sha256 ≠ fragMeta.sha256 ∧ ¬ tk.sha256.all (· = 0) then
          .refuse disk ⟨409, "hash mismatch"⟩
        else
          match signEgress env.priv env.nodeId (id.getD 0) fragMeta.sha256
              (toUint64 fragMeta.size) fragMeta.storedAt tk.nonce with
          | .error _ => .refuse disk ⟨500, "sign failed"⟩
          | .ok r => ⟨.fragment data fragMeta.size r.raw, disk, some (.served tk r)⟩

/-- `handleDelete`; `fault` is an error of the index. -/
def handleDelete (env : NodeEnv) (disk : AgentDisk) (at_ : Clocks) (id : Option Uuid)
    (wire : Text) (fault : Bool) : Handled :=
  match admitFragment env.toAgentEnv at_.verify .delete id wire with
  | .error answer => .refuse disk answer
  | .ok tk =>
    consumeThen disk tk at_.consume fun disk =>
      match disk.store.delete (id.getD 0) fault with
      | (.error _, store) => .refuse { disk with store := store } ⟨500, "delete failed"⟩
      | (.ok _, store) => ⟨.noContent, { disk with store := store }, none⟩

/-- `handleChallenge`. -/
def handleChallenge (env : NodeEnv) (disk : AgentDisk) (at_ : Clocks) (id : Option Uuid)
    (offset length : Option Int) (nonce : Option Bytes) (wire : Text) : Handled :=
  match admitChallenge env.toAgentEnv at_.verify id offset length nonce wire with
  | .error answer => .refuse disk answer
  | .ok tk =>
    consumeThen disk tk at_.consume fun disk =>
      match disk.store.readRange (id.getD 0) (offset.getD 0) (length.getD 0) with
      | .error .notStored => .refuse disk ⟨404, "not found"⟩
      | .error .tooLarge => .refuse disk ⟨400, "range"⟩
      | .error _ => .refuse disk ⟨500, "read failed"⟩
      | .ok rng => ⟨.sha256 (encodeHex (env.hash (nonce.getD [] ++ rng))), disk, none⟩

/-! ### Requests one after the other -/

inductive NodeRequest where
  | put (id : Option Uuid) (wire : Text) (body : Upload) (putEnv : PutEnv)
  | get (id : Option Uuid) (wire : Text)
  | delete (id : Option Uuid) (wire : Text) (fault : Bool)
  | challenge (id : Option Uuid) (offset length : Option Int) (nonce : Option Bytes) (wire : Text)
deriving DecidableEq, Repr

def NodeRequest.handle (env : NodeEnv) (disk : AgentDisk) (at_ : Clocks) : NodeRequest → Handled
  | .put id wire body putEnv => handlePut env disk at_ id wire body putEnv
  | .get id wire => handleGet env disk at_ id wire
  | .delete id wire fault => handleDelete env disk at_ id wire fault
  | .challenge id offset length nonce wire =>
    handleChallenge env disk at_ id offset length nonce wire

/-- An agent's disk and the history of what it has signed. -/
structure NodeSystem where
  disk : AgentDisk
  signed : List Signing

def NodeSystem.init : NodeSystem := ⟨⟨.empty, fun _ => none⟩, []⟩

def NodeSystem.step (env : NodeEnv) (s : NodeSystem) (event : NodeRequest × Clocks) :
    Option NodeSystem :=
  let handled := event.1.handle env s.disk event.2
  some ⟨handled.disk, s.signed ++ handled.signed.toList⟩

end StoragePlatform
