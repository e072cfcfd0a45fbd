/-
Module: StoragePlatform.Renewal
Purpose: Certificate renewal between an agent and the metadata service:
  renewCert (internal/agent/renew.go), RenewCertificate
  (internal/metadata/nodes.go) and RotateNodeCert (internal/store/nodes.go).
Trusted boundary: human-reviewed spec; issuing a leaf and the hash of a
  certificate are parameters
Main exports: NodeCert, checkRenew, rotateNodeCert, RenewPhase, RotationSystem.step
-/
import StoragePlatform.Lib.Runs
import StoragePlatform.Store.Schema

namespace StoragePlatform

open Lib

/-!
The two parties share nothing but messages.  The platform pins one fingerprint
per node; the agent holds one certificate on disk and presents the one in
memory.  Every statement, file operation and message is a step of its own, and
between two steps a message may be lost, a call may fail and either side may
stop.
-/

/-! ### RenewCertificate -/

/-- The columns of the node's row that renewal reads and writes. -/
structure NodeCert where
  fingerprint : Bytes
  publicKey : Bytes
  certPem : Bytes
  certExpiresAt : Time
  status : NodeStatus
  revokedAt : Option Time
deriving DecidableEq, Repr

inductive RenewErr where
  | invalid
  | forbidden
  | failed
deriving DecidableEq, Repr

/-- What `IssueNode` returns: a leaf, the key in the CSR and the expiry.  The
fingerprint is the hash of the leaf. -/
structure Leaf where
  certPem : Bytes
  publicKey : Bytes
  expiresAt : Time
deriving DecidableEq, Repr

/-- `AdmitNodeRenew`. -/
def admitNodeRenew (n : NodeCert) : Bool :=
  n.revokedAt = none ∧ n.status ≠ .quarantined

/-- The checks of `RenewCertificate` on the row it loaded. -/
def checkRenew (n : NodeCert) (peerFp : Bytes) : Except RenewErr Unit :=
  if admitNodeRenew n = false then .error .forbidden
  else if peerFp ≠ n.fingerprint then .error .forbidden
  else .ok ()

/-- `RotateNodeCert`: an UPDATE of the row unless the node is revoked; `none` is
`ErrNotFound`. -/
def rotateNodeCert (fingerprint : Bytes → Bytes) (n : NodeCert) (leaf : Leaf) :
    Option NodeCert :=
  if n.revokedAt ≠ none then none
  else
    some { n with
      fingerprint := fingerprint leaf.certPem
      certPem := leaf.certPem
      certExpiresAt := leaf.expiresAt }

/-- Where one request is: on its way, inside `RenewCertificate`, answered, or
gone with a lost message or a stopped server. -/
inductive RenewPhase where
  | sent (peerFp : Bytes)
  | admitted (loaded : NodeCert)
  | issued (leaf : Leaf)
  | rotated (leaf : Leaf)
  | granted (certPem : Bytes)
  | refused (error : RenewErr)
  | gone
deriving DecidableEq, Repr

inductive RenewMove where
  | load
  | issue (leaf : Leaf)
  | rotate
  | reply
  | fail (error : RenewErr)
  | vanish
deriving DecidableEq, Repr

/-- One move of a call: the row and the phase after it. -/
def RenewPhase.advance (fingerprint : Bytes → Bytes) (node : NodeCert) :
    RenewPhase → RenewMove → Option (NodeCert × RenewPhase)
  | .sent peerFp, .load =>
    match checkRenew node peerFp with
    | .error e => some (node, .refused e)
    | .ok _ => some (node, .admitted node)
  | .admitted loaded, .issue leaf =>
    if leaf.publicKey ≠ loaded.publicKey then some (node, .refused .invalid)
    else some (node, .issued leaf)
  | .issued leaf, .rotate =>
    match rotateNodeCert fingerprint node leaf with
    | none => some (node, .refused .failed)
    | some pinned => some (pinned, .rotated leaf)
  | .rotated leaf, .reply => some (node, .granted leaf.certPem)
  | .sent _, .fail e => some (node, .refused e)
  | .admitted _, .fail e => some (node, .refused e)
  | .issued _, .fail e => some (node, .refused e)
  | _, .vanish => some (node, .gone)
  | _, _ => none

/-! ### renewCert -/

/-- The agent's attempt.  `persistIdentity` truncates `node.crt` and then writes
it; only after that is the certificate installed in memory. -/
inductive AttemptPhase where
  | down
  | idle
  | waiting (call : Nat)
  | received (certPem : Bytes)
  | truncated (certPem : Bytes)
  | written (certPem : Bytes)
deriving DecidableEq, Repr

/-- `disk` is the content of `node.crt`, `none` while it is truncated; `memory`
is the certificate the agent presents. -/
structure RenewSystem where
  node : NodeCert
  calls : List RenewPhase
  disk : Option Bytes
  memory : Bytes
  agent : AttemptPhase
deriving DecidableEq, Repr

/-- A registered node whose agent is running. -/
def RenewSystem.init (fingerprint : Bytes → Bytes) (node : NodeCert) (certPem : Bytes) :
    RenewSystem where
  node := { node with fingerprint := fingerprint certPem, certPem := certPem }
  calls := []
  disk := some certPem
  memory := certPem
  agent := .idle

inductive RenewEvent where
  | send
  | call (i : Nat) (move : RenewMove)
  | receive
  | giveUp
  | openFile
  | openFails
  | writeFile
  | writeFails
  | install (ok : Bool)
  | crash
  | start
  | revoke (time : Time)
  | setStatus (status : NodeStatus)
deriving DecidableEq, Repr

def RenewSystem.step (fingerprint : Bytes → Bytes) (s : RenewSystem) :
    RenewEvent → Option RenewSystem
  | .send =>
    if s.agent = .idle then
      some { s with
        calls := s.calls ++ [.sent (fingerprint s.memory)]
        agent := .waiting s.calls.length }
    else none
  | .call i move =>
    match s.calls[i]? with
    | none => none
    | some phase =>
      match phase.advance fingerprint s.node move with
      | none => none
      | some (node, phase) => some { s with node := node, calls := s.calls.set i phase }
  | .receive =>
    match s.agent with
    | .waiting i =>
      match s.calls[i]? with
      | some (.granted certPem) =>
        some { s with calls := s.calls.set i .gone, agent := .received certPem }
      | some (.refused _) => some { s with calls := s.calls.set i .gone, agent := .idle }
      | _ => none
    | _ => none
  | .giveUp =>
    match s.agent with
    | .waiting _ => some { s with agent := .idle }
    | _ => none
  | .openFile =>
    match s.agent with
    | .received certPem => some { s with disk := none, agent := .truncated certPem }
    | _ => none
  | .openFails =>
    match s.agent with
    | .received _ => some { s with agent := .idle }
    | _ => none
  | .writeFile =>
    match s.agent with
    | .truncated certPem => some { s with disk := some certPem, agent := .written certPem }
    | _ => none
  | .writeFails =>
    match s.agent with
    | .truncated _ => some { s with agent := .idle }
    | _ => none
  | .install ok =>
    -- `writeNodeID` or `tlsCert` may still fail and leave the old one in memory
    match s.agent with
    | .written certPem =>
      some { s with memory := if ok then certPem else s.memory, agent := .idle }
    | _ => none
  | .crash => some { s with agent := .down }
  | .start =>
    match s.agent, s.disk with
    | .down, some certPem => some { s with memory := certPem, agent := .idle }
    | _, _ => none
  | .revoke time =>
    if s.node.revokedAt = none then some { s with node := { s.node with revokedAt := some time } }
    else none
  | .setStatus status => some { s with node := { s.node with status := status } }

/-! ### Concurrent calls

Whoever holds a leaf of the node can present it, in any number of calls at once.
-/

/-- A call with the fingerprint of its peer.  `seen` is history: how often the row had
been rotated when the call loaded it. -/
structure PeerCall where
  peerFp : Bytes
  phase : RenewPhase
  seen : Nat
deriving DecidableEq, Repr

/-- A rotation: the fingerprint that authorized it and the one the row had. -/
structure Rotation where
  authorizedBy : Bytes
  pinned : Bytes
deriving DecidableEq, Repr

structure RotationSystem where
  node : NodeCert
  calls : List PeerCall
  rotations : List Rotation
deriving DecidableEq, Repr

def RotationSystem.init (node : NodeCert) : RotationSystem := ⟨node, [], []⟩

inductive RotationEvent where
  | request (peerFp : Bytes)
  | call (i : Nat) (move : RenewMove)
  | revoke (time : Time)
  | setStatus (status : NodeStatus)
deriving DecidableEq, Repr

/-- What a move of a call has rotated, given the phase it ends in. -/
def PeerCall.rotation (c : PeerCall) (node : NodeCert) : RenewMove → RenewPhase → List Rotation
  | .rotate, .rotated _ => [{ authorizedBy := c.peerFp, pinned := node.fingerprint }]
  | _, _ => []

def RotationSystem.step (fingerprint : Bytes → Bytes) (s : RotationSystem) :
    RotationEvent → Option RotationSystem
  | .request peerFp =>
    some { s with calls := s.calls ++ [{ peerFp := peerFp, phase := .sent peerFp, seen := 0 }] }
  | .call i move =>
    match s.calls[i]? with
    | none => none
    | some c =>
      match c.phase.advance fingerprint s.node move with
      | none => none
      | some (node, phase) =>
        let seen := if move = .load then s.rotations.length else c.seen
        some { node := node
               calls := s.calls.set i { c with phase := phase, seen := seen }
               rotations := s.rotations ++ c.rotation s.node move phase }
  | .revoke time =>
    if s.node.revokedAt = none then some { s with node := { s.node with revokedAt := some time } }
    else none
  | .setStatus status => some { s with node := { s.node with status := status } }

end StoragePlatform
