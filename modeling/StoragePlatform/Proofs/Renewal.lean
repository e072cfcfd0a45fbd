/-
Module: StoragePlatform.Proofs.Renewal
Purpose: When an agent keeps a certificate the platform accepts, over every
  interleaving of renewals, losses and crashes.
Trusted boundary: none
Main exports: RenewSystem.owed, NotLockedOut, Careful, RenewInv, renewal_keeps_access
-/
import StoragePlatform.Renewal

namespace StoragePlatform

open Lib

variable {node : NodeCert} {phase phase' : RenewPhase} {move : RenewMove} {agent : AttemptPhase}
variable {i : Nat}

/-!
The row pins the new fingerprint as soon as it is rotated, while the new leaf
still has to reach the agent's disk.  Until then the leaf is owed to the agent:
whatever ends the attempt in between leaves a node whose certificate nobody
accepts any more.
-/

/-- The leaf of a call that has rotated the row and has not been received. -/
def RenewPhase.leaf? : RenewPhase → Option Bytes
  | .rotated leaf => some leaf.certPem
  | .granted certPem => some certPem
  | _ => none

/-- The certificate the agent's attempt is about to persist, once the row has
been rotated for it. -/
def RenewSystem.owed (s : RenewSystem) : Option Bytes :=
  match s.agent with
  | .waiting i => (s.calls[i]?).bind RenewPhase.leaf?
  | .received certPem => some certPem
  | .truncated certPem => some certPem
  | _ => none

/-- No renewal is under way at the agent. -/
def RenewSystem.Settled (s : RenewSystem) : Prop := s.agent = .idle ∨ s.agent = .down

/-- While the node is neither revoked nor quarantined, `RenewCertificate` accepts
the certificate on the agent's disk or, in the middle of an attempt, the one the
attempt is about to put there. -/
def NotLockedOut (fingerprint : Bytes → Bytes) (s : RenewSystem) : Prop :=
  s.node.revokedAt = none → s.node.status ≠ .quarantined →
    (∃ cert, s.disk = some cert ∧ checkRenew s.node (fingerprint cert) = .ok ()) ∨
    (¬ s.Settled ∧ ∃ cert, s.owed = some cert ∧ checkRenew s.node (fingerprint cert) = .ok ())

/-- The row is rotated only for an agent that still waits for it, and a leaf that
is owed to the agent is not lost: its answer arrives, the agent does not give up
or stop before it has written the file, and the file operations work. -/
def Careful (s : RenewSystem) : RenewEvent → Prop
  | .call i .rotate => s.agent = .waiting i
  | .call i .vanish => s.owed = none ∨ s.agent ≠ .waiting i
  | .giveUp => s.owed = none
  | .openFails => s.owed = none
  | .writeFails => s.owed = none
  | .crash => s.owed = none
  | _ => True

instance (s : RenewSystem) (e : RenewEvent) : Decidable (Careful s e) := by
  unfold Careful
  split <;> infer_instance

/-! ### What a call does -/

/-- A move of a call rotates the row, or leaves the row alone and at most drops
the leaf. -/
theorem RenewPhase.advance_inv {fingerprint : Bytes → Bytes} {node' : NodeCert}
    (moved : phase.advance fingerprint node move = some (node', phase')) :
    (move = .rotate ∧ ∃ leaf, phase' = .rotated leaf ∧
      node'.fingerprint = fingerprint leaf.certPem) ∨
    (node' = node ∧ (phase'.leaf? = phase.leaf? ∨ (move = .vanish ∧ phase'.leaf? = none))) := by
  simp only [advance] at moved
  split at moved
  case h_3 =>
    split at moved <;> cases moved
    · exact .inr ⟨rfl, .inl rfl⟩
    · rename_i pinned rotated
      simp only [rotateNodeCert] at rotated
      split at rotated <;> cases rotated
      exact .inl ⟨rfl, _, rfl, rfl⟩
  case h_8 =>
    cases moved
    exact .inr ⟨rfl, .inr ⟨rfl, rfl⟩⟩
  all_goals
    try split at moved
    all_goals
      cases moved
      try exact .inr ⟨rfl, .inl rfl⟩

/-! ### The invariant -/

/-- The pinned fingerprint is that of the certificate owed to the agent or, if
none is, of the one on its disk; and only the call the agent waits for has a leaf. -/
structure RenewInv (fingerprint : Bytes → Bytes) (s : RenewSystem) : Prop where
  pinned : ∃ cert, s.owed.or s.disk = some cert ∧ s.node.fingerprint = fingerprint cert
  current : ∀ (i : Nat) (phase : RenewPhase), s.calls[i]? = some phase → phase.leaf? ≠ none →
    s.agent = .waiting i

theorem RenewInv.init (fingerprint : Bytes → Bytes) (node : NodeCert) (certPem : Bytes) :
    RenewInv fingerprint (.init fingerprint node certPem) where
  pinned := ⟨certPem, rfl, rfl⟩
  current := by simp [RenewSystem.init]

section Steps

open RenewSystem (owed)

variable {fingerprint : Bytes → Bytes} {s t : RenewSystem}

theorem RenewInv.notLockedOut (inv : RenewInv fingerprint s) : NotLockedOut fingerprint s := by
  intro notRevoked notQuarantined
  obtain ⟨cert, found, pinned⟩ := inv.pinned
  have accepted : checkRenew s.node (fingerprint cert) = .ok () := by
    simp [checkRenew, admitNodeRenew, notRevoked, notQuarantined, pinned]
  cases due : s.owed with
  | none =>
    rw [due, Option.none_or] at found
    exact .inl ⟨cert, found, accepted⟩
  | some certPem =>
    rw [due, Option.some_or] at found
    refine .inr ⟨?_, certPem, rfl, Option.some.inj found ▸ accepted⟩
    rintro (idle | down)
    · simp [owed, idle] at due
    · simp [owed, down] at due

/-- An attempt that ends while nothing is owed leaves everything as it is. -/
theorem RenewInv.ended (inv : RenewInv fingerprint s) (clear : s.owed = none)
    (past : agent = .idle ∨ agent = .down) : RenewInv fingerprint { s with agent := agent } := by
  have gone : owed { s with agent := agent } = none := by
    rcases past with rfl | rfl <;> rfl
  refine ⟨?_, fun i phase found leaf => ?_⟩
  · obtain ⟨cert, isDisk, pinned⟩ := inv.pinned
    rw [clear] at isDisk
    exact ⟨cert, by rw [gone]; exact isDisk, pinned⟩
  · have waiting := inv.current i phase found leaf
    have due : s.owed = phase.leaf? := by simp [owed, waiting, found]
    exact absurd (due.symm.trans clear) leaf

theorem RenewSystem.owed_set (found : s.calls[i]? = some phase)
    (same : s.agent = .waiting i → phase'.leaf? = phase.leaf?) :
    owed { s with node := node, calls := s.calls.set i phase' } = s.owed := by
  simp only [owed]
  cases waiting : s.agent with
  | waiting j =>
    by_cases here : i = j
    · subst here
      simp [getElem?_set_here found, found, same waiting]
    · simp [List.getElem?_set_ne here]
  | _ => rfl

theorem RenewInv.call (inv : RenewInv fingerprint s) (found : s.calls[i]? = some phase)
    (moved : phase.advance fingerprint s.node move = some (node, phase'))
    (careful : Careful s (.call i move)) :
    RenewInv fingerprint { s with node := node, calls := s.calls.set i phase' } := by
  have others : ∀ (j : Nat) (other : RenewPhase), i ≠ j →
      (s.calls.set i phase')[j]? = some other → other.leaf? ≠ none → s.agent = .waiting j := by
    intro j other apart there leaf
    rw [List.getElem?_set_ne apart] at there
    exact inv.current j other there leaf
  have own : (s.calls.set i phase')[i]? = some phase' := getElem?_set_here found
  rcases RenewPhase.advance_inv moved with ⟨rfl, leaf, rfl, pinned⟩ | ⟨rfl, kept⟩
  · -- the row is rotated: the new leaf is owed to the agent, which waits for this call
    have waiting : s.agent = .waiting i := careful
    refine ⟨⟨leaf.certPem, ?_, pinned⟩, fun j other there hasLeaf => ?_⟩
    · simp [owed, waiting, own, RenewPhase.leaf?]
    · by_cases apart : i = j
      · rw [← apart]
        exact waiting
      · exact others j other apart there hasLeaf
  · have same : s.agent = .waiting i → phase'.leaf? = phase.leaf? := by
      intro waiting
      rcases kept with same | ⟨rfl, dropped⟩
      · exact same
      · have clear : s.owed = none := careful.resolve_right fun away => away waiting
        simp only [owed, waiting, found, Option.bind_some] at clear
        rw [dropped, clear]
    refine ⟨?_, fun j other there hasLeaf => ?_⟩
    · rw [RenewSystem.owed_set found same]
      exact inv.pinned
    · by_cases apart : i = j
      · subst apart
        cases own.symm.trans there
        rcases kept with same | ⟨_, dropped⟩
        · exact inv.current i phase found (same ▸ hasLeaf)
        · exact absurd dropped hasLeaf
      · exact others j other apart there hasLeaf

theorem RenewInv.receive (inv : RenewInv fingerprint s)
    (moved : s.step fingerprint .receive = some t) : RenewInv fingerprint t := by
  simp only [RenewSystem.step] at moved
  split at moved
  case h_2 => cases moved
  rename_i i waiting
  -- the answered call is gone; any other call has no leaf
  have noLeaf : ∀ (agent : AttemptPhase) (j : Nat) (phase : RenewPhase),
      (s.calls.set i .gone)[j]? = some phase → phase.leaf? ≠ none → agent = .waiting j := by
    intro agent j phase there leaf
    rcases getElem?_set_inv there with ⟨-, rfl⟩ | ⟨apart, there⟩
    · exact absurd rfl leaf
    · have current := inv.current j phase there leaf
      rw [waiting, AttemptPhase.waiting.injEq] at current
      exact absurd current apart
  obtain ⟨cert, found, pinned⟩ := inv.pinned
  split at moved <;> cases moved
  all_goals
    rename_i answer
    simp only [owed, waiting, answer, Option.bind_some, RenewPhase.leaf?] at found
    exact ⟨⟨cert, found, pinned⟩, noLeaf _⟩

/-- A phase of the attempt in which no call is waited for. -/
theorem RenewInv.noLeaf (inv : RenewInv fingerprint s) (notWaiting : ∀ i, s.agent ≠ .waiting i)
    {i : Nat} {phase : RenewPhase} (found : s.calls[i]? = some phase) : phase.leaf? = none := by
  by_contra leaf
  exact notWaiting i (inv.current i phase found leaf)

/-- An attempt moves on without a call: what is owed, or else on disk, stays. -/
theorem RenewInv.movedOn (inv : RenewInv fingerprint s) (notWaiting : ∀ i, s.agent ≠ .waiting i)
    {disk : Option Bytes} {memory : Bytes}
    (same : (owed { s with disk := disk, memory := memory, agent := agent }).or disk =
      s.owed.or s.disk) :
    RenewInv fingerprint { s with disk := disk, memory := memory, agent := agent } where
  pinned := by
    rw [same]
    exact inv.pinned
  current := fun _ _ there leaf => absurd (inv.noLeaf notWaiting there) leaf

theorem RenewInv.step {e : RenewEvent} (inv : RenewInv fingerprint s)
    (moved : s.step fingerprint e = some t) (careful : Careful s e) : RenewInv fingerprint t := by
  cases e with
  | send =>
    simp only [RenewSystem.step] at moved
    split at moved <;> cases moved
    rename_i idle
    have noLeaf := @RenewInv.noLeaf fingerprint s inv (by simp [idle])
    obtain ⟨cert, found, pinned⟩ := inv.pinned
    refine ⟨⟨cert, ?_, pinned⟩, fun i phase there leaf => ?_⟩
    · simp only [owed, idle, Option.none_or] at found
      simp [owed, RenewPhase.leaf?, found]
    · rcases getElem?_append_inv there with there | ⟨-, rfl⟩
      · exact absurd (noLeaf there) leaf
      · exact absurd rfl leaf
  | call i move =>
    simp only [RenewSystem.step] at moved
    split at moved
    · cases moved
    · rename_i phase found
      split at moved <;> cases moved
      rename_i node phase' advanced
      exact inv.call found advanced careful
  | receive => exact inv.receive moved
  | giveUp | openFails | writeFails =>
    simp only [RenewSystem.step] at moved
    split at moved <;> cases moved
    exact inv.ended careful (.inl rfl)
  | crash =>
    cases moved
    exact inv.ended careful (.inr rfl)
  | openFile | writeFile | install ok =>
    simp only [RenewSystem.step] at moved
    split at moved <;> cases moved
    rename_i certPem agent
    exact inv.movedOn (by simp [agent]) (by simp [owed, agent])
  | start =>
    simp only [RenewSystem.step] at moved
    split at moved <;> cases moved
    rename_i certPem down onDisk
    exact inv.movedOn (by simp [down]) (by simp [owed, down])
  | revoke time =>
    simp only [RenewSystem.step] at moved
    split at moved <;> cases moved
    exact ⟨inv.pinned, inv.current⟩
  | setStatus status =>
    cases moved
    exact ⟨inv.pinned, inv.current⟩

end Steps

/-- Requests may be lost, refused or fail on either side, and the agent may stop
at any time, as long as the row is rotated only for an agent that still waits and
a leaf it was rotated for is not lost: then the node is never locked out. -/
theorem renewal_keeps_access (fingerprint : Bytes → Bytes) (node : NodeCert) (certPem : Bytes)
    (events : List RenewEvent)
    (careful : EveryStep (RenewSystem.step fingerprint) (fun s e _ => Careful s e)
      (.init fingerprint node certPem) events) :
    EveryState (RenewSystem.step fingerprint) (NotLockedOut fingerprint)
      (.init fingerprint node certPem) events := by
  refine EveryState.mono (P := RenewInv fingerprint) (fun s inv => inv.notLockedOut) ?_
  exact EveryState.of_step (fun s e t inv moved good => inv.step moved good)
    (RenewInv.init fingerprint node certPem) careful

namespace Sample

def nodeCert : NodeCert where
  fingerprint := []
  publicKey := [1]
  certPem := []
  certExpiresAt := 100
  status := .online
  revokedAt := none

def renewedLeaf : Leaf := ⟨[8], [1], 200⟩

/-- A lost request, then a renewal that goes through and a restart. -/
def renewed : List RenewEvent :=
  [.send, .call 0 .vanish, .giveUp,
    .send, .call 1 .load, .call 1 (.issue renewedLeaf), .call 1 .rotate, .call 1 .reply, .receive,
    .openFile, .writeFile, .crash, .start]

/-- The answer to the first renewal is lost; the agent tries again. -/
def lostAnswer : List RenewEvent :=
  [.send, .call 0 .load, .call 0 (.issue renewedLeaf), .call 0 .rotate, .call 0 .vanish, .giveUp]

def retried : List RenewEvent := [.send, .call 1 .load]

end Sample

open Sample

/-- After a lost request, a renewal and a restart the agent presents the new leaf
and is accepted. -/
theorem renewed_keeps_access :
    ∃ t, exec (RenewSystem.step id) (.init id nodeCert [7]) renewed = some t ∧
      t.memory = [8] ∧ t.Settled ∧ NotLockedOut id t := by
  have ran : (exec (RenewSystem.step id) (.init id nodeCert [7]) renewed).map
      (fun t => (t.memory, t.agent)) = some ([8], .idle) := by
    decide +kernel
  have careful : EveryStep (RenewSystem.step id) (fun s e _ => Careful s e)
      (.init id nodeCert [7]) renewed := by
    decide +kernel
  rw [Option.map_eq_some_iff] at ran
  obtain ⟨t, reached, ended⟩ := ran
  rw [Prod.mk.injEq] at ended
  have kept := renewal_keeps_access id nodeCert [7] renewed careful
  exact ⟨t, reached, ended.1, .inl ended.2, kept.last reached⟩

/-- One lost answer: the agent is idle with the old certificate, the row pins the
new one, and the next attempt is refused. -/
theorem lostAnswer_locks_out :
    ∃ s t, exec (RenewSystem.step id) (.init id nodeCert [7]) lostAnswer = some s ∧
      s.Settled ∧ ¬ NotLockedOut id s ∧
      exec (RenewSystem.step id) s retried = some t ∧
      t.calls = [.gone, .refused .forbidden] := by
  have ran : (exec (RenewSystem.step id) (.init id nodeCert [7]) lostAnswer).bind
      (fun s => (exec (RenewSystem.step id) s retried).map fun t =>
        (s.disk, s.agent, s.node, t.calls)) =
      some (some [7], .idle,
        { nodeCert with fingerprint := [8], certPem := [8], certExpiresAt := 200 },
        [.gone, .refused .forbidden]) := by
    decide +kernel
  simp only [Option.bind_eq_some_iff, Option.map_eq_some_iff, Prod.mk.injEq] at ran
  obtain ⟨s, first, t, second, disk, idle, node, calls⟩ := ran
  refine ⟨s, t, first, .inl idle, fun access => ?_, second, calls⟩
  rcases access (by rw [node]; rfl) (by rw [node]; decide) with ⟨cert, onDisk, accepted⟩ | ⟨busy, _⟩
  · rw [disk] at onDisk
    cases onDisk
    rw [node] at accepted
    cases accepted
  · exact busy (.inl idle)

end StoragePlatform
