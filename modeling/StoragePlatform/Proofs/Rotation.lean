/-
Module: StoragePlatform.Proofs.Rotation
Purpose: When the leaf that authorizes a rotation is the one the row pins, over every
  interleaving of RenewCertificate calls.
Trusted boundary: none
Main exports: RotationsAuthorized, NewLeaf, LoadedLast, rotations_authorized_iff
-/
import StoragePlatform.Renewal

namespace StoragePlatform

open Lib List

variable {fingerprint : Bytes → Bytes} {s : RotationSystem} {i : Nat} {c : PeerCall} {leaf : Leaf}
variable {move : RenewMove}

/-!
`RenewCertificate` compares the peer's fingerprint with a row it has read, and
`RotateNodeCert` updates by the id of the node alone.  What has happened to the row in
between does not stop the update.
-/

/-- Every rotation was authorized by the leaf the row pinned, and no leaf authorized two. -/
structure RotationsAuthorized (s : RotationSystem) : Prop where
  once : (s.rotations.map Rotation.authorizedBy).Nodup
  pinned : ∀ r ∈ s.rotations, r.pinned = r.authorizedBy

/-- The fingerprints the row has had, the present one last. -/
def RotationSystem.fingerprints (s : RotationSystem) : List Bytes :=
  s.rotations.map Rotation.pinned ++ [s.node.fingerprint]

/-- A leaf about to be pinned is not one the node has had. -/
def NewLeaf (fingerprint : Bytes → Bytes) (s : RotationSystem) : RotationEvent → Bool
  | .call i .rotate =>
    match s.calls[i]? with
    | some { phase := .issued leaf, .. } => fingerprint leaf.certPem ∉ s.fingerprints
    | _ => true
  | _ => true

/-- A call about to rotate the row has loaded it after the last rotation. -/
def LoadedLast (s : RotationSystem) : RotationEvent → Bool
  | .call i .rotate =>
    match s.calls[i]? with
    | some { phase := .issued _, seen := seen, .. } =>
      s.node.revokedAt ≠ none ∨ seen = s.rotations.length
    | _ => true
  | _ => true

theorem newLeaf_issued (found : s.calls[i]? = some c) (issued : c.phase = .issued leaf) :
    NewLeaf fingerprint s (.call i .rotate) = true ↔ fingerprint leaf.certPem ∉ s.fingerprints := by
  obtain ⟨peerFp, phase, seen⟩ := c
  cases issued
  simp only [NewLeaf, found, decide_eq_true_eq]

theorem loadedLast_issued (found : s.calls[i]? = some c) (issued : c.phase = .issued leaf) :
    LoadedLast s (.call i .rotate) = true ↔
      (s.node.revokedAt ≠ none ∨ c.seen = s.rotations.length) := by
  obtain ⟨peerFp, phase, seen⟩ := c
  cases issued
  simp only [LoadedLast, found, decide_eq_true_eq]

/-- Other steps than a rotation in its last statement are not asked anything. -/
theorem loadedLast_of_other (found : s.calls[i]? = some c)
    (other : move = .rotate → ∀ leaf, c.phase ≠ .issued leaf) :
    LoadedLast s (.call i move) = true := by
  obtain ⟨peerFp, phase, seen⟩ := c
  cases move with
  | rotate =>
    simp only [LoadedLast, found]
    cases phase with
    | issued leaf => exact absurd rfl (other rfl leaf)
    | _ => rfl
  | _ => rfl

/-! ### What a move does -/

/-- The call has passed the check and not rotated the row yet. -/
def RenewPhase.authorized : RenewPhase → Bool
  | .admitted _ | .issued _ => true
  | _ => false

/-- The three kinds of moves: the check, the rotation, and those that leave the row alone
and give no authority. -/
inductive Renewed (fingerprint : Bytes → Bytes) (node : NodeCert) :
    RenewPhase → RenewMove → NodeCert → RenewPhase → Prop where
  | checked {peerFp : Bytes} (matched : peerFp = node.fingerprint) :
      Renewed fingerprint node (.sent peerFp) .load node (.admitted node)
  | rotated {leaf : Leaf} (valid : node.revokedAt = none) :
      Renewed fingerprint node (.issued leaf) .rotate
        { node with
          fingerprint := fingerprint leaf.certPem
          certPem := leaf.certPem
          certExpiresAt := leaf.expiresAt } (.rotated leaf)
  | kept {phase phase' : RenewPhase} {move : RenewMove}
      (notPinned : move = .rotate → ∀ leaf, phase' ≠ .rotated leaf)
      (notSent : ∀ peerFp, phase' ≠ .sent peerFp)
      (authority : phase'.authorized = true → move ≠ .load ∧ phase.authorized = true)
      (refused : ∀ leaf, phase = .issued leaf → move = .rotate → node.revokedAt ≠ none) :
      Renewed fingerprint node phase move node phase'

theorem RenewPhase.advance_renewed {node node' : NodeCert} {phase phase' : RenewPhase}
    (moved : phase.advance fingerprint node move = some (node', phase')) :
    Renewed fingerprint node phase move node' phase' := by
  simp only [advance] at moved
  split at moved
  · rename_i peerFp
    split at moved
    · cases moved
      exact .kept nofun nofun nofun nofun
    · rename_i checked
      cases moved
      simp only [checkRenew] at checked
      split at checked
      · cases checked
      split at checked
      · cases checked
      rename_i matched
      exact .checked (not_not.mp matched)
  · split at moved
    · cases moved
      exact .kept nofun nofun nofun nofun
    · cases moved
      exact .kept nofun nofun (fun _ => ⟨nofun, rfl⟩) nofun
  · split at moved
    · rename_i missing
      cases moved
      refine .kept nofun nofun nofun fun _ _ _ valid => ?_
      simp [rotateNodeCert, valid] at missing
    · rename_i pinned rotated
      cases moved
      simp only [rotateNodeCert] at rotated
      split at rotated <;> cases rotated
      rename_i valid
      exact .rotated (not_not.mp valid)
  all_goals
    cases moved
    try exact .kept nofun nofun nofun nofun

/-! ### The invariant -/

/-- A request names its own fingerprint, and a call past the check has the authority of the
fingerprint the row had when it was loaded. -/
structure PeerCall.Traced (fingerprints : List Bytes) (c : PeerCall) : Prop where
  sent : ∀ peerFp, c.phase = .sent peerFp → peerFp = c.peerFp
  loaded : c.phase.authorized = true → fingerprints[c.seen]? = some c.peerFp

structure RotationInv (s : RotationSystem) : Prop where
  distinct : s.fingerprints.Nodup
  calls : ∀ c ∈ s.calls, c.Traced s.fingerprints
  pinned : ∀ r ∈ s.rotations, r.pinned = r.authorizedBy

section Invariant

variable {t : RotationSystem}

theorem RotationInv.init (node : NodeCert) : RotationInv (.init node) := by
  constructor <;> simp [RotationSystem.init, RotationSystem.fingerprints]

theorem RotationInv.authorized (inv : RotationInv s) : RotationsAuthorized s := by
  have same : s.rotations.map Rotation.authorizedBy = s.rotations.map Rotation.pinned :=
    map_congr_left fun r member => (inv.pinned r member).symm
  constructor
  · rw [same]
    exact (nodup_append.mp inv.distinct).1
  · exact inv.pinned

theorem RotationSystem.fingerprints_last (s : RotationSystem) :
    s.fingerprints[s.rotations.length]? = some s.node.fingerprint := by
  simp [fingerprints]

theorem PeerCall.Traced.grow {fingerprints : List Bytes} (traced : c.Traced fingerprints)
    (more : List Bytes) : c.Traced (fingerprints ++ more) := by
  constructor
  · exact traced.sent
  · intro past
    have before := traced.loaded past
    rw [getElem?_append_left (List.getElem?_eq_some_iff.mp before).1]
    exact before

/-- Steps that rotate nothing. -/
theorem RotationInv.kept (inv : RotationInv s) (rotations : t.rotations = s.rotations)
    (row : t.node.fingerprint = s.node.fingerprint)
    (calls : ∀ c ∈ t.calls, c ∈ s.calls ∨ c.Traced s.fingerprints) : RotationInv t := by
  have same : t.fingerprints = s.fingerprints := by
    rw [RotationSystem.fingerprints, RotationSystem.fingerprints, rotations, row]
  constructor
  · rw [same]
    exact inv.distinct
  · intro c member
    rw [same]
    rcases calls c member with old | traced
    · exact inv.calls c old
    · exact traced
  · rw [rotations]
    exact inv.pinned

/-- A call that passed the check while the row was as it is now. -/
theorem RotationInv.authority (inv : RotationInv s) (member : c ∈ s.calls)
    (past : c.phase.authorized = true) :
    c.seen = s.rotations.length ↔ s.node.fingerprint = c.peerFp := by
  have loaded := (inv.calls c member).loaded past
  constructor
  · intro last
    rw [last, s.fingerprints_last] at loaded
    exact Option.some.inj loaded
  · intro same
    rw [← same, ← s.fingerprints_last] at loaded
    have inRange : s.rotations.length < s.fingerprints.length := by
      simp [RotationSystem.fingerprints]
    exact ((getElem?_inj inRange inv.distinct).mp loaded.symm).symm

/-- A rotation by a call that has loaded the present row, to a leaf the node never had. -/
theorem RotationInv.rotate (inv : RotationInv s) (member : c ∈ s.calls)
    (issued : c.phase = .issued leaf) (new : fingerprint leaf.certPem ∉ s.fingerprints)
    (last : c.seen = s.rotations.length)
    (rotations : t.rotations = s.rotations ++ [⟨c.peerFp, s.node.fingerprint⟩])
    (row : t.node.fingerprint = fingerprint leaf.certPem) {seen : Nat}
    (calls : t.calls = s.calls.set i { c with phase := .rotated leaf, seen := seen }) :
    RotationInv t := by
  have past : c.phase.authorized = true := by
    rw [issued]
    rfl
  have grown : t.fingerprints = s.fingerprints ++ [fingerprint leaf.certPem] := by
    simp [RotationSystem.fingerprints, rotations, row]
  constructor
  · rw [grown]
    refine nodup_append.mpr ⟨inv.distinct, nodup_singleton _, fun fp old fp' isNew => ?_⟩
    rw [mem_singleton.mp isNew]
    exact fun same => new (same ▸ old)
  · intro other found
    rw [grown]
    rw [calls] at found
    rcases mem_or_eq_of_mem_set found with old | rfl
    · exact (inv.calls other old).grow _
    · exact ⟨nofun, nofun⟩
  · intro r recorded
    rw [rotations] at recorded
    rcases mem_append_row.mp recorded with old | rfl
    · exact inv.pinned r old
    · exact (inv.authority member past).mp last

/-- A step either rotates the row, by a call past the check that finds the node valid, or
rotates nothing. -/
theorem RotationSystem.step_rotates {e : RotationEvent} (inv : RotationInv s)
    (moved : s.step fingerprint e = some t) :
    (RotationInv t ∧ t.rotations = s.rotations ∧ LoadedLast s e = true) ∨
    ∃ i c leaf seen, e = .call i .rotate ∧ s.calls[i]? = some c ∧ c.phase = .issued leaf ∧
      s.node.revokedAt = none ∧
      t.rotations = s.rotations ++ [⟨c.peerFp, s.node.fingerprint⟩] ∧
      t.node.fingerprint = fingerprint leaf.certPem ∧
      t.calls = s.calls.set i { c with phase := .rotated leaf, seen := seen } := by
  cases e with
  | request peerFp =>
    cases moved
    refine .inl ⟨inv.kept rfl rfl fun c member => ?_, rfl, rfl⟩
    rcases mem_append_row.mp member with old | rfl
    · exact .inl old
    · exact .inr ⟨fun _ same => (RenewPhase.sent.inj same).symm, nofun⟩
  | revoke time =>
    simp only [step] at moved
    split at moved <;> cases moved
    exact .inl ⟨inv.kept rfl rfl fun c member => .inl member, rfl, rfl⟩
  | setStatus status =>
    cases moved
    exact .inl ⟨inv.kept rfl rfl fun c member => .inl member, rfl, rfl⟩
  | call i move =>
    simp only [step] at moved
    split at moved
    · cases moved
    rename_i c found
    have member := mem_of_getElem? found
    obtain ⟨peerFp, phase, seen⟩ := c
    split at moved <;> cases moved
    rename_i node' phase' advanced
    cases RenewPhase.advance_renewed advanced with
    | checked matched =>
      refine .inl ⟨inv.kept (by simp [PeerCall.rotation]) rfl fun c isCall => ?_,
        by simp [PeerCall.rotation], rfl⟩
      rcases mem_or_eq_of_mem_set isCall with old | rfl
      · exact .inl old
      · refine .inr ⟨nofun, fun _ => ?_⟩
        have own := (inv.calls _ member).sent _ rfl
        rw [if_pos rfl, s.fingerprints_last, ← own, matched]
    | rotated valid => exact .inr ⟨i, _, _, _, rfl, found, rfl, valid, rfl, rfl, rfl⟩
    | kept notPinned notSent authority refused =>
      have nothing : PeerCall.rotation ⟨peerFp, phase, seen⟩ s.node move phase' = [] := by
        simp only [PeerCall.rotation]
        split
        · rename_i leaf
          exact absurd rfl (notPinned rfl leaf)
        · rfl
      refine .inl ⟨inv.kept (by rw [nothing, append_nil]) rfl fun c isCall => ?_,
        by rw [nothing, append_nil], ?_⟩
      · rcases mem_or_eq_of_mem_set isCall with old | rfl
        · exact .inl old
        · refine .inr ⟨fun fp same => absurd same (notSent fp), fun past => ?_⟩
          obtain ⟨notLoad, before⟩ := authority past
          rw [if_neg notLoad]
          exact (inv.calls _ member).loaded before
      · by_cases rotating : move = .rotate ∧ ∃ leaf, phase = .issued leaf
        · obtain ⟨rfl, leaf, issued⟩ := rotating
          rw [loadedLast_issued found issued]
          exact .inl (refused leaf issued rfl)
        · exact loadedLast_of_other found fun isRotate leaf issued =>
            rotating ⟨isRotate, leaf, issued⟩

end Invariant

/-- In every interleaving in which each leaf is new when it is pinned, every rotation is
authorized by the pinned leaf and no leaf authorizes two, in every state, exactly if every
call that rotates the row has loaded it after the last rotation. -/
theorem rotations_authorized_iff (fingerprint : Bytes → Bytes) (node : NodeCert)
    (events : List RotationEvent)
    (new : EveryStep (RotationSystem.step fingerprint)
      (fun s e _ => NewLeaf fingerprint s e = true) (.init node) events) :
    EveryState (RotationSystem.step fingerprint) RotationsAuthorized (.init node) events ↔
      EveryStep (RotationSystem.step fingerprint) (fun s e _ => LoadedLast s e = true)
        (.init node) events := by
  refine EveryState.iff_everyStep_of (I := RotationInv) (fun s inv => inv.authorized) ?_ ?_
    (RotationInv.init node) new
  · intro s e t inv moved _ authorized
    rcases RotationSystem.step_rotates inv moved with
      ⟨_, _, last⟩ | ⟨i, c, leaf, seen, rfl, found, issued, valid, rotations, _, _⟩
    · exact last
    · have recorded : (⟨c.peerFp, s.node.fingerprint⟩ : Rotation) ∈ t.rotations := by
        rw [rotations]
        exact mem_append_right _ mem_cons_self
      have past : c.phase.authorized = true := by
        rw [issued]
        rfl
      rw [loadedLast_issued found issued]
      exact .inr ((inv.authority (mem_of_getElem? found) past).mpr (authorized.pinned _ recorded))
  · intro s e t inv moved isNew last
    rcases RotationSystem.step_rotates inv moved with
      ⟨kept, _, _⟩ | ⟨i, c, leaf, seen, rfl, found, issued, valid, rotations, row, calls⟩
    · exact kept
    · have current := ((loadedLast_issued found issued).mp last).resolve_left (absurd valid)
      exact inv.rotate (mem_of_getElem? found) issued
        ((newLeaf_issued found issued).mp isNew) current rotations row calls

namespace Sample

/-- A leaf is renewed twice, each time by the holder of the pinned one; a second call with
the first leaf is refused. -/
def inTurn : List RotationEvent :=
  [.request [7], .call 0 .load, .call 0 (.issue ⟨[8], [1], 200⟩), .call 0 .rotate,
    .request [7], .call 1 .load,
    .request [8], .call 2 .load, .call 2 (.issue ⟨[9], [1], 300⟩), .call 2 .rotate]

/-- Two holders of one leaf: both calls pass the check before either rotates the row. -/
def together : List RotationEvent :=
  [.request [7], .request [7], .call 0 .load, .call 1 .load,
    .call 0 (.issue ⟨[8], [1], 200⟩), .call 1 (.issue ⟨[9], [1], 200⟩),
    .call 0 .rotate, .call 1 .rotate]

def pinnedSeven : NodeCert where
  fingerprint := [7]
  publicKey := [1]
  certPem := [7]
  certExpiresAt := 100
  status := .online
  revokedAt := none

end Sample

open Sample

/-- Two rotations one after the other, and the refused call between them. -/
theorem inTurn_authorized :
    ∃ t, exec (RotationSystem.step id) (.init pinnedSeven) inTurn = some t ∧
      t.rotations = [⟨[7], [7]⟩, ⟨[8], [8]⟩] ∧ RotationsAuthorized t := by
  have ran : (exec (RotationSystem.step id) (.init pinnedSeven) inTurn).map
      RotationSystem.rotations = some [⟨[7], [7]⟩, ⟨[8], [8]⟩] := by
    decide +kernel
  obtain ⟨t, run, rotations⟩ := Option.map_eq_some_iff.mp ran
  have authorized := (rotations_authorized_iff id pinnedSeven inTurn
    (by decide +kernel)).mpr (by decide +kernel)
  exact ⟨t, run, rotations, authorized.last run⟩

/-- The leaf `[7]` rotates the node twice, the second time when the row pins `[8]`. -/
theorem together_rotates_twice :
    EveryStep (RotationSystem.step id) (fun s e _ => NewLeaf id s e = true)
      (.init pinnedSeven) together ∧
    ∃ t, exec (RotationSystem.step id) (.init pinnedSeven) together = some t ∧
      t.rotations = [⟨[7], [7]⟩, ⟨[7], [8]⟩] ∧ ¬ RotationsAuthorized t := by
  have ran : (exec (RotationSystem.step id) (.init pinnedSeven) together).map
      RotationSystem.rotations = some [⟨[7], [7]⟩, ⟨[7], [8]⟩] := by
    decide +kernel
  obtain ⟨t, run, rotations⟩ := Option.map_eq_some_iff.mp ran
  refine ⟨by decide +kernel, t, run, rotations, fun authorized => ?_⟩
  have once := authorized.once
  rw [rotations] at once
  exact absurd once (by decide)

end StoragePlatform
