/-
Module: StoragePlatform.Proofs.Audit
Purpose: What one audit leaves of a stored placement, for every number of
  remaining challenges and every answer of the node.
Trusted boundary: none
Main exports: AuditDB.auditable, CannotProduce, AuditDB.AuditLost, audit_detects_iff
-/
import StoragePlatform.Healthmon.Challenge
import StoragePlatform.Proofs.Steps

namespace StoragePlatform

open Lib List Sample

variable {s s' : AuditDB} {t : PlacementTarget} {f n : Uuid} {hash : Bytes → Bytes} {data : Bytes}

/-! ### What an audit should do -/

/-- The stored placements on online nodes. -/
def AuditDB.auditable (s : AuditDB) : List PlacementTarget :=
  s.db.placementTargets.filter fun t =>
    t.placement.status = .stored ∧ t.node.status = .online

/-- Every GET and every challenge fails or returns wrong bytes. -/
def CannotProduce (env : AuditEnv) (t : PlacementTarget) : Prop :=
  (∀ body, env.getFragment = some body → env.hash body ≠ t.fragment.sha256) ∧
    ∀ ch, env.doChallenge ch ≠ some ch.expected

namespace AuditDB

/-- The placement is lost. -/
def AuditLost (s : AuditDB) (t : PlacementTarget) : Prop :=
  ∃ p ∈ s.db.placements, p.id = t.placement.id ∧ p.status = .lost

/-- A repair job for the placement's chunk is in the stream. -/
def Queued (s : AuditDB) (t : PlacementTarget) : Prop :=
  ∃ job ∈ s.stream.jobs, job.chunkId = t.fragment.chunkId

/-- The placement is not stored any more, or its audit clock has moved on. -/
def Progress (before after : AuditDB) (t : PlacementTarget) : Prop :=
  (∀ p ∈ after.db.placements, p.id = t.placement.id → p.status ≠ .stored) ∨
    ∃ now, after.lastAuditAt t.placement.id = some now ∧
      ∀ last, before.lastAuditAt t.placement.id = some last → last < now

/-- The job a failed audit publishes. -/
def lossJob (s : AuditDB) (t : PlacementTarget) : RepairJob where
  chunkId := t.fragment.chunkId
  healthy := (s.db.markPlacementLost t.placement.fragmentId t.placement.nodeId).2.chunkHealth
    t.fragment.chunkId

/-- The stream has a job for the chunk already, or takes the new one: the chunk
has fewer than sixteen healthy shards then and no job with that id was accepted
within the duplicate window. -/
def Queueable (s : AuditDB) (env : AuditEnv) (t : PlacementTarget) : Prop :=
  s.Queued t ∨
    ((s.lossJob t).healthy < 16 ∧ s.stream.duplicate env.publishedAt (s.lossJob t) = false)

/-- With fewer than two challenges left the node answers the GET, and not with an
empty fragment that leaves no challenge at all. -/
def Answered (s : AuditDB) (env : AuditEnv) (t : PlacementTarget) : Prop :=
  (s.auditTarget t).remaining < lowWater →
    ∃ body, env.getFragment = some body ∧
      ((s.auditTarget t).remaining = 0 → env.hash body = t.fragment.sha256 → body ≠ [])

/-- The node answers where the audit depends on it, and the stream takes the job
of a loss. -/
def Effective (s : AuditDB) (env : AuditEnv) (t : PlacementTarget) : Prop :=
  s.Answered env t ∧ (CannotProduce env t → s.Queueable env t)

theorem mem_auditable :
    t ∈ s.auditable ↔ t ∈ s.db.placementTargets ∧ t.placement.status = .stored ∧
      t.node.status = .online := by
  simp [auditable]

end AuditDB

/-! ### Losing a placement -/

section Loss

variable {db : DB}

/-- The join of a row with its fragment, as the UPDATE tests it. -/
theorem DB.hasFragment_of_mem {p : Placement} {fr : Fragment} (inFragments : fr ∈ db.fragments)
    (joined : fr.id = p.fragmentId) : db.hasFragment p = true :=
  any_eq_true.mpr ⟨fr, inFragments, by simp [joined]⟩

theorem DB.find_placed (schema : db.Schema) (listed : t ∈ db.placementTargets)
    (live : t.placement.live = true) :
    (db.placedFragments.find? fun pf => pf.1.fragmentId = t.placement.fragmentId ∧
      pf.1.nodeId = t.placement.nodeId ∧ pf.1.live) = some (t.placement, t.fragment) := by
  obtain ⟨inPlacements, inFragments, _, joined, _⟩ := DB.mem_placementTargets.mp listed
  cases found : db.placedFragments.find? fun pf => pf.1.fragmentId = t.placement.fragmentId ∧
      pf.1.nodeId = t.placement.nodeId ∧ pf.1.live with
  | none =>
    have missing := find?_eq_none.mp found (t.placement, t.fragment)
      (DB.mem_placedFragments.mpr ⟨inPlacements, inFragments, joined⟩)
    simp [live] at missing
  | some pf =>
    obtain ⟨p, fr⟩ := pf
    have member := DB.mem_placedFragments.mp (mem_of_find?_eq_some found)
    have chosen := find?_some found
    simp only [decide_eq_true_eq] at chosen
    have samePlacement : p = t.placement :=
      schema.placement_pair.eq_of_key member.1 inPlacements
        (Prod.ext chosen.1 chosen.2.1)
    subst samePlacement
    have sameFragment : fr = t.fragment :=
      schema.fragment_pk.eq_of_key member.2.1 inFragments (member.2.2.trans joined.symm)
    rw [sameFragment]

/-- The row of a live placement after `MarkPlacementLost`. -/
theorem DB.lost_of_markPlacementLost (listed : t ∈ db.placementTargets)
    (live : t.placement.live = true) :
    t.placement.setStatus .lost ∈
      (db.markPlacementLost t.placement.fragmentId t.placement.nodeId).2.placements := by
  obtain ⟨inPlacements, inFragments, _, joined, _⟩ := DB.mem_placementTargets.mp listed
  rw [DB.markPlacementLost_eq]
  refine mem_updateWhere.mpr (.inl ⟨t.placement, inPlacements, ?_, rfl⟩)
  simp [live, hasFragment_of_mem inFragments joined]

/-- Afterwards no live row of the pair is left. -/
theorem DB.markPlacementLost_twice (db : DB) (f n : Uuid) :
    let lost := (db.markPlacementLost f n).2
    ∃ e, lost.markPlacementLost f n = (.error e, lost) := by
  intro lost
  have none_live : (lost.placedFragments.find? fun pf => pf.1.fragmentId = f ∧
      pf.1.nodeId = n ∧ pf.1.live) = none := by
    rw [find?_eq_none]
    rintro ⟨p, fr⟩ member
    obtain ⟨inPlacements, inFragments, joined⟩ := DB.mem_placedFragments.mp member
    simp only [lost, DB.markPlacementLost_eq] at inPlacements inFragments
    simp only [decide_eq_true_eq]
    rintro ⟨onFragment, onNode, live⟩
    rcases mem_updateWhere.mp inPlacements with ⟨old, _, _, rfl⟩ | ⟨_, skipped⟩
    · simp [Placement.live, Placement.setStatus] at live
    · simp [onFragment, onNode, live, hasFragment_of_mem inFragments joined] at skipped
  exact ⟨.notFound, by rw [DB.markPlacementLost, none_live]⟩

/-- `MarkPlacementLost` leaves no stored row with the placement's id. -/
theorem DB.not_stored_of_markPlacementLost (schema : db.Schema)
    (listed : t ∈ db.placementTargets) (live : t.placement.live = true) {p : Placement}
    (member : p ∈
      (db.markPlacementLost t.placement.fragmentId t.placement.nodeId).2.placements)
    (same : p.id = t.placement.id) : p.status ≠ .stored := by
  obtain ⟨inPlacements, inFragments, _, joined, _⟩ := DB.mem_placementTargets.mp listed
  rw [DB.markPlacementLost_eq] at member
  rcases mem_updateWhere.mp member with ⟨old, _, _, rfl⟩ | ⟨kept, skipped⟩
  · simp [Placement.setStatus]
  · have own : p = t.placement := schema.placement_pk.eq_of_key kept inPlacements same
    simp [own, live, hasFragment_of_mem inFragments joined] at skipped

end Loss

namespace AuditDB

/-! ### Challenge sets -/

section Sets

theorem takeNextUnspent_eq_none : s.takeNextUnspent f n = none ↔ s.unspent f n = [] := by
  rw [takeNextUnspent, Option.map_eq_none_iff, head?_eq_none_iff]
  constructor
  · intro empty
    rw [eq_nil_iff_forall_not_mem] at empty ⊢
    exact fun row member => empty row (mem_orderBy.mpr member)
  · intro empty
    rw [empty]
    rfl

theorem mem_upsertChallenge (rows : List ChallengeRow) (c : Challenge) :
    ⟨c, none⟩ ∈ upsertChallenge rows c := by
  simp only [upsertChallenge]
  split
  · rename_i present
    obtain ⟨row, member, same⟩ := any_eq_true.mp present
    exact mem_updateWhere.mpr (.inl ⟨row, member, same, rfl⟩)
  · simp

/-- A set that is not empty leaves something to ask. -/
theorem unspent_insertChallengeSet {set : List Challenge} (filled : set ≠ [])
    (named : ∀ c ∈ set, c.fragmentId = f ∧ c.nodeId = n) :
    (s.insertChallengeSet set).unspent f n ≠ [] := by
  obtain ⟨front, last, rfl⟩ := (eq_nil_or_concat' set).resolve_left filled
  intro empty
  have inserted : ⟨last, none⟩ ∈ (s.insertChallengeSet (front ++ [last])).challenges := by
    rw [insertChallengeSet.eq_def]
    split
    · rename_i nothing
      simp at nothing
    · dsimp only
      rw [foldl_append]
      exact mem_upsertChallenge _ last
  have kept : ⟨last, none⟩ ∈ (s.insertChallengeSet (front ++ [last])).unspent f n := by
    rw [unspent, mem_filter]
    exact ⟨inserted, by simp [named last (by simp)]⟩
  rw [empty] at kept
  cases kept

end Sets

theorem computeChallengeSet_nil (hash : Bytes → Bytes) (f n : Uuid) (size maxRange : Int)
    (draw : Nat → ChallengeDraw) : computeChallengeSet hash [] f n size maxRange draw = [] := by
  simp [computeChallengeSet]

theorem computeChallengeSet_ne_nil (f n : Uuid) (size maxRange : Int) (draw : Nat → ChallengeDraw)
    (filled : data ≠ []) : computeChallengeSet hash data f n size maxRange draw ≠ [] := by
  have long : data.length ≠ 0 := fun empty => filled (length_eq_zero_iff.mp empty)
  have positive : (if size ≤ 0 then defaultChallengeSetSize else size).toNat ≠ 0 := by
    split
    · decide
    · omega
  simp only [computeChallengeSet, long, if_false, ne_eq, map_eq_nil_iff, range_eq_nil]
  exact positive

theorem computeChallengeSet_named {size maxRange : Int} {draw : Nat → ChallengeDraw} {c : Challenge}
    (member : c ∈ computeChallengeSet hash data f n size maxRange draw) :
    c.fragmentId = f ∧ c.nodeId = n := by
  simp only [computeChallengeSet] at member
  split at member
  · cases member
  · obtain ⟨i, _, rfl⟩ := mem_map.mp member
    exact ⟨rfl, rfl⟩

/-! ### Outcomes -/

/-- Nothing an audit should move has moved. -/
def Untouched (before after : AuditDB) : Prop :=
  after.db = before.db ∧ after.stream = before.stream ∧ after.lastAuditAt = before.lastAuditAt

/-- The placement was marked lost and its job published. -/
def LossOf (before : AuditDB) (env : AuditEnv) (t : PlacementTarget) (after : AuditDB) : Prop :=
  after.db = (before.db.markPlacementLost t.placement.fragmentId t.placement.nodeId).2 ∧
    after.stream = before.stream.publishRepair env.publishedAt (before.lossJob t)

/-- The node passed: only the audit clock has moved. -/
def PassOf (before : AuditDB) (env : AuditEnv) (t : PlacementTarget) (after : AuditDB) : Prop :=
  after.db = before.db ∧ after.lastAuditAt t.placement.id = some env.touchedAt

section Outcomes

variable {env : AuditEnv} {target : AuditTarget}

theorem fail_challenges (s : AuditDB) (env : AuditEnv) (t : AuditTarget) :
    (s.fail env t).1.challenges = s.challenges := by
  simp only [fail, failPlacement, bumpNodeAudit, applyReputationEvent]
  rcases s.db.markPlacementLost t.fragmentId t.nodeId with ⟨e | row, db⟩ <;> rfl

theorem fail_loss (schema : s.db.Schema) (listed : t ∈ s.db.placementTargets)
    (live : t.placement.live = true) (fragment : target.fragmentId = t.placement.fragmentId)
    (node : target.nodeId = t.placement.nodeId) :
    (s.fail env target).2 = none ∧ s.LossOf env t (s.fail env target).1 := by
  have found := DB.find_placed schema listed live
  have marked : s.db.markPlacementLost t.placement.fragmentId t.placement.nodeId =
      (.ok (lostPlacement t.placement t.fragment),
        (s.db.markPlacementLost t.placement.fragmentId t.placement.nodeId).2) := by
    simp only [DB.markPlacementLost, found]
  simp only [fail, failPlacement, bumpNodeAudit, applyReputationEvent, fragment, node]
  rw [marked]
  exact ⟨rfl, rfl, rfl⟩

/-- A second failure finds no live row and changes nothing that counts. -/
theorem challenge_of_lost {e : StoreErr}
    (gone : s.db.markPlacementLost target.fragmentId target.nodeId = (.error e, s.db)) :
    (s.challenge env target).1.db = s.db ∧ (s.challenge env target).1.stream = s.stream := by
  simp only [challenge]
  split
  · exact ⟨rfl, rfl⟩
  · split
    · simp only [fail, failPlacement, bumpNodeAudit, applyReputationEvent, touchLastAudit,
        markChallengeSpent, gone]
      exact ⟨trivial, trivial⟩
    · exact ⟨rfl, rfl⟩

theorem challenge_outcome (schema : s.db.Schema) (listed : t ∈ s.db.placementTargets)
    (live : t.placement.live = true) (fragment : target.fragmentId = t.placement.fragmentId)
    (node : target.nodeId = t.placement.nodeId)
    (askable : s.unspent target.fragmentId target.nodeId ≠ []) :
    s.LossOf env t (s.challenge env target).1 ∨
      (s.PassOf env t (s.challenge env target).1 ∧ ¬ CannotProduce env t) := by
  simp only [challenge]
  split
  · rename_i empty
    exact absurd (takeNextUnspent_eq_none.mp empty) askable
  · rename_i ch taken
    split
    · refine .inl ?_
      generalize touched : (s.markChallengeSpent target.fragmentId target.nodeId ch.seq
        env.spentAt).touchLastAudit target.fragmentId target.nodeId env.touchedAt = after
      have sameDb : after.db = s.db := by rw [← touched]; rfl
      have sameStream : after.stream = s.stream := by rw [← touched]; rfl
      have loss := (@fail_loss after t env target (sameDb ▸ schema) (sameDb ▸ listed) live
        fragment node).2
      simp only [LossOf, lossJob, sameDb, sameStream] at loss
      exact loss
    · rename_i right
      refine .inr ⟨⟨rfl, ?_⟩, fun cannot => cannot.2 ch (not_not.mp right)⟩
      have inPlacements := (DB.mem_placementTargets.mp listed).1
      have named : (s.db.placements.any fun p => p.id = t.placement.id ∧
          p.fragmentId = t.placement.fragmentId ∧ p.nodeId = t.placement.nodeId) = true :=
        any_eq_true.mpr ⟨t.placement, inPlacements, by simp⟩
      simp only [bumpNodeAudit, applyReputationEvent, touchLastAudit, markChallengeSpent,
        fragment, node]
      rw [if_pos named]

theorem audit_of_refilled (low : target.remaining < lowWater)
    (refilled : s.refill env target = (s', none)) :
    s.audit env target = s'.challenge env target := by
  simp [audit, low, refilled]

theorem audit_of_high (high : ¬ target.remaining < lowWater) :
    s.audit env target = s.challenge env target := by
  simp [audit, high]

theorem insertChallengeSet_frame (set : List Challenge) :
    (s.insertChallengeSet set).db = s.db ∧ (s.insertChallengeSet set).stream = s.stream := by
  cases set <;> exact ⟨rfl, rfl⟩

/-- With a challenge to ask, the audit ends with a loss or with a pass. -/
theorem challenge_decides (schema : s.db.Schema) (audited : t ∈ s.auditable) (sameDb : s'.db = s.db)
    (sameStream : s'.stream = s.stream)
    (askable : s'.unspent t.placement.fragmentId t.placement.nodeId ≠ []) :
    s.LossOf env t (s'.challenge env (s.auditTarget t)).1 ∨
      (s.PassOf env t (s'.challenge env (s.auditTarget t)).1 ∧ ¬ CannotProduce env t) := by
  obtain ⟨listed, stored, _⟩ := mem_auditable.mp audited
  have live : t.placement.live = true := by simp [Placement.live, stored]
  have outcome := @challenge_outcome s' t env (s.auditTarget t) (sameDb ▸ schema)
    (sameDb ▸ listed) live rfl rfl askable
  simp only [LossOf, PassOf, lossJob, sameDb, sameStream] at outcome
  exact outcome

/-- The audit of a stored placement.  It stops before the challenge exactly when
the node does not answer where the audit depends on it; otherwise it ends with a
loss or with a pass. -/
theorem audit_outcome (schema : s.db.Schema) (audited : t ∈ s.auditable) :
    (¬ s.Answered env t ∧ s.Untouched (s.audit env (s.auditTarget t)).1) ∨
    (s.Answered env t ∧
      (s.LossOf env t (s.audit env (s.auditTarget t)).1 ∨
        (s.PassOf env t (s.audit env (s.auditTarget t)).1 ∧ ¬ CannotProduce env t))) := by
  obtain ⟨listed, stored, _⟩ := mem_auditable.mp audited
  have live : t.placement.live = true := by simp [Placement.live, stored]
  by_cases low : (s.auditTarget t).remaining < lowWater
  · cases answer : env.getFragment with
    | none =>
      have stopped : s.refill env (s.auditTarget t) = (s, some .get) := by
        simp [refill, answer]
      refine .inl ⟨fun answered => ?_, ?_⟩
      · obtain ⟨body, got, _⟩ := answered low
        rw [answer] at got
        cases got
      · simp only [audit, if_pos low, stopped]
        exact ⟨rfl, rfl, rfl⟩
    | some body =>
      by_cases right : env.hash body = t.fragment.sha256
      · have refilled : s.refill env (s.auditTarget t) =
            (s.insertChallengeSet (computeChallengeSet env.hash body t.placement.fragmentId
              t.placement.nodeId env.setSize env.maxRange env.draw), none) := by
          simp only [refill, answer, auditTarget, right, ne_eq, not_true_eq_false, if_false]
        rw [audit_of_refilled low refilled]
        by_cases empty : body = []
        · -- an empty fragment: the set stays as it is
          subst empty
          rw [computeChallengeSet_nil, insertChallengeSet]
          by_cases askable : s.unspent t.placement.fragmentId t.placement.nodeId = []
          · refine .inl ⟨fun answered => ?_, ?_⟩
            · obtain ⟨body, got, filled⟩ := answered low
              cases answer.symm.trans got
              exact filled (length_eq_zero_iff.mpr askable) right rfl
            · have nothing : s.takeNextUnspent (s.auditTarget t).fragmentId
                  (s.auditTarget t).nodeId = none := takeNextUnspent_eq_none.mpr askable
              simp only [challenge, nothing]
              exact ⟨rfl, rfl, rfl⟩
          · refine .inr ⟨fun _ => ⟨[], answer, fun zero _ => ?_⟩, ?_⟩
            · exact absurd (length_eq_zero_iff.mp zero) askable
            · exact challenge_decides schema audited rfl rfl askable
        · refine .inr ⟨fun _ => ⟨body, answer, fun _ _ => empty⟩, ?_⟩
          obtain ⟨sameDb, sameStream⟩ := @insertChallengeSet_frame s
            (computeChallengeSet env.hash body t.placement.fragmentId t.placement.nodeId
              env.setSize env.maxRange env.draw)
          refine challenge_decides schema audited sameDb sameStream ?_
          exact unspent_insertChallengeSet (computeChallengeSet_ne_nil _ _ _ _ _ empty)
            fun c member => computeChallengeSet_named member
      · -- wrong bytes: the placement is lost before the challenge is asked
        refine .inr ⟨fun _ => ⟨body, answer, fun _ same => absurd same right⟩, .inl ?_⟩
        obtain ⟨noError, loss⟩ := @fail_loss s t env (s.auditTarget t) schema listed live rfl rfl
        have refilled : s.refill env (s.auditTarget t) =
            ((s.fail env (s.auditTarget t)).1, none) := by
          have wrong : env.hash body ≠ (s.auditTarget t).sha256 := right
          simp only [refill, answer, if_pos wrong]
          exact Prod.ext rfl noError
        rw [audit_of_refilled low refilled]
        obtain ⟨e, twice⟩ := DB.markPlacementLost_twice s.db t.placement.fragmentId
          t.placement.nodeId
        rw [← loss.1] at twice
        obtain ⟨sameDb, sameStream⟩ := @challenge_of_lost _ env (s.auditTarget t) e twice
        exact ⟨sameDb.trans loss.1, sameStream.trans loss.2⟩
  · rw [audit_of_high low]
    refine .inr ⟨fun isLow => absurd isLow low, ?_⟩
    refine challenge_decides schema audited rfl rfl fun empty => low ?_
    simp only [auditTarget, empty]
    decide

end Outcomes

/-! ### The stream -/

/-- The chunk has a job in the stream after a loss exactly if it had one or the
stream takes the new one. -/
theorem queued_of_loss {r : AuditDB} {env : AuditEnv} (loss : s.LossOf env t r) :
    r.Queued t ↔ s.Queueable env t := by
  simp only [Queued, Queueable, loss.2, JobStream.publishRepair]
  cases subject : prioritySubject (s.lossJob t).healthy with
  | none =>
    have healthy := prioritySubject_eq_none.mp subject
    constructor
    · exact .inl
    · rintro (had | ⟨few, _⟩)
      · exact had
      · omega
  | some _ =>
    have few : (s.lossJob t).healthy < 16 := by
      by_contra healthy
      rw [prioritySubject_eq_none.mpr (by omega)] at subject
      cases subject
    cases duplicate : s.stream.duplicate env.publishedAt (s.lossJob t) with
    | true => simp
    | false =>
      refine iff_of_true ⟨s.lossJob t, ?_, rfl⟩ (.inr ⟨few, rfl⟩)
      simp

end AuditDB

/-- For every stored placement on an online node, every number of remaining
challenges and every behaviour of the node: the audit marks a fragment the node
cannot produce lost and has its chunk in the repair stream, and in any case
unstores the placement or moves its audit clock, exactly if the node answers the
GET of a refill with something to ask about and the stream takes the job. -/
theorem audit_detects_iff (env : AuditEnv) (s : AuditDB) (schema : s.db.Schema)
    (t : PlacementTarget) (audited : t ∈ s.auditable)
    (later : ∀ last, s.lastAuditAt t.placement.id = some last → last < env.touchedAt) :
    ((CannotProduce env t →
        (s.audit env (s.auditTarget t)).1.AuditLost t ∧
          (s.audit env (s.auditTarget t)).1.Queued t) ∧
      s.Progress (s.audit env (s.auditTarget t)).1 t) ↔ s.Effective env t := by
  obtain ⟨listed, stored, _⟩ := AuditDB.mem_auditable.mp audited
  have live : t.placement.live = true := by simp [Placement.live, stored]
  have inPlacements := (DB.mem_placementTargets.mp listed).1
  have outcome := @AuditDB.audit_outcome s t env schema audited
  generalize (s.audit env (s.auditTarget t)).1 = after at outcome ⊢
  rcases outcome with ⟨silent, sameDb, _, sameClock⟩ | ⟨answered, loss | ⟨pass, can⟩⟩
  · refine iff_of_false ?_ fun effective => silent effective.1
    rintro ⟨_, unstored | ⟨now, clock, newer⟩⟩
    · exact unstored t.placement (sameDb ▸ inPlacements) rfl stored
    · rw [sameClock] at clock
      exact lt_irrefl now (newer now clock)
  · have lost : after.AuditLost t := by
      refine ⟨t.placement.setStatus .lost, ?_, rfl, rfl⟩
      rw [loss.1]
      exact DB.lost_of_markPlacementLost listed live
    have progress : s.Progress after t := by
      refine .inl fun p member same => ?_
      rw [loss.1] at member
      exact DB.not_stored_of_markPlacementLost schema listed live member same
    rw [AuditDB.Effective, ← AuditDB.queued_of_loss loss]
    constructor
    · rintro ⟨detected, _⟩
      exact ⟨answered, fun cannot => (detected cannot).2⟩
    · rintro ⟨_, queued⟩
      exact ⟨fun cannot => ⟨lost, queued cannot⟩, progress⟩
  · refine iff_of_true ⟨fun cannot => absurd cannot can, .inr ?_⟩
      ⟨answered, fun cannot => absurd cannot can⟩
    exact ⟨env.touchedAt, pass.2, later⟩

namespace Sample

/-- The placement of fragment 0 on node 0. -/
def audited : PlacementTarget where
  placement := placement 1 0 0 .stored
  fragment := fragment 0
  node := node 0

/-- The state after the upload, with two unspent challenges for that placement or
with none. -/
def auditDB (challenges : Nat) : AuditDB where
  db := committed.db
  challenges := (List.range challenges).map fun i =>
    { challenge :=
        { fragmentId := (fragment 0).id, nodeId := (node 0).id, seq := i, offset := 0,
          length := 1, nonce := [1], expected := digest }
      spentAt := none }
  lastAuditAt := fun _ => none
  reputation := fun _ => 1
  signals := []
  audits := []
  stream := .empty

/-- A node that does not answer. -/
def deadNode : AuditEnv where
  hash := id
  getFragment := none
  doChallenge := fun _ => none
  draw := fun _ => ⟨0, 0, []⟩
  setSize := 8
  maxRange := 4096
  spentAt := 1
  touchedAt := 1
  publishedAt := 1

theorem audited_mem (challenges : Nat) : audited ∈ (auditDB challenges).auditable := by
  have listed : audited ∈ committed.db.placementTargets.filter fun t =>
      t.placement.status = .stored ∧ t.node.status = .online := by
    decide +kernel
  exact listed

theorem deadNode_cannot : CannotProduce deadNode audited :=
  ⟨by simp [deadNode], by simp [deadNode]⟩

end Sample

/-- With two challenges left a node that does not answer loses the placement, and
the chunk is queued with thirteen healthy shards. -/
theorem deadNode_detected :
    ((auditDB 2).audit deadNode
        ((auditDB 2).auditTarget audited)).1.AuditLost audited ∧
      ((auditDB 2).audit deadNode
        ((auditDB 2).auditTarget audited)).1.Queued audited := by
  have schema : (auditDB 2).db.Schema :=
    reachable_schema (@reachable_of_run [] committed rfl)
  have effective : (auditDB 2).Effective deadNode audited := by
    refine ⟨fun low => absurd low (by decide +kernel), fun _ => .inr ?_⟩
    decide +kernel
  exact ((audit_detects_iff deadNode (auditDB 2) schema audited
    (audited_mem 2) (by simp [auditDB])).mpr effective).1 deadNode_cannot

/-- With no challenge left the same node keeps the placement: the audit returns
the error of the GET and changes nothing. -/
theorem deadNode_undetected :
    CannotProduce deadNode audited ∧
      audited ∈ (auditDB 0).auditable ∧
      ∃ s, (auditDB 0).audit deadNode
          ((auditDB 0).auditTarget audited) = (s, some .get) ∧
        ¬ s.AuditLost audited ∧ ¬ s.Queued audited ∧
        ¬ (auditDB 0).Progress s audited := by
  refine ⟨deadNode_cannot, audited_mem 0, auditDB 0, rfl, ?_, ?_, ?_⟩
  · rintro ⟨p, member, _, lost⟩
    have none_lost : ∀ p ∈ committed.db.placements, p.status ≠ .lost := by
      decide +kernel
    exact none_lost p member lost
  · rintro ⟨job, member, _⟩
    cases member
  · rintro (unstored | ⟨now, clock, _⟩)
    · exact unstored audited.placement (by decide +kernel) rfl rfl
    · cases clock

end StoragePlatform
