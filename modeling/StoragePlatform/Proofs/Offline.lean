/-
Module: StoragePlatform.Proofs.Offline
Purpose: Which failures of the node.offline handler leave a chunk without a job.
Trusted boundary: none
Main exports: FlippedHandled, flipped_published
-/
import StoragePlatform.Repair.Offline
import StoragePlatform.Proofs.Steps

namespace StoragePlatform

open Lib List Sample

/-! ### The step -/

/-- The UPDATE changes the health of the chunks in its RETURNING list only. -/
theorem DB.chunkHealth_markPlacementsLostByNode {db : DB} {nodeId c : Uuid}
    (untouched : ∀ lp ∈ (db.markPlacementsLostByNode nodeId).1, lp.chunkId ≠ c) :
    (db.markPlacementsLostByNode nodeId).2.chunkHealth c = db.chunkHealth c := by
  refine countP_innerJoin_updateWhere (fun _ _ => rfl)
    fun p inTable chosen fr inFragments joined => ?_
  simp only [decide_eq_true_eq] at chosen joined
  have other : fr.chunkId ≠ c := by
    refine untouched (lostPlacement p fr) (mem_map.mpr ⟨(p, fr), mem_filter.mpr ⟨?_, ?_⟩, rfl⟩)
    · exact DB.mem_placedFragments.mpr ⟨inTable, inFragments, joined⟩
    · simp [chosen.1, chosen.2.1]
  simp [other]

variable {nodeId : Uuid} {s t : OfflineState} {e : OfflineEvent}

/-- Every flipped chunk is covered or still to be handled by the delivery in
progress, which publishes for unhealthy chunks only; after the acknowledgement
there is none. -/
structure FlippedHandled (s : OfflineState) : Prop where
  idle : s.acked = true → s.handler = none
  handled : ∀ c ∈ s.flipped, s.covered c ∨ ∃ handler ∈ s.handler.toList, c ∈ handler.todo
  unhealthy : ∀ job rows seen, s.handler = some (.publishing job rows seen) → job.healthy < 16

theorem FlippedHandled.init (db : DB) : FlippedHandled (OfflineState.init db) where
  idle _ := rfl
  handled _ member := by cases member
  unhealthy _ _ _ active := by cases active

theorem FlippedHandled.deliver {rows : List LostPlacement} (h : FlippedHandled s)
    (open_ : ¬ s.acked = true) (idle : s.handler = none)
    (returned : rows.Perm (s.db.markPlacementsLostByNode nodeId).1) :
    FlippedHandled { s with
      db := (s.db.markPlacementsLostByNode nodeId).2
      handler := some (.looping rows [])
      flipped := rows.map LostPlacement.chunkId ++ s.flipped } where
  idle acked := absurd acked open_
  unhealthy _ _ _ active := by cases active
  handled c member := by
    by_cases fresh : c ∈ rows.map LostPlacement.chunkId
    · exact .inr ⟨_, mem_singleton.mpr rfl, by simpa [OfflineHandler.todo] using fresh⟩
    · -- an old chunk the UPDATE does not touch keeps its cover
      have old : c ∈ s.flipped := (mem_append.mp member).resolve_left fresh
      have untouched : ∀ lp ∈ (s.db.markPlacementsLostByNode nodeId).1, lp.chunkId ≠ c :=
        fun lp inRows same => fresh (mem_map.mpr ⟨lp, returned.mem_iff.mpr inRows, same⟩)
      rcases h.handled c old with covered | ⟨handler, active, -⟩
      · refine .inl (covered.imp id fun healthy => ?_)
        rw [DB.chunkHealth_markPlacementsLostByNode untouched]
        exact healthy
      · simp [idle] at active

/-- A delivery moves on: what leaves its list is covered. -/
theorem FlippedHandled.moveOn {handler handler' : OfflineHandler} {stream' : JobStream}
    (h : FlippedHandled s) (open_ : ¬ s.acked = true) (current : s.handler = some handler)
    (keeps : ∀ c, s.stream.hasPublished c = true → stream'.hasPublished c = true)
    (covers : ∀ c ∈ handler.todo,
      c ∈ handler'.todo ∨ stream'.hasPublished c = true ∨ 16 ≤ s.db.chunkHealth c)
    (unhealthy : ∀ job rows seen, handler' = .publishing job rows seen → job.healthy < 16) :
    FlippedHandled { s with stream := stream', handler := some handler' } where
  idle acked := absurd acked open_
  unhealthy job rows seen active := unhealthy job rows seen (Option.some.inj active)
  handled c member := by
    rcases h.handled c member with covered | ⟨handler₀, active, waiting⟩
    · exact .inl (covered.imp (keeps c) id)
    · simp only [current, Option.toList_some, mem_singleton] at active
      rw [active] at waiting
      rcases covers c waiting with still | covered
      · exact .inr ⟨handler', by simp, still⟩
      · exact .inl covered

theorem FlippedHandled.step (nodeId : Uuid) (s : OfflineState) (e : OfflineEvent)
    (t : OfflineState) (h : FlippedHandled s) (moved : offlineStep nodeId s e = some t)
    (guard : HandledBeforeFailing s e t) : FlippedHandled t := by
  unfold offlineStep at moved
  split at moved
  · cases moved
  rename_i open_
  split at moved
  · rename_i rows idle
    split at moved <;> cases moved
    rename_i returned
    exact h.deliver open_ idle (isPerm_iff.mp returned)
  · rename_i row rows seen current
    split at moved
    · rename_i known
      cases moved
      refine h.moveOn open_ current (fun _ had => had) (fun c waiting => .inl ?_) (by simp)
      simp only [OfflineHandler.todo, map_cons] at waiting ⊢
      grind
    · dsimp only at moved
      split at moved <;> cases moved
      · rename_i healthy
        have enough := prioritySubject_eq_none.mp healthy
        refine h.moveOn open_ current (fun _ had => had) (fun c waiting => ?_) (by simp)
        simp only [OfflineHandler.todo, map_cons] at waiting ⊢
        grind
      · rename_i below
        rw [prioritySubject_eq_none, not_le] at below
        refine h.moveOn open_ current (fun _ had => had) (fun c waiting => .inl ?_) ?_
        · simp only [OfflineHandler.todo, map_cons] at waiting ⊢
          grind
        · rintro job rows' seen' same
          cases same
          exact below
  · rename_i now job rows seen current
    cases moved
    have published := s.stream.hasPublished_publishRepair now (h.unhealthy job rows seen current)
    refine h.moveOn open_ current (fun _ => s.stream.hasPublished_mono now job)
      (fun c waiting => ?_)
      (by simp)
    rcases mem_cons.mp waiting with rfl | later
    · exact .inr (.inl published)
    · exact .inl later
  · rename_i handler current
    cases moved
    refine ⟨fun _ => rfl, fun c member => ?_, by simp⟩
    rcases h.handled c member with covered | ⟨handler', active, waiting⟩
    · exact .inl covered
    · exact .inl (guard handler' active c waiting)
  · rename_i seen current
    cases moved
    refine ⟨fun _ => rfl, fun c member => ?_, by simp⟩
    rcases h.handled c member with covered | ⟨handler', active, waiting⟩
    · exact .inl covered
    · simp only [current, Option.toList_some, mem_singleton] at active
      simp [active, OfflineHandler.todo] at waiting
  · cases moved
    refine ⟨h.idle, fun c member => ?_, h.unhealthy⟩
    rcases h.handled c member with covered | waiting
    · exact .inl (guard c member covered)
    · exact .inr waiting
  · cases moved

theorem FlippedHandled.published (h : FlippedHandled s) : FlippedPublished s := by
  intro acked c member below
  rcases h.handled c member with covered | ⟨handler, active, -⟩
  · exact covered.resolve_right (by omega)
  · simp [h.idle acked] at active

/-! ### The run -/

/-- In every run whose failures leave nothing to handle, and in which nobody else
takes a flipped chunk below the target, an acknowledged event has a job for every
flipped chunk below the target. -/
theorem flipped_published (nodeId : Uuid) (db : DB) (events : List OfflineEvent)
    (guarded : EveryStep (offlineStep nodeId) HandledBeforeFailing (OfflineState.init db) events) :
    EveryState (offlineStep nodeId) FlippedPublished (OfflineState.init db) events := by
  have inside : EveryState (offlineStep nodeId) FlippedHandled (OfflineState.init db) events :=
    EveryState.of_step (FlippedHandled.step nodeId) (FlippedHandled.init db) guarded
  exact inside.mono fun _ => FlippedHandled.published

namespace Sample

def lostShard : LostPlacement := lostPlacement (placement 1 0 0 .stored) (fragment 0)

/-- The handler loses shard 0 of the sample file and publishes its job. -/
def offlineRun : List OfflineEvent := [.deliver [lostShard], .next, .publish 0, .ack]

/-- The publish fails; the second delivery finds nothing left to lose. -/
def offlineRetry : List OfflineEvent := [.deliver [lostShard], .next, .fail, .deliver [], .ack]

end Sample

/-- The run without failures meets the condition. -/
theorem offlineRun_published :
    EveryState (offlineStep (node 0).id) FlippedPublished
      (OfflineState.init committed.db) offlineRun :=
  flipped_published (node 0).id committed.db offlineRun (by decide +kernel)

theorem Sample.offlineRetry_forgets :
    (exec (offlineStep (node 0).id) (OfflineState.init committed.db) offlineRetry).map (fun s =>
      (s.acked, s.flipped, s.db.chunkHealth chunk.id, s.stream.hasPublished chunk.id)) =
        some (true, [chunk.id], 13, false) := by
  decide +kernel

/-- After one failed publish the event is acknowledged with the chunk at 13 of 16
and no job for it. -/
theorem offlineRetry_not_published :
    ¬ EveryState (offlineStep (node 0).id) FlippedPublished
      (OfflineState.init committed.db) offlineRetry := by
  intro all
  obtain ⟨s, run, seen⟩ := Option.map_eq_some_iff.mp offlineRetry_forgets
  simp only [Prod.mk.injEq] at seen
  obtain ⟨acked, flipped, health, unpublished⟩ := seen
  have last := all.last run acked chunk.id (by simp [flipped]) (by omega)
  simp [unpublished] at last

end StoragePlatform
