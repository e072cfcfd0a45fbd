/-
Module: StoragePlatform.Proofs.Scheduling
Purpose: Which assignments `Place` can make for one chunk: those to an online
  node that the caps admit next to the present holders, and each of them alone.
Trusted boundary: none
Main exports: DB.Placeable, DB.Schedulable, DB.place_placeable, DB.place_nothing
-/
import StoragePlatform.Proofs.PlaceRules

namespace StoragePlatform

open Lib List

variable {now : Time} {n : Node} {m : LiveNode} {live : List LiveNode} {env : PlaceEnv}
variable {occupants : List Occupant} {assigned : List (Uuid × Node)} {k : Nat}
variable {needs : List PlaceNeed} {assigns : List PlaceAssign} {need : PlaceNeed} {db : DB}
variable {chunkId : Uuid} {t : PlacementTarget}

/-! ### What the loop assigns -/

/-- Without a draw nothing is assigned. -/
theorem placeLoop_undrawn (undrawn : ∀ j, k ≤ j → env.draw j = none) :
    placeLoop env occupants live assigned k needs = .ok [] := by
  induction needs generalizing k with
  | nil => rfl
  | cons need needs ih =>
    simp only [placeLoop, undrawn k le_rfl, pick]
    exact ih fun j after => undrawn j (Nat.le_of_succ_le after)

/-- With one node up and one successful draw, that need alone is assigned. -/
theorem placeLoop_alone {before after : List PlaceNeed}
    (admitted : eligible env.now (seedUse occupants need.chunkId) m = true)
    (drawn : env.draw (k + before.length) = some 0)
    (undrawn : ∀ j, j ≠ k + before.length → env.draw j = none)
    (reserved : ∀ j, env.reserve j = true) :
    placeLoop env occupants [m] [] k (before ++ need :: after) =
      .ok [{ fragmentId := need.fragmentId, node := m.node }] := by
  induction before generalizing k with
  | nil =>
    have picked : pick env.now [m] (usedInChunk occupants [] need.chunkId) (env.draw k) =
        some m := by
      have seed : usedInChunk occupants [] need.chunkId = seedUse occupants need.chunkId := rfl
      simp only [length_nil, Nat.add_zero] at drawn
      simp [pick, drawn, seed, admitted]
    simp only [nil_append, placeLoop, picked, reserved k, Bool.true_eq_false, if_false]
    rw [placeLoop_undrawn fun j later => undrawn j (by simp; omega)]
  | cons first before ih =>
    simp only [cons_append, placeLoop, undrawn k (by simp), pick]
    refine ih ?_ ?_
    · rw [← drawn, length_cons]
      congr 1
      omega
    · intro j other
      exact undrawn j (by rw [length_cons]; omega)

/-! ### What `Place` assigns for a chunk -/

/-- `Place` may choose the node for a fragment of the chunk: it is online, and
the caps admit it next to the present holders. -/
def DB.Placeable (db : DB) (chunkId : Uuid) (now : Time) (n : Node) : Prop :=
  n ∈ db.listOnlineNodes now ∧
    eligible now (seedUse (db.listOccupants [chunkId]) chunkId)
      { node := n, livePlacements := db.countLivePlacements n.id } = true

/-- `Place` does not give up at once: at some time a node is online and has
room. -/
def DB.Schedulable (db : DB) : Prop :=
  ∃ now, ∃ n ∈ db.listOnlineNodes now, 0 < n.freeBytes

theorem DB.Placeable.room (placeable : db.Placeable chunkId now n) :
    0 < n.freeBytes := by
  have admitted := placeable.2
  simp only [eligible, decide_eq_true_eq] at admitted
  exact admitted.2.2.2.2.1

theorem DB.mem_listOccupants {chunkIds : List Uuid} (member : t ∈ db.placementTargets)
    (ofChunk : t.fragment.chunkId ∈ chunkIds) (live : t.placement.live = true) :
    { chunkId := t.fragment.chunkId, node := t.node } ∈ db.listOccupants chunkIds := by
  rw [listOccupants, mem_dedup]
  exact mem_map.mpr ⟨t, mem_filter.mpr ⟨member, by simp [ofChunk, live]⟩, rfl⟩

theorem mem_seedUse {o : Occupant} (member : o ∈ occupants) :
    o.node.id ∈ (seedUse occupants o.chunkId).nodes :=
  (mem_nodes_foldl Occupant.node _ _ _).mpr
    (.inr ⟨o, mem_filter.mpr ⟨member, decide_eq_true rfl⟩, rfl⟩)

/-- A node that `Place` may choose holds no live fragment of the chunk. -/
theorem DB.Placeable.not_holding (placeable : db.Placeable chunkId now n)
    (member : t ∈ db.placementTargets) (ofChunk : t.fragment.chunkId = chunkId)
    (live : t.placement.live = true) : t.node.id ≠ n.id := by
  intro same
  have listed : t.fragment.chunkId ∈ [chunkId] := by simp [ofChunk]
  have used := mem_seedUse (mem_listOccupants member listed live)
  have admitted := placeable.2
  simp only [eligible, decide_eq_true_eq] at admitted
  exact admitted.1 (by simpa [ofChunk, same] using used)

/-- Only the set of chunks matters to the occupants query. -/
theorem DB.listOccupants_of_chunk (ofChunk : ∀ need ∈ needs, need.chunkId = chunkId)
    (some_need : needs ≠ []) :
    db.listOccupants (needs.map PlaceNeed.chunkId) = db.listOccupants [chunkId] := by
  have sameMembers : ∀ c, c ∈ needs.map PlaceNeed.chunkId ↔ c ∈ [chunkId] := by
    intro c
    rw [mem_map, mem_singleton]
    constructor
    · rintro ⟨need, member, rfl⟩
      exact ofChunk need member
    · rintro rfl
      obtain ⟨need, member⟩ := exists_mem_of_ne_nil needs some_need
      exact ⟨need, member, ofChunk need member⟩
  simp only [listOccupants, sameMembers]

/-- What a successful `Place` for one chunk returns. -/
theorem DB.place_placeable (schema : db.Schema) (ofChunk : ∀ need ∈ needs, need.chunkId = chunkId)
    (placed : db.place env needs = .ok assigns) :
    db.Schedulable ∧ (∀ a ∈ assigns, db.Placeable chunkId env.now a.node) ∧
      (assigns.map PlaceAssign.fragmentId).Sublist (needs.map PlaceNeed.fragmentId) := by
  obtain ⟨up, chosen, rfl, rules, opened⟩ := place_kept schema placed
  have online : ∀ m ∈ db.liveNodes env, m.node ∈ db.listOnlineNodes env.now ∧
      m.livePlacements = db.countLivePlacements m.node.id ∧
      0 < m.node.freeBytes := by
    intro m member
    simp only [liveNodes, mem_map, mem_filter, decide_eq_true_eq] at member
    obtain ⟨n, ⟨inOnline, -, room⟩, rfl⟩ := member
    exact ⟨inOnline, rfl, room⟩
  refine ⟨?_, ?_, ?_⟩
  · obtain ⟨m, member⟩ := exists_mem_of_ne_nil _ up
    exact ⟨env.now, m.node, (online m member).1, (online m member).2.2⟩
  · intro a member
    obtain ⟨c, isChosen, rfl⟩ := mem_map.mp member
    have needed := rules.needed.subset (mem_map_of_mem isChosen)
    obtain ⟨m, inLive, same, admitted⟩ := opened c isChosen
    rw [listOccupants_of_chunk ofChunk (ne_nil_of_mem needed), ofChunk _ needed] at admitted
    obtain ⟨inOnline, counted, -⟩ := online m inLive
    rw [Choice.assign, ← same]
    refine ⟨inOnline, ?_⟩
    rw [← counted]
    exact admitted
  · have fragments := rules.needed.map PlaceNeed.fragmentId
    rw [map_map] at fragments ⊢
    exact fragments

/-! ### Each such assignment is possible -/

/-- Surroundings in which one node answers, every write succeeds and the draws are
given. -/
def PlaceEnv.solo (now : Time) (id : Uuid) (draw : Nat → Option Nat) : PlaceEnv where
  now := now
  alive id' := some (id' = id)
  readsOk := true
  draw := draw
  reserve _ := true

theorem DB.liveNodes_solo (schema : db.Schema) (online : n ∈ db.listOnlineNodes now)
    (room : 0 < n.freeBytes) (draw : Nat → Option Nat) :
    db.liveNodes (.solo now n.id draw) =
      [{ node := n, livePlacements := db.countLivePlacements n.id }] := by
  have unique : UniqueOn Node.id (db.listOnlineNodes now) :=
    (schema.node_pk.filter _).perm (orderBy_perm _ _)
  have only : ((db.listOnlineNodes now).filter fun m =>
      (PlaceEnv.solo now n.id draw).alive m.id = some true ∧
        0 < m.freeBytes) = [n] := by
    refine eq_singleton_of_nodup (unique.filter _).nodup ?_ ?_
    · exact mem_filter.mpr ⟨online, by simpa [PlaceEnv.solo] using room⟩
    · intro m member
      obtain ⟨inOnline, answers⟩ := mem_filter.mp member
      simp only [PlaceEnv.solo, Option.some.injEq, decide_eq_true_eq] at answers
      exact unique.eq_of_key inOnline online answers.1
  rw [liveNodes]
  exact congrArg _ only

theorem DB.place_solo (schema : db.Schema) (online : n ∈ db.listOnlineNodes now)
    (room : 0 < n.freeBytes) (draw : Nat → Option Nat) (needs : List PlaceNeed) :
    db.place (.solo now n.id draw) needs =
      placeLoop (.solo now n.id draw) (db.listOccupants (needs.map PlaceNeed.chunkId))
        [{ node := n, livePlacements := db.countLivePlacements n.id }] [] 0 needs := by
  have answered : ((db.listOnlineNodes now).any fun m =>
      (PlaceEnv.solo now n.id draw).alive m.id = none) = false := by
    simp [PlaceEnv.solo]
  rw [place, liveNodes_solo schema online room]
  simp only [show (PlaceEnv.solo now n.id draw).now = now from rfl, answered]
  rfl

/-- Whatever is needed, `Place` may return nothing. -/
theorem DB.place_nothing (schema : db.Schema) (schedulable : db.Schedulable)
    (needs : List PlaceNeed) : ∃ env, db.place env needs = .ok [] := by
  obtain ⟨now, n, online, room⟩ := schedulable
  refine ⟨.solo now n.id fun _ => none, ?_⟩
  rw [place_solo schema online room]
  exact placeLoop_undrawn fun _ _ => rfl

/-- A node that may be chosen can be the only one chosen, for any of the needs. -/
theorem DB.place_alone (schema : db.Schema) (placeable : db.Placeable chunkId now n)
    (ofChunk : ∀ need ∈ needs, need.chunkId = chunkId) (member : need ∈ needs) :
    ∃ env, db.place env needs = .ok [{ fragmentId := need.fragmentId, node := n }] := by
  obtain ⟨before, after, rfl⟩ := append_of_mem member
  refine ⟨.solo now n.id fun j => if j = before.length then some 0 else none, ?_⟩
  rw [place_solo schema placeable.1 placeable.room, listOccupants_of_chunk ofChunk (by simp)]
  refine placeLoop_alone ?_ ?_ ?_ fun _ => rfl
  · rw [ofChunk need member]
    exact placeable.2
  · simp [PlaceEnv.solo]
  · intro j other
    rw [Nat.zero_add] at other
    simp [PlaceEnv.solo, other]

end StoragePlatform
