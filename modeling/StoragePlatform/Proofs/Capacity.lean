/-
Module: StoragePlatform.Proofs.Capacity
Purpose: What `Place` promises of a node's capacity over a sequence of calls.
Trusted boundary: none
Main exports: PlaceCall.demand, PlaceCall.Affordable, capacity_not_overcommitted
-/
import Mathlib.Algebra.Order.BigOperators.Group.List
import Mathlib.Data.List.MinMax
import StoragePlatform.Proofs.PlaceRules

namespace StoragePlatform

open Lib List Sample

variable {redis : List Reservation} {r : Reservation} {chosen : List Choice} {c : PlaceCall}

/-! ### Keys and their bytes -/

/-- Every key holds a size that is not negative. -/
def Sizes (redis : List Reservation) : Prop := ∀ r ∈ redis, 0 ≤ r.sizeBytes

theorem Sizes.set (sizes : Sizes redis) (size : 0 ≤ r.sizeBytes) :
    Sizes (setReservation redis r) := by
  intro key member
  rcases mem_append_row.mp member with old | rfl
  · exact sizes key (mem_filter.mp old).1
  · exact size

/-- Fewer keys hold fewer bytes. -/
theorem reservedBytes_sublist {keys keys' : List Reservation} (sizes : Sizes keys')
    (fewer : keys.Sublist keys') (now : Time) (nodeId : Uuid) :
    reservedBytes now nodeId keys ≤ reservedBytes now nodeId keys' := by
  refine List.Sublist.sum_le_sum ((fewer.filter _).map _) fun size member => ?_
  obtain ⟨r, kept, rfl⟩ := mem_map.mp member
  exact sizes r (mem_filter.mp kept).1

/-- A write adds its size to the bytes of its node, and no more. -/
theorem reservedBytes_set (sizes : Sizes redis) (size : 0 ≤ r.sizeBytes) (now : Time)
    (nodeId : Uuid) :
    reservedBytes now nodeId (setReservation redis r) ≤
      reservedBytes now nodeId redis + if r.nodeId = nodeId then r.sizeBytes else 0 := by
  have kept := reservedBytes_sublist sizes (filter_sublist (p := fun old =>
      ¬ (old.nodeId = r.nodeId ∧ old.fragmentId = r.fragmentId))) now nodeId
  have added : reservedBytes now nodeId [r] ≤ if r.nodeId = nodeId then r.sizeBytes else 0 := by
    by_cases here : r.nodeId = nodeId
    · by_cases fresh : now < r.expires <;> simp [reservedBytes, here, fresh, size]
    · simp [reservedBytes, here]
  rw [setReservation, reservedBytes, filter_append, map_append, sum_append]
  exact add_le_add kept added

/-! ### What a call can ask of a node -/

/-- The bytes of the choices that fall on a node. -/
def chosenBytes (nodeId : Uuid) (chosen : List Choice) : Int :=
  ((chosen.filter fun c => c.2.id = nodeId).map fun c => c.1.sizeBytes).sum

theorem reservedBytes_reserveAll (needs : ∀ c ∈ chosen, 0 ≤ c.1.sizeBytes) (now ttl : Time)
    (nodeId : Uuid) (sizes : Sizes redis) :
    Sizes (reserveAll now ttl chosen redis) ∧
      reservedBytes now nodeId (reserveAll now ttl chosen redis) ≤
        reservedBytes now nodeId redis + chosenBytes nodeId chosen := by
  induction chosen generalizing redis with
  | nil => exact ⟨sizes, by simp [reserveAll, chosenBytes]⟩
  | cons c chosen ih =>
    have size : 0 ≤ (reservation now ttl c.1 c.2).sizeBytes := needs c mem_cons_self
    obtain ⟨kept, bound⟩ := ih (fun c' member => needs c' (mem_cons_of_mem _ member))
      (sizes.set size)
    refine ⟨kept, bound.trans ?_⟩
    have one := reservedBytes_set sizes size now nodeId
    have split : chosenBytes nodeId (c :: chosen) =
        (if c.2.id = nodeId then c.1.sizeBytes else 0) + chosenBytes nodeId chosen := by
      by_cases here : c.2.id = nodeId <;> simp [chosenBytes, here]
    rw [split, ← add_assoc]
    exact Int.add_le_add_right one _

/-- The largest need of a chunk. -/
def largestNeed (needs : List PlaceNeed) (chunkId : Uuid) : Int :=
  ((needs.filter fun need => need.chunkId = chunkId).map PlaceNeed.sizeBytes).foldr max 0

theorem largestNeed_nonneg (needs : List PlaceNeed) (chunkId : Uuid) :
    0 ≤ largestNeed needs chunkId := by
  rw [largestNeed]
  induction (needs.filter fun need => need.chunkId = chunkId).map PlaceNeed.sizeBytes with
  | nil => exact le_refl 0
  | cons size sizes ih => exact ih.trans (le_max_right _ _)

theorem le_largestNeed {needs : List PlaceNeed} {need : PlaceNeed} (member : need ∈ needs) :
    need.sizeBytes ≤ largestNeed needs need.chunkId := by
  have inChunk : need.sizeBytes ∈
      (needs.filter fun need' => need'.chunkId = need.chunkId).map PlaceNeed.sizeBytes :=
    mem_map_of_mem (mem_filter.mpr ⟨member, decide_eq_true rfl⟩)
  exact le_max_of_le' 0 inChunk le_rfl

/-- The node can be drawn for the chunk when the call begins. -/
def PlaceCall.takes (c : PlaceCall) (nodeId chunkId : Uuid) : Bool :=
  (c.db.liveNodes c.env).any fun m => m.node.id = nodeId ∧
    eligible c.env.now
      (seedUse (c.db.listOccupants (c.needs.map PlaceNeed.chunkId)) chunkId) m = true

/-- The most a call can put on a node: the largest need of each chunk the node can be
drawn for. -/
def PlaceCall.demand (c : PlaceCall) (nodeId : Uuid) : Int :=
  (((c.needs.map PlaceNeed.chunkId).dedup.filter (c.takes nodeId)).map
    (largestNeed c.needs)).sum

section Demand

variable {now : Time} {occupants : List Occupant} {live : List LiveNode}
  {done : List PlaceNeed}

/-- At most one choice of a chunk falls on a node. -/
theorem KeepsRules.chunks_nodup (rules : KeepsRules now occupants live done chosen)
    (nodeId : Uuid) :
    ((chosen.filter fun c => c.2.id = nodeId).map fun c => c.1.chunkId).Nodup := by
  rw [nodup_iff_count_le_one]
  intro chunkId
  have once := nodup_iff_count_le_one.mp (rules.chunks chunkId).distinct nodeId
  refine le_trans (le_of_eq ?_) once
  rw [assignedSites, byChunk, map_map, List.count, List.count, countP_map,
    countP_map, countP_filter, countP_filter, countP_map]
  refine countP_congr fun c _ => ?_
  simp [Node.site, and_comm]

end Demand

/-- What a call writes: keys for choices of some of its needs that keep the rules. -/
theorem PlaceCall.written (c : PlaceCall) (redis : List Reservation) :
    ∃ chosen : List Choice, (chosen.map Prod.fst).Sublist c.needs ∧
      (∃ done, KeepsRules c.env.now (c.db.listOccupants (c.needs.map PlaceNeed.chunkId))
        (c.db.liveNodes c.env) done chosen) ∧
      OpenAtStart c.env.now (c.db.listOccupants (c.needs.map PlaceNeed.chunkId))
        (c.db.liveNodes c.env) chosen ∧
      (c.db.placeReserving c.env c.ttl c.needs redis).1 =
        reserveAll c.env.now c.ttl chosen redis := by
  have nothing : ∀ e : StoreErr, ∃ chosen : List Choice,
      (chosen.map Prod.fst).Sublist c.needs ∧
      (∃ done, KeepsRules c.env.now (c.db.listOccupants (c.needs.map PlaceNeed.chunkId))
        (c.db.liveNodes c.env) done chosen) ∧
      OpenAtStart c.env.now (c.db.listOccupants (c.needs.map PlaceNeed.chunkId))
        (c.db.liveNodes c.env) chosen ∧
      ((redis, .error e) : List Reservation × Except StoreErr (List PlaceAssign)).1 =
        reserveAll c.env.now c.ttl chosen redis :=
    fun _ => ⟨[], nil_sublist _, ⟨[], .start _ _ _⟩, by simp [OpenAtStart], rfl⟩
  rw [DB.placeReserving]
  split
  · exact nothing _
  split
  · exact nothing _
  split
  · exact nothing _
  obtain ⟨chosen, passed, rest, split, rules, opened, written, -⟩ :=
    reserveLoop_kept (DB.liveNodes_unique c.schema c.env) c.env c.ttl c.needs redis
  refine ⟨chosen, ?_, ⟨_, rules⟩, opened, written⟩
  rw [split]
  exact rules.needed.trans (sublist_append_left _ _)

theorem PlaceCall.chosenBytes_le {done : List PlaceNeed}
    (needed : (chosen.map Prod.fst).Sublist c.needs)
    (rules : KeepsRules c.env.now (c.db.listOccupants (c.needs.map PlaceNeed.chunkId))
      (c.db.liveNodes c.env) done chosen)
    (opened : OpenAtStart c.env.now (c.db.listOccupants (c.needs.map PlaceNeed.chunkId))
      (c.db.liveNodes c.env) chosen) (nodeId : Uuid) :
    chosenBytes nodeId chosen ≤ c.demand nodeId := by
  have inNeeds : ∀ choice ∈ chosen, choice.1 ∈ c.needs :=
    fun choice member => needed.subset (mem_map_of_mem member)
  calc chosenBytes nodeId chosen
      ≤ (((chosen.filter fun choice => choice.2.id = nodeId).map fun choice =>
          choice.1.chunkId).map (largestNeed c.needs)).sum := by
        rw [chosenBytes, map_map]
        refine sum_le_sum fun choice member => ?_
        exact le_largestNeed (inNeeds choice (mem_filter.mp member).1)
    _ ≤ c.demand nodeId := by
        -- the chunks of the choices are among those the node can be drawn for, each once
        have part : ((chosen.filter fun choice => choice.2.id = nodeId).map fun choice =>
            choice.1.chunkId).Subperm
              ((c.needs.map PlaceNeed.chunkId).dedup.filter (c.takes nodeId)) := by
          refine subperm_of_subset (rules.chunks_nodup nodeId) fun chunkId member => ?_
          obtain ⟨choice, kept, rfl⟩ := mem_map.mp member
          obtain ⟨isChosen, onNode⟩ := mem_filter.mp kept
          obtain ⟨m, inLive, same, admitted⟩ := opened choice isChosen
          refine mem_filter.mpr ⟨mem_dedup.mpr (mem_map_of_mem (inNeeds choice isChosen)), ?_⟩
          refine any_eq_true.mpr ⟨m, inLive, decide_eq_true ⟨?_, admitted⟩⟩
          rw [same]
          exact of_decide_eq_true onNode
        obtain ⟨chunks, order, sublist⟩ := subperm_map part (largestNeed c.needs)
        rw [← order.sum_eq]
        refine List.Sublist.sum_le_sum sublist fun size member => ?_
        obtain ⟨chunkId, -, rfl⟩ := mem_map.mp member
        exact largestNeed_nonneg _ _

/-! ### Over a sequence of calls -/

/-- On every node of the last call, what is used and what was assigned under an unexpired
reservation fit the capacity. -/
def PlaceHistory.WithinCapacity (h : PlaceHistory) : Prop :=
  ∀ n ∈ h.nodes, h.committed n.id + n.usedBytes ≤ n.capacityBytes

/-- Before the call every node has room for what it has used, what is reserved on it and
what the call can put on it. -/
structure PlaceCall.Affordable (h : PlaceHistory) (c : PlaceCall) : Prop where
  sizes : ∀ need ∈ c.needs, 0 ≤ need.sizeBytes
  room : ∀ n ∈ c.db.nodes,
    n.usedBytes + reservedBytes c.env.now n.id h.redis + c.demand n.id ≤ n.capacityBytes

theorem PlaceHistory.call_within {h : PlaceHistory} (sizes : Sizes h.redis)
    (affordable : c.Affordable h) : Sizes (h.call c).redis ∧ (h.call c).WithinCapacity := by
  obtain ⟨chosen, needed, ⟨done, rules⟩, opened, written⟩ := c.written h.redis
  have nonneg : ∀ choice ∈ chosen, 0 ≤ choice.1.sizeBytes :=
    fun choice member => affordable.sizes _ (needed.subset (mem_map_of_mem member))
  have bound := fun nodeId =>
    reservedBytes_reserveAll nonneg c.env.now c.ttl nodeId sizes
  rw [← written] at bound
  have kept : Sizes (h.call c).redis := (bound 0).1
  refine ⟨kept, fun n inNodes => ?_⟩
  have all : (h.call c).committed n.id ≤ reservedBytes c.env.now n.id (h.call c).redis :=
    reservedBytes_sublist kept filter_sublist _ _
  have grown := (bound n.id).2
  have demanded := c.chosenBytes_le needed rules opened n.id
  have room := affordable.room n inNodes
  change _ ≤ reservedBytes c.env.now n.id (c.db.placeReserving c.env c.ttl c.needs h.redis).1
    at all
  omega

/-- In every sequence of calls that are affordable when they are made, no node is ever
over-committed. -/
theorem capacity_not_overcommitted (calls : List PlaceCall)
    (affordable : EveryStep placeStep
      (fun h c _ => PlaceCall.Affordable h c) .init calls) :
    EveryState placeStep PlaceHistory.WithinCapacity .init
      calls := by
  have inside : EveryState placeStep (fun h => Sizes h.redis ∧ h.WithinCapacity) .init calls := by
    refine EveryState.of_step ?_ ⟨?_, ?_⟩ affordable
    · rintro h c _ ⟨sizes, -⟩ ⟨⟩ affordable
      exact PlaceHistory.call_within sizes affordable
    · exact fun r member => absurd member not_mem_nil
    · exact fun n member => absurd member not_mem_nil
  exact inside.mono fun h both => both.2

namespace Sample

/-- A database with one node of 100 bytes. -/
def oneNode : DB := { DB.empty with nodes := [node 0] }

theorem oneNode_schema : oneNode.Schema := by
  constructor <;> simp [oneNode, DB.empty, UniqueOn]

/-- A call for one fragment of a chunk of its own. -/
def askFor (k : Nat) (size : Int) (now : Time) : PlaceCall where
  db := oneNode
  schema := oneNode_schema
  env := { env fun _ => true with now := now }
  ttl := 900
  needs := [⟨gen (2 * k), gen (2 * k + 1), size⟩]

end Sample

theorem smallNeeds_fit :
    EveryState placeStep PlaceHistory.WithinCapacity .init
      [askFor 0 40 0, askFor 1 60 10] := by
  apply capacity_not_overcommitted
  rintro _ ⟨⟩
  refine ⟨⟨by decide, by decide⟩, ?_⟩
  rintro _ ⟨⟩
  exact ⟨⟨by decide, by decide⟩, trivial⟩

/-- Two fragments of 60 bytes are assigned to a node of 100 bytes, ten seconds apart: the
second call does not look at the reservation of the first. -/
theorem secondCall_overcommits :
    ¬ EveryState placeStep PlaceHistory.WithinCapacity .init
      [askFor 0 60 0, askFor 1 60 10] := by
  intro within
  have last := within.last rfl
  exact absurd (last (node 0) (by decide)) (by decide)

end StoragePlatform
