/-
Module: StoragePlatform.Proofs.PlaceRules
Purpose: What one `Place` call does for all its chunks at once: the hard rules it keeps,
  and how many needs it fills on a fleet that fits the caps.
Trusted boundary: none
Main exports: reserveLoop_rule, placeLoop_rule, ChunkRules, KeepsRules, place_complete
-/
import StoragePlatform.Lib.Word64
import StoragePlatform.Reservations
import StoragePlatform.Store.Health
import StoragePlatform.Proofs.Steps

namespace StoragePlatform

open Lib List Sample

/-! ### The loop -/

/-- A need with the node chosen for it. -/
abbrev Choice := PlaceNeed × Node

variable {live : List LiveNode} {chosen : List Choice} {done needs : List PlaceNeed}
variable {assigns : List PlaceAssign} {u : ChunkUse} {now : Time} {n : LiveNode} {env : PlaceEnv}
variable {db : DB} {occupants : List Occupant} {cap : Nat}

def Choice.assign (c : Choice) : PlaceAssign := ⟨c.1.fragmentId, c.2⟩

/-- The choices as the loop remembers them. -/
def byChunk (chosen : List Choice) : List (Uuid × Node) := chosen.map fun c => (c.1.chunkId, c.2)

theorem byChunk_nil : byChunk [] = [] := rfl

theorem byChunk_concat (chosen : List Choice) (need : PlaceNeed) (n : Node) :
    byChunk (chosen ++ [(need, n)]) = byChunk chosen ++ [(need.chunkId, n)] := by
  simp [byChunk]

/-- The writes for some choices, in their order. -/
def reserveAll (now ttl : Time) (chosen : List Choice) (redis : List Reservation) :
    List Reservation :=
  chosen.foldl (fun redis c => setReservation redis (reservation now ttl c.1 c.2)) redis

section Rule

variable {I : List LiveNode → List Choice → List PlaceNeed → Prop}
  (skip : ∀ live chosen done need k, I live chosen done →
    pick env.now live (usedInChunk occupants (byChunk chosen) need.chunkId) (env.draw k) = none →
    I live chosen (done ++ [need]))
  (choose : ∀ live chosen done need k n, I live chosen done →
    pick env.now live (usedInChunk occupants (byChunk chosen) need.chunkId) (env.draw k) =
      some n →
    I (bumpLive n.node.id live) (chosen ++ [(need, n.node)]) (done ++ [need]))

include skip choose

/-- The invariant rule of the loop: a need is passed over, or a node is chosen for it and
its key is written.  A failed write ends the call after some of the needs. -/
theorem reserveLoop_rule (start : I live chosen done) (ttl : Time) (k : Nat)
    (needs : List PlaceNeed) (redis : List Reservation) :
    ∃ live' more passed rest, needs = passed ++ rest ∧ I live' (chosen ++ more) (done ++ passed) ∧
      (reserveLoop env ttl occupants live (byChunk chosen) k needs redis).1 =
        reserveAll env.now ttl more redis ∧
      ∀ assigns, (reserveLoop env ttl occupants live (byChunk chosen) k needs redis).2 =
        .ok assigns → assigns = more.map Choice.assign ∧ rest = [] := by
  induction needs generalizing live chosen done k redis with
  | nil =>
    refine ⟨live, [], [], [], rfl, by simpa using start, rfl, fun assigns same => ?_⟩
    cases same
    exact ⟨rfl, rfl⟩
  | cons need needs ih =>
    simp only [reserveLoop]
    split
    · rename_i none
      obtain ⟨live', more, passed, rest, split, inside, written, returned⟩ :=
        ih (skip _ _ _ need k start none) (k + 1) redis
      exact ⟨live', more, need :: passed, rest, by rw [split]; rfl, by simpa using inside,
        written, returned⟩
    rename_i n picked
    split
    · exact ⟨live, [], [], need :: needs, rfl, by simpa using start, rfl,
        fun _ failed => by cases failed⟩
    obtain ⟨live', more, passed, rest, split, inside, written, returned⟩ :=
      ih (choose _ _ _ need k n start picked) (k + 1)
        (setReservation redis (reservation env.now ttl need n.node))
    rw [byChunk_concat] at written returned
    refine ⟨live', (need, n.node) :: more, need :: passed, rest, by rw [split]; rfl,
      by simpa using inside, ?_, ?_⟩
    · split <;> rename_i ran <;> rw [ran] at written <;> exact written
    · intro assigns ok
      split at ok <;> cases ok
      rename_i ran
      rw [ran] at returned
      obtain ⟨same, whole⟩ := returned _ rfl
      exact ⟨by rw [same]; rfl, whole⟩

theorem placeLoop_rule {k : Nat} (start : I live chosen done)
    (placed : placeLoop env occupants live (byChunk chosen) k needs = .ok assigns) :
    ∃ live' more, assigns = more.map Choice.assign ∧ I live' (chosen ++ more) (done ++ needs) := by
  obtain ⟨live', more, passed, rest, split, inside, -, returned⟩ :=
    reserveLoop_rule skip choose start 0 k needs []
  rw [reserveLoop_outcome] at returned
  obtain ⟨same, rfl⟩ := returned assigns placed
  rw [append_nil] at split
  exact ⟨live', more, same, split ▸ inside⟩

end Rule

/-! ### Counting the holders of a chunk -/

/-- The columns of a node the caps look at.  No statement of the system writes
them after registration. -/
structure Site where
  node : Uuid
  /-- `none` is the empty region. -/
  region : Option Text
  asn : Option Int
  owner : Uuid
deriving DecidableEq, Repr

def Node.site (n : Node) : Site where
  node := n.id
  region := n.knownRegion
  asn := n.asn
  owner := n.ownerId

/-- The counters of the scheduler for these holders. -/
structure ChunkUse.Counts (u : ChunkUse) (sites : List Site) : Prop where
  nodes : ∀ id, id ∉ u.nodes → ∀ site ∈ sites, site.node ≠ id
  regions : ∀ region,
    ((sites.map Site.region).countP fun v => v = some region) = u.regions.count region
  asns : ∀ asn, ((sites.map Site.asn).countP fun v => v = some asn) = u.asns.count asn
  owners : ∀ owner,
    ((sites.map fun site => some site.owner).countP fun v => v = some owner) = u.owners.count owner

namespace ChunkUse.Counts

variable {sites : List Site}

theorem new : ChunkUse.Counts .new [] := by
  constructor <;> simp [ChunkUse.new]

theorem add (counts : u.Counts sites) (n : Node) : (u.add n).Counts (sites ++ [n.site]) where
  nodes id unused site member := by
    simp only [ChunkUse.add, mem_cons, not_or] at unused
    rcases mem_append_row.mp member with old | rfl
    · exact counts.nodes id unused.2 site old
    · exact Ne.symm unused.1
  regions region := by
    simp only [map_append, countP_append, counts.regions, ChunkUse.add,
      map_singleton, Node.site, Node.knownRegion, countP_singleton]
    split <;> simp [count_cons]
  asns asn := by
    simp only [map_append, countP_append, counts.asns, ChunkUse.add, map_singleton,
      Node.site, countP_singleton, count_append]
    cases n.asn <;> simp [count_cons, Nat.add_comm]
  owners owner := by
    simp only [map_append, countP_append, counts.owners, ChunkUse.add,
      map_singleton, Node.site, countP_singleton, count_cons]
    simp

theorem foldl {α : Type*} (node : α → Node) (rows : List α) (counts : u.Counts sites) :
    (rows.foldl (fun u row => u.add (node row)) u).Counts
      (sites ++ rows.map fun row => (node row).site) := by
  induction rows generalizing u sites with
  | nil => simpa using counts
  | cons row rows ih =>
    have rest := ih (counts.add (node row))
    rw [append_assoc] at rest
    exact rest

end ChunkUse.Counts

theorem mem_nodes_foldl {α : Type*} (node : α → Node) (rows : List α) (u : ChunkUse) (id : Uuid) :
    id ∈ (rows.foldl (fun u row => u.add (node row)) u).nodes ↔
      id ∈ u.nodes ∨ ∃ row ∈ rows, (node row).id = id := by
  induction rows generalizing u with
  | nil => simp
  | cons row rows ih =>
    rw [foldl_cons, ih]
    simp only [ChunkUse.add, mem_cons, or_and_right, exists_or, exists_eq_left, @eq_comm _ id]
    tauto

/-- The sites of the occupants of a chunk. -/
def occupantSites (occupants : List Occupant) (chunkId : Uuid) : List Site :=
  (occupants.filter fun o => o.chunkId = chunkId).map fun o => o.node.site

/-- The sites assigned to a chunk so far. -/
def assignedSites (assigned : List (Uuid × Node)) (chunkId : Uuid) : List Site :=
  (assigned.filter fun a => a.1 = chunkId).map fun a => a.2.site

theorem counts_usedInChunk (occupants : List Occupant) (assigned : List (Uuid × Node))
    (chunkId : Uuid) :
    (usedInChunk occupants assigned chunkId).Counts
      (occupantSites occupants chunkId ++ assignedSites assigned chunkId) := by
  have seed := ChunkUse.Counts.foldl Occupant.node
    (occupants.filter fun o => o.chunkId = chunkId) ChunkUse.Counts.new
  exact ChunkUse.Counts.foldl Prod.snd (assigned.filter fun a => a.1 = chunkId) seed

/-! ### The caps only tighten while the loop runs -/

/-- Everything that `u` counts is counted in `v` too. -/
structure ChunkUse.Within (u v : ChunkUse) : Prop where
  nodes : u.nodes ⊆ v.nodes
  regions : ∀ region, u.regions.count region ≤ v.regions.count region
  asns : ∀ asn, u.asns.count asn ≤ v.asns.count asn
  owners : ∀ owner, u.owners.count owner ≤ v.owners.count owner

namespace ChunkUse.Within

theorem refl (u : ChunkUse) : u.Within u :=
  ⟨List.Subset.refl _, fun _ => le_rfl, fun _ => le_rfl, fun _ => le_rfl⟩

theorem trans {u v w : ChunkUse} (uv : u.Within v) (vw : v.Within w) : u.Within w where
  nodes := List.Subset.trans uv.nodes vw.nodes
  regions region := (uv.regions region).trans (vw.regions region)
  asns asn := (uv.asns asn).trans (vw.asns asn)
  owners owner := (uv.owners owner).trans (vw.owners owner)

theorem add (u : ChunkUse) (n : Node) : u.Within (u.add n) where
  nodes := subset_cons_self _ _
  regions region := by
    simp only [ChunkUse.add]
    split
    · exact le_rfl
    · exact count_le_count_cons
  asns asn := by
    simp only [ChunkUse.add, count_append]
    omega
  owners owner := count_le_count_cons

theorem foldl_add (u : ChunkUse) (assigned : List (Uuid × Node)) :
    u.Within (assigned.foldl (fun u a => u.add a.2) u) := by
  induction assigned generalizing u with
  | nil => exact refl u
  | cons a assigned ih => exact (add u a.2).trans (ih _)

end ChunkUse.Within

theorem seedUse_within (occupants : List Occupant) (assigned : List (Uuid × Node))
    (chunkId : Uuid) :
    (seedUse occupants chunkId).Within (usedInChunk occupants assigned chunkId) :=
  .foldl_add _ _

/-- A node that is eligible late, with more in use, was eligible before. -/
theorem eligible_of_within {u v : ChunkUse} {n : LiveNode} (within : u.Within v)
    (same : m.node = n.node) (fewer : n.livePlacements ≤ m.livePlacements)
    (late : eligible now v m = true) : eligible now u n = true := by
  simp only [eligible, same, decide_eq_true_eq] at late ⊢
  obtain ⟨free, region, asns, owner, room, probation⟩ := late
  refine ⟨fun used => free (within.nodes used), ?_, ?_, ?_, room, ?_⟩
  · exact region.imp_right fun below => (within.regions _).trans_lt below
  · exact fun asn member => (within.asns asn).trans_lt (asns asn member)
  · exact (within.owners _).trans_lt owner
  · exact fun stuck => probation ⟨stuck.1, stuck.2.trans fewer⟩

/-! ### The hard rules -/

theorem assignedSites_concat (chosen : List Choice) (need : PlaceNeed) (n : Node)
    (chunkId : Uuid) :
    assignedSites (byChunk (chosen ++ [(need, n)])) chunkId =
      assignedSites (byChunk chosen) chunkId ++
        if need.chunkId = chunkId then [n.site] else [] := by
  rw [byChunk_concat, assignedSites, assignedSites, filter_append, map_append]
  by_cases here : need.chunkId = chunkId <;> simp [here]

/-- The counts with the assigned nodes stay under the cap or where the occupants have
them. -/
def CappedFrom {κ : Type*} [DecidableEq κ] (cap : Nat) (base values : List (Option κ)) : Prop :=
  ∀ k, (values.countP fun v => v = some k) ≤ max cap (base.countP fun v => v = some k)

theorem CappedFrom.concat {κ : Type*} [DecidableEq κ] {base values : List (Option κ)}
    {value : Option κ} (capped : CappedFrom cap base values)
    (room : ∀ k, value = some k → (values.countP fun v => v = some k) < cap) :
    CappedFrom cap base (values ++ [value]) := by
  intro k
  rw [countP_append, countP_singleton]
  by_cases same : value = some k
  · have below := room k same
    rw [if_pos (decide_eq_true same)]
    exact Nat.le_trans below (Nat.le_max_left _ _)
  · rw [if_neg (by simpa using same)]
    exact capped k

theorem CappedFrom.capped {κ : Type*} [DecidableEq κ] {base values : List (Option κ)}
    (above : CappedFrom cap base values) (capped : Capped cap base) : Capped cap values :=
  .of_countP_le fun k => (above k).trans (max_le le_rfl (capped.countP_le k))

/-- What holds of the nodes assigned to a chunk, next to its occupants. -/
structure ChunkRules (occupants assigned : List Site) : Prop where
  distinct : UniqueOn Site.node assigned
  free : ∀ a ∈ assigned, ∀ o ∈ occupants, a.node ≠ o.node
  regions : CappedFrom regionCap (occupants.map Site.region)
    ((occupants ++ assigned).map Site.region)
  asns : CappedFrom asnCap (occupants.map Site.asn) ((occupants ++ assigned).map Site.asn)
  owners : CappedFrom ownerCap (occupants.map fun site => some site.owner)
    ((occupants ++ assigned).map fun site => some site.owner)

theorem ChunkRules.none (occupants : List Site) : ChunkRules occupants [] where
  distinct := .nil _
  free := nofun
  regions k := by simp
  asns k := by simp
  owners k := by simp

/-- An eligible node keeps them. -/
theorem ChunkRules.eligible {occupants assigned : List Site} (rules : ChunkRules occupants assigned)
    (counts : u.Counts (occupants ++ assigned)) (admitted : StoragePlatform.eligible now u n = true)
    : ChunkRules occupants (assigned ++ [n.node.site]) := by
  simp only [StoragePlatform.eligible, decide_eq_true_eq] at admitted
  obtain ⟨unused, region, asns, owner, -, -⟩ := admitted
  have fresh := counts.nodes n.node.id unused
  constructor
  case distinct =>
    refine rules.distinct.append_singleton fun old member => ?_
    exact fresh old (mem_append_right _ member)
  case free =>
    intro a member o isOccupant
    rcases mem_append_row.mp member with old | rfl
    · exact rules.free a old o isOccupant
    · exact (fresh o (mem_append_left _ isOccupant)).symm
  case regions =>
    rw [← append_assoc, map_append]
    refine rules.regions.concat fun r same => ?_
    rw [counts.regions]
    simp only [Node.site, Node.knownRegion, Option.ite_none_left_eq_some, Option.some.injEq] at same
    rw [← same.2]
    exact region.resolve_left same.1
  case asns =>
    rw [← append_assoc, map_append]
    refine rules.asns.concat fun asn same => ?_
    rw [counts.asns]
    exact asns asn (by simpa [Node.site] using same)
  case owners =>
    rw [← append_assoc, map_append]
    refine rules.owners.concat fun o same => ?_
    rw [counts.owners, ← Option.some.inj same]
    exact owner

/-- How often the call has chosen a node, for whatever chunk. -/
def timesChosen (chosen : List Choice) (id : Uuid) : Nat := chosen.countP fun c => c.2.id = id

theorem timesChosen_concat (chosen : List Choice) (need : PlaceNeed) (n : Node) (id : Uuid) :
    timesChosen (chosen ++ [(need, n)]) id =
      timesChosen chosen id + if n.id = id then 1 else 0 := by
  simp [timesChosen, countP_append, countP_singleton]

/-- The choices of one call, made among `live` for some of the needs in their order, keep
the hard rules: those of each chunk, free space, and the quota of probation over all
chunks. -/
structure KeepsRules (now : Time) (occupants : List Occupant) (live : List LiveNode)
    (needs : List PlaceNeed) (chosen : List Choice) : Prop where
  needed : (chosen.map Prod.fst).Sublist needs
  chunks : ∀ chunkId,
    ChunkRules (occupantSites occupants chunkId) (assignedSites (byChunk chosen) chunkId)
  room : ∀ c ∈ chosen, c.2 ∈ live.map LiveNode.node ∧ 0 < c.2.freeBytes
  probation : ∀ m ∈ live, inProbation now m.node = true →
    m.livePlacements + timesChosen chosen m.node.id ≤ max probationQuota m.livePlacements

theorem KeepsRules.start (now : Time) (occupants : List Occupant) (live : List LiveNode) :
    KeepsRules now occupants live [] [] where
  needed := List.Sublist.refl _
  chunks chunkId := ChunkRules.none _
  room c member := absurd member not_mem_nil
  probation m _ _ := by simp [timesChosen]

/-- The live nodes with the counters of the loop. -/
def counting (chosen : List Choice) (live : List LiveNode) : List LiveNode :=
  live.map fun m => { m with livePlacements := m.livePlacements + timesChosen chosen m.node.id }

theorem counting_nil (live : List LiveNode) : counting [] live = live := by
  simp [counting, timesChosen]

theorem counting_concat (chosen : List Choice) (need : PlaceNeed) (n : Node)
    (live : List LiveNode) :
    counting (chosen ++ [(need, n)]) live = bumpLive n.id (counting chosen live) := by
  rw [counting, counting, bumpLive, updateWhere, map_map]
  refine map_congr_left fun m _ => ?_
  rw [timesChosen_concat]
  by_cases same : m.node.id = n.id
  · simp [same, Nat.add_assoc]
  · simp [same, Ne.symm same]

section Loop

variable {need : PlaceNeed}

theorem KeepsRules.skip (rules : KeepsRules now occupants live done chosen) (need : PlaceNeed) :
    KeepsRules now occupants live (done ++ [need]) chosen :=
  { rules with needed := rules.needed.trans (sublist_append_left _ _) }

theorem KeepsRules.choose (distinct : UniqueOn (fun m : LiveNode => m.node.id) live)
    (rules : KeepsRules now occupants live done chosen) (counted : n ∈ counting chosen live)
    (admitted : eligible now (usedInChunk occupants (byChunk chosen) need.chunkId) n = true) :
    KeepsRules now occupants live (done ++ [need]) (chosen ++ [(need, n.node)]) := by
  have facts := admitted
  simp only [eligible, decide_eq_true_eq] at facts
  obtain ⟨-, -, -, -, space, quota⟩ := facts
  obtain ⟨m, inLive, rfl⟩ := mem_map.mp counted
  constructor
  case needed =>
    rw [map_append]
    exact rules.needed.append (List.Sublist.refl _)
  case chunks =>
    intro chunkId
    rw [assignedSites_concat]
    by_cases here : need.chunkId = chunkId
    · rw [if_pos here]
      rw [here] at admitted
      exact (rules.chunks chunkId).eligible (counts_usedInChunk _ _ _) admitted
    · rw [if_neg here, append_nil]
      exact rules.chunks chunkId
  case room =>
    intro c member
    rcases mem_append_row.mp member with old | rfl
    · exact rules.room c old
    · exact ⟨mem_map_of_mem inLive, space⟩
  case probation =>
    intro m' inLive' probation
    rw [timesChosen_concat]
    by_cases same : m.node.id = m'.node.id
    · -- the node chosen was below its quota
      obtain rfl := distinct.eq_of_key inLive inLive' same
      rw [if_pos rfl]
      have below : ¬ probationQuota ≤ m.livePlacements + timesChosen chosen m.node.id :=
        fun full => quota ⟨probation, full⟩
      omega
    · rw [if_neg same]
      exact rules.probation m' inLive' probation

end Loop

/-- Every choice of the loop was open when the call began. -/
def OpenAtStart (now : Time) (occupants : List Occupant) (live : List LiveNode)
    (chosen : List Choice) : Prop :=
  ∀ c ∈ chosen, ∃ m ∈ live, m.node = c.2 ∧
    eligible now (seedUse occupants c.1.chunkId) m = true

/-- A call writes keys for choices of some of its needs that keep the rules, and it returns
them when it succeeds. -/
theorem reserveLoop_kept (distinct : UniqueOn (fun m : LiveNode => m.node.id) live) (env : PlaceEnv)
    (ttl : Time) (needs : List PlaceNeed) (redis : List Reservation) :
    ∃ chosen passed rest, needs = passed ++ rest ∧
      KeepsRules env.now occupants live passed chosen ∧
      OpenAtStart env.now occupants live chosen ∧
      (reserveLoop env ttl occupants live [] 0 needs redis).1 =
        reserveAll env.now ttl chosen redis ∧
      ∀ assigns, (reserveLoop env ttl occupants live [] 0 needs redis).2 = .ok assigns →
        assigns = chosen.map Choice.assign ∧ rest = [] := by
  obtain ⟨live', chosen, passed, rest, split, ⟨-, rules, opened⟩, ran⟩ :=
    @reserveLoop_rule live [] [] env occupants
      (fun live' chosen done => live' = counting chosen live ∧
        KeepsRules env.now occupants live done chosen ∧ OpenAtStart env.now occupants live chosen)
      (fun live' chosen done need k ⟨counted, rules, opened⟩ _ =>
        ⟨counted, rules.skip need, opened⟩)
      (fun live' chosen done need k n ⟨counted, rules, opened⟩ picked => by
        obtain ⟨member, admitted⟩ := pick_mem picked
        rw [counted] at member
        refine ⟨by rw [counting_concat, ← counted], rules.choose distinct member admitted,
          forall_append_row opened ?_⟩
        obtain ⟨m, inLive, rfl⟩ := mem_map.mp member
        exact ⟨m, inLive, rfl, eligible_of_within (seedUse_within _ _ _) (by exact rfl)
          (Nat.le_add_right _ _) admitted⟩)
      ⟨(counting_nil live).symm, .start _ _ _, forall_mem_nil _⟩ ttl 0 needs redis
  exact ⟨chosen, passed, rest, split, rules, opened, ran⟩

theorem placeLoop_kept (distinct : UniqueOn (fun m : LiveNode => m.node.id) live)
    (placed : placeLoop env occupants live [] 0 needs = .ok assigns) :
    ∃ chosen : List Choice, assigns = chosen.map Choice.assign ∧
      KeepsRules env.now occupants live needs chosen ∧
      OpenAtStart env.now occupants live chosen := by
  obtain ⟨chosen, passed, rest, split, rules, opened, -, returned⟩ :=
    reserveLoop_kept distinct env 0 needs []
  rw [reserveLoop_outcome] at returned
  obtain ⟨same, rfl⟩ := returned assigns placed
  rw [append_nil] at split
  exact ⟨chosen, same, split ▸ rules, opened⟩

/-- The live nodes of a call are rows of one table. -/
theorem DB.liveNodes_unique (schema : db.Schema) (env : PlaceEnv) :
    UniqueOn (fun m : LiveNode => m.node.id) (db.liveNodes env) := by
  have online : UniqueOn Node.id (db.listOnlineNodes env.now) :=
    (schema.node_pk.filter _).perm (orderBy_perm _ _)
  rw [liveNodes, UniqueOn, map_map]
  exact online.filter _

theorem DB.place_loop (placed : db.place env needs = .ok assigns) :
    db.liveNodes env ≠ [] ∧ placeLoop env (db.listOccupants (needs.map PlaceNeed.chunkId))
      (db.liveNodes env) [] 0 needs = .ok assigns := by
  simp only [place] at placed
  split at placed
  · cases placed
  split at placed
  · cases placed
  rename_i up
  split at placed
  · cases placed
  · exact ⟨up, placed⟩

theorem DB.place_kept (schema : db.Schema) (placed : db.place env needs = .ok assigns) :
    db.liveNodes env ≠ [] ∧ ∃ chosen : List Choice, assigns = chosen.map Choice.assign ∧
      KeepsRules env.now (db.listOccupants (needs.map PlaceNeed.chunkId)) (db.liveNodes env)
        needs chosen ∧
      OpenAtStart env.now (db.listOccupants (needs.map PlaceNeed.chunkId)) (db.liveNodes env)
        chosen :=
  ⟨(place_loop placed).1, placeLoop_kept (liveNodes_unique schema env) (place_loop placed).2⟩

theorem DB.mem_listOnlineNodes {n : Node} (online : n ∈ db.listOnlineNodes now) : n ∈ db.nodes := by
  rw [listOnlineNodes, mem_orderBy] at online
  exact (mem_filter.mp online).1

theorem DB.mem_liveNodes {n : Node} (member : n ∈ (db.liveNodes env).map LiveNode.node) :
    n ∈ db.nodes := by
  obtain ⟨m, inLive, rfl⟩ := mem_map.mp member
  obtain ⟨n, kept, rfl⟩ := mem_map.mp inLive
  exact mem_listOnlineNodes (mem_filter.mp kept).1

/-- The spec of `Place` the callers use: assignments are for needed fragments,
on nodes of the table. -/
theorem DB.place_mem (schema : db.Schema) (placed : db.place env needs = .ok assigns) :
    ∀ a ∈ assigns, a.fragmentId ∈ needs.map PlaceNeed.fragmentId ∧ a.node ∈ db.nodes := by
  obtain ⟨-, chosen, rfl, rules, -⟩ := place_kept schema placed
  intro a member
  obtain ⟨c, isChosen, rfl⟩ := mem_map.mp member
  exact ⟨mem_map_of_mem (rules.needed.subset (mem_map_of_mem isChosen)),
    mem_liveNodes (rules.room c isChosen).1⟩

/-- The rules hold for the loop of `Place` on every list of live nodes and every list of
occupants, and for `Place` on every database. -/
theorem place_keeps_rules :
    (∀ (env : PlaceEnv) (occupants : List Occupant) (live : List LiveNode)
      (needs : List PlaceNeed) (assigns : List PlaceAssign),
      UniqueOn (fun m : LiveNode => m.node.id) live →
      placeLoop env occupants live [] 0 needs = .ok assigns →
      ∃ chosen : List Choice, assigns = chosen.map Choice.assign ∧
        KeepsRules env.now occupants live needs chosen) ∧
    ∀ (db : DB) (env : PlaceEnv) (needs : List PlaceNeed) (assigns : List PlaceAssign),
      db.Schema → db.place env needs = .ok assigns →
      ∃ chosen : List Choice, assigns = chosen.map Choice.assign ∧
        KeepsRules env.now (db.listOccupants (needs.map PlaceNeed.chunkId)) (db.liveNodes env)
          needs chosen := by
  constructor
  · intro env occupants live needs assigns distinct placed
    obtain ⟨chosen, same, rules, -⟩ := placeLoop_kept distinct placed
    exact ⟨chosen, same, rules⟩
  · intro db env needs assigns schema placed
    obtain ⟨-, chosen, same, rules, -⟩ := DB.place_kept schema placed
    exact ⟨chosen, same, rules⟩

namespace Sample

def anyLive (i : Nat) : LiveNode := { node := node i, livePlacements := 0 }

/-- Needs of two chunks in turn. -/
def interleaved : List PlaceNeed :=
  [⟨gen 3, gen 1, 1⟩, ⟨gen 4, gen 2, 1⟩, ⟨gen 5, gen 1, 1⟩, ⟨gen 6, gen 2, 1⟩, ⟨gen 7, gen 1, 1⟩]

end Sample

theorem interleaved_keeps_rules :
    ∃ chosen : List Choice,
      [⟨gen 3, Sample.node 0⟩, ⟨gen 4, Sample.node 0⟩,
        ⟨gen 5, Sample.node 1⟩, ⟨gen 6, Sample.node 1⟩] =
        chosen.map Choice.assign ∧
      KeepsRules 0 [] [anyLive 0, anyLive 1] interleaved chosen :=
  place_keeps_rules.1 (Sample.env fun _ => true) [] [anyLive 0, anyLive 1]
    interleaved _ (by decide) (by decide)

/-! ### On a fleet that fits the caps -/

/-- The live nodes that hold nothing of the chunk. -/
def spareNodes (occupants : List Occupant) (live : List LiveNode) (chunkId : Uuid) :
    List LiveNode :=
  live.filter fun m => m.node.id ∉ (occupantSites occupants chunkId).map Site.node

def spareSites (occupants : List Occupant) (live : List LiveNode) (chunkId : Uuid) : List Site :=
  (spareNodes occupants live chunkId).map fun m => m.node.site

/-- The live nodes together with the occupants of the chunk are within the caps. -/
structure FleetFits (occupants : List Occupant) (live : List LiveNode) (chunkId : Uuid) :
    Prop where
  regions : Capped regionCap
    ((occupantSites occupants chunkId ++ spareSites occupants live chunkId).map Site.region)
  asns : Capped asnCap
    ((occupantSites occupants chunkId ++ spareSites occupants live chunkId).map Site.asn)
  owners : Capped ownerCap
    ((occupantSites occupants chunkId ++ spareSites occupants live chunkId).map
      fun site => some site.owner)

theorem mem_nodes_usedInChunk (occupants : List Occupant) (assigned : List (Uuid × Node))
    (chunkId id : Uuid) :
    id ∈ (usedInChunk occupants assigned chunkId).nodes ↔
      id ∈ (occupantSites occupants chunkId).map Site.node ∨
        id ∈ (assignedSites assigned chunkId).map Site.node := by
  rw [usedInChunk, mem_nodes_foldl Prod.snd, seedUse, mem_nodes_foldl Occupant.node]
  simp [ChunkUse.new, occupantSites, assignedSites, Node.site]

section Complete

variable {chunkId : Uuid} (rules : KeepsRules now occupants live done chosen)

theorem spareSites_unique (distinct : UniqueOn (fun m : LiveNode => m.node.id) live) :
    UniqueOn Site.node (spareSites occupants live chunkId) := by
  rw [spareSites, UniqueOn, map_map]
  exact distinct.filter _

include rules

/-- The nodes assigned to a chunk are among its spare nodes. -/
theorem KeepsRules.assigned_spare :
    assignedSites (byChunk chosen) chunkId ⊆ spareSites occupants live chunkId := by
  intro site assigned
  have fresh := (rules.chunks chunkId).free site assigned
  simp only [assignedSites, byChunk, mem_map, mem_filter] at assigned
  obtain ⟨-, ⟨⟨c, isChosen, rfl⟩, -⟩, rfl⟩ := assigned
  obtain ⟨m, inLive, same⟩ := mem_map.mp (rules.room c isChosen).1
  refine mem_map.mpr ⟨m, mem_filter.mpr ⟨inLive, ?_⟩, by rw [same]⟩
  rw [decide_eq_true_eq, same]
  intro occupied
  obtain ⟨o, isOccupant, sameNode⟩ := mem_map.mp occupied
  exact fresh o isOccupant sameNode.symm

theorem KeepsRules.subperm :
    (assignedSites (byChunk chosen) chunkId).Subperm (spareSites occupants live chunkId) :=
  subperm_of_subset (rules.chunks chunkId).distinct.nodup rules.assigned_spare

/-- A spare node that the call has not assigned to the chunk is still eligible: with it
the chunk is a part of the fleet. -/
theorem KeepsRules.eligible_spare (distinct : UniqueOn (fun m : LiveNode => m.node.id) live)
    (fits : FleetFits occupants live chunkId)
    {m : LiveNode} (spare : m ∈ spareNodes occupants live chunkId)
    (unassigned : m.node.site ∉ assignedSites (byChunk chosen) chunkId) (same : n.node = m.node)
    (room : 0 < m.node.freeBytes) (settled : inProbation now m.node = false) :
    eligible now (usedInChunk occupants (byChunk chosen) chunkId) n = true := by
  have isSpare : m.node.site ∈ spareSites occupants live chunkId := mem_map_of_mem spare
  have part : (assignedSites (byChunk chosen) chunkId ++ [m.node.site]).Subperm
      (spareSites occupants live chunkId) := by
    refine subperm_of_subset ?_ ?_
    · exact (rules.chunks chunkId).distinct.nodup.append (nodup_singleton _)
        (disjoint_singleton.mpr unassigned)
    · exact append_subset.mpr ⟨rules.assigned_spare, cons_subset.mpr ⟨isSpare, nil_subset _⟩⟩
  have all : (occupantSites occupants chunkId ++ assignedSites (byChunk chosen) chunkId ++
      [m.node.site]).Subperm
      (occupantSites occupants chunkId ++ spareSites occupants live chunkId) := by
    rw [append_assoc]
    exact (subperm_append_left _).mpr part
  have counts := counts_usedInChunk occupants (byChunk chosen) chunkId
  simp only [eligible, decide_eq_true_eq, same]
  refine ⟨?unused, ?region, ?asn, ?owner, room, by simp [settled]⟩
  case unused =>
    rw [mem_nodes_usedInChunk]
    rintro (occupied | assigned)
    · exact of_decide_eq_true (mem_filter.mp spare).2 occupied
    · obtain ⟨site, isAssigned, sameNode⟩ := mem_map.mp assigned
      have sameSite := (spareSites_unique distinct).eq_of_key (rules.assigned_spare isAssigned)
        isSpare sameNode
      exact unassigned (sameSite ▸ isAssigned)
  case region =>
    refine or_iff_not_imp_left.mpr fun known => ?_
    have few := (fits.regions.subperm (subperm_map all _)).countP_le m.node.region
    rw [map_append, countP_append, counts.regions] at few
    simpa only [Nat.lt_iff_add_one_le, Node.site, Node.knownRegion, known, if_false,
      map_singleton, countP_singleton, decide_true, if_true] using few
  case asn =>
    intro asn known
    have few := (fits.asns.subperm (subperm_map all _)).countP_le asn
    rw [map_append, countP_append, counts.asns] at few
    simpa only [Nat.lt_iff_add_one_le, Node.site, Option.mem_toList.mp known,
      map_singleton, countP_singleton, decide_true, if_true] using few
  case owner =>
    have few := (fits.owners.subperm (subperm_map all _)).countP_le m.node.ownerId
    rw [map_append, countP_append, counts.owners] at few
    simpa only [Nat.lt_iff_add_one_le, Node.site, map_singleton, countP_singleton,
      decide_true, if_true] using few

/-- When none is eligible for the chunk, every spare node has been assigned to it. -/
theorem KeepsRules.spare_assigned (distinct : UniqueOn (fun m : LiveNode => m.node.id) live)
    (fits : FleetFits occupants live chunkId)
    (room : ∀ m ∈ live, 0 < m.node.freeBytes)
    (settled : ∀ m ∈ live, inProbation now m.node = false)
    (none : ∀ n ∈ counting chosen live,
      eligible now (usedInChunk occupants (byChunk chosen) chunkId) n = false) :
    spareSites occupants live chunkId ⊆ assignedSites (byChunk chosen) chunkId := by
  intro site isSpare
  obtain ⟨m, spare, rfl⟩ := mem_map.mp isSpare
  have inLive := (mem_filter.mp spare).1
  by_contra unassigned
  have admitted := rules.eligible_spare distinct fits spare unassigned
    (n := { m with livePlacements := m.livePlacements + timesChosen chosen m.node.id }) rfl
    (room m inLive) (settled m inLive)
  rw [none _ (mem_map_of_mem inLive)] at admitted
  cases admitted

end Complete

theorem pick_eq_none {nodes : List LiveNode} {draw : Option Nat} (drawn : draw.isSome = true)
    (none : pick now nodes u draw = none) : ∀ n ∈ nodes, eligible now u n = false := by
  obtain ⟨i, rfl⟩ := Option.isSome_iff_exists.mp drawn
  simp only [pick, Option.map_eq_map, Option.map_eq_none_iff, getLast?_eq_none_iff,
    filter_eq_nil_iff, Bool.not_eq_true] at none
  exact none

/-- Each chunk that fits gets a node for each of its needs, or all its spare nodes. -/
def FillsChunks (occupants : List Occupant) (live : List LiveNode) (needs : List PlaceNeed)
    (chosen : List Choice) : Prop :=
  ∀ chunkId, FleetFits occupants live chunkId →
    (chosen.countP fun c => c.1.chunkId = chunkId) =
      min (needs.countP fun need => need.chunkId = chunkId)
        (spareNodes occupants live chunkId).length

theorem length_assignedSites (chosen : List Choice) (chunkId : Uuid) :
    (assignedSites (byChunk chosen) chunkId).length =
      chosen.countP fun c => c.1.chunkId = chunkId := by
  rw [assignedSites, length_map, ← countP_eq_length_filter, byChunk, countP_map]
  rfl

section Filling

variable {need : PlaceNeed}

theorem FillsChunks.skip (distinct : UniqueOn (fun m : LiveNode => m.node.id) live)
    (rules : KeepsRules now occupants live done chosen)
    (room : ∀ m ∈ live, 0 < m.node.freeBytes)
    (settled : ∀ m ∈ live, inProbation now m.node = false)
    (fills : FillsChunks occupants live done chosen)
    (none : ∀ n ∈ counting chosen live,
      eligible now (usedInChunk occupants (byChunk chosen) need.chunkId) n = false) :
    FillsChunks occupants live (done ++ [need]) chosen := by
  intro chunkId fits
  have before := fills chunkId fits
  rw [countP_append, countP_singleton]
  by_cases here : need.chunkId = chunkId
  · subst here
    have exhausted := (subperm_of_subset (spareSites_unique distinct).nodup
      (rules.spare_assigned distinct fits room settled none)).length_le
    rw [length_assignedSites, spareSites, length_map] at exhausted
    omega
  · rw [if_neg (by simpa using here), Nat.add_zero]
    exact before

theorem FillsChunks.choose {n : Node} (fills : FillsChunks occupants live done chosen)
    (rules : KeepsRules now occupants live (done ++ [need]) (chosen ++ [(need, n)])) :
    FillsChunks occupants live (done ++ [need]) (chosen ++ [(need, n)]) := by
  intro chunkId fits
  have before := fills chunkId fits
  have within : (assignedSites (byChunk (chosen ++ [(need, n)])) chunkId).length ≤
      (spareSites occupants live chunkId).length := rules.subperm.length_le
  rw [length_assignedSites, spareSites, length_map] at within
  rw [countP_append, countP_singleton] at within ⊢
  rw [countP_append, countP_singleton]
  by_cases here : need.chunkId = chunkId
  · rw [if_pos (decide_eq_true here)] at within ⊢
    omega
  · rw [if_neg (by simpa using here), Nat.add_zero, Nat.add_zero]
    exact before

end Filling

/-- The random source and the reservation writes do not fail. -/
structure PlaceEnv.Undisturbed (env : PlaceEnv) : Prop where
  draws : ∀ k, (env.draw k).isSome = true
  reserves : ∀ k, env.reserve k = true

theorem placeLoop_ok (undisturbed : env.Undisturbed) (occupants : List Occupant)
    (live : List LiveNode) (assigned : List (Uuid × Node)) (k : Nat) (needs : List PlaceNeed) :
    ∃ assigns, placeLoop env occupants live assigned k needs = .ok assigns := by
  induction needs generalizing live assigned k with
  | nil => exact ⟨[], rfl⟩
  | cons need needs ih =>
    simp only [placeLoop, undisturbed.reserves k]
    split
    · exact ih live assigned (k + 1)
    · rename_i chosen picked
      obtain ⟨rest, placed⟩ := ih (bumpLive chosen.node.id live)
        (assigned ++ [(need.chunkId, chosen.node)]) (k + 1)
      rw [placed]
      exact ⟨_, rfl⟩

theorem placeLoop_fills (undisturbed : env.Undisturbed) (occupants : List Occupant)
    (distinct : UniqueOn (fun m : LiveNode => m.node.id) live)
    (room : ∀ m ∈ live, 0 < m.node.freeBytes)
    (settled : ∀ m ∈ live, inProbation env.now m.node = false) (needs : List PlaceNeed) :
    ∃ chosen : List Choice,
      placeLoop env occupants live [] 0 needs = .ok (chosen.map Choice.assign) ∧
      (chosen.map Prod.fst).Sublist needs ∧ FillsChunks occupants live needs chosen := by
  obtain ⟨assigns, placed⟩ := placeLoop_ok undisturbed occupants live (byChunk []) 0 needs
  have kept := @placeLoop_rule live [] [] needs assigns env occupants
    (fun live' chosen done => live' = counting chosen live ∧
      KeepsRules env.now occupants live done chosen ∧ FillsChunks occupants live done chosen)
    (fun live' chosen done need k ⟨counted, rules, fills⟩ none =>
      ⟨counted, rules.skip need, fills.skip distinct rules room settled
        (counted ▸ pick_eq_none (undisturbed.draws k) none)⟩)
    (fun live' chosen done need k n ⟨counted, rules, fills⟩ picked =>
      have extended := rules.choose distinct (counted ▸ (pick_mem picked).1) (pick_mem picked).2
      ⟨by rw [counting_concat, ← counted], extended, fills.choose extended⟩)
    0 ⟨(counting_nil live).symm, .start _ _ _, fun _ _ => by simp⟩ placed
  obtain ⟨live', chosen, same, -, rules, fills⟩ := kept
  rw [byChunk_nil, same] at placed
  exact ⟨chosen, placed, rules.needed, fills⟩

theorem DB.place_answered (answers : ∀ n ∈ db.listOnlineNodes env.now, env.alive n.id ≠ none)
    (reads : env.readsOk = true) :
    db.place env needs = if db.liveNodes env = [] then .error .unavailable
      else placeLoop env (db.listOccupants (needs.map PlaceNeed.chunkId)) (db.liveNodes env) [] 0
        needs := by
  have answered : ((db.listOnlineNodes env.now).any fun n => env.alive n.id = none) = false := by
    simpa [any_eq_false] using answers
  rw [place, answered, reads]
  rfl

/-- Without nodes in probation, and unless Redis or the random source fails, every chunk that
fits the caps gets `min k s` nodes for its `k` needs, where `s` live nodes hold nothing of it:
for the loop of `Place` on every list of nodes with free space and every list of occupants, and
for `Place` on every database.  Without a live node `Place` fails and assigns nothing. -/
theorem place_complete :
    (∀ (env : PlaceEnv) (occupants : List Occupant) (live : List LiveNode)
      (needs : List PlaceNeed), env.Undisturbed →
      UniqueOn (fun m : LiveNode => m.node.id) live →
      (∀ m ∈ live, 0 < m.node.freeBytes) →
      (∀ m ∈ live, inProbation env.now m.node = false) →
      ∃ chosen : List Choice,
        placeLoop env occupants live [] 0 needs = .ok (chosen.map Choice.assign) ∧
        (chosen.map Prod.fst).Sublist needs ∧ FillsChunks occupants live needs chosen) ∧
    ∀ (db : DB) (env : PlaceEnv) (needs : List PlaceNeed), db.Schema → env.Undisturbed →
      (∀ n ∈ db.listOnlineNodes env.now, env.alive n.id ≠ none) → env.readsOk = true →
      (∀ m ∈ db.liveNodes env, inProbation env.now m.node = false) →
      if db.liveNodes env = [] then db.place env needs = .error .unavailable
      else ∃ chosen : List Choice,
        db.place env needs = .ok (chosen.map Choice.assign) ∧
        (chosen.map Prod.fst).Sublist needs ∧
        FillsChunks (db.listOccupants (needs.map PlaceNeed.chunkId)) (db.liveNodes env) needs
          chosen := by
  constructor
  · intro env occupants live needs undisturbed distinct room settled
    exact placeLoop_fills undisturbed occupants distinct room settled needs
  intro db env needs schema undisturbed answers reads settled
  have room : ∀ m ∈ db.liveNodes env, 0 < m.node.freeBytes := by
    intro m member
    obtain ⟨n, kept, rfl⟩ := mem_map.mp member
    exact (of_decide_eq_true (mem_filter.mp kept).2).2
  rw [DB.place_answered answers reads]
  split
  · rfl
  · exact placeLoop_fills undisturbed _ (DB.liveNodes_unique schema env) room settled needs

theorem interleaved_complete :
    FleetFits [] [anyLive 0, anyLive 1] (gen 1) ∧
    ∃ chosen : List Choice,
      placeLoop (Sample.env fun _ => true) [] [anyLive 0, anyLive 1] [] 0
        interleaved = .ok (chosen.map Choice.assign) ∧
      (chosen.map Prod.fst).Sublist interleaved ∧
      FillsChunks [] [anyLive 0, anyLive 1] interleaved chosen :=
  ⟨⟨by decide, by decide, by decide⟩,
    place_complete.1 (Sample.env fun _ => true) [] [anyLive 0, anyLive 1]
      interleaved ⟨fun _ => rfl, fun _ => rfl⟩ (by decide) (by decide) (by decide)⟩

end StoragePlatform
