/-
Module: StoragePlatform.Proofs.Caps
Purpose: The placement caps over whole runs: what one `Place` call keeps, and
  which steps the caps of a chunk depend on.
Trusted boundary: none
Main exports: Caps, DB.holders, System.copies, FitsCaps, flap_breaks_caps
-/
import StoragePlatform.Proofs.Health

namespace StoragePlatform

open Lib List Sample

variable {sites' : List Site} {sel : Placement → Bool} {db db' : DB} {call : Call}
variable {m : Move} {s : System} {chunkId : Uuid}

/-! ### Caps on a list of holders -/

def Node.SameSite (n n' : Node) : Prop := n'.site = n.site

/-- At most one copy per node, three per region, three per ASN, two per owner. -/
structure Caps (sites : List Site) : Prop where
  node : Capped 1 (sites.map fun site => some site.node)
  region : Capped 3 (sites.map Site.region)
  asn : Capped 3 (sites.map Site.asn)
  owner : Capped 2 (sites.map fun site => some site.owner)

instance (sites : List Site) : Decidable (Caps sites) :=
  decidable_of_iff
    (Capped 1 (sites.map fun site => some site.node) ∧ Capped 3 (sites.map Site.region) ∧
      Capped 3 (sites.map Site.asn) ∧ Capped 2 (sites.map fun site => some site.owner))
    ⟨fun ⟨node, region, asn, owner⟩ => ⟨node, region, asn, owner⟩,
      fun caps => ⟨caps.node, caps.region, caps.asn, caps.owner⟩⟩

namespace Caps

theorem nil : Caps [] := by
  constructor <;> exact fun _ member => nomatch member

theorem subperm {sites : List Site} (caps : Caps sites) (fewer : sites'.Subperm sites) :
    Caps sites' where
  node := caps.node.subperm (subperm_map fewer _)
  region := caps.region.subperm (subperm_map fewer _)
  asn := caps.asn.subperm (subperm_map fewer _)
  owner := caps.owner.subperm (subperm_map fewer _)

theorem perm {sites : List Site} (caps : Caps sites) (order : sites'.Perm sites) : Caps sites' :=
  caps.subperm order.subperm

theorem node_iff {sites : List Site} :
    Capped 1 (sites.map fun site => some site.node) ↔ UniqueOn Site.node sites := by
  have count : ∀ id, ((sites.map fun site => some site.node).countP fun v => v = some id) =
      (sites.map Site.node).count id := by
    intro id
    rw [countP_map, List.count, countP_map]
    exact countP_congr fun site _ => by simp
  rw [UniqueOn, nodup_iff_count_le_one]
  exact ⟨fun capped id => count id ▸ capped.countP_le id,
    fun once => .of_countP_le fun id => count id ▸ once id⟩

/-- No two copies on one node. -/
theorem nodup {sites : List Site} (caps : Caps sites) : sites.Nodup :=
  (node_iff.mp caps.node).nodup

end Caps

/-! ### What `Place` keeps -/

/-- A call that keeps the hard rules keeps the caps of a chunk that is within them. -/
theorem ChunkRules.caps {occupants assigned : List Site} (rules : ChunkRules occupants assigned)
    (caps : Caps occupants) : Caps (occupants ++ assigned) where
  node := by
    rw [Caps.node_iff, UniqueOn, map_append]
    refine (Caps.node_iff.mp caps.node).append rules.distinct fun id occupied chosen => ?_
    obtain ⟨o, isOccupant, rfl⟩ := mem_map.mp occupied
    obtain ⟨a, isAssigned, same⟩ := mem_map.mp chosen
    exact rules.free a isAssigned o isOccupant same
  region := rules.regions.capped caps.region
  asn := rules.asns.capped caps.asn
  owner := rules.owners.capped caps.owner

/-! ### Who holds a chunk -/

/-- Fragment and node of a copy, placed or planned. -/
abbrev Copy := Uuid × Uuid

def Placement.copy (p : Placement) : Copy := (p.fragmentId, p.nodeId)

@[simp] theorem Placement.copy_setStatus (status : PlacementStatus) (p : Placement) :
    (p.setStatus status).copy = p.copy := rfl

/-- The fragment belongs to the chunk. -/
def DB.OfChunk (db : DB) (chunkId fragmentId : Uuid) : Prop :=
  ∃ fr ∈ db.fragments, fr.id = fragmentId ∧ fr.chunkId = chunkId
deriving Decidable

/-- The site of a copy, if it is one of the chunk. -/
def DB.holder (db : DB) (chunkId : Uuid) (copy : Copy) : Option Site :=
  if db.OfChunk chunkId copy.1 then (db.nodes.find? fun n => n.id = copy.2).map Node.site else none

def DB.holders (db : DB) (chunkId : Uuid) (copies : List Copy) : List Site :=
  copies.filterMap (db.holder chunkId)

theorem DB.holders_append (db : DB) (chunkId : Uuid) (copies copies' : List Copy) :
    db.holders chunkId (copies ++ copies') =
      db.holders chunkId copies ++ db.holders chunkId copies' :=
  filterMap_append

/-- Fragment and node of the copy are in the tables. -/
def DB.Known (db : DB) (copy : Copy) : Prop :=
  (∃ fr ∈ db.fragments, fr.id = copy.1) ∧ ∃ n ∈ db.nodes, n.id = copy.2

section Holders

variable {copy : Copy}

theorem DB.Known.grow (known : db.Known copy) (fragments : db.fragments ⊆ db'.fragments)
    (sites : Carried Node.SameSite db.nodes db'.nodes) : db'.Known copy := by
  obtain ⟨⟨fr, inFragments, ofFragment⟩, n, inNodes, onNode⟩ := known
  obtain ⟨n', inNodes', sameSite⟩ := sites n inNodes
  exact ⟨⟨fr, fragments inFragments, ofFragment⟩, n', inNodes',
    (congrArg Site.node (show n'.site = n.site from sameSite)).trans onNode⟩

variable (schema : db.Schema)

include schema

/-- The holder of a copy, by its rows. -/
theorem DB.holder_eq {fr : Fragment} {n : Node} (inFragments : fr ∈ db.fragments)
    (ofFragment : fr.id = copy.1) (inNodes : n ∈ db.nodes) (onNode : n.id = copy.2) :
    db.holder chunkId copy = if fr.chunkId = chunkId then some n.site else none := by
  have chunk_iff : db.OfChunk chunkId copy.1 ↔ fr.chunkId = chunkId := by
    constructor
    · rintro ⟨fr', inFragments', ofFragment', inChunk⟩
      rwa [schema.fragment_pk.eq_of_key inFragments inFragments'
        (ofFragment.trans ofFragment'.symm)]
    · exact fun inChunk => ⟨fr, inFragments, ofFragment, inChunk⟩
  rw [holder, schema.node_pk.find_key inNodes onNode]
  simp only [chunk_iff, Option.map_some]

theorem DB.holder_eq_some {site : Site} :
    db.holder chunkId copy = some site ↔
      db.OfChunk chunkId copy.1 ∧ ∃ n ∈ db.nodes, n.id = copy.2 ∧ n.site = site := by
  rw [holder, Option.ite_none_right_eq_some]
  refine and_congr_right fun _ => ?_
  rw [Option.map_eq_some_iff]
  constructor
  · rintro ⟨n, found, rfl⟩
    have same := find?_some found
    exact ⟨n, mem_of_find?_eq_some found, of_decide_eq_true same, rfl⟩
  · rintro ⟨n, member, same, rfl⟩
    exact ⟨n, schema.node_pk.find_key member same, rfl⟩

/-- A known copy keeps its chunk and its site while rows are only added and node
rows keep their site. -/
theorem DB.holder_grows (schema' : db'.Schema) (fragments : db.fragments ⊆ db'.fragments)
    (sites : Carried Node.SameSite db.nodes db'.nodes) (known : db.Known copy) :
    db'.holder chunkId copy = db.holder chunkId copy := by
  obtain ⟨⟨fr, inFragments, ofFragment⟩, n, inNodes, onNode⟩ := known
  obtain ⟨n', inNodes', sameSite⟩ := sites n inNodes
  have site : n'.site = n.site := sameSite
  have sameId : n'.id = n.id := congrArg Site.node site
  rw [holder_eq schema inFragments ofFragment inNodes onNode,
    holder_eq schema' (fragments inFragments) ofFragment inNodes' (sameId.trans onNode), site]

theorem DB.holders_grows (schema' : db'.Schema) (fragments : db.fragments ⊆ db'.fragments)
    (sites : Carried Node.SameSite db.nodes db'.nodes) {copies : List Copy}
    (known : ∀ copy ∈ copies, db.Known copy) :
    db'.holders chunkId copies = db.holders chunkId copies :=
  filterMap_congr fun copy member =>
    holder_grows schema schema' fragments sites (known copy member)

/-- A chunk without a row has no fragment, and so no holder. -/
theorem DB.holders_absent (absent : ∀ c ∈ db.chunks, c.id ≠ chunkId) (copies : List Copy) :
    db.holders chunkId copies = [] := by
  rw [holders, filterMap_eq_nil_iff]
  intro copy _
  rw [holder, if_neg]
  rintro ⟨fr, inFragments, -, rfl⟩
  obtain ⟨c, inChunks, same⟩ := schema.fragment_chunk fr inFragments
  exact absent c inChunks same

/-- The copies of live placement rows. -/
def liveCopies (rows : List Placement) : List Copy :=
  (rows.filter Placement.live).map Placement.copy

theorem DB.known_of_row
    (member : copy ∈ (db.placements.filter sel).map Placement.copy) : db.Known copy := by
  obtain ⟨p, inRows, rfl⟩ := mem_map.mp member
  have inTable := (mem_filter.mp inRows).1
  exact ⟨schema.placement_fragment p inTable, schema.placement_node p inTable⟩

/-- The occupants the scheduler reads for a chunk within the caps are its live
holders. -/
theorem DB.occupantSites_perm {chunkIds : List Uuid} (asked : chunkId ∈ chunkIds)
    (caps : Caps (db.holders chunkId (liveCopies db.placements))) :
    (occupantSites (db.listOccupants chunkIds) chunkId).Perm
      (db.holders chunkId (liveCopies db.placements)) := by
  have members : ∀ site, site ∈ occupantSites (db.listOccupants chunkIds) chunkId ↔
      site ∈ db.holders chunkId (liveCopies db.placements) := by
    intro site
    simp only [occupantSites, listOccupants, mem_map, mem_filter, mem_dedup,
      holders, mem_filterMap, holder_eq_some schema, liveCopies, decide_eq_true_eq]
    constructor
    · rintro ⟨o, ⟨⟨t, ⟨inTargets, -, live⟩, rfl⟩, rfl⟩, rfl⟩
      obtain ⟨inPlacements, inFragments, inNodes, joined, onNode⟩ :=
        mem_placementTargets.mp inTargets
      exact ⟨t.placement.copy, ⟨t.placement, ⟨inPlacements, live⟩, rfl⟩,
        ⟨t.fragment, inFragments, joined, rfl⟩, t.node, inNodes, onNode, rfl⟩
    · rintro ⟨copy, ⟨p, ⟨inPlacements, live⟩, rfl⟩, ⟨fr, inFragments, joined, rfl⟩, n, inNodes,
        onNode, rfl⟩
      refine ⟨{ chunkId := fr.chunkId, node := n }, ⟨⟨{ placement := p, fragment := fr, node := n },
        ⟨mem_placementTargets.mpr ⟨inPlacements, inFragments, inNodes, joined, onNode⟩, asked,
          live⟩, rfl⟩, rfl⟩, rfl⟩
  refine (perm_ext_iff_of_nodup ?_ caps.nodup).mpr members
  -- one row per chunk and node, and a node has one site
  refine List.Nodup.map_on ?_ ((nodup_dedup _).filter _)
  intro o member o' member' same
  simp only [mem_filter, listOccupants, mem_dedup, mem_map, decide_eq_true_eq] at member member'
  obtain ⟨⟨t, ⟨inTargets, -⟩, rfl⟩, rfl⟩ := member
  obtain ⟨⟨t', ⟨inTargets', -⟩, rfl⟩, sameChunk⟩ := member'
  have sameNode : t.node = t'.node := schema.node_pk.eq_of_key
    (mem_placementTargets.mp inTargets).2.2.1 (mem_placementTargets.mp inTargets').2.2.1
    (congrArg Site.node same)
  rw [Occupant.mk.injEq]
  exact ⟨sameChunk.symm, sameNode⟩

end Holders

/-! ### Copies along a run -/

/-- The rows a call is still going to insert. -/
def Call.todo : Call → List Copy
  | .inserting _ _ todo => todo
  | _ => []

/-- The copies planned and not yet inserted. -/
def System.planned (s : System) : List Copy :=
  s.calls.flatMap Call.todo

/-- The live copies, and the planned ones. -/
def System.copies (s : System) : List Copy :=
  liveCopies s.db.placements ++ s.planned

/-- The copies a restore brings back. -/
def DB.restored (db : DB) (ids : List Nat) : List Copy :=
  (db.placements.filter fun p => p.status = .lost ∧ p.id ∈ ids).map Placement.copy

theorem liveCopies_insert (next : Nat) (f n : Uuid) (rows : List Placement) :
    liveCopies ((RowOp.insert f n).apply next rows) = liveCopies rows ++ [(f, n)] := by
  simp [liveCopies, Placement.live, Placement.copy]

theorem liveCopies_revive (dead : ∀ p, sel p = true → p.live = false) (rows : List Placement) :
    (liveCopies (updateWhere sel (Placement.setStatus .stored) rows)).Perm
      (liveCopies rows ++ (rows.filter sel).map Placement.copy) := by
  induction rows with
  | nil => exact List.Perm.refl _
  | cons p rows ih =>
    rw [updateWhere_cons]
    cases chosen : sel p with
    | true =>
      have added := List.Perm.trans (ih.cons p.copy) perm_middle.symm
      have alive : (p.setStatus .stored).live = true := by simp [Placement.live]
      simpa [liveCopies, chosen, dead p chosen, alive] using added
    | false =>
      cases live : p.live with
      | true => simpa [liveCopies, chosen, live] using ih.cons p.copy
      | false => simpa [liveCopies, chosen, live] using ih

theorem liveCopies_restore (next : Nat) (ids : List Nat) (rows : List Placement) :
    (liveCopies ((RowOp.restore ids).apply next rows)).Perm
      (liveCopies rows ++
        (rows.filter fun p => p.status = .lost ∧ p.id ∈ ids).map Placement.copy) := by
  have asUpdate : (RowOp.restore ids).apply next rows =
      updateWhere (fun p => p.status = .lost ∧ p.id ∈ ids) (Placement.setStatus .stored) rows :=
    RowOp.apply_eq_updateWhere (fun p => by simp [RowOp.after]) next rfl rows
  rw [asUpdate]
  refine liveCopies_revive (fun p chosen => ?_) rows
  have lost := (of_decide_eq_true chosen).1
  simp [Placement.live, lost]

/-- No other operation brings a copy to life. -/
theorem liveCopies_sublist {op : RowOp} (notInsert : ∀ f n, op ≠ .insert f n)
    (notRestore : ∀ ids, op ≠ .restore ids) (next : Nat) (rows : List Placement) :
    (liveCopies (op.apply next rows)).Sublist (liveCopies rows) := by
  have added : op.added next = [] := by
    cases op with
    | insert f n => exact absurd rfl (notInsert f n)
    | _ => rfl
  have before : ∀ p status, op.after p = some status →
      (p.setStatus status).live = true → p.live = true := by
    intro p status becomes live
    simp only [Placement.live, Placement.setStatus_status, decide_eq_true_eq] at live ⊢
    cases op with
    | insert f n => exact absurd rfl (notInsert f n)
    | restore ids => exact absurd rfl (notRestore ids)
    | _ =>
      simp only [RowOp.after] at becomes
      grind
  rw [RowOp.apply, added, append_nil]
  simp only [liveCopies]
  induction rows with
  | nil => exact List.Sublist.refl _
  | cons p rows ih =>
    have longer : ((rows.filter Placement.live).map Placement.copy).Sublist
        (((p :: rows).filter Placement.live).map Placement.copy) :=
      ((sublist_cons_self p rows).filter _).map _
    cases becomes : op.after p with
    | none =>
      rw [filterMap_cons_none (by rw [becomes]; rfl)]
      exact ih.trans longer
    | some status =>
      rw [filterMap_cons_some (by rw [becomes]; rfl)]
      cases live : (p.setStatus status).live with
      | true =>
        rw [filter_cons_of_pos live, filter_cons_of_pos (before p status becomes live)]
        exact ih.cons_cons _
      | false =>
        rw [filter_cons_of_neg (by simp [live])]
        exact ih.trans longer

/-! ### One step -/

/-- A move leaves a call with part of what it had to insert, except for the place
step, which plans anew. -/
theorem Advanced.todo {call' : Call} (advanced : Advanced db call m call' db') :
    (∃ plan env assigns, call = .placing plan ∧ m = .place env ∧
      db.place env plan.needs = .ok assigns ∧ call'.todo = placementRows assigns) ∨
    (call'.todo.Sublist call.todo ∧
      ∀ f n, moveOp db call m = .insert f n → call.todo = (f, n) :: call'.todo) := by
  have failed : ∀ plan : Planner, plan.failed.todo = [] := fun plan => by cases plan <;> rfl
  cases advanced with
  | placed ok => exact .inl ⟨_, _, _, rfl, rfl, ok, rfl⟩
  | crashed => exact .inr ⟨nil_sublist _, fun f n op => by simp [moveOp_crash] at op⟩
  | placingFailed | insertingFailed =>
    exact .inr ⟨failed _ ▸ nil_sublist _, fun f n op => by simp [moveOp_fail] at op⟩
  | failed => exact .inr ⟨nil_sublist _, fun f n op => by simp [moveOp_fail] at op⟩
  | placeRefused => exact .inr ⟨failed _ ▸ nil_sublist _, fun f n op => by cases op⟩
  | insertRefused refused =>
    refine .inr ⟨failed _ ▸ nil_sublist _, fun f n op => ?_⟩
    simp [moveOp, DB.insertPlacement_error refused] at op
  | inserted ok =>
    refine .inr ⟨sublist_cons_self _ _, fun f n op => ?_⟩
    simp only [moveOp] at op
    split at op <;> cases op
    rfl
  | resumedLeft resumed =>
    exact .inr ⟨List.Sublist.refl _, fun f n op => by simp [moveOp, resumed] at op⟩
  | aborted fresh =>
    exact .inr ⟨List.Sublist.refl _, fun f n op => by simp [moveOp, fresh] at op⟩
  | uploadRefused refused =>
    refine .inr ⟨List.Sublist.refl _, fun f n op => ?_⟩
    simp [moveOp, DB.commitUpload_error refused] at op
  | uploaded ok =>
    refine .inr ⟨List.Sublist.refl _, fun f n op => ?_⟩
    simp only [moveOp] at op
    split at op <;> cases op
  | loaded | nothingToPlace | planRefused | planReturned | repairReturned | repaired
  | revalidated | restored | expired | deleted =>
    exact .inr ⟨List.Sublist.refl _, fun f n op => by cases op⟩

theorem CallBegun.todo {sigOk : SigCheck} {r : Request} (begun : CallBegun sigOk db r call db') :
    call.todo = [] := by
  cases begun <;> rfl

/-- The plan's needs are fragments of the tables, under their chunk. -/
def Planner.Known (db : DB) (plan : Planner) : Prop :=
  ∀ need ∈ plan.needs, db.OfChunk need.chunkId need.fragmentId

theorem DB.loadPlanned_known (db : DB) (file : File) (version : FileVersion) (resume : Bool) :
    Planner.Known db (.upload (db.loadPlanned file version resume)) := by
  intro need needed
  simp only [Planner.needs, PlannedUpload.needs, loadPlanned, mem_map, mem_filter] at needed
  obtain ⟨pf, ⟨⟨listed, -⟩, -⟩, rfl⟩ := needed
  obtain ⟨-, -, inFragments, inChunk⟩ := mem_plannedFragments listed
  exact ⟨pf.fragment, inFragments, rfl, inChunk⟩

theorem DB.beginUpload_planned {ownerId : Uuid} {m : UploadManifest} {gen : Nat → Uuid}
    {planned : PlannedUpload} (ok : db.beginUpload ownerId m gen = .ok (planned, db')) :
    ∃ file version resume, planned = db'.loadPlanned file version resume := by
  cases (DB.beginUpload_inv ok).1 with
  | newFile clean owned free fresh inserted => exact ⟨_, _, _, (DB.insertUpload_inv inserted).2.2⟩
  | newVersion clean owned found inactive plain none_pending inserted =>
    exact ⟨_, _, _, (DB.insertUpload_inv inserted).2.2⟩
  | resumed clean owned found uploading pending same => exact ⟨_, _, _, rfl⟩

theorem repairFragments_known (db : DB) (ch : Chunk) :
    Planner.Known db (.repair ch (db.repairFragments ch.id)) := by
  intro need needed
  simp only [Planner.needs, repairNeeds, mem_map, mem_repairMissing] at needed
  obtain ⟨fr, ⟨rf, inFrags, rfl, -⟩, rfl⟩ := needed
  obtain ⟨fr, inChunk, rfl⟩ := DB.mem_repairFragments.mp inFrags
  obtain ⟨inFragments, ofChunk⟩ := mem_filter.mp inChunk
  exact ⟨fr, inFragments, rfl, of_decide_eq_true ofChunk⟩

/-! ### The place step -/

section Place

variable {env : PlaceEnv} {needs : List PlaceNeed} {assigns : List PlaceAssign}

/-- Every assigned copy is known, and its fragment is one of a need's chunk. -/
theorem DB.place_known (schema : db.Schema)
    (known : ∀ need ∈ needs, db.OfChunk need.chunkId need.fragmentId)
    (placed : db.place env needs = .ok assigns) {a : PlaceAssign} (member : a ∈ assigns) :
    a.node ∈ db.nodes ∧ ∃ need ∈ needs, db.OfChunk need.chunkId a.fragmentId := by
  obtain ⟨needed, inNodes⟩ := place_mem schema placed a member
  obtain ⟨need, inNeeds, same⟩ := mem_map.mp needed
  exact ⟨inNodes, need, inNeeds, same ▸ known need inNeeds⟩

theorem DB.holders_assigned (schema : db.Schema)
    (known : ∀ need ∈ needs, db.OfChunk need.chunkId need.fragmentId) {now : Time}
    {occupants : List Occupant} {chosen : List Choice}
    (rules : KeepsRules now occupants (db.liveNodes env) needs chosen) (chunkId : Uuid) :
    db.holders chunkId (placementRows (chosen.map Choice.assign)) =
      assignedSites (byChunk chosen) chunkId := by
  rw [holders, placementRows, filterMap_map, filterMap_map, assignedSites, byChunk,
    ← filterMap_eq_map, filterMap_filter, filterMap_map]
  refine filterMap_congr fun c member => ?_
  obtain ⟨fr, inFragments, same, ofChunk⟩ := known _ (rules.needed.subset (mem_map_of_mem member))
  have held : db.holder chunkId (c.1.fragmentId, c.2.id) = _ :=
    holder_eq schema inFragments same (mem_liveNodes (rules.room c member).1) rfl
  simp only [Function.comp_apply, Choice.assign, held, ofChunk, decide_eq_true_eq]

/-- A call that places for chunks no other call is inserting for keeps the caps. -/
theorem DB.place_caps (schema : db.Schema)
    (known : ∀ need ∈ needs, db.OfChunk need.chunkId need.fragmentId)
    (placed : db.place env needs = .ok assigns) {planned : List Copy}
    (alone : ∀ need ∈ needs, ∀ copy ∈ planned, ¬ db.OfChunk need.chunkId copy.1)
    (caps : Caps (db.holders chunkId (liveCopies db.placements ++ planned))) :
    Caps (db.holders chunkId (liveCopies db.placements ++ planned ++ placementRows assigns)) := by
  obtain ⟨-, chosen, rfl, rules, -⟩ := place_kept schema placed
  have assigned := holders_assigned schema known rules chunkId
  rw [holders_append] at caps ⊢
  rw [holders_append, assigned]
  by_cases needed : ∃ need ∈ needs, need.chunkId = chunkId
  · obtain ⟨need, inNeeds, rfl⟩ := needed
    have nonePlanned : db.holders need.chunkId planned = [] := by
      rw [holders, filterMap_eq_nil_iff]
      intro copy member
      rw [holder, if_neg (alone need inNeeds copy member)]
    rw [nonePlanned, append_nil] at caps ⊢
    have occupied := occupantSites_perm schema
      (mem_map_of_mem (f := PlaceNeed.chunkId) inNeeds) caps
    exact ((rules.chunks _).caps (caps.perm occupied)).perm (occupied.symm.append_right _)
  · have nothing : assignedSites (byChunk chosen) chunkId = [] := by
      rw [assignedSites, byChunk, map_eq_nil_iff, filter_eq_nil_iff]
      intro _ member inChunk
      obtain ⟨c, isChosen, rfl⟩ := mem_map.mp member
      exact needed ⟨c.1, rules.needed.subset (mem_map_of_mem isChosen), of_decide_eq_true inChunk⟩
    rwa [nothing, append_nil]

end Place

/-! ### Runs -/

/-- The needs a place step hands to the scheduler. -/
def placedNeeds (s : System) : Event → List PlaceNeed
  | .move i (.place _) =>
    match s.calls[i]? with
    | some (.placing plan) => plan.needs
    | _ => []
  | _ => []

/-- The rows a restore step names. -/
def restoredIds (s : System) : Event → Option (List Nat)
  | .move i .restore =>
    match s.calls[i]? with
    | some (.flapRestoring restore _) => some restore
    | _ => none
  | _ => none

/-- What a run has to respect.  A plan asks the scheduler only when no other call
is still inserting rows for a chunk it places, and a restore brings back rows only
where the caps still have room, next to the live and the planned copies. -/
def FitsCaps (s : System) (e : Event) (_ : System) : Prop :=
  (∀ need ∈ placedNeeds s e, ∀ copy ∈ s.planned, ¬ s.db.OfChunk need.chunkId copy.1) ∧
    ∀ ids ∈ (restoredIds s e).toList, ∀ c ∈ s.db.chunks,
      Caps (s.db.holders c.id (s.copies ++ s.db.restored ids))
deriving Decidable

structure CapsKept (s : System) : Prop where
  schema : s.db.Schema
  planned : ∀ copy ∈ s.planned, s.db.Known copy
  placing : ∀ plan, .placing plan ∈ s.calls → Planner.Known s.db plan
  caps : ∀ chunkId, Caps (s.db.holders chunkId s.copies)

section Run

variable {sigOk : SigCheck} {t : System} {e : Event}

theorem CapsKept.known (kept : CapsKept s) : ∀ copy ∈ s.copies, s.db.Known copy := by
  intro copy member
  rcases mem_append.mp member with live | planned
  · exact DB.known_of_row kept.schema live
  · exact kept.planned copy planned

/-- What the planned copies are before and after a call moves. -/
theorem planned_set {i : Nat} (current : s.calls[i]? = some call) (call' : Call) (db' : DB) :
    ∃ before after, s.planned = before ++ (call.todo ++ after) ∧
      System.planned { db := db', calls := s.calls.set i call' } =
        before ++ (call'.todo ++ after) := by
  obtain ⟨inRange, isCall⟩ := List.getElem?_eq_some_iff.mp current
  obtain ⟨before, after, split, -, replaced⟩ := @exists_of_set _ i call' _ inRange
  rw [isCall] at split
  exact ⟨before.flatMap Call.todo, after.flatMap Call.todo, by simp [System.planned, split],
    by simp [System.planned, replaced]⟩

theorem moveOp_restore {ids : List Nat} (op : moveOp db call m = .restore ids) :
    ∃ expire, call = .flapRestoring ids expire ∧ m = .restore := by
  unfold moveOp at op
  split at op
  case h_5 =>
    cases op
    exact ⟨_, rfl, rfl⟩
  all_goals first | cases op | (split at op <;> cases op)

/-- Node rows keep their site. -/
theorem step_sites (moved : step sigOk s e = some t) :
    Carried Node.SameSite s.db.nodes t.db.nodes := by
  intro n member
  obtain ⟨n', member', sameId, -, sameOwner, sameRegion, sameAsn⟩ :=
    (step_grows moved).nodes n member
  refine ⟨n', member', ?_⟩
  rw [Node.SameSite, Node.site, Node.site, Node.knownRegion, Node.knownRegion, sameId, sameOwner,
    sameRegion, sameAsn]

/-- The copies a step may leave: those before it, the ones a place step plans and
the ones a restore brings back. -/
theorem step_copies (kept : CapsKept s) (moved : step sigOk s e = some t)
    (fits : FitsCaps s e t) :
    ∃ copies, t.copies.Subperm copies ∧ (∀ copy ∈ copies, s.db.Known copy) ∧
      ∀ chunkId, Caps (s.db.holders chunkId copies) := by
  have rows := step_placements moved
  cases step_inv moved with
  | @request r call db' begun =>
    have same : db'.placements = s.db.placements := by simpa [rowOp] using rows
    refine ⟨s.copies, List.Perm.subperm ?_, kept.known, kept.caps⟩
    simp only [System.copies, System.planned, same, flatMap_append, flatMap_singleton,
      (begin_inv begun).todo, append_nil]
    exact List.Perm.refl _
  | @act a db' acted =>
    change db'.placements = _ at rows
    refine ⟨s.copies, List.Sublist.subperm ?_, kept.known, kept.caps⟩
    simp only [System.copies, System.planned, rows]
    refine List.Sublist.append_right (liveCopies_sublist ?_ ?_ _ _) _ <;>
    · intros
      cases a <;> simp [rowOp, actOp]
  | @move i m call call' db' current advanced =>
    change db'.placements = _ at rows
    have op : rowOp s (.move i m) = moveOp s.db call m := by simp only [rowOp, current]
    obtain ⟨before, after, plannedBefore, plannedAfter⟩ := planned_set current call' db'
    rw [op] at rows
    rcases advanced.todo with ⟨plan, env, assigns, rfl, rfl, placed, todo⟩ | ⟨fewer, inserts⟩
    · -- a place step plans copies next to the ones that are there
      have keep : moveOp s.db (.placing plan) (.place env) = .keep := rfl
      have planKnown := kept.placing plan (mem_of_getElem? current)
      have alone : ∀ need ∈ plan.needs, ∀ copy ∈ s.planned, ¬ s.db.OfChunk need.chunkId copy.1 := by
        simpa [placedNeeds, current] using fits.1
      refine ⟨s.copies ++ placementRows assigns, List.Perm.subperm ?_, ?_, fun chunkId =>
        DB.place_caps kept.schema planKnown placed alone (kept.caps chunkId)⟩
      · rw [System.copies, System.copies, plannedBefore, plannedAfter, rows, keep,
          RowOp.apply_keep, todo, append_assoc]
        refine List.Perm.append_left _ ?_
        rw [append_assoc]
        exact List.Perm.append_left _ perm_append_comm
      · intro copy member
        rcases mem_append.mp member with old | new
        · exact kept.known copy old
        · obtain ⟨a, inAssigns, rfl⟩ := mem_map.mp new
          obtain ⟨inNodes, need, -, fr, inFragments, ofFragment, -⟩ :=
            DB.place_known kept.schema planKnown placed inAssigns
          exact ⟨⟨fr, inFragments, ofFragment⟩, a.node, inNodes, rfl⟩
    have plannedFewer : (System.planned { db := db', calls := s.calls.set i call' }).Sublist
        s.planned := by
      rw [plannedBefore, plannedAfter]
      exact (fewer.append_right _).append_left _
    by_cases insert : ∃ f n, moveOp s.db call m = .insert f n
    · -- an insert turns a planned copy into a live one
      obtain ⟨f, n, isInsert⟩ := insert
      refine ⟨s.copies, List.Perm.subperm ?_, kept.known, kept.caps⟩
      rw [System.copies, System.copies, plannedBefore, plannedAfter, rows, isInsert,
        liveCopies_insert, inserts f n isInsert, append_assoc]
      refine List.Perm.append_left _ ?_
      simp only [cons_append, nil_append]
      exact perm_middle.symm
    by_cases restore : ∃ ids, moveOp s.db call m = .restore ids
    · obtain ⟨ids, isRestore⟩ := restore
      obtain ⟨expire, rfl, rfl⟩ := moveOp_restore isRestore
      have room : ∀ c ∈ s.db.chunks, Caps (s.db.holders c.id (s.copies ++ s.db.restored ids)) :=
        fits.2 ids (by simp [restoredIds, current])
      refine ⟨s.copies ++ s.db.restored ids, ?_, ?_, ?_⟩
      · have revived := (liveCopies_restore s.db.nextPlacementId ids s.db.placements).append_right
          (System.planned { db := db', calls := s.calls.set i call' })
        have order : (liveCopies s.db.placements ++ s.db.restored ids ++ s.planned).Perm
            (s.copies ++ s.db.restored ids) := by
          rw [System.copies, append_assoc, append_assoc]
          exact List.Perm.append_left _ perm_append_comm
        rw [System.copies, rows, isRestore]
        exact (revived.subperm.trans (plannedFewer.append_left _).subperm).trans order.subperm
      · intro copy member
        rcases mem_append.mp member with old | back
        · exact kept.known copy old
        · exact DB.known_of_row kept.schema back
      · intro chunkId
        by_cases present : ∃ c ∈ s.db.chunks, c.id = chunkId
        · obtain ⟨c, inChunks, rfl⟩ := present
          exact room c inChunks
        · have absent : ∀ c ∈ s.db.chunks, c.id ≠ chunkId :=
            fun c inChunks same => present ⟨c, inChunks, same⟩
          rw [DB.holders_absent kept.schema absent]
          exact Caps.nil
    · refine ⟨s.copies, List.Sublist.subperm ?_, kept.known, kept.caps⟩
      rw [System.copies, System.copies, rows]
      refine List.Sublist.append (liveCopies_sublist ?_ ?_ _ _) plannedFewer
      · exact fun f n is => insert ⟨f, n, is⟩
      · exact fun ids is => restore ⟨ids, is⟩

/-- A plan that is about to place knows its fragments. -/
theorem step_placing (kept : CapsKept s) (moved : step sigOk s e = some t) {plan : Planner}
    (inFlight : .placing plan ∈ t.calls) : Planner.Known t.db plan := by
  have old : .placing plan ∈ s.calls → Planner.Known t.db plan := by
    intro earlier need needed
    obtain ⟨fr, member, same⟩ := kept.placing plan earlier need needed
    exact ⟨fr, (step_grows moved).fragments member, same⟩
  have failed : ∀ plan' : Planner, plan'.failed ≠ .placing plan := by
    intro plan'
    cases plan' <;> simp [Planner.failed]
  cases step_inv moved with
  | @request r call db' begun =>
    rcases mem_append.mp inFlight with earlier | new
    · exact old earlier
    rw [← mem_singleton.mp new] at begun
    cases begin_inv begun with
    | planUpload ok =>
      obtain ⟨file, version, resume, rfl⟩ := DB.beginUpload_planned ok
      exact DB.loadPlanned_known _ _ _ _
  | move current advanced =>
    rcases mem_or_eq_of_mem_set inFlight with earlier | new
    · exact old earlier
    cases advanced with
    | loaded =>
      cases new
      exact repairFragments_known _ _
    | _ => first | cases new | exact absurd new.symm (failed _)
  | act acted => exact old inFlight

theorem CapsKept.step (s : System) (e : Event) (t : System) (kept : CapsKept s)
    (moved : StoragePlatform.step sigOk s e = some t) (fits : FitsCaps s e t) : CapsKept t := by
  obtain ⟨copies, fewer, known, caps⟩ := step_copies kept moved fits
  have schema' := step_schema s e t kept.schema moved
  have fragments := (step_grows moved).fragments
  have sites := step_sites moved
  refine ⟨schema', ?_, fun plan inFlight => step_placing kept moved inFlight, ?_⟩
  · intro copy member
    exact (known copy (fewer.subset (mem_append_right _ member))).grow fragments sites
  · intro chunkId
    have same : t.db.holders chunkId copies = s.db.holders chunkId copies :=
      DB.holders_grows kept.schema schema' fragments sites known
    exact (caps chunkId).subperm (same ▸ subperm_filterMap fewer _)

end Run

/-! ### The check -/

/-- The sites of the stored placements of a chunk. -/
def DB.storedSites (db : DB) (chunkId : Uuid) : List Site :=
  (db.placementTargets.filter fun t =>
    t.placement.status = .stored ∧ t.fragment.chunkId = chunkId).map fun t => t.node.site

/-- Every committed chunk is stored within the caps, and the check passes. -/
structure WithinCaps (db : DB) : Prop where
  chunks : ∀ chunkId, db.CommittedChunk chunkId → Caps (db.storedSites chunkId)
  check : db.checkCaps = .ok ()

section Check

/-- Stored placements are among the live holders. -/
theorem DB.storedSites_sublist (schema : db.Schema) (chunkId : Uuid) :
    (db.storedSites chunkId).Sublist (db.holders chunkId (liveCopies db.placements)) := by
  have stored : db.storedSites chunkId = db.holders chunkId
        ((db.placements.filter fun p => p.status = .stored).map Placement.copy) := by
    rw [storedSites, placementTargets_eq schema, holders, filterMap_map,
      ← filterMap_eq_filter, filterMap_filterMap, map_filterMap,
      filterMap_filter]
    refine filterMap_congr fun p member => ?_
    obtain ⟨fr, inFragments, joined⟩ := schema.placement_fragment p member
    obtain ⟨n, inNodes, onNode⟩ := schema.placement_node p member
    have held : db.holder chunkId p.copy = _ :=
      holder_eq schema inFragments joined inNodes onNode
    rw [Function.comp_apply, held, schema.fragment_pk.find_key inFragments joined,
      Option.bind_some, schema.node_pk.find_key inNodes onNode]
    by_cases isStored : p.status = .stored <;> by_cases inChunk : fr.chunkId = chunkId <;>
      simp [isStored, inChunk, Option.guard]
  rw [stored]
  refine List.Sublist.filterMap _ (List.Sublist.map _ ?_)
  refine monotone_filter_right _ fun p isStored => ?_
  simp [Placement.live, of_decide_eq_true isStored]

/-- A branch of the violation query finds nothing when the values are capped. -/
theorem DB.overCap_eq_nil {κ : Type} [DecidableEq κ] (schema : db.Schema)
    {attr : Node → Option κ} (value : Site → Option κ) (same : ∀ n, value (Node.site n) = attr n)
    {cap : Nat}
    (capped : ∀ chunkId, db.CommittedChunk chunkId →
      Capped cap ((db.storedSites chunkId).map value)) :
    db.overCap attr cap = [] := by
  rw [overCap, map_eq_nil_iff, eq_nil_iff_forall_not_mem]
  rintro ⟨chunkId, v⟩ grouped
  obtain ⟨⟨row, member, isKey⟩, above⟩ := mem_groupHaving.mp grouped
  obtain ⟨inWide, known⟩ := mem_filter.mp member
  have inStored := (mem_filter.mp inWide).1
  obtain ⟨rfl, rfl⟩ := Prod.mk.inj isKey
  obtain ⟨k, isValue⟩ := Option.isSome_iff_exists.mp known
  obtain ⟨-, -, inCommitted, ofChunk⟩ := mem_storedOnChunks.mp inStored
  have committed : db.CommittedChunk row.1.fragment.chunkId :=
    committedChunk_iff.mpr ⟨row.2, inCommitted, ofChunk⟩
  have few := (capped _ committed).countP_le k
  -- the group is a part of the stored rows of the chunk with this value
  have part : ((db.wideRows.filter fun other => (attr other.1.node).isSome).countP fun other =>
      (other.1.fragment.chunkId, attr other.1.node) = (row.1.fragment.chunkId, attr row.1.node)) ≤
      db.storedOnChunks.countP fun other =>
        other.1.fragment.chunkId = row.1.fragment.chunkId ∧ attr other.1.node = some k := by
    refine le_trans (List.Sublist.countP_le ((filter_sublist).trans filter_sublist)) ?_
    refine countP_mono_left fun other _ here => ?_
    simpa [isValue] using here
  have counted : ((db.storedSites row.1.fragment.chunkId).map value).countP
      (fun v => v = some k) = db.storedOnChunks.countP fun other =>
        other.1.fragment.chunkId = row.1.fragment.chunkId ∧ attr other.1.node = some k := by
    have rows := countP_storedOnChunks schema committed fun t => attr t.node = some k
    simp only [decide_eq_true_eq] at rows
    rw [rows, storedSites, map_map, countP_map, countP_filter]
    refine countP_congr fun t _ => ?_
    simp only [Function.comp_apply, same, Bool.and_eq_true, decide_eq_true_eq]
    exact ⟨fun ⟨here, stored, inChunk⟩ => ⟨stored, inChunk, here⟩,
      fun ⟨stored, inChunk, here⟩ => ⟨here, stored, inChunk⟩⟩
  rw [counted] at few
  exact absurd (of_decide_eq_true above) (by omega)

theorem CapsKept.within (kept : CapsKept s) : WithinCaps s.db := by
  have chunks : ∀ chunkId, s.db.CommittedChunk chunkId → Caps (s.db.storedSites chunkId) := by
    intro chunkId _
    have live : (liveCopies s.db.placements).Sublist s.copies := sublist_append_left _ _
    exact (kept.caps chunkId).subperm
      ((DB.storedSites_sublist kept.schema chunkId).trans (live.filterMap _)).subperm
  have noNode : s.db.overCap (fun n => some n.id) 1 = [] :=
    DB.overCap_eq_nil kept.schema (fun site => some site.node) (fun _ => rfl)
      fun id committed => (chunks id committed).node
  have noRegion : s.db.overCap Node.knownRegion regionCap = [] :=
    DB.overCap_eq_nil kept.schema Site.region (fun _ => rfl)
      fun id committed => (chunks id committed).region
  have noAsn : s.db.overCap Node.asn asnCap = [] :=
    DB.overCap_eq_nil kept.schema Site.asn (fun _ => rfl)
      fun id committed => (chunks id committed).asn
  have noOwner : s.db.overCap (fun n => some n.ownerId) ownerCap = [] :=
    DB.overCap_eq_nil kept.schema (fun site => some site.owner) (fun _ => rfl)
      fun id committed => (chunks id committed).owner
  refine ⟨chunks, ?_⟩
  rw [DB.checkCaps, DB.chunkCapViolations, noNode, noRegion, noAsn, noOwner]
  rfl

end Check

/-- From a state without placements, a run that respects the caps at its place and
restore steps stays within them. -/
theorem caps_held {sigOk : SigCheck} {s : System} (schema : s.db.Schema)
    (empty : s.db.placements = []) (idle : s.calls = []) (events : List Event)
    (fits : EveryStep (step sigOk) FitsCaps s events) :
    EveryState (step sigOk) (fun t => WithinCaps t.db) s events := by
  have start : CapsKept s := by
    refine ⟨schema, ?_, ?_, ?_⟩
    · simp [System.planned, idle]
    · simp [idle]
    · intro chunkId
      have nothing : s.copies = [] := by
        simp [System.copies, System.planned, idle, liveCopies, empty]
      rw [nothing]
      exact Caps.nil
  exact (EveryState.of_step CapsKept.step start fits).mono fun _ kept => kept.within

/-- The upload of the worked run, from the empty system. -/
theorem upload_caps_held :
    EveryState (step toySig) (fun t => WithinCaps t.db) System.init upload :=
  caps_held DB.Schema.empty rfl rfl upload
    (upload_everyStep (by decide +kernel) (by decide +kernel) (by decide +kernel))

namespace Sample

/-- Node 0 loses its shard and comes back.  A repair places shard 0 on node 14 and
shard 14 on node 0 and commits the latter; then the flap restores shard 0 on
node 0. -/
def flapAfterRepair : List Event :=
  [.act (.nodeOffline (node 0).id),
    .request (.planRepair chunk.id), .move 2 .load,
    .move 2 (.place { env (fun i => i = 0 ∨ i = 14) with
      draw := fun k => some (if k = 0 then 1 else 0) }),
    .move 2 .insert, .move 2 .insert, .move 2 (.finish sign),
    .request (.commitRepair chunk.id [wire 14 0] [target 15 0 14, target 16 14 0]),
    .move 3 .commit,
    .request (.nodeOnline (node 0).id), .move 4 (.revalidate fun _ => true), .move 4 .restore]

theorem flapAfterRepair_violates :
    (exec (step toySig) committed flapAfterRepair).map (fun s =>
      (s.db.checkCaps, decide (Caps (s.db.storedSites chunk.id)), s.db.chunks, s.db.versions)) =
      some (.error (.caps 1 chunk.id), false, committed.db.chunks, committed.db.versions) := by
  decide +kernel

end Sample

/-- Node 0 ends up with two stored fragments of the chunk, and the check fails. -/
theorem flap_breaks_caps :
    ∃ db chunkId, Reachable toySig db ∧ db.CommittedChunk chunkId ∧
      ¬ Caps (db.storedSites chunkId) ∧ db.checkCaps = .error (.caps 1 chunkId) := by
  obtain ⟨s, run, observed⟩ := Option.map_eq_some_iff.mp flapAfterRepair_violates
  simp only [Prod.mk.injEq] at observed
  obtain ⟨check, caps, chunks, versions⟩ := observed
  refine ⟨s.db, chunk.id, reachable_of_run run, ?_, of_decide_eq_false caps, check⟩
  rw [DB.CommittedChunk, chunks, versions]
  decide +kernel

end StoragePlatform
