/-
Module: StoragePlatform.Proofs.ReceiptKinds
Purpose: Which requests of a node a receipt can come from, once a commit or a report has
  accepted it.
Trusted boundary: none
Main exports: StoredWith, ServedWith, Genuine, Unforged, receipts_not_interchangeable
-/
import StoragePlatform.Fleet
import StoragePlatform.Proofs.ChunkPut
import StoragePlatform.Proofs.RepairCommit
import StoragePlatform.Proofs.Report
import StoragePlatform.Proofs.WireCodec

namespace StoragePlatform

open Lib List Sample

variable {disk : AgentDisk} {entry : Signing} {at_ : Clocks} {id : Option Uuid} {h : NodeHistory}
variable {r : Receipt} {pub : Bytes} {sigOk : SigCheck} {wires : List Text}

/-!
A node signs both kinds of receipts with one key and one layout; sixteen more bytes tell
them apart, and no commit looks at them.  A history of requests says what the node has signed
and why, and signatures that cannot be forged say that a valid signature is in the history of
the key's holder.  The payload is what is signed, so a wire comes from a request when its
payload does.  That a commit is not given the receipt of a GET is due to the tickets: they are
asked for placements that are not pending, and no placement is pending again.
-/

/-! ### What a node has signed -/

namespace NodeHistory

/-- The node has signed the entry's receipt. -/
def Signed (h : NodeHistory) (entry : Signing) : Prop :=
  ∃ s, exec (NodeSystem.step h.env) .init h.events = some s ∧ entry ∈ s.signed

/-- The request is one of the history, and this is how the node dealt with it. -/
def Handles (h : NodeHistory) (request : NodeRequest) (at_ : Clocks) (handled : Handled) : Prop :=
  ∃ before after s, h.events = before ++ (request, at_) :: after ∧
    exec (NodeSystem.step h.env) .init before = some s ∧
    request.handle h.env s.disk at_ = handled

/-- A PUT was answered with the receipt, made by `Sign`. -/
def StoredWith (h : NodeHistory) (r : Receipt) : Prop :=
  ∃ id wire body putEnv at_ handled, h.Handles (.put id wire body putEnv) at_ handled ∧
    handled.reply = .receipt r.raw ∧
    ∃ fragmentId sha size storedAt,
      signReceipt h.env.priv h.env.nodeId fragmentId sha size storedAt = .ok r

/-- A GET with the ticket was answered with the receipt, made by `SignEgress` for the
ticket's nonce. -/
def ServedWith (h : NodeHistory) (tk : Ticket) (r : Receipt) : Prop :=
  ∃ id wire at_ handled, h.Handles (.get id wire) at_ handled ∧
    admitFragment h.env.toAgentEnv at_.verify .get id wire = .ok tk ∧
    (∃ data length, handled.reply = .fragment data length r.raw) ∧
    ∃ sha size storedAt,
      signEgress h.env.priv tk.nodeId tk.fragmentId sha size storedAt tk.nonce = .ok r

/-- The wire has the payload of a receipt for a PUT. -/
def FromPut (h : NodeHistory) (wire : Text) : Prop :=
  ∃ payload sig r, decodeWire wire = .ok (payload, sig) ∧ h.StoredWith r ∧ r.encode = payload

/-- The wire has the payload of a receipt for the GET with a ticket of that nonce. -/
def FromGet (h : NodeHistory) (wire : Text) (nonce : Bytes) : Prop :=
  ∃ payload sig tk r, decodeWire wire = .ok (payload, sig) ∧ h.ServedWith tk r ∧
    tk.nonce = nonce ∧ r.encode = payload

end NodeHistory

/-! ### What a request signs -/

theorem consumeThen_signed {tk : Ticket} {now : Instant} {serve : AgentDisk → Handled}
    (signed : (consumeThen disk tk now serve).signed = some entry) :
    ∃ disk', consumeThen disk tk now serve = serve disk' := by
  simp only [consumeThen] at signed ⊢
  split at signed
  · cases signed
  · exact ⟨_, rfl⟩

/-- A PUT signs a storage receipt, and only when it answers with it. -/
theorem handlePut_signed {env : NodeEnv} {wire : Text} {body : Upload} {putEnv : PutEnv}
    (signed : (handlePut env disk at_ id wire body putEnv).signed = some entry) :
    ∃ tk r, entry = .stored tk r ∧
      (handlePut env disk at_ id wire body putEnv).reply = .receipt r.raw ∧
      ∃ fragmentId sha size storedAt,
        signReceipt env.priv env.nodeId fragmentId sha size storedAt = .ok r := by
  simp only [handlePut] at signed ⊢
  split at signed
  · cases signed
  rename_i tk admitted
  obtain ⟨disk', passed⟩ := consumeThen_signed signed
  simp only [passed] at signed ⊢
  split at signed
  · cases signed
  · cases signed
  · cases signed
  split at signed <;> cases signed
  rename_i r made
  exact ⟨tk, r, rfl, rfl, _, _, _, _, made⟩

/-- A GET signs an egress receipt with the nonce of its ticket. -/
theorem handleGet_signed {env : NodeEnv} {wire : Text}
    (signed : (handleGet env disk at_ id wire).signed = some entry) :
    ∃ tk r, entry = .served tk r ∧
      admitFragment env.toAgentEnv at_.verify .get id wire = .ok tk ∧
      (∃ data length, (handleGet env disk at_ id wire).reply = .fragment data length r.raw) ∧
      ∃ sha size storedAt,
        signEgress env.priv tk.nodeId tk.fragmentId sha size storedAt tk.nonce = .ok r := by
  simp only [handleGet] at signed ⊢
  split at signed
  · cases signed
  rename_i tk admitted
  obtain ⟨disk', passed⟩ := consumeThen_signed signed
  simp only [passed] at signed ⊢
  split at signed
  · cases signed
  rename_i data fragMeta found
  split at signed
  · cases signed
  rename_i agrees
  split at signed <;> cases signed
  rename_i r made
  obtain ⟨rfl, sameNode, -⟩ := admitFragment_inv admitted
  refine ⟨tk, r, rfl, admitted, ⟨data, fragMeta.size, ?_⟩, _, _, _, sameNode ▸ made⟩
  simp only [if_neg agrees]

theorem handleDelete_signed (env : NodeEnv) (disk : AgentDisk) (at_ : Clocks) (id : Option Uuid)
    (wire : Text) (fault : Bool) : (handleDelete env disk at_ id wire fault).signed = none := by
  simp only [handleDelete, consumeThen, Handled.refuse]
  repeat' split
  all_goals rfl

theorem handleChallenge_signed (env : NodeEnv) (disk : AgentDisk) (at_ : Clocks)
    (id : Option Uuid) (offset length : Option Int) (nonce : Option Bytes) (wire : Text) :
    (handleChallenge env disk at_ id offset length nonce wire).signed = none := by
  simp only [handleChallenge, consumeThen, Handled.refuse]
  repeat' split
  all_goals rfl

/-- What is signed in a run was signed before it, or for one of its requests. -/
theorem signed_of_exec {env : NodeEnv} {events : List (NodeRequest × Clocks)} {s t : NodeSystem}
    (run : exec (NodeSystem.step env) s events = some t) (member : entry ∈ t.signed) :
    entry ∈ s.signed ∨ ∃ before request at_ after u, events = before ++ (request, at_) :: after ∧
      exec (NodeSystem.step env) s before = some u ∧
      (request.handle env u.disk at_).signed = some entry := by
  induction events generalizing s with
  | nil =>
    cases run
    exact .inl member
  | cons event events ih =>
    obtain ⟨request, at_⟩ := event
    simp only [exec, NodeSystem.step] at run
    rcases ih run with old | ⟨before, request', at_', after, u, split, first, signed⟩
    · rcases mem_append.mp old with old | new
      · exact .inl old
      · exact .inr ⟨[], request, at_, events, s, rfl, rfl, Option.mem_toList.mp new⟩
    · refine .inr ⟨(request, at_) :: before, request', at_', after, u, ?_, ?_, signed⟩
      · rw [split, cons_append]
      · simpa only [exec, NodeSystem.step] using first

/-- Every signature of a history is for a PUT or for a GET. -/
theorem NodeHistory.Signed.origin (signed : h.Signed entry) :
    h.StoredWith entry.receipt ∨ ∃ tk, h.ServedWith tk entry.receipt := by
  obtain ⟨s, run, member⟩ := signed
  rcases signed_of_exec run member with old | ⟨before, request, at_, after, u, split, first, made⟩
  · cases old
  have handles : h.Handles request at_ (request.handle h.env u.disk at_) :=
    ⟨before, after, u, split, first, rfl⟩
  cases request with
  | put id wire body putEnv =>
    obtain ⟨tk, r, rfl, reply, byKey⟩ := handlePut_signed made
    exact .inl ⟨id, wire, body, putEnv, at_, _, handles, reply, byKey⟩
  | get id wire =>
    obtain ⟨tk, r, rfl, admitted, reply, byKey⟩ := handleGet_signed made
    exact .inr ⟨tk, id, wire, at_, _, handles, admitted, reply, byKey⟩
  | delete id wire fault =>
    simp only [NodeRequest.handle, handleDelete_signed] at made
    cases made
  | challenge id offset length nonce wire =>
    simp only [NodeRequest.handle, handleChallenge_signed] at made
    cases made

/-! ### The sixteen bytes -/

/-- The end of a signed payload is its nonce. -/
theorem encode_of_signed {priv : PrivateKey} {nodeId fragmentId : Uuid} {sha nonce : Bytes}
    {size : Nat} {storedAt : Instant} (sized : nonce = [] ∨ nonce.length = 16)
    (signed : signFields priv nodeId fragmentId sha size storedAt nonce = .ok r) :
    r.encode.length = receiptBase + nonce.length ∧ r.encode.drop receiptBase = nonce := by
  obtain ⟨hashed, -, -, same, -⟩ := signFields_inv signed
  have tail : (if nonce.length = 16 then nonce else []) = nonce := by
    rcases sized with rfl | long
    · rfl
    · exact if_pos long
  rw [same]
  constructor
  · simp only [Receipt.encode, tail, length_append, length_bytesBE, hashed, receiptBase]
  · simp [Receipt.encode, tail, hashed, receiptBase, drop_append, drop_eq_nil_of_le]

theorem receiptNonce_of_payload {wire : Text} {payload sig nonce : Bytes}
    (wired : decodeWire wire = .ok (payload, sig)) (sized : nonce = [] ∨ nonce.length = 16)
    (long : payload.length = receiptBase + nonce.length)
    (tail : payload.drop receiptBase = nonce) :
    receiptNonce wire = if nonce = [] then none else some nonce := by
  have decodes : ¬ (payload.length ≠ receiptBase ∧ payload.length ≠ receiptBase + 16) := by
    rw [long]
    rcases sized with rfl | sixteen
    · simp
    · simp [sixteen]
  simp only [receiptNonce, wired, decodeReceipt, if_neg decodes, tail]
  rcases sized with rfl | sixteen
  · rfl
  · have some_nonce : nonce ≠ [] := by
      rintro rfl
      cases sixteen
    rw [if_neg (not_not.mpr sixteen), if_neg some_nonce]

namespace NodeHistory

/-- A wire from a PUT names no nonce. -/
theorem FromPut.nonce {wire : Text} (fromPut : h.FromPut wire) : receiptNonce wire = none := by
  obtain ⟨payload, sig, r, wired, stored, rfl⟩ := fromPut
  obtain ⟨_, _, _, _, _, _, -, -, _, _, _, _, signed⟩ := stored
  obtain ⟨long, tail⟩ := encode_of_signed (.inl rfl) signed
  rw [receiptNonce_of_payload wired (.inl rfl) long tail, if_pos rfl]

/-- A wire from a GET names the nonce of the ticket. -/
theorem FromGet.nonce {wire : Text} {nonce : Bytes} (fromGet : h.FromGet wire nonce) :
    receiptNonce wire = some nonce := by
  obtain ⟨payload, sig, tk, r, wired, served, rfl, rfl⟩ := fromGet
  obtain ⟨_, _, _, _, -, -, -, _, _, _, signed⟩ := served
  obtain ⟨sixteen, signed⟩ := signEgress_inv signed
  obtain ⟨long, tail⟩ := encode_of_signed (.inr sixteen) signed
  have some_nonce : tk.nonce ≠ [] := by
    intro empty
    rw [empty] at sixteen
    cases sixteen
  rw [receiptNonce_of_payload wired (.inr sixteen) long tail, if_neg some_nonce]

end NodeHistory

/-! ### Signatures that cannot be forged -/

/-- A signature on one of the wires that checks under a node's key was made by the node, if the
payload is as long as that of a receipt: the key also signs certificate requests and
handshakes. -/
def Genuine (sigOk : SigCheck) (history : Bytes → NodeHistory) (wires : List Text) : Prop :=
  ∀ wire ∈ wires, ∀ pub payload sig, decodeWire wire = .ok (payload, sig) →
    sigOk pub payload sig = true →
    payload.length = receiptBase ∨ payload.length = receiptBase + 16 →
      ∃ entry, (history pub).Signed entry ∧ entry.receipt.encode = payload

namespace Genuine

variable {history : Bytes → NodeHistory} {wire : Text}

/-- A wire that parses under a key comes from a PUT or a GET of its node. -/
theorem origin (genuine : Genuine sigOk history wires) (member : wire ∈ wires)
    (parsed : parseReceipt sigOk wire pub = .ok r) :
    (history pub).FromPut wire ∨ ∃ nonce, (history pub).FromGet wire nonce := by
  obtain ⟨payload, sig, r₀, wired, signature, decoded, -⟩ := parseReceipt_inv parsed
  have sized : payload.length = receiptBase ∨ payload.length = receiptBase + 16 := by
    simp only [decodeReceipt] at decoded
    split at decoded
    · cases decoded
    · omega
  obtain ⟨entry, signed, same⟩ := genuine wire member pub payload sig wired signature sized
  rcases signed.origin with stored | ⟨tk, served⟩
  · exact .inl ⟨payload, sig, entry.receipt, wired, stored, same⟩
  · exact .inr ⟨tk.nonce, payload, sig, tk, entry.receipt, wired, served, rfl, same⟩

/-- A wire that parses and names a nonce comes from the GET with it. -/
theorem fromGet_of_nonce (genuine : Genuine sigOk history wires) (member : wire ∈ wires)
    {nonce : Bytes} (parsed : parseReceipt sigOk wire pub = .ok r)
    (named : receiptNonce wire = some nonce) :
    (history pub).FromGet wire nonce ∧ ¬ (history pub).FromPut wire := by
  have notPut : ¬ (history pub).FromPut wire := by
    intro fromPut
    rw [fromPut.nonce] at named
    cases named
  obtain ⟨nonce', fromGet⟩ := (genuine.origin member parsed).resolve_left notPut
  have same := fromGet.nonce
  rw [named] at same
  cases same
  exact ⟨fromGet, notPut⟩

end Genuine

/-! ### What GET tickets are asked for -/

/-- Every query finds placements that are stored or lost. -/
theorem DB.asks_settled {db : DB} {q : GetQuery} {pair : Uuid × Uuid} (member : pair ∈ db.asks q) :
    ∃ p ∈ db.placements, (p.fragmentId, p.nodeId) = pair ∧ p.status ≠ .pending := by
  have target : ∀ {t : PlacementTarget}, t ∈ db.placementTargets → t.placement.status ≠ .pending →
      ∃ p ∈ db.placements, (p.fragmentId, p.nodeId) =
        (t.placement.fragmentId, t.placement.nodeId) ∧ p.status ≠ .pending :=
    fun inTargets settled => ⟨_, (mem_placementTargets.mp inTargets).1, rfl, settled⟩
  cases q with
  | download versionId =>
    obtain ⟨row, inRows, rfl⟩ := mem_map.mp member
    obtain ⟨cf, -, inRows⟩ := mem_flatMap.mp inRows
    obtain ⟨pn, joined, rfl⟩ := mem_map.mp inRows
    obtain ⟨selected, -, onNode⟩ := mem_innerJoin.mp joined
    obtain ⟨inTable, chosen⟩ := mem_filter.mp selected
    obtain ⟨ofFragment, stored⟩ := of_decide_eq_true chosen
    refine ⟨pn.1, inTable, Prod.ext ofFragment (of_decide_eq_true onNode).symm, ?_⟩
    rw [stored]
    exact PlacementStatus.noConfusion
  | repair chunkId =>
    obtain ⟨source, inSources, rfl⟩ := mem_map.mp member
    obtain ⟨rf, inFragments, used⟩ := mem_filterMap.mp inSources
    obtain ⟨fr, -, rfl⟩ := mem_map.mp inFragments
    simp only [RepairFragment.use] at used
    split at used <;> cases used
    rename_i n used
    split at used
    · rename_i p n' placed onNode
      split at used
      · rename_i stored
        cases used
        rw [placed, Option.bind_some] at onNode
        have sameNode := find?_some onNode
        have first := mem_of_mem_head? (Option.mem_def.mpr placed)
        obtain ⟨inTable, chosen⟩ := mem_filter.mp (mem_orderBy.mp first)
        refine ⟨p, inTable, Prod.ext (of_decide_eq_true chosen).1
          (of_decide_eq_true sameNode).symm, ?_⟩
        rw [stored]
        exact PlacementStatus.noConfusion
      · split at used <;> cases used
    · cases used
  | lost nodeId =>
    obtain ⟨row, inRows, rfl⟩ := mem_map.mp member
    obtain ⟨t, inTargets, rfl⟩ := mem_map.mp inRows
    obtain ⟨inTargets, chosen⟩ := mem_filter.mp inTargets
    refine target inTargets ?_
    rw [(of_decide_eq_true chosen).2]
    exact PlacementStatus.noConfusion
  | due audits now minAge limit =>
    rw [asks] at member
    split at member
    · rename_i same
      subst same
      obtain ⟨row, inRows, rfl⟩ := mem_map.mp member
      obtain ⟨t, inTargets, rfl⟩ := mem_map.mp inRows
      obtain ⟨inTargets, chosen⟩ := mem_filter.mp (mem_orderBy.mp (mem_of_mem_take inTargets))
      refine target inTargets ?_
      simp only [AuditDB.isDue, Bool.and_eq_true, decide_eq_true_eq] at chosen
      rw [chosen.1.1]
      exact PlacementStatus.noConfusion
    · cases member

/-! ### Runs of the fleet -/

/-- The wires and the targets of a commit. -/
def Request.receipts : Request → List Text × List PlacementTarget
  | .commitUpload _ _ wires targets | .commitRepair _ wires targets => (wires, targets)
  | _ => ([], [])

/-- Nobody forges: the receipts given to a commit are genuine, and the ticket of a GET was
signed for what one of the queries had found. -/
structure Unforged (sigOk : SigCheck) (s : Fleet) (e : FleetEvent) (_ : Fleet) : Prop where
  receipts : ∀ r, e = .system (.request r) → Genuine sigOk s.history r.receipts.1
  tickets : ∀ pub id wire at_, e = .node pub (.get id wire) at_ → ∀ tk,
    admitFragment (s.history pub).env.toAgentEnv at_.verify .get id wire = .ok tk →
      (tk.fragmentId, tk.nodeId) ∈ s.asked

/-- Events of the control plane that are no commits need no signature. -/
theorem Unforged.of_plain {s : Fleet} {es : List Event}
    (plain : ∀ e ∈ es, ∀ r, e = .request r → r.receipts.1 = []) :
    EveryStep (Fleet.step sigOk) (Unforged sigOk) s (es.map .system) := by
  refine EveryStep.of_label fun e listed s t => ?_
  obtain ⟨e, inRun, rfl⟩ := mem_map.mp listed
  refine ⟨fun r same wire member => ?_, ?_⟩
  · cases same
    rw [plain _ inRun r rfl] at member
    cases member
  · nofun

theorem Fleet.exec_system {s : Fleet} {es : List Event} {system : System}
    (run : exec (StoragePlatform.step sigOk) s.system es = some system) :
    exec (Fleet.step sigOk) s (es.map .system) = some { s with system := system } :=
  exec_map Fleet.system (fun s system => { s with system := system })
    (fun s e u moved => by simp only [Fleet.step, moved]) (fun _ _ => rfl) (fun _ _ _ => rfl)
    (fun _ => rfl) run

/-- Each wire of a commit that goes on to the store has been accepted for one of its targets,
and every target that accepts it is on the node that made it in answer to a PUT, and not to a
GET. -/
def CommitsStored (sigOk : SigCheck) (s : Fleet) (e : FleetEvent) (_ : Fleet) : Prop :=
  ∀ r, e = .system (.request r) → ∀ wire ∈ r.receipts.1,
    (∃ t ∈ r.receipts.2, t.accepts sigOk wire = true) ∧
      ∀ t ∈ r.receipts.2, t.accepts sigOk wire = true →
        (s.history t.node.publicKey).FromPut wire ∧
          ¬ ∃ nonce, (s.history t.node.publicKey).FromGet wire nonce

/-- No GET has been admitted for a placement that is pending. -/
structure FleetInv (s : Fleet) : Prop where
  schema : s.system.db.Schema
  asked : ∀ pair ∈ s.asked, ∃ p ∈ s.system.db.placements,
    (p.fragmentId, p.nodeId) = pair ∧ p.status ≠ .pending
  served : ∀ pub, ∀ event ∈ (s.history pub).events, ∀ id wire tk, event.1 = .get id wire →
    admitFragment (s.history pub).env.toAgentEnv event.2.verify .get id wire = .ok tk →
      (tk.fragmentId, tk.nodeId) ∈ s.asked

theorem FleetInv.init (env : Bytes → NodeEnv) : FleetInv (Fleet.init env) where
  schema := DB.Schema.empty
  asked := fun _ member => absurd member not_mem_nil
  served := fun _ _ member => absurd member not_mem_nil

variable {s s' : Fleet} {e : FleetEvent}

theorem FleetInv.step (h : FleetInv s) (moved : Fleet.step sigOk s e = some s')
    (honest : Unforged sigOk s e s') : FleetInv s' := by
  cases e with
  | system e =>
    simp only [Fleet.step] at moved
    split at moved <;> cases moved
    rename_i t moved
    refine ⟨step_schema _ _ _ h.schema moved, fun pair member => ?_, h.served⟩
    obtain ⟨p, inTable, rfl, settled⟩ := h.asked pair member
    obtain ⟨q, inTable', same, settled'⟩ :=
      RowOp.settled settled inTable s.system.db.nextPlacementId
    refine ⟨q, by rw [step_placements moved]; exact inTable', ?_, settled'⟩
    exact (congrArg Prod.snd same).symm
  | query q =>
    cases moved
    refine ⟨h.schema, fun pair member => ?_, fun pub event inEvents id wire tk isGet admitted =>
      mem_append_left _ (h.served pub event inEvents id wire tk isGet admitted)⟩
    rcases mem_append.mp member with old | new
    · exact h.asked pair old
    · exact DB.asks_settled new
  | node pub request at_ =>
    cases moved
    refine ⟨h.schema, h.asked, fun key event inEvents id wire tk isGet admitted => ?_⟩
    dsimp only at inEvents admitted
    split at inEvents
    · rename_i same
      subst same
      rw [if_pos rfl] at admitted
      rcases mem_append_row.mp inEvents with old | rfl
      · exact h.served key event old id wire tk isGet admitted
      · cases isGet
        exact honest.tickets key id wire at_ rfl tk admitted
    · rename_i other
      rw [if_neg other] at admitted
      exact h.served key event inEvents id wire tk isGet admitted

theorem Receipt.ids_of_encode {r r' : Receipt} (same : r.encode = r'.encode) :
    r.nodeId = r'.nodeId ∧ r.fragmentId = r'.fragmentId := by
  have slices : ∀ r : Receipt, r.encode.take 16 = bytesBE 16 r.nodeId.toNat ∧
      (r.encode.drop 16).take 16 = bytesBE 16 r.fragmentId.toNat := fun r => by
    simp [Receipt.encode]
  constructor
  · rw [← uuid_of_bytes r.nodeId, ← (slices r).1, same, (slices r').1, uuid_of_bytes]
  · rw [← uuid_of_bytes r.fragmentId, ← (slices r).2, same, (slices r').2, uuid_of_bytes]

/-- The receipt of a GET is not accepted for a pending placement. -/
theorem FleetInv.not_served (h : FleetInv s) {t : PlacementTarget} {wire : Text}
    (inTargets : t ∈ s.system.db.placementTargets) (pending : t.placement.status = .pending)
    (accepts : t.accepts sigOk wire = true) :
    ¬ ∃ nonce, (s.history pub).FromGet wire nonce := by
  rintro ⟨nonce, payload, sig, tk, r, wired, served, -, encoded⟩
  obtain ⟨id, ticketWire, at_, handled, handles, admitted, -, sha, size, storedAt, signed⟩ := served
  obtain ⟨before, after, -, split, -⟩ := handles
  have asked := h.served pub (.get id ticketWire, at_) (by rw [split]; simp) id ticketWire tk rfl
    admitted
  -- the receipt, the ticket and the target name one fragment and one node
  obtain ⟨r₀, parsed, ofFragment, ofNode⟩ := PlacementTarget.accepts_inv accepts
  obtain ⟨payload', sig', r₁, wired', -, decoded, rfl⟩ := parseReceipt_inv parsed
  rw [wired] at wired'
  cases wired'
  obtain ⟨sameNode, sameFragment⟩ :=
    Receipt.ids_of_encode ((encode_decodeReceipt decoded).trans encoded.symm)
  obtain ⟨-, -, -, fields, -⟩ := signFields_inv (signEgress_inv signed).2
  rw [fields] at sameNode sameFragment
  obtain ⟨p, inTable, pair, settled⟩ := h.asked _ asked
  obtain ⟨inPlacements, -, -, joined, onNode⟩ := DB.mem_placementTargets.mp inTargets
  have same : p = t.placement := by
    refine h.schema.placement_pair.eq_of_key inTable inPlacements (pair.trans (Prod.ext ?_ ?_))
    · exact sameFragment.symm.trans (ofFragment.trans joined)
    · exact sameNode.symm.trans (ofNode.trans onNode)
  rw [same] at settled
  exact settled pending

/-- A commit of either kind accepts each wire for a pending placement. -/
theorem CallBegun.accepts {db db' : DB} {r : Request} {call : Call}
    (begun : CallBegun sigOk db r call db') :
    (∀ t ∈ r.receipts.2, t ∈ db.placementTargets) ∧
      ∀ wire ∈ r.receipts.1, ∃ t ∈ r.receipts.2, t.placement.status = .pending ∧
        t.accepts sigOk wire = true := by
  have none : r.receipts = ([], []) → (∀ t ∈ r.receipts.2, t ∈ db.placementTargets) ∧
      ∀ wire ∈ r.receipts.1, ∃ t ∈ r.receipts.2, t.placement.status = .pending ∧
        t.accepts sigOk wire = true := fun empty => by
    rw [empty]
    exact ⟨fun t member => absurd member not_mem_nil, fun wire member => absurd member not_mem_nil⟩
  cases begun with
  | @commitUpload _ _ _ targets _ read matched =>
    obtain ⟨accepted, found, -⟩ := uploadReceipts_ok matched
    have listed := fun t (member : t ∈ targets) => mem_filter.mp (read.mem_iff.mp member)
    refine ⟨fun t member => (listed t member).1, fun wire member => ?_⟩
    obtain ⟨t, inMap, isAccepted, accepts⟩ := acceptReceipts_all found wire member
    have inTargets := mem_of_mem_byFragment inMap
    refine ⟨t, inTargets, ?_, accepts⟩
    have live := (of_decide_eq_true (listed t inTargets).2).1
    have unseen := (acceptReceipts_iff.mp found).2.2 _ isAccepted
    by_contra notPending
    refine unseen (mem_map.mpr ⟨t, mem_filter.mpr ⟨inTargets, ?_⟩, rfl⟩)
    simpa [Placement.live, notPending] using live
  | @commitRepair _ _ targets _ read matched =>
    have listed := fun t (member : t ∈ targets) => mem_filter.mp (read.mem_iff.mp member)
    refine ⟨fun t member => (listed t member).1, fun wire member => ?_⟩
    obtain ⟨t, inMap, -, accepts⟩ := acceptReceipts_all (repairReceipts_ok matched) wire member
    have inTargets := mem_of_mem_byFragment inMap
    exact ⟨t, inTargets, (of_decide_eq_true (listed t inTargets).2).2, accepts⟩
  | _ => exact none rfl

theorem FleetInv.commitsStored (h : FleetInv s) (moved : Fleet.step sigOk s e = some s')
    (honest : Unforged sigOk s e s') : CommitsStored sigOk s e s' := by
  rintro r rfl wire member
  simp only [Fleet.step] at moved
  split at moved <;> cases moved
  rename_i t moved
  simp only [StoragePlatform.step] at moved
  split at moved <;> cases moved
  rename_i call db begun
  obtain ⟨listed, each⟩ := (begin_inv begun).accepts
  obtain ⟨u, inTargets, pending, accepts⟩ := each wire member
  refine ⟨⟨u, inTargets, accepts⟩, fun t inTargets' accepts' => ?_⟩
  -- a wire is accepted for one placement
  have same : t.placement = u.placement := by
    obtain ⟨fragment, node⟩ := PlacementTarget.accepts_same accepts' accepts
    obtain ⟨inTable, -, -, joined, onNode⟩ :=
      DB.mem_placementTargets.mp (listed u inTargets)
    obtain ⟨inTable', -, -, joined', onNode'⟩ :=
      DB.mem_placementTargets.mp (listed t inTargets')
    exact h.schema.placement_pair.eq_of_key inTable' inTable
      (Prod.ext (joined'.symm.trans (fragment.trans joined))
        (onNode'.symm.trans (node.trans onNode)))
  rw [← same] at pending
  have notServed : ¬ ∃ nonce, (s.history t.node.publicKey).FromGet wire nonce :=
    h.not_served (listed t inTargets') pending accepts'
  obtain ⟨r₀, parsed, -⟩ := PlacementTarget.accepts_inv accepts'
  exact ⟨((honest.receipts r rfl).origin member parsed).resolve_right notServed, notServed⟩

/-! ### What is accepted -/

/-- A report has verified each of its wires against a ticket of its nonce. -/
theorem UsageDB.verified_of_report {s s' : UsageDB} {env : ReportEnv} {userId fileId : Uuid}
    (ok : s.reportDownload env userId fileId wires = (.ok (), s')) :
    ∀ wire ∈ wires, ∃ nonce t got, receiptNonce wire = some nonce ∧
      s.db.EgressVerified env.sigOk userId fileId nonce wire t got := by
  simp only [reportDownload] at ok
  split at ok
  · cases ok
  split at ok <;> cases ok
  rename_i recs s' ran
  obtain ⟨all, -⟩ := ((reportWires_spec (InLoop.start s) 0 wires).2 recs).mp (congrArg Prod.fst ran)
  intro wire member
  obtain ⟨rec_, -, t, got, named, -, -, verified⟩ :=
    forall₂_left (forall₂_of_mapM (fun _ _ => verified_of_acceptable) all) member
  exact ⟨rec_.nonce, t, got, named, verified⟩

/-- Storage and egress receipts are not interchangeable.  In every run of the control plane and
its nodes, whoever asks whom what, a wire that a commit accepts comes from a PUT of the node and
from no GET; and a wire that a report accepts comes from the GET with its nonce and from no
PUT. -/
theorem receipts_not_interchangeable (sigOk : SigCheck) (env : Bytes → NodeEnv) :
    (∀ events : List FleetEvent,
      EveryStep (Fleet.step sigOk) (Unforged sigOk) (Fleet.init env) events →
        EveryStep (Fleet.step sigOk) (CommitsStored sigOk) (Fleet.init env) events) ∧
    ∀ (history : Bytes → NodeHistory) (s s' : UsageDB) (reportEnv : ReportEnv)
      (userId fileId : Uuid) (wires : List Text),
      reportEnv.sigOk = sigOk → Genuine sigOk history wires →
      s.reportDownload reportEnv userId fileId wires = (.ok (), s') →
      ∀ wire ∈ wires, ∃ nonce, receiptNonce wire = some nonce ∧
        ∃ t ∈ s.db.downloadTickets, t.nonce = nonce ∧ ∃ n ∈ s.db.nodes, n.id = t.nodeId ∧
          (history n.publicKey).FromGet wire nonce ∧ ¬ (history n.publicKey).FromPut wire := by
  constructor
  · intro events honest
    exact EveryStep.of_inv (fun _ _ _ => FleetInv.step) (fun _ _ _ => FleetInv.commitsStored)
      (FleetInv.init env) honest
  · intro history s s' reportEnv userId fileId wires sameCheck genuine ok wire member
    subst sameCheck
    obtain ⟨nonce, t, got, named, verified⟩ := UsageDB.verified_of_report ok wire member
    obtain ⟨n, inNodes, ofTicket, parsed⟩ := verified.signed
    exact ⟨nonce, named, t, verified.ticket, verified.sameNonce, n, inNodes, ofTicket,
      genuine.fromGet_of_nonce member parsed named⟩

namespace Sample

/-- A ticket for fragment 0 on node 0. -/
def keeperTicket (op : TicketOp) (nonce : Bytes) : Ticket where
  op := op.bytes
  fragmentId := (fragment 0).id
  nodeId := (node 0).id
  sha256 := digest
  maxBytes := 1
  expiresAt := .ofUnix 900
  nonce := nonce
  raw := []

def keeperTicketWire (op : TicketOp) (nonce : Bytes) : Text :=
  encodeWire (keeperTicket op nonce).encode (List.replicate 64 0)

def keeperEnv : NodeEnv where
  sigOk := fun _ _ _ => true
  ticketKey := List.replicate 32 1
  nodeId := (node 0).id
  hash := padHash
  priv := ⟨64, fun _ => (node 0).publicKey ++ (node 0).publicKey⟩

def keeperPut : NodeRequest :=
  .put (some (fragment 0).id) (keeperTicketWire .put (List.replicate 16 5)) ⟨[0], false⟩
    ⟨0, 0, none⟩

/-- Node 0 stores fragment 0. -/
def stored : NodeHistory := ⟨keeperEnv, [(keeperPut, ⟨0, 0⟩)]⟩

/-- Node 0 stores fragment 0 and serves it once. -/
def keeper : NodeHistory where
  env := keeperEnv
  events :=
    [(keeperPut, ⟨0, 0⟩), (.get (some (fragment 0).id) (keeperTicketWire .get ticketNonce), ⟨0, 0⟩)]

/-- The receipt of fragment 0 by node 0. -/
def keeperReceipt (nonce : Bytes) (raw : Text) : Receipt where
  nodeId := (node 0).id
  fragmentId := (fragment 0).id
  sha256 := digest
  size := 1
  storedAt := 0
  nonce := nonce
  raw := raw

theorem keeperReceipt_encode (nonce : Bytes) (raw : Text) :
    (keeperReceipt nonce raw).encode = (keeperReceipt nonce []).encode := rfl

/-- The key of node 0 checks what node 0 has signed. -/
def keeperSig : SigCheck := fun pub payload sig =>
  pub = (node 0).publicKey ∧ sig = pub ++ pub ∧
    payload ∈ [(keeperReceipt [] []).encode, (keeperReceipt ticketNonce []).encode]

theorem stored_signed : stored.Signed
    (.stored
      { keeperTicket .put (List.replicate 16 5) with
        raw := keeperTicketWire .put (List.replicate 16 5) }
      (keeperReceipt [] (wire 0 0))) := by
  unfold NodeHistory.Signed
  decide +kernel

theorem keeper_served : keeper.Signed
    (.served
      { keeperTicket .get ticketNonce with raw := keeperTicketWire .get ticketNonce }
      (keeperReceipt ticketNonce egressWire)) := by
  unfold NodeHistory.Signed
  decide +kernel

/-- One fragment is planned for node 0. -/
def smallPlan : List Event :=
  [.act (.createBucket bucket), .act (.registerNode (node 0)),
    .request (.planUpload owner
      { manifest with chunks := manifest.chunks.map fun c =>
          { c with fragments := c.fragments.take 1 } } gen),
    .move 0 (.place (env fun _ => true)), .move 0 .insert, .move 0 (.finish sign)]

def smallCommit : Event :=
  .request (.commitUpload owner (gen 1) [wire 0 0] [target 1 0 0])

/-- The plan, the PUT of the fragment and the commit of its receipt. -/
def smallUpload : List FleetEvent :=
  smallPlan.map .system ++ [.node (node 0).publicKey keeperPut ⟨0, 0⟩] ++ [.system smallCommit]

/-- The control plane before the commit, and after it. -/
theorem smallPlan_commits :
    ∃ planned done, exec (step keeperSig) System.init smallPlan = some planned ∧
      step keeperSig planned smallCommit = some done := by
  have runs : ((exec (step keeperSig) System.init smallPlan).bind
      (step keeperSig · smallCommit)).isSome = true := by
    decide +kernel
  obtain ⟨done, run⟩ := Option.isSome_iff_exists.mp runs
  obtain ⟨planned, front, last⟩ := Option.bind_eq_some_iff.mp run
  exact ⟨planned, done, front, last⟩

/-- Node 0 has stored the fragment, and the commit has not been made. -/
def putState (planned : System) : Fleet where
  system := planned
  history := fun key => if key = (node 0).publicKey then stored else ⟨keeperEnv, []⟩
  asked := []

theorem smallUpload_front {planned : System}
    (front : exec (step keeperSig) System.init smallPlan = some planned) :
    exec (Fleet.step keeperSig) (.init fun _ => keeperEnv)
        (smallPlan.map .system ++ [.node (node 0).publicKey keeperPut ⟨0, 0⟩]) =
      some (putState planned) := by
  rw [exec_append, Fleet.exec_system front]
  rfl

/-- The one receipt that is given to a commit was signed by node 0. -/
theorem putState_genuine (planned : System) :
    Genuine keeperSig (putState planned).history [wire 0 0] := by
  intro w member pub payload sig wired checks _
  obtain rfl := mem_singleton.mp member
  have signer : pub = (node 0).publicKey := (of_decide_eq_true checks).1
  have holder : (putState planned).history pub = stored := if_pos signer
  have same := payload_of_encodeWire wired
  dsimp only at same
  rw [holder]
  exact ⟨_, stored_signed, (keeperReceipt_encode [] _).trans same.symm⟩

theorem smallUpload_unforged :
    EveryStep (Fleet.step keeperSig) (Unforged keeperSig) (.init fun _ => keeperEnv)
      smallUpload := by
  obtain ⟨planned, -, front, -⟩ := smallPlan_commits
  refine EveryStep.append_of (EveryStep.append_of (Unforged.of_plain ?_) ?_) ?_
  · simp [smallPlan, Request.receipts]
  · exact fun t _ u _ => ⟨⟨nofun, nofun⟩, trivial⟩
  · intro t run u _
    rw [smallUpload_front front] at run
    cases run
    exact ⟨⟨fun r same => by cases same; exact putState_genuine planned, nofun⟩, trivial⟩

theorem keeper_genuine : Genuine keeperSig (fun _ => keeper) [egressWire] := by
  intro w member pub payload sig wired checks _
  cases mem_singleton.mp member
  have same := payload_of_encodeWire wired
  dsimp only at same
  exact ⟨_, keeper_served, (keeperReceipt_encode ticketNonce _).trans same.symm⟩

end Sample

/-- The storage receipt is accepted by a commit, and the egress receipt by a report. -/
theorem keeper_receipts_used :
    (stored.FromPut (Sample.wire 0 0) ∧
      ¬ ∃ nonce, stored.FromGet (Sample.wire 0 0) nonce) ∧
    keeper.FromGet egressWire ticketNonce ∧
      ¬ keeper.FromPut egressWire := by
  obtain ⟨commits, reports⟩ := receipts_not_interchangeable keeperSig fun _ => keeperEnv
  constructor
  · obtain ⟨planned, done, front, last⟩ := smallPlan_commits
    have moved : Fleet.step keeperSig (putState planned) (.system smallCommit) =
        some { putState planned with system := done } := by
      simp only [Fleet.step, putState, last]
    have kept := (commits _ smallUpload_unforged).last (smallUpload_front front) moved
    obtain ⟨⟨t, inTargets, accepts⟩, kinds⟩ := kept _ rfl _ (mem_singleton.mpr rfl)
    have kind := kinds t inTargets accepts
    cases mem_singleton.mp inTargets
    exact kind
  · have accepted : (ticketed.reportDownload
        { reportEnv 0 0 with sigOk := keeperSig } owner (gen 0)
          [egressWire]).1 = .ok () := by
      decide +kernel
    have named : receiptNonce egressWire = some ticketNonce := by decide +kernel
    obtain ⟨nonce, named', t', -, -, n, -, -, fromGet⟩ := reports _ _ _ _ _ _ _ rfl
      keeper_genuine (Prod.ext accepted (by dsimp only)) egressWire (mem_singleton.mpr rfl)
    rw [named] at named'
    cases named'
    exact fromGet

end StoragePlatform
