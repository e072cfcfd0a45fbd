/-
Module: StoragePlatform.Proofs.Accrual
Purpose: Hourly accruals are posted once, and catching up skips no hour, for any number
  of concurrent Accruer instances.
Trusted boundary: none
Main exports: txnName_inj, TxnEffect, ExactlyOnce, Covered, accrual_exactly_once
-/
import Mathlib
import StoragePlatform.Ledger.Accrue

namespace StoragePlatform

open Lib List

variable {id subject subject' : Uuid} {first window : Time} {hashed : List Text} {txn : LedgerTxn}
variable {rows : List LedgerEntry} {ledger : LedgerDB} {m : AccrualMove} {i : Nat}
variable {call call' : AccrualCall} {completed completed' : List Time}
variable {watermark watermark' : Option Time}

/-!
An accrual is keyed by its kind, its subject and its hour; the id of its transaction is
a hash of the three, and the header row of a known id is not inserted again.  The legs are
written in the transaction of the header.  The watermark may move back, but no call that
has seen one leaves an hour out between the watermark it has seen and one it stores.
-/

/-! ### Names -/

section Names

variable {uuids : UuidPackage}

theorem length_encodeHex (bytes : List UInt8) : (encodeHex bytes).length = 2 * bytes.length := by
  induction bytes with
  | nil => rfl
  | cons b rest ih =>
    simp only [encodeHex, length_cons, ih]
    omega

theorem colon_not_mem_text (kind : EntryType) : ':' ∉ kind.text := by
  cases kind <;> decide

theorem entryText_inj {kind kind' : EntryType} (same : kind.text = kind'.text) :
    kind = kind' := by
  revert same
  cases kind <;> cases kind' <;> decide

/-- What is before the first colon. -/
theorem takeWhile_colon {front rest : Text} (none : ':' ∉ front) :
    (front ++ ':' :: rest).takeWhile (fun c => c ≠ ':') = front := by
  induction front with
  | nil => simp
  | cons c front ih =>
    obtain ⟨first, later⟩ := not_or.mp (fun h => none (mem_cons.mpr h))
    simp only [cons_append, takeWhile_cons]
    rw [if_pos (decide_eq_true (Ne.symm first)), ih later]

/-- A label of a kind, a subject and a rest determines its parts. -/
theorem label_inj {kind kind' : Text} {rest rest' : Text} (plain : ':' ∉ kind)
    (plain' : ':' ∉ kind') (same : kind ++ ':' :: (uuids.string subject ++ ':' :: rest) =
      kind' ++ ':' :: (uuids.string subject' ++ ':' :: rest')) :
    kind = kind' ∧ subject = subject' ∧ rest = rest' := by
  have kinds := congrArg (List.takeWhile fun c => decide (c ≠ ':')) same
  rw [takeWhile_colon plain, takeWhile_colon plain'] at kinds
  subst kinds
  have tails := (List.cons.inj (append_cancel_left same)).2
  obtain ⟨subjects, windows⟩ := append_inj tails (uuids.string_length subject subject')
  exact ⟨rfl, uuids.string_inj subjects, (List.cons.inj windows).2⟩

/-- The hashed text determines the kind, the subject and the hour. -/
theorem txnName_inj {kind kind' : EntryType} {window' : Time}
    (same : txnName uuids kind subject window = txnName uuids kind' subject' window') :
    kind = kind' ∧ subject = subject' ∧ window = window' := by
  obtain ⟨kinds, subjects, windows⟩ :=
    label_inj (colon_not_mem_text kind) (colon_not_mem_text kind') same
  exact ⟨entryText_inj kinds, subjects, Int.repr_inj.mp (String.toList_inj.mp windows)⟩

end Names

/-! ### What a step can do -/

section Inversion

variable {uuids : UuidPackage}

/-- A transaction under way: its header and all its legs, written or not. -/
abbrev OpenTxn := LedgerTxn × List LedgerEntry

def WindowState.open? : WindowState → Option OpenTxn
  | .inTxn _ _ _ header written left _ => some (header, written ++ left)
  | _ => none

def AccrualCall.open? : AccrualCall → Option OpenTxn
  | .accruing _ _ _ _ now => now.open?
  | _ => none

theorem AccrualCall.locks_eq (call : AccrualCall) :
    call.locks = call.open?.map fun txn => txn.1.txnId := by
  cases call with
  | accruing rates target window n now => cases now <;> rfl
  | _ => rfl

/-- The header is that of an accrual whose name was hashed, and these are its two legs. -/
def IsPosting (uuids : UuidPackage) (hashed : List Text) (txn : LedgerTxn)
    (rows : List LedgerEntry) : Prop :=
  ∃ subject window payer payee amount,
    txn.windowStart = some window ∧ txnName uuids txn.kind subject window ∈ hashed ∧
      txn.txnId = uuids.newSHA1 (txnName uuids txn.kind subject window) ∧
      rows = [{ txnId := txn.txnId, accountId := payer, amount := -amount,
                entryType := txn.kind },
              { txnId := txn.txnId, accountId := payee, amount := amount,
                entryType := txn.kind }]

theorem IsPosting.mono {hashed' : List Text} (posting : IsPosting uuids hashed txn rows)
    (more : hashed ⊆ hashed') : IsPosting uuids hashed' txn rows := by
  obtain ⟨subject, window, payer, payee, amount, atHour, named, derived, legs⟩ := posting
  exact ⟨subject, window, payer, payee, amount, atHour, more named, derived, legs⟩

theorem IsPosting.rows_txnId (posting : IsPosting uuids hashed txn rows) :
    ∀ e ∈ rows, e.txnId = txn.txnId := by
  obtain ⟨_, _, payer, payee, amount, -, -, -, rfl⟩ := posting
  simp

/-- What a step of a call does to the two ledger tables and to its own transaction. -/
inductive TxnEffect (uuids : UuidPackage) (ledger : LedgerDB) (locked : Uuid → Bool)
    (hashed : List Text) : Option OpenTxn → Option OpenTxn → LedgerDB → Prop
  | quiet {before : Option OpenTxn} {ledger' : LedgerDB} (txns : ledger'.txns = ledger.txns)
      (entries : ledger'.entries = ledger.entries) :
      TxnEffect uuids ledger locked hashed before none ledger'
  | opened {header : LedgerTxn} {rows : List LedgerEntry}
      (posting : IsPosting uuids hashed header rows) (free : locked header.txnId = false)
      (fresh : ∀ t ∈ ledger.txns, t.txnId ≠ header.txnId) :
      TxnEffect uuids ledger locked hashed none (some (header, rows)) ledger
  | kept {txn : Option OpenTxn} : TxnEffect uuids ledger locked hashed txn txn ledger
  | committed {header : LedgerTxn} {rows : List LedgerEntry} :
      TxnEffect uuids ledger locked hashed (some (header, rows)) none
        { ledger with txns := ledger.txns ++ [header], entries := ledger.entries ++ rows }

theorem LedgerDB.ensureAccount_tables {ledger' : LedgerDB} {key : AccountKey}
    {account : LedgerAccount} (ok : ledger.ensureAccount key id = .ok (account, ledger')) :
    ledger'.txns = ledger.txns ∧ ledger'.entries = ledger.entries := by
  rw [ensureAccount] at ok
  split at ok
  · cases ok
    exact ⟨rfl, rfl⟩
  · split at ok <;> cases ok
    exact ⟨rfl, rfl⟩

theorem Accrual.isPosting (a : Accrual) (window : Time) (account platform : Uuid)
    (hashed : List Text) :
    IsPosting uuids (hashed ++ [txnName uuids a.kind a.subject window])
      { txnId := uuids.newSHA1 (txnName uuids a.kind a.subject window), kind := a.kind,
        windowStart := some window }
      ((a.entries account platform).map
        (Entry.row (uuids.newSHA1 (txnName uuids a.kind a.subject window)))) := by
  have named : ∀ name : Text, name ∈ hashed ++ [name] := fun _ => mem_append_right _ mem_cons_self
  rw [Accrual.entries]
  split
  · exact ⟨a.subject, window, platform, account, a.amount, rfl, named _, rfl, rfl⟩
  · exact ⟨a.subject, window, platform, account, a.amount, rfl, named _, rfl, rfl⟩
  · exact ⟨a.subject, window, account, platform, a.amount, rfl, named _, rfl, rfl⟩

theorem WindowState.advance_effect {rates : Rates} {locked : Uuid → Bool} {now : WindowState}
    {out : WindowOutcome} (hashed : List Text)
    (moved : now.advance uuids rates window ledger locked m = some out) :
    TxnEffect uuids ledger locked (hashed ++ out.hashed) now.open?
      (out.now.bind WindowState.open?) out.ledger := by
  unfold WindowState.advance at moved
  repeat' first | split at moved | dsimp only at moved
  all_goals cases moved
  any_goals exact .kept
  · rename_i ok
    obtain ⟨txns, entries⟩ := LedgerDB.ensureAccount_tables ok
    exact .quiet txns entries
  · rename_i ok
    obtain ⟨txns, entries⟩ := LedgerDB.ensureAccount_tables ok
    exact .quiet txns entries
  · rename_i stage _ _
    cases stage <;> exact .kept
  · -- the header is not refused, waits for no other and is new
    rename_i allowed fresh
    refine .opened (Accrual.isPosting _ _ _ _ hashed) ?_ ?_
    · exact Bool.eq_false_iff.mpr (not_or.mp allowed).2
    · intro t member same
      exact fresh (any_eq_true.mpr ⟨t, member, decide_eq_true same⟩)
  · simp only [WindowState.open?, Option.bind_some, append_assoc, singleton_append]
    exact .kept
  · simp only [WindowState.open?, Option.bind_some, append_nil]
    exact .committed

/-- How a call and the watermark move on. -/
inductive Progress (watermark : Option Time) (completed : List Time) :
    AccrualMove → AccrualCall → AccrualCall → Option Time → List Time → Prop
  | quit {m : AccrualMove} {call : AccrualCall} :
      Progress watermark completed m call .done watermark completed
  | began {m : AccrualMove} {rates : Rates} {target : Time} :
      Progress watermark completed m (.started rates target)
        (.accruing rates target (catchUpStart target watermark) 0 .start) watermark completed
  | within {m : AccrualMove} {rates : Rates} {target window : Time} {n : Nat}
      {now now' : WindowState} :
      Progress watermark completed m (.accruing rates target window n now)
        (.accruing rates target window n now') watermark completed
  | finished {m : AccrualMove} {rates : Rates} {target window : Time} {n : Nat}
      {now : WindowState} :
      Progress watermark completed m (.accruing rates target window n now)
        (.storing rates target window n) watermark (completed ++ [window])
  | storedLast {rates : Rates} {target window : Time} {n : Nat} :
      Progress watermark completed .store (.storing rates target window n) .done
        (some (truncHour window)) completed
  | storedNext {rates : Rates} {target window : Time} {n : Nat} :
      Progress watermark completed .store (.storing rates target window n)
        (.accruing rates target (window + 3600) (n + 1) .start) (some (truncHour window)) completed

/-- The ids other calls have inserted and not committed. -/
def LedgerSystem.lockedBy (s : LedgerSystem) (i : Nat) (id : Uuid) : Bool :=
  (s.calls.eraseIdx i).any fun other => other.locks = some id

/-- The two kinds of steps. -/
inductive LedgerStepped (uuids : UuidPackage) (s : LedgerSystem) :
    AccrualEvent → LedgerSystem → Prop
  | catchUp {rates : Rates} {now : Time} :
      LedgerStepped uuids s (.catchUp rates now)
        { s with calls := s.calls ++ [.started rates (truncHour now - 3600)] }
  | move {i : Nat} {m : AccrualMove} {call call' : AccrualCall} {t : LedgerSystem}
      (here : s.calls[i]? = some call) (calls : t.calls = s.calls.set i call')
      (effect : TxnEffect uuids s.ledger (s.lockedBy i) t.hashed call.open? call'.open? t.ledger)
      (progress : Progress s.watermark s.completed m call call' t.watermark t.completed)
      (names : s.hashed ⊆ t.hashed) :
      LedgerStepped uuids s (.move i m) t

theorem ledgerStep_inv {s t : LedgerSystem} {e : AccrualEvent}
    (moved : s.step uuids e = some t) : LedgerStepped uuids s e t := by
  cases e with
  | catchUp rates now =>
    cases moved
    exact .catchUp
  | move i m =>
    obtain ⟨call, here, advanced⟩ := Option.bind_eq_some_iff.mp moved
    unfold LedgerSystem.advance at advanced
    repeat' first | split at advanced | dsimp only at advanced
    all_goals cases advanced
    · exact .move here rfl (.quiet rfl rfl) .quit (List.Subset.refl _)
    · exact .move here rfl (.quiet rfl rfl) .quit (List.Subset.refl _)
    · exact .move here rfl (.quiet rfl rfl) .began (List.Subset.refl _)
    · exact .move here rfl (WindowState.advance_effect s.hashed ‹_›) .within
        (subset_append_left _ _)
    · exact .move here rfl (WindowState.advance_effect s.hashed ‹_›) .finished
        (subset_append_left _ _)
    · exact .move here rfl (.quiet rfl rfl) .storedLast (List.Subset.refl _)
    · exact .move here rfl (.quiet rfl rfl) .storedNext (List.Subset.refl _)

end Inversion

/-! ### Posted once -/

section Once

variable {uuids : UuidPackage} {s t : LedgerSystem} {e : AccrualEvent}

/-- The open transaction of call `i`. -/
def LedgerSystem.openAt (s : LedgerSystem) (i : Nat) : Option OpenTxn :=
  s.calls[i]?.bind AccrualCall.open?

theorem LedgerSystem.openAt_set (here : s.calls[i]? = some call)
    (calls : t.calls = s.calls.set i call') (k : Nat) :
    t.openAt k = if k = i then call'.open? else s.openAt k := by
  rw [openAt, calls]
  split
  · rename_i same
    rw [same, getElem?_set_here here]
    rfl
  · rename_i differs
    rw [getElem?_set_ne (Ne.symm differs)]
    rfl

theorem LedgerSystem.openAt_append {calls : List AccrualCall} (closed : call.open? = none) (k : Nat)
    : (calls ++ [call])[k]?.bind AccrualCall.open? = calls[k]?.bind AccrualCall.open? := by
  rw [getElem?_append]
  split
  · rfl
  · rename_i beyond
    rw [getElem?_eq_none (not_lt.mp beyond)]
    cases found : [call][k - calls.length]? with
    | none => rfl
    | some other =>
      rw [mem_singleton.mp (mem_of_getElem? found)]
      exact closed

/-- An id that is not locked is not that of another call's transaction. -/
theorem LedgerSystem.lockedBy_false {j : Nat} {txn : OpenTxn} (free : s.lockedBy i id = false)
    (differs : j ≠ i) (open_ : s.openAt j = some txn) : txn.1.txnId ≠ id := by
  intro same
  obtain ⟨call, there, opened⟩ := Option.bind_eq_some_iff.mp open_
  rw [lockedBy, any_eq_false] at free
  refine free call (mem_eraseIdx_iff_getElem?.mpr ⟨j, differs, there⟩) ?_
  rw [AccrualCall.locks_eq, opened, ← same]
  simp

/-- The header rows are keyed; each comes with both its legs, and no leg without it; open
transactions are accruals too, and two of them never have one id. -/
structure LedgerInv (uuids : UuidPackage) (s : LedgerSystem) : Prop where
  txn_pk : UniqueOn LedgerTxn.txnId s.ledger.txns
  whole : ∀ txn ∈ s.ledger.txns, IsPosting uuids s.hashed txn (s.ledger.legsOf txn.txnId)
  entry_txn : ∀ e ∈ s.ledger.entries, ∃ txn ∈ s.ledger.txns, txn.txnId = e.txnId
  posting : ∀ i txn, s.openAt i = some txn → IsPosting uuids s.hashed txn.1 txn.2
  fresh : ∀ i txn, s.openAt i = some txn → ∀ other ∈ s.ledger.txns, other.txnId ≠ txn.1.txnId
  apart : ∀ i j txn txn', i ≠ j → s.openAt i = some txn → s.openAt j = some txn' →
    txn.1.txnId ≠ txn'.1.txnId

theorem LedgerInv.init : LedgerInv uuids .init := by
  constructor <;> simp [LedgerSystem.init, LedgerDB.empty, UniqueOn, LedgerSystem.openAt]

/-- Nothing is committed, and call `i` has no transaction or keeps the one it had. -/
theorem LedgerInv.unchanged (inv : LedgerInv uuids s) (txns : t.ledger.txns = s.ledger.txns)
    (entries : t.ledger.entries = s.ledger.entries) (names : s.hashed ⊆ t.hashed)
    (fewer : ∀ i txn, t.openAt i = some txn → s.openAt i = some txn) : LedgerInv uuids t where
  txn_pk := txns ▸ inv.txn_pk
  whole txn member := by
    rw [LedgerDB.legsOf, entries]
    exact (inv.whole txn (txns ▸ member)).mono names
  entry_txn e member := by
    rw [txns]
    exact inv.entry_txn e (entries ▸ member)
  posting i txn open_ := (inv.posting i txn (fewer i txn open_)).mono names
  fresh i txn open_ := by
    rw [txns]
    exact inv.fresh i txn (fewer i txn open_)
  apart i j txn txn' differs open_ open' :=
    inv.apart i j txn txn' differs (fewer i txn open_) (fewer j txn' open')

/-- Call `i` has inserted a header whose id is neither known nor locked. -/
theorem LedgerInv.opened (inv : LedgerInv uuids s) (ledger : t.ledger = s.ledger)
    (names : s.hashed ⊆ t.hashed) {txn : OpenTxn} (posting : IsPosting uuids t.hashed txn.1 txn.2)
    (free : s.lockedBy i txn.1.txnId = false)
    (fresh : ∀ other ∈ s.ledger.txns, other.txnId ≠ txn.1.txnId)
    (opens : ∀ k, t.openAt k = if k = i then some txn else s.openAt k) : LedgerInv uuids t where
  txn_pk := ledger ▸ inv.txn_pk
  whole other member := by
    rw [ledger] at member ⊢
    exact (inv.whole other member).mono names
  entry_txn := ledger ▸ inv.entry_txn
  posting k other open_ := by
    rw [opens] at open_
    split at open_
    · cases open_
      exact posting
    · exact (inv.posting k other open_).mono names
  fresh k other open_ := by
    rw [ledger]
    rw [opens] at open_
    split at open_
    · cases open_
      exact fresh
    · exact inv.fresh k other open_
  apart k l one two differs open_ open' := by
    rw [opens] at open_ open'
    split at open_ <;> split at open'
    · rename_i first second
      exact absurd (first.trans second.symm) differs
    · rename_i second
      cases open_
      exact (LedgerSystem.lockedBy_false free second open').symm
    · rename_i first _
      cases open'
      exact LedgerSystem.lockedBy_false free first open_
    · exact inv.apart k l one two differs open_ open'

/-- Call `i` commits: its header and both legs appear together. -/
theorem LedgerInv.committed (inv : LedgerInv uuids s) {i : Nat} {header : LedgerTxn}
    {rows : List LedgerEntry} (open_ : s.openAt i = some (header, rows))
    (ledger : t.ledger = { s.ledger with txns := s.ledger.txns ++ [header]
                                         entries := s.ledger.entries ++ rows })
    (names : s.hashed ⊆ t.hashed)
    (opens : ∀ k, t.openAt k = if k = i then none else s.openAt k) : LedgerInv uuids t := by
  have posting := inv.posting i _ open_
  have new := inv.fresh i _ open_
  have older : ∀ k txn, t.openAt k = some txn → k ≠ i ∧ s.openAt k = some txn := by
    intro k txn opened
    rw [opens] at opened
    split at opened
    · cases opened
    · exact ⟨‹_›, opened⟩
  constructor
  · rw [ledger]
    exact inv.txn_pk.append_singleton new
  · intro txn member
    rw [ledger] at member ⊢
    simp only [LedgerDB.legsOf, filter_append]
    rcases mem_append_row.mp member with old | rfl
    · -- the new legs are not of an older transaction
      have none_new : rows.filter (fun e => decide (e.txnId = txn.txnId)) = [] := by
        rw [filter_eq_nil_iff]
        intro e leg same
        rw [posting.rows_txnId e leg] at same
        exact new txn old (of_decide_eq_true same).symm
      rw [none_new, append_nil]
      exact (inv.whole txn old).mono names
    · have none_old : s.ledger.entries.filter (fun e => decide (e.txnId = txn.txnId)) = [] := by
        rw [filter_eq_nil_iff]
        intro e leg same
        obtain ⟨other, known, sameId⟩ := inv.entry_txn e leg
        exact new other known (sameId.trans (of_decide_eq_true same))
      have all_new : rows.filter (fun e => decide (e.txnId = txn.txnId)) = rows := by
        rw [filter_eq_self]
        exact fun e leg => decide_eq_true (posting.rows_txnId e leg)
      rw [none_old, all_new, nil_append]
      exact posting.mono names
  · intro e member
    rw [ledger] at member ⊢
    rcases mem_append.mp member with old | leg
    · obtain ⟨txn, known, same⟩ := inv.entry_txn e old
      exact ⟨txn, mem_append_left _ known, same⟩
    · exact ⟨header, mem_append_right _ mem_cons_self, (posting.rows_txnId e leg).symm⟩
  · intro k txn opened
    exact (inv.posting k txn (older k txn opened).2).mono names
  · intro k txn opened other member
    obtain ⟨differs, before⟩ := older k txn opened
    rw [ledger] at member
    rcases mem_append_row.mp member with old | rfl
    · exact inv.fresh k txn before other old
    · exact (inv.apart k i txn _ differs before open_).symm
  · intro k l one two differs opened opened'
    exact inv.apart k l one two differs (older k one opened).2 (older l two opened').2

theorem LedgerInv.step (inv : LedgerInv uuids s) (moved : s.step uuids e = some t) :
    LedgerInv uuids t := by
  cases ledgerStep_inv moved with
  | catchUp =>
    refine inv.unchanged rfl rfl (List.Subset.refl _) fun i txn opened => ?_
    rw [LedgerSystem.openAt, LedgerSystem.openAt_append rfl] at opened
    exact opened
  | @move i m call call' _ here calls effect progress names =>
    have opens := LedgerSystem.openAt_set here calls
    have before : s.openAt i = call.open? := by rw [LedgerSystem.openAt, here]; rfl
    generalize call.open? = old at effect before
    generalize call'.open? = new at effect opens
    generalize result : t.ledger = ledger' at effect
    cases effect with
    | quiet txns entries =>
      refine inv.unchanged (result ▸ txns) (result ▸ entries) names fun k txn opened => ?_
      rw [opens] at opened
      split at opened
      · cases opened
      · exact opened
    | opened posting free fresh => exact inv.opened result names posting free fresh opens
    | kept =>
      refine inv.unchanged (by rw [result]) (by rw [result]) names fun k txn opened => ?_
      rw [opens] at opened
      split at opened
      · rename_i same
        rw [same, before]
        exact opened
      · exact opened
    | committed => exact inv.committed before result names opens

/-- No transaction without its key, at most one for a key, with its two legs or, like
them, absent. -/
structure ExactlyOnce (uuids : UuidPackage) (s : LedgerSystem) : Prop where
  keyed : ∀ txn ∈ s.ledger.txns, ∃ subject window,
    txn.windowStart = some window ∧ txnName uuids txn.kind subject window ∈ s.hashed ∧
      txn.txnId = uuids.newSHA1 (txnName uuids txn.kind subject window)
  once : ∀ kind subject window, txnName uuids kind subject window ∈ s.hashed →
    (s.ledger.txns.filter fun txn =>
      txn.txnId = uuids.newSHA1 (txnName uuids kind subject window)).length ≤ 1
  whole : ∀ kind subject window, txnName uuids kind subject window ∈ s.hashed →
    ∀ txn ∈ s.ledger.txns, txn.txnId = uuids.newSHA1 (txnName uuids kind subject window) →
      txn.kind = kind ∧ txn.windowStart = some window ∧
        ∃ payer payee amount, s.ledger.legsOf txn.txnId =
          [{ txnId := txn.txnId, accountId := payer, amount := -amount, entryType := kind },
            { txnId := txn.txnId, accountId := payee, amount := amount, entryType := kind }]
  absent : ∀ id, (∀ txn ∈ s.ledger.txns, txn.txnId ≠ id) → s.ledger.legsOf id = []

theorem LedgerInv.exactlyOnce (inv : LedgerInv uuids s)
    (injective : Set.InjOn uuids.newSHA1 { name | name ∈ s.hashed }) : ExactlyOnce uuids s where
  keyed txn member := by
    obtain ⟨subject, window, _, _, _, atHour, named, derived, -⟩ := inv.whole txn member
    exact ⟨subject, window, atHour, named, derived⟩
  once kind subject window _ := by
    rw [← countP_eq_length_filter]
    refine countP_le_one inv.txn_pk.nodup fun a member b member' same same' => ?_
    exact inv.txn_pk.eq_of_key member member'
      ((of_decide_eq_true same).trans (of_decide_eq_true same').symm)
  whole kind subject window named txn member same := by
    obtain ⟨subject', window', payer, payee, amount, atHour, named', derived, legs⟩ :=
      inv.whole txn member
    -- the only use of the hash: the key of the row is the key asked for
    obtain ⟨rfl, rfl, rfl⟩ := txnName_inj (injective named named' (same.symm.trans derived))
    exact ⟨rfl, atHour, payer, payee, amount, legs⟩
  absent id none_ := by
    rw [LedgerDB.legsOf, filter_eq_nil_iff]
    intro leg member same
    obtain ⟨txn, known, sameId⟩ := inv.entry_txn leg member
    exact none_ txn known (sameId.trans (of_decide_eq_true same))

end Once

/-! ### No hour is skipped -/

section Hours

variable {uuids : UuidPackage} {s t : LedgerSystem} {e : AccrualEvent}

theorem truncHour_dvd (now : Time) : 3600 ∣ truncHour now := ⟨now / 3600, Int.mul_comm _ _⟩

theorem truncHour_of_dvd {now : Time} (aligned : 3600 ∣ now) : truncHour now = now :=
  Int.ediv_mul_cancel aligned

theorem lt_nextHour {first window : Int} (low : first ≤ window) : first < window + 3600 := by
  omega

theorem le_of_lt_nextHour {h window : Int} (hour : 3600 ∣ h) (hour' : 3600 ∣ window)
    (below : h < window + 3600) : h ≤ window := by
  omega

/-- A call works on full hours, and stores one only after its `AccrueWindow`. -/
def AccrualCall.Hours (completed : List Time) : AccrualCall → Prop
  | .started _ target => 3600 ∣ target
  | .accruing _ _ window _ _ => 3600 ∣ window
  | .storing _ _ window _ => 3600 ∣ window ∧ window ∈ completed
  | .done => True

/-- The hours up to `window` that a call has seen accrued, from `first` on. -/
def AccrualCall.Covers (first : Time) (completed : List Time) : AccrualCall → Prop
  | .accruing _ _ window _ _ =>
    first < window ∧ ∀ h, 3600 ∣ h → first ≤ h → h < window → h ∈ completed
  | .storing _ _ window _ =>
    first ≤ window ∧ ∀ h, 3600 ∣ h → first ≤ h → h ≤ window → h ∈ completed
  | _ => True

structure HoursInv (s : LedgerSystem) : Prop where
  watermark : ∀ w, s.watermark = some w → 3600 ∣ w ∧ w ∈ s.completed
  calls : ∀ call ∈ s.calls, call.Hours s.completed

/-- Every hour from `first` to the stored watermark has been accrued. -/
def Covered (first : Time) (s : LedgerSystem) : Prop :=
  ∀ w, s.watermark = some w → ∀ h, 3600 ∣ h → first ≤ h → h ≤ w → h ∈ s.completed

/-- After the watermark `first` was stored, for the calls from index `start` on. -/
structure CoverInv (first : Time) (start : Nat) (s : LedgerSystem) : Prop where
  hours : HoursInv s
  stored : ∃ w, s.watermark = some w ∧ first ≤ w
  covered : Covered first s
  calls : ∀ i call, start ≤ i → s.calls[i]? = some call → call.Covers first s.completed

theorem HoursInv.init : HoursInv .init := by
  constructor <;> simp [LedgerSystem.init]

theorem AccrualCall.Hours.mono (more : completed ⊆ completed') (hours : call.Hours completed) :
    call.Hours completed' := by
  cases call with
  | storing _ _ window _ => exact ⟨hours.1, more hours.2⟩
  | _ => exact hours

theorem AccrualCall.Covers.mono (more : completed ⊆ completed')
    (covers : call.Covers first completed) : call.Covers first completed' := by
  cases call with
  | accruing => exact ⟨covers.1, fun h hour low high => more (covers.2 h hour low high)⟩
  | storing => exact ⟨covers.1, fun h hour low high => more (covers.2 h hour low high)⟩
  | _ => trivial

theorem Progress.completed_subset
    (progress : Progress watermark completed m call call' watermark' completed') :
    completed ⊆ completed' := by
  cases progress with
  | finished => exact subset_append_left _ _
  | _ => exact List.Subset.refl _

/-- What a call's step does to its hours. -/
theorem Progress.hours (progress : Progress watermark completed m call call' watermark' completed')
    (stored : ∀ w, watermark = some w → 3600 ∣ w ∧ w ∈ completed) (hours : call.Hours completed) :
    call'.Hours completed' ∧ ∀ w, watermark' = some w → 3600 ∣ w ∧ w ∈ completed' := by
  cases progress with
  | quit => exact ⟨trivial, stored⟩
  | @began _ _ target =>
    refine ⟨?_, stored⟩
    cases watermark with
    | none => exact hours
    | some last => exact (Int.dvd_add (truncHour_dvd last) (Int.dvd_refl 3600))
  | within => exact ⟨hours, stored⟩
  | @finished _ _ _ window _ _ =>
    refine ⟨⟨hours, mem_append_right _ mem_cons_self⟩, fun w isStored => ?_⟩
    exact ⟨(stored w isStored).1, mem_append_left _ (stored w isStored).2⟩
  | storedLast =>
    refine ⟨trivial, fun w isStored => ?_⟩
    rw [truncHour_of_dvd hours.1] at isStored
    cases isStored
    exact hours
  | storedNext =>
    refine ⟨Int.dvd_add hours.1 (Int.dvd_refl 3600), fun w isStored => ?_⟩
    rw [truncHour_of_dvd hours.1] at isStored
    cases isStored
    exact hours

theorem HoursInv.step (inv : HoursInv s) (moved : s.step uuids e = some t) : HoursInv t := by
  cases ledgerStep_inv moved with
  | @catchUp rates now =>
    refine ⟨inv.watermark, fun call member => ?_⟩
    rcases mem_append_row.mp member with old | rfl
    · exact inv.calls call old
    · exact Int.dvd_sub (truncHour_dvd now) (Int.dvd_refl 3600)
  | move here calls effect progress names =>
    obtain ⟨hours, stored⟩ :=
      progress.hours inv.watermark (inv.calls _ (mem_of_getElem? here))
    refine ⟨stored, fun call member => ?_⟩
    rw [calls] at member
    rcases mem_or_eq_of_mem_set member with old | rfl
    · exact (inv.calls call old).mono progress.completed_subset
    · exact hours

/-- The call that stores a watermark in this step. -/
def AccrualEvent.stores? : AccrualEvent → Option Nat
  | .move i .store => some i
  | _ => none

/-- Only calls from index `start` on store a watermark. -/
def NewCallsStore (start : Nat) (_ : LedgerSystem) (e : AccrualEvent) (_ : LedgerSystem) : Prop :=
  ∀ i ∈ e.stores?, start ≤ i
deriving Decidable

/-- What a new call's step does to the hours it covers. -/
theorem Progress.covers (progress : Progress watermark completed m call call' watermark' completed')
    (hours : call.Hours completed) (stored : ∃ w, watermark = some w ∧ 3600 ∣ w ∧ first ≤ w)
    (covered : ∀ w, watermark = some w → ∀ h, 3600 ∣ h → first ≤ h → h ≤ w → h ∈ completed)
    (covers : call.Covers first completed) :
    call'.Covers first completed' ∧ (∃ w, watermark' = some w ∧ first ≤ w) ∧
      ∀ w, watermark' = some w → ∀ h, 3600 ∣ h → first ≤ h → h ≤ w → h ∈ completed' := by
  obtain ⟨w, isStored, aligned, low⟩ := stored
  cases progress with
  | quit => exact ⟨trivial, ⟨w, isStored, low⟩, covered⟩
  | began =>
    -- the call starts right after the watermark it has read
    subst isStored
    refine ⟨?_, ⟨w, rfl, low⟩, covered⟩
    simp only [AccrualCall.Covers, catchUpStart, truncHour_of_dvd aligned]
    exact ⟨lt_nextHour low, fun h hour above below =>
      covered w rfl h hour above (le_of_lt_nextHour hour aligned below)⟩
  | within => exact ⟨covers, ⟨w, isStored, low⟩, covered⟩
  | @finished _ _ _ window _ _ =>
    refine ⟨⟨covers.1.le, fun h hour above below => ?_⟩, ⟨w, isStored, low⟩,
      fun w' stored' h hour above below =>
        mem_append_left _ (covered w' stored' h hour above below)⟩
    rcases lt_or_eq_of_le below with earlier | same
    · exact mem_append_left _ (covers.2 h hour above earlier)
    · exact same ▸ mem_append_right _ mem_cons_self
  | @storedLast _ _ window _ =>
    rw [truncHour_of_dvd hours.1]
    refine ⟨trivial, ⟨window, rfl, covers.1⟩, fun w' stored' => ?_⟩
    cases stored'
    exact covers.2
  | @storedNext _ _ window _ =>
    rw [truncHour_of_dvd hours.1]
    refine ⟨⟨lt_nextHour covers.1, fun h hour above below => ?_⟩,
      ⟨window, rfl, covers.1⟩, fun w' stored' => ?_⟩
    · exact covers.2 h hour above (le_of_lt_nextHour hour hours.1 below)
    · cases stored'
      exact covers.2

/-- An older call may do anything but store. -/
theorem Progress.watermark_kept
    (progress : Progress watermark completed m call call' watermark' completed')
    (notStore : m ≠ .store) : watermark' = watermark := by
  cases progress with
  | storedLast | storedNext => exact absurd rfl notStore
  | _ => rfl

theorem CoverInv.step {start : Nat} (inv : CoverInv first start s) (moved : s.step uuids e = some t)
    (new : NewCallsStore start s e t) : CoverInv first start t := by
  have hours := inv.hours.step moved
  obtain ⟨w, isStored, low⟩ := inv.stored
  cases ledgerStep_inv moved with
  | @catchUp rates now =>
    refine ⟨hours, ⟨w, isStored, low⟩, inv.covered, fun i call later current => ?_⟩
    rcases getElem?_append_inv current with current | ⟨-, rfl⟩
    · exact inv.calls i call later current
    · trivial
  | @move i m call call' _ here calls effect progress names =>
    have more := progress.completed_subset
    have others : ∀ k other, k ≠ i → start ≤ k → t.calls[k]? = some other →
        other.Covers first t.completed := by
      intro k other differs later current
      rw [calls, getElem?_set_ne (Ne.symm differs)] at current
      exact (inv.calls k other later current).mono more
    by_cases later : start ≤ i
    · obtain ⟨covers, stored, covered⟩ := progress.covers
        (inv.hours.calls call (mem_of_getElem? here))
        ⟨w, isStored, (inv.hours.watermark w isStored).1, low⟩ inv.covered
        (inv.calls i call later here)
      refine ⟨hours, stored, covered, fun k other later' current => ?_⟩
      by_cases same : k = i
      · rw [same, calls, getElem?_set_here here] at current
        cases current
        exact covers
      · exact others k other same later' current
    · have kept : t.watermark = s.watermark := by
        refine progress.watermark_kept fun stores => later (new i ?_)
        rw [stores]
        exact rfl
      refine ⟨hours, ⟨w, kept.trans isStored, low⟩, ?_, fun k other later' current => ?_⟩
      · intro w' stored' h hour above below
        rw [kept] at stored'
        exact more (inv.covered w' stored' h hour above below)
      · exact others k other (fun same => later (same ▸ later')) later' current

/-- In every run of any number of accruers every accrual is posted once, if the hash is
injective on the texts it was given; and after a first watermark, however calls that start
later interleave, fail or store older hours, every hour up to the stored one has been
accrued. -/
theorem accrual_exactly_once (uuids : UuidPackage) (before later : List AccrualEvent) :
    EveryState (LedgerSystem.step uuids)
      (fun s => Set.InjOn uuids.newSHA1 { name | name ∈ s.hashed } → ExactlyOnce uuids s) .init
      (before ++ later) ∧
    ∀ s w₀, exec (LedgerSystem.step uuids) .init before = some s → s.watermark = some w₀ →
      EveryStep (LedgerSystem.step uuids) (NewCallsStore s.calls.length) s later →
        EveryState (LedgerSystem.step uuids) (Covered w₀) s later := by
  constructor
  · refine EveryState.mono (P := LedgerInv uuids) (fun s inv => inv.exactlyOnce) ?_
    exact EveryState.of_step (fun _ _ _ inv moved _ => inv.step moved) LedgerInv.init
      EveryStep.unguarded
  · intro s w₀ reached stored new
    have hours : HoursInv s :=
      exec_induction (fun _ _ _ inv moved => inv.step moved) HoursInv.init reached
    have start : CoverInv w₀ s.calls.length s := by
      refine ⟨hours, ⟨w₀, stored, le_refl w₀⟩, ?_, fun i call beyond current => ?_⟩
      · intro w isStored h _ low high
        rw [stored] at isStored
        cases isStored
        rw [le_antisymm high low]
        exact (hours.watermark w₀ stored).2
      · rw [getElem?_eq_none beyond] at current
        cases current
    refine EveryState.mono (P := CoverInv w₀ s.calls.length) (fun _ inv => inv.covered) ?_
    exact EveryState.of_step (fun _ _ _ inv moved fresh => inv.step moved fresh) start new

end Hours

namespace Sample

/-- Stands in for the uuid package: a UUID is written as its bits. -/
def uuids (newSHA1 : Text → Uuid) : UuidPackage where
  newSHA1 := newSHA1
  string id := (List.range 128).map fun i => if id.getLsbD i then '1' else '0'
  string_inj {id id'} same := by
    refine BitVec.eq_of_getLsbD_eq fun i inside => ?_
    have bit := map_inj_left.mp same i (mem_range.mpr inside)
    cases one : id.getLsbD i <;> cases other : id'.getLsbD i <;> simp [one, other] at bit ⊢
  string_length id id' := by simp

/-- Stands in for the hash. -/
def textNumber : UuidPackage :=
  uuids fun text => BitVec.ofNat 128 (text.foldl (fun acc c => acc * 131 + c.toNat) 7)

def billed : Rates := defaultRates ⟨none, none, none, none⟩

/-- An `AccrueWindow` in which one customer stores a gigabyte. -/
def hourMoves (posts : List AccrualMove) : List AccrualMove :=
  .ensure 1 :: .readStored [{ ownerId := 9, sizeBytes := 1000000000 }] :: .ensure 2 ::
    .insertHeader :: posts.append [.next, .readHeld [] fun _ => (1, 1), .next, .readEgress [],
      .next, .readServed [] fun _ => (1, 1), .next]

def accrueHour (i : Nat) (posts : List AccrualMove) : List AccrualEvent :=
  (hourMoves posts).map (AccrualEvent.move i)

/-- A `CatchUp` for a single hour, which returns nil. -/
def wholeHour (i : Nat) (now : Time) (posts : List AccrualMove) : List AccrualEvent :=
  .catchUp billed now :: .move i .readWatermark :: (accrueHour i posts).concat (.move i .store)

/-- The first hour; the watermark is stored. -/
def firstHour : List AccrualEvent := wholeHour 0 7210 [.insertLeg, .insertLeg, .commit]

/-- Two instances see the same watermark.  The faster one accrues two hours; then the
slower one finds the first of them posted and moves the watermark back. -/
def twoInstances : List AccrualEvent :=
  .catchUp billed 14405 :: .catchUp billed 14410 :: .move 1 .readWatermark ::
    .move 2 .readWatermark :: List.flatten
      [accrueHour 1 [.insertLeg, .insertLeg, .commit], [.move 1 .store],
        accrueHour 1 [.insertLeg, .insertLeg, .commit], [.move 1 .store],
        accrueHour 2 [], [.move 2 .store]]

end Sample

open Sample

theorem twoInstances_once :
    ∃ s t, exec (LedgerSystem.step textNumber) .init firstHour = some s ∧
      exec (LedgerSystem.step textNumber) s twoInstances = some t ∧
      t.ledger.txns.length = 3 ∧ t.watermark = some 7200 ∧ t.completed = [3600, 7200, 10800, 7200] ∧
      ExactlyOnce textNumber t ∧
      EveryState (LedgerSystem.step textNumber) (Covered 3600) s twoInstances := by
  have ran : ((exec (LedgerSystem.step textNumber) .init firstHour).bind fun s =>
      (exec (LedgerSystem.step textNumber) s twoInstances).map fun t =>
        decide (s.watermark = some 3600 ∧
          EveryStep (LedgerSystem.step textNumber) (NewCallsStore s.calls.length) s
            twoInstances ∧
          t.ledger.txns.length = 3 ∧ t.watermark = some 7200 ∧
          t.completed = [3600, 7200, 10800, 7200] ∧
          (t.hashed.dedup.map textNumber.newSHA1).Nodup)) = some true := by
    decide +kernel
  simp only [Option.bind_eq_some_iff, Option.map_eq_some_iff, decide_eq_true_eq] at ran
  obtain ⟨s, reached, t, ran, stored, new, three, back, completed, apart⟩ := ran
  obtain ⟨once, covered⟩ :=
    accrual_exactly_once textNumber firstHour twoInstances
  have whole : exec (LedgerSystem.step textNumber) .init (firstHour ++ twoInstances) = some t := by
    rw [exec_append, reached]
    exact ran
  refine ⟨s, t, reached, ran, three, back, completed, once.last whole ?_,
    covered s 3600 reached stored new⟩
  intro a known b known' same
  exact inj_on_of_nodup_map apart (mem_dedup.mpr known) (mem_dedup.mpr known') same

end StoragePlatform
