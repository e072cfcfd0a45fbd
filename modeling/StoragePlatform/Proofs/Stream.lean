/-
Module: StoragePlatform.Proofs.Stream
Purpose: The encrypted stream as a list of sealed segments: what the streaming
  loops compute, and that only the ciphertext itself decrypts.
Trusted boundary: none
Main exports: segments, sealAll, openAll, encrypt_written, decrypt_authentic
-/
import StoragePlatform.Lib.Blocks
import StoragePlatform.Pipeline.Crypt

namespace StoragePlatform

open Lib List

variable {size : Nat} {fk got src plain noncePrefix : Bytes} {rest parts before : List Bytes}
variable {gcm : Bytes → Aead} {sha256 : Bytes → Bytes} {seq : UInt64} {more : Bool} {aead : Aead}

/-! ### Reads and blocks -/

theorem readFull_full {rest : Bytes} (positive : 0 < size)
    (read : readFull size src = (got, none, rest)) : blocks size src = got :: blocks size rest := by
  simp only [readFull] at read
  split at read
  · rename_i whole
    cases read
    refine blocks_of_ne_nil positive ?_
    rintro rfl
    rw [take_nil, length_nil] at whole
    omega
  · split at read <;> cases read

theorem readFull_short {rest : Bytes} (positive : 0 < size)
    (read : readFull size src = (got, some .unexpectedEOF, rest)) :
    blocks size src = [got] ∧ got ≠ [] := by
  simp only [readFull] at read
  split at read
  · cases read
  rename_i partial_read
  split at read <;> cases read
  rename_i some_data
  have short : src.length < size := by
    rw [length_take] at partial_read
    omega
  have src_some : src ≠ [] := by
    rintro rfl
    exact some_data take_nil
  refine ⟨?_, some_data⟩
  rw [blocks_of_ne_nil positive src_some, drop_of_length_le short.le, blocks_nil]

theorem readFull_eof {rest : Bytes} (positive : 0 < size)
    (read : readFull size src = (got, some .eof, rest)) : src = [] ∧ got = [] := by
  simp only [readFull] at read
  split at read
  · cases read
  split at read <;> cases read
  rename_i nothing
  refine ⟨?_, nothing⟩
  rcases take_eq_nil_iff.mp nothing with zero | empty
  · omega
  · exact empty

/-! ### The stream -/

/-- The plaintext segments of a file: its blocks, or one empty segment. -/
def segments (plain : Bytes) : List Bytes :=
  if plain = [] then [[]] else blocks segmentSize plain

/-- A call of `Seal`. -/
structure SealCall where
  nonce : Bytes
  plain : Bytes
  aad : Bytes
deriving DecidableEq, Repr

def SealCall.sealed (aead : Aead) (call : SealCall) : Bytes :=
  aead.sealBytes call.nonce call.plain call.aad

/-- The call for segment `seq`, which is not the last when `more` holds. -/
def sealCall (noncePrefix : Bytes) (seq : UInt64) (plain : Bytes) (more : Bool) : SealCall where
  nonce := segmentNonce noncePrefix seq
  plain := plain
  aad := aad seq more

@[simp] theorem sealCall_plain (noncePrefix : Bytes) (seq : UInt64) (plain : Bytes) (more : Bool) :
    (sealCall noncePrefix seq plain more).plain = plain := rfl

/-- The calls for a list of segments, numbered from `seq` on. -/
def sealCalls (noncePrefix : Bytes) : UInt64 → List Bytes → List SealCall
  | _, [] => []
  | seq, plain :: rest =>
    sealCall noncePrefix seq plain (!rest.isEmpty) :: sealCalls noncePrefix (seq + 1) rest

def sealAll (aead : Aead) (noncePrefix : Bytes) (seq : UInt64) (parts : List Bytes) : List Bytes :=
  (sealCalls noncePrefix seq parts).map (SealCall.sealed aead)

/-- Opening a list of sealed segments, numbered from `seq` on. -/
def openAll (aead : Aead) (noncePrefix : Bytes) :
    UInt64 → List Bytes → Except PipelineErr Unit × Bytes
  | _, [] => (.error .truncated, [])
  | seq, [sealed] => openLast aead noncePrefix seq sealed []
  | seq, sealed :: rest =>
    match openSegment aead noncePrefix seq sealed true with
    | .error e => (.error e, [])
    | .ok plain =>
      let later := openAll aead noncePrefix (seq + 1) rest
      (later.1, plain ++ later.2)

@[simp] theorem sealAll_nil (aead : Aead) (noncePrefix : Bytes) (seq : UInt64) :
    sealAll aead noncePrefix seq [] = [] := rfl

theorem sealAll_cons (aead : Aead) (noncePrefix : Bytes) (seq : UInt64) (plain : Bytes)
    (rest : List Bytes) :
    sealAll aead noncePrefix seq (plain :: rest) =
      (sealCall noncePrefix seq plain (!rest.isEmpty)).sealed aead ::
        sealAll aead noncePrefix (seq + 1) rest := rfl

section Refinement

/-- What the loop has still to seal: the block in hand and the rest of the source. -/
def Sealing.toSeal (s : Sealing) (src : Bytes) : List Bytes :=
  match s.pending with
  | none => segments src
  | some plain => plain :: blocks segmentSize src

theorem encryptLoop_written (s : Sealing) (src : Bytes) (start : s.pending = none → s.seq = 0) :
    (encryptLoop aead noncePrefix s src).written =
      s.written ++ (sealAll aead noncePrefix s.seq (s.toSeal src)).flatten := by
  have positive : 0 < segmentSize := by decide
  fun_induction encryptLoop aead noncePrefix s src with
  | case1 s src got rest read ih =>
    have cut := readFull_full positive read
    have src_some : src ≠ [] := by
      rintro rfl
      rw [blocks_nil] at cut
      cases cut
    have some_data : got ≠ [] := by
      have framed := blocks_framed positive src
      rw [cut] at framed
      exact framed.head_ne_nil positive
    rw [ih (by simp [Sealing.next, some_data])]
    cases pending : s.pending with
    | none => simp [Sealing.next, Sealing.toSeal, some_data, pending, segments, src_some, cut]
    | some plain =>
      simp [Sealing.next, Sealing.toSeal, some_data, pending, cut, writeSeg, sealAll_cons, sealCall,
        SealCall.sealed]
  | case2 s src got err rest read =>
    cases err with
    | eof =>
      obtain ⟨rfl, rfl⟩ := readFull_eof positive read
      cases pending : s.pending with
      | none =>
        simp [Sealing.next, Sealing.finish, Sealing.toSeal, segments, pending, start pending,
          writeSeg, sealAll_cons, sealCall, SealCall.sealed]
      | some plain =>
        simp [Sealing.next, Sealing.finish, Sealing.toSeal, pending, writeSeg, sealAll_cons,
          sealCall, SealCall.sealed]
    | unexpectedEOF =>
      obtain ⟨one, some_data⟩ := readFull_short positive read
      have src_some : src ≠ [] := by
        rintro rfl
        rw [blocks_nil] at one
        cases one
      cases pending : s.pending <;>
        simp [Sealing.next, Sealing.finish, Sealing.toSeal, segments, src_some, one, some_data,
          pending, writeSeg, sealAll_cons, sealCall, SealCall.sealed]

theorem openLast_eq (seq : UInt64) (sealed written : Bytes) :
    openLast aead noncePrefix seq sealed written =
      ((openLast aead noncePrefix seq sealed []).1,
        written ++ (openLast aead noncePrefix seq sealed []).2) := by
  simp only [openLast]
  split <;> simp

theorem openAll_cons_cons (seq : UInt64) (sealed sealed' : Bytes) (rest : List Bytes) :
    openAll aead noncePrefix seq (sealed :: sealed' :: rest) =
      match openSegment aead noncePrefix seq sealed true with
      | .error e => (.error e, [])
      | .ok plain =>
        ((openAll aead noncePrefix (seq + 1) (sealed' :: rest)).1,
          plain ++ (openAll aead noncePrefix (seq + 1) (sealed' :: rest)).2) := rfl

/-- The loop of `Decrypt` opens the block in hand and those of the source. -/
theorem decryptLoop_eq (seq : UInt64) (pending : Option Bytes) (written src : Bytes) :
    decryptLoop aead noncePrefix seq pending written src =
      ((openAll aead noncePrefix seq
          (pending.toList ++ blocks (segmentSize + gcmTagSize) src)).1,
        written ++ (openAll aead noncePrefix seq
          (pending.toList ++ blocks (segmentSize + gcmTagSize) src)).2) := by
  have positive : 0 < segmentSize + gcmTagSize := by decide
  induction length : src.length using Nat.strong_induction_on
    generalizing seq pending written src with
  | _ n ih =>
  rw [decryptLoop.eq_def]
  split
  · rename_i got rest read
    have shorter := length_lt_of_readFull positive read
    rw [readFull_full positive read]
    cases pending with
    | none => exact ih _ (length ▸ shorter) _ (some got) _ _ rfl
    | some sealed =>
      dsimp only [Option.toList, cons_append, nil_append]
      rw [openAll_cons_cons]
      cases openSegment aead noncePrefix seq sealed true with
      | error e => simp
      | ok plain =>
        dsimp only
        rw [ih _ (length ▸ shorter) _ _ _ _ rfl, append_assoc]
        rfl
  · rename_i got rest read
    rw [(readFull_short positive read).1]
    cases pending with
    | none => exact openLast_eq seq got written
    | some sealed =>
      dsimp only [Option.toList, cons_append, nil_append]
      rw [openAll_cons_cons]
      cases openSegment aead noncePrefix seq sealed true with
      | error e => simp
      | ok plain =>
        dsimp only
        rw [openLast_eq, append_assoc]
        rfl
  · rename_i got rest read
    obtain ⟨rfl, rfl⟩ := readFull_eof positive read
    rw [blocks_nil]
    cases pending with
    | none => simp [openAll]
    | some sealed => exact openLast_eq seq sealed written

theorem encrypt_ok {e : Encrypted} (sealed : encrypt gcm sha256 (some noncePrefix) plain fk = .ok e)
    :
    fk.length = fileKeySize ∧ e.noncePrefix = noncePrefix ∧ e.contentSHA = sha256 e.written ∧
      e.written = noncePrefix ++ (sealAll (gcm fk) noncePrefix 0 (segments plain)).flatten := by
  simp only [encrypt] at sealed
  split at sealed <;> cases sealed
  rename_i sized
  refine ⟨not_not.mp sized, rfl, rfl, ?_⟩
  exact encryptLoop_written _ plain fun _ => rfl

theorem encrypt_succeeds {gcm : Bytes → Aead} {sha256 : Bytes → Bytes} {plain fk : Bytes}
    (key : fk.length = fileKeySize) :
    ∃ e, encrypt gcm sha256 (some noncePrefix) plain fk = .ok e := by
  simp only [encrypt, key, ne_eq, not_true, if_false]
  exact ⟨_, rfl⟩

/-- What `Decrypt` does with a source: it wants the nonce prefix and then opens
the blocks. -/
theorem decrypt_eq {gcm : Bytes → Aead} {src fk : Bytes} (sized : fk.length = fileKeySize)
    (short : noncePrefix.length = noncePrefixLen) :
    (∃ rest, src = noncePrefix ++ rest ∧ decrypt gcm src fk noncePrefix =
        openAll (gcm fk) noncePrefix 0 (blocks (segmentSize + gcmTagSize) rest)) ∨
      (¬ noncePrefix <+: src ∧ ∃ e, decrypt gcm src fk noncePrefix = (.error e, [])) := by
  rw [decrypt, if_neg (by simp [sized, short])]
  split
  · rename_i got err rest read
    refine .inr ⟨?_, _, rfl⟩
    rintro ⟨rest', rfl⟩
    rw [readFull, if_pos (by simp [← short])] at read
    cases read
  · rename_i got rest read
    have cut : got = src.take noncePrefixLen ∧ rest = src.drop noncePrefixLen := by
      simp only [readFull] at read
      split at read
      · cases read
        exact ⟨rfl, rfl⟩
      · split at read <;> cases read
    split
    · rename_i other
      refine .inr ⟨?_, _, rfl⟩
      rintro ⟨rest', rfl⟩
      exact other (by rw [cut.1, ← short, take_left])
    · rename_i same
      refine .inl ⟨rest, ?_, decryptLoop_eq 0 none [] rest⟩
      rw [← not_not.mp same, cut.1, cut.2, take_append_drop]

end Refinement

/-! ### Authenticity -/

/-- An AEAD under a key that sealed exactly these calls: opening inverts them,
and succeeds on nothing else. -/
structure IdealAead (aead : Aead) (calls : List SealCall) : Prop where
  tag : ∀ call ∈ calls, (call.sealed aead).length = call.plain.length + gcmTagSize
  opens : ∀ call ∈ calls,
    aead.openBytes call.nonce (call.sealed aead) call.aad = some call.plain
  only : ∀ nonce sealed aad plain, aead.openBytes nonce sealed aad = some plain →
    ∃ call ∈ calls, call.nonce = nonce ∧ call.aad = aad ∧ call.sealed aead = sealed

theorem segmentNonce_inj {seq' : UInt64}
    (same : segmentNonce noncePrefix seq = segmentNonce noncePrefix seq') : seq = seq' := by
  have numbers := append_cancel_left same
  exact UInt64.toNat_inj.mp (bytesBE_inj seq.toNat_lt seq'.toNat_lt numbers)

theorem aad_more_inj {more' : Bool} (same : aad seq more = aad seq more') : more = more' := by
  have flags := append_cancel_left same
  revert flags
  cases more <;> cases more' <;> decide

section Authenticity

theorem mem_sealCalls {call : SealCall} :
    call ∈ sealCalls noncePrefix seq parts ↔ ∃ before plain rest,
      parts = before ++ plain :: rest ∧
        call = sealCall noncePrefix (seq + UInt64.ofNat before.length) plain (!rest.isEmpty) := by
  induction parts generalizing seq with
  | nil => simp [sealCalls]
  | cons plain rest ih =>
    rw [sealCalls, mem_cons, ih]
    constructor
    · rintro (rfl | ⟨before, plain', rest', rfl, rfl⟩)
      · exact ⟨[], plain, rest, rfl, by simp⟩
      · refine ⟨plain :: before, plain', rest', rfl, ?_⟩
        rw [length_cons, UInt64.ofNat_add, UInt64.add_assoc, UInt64.add_comm 1]
        rfl
    · rintro ⟨before, plain', rest', split, rfl⟩
      cases before with
      | nil =>
        cases split
        exact .inl (by simp)
      | cons first before =>
        cases split
        refine .inr ⟨before, plain', rest', rfl, ?_⟩
        rw [length_cons, UInt64.ofNat_add, UInt64.add_assoc, UInt64.add_comm 1]
        rfl

/-- The call for the segment at a position. -/
theorem sealCall_mem {parts before rest : List Bytes} {plain : Bytes}
    (cut : parts = before ++ plain :: rest) :
    sealCall noncePrefix (UInt64.ofNat before.length) plain (!rest.isEmpty) ∈
      sealCalls noncePrefix 0 parts :=
  mem_sealCalls.mpr ⟨before, plain, rest, cut, by rw [UInt64.zero_add]⟩

theorem openSegment_sealed (ideal : IdealAead aead (sealCalls noncePrefix 0 parts))
    (cut : parts = before ++ plain :: rest) :
    openSegment aead noncePrefix (UInt64.ofNat before.length)
      ((sealCall noncePrefix (UInt64.ofNat before.length) plain (!rest.isEmpty)).sealed aead)
      (!rest.isEmpty) = .ok plain := by
  have member := @sealCall_mem noncePrefix _ _ _ _ cut
  have long := ideal.tag _ member
  have opened := ideal.opens _ member
  rw [openSegment, if_neg (by omega)]
  simp only [sealCall] at opened ⊢
  rw [opened]

/-- A segment that opens at a position is the one that was sealed there. -/
theorem openSegment_inv {opened sealed : Bytes}
    (ideal : IdealAead aead (sealCalls noncePrefix 0 parts)) (few : parts.length < 2 ^ 64)
    (cut : parts = before ++ plain :: rest)
    (success : openSegment aead noncePrefix (UInt64.ofNat before.length) sealed more = .ok opened) :
    opened = plain ∧ more = !rest.isEmpty ∧
      sealed = (sealCall noncePrefix (UInt64.ofNat before.length) plain more).sealed aead := by
  simp only [openSegment] at success
  split at success
  · cases success
  split at success <;> cases success
  rename_i recovered
  obtain ⟨call, member, sameNonce, sameAad, sameSealed⟩ := ideal.only _ _ _ _ recovered
  obtain ⟨before', plain', rest', cut', rfl⟩ := mem_sealCalls.mp member
  rw [UInt64.zero_add] at sameNonce sameAad sameSealed member
  -- equal sequence numbers are equal positions: there are fewer than 2^64
  have samePosition : before'.length = before.length := by
    have numbers := congrArg UInt64.toNat (segmentNonce_inj sameNonce)
    have fits := congrArg List.length cut
    have fits' := congrArg List.length cut'
    rw [length_append, length_cons] at fits fits'
    simp only [UInt64.toNat_ofNat'] at numbers
    rwa [Nat.mod_eq_of_lt (by omega), Nat.mod_eq_of_lt (by omega)] at numbers
  obtain ⟨rfl, tail⟩ := append_inj (cut'.symm.trans cut) samePosition
  cases tail
  have flag := aad_more_inj sameAad
  have opens := ideal.opens _ member
  rw [sameNonce, sameAad, sameSealed, recovered] at opens
  exact ⟨Option.some.inj opens, flag.symm, by rw [← sameSealed, ← flag]⟩

/-- What an authenticated stream promises about a run over `given` blocks, where
`sealed` are the genuine ones and `plain` is what they hold. -/
structure Authentic (r : Except PipelineErr Unit × Bytes) (given sealed : List Bytes)
    (plain : Bytes) : Prop where
  written : r.2 <+: plain
  accepted : r.1 = .ok () ↔ given = sealed
  complete : r.1 = .ok () → r.2 = plain

/-- A run that stops with an error and is not given the genuine blocks. -/
theorem Authentic.refused {given sealed : List Bytes} (e : PipelineErr) (other : given ≠ sealed) :
    Authentic (.error e, []) given sealed plain :=
  ⟨ nil_prefix, ⟨fun accepted => (by cases accepted), fun same => absurd same other⟩,
    fun accepted => (by cases accepted)⟩

/-- From any position on, opening stops at the first block that is not the
sealed one. -/
theorem openAll_authentic (ideal : IdealAead aead (sealCalls noncePrefix 0 parts))
    (few : parts.length < 2 ^ 64) (given : List Bytes) (cut : parts = before ++ plain :: rest) :
    Authentic (openAll aead noncePrefix (UInt64.ofNat before.length) given) given
      (sealAll aead noncePrefix (UInt64.ofNat before.length) (plain :: rest))
      (plain :: rest).flatten := by
  have genuine := openSegment_sealed ideal cut
  induction given generalizing before plain rest with
  | nil => exact .refused _ (by simp [sealAll_cons])
  | cons sealed given ih =>
    rw [sealAll_cons]
    cases given with
    | nil =>
      simp only [openAll, openLast]
      cases opened : openSegment aead noncePrefix (UInt64.ofNat before.length) sealed false with
      | error e =>
        refine .refused e fun same => ?_
        rw [List.cons.injEq] at same
        have none_left : rest = [] := by
          cases rest with
          | nil => rfl
          | cons next later => cases same.2
        rw [← same.1, none_left] at genuine
        exact absurd (opened.symm.trans genuine) (by simp)
      | ok found =>
        obtain ⟨rfl, flag, rfl⟩ := openSegment_inv ideal few cut opened
        have none_left : rest = [] := by simpa using flag
        subst none_left
        exact ⟨by simp, by simp, by simp⟩
    | cons sealed' given =>
      rw [openAll_cons_cons]
      cases opened : openSegment aead noncePrefix (UInt64.ofNat before.length) sealed true with
      | error e =>
        refine .refused e fun same => ?_
        rw [List.cons.injEq] at same
        have some_left : rest.isEmpty = false := by
          cases rest with
          | nil => cases same.2
          | cons next later => rfl
        rw [← same.1, some_left] at genuine
        exact absurd (opened.symm.trans genuine) (by simp)
      | ok found =>
        obtain ⟨rfl, flag, rfl⟩ := openSegment_inv ideal few cut opened
        cases rest with
        | nil => cases flag
        | cons next later =>
          have cut' : parts = (before ++ [found]) ++ next :: later := by simp [cut]
          have number : UInt64.ofNat (before ++ [found]).length =
              UInt64.ofNat before.length + 1 := by simp [UInt64.ofNat_add]
          have tail := ih cut' (openSegment_sealed ideal cut')
          rw [number] at tail
          refine ⟨?_, ?_, ?_⟩
          · rw [flatten_cons]
            exact (prefix_append_right_inj _).mpr tail.written
          · rw [List.cons.injEq, tail.accepted]
            simp
          · intro accepted
            rw [flatten_cons]
            exact congrArg (found ++ ·) (tail.complete accepted)

end Authenticity

theorem segments_ne_nil (plain : Bytes) : segments plain ≠ [] := by
  rw [segments]
  split
  · simp
  · rename_i some_data
    rw [blocks_of_ne_nil (by decide) some_data]
    simp

theorem segments_flatten (plain : Bytes) : (segments plain).flatten = plain := by
  rw [segments]
  split
  · rename_i empty
    simp [empty]
  · exact blocks_flatten (by decide) plain

theorem length_segments_le (plain : Bytes) : (segments plain).length ≤ plain.length + 1 := by
  rw [segments]
  split
  · simp
  · exact (length_blocks_le (by decide) plain).trans (Nat.le_succ _)

/-- Sealing makes full blocks of full segments, and the last block is never empty. -/
theorem sealAll_framed (framed : Framed size parts) (seq : UInt64)
    (tag : ∀ call ∈ sealCalls noncePrefix seq parts,
      (call.sealed aead).length = call.plain.length + gcmTagSize) :
    Framed (size + gcmTagSize) (sealAll aead noncePrefix seq parts) := by
  induction framed generalizing seq with
  | nil => exact .nil
  | @last plain _ short =>
    have length := tag _ mem_cons_self
    rw [sealCall_plain] at length
    refine .last (ne_nil_of_length_pos ?_) ?_
    · rw [length, gcmTagSize]
      omega
    · rw [length]
      omega
  | @more plain next rest full _ ih =>
    have length := tag _ mem_cons_self
    have later := ih (seq + 1) fun call member => tag call (mem_cons_of_mem _ member)
    rw [sealAll_cons] at later ⊢
    rw [sealCall_plain, full] at length
    exact .more length later

theorem segments_sealed_framed {aead : Aead} {noncePrefix : Bytes} (plain : Bytes)
    (tag : ∀ call ∈ sealCalls noncePrefix 0 (segments plain),
      (call.sealed aead).length = call.plain.length + gcmTagSize) :
    Framed (segmentSize + gcmTagSize) (sealAll aead noncePrefix 0 (segments plain)) := by
  by_cases empty : plain = []
  · rw [segments, if_pos empty] at tag ⊢
    have length := tag _ mem_cons_self
    rw [sealCall_plain] at length
    refine .last (ne_nil_of_length_pos ?_) ?_
    · rw [length]
      decide
    · rw [length]
      decide
  · have cut : segments plain = blocks segmentSize plain := if_neg empty
    rw [cut] at tag ⊢
    exact sealAll_framed (blocks_framed (by decide) plain) 0 tag

/-- Whatever is presented under the key of one encryption, `Decrypt` writes a part
of its plaintext from the start, and accepts its ciphertext and nothing else. -/
theorem decrypt_authentic {gcm : Bytes → Aead} {sha256 : Bytes → Bytes}
    {plain fk noncePrefix : Bytes} {e : Encrypted} (short : noncePrefix.length = noncePrefixLen)
    (sized : plain.length < 2 ^ 63)
    (sealed : encrypt gcm sha256 (some noncePrefix) plain fk = .ok e)
    (ideal : IdealAead (gcm fk) (sealCalls noncePrefix 0 (segments plain))) (src : Bytes) :
    (decrypt gcm src fk noncePrefix).2 <+: plain ∧
      ((decrypt gcm src fk noncePrefix).1 = .ok () ↔ src = e.written) ∧
      ((decrypt gcm src fk noncePrefix).1 = .ok () →
        (decrypt gcm src fk noncePrefix).2 = plain) := by
  obtain ⟨key, -, -, written⟩ := encrypt_ok sealed
  have framed := segments_sealed_framed plain ideal.tag
  rcases @decrypt_eq noncePrefix gcm src fk key short with ⟨rest, rfl, run⟩ | ⟨other, err, run⟩
  · have few := length_segments_le plain
    obtain ⟨first, later, cut⟩ := exists_cons_of_ne_nil (segments_ne_nil plain)
    have start : segments plain = [] ++ first :: later := cut
    have authentic := openAll_authentic ideal (by omega)
      (blocks (segmentSize + gcmTagSize) rest) start
    rw [← cut, segments_flatten] at authentic
    have genuine : blocks (segmentSize + gcmTagSize) rest =
        sealAll (gcm fk) noncePrefix 0 (segments plain) ↔ noncePrefix ++ rest = e.written := by
      rw [written, append_cancel_left_eq]
      constructor
      · intro same
        rw [← same, blocks_flatten (by decide)]
      · rintro rfl
        exact framed.blocks_eq (by decide)
    rw [run]
    exact ⟨authentic.written, authentic.accepted.trans genuine, authentic.complete⟩
  · rw [run]
    refine ⟨ nil_prefix, ⟨fun accepted => (by cases accepted), ?_⟩,
      fun accepted => (by cases accepted)⟩
    rintro rfl
    exact absurd ⟨_, written.symm⟩ other

/-- An AEAD that keeps a table of what it sealed; its tag is constant. -/
def tableAead (calls : List SealCall) : Aead where
  sealBytes _ plain _ := plain ++ List.replicate gcmTagSize 0
  openBytes nonce sealed aad :=
    (calls.find? fun call => call.nonce = nonce ∧ call.aad = aad ∧
      call.plain ++ List.replicate gcmTagSize 0 = sealed).map SealCall.plain

theorem tableAead_ideal (calls : List SealCall) : IdealAead (tableAead calls) calls where
  tag call _ := by simp [SealCall.sealed, tableAead]
  opens call member := by
    have exists_call : ∃ found, calls.find? (fun c => c.nonce = call.nonce ∧ c.aad = call.aad ∧
        c.plain ++ List.replicate gcmTagSize 0 = call.sealed (tableAead calls)) = some found := by
      refine Option.isSome_iff_exists.mp (find?_isSome.mpr ⟨call, member, ?_⟩)
      simp [SealCall.sealed, tableAead]
    obtain ⟨found, search⟩ := exists_call
    have kept := find?_some search
    have fits := of_decide_eq_true kept
    refine (congrArg (Option.map SealCall.plain) search).trans ?_
    rw [Option.map_some, append_cancel_right fits.2.2]
  only nonce sealed aad plain opened := by
    simp only [tableAead, Option.map_eq_some_iff] at opened
    obtain ⟨call, search, -⟩ := opened
    have kept := find?_some search
    have fits := of_decide_eq_true kept
    exact ⟨call, mem_of_find?_eq_some search, fits.1, fits.2.1, fits.2.2⟩

theorem smallFile_authentic :
    ∃ e, encrypt (fun _ => tableAead (sealCalls [9, 9, 9, 9] 0 (segments [1, 2, 3])))
        (fun bytes => bytes.take 32) (some [9, 9, 9, 9]) [1, 2, 3] (List.replicate 32 7) = .ok e ∧
      (decrypt (fun _ => tableAead (sealCalls [9, 9, 9, 9] 0 (segments [1, 2, 3])))
        e.written (List.replicate 32 7) [9, 9, 9, 9]).2 = [1, 2, 3] ∧
      (decrypt (fun _ => tableAead (sealCalls [9, 9, 9, 9] 0 (segments [1, 2, 3])))
        (e.written ++ [0]) (List.replicate 32 7) [9, 9, 9, 9]).1 ≠ .ok () := by
  obtain ⟨e, sealed⟩ := @encrypt_succeeds [9, 9, 9, 9]
    (fun _ => tableAead (sealCalls [9, 9, 9, 9] 0 (segments [1, 2, 3])))
    (fun bytes => bytes.take 32) [1, 2, 3] (List.replicate 32 7) (by decide)
  have authentic := decrypt_authentic (by decide) (by decide) sealed (tableAead_ideal _)
  obtain ⟨-, accepted, complete⟩ := authentic e.written
  obtain ⟨-, refused, -⟩ := authentic (e.written ++ [0])
  refine ⟨e, sealed, complete (accepted.mpr rfl), fun extended => ?_⟩
  have longer := congrArg List.length (refused.mp extended)
  simp at longer

end StoragePlatform
