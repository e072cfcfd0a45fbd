/-
Module: StoragePlatform.Proofs.Rename
Purpose: When renaming a folder moves its subtree, and nothing else, to the new path, and
  when an occupied target is refused.
Trusted boundary: none
Main exports: underPath, DB.relocate, Relocates, PatternsAgree, patternsAgree_of_plain
-/
import StoragePlatform.Proofs.SoftDelete

namespace StoragePlatform

open Lib List Sample

/-! ### What a rename is for -/

/-- The path is that of the folder, or continues it after a slash. -/
def underPath (folder path : Text) : Bool := path = folder ∨ folder ++ ['/'] <+: path

/-- A live file of the bucket of `f`. -/
def File.besideLive (f g : File) : Bool := g.bucketId = f.bucketId ∧ g.deletedAt = none

/-- The row with `p` in place of the path of `f` at the start of its own. -/
def File.moveTo (f : File) (p : Text) (g : File) : File :=
  { g with path := p ++ g.path.drop f.path.length }

/-- The rename of a folder as it is meant: every live file at `o ++ s`, where `o` is the
path of the folder and `s` is empty or begins with a slash, is at `p ++ s` after it. -/
def DB.relocate (db : DB) (f : File) (p : Text) : DB :=
  { db with
    files := updateWhere (fun g => f.besideLive g && underPath f.path g.path) (f.moveTo p)
      db.files }

/-- The new path is not in the subtree of the folder, and no live file is at it or under
it. -/
structure DB.FreePath (db : DB) (f : File) (p : Text) : Prop where
  outside : underPath f.path p = false
  empty : ∀ g ∈ db.files, f.besideLive g = true → underPath p g.path = false

/-- A live file outside the subtree of the folder is at the new path or under it. -/
def DB.TakenPath (db : DB) (f : File) (p : Text) : Prop :=
  ∃ g ∈ db.files, f.besideLive g = true ∧ underPath p g.path = true ∧
    underPath f.path g.path = false

/-- Renaming the folder moves its subtree, keeps the live paths unique, and renaming it back
restores the tables.  `raw` and `rawBack` are the arguments of the two calls, `order` and
`orderBack` the orders in which they come to the rows. -/
structure Relocates (db : DB) (ownerId : Uuid) (f : File) (p raw rawBack : Text)
    (order orderBack : List Uuid) : Prop where
  moved : db.renameFile ownerId f.id raw order = .ok ({ f with path := p }, db.relocate f p)
  unique : UniqueLivePaths (db.relocate f p).files
  restored : (db.relocate f p).renameFile ownerId f.id rawBack orderBack = .ok (f, db)

/-! ### When the statements do that -/

/-- Among these rows the LIKE pattern of a path selects the live files of the bucket in its
subtree. -/
def PatternAgrees (files : List File) (f : File) (path : Text) : Prop :=
  ∀ g ∈ files, f.besideLive g = true → inSubtree path g.path = underPath path g.path

/-- The patterns select the subtrees: the one of the old path among the files as they are, the
one of the new path among the files as they will be. -/
structure PatternsAgree (db : DB) (f : File) (p : Text) : Prop where
  old : PatternAgrees db.files f f.path
  new : PatternAgrees (db.relocate f p).files f p

/-! ### Paths -/

theorem underPath_iff {folder path : Text} :
    underPath folder path = true ↔
      ∃ s, path = folder ++ s ∧ (s = [] ∨ ∃ t, s = '/' :: t) := by
  simp only [underPath, decide_eq_true_eq]
  constructor
  · rintro (rfl | ⟨t, rfl⟩)
    · exact ⟨[], by simp, .inl rfl⟩
    · exact ⟨'/' :: t, by simp, .inr ⟨t, rfl⟩⟩
  · rintro ⟨s, rfl, rfl | ⟨t, rfl⟩⟩
    · exact .inl (by simp)
    · exact .inr ⟨t, by simp⟩

theorem underPath_self (folder : Text) : underPath folder folder = true :=
  underPath_iff.mpr ⟨[], by simp, .inl rfl⟩

theorem ne_of_not_underPath {folder path : Text} (outside : underPath folder path = false) :
    folder ≠ path := by
  rintro rfl
  rw [underPath_self] at outside
  cases outside

theorem inSubtree_self (folder : Text) : inSubtree folder folder = true := by
  simp [inSubtree]

/-- What is under the old path goes under the new one, and to a new place. -/
theorem underPath_move {o p x : Text} (differ : o ≠ p) (under : underPath o x = true) :
    underPath p (p ++ x.drop o.length) = true ∧ p ++ x.drop o.length ≠ x ∧
      o ++ (p ++ x.drop o.length).drop p.length = x := by
  obtain ⟨s, rfl, shape⟩ := underPath_iff.mp under
  rw [drop_left]
  refine ⟨underPath_iff.mpr ⟨s, rfl, shape⟩, fun same => ?_, by rw [drop_left]⟩
  exact differ (append_cancel_right same).symm

/-- Of two paths that a third one continues, one continues the other. -/
theorem underPath_comparable {o p x : Text} (underOld : underPath o x = true)
    (underNew : underPath p x = true) : underPath o p = true ∨ underPath p o = true := by
  obtain ⟨s, rfl, shape⟩ := underPath_iff.mp underOld
  obtain ⟨t, same, shape'⟩ := underPath_iff.mp underNew
  -- the piece by which one is longer begins what follows the other
  have starts : ∀ {a b c : Text}, a = b ++ c → (a = [] ∨ ∃ t, a = '/' :: t) →
      b = [] ∨ ∃ t, b = '/' :: t := by
    rintro a b c rfl shape
    cases b with
    | nil => exact .inl rfl
    | cons x b =>
      obtain empty | ⟨t, same⟩ := shape
      · cases empty
      · rw [cons_append, List.cons.injEq] at same
        exact .inr ⟨b, by rw [same.1]⟩
  rcases append_eq_append_iff.mp same with ⟨a, rfl, split⟩ | ⟨a, rfl, split⟩
  · exact .inl (underPath_iff.mpr ⟨a, rfl, starts split shape⟩)
  · exact .inr (underPath_iff.mpr ⟨a, rfl, starts split shape'⟩)

/-- A path cannot stay where it is under the rewriting and under the one back. -/
theorem not_fixed_both {o p x : Text} (differ : o ≠ p) (there : p ++ x.drop o.length = x)
    (back : o ++ x.drop p.length = x) : False := by
  have lengths := congrArg List.length there
  have lengths' := congrArg List.length back
  rw [length_append, length_drop] at lengths lengths'
  have prefixed : p <+: x := ⟨_, there⟩
  have prefixed' : o <+: x := ⟨_, back⟩
  exact differ ( prefix_or_prefix_of_prefix prefixed' prefixed |>.elim
    (fun shorter => shorter.eq_of_length (by omega))
    fun shorter => (shorter.eq_of_length (by omega)).symm)

/-! ### The call -/

section Rename

variable {db : DB} {f : File} {ownerId : Uuid} {p raw : Text} {order orderBack : List Uuid}

theorem DB.fileById_live (found : db.fileById ownerId f.id = .ok f) :
    f ∈ db.files ∧ f.besideLive f = true := by
  obtain ⟨member, -, live, -⟩ := fileById_mem found
  exact ⟨member, by simp [File.besideLive, live]⟩

/-- The row a file becomes when `sel` says which live files of the bucket move. -/
def File.rowAfter (f : File) (p : Text) (sel : File → Bool) (g : File) : File :=
  if (f.besideLive g && sel g) = true then f.moveTo p g else g

section Row

variable (f p) (sel : File → Bool) {g : File}

theorem File.rowAfter_path (live : f.besideLive g = true) :
    (f.rowAfter p sel g).path =
      if sel g = true then p ++ g.path.drop f.path.length else g.path := by
  rw [rowAfter, live, Bool.true_and]
  split <;> rfl

theorem File.besideLive_rowAfter (g : File) :
    f.besideLive (f.rowAfter p sel g) = f.besideLive g := by
  rw [rowAfter]
  split <;> rfl

/-- A row after the move differs in its path at most. -/
theorem File.rowAfter_eq (g : File) :
    f.rowAfter p sel g = { g with path := (f.rowAfter p sel g).path } := by
  rw [rowAfter]
  split <;> rfl

theorem File.rowAfter_of_not_live (gone : f.besideLive g = false) : f.rowAfter p sel g = g := by
  simp [rowAfter, gone]

end Row

/-- The table while the UPDATE runs. -/
theorem renameRows_folder (folder : f.isFolder = true) (p : Text) (done : List Uuid)
    (files : List File) : renameRows f p done files =
      files.map (f.rowAfter p fun g => inSubtree f.path g.path && decide (g.id ∈ done)) := by
  refine map_congr_left fun g _ => ?_
  simp [File.toRename, File.renamed, File.rowAfter, File.besideLive, File.moveTo, folder, and_assoc]

theorem renameRows_scan (folder : f.isFolder = true) (p : Text) (order : List Uuid)
    (files : List File) : renameRows f p (renameScan order f files) files =
      files.map (f.rowAfter p fun g => inSubtree f.path g.path) := by
  rw [renameRows_folder folder]
  refine map_congr_left fun g member => ?_
  by_cases chosen : (f.besideLive g && inSubtree f.path g.path) = true
  · have visited : g.id ∈ renameScan order f files := by
      refine mem_orderBy.mpr (mem_map.mpr ⟨g, mem_filter.mpr ⟨member, ?_⟩, rfl⟩)
      simpa [File.toRename, folder, File.besideLive, and_assoc] using chosen
    simp [File.rowAfter, visited]
  · rw [File.rowAfter, File.rowAfter, if_neg chosen, if_neg]
    rw [← Bool.and_assoc, Bool.and_eq_true]
    exact fun both => chosen both.1

theorem DB.relocate_files (db : DB) (f : File) (p : Text) :
    (db.relocate f p).files =
      db.files.map (f.rowAfter p fun g => underPath f.path g.path) := rfl

/-- The folder itself, looked up after the move. -/
theorem DB.relocate_fileById (found : db.fileById ownerId f.id = .ok f) (p : Text) :
    (db.relocate f p).fileById ownerId f.id = .ok { f with path := p } := by
  obtain ⟨-, live⟩ := DB.fileById_live found
  simp only [DB.fileById] at found
  split at found <;> cases found
  rename_i first
  have moved := @find?_updateWhere File (fun g => f.besideLive g && underPath f.path g.path)
    (fun g => g.id = f.id ∧ g.deletedAt = none ∧
      db.buckets.any fun b => b.id = g.bucketId ∧ b.ownerId = ownerId) (f.moveTo p)
    (fun _ => rfl) db.files
  rw [first, Option.map_some, live, underPath_self, Bool.true_and, if_pos rfl] at moved
  have here : f.moveTo p f = { f with path := p } := by simp [File.moveTo]
  rw [here] at moved
  rw [DB.fileById]
  split
  · rename_i none
    exact absurd (moved.symm.trans none) (Option.some_ne_none _)
  · rename_i g found
    exact congrArg Except.ok (Option.some.inj (found.symm.trans moved))

/-- Where the target is free, no moved path meets another one, however far the move has
come. -/
theorem DB.FreePath.unique (schema : db.Schema) (free : db.FreePath f p) {sel : File → Bool}
    (within : ∀ g, sel g = true → underPath f.path g.path = true) :
    UniqueLivePaths (db.files.map (f.rowAfter p sel)) := by
  have differ := ne_of_not_underPath free.outside
  have sameLive : ((db.files.map (f.rowAfter p sel)).filter fun g => g.deletedAt.isNone) =
      (db.files.filter fun g => g.deletedAt.isNone).map (f.rowAfter p sel) := by
    rw [filter_map]
    congr 1
    refine filter_congr fun g _ => ?_
    rw [Function.comp_apply, File.rowAfter_eq]
  rw [UniqueLivePaths, sameLive, UniqueOn, map_map]
  refine schema.file_live_path.nodup.map_on ?_
  intro g member g' member' same
  obtain ⟨inFiles, isLive⟩ := mem_filter.mp member
  obtain ⟨inFiles', isLive'⟩ := mem_filter.mp member'
  apply schema.file_live_path.eq_of_key member member'
  have buckets : g.bucketId = g'.bucketId := by
    have column := congrArg Prod.fst same
    rw [Function.comp_apply, Function.comp_apply, File.rowAfter_eq, File.rowAfter_eq f p sel g']
      at column
    exact column
  have paths : (f.rowAfter p sel g).path = (f.rowAfter p sel g').path := congrArg Prod.snd same
  refine Prod.ext buckets ?_
  by_cases beside : g.bucketId = f.bucketId
  · have live : f.besideLive g = true := by simpa [File.besideLive, beside] using isLive
    have live' : f.besideLive g' = true := by
      simpa [File.besideLive, ← buckets, beside] using isLive'
    rw [File.rowAfter_path f p _ live, File.rowAfter_path f p _ live'] at paths
    cases moves : sel g with
    | true =>
      obtain ⟨placed, -, back⟩ := underPath_move differ (within g moves)
      cases moves' : sel g' with
      | true =>
        obtain ⟨-, -, back'⟩ := underPath_move differ (within g' moves')
        rw [if_pos moves, if_pos moves'] at paths
        rw [← back, paths, back']
      | false =>
        rw [if_pos moves, if_neg (by simp [moves'])] at paths
        rw [paths, free.empty g' inFiles' live'] at placed
        cases placed
    | false =>
      cases moves' : sel g' with
      | true =>
        obtain ⟨placed, -, -⟩ := underPath_move differ (within g' moves')
        rw [if_neg (by simp [moves]), if_pos moves'] at paths
        rw [← paths, free.empty g inFiles live] at placed
        cases placed
      | false =>
        rw [if_neg (by simp [moves]), if_neg (by simp [moves'])] at paths
        exact paths
  · have apart : f.besideLive g = false := by simp [File.besideLive, beside]
    have apart' : f.besideLive g' = false := by simp [File.besideLive, ← buckets, beside]
    rwa [File.rowAfter_of_not_live f p _ apart, File.rowAfter_of_not_live f p _ apart'] at paths

theorem DB.relocate_schema (schema : db.Schema) (free : db.FreePath f p) :
    (db.relocate f p).Schema := by
  refine schema.withFiles ?_ (free.unique schema fun _ under => under)
  apply map_updateWhere
  exact fun _ => rfl

/-- A row that has been moved is moved back. -/
theorem DB.FreePath.row_back (free : db.FreePath f p) {g : File} (member : g ∈ db.files) :
    File.rowAfter { f with path := p } f.path (fun g => underPath p g.path)
      (f.rowAfter p (fun g => underPath f.path g.path) g) = g := by
  cases live : f.besideLive g with
  | false =>
    rw [File.rowAfter_of_not_live f p _ live]
    exact File.rowAfter_of_not_live { f with path := p } f.path _ live
  | true =>
    have liveBack : File.besideLive { f with path := p } g = true := live
    cases under : underPath f.path g.path with
    | false =>
      have stays : f.rowAfter p (fun g => underPath f.path g.path) g = g := by
        simp [File.rowAfter, under]
      rw [stays]
      simp [File.rowAfter, free.empty g member live]
    | true =>
      obtain ⟨placed, -, back⟩ := underPath_move (ne_of_not_underPath free.outside) under
      have moves : f.rowAfter p (fun g => underPath f.path g.path) g = f.moveTo p g := by
        simp [File.rowAfter, live, under]
      have there : underPath p (f.moveTo p g).path = true := placed
      have beside : File.besideLive { f with path := p } (f.moveTo p g) = true := live
      rw [moves, File.rowAfter, beside, there, Bool.and_self, if_pos rfl]
      simp only [File.moveTo, back]

/-- The old path is free after the move. -/
theorem DB.FreePath.back (found : db.fileById ownerId f.id = .ok f) (free : db.FreePath f p) :
    (db.relocate f p).FreePath { f with path := p } f.path := by
  obtain ⟨inFiles, live⟩ := DB.fileById_live found
  have outside := free.empty f inFiles live
  refine ⟨outside, fun g' member' live' => ?_⟩
  rw [DB.relocate_files] at member'
  obtain ⟨g, member, rfl⟩ := mem_map.mp member'
  have live' : f.besideLive g = true := by rwa [← f.besideLive_rowAfter p]
  rw [File.rowAfter_path f p _ live']
  cases under : underPath f.path g.path with
  | false => exact under
  | true =>
    obtain ⟨placed, -, -⟩ := underPath_move (ne_of_not_underPath free.outside) under
    refine Bool.eq_false_iff.mpr fun again => ?_
    rcases underPath_comparable again placed with inside | inside
    · rw [free.outside] at inside
      cases inside
    · rw [outside] at inside
      cases inside

theorem DB.FreePath.relocate_back (free : db.FreePath f p) :
    (db.relocate f p).relocate { f with path := p } f.path = db := by
  have files : (db.relocate f p).files.map
      (File.rowAfter { f with path := p } f.path fun g => underPath p g.path) = db.files := by
    rw [DB.relocate_files, map_map]
    exact (map_congr_left fun g member => free.row_back member).trans (map_id _)
  exact congrArg (fun files => { db with files := files }) files

/-! ### One row -/

/-- What `RenameFile` there and back asks of the path of one live file, and what that says
about the patterns.  `y` is where the file should be after the first call. -/
theorem path_agrees_iff {o p x y : Text} (differ : o ≠ p)
    (isPlace : y = if underPath o x = true then p ++ x.drop o.length else x)
    (empty : underPath p x = false) :
    ((inSubtree p x = true → inSubtree o x = true) ∧
      (if inSubtree o x = true then p ++ x.drop o.length else x) = y ∧
      (inSubtree o y = true → inSubtree p y = true) ∧
      (if inSubtree p y = true then o ++ y.drop p.length else y) = x) ↔
    inSubtree o x = underPath o x ∧ inSubtree p y = underPath p y := by
  cases under : underPath o x with
  | true =>
    rw [under, if_pos rfl] at isPlace
    obtain ⟨placed, changed, back⟩ := underPath_move differ under
    rw [← isPlace] at placed changed back
    rw [← isPlace, placed]
    constructor
    · rintro ⟨-, there, -, home⟩
      refine ⟨?_, ?_⟩
      · by_contra missed
        rw [if_neg missed] at there
        exact changed there.symm
      · by_contra missed
        rw [if_neg missed] at home
        exact changed home
    · rintro ⟨old, new⟩
      exact ⟨fun _ => old, if_pos old, fun _ => new, by rw [if_pos new, back]⟩
  | false =>
    rw [under, if_neg (by decide)] at isPlace
    subst isPlace
    rw [empty]
    constructor
    · rintro ⟨hit, there, hitBack, home⟩
      -- a match of one pattern is a match of both, and then the path is fixed by both
      have none : inSubtree o y = false := by
        by_contra matched
        rw [Bool.not_eq_false] at matched
        rw [if_pos matched] at there
        rw [if_pos (hitBack matched)] at home
        exact not_fixed_both differ there home
      refine ⟨none, ?_⟩
      by_contra matched
      rw [Bool.not_eq_false] at matched
      rw [hit matched] at none
      cases none
    · rintro ⟨old, new⟩
      simp [old, new]

/-! ### All rows -/

/-- Two rows that differ from a third in their paths at most. -/
theorem File.eq_iff_path {g r r' : File} (left : r = { g with path := r.path })
    (right : r' = { g with path := r'.path }) : r = r' ↔ r.path = r'.path := by
  refine ⟨congrArg File.path, fun same => ?_⟩
  rw [left, right, same]

section Folder

variable (schema : db.Schema) (found : db.fileById ownerId f.id = .ok f)
variable (folder : f.isFolder = true)
include schema found folder

/-- The branches of `RenameFile` for a folder and a path that is not its own. -/
theorem DB.renameFile_folder (asked : normalizePath raw = .ok p) (differ : f.path ≠ p)
    (order : List Uuid) :
    db.renameFile ownerId f.id raw order =
      if (∃ g ∈ db.files, f.besideLive g = true ∧ inSubtree p g.path = true ∧
          inSubtree f.path g.path = false) ∨
          ¬ ∀ done ∈ (renameScan order f db.files).inits,
            UniqueLivePaths (renameRows f p done db.files) then
        .error .conflict
      else .ok ({ f with path := p },
        { db with files := db.files.map (f.rowAfter p fun g => inSubtree f.path g.path) }) := by
  obtain ⟨inFiles, live⟩ := DB.fileById_live found
  have renamed : (db.files.map (f.rowAfter p fun g => inSubtree f.path g.path)).find?
      (fun g => g.id = f.id) = some { f with path := p } := by
    have moved := @find?_updateWhere File (fun g => f.besideLive g && inSubtree f.path g.path)
      (fun g => g.id = f.id) (f.moveTo p) (fun _ => rfl) db.files
    rw [schema.file_pk.find_key inFiles rfl] at moved
    refine moved.trans ?_
    simp [live, inSubtree_self, File.moveTo]
  have counted : (db.files.any fun g => g.bucketId = f.bucketId ∧ g.deletedAt = none ∧
      inSubtree p g.path ∧ ¬ inSubtree f.path g.path) = true ↔
      ∃ g ∈ db.files, f.besideLive g = true ∧ inSubtree p g.path = true ∧
        inSubtree f.path g.path = false := by
    simp [File.besideLive, and_assoc]
  simp only [DB.renameFile, asked, found, if_neg differ, folder, true_and, counted,
    renameRows_scan folder, renamed]
  by_cases collision : ∃ g ∈ db.files, f.besideLive g = true ∧ inSubtree p g.path = true ∧
      inSubtree f.path g.path = false
  · rw [if_pos collision, if_pos (.inl collision)]
  · rw [if_neg collision]
    by_cases unique : ∀ done ∈ (renameScan order f db.files).inits,
        UniqueLivePaths (renameRows f p done db.files)
    · rw [if_pos unique, if_neg (not_or.mpr ⟨collision, not_not_intro unique⟩)]
    · rw [if_neg unique, if_pos (.inr unique)]

/-- The call moves the subtree exactly if it does so row by row; whatever the order of the
rows, none of them is in the way of another. -/
theorem DB.renameFile_moves_iff (asked : normalizePath raw = .ok p) (free : db.FreePath f p) :
    db.renameFile ownerId f.id raw order = .ok ({ f with path := p }, db.relocate f p) ↔
      ∀ g ∈ db.files, f.besideLive g = true →
        (inSubtree p g.path = true → inSubtree f.path g.path = true) ∧
        (if inSubtree f.path g.path = true then p ++ g.path.drop f.path.length else g.path) =
          (f.rowAfter p (fun g => underPath f.path g.path) g).path := by
  rw [DB.renameFile_folder schema found folder asked (ne_of_not_underPath free.outside)]
  have sameRow : ∀ g, f.rowAfter p (fun g => inSubtree f.path g.path) g =
      f.rowAfter p (fun g => underPath f.path g.path) g ↔ (f.besideLive g = true →
        (if inSubtree f.path g.path = true then p ++ g.path.drop f.path.length else g.path) =
          (f.rowAfter p (fun g => underPath f.path g.path) g).path) := by
    intro g
    rw [File.eq_iff_path (f.rowAfter_eq p _ g) (f.rowAfter_eq p _ g)]
    cases live : f.besideLive g with
    | true =>
      rw [File.rowAfter_path f p (fun g => inSubtree f.path g.path) live]
      simp
    | false => simp [File.rowAfter_of_not_live f p _ live]
  constructor
  · intro answered g member live
    split at answered
    · cases answered
    · rename_i passed
      rw [not_or] at passed
      have rows := congrArg DB.files (congrArg Prod.snd (Except.ok.inj answered))
      rw [DB.relocate_files, map_inj_left] at rows
      refine ⟨fun hit => ?_, (sameRow g).mp (rows g member) live⟩
      by_contra missed
      exact passed.1 ⟨g, member, live, hit, by simpa using missed⟩
  · intro each
    have rows : ∀ g ∈ db.files, f.rowAfter p (fun g => inSubtree f.path g.path) g =
        f.rowAfter p (fun g => underPath f.path g.path) g := fun g member =>
      (sameRow g).mpr fun live => (each g member live).2
    rw [if_neg, map_congr_left rows]
    · rfl
    rintro (⟨g, member, live, hit, missed⟩ | clash)
    · rw [(each g member live).1 hit] at missed
      cases missed
    · refine clash fun done _ => ?_
      -- after any part of the rows the table is a part of the relocation
      have part : renameRows f p done db.files = db.files.map
          (f.rowAfter p fun g => underPath f.path g.path && decide (g.id ∈ done)) := by
        rw [renameRows_folder folder]
        refine map_congr_left fun g member => ?_
        by_cases written : g.id ∈ done
        · simpa [File.rowAfter, written] using rows g member
        · simp [File.rowAfter, written]
      rw [part]
      exact free.unique schema fun g moves => (Bool.and_eq_true_iff.mp moves).1

/-- The call back restores the tables exactly if it does so row by row. -/
theorem DB.renameFile_restores_iff {rawBack : Text} (back : normalizePath rawBack = .ok f.path)
    (free : db.FreePath f p) :
    (db.relocate f p).renameFile ownerId f.id rawBack orderBack = .ok (f, db) ↔
      ∀ g ∈ db.files, f.besideLive g = true →
        let y := (f.rowAfter p (fun g => underPath f.path g.path) g).path
        (inSubtree f.path y = true → inSubtree p y = true) ∧
        (if inSubtree p y = true then f.path ++ y.drop p.length else y) = g.path := by
  have home := @DB.renameFile_moves_iff _ { f with path := p } _ _ _ orderBack
    (DB.relocate_schema schema free) (DB.relocate_fileById found p) folder back (free.back found)
  rw [free.relocate_back, DB.relocate_files, forall_mem_map] at home
  refine home.trans (forall₂_congr fun g member => ?_)
  rw [free.row_back member]
  exact imp_congr_left (by rw [← f.besideLive_rowAfter p]; rfl)

/-- Row by row, the calls there and back do what they should exactly if the patterns agree
with the test for a leading path. -/
theorem relocates_iff (asked : normalizePath raw = .ok p) {rawBack : Text}
    (back : normalizePath rawBack = .ok f.path) (free : db.FreePath f p) :
    Relocates db ownerId f p raw rawBack order orderBack ↔ PatternsAgree db f p := by
  have differ := ne_of_not_underPath free.outside
  have agrees := fun g (inFiles : g ∈ db.files) (live : f.besideLive g = true) =>
    path_agrees_iff differ (File.rowAfter_path f p (fun g => underPath f.path g.path) live)
      (free.empty g inFiles live)
  have there := @DB.renameFile_moves_iff _ _ _ _ _ order schema found folder asked free
  have home := @DB.renameFile_restores_iff _ _ _ _ orderBack schema found folder _ back free
  constructor
  · intro relocates
    have both := fun g inFiles live => (agrees g inFiles live).mp
      ⟨(there.mp relocates.moved g inFiles live).1, (there.mp relocates.moved g inFiles live).2,
        home.mp relocates.restored g inFiles live⟩
    refine ⟨fun g inFiles live => (both g inFiles live).1, fun g' inFiles' live' => ?_⟩
    rw [DB.relocate_files] at inFiles'
    obtain ⟨g, inFiles, rfl⟩ := mem_map.mp inFiles'
    exact (both g inFiles (by rwa [f.besideLive_rowAfter] at live')).2
  · intro patterns
    have both := fun g inFiles live => (agrees g inFiles live).mpr
      ⟨patterns.old g inFiles live, patterns.new (f.rowAfter p (fun g => underPath f.path g.path) g)
        (mem_map.mpr ⟨g, inFiles, rfl⟩) (by rwa [f.besideLive_rowAfter])⟩
    exact
      { moved := there.mpr fun g inFiles live =>
          ⟨(both g inFiles live).1, (both g inFiles live).2.1⟩
        unique := free.unique schema fun _ under => under
        restored := home.mpr fun g inFiles live => (both g inFiles live).2.2 }

end Folder

/-- Renaming a folder to a free path is the relocation it is meant to be, in whatever order the
rows are written, exactly if the LIKE patterns of the two paths select what they are meant to;
and where they do, a path that is taken is refused. -/
theorem renameFile_iff (schema : db.Schema) (found : db.fileById ownerId f.id = .ok f)
    (folder : f.isFolder = true) (asked : normalizePath raw = .ok p) {rawBack : Text}
    (back : normalizePath rawBack = .ok f.path) (order orderBack : List Uuid) :
    (db.FreePath f p →
      (Relocates db ownerId f p raw rawBack order orderBack ↔ PatternsAgree db f p)) ∧
      (db.TakenPath f p → PatternAgrees db.files f f.path → PatternAgrees db.files f p →
        db.renameFile ownerId f.id raw order = .error .conflict) := by
  refine ⟨relocates_iff schema found folder asked back, fun taken old new => ?_⟩
  obtain ⟨g, inFiles, live, atTarget, outside⟩ := taken
  have differ : f.path ≠ p := by
    intro same
    rw [← same, outside] at atTarget
    cases atTarget
  rw [DB.renameFile_folder schema found folder asked differ, if_pos]
  -- the query counts the file in the way
  exact .inl ⟨g, inFiles, live, (new g inFiles live).trans atTarget,
    (old g inFiles live).trans outside⟩

/-- The pattern of a path without metacharacters selects its subtree. -/
theorem inSubtree_of_plain {folder : Text} (plain : ∀ c ∈ folder, likeMeta c = false)
    (path : Text) : inSubtree folder path = underPath folder path := by
  rw [Bool.eq_iff_iff, underPath, decide_eq_true_eq]
  exact subtree_of_plain plain path

theorem patternsAgree_of_plain (plainOld : ∀ c ∈ f.path, likeMeta c = false)
    (plainNew : ∀ c ∈ p, likeMeta c = false) : PatternsAgree db f p where
  old := fun g _ _ => inSubtree_of_plain plainOld g.path
  new := fun g _ _ => inSubtree_of_plain plainNew g.path

end Rename

/-- The folder `/c` goes to `/d` with `/c/f`, past its sibling `/cd`, and comes back; `/cd` is
taken. -/
theorem plainFolder_renamed :
    Relocates withFolders.db owner (folder 12 ['/', 'c']) ['/', 'd']
      ['/', 'd'] ['/', 'c'] [] [] ∧
    withFolders.db.renameFile owner 12 ['/', 'c', 'd'] [] = .error .conflict := by
  have schema := reachable_schema withFolders_reachable
  have found : withFolders.db.fileById owner 12 = .ok (folder 12 ['/', 'c']) := by decide
  have free : withFolders.db.FreePath (folder 12 ['/', 'c']) ['/', 'd'] :=
    ⟨by decide, by decide⟩
  constructor
  · exact ((@renameFile_iff _ (folder 12 ['/', 'c']) owner ['/', 'd'] ['/', 'd']
      schema found rfl (by decide) ['/', 'c'] (by decide) [] []).1 free).mpr
      (patternsAgree_of_plain (by decide) (by decide))
  · exact (@renameFile_iff _ (folder 12 ['/', 'c']) owner ['/', 'c', 'd']
      ['/', 'c', 'd'] schema found rfl (by decide) ['/', 'c'] (by decide) [] []).2
      ⟨folder 13 ['/', 'c', 'd'], by decide, by decide, by decide, by decide⟩
      (fun g _ _ => inSubtree_of_plain (by decide) g.path)
      fun g _ _ => inSubtree_of_plain (by decide) g.path

/-- Renaming `/a_` to `/d` moves `/ab/x` to `/d/x`. -/
theorem metaFolder_moves_sibling :
    ∃ db, Reachable toySig db ∧
      db.fileById owner 10 = .ok (folder 10 ['/', 'a', '_']) ∧
      db.FreePath (folder 10 ['/', 'a', '_']) ['/', 'd'] ∧
      folder 11 ['/', 'a', 'b', '/', 'x'] ∈
        (db.relocate (folder 10 ['/', 'a', '_']) ['/', 'd']).files ∧
      ∃ db', db.renameFile owner 10 ['/', 'd'] [] =
          .ok (folder 10 ['/', 'd'], db') ∧
        folder 11 ['/', 'd', '/', 'x'] ∈ db'.files := by
  refine ⟨withFolders.db, withFolders_reachable, by decide, ⟨by decide, by decide⟩, by decide,
    { withFolders.db with
      files := [fileAt ['/', 'c', '/', 'f'], folder 10 ['/', 'd'],
        folder 11 ['/', 'd', '/', 'x'], folder 12 ['/', 'c'],
        folder 13 ['/', 'c', 'd']] }, by decide +kernel, by decide⟩

namespace Sample

def threeLive : DB :=
  { DB.empty with
    buckets := [bucket]
    files := [folder 1 ['/', '%'], folder 2 ['/', '%', '/', 'y'],
      folder 3 ['/', 'd', 'e', '/', 'y']] }

end Sample

/-- With metacharacters the order of the rows can decide: from `/%` to `/de`, the row of `/%/y`
meets `/de/y` unless that one, which the pattern selects too, has been moved before. -/
example : (threeLive.renameFile owner 1 ['/', 'd', 'e'] [1, 2, 3]).toOption = none ∧
    ((threeLive.renameFile owner 1 ['/', 'd', 'e'] [1, 3, 2]).toOption.map fun r =>
      r.2.files.map File.path) =
        some [['/', 'd', 'e'], ['/', 'd', 'e', '/', 'y'], ['/', 'd', 'e', 'e', '/', 'y']] := by
  decide +kernel

end StoragePlatform
