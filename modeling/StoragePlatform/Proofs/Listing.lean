/-
Module: StoragePlatform.Proofs.Listing
Purpose: The pages of a listing, from the empty cursor to the last one, are the listing.
Trusted boundary: none
Main exports: Collation, File.inListing, DB.listAll, reachable_pathsRooted
-/
import Mathlib.Data.Char
import Mathlib.Data.List.Lex
import StoragePlatform.Proofs.Paths
import StoragePlatform.Proofs.Tenants

namespace StoragePlatform

open Lib List Sample

/-!
A page is the beginning of the files after the cursor.  Its cursor is the path of its last
file, and what is after that path is what the page has left over.  So each call continues
where the last one stopped, and the number of files left falls with every page.
-/

/-! ### The listing -/

/-- The order of the text columns: a strict total order that begins with the empty text. -/
structure Collation where
  before : Text → Text → Bool
  asymm : ∀ p q, before p q = true → before q p = false
  trans : ∀ p q r, before p q = true → before q r = true → before p r = true
  total : ∀ p q, p ≠ q → before p q = true ∨ before q p = true
  least : ∀ p, p ≠ [] → before [] p = true

/-- What the query asks of a file beside the cursor. -/
def File.inListing (bucketId : Uuid) (folder : Text) (f : File) : Prop :=
  f.bucketId = bucketId ∧ f.deletedAt = none ∧
    (folder = [] ∨ f.path = folder ∨ like (folder ++ ['/', '%']) f.path = true)

/-- A file as a listing shows it. -/
def File.shown (f : File) : File := { f with currentVersion := none }

section Listing

variable {order : Collation} {db : DB} {ownerId bucketId : Uuid} {b : Bucket}
  {folder cursor : Text} {limit : Int}

/-- A file comes before another. -/
def Collation.Lt (order : Collation) (f g : File) : Prop := order.before f.path g.path = true

instance : Std.Asymm order.Lt :=
  ⟨fun f g less more => by
    rw [Collation.Lt, order.asymm _ _ less] at more
    cases more⟩

theorem DB.mem_listedFiles (owned : db.bucketById ownerId bucketId = .ok b) {f : File} :
    f ∈ db.listedFiles order.before ownerId bucketId folder cursor ↔
      f ∈ db.files ∧ f.inListing bucketId folder ∧ order.before cursor f.path = true := by
  obtain ⟨isBucket, rfl, rfl⟩ := bucketById_mem owned
  simp only [listedFiles, mem_orderBy, mem_map, mem_filter, Prod.exists, mem_innerJoin,
    decide_eq_true_eq, exists_and_right, exists_eq_right, File.inListing]
  constructor
  · rintro ⟨b', ⟨member, -, -⟩, ofBucket, -, live, under, later⟩
    exact ⟨member, ⟨ofBucket, live, under⟩, later⟩
  · rintro ⟨member, ⟨ofBucket, live, under⟩, later⟩
    exact ⟨b, ⟨member, isBucket, ofBucket.symm⟩, ofBucket, rfl, live, under, later⟩

theorem DB.listedFiles_nodup (keyed : db.Keyed) (before : Text → Text → Bool) :
    (db.listedFiles before ownerId bucketId folder cursor).Nodup := by
  rw [listedFiles, (orderBy_perm _ _).nodup_iff]
  have rows : (innerJoin (fun (f : File) (b : Bucket) => decide (b.id = f.bucketId))
      db.files db.buckets).Nodup :=
    nodup_innerJoin keyed.schema.file_pk.nodup keyed.bucket_pk.nodup
  refine (rows.filter _).map_on ?_
  -- the bucket of a join row is determined by its file
  rintro ⟨f, b⟩ inRows ⟨f', b'⟩ inRows' rfl
  have joined := (mem_filter.mp inRows).1
  have joined' := (mem_filter.mp inRows').1
  rw [mem_innerJoin, decide_eq_true_eq] at joined joined'
  rw [keyed.bucket_pk.eq_of_key joined.2.1 joined'.2.1 (joined.2.2.trans joined'.2.2.symm)]

/-- The rows of the query are in increasing order. -/
theorem DB.listedFiles_sorted (keyed : db.Keyed) (owned : db.bucketById ownerId bucketId = .ok b) :
    (db.listedFiles order.before ownerId bucketId folder cursor).Pairwise order.Lt := by
  have weakly : (db.listedFiles order.before ownerId bucketId folder cursor).Pairwise
      fun f g => (!order.before g.path f.path) = true := by
    refine orderBy_pairwise (fun f g => ?_) (fun f g h fg gh => ?_) _
    · cases less : order.before g.path f.path with
      | false => exact .inl rfl
      | true => simp [order.asymm _ _ less]
    · rw [Bool.not_eq_true'] at fg gh ⊢
      by_contra less
      rw [Bool.not_eq_false] at less
      -- the file in the middle has the path of the first or a later one
      by_cases same : f.path = g.path
      · rw [same, gh] at less
        cases less
      · have next := (order.total _ _ same).resolve_right (by rw [fg]; exact Bool.false_ne_true)
        rw [order.trans _ _ _ less next] at gh
        cases gh
  have distinct := @DB.listedFiles_nodup db ownerId bucketId folder cursor keyed order.before
  refine (weakly.and distinct).imp_of_mem fun {f g} inList inList' both => ?_
  obtain ⟨inFiles, ⟨ofBucket, live, -⟩, -⟩ := (mem_listedFiles owned).mp inList
  obtain ⟨inFiles', ⟨ofBucket', live', -⟩, -⟩ := (mem_listedFiles owned).mp inList'
  have paths : f.path ≠ g.path := by
    intro same
    refine both.2 (keyed.schema.file_live_path.eq_of_key ?_ ?_ ?_)
    · exact mem_filter.mpr ⟨inFiles, by rw [live]; rfl⟩
    · exact mem_filter.mpr ⟨inFiles', by rw [live']; rfl⟩
    · exact Prod.ext (ofBucket.trans ofBucket'.symm) same
  rcases order.total f.path g.path paths with less | more
  · exact less
  · rw [more] at both
    exact absurd both.1 Bool.false_ne_true

/-- After the path of a file that is listed come the files that are listed after it. -/
theorem DB.listedFiles_after (keyed : db.Keyed) (owned : db.bucketById ownerId bucketId = .ok b)
    {early late : List File} {f : File}
    (listed : db.listedFiles order.before ownerId bucketId folder cursor = early ++ f :: late) :
    db.listedFiles order.before ownerId bucketId folder f.path = late := by
  have sorted := @DB.listedFiles_sorted order db ownerId bucketId b folder cursor keyed owned
  have inside : ∀ g, g ∈ early ++ f :: late ↔ _ := fun g =>
    listed ▸ @DB.mem_listedFiles order db ownerId bucketId b folder cursor owned g
  have later : order.before cursor f.path = true :=
    ((inside f).mp (mem_append_right _ mem_cons_self)).2.2
  rw [listed] at sorted
  refine eq_of_sorted_of_mem_iff (listedFiles_sorted keyed owned)
    (pairwise_cons.mp (pairwise_append.mp sorted).2.1).2 fun g => ?_
  rw [mem_after_iff sorted, inside g, mem_listedFiles owned]
  constructor
  · rintro ⟨member, asked, after⟩
    exact ⟨⟨member, asked, order.trans _ _ _ later after⟩, after⟩
  · rintro ⟨⟨member, asked, -⟩, after⟩
    exact ⟨member, asked, after⟩

/-! ### One page -/

theorem listLimit_pos (limit : Int) : 0 < listLimit limit := by
  rw [listLimit]
  split
  · decide
  · split
    · decide
    · omega

/-- One call: everything that is left, or as much as the limit allows and the path of the
last file of it. -/
theorem DB.listFiles_eq (owned : db.bucketById ownerId bucketId = .ok b) :
    db.listFiles order.before ownerId bucketId folder cursor limit =
      let left := db.listedFiles order.before ownerId bucketId folder cursor
      if listLimit limit < left.length then
        .ok ((left.take (listLimit limit)).map File.shown,
          ((left.take (listLimit limit)).getLast?.map File.path).getD [])
      else .ok (left.map File.shown, []) := by
  have path_shown : File.path ∘ File.shown = File.path := rfl
  simp only [listFiles, owned]
  generalize db.listedFiles order.before ownerId bucketId folder cursor = left
  change (if _ < ((left.take (listLimit limit + 1)).map File.shown).length then _ else _) = _
  have more : listLimit limit < ((left.take (listLimit limit + 1)).map File.shown).length ↔
      listLimit limit < left.length := by
    rw [length_map, length_take]
    omega
  by_cases left_over : listLimit limit < left.length
  · have page : ((left.take (listLimit limit + 1)).map File.shown).take (listLimit limit) =
        (left.take (listLimit limit)).map File.shown := by
      rw [← map_take, take_take, Nat.min_eq_left (Nat.le_succ _)]
    rw [if_pos left_over, if_pos (more.mpr left_over)]
    change Except.ok (((left.take (listLimit limit + 1)).map File.shown).take (listLimit limit),
      ((((left.take (listLimit limit + 1)).map File.shown).take (listLimit limit)).getLast?.map
        File.path).getD []) = _
    rw [page, getLast?_map, Option.map_map, path_shown]
  · rw [if_neg left_over, if_neg (mt more.mp left_over), take_of_length_le (by omega)]
    rfl

/-! ### All pages -/

/-- Follows the cursors that the calls return, until one is empty. -/
def DB.listAll (db : DB) (before : Text → Text → Bool) (ownerId bucketId : Uuid) (folder : Text)
    (limit : Int) : Nat → Text → Option (List (List File))
  | 0, _ => none
  | fuel + 1, cursor =>
    match db.listFiles before ownerId bucketId folder cursor limit with
    | .error _ => none
    | .ok (page, next) =>
      if next = [] then some [page]
      else (db.listAll before ownerId bucketId folder limit fuel next).map (page :: ·)

/-- The pages are of the limit but for the last, which is not longer. -/
structure Pages (limit : Int) (pages : List (List File)) : Prop where
  bounded : ∀ page ∈ pages, page.length ≤ listLimit limit
  full : ∀ page ∈ pages.dropLast, page.length = listLimit limit

/-- From a cursor on, the pages are what is listed after it. -/
theorem DB.pages_from (keyed : db.Keyed) (owned : db.bucketById ownerId bucketId = .ok b)
    (named : ∀ f ∈ db.files, f.deletedAt = none → f.path ≠ []) (fuel : Nat)
    (enough : (db.listedFiles order.before ownerId bucketId folder cursor).length < fuel) :
    ∃ pages, db.listAll order.before ownerId bucketId folder limit fuel cursor = some pages ∧
      pages ≠ [] ∧ Pages limit pages ∧
      pages.flatten =
        (db.listedFiles order.before ownerId bucketId folder cursor).map File.shown := by
  induction fuel generalizing cursor with
  | zero => omega
  | succ fuel ih =>
    have positive := listLimit_pos limit
    have call := @DB.listFiles_eq order db ownerId bucketId b folder cursor limit owned
    dsimp only at call
    by_cases more : listLimit limit <
        (db.listedFiles order.before ownerId bucketId folder cursor).length
    · -- the page ends with a file, and the rest comes after its path
      rw [if_pos more] at call
      generalize listed : db.listedFiles order.before ownerId bucketId folder cursor = left
        at call more enough
      obtain ⟨early, last, page, parts⟩ := take_eq_concat positive more
      have rest := DB.listedFiles_after keyed owned (listed.trans parts)
      have continues : last.path ≠ [] := by
        have inList : last ∈ db.listedFiles order.before ownerId bucketId folder cursor := by
          rw [listed, parts]
          exact mem_append_right _ mem_cons_self
        obtain ⟨member, ⟨-, live, -⟩, -⟩ := (mem_listedFiles owned).mp inList
        exact named last member live
      have fewer : (left.drop (listLimit limit)).length < fuel := by
        rw [length_drop]
        omega
      obtain ⟨pages, run, some_page, sizes, whole⟩ := @ih last.path (by rw [rest]; exact fewer)
      have length : ((left.take (listLimit limit)).map File.shown).length = listLimit limit := by
        rw [length_map, length_take]
        omega
      refine ⟨(left.take (listLimit limit)).map File.shown :: pages, ?_, cons_ne_nil _ _,
        ⟨?_, ?_⟩, ?_⟩
      · have next : ((left.take (listLimit limit)).getLast?.map File.path).getD [] =
            last.path := by simp [page]
        rw [listAll, call]
        dsimp only
        rw [next, if_neg continues, run]
        rfl
      · exact forall_mem_cons.mpr ⟨length.le, sizes.bounded⟩
      · rw [dropLast_cons_of_ne_nil some_page]
        exact forall_mem_cons.mpr ⟨length, sizes.full⟩
      · rw [flatten_cons, whole, rest, ← map_append, take_append_drop]
    · rw [if_neg more] at call
      refine ⟨[_], ?_, cons_ne_nil _ _, ⟨?_, ?_⟩, flatten_singleton⟩
      · rw [listAll, call]
        rfl
      · intro page member
        rw [mem_singleton.mp member, length_map]
        exact not_lt.mp more
      · exact fun page member => absurd member not_mem_nil

/-- With as many calls as there are files and one more, the loop ends.  The pages it has seen
are the files the query asks for, in increasing order and so each once. -/
theorem listing_exact (order : Collation) (keyed : db.Keyed)
    (named : ∀ f ∈ db.files, f.deletedAt = none → f.path ≠ [])
    (owned : db.bucketById ownerId bucketId = .ok b) (folder : Text) (limit : Int) {fuel : Nat}
    (enough : db.files.length < fuel) :
    ∃ pages, db.listAll order.before ownerId bucketId folder limit fuel [] = some pages ∧
      Pages limit pages ∧ pages.flatten.Pairwise order.Lt ∧
      ∀ shown, shown ∈ pages.flatten ↔
        ∃ f ∈ db.files, f.inListing bucketId folder ∧ shown = f.shown := by
  have distinct := @DB.listedFiles_nodup db ownerId bucketId folder [] keyed order.before
  have few : (db.listedFiles order.before ownerId bucketId folder []).length ≤ db.files.length :=
    (distinct.subperm fun f member => ((DB.mem_listedFiles owned).mp member).1).length_le
  obtain ⟨pages, run, -, sizes, whole⟩ := @DB.pages_from order db ownerId bucketId b folder []
    limit keyed owned named fuel (by omega)
  refine ⟨pages, run, sizes, ?_, fun shown => ?_⟩
  · rw [whole, pairwise_map]
    exact DB.listedFiles_sorted keyed owned
  · rw [whole, mem_map]
    constructor
    · rintro ⟨f, member, rfl⟩
      obtain ⟨inFiles, asked, -⟩ := (DB.mem_listedFiles owned).mp member
      exact ⟨f, inFiles, asked, rfl⟩
    · rintro ⟨f, inFiles, asked, rfl⟩
      have after : order.before [] f.path = true := order.least _ (named f inFiles asked.2.1)
      exact ⟨f, (DB.mem_listedFiles owned).mpr ⟨inFiles, asked, after⟩, rfl⟩

end Listing

namespace Sample

/-- The order of the C collation. -/
def byCodepoint : Collation where
  before p q := decide (p < q)
  asymm p q less := decide_eq_false (lt_asymm (of_decide_eq_true less))
  trans p q r first second :=
    decide_eq_true (lt_trans (of_decide_eq_true first) (of_decide_eq_true second))
  total p q differ := (lt_or_gt_of_ne differ).imp decide_eq_true decide_eq_true
  least p nonempty := by
    cases p with
    | nil => exact absurd rfl nonempty
    | cons c p => exact decide_eq_true (nil_lt_cons c p)

/-- Three files in the bucket. -/
def threeFiles : DB :=
  { DB.empty with
    buckets := [bucket]
    files := [('c', 43), ('a', 41), ('b', 42)].map fun (name, id) =>
      { id := id, bucketId := bucket.id, path := ['/', name], isFolder := true,
        currentVersion := none, status := .active, deletedAt := none } }

theorem threeFiles_keyed : threeFiles.Keyed := by
  refine ⟨{ DB.Schema.empty with file_pk := ?_, file_live_path := ?_, version_file := ?_ }, ?_⟩
  · decide
  · decide
  · exact fun v member => absurd member not_mem_nil
  · decide

end Sample

theorem threeFiles_listed :
    ∃ pages, threeFiles.listAll byCodepoint.before owner bucket.id [] 2
        4 [] = some pages ∧ Pages 2 pages ∧ pages.flatten.Pairwise byCodepoint.Lt ∧
      ∀ shown, shown ∈ pages.flatten ↔ ∃ f ∈ threeFiles.files,
        f.inListing bucket.id [] ∧ shown = f.shown :=
  @listing_exact threeFiles owner bucket.id bucket byCodepoint
    threeFiles_keyed (by decide) rfl [] 2 4 (by decide)

/-! ### Paths -/

/-- Every path begins with a slash. -/
def DB.PathsRooted (db : DB) : Prop := ∀ f ∈ db.files, f.path.head? = some '/'

theorem DB.PathsRooted.named {db : DB} (rooted : db.PathsRooted) :
    ∀ f ∈ db.files, f.deletedAt = none → f.path ≠ [] := by
  intro f member _ empty
  have start := rooted f member
  rw [empty] at start
  cases start

theorem Written.pathsRooted {s : System} {e : Event} {db' : DB} (written : Written s e db')
    (rooted : s.db.PathsRooted) : db'.PathsRooted := by
  intro f member
  cases written.fileFrom member with
  | kept old | committed old | deleted old => exact (rooted _ old :)
  | renamed old clean =>
    rw [head?_append, head?_of_ok clean]
    rfl
  | added _ _ clean => exact head?_of_ok clean

/-- In every state the control plane reaches, so that the files of such a state can be
listed. -/
theorem reachable_pathsRooted {sigOk : SigCheck} {db : DB} (reachable : Reachable sigOk db) :
    db.PathsRooted := by
  obtain ⟨events, s, run, rfl⟩ := reachable
  exact exec_induction (I := fun s : System => s.db.PathsRooted)
    (fun s e t rooted moved => (step_written moved).pathsRooted rooted)
    (fun f member => absurd member not_mem_nil) run

end StoragePlatform
