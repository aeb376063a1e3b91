import Mathlib.Data.List.Nodup
import KeyLint.Proofs.Project.FileSystem

/-!
# What a walk gives to the files below a directory

A walk names a file below a directory by the path of the directory with names joined to it. Such a
path leads where the names lead, so two of them that begin with the same path and lead to the same
file are the same text.
-/

namespace KeyLint

namespace Path

/-- A path with names joined to it, one after the other. -/
def under (path : Text) (names : List Text) : Text :=
  names.foldl join path

theorem under_append (path : Text) (names more : List Text) :
    under path (names ++ more) = under (under path names) more :=
  List.foldl_append

theorem under_concat (path : Text) (names : List Text) (name : Text) :
    under path (names ++ [name]) = join (under path names) name :=
  under_append path names [name]

/-- A slash at the end of a path takes the place of the one that would be put there. -/
theorem join_join_nil (path name : Text) : join (join path []) name = join path name := by
  rcases List.eq_nil_or_concat' path with rfl | ⟨s, c, rfl⟩
  · rfl
  · by_cases hc : c = '/' <;> simp [join, isAbsolute, hc]

theorem under_join_nil (path : Text) {names : List Text} (hnames : names ≠ []) :
    under (join path []) names = under path names := by
  cases names with
  | nil => exact absurd rfl hnames
  | cons name names => rw [under, List.foldl_cons, join_join_nil, ← List.foldl_cons, ← under]

/-- What stands in front of a relative path does not depend on the path. -/
theorem exists_join_eq (base : Text) :
    ∃ start, ∀ path, isAbsolute path = false → join base path = start ++ path := by
  refine ⟨if base.isEmpty || base.getLast? = some '/' then base else base ++ ['/'], ?_⟩
  intro path hpath
  rw [join, if_neg (by simp [hpath])]
  split_ifs <;> rfl

theorem join_append_slash {first rest : Text} (hfirst : IsName first)
    (hrest : isAbsolute rest = false) (base : Text) :
    join base (first ++ '/' :: rest) = join (join base first) rest := by
  have hrelative : isAbsolute (first ++ '/' :: rest) = false := by
    obtain ⟨c, cs, rfl⟩ := List.exists_cons_of_ne_nil hfirst.ne_nil
    simpa [isAbsolute] using isAbsolute_of_noSlash hfirst.noSlash
  have hlast : first.getLast? ≠ some '/' :=
    fun hslash => hfirst.noSlash (List.mem_of_getLast? hslash)
  obtain ⟨start, hstart⟩ := exists_join_eq base
  rw [hstart _ hrelative, hstart _ (isAbsolute_of_noSlash hfirst.noSlash)]
  simp [join, hrest, hlast, hfirst.ne_nil]

/-- To join a path of names is to join the names. -/
theorem join_eq_under {path : Text} (h : ∀ piece ∈ pieces path, IsName piece) (base : Text) :
    join base path = under base (pieces path) := by
  generalize hpieces : pieces path = ps at h
  induction ps generalizing base path with
  | nil => exact absurd hpieces (Text.splitWhere_ne_nil _ _)
  | cons first ps ih =>
      obtain ⟨hfirst, hps⟩ := List.forall_mem_cons.mp h
      rcases (Text.of_splitWhere_eq_cons hpieces).2 with ⟨rfl, rfl⟩ | ⟨d, rest, hd, rfl, hrest⟩
      · rfl
      · obtain rfl : d = '/' := of_decide_eq_true hd
        have hrelative : isAbsolute rest = false := by
          cases rest with
          | nil => rfl
          | cons c cs =>
              by_contra hslash
              obtain rfl : c = '/' := by simpa [isAbsolute] using hslash
              subst hrest
              exact (hps [] (by simp [Text.splitWhere])).ne_nil rfl
        rw [join_append_slash hfirst hrelative, ih _ hrest hps]
        rfl

/-- A path is spelled from `stem` with names alone, and perhaps with a slash at its end. -/
def SpelledFrom (stem path : Text) : Prop :=
  ∃ names, (∀ name ∈ names, IsName name) ∧
    (path = under stem names ∨ path = join (under stem names) [])

theorem SpelledFrom.of_names {path : Text} (h : ∀ piece ∈ pieces path, IsName piece) (base : Text) :
    SpelledFrom base (join base path) :=
  ⟨pieces path, h, .inl (join_eq_under h base)⟩

theorem SpelledFrom.refl (stem : Text) : SpelledFrom stem stem :=
  ⟨[], by simp, .inl rfl⟩

end Path

/-! ## Trees as they are on a disk -/

namespace FileTree

/-- The entries of each directory have different names, and none of them could be taken for
something else in a path. -/
inductive IsProper : FileTree → Prop where
  | file (text : Option Text) : IsProper (.file text)
  | directory {entries : List (Text × FileTree)}
      (hnames : ∀ entry ∈ entries, Path.IsName entry.1)
      (hdistinct : (entries.map Prod.fst).Nodup)
      (hbelow : ∀ entry ∈ entries, IsProper entry.2) : IsProper (.directory entries)

theorem lookup_of_mem {entries : List (Text × FileTree)} (hdistinct : (entries.map Prod.fst).Nodup)
    {name : Text} {tree : FileTree} (h : (name, tree) ∈ entries) :
    entries.lookup name = some tree := by
  obtain ⟨before, after, rfl⟩ := List.append_of_mem h
  refine List.lookup_eq_some_iff.mpr ⟨before, after, rfl, fun entry hentry => ?_⟩
  rw [List.map_append, List.map_cons] at hdistinct
  have hne := List.disjoint_of_nodup_append hdistinct (List.mem_map_of_mem hentry)
  exact bne_iff_ne.mpr fun heq => hne (heq ▸ List.mem_cons_self)

theorem mem_of_lookup {entries : List (Text × FileTree)} {name : Text} {tree : FileTree}
    (h : entries.lookup name = some tree) : (name, tree) ∈ entries := by
  obtain ⟨before, after, rfl, _⟩ := List.lookup_eq_some_iff.mp h
  simp

theorem IsProper.of_find? {tree below : FileTree} (h : tree.IsProper) {names : List Text}
    (hfind : tree.find? names = some below) : below.IsProper := by
  induction names generalizing tree with
  | nil =>
      cases hfind
      exact h
  | cons name names ih =>
      obtain ⟨next, hentry, hnext⟩ := Option.bind_eq_some_iff.mp hfind
      cases h with
      | file text => cases hentry
      | directory _ _ hbelow => exact ih (hbelow _ (mem_of_lookup hentry)) hnext

theorem mem_filesIn {path p : Text} {entries : List (Text × FileTree)} :
    p ∈ filesIn path entries ↔ ∃ entry ∈ entries, p ∈ files (Path.join path entry.1) entry.2 := by
  induction entries with
  | nil => simp [filesIn]
  | cons entry entries ih => simp [filesIn, ih]

/-- A walk finds files of the tree, each by the path of the tree with the names that lead to it. -/
theorem IsProper.exists_of_mem_files {tree : FileTree} (h : tree.IsProper) {path p : Text}
    (hp : p ∈ tree.files path) :
    ∃ names text, (∀ name ∈ names, Path.IsName name) ∧ tree.find? names = some (.file text) ∧
      p = Path.under path names := by
  induction h generalizing path with
  | file text =>
      rw [files, List.mem_singleton] at hp
      exact ⟨[], text, by simp, rfl, hp⟩
  | directory hnames hdistinct _ ih =>
      rw [files, mem_filesIn] at hp
      obtain ⟨⟨name, below⟩, hentry, hp⟩ := hp
      obtain ⟨names, text, hall, hfind, rfl⟩ := ih _ hentry hp
      refine ⟨name :: names, text, List.forall_mem_cons.mpr ⟨hnames _ hentry, hall⟩, ?_, rfl⟩
      rw [find?, entry?, lookup_of_mem hdistinct hentry]
      exact hfind

theorem mem_directoriesIn {path p : Text} {entries : List (Text × FileTree)} :
    p ∈ directoriesIn path entries ↔
      ∃ entry ∈ entries, entry.2.isDirectory = true ∧
        (p = Path.join path entry.1 ∨ p ∈ directories (Path.join path entry.1) entry.2) := by
  induction entries with
  | nil => simp [directoriesIn]
  | cons entry entries ih =>
      obtain ⟨name, tree⟩ := entry
      cases tree with
      | file text => simp [directoriesIn, isDirectory, ih]
      | directory below => simp [directoriesIn, directories, isDirectory, ih, or_assoc]

/-- The directories inside a tree have the path of the tree with at least one name. -/
theorem IsProper.exists_of_mem_directories {tree : FileTree} (h : tree.IsProper) {path p : Text}
    (hp : p ∈ tree.directories path) :
    ∃ names, names ≠ [] ∧ (∀ name ∈ names, Path.IsName name) ∧ p = Path.under path names := by
  induction h generalizing path with
  | file text => simp [directories] at hp
  | directory hnames _ _ ih =>
      rw [directories, mem_directoriesIn] at hp
      obtain ⟨⟨name, below⟩, hentry, _, rfl | hp⟩ := hp
      · exact ⟨[name], by simp, by simpa using hnames _ hentry, rfl⟩
      · obtain ⟨names, _, hall, rfl⟩ := ih _ hentry hp
        exact ⟨name :: names, by simp, List.forall_mem_cons.mpr ⟨hnames _ hentry, hall⟩, rfl⟩

end FileTree

/-! ## Where names lead -/

namespace FileSystem

variable {fs : FileSystem} {path : Text} {here place names : List Text}

theorem isDirectoryAt_of_find?_cons {name : Text}
    (h : (fs.root.find? (here ++ name :: names)).isSome = true) :
    fs.IsDirectoryAt here ∧ fs.holds here name = true := by
  rw [FileTree.find?_append] at h
  cases hhere : fs.root.find? here with
  | none => simp [hhere] at h
  | some tree =>
      rw [hhere, Option.bind_some, FileTree.find?] at h
      cases tree with
      | file text => simp [FileTree.entry?] at h
      | directory entries =>
          refine ⟨⟨entries, hhere⟩, ?_⟩
          rw [holds, FileTree.find?_append, hhere, Option.bind_some]
          cases hentry : FileTree.entry? name (.directory entries) with
          | none => simp [hentry] at h
          | some below => simp [FileTree.find?, hentry]

/-- Names joined to a path lead further down, if there is something. -/
theorem follow_under (hpath : fs.follow path = .ok here) (hnames : ∀ name ∈ names, Path.IsName name)
    (hfind : (fs.root.find? (here ++ names)).isSome = true) :
    fs.follow (Path.under path names) = .ok (here ++ names) := by
  induction names generalizing path here with
  | nil => simpa [Path.under] using hpath
  | cons name names ih =>
      obtain ⟨hname, hnames⟩ := List.forall_mem_cons.mp hnames
      obtain ⟨hdir, hholds⟩ := isDirectoryAt_of_find?_cons hfind
      have hstep := (step_of_name hname).mpr ⟨hdir, hholds, rfl⟩
      have hjoin := (follow_join_eq_ok hname.noSlash).mpr ⟨here, hpath, hstep⟩
      have hfurther := ih hjoin hnames (by simpa using hfind)
      simpa [Path.under] using hfurther

/-- A path with names joined to it leads to those names below the place of the path. -/
theorem exists_of_follow_under (hnames : ∀ name ∈ names, Path.IsName name)
    (h : fs.follow (Path.under path names) = .ok place) :
    ∃ here, fs.follow path = .ok here ∧ place = here ++ names := by
  induction names generalizing path with
  | nil => exact ⟨place, h, by simp⟩
  | cons name names ih =>
      obtain ⟨hname, hnames⟩ := List.forall_mem_cons.mp hnames
      obtain ⟨there, hjoin, rfl⟩ := ih hnames h
      obtain ⟨here, hpath, hstep⟩ := (follow_join_eq_ok hname.noSlash).mp hjoin
      obtain ⟨_, _, rfl⟩ := (step_of_name hname).mp hstep
      exact ⟨here, hpath, by simp⟩

/-- Only the path of a directory may end in a slash. -/
theorem follow_join_nil :
    fs.follow (Path.join path []) = .ok here ↔
      fs.follow path = .ok here ∧ fs.IsDirectoryAt here := by
  rw [follow_join_eq_ok (by simp)]
  constructor
  · rintro ⟨there, hpath, hstep⟩
    obtain ⟨hdir, rfl⟩ := (step_of_idle rfl).mp hstep
    exact ⟨hpath, hdir⟩
  · rintro ⟨hpath, hdir⟩
    exact ⟨here, hpath, (step_of_idle rfl).mpr ⟨hdir, rfl⟩⟩

/-- The path by which a walk names a file shows no slash that its root had at the end. -/
theorem exists_under_eq {root stem : Text} (hroot : Path.SpelledFrom stem root)
    (hfollow : fs.follow root = .ok here) (hnames : ∀ name ∈ names, Path.IsName name)
    {text : Option Text} (hfile : fs.root.find? (here ++ names) = some (.file text)) :
    ∃ more, (∀ name ∈ more, Path.IsName name) ∧
      Path.under root names = Path.under stem more := by
  obtain ⟨before, hbefore, rfl | rfl⟩ := hroot
  · exact ⟨before ++ names, List.forall_mem_append.mpr ⟨hbefore, hnames⟩,
      (Path.under_append stem before names).symm⟩
  · have hne : names ≠ [] := by
      -- A file has no path that ends in a slash.
      rintro rfl
      obtain ⟨_, entries, hdir⟩ := follow_join_nil.mp hfollow
      rw [List.append_nil, hdir] at hfile
      cases hfile
    exact ⟨before ++ names, List.forall_mem_append.mpr ⟨hbefore, hnames⟩,
      (Path.under_join_nil _ hne).trans (Path.under_append stem before names).symm⟩

end FileSystem

end KeyLint
