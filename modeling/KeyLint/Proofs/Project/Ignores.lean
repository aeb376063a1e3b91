import KeyLint.Proofs.Project.Sources

/-!
# Directories that are left out

A directory can be ignored by its path, which is compared with the components of what a walk found,
or by a glob, which is compared with the text. The path is taken from the directory that is scanned
and so keeps its spelling; the glob is not. Either one leaves the directory out of a scan whose roots
are spelled in the same way.
-/

namespace KeyLint

/-! ## Components below a path -/

namespace Path

theorem components_append_slash {name : Text} (hname : '/' ∉ name) (s : Text) :
    components (s ++ '/' :: name) = components (s ++ ['/']) ++ componentsOf [name] := by
  obtain ⟨first, rest, hpieces⟩ := List.exists_cons_of_ne_nil
    (Text.splitWhere_ne_nil (fun d => decide (d = '/')) s)
  have hs : pieces s = first :: rest := hpieces
  have habsolute : isAbsolute (s ++ '/' :: name) = isAbsolute (s ++ ['/']) := by
    cases s <;> rfl
  have hidle : componentsOf [[]] = [] := rfl
  rw [components, components, pieces_append_slash, pieces_append_slash, pieces_of_noSlash hname, hs,
    habsolute, show pieces [] = [[]] from rfl]
  simp only [List.cons_append]
  split_ifs
  · simp [componentsOf_append, hidle]
  · simp [componentsOf_append, hidle]
  · simp only [← List.cons_append, componentsOf_append, hidle, List.append_nil]

/-- A name that is joined to a path is one more component. -/
theorem components_join {name : Text} (hname : IsName name) (path : Text) :
    components (join path name) = components path ++ [.name name] := by
  have hcomponent : componentsOf [name] = [.name name] := by
    simp [componentsOf, hname.notIdle, hname.notParent]
  have hrelative := isAbsolute_of_noSlash hname.noSlash
  rcases List.eq_nil_or_concat' path with rfl | ⟨s, c, rfl⟩
  · have hdot : name ≠ ['.'] := by
      rintro rfl
      exact absurd hname.notIdle (by decide)
    have hempty : components [] = [] := rfl
    rw [join, if_neg (by simp [hrelative]), if_pos (by simp), List.nil_append, hempty, components,
      pieces_of_noSlash hname.noSlash]
    simp [hrelative, hdot, hcomponent]
  · by_cases hc : c = '/'
    · subst hc
      rw [join, if_neg (by simp [hrelative]), if_pos (by simp), List.append_assoc,
        List.singleton_append, components_append_slash hname.noSlash, hcomponent]
    · have hslash : join (s ++ [c]) [] = s ++ [c] ++ ['/'] := by
        simp [join, isAbsolute, hc]
      rw [join, if_neg (by simp [hrelative]), if_neg (by simpa using hc), List.append_assoc _ ['/'],
        List.singleton_append, components_append_slash hname.noSlash, hcomponent, ← hslash,
        components_join_nil]

theorem components_under {names : List Text} (h : ∀ name ∈ names, IsName name) (path : Text) :
    components (under path names) = components path ++ names.map .name := by
  induction names generalizing path with
  | nil => simp [under]
  | cons name names ih =>
      obtain ⟨hname, hnames⟩ := List.forall_mem_cons.mp h
      rw [under, List.foldl_cons, ← under, ih hnames, components_join hname]
      simp

/-- What is below a directory starts with the path of the directory. -/
theorem startsWith_under {names more : List Text} (h : ∀ name ∈ names ++ more, IsName name)
    (path : Text) : startsWith (under path (names ++ more)) (under path names) = true := by
  have hnames : ∀ name ∈ names, IsName name := fun name hname => h name (by simp [hname])
  rw [startsWith, List.isPrefixOf_iff_prefix, components_under h, components_under hnames,
    List.map_append, ← List.append_assoc]
  exact List.prefix_append _ _

/-! ## Names with slashes between them -/

theorem join_nil_left (path : Text) : join [] path = path := by
  simp [join]

/-- Names with slashes between them, seen from a directory. -/
theorem join_names {names : List Text} (hne : names ≠ []) (h : ∀ name ∈ names, IsName name)
    (base : Text) : join base (Text.join ['/'] names) = under base names := by
  have hpieces := pieces_join hne fun name hname => (h name hname).noSlash
  rw [join_eq_under (by rwa [hpieces]), hpieces]

theorem under_nil_left {names : List Text} (hne : names ≠ []) (h : ∀ name ∈ names, IsName name) :
    under [] names = Text.join ['/'] names := by
  rw [← join_names hne h, join_nil_left]

end Path

/-! ## Globs for what is below a directory -/

namespace Glob

/-- A character that stands for itself in a glob. -/
def IsOrdinary (c : Char) : Prop :=
  c ≠ '*' ∧ c ≠ '?' ∧ c ≠ '['

instance (c : Char) : Decidable (IsOrdinary c) :=
  inferInstanceAs (Decidable (c ≠ '*' ∧ c ≠ '?' ∧ c ≠ '['))

theorem readFrom_append {s : Text} (h : ∀ c ∈ s, IsOrdinary c) (position : Nat)
    (previous : Option Char) (tokens : List Token) (t : Text) :
    readFrom position previous tokens (s ++ t)
      = readFrom (position + s.length) (s.getLast?.or previous) ((s.map .char).reverse ++ tokens) t := by
  induction s generalizing position previous tokens with
  | nil => simp
  | cons c s ih =>
      obtain ⟨⟨hstar, hmark, hbracket⟩, hs⟩ := List.forall_mem_cons.mp h
      have hlast : s.getLast?.or (some c) = (c :: s).getLast?.or previous := by
        cases hs' : s.getLast? <;> simp [List.getLast?_cons, hs']
      rw [List.cons_append, readFrom, ih hs, hlast]
      · simp [Nat.add_assoc, Nat.add_comm 1]
      all_goals simp [hstar, hmark, hbracket]

/-- A glob for everything below a directory. -/
theorem parse_below {s : Text} (h : ∀ c ∈ s, IsOrdinary c) :
    parse (s ++ "/**".toList) = .ok ⟨(s ++ ['/']).map .char ++ [.anyDirectories]⟩ := by
  have hslash : ∀ c ∈ s ++ ['/'], IsOrdinary c := by
    refine List.forall_mem_append.mpr ⟨h, List.forall_mem_singleton.mpr ?_⟩
    decide
  have htext : s ++ "/**".toList = (s ++ ['/']) ++ ['*', '*'] := by simp
  have hadd : ∀ tokens, addDirectories (.char '/' :: tokens) = .anyDirectories :: .char '/' :: tokens :=
    fun _ => rfl
  rw [parse, htext, readFrom_append hslash]
  simp [readFrom, hadd, Except.map]

theorem describes_append (s : Text) (tokens : List Token) (t : Text) :
    describes (s.map .char ++ tokens) (s ++ t) = describes tokens t := by
  induction s with
  | nil => rfl
  | cons c s ih => simp [describes, ih]

theorem describes_anyDirectories (t : Text) : describes [.anyDirectories] t = true := by
  simp [describes]

end Glob

/-! ## What an entry ignores -/

namespace IgnoreSet

/-- One more entry takes nothing away. -/
theorem subset_ofList_cons (base first : Text) (ignores : List Text) :
    (ofList base ignores).1.paths ⊆ (ofList base (first :: ignores)).1.paths ∧
    (ofList base ignores).1.globs ⊆ (ofList base (first :: ignores)).1.globs := by
  rw [ofList.eq_2]
  cases Glob.isWildcard first with
  | false => simp
  | true => cases Glob.parse first <;> simp

theorem join_mem_paths {base t : Text} {ignores : List Text} (ht : t ∈ ignores)
    (hpath : Glob.isWildcard t = false) : Path.join base t ∈ (ofList base ignores).1.paths := by
  induction ignores with
  | nil => cases ht
  | cons first ignores ih =>
      rcases List.mem_cons.mp ht with rfl | ht
      · simp [ofList, hpath]
      · exact (subset_ofList_cons base first ignores).1 (ih ht)

theorem mem_globs {base t : Text} {ignores : List Text} {g : Glob} (ht : t ∈ ignores)
    (hglob : Glob.isWildcard t = true) (hparse : Glob.parse t = .ok g) :
    g ∈ (ofList base ignores).1.globs := by
  induction ignores with
  | nil => cases ht
  | cons first ignores ih =>
      rcases List.mem_cons.mp ht with rfl | ht
      · simp [ofList, hglob, hparse]
      · exact (subset_ofList_cons base first ignores).2 (ih ht)

end IgnoreSet

/-- How an entry of the ignores names a directory. -/
inductive IgnoreForm where
  /-- By its path. -/
  | path
  /-- By a glob for everything below it. -/
  | below
deriving Repr, DecidableEq

namespace IgnoreForm

/-- The entry for the directory that names lead to. -/
def entry (names : List Text) : IgnoreForm → Text
  | path => Text.join ['/'] names
  | below => Text.join ['/'] names ++ "/**".toList

/-- The stem that the paths of ignored files are spelled from: a path is taken from the directory
that is scanned, a glob is taken as it is. -/
def stem (base : Text) : IgnoreForm → Text
  | path => base
  | below => []

/-- A character that does not change the meaning of an entry. Brackets of a path are taken as they
are. -/
def Allows (c : Char) : IgnoreForm → Prop
  | path => c ≠ '*' ∧ c ≠ '?'
  | below => Glob.IsOrdinary c

instance (c : Char) : (form : IgnoreForm) → Decidable (form.Allows c)
  | path => inferInstanceAs (Decidable (c ≠ '*' ∧ c ≠ '?'))
  | below => inferInstanceAs (Decidable (Glob.IsOrdinary c))

/-- What is spelled from the stem and lies below the directory is ignored. -/
theorem ignores_under {form : IgnoreForm} {base : Text} {ignores names more : List Text}
    (hentry : form.entry names ∈ ignores) (hnames : names ≠ []) (hmore : more ≠ [])
    (hall : ∀ name ∈ names ++ more, Path.IsName name)
    (hallowed : ∀ name ∈ names, ∀ c ∈ name, form.Allows c) :
    (IgnoreSet.ofList base ignores).1.ignores (Path.under (form.stem base) (names ++ more))
      = true := by
  have hhead : ∀ name ∈ names, Path.IsName name := fun name hname => hall name (by simp [hname])
  rw [IgnoreSet.ignores, Bool.or_eq_true, List.any_eq_true, List.any_eq_true]
  cases form with
  | path =>
      have hchars : ∀ c ∈ Text.join ['/'] names, c ≠ '*' ∧ c ≠ '?' :=
        Text.forall_mem_join (by simp) hallowed
      have hliteral : Glob.isWildcard (Text.join ['/'] names) = false := by
        simp only [Glob.isWildcard, Bool.or_eq_false_iff, List.contains_eq_mem, decide_eq_false_iff_not]
        exact ⟨fun h => (hchars _ h).1 rfl, fun h => (hchars _ h).2 rfl⟩
      exact .inl ⟨_, IgnoreSet.join_mem_paths hentry hliteral,
        Path.join_names hnames hhead base ▸ Path.startsWith_under hall base⟩
  | below =>
      have hchars : ∀ c ∈ Text.join ['/'] names, Glob.IsOrdinary c :=
        Text.forall_mem_join (by simp [Glob.IsOrdinary]) hallowed
      have hwildcard : Glob.isWildcard (below.entry names) = true := by
        simp [Glob.isWildcard, entry]
      refine .inr ⟨_, IgnoreSet.mem_globs hentry hwildcard (Glob.parse_below hchars), ?_⟩
      have hpath : Path.under [] (names ++ more)
          = (Text.join ['/'] names ++ ['/']) ++ Text.join ['/'] more := by
        rw [Path.under_nil_left (by simp [hnames]) hall, Text.join_eq_intercalate,
          Text.intercalate_append hnames hmore, ← Text.join_eq_intercalate,
          ← Text.join_eq_intercalate]
      rw [stem, hpath, Glob.accepts, Glob.describes_append]
      exact Glob.describes_anyDirectories _

end IgnoreForm

/-! ## Scans -/

/-- A scan returns no file below the directory that names lead to from the directory `base`. -/
def Scan.LeavesOut (fs : FileSystem) (s : Scan) (base : Text) (names : List Text) : Prop :=
  ∀ p ∈ s.files, ∀ here below, fs.follow base = .ok here → below ≠ [] →
    fs.locate p ≠ .ok (here ++ names ++ below)

theorem not_ignores_of_mem_scan {fs : FileSystem} {base p : Text} {includes ignores : List Text}
    (hp : p ∈ (scan fs base includes ignores).files) :
    (IgnoreSet.ofList base ignores).1.ignores p = false := by
  rw [scan, List.mem_eraseDups] at hp
  have hkept := (List.mem_filter.mp hp).2
  simp only [Bool.and_eq_true, Bool.not_eq_true'] at hkept
  exact hkept.1

/-- Where a file that is found from a root spelled from a stem lies, seen from the stem. -/
theorem FileSystem.Finds.exists_under_stem {fs : FileSystem} {root p stem : Text}
    {here names place : List Text} (h : fs.Finds root here names p)
    (hroot : Path.SpelledFrom stem root) (hplace : fs.locate p = .ok place) :
    ∃ origin more, fs.follow stem = .ok origin ∧ place = origin ++ more ∧
      p = Path.under stem more ∧ ∀ name ∈ more, Path.IsName name := by
  obtain ⟨_, hfile⟩ := h.isFile
  obtain ⟨more, hmore, heq⟩ := FileSystem.exists_under_eq hroot h.follow_root h.isName hfile
  have hfollow := h.follow
  rw [h.eq_under, heq] at hfollow
  obtain ⟨origin, horigin, hsame⟩ := FileSystem.exists_of_follow_under hmore hfollow
  obtain rfl : here ++ names = place := Except.ok.inj (h.locate.symm.trans hplace)
  exact ⟨origin, more, horigin, hsame, h.eq_under.trans heq, hmore⟩

/-- A root that leads apart from a directory finds no file in it. -/
theorem FileSystem.Finds.not_below_of_leadApart {fs : FileSystem} {root p base : Text}
    {here names there dir below : List Text} (h : fs.Finds root here names p)
    (hbase : fs.follow base = .ok there) (hne : dir ≠ []) (hdir : ∀ name ∈ dir, Path.IsName name)
    (hapart : fs.LeadApart root (Path.under base dir)) :
    fs.locate p ≠ .ok (there ++ dir ++ below) := by
  intro hplace
  have hsame : here ++ names = there ++ dir ++ below := Except.ok.inj (h.locate.symm.trans hplace)
  obtain ⟨text, hfile⟩ := h.isFile
  -- There is something at the directory, since there is something below it.
  have hexists : (fs.root.find? (there ++ dir)).isSome = true := by
    rw [hsame, FileTree.find?_append] at hfile
    cases hfind : fs.root.find? (there ++ dir) with
    | none => simp [hfind] at hfile
    | some tree => rfl
  have hlocate : fs.locate (Path.under base dir) = .ok (there ++ dir) := by
    rw [fs.locate_eq_follow, FileSystem.follow_under hbase hdir hexists]
    obtain ⟨before, name, rfl⟩ := (List.eq_nil_or_concat' dir).resolve_left hne
    rw [Path.under_concat]
    exact FileSystem.join_ne_nil (hdir name (by simp)) _
  obtain ⟨hle, hge⟩ := hapart _ _ h.root_leads hlocate
  rcases List.prefix_or_prefix_of_prefix ⟨names, hsame⟩ (List.prefix_append (there ++ dir) below)
    with hprefix | hprefix
  · exact hle hprefix
  · exact hge hprefix

/-- A directory that the ignores name is left out, if every root is spelled from the stem of the
entry or leads apart from the directory. -/
theorem leavesOut_of_roots {fs : FileSystem} (hfs : fs.root.IsProper) (form : IgnoreForm)
    {base : Text} {dir includes ignores : List Text} (hentry : form.entry dir ∈ ignores)
    (hne : dir ≠ []) (hdir : ∀ name ∈ dir, Path.IsName name ∧ ∀ c ∈ name, form.Allows c)
    (hstem : fs.follow (form.stem base) = fs.follow base)
    (hroots : ∀ root ∈ (scanRoots fs base includes).1, Path.SpelledFrom (form.stem base) root ∨
      fs.LeadApart root (Path.under base dir)) :
    (scan fs base includes ignores).LeavesOut fs base dir := by
  intro p hp there below hbase hbelow hplace
  obtain ⟨root, hroot, here, names, hfinds⟩ := finds_of_mem_scan hfs hp
  rcases hroots root hroot with hfrom | hapart
  · obtain ⟨origin, more, horigin, hsame, rfl, hmore⟩ := hfinds.exists_under_stem hfrom hplace
    obtain rfl : origin = there := Except.ok.inj (horigin.symm.trans (hstem.trans hbase))
    obtain rfl : dir ++ below = more := by
      rw [List.append_assoc] at hsame
      exact List.append_cancel_left hsame
    have hallowed : ∀ name ∈ dir, ∀ c ∈ name, form.Allows c := fun name hname => (hdir name hname).2
    have hkept := not_ignores_of_mem_scan hp
    rw [IgnoreForm.ignores_under hentry hne hbelow hmore hallowed] at hkept
    cases hkept
  · have hnames : ∀ name ∈ dir, Path.IsName name := fun name hname => (hdir name hname).1
    exact hfinds.not_below_of_leadApart hbase hne hnames hapart hplace

/-- A directory that is ignored by its path is left out of every scan whose includes are plain paths
of names, or which has none. -/
theorem leavesOut_of_names {fs : FileSystem} (hfs : fs.root.IsProper) {base : Text}
    {dir includes ignores : List Text} (hentry : IgnoreForm.path.entry dir ∈ ignores)
    (hne : dir ≠ []) (hdir : ∀ name ∈ dir, Path.IsName name ∧ ∀ c ∈ name, IgnoreForm.path.Allows c)
    (hliteral : ∀ t ∈ includes, Glob.isWildcard t = false)
    (hnames : ∀ t ∈ includes, ∀ piece ∈ Path.pieces t, Path.IsName piece) :
    (scan fs base includes ignores).LeavesOut fs base dir := by
  refine leavesOut_of_roots hfs .path hentry hne hdir rfl fun root hroot => .inl ?_
  rcases mem_scanRoots.mp hroot with ⟨_, rfl⟩ | ⟨t, ht, hroot⟩
  · exact .refl _
  · have hfrom : IsIncludeFrom base base t := by
      rw [IsIncludeFrom, if_neg (by simp [hliteral t ht])]
      exact .of_names (hnames t ht) base
    exact spelledFrom_of_mem_rootsOf hfs hfrom hroot

/-- A directory that the ignores name by its path or by a glob is left out, if the roots of every
include are spelled from the stem of the entry or lead apart from the directory. -/
theorem scan_leavesOut {fs : FileSystem} (hfs : fs.root.IsProper) (form : IgnoreForm) {base : Text}
    {dir includes ignores : List Text} (hentry : form.entry dir ∈ ignores) (hne : dir ≠ [])
    (hdir : ∀ name ∈ dir, Path.IsName name ∧ ∀ c ∈ name, form.Allows c)
    (hstem : fs.follow (form.stem base) = fs.follow base)
    (hnone : includes = [] → Path.SpelledFrom (form.stem base) base)
    (hincludes : ∀ t ∈ includes, IsIncludeFrom (form.stem base) base t ∨
      ∀ root ∈ rootsOf fs base t, fs.LeadApart root (Path.under base dir)) :
    (scan fs base includes ignores).LeavesOut fs base dir := by
  refine leavesOut_of_roots hfs form hentry hne hdir hstem fun root hroot => ?_
  rcases mem_scanRoots.mp hroot with ⟨hempty, rfl⟩ | ⟨t, ht, hroot⟩
  · exact .inl (hnone hempty)
  · rcases hincludes t ht with hfrom | hapart
    · exact .inl (spelledFrom_of_mem_rootsOf hfs hfrom hroot)
    · exact .inr (hapart root hroot)

/-- From a directory that is written as a dot, the path leaves a directory out of a literal include
and the glob leaves it out of a glob. -/
theorem scan_leavesOut_of_layeredProject :
    (scan layeredProject "./".toList ["src".toList] ["src/shared".toList]).LeavesOut layeredProject
      "./".toList ["src".toList, "shared".toList] ∧
    (scan layeredProject "./".toList ["s*".toList] ["src/shared/**".toList]).LeavesOut layeredProject
      "./".toList ["src".toList, "shared".toList] ∧
    (scan layeredProject "./".toList ["s*".toList] ["src/shared/**".toList]).files
      = ["src/a.ts".toList] := by
  have hliteral : IsIncludeFrom "./".toList "./".toList "src".toList :=
    ⟨["src".toList], by decide, .inl (by decide)⟩
  have hglob : IsIncludeFrom [] "./".toList "s*".toList := by
    intro gs hgs
    have hcomponents : Glob.components "./s*".toList
        = .ok [⟨[.char '.']⟩, ⟨[.char 's', .anySequence]⟩] := by
      decide +kernel
    obtain rfl := Except.ok.inj (hgs.symm.trans hcomponents)
    exact ⟨[".".toList], _, rfl, by simp, by decide, by decide⟩
  have hdir : ∀ form : IgnoreForm, ∀ name ∈ ["src".toList, "shared".toList],
      Path.IsName name ∧ ∀ c ∈ name, form.Allows c := by
    intro form
    have hchars : ∀ name ∈ ["src".toList, "shared".toList],
        name.all (fun c => decide (form.Allows c)) = true := by
      cases form <;> decide +kernel
    have hnames : ∀ name ∈ ["src".toList, "shared".toList], Path.IsName name := by decide +kernel
    exact fun name hname =>
      ⟨hnames name hname, by simpa only [List.all_eq_true, decide_eq_true_eq] using hchars name hname⟩
  refine ⟨?_, ?_, by decide +kernel⟩
  · exact scan_leavesOut isProper_layeredProject .path (by decide) (by decide) (hdir _) rfl
      (by simp) (List.forall_mem_singleton.mpr (.inl hliteral))
  · exact scan_leavesOut isProper_layeredProject .below (by decide) (by decide) (hdir _) rfl
      (by simp) (List.forall_mem_singleton.mpr (.inl hglob))

/-- The glob ignores nothing where a dot stands before every path, and the path ignores nothing where
a glob has left the dot out, or where two dots lead around it. -/
theorem not_leavesOut_of_layeredProject :
    layeredProject.root.IsProper ∧
      ¬ (scan layeredProject "./".toList [] ["src/**".toList]).LeavesOut layeredProject
        "./".toList ["src".toList] ∧
      ¬ (scan layeredProject "./".toList ["s*".toList] ["src".toList]).LeavesOut layeredProject
        "./".toList ["src".toList] ∧
      ¬ (scan layeredProject "./".toList ["src/../src/shared".toList] ["src/shared".toList]).LeavesOut
        layeredProject "./".toList ["src".toList, "shared".toList] := by
  refine ⟨isProper_layeredProject, fun h => ?_, fun h => ?_, fun h => ?_⟩
  · exact h "./src/a.ts".toList (by decide +kernel) [] ["a.ts".toList] rfl (by decide) (by decide +kernel)
  · exact h "src/a.ts".toList (by decide +kernel) [] ["a.ts".toList] rfl (by decide) (by decide +kernel)
  · exact h "./src/../src/shared/b.html".toList (by decide +kernel) [] ["b.html".toList] rfl
      (by decide) (by decide +kernel)

end KeyLint
