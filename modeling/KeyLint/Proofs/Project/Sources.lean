import Mathlib.Data.List.Nodup
import KeyLint.Project.Scan
import KeyLint.Proofs.Project.Globs

/-!
# Files that are scanned once

A scan drops a path that it found before, but it compares paths as texts. Includes that overlap give
one path for each file if they are spelled from the same stem; includes that are not may give two
paths for one file.
-/

namespace KeyLint

/-- The paths that a scan returns lead to files, and no two of them to the same one. -/
structure Scan.VisitsOnce (fs : FileSystem) (s : Scan) : Prop where
  leads : ∀ p ∈ s.files, ∃ names text,
    fs.locate p = .ok names ∧ fs.root.find? names = some (.file text)
  distinct : (s.files.map fs.locate).Nodup

namespace FileSystem

variable {fs : FileSystem}

/-! ## One root -/

/-- From a root that leads to `here`, a walk finds the file that `names` lead to below, and calls it
by the path `p`. -/
structure Finds (fs : FileSystem) (root : Text) (here names : List Text) (p : Text) : Prop where
  root_leads : fs.locate root = .ok here
  isName : ∀ name ∈ names, Path.IsName name
  isFile : ∃ text, fs.root.find? (here ++ names) = some (.file text)
  eq_under : p = Path.under root names

theorem finds_of_filesBelow (hfs : fs.root.IsProper) {root p : Text} {paths : List Text}
    (hwalk : filesBelow fs root = .ok paths) (hp : p ∈ paths) :
    ∃ here names, fs.Finds root here names p := by
  unfold filesBelow get at hwalk
  cases hlocate : fs.locate root with
  | error e => simp [hlocate] at hwalk
  | ok here =>
      cases htree : fs.root.find? here with
      | none => simp [hlocate, htree] at hwalk
      | some tree =>
          obtain rfl : tree.files root = paths := by simpa [hlocate, htree] using hwalk
          obtain ⟨names, text, hnames, hfile, rfl⟩ :=
            (hfs.of_find? htree).exists_of_mem_files hp
          refine ⟨here, names, hlocate, hnames, ⟨text, ?_⟩, rfl⟩
          rw [FileTree.find?_append, htree]
          exact hfile

theorem ne_nil_of_locate {path : Text} {here : List Text} (h : fs.locate path = .ok here) :
    path ≠ [] := by
  rintro rfl
  cases h

namespace Finds

variable {root p : Text} {here names : List Text}

theorem follow_root (h : fs.Finds root here names p) : fs.follow root = .ok here :=
  (fs.locate_eq_follow (ne_nil_of_locate h.root_leads)).symm.trans h.root_leads

theorem follow (h : fs.Finds root here names p) : fs.follow p = .ok (here ++ names) := by
  obtain ⟨text, hfile⟩ := h.isFile
  rw [h.eq_under]
  exact follow_under h.follow_root h.isName (by simp [hfile])

theorem ne_nil (h : fs.Finds root here names p) : p ≠ [] := by
  rw [h.eq_under]
  rcases List.eq_nil_or_concat' names with rfl | ⟨before, name, rfl⟩
  · exact ne_nil_of_locate h.root_leads
  · rw [Path.under_concat]
    exact join_ne_nil (h.isName name (by simp)) _

theorem locate (h : fs.Finds root here names p) : fs.locate p = .ok (here ++ names) :=
  (fs.locate_eq_follow h.ne_nil).trans h.follow

/-! ## Two roots -/

variable {other q : Text} {there more : List Text}

/-- Two roots that are spelled from one stem call a file by the same path. -/
theorem eq_of_spelledFrom (hp : fs.Finds root here names p) (hq : fs.Finds other there more q)
    {stem : Text} (hroot : Path.SpelledFrom stem root) (hother : Path.SpelledFrom stem other)
    (hplace : here ++ names = there ++ more) : p = q := by
  obtain ⟨_, hpfile⟩ := hp.isFile
  obtain ⟨_, hqfile⟩ := hq.isFile
  obtain ⟨ps, hps, hpeq⟩ := exists_under_eq hroot hp.follow_root hp.isName hpfile
  obtain ⟨qs, hqs, hqeq⟩ := exists_under_eq hother hq.follow_root hq.isName hqfile
  -- Both paths consist of the stem and the names from its place to the file.
  have hpfollow := hp.follow
  have hqfollow := hq.follow
  rw [hp.eq_under, hpeq] at hpfollow
  rw [hq.eq_under, hqeq] at hqfollow
  obtain ⟨origin, horigin, hpplace⟩ := exists_of_follow_under hps hpfollow
  obtain ⟨origin', horigin', hqplace⟩ := exists_of_follow_under hqs hqfollow
  obtain rfl : origin = origin' := Except.ok.inj (horigin.symm.trans horigin')
  have hsame : ps = qs :=
    List.append_cancel_left (hpplace.symm.trans (hplace.trans hqplace))
  rw [hp.eq_under, hq.eq_under, hpeq, hqeq, hsame]

end Finds

/-- Two paths do not lead to one place, nor to places of which one is inside the other. -/
def LeadApart (fs : FileSystem) (path other : Text) : Prop :=
  ∀ here there, fs.locate path = .ok here → fs.locate other = .ok there →
    ¬ here <+: there ∧ ¬ there <+: here

theorem Finds.ne_of_leadApart {root p other q : Text} {here names there more : List Text}
    (hp : fs.Finds root here names p) (hq : fs.Finds other there more q)
    (hapart : fs.LeadApart root other) : here ++ names ≠ there ++ more := by
  intro hplace
  obtain ⟨hle, hge⟩ := hapart here there hp.root_leads hq.root_leads
  rcases List.prefix_or_prefix_of_prefix ⟨names, hplace⟩ (List.prefix_append there more) with h | h
  · exact hle h
  · exact hge h

end FileSystem

/-! ## Includes -/

/-- The roots that an include stands for. -/
def rootsOf (fs : FileSystem) (base t : Text) : List Text :=
  match includeRoots fs base t with
  | .ok paths => paths
  | .error _ => []

/-- An include of the directory `base` stands for roots that are spelled from `stem`. -/
def IsIncludeFrom (stem base t : Text) : Prop :=
  if Glob.isWildcard t then Glob.IsSpelledFrom stem (Path.join base t)
  else Path.SpelledFrom stem (Path.join base t)

/-- Two includes of the directory `base` are spelled from one stem. -/
def AreSpelledAlike (base t u : Text) : Prop :=
  ∃ stem, IsIncludeFrom stem base t ∧ IsIncludeFrom stem base u

/-- The roots that two includes of the directory `base` stand for are the same or do not overlap. -/
def AreApart (fs : FileSystem) (base t u : Text) : Prop :=
  ∀ root ∈ rootsOf fs base t, ∀ other ∈ rootsOf fs base u, root ≠ other → fs.LeadApart root other

theorem mem_scanRoots {fs : FileSystem} {base root : Text} {includes : List Text} :
    root ∈ (scanRoots fs base includes).1 ↔
      (includes = [] ∧ root = base) ∨ ∃ t ∈ includes, root ∈ rootsOf fs base t := by
  cases includes with
  | nil => simp [scanRoots]
  | cons t ts =>
      have hroots : (scanRoots fs base (t :: ts)).1 = (t :: ts).flatMap (rootsOf fs base) :=
        List.flatMap_map _ _ _
      rw [hroots, List.mem_flatMap]
      simp

theorem spelledFrom_of_mem_rootsOf {fs : FileSystem} (hfs : fs.root.IsProper)
    {stem base t root : Text} (ht : IsIncludeFrom stem base t) (hroot : root ∈ rootsOf fs base t) :
    Path.SpelledFrom stem root := by
  unfold rootsOf includeRoots at hroot
  unfold IsIncludeFrom at ht
  cases hwild : Glob.isWildcard t with
  | false =>
      simp only [hwild, Bool.not_false, if_true, Bool.false_eq_true, if_false] at hroot ht
      split_ifs at hroot
      · exact List.mem_singleton.mp hroot ▸ ht
      · cases hroot
  | true =>
      simp only [hwild, Bool.not_true, if_true, Bool.false_eq_true, if_false] at hroot ht
      cases hdirectories : Glob.directories fs (Path.join base t) with
      | ok paths =>
          rw [hdirectories] at hroot
          exact Glob.spelledFrom_of_mem_directories hfs ht hdirectories hroot
      | error e => simp [hdirectories] at hroot

/-- Roots of two includes that are spelled alike or apart are so themselves. -/
theorem roots_alike_or_apart {fs : FileSystem} (hfs : fs.root.IsProper) {base : Text}
    {includes : List Text}
    (h : ∀ t ∈ includes, ∀ u ∈ includes, AreSpelledAlike base t u ∨ AreApart fs base t u)
    {root other : Text} (hroot : root ∈ (scanRoots fs base includes).1)
    (hother : other ∈ (scanRoots fs base includes).1) :
    (∃ stem, Path.SpelledFrom stem root ∧ Path.SpelledFrom stem other) ∨
      fs.LeadApart root other := by
  rcases mem_scanRoots.mp hroot with ⟨rfl, rfl⟩ | ⟨t, ht, hroot⟩
  · rcases mem_scanRoots.mp hother with ⟨_, rfl⟩ | ⟨u, hu, _⟩
    · exact .inl ⟨_, .refl _, .refl _⟩
    · cases hu
  · rcases mem_scanRoots.mp hother with ⟨rfl, _⟩ | ⟨u, hu, hother⟩
    · cases ht
    · rcases h t ht u hu with ⟨stem, hstem, hstem'⟩ | hapart
      · exact .inl ⟨stem, spelledFrom_of_mem_rootsOf hfs hstem hroot,
          spelledFrom_of_mem_rootsOf hfs hstem' hother⟩
      · by_cases hsame : root = other
        · exact .inl ⟨root, .refl _, hsame ▸ .refl _⟩
        · exact .inr (hapart root hroot other hother hsame)

/-! ## Scans -/

theorem nodup_eraseDups : ∀ ts : List Text, ts.eraseDups.Nodup
  | [] => by simp
  | t :: ts => by
      rw [List.eraseDups_cons, List.nodup_cons]
      exact ⟨by simp [List.mem_eraseDups], nodup_eraseDups _⟩
termination_by ts => ts.length
decreasing_by exact Nat.lt_succ_of_le (List.length_filter_le _ ts)

/-- What a scan returns, walks from its roots find. -/
theorem finds_of_mem_scan {fs : FileSystem} (hfs : fs.root.IsProper) {base p : Text}
    {includes ignores : List Text} (hp : p ∈ (scan fs base includes ignores).files) :
    ∃ root ∈ (scanRoots fs base includes).1, ∃ here names, fs.Finds root here names p := by
  rw [scan, List.mem_eraseDups] at hp
  obtain ⟨walked, hwalked, hp⟩ := List.mem_flatMap.mp (List.mem_of_mem_filter hp)
  obtain ⟨root, hroot, rfl⟩ := List.mem_map.mp hwalked
  refine ⟨root, hroot, ?_⟩
  cases hwalk : filesBelow fs root with
  | error e => simp [hwalk] at hp
  | ok paths =>
      rw [hwalk] at hp
      exact FileSystem.finds_of_filesBelow hfs hwalk hp

/-- Roots of which any two are spelled from one stem or do not overlap give a file one path. -/
theorem visitsOnce_of_roots {fs : FileSystem} (hfs : fs.root.IsProper) {base : Text}
    {includes : List Text}
    (h : ∀ root ∈ (scanRoots fs base includes).1, ∀ other ∈ (scanRoots fs base includes).1,
      (∃ stem, Path.SpelledFrom stem root ∧ Path.SpelledFrom stem other) ∨
        fs.LeadApart root other)
    (ignores : List Text) : (scan fs base includes ignores).VisitsOnce fs where
  leads p hp := by
    obtain ⟨root, _, here, names, hfinds⟩ := finds_of_mem_scan hfs hp
    obtain ⟨text, hfile⟩ := hfinds.isFile
    exact ⟨here ++ names, text, hfinds.locate, hfile⟩
  distinct := by
    refine List.Nodup.map_on (fun p hp q hq hsame => ?_) (nodup_eraseDups _)
    obtain ⟨root, hroot, here, names, hpfinds⟩ := finds_of_mem_scan hfs hp
    obtain ⟨other, hother, there, more, hqfinds⟩ := finds_of_mem_scan hfs hq
    rw [hpfinds.locate, hqfinds.locate, Except.ok.injEq] at hsame
    rcases h root hroot other hother with ⟨stem, hstem, hstem'⟩ | hapart
    · exact hpfinds.eq_of_spelledFrom hqfinds hstem hstem' hsame
    · exact absurd hsame (hpfinds.ne_of_leadApart hqfinds hapart)

/-- Includes that are plain paths of names may overlap in any way. -/
theorem visitsOnce_of_names {fs : FileSystem} (hfs : fs.root.IsProper) (base : Text)
    {includes : List Text} (hliteral : ∀ t ∈ includes, Glob.isWildcard t = false)
    (hnames : ∀ t ∈ includes, ∀ piece ∈ Path.pieces t, Path.IsName piece) (ignores : List Text) :
    (scan fs base includes ignores).VisitsOnce fs := by
  have hbase : ∀ t ∈ includes, IsIncludeFrom base base t := by
    intro t ht
    rw [IsIncludeFrom, if_neg (by simp [hliteral t ht])]
    exact .of_names (hnames t ht) base
  refine visitsOnce_of_roots hfs (fun _ hroot _ hother => ?_) ignores
  refine roots_alike_or_apart hfs (fun t ht u hu => .inl ?_) hroot hother
  exact ⟨base, hbase t ht, hbase u hu⟩

/-- A scan returns each file once, however its includes overlap and whatever is ignored, if any two
includes whose roots overlap are spelled from one stem. -/
theorem scan_visitsOnce {fs : FileSystem} (hfs : fs.root.IsProper) {base : Text}
    {includes : List Text}
    (h : ∀ t ∈ includes, ∀ u ∈ includes, AreSpelledAlike base t u ∨ AreApart fs base t u)
    (ignores : List Text) : (scan fs base includes ignores).VisitsOnce fs :=
  visitsOnce_of_roots hfs (fun _ hroot _ hother => roots_alike_or_apart hfs h hroot hother) ignores

/-- A project with one source in `src` and one in a directory below. -/
def layeredProject : FileSystem where
  root := .directory
    [("src".toList, .directory
      [("a.ts".toList, .file (some [])),
       ("shared".toList, .directory [("b.html".toList, .file (some []))])])]
  workingDirectory := []

theorem isProper_layeredProject : layeredProject.root.IsProper := by
  refine .directory (by decide) (by decide) fun entry hentry => ?_
  rw [List.mem_singleton.mp hentry]
  refine .directory (by decide) (by decide) (List.forall_mem_cons.mpr ⟨.file _, fun entry h => ?_⟩)
  rw [List.mem_singleton.mp h]
  refine .directory (by decide) (by decide) fun entry hentry => ?_
  rw [List.mem_singleton.mp hentry]
  exact .file _

/-- A literal include and a glob that overlap, both spelled from the root. -/
theorem scan_visitsOnce_of_layeredProject :
    (∀ t ∈ ["src/shared".toList, "s*".toList], ∀ u ∈ ["src/shared".toList, "s*".toList],
      AreSpelledAlike "/".toList t u) ∧
    (scan layeredProject "/".toList ["src/shared".toList, "s*".toList] []).VisitsOnce
      layeredProject ∧
    (scan layeredProject "/".toList ["src/shared".toList, "s*".toList] []).files
      = ["/src/shared/b.html".toList, "/src/a.ts".toList] := by
  have hliteral : IsIncludeFrom "/".toList "/".toList "src/shared".toList :=
    ⟨["src".toList, "shared".toList], by decide, .inl (by decide)⟩
  have hglob : IsIncludeFrom "/".toList "/".toList "s*".toList := by
    intro gs hgs
    have hcomponents : Glob.components "/s*".toList = .ok [⟨[.char 's', .anySequence]⟩] := by
      decide +kernel
    obtain rfl := Except.ok.inj (hgs.symm.trans hcomponents)
    exact ⟨[], _, rfl, by simp, by decide, by decide⟩
  have hall : ∀ t ∈ ["src/shared".toList, "s*".toList], IsIncludeFrom "/".toList "/".toList t :=
    List.forall_mem_cons.mpr ⟨hliteral, List.forall_mem_cons.mpr ⟨hglob, by simp⟩⟩
  have halike : ∀ t ∈ ["src/shared".toList, "s*".toList],
      ∀ u ∈ ["src/shared".toList, "s*".toList], AreSpelledAlike "/".toList t u :=
    fun t ht u hu => ⟨_, hall t ht, hall u hu⟩
  exact ⟨halike,
    scan_visitsOnce isProper_layeredProject (fun t ht u hu => .inl (halike t ht u hu)) [],
    by decide +kernel⟩

/-- A dot in an include, two dots or a glob where the directory is a dot give a file another path.
-/
theorem not_visitsOnce_of_layeredProject :
    layeredProject.root.IsProper ∧
      ¬ (scan layeredProject ".".toList ["src".toList, "./src".toList] []).VisitsOnce
        layeredProject ∧
      ¬ (scan layeredProject ".".toList ["src".toList, "src/../src".toList] []).VisitsOnce
        layeredProject ∧
      ¬ (scan layeredProject "./".toList ["src".toList, "s*".toList] []).VisitsOnce
        layeredProject := by
  refine ⟨isProper_layeredProject, fun h => ?_, fun h => ?_, fun h => ?_⟩
  all_goals exact absurd h.distinct (by decide +kernel)

end KeyLint
