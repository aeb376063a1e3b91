import Mathlib.Data.List.Infix
import KeyLint.Project.Discovery
import KeyLint.Proofs.Project.FileSystem

/-!
# The nearest configuration

A configuration is searched by cutting components off the text of a path. Where the path has no two
dots, this climbs from one directory to the one that holds it, and the configuration that is found
is the nearest one. The climb ends at the root if the path is absolute, and at the working directory
if it is not: a configuration above the working directory is missed then.
-/

namespace KeyLint

namespace Discovery

/-! ## What is to be found -/

/-- The directory `there` is the one whose configuration counts for `here`: it is `here` or above
`here` and holds a configuration, and no directory nearer to `here` holds one or holds a
repository. -/
def IsNearest (fs : FileSystem) (here there : List Text) : Prop :=
  there <+: here ∧ fs.holds there configName = true ∧
    ∀ d ∈ here.inits, there <+: d → d ≠ there →
      fs.holds d configName = false ∧ fs.holds d repositoryMark = false

instance (fs : FileSystem) (here there : List Text) : Decidable (IsNearest fs here there) :=
  inferInstanceAs (Decidable (_ ∧ _ ∧ _))

/-- The directory `there` ends the search from `here`: it holds a repository, and neither it nor any
directory from there down to `here` holds a configuration. -/
def IsBarrier (fs : FileSystem) (here there : List Text) : Prop :=
  there <+: here ∧ fs.holds there repositoryMark = true ∧
    ∀ d ∈ here.inits, there <+: d → fs.holds d configName = false

/-- Neither `here` nor any directory above it holds a configuration. -/
def IsBare (fs : FileSystem) (here : List Text) : Prop :=
  ∀ d ∈ here.inits, fs.holds d configName = false

/-- What is found from the path `start` of the directory `here` is the configuration of the nearest
directory that has one, up to the root. -/
structure FindsNearest (fs : FileSystem) (start : Text) (here : List Text) : Prop where
  found : ∀ there, IsNearest fs here there →
    ∃ path, findConfig fs start = some path ∧ fs.locate path = .ok (there ++ [configName])
  none_iff : findConfig fs start = none ↔
    (∃ there, IsBarrier fs here there) ∨ IsBare fs here

theorem isName_configName : Path.IsName configName := by decide

theorem isName_repositoryMark : Path.IsName repositoryMark := by decide

/-! ## Climbing -/

/-- A path leads to a directory, if names are joined to it. -/
def Leads (fs : FileSystem) (path : Text) (here : List Text) : Prop :=
  fs.follow path = .ok here ∧ fs.IsDirectoryAt here

/-- The paths lead from the directory `here` up to the directory `top`, one directory at a time. The
last steps may stay where they are: both `.` and the empty path stand for the working directory. -/
inductive Climbs (fs : FileSystem) (top : List Text) : List Text → List Text → Prop
  | arrived {path : Text} (h : Leads fs path top) : Climbs fs top [path] top
  | stays {path : Text} {paths : List Text} {here : List Text} (h : Leads fs path here)
      (hrest : Climbs fs top paths here) : Climbs fs top (path :: paths) here
  | rises {path name : Text} {paths : List Text} {here : List Text}
      (h : Leads fs path (here ++ [name])) (hrest : Climbs fs top paths here) :
      Climbs fs top (path :: paths) (here ++ [name])

variable {fs : FileSystem} {top here there : List Text}

theorem Climbs.top_prefix {paths : List Text} (h : Climbs fs top paths here) : top <+: here := by
  induction h with
  | arrived => exact List.prefix_refl top
  | stays _ _ ih => exact ih
  | rises _ _ ih => exact ih.trans (List.prefix_append _ _)

/-- How a search from `here` ends that has looked at the directories up to `top`. -/
inductive Ends (fs : FileSystem) (top here : List Text) : Option Text → Prop
  | found {path : Text} {there : List Text} (htop : top <+: there)
      (hnearest : IsNearest fs here there) (hpath : fs.locate path = .ok (there ++ [configName])) :
      Ends fs top here (some path)
  | barred {there : List Text} (htop : top <+: there) (h : IsBarrier fs here there) :
      Ends fs top here none
  | bare (h : ∀ d ∈ here.inits, top <+: d →
      fs.holds d configName = false ∧ fs.holds d repositoryMark = false) : Ends fs top here none

theorem forall_inits_concat {p : List Text → Prop} {name : Text} (hhere : ∀ d ∈ here.inits, p d)
    (hlast : p (here ++ [name])) : ∀ d ∈ (here ++ [name]).inits, p d := by
  intro d hd
  rcases List.prefix_concat_iff.mp ((List.mem_inits d _).mp hd) with rfl | hpre
  · exact hlast
  · exact hhere d ((List.mem_inits d here).mpr hpre)

/-- A directory that holds neither a configuration nor a repository changes nothing for the search
from it. -/
theorem Ends.rise {name : Text} {result : Option Text}
    (hconfig : fs.holds (here ++ [name]) configName = false)
    (hmark : fs.holds (here ++ [name]) repositoryMark = false) (h : Ends fs top here result) :
    Ends fs top (here ++ [name]) result := by
  cases h with
  | found htop hnearest hpath =>
      obtain ⟨hpre, hholds, hbetween⟩ := hnearest
      refine .found htop ⟨hpre.trans (List.prefix_append _ _), hholds, ?_⟩ hpath
      exact forall_inits_concat hbetween fun _ _ => ⟨hconfig, hmark⟩
  | barred htop hbarrier =>
      obtain ⟨hpre, hholds, hbetween⟩ := hbarrier
      refine .barred htop ⟨hpre.trans (List.prefix_append _ _), hholds, ?_⟩
      exact forall_inits_concat hbetween fun _ => hconfig
  | bare hnone => exact .bare (forall_inits_concat hnone fun _ => ⟨hconfig, hmark⟩)

theorem forall_inits_self {p : List Text → Prop} (hhere : p here) :
    ∀ d ∈ here.inits, here <+: d → p d := by
  intro d hd hpre
  have heq : here = d := hpre.eq_of_length_le ((List.mem_inits d here).mp hd).length_le
  exact heq ▸ hhere

/-- One round of the search, at a directory `here`. -/
theorem ends_firstConfig_cons {path : Text} {paths : List Text} (hpath : Leads fs path here)
    (htop : top <+: here)
    (hrest : fs.holds here configName = false → fs.holds here repositoryMark = false →
      Ends fs top here (firstConfig fs paths)) :
    Ends fs top here (firstConfig fs (path :: paths)) := by
  obtain ⟨hfollow, hdir⟩ := hpath
  have hconfig := FileSystem.has_join isName_configName hfollow hdir
  have hmark := FileSystem.has_join isName_repositoryMark hfollow hdir
  rw [firstConfig, hconfig, hmark]
  split_ifs with hholds hstop
  · refine .found htop ⟨List.prefix_refl here, hholds, ?_⟩
      (FileSystem.locate_join isName_configName hfollow hdir hholds)
    exact forall_inits_self fun hne => absurd rfl hne
  · refine .barred htop ⟨List.prefix_refl here, hstop, ?_⟩
    exact forall_inits_self (by simpa using hholds)
  · exact hrest (by simpa using hholds) (by simpa using hstop)

theorem ends_firstConfig {paths : List Text} (h : Climbs fs top paths here) :
    Ends fs top here (firstConfig fs paths) := by
  induction h with
  | arrived hpath =>
      refine ends_firstConfig_cons hpath (List.prefix_refl top) fun hconfig hmark => ?_
      exact .bare (forall_inits_self ⟨hconfig, hmark⟩)
  | stays hpath hrest ih => exact ends_firstConfig_cons hpath hrest.top_prefix fun _ _ => ih
  | rises hpath hrest ih =>
      refine ends_firstConfig_cons hpath ?_ fun hconfig hmark => ih.rise hconfig hmark
      exact hrest.top_prefix.trans (List.prefix_append _ _)

/-! ## Cutting components off a path climbs -/

theorem dropIdleEnd_suffix (bs : List Text) : Path.dropIdleEnd bs <:+ bs := by
  fun_induction Path.dropIdleEnd bs with
  | case1 piece before pieces _ ih => exact ih.trans (List.suffix_cons piece _)
  | case2 => exact List.suffix_refl _
  | case3 => exact List.suffix_refl _

theorem dropIdleEnd_ne_nil {bs : List Text} (h : bs ≠ []) : Path.dropIdleEnd bs ≠ [] := by
  fun_induction Path.dropIdleEnd bs with
  | case1 _ _ _ _ ih => exact ih (by simp)
  | case2 => simp
  | case3 => exact h

theorem foldlM_dropIdleEnd {bs : List Text} {origin : List Text}
    (h : bs.reverse.foldlM fs.step origin = .ok here) :
    (Path.dropIdleEnd bs).reverse.foldlM fs.step origin = .ok here := by
  fun_induction Path.dropIdleEnd bs with
  | case1 piece before pieces hidle ih =>
      rw [List.reverse_cons] at h
      obtain ⟨last, hlast, hstep⟩ := FileSystem.foldlM_concat_eq_ok.mp h
      obtain ⟨_, rfl⟩ := (FileSystem.step_of_idle hidle).mp hstep
      exact ih hlast
  | case2 => exact h
  | case3 => exact h

/-- Where following pieces begins, which are given the last first: at the root if the first of them
is empty. -/
def originOf (fs : FileSystem) (bs : List Text) : List Text :=
  if bs.getLast? = some [] then [] else fs.workingDirectory

theorem originOf_of_suffix {bs cs : List Text} (hne : cs ≠ []) (h : cs <:+ bs) :
    originOf fs bs = originOf fs cs := by
  obtain ⟨more, rfl⟩ := h
  rw [originOf, originOf, List.getLast?_append_of_ne_nil _ hne]

theorem follow_ofPieces {bs : List Text} (hne : bs ≠ []) (hslash : ∀ piece ∈ bs, '/' ∉ piece)
    (h : bs.reverse.foldlM fs.step (originOf fs bs) = .ok here) :
    fs.follow (Path.ofPieces bs) = .ok here := by
  by_cases hroot : bs = [[]]
  · -- The path of the root is a slash, with an empty piece on either side of it.
    subst hroot
    have hstep := (fs.foldlM_singleton [] []).symm.trans h
    obtain ⟨_, rfl⟩ := (FileSystem.step_of_idle rfl).mp hstep
    exact FileSystem.foldlM_concat_eq_ok.mpr ⟨_, h, hstep⟩
  · have hpieces : Path.pieces (Path.ofPieces bs) = bs.reverse := by
      rw [Path.ofPieces, if_neg hroot]
      exact Path.pieces_join (by simpa using hne) fun piece hp => hslash piece (by simpa using hp)
    have hpath : Path.ofPieces bs ≠ [] := by
      intro hnil
      rw [hnil] at hpieces
      exact hroot (List.reverse_eq_iff.mp hpieces.symm)
    have horigin : fs.origin (Path.ofPieces bs) = originOf fs bs := by
      unfold FileSystem.origin originOf
      simp only [Path.isAbsolute_iff hpath, hpieces, List.head?_reverse]
    rw [FileSystem.follow, horigin, hpieces]
    exact h

theorem climbs_parents {bs : List Text} (hne : bs ≠ []) (hslash : ∀ piece ∈ bs, '/' ∉ piece)
    (hdots : ['.', '.'] ∉ bs) {path : Text} (hpath : Leads fs path here)
    (h : bs.reverse.foldlM fs.step (originOf fs bs) = .ok here) :
    Climbs fs (originOf fs bs) (path :: Path.parents bs) here := by
  have hname : ∀ piece ∈ bs, Path.isIdle piece = false → Path.IsName piece :=
    fun piece hp hidle => ⟨hslash piece hp, hidle, fun heq => hdots (heq ▸ hp)⟩
  fun_induction Path.parents bs generalizing here path with
  | case1 => exact absurd rfl hne
  | case2 first hempty =>
      obtain rfl := List.isEmpty_iff.mp hempty
      have hstep := (fs.foldlM_singleton _ _).symm.trans h
      obtain ⟨_, rfl⟩ := (FileSystem.step_of_idle rfl).mp hstep
      exact .arrived hpath
  | case3 first hfirst =>
      have horigin : originOf fs [first] = fs.workingDirectory := by
        rw [originOf, if_neg (by simpa using hfirst)]
      have hstep := (fs.foldlM_singleton _ _).symm.trans h
      rw [horigin] at hstep ⊢
      have hhome (hdir : fs.IsDirectoryAt fs.workingDirectory) :
          Climbs fs fs.workingDirectory [[]] fs.workingDirectory :=
        .arrived ⟨fs.follow_nil.mpr ⟨hdir, rfl⟩, hdir⟩
      cases hidle : Path.isIdle first with
      | true =>
          obtain ⟨hdir, rfl⟩ := (FileSystem.step_of_idle hidle).mp hstep
          exact .stays hpath (hhome hdir)
      | false =>
          obtain ⟨hdir, _, rfl⟩ :=
            (FileSystem.step_of_name (hname first (by simp) hidle)).mp hstep
          exact .rises hpath (hhome hdir)
  | case4 piece before hbefore hidle ih =>
      rw [originOf_of_suffix hbefore (List.suffix_cons piece before)] at h ⊢
      rw [List.reverse_cons] at h
      obtain ⟨last, hlast, hstep⟩ := FileSystem.foldlM_concat_eq_ok.mp h
      obtain ⟨_, rfl⟩ := (FileSystem.step_of_idle hidle).mp hstep
      exact ih hbefore (fun p hp => hslash p (List.mem_cons_of_mem piece hp))
        (fun hin => hdots (List.mem_cons_of_mem piece hin)) hpath hlast
        (fun p hp => hname p (List.mem_cons_of_mem piece hp))
  | case5 piece before hbefore hidle ih =>
      rw [originOf_of_suffix hbefore (List.suffix_cons piece before)] at h ⊢
      rw [List.reverse_cons] at h
      obtain ⟨last, hlast, hstep⟩ := FileSystem.foldlM_concat_eq_ok.mp h
      obtain ⟨hdir, _, rfl⟩ :=
        (FileSystem.step_of_name (hname piece (by simp) (by simpa using hidle))).mp hstep
      have hslash' : ∀ p ∈ before, '/' ∉ p := fun p hp => hslash p (List.mem_cons_of_mem piece hp)
      -- What is left of the path after the cut leads to the directory that held its last name.
      have hcut := dropIdleEnd_suffix before
      have hcutNe := dropIdleEnd_ne_nil hbefore
      have hleads : Leads fs (Path.ofPieces (Path.dropIdleEnd before)) last := by
        refine ⟨follow_ofPieces hcutNe (fun p hp => hslash' p (hcut.subset hp)) ?_, hdir⟩
        rw [← originOf_of_suffix hcutNe hcut]
        exact foldlM_dropIdleEnd hlast
      exact .rises hpath (ih hbefore hslash' (fun hin => hdots (List.mem_cons_of_mem piece hin))
        hleads hlast (fun p hp => hname p (List.mem_cons_of_mem piece hp)))

/-- The paths that are looked at from a directory climb from it to the root or to the working
directory, if no component of the first path is two dots. -/
theorem climbs_ancestors {start : Text} (hstart : fs.locate start = .ok here)
    (hdir : fs.IsDirectoryAt here) (hdots : ['.', '.'] ∉ Path.pieces start) :
    Climbs fs (fs.origin start) (Path.ancestors start) here := by
  have hne : start ≠ [] := by
    rintro rfl
    cases hstart
  rw [FileSystem.locate_eq_follow fs hne] at hstart
  have horigin : originOf fs (Path.pieces start).reverse = fs.origin start := by
    unfold FileSystem.origin originOf
    simp only [List.getLast?_reverse, Path.isAbsolute_iff hne]
  rw [← horigin]
  refine climbs_parents ?_ ?_ ?_ ⟨hstart, hdir⟩ ?_
  · exact List.reverse_ne_nil_iff.mpr (Text.splitWhere_ne_nil _ start)
  · exact fun piece hp => Path.noSlash_of_mem_pieces (List.mem_reverse.mp hp)
  · simpa using hdots
  · rw [List.reverse_reverse, horigin]
    exact hstart

/-! ## The nearest configuration -/

theorem IsNearest.eq {there₁ there₂ : List Text} (h₁ : IsNearest fs here there₁)
    (h₂ : IsNearest fs here there₂) : there₁ = there₂ := by
  obtain ⟨hpre₁, hholds₁, hbetween₁⟩ := h₁
  obtain ⟨hpre₂, hholds₂, hbetween₂⟩ := h₂
  by_contra hne
  rcases List.prefix_or_prefix_of_prefix hpre₁ hpre₂ with hle | hle
  · have hfree := hbetween₁ there₂ ((List.mem_inits _ _).mpr hpre₂) hle (Ne.symm hne)
    exact absurd hholds₂ (by simp [hfree.1])
  · have hfree := hbetween₂ there₁ ((List.mem_inits _ _).mpr hpre₁) hle hne
    exact absurd hholds₁ (by simp [hfree.1])

theorem IsNearest.not_isBarrier {d : List Text} (h : IsNearest fs here there) :
    ¬ IsBarrier fs here d := by
  obtain ⟨hpre, hholds, hbetween⟩ := h
  rintro ⟨hd, hmark, hfree⟩
  by_cases hle : d <+: there
  · exact absurd hholds (by simp [hfree there ((List.mem_inits _ _).mpr hpre) hle])
  · have hge := (List.prefix_or_prefix_of_prefix hd hpre).resolve_left hle
    have hne : d ≠ there := fun heq => hle (heq ▸ List.prefix_refl d)
    exact absurd hmark (by simp [(hbetween d ((List.mem_inits _ _).mpr hd) hge hne).2])

theorem IsNearest.not_isBare (h : IsNearest fs here there) : ¬ IsBare fs here := by
  intro hbare
  have hfree := hbare there ((List.mem_inits _ _).mpr h.1)
  exact absurd h.2.1 (by simp [hfree])

theorem FindsNearest.of_found {start path : Text} (hresult : findConfig fs start = some path)
    (hnearest : IsNearest fs here there) (hpath : fs.locate path = .ok (there ++ [configName])) :
    FindsNearest fs start here where
  found d hd := ⟨path, hresult, hnearest.eq hd ▸ hpath⟩
  none_iff := by
    rw [hresult]
    refine iff_of_false (by simp) ?_
    rintro (⟨d, hd⟩ | hbare)
    · exact hnearest.not_isBarrier hd
    · exact hnearest.not_isBare hbare

/-- A search without a result is right if there is nothing to be found. -/
theorem FindsNearest.of_none {start : Text} (hresult : findConfig fs start = none) :
    FindsNearest fs start here ↔ (∃ d, IsBarrier fs here d) ∨ IsBare fs here := by
  refine ⟨fun h => h.none_iff.mp hresult, fun h => ⟨fun d hd => ?_, iff_of_true hresult h⟩⟩
  rcases h with ⟨d', hd'⟩ | hbare
  · exact absurd hd' hd.not_isBarrier
  · exact absurd hbare hd.not_isBare

/-- A directory from `here` up to `top` holds a configuration or a repository. -/
def IsDecided (fs : FileSystem) (top here : List Text) : Prop :=
  ∃ d ∈ here.inits, top <+: d ∧
    (fs.holds d configName = true ∨ fs.holds d repositoryMark = true)

instance (fs : FileSystem) (top here : List Text) : Decidable (IsDecided fs top here) :=
  inferInstanceAs (Decidable (∃ d ∈ here.inits, _))

theorem findsNearest_of_decided {start : Text} (h : Ends fs top here (findConfig fs start))
    (hdecided : IsDecided fs top here) : FindsNearest fs start here := by
  generalize hresult : findConfig fs start = result at h
  cases h with
  | found _ hnearest hpath => exact .of_found hresult hnearest hpath
  | barred _ hbarrier => exact (FindsNearest.of_none hresult).mpr (.inl ⟨_, hbarrier⟩)
  | bare hnone =>
      obtain ⟨d, hd, hpre, hconfig | hmark⟩ := hdecided
      · exact absurd hconfig (by simp [(hnone d hd hpre).1])
      · exact absurd hmark (by simp [(hnone d hd hpre).2])

theorem findConfig_eq_none_of_not_decided {start : Text}
    (h : Ends fs top here (findConfig fs start)) (hdecided : ¬ IsDecided fs top here) :
    findConfig fs start = none := by
  generalize hresult : findConfig fs start = result at h
  cases h with
  | found htop hnearest _ =>
      have hin := (List.mem_inits _ _).mpr hnearest.1
      exact absurd ⟨_, hin, htop, .inl hnearest.2.1⟩ hdecided
  | barred => rfl
  | bare => rfl

theorem isDirectoryAt_of_hasDirectory {path : Text} (hpath : fs.locate path = .ok here)
    (hdir : fs.hasDirectory path = true) : fs.IsDirectoryAt here := by
  rw [FileSystem.hasDirectory, FileSystem.get, hpath] at hdir
  cases htree : fs.root.find? here with
  | none => simp [htree] at hdir
  | some tree =>
      cases tree with
      | file text => simp [htree, FileTree.isDirectory] at hdir
      | directory entries => exact ⟨entries, htree⟩

/-- The search from a directory whose path has no two dots. From an absolute path the nearest
configuration is found. From a relative path it is found if the search is decided on the way up to
the working directory; what is above the working directory is not looked at. -/
theorem findConfig_nearest {start : Text} (hstart : fs.locate start = .ok here)
    (hdir : fs.hasDirectory start = true) (hdots : ['.', '.'] ∉ Path.pieces start) :
    (Path.isAbsolute start = true → FindsNearest fs start here) ∧
      (Path.isAbsolute start = false →
        (IsDecided fs fs.workingDirectory here → FindsNearest fs start here) ∧
          (¬ IsDecided fs fs.workingDirectory here → findConfig fs start = none)) := by
  have hclimbs := climbs_ancestors hstart (isDirectoryAt_of_hasDirectory hstart hdir) hdots
  have hends : Ends fs (fs.origin start) here (findConfig fs start) := ends_firstConfig hclimbs
  rw [FileSystem.origin] at hends
  refine ⟨fun habs => ?_, fun hrel => ?_⟩
  · rw [if_pos habs] at hends
    by_cases hdecided : IsDecided fs [] here
    · exact findsNearest_of_decided hends hdecided
    · have hnone := findConfig_eq_none_of_not_decided hends hdecided
      refine (FindsNearest.of_none hnone).mpr (.inr fun d hd => ?_)
      exact eq_false_of_ne_true fun hholds => hdecided ⟨d, hd, List.nil_prefix, .inl hholds⟩
  · rw [if_neg (by simp [hrel])] at hends
    exact ⟨findsNearest_of_decided hends, findConfig_eq_none_of_not_decided hends⟩

/-- A project with a configuration, seen from the directory `work` in it. -/
def nestedProject : FileSystem where
  root := .directory
    [("p".toList, .directory
      [(configName, .file (some "\x7b\x7d".toList)),
       ("work".toList, .directory
        [("a".toList, .directory
          [("old".toList, .directory [(configName, .file (some "\x7b\x7d".toList))]),
           ("src".toList, .directory [])])])])]
  workingDirectory := ["p".toList, "work".toList]

theorem findConfig_nearest_of_nestedProject :
    nestedProject.locate "/p/./work//a/src".toList
        = .ok ["p".toList, "work".toList, "a".toList, "src".toList] ∧
      FindsNearest nestedProject "/p/./work//a/src".toList
        ["p".toList, "work".toList, "a".toList, "src".toList] ∧
      findConfig nestedProject ".".toList = none :=
  have hhere : nestedProject.locate "/p/./work//a/src".toList
      = .ok ["p".toList, "work".toList, "a".toList, "src".toList] := by decide +kernel
  have hwork : nestedProject.locate ".".toList = .ok ["p".toList, "work".toList] := by
    decide +kernel
  ⟨hhere, (findConfig_nearest hhere (by decide +kernel) (by decide)).1 (by decide),
    ((findConfig_nearest hwork (by decide +kernel) (by decide)).2 (by decide)).2
      (by decide +kernel)⟩

/-- The search does not always find the nearest configuration: from `.` the one above the working
directory is missed, and from `a/old/../src` the one of a directory is found that is not above. -/
theorem not_findsNearest :
    (nestedProject.locate ".".toList = .ok ["p".toList, "work".toList] ∧
      nestedProject.hasDirectory ".".toList = true ∧
      ¬ FindsNearest nestedProject ".".toList ["p".toList, "work".toList]) ∧
    (nestedProject.locate "a/old/../src".toList
        = .ok ["p".toList, "work".toList, "a".toList, "src".toList] ∧
      nestedProject.hasDirectory "a/old/../src".toList = true ∧
      ¬ FindsNearest nestedProject "a/old/../src".toList
        ["p".toList, "work".toList, "a".toList, "src".toList]) := by
  refine ⟨⟨by decide +kernel, by decide +kernel, fun h => ?_⟩,
    ⟨by decide +kernel, by decide +kernel, fun h => ?_⟩⟩
  · have hnearest : IsNearest nestedProject ["p".toList, "work".toList] ["p".toList] := by
      decide +kernel
    obtain ⟨path, hfound, _⟩ := h.found _ hnearest
    have hnone : findConfig nestedProject ".".toList = none := by decide +kernel
    rw [hnone] at hfound
    cases hfound
  · have hnearest : IsNearest nestedProject ["p".toList, "work".toList, "a".toList, "src".toList]
        ["p".toList] := by
      decide +kernel
    obtain ⟨path, hfound, hpath⟩ := h.found _ hnearest
    have hother : findConfig nestedProject "a/old/../src".toList
        = some "a/old/.ngi18nrc.json".toList := by
      decide +kernel
    rw [hother, Option.some.injEq] at hfound
    subst hfound
    exact absurd hpath (by decide +kernel)

end Discovery

end KeyLint
