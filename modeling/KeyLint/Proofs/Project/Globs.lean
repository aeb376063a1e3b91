import Mathlib.Data.List.Basic
import KeyLint.Glob.Directories
import KeyLint.Proofs.Project.Walk

/-!
# What a glob spells

The paths of the directories that a glob leads to. Components without wildcards are spelled as they
stand; the rest of the path is made of names of the file system, if no component of the rest
describes a dot or two dots.
-/

namespace KeyLint

/-! ## Paths that are more than a dot -/

namespace Path

theorem componentsOf_append (ps qs : List Text) :
    componentsOf (ps ++ qs) = componentsOf ps ++ componentsOf qs := by
  simp [componentsOf]

theorem name_mem_componentsOf {name : Text} (hname : IsName name) {ps : List Text} (h : name ∈ ps) :
    .name name ∈ componentsOf ps := by
  rw [componentsOf, List.mem_map]
  exact ⟨name, List.mem_filter.mpr ⟨h, by simp [hname.notIdle]⟩, if_neg hname.notParent⟩

theorem name_mem_components {name path : Text} (hname : IsName name) (h : name ∈ pieces path) :
    .name name ∈ components path := by
  have hdot : name ≠ ['.'] := by
    rintro rfl
    exact absurd hname.notIdle (by decide)
  rw [components]
  cases hpieces : pieces path with
  | nil => simp [hpieces] at h
  | cons first rest =>
      rw [hpieces] at h
      dsimp only
      split_ifs with habsolute hfirst
      · -- An absolute path begins with an empty piece, which is no name.
        have hempty := (isAbsolute_iff (by rintro rfl; simp [isAbsolute] at habsolute)).mp habsolute
        rw [hpieces, List.head?_cons, Option.some.injEq] at hempty
        have hrest := (List.mem_cons.mp h).resolve_left (hempty ▸ hname.ne_nil)
        exact List.mem_cons_of_mem _ (name_mem_componentsOf hname hrest)
      · have hrest := (List.mem_cons.mp h).resolve_left (hfirst ▸ hdot)
        exact List.mem_cons_of_mem _ (name_mem_componentsOf hname hrest)
      · exact name_mem_componentsOf hname h

theorem mem_pieces_join {name : Text} (hname : '/' ∉ name) (path : Text) :
    name ∈ pieces (join path name) := by
  rw [join, if_neg (by simp [isAbsolute_of_noSlash hname])]
  rcases List.eq_nil_or_concat' path with rfl | ⟨s, c, rfl⟩
  · simp [pieces_of_noSlash hname]
  · by_cases hc : c = '/'
    · simp [hc, pieces_append_slash, pieces_of_noSlash hname]
    · rw [if_neg (by simpa using hc), List.append_assoc _ ['/'], List.singleton_append,
        pieces_append_slash, pieces_of_noSlash hname]
      simp

/-- A slash at the end of a path does not count. -/
theorem components_join_nil (path : Text) : components (join path []) = components path := by
  rcases List.eq_nil_or_concat' path with rfl | ⟨s, c, rfl⟩
  · rfl
  · by_cases hc : c = '/'
    · simp [join, isAbsolute, hc]
    · obtain ⟨first, rest, hpieces⟩ := List.exists_cons_of_ne_nil
        (Text.splitWhere_ne_nil (fun d => decide (d = '/')) (s ++ [c]))
      have hslash : pieces (s ++ [c] ++ ['/']) = first :: (rest ++ [[]]) := by
        rw [pieces_append_slash, pieces, Text.splitOn, hpieces]
        rfl
      have habsolute : isAbsolute (s ++ [c] ++ ['/']) = isAbsolute (s ++ [c]) := by
        cases s <;> rfl
      have hidle : componentsOf [[]] = [] := rfl
      rw [join, if_neg (by simp [isAbsolute]), if_neg (by simpa using hc), List.append_nil,
        components, components, hslash, habsolute, show pieces (s ++ [c]) = first :: rest from hpieces]
      simp only [← List.cons_append, componentsOf_append, hidle, List.append_nil]

theorem SpelledFrom.join_nil {stem path : Text} (h : SpelledFrom stem path) :
    SpelledFrom stem (join path []) := by
  obtain ⟨names, hnames, rfl | rfl⟩ := h
  · exact ⟨names, hnames, .inr rfl⟩
  · exact ⟨names, hnames, .inr (join_join_nil _ _)⟩

theorem SpelledFrom.join {stem path name : Text} (h : SpelledFrom stem path) (hname : IsName name) :
    SpelledFrom stem (Path.join path name) := by
  obtain ⟨names, hnames, hpath⟩ := h
  refine ⟨names ++ [name], List.forall_mem_append.mpr ⟨hnames, by simpa using hname⟩, .inl ?_⟩
  rw [under_concat]
  rcases hpath with rfl | rfl
  · rfl
  · exact join_join_nil _ _

theorem SpelledFrom.under {stem path : Text} (h : SpelledFrom stem path) {names : List Text}
    (hnames : ∀ name ∈ names, IsName name) : SpelledFrom stem (Path.under path names) := by
  induction names generalizing path with
  | nil => exact h
  | cons name names ih =>
      obtain ⟨hname, hnames⟩ := List.forall_mem_cons.mp hnames
      exact ih (h.join hname) hnames

end Path

namespace Glob

theorem baseOf_baseOf (path : Text) : baseOf (baseOf path) = baseOf path := by
  by_cases h : Path.components path = [.current]
  · rw [show baseOf path = [] from if_pos h]
    rfl
  · rw [show baseOf path = path from if_neg h, show baseOf path = path from if_neg h]

/-- Of the paths that are spelled from a stem, none is a mere dot if the stem is not. -/
theorem baseOf_of_spelledFrom {stem path : Text} (hstem : baseOf stem = stem)
    (h : Path.SpelledFrom stem path) : baseOf path = path := by
  have hnil : ∀ p, baseOf p = p → baseOf (Path.join p []) = Path.join p [] := by
    intro p hp
    by_cases hdot : Path.components p = [.current]
    · rw [baseOf, if_pos hdot] at hp
      rw [← hp]
      rfl
    · rw [baseOf, if_neg (by rwa [Path.components_join_nil])]
  have hunder : ∀ names, (∀ name ∈ names, Path.IsName name) →
      baseOf (Path.under stem names) = Path.under stem names := by
    intro names hnames
    rcases List.eq_nil_or_concat' names with rfl | ⟨names, name, rfl⟩
    · exact hstem
    · have hname := hnames name (by simp)
      rw [Path.under_concat, baseOf, if_neg]
      intro hdot
      have hmem := Path.name_mem_components hname
        (Path.mem_pieces_join hname.noSlash (Path.under stem names))
      simp [hdot] at hmem
  obtain ⟨names, hnames, rfl | rfl⟩ := h
  · exact hunder names hnames
  · exact hnil _ (hunder names hnames)

/-! ## Globs without wildcards -/

/-- The glob that only describes a name. -/
def literal (name : Text) : Glob where
  tokens := name.map .char

theorem literal?_eq_some_iff {g : Glob} {name : Text} : g.literal? = some name ↔ g = literal name := by
  obtain ⟨tokens⟩ := g
  rw [literal?, literal, mk.injEq]
  induction tokens generalizing name with
  | nil => cases name <;> simp
  | cons token tokens ih =>
      cases name with
      | nil => cases token <;> simp [Option.bind_eq_some_iff]
      | cons c name => cases token <;> simp [Option.bind_eq_some_iff, ih, and_comm]

theorem literal?_literal (name : Text) : (literal name).literal? = some name :=
  literal?_eq_some_iff.mpr rfl

theorem isRecursive_literal (name : Text) : isRecursive (literal name) = false := by
  simp [isRecursive, literal]

/-- Dots that are written out are described. -/
theorem ne_dots_of_dots_eq_nil {name : Text} (h : dots (literal name) = []) :
    name ≠ ['.'] ∧ name ≠ ['.', '.'] := by
  constructor <;> rintro rfl <;> exact absurd h (by decide)

/-! ## Characters that stand for themselves -/

theorem of_map_set?_eq_some (mark : List Member → Token) {first : Char} {cs rest : Text}
    {token : Token}
    (h : ((set? first cs).map fun (ms, rest) => (mark ms, rest)) = some (token, rest)) :
    (∃ ms, token = mark ms) ∧ rest ⊆ cs := by
  obtain ⟨⟨ms, after⟩, hset, heq⟩ := Option.map_eq_some_iff.mp h
  obtain ⟨rfl, rfl⟩ := Prod.mk.inj heq
  obtain ⟨⟨inside, after⟩, hcut, heq⟩ := Option.map_eq_some_iff.mp hset
  obtain ⟨_, rfl⟩ := Prod.mk.inj heq
  refine ⟨⟨ms, rfl⟩, ?_⟩
  rw [Text.eq_append_of_cut?_eq_some hcut]
  exact List.subset_append_right _ _

theorem of_bracket?_eq_some {cs rest : Text} {token : Token} (h : bracket? cs = some (token, rest)) :
    (∀ c, token ≠ .char c) ∧ rest ⊆ cs := by
  unfold bracket? at h
  split at h
  · obtain ⟨⟨ms, rfl⟩, hsub⟩ := of_map_set?_eq_some .outside h
    exact ⟨by simp, fun c hc => by simp [hsub hc]⟩
  · cases h
  · obtain ⟨⟨ms, rfl⟩, hsub⟩ := of_map_set?_eq_some .within h
    exact ⟨by simp, fun c hc => by simp [hsub hc]⟩
  · cases h

theorem char_mem_of_mem_addDirectories {c : Char} {tokens : List Token}
    (h : .char c ∈ addDirectories tokens) : .char c ∈ tokens := by
  unfold addDirectories at h
  split at h <;> simpa using h

theorem mem_of_readFrom {position : Nat} {previous : Option Char} {tokens result : List Token}
    {t : Text} (h : readFrom position previous tokens t = .ok result) {c : Char}
    (hc : .char c ∈ result) : .char c ∈ tokens ∨ c ∈ t := by
  fun_induction readFrom position previous tokens t with
  | case1 =>
      cases h
      exact .inl (by simpa using hc)
  | case2 => cases h
  | case3 => cases h
  | case4 =>
      cases h
      exact .inl (char_mem_of_mem_addDirectories (by simpa using hc))
  | case5 _ _ _ _ cs _ ih =>
      rcases ih h with htoken | hrest
      · exact .inl (char_mem_of_mem_addDirectories htoken)
      · exact .inr (by simp [hrest])
  | case6 => cases h
  | case7 _ _ _ cs _ _ ih =>
      rcases ih h with htoken | hrest
      · exact .inl (by simpa using htoken)
      · exact .inr (List.mem_cons_of_mem _ hrest)
  | case8 _ _ _ cs ih =>
      rcases ih h with htoken | hrest
      · exact .inl (by simpa using htoken)
      · exact .inr (List.mem_cons_of_mem _ hrest)
  | case9 => cases h
  | case10 _ _ _ cs token rest hbracket _ ih =>
      obtain ⟨hset, hsub⟩ := of_bracket?_eq_some hbracket
      rcases ih h with htoken | hrest
      · exact .inl ((List.mem_cons.mp htoken).resolve_left (hset c).symm)
      · exact .inr (List.mem_cons_of_mem _ (hsub hrest))
  | case11 _ _ _ d cs _ _ _ _ _ ih =>
      rcases ih h with htoken | hrest
      · rcases List.mem_cons.mp htoken with heq | htoken
        · exact .inr (by simp [Token.char.inj heq])
        · exact .inl htoken
      · exact .inr (List.mem_cons_of_mem _ hrest)

theorem mem_of_parse {t name : Text} (h : parse t = .ok (literal name)) {c : Char} (hc : c ∈ name) :
    c ∈ t := by
  cases hread : readFrom 0 none [] t with
  | error e => simp [parse, hread, Except.map] at h
  | ok tokens =>
      rw [parse, hread] at h
      obtain rfl : tokens = name.map .char := congrArg Glob.tokens (Except.ok.inj h)
      exact (mem_of_readFrom hread (List.mem_map_of_mem hc)).resolve_left (by simp)

theorem exists_of_mem_mapM {ts : List Text} {gs : List Glob} (h : ts.mapM parse = .ok gs) {g : Glob}
    (hg : g ∈ gs) : ∃ t ∈ ts, parse t = .ok g := by
  induction ts generalizing gs with
  | nil =>
      cases h
      cases hg
  | cons t ts ih =>
      rw [List.mapM_cons] at h
      cases ht : parse t with
      | error e => simp [ht, bind, Except.bind] at h
      | ok first =>
          cases hts : ts.mapM parse with
          | error e => simp [ht, hts, bind, Except.bind] at h
          | ok rest =>
              rw [ht, hts] at h
              cases h
              rcases List.mem_cons.mp hg with rfl | hg
              · exact ⟨t, by simp, ht⟩
              · obtain ⟨t', ht', hparse⟩ := ih hts hg
                exact ⟨t', List.mem_cons_of_mem _ ht', hparse⟩

/-- A component of a glob takes no slash. -/
theorem noSlash_of_literal_mem_components {t name : Text} {gs : List Glob}
    (h : components t = .ok gs) (hmem : literal name ∈ gs) : '/' ∉ name := by
  unfold components at h
  generalize (if Path.isAbsolute t = true then t.tail else t) = s at h
  obtain ⟨piece, hpiece, hparse⟩ := exists_of_mem_mapM h hmem
  have hpieces : piece ∈ Path.pieces s := by
    split_ifs at hpiece
    · exact List.dropLast_subset _ hpiece
    · exact hpiece
  exact fun hc => Path.noSlash_of_mem_pieces hpieces (mem_of_parse hparse hc)

/-! ## One step -/

namespace Step

/-- The paths that a step leads to from the directory `path`. -/
def reach (fs : FileSystem) : Step → Text → List Text
  | .inside g, path => Glob.inside fs g path
  | .below g, path =>
    (descendants fs path).filter fun p => ((Path.fileName? p).map g.accepts).getD false
  | .anyBelow, path => descendants fs path

/-- A step goes to names only: it describes no dots, and a name that it spells has no slash. -/
def IsPlain : Step → Prop
  | .inside g => dots g = [] ∧ ∀ name, g = literal name → '/' ∉ name
  | .below _ => True
  | .anyBelow => True

theorem mem_of_inside_mem_ofComponents {g : Glob} {gs : List Glob}
    (h : .inside g ∈ ofComponents gs) : g ∈ gs := by
  induction gs with
  | nil => cases h
  | cons first gs ih =>
      rw [ofComponents] at h
      split_ifs at h with hrecursive
      · refine List.mem_cons_of_mem _ (ih ?_)
        split at h
        · simp at h
        · next hcomponents =>
            rw [hcomponents]
            exact List.mem_cons_of_mem _ (by simpa using h)
        · exact h
      · rcases List.mem_cons.mp h with heq | h
        · exact List.mem_cons.mpr (.inl (Step.inside.inj heq))
        · exact List.mem_cons_of_mem _ (ih h)

theorem ofComponents_ne_nil {gs : List Glob} (h : gs ≠ []) : ofComponents gs ≠ [] := by
  cases gs with
  | nil => exact absurd rfl h
  | cons g gs =>
      rw [ofComponents]
      split_ifs
      · split
        · simp
        · simp
        · next hne _ => exact hne
      · simp

theorem ofComponents_literals (names : List Text) (gs : List Glob) :
    ofComponents (names.map literal ++ gs)
      = names.map (fun name => .inside (literal name)) ++ ofComponents gs := by
  induction names with
  | nil => rfl
  | cons name names ih => simp [ofComponents, isRecursive_literal, ih]

end Step

theorem follow_cons (fs : FileSystem) (step : Step) (steps : List Step) (path : Text) :
    follow fs (step :: steps) path = (step.reach fs path).flatMap (follow fs steps) := by
  cases step <;> rfl

theorem isProper_of_get {fs : FileSystem} (hfs : fs.root.IsProper) {path : Text} {tree : FileTree}
    (h : fs.get path = .ok tree) : tree.IsProper := by
  cases hlocate : fs.locate path with
  | error e => simp [FileSystem.get, hlocate] at h
  | ok names =>
      cases hfind : fs.root.find? names with
      | none => simp [FileSystem.get, hlocate, hfind] at h
      | some found =>
          obtain rfl : found = tree := by simpa [FileSystem.get, hlocate, hfind] using h
          exact hfs.of_find? hfind

theorem spelledFrom_of_mem_descendants {fs : FileSystem} (hfs : fs.root.IsProper)
    {stem path p : Text} (hpath : Path.SpelledFrom stem (baseOf path))
    (hp : p ∈ descendants fs path) : Path.SpelledFrom stem p := by
  unfold descendants at hp
  split at hp
  · next tree hget =>
      obtain ⟨names, _, hnames, rfl⟩ := (isProper_of_get hfs hget).exists_of_mem_directories hp
      exact hpath.under hnames
  · cases hp

/-- A plain step goes on spelling from the stem that the path before it was spelled from. -/
theorem spelledFrom_of_mem_reach {fs : FileSystem} (hfs : fs.root.IsProper) {step : Step}
    (hstep : step.IsPlain) {stem path p : Text} (hpath : Path.SpelledFrom stem (baseOf path))
    (hp : p ∈ step.reach fs path) : Path.SpelledFrom stem p := by
  cases step with
  | inside g =>
      obtain ⟨hdots, hslash⟩ := hstep
      rw [Step.reach, inside] at hp
      split at hp
      · next name hliteral =>
          obtain rfl := literal?_eq_some_iff.mp hliteral
          obtain ⟨hdot, hparent⟩ := ne_dots_of_dots_eq_nil hdots
          dsimp only at hp
          rw [if_neg (not_or.mpr ⟨hdot, hparent⟩)] at hp
          split at hp
          · rw [List.mem_singleton.mp hp]
            by_cases hname : name = []
            · exact hname ▸ hpath.join_nil
            · exact hpath.join ⟨hslash name rfl, by simp [Path.isIdle, hname, hdot], hparent⟩
          · cases hp
      · split at hp
        · next entries hget =>
            rw [hdots, List.map_nil, List.append_nil, List.mem_map] at hp
            obtain ⟨name, hname, rfl⟩ := hp
            obtain ⟨entry, hentry, rfl⟩ := List.mem_map.mp (List.mem_of_mem_filter hname)
            cases isProper_of_get hfs hget with
            | directory hnames => exact hpath.join (hnames entry hentry)
        · cases hp
  | below g => exact spelledFrom_of_mem_descendants hfs hpath (List.mem_of_mem_filter hp)
  | anyBelow => exact spelledFrom_of_mem_descendants hfs hpath hp

/-! ## Whole globs -/

theorem spelledFrom_of_mem_follow {fs : FileSystem} (hfs : fs.root.IsProper) {steps : List Step}
    (hsteps : ∀ step ∈ steps, step.IsPlain) {stem path p : Text} (hstem : baseOf stem = stem)
    (hpath : Path.SpelledFrom stem path) (hp : p ∈ follow fs steps path) :
    Path.SpelledFrom stem p := by
  induction steps generalizing path with
  | nil => exact List.mem_singleton.mp hp ▸ hpath
  | cons step steps ih =>
      obtain ⟨hstep, hsteps⟩ := List.forall_mem_cons.mp hsteps
      rw [follow_cons, List.mem_flatMap] at hp
      obtain ⟨next, hnext, hp⟩ := hp
      have hbase := (baseOf_of_spelledFrom hstem hpath).symm ▸ hpath
      exact ih hsteps (spelledFrom_of_mem_reach hfs hstep hbase hnext) hp

/-- The path that names without wildcards lead to, whether anything is there or not. -/
def literalPath (path : Text) (names : List Text) : Text :=
  names.foldl (fun path name => Path.join (baseOf path) name) path

theorem mem_follow_literals {fs : FileSystem} {names : List Text} {steps : List Step}
    {path p : Text}
    (h : p ∈ follow fs (names.map (fun name => .inside (literal name)) ++ steps) path) :
    p ∈ follow fs steps (literalPath path names) := by
  induction names generalizing path with
  | nil => exact h
  | cons name names ih =>
      rw [List.map_cons, List.cons_append, follow_cons, List.mem_flatMap] at h
      obtain ⟨next, hnext, hp⟩ := h
      have hjoin : next = Path.join (baseOf path) name := by
        simp only [Step.reach, inside, literal?_literal] at hnext
        split_ifs at hnext <;> first | exact List.mem_singleton.mp hnext | cases hnext
      rw [literalPath, List.foldl_cons, ← hjoin]
      exact ih hp

/-- The path where following a glob begins. -/
def startOf (t : Text) : Text :=
  if Path.isAbsolute t then ['/'] else ['.']

/-- The components of a glob are names without wildcards that lead to the path `stem`, as far as
that counts, and then at least one more component; from there on, no component describes dots. -/
def IsSpelledFrom (stem t : Text) : Prop :=
  ∀ gs, components t = .ok gs →
    ∃ names rest, gs = names.map literal ++ rest ∧ rest ≠ [] ∧
      baseOf (literalPath (startOf t) names) = stem ∧ ∀ g ∈ rest, dots g = []

/-- The directories that a glob leads to are spelled from its stem. -/
theorem spelledFrom_of_mem_directories {fs : FileSystem} (hfs : fs.root.IsProper)
    {stem t p : Text} {paths : List Text} (ht : IsSpelledFrom stem t)
    (hdirectories : directories fs t = .ok paths) (hp : p ∈ paths) : Path.SpelledFrom stem p := by
  unfold directories at hdirectories
  split at hdirectories
  · cases hdirectories
  split at hdirectories
  · cases hdirectories
  next gs hcomponents =>
  obtain ⟨names, rest, rfl, hrest, rfl, hdots⟩ := ht gs hcomponents
  rw [Except.ok.injEq] at hdirectories
  subst hdirectories
  have hfollow : p ∈ follow fs (Step.ofComponents rest) (literalPath (startOf t) names) := by
    rw [Step.ofComponents_literals] at hp
    exact mem_follow_literals (List.mem_of_mem_filter hp)
  have hplain : ∀ step ∈ Step.ofComponents rest, step.IsPlain := by
    intro step hstep
    cases step with
    | inside g =>
        have hg := Step.mem_of_inside_mem_ofComponents hstep
        refine ⟨hdots g hg, fun name hname => ?_⟩
        exact noSlash_of_literal_mem_components hcomponents
          (List.mem_append_right _ (hname ▸ hg))
    | below g => trivial
    | anyBelow => trivial
  cases hsteps : Step.ofComponents rest with
  | nil => exact absurd hsteps (Step.ofComponents_ne_nil hrest)
  | cons step steps =>
      rw [hsteps] at hfollow hplain
      obtain ⟨hstep, hplain⟩ := List.forall_mem_cons.mp hplain
      rw [follow_cons, List.mem_flatMap] at hfollow
      obtain ⟨next, hnext, hp⟩ := hfollow
      exact spelledFrom_of_mem_follow hfs hplain (baseOf_baseOf _)
        (spelledFrom_of_mem_reach hfs hstep (.refl _) hnext) hp

end Glob

end KeyLint
