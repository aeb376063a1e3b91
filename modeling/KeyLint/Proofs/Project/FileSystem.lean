import Mathlib.Data.List.Basic
import KeyLint.FileSystem
import KeyLint.Proofs.Text

/-!
# Paths that lead to directories

What a path leads to when a name is joined to it, and when its last component is cut off. A path is
followed from a starting point that only depends on whether it is absolute; the empty path, to which
names may still be joined, stands for the working directory.
-/

namespace KeyLint

/-! ## Trees -/

namespace FileTree

theorem lookup_setEntry (name : Text) (tree : FileTree) (entries : List (Text × FileTree)) :
    (setEntry name tree entries).lookup name = some tree := by
  induction entries with
  | nil => simp [setEntry]
  | cons entry entries ih =>
      obtain ⟨other, t⟩ := entry
      by_cases h : other = name
      · simp [setEntry, h]
      · have hne : (name == other) = false := by simpa using fun heq : name = other => h heq.symm
        simp [setEntry, h, List.lookup_cons, hne, ih]

/-- What is inserted further down is found in what is on the way. -/
theorem exists_find?_insert (new : FileTree) (names more : List Text) (tree : FileTree) :
    ∃ below, find? names (insert new (names ++ more) tree) = some (insert new more below) := by
  induction names generalizing tree with
  | nil => exact ⟨tree, rfl⟩
  | cons name names ih =>
      obtain ⟨below, hbelow⟩ := ih ((tree.entry? name).getD (.directory []))
      refine ⟨below, ?_⟩
      rw [List.cons_append, insert, find?, entry?, lookup_setEntry]
      exact hbelow

theorem find?_append (names more : List Text) (tree : FileTree) :
    find? (names ++ more) tree = (find? names tree).bind (find? more) := by
  induction names generalizing tree with
  | nil => rfl
  | cons name names ih =>
      simp only [List.cons_append, find?, Option.bind_assoc]
      exact congrArg _ (funext fun t => ih t)

end FileTree

/-! ## Pieces of a path -/

namespace Path

/-- A name that an entry of a directory can have. -/
structure IsName (name : Text) : Prop where
  noSlash : '/' ∉ name
  notIdle : isIdle name = false
  notParent : name ≠ ['.', '.']

instance (name : Text) : Decidable (IsName name) :=
  decidable_of_iff ('/' ∉ name ∧ isIdle name = false ∧ name ≠ ['.', '.'])
    ⟨fun ⟨hslash, hidle, hparent⟩ => ⟨hslash, hidle, hparent⟩, fun h =>
      ⟨h.noSlash, h.notIdle, h.notParent⟩⟩

theorem IsName.ne_nil {name : Text} (h : IsName name) : name ≠ [] := by
  rintro rfl
  exact absurd h.notIdle (by decide)

theorem isAbsolute_of_noSlash {name : Text} (h : '/' ∉ name) : isAbsolute name = false := by
  cases name with
  | nil => rfl
  | cons c cs =>
      have hc : c ≠ '/' := fun heq => h (heq ▸ List.mem_cons_self)
      simpa [isAbsolute] using hc

theorem pieces_of_noSlash {name : Text} (h : '/' ∉ name) : pieces name = [name] := by
  refine Text.splitWhere_eq_singleton fun c hc => ?_
  exact decide_eq_false fun heq => h (heq ▸ hc)

theorem pieces_append_slash (s t : Text) : pieces (s ++ '/' :: t) = pieces s ++ pieces t :=
  Text.splitWhere_append_cons (by decide) s t

theorem noSlash_of_mem_pieces {p piece : Text} (h : piece ∈ pieces p) : '/' ∉ piece := by
  intro hslash
  obtain ⟨_, hfalse⟩ := Text.mem_iff_of_splitWhere.mp ⟨piece, h, hslash⟩
  simp at hfalse

theorem pieces_join {ps : List Text} (hne : ps ≠ []) (hps : ∀ piece ∈ ps, '/' ∉ piece) :
    pieces (Text.join ['/'] ps) = ps := by
  induction ps with
  | nil => exact absurd rfl hne
  | cons first ps ih =>
      obtain ⟨hfirst, hps⟩ := List.forall_mem_cons.mp hps
      cases ps with
      | nil => exact pieces_of_noSlash hfirst
      | cons second ps =>
          rw [Text.join, List.append_assoc, List.singleton_append, pieces_append_slash,
            pieces_of_noSlash hfirst, ih (by simp) hps]
          · rfl
          · simp

theorem isAbsolute_iff {p : Text} (hp : p ≠ []) :
    isAbsolute p = true ↔ (pieces p).head? = some [] := by
  obtain ⟨c, cs, rfl⟩ := List.exists_cons_of_ne_nil hp
  obtain ⟨piece, more, hcs⟩ :=
    List.exists_cons_of_ne_nil (Text.splitWhere_ne_nil (fun d => decide (d = '/')) cs)
  by_cases hc : c = '/'
  · simp [isAbsolute, pieces, Text.splitOn, Text.splitWhere, hc]
  · simp [isAbsolute, pieces, Text.splitOn, Text.splitWhere, hc, hcs]

end Path

namespace FileSystem

/-! ## Following a path -/

/-- Where following a path begins. -/
def origin (fs : FileSystem) (path : Text) : List Text :=
  if Path.isAbsolute path then [] else fs.workingDirectory

/-- The names that a path leads to, where the empty path leads to the working directory. -/
def follow (fs : FileSystem) (path : Text) : Except AccessError (List Text) :=
  (Path.pieces path).foldlM fs.step (fs.origin path)

theorem locate_eq_follow (fs : FileSystem) {path : Text} (h : path ≠ []) :
    fs.locate path = fs.follow path := by
  rw [locate, if_neg (by simpa using h), follow, origin]

/-- Names lead to a directory. -/
def IsDirectoryAt (fs : FileSystem) (here : List Text) : Prop :=
  ∃ entries, fs.root.find? here = some (.directory entries)

/-- The directory that names lead to has an entry with a name. -/
def holds (fs : FileSystem) (here : List Text) (name : Text) : Bool :=
  (fs.root.find? (here ++ [name])).isSome

theorem step_of_idle {fs : FileSystem} {here there : List Text} {piece : Text}
    (hpiece : Path.isIdle piece = true) :
    fs.step here piece = .ok there ↔ fs.IsDirectoryAt here ∧ there = here := by
  unfold step IsDirectoryAt
  split
  · next hnone => simp [hnone]
  · next hfile => simp [hfile]
  · next hdirectory => simp [hdirectory, hpiece, eq_comm]

theorem step_of_name {fs : FileSystem} {here there : List Text} {piece : Text}
    (hpiece : Path.IsName piece) :
    fs.step here piece = .ok there ↔
      fs.IsDirectoryAt here ∧ fs.holds here piece = true ∧ there = here ++ [piece] := by
  unfold step IsDirectoryAt holds
  rw [FileTree.find?_append]
  split
  · next hnone => simp [hnone]
  · next hfile => simp [hfile]
  · next entries hdirectory =>
      rw [if_neg (by simp [hpiece.notIdle]), if_neg hpiece.notParent]
      have hfind : (FileTree.directory entries).find? [piece] = entries.lookup piece := by
        simp [FileTree.find?, FileTree.entry?]
      simp only [hdirectory, Option.bind_some, hfind]
      split
      · next hsome => simp [hsome, eq_comm]
      · next hnone => simp [hnone]

theorem foldlM_concat (fs : FileSystem) (ps : List Text) (piece : Text) (origin : List Text) :
    (ps ++ [piece]).foldlM fs.step origin = (ps.foldlM fs.step origin).bind (fs.step · piece) := by
  rw [List.foldlM_append]
  cases ps.foldlM fs.step origin with
  | error e => rfl
  | ok here => exact bind_pure (fs.step here piece)

theorem foldlM_concat_eq_ok {fs : FileSystem} {ps : List Text} {piece : Text}
    {origin there : List Text} :
    (ps ++ [piece]).foldlM fs.step origin = .ok there ↔
      ∃ here, ps.foldlM fs.step origin = .ok here ∧ fs.step here piece = .ok there := by
  rw [foldlM_concat]
  cases ps.foldlM fs.step origin <;> simp [Except.bind]

theorem foldlM_singleton (fs : FileSystem) (origin : List Text) (piece : Text) :
    [piece].foldlM fs.step origin = fs.step origin piece :=
  bind_pure (fs.step origin piece)

theorem follow_nil (fs : FileSystem) {here : List Text} :
    fs.follow [] = .ok here ↔ fs.IsDirectoryAt fs.workingDirectory ∧ here = fs.workingDirectory := by
  rw [follow, show Path.pieces [] = [[]] from rfl, foldlM_singleton]
  exact step_of_idle rfl

/-! ## Changed file systems -/

theorem find?_put (fs : FileSystem) (path : Text) (tree : FileTree) :
    (fs.put path tree).root.find? (fs.names path) = some tree := by
  obtain ⟨below, hbelow⟩ := FileTree.exists_find?_insert tree (fs.names path) [] fs.root
  rwa [List.append_nil] at hbelow

theorem isDirectoryAt_put {fs : FileSystem} {path name : Text} {here : List Text}
    (hnames : fs.names path = here ++ [name]) (tree : FileTree) :
    (fs.put path tree).IsDirectoryAt here := by
  obtain ⟨below, hbelow⟩ := FileTree.exists_find?_insert tree here [name] fs.root
  rw [← hnames] at hbelow
  exact ⟨_, hbelow⟩

/-! ## Names in a directory -/

/-- An idle piece only asks for a directory, which any other step does too. -/
theorem step_bind_step {fs : FileSystem} {here : List Text} {piece : Text}
    (hpiece : Path.isIdle piece = true) (next : Text) :
    (fs.step here piece).bind (fs.step · next) = fs.step here next := by
  conv_rhs => unfold step
  conv_lhs => arg 1; unfold step
  cases htree : fs.root.find? here with
  | none => rfl
  | some tree =>
      cases tree with
      | file text => rfl
      | directory entries => simp [hpiece, Except.bind, step, htree]

/-- What is joined to a path makes one more step, a slash at the end of the path or not. -/
theorem follow_join (fs : FileSystem) (path : Text) {name : Text} (hname : '/' ∉ name) :
    fs.follow (Path.join path name) = (fs.follow path).bind (fs.step · name) := by
  have hpieces := Path.pieces_of_noSlash hname
  have hrelative := Path.isAbsolute_of_noSlash hname
  rw [Path.join, if_neg (by simp [hrelative])]
  rcases List.eq_nil_or_concat' path with rfl | ⟨s, c, rfl⟩
  · rw [if_pos (by simp), List.nil_append, follow, follow, origin, origin, hrelative, hpieces,
      show Path.pieces [] = [[]] from rfl, foldlM_singleton, foldlM_singleton]
    exact (step_bind_step rfl name).symm
  · have horigin : ∀ t, fs.origin (s ++ [c] ++ t) = fs.origin (s ++ [c]) := by
      intro t
      cases s <;> rfl
    by_cases hc : c = '/'
    · -- The piece after the last slash is empty, and the name takes its place.
      subst hc
      rw [if_pos (by simp), follow, follow, horigin, List.append_assoc, List.singleton_append,
        Path.pieces_append_slash, Path.pieces_append_slash, hpieces,
        show Path.pieces [] = [[]] from rfl, foldlM_concat, foldlM_concat]
      cases (Path.pieces s).foldlM fs.step (fs.origin (s ++ ['/'])) with
      | error e => rfl
      | ok here => exact (step_bind_step rfl name).symm
    · rw [if_neg (by simpa using hc), follow, follow, List.append_assoc _ ['/'], horigin,
        List.singleton_append, Path.pieces_append_slash, hpieces, foldlM_concat]

theorem follow_join_eq_ok {fs : FileSystem} {path name : Text} {there : List Text}
    (hname : '/' ∉ name) :
    fs.follow (Path.join path name) = .ok there ↔
      ∃ here, fs.follow path = .ok here ∧ fs.step here name = .ok there := by
  rw [follow_join fs path hname]
  cases fs.follow path <;> simp [Except.bind]

theorem join_ne_nil {name : Text} (hname : Path.IsName name) (path : Text) :
    Path.join path name ≠ [] := by
  have hne := hname.ne_nil
  unfold Path.join
  split_ifs <;> simp [hne]

theorem locate_join {fs : FileSystem} {path name : Text} {here : List Text}
    (hname : Path.IsName name) (hpath : fs.follow path = .ok here) (hdir : fs.IsDirectoryAt here)
    (hholds : fs.holds here name = true) :
    fs.locate (Path.join path name) = .ok (here ++ [name]) := by
  rw [locate_eq_follow fs (join_ne_nil hname path), follow_join_eq_ok hname.noSlash]
  exact ⟨here, hpath, (step_of_name hname).mpr ⟨hdir, hholds, rfl⟩⟩

/-- A name joined to the path of a directory leads somewhere if the directory has an entry with that
name. -/
theorem has_join {fs : FileSystem} {path name : Text} {here : List Text}
    (hname : Path.IsName name) (hpath : fs.follow path = .ok here) (hdir : fs.IsDirectoryAt here) :
    fs.has (Path.join path name) = fs.holds here name := by
  cases hholds : fs.holds here name with
  | true =>
      obtain ⟨tree, htree⟩ := Option.isSome_iff_exists.mp hholds
      rw [has, get, locate_join hname hpath hdir hholds]
      simp [htree, Except.toBool]
  | false =>
      rw [has, get, locate_eq_follow fs (join_ne_nil hname path),
        follow_join fs path hname.noSlash, hpath, Except.bind]
      cases hstep : fs.step here name with
      | error e => rfl
      | ok there =>
          obtain ⟨_, htrue, _⟩ := (step_of_name hname).mp hstep
          rw [hholds] at htrue
          cases htrue

end FileSystem

end KeyLint
