import Mathlib.Data.List.Forall2
import KeyLint.Script.Tree

/-!
# The walk through a script

A node stands at a path: the numbers of the children that lead to it. The walk comes to every event
of a tree once and in the order of the paths, so that a node comes before all that is inside it.
-/

namespace KeyLint.Script.Node

/-! ## One node and its children -/

theorem eventsIn_eq_flatMap (nodes : List Node) : eventsIn nodes = nodes.flatMap events := by
  induction nodes with
  | nil => rfl
  | cons node nodes ih => rw [eventsIn, ih, List.flatMap_cons]

theorem eventsIn_append (nodes more : List Node) :
    eventsIn (nodes ++ more) = eventsIn nodes ++ eventsIn more := by
  simp [eventsIn_eq_flatMap]

theorem eventsOf_eq (node? : Option Node) : eventsOf node? = eventsIn node?.toList := by
  cases node? with
  | none => rfl
  | some node => simp [eventsOf, eventsIn]

/-- A node of interest is reported itself, and the walk goes on to the children of any node. -/
theorem events_eq (node : Node) :
    node.events = (if node.isEvent then [node] else []) ++ eventsIn node.children := by
  cases node <;> simp [events, eventsIn, eventsIn_append, eventsOf_eq, isEvent, children]

theorem sizeOf_lt_of_mem_children {node child : Node} (h : child ∈ node.children) :
    sizeOf child < sizeOf node := by
  have hlist (nodes : List Node) (hmem : child ∈ nodes) : sizeOf child < sizeOf nodes :=
    List.sizeOf_lt_of_mem hmem
  have hoption (node? : Option Node) (hmem : child ∈ node?.toList) :
      sizeOf child < sizeOf node? := by
    rw [Option.mem_toList.mp hmem]
    simp
  cases node <;>
    simp only [children, List.mem_cons, List.mem_append, List.not_mem_nil, or_false] at h <;>
    grind

/-- Induction over a tree: what holds for a node if it holds for its children holds for all. -/
theorem induction_children {motive : Node → Prop}
    (h : ∀ node, (∀ child ∈ node.children, motive child) → motive node) (node : Node) :
    motive node :=
  h node fun child hchild =>
    have := sizeOf_lt_of_mem_children hchild
    induction_children h child
termination_by sizeOf node

/-! ## Paths -/

/-- The node at a path. -/
def at? : Node → (path : List Nat) → Option Node
  | node, [] => some node
  | node, i :: path => node.children[i]?.bind fun child => child.at? path

/-- The node at a path that begins among nodes which are counted from `first` on. -/
def atIn? (first : Nat) (nodes : List Node) : (path : List Nat) → Option Node
  | [] => none
  | i :: path => if i < first then none else nodes[i - first]?.bind fun node => node.at? path

theorem at?_cons (node : Node) (i : Nat) (path : List Nat) :
    node.at? (i :: path) = atIn? 0 node.children (i :: path) := by
  simp [at?, atIn?]

theorem atIn?_cons (first : Nat) (node : Node) (nodes : List Node) (i : Nat) (path : List Nat) :
    atIn? first (node :: nodes) (i :: path)
      = if i = first then node.at? path else atIn? (first + 1) nodes (i :: path) := by
  rcases Nat.lt_trichotomy i first with hlt | rfl | hgt
  · have hlater : i < first + 1 := by omega
    simp [atIn?, hlt, hlater, Nat.ne_of_lt hlt]
  · simp [atIn?]
  · have hlater : ¬ i < first + 1 := by omega
    have hsub : i - first = i - (first + 1) + 1 := by omega
    simp [atIn?, Nat.lt_asymm hgt, hlater, Nat.ne_of_gt hgt, hsub]

theorem exists_cons_of_atIn? {first : Nat} {nodes : List Node} {path : List Nat} {node : Node}
    (h : atIn? first nodes path = some node) : ∃ i rest, path = i :: rest ∧ first ≤ i := by
  cases path with
  | nil => cases h
  | cons i rest =>
      refine ⟨i, rest, rfl, Nat.le_of_not_lt fun hlt => ?_⟩
      simp [atIn?, hlt] at h

/-! ## Events in the order of their paths -/

/-- The events among the nodes that `find` knows, each at its path, in the order of the paths. -/
structure Listed (find : List Nat → Option Node) (paths : List (List Nat)) (events : List Node) :
    Prop where
  at_path : List.Forall₂ (fun path event => find path = some event) paths events
  isEvent_iff : ∀ {path node}, find path = some node → (node.isEvent = true ↔ path ∈ paths)
  increasing : paths.Pairwise (· < ·)

namespace Listed

variable {find before after : List Nat → Option Node} {paths later : List (List Nat)}
  {events more : List Node}

theorem exists_eq_some (h : Listed find paths events) {path : List Nat} (hpath : path ∈ paths) :
    ∃ event, find path = some event := by
  obtain ⟨i, hi, rfl⟩ := List.getElem_of_mem hpath
  exact ⟨_, h.at_path.get hi (h.at_path.length_eq ▸ hi)⟩

/-- Two lists are one if the paths of all nodes of the first come before those of the second. -/
theorem append (h : Listed before paths events) (hmore : Listed after later more)
    (hfind : ∀ {path node}, find path = some node ↔ before path = some node ∨ after path = some node)
    (hlt : ∀ {path path' node node'}, before path = some node → after path' = some node' →
      path < path') : Listed find (paths ++ later) (events ++ more) where
  at_path := by
    refine List.rel_append (h.at_path.imp ?_) (hmore.at_path.imp ?_)
    · exact fun path event hpath => hfind.mpr (.inl hpath)
    · exact fun path event hpath => hfind.mpr (.inr hpath)
  isEvent_iff := by
    intro path node hnode
    rcases hfind.mp hnode with hbefore | hafter
    · have hnot : path ∉ later := fun hmem =>
        List.lt_irrefl path (hlt hbefore (hmore.exists_eq_some hmem).choose_spec)
      rw [h.isEvent_iff hbefore, List.mem_append, or_iff_left hnot]
    · have hnot : path ∉ paths := fun hmem =>
        List.lt_irrefl path (hlt (h.exists_eq_some hmem).choose_spec hafter)
      rw [hmore.isEvent_iff hafter, List.mem_append, or_iff_right hnot]
  increasing := by
    refine List.pairwise_append.mpr ⟨h.increasing, hmore.increasing, fun path hpath path' hpath' => ?_⟩
    exact hlt (h.exists_eq_some hpath).choose_spec (hmore.exists_eq_some hpath').choose_spec

end Listed

/-- A node without what is inside it. -/
def alone (node : Node) : (path : List Nat) → Option Node
  | [] => some node
  | _ :: _ => none

theorem listed_alone (node : Node) :
    Listed node.alone (if node.isEvent then [[]] else []) (if node.isEvent then [node] else []) := by
  cases hevent : node.isEvent with
  | true =>
      refine ⟨.cons rfl .nil, ?_, List.pairwise_singleton _ _⟩
      rintro (_ | _) found hfound
      · cases hfound
        simp [hevent]
      · cases hfound
  | false =>
      refine ⟨.nil, ?_, .nil⟩
      rintro (_ | _) found hfound
      · cases hfound
        simp [hevent]
      · cases hfound

/-- The nodes behind the child with a number. -/
def behind (i : Nat) (find : List Nat → Option Node) : (path : List Nat) → Option Node
  | [] => none
  | j :: path => if j = i then find path else none

theorem exists_of_behind {i : Nat} {find : List Nat → Option Node} {path : List Nat} {node : Node}
    (h : behind i find path = some node) : ∃ rest, path = i :: rest ∧ find rest = some node := by
  cases path with
  | nil => cases h
  | cons j rest =>
      rw [behind] at h
      split at h
      · next hj => exact ⟨rest, hj ▸ rfl, h⟩
      · cases h

theorem Listed.behind {find : List Nat → Option Node} {paths : List (List Nat)}
    {events : List Node} (h : Listed find paths events) (i : Nat) :
    Listed (behind i find) (paths.map (i :: ·)) events where
  at_path := List.forall₂_map_left_iff.mpr (h.at_path.imp fun path event hpath => by
    rw [Node.behind, if_pos rfl, hpath])
  isEvent_iff := by
    intro path node hnode
    obtain ⟨rest, rfl, hrest⟩ := exists_of_behind hnode
    rw [h.isEvent_iff hrest, List.mem_map_of_injective (List.cons_injective)]
  increasing := h.increasing.map _ fun path path' hlt =>
    List.cons_lt_cons_iff.mpr (.inr ⟨rfl, hlt⟩)

/-! ## The whole walk -/

theorem exists_listed_in {nodes : List Node}
    (h : ∀ node ∈ nodes, ∃ paths, Listed node.at? paths node.events) (first : Nat) :
    ∃ paths, Listed (atIn? first nodes) paths (eventsIn nodes) := by
  induction nodes generalizing first with
  | nil =>
      refine ⟨[], .nil, ?_, .nil⟩
      rintro (_ | ⟨i, path⟩) node hfind
      · cases hfind
      · simp [atIn?] at hfind
  | cons node nodes ih =>
      obtain ⟨inner, hinner⟩ := h node List.mem_cons_self
      obtain ⟨later, hlater⟩ := ih (fun n hn => h n (List.mem_cons_of_mem node hn)) (first + 1)
      refine ⟨_, (hinner.behind first).append hlater ?_ ?_⟩
      · rintro (_ | ⟨i, path⟩) found
        · simp [atIn?, Node.behind]
        · rw [atIn?_cons, Node.behind]
          split
          · next hfirst => simp [atIn?, hfirst]
          · simp
      · intro path path' found found' hpath hpath'
        obtain ⟨rest, rfl, _⟩ := exists_of_behind hpath
        obtain ⟨i, rest', rfl, hi⟩ := exists_cons_of_atIn? hpath'
        exact List.cons_lt_cons_iff.mpr (.inl hi)

theorem exists_listed (node : Node) : ∃ paths, Listed node.at? paths node.events := by
  induction node using induction_children with
  | h node ih =>
      obtain ⟨paths, hpaths⟩ := exists_listed_in ih 0
      rw [events_eq]
      refine ⟨_, (listed_alone node).append hpaths ?_ ?_⟩
      · rintro (_ | ⟨i, path⟩) found
        · simp [at?, atIn?, alone]
        · simp [at?_cons, alone]
      · rintro (_ | _) path' found found' hpath hpath'
        · obtain ⟨i, rest, rfl, _⟩ := exists_cons_of_atIn? hpath'
          exact List.nil_lt_cons i rest
        · cases hpath

/-- The walk through a script comes to each declarator, assignment, call, property and class field
in it once, and to each of them before anything inside it. -/
theorem walk_visits_each_once (nodes : List Node) :
    ∃ paths : List (List Nat),
      List.Forall₂ (fun path event => (group nodes).at? path = some event) paths (eventsIn nodes) ∧
      (∀ path node, (group nodes).at? path = some node → (node.isEvent = true ↔ path ∈ paths)) ∧
      paths.Nodup ∧ paths.Pairwise fun path later => ¬ later <+: path := by
  obtain ⟨paths, hpaths⟩ := exists_listed (group nodes)
  refine ⟨paths, ?_, fun path node => hpaths.isEvent_iff, ?_, ?_⟩
  · simpa [events] using hpaths.at_path
  · refine hpaths.increasing.imp ?_
    rintro path _ hlt rfl
    exact List.lt_irrefl path hlt
  · exact hpaths.increasing.imp fun hlt hprefix => hprefix.le hlt

end KeyLint.Script.Node
