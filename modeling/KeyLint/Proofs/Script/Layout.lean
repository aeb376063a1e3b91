import Mathlib.Data.List.Basic
import KeyLint.Proofs.Script.Walk

/-!
# Where the parts of a script stand

The parts of a node stand one after the other in the text, and some nodes are visited in another
order. In a tree that is laid out like a text, the offsets of the events that the walk comes to
never go down just if every node has its parts with events visited in the order in which they stand.
-/

namespace KeyLint.Script.Node

/-! ## Offsets and standing order -/

/-- The offset that an event begins at. -/
def start? : Node → Option Nat
  | .typedCall _ _ _ span | .typedDeclarator _ _ _ span | .assign _ _ span | .property _ _ span
  | .typedField _ _ _ _ _ span => some span.start
  | _ => none

/-- The nodes directly inside a node, in the order in which they stand. -/
def standing : Node → List Node
  | .typedCall callee types arguments _ => callee :: (types ++ arguments)
  | .typedWrapped .assertion types inner => types ++ [inner]
  | .typedField _ key types value decorators _ | .otherField decorators key types value =>
    decorators ++ key :: (types ++ value.toList)
  | .function decorators name types params returned body =>
    decorators ++ (name ++ (types ++ (params ++ (returned ++ body))))
  | .classDef decorators types parent bases members =>
    decorators ++ (types ++ (parent ++ (bases ++ members)))
  | .doLoop body test => [body, test]
  | .swapped first second => first ++ second
  | node => node.children

/-- The offsets of the events that the walk through some nodes comes to. -/
def starts (nodes : List Node) : List Nat :=
  (eventsIn nodes).filterMap start?

/-- The parts of a class field. -/
theorem perm_fieldParts (key : Node) (types value decorators : List Node) :
    (key :: (value ++ (types ++ decorators))).Perm (decorators ++ key :: (types ++ value)) :=
  calc key :: (value ++ (types ++ decorators))
    List.Perm _ (key :: (types ++ (value ++ decorators))) :=
      (List.perm_append_comm_assoc ..).cons key
    _ = key :: (types ++ value) ++ decorators := by rw [List.cons_append, List.append_assoc]
    List.Perm _ (decorators ++ key :: (types ++ value)) := List.perm_append_comm

theorem children_perm_standing (node : Node) : node.children.Perm node.standing := by
  cases node with
  | typedCall callee types arguments span => exact List.perm_append_comm.cons callee
  | typedWrapped form types inner =>
      cases form with
      | assertion => exact @List.perm_append_comm _ [inner] types
      | _ => exact .refl _
  | typedField modifiers key types value decorators span => exact perm_fieldParts ..
  | otherField decorators key types value => exact perm_fieldParts ..
  | function decorators name types params returned body =>
      have hlate : (body ++ (types ++ returned)).Perm (types ++ (returned ++ body)) :=
        List.perm_append_comm.trans (by rw [List.append_assoc])
      calc name ++ (params ++ (decorators ++ (body ++ (types ++ returned))))
        List.Perm _ (name ++ (params ++ (decorators ++ (types ++ (returned ++ body))))) :=
          ((hlate.append_left decorators).append_left params).append_left name
        List.Perm _ (name ++ (decorators ++ (params ++ (types ++ (returned ++ body))))) :=
          (List.perm_append_comm_assoc ..).append_left name
        List.Perm _ (decorators ++ (name ++ (params ++ (types ++ (returned ++ body))))) :=
          List.perm_append_comm_assoc ..
        List.Perm _ (decorators ++ (name ++ (types ++ (params ++ (returned ++ body))))) :=
          ((List.perm_append_comm_assoc ..).append_left name).append_left decorators
  | classDef decorators types parent bases members =>
      have hearly : (parent ++ (types ++ bases)).Perm (types ++ (parent ++ bases)) :=
        List.perm_append_comm_assoc ..
      calc decorators ++ (members ++ (parent ++ (types ++ bases)))
        List.Perm _ (decorators ++ (parent ++ (types ++ bases) ++ members)) :=
          List.perm_append_comm.append_left decorators
        List.Perm _ (decorators ++ (types ++ (parent ++ bases) ++ members)) :=
          (hearly.append_right members).append_left decorators
        _ = decorators ++ (types ++ (parent ++ (bases ++ members))) := by
          simp only [List.append_assoc]
  | doLoop body test => exact .swap body test []
  | swapped first second => exact List.perm_append_comm
  | _ => exact .refl _

@[simp] theorem starts_nil : starts [] = [] := rfl

theorem starts_append (nodes more : List Node) :
    starts (nodes ++ more) = starts nodes ++ starts more := by
  simp [starts, eventsIn_append]

theorem starts_cons (node : Node) (nodes : List Node) :
    starts (node :: nodes) = node.start?.toList ++ (starts node.children ++ starts nodes) := by
  have hown : (if node.isEvent then [node] else []).filterMap start? = node.start?.toList := by
    cases node <;> rfl
  rw [starts, eventsIn, events_eq, List.filterMap_append, List.filterMap_append, hown,
    List.append_assoc]
  rfl

theorem starts_eq_flatMap (nodes : List Node) :
    starts nodes = nodes.flatMap fun node => starts [node] := by
  induction nodes with
  | nil => rfl
  | cons node nodes ih =>
      rw [List.flatMap_cons, ← ih]
      exact starts_append [node] nodes

theorem mem_starts_iff {nodes : List Node} {start : Nat} :
    start ∈ starts nodes ↔ ∃ node ∈ nodes, start ∈ starts [node] := by
  rw [starts_eq_flatMap, List.mem_flatMap]

theorem mem_starts_children_iff {node : Node} {start : Nat} :
    start ∈ starts node.children ↔ start ∈ starts node.standing := by
  simp only [@mem_starts_iff node.children, @mem_starts_iff node.standing,
    node.children_perm_standing.mem_iff]

/-! ## Layout -/

/-- Nodes that stand one after the other between two offsets, and so do the nodes in each of them.
An event begins at its own offset and takes up some of the text. -/
inductive Laid : (lo hi : Nat) → List Node → Prop
  | nil {lo hi : Nat} (h : lo ≤ hi) : Laid lo hi []
  | event {lo start mid hi : Nat} {node : Node} {nodes : List Node} (hstart : node.start? = some start)
      (hlo : lo ≤ start) (hmid : start < mid) (hinner : Laid start mid node.standing)
      (hrest : Laid mid hi nodes) : Laid lo hi (node :: nodes)
  | other {lo mid hi : Nat} {node : Node} {nodes : List Node} (hstart : node.start? = none)
      (hinner : Laid lo mid node.standing) (hrest : Laid mid hi nodes) : Laid lo hi (node :: nodes)

namespace Laid

variable {lo mid hi : Nat} {nodes more : List Node}

theorem le (h : Laid lo hi nodes) : lo ≤ hi := by
  induction h with
  | nil h => exact h
  | event _ hlo hmid _ _ _ ihrest => omega
  | other _ _ _ ihinner ihrest => exact Nat.le_trans ihinner ihrest

theorem mono_left (h : Laid mid hi nodes) (hlo : lo ≤ mid) : Laid lo hi nodes := by
  induction h generalizing lo with
  | nil h => exact .nil (Nat.le_trans hlo h)
  | event hstart hle hmid hinner hrest _ _ =>
      exact .event hstart (Nat.le_trans hlo hle) hmid hinner hrest
  | other hstart _ hrest ihinner _ => exact .other hstart (ihinner hlo) hrest

theorem append (h : Laid lo mid nodes) (hmore : Laid mid hi more) : Laid lo hi (nodes ++ more) := by
  induction h generalizing hi with
  | nil h => exact hmore.mono_left h
  | event hstart hle hmid hinner _ _ ihrest => exact .event hstart hle hmid hinner (ihrest hmore)
  | other hstart hinner _ _ ihrest => exact .other hstart hinner (ihrest hmore)

theorem mono_right (h : Laid lo mid nodes) (hhi : mid ≤ hi) : Laid lo hi nodes := by
  simpa using h.append (.nil hhi)

/-- Some of the nodes may be left out. -/
theorem sublist {kept : List Node} (h : Laid lo hi nodes) (hkept : kept.Sublist nodes) :
    Laid lo hi kept := by
  induction h generalizing kept with
  | nil h =>
      rw [List.sublist_nil.mp hkept]
      exact .nil h
  | event hstart hlo hmid hinner _ _ ihrest =>
      cases hkept with
      | cons _ hkept => exact (ihrest hkept).mono_left (Nat.le_trans hlo (Nat.le_of_lt hmid))
      | cons_cons _ hkept => exact .event hstart hlo hmid hinner (ihrest hkept)
  | other hstart hinner _ _ ihrest =>
      cases hkept with
      | cons _ hkept => exact (ihrest hkept).mono_left hinner.le
      | cons_cons _ hkept => exact .other hstart hinner (ihrest hkept)

end Laid

theorem laid_append_iff {lo hi : Nat} {nodes more : List Node} :
    Laid lo hi (nodes ++ more) ↔ ∃ mid, Laid lo mid nodes ∧ Laid mid hi more := by
  constructor
  · intro h
    induction nodes generalizing lo with
    | nil => exact ⟨lo, .nil (Nat.le_refl lo), h⟩
    | cons node nodes ih =>
        cases h with
        | event hstart hle hmid hinner hrest =>
            obtain ⟨mid, hnodes, hmore⟩ := ih hrest
            exact ⟨mid, .event hstart hle hmid hinner hnodes, hmore⟩
        | other hstart hinner hrest =>
            obtain ⟨mid, hnodes, hmore⟩ := ih hrest
            exact ⟨mid, .other hstart hinner hnodes, hmore⟩
  · rintro ⟨mid, hnodes, hmore⟩
    exact hnodes.append hmore

/-- What is in a node stands where the node stands. -/
theorem Laid.standing {lo hi : Nat} {node : Node} (h : Laid lo hi [node]) :
    Laid lo hi node.standing := by
  cases h with
  | event _ hlo _ hinner hrest => exact (hinner.mono_left hlo).mono_right hrest.le
  | other _ hinner hrest => exact hinner.mono_right hrest.le

/-- A node that is no event may be replaced by what is in it. -/
theorem laid_cons_iff {lo hi : Nat} {node : Node} {nodes : List Node} (hstart : node.start? = none) :
    Laid lo hi (node :: nodes) ↔ Laid lo hi (node.standing ++ nodes) := by
  rw [laid_append_iff]
  constructor
  · intro h
    cases h with
    | event hevent => rw [hstart] at hevent; cases hevent
    | other _ hinner hrest => exact ⟨_, hinner, hrest⟩
  · rintro ⟨mid, hinner, hrest⟩
    exact .other hstart hinner hrest

theorem laid_append_cons_iff {lo hi : Nat} {node : Node} {nodes rest : List Node}
    (hstart : node.start? = none) :
    Laid lo hi (nodes ++ node :: rest) ↔ Laid lo hi (nodes ++ (node.standing ++ rest)) := by
  simp only [@laid_append_iff _ _ nodes, laid_cons_iff hstart]

section

variable {lo hi : Nat} {nodes rest : List Node}

@[simp] theorem laid_append_atom : Laid lo hi (nodes ++ .atom :: rest) ↔ Laid lo hi (nodes ++ rest) :=
  laid_append_cons_iff rfl

@[simp] theorem laid_append_group {parts : List Node} :
    Laid lo hi (nodes ++ .group parts :: rest) ↔ Laid lo hi (nodes ++ (parts ++ rest)) :=
  laid_append_cons_iff rfl

@[simp] theorem laid_atom : Laid lo hi (.atom :: rest) ↔ Laid lo hi rest := laid_cons_iff rfl

@[simp] theorem laid_ident {name : Text} : Laid lo hi (.ident name :: rest) ↔ Laid lo hi rest :=
  laid_cons_iff rfl

@[simp] theorem laid_str {value : Option Text} {span : Span} :
    Laid lo hi (.str value span :: rest) ↔ Laid lo hi rest := laid_cons_iff rfl

@[simp] theorem laid_template {chunks : List Chunk} {parts : List Node} {span : Span} :
    Laid lo hi (.template chunks parts span :: rest) ↔ Laid lo hi (parts ++ rest) :=
  laid_cons_iff rfl

@[simp] theorem laid_cond {test yes no : Node} :
    Laid lo hi (.cond test yes no :: rest) ↔ Laid lo hi (test :: yes :: no :: rest) :=
  laid_cons_iff rfl

@[simp] theorem laid_member {owner : Node} {name : Text} :
    Laid lo hi (.member owner name :: rest) ↔ Laid lo hi (owner :: rest) := laid_cons_iff rfl

@[simp] theorem laid_spread {inner : Node} :
    Laid lo hi (.spread inner :: rest) ↔ Laid lo hi (inner :: rest) := laid_cons_iff rfl

@[simp] theorem laid_wrapped {form : Wrapper} {inner : Node} :
    Laid lo hi (.wrapped form inner :: rest) ↔ Laid lo hi (inner :: rest) := by
  cases form <;> exact laid_cons_iff rfl

/-- The types of a wrapper stand after the expression, but for `<T>e`. -/
theorem laid_typedWrapped {form : Wrapper} {types : List Node} {inner : Node}
    (hform : form ≠ .assertion) :
    Laid lo hi (.typedWrapped form types inner :: rest) ↔ Laid lo hi (inner :: (types ++ rest)) := by
  cases form with
  | assertion => exact absurd rfl hform
  | _ => exact laid_cons_iff rfl

@[simp] theorem laid_assertion {types : List Node} {inner : Node} :
    Laid lo hi (.typedWrapped .assertion types inner :: rest)
      ↔ Laid lo hi (types ++ inner :: rest) := by
  rw [laid_cons_iff rfl, standing, List.append_assoc, List.singleton_append]

@[simp] theorem laid_instantiated {inner : Node} {types : List Node} :
    Laid lo hi (.instantiated inner types :: rest) ↔ Laid lo hi (inner :: (types ++ rest)) :=
  laid_cons_iff rfl

@[simp] theorem laid_array {items : List Node} :
    Laid lo hi (.array items :: rest) ↔ Laid lo hi (items ++ rest) := laid_cons_iff rfl

@[simp] theorem laid_object {members : List Node} :
    Laid lo hi (.object members :: rest) ↔ Laid lo hi (members ++ rest) := laid_cons_iff rfl

@[simp] theorem laid_otherField {decorators types : List Node} {key : Node} {value : Option Node} :
    Laid lo hi (.otherField decorators key types value :: rest)
      ↔ Laid lo hi (decorators ++ key :: (types ++ (value.toList ++ rest))) := by
  rw [laid_cons_iff rfl, standing, List.append_assoc, List.cons_append, List.append_assoc]

@[simp] theorem laid_function {decorators name types params returned body : List Node} :
    Laid lo hi (.function decorators name types params returned body :: rest)
      ↔ Laid lo hi (decorators ++ (name ++ (types ++ (params ++ (returned ++ (body ++ rest)))))) := by
  rw [laid_cons_iff rfl, standing]
  simp only [List.append_assoc]

@[simp] theorem laid_classDef {decorators types parent bases members : List Node} :
    Laid lo hi (.classDef decorators types parent bases members :: rest)
      ↔ Laid lo hi (decorators ++ (types ++ (parent ++ (bases ++ (members ++ rest))))) := by
  rw [laid_cons_iff rfl, standing]
  simp only [List.append_assoc]

@[simp] theorem laid_doLoop {body test : Node} :
    Laid lo hi (.doLoop body test :: rest) ↔ Laid lo hi (body :: test :: rest) := laid_cons_iff rfl

@[simp] theorem laid_swapped {first second : List Node} :
    Laid lo hi (.swapped first second :: rest) ↔ Laid lo hi (first ++ (second ++ rest)) := by
  rw [laid_cons_iff rfl, standing, List.append_assoc]

@[simp] theorem laid_cons_swapped {node : Node} {first second : List Node} :
    Laid lo hi (node :: .swapped first second :: rest)
      ↔ Laid lo hi (node :: (first ++ (second ++ rest))) := by
  have hinner := @laid_append_cons_iff lo hi (.swapped first second) [node] rest rfl
  simpa [standing] using hinner

@[simp] theorem laid_group {parts : List Node} :
    Laid lo hi (.group parts :: rest) ↔ Laid lo hi (parts ++ rest) := laid_cons_iff rfl

end

/-! ## Offsets of a layout -/

theorem Laid.bounds {lo hi : Nat} {nodes : List Node} (h : Laid lo hi nodes) :
    ∀ start ∈ starts nodes, lo ≤ start ∧ start < hi := by
  induction h with
  | nil h => simp
  | event hstart hlo hmid hinner hrest ihinner ihrest =>
      have hle := hrest.le
      intro start hmem
      simp only [starts_cons, hstart, Option.toList_some, List.mem_append, List.mem_singleton,
        mem_starts_children_iff] at hmem
      rcases hmem with rfl | hmem | hmem
      · omega
      · have := ihinner start hmem
        omega
      · have := ihrest start hmem
        omega
  | other hstart hinner hrest ihinner ihrest =>
      have hle := hrest.le
      have hle' := hinner.le
      intro start hmem
      simp only [starts_cons, hstart, Option.toList_none, List.nil_append, List.mem_append,
        mem_starts_children_iff] at hmem
      rcases hmem with hmem | hmem
      · have := ihinner start hmem
        omega
      · have := ihrest start hmem
        omega

/-- All events of a node come before all events of another. -/
def Before (node later : Node) : Prop :=
  ∀ start ∈ starts [node], ∀ start' ∈ starts [later], start < start'

theorem Laid.pairwise_before {lo hi : Nat} {nodes : List Node} (h : Laid lo hi nodes) :
    nodes.Pairwise Before := by
  induction nodes generalizing lo with
  | nil => exact .nil
  | cons node nodes ih =>
      obtain ⟨mid, hnode, hnodes⟩ := laid_append_iff.mp (show Laid lo hi ([node] ++ nodes) from h)
      refine .cons (fun later hlater start hstart start' hstart' => ?_) (ih hnodes)
      have hend := hnode.bounds start hstart
      have hbegin := hnodes.bounds start' (mem_starts_iff.mpr ⟨later, hlater, hstart'⟩)
      omega

/-! ## Events in order -/

/-- A node with an event in it. -/
def holdsEvent (node : Node) : Bool :=
  !(starts [node]).isEmpty

/-- The parts of a node that hold events are visited in the order in which they stand. -/
def KeepsOrder (node : Node) : Prop :=
  node.children.filter holdsEvent = node.standing.filter holdsEvent

/-- A form whose parts are visited in an order of its own. -/
def isRearranged : Node → Bool
  | .typedCall .. | .typedWrapped .assertion .. | .typedField .. | .otherField .. | .function ..
  | .classDef .. | .doLoop .. | .swapped .. => true
  | _ => false

theorem keepsOrder_of_not_isRearranged {node : Node} (h : ¬ node.isRearranged = true) :
    node.KeepsOrder := by
  cases node with
  | typedWrapped form types inner =>
      cases form with
      | assertion => exact absurd rfl h
      | _ => rfl
  | _ => first | rfl | exact absurd rfl h

/-- A node and all nodes inside it have their parts visited in the order in which they stand. -/
def IsOrdered (node : Node) : Prop :=
  ∀ path found, node.at? path = some found → found.KeepsOrder

theorem isOrdered_iff {node : Node} :
    node.IsOrdered ↔ node.KeepsOrder ∧ ∀ child ∈ node.children, child.IsOrdered := by
  constructor
  · intro h
    refine ⟨h [] node rfl, fun child hchild path found hfound => ?_⟩
    obtain ⟨i, hi, rfl⟩ := List.getElem_of_mem hchild
    refine h (i :: path) found ?_
    rw [at?, List.getElem?_eq_getElem hi]
    exact hfound
  · rintro ⟨hkeeps, hchildren⟩ path found hfound
    cases path with
    | nil =>
        cases hfound
        exact hkeeps
    | cons i path =>
        obtain ⟨child, hchild, hpath⟩ := Option.bind_eq_some_iff.mp hfound
        exact hchildren child (List.mem_of_getElem? hchild) path found hpath

theorem starts_filter (nodes : List Node) : starts (nodes.filter holdsEvent) = starts nodes := by
  induction nodes with
  | nil => rfl
  | cons node nodes ih =>
      have hcons (rest : List Node) : starts (node :: rest) = starts [node] ++ starts rest :=
        starts_append [node] rest
      rw [List.filter_cons, hcons]
      split
      · rw [hcons, ih]
      · next hholds =>
          have hnil : starts [node] = [] := by simpa [holdsEvent] using hholds
          rw [ih, hnil, List.nil_append]

theorem eq_or_before {nodes : List Node} (h : nodes.Pairwise Before) {node other : Node}
    (hnode : node ∈ nodes) (hother : other ∈ nodes) :
    node = other ∨ node.Before other ∨ other.Before node := by
  induction h with
  | nil => cases hnode
  | cons hhead _ ih =>
      rcases List.mem_cons.mp hnode with heq | hmem <;>
        rcases List.mem_cons.mp hother with heq' | hmem'
      · exact .inl (heq.trans heq'.symm)
      · exact .inr (.inl (heq ▸ hhead _ hmem'))
      · exact .inr (.inr (heq' ▸ hhead _ hmem))
      · exact ih hmem hmem'

/-- Parts whose events are found in order are visited as they stand, apart from those without
events. -/
theorem filter_eq_of_sorted {visited stood : List Node} (hperm : visited.Perm stood)
    (hstood : stood.Pairwise Before) (hsorted : (starts visited).Pairwise (· ≤ ·)) :
    visited.filter holdsEvent = stood.filter holdsEvent := by
  rw [starts_eq_flatMap, List.pairwise_flatMap] at hsorted
  refine (hperm.filter holdsEvent).eq_of_pairwise ?_ (hsorted.2.filter _) ((hstood.imp ?_).filter _)
  · intro node other hnode hother hle hge
    obtain ⟨hnode, hholds⟩ := List.mem_filter.mp hnode
    obtain ⟨hother, hholds'⟩ := List.mem_filter.mp hother
    obtain ⟨start, hstart⟩ := List.exists_mem_of_ne_nil _ (by simpa [holdsEvent] using hholds)
    obtain ⟨start', hstart'⟩ := List.exists_mem_of_ne_nil _ (by simpa [holdsEvent] using hholds')
    have hle := hle start hstart start' hstart'
    have hge := hge start' hstart' start hstart
    rcases eq_or_before hstood (hperm.mem_iff.mp hnode) hother with heq | hbefore | hbefore
    · exact heq
    · have := hbefore start hstart start' hstart'
      omega
    · have := hbefore start' hstart' start hstart
      omega
  · exact fun hbefore start hstart start' hstart' =>
      Nat.le_of_lt (hbefore start hstart start' hstart')

theorem starts_children_of_keepsOrder {node : Node} (h : node.KeepsOrder) :
    starts node.children = starts node.standing := by
  rw [← starts_filter node.children, h, starts_filter]

/-- The events in a node are in order just if those in each part are and the parts are visited as
they stand. -/
theorem sorted_children_iff {lo hi : Nat} {node : Node} (h : Laid lo hi node.standing)
    (hparts : (starts node.standing).Pairwise (· ≤ ·) ↔ ∀ part ∈ node.standing, part.IsOrdered) :
    (starts node.children).Pairwise (· ≤ ·) ↔ node.IsOrdered := by
  have hmem (child : Node) : child ∈ node.children ↔ child ∈ node.standing :=
    node.children_perm_standing.mem_iff
  rw [isOrdered_iff]
  simp only [hmem, ← hparts]
  constructor
  · intro hsorted
    have hkeeps : node.KeepsOrder :=
      filter_eq_of_sorted node.children_perm_standing h.pairwise_before hsorted
    exact ⟨hkeeps, starts_children_of_keepsOrder hkeeps ▸ hsorted⟩
  · rintro ⟨hkeeps, hsorted⟩
    rw [starts_children_of_keepsOrder hkeeps]
    exact hsorted

/-- The events of nodes that are laid out like a text are in order just if all parts with events
are visited as they stand. -/
theorem Laid.sorted_iff {lo hi : Nat} {nodes : List Node} (h : Laid lo hi nodes) :
    (starts nodes).Pairwise (· ≤ ·) ↔ ∀ node ∈ nodes, node.IsOrdered := by
  induction h with
  | nil h => simp
  | event hstart hlo hmid hinner hrest ihinner ihrest =>
      have hin := hinner.bounds
      have hafter := hrest.bounds
      simp only [List.forall_mem_cons, ← sorted_children_iff hinner ihinner, ← ihrest, starts_cons,
        hstart, Option.toList_some, List.singleton_append, List.pairwise_cons, List.pairwise_append,
        List.mem_append, mem_starts_children_iff]
      grind
  | other hstart hinner hrest ihinner ihrest =>
      have hin := hinner.bounds
      have hafter := hrest.bounds
      simp only [List.forall_mem_cons, ← sorted_children_iff hinner ihinner, ← ihrest, starts_cons,
        hstart, Option.toList_none, List.nil_append, List.pairwise_append, mem_starts_children_iff]
      grind

end KeyLint.Script.Node
