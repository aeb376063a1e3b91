import KeyLint.Proofs.Checker.Bindings
import KeyLint.Proofs.Script.Parser

/-!
# Bindings and calls in document order

The offsets of the events of a script never go down just if none of the forms that are visited in an
order of their own (loops, functions, classes and their members, calls with type arguments, some
types) has its parts with events visited in another order than that in which they stand. Then a call
with a name for its key is checked for all literals that the name is bound to before the call.
-/

namespace KeyLint

open Script (Node)

/-- Whenever a translation method is called with a name for its key, the literals of all bindings of
the name that begin before the call have been recorded. -/
def Checker.RecordsInTime (c : Checker) (events : List Node) : Prop :=
  ∀ before callee types owner argument method name more span after,
    events = before ++ .typedCall callee types (argument :: more) span :: after →
    callee.Wraps (.member owner method) →
    method = "translate".toList ∨ method = "instant".toList →
    argument.Wraps (.ident name) →
    ∀ binding ∈ events, ∀ start value, binding.start? = some start → start < span.start →
      (Event.script binding).boundTo? name = some value →
      c.literals value
        ⊆ c.calledKeys (c.trackAll {} (before.map Event.script)) callee (argument :: more)

/-- Among events in order, one that begins before another comes before it. -/
theorem Script.Node.mem_of_start_lt {before after : List Node} {event later : Node}
    {start start' : Nat}
    (hsorted : ((before ++ later :: after).filterMap Node.start?).Pairwise (· ≤ ·))
    (hmem : event ∈ before ++ later :: after) (hstart : event.start? = some start)
    (hstart' : later.start? = some start') (hlt : start < start') : event ∈ before := by
  rcases List.mem_append.mp hmem with hbefore | hlater
  · exact hbefore
  rw [List.filterMap_append, List.filterMap_cons_some hstart', List.pairwise_append] at hsorted
  rcases List.mem_cons.mp hlater with rfl | hafter
  · rw [hstart] at hstart'
    cases hstart'
    exact absurd hlt (Nat.lt_irrefl start)
  · have hle := (List.pairwise_cons.mp hsorted.2.1).1 start
      (List.mem_filterMap.mpr ⟨event, hafter, hstart⟩)
    exact absurd hlt (Nat.not_lt.mpr hle)

theorem Checker.recordsInTime_of_sorted (c : Checker) {events : List Node}
    (hsorted : (events.filterMap Node.start?).Pairwise (· ≤ ·)) : c.RecordsInTime events := by
  rintro before callee types owner argument method name more span after rfl hcallee hmethod
    hargument binding hmem start value hstart hlt hbound literal hliteral
  have hbefore := Script.Node.mem_of_start_lt hsorted hmem hstart rfl hlt
  rw [calledKeys_of_name hcallee hmethod hargument, lookup_trackAll, Tracker.lookup_empty,
    List.nil_append]
  refine List.mem_flatMap.mpr ⟨value, List.mem_filterMap.mpr ⟨.script binding, ?_, hbound⟩, hliteral⟩
  exact List.mem_map_of_mem hbefore

/-- The events of a script are in order just if the forms that are visited in an order of their own
have their parts with events in it as they stand, and in order they record all bindings in time. -/
theorem Script.document_order {source : Text} {nodes : List Node}
    (h : Script.parse source = .ok nodes) :
    (((Node.eventsIn nodes).filterMap Node.start?).Pairwise (· ≤ ·) ↔
      ∀ path node, (Node.group nodes).at? path = some node → node.isRearranged = true →
        node.KeepsOrder) ∧
    (((Node.eventsIn nodes).filterMap Node.start?).Pairwise (· ≤ ·) →
      ∀ c : Checker, c.RecordsInTime (Node.eventsIn nodes)) := by
  refine ⟨?_, fun hsorted c => c.recordsInTime_of_sorted hsorted⟩
  obtain ⟨hi, hlaid⟩ := Script.laid_parse h
  have hroot : (Node.group nodes).IsOrdered ↔ ∀ node ∈ nodes, node.IsOrdered :=
    Node.isOrdered_iff.trans (and_iff_right rfl)
  refine hlaid.sorted_iff.trans (hroot.symm.trans ?_)
  constructor
  · exact fun hordered path node hnode _ => hordered path node hnode
  · intro hkeeps path node hnode
    by_cases hrearranged : node.isRearranged = true
    · exact hkeeps path node hnode hrearranged
    · exact Node.keepsOrder_of_not_isRearranged hrearranged

/-- An assignment with a call after it. -/
theorem Script.document_order_of_call_after_assignment :
    ∃ nodes, Script.parse "k = 'b.c'; t.translate(k);".toList = .ok nodes ∧
      (Node.eventsIn nodes).filterMap Node.start? = [0, 11] ∧
      ∀ c : Checker, c.RecordsInTime (Node.eventsIn nodes) := by
  have hparse : Script.parse "k = 'b.c'; t.translate(k);".toList
      = .ok [.assign (.ident "k".toList) (.str (some "b.c".toList) ⟨4, 9⟩) ⟨0, 9⟩,
        .call (.member (.ident "t".toList) "translate".toList) [.ident "k".toList] ⟨11, 25⟩] := by
    rfl
  exact ⟨_, hparse, rfl, (Script.document_order hparse).2 (by decide)⟩

/-- The test of a `do` loop is visited before its body: a call in it is checked before an assignment
in the body has been recorded. -/
theorem Script.document_order_broken_by_do_loop :
    ∃ nodes, Script.parse "do \x7b k = 'b.c'; \x7d while (t.translate(k));".toList = .ok nodes ∧
      (Node.eventsIn nodes).filterMap Node.start? = [25, 5] ∧
      ∀ c : Checker, ¬ c.RecordsInTime (Node.eventsIn nodes) := by
  have hparse : Script.parse "do \x7b k = 'b.c'; \x7d while (t.translate(k));".toList
      = .ok [.doLoop
          (.group [.assign (.ident "k".toList) (.str (some "b.c".toList) ⟨9, 14⟩) ⟨5, 14⟩])
          (.call (.member (.ident "t".toList) "translate".toList) [.ident "k".toList] ⟨25, 39⟩)] := by
    rfl
  refine ⟨_, hparse, rfl, fun c hrecords => ?_⟩
  have hkeys := hrecords [] _ _ _ _ _ _ _ _ _ rfl .bare (.inl rfl) .bare _ (.tail _ (.head _)) 5 _ rfl
    (by decide) rfl
  exact absurd (hkeys (.head _)) List.not_mem_nil

/-- The type of a class field is visited after its value. -/
example :
    (Script.parse "class A \x7b x: \x7b [k = 'b.c']: string \x7d = t.translate(k); \x7d".toList).map
      (fun nodes => (Node.eventsIn nodes).filterMap Node.start?) = .ok [10, 39, 16] := by
  decide +kernel

end KeyLint
