import KeyLint.Span

/-!
# Tracked literals

The string literals that have been bound to the names of a script so far. Bindings only grow: a
later assignment adds literals and removes none.
-/

namespace KeyLint

/-- Names with the literals bound to them, in the order of binding. -/
structure Tracker where
  bindings : List (Text × Literal) := []
deriving Repr, DecidableEq, Inhabited

namespace Tracker

/-- Adds literals to those bound to a name. -/
def record (tracker : Tracker) (name : Text) (literals : List Literal) : Tracker :=
  ⟨tracker.bindings ++ literals.map fun literal => (name, literal)⟩

/-- The literals bound to a name, in the order of binding. -/
def lookup (tracker : Tracker) (name : Text) : List Literal :=
  (tracker.bindings.filter fun binding => binding.1 = name).map Prod.snd

@[simp] theorem lookup_empty (name : Text) : lookup {} name = [] := rfl

/-- Recording adds at the end for the recorded name and changes nothing for any other. -/
theorem lookup_record (tracker : Tracker) (name other : Text) (literals : List Literal) :
    (tracker.record name literals).lookup other
      = tracker.lookup other ++ if name = other then literals else [] := by
  simp only [lookup, record, List.filter_append, List.map_append]
  congr 1
  by_cases h : name = other <;> simp [List.filter_map, Function.comp_def, h]

end Tracker

end KeyLint
