import KeyLint.Expression.Operand

/-!
# Keys of an expression

The candidate keys of a binding, of a text with interpolations, or of a whole inline template.
-/

namespace KeyLint.Expression

/-- The contents of the interpolations of a text. Each ends at the first closing braces; one that is
not closed does not count, nor does what follows it. -/
def interpolations (source : Text) : List Text :=
  match _h₁ : Text.cut? "\x7b\x7b".toList source with
  | none => []
  | some (_, body) =>
    match _h₂ : Text.cut? "\x7d\x7d".toList body with
    | none => []
    | some (unit, rest) => unit :: interpolations rest
termination_by source.length
decreasing_by
  have h₁ := Text.length_le_of_cut?_eq_some _h₁
  have h₂ := Text.length_le_of_cut?_eq_some _h₂
  simp at h₁ h₂
  omega

/-- The candidate keys of a source: those piped into the translation pipe, interpolation by
interpolation or in the source as a whole if it has none, and then those of `read` clauses. -/
def keys (source : Text) : List Text :=
  let units := interpolations source
  let piped := if units.isEmpty then pipedKeys source else units.flatMap pipedKeys
  piped ++ readKeys false source

end KeyLint.Expression
