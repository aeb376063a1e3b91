import KeyLint.Proofs.Cursor.Checked
import KeyLint.Proofs.Template.References

/-!
# Character references by offsets

References are replaced from left to right: the text up to the next one goes to the result, and the
loop goes on with what follows the reference.
-/

namespace KeyLint.Cursor

/-- The character of the reference that a text begins with and the offset of its semicolon. -/
def referenceAt (tail : Text) : Checked (Option (Char × Nat)) :=
  match (find? [';'] tail).filter (· ≤ Template.maxReferenceBytes) with
  | none => pure none
  | some semicolon => do
    let name ← textBetween tail 1 semicolon
    pure ((Template.referenced? name).map (·, semicolon))

/-- What is still to be decoded, and what has been. -/
def decodeTurn : Text × Text → Checked ((Text × Text) ⊕ Text)
  | (rest, done) =>
    match find? ['&'] rest with
    | none => pure (.inr (done ++ rest))
    | some ampersand => do
      let before ← textBetween rest 0 ampersand
      let tail ← textBetween rest ampersand (Text.bytes rest)
      match ← referenceAt tail with
      | some (c, semicolon) =>
        let rest ← textBetween tail (semicolon + 1) (Text.bytes tail)
        pure (.inl (rest, done ++ before ++ [c]))
      | none =>
        let rest ← textBetween tail 1 (Text.bytes tail)
        pure (.inl (rest, done ++ before ++ ['&']))

def decodeEntities (t : Text) : Checked Text :=
  if t.contains '&' then iterate (fun state => state.1.length) decodeTurn (t, []) else pure t

/-! ## References -/

theorem referenceAt_of_not_mem {t : Text} (h : ';' ∉ t) : referenceAt ('&' :: t) = .ok none := by
  have hcut : Text.cut? [';'] ('&' :: t) = none := Text.cut?_of_not_mem (by simpa using h)
  rw [referenceAt, find?, hcut]
  rfl

theorem referenceAt_append {name : Text} (h : ';' ∉ name) (rest : Text) :
    referenceAt ('&' :: (name ++ ';' :: rest))
      = .ok (if 1 + Text.bytes name ≤ Template.maxReferenceBytes then
          (Template.referenced? name).map (·, 1 + Text.bytes name)
        else none) := by
  have hfind : find? [';'] ('&' :: (name ++ ';' :: rest)) = some (1 + Text.bytes name) := by
    have hcut : Text.cut? [';'] ('&' :: (name ++ ';' :: rest)) = some ('&' :: name, rest) :=
      Text.cut?_append_cons (s := '&' :: name) (by simpa using h) rest
    rw [find?, hcut]
    rfl
  have hname : textBetween ('&' :: (name ++ ';' :: rest)) 1 (1 + Text.bytes name) = .ok name :=
    textBetween_append ['&'] name (';' :: rest)
  rw [referenceAt, hfind]
  by_cases hshort : 1 + Text.bytes name ≤ Template.maxReferenceBytes
  · rw [if_pos hshort, Option.filter_some_pos (by simpa using hshort)]
    simp only [hname, ok_bind]
    rfl
  · rw [if_neg hshort, Option.filter_some_neg (by simpa using hshort)]
    rfl

theorem decodeEntities_append {s : Text} (hs : '&' ∉ s) (t : Text) :
    Template.decodeEntities (s ++ t) = s ++ Template.decodeEntities t := by
  induction s with
  | nil => rfl
  | cons c s ih =>
      obtain ⟨hc, hs⟩ := not_or.mp (List.mem_cons.not.mp hs)
      rw [List.cons_append, Template.decodeEntities_cons_of_ne (Ne.symm hc), ih hs,
        List.cons_append]

/-! ## The whole text -/

/-- The state after a turn that has found an ampersand with `after` behind it. -/
def decodeNext (after done : Text) : Text × Text :=
  match Template.reference? after with
  | some (c, rest) => (rest, done ++ [c])
  | none => (after, done ++ ['&'])

theorem decodeTurn_append {before : Text} (hbefore : '&' ∉ before) (after done : Text) :
    decodeTurn (before ++ '&' :: after, done) = .ok (.inl (decodeNext after (done ++ before))) := by
  have hfind : find? ['&'] (before ++ '&' :: after) = some (Text.bytes before) := by
    rw [find?, Text.cut?_append_cons hbefore]
    rfl
  have hrest : textBetween ('&' :: after) 1 (Text.bytes ('&' :: after)) = .ok after :=
    textBetween_end ['&'] after
  simp only [decodeTurn, hfind, textBetween_start, textBetween_end, ok_bind]
  rw [decodeNext, Template.reference?]
  by_cases hmem : ';' ∈ after
  · obtain ⟨name, rest, rfl, hname⟩ := List.eq_append_cons_of_mem hmem
    have hafter : textBetween ('&' :: (name ++ ';' :: rest)) (1 + Text.bytes name + 1)
        (Text.bytes ('&' :: (name ++ ';' :: rest))) = .ok rest := by
      have hstart : Text.bytes ('&' :: (name ++ [';'])) = 1 + Text.bytes name + 1 := by
        rw [Text.bytes_cons, Text.bytes_append, Nat.add_assoc]
        rfl
      have hslice := textBetween_end ('&' :: (name ++ [';'])) rest
      rwa [hstart, List.cons_append, List.append_assoc] at hslice
    rw [referenceAt_append hname, Text.takeWhile_ne_append hname, Text.dropWhile_ne_append hname]
    by_cases hshort : 1 + Text.bytes name ≤ Template.maxReferenceBytes
    · cases Template.referenced? name with
      | none => simp only [if_pos hshort, Option.map_none, hrest, ok_bind, pure_eq_ok]
      | some c => simp only [if_pos hshort, Option.map_some, hafter, ok_bind, pure_eq_ok]
    · simp only [if_neg hshort, hrest, ok_bind, pure_eq_ok]
  · rw [referenceAt_of_not_mem hmem, Text.dropWhile_ne_of_not_mem hmem]
    simp only [ok_bind, hrest]
    rfl

theorem iterate_decodeTurn (rest done : Text) :
    iterate (fun state => state.1.length) decodeTurn (rest, done)
      = .ok (done ++ Template.decodeEntities rest) := by
  induction hlength : rest.length using Nat.strong_induction_on generalizing rest done with
  | _ n ih =>
      by_cases hmem : '&' ∈ rest
      · obtain ⟨before, after, rfl, hbefore⟩ := List.eq_append_cons_of_mem hmem
        have hturn := decodeTurn_append hbefore after done
        rw [decodeEntities_append hbefore, Template.decodeEntities_ampersand]
        rw [decodeNext] at hturn
        cases hread : Template.reference? after with
        | none =>
            rw [hread] at hturn
            rw [iterate_next hturn (by simp; omega), ih _ (by simp at hlength; omega) _ _ rfl]
            simp
        | some found =>
            obtain ⟨c, rest⟩ := found
            have hshorter := Template.length_lt_of_reference?_eq_some hread
            rw [hread] at hturn
            rw [iterate_next hturn (by simp; omega), ih _ (by simp at hlength; omega) _ _ rfl]
            simp
      · refine iterate_done ?_
        have hfind : find? ['&'] rest = none := by
          rw [find?, Text.cut?_of_not_mem hmem]
          rfl
        simp only [decodeTurn, hfind, Template.decodeEntities_of_not_mem hmem]
        rfl

theorem decodeEntities_eq (t : Text) : decodeEntities t = .ok (Template.decodeEntities t) := by
  rw [decodeEntities]
  split
  · exact iterate_decodeTurn t []
  · next hnone =>
      rw [Template.decodeEntities_of_not_mem (by simpa using hnone)]
      rfl

end KeyLint.Cursor
