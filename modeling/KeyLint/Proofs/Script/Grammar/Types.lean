import KeyLint.Proofs.Script.Grammar.Expressions
import KeyLint.Script.Grammar.Types

/-!
# The layout of types

The parts of a type stand where they are read. Parameters are visited before the type parameters
in front of them.
-/

namespace KeyLint.Script.Grammar

open Reading
open Node (Laid)

variable {self : Rules}

section

variable (h : self.LayOut)
include h

theorem reads_functionTypeHead : Reads true (functionTypeHead self) fun node => [node] := by
  intro lo
  refine .keep (reads_typeParameters h) fun types => ?_
  refine .keep (reads_signatureParameters h) fun params => ?_
  exact .skip (reads_expect "=>") fun _ => .done rfl (by simp)

theorem reads_constructorTypeHead : Reads true (constructorTypeHead self) fun node => [node] := by
  intro lo
  refine .skip (reads_eatWord "abstract") fun _ => .skip (reads_expectWord "new") fun _ => ?_
  exact .last (reads_functionTypeHead h) rfl fun _ _ => id

/-! ## Members of object types -/

theorem reads_signature : Reads true (signature self) fun node => [node] := by
  intro lo
  refine .keep (reads_typeParameters h) fun types => ?_
  refine .keep (reads_signatureParameters h) fun params => ?_
  exact .keep (reads_annotated h) fun returned => .done rfl (by simp)

omit h in
theorem reads_mappedModifier : Reads false mappedModifier fun _ => [] := by
  intro lo
  refine .branch (looks_isAnySign _) ?_ (.done rfl fun _ => id)
  exact reads_advance lo

theorem reads_mappedMember : Reads false (mappedMember self) fun nodes => nodes := by
  intro lo
  refine .skip reads_mappedModifier fun _ => .skip (reads_eatWord "readonly") fun _ => ?_
  refine .skip (reads_expect "[") fun _ => .skip reads_anyName fun _ => ?_
  refine .skip (reads_expectWord "in") fun _ => .keep (reads_type h) fun keys => ?_
  refine .skip (reads_eatWord "as") fun _ => .optionally (reads_type h) fun renamed => ?_
  refine .skip (reads_expect "]") fun _ => .skip reads_mappedModifier fun _ => ?_
  refine .skip (reads_eat "?") fun _ => .keep (reads_annotated h) fun value => ?_
  exact .done rfl (by simp)

theorem reads_indexSignature : Reads false (indexSignature self) fun nodes => nodes := by
  intro lo
  refine .skip (reads_expect "[") fun _ => .skip reads_anyName fun _ => ?_
  refine .skip (reads_expect ":") fun _ => ?_
  refine .keep (reads_type h) fun key => .skip (reads_expect "]") fun _ => ?_
  exact .keep (reads_annotated h) fun value => .done rfl (by simp)

theorem reads_namedSignature : Reads false (namedSignature self) fun nodes => nodes := by
  intro lo
  refine .keep (reads_memberName h) fun name => .skip (reads_eat "?") fun _ => ?_
  refine .look (looks_isSign _) fun _ => .branch (looks_isSign _) ?_ ?_
  · exact .keep (reads_signature h) fun node => .done rfl (by simp)
  · exact .keep (reads_annotated h) fun nodes => .done rfl (by simp)

theorem reads_typeMember : Reads false (typeMember self) fun nodes => nodes := by
  have hmodifier : Reads false (do
      let isModifier ← isAnyWord ["readonly", "get", "set", "static"]
      if isModifier && (← followedOnLine opensMemberName) then
        advance
        return some ()
      else return none) (fun a? => a?.elim [] fun _ => []) := by
    intro lo
    exact .look (looks_isAnyWord _) fun _ => .look (looks_followedOnLine _) fun _ =>
      reads_passOver _ lo
  intro lo
  refine .keep (reads_mappedMember h).attempt fun mapped => ?_
  cases mapped with
  | some nodes => exact .done rfl fun _ => id
  | none =>
      refine .skip hmodifier.many fun _ => .keep (reads_indexSignature h).attempt fun index => ?_
      cases index with
      | some nodes => exact .done rfl fun _ => id
      | none =>
          have hsignature : Goes lo (At lo false []) (do
              return [← signature self]) fun nodes => At lo false nodes :=
            .keep (reads_signature h) fun node => .done rfl fun _ => id
          refine .look (looks_isSign _) fun _ => .branch (looks_isSign _) hsignature ?_
          refine .look looks_following fun next => ?_
          refine .branch (looks_isWord _) ?_ (reads_namedSignature h lo)
          exact .skip reads_advance fun _ => hsignature

theorem reads_objectType : Reads true (objectType self) fun node => [node] := by
  have hstep : Reads false (do
      if ← isSign "\x7d" then return none
      let nodes ← typeMember self
      unless ← eat "," do semicolon
      return some (Node.group nodes)) (fun node? => node?.elim [] fun node => [node]) := by
    intro lo
    refine .branch (looks_isSign _) (.done rfl fun _ => id) ?_
    refine .keep (reads_typeMember h) fun nodes => .skip (reads_eat ",") fun _ => ?_
    exact .ifNot (fun _ => reads_semicolon.stay) (.done rfl (by simp))
  intro lo
  refine .skip (reads_expect "\x7b") fun _ => .keep hstep.many fun members => ?_
  exact .skip (reads_expect "\x7d") fun _ => .done rfl (by simp)

/-! ## Simple types -/

theorem reads_tupleMember : Reads false (tupleMember self) fun node => [node] := by
  have hname : Reads true (do
      let _ ← anyName
      let _ ← eat "?"
      expect ":") (fun _ => []) := by
    intro lo
    refine .skip reads_anyName fun _ => .skip (reads_eat "?") fun _ => ?_
    exact .last (reads_expect ":") rfl fun _ _ => id
  intro lo
  refine .skip (reads_eat "...") fun _ => .skip hname.attempt fun _ => ?_
  refine .keep (reads_type h) fun type => .skip (reads_eat "?") fun _ => ?_
  exact .done rfl fun _ => id

omit h in
theorem reads_dottedNames : Reads false dottedNames fun _ => [] := by
  have hstep : Reads false (do
      if ← eat "." then
        memberWord
        return some ()
      else return none) (fun a? => a?.elim [] fun _ => []) := by
    intro lo
    refine .fork (reads_eat ".") ?_ (.done rfl fun _ => id)
    exact .skip reads_memberWord fun _ => .done rfl fun _ => id
  exact fun lo => .skip hstep.many fun _ => .done rfl fun _ => id

theorem reads_argumentsOnLine : Reads false (argumentsOnLine self) fun node => [node] := by
  intro lo
  refine .look (looks_isSign _) fun _ => .branch looks_onNewLine ?_ ?_
  · exact .keep (reads_typeArguments h) fun nodes => .done rfl (by simp)
  · exact .done rfl (by simp)

theorem reads_typeAttributes : Reads false (typeAttributes self) fun nodes => nodes := by
  intro lo
  refine .fork (reads_eat "\x7b") ?_ (.done rfl fun _ => id)
  refine .skip (reads_expectWord "with") fun _ => .skip (reads_expect ":") fun _ => ?_
  refine .skip (reads_expect "\x7b") fun _ => ?_
  refine .keep ((reads_objectMember h).commaList "\x7d") fun members => ?_
  refine .skip (reads_eat ",") fun _ => .skip (reads_expect "\x7d") fun _ => ?_
  exact .done rfl (by simp)

theorem reads_importType : Reads true (importType self) fun node => [node] := by
  intro lo
  refine .skip (reads_expectWord "import") fun _ => .skip (reads_expect "(") fun _ => ?_
  refine .skip reads_advance fun _ => .skip (reads_eat ",") fun _ => ?_
  refine .either (fun attributes => At lo true attributes)
    (fun _ => .last (reads_typeAttributes h) rfl fun _ _ => id) (fun _ => .done rfl fun _ => id) ?_
  intro attributes
  refine .skip (reads_expect ")") fun _ => .skip reads_dottedNames fun _ => ?_
  exact .keep (reads_argumentsOnLine h) fun arguments => .done rfl (by simp)

/-- The embedded types of a template literal stand in a row from a place in it on. -/
theorem goes_templateTypeRest {lo : Nat} (before : List Node) (fuel : Nat) (place : Place) :
    Goes lo (fun c => At lo false before c ∧ c.here.offset ≤ place.offset)
      (templateTypeRest self fuel place) fun nodes => At lo false (before ++ nodes) := by
  induction fuel generalizing place before with
  | zero => exact .pre .fail fun _ => And.left
  | succ fuel ih =>
      unfold templateTypeRest
      refine .look looks_get fun c => ?_
      split
      · exact .pre .fail fun _ => And.left
      · next piece hpiece =>
          refine (goes_moveTo (leadsTo_readPiece? _ _ _ hpiece)).bind fun _ => ?_
          refine .ite (fun _ => .done rfl (by simp)) fun _ => .keep (reads_type h) fun part => ?_
          refine .look (looks_isSign _) fun _ => .ifNot (fun _ => .fail) ?_
          refine .fromPlace (·.here.drop 1) (fun c _ => c.here.offset_le_drop 1) fun c => ?_
          exact (ih (before ++ [part]) (c.here.drop 1)).bind fun rest => .done rfl (by simp)

theorem reads_simpleType : Reads false (simpleType self) fun node => [node] := by
  intro lo
  have hnone : Goes lo (At lo false []) (pure (Node.group []) : Reading Node)
      fun node => At lo false [node] := .done rfl (by simp)
  have hnamed : Goes lo (At lo false []) (do
      dottedNames
      argumentsOnLine self) fun node => At lo false [node] :=
    .skip reads_dottedNames fun _ => reads_argumentsOnLine h lo
  have himport : Goes lo (At lo false []) (importType self) fun node => At lo false [node] :=
    .last (reads_importType h) rfl fun _ _ => id
  refine .look looks_token fun token => ?_
  split
  · exact .skip reads_advance fun _ => hnone
  · exact .skip reads_advance fun _ => hnone
  · refine .skip reads_advance fun _ => .look looks_token fun _ => .ifNot (fun _ => .fail) ?_
    exact .skip reads_advance fun _ => hnone
  · refine .fromPlace Cursor.next (fun c hc => hc.1) fun c => ?_
    exact (goes_templateTypeRest h [] c.fuel c.next).bind fun nodes => .done rfl (by simp)
  · exact .last (reads_objectType h) rfl fun _ _ => id
  · refine .skip reads_advance fun _ => .keep ((reads_tupleMember h).commaList "]") fun items => ?_
    exact .done rfl (by simp)
  · refine .skip reads_advance fun _ => .keep (reads_type h) fun inner => ?_
    exact .skip (reads_expect ")") fun _ => .done rfl fun _ => id
  · refine .branch (looks_isWord _) ?_ ?_
    · refine .skip reads_advance fun _ => ?_
      refine .branch (looks_isWord _) himport (.skip reads_anyName fun _ => ?_)
      exact hnamed.after rfl fun _ => id
    · refine .branch (looks_isWord _) himport ?_
      refine .branch (looks_isAnyWord _) ?_ ?_
      · exact .skip reads_advance fun _ => hnone
      · exact .skip reads_identifier fun _ => hnamed.after rfl fun _ => id
  · exact .fail

/-! ## Composed types -/

theorem reads_arrayType : Reads false (arrayType self) fun node => [node] := by
  have hstep : Reads false (do
      if (← isSign "[") && !(← onNewLine) then
        advance
        if ← eat "]" then return some (Node.group [])
        let index ← self.type
        expect "]"
        return some index
      else return none) (fun node? => node?.elim [] fun node => [node]) := by
    intro lo
    refine .look (looks_isSign _) fun _ => ?_
    refine .branch looks_onNewLine (.skip reads_advance fun _ => ?_) (.done rfl fun _ => id)
    refine .fork (reads_eat "]") (.done rfl (by simp)) ?_
    exact .keep (reads_type h) fun index => .skip (reads_expect "]") fun _ => .done rfl fun _ => id
  exact fun lo => .keep (reads_simpleType h) fun element => .keep hstep.many fun indexes =>
    .done rfl (by simp)

theorem reads_operatorType (inBound : Bool) :
    Reads false (operatorType self inBound) fun node => [node] := by
  have hoperator : Reads false (do
      let c ← following
      if (← isAnyWord ["keyof", "unique", "readonly"]) && !endsType c.token then
        advance
        return some ()
      else return none) (fun a? => a?.elim [] fun _ => []) := by
    intro lo
    exact .look looks_following fun _ => .look (looks_isAnyWord _) fun _ => reads_passOver _ lo
  have hbound : Reads false (do
      expectWord "extends"
      let bound ← arrayType self
      if !inBound && (← isSign "?") then fail
      return bound) (fun node => [node]) := by
    intro lo
    refine .skip (reads_expectWord "extends") fun _ => .keep (reads_arrayType h) fun bound => ?_
    refine .look (looks_isSign _) fun _ => ?_
    exact .ifSo (fun _ => .fail) (.done rfl fun _ => id)
  intro lo
  refine .skip hoperator.many fun _ => .look looks_following fun c => ?_
  refine .branch (looks_isWord _) ?_ (reads_arrayType h lo)
  refine .skip reads_advance fun _ => .skip reads_anyName fun _ => .keep hbound.attempt fun bound => ?_
  cases bound with
  | none => exact .done rfl (by simp)
  | some bound => exact .done rfl (by simp)

omit h in
theorem reads_composedType (sign : String) {part : Reading Node}
    (hpart : Reads false part fun node => [node]) :
    Reads false (composedType sign part) fun node => [node] := by
  have hstep : Reads false (do
      if ← eat sign then return some (← part) else return none)
      (fun node? => node?.elim [] fun node => [node]) := by
    intro lo
    refine .fork (reads_eat sign) ?_ (.done rfl fun _ => id)
    exact .keep hpart fun node => .done rfl fun _ => id
  exact fun lo => .skip (reads_eat sign) fun _ => .keep hpart fun first => .keep hstep.many fun more =>
    .done rfl (by simp)

theorem reads_unionType (inBound : Bool) :
    Reads false (unionType self inBound) fun node => [node] :=
  reads_composedType "|" (reads_composedType "&" (reads_operatorType h inBound))

theorem reads_typeHead? :
    Reads false (typeHead? self) fun node? => node?.elim [] fun node => [node] := by
  intro lo
  refine .look (looks_isSign _) fun _ => ?_
  refine .branch (looks_isSign _) ((reads_functionTypeHead h).attempt lo) ?_
  exact .branch (looks_isAnyWord _) ((reads_constructorTypeHead h).attempt lo) (.done rfl fun _ => id)

theorem reads_plainType (inBound : Bool) :
    Reads false (plainType self inBound) fun node => [node] := by
  intro lo
  refine .keep (reads_typeHead? h) fun head => ?_
  cases head with
  | some head => exact .keep (reads_type h) fun returned => .done rfl (by simp)
  | none => exact reads_unionType h inBound lo

omit h in
theorem reads_assertion : Reads false assertion fun _ => [] := by
  intro lo
  refine .look (looks_isWord _) fun _ => ?_
  refine .branch (looks_followedOnLine _) ?_ (.done rfl fun _ => id)
  exact .skip reads_advance fun _ => .done rfl fun _ => id

theorem reads_predicateType : Reads false (predicateType self) fun node => [node] := by
  intro lo
  refine .skip reads_assertion fun asserts => .skip reads_anyName fun _ => ?_
  refine .look looks_onNewLine fun _ => .branch (looks_isWord _) ?_ ?_
  · exact .skip reads_advance fun _ => .last (reads_type h) rfl fun _ _ => id
  · exact .ite (fun _ => .done rfl (by simp)) fun _ => .fail

theorem reads_typeRule : Reads false (typeRule self) fun node => [node] := by
  intro lo
  refine .keep (reads_predicateType h).attempt fun predicate => ?_
  cases predicate with
  | some node => exact .done rfl fun _ => id
  | none =>
      refine .keep (reads_plainType h false) fun checked => ?_
      refine .look (looks_isWord _) fun _ => ?_
      refine .branch looks_onNewLine (.skip reads_advance fun _ => ?_) (.done rfl fun _ => id)
      refine .keep (reads_plainType h true) fun bound => .skip (reads_expect "?") fun _ => ?_
      refine .keep (reads_type h) fun yes => .skip (reads_expect ":") fun _ => ?_
      exact .keep (reads_type h) fun no => .done rfl (by simp)

end

end KeyLint.Script.Grammar
