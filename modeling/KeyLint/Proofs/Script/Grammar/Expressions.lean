import KeyLint.Proofs.Script.Grammar.Classes
import KeyLint.Script.Grammar.Expressions

/-!
# The layout of expressions

A call begins where its callee begins, an assignment where its target does, and a property with its
name. All operands of an expression stand in the order in which they are read.
-/

namespace KeyLint.Script.Grammar

open Reading
open Node (Laid)

variable {self : Rules}

/-! ## Template literals -/

section

variable (h : self.LayOut)
include h

/-- The expressions in a template literal stand in a row from a place in it on. -/
theorem goes_templateRest {lo : Nat} (before : List Node) (tagged : Bool) (fuel : Nat)
    (place : Place) :
    Goes lo (fun c => At lo false before c ∧ c.here.offset ≤ place.offset)
      (templateRest self tagged fuel place) fun pieces => At lo false (before ++ pieces.2) := by
  induction fuel generalizing place before with
  | zero => exact .pre .fail fun _ => And.left
  | succ fuel ih =>
      unfold templateRest
      refine .look looks_get fun c => ?_
      split
      · exact .pre .fail fun _ => And.left
      · next piece hpiece =>
          refine .ifSo (fun _ => .pre .fail fun _ => And.left) ?_
          refine (goes_moveTo (leadsTo_readPiece? _ _ _ hpiece)).bind fun _ => ?_
          refine .ite (fun _ => .done rfl (by simp)) fun _ => .keep (reads_expression h) fun part => ?_
          refine .look (looks_isSign _) fun _ => .ifNot (fun _ => .fail) ?_
          refine .fromPlace (·.here.drop 1) (fun c _ => c.here.offset_le_drop 1) fun c => ?_
          exact (ih (before ++ [part]) (c.here.drop 1)).bind fun rest => .done rfl (by simp)

theorem reads_templateLiteral (tagged : Bool) :
    Reads false (templateLiteral self tagged) fun node => [node] := by
  intro lo
  refine .fromPlace Cursor.next (fun c hc => hc.1) fun c => ?_
  refine .ifNot (fun _ => .pre .fail fun _ => And.left) ?_
  refine (goes_templateRest h [] tagged c.fuel c.next).bind fun pieces => ?_
  exact .spanFrom fun stop => .done rfl (by simp)

/-! ## Object and array literals -/

theorem reads_objectMember : Reads false (objectMember self) fun node => [node] := by
  intro lo
  refine .fork (reads_eat "...") ?_ (Reads.offset (fun start => ?_) lo)
  · exact .keep (reads_assignment h) fun inner => .done rfl (by simp)
  refine .skip (reads_methodHead false) fun method => .keep (reads_memberName h) fun key => ?_
  refine .look (looks_isSign _) fun _ => .branch (looks_isSign _) ?_ ?_
  · refine .keep (reads_functionWithBody h) fun parts => ?_
    cases method with
    | getter => exact .done rfl fun hi hlaid => laid_getterNode (by simpa using hlaid)
    | setter => exact .done rfl fun hi hlaid => laid_setterNode (by simpa using hlaid)
    | _ => exact .done rfl (by simp [laid_functionNode])
  refine .fork (reads_eat ":") ?_ ?_
  · refine .keep (reads_assignment h) fun value => .spanFrom fun stop => .result fun c hc => ?_
    exact (hc.event rfl fun _ => id).imp rfl fun _ => id
  · split
    · exact (goes_withDefault h _).weaken fun _ _ hc => hc.imp rfl fun _ => id
    · exact .fail

theorem reads_arrayItem : Reads false (arrayItem self) fun node => [node] := by
  intro lo
  refine .branch (looks_isSign _) (.done rfl (by simp)) ?_
  exact reads_argument h lo

/-! ## Functions -/

theorem reads_functionExpression : Reads true (functionExpression self) fun node => [node] := by
  intro lo
  refine .skip (reads_expectWord "function") fun _ => .skip (reads_eat "*") fun _ => ?_
  refine .look looks_token fun _ => .ifSo (fun _ => reads_mention.stay) ?_
  exact .keep (reads_functionWithBody h) fun parts => .done rfl (by simp [laid_functionNode])

theorem reads_arrowBody (noIn beforeColon : Bool) :
    Reads false (arrowBody self noIn beforeColon) fun nodes => nodes := by
  intro lo
  refine .branch (looks_isSign _) ?_ ?_
  · exact .last (reads_block h) rfl fun _ _ => id
  · exact .keep (h (.assignment noIn beforeColon)) fun node => .done rfl fun _ => id

omit h in
theorem reads_arrow : Reads true arrow fun _ => [] := by
  intro lo
  exact .look looks_onNewLine fun _ => .ifSo (fun _ => .fail) (reads_expect "=>" lo)

/-- The nodes of a function before its body, in the order in which they stand. -/
def FunctionParts.headNodes (parts : FunctionParts) : List Node :=
  parts.types ++ (parts.params.flatMap Parameter.nodes ++ parts.returned)

theorem reads_parenthesizedHead : Reads true (parenthesizedHead self) FunctionParts.headNodes := by
  intro lo
  refine .keep (reads_typeParameters h) fun types => .keep (reads_parameters h) fun params => ?_
  refine .ifSo (fun _ => .fail) (.keep (reads_annotated h) fun returned => ?_)
  exact .skip reads_arrow fun _ => .done rfl (by simp [FunctionParts.headNodes])

omit h in
theorem reads_bareHead : Reads true bareHead FunctionParts.headNodes := by
  intro lo
  refine .skip reads_identifier fun name => .skip reads_arrow fun _ => ?_
  exact .done rfl (by simp [FunctionParts.headNodes, Parameter.nodes, Parameter.target])

theorem reads_arrowHead : Reads true (arrowHead self) FunctionParts.headNodes := by
  intro lo
  refine .look looks_following fun next => .branch (looks_isWord _) ?_ ?_
  · refine .skip reads_advance fun _ => .look looks_onNewLine fun _ => .ifSo (fun _ => .fail) ?_
    exact .branch looks_isIdentifier (reads_bareHead lo) (reads_parenthesizedHead h lo)
  · exact .branch looks_token (reads_bareHead lo) (reads_parenthesizedHead h lo)

theorem goes_arrowRest {lo : Nat} (noIn beforeColon : Bool) (head : FunctionParts) :
    Goes lo (At lo false head.headNodes) (arrowRest self noIn beforeColon head)
      fun node => At lo false [node] := by
  refine .keep (reads_arrowBody h noIn beforeColon) fun body => .done rfl ?_
  simp [laid_functionNode, FunctionParts.nodes, FunctionParts.headNodes]

theorem reads_arrowFunction? (noIn beforeColon : Bool) :
    Reads false (arrowFunction? self noIn beforeColon)
      fun node? => node?.elim [] fun node => [node] := by
  intro lo
  have hrest (head : FunctionParts) := @goes_arrowRest self h lo noIn beforeColon head
  refine .look (looks_isAnySign _) fun _ => ?_
  refine .branch looks_token ?_ (.done rfl fun _ => id)
  refine .look (looks_isWord _) fun _ => .branch (looks_followedOnLine _) ?_ ?_
  · refine .skip reads_advance fun _ => .keep reads_bareHead fun head => ?_
    exact ((hrest head).after rfl fun _ => id).bind fun node => .done rfl fun _ => id
  refine .remember fun start hstart => .keep (reads_arrowHead h).attempt fun head? => ?_
  cases head? with
  | none => exact .done rfl fun _ => id
  | some head =>
      refine .ite (fun _ => ?_) fun _ => (hrest head).bind fun node => .done rfl fun _ => id
      -- without a colon after it, nothing has been read, and the reading is where it was before
      have hcolon : Goes lo (At lo false head.headNodes) (do
          let node ← arrowRest self noIn beforeColon head
          if ← isSign ":" then return node else fail) fun node => At lo false [node] := by
        refine (hrest head).bind fun node => ?_
        exact .branch (looks_isSign _) (.result fun _ => id) .fail
      refine hcolon.attempt.bind fun node? => ?_
      cases node? with
      | none => exact .ite (fun _ => fun c hc => hstart) fun hsome => absurd rfl hsome
      | some node => exact .ite nofun fun _ => .result fun _ => id

/-! ## Operands -/

theorem reads_keywordOperand : Reads false (keywordOperand self) fun node => [node] := by
  refine .offset fun start => ?_
  have hcall {m : Bool} : Goes start (At start m []) (do
      let args ← arguments self
      return .call .atom args (← spanFrom start)) fun node => At start false [node] := by
    refine .keep (reads_arguments h) fun args => .spanFrom fun stop => .result fun c hc => ?_
    exact (At.event (hc.imp rfl fun _ => id) rfl (by simp [Node.standing])).imp rfl
      fun _ => id
  refine .fork (reads_eatWord "super") ?_ ?_
  · refine .fork (reads_eat ".") ?_ ?_
    · exact .skip reads_memberWord fun _ => .done rfl (by simp)
    refine .fork (reads_eat "[") ?_ ?_
    · refine .keep (reads_expression h) fun key => .skip (reads_expect "]") fun _ => ?_
      exact .done rfl (by simp)
    refine .branch (looks_isSign _) hcall .fail
  · refine .skip (reads_expectWord "import") fun _ => ?_
    refine .fork (reads_eat ".") ?_ hcall
    exact .skip reads_anyName fun _ => .done rfl (by simp)

omit h in
theorem reads_regexLiteral : Reads false regexLiteral fun node => [node] := by
  intro lo
  refine .fromPlace Cursor.here (fun c _ => Nat.le_refl _) fun c => ?_
  split
  · next hnext =>
      exact (goes_moveTo (leadsTo_afterRegex? _ _ _ hnext)).bind fun _ => .done rfl (by simp)
  · exact .pre .fail fun _ => And.left

section

variable {q : Bool} {operand : Reading Node} (hoperand : Reads q operand fun node => [node])
include hoperand

theorem reads_classExpression : Reads false (classExpression self operand) fun node => [node] := by
  intro lo
  refine .keep (reads_decorators h) fun decorators => ?_
  exact goes_classRest h hoperand false decorators

theorem reads_primary : Reads false (primary self operand) fun node => [node] := by
  intro lo
  have hatom {m : Bool} : Goes lo (At lo m []) (do
      advance
      return .atom : Reading Node) fun node => At lo false [node] :=
    .skip reads_advance fun _ => .done rfl (by simp)
  have hclass := reads_classExpression h hoperand lo
  have hfunction : Goes lo (At lo false []) (functionExpression self) fun node => At lo false [node] :=
    .last (reads_functionExpression h) rfl fun _ _ => id
  refine .look looks_get fun c => ?_
  split
  · exact hatom
  · exact hatom
  · exact .skip reads_advance fun _ => .spanFrom fun stop => .done rfl (by simp)
  · exact reads_templateLiteral h false lo
  · refine .skip reads_advance fun _ => .keep (reads_expression h) fun inner => ?_
    exact .skip (reads_expect ")") fun _ => .done rfl (by simp)
  · refine .skip reads_advance fun _ => .keep ((reads_arrayItem h).commaList "]") fun items => ?_
    exact .done rfl (by simp)
  · refine .skip reads_advance fun _ => ?_
    exact .keep ((reads_objectMember h).commaList "\x7d") fun members => .done rfl (by simp)
  · exact reads_regexLiteral lo
  · exact reads_regexLiteral lo
  · exact hclass
  · refine .branch (looks_isWord _) hfunction ?_
    refine .branch (looks_isWord _) hclass ?_
    refine .branch (looks_isAnyWord _) (reads_keywordOperand h lo) ?_
    refine .branch (looks_isAnyWord _) hatom ?_
    refine .look (looks_isWord _) fun _ => ?_
    refine .branch (looks_followedOnLine _) (.skip reads_advance fun _ => hfunction) ?_
    exact .skip reads_mention fun name => .done rfl (by simp)
  · exact .fail

end

/-! ## What belongs to an operand -/

omit h in
/-- A call stands around its callee and its arguments, if it is not a part of an optional access. -/
theorem at_callNode {start stop : Nat} {operand : Operand} {types args : List Node} {c : Cursor}
    (hc : At start true ([operand.node] ++ types ++ args) c) :
    At start true [callNode operand types args ⟨start, stop⟩] c := by
  unfold callNode
  split
  · exact hc.imp rfl (by simp)
  · exact hc.event rfl (by simp [Node.standing])

section

variable {start : Nat} {m : Bool} (operand : Operand)

omit h in
theorem goes_memberAccess :
    Goes start (At start m [operand.node]) (memberAccess operand)
      fun operand => At start m [operand.node] := by
  refine .look looks_token fun token => ?_
  split
  · exact .skip reads_advance fun _ => .done (by simp) (by simp)
  · refine .skip reads_anyName fun name => .done (by simp) ?_
    dsimp only
    split <;> simp

theorem goes_elementAccess :
    Goes start (At start m [operand.node]) (elementAccess self operand)
      fun operand => At start m [operand.node] := by
  refine .skip (reads_expect "[") fun _ => .keep (reads_expression h) fun key => ?_
  exact .skip (reads_expect "]") fun _ => .done (by simp) (by simp)

theorem goes_optionalAccess :
    Goes start (At start m [operand.node]) (optionalAccess self operand)
      fun operand => At start m [operand.node] := by
  refine .branch (looks_isSign _) ?_ ?_
  · exact goes_elementAccess h { operand with isOptional := true, isTarget := true }
  refine .branch (looks_isSign _) ?_ (.branch (looks_isSign _) ?_ ?_)
  · exact .keep (reads_arguments h) fun args => .done (by simp) (by simp)
  · refine .keep (reads_typeArguments h) fun types => .keep (reads_arguments h) fun args => ?_
    exact .done (by simp) (by simp)
  · exact goes_memberAccess { operand with isOptional := true, isTarget := true }

theorem goes_instantiation (noCall : Bool) :
    Goes start (At start m [operand.node]) (instantiation self start noCall operand)
      fun operand => At start m [operand.node] := by
  refine .keep (reads_typeArguments h) fun types => ?_
  refine .branch (looks_isSign _) ?_ (.branch (looks_isSign _) ?_ ?_)
  · refine .ifSo (fun _ => .fail) (.keep (reads_arguments h) fun args => ?_)
    refine .spanFrom fun stop => .result fun c hc => ?_
    exact (at_callNode (hc.imp rfl fun _ => id)).imp (by simp) fun _ => id
  · exact .keep (reads_templateLiteral h true) fun literal => .done (by simp) (by simp)
  · exact .branch looks_get (.done (by simp) (by simp)) .fail

/-- One piece after an operand leaves the operand where it is. -/
theorem goes_suffix? (noCall : Bool) :
    Goes start (At start m [operand.node]) (suffix? self start noCall operand)
      fun operand? => At start m [(operand?.getD operand).node] := by
  have hsome {r : Reading Operand} (hr : Goes start (At start m [operand.node]) r
      fun operand => At start m [operand.node]) :
      Goes start (At start m [operand.node]) (do return some (← r))
        fun operand? => At start m [(operand?.getD operand).node] :=
    hr.bind fun operand => .result fun _ => id
  have hnone : Goes start (At start m [operand.node]) (pure none)
      fun operand? => At start m [(operand?.getD operand).node] := .result fun _ => id
  refine .look looks_token fun token => ?_
  split
  · exact reads_advance.stay.bind fun _ => hsome (goes_memberAccess operand)
  · refine .ifSo (fun _ => .fail) (reads_advance.stay.bind fun _ => ?_)
    exact hsome (goes_optionalAccess h operand)
  · exact hsome (goes_elementAccess h operand)
  · refine .ite (fun _ => hnone) fun _ => .keep (reads_arguments h) fun args => ?_
    refine .spanFrom fun stop => .result fun c hc => ?_
    exact (at_callNode (hc.imp rfl (by simp))).imp (by simp) fun _ => id
  · exact .keep (reads_templateLiteral h true) fun literal => .done (by simp) (by simp)
  · refine .branch looks_onNewLine hnone ?_
    exact .skip reads_advance fun _ => .done (by simp) (by simp)
  · exact (goes_instantiation h operand noCall).attempt.weaken fun operand? c hc => by
      cases operand? <;> exact hc
  · exact (goes_instantiation h operand noCall).attempt.weaken fun operand? c hc => by
      cases operand? <;> exact hc
  · exact hnone

theorem goes_suffixes (noCall : Bool) (fuel : Nat) :
    Goes start (At start m [operand.node]) (suffixes self start noCall fuel operand)
      fun operand => At start m [operand.node] := by
  induction fuel generalizing operand with
  | zero => exact .result fun _ => id
  | succ fuel ih =>
      refine (goes_suffix? h operand noCall).bind fun operand? => ?_
      cases operand? with
      | none => exact .result fun _ => id
      | some operand => exact ih operand

end

section

variable {q : Bool} {operand : Reading Node} (hoperand : Reads q operand fun node => [node])
include hoperand

omit hoperand in
theorem reads_newTypes : Reads true (newTypes self) fun nodes => nodes := by
  intro lo
  refine .keep (reads_typeArguments h) fun types => .look (looks_isSign _) fun _ => ?_
  exact .ifNot (fun _ => .fail) (.done rfl fun _ => id)

theorem reads_newExpression (fuel : Nat) :
    Reads false (newExpression self operand fuel) fun node => [node] := by
  induction fuel with
  | zero => exact fun lo => .fail
  | succ fuel ih =>
      intro lo
      refine .skip (reads_expectWord "new") fun _ => ?_
      refine .fork (reads_eat ".") (.skip reads_anyName fun _ => .done rfl (by simp)) ?_
      refine .after (Reads.offset (fun start => ?_) lo) rfl fun _ => id
      refine .look (looks_isWord _) fun _ => .either (fun first => At start false [first])
        (fun _ => .last ih rfl fun _ _ => id)
        (fun _ => .last (reads_primary h hoperand) rfl fun _ _ => id) fun first => ?_
      refine .look looks_get fun c => ?_
      refine (goes_suffixes h { node := first } true c.fuel).bind fun callee => ?_
      refine .keep (reads_newTypes h).attempt fun types => .look (looks_isSign _) fun _ => ?_
      refine .either (fun args => At start false (callee.node :: (types.getD [] ++ args)))
        (fun _ => .last (reads_arguments h) rfl ?_) (fun _ => .done rfl ?_) fun args => ?_
      · cases types <;> simp
      · cases types <;> simp
      · exact .done rfl (by simp)

end

theorem reads_operandRule (fuel : Nat) :
    Reads false (operandRule self fuel) fun operand => [operand.node] := by
  induction fuel with
  | zero => exact fun _ _ _ => trivial
  | succ fuel ih =>
      have hsuper : Reads false (Operand.node <$> operandRule self fuel) fun node => [node] := .map ih
      refine .offset fun start => .branch (looks_isWord _) ?_ ?_
      · refine .look looks_get fun c => .keep (reads_newExpression h hsuper c.fuel) fun made => ?_
        exact .look looks_get fun c => goes_suffixes h { node := made } false c.fuel
      · refine .look (looks_isWord _) fun _ => .keep (reads_primary h hsuper) fun first => ?_
        exact .look looks_get fun c => .pre (goes_suffixes h _ false c.fuel) fun _ => id

theorem reads_operand : Reads false (operand self) fun operand => [operand.node] :=
  fun lo => .look looks_get fun c => reads_operandRule h c.fuel lo

/-! ## Operators -/

theorem reads_unaryOperand : Reads false (unaryOperand self) fun operand => [operand.node] := by
  intro lo
  refine .look (looks_isAnySign _) fun _ => ?_
  refine .branch (looks_isAnyWord _) ?_ ?_
  · refine .skip reads_advance fun _ => .keep (h .unary).recover fun inner => ?_
    cases inner <;> exact .done rfl (by simp)
  refine .fork (reads_eatWord "await") (.keep (h .unary).optional fun inner => ?_) ?_
  · cases inner <;> exact .done rfl (by simp)
  refine .branch (looks_isAnySign _) ?_ ?_
  · exact .skip reads_advance fun _ => .keep (h .unary) fun inner => .done rfl (by simp)
  refine .branch (looks_isSign _) ?_ ?_
  · refine .skip (reads_expectChar '<') fun _ => .fork (reads_eatWord "const") ?_ ?_
    · refine .skip (reads_expectChar '>') fun _ => .keep (h .unary) fun inner => ?_
      exact .done rfl (by simp)
    · refine .keep (reads_type h) fun type => .skip (reads_expectChar '>') fun _ => ?_
      exact .keep (h .unary) fun inner => .done rfl (by simp)
  · refine .keep (reads_operand h) fun inner => .look (looks_isAnySign _) fun _ => ?_
    refine .branch looks_onNewLine ?_ (.done rfl fun _ => id)
    exact .skip reads_advance fun _ => .done rfl (by simp)

theorem reads_unaryRule : Reads false (unaryRule self) fun node => [node] :=
  .map (reads_unaryOperand h)

omit h in
theorem looks_atBinaryOperator (noIn : Bool) : Looks (atBinaryOperator noIn) := by
  refine (looks_isAnySign _).bind fun _ => .ite (looks_pure _) ?_
  refine (looks_isWord _).bind fun _ => .ite (looks_pure _) ?_
  exact (looks_isWord _).bind_pure fun b => !noIn && b

/-- A type after an operand makes no `<T>e`. -/
theorem goes_typedWrapper {lo : Nat} {m : Bool} (inner : Node) :
    Goes lo (At lo m [inner]) (typedWrapper self) fun made? => At lo m
      [made?.elim inner fun (form, types) => .typedWrapped form types inner] := by
  refine .branch looks_onNewLine (.result fun _ => id) ?_
  refine .branch (looks_isWord _) ?_ ?_
  · refine .skip reads_advance fun _ => ?_
    refine .fork (reads_eatWord "const") (.done (by simp) (by simp)) ?_
    exact .keep (reads_type h) fun type => .done (by simp) (by simp [Node.laid_typedWrapped])
  refine .branch (looks_isWord _) ?_ (.result fun _ => id)
  refine .skip reads_advance fun _ => .keep (reads_type h) fun type => ?_
  exact .done (by simp) (by simp [Node.laid_typedWrapped])

theorem goes_typed {lo : Nat} {m : Bool} (fuel : Nat) (operand : Operand) :
    Goes lo (At lo m [operand.node]) (typed self fuel operand)
      fun operand => At lo m [operand.node] := by
  induction fuel generalizing operand with
  | zero => exact .result fun _ => id
  | succ fuel ih =>
      refine (goes_typedWrapper h operand.node).bind fun made? => ?_
      cases made? with
      | none => exact .result fun _ => id
      | some made => exact ih { operand with node := .typedWrapped made.1 made.2 operand.node }

theorem reads_typedUnary : Reads false (typedUnary self) fun operand => [operand.node] :=
  fun _ => .keep (reads_unaryOperand h) fun operand =>
    .look looks_get fun c => goes_typed h c.fuel operand

theorem reads_firstOperand : Reads false (firstOperand self) fun operand => [operand.node] := by
  intro lo
  refine .keep (reads_unaryOperand h).recover fun operand? => ?_
  cases operand? with
  | some operand => exact .look looks_get fun c => goes_typed h c.fuel operand
  | none =>
      refine .look (looks_atBinaryOperator false) fun _ => ?_
      exact .branch (looks_isSign _) (.done rfl (by simp)) .fail

omit h in
theorem looks_beforeArrow (node : Node) : Looks (beforeArrow node) :=
  (looks_isSign _).bind fun _ => looks_onNewLine.bind fun _ => looks_pure _

theorem reads_binary (noIn : Bool) : Reads false (binary self noIn) fun operand => [operand.node] := by
  have hmore : Reads false (do
      if ← atBinaryOperator noIn then
        advance
        let operand ← typedUnary self
        if ← beforeArrow operand.node then fail
        return some operand.node
      else return none) (fun node? => node?.elim [] fun node => [node]) := by
    intro lo
    refine .branch (looks_atBinaryOperator noIn) ?_ (.done rfl fun _ => id)
    refine .skip reads_advance fun _ => .keep (reads_typedUnary h) fun operand => ?_
    exact .look (looks_beforeArrow _) fun _ => .ifSo (fun _ => .fail) (.done rfl fun _ => id)
  intro lo
  refine .keep (reads_firstOperand h) fun first => .keep hmore.many fun more => ?_
  refine .ite (fun hnone => ?_) fun _ => ?_
  · exact .done rfl (by simp [List.isEmpty_iff.mp hnone])
  · exact .done rfl (by simp)

theorem reads_conditional (noIn beforeColon : Bool) :
    Reads false (conditional self noIn beforeColon) fun operand => [operand.node] := by
  intro lo
  refine .keep (reads_binary h noIn) fun test => ?_
  refine .fork (reads_eat "?") ?_ (.done rfl fun _ => id)
  refine .keep (h (.assignment false true)) fun yes => .skip (reads_expect ":") fun _ => ?_
  exact .keep (h (.assignment noIn beforeColon)) fun no => .done rfl (by simp)

theorem reads_yieldExpression (noIn beforeColon : Bool) :
    Reads false (yieldExpression noIn beforeColon self) fun node => [node] := by
  intro lo
  refine .skip (reads_expectWord "yield") fun _ => ?_
  refine .branch looks_onNewLine (.done rfl (by simp)) (.fork (reads_eat "*") ?_ ?_)
  · exact .keep (h (.assignment noIn beforeColon)) fun value => .done rfl (by simp)
  · refine .keep (h (.assignment noIn beforeColon)).attempt fun value? => ?_
    cases value? <;> exact .done rfl (by simp)

/-- An assignment stands around its target and its value. -/
theorem reads_assignmentRule (noIn beforeColon : Bool) :
    Reads false (assignmentRule self noIn beforeColon) fun node => [node] := by
  intro lo
  refine .branch (looks_isWord _) (reads_yieldExpression h _ _ lo) ?_
  refine .keep (reads_arrowFunction? h noIn beforeColon) fun node? => ?_
  cases node? with
  | some node => exact .done rfl fun _ => id
  | none =>
      refine Reads.offset (fun start => ?_) lo
      refine .keep (reads_conditional h noIn beforeColon) fun left => ?_
      refine .test (tests_isAnySign _) fun b => ?_
      refine .ite (fun hassigns => ?_) fun _ => .pre ?_ fun _ => And.left
      · -- the sign is a real token, so that the assignment ends after it begins
        have hb : b = true := (Bool.and_eq_true_iff.mp hassigns).2
        refine .look (looks_isSign _) fun isPlain => .ifSo (fun _ => .pre .fail fun _ => And.left) ?_
        refine (goes_advance.pre fun c hc => ⟨hc.1, hc.2 hb⟩).bind fun _ => ?_
        refine .keep (h (.assignment noIn beforeColon)) fun value => .spanFrom fun stop => ?_
        refine .result fun c hc => (hc.event rfl fun hi hlaid => ?_).imp rfl fun _ => id
        obtain ⟨mid, hleft, hvalue⟩ := Node.laid_append_iff.mp hlaid
        have htarget : Laid start mid [if isPlain then asPattern left.node else left.node] := by
          split
          · exact laid_asPattern left.node hleft
          · exact hleft
        exact htarget.append hvalue
      · refine .branch (looks_beforeArrow _) ?_ (.done rfl fun _ => id)
        refine .skip reads_advance fun _ => .keep (reads_arrowBody h noIn beforeColon) fun body => ?_
        exact .done rfl (by simp)

theorem reads_expressionRule (noIn : Bool) :
    Reads false (expressionRule self noIn) fun node => [node] := by
  have hmore : Reads false (do
      if ← eat "," then return some (← self (.assignment noIn false)) else return none)
      (fun node? => node?.elim [] fun node => [node]) := by
    intro lo
    refine .fork (reads_eat ",") ?_ (.done rfl fun _ => id)
    exact .keep (h (.assignment noIn false)) fun node => .done rfl fun _ => id
  intro lo
  refine .keep (reads_assignmentRule h noIn false) fun first => .keep hmore.many fun more => ?_
  refine .done rfl ?_
  split
  · next hnone => simp [List.isEmpty_iff.mp hnone]
  · simp

end

end KeyLint.Script.Grammar
