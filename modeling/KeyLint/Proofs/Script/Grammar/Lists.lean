import Mathlib.Data.List.Flatten
import KeyLint.Proofs.Script.Reading
import KeyLint.Script.Grammar.Bindings
import KeyLint.Script.Grammar.Classes

/-!
# The layout of lists, bindings and classes

The smaller forms of the grammar lay out what they read if the rules for what is inside them do.
-/

namespace KeyLint.Script

open Reading
open Node (Laid)

/-- A reading for which something has to be there. -/
def Goal.moves : Goal → Bool
  | .binding => true
  | _ => false

/-- All rules lay out the node that they read. -/
def Rules.LayOut (self : Rules) : Prop :=
  ∀ goal : Goal, Reads goal.moves (self goal) fun node => [node]

namespace Grammar

variable {self : Rules}

section

variable (h : self.LayOut)
include h

theorem reads_type : Reads false self.type fun node => [node] := h .type

theorem reads_assignment : Reads false self.assignment fun node => [node] :=
  h (.assignment false false)

theorem reads_expression : Reads false self.expression fun node => [node] := h (.expression false)

end

/-! ## Lists -/

theorem looks_atCloseAngle : Looks atCloseAngle :=
  looks_get.bind_pure fun c => decide (c.here.rest.head? = some '>')

theorem reads_angleList {q : Bool} {item : Reading Node} (hitem : Reads q item fun node => [node]) :
    Reads true (angleList item) fun nodes => nodes := by
  have hstep : Reads false (do
      if ← atCloseAngle then return none
      let node ← item
      unless ← atCloseAngle do expect ","
      return some node) (fun node? => node?.elim [] fun node => [node]) := by
    intro lo
    refine .branch looks_atCloseAngle (.done rfl fun _ => id) ?_
    refine .keep hitem fun node => .look looks_atCloseAngle fun _ => ?_
    exact .ifNot (fun _ => (reads_expect ",").stay) (.done rfl fun _ => id)
  intro lo
  refine .skip (reads_expectChar '<') fun _ => .keep hstep.many fun nodes => ?_
  exact .skip (reads_expectChar '>') fun _ => .done rfl (by simp)

/-- Passes over a token if it is one to be passed over. -/
theorem reads_passOver (isOne : Bool) :
    Reads false (if isOne = true then do
      advance
      pure (some ())
    else pure none) (fun a? => a?.elim [] fun _ => []) :=
  fun _ => .ite (fun _ => .skip reads_advance fun _ => .done rfl fun _ => id)
    fun _ => .done rfl fun _ => id

section

variable (h : self.LayOut)
include h

theorem reads_typeArguments : Reads true (typeArguments self) fun nodes => nodes :=
  reads_angleList (reads_type h)

theorem reads_typeParameter : Reads true (typeParameter self) fun node => [node] := by
  have hmodifier : Reads false (do
      if (← isAnyWord ["const", "in", "out"]) && (← followedOnLine isParameterModifier) then
        advance
        return some ()
      else return none) (fun a? => a?.elim [] fun _ => []) := by
    intro lo
    exact .look (looks_isAnyWord _) fun _ => .look (looks_followedOnLine _) fun _ =>
      reads_passOver _ lo
  have htype : Reads false (some <$> self.type) Option.toList := .map (reads_type h)
  intro lo
  refine .skip hmodifier.many fun _ => .skip reads_anyName fun _ => ?_
  refine .skip (reads_eatWord "extends") fun _ => .either (fun bound => At lo true bound.toList)
    (fun _ => htype.frame _ _ _) (fun _ => .done rfl fun _ => id) fun bound => ?_
  refine .skip (reads_eat "=") fun _ => .either
    (fun default => At lo true (bound.toList ++ default.toList))
    (fun _ => htype.frame _ _ _) (fun _ => .done rfl (by simp)) fun default => ?_
  exact .done rfl (by simp)

theorem reads_typeParameters : Reads false (typeParameters self) fun nodes => nodes := by
  intro lo
  refine .branch (looks_isSign "<") ?_ (.done rfl fun _ => id)
  exact .last (reads_angleList (reads_typeParameter h)) rfl fun _ _ => id

theorem reads_annotated : Reads false ( annotation self) fun nodes => nodes := by
  intro lo
  refine .fork (reads_eat ":") ?_ (.done rfl fun _ => id)
  exact .keep (reads_type h) fun _ => .done rfl fun _ => id

theorem reads_argument : Reads false (argument self) fun node => [node] := by
  intro lo
  refine .fork (reads_eat "...") ?_ (reads_assignment h lo)
  exact .keep (reads_assignment h) fun _ => .done rfl (by simp)

theorem reads_arguments : Reads true (arguments self) fun nodes => nodes := by
  intro lo
  refine .skip (reads_expect "(") fun _ => ?_
  exact .last ((reads_argument h).commaList ")") rfl (by simp)

end

theorem reads_memberWord : Reads false memberWord fun _ => [] := by
  intro lo
  refine .look looks_token fun token => ?_
  split
  · exact reads_advance lo
  · exact .skip reads_anyName fun _ => .done rfl fun _ => id

theorem goes_memberPath {lo : Nat} {m : Bool} (fuel : Nat) (node : Node) :
    Goes lo (At lo m [node]) (memberPath fuel node) fun node => At lo m [node] := by
  induction fuel generalizing node with
  | zero => exact .result fun _ => id
  | succ fuel ih =>
      unfold memberPath
      refine .fork (reads_eat ".") ?_ (.result fun _ => id)
      refine .look looks_token fun token => ?_
      split
      · exact .skip reads_advance fun _ => (ih (.group [node])).after (by simp) (by simp)
      · exact .skip reads_anyName fun name => (ih (.member node name)).after (by simp) (by simp)

section

variable (h : self.LayOut)
include h

theorem reads_decoratorName : Reads true (decoratorName self) fun node => [node] := by
  intro lo
  refine .skip (reads_eat "(") fun _ => .ite (fun _ => ?_) fun _ => ?_
  · refine .keep (reads_expression h) fun inner => .skip (reads_expect ")") fun _ => ?_
    exact .done rfl (by simp)
  · refine .look looks_get fun c => .skip reads_identifier fun name => ?_
    exact (goes_memberPath c.fuel (.ident name)).after rfl (by simp)

theorem reads_typedArguments :
    Reads true (typedArguments self) fun (types, args) => types ++ args := by
  intro lo
  refine .look (looks_isSign "<") fun _ => .either (fun types => At lo false types)
    (fun _ => .last (reads_typeArguments h) rfl fun _ _ => id) (fun _ => .done rfl fun _ => id) ?_
  exact fun types => .keep (reads_arguments h) fun args => .done rfl fun _ => id

/-- A decorator begins after its sign. -/
theorem goes_decoratorTarget {start : Nat} :
    Goes start (At start false []) (decoratorTarget self start) fun node => At start true [node] := by
  refine .keep (reads_decoratorName h) fun target => ?_
  refine .keep (reads_typedArguments h).attempt fun called => ?_
  cases called with
  | none => exact .done rfl fun _ => id
  | some called => exact .spanFrom fun stop => .result fun c hc => hc.event rfl fun _ => id

theorem reads_decorators : Reads false (decorators self) fun nodes => nodes := by
  have hstep : Reads false (do
      if ← eat "@" then
        let start ← offset
        return some (← decoratorTarget self start)
      else return none) (fun node? => node?.elim [] fun node => [node]) := by
    intro lo
    refine .fork (reads_eat "@") ?_ (.done rfl fun _ => id)
    refine Reads.offset (fun start => ?_) lo
    exact (goes_decoratorTarget h).bind fun node => .done rfl fun _ => id
  exact fun lo => .last hstep.many rfl (by simp)

theorem reads_memberName : Reads true (memberName self) fun node => [node] := by
  refine .offset fun start => .token fun token => ?_
  have hreal {before : List Node} (htoken : token.isReal = true) :
      Goes start (fun c => At start false before c ∧ c.token = token) advance
        fun _ => At start true before :=
    goes_advance.pre fun c hc => ⟨hc.1, hc.2 ▸ htoken⟩
  split
  · exact (hreal rfl).bind fun _ => .done rfl (by simp)
  · exact (hreal rfl).bind fun _ => .spanFrom fun stop => .done rfl (by simp)
  · exact (hreal rfl).bind fun _ => .done rfl (by simp)
  · refine (hreal rfl).bind fun _ => .keep (reads_expression h) fun key => ?_
    exact .skip (reads_expect "]") fun _ => .done rfl (by simp)
  · exact .pre .fail fun _ => And.left

theorem goes_withDefault {lo : Nat} {m : Bool} {before : List Node} (node : Node) :
    Goes lo (At lo m (before ++ [node])) (withDefault self node)
      fun node => At lo m (before ++ [node]) := by
  refine .fork (reads_eat "=") ?_ (.result fun _ => id)
  exact .keep (reads_assignment h) fun value => .done (by simp) (by simp)

end

/-! ## Parameters -/

/-- The nodes of a parameter, in the order in which they stand. -/
def Parameter.nodes (param : Parameter) : List Node :=
  param.decorators ++ param.target

theorem Parameter.target_sublist (param : Parameter) : param.target.Sublist param.nodes :=
  List.sublist_append_right ..

theorem Parameter.pattern_sublist (param : Parameter) : param.pattern.Sublist param.nodes :=
  (List.sublist_append_left ..).trans param.target_sublist

theorem laid_parameterNodes {lo hi : Nat} {params : List Parameter} {before rest : List Node} :
    Laid lo hi (before ++ (params.map Parameter.node ++ rest))
      ↔ Laid lo hi (before ++ (params.flatMap Parameter.nodes ++ rest)) := by
  induction params generalizing before with
  | nil => rfl
  | cons param params ih =>
      have hcons := @ih (before ++ param.nodes)
      simpa [Parameter.node, Parameter.nodes] using hcons

section

variable (h : self.LayOut)
include h

theorem reads_parameter : Reads false (parameter self) Parameter.nodes := by
  have hmodifier : Reads false (do
      let isModifier ← isAnyWord ["public", "private", "protected", "readonly", "override"]
      if isModifier && (← followedOnLine opensParameter) then
        advance
        return some ()
      else return none) (fun a? => a?.elim [] fun _ => []) := by
    intro lo
    exact .look (looks_isAnyWord _) fun _ => .look (looks_followedOnLine _) fun _ =>
      reads_passOver _ lo
  intro lo
  refine .keep (reads_decorators h) fun decorators => .skip hmodifier.many fun _ => ?_
  refine .skip (reads_eat "...") fun _ => .skip (reads_eatWord "this") fun _ => ?_
  refine .either (fun binding => At lo false (decorators ++ [binding]))
    (fun _ => .done rfl (by simp)) (fun _ => .last (h .binding) rfl fun _ _ => id) fun binding => ?_
  refine .skip (reads_eat "?") fun _ => .keep (reads_annotated h) fun types => ?_
  have hvalue : Reads false (some <$> self.assignment) Option.toList := .map (reads_assignment h)
  refine .skip (reads_eat "=") fun _ => .either
    (fun value => At lo false (decorators ++ [binding] ++ types ++ value.toList))
    (fun _ => hvalue.frame _ _ _) (fun _ => .done rfl (by simp)) fun value => ?_
  exact .done rfl (by simp [Parameter.nodes, Parameter.target])

theorem reads_parameters : Reads true (parameters self) (List.flatMap Parameter.nodes) := by
  intro lo
  refine .skip (reads_expect "(") fun _ => ?_
  exact .last ((reads_parameter h).commaList ")") rfl fun _ _ => id

theorem reads_signatureParameters : Reads true (signatureParameters self) fun nodes => nodes := by
  intro lo
  refine .keep (reads_parameters h) fun params => .ifSo (fun _ => .fail) (.done rfl fun hi hlaid => ?_)
  exact hlaid.sublist (.flatMap_right params fun param _ => param.pattern_sublist)

end

theorem reads_braced {q : Bool} {item : Reading Node} (hitem : Reads q item fun node => [node]) :
    Reads true (braced item) fun nodes => nodes := by
  have hstep : Reads false (do
      if (← isSign "\x7d") || (← token) = .endOfText then return none
      return some (← item)) (fun node? => node?.elim [] fun node => [node]) := by
    intro lo
    refine .look (looks_isSign _) fun _ => ?_
    refine .branch looks_token (.done rfl fun _ => id) ?_
    exact .keep hitem fun node => .done rfl fun _ => id
  intro lo
  refine .skip (reads_expect "\x7b") fun _ => .keep hstep.many fun nodes => ?_
  refine .look looks_token fun _ => ?_
  exact .ifNot (fun _ => (reads_expect "\x7d").stay) (.done rfl (by simp))

section

variable (h : self.LayOut)
include h

theorem reads_block : Reads true (block self) fun nodes => nodes :=
  reads_braced (h .statement)

theorem reads_typeList : Reads false (typeList self) fun nodes => nodes := by
  have hstep : Reads false (do
      if ← isSign "\x7b" then return none
      let type ← self.type
      unless ← isSign "\x7b" do expect ","
      return some type) (fun node? => node?.elim [] fun node => [node]) := by
    intro lo
    refine .branch (looks_isSign _) (.done rfl fun _ => id) ?_
    refine .keep (reads_type h) fun type => .look (looks_isSign _) fun _ => ?_
    exact .ifNot (fun _ => (reads_expect ",").stay) (.done rfl fun _ => id)
  exact fun lo => .last hstep.many rfl (by simp)

end

/-- The nodes of a function from its type parameters on, in the order in which they stand. -/
def FunctionParts.nodes (parts : FunctionParts) : List Node :=
  parts.types ++ (parts.params.flatMap Parameter.nodes ++ (parts.returned ++ parts.body.getD []))

theorem laid_functionNode {lo hi : Nat} {decorators name : List Node} {parts : FunctionParts} :
    Laid lo hi [parts.node decorators name] ↔ Laid lo hi (decorators ++ (name ++ parts.nodes)) := by
  have hparams := @laid_parameterNodes lo hi parts.params (decorators ++ (name ++ parts.types))
    (parts.returned ++ parts.body.getD [])
  simpa [FunctionParts.node, FunctionParts.nodes] using hparams

/-- A constructor is laid out like a method with the parts that count. -/
theorem laid_constructorNode {lo hi : Nat} {decorators : List Node} {name : Node}
    {parts : FunctionParts} (hlaid : Laid lo hi (decorators ++ name :: parts.nodes)) :
    Laid lo hi [parts.constructorNode name] := by
  refine laid_functionNode.mpr (hlaid.sublist ?_)
  have hbody : (parts.body.getD []).Sublist (parts.returned ++ parts.body.getD []) :=
    List.sublist_append_right ..
  have hparts : (parts.params.flatMap Parameter.nodes ++ parts.body.getD []).Sublist parts.nodes :=
    (hbody.append_left _).trans (List.sublist_append_right ..)
  exact (hparts.cons_cons name).trans (List.sublist_append_right ..)

theorem laid_getterNode {lo hi : Nat} {name : Node} {parts : FunctionParts}
    (hlaid : Laid lo hi (name :: parts.nodes)) : Laid lo hi [parts.getterNode name] := by
  have hparts : (parts.returned ++ parts.body.getD []).Sublist parts.nodes :=
    (List.sublist_append_right ..).trans (List.sublist_append_right ..)
  simpa [FunctionParts.getterNode] using hlaid.sublist (hparts.cons_cons name)

theorem laid_setterNode {lo hi : Nat} {name : Node} {parts : FunctionParts}
    (hlaid : Laid lo hi (name :: parts.nodes)) : Laid lo hi [parts.setterNode name] := by
  have hparams : ((parts.params.take 2).flatMap Parameter.target).Sublist
      (parts.params.flatMap Parameter.nodes) :=
    ((List.take_sublist 2 parts.params).flatMap _).trans
      (.flatMap_right parts.params fun param _ => param.target_sublist)
  have hparts : ((parts.params.take 2).flatMap Parameter.target ++ parts.body.getD []).Sublist
      parts.nodes :=
    (hparams.append (List.sublist_append_right ..)).trans (List.sublist_append_right ..)
  simpa [FunctionParts.setterNode] using hlaid.sublist (hparts.cons_cons name)

section

variable (h : self.LayOut)
include h

theorem reads_functionRest : Reads true (functionRest self) FunctionParts.nodes := by
  have hbody : Reads true (some <$> block self) (Option.getD · []) := .map (reads_block h)
  intro lo
  refine .keep (reads_typeParameters h) fun types => .keep (reads_parameters h) fun params => ?_
  refine .keep (reads_annotated h) fun returned => .look (looks_isSign _) fun _ => ?_
  refine .either
    (fun body => At lo true (types ++ params.flatMap Parameter.nodes ++ returned ++ body.getD []))
    (fun _ => .last hbody rfl fun _ _ => id) (fun _ => .done rfl (by simp)) fun body => ?_
  exact .done rfl (by simp [FunctionParts.nodes])

theorem reads_functionOrSignature : Reads true (functionOrSignature self) FunctionParts.nodes := by
  intro lo
  refine .keep (reads_functionRest h) fun parts => ?_
  exact .ifSo (fun _ => reads_semicolon.stay) (.done rfl fun _ => id)

theorem reads_functionWithBody : Reads true (functionWithBody self) FunctionParts.nodes := by
  intro lo
  refine .keep (reads_functionRest h) fun parts => ?_
  exact .ifSo (fun _ => .fail) (.done rfl fun _ => id)

end

/-! ## Bindings -/

section

variable (h : self.LayOut)
include h

theorem reads_arrayPatternMember : Reads false (arrayPatternMember self) fun node => [node] := by
  intro lo
  refine .branch (looks_isSign ",") (.done rfl (by simp)) ?_
  refine .skip (reads_eat "...") fun _ => .keep (h .binding) fun binding => ?_
  exact ((goes_withDefault h binding).after rfl fun _ => id)

theorem reads_objectPatternMember : Reads false (objectPatternMember self) fun node => [node] := by
  intro lo
  refine .fork (reads_eat "...") (.last (h .binding) rfl fun _ _ => id) ?_
  refine .keep (reads_memberName h) fun key => .fork (reads_eat ":") ?_ ?_
  · refine .keep (h .binding) fun binding => (goes_withDefault h binding).bind fun inner => ?_
    exact .done rfl (by simp)
  · split
    · exact ((goes_withDefault h _).weaken fun _ _ hc => hc.imp rfl fun _ => id)
    · exact .fail

theorem reads_bindingRule : Reads true (bindingRule self) fun node => [node] := by
  intro lo
  refine .eat ?_ (.eat ?_ ?_)
  · exact .keep ((reads_arrayPatternMember h).commaList "]") fun items => .done rfl (by simp)
  · exact .keep ((reads_objectPatternMember h).commaList "\x7d") fun members => .done rfl (by simp)
  · exact .skip reads_identifier fun name => .done rfl (by simp)

end

mutual

/-- A pattern has in it what the expression has, in the same order, but some of it is no event. -/
theorem laid_asPattern {lo hi : Nat} :
    (node : Node) → Laid lo hi [node] → Laid lo hi [asPattern node]
  | .array items, hlaid => by
      simp only [asPattern, Node.laid_array, List.append_nil] at hlaid ⊢
      exact laid_asPatterns items hlaid
  | .object members, hlaid => by
      simp only [asPattern, Node.laid_object, List.append_nil] at hlaid ⊢
      exact laid_asPatterns members hlaid
  | .spread inner, hlaid => by
      simp only [asPattern, Node.laid_spread] at hlaid ⊢
      exact laid_asPattern inner hlaid
  | .property key value span, hlaid => by
      have hparts : Laid lo hi ([key] ++ [value]) := hlaid.standing
      obtain ⟨mid, hkey, hvalue⟩ := Node.laid_append_iff.mp hparts
      simpa [asPattern] using hkey.append (laid_asPattern value hvalue)
  | .assign target value span, hlaid => by
      have hparts : Laid lo hi ([target] ++ [value]) := hlaid.standing
      obtain ⟨mid, htarget, hvalue⟩ := Node.laid_append_iff.mp hparts
      simpa [asPattern] using (laid_asPattern target htarget).append hvalue
  | .atom, hlaid | .ident _, hlaid | .str _ _, hlaid | .template _ _ _, hlaid | .cond _ _ _, hlaid
  | .member _ _, hlaid | .typedCall _ _ _ _, hlaid | .typedWrapped _ _ _, hlaid
  | .instantiated _ _, hlaid | .typedDeclarator _ _ _ _, hlaid | .typedField _ _ _ _ _ _, hlaid
  | .otherField _ _ _ _, hlaid | .function _ _ _ _ _ _, hlaid | .classDef _ _ _ _ _, hlaid
  | .doLoop _ _, hlaid | .swapped _ _, hlaid | .group _, hlaid => hlaid

theorem laid_asPatterns {lo hi : Nat} :
    (nodes : List Node) → Laid lo hi nodes → Laid lo hi (asPatterns nodes)
  | [], hlaid => hlaid
  | node :: nodes, hlaid => by
      obtain ⟨mid, hnode, hnodes⟩ :=
        Node.laid_append_iff.mp (show Laid lo hi ([node] ++ nodes) from hlaid)
      exact (laid_asPattern node hnode).append (laid_asPatterns nodes hnodes)

end

end Grammar

end KeyLint.Script
