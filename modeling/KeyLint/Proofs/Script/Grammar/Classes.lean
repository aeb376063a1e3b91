import KeyLint.Proofs.Script.Grammar.Lists
import KeyLint.Script.Grammar.Classes

/-!
# The layout of classes

A field of a class begins with its decorators, and a class with its own; what a class extends and
its types stand before its members.
-/

namespace KeyLint.Script.Grammar

open Reading
open Node (Laid)

variable {self : Rules}

/-! ## Modifiers -/

theorem reads_modifier (head : MemberHead) : Reads false (modifier head) fun _ => [] := by
  intro lo
  have hpure (head? : Option MemberHead) :
      Goes lo (At lo false []) (pure head? : Reading _) fun _ => At lo false [] :=
    .result fun _ => id
  refine .look looks_following fun c => .ite (fun _ => hpure _) fun _ => ?_
  refine .look looks_token fun token => ?_
  split
  · exact .ite (fun _ => hpure _) fun _ => .ite (fun _ => hpure _) fun _ => .ite (fun _ => hpure _)
      fun _ => .ite (fun _ => hpure _) fun _ => .ite (fun _ => hpure _) fun _ =>
      .ite (fun _ => hpure _) fun _ => .ite (fun _ => hpure _) fun _ =>
      .ite (fun _ => hpure _) fun _ => hpure _
  · exact hpure _

theorem reads_memberHead (fuel : Nat) (head : MemberHead) :
    Reads false (memberHead fuel head) fun _ => [] := by
  induction fuel generalizing head with
  | zero => exact fun lo => .result fun _ => id
  | succ fuel ih =>
      intro lo
      unfold memberHead
      refine .skip (reads_modifier head) fun head? => ?_
      split
      · exact .skip reads_advance fun _ => ih _ lo
      · exact .done rfl fun _ => id

theorem reads_methodHead (inClass : Bool) : Reads false (methodHead inClass) fun _ => [] := by
  intro lo
  have hword (head : MethodHead) : Goes lo (At lo false []) (do
      advance
      return head) fun _ => At lo false [] := .skip reads_advance fun _ => .done rfl fun _ => id
  refine .look looks_following fun c => .branch (looks_isWord _) (hword .getter) ?_
  refine .branch (looks_isWord _) (hword .setter) ?_
  refine .branch (looks_isWord _) ?_ ?_
  · exact .skip reads_advance fun _ => .skip (reads_eat "*") fun _ => .done rfl fun _ => id
  · exact .fork (reads_eat "*") (.done rfl fun _ => id) (.done rfl fun _ => id)

/-! ## Members -/

section

variable (h : self.LayOut)
include h

theorem reads_classMemberName : Reads true (classMemberName self) fun name => [name.1] := by
  intro lo
  refine .token fun token => ?_
  split
  · refine .pre (goes_advance.bind fun _ => .done rfl (by simp)) fun c hc => ⟨hc.1, ?_⟩
    rw [hc.2]
    rfl
  · exact .pre (.keep (reads_memberName h) fun name => .done rfl fun _ => id) fun _ => And.left

theorem reads_classIndexSignature : Reads false (classIndexSignature self) fun node => [node] := by
  intro lo
  refine .skip (reads_expect "[") fun _ => .skip reads_anyName fun _ => ?_
  refine .skip (reads_expect ":") fun _ => ?_
  refine .keep (reads_type h) fun key => .skip (reads_expect "]") fun _ => ?_
  refine .keep (reads_annotated h) fun value => .skip reads_semicolon fun _ => ?_
  exact .done rfl (by simp)

theorem goes_fieldRest {start : Nat} (head : MemberHead) (decorators : List Node) (name : Node)
    (isPrivateName isDefinite : Bool) :
    Goes start (At start true (decorators ++ [name]))
      (fieldRest self head decorators name isPrivateName isDefinite start)
      fun node => At start true [node] := by
  have hvalue : Reads false (some <$> self.assignment) Option.toList :=
    .map (reads_assignment h)
  refine .keep (reads_annotated h) fun types => .skip (reads_eat "=") fun _ => ?_
  refine .either (fun value => At start true (decorators ++ [name] ++ types ++ value.toList))
    (fun _ => .last hvalue rfl fun _ _ => id) (fun _ => .done rfl (by simp)) fun value => ?_
  refine .spanFrom fun stop => .skip reads_eatSemicolon fun _ => ?_
  extract_lets rest
  have hrest : Goes start (At start true (decorators ++ [name] ++ types ++ value.toList)) (rest ())
      fun node => At start true [node] := by
    refine .ite (fun _ => .done rfl (by simp)) fun _ => .result fun c hc => ?_
    exact hc.event rfl (by simp [Node.standing])
  exact .ite (fun _ => hrest) fun _ => .ite (fun _ => .fail_bind) fun _ => hrest

theorem goes_classMember {start : Nat} (decorators : List Node) :
    Goes start (At start false decorators) (classMember self start decorators)
      fun node => At start false [node] := by
  refine .look looks_following fun c => .branch (looks_isWord _) ?_ ?_
  · refine .skip reads_advance fun _ => .forget (.keep (reads_block h) fun nodes => ?_)
    exact .done rfl (by simp)
  refine .look looks_get fun c => .skip (reads_memberHead c.fuel {}) fun head => ?_
  refine .keep (reads_classIndexSignature h).attempt fun signature => ?_
  cases signature with
  | some node =>
      refine .done rfl fun hi hlaid => ?_
      obtain ⟨mid, hdecorators, hnode⟩ := Node.laid_append_iff.mp hlaid
      exact hnode.mono_left hdecorators.le
  | none =>
      refine .skip (reads_methodHead true) fun method => ?_
      refine .keep (reads_classMemberName h) fun name => ?_
      refine .look (looks_isSign _) fun isDefinite => .look (looks_isSign _) fun _ => ?_
      refine .ifSo (fun _ => reads_advance.stay) (.look (looks_isSign _) fun _ => ?_)
      refine .branch (looks_isSign _) ?_ ?_
      · refine .keep (reads_functionOrSignature h) fun parts => .ite (fun _ => ?_) fun _ => ?_
        · exact .done rfl fun hi hlaid => laid_constructorNode (by simpa using hlaid)
        · exact .done rfl (by simp [laid_functionNode])
      · have hfield := @goes_fieldRest self h start head decorators name.1 name.2 isDefinite
        exact (hfield.weaken fun _ _ hc => hc.imp rfl fun _ => id).after rfl (by simp)

theorem reads_classBody : Reads true (classBody self) fun nodes => nodes := by
  have hstep : Reads false (do
      if ← isSign "\x7d" then return none
      if ← eat ";" then return some (Node.group [])
      let start ← offset
      return some (← classMember self start (← decorators self)))
      (fun node? => node?.elim [] fun node => [node]) := by
    intro lo
    refine .branch (looks_isSign _) (.done rfl fun _ => id) ?_
    refine .fork (reads_eat ";") (.done rfl (by simp)) ?_
    refine Reads.offset (fun start => ?_) lo
    refine .keep (reads_decorators h) fun decorators => ?_
    exact (goes_classMember h decorators).bind fun node => .done rfl fun _ => id
  intro lo
  refine .skip (reads_expect "\x7b") fun _ => .keep hstep.many fun nodes => ?_
  exact .skip (reads_expect "\x7d") fun _ => .done rfl (by simp)

end

/-! ## Classes -/

theorem reads_className (needsName : Bool) : Reads false (className needsName) fun _ => [] := by
  intro lo
  refine .look looks_token fun first => .branch (looks_isWord _) ?_ ?_
  · exact .skip reads_identifier fun _ => .done rfl fun _ => id
  · exact .ite (fun _ => .fail) fun _ => .done rfl fun _ => id

section

variable (h : self.LayOut) {q : Bool} {superclass : Reading Node}
  (hsuper : Reads q superclass fun node => [node])
include h hsuper

theorem reads_typedSuperclass :
    Reads false (typedSuperclass self superclass) fun (parent, types) => parent :: types := by
  intro lo
  refine .keep hsuper fun parent => ?_
  split
  · exact .done (by cases q <;> rfl) (by simp)
  · refine .look (looks_isSign "<") fun _ => .either (fun types => At lo false ([parent] ++ types))
      (fun _ => .last (reads_typeArguments h) rfl fun _ _ => id)
      (fun _ => .done (by cases q <;> rfl) (by simp)) fun types => ?_
    exact .done rfl fun _ => id

theorem reads_heritage :
    Reads false (heritage self superclass) fun (parent, types) => parent ++ types := by
  have hmore : Reads false (do
      if ← eat "," then some <$> superclass else return none)
      (fun node? => node?.elim [] fun _ => []) := by
    intro lo
    refine .fork (reads_eat ",") ?_ (.done rfl fun _ => id)
    exact .last (.map hsuper.forget) rfl fun _ _ => id
  intro lo
  refine .fork (reads_eatWord "extends") ?_ (.done rfl fun _ => id)
  refine .keep (reads_typedSuperclass h hsuper) fun (parent, types) => ?_
  exact .skip hmore.many fun _ => .done rfl fun _ => id

theorem goes_classRest {lo : Nat} (needsName : Bool) (decorators : List Node) :
    Goes lo (At lo false decorators) (classRest self superclass needsName decorators)
      fun node => At lo false [node] := by
  refine .skip (reads_expectWord "class") fun _ => .skip (reads_className needsName) fun _ => ?_
  refine .keep (reads_typeParameters h) fun types => ?_
  refine .keep (reads_heritage h hsuper) fun (parent, arguments) => ?_
  refine .skip (reads_eatWord "implements") fun _ => .either
    (fun interfaces => At lo false (decorators ++ types ++ (parent ++ arguments) ++ interfaces))
    (fun _ => .last (reads_typeList h) rfl fun _ _ => id) (fun _ => .done rfl (by simp)) ?_
  exact fun interfaces => .keep (reads_classBody h) fun members => .done rfl (by simp)

end

end KeyLint.Script.Grammar
