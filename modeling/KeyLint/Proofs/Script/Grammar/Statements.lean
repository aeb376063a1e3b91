import KeyLint.Proofs.Script.Grammar.Expressions
import KeyLint.Proofs.Script.Grammar.Types
import KeyLint.Script.Grammar.Statements

/-!
# The layout of statements

A declarator begins with its binding. The parts of all other statements stand in the order in which
they are read.
-/

namespace KeyLint.Script.Grammar

open Reading
open Node (Laid)

variable {self : Rules}

/-- A statement whose parts have all been read. -/
theorem goes_ended {lo : Nat} {m : Bool} (nodes : List Node) :
    Goes lo (At lo m nodes) (do
      semicolon
      return .group nodes) fun node => At lo false [node] :=
  .skip reads_semicolon fun _ => .done rfl (by simp)

theorem reads_some {r : Reading Node} (h : Reads false r fun node => [node]) :
    Reads false (some <$> r) fun node? => node?.elim [] fun node => [node] :=
  .map h

theorem goes_needed {lo : Nat} (node? : Option Node) :
    Goes lo (At lo false (node?.elim [] fun node => [node])) (needed node?)
      fun node => At lo false [node] := by
  cases node? with
  | some node => exact .result fun _ => id
  | none => exact .fail

section

variable (h : self.LayOut)
include h

/-! ## Variables -/

theorem reads_declarator (noIn : Bool) : Reads true (declarator self noIn) fun node => [node] := by
  refine .offset fun start => .keep (h .binding) fun binding => ?_
  refine .skip (reads_eat "!") fun _ => .keep (reads_annotated h) fun types => ?_
  refine .skip (reads_eat "=") fun _ => ?_
  refine .either (fun init => At start true (binding :: (types ++ init.toList))) (fun _ => .map ?_)
    (fun _ => .done rfl (by simp)) fun init => .spanFrom fun stop => .result fun c hc => ?_
  · exact .last (h (.assignment noIn false)) rfl (by simp)
  · exact hc.event rfl fun _ => id

theorem reads_declarators (noIn : Bool) : Reads false (declarators self noIn) fun nodes => nodes := by
  have hmore : Reads false (do
      if ← eat "," then
        if ← isSign ";" then return none
        return some (← declarator self noIn)
      else return none) (fun node? => node?.elim [] fun node => [node]) := by
    intro lo
    refine .fork (reads_eat ",") ?_ (.done rfl fun _ => id)
    refine .branch (looks_isSign _) (.done rfl fun _ => id) ?_
    exact .keep (reads_declarator h noIn) fun node => .done rfl fun _ => id
  intro lo
  refine .branch (looks_isSign _) (.done rfl fun _ => id) ?_
  refine .keep (reads_declarator h noIn) fun first => .keep hmore.many fun more => ?_
  exact .done rfl (by simp)

omit h in
theorem reads_variableKeyword : Reads false variableKeyword fun _ => [] := by
  intro lo
  refine .branch (looks_isAnyWord _) (reads_advance lo) ?_
  refine .look (looks_isWord _) fun _ => ?_
  refine .branch looks_following (reads_advance lo) (.skip (reads_eatWord "await") fun _ => ?_)
  refine .skip (reads_expectWord "using") fun _ => .look looks_onNewLine fun _ => ?_
  refine .look looks_isIdentifier fun _ => ?_
  exact .branch (looks_isWord _) .fail (.done rfl fun _ => id)

theorem reads_variableStatement (ambient : Bool) :
    Reads false (variableStatement self ambient) fun node => [node] := by
  intro lo
  refine .look (looks_isWord _) fun _ => .look (looks_isWord _) fun _ => ?_
  refine .skip reads_variableKeyword fun _ => .keep (reads_declarators h false) fun nodes => ?_
  refine .ifSo (fun _ => .fail) (.ifSo (fun _ => .fail) (.skip reads_eatSemicolon fun _ => ?_))
  refine .ite (fun _ => .done rfl (by simp)) fun _ => ?_
  refine (reads_expression h).recover.stay.bind fun _ => .skip reads_skipStatement fun _ => ?_
  exact .done rfl (by simp)

/-! ## Loops -/

theorem reads_loopStart : Reads false (loopStart self) fun node => [node] := by
  intro lo
  refine .branch (looks_ahead _) ?_ (h (.expression true) lo)
  refine .skip reads_variableKeyword fun _ => .keep (reads_declarators h true) fun nodes => ?_
  exact .done rfl (by simp)

theorem reads_loopTest : Reads false (loopTest self) fun nodes => nodes := by
  intro lo
  refine .fork (reads_eat ";") (.done rfl fun _ => id) ?_
  exact .keep (reads_expression h) fun test => .skip (reads_eat ";") fun _ => .done rfl fun _ => id

theorem reads_loopStep : Reads false (loopStep self) fun nodes => nodes := by
  intro lo
  refine .branch (looks_isSign _) (.done rfl fun _ => id) ?_
  exact .keep (reads_expression h) fun step => .done rfl fun _ => id

theorem goes_loopRest {lo : Nat} {m : Bool} (start : List Node) :
    Goes lo (At lo m start) (loopRest self start) fun node => At lo false [node] := by
  refine .keep (reads_loopTest h) fun test => .keep (reads_loopStep h) fun step => ?_
  exact .skip (reads_expect ")") fun _ => .keep (h .body) fun body => .done rfl (by simp)

theorem reads_forStatement : Reads false (forStatement self) fun node => [node] := by
  intro lo
  refine .skip (reads_expectWord "for") fun _ => .skip (reads_eatWord "await") fun _ => ?_
  refine .skip (reads_expect "(") fun _ => .fork (reads_eat ";") ?_ ?_
  · exact goes_loopRest h []
  refine .keep (reads_loopStart h) fun start => ?_
  refine .look (looks_isWord _) fun _ => .branch (looks_isWord _) ?_ ?_
  · refine .skip reads_advance fun _ => .keep (reads_expression h) fun source => ?_
    refine .skip (reads_expect ")") fun _ => .keep (h .body) fun body => .done rfl fun hi hlaid => ?_
    rw [List.append_assoc, Node.laid_append_iff] at hlaid
    obtain ⟨mid, hstart, hrest⟩ := hlaid
    simpa using (laid_asPattern start hstart).append hrest
  · exact .skip (reads_expect ";") fun _ => goes_loopRest h [start]

theorem reads_condition : Reads true (condition self) fun node => [node] := by
  intro lo
  refine .skip (reads_expect "(") fun _ => .keep (reads_expression h) fun node => ?_
  exact .skip (reads_expect ")") fun _ => .done rfl fun _ => id

theorem reads_doStatement : Reads false (doStatement self) fun node => [node] := by
  intro lo
  refine .skip (reads_expectWord "do") fun _ => .keep (h .body) fun body => ?_
  refine .skip (reads_expectWord "while") fun _ => .keep (reads_condition h) fun test => ?_
  exact .skip (reads_eat ";") fun _ => .done rfl (by simp)

/-! ## Branches -/

theorem reads_ifStatement : Reads false (ifStatement self) fun node => [node] := by
  intro lo
  refine .skip (reads_expectWord "if") fun _ => .keep (reads_condition h) fun test => ?_
  refine .keep (h .body) fun yes => .skip (reads_eatWord "else") fun _ => ?_
  exact .optionally (h .body) fun no => .done rfl (by simp)

theorem reads_caseTest : Reads false (caseTest self) fun nodes => nodes := by
  intro lo
  refine .fork (reads_eatWord "default") (.done rfl fun _ => id) ?_
  refine .skip (reads_expectWord "case") fun _ => ?_
  exact .keep (reads_expression h) fun test => .done rfl fun _ => id

theorem reads_switchCase : Reads false (switchCase self) fun node => [node] := by
  have hstep : Reads false (do
      if (← isAnyWord ["case", "default"]) || (← isSign "\x7d") then return none
      return some (← self .statement)) (fun node? => node?.elim [] fun node => [node]) := by
    intro lo
    refine .look (looks_isAnyWord _) fun _ => ?_
    refine .branch (looks_isSign _) (.done rfl fun _ => id) ?_
    exact .keep (h .statement) fun node => .done rfl fun _ => id
  intro lo
  refine .keep (reads_caseTest h) fun test => .skip (reads_expect ":") fun _ => ?_
  exact .keep hstep.many fun body => .done rfl (by simp)

theorem reads_switchStatement : Reads false (switchStatement self) fun node => [node] := by
  have hstep : Reads false (do
      if ← isSign "\x7d" then return none else return some (← switchCase self))
      (fun node? => node?.elim [] fun node => [node]) := by
    intro lo
    refine .branch (looks_isSign _) (.done rfl fun _ => id) ?_
    exact .keep (reads_switchCase h) fun node => .done rfl fun _ => id
  intro lo
  refine .skip (reads_expectWord "switch") fun _ => .keep (reads_condition h) fun value => ?_
  refine .skip (reads_expect "\x7b") fun _ => .keep hstep.many fun cases => ?_
  exact .skip (reads_expect "\x7d") fun _ => .done rfl (by simp)

theorem reads_handlerParameter : Reads false (handlerParameter self) fun nodes => nodes := by
  intro lo
  refine .skip (reads_eat "(") fun _ => .ite (fun _ => ?_) fun _ => .done rfl fun _ => id
  refine .keep (h .binding) fun param => .keep (reads_annotated h) fun types => ?_
  exact .skip (reads_expect ")") fun _ => .done rfl fun _ => id

theorem reads_errorHandler : Reads false (errorHandler self) fun nodes => nodes := by
  intro lo
  refine .fork (reads_eatWord "catch") ?_ (.done rfl fun _ => id)
  refine .keep (reads_handlerParameter h) fun param => ?_
  exact .keep (reads_block h) fun body => .done rfl fun _ => id

theorem reads_handlers : Reads false (handlers self) fun nodes => nodes := by
  intro lo
  refine .keep (reads_errorHandler h) fun handler => .skip (reads_eatWord "finally") fun _ => ?_
  refine .either (fun nodes => At lo false (handler ++ nodes)) (fun _ => ?_)
    (fun _ => .done rfl (by simp)) fun finalizer => .done rfl fun _ => id
  exact .last (reads_block h) rfl fun _ _ => id

theorem reads_tryStatement : Reads false (tryStatement self) fun node => [node] := by
  intro lo
  refine .skip (reads_expectWord "try") fun _ => .keep (reads_block h) fun body => ?_
  exact .keep (reads_handlers h) fun rest => .done rfl (by simp)

/-! ## Jumps -/

theorem reads_throwStatement : Reads false (throwStatement self) fun node => [node] := by
  intro lo
  refine .skip (reads_expectWord "throw") fun _ => .look looks_onNewLine fun _ => ?_
  refine .ifSo (fun _ => .fail) ?_
  exact .keep (reads_expression h) fun value => .skip reads_semicolon fun _ => .done rfl fun _ => id

theorem reads_returnStatement : Reads false (returnStatement self) fun node => [node] := by
  intro lo
  refine .skip (reads_expectWord "return") fun _ => .look looks_onNewLine fun _ => ?_
  refine .look (looks_isAnySign _) fun _ => .look looks_token fun _ => ?_
  refine .ite (fun _ => goes_ended []) fun _ => ?_
  exact .keep (reads_expression h) fun value => goes_ended [value]

omit h in
theorem reads_labelJump : Reads false labelJump fun node => [node] := by
  intro lo
  refine .skip reads_advance fun _ => .branch looks_onNewLine (goes_ended []) ?_
  exact .look looks_isIdentifier fun _ => .ifSo (fun _ => reads_identifier.stay) (goes_ended [])

/-! ## Declarations -/

theorem reads_functionDeclaration (needsName : Bool) :
    Reads false (functionDeclaration self needsName) fun node => [node] := by
  intro lo
  refine .skip (reads_eatWord "async") fun _ => .skip (reads_expectWord "function") fun _ => ?_
  refine .skip (reads_eat "*") fun _ => .look looks_isIdentifier fun _ => ?_
  refine .ifSo (fun _ => reads_identifier.stay) ?_
  exact .keep (reads_functionOrSignature h) fun parts => .done rfl (by simp [laid_functionNode])

theorem goes_classDeclaration {lo : Nat} (needsName : Bool) (decorators : List Node) :
    Goes lo (At lo false decorators) (classDeclaration self needsName decorators)
      fun node => At lo false [node] :=
  .skip (reads_eatWord "abstract") fun _ =>
    goes_classRest h (.map (reads_operand h)) needsName decorators

theorem reads_enumMember : Reads false (enumMember self) fun node => [node] := by
  intro lo
  refine .skip (reads_memberName h) fun _ => ?_
  exact (@goes_withDefault self h lo false [] .atom).after rfl (by simp)

theorem reads_enumDeclaration : Reads false (enumDeclaration self) fun node => [node] := by
  intro lo
  refine .skip (reads_eatWord "const") fun _ => .skip (reads_expectWord "enum") fun _ => ?_
  refine .skip reads_identifier fun _ => .skip (reads_expect "\x7b") fun _ => ?_
  exact .keep ((reads_enumMember h).commaList "\x7d") fun members => .done rfl (by simp)

theorem reads_interfaceDeclaration : Reads false (interfaceDeclaration self) fun node => [node] := by
  intro lo
  refine .skip (reads_expectWord "interface") fun _ => .skip reads_identifier fun _ => ?_
  refine .keep (reads_typeParameters h) fun types => .skip (reads_eatWord "extends") fun _ => ?_
  refine .either (fun bases => At lo false (types ++ bases))
    (fun _ => .last (reads_typeList h) rfl fun _ _ => id) (fun _ => .done rfl (by simp)) ?_
  exact fun bases => .keep (reads_objectType h) fun members => .done rfl (by simp)

theorem reads_typeDeclaration : Reads false (typeDeclaration self) fun node => [node] := by
  intro lo
  refine .skip (reads_expectWord "type") fun _ => .skip reads_identifier fun _ => ?_
  refine .keep (reads_typeParameters h) fun types => .skip (reads_expect "=") fun _ => ?_
  refine .keep (reads_type h) fun node => .skip reads_semicolon fun _ => ?_
  exact .done rfl (by simp)

theorem reads_namespaceDeclaration : Reads false (namespaceDeclaration self) fun node => [node] := by
  intro lo
  have hbody {m : Bool} : Goes lo (At lo m []) (do
      return .group (← braced (self .item))) fun node => At lo false [node] :=
    .keep (reads_braced (h .item)) fun items => .done rfl (by simp)
  refine .skip reads_advance fun _ => .look looks_token fun token => ?_
  split
  · refine .skip reads_advance fun _ => .branch (looks_isSign _) hbody ?_
    exact goes_ended []
  · exact .skip reads_identifier fun _ => .skip reads_dottedNames fun _ => hbody

theorem reads_globalDeclaration : Reads false (globalDeclaration self) fun node => [node] := by
  intro lo
  refine .skip (reads_expectWord "global") fun _ => ?_
  exact .keep (reads_braced (h .item)) fun items => .done rfl (by simp)

theorem reads_declaration? (introduced ambient : Bool) (fuel : Nat) :
    Reads false (declaration? self introduced ambient fuel)
      fun node? => node?.elim [] fun node => [node] := by
  induction fuel generalizing introduced ambient with
  | zero => exact fun lo => .done rfl fun _ => id
  | succ fuel ih =>
      intro lo
      have hfunction := reads_some (reads_functionDeclaration h true) lo
      have hclass := reads_some (fun _ => goes_classDeclaration h true []) lo
      have hdeclare : Reads false (do
          advance
          needed (← declaration? self true true fuel)) fun node => [node] :=
        fun lo => .skip reads_advance fun _ => (ih true true lo).bind fun node? => goes_needed node?
      refine .look looks_following fun next => ?_
      refine .branch (looks_isWord _) hfunction ?_
      refine .branch (looks_isWord _) hfunction ?_
      refine .branch (looks_isWord _) hclass ?_
      refine .branch (looks_isWord _) hclass ?_
      refine .look (looks_isWord _) fun _ => ?_
      refine .branch (looks_isWord _) (reads_some (reads_enumDeclaration h) lo) ?_
      refine .branch (looks_ahead _) (reads_some (reads_variableStatement h ambient) lo) ?_
      refine .branch (looks_isWord _) (reads_some (reads_namespaceDeclaration h) lo) ?_
      refine .ite (fun _ => .done rfl fun _ => id) fun _ => ?_
      refine .branch (looks_isWord _) ((reads_typeDeclaration h).attempt lo) ?_
      refine .branch (looks_isWord _) (reads_some (reads_interfaceDeclaration h) lo) ?_
      refine .branch (looks_isWord _) ((reads_namespaceDeclaration h).attempt lo) ?_
      refine .branch (looks_isWord _) (reads_some (reads_globalDeclaration h) lo) ?_
      exact .branch (looks_isWord _) (hdeclare.attempt lo) (.done rfl fun _ => id)

theorem reads_declaration (introduced : Bool) :
    Reads false (declaration self introduced) fun node? => node?.elim [] fun node => [node] :=
  fun lo => .look looks_get fun c => reads_declaration? h introduced false c.fuel lo

/-! ## Imports and exports -/

omit h in
theorem reads_moduleName : Reads false moduleName fun _ => [] := by
  refine fun lo => .look looks_token fun token => ?_
  split
  · exact reads_advance lo
  · exact .fail

omit h in
theorem reads_moduleExportName : Reads false moduleExportName fun _ => [] := by
  refine fun lo => .look looks_token fun token => ?_
  split
  · exact reads_advance lo
  · exact .skip reads_anyName fun _ => .done rfl fun _ => id

omit h in
theorem reads_importName : Reads false importName fun _ => [] := by
  intro lo
  refine .skip reads_moduleExportName fun _ => .skip (reads_eatWord "as") fun _ => ?_
  refine .ifSo (fun _ => reads_moduleExportName lo) (.look (looks_isAnySign _) fun _ => ?_)
  exact .ite (fun _ => .done rfl fun _ => id) fun _ => .fail

omit h in
theorem reads_importItem : Reads false importItem fun _ => [] := by
  intro lo
  refine .fork reads_importName.attempt (.done rfl fun _ => id) ?_
  exact .skip (reads_expectWord "type") fun _ => .last reads_importName rfl fun _ _ => id

omit h in
theorem reads_importList : Reads false importList fun _ => [] := by
  intro lo
  refine .skip (reads_expect "\x7b") fun _ => ?_
  exact .skip (reads_importItem.commaList "\x7d") fun _ => .done rfl fun _ => id

omit h in
theorem reads_importNames : Reads false importNames fun _ => [] := by
  intro lo
  refine .branch (looks_isSign _) ?_ (reads_importList lo)
  refine .skip (reads_expect "*") fun _ => .skip (reads_expectWord "as") fun _ => ?_
  exact .skip reads_identifier fun _ => .done rfl fun _ => id

omit h in
theorem reads_importAlias : Reads false importAlias fun node => [node] := by
  intro lo
  refine .skip (reads_expect "=") fun _ => .look (looks_isWord _) fun _ => ?_
  refine .branch looks_following ?_ ?_
  · refine .skip reads_advance fun _ => .skip (reads_expect "(") fun _ => ?_
    exact .skip reads_moduleName fun _ => .skip (reads_expect ")") fun _ => goes_ended []
  · exact .skip reads_identifier fun _ => .skip reads_dottedNames fun _ => goes_ended []

theorem reads_importAttributes : Reads false (importAttributes self) fun nodes => nodes := by
  intro lo
  refine .look (looks_isAnyWord _) fun _ => ?_
  refine .branch looks_onNewLine ?_ (.done rfl fun _ => id)
  refine .skip reads_advance fun _ => .skip (reads_expect "\x7b") fun _ => ?_
  exact .keep ((reads_objectMember h).commaList "\x7d") fun members => .done rfl (by simp)

theorem reads_fromModule : Reads false (fromModule self) fun node => [node] := by
  intro lo
  refine .skip (reads_expectWord "from") fun _ => .skip reads_moduleName fun _ => ?_
  refine .keep (reads_importAttributes h) fun attributes => ?_
  exact goes_ended attributes

theorem reads_importRest : Reads false (importRest self) fun node => [node] := by
  intro lo
  have hfrom {m : Bool} : Goes lo (At lo m []) (fromModule self) fun node => At lo false [node] :=
    .last (reads_fromModule h) rfl fun _ _ => id
  refine .look looks_token fun token => ?_
  split
  · refine .skip reads_moduleName fun _ => .keep (reads_importAttributes h) fun attributes => ?_
    exact .skip reads_eatSemicolon fun _ => .done rfl (by simp)
  · exact .skip reads_importNames fun _ => hfrom
  · refine .skip reads_mention fun _ => .branch (looks_isSign _) ?_ ?_
    · exact .last reads_importAlias rfl fun _ _ => id
    · exact .skip (reads_eat ",") fun _ => .ifSo (fun _ => reads_importNames.stay) hfrom

theorem reads_importStatement : Reads false (importStatement self) fun node => [node] := by
  have htyped : Reads false (do
      advance
      importRest self) fun node => [node] :=
    fun lo => .skip reads_advance fun _ => reads_importRest h lo
  intro lo
  have hrest {m : Bool} : Goes lo (At lo m []) (importRest self) fun node => At lo false [node] :=
    .last (reads_importRest h) rfl fun _ _ => id
  refine .skip (reads_expectWord "import") fun _ => ?_
  refine .branch (looks_isWord _) (.keep htyped.attempt fun typed => ?_) hrest
  cases typed with
  | some node => exact .done rfl fun _ => id
  | none => exact hrest

theorem goes_exportDefault {lo : Nat} {m : Bool} (decorators : List Node) :
    Goes lo (At lo m decorators) (exportDefault self decorators) fun node => At lo false [node] := by
  refine .look looks_following fun next => .look (looks_isWord _) fun _ => ?_
  refine .branch (looks_isWord _) ?_ ?_
  · exact .forget (reads_functionDeclaration h false lo)
  refine .look (looks_isWord _) fun _ => .branch (looks_isWord _) ?_ ?_
  · exact (goes_classDeclaration h false decorators).after rfl fun _ => id
  refine .branch (looks_isSign _) ?_ ?_
  · refine .keep (reads_decorators h) fun own => ?_
    exact (goes_classDeclaration h false (decorators ++ own)).after rfl fun _ => id
  refine .branch (looks_isWord _) ?_ (.forget ?_)
  · exact .forget (reads_interfaceDeclaration h lo)
  · exact .keep (reads_assignment h) fun node => .skip reads_semicolon fun _ => .done rfl fun _ => id

theorem goes_decoratedClass {lo : Nat} {m : Bool} (decorators : List Node) :
    Goes lo (At lo m decorators) (decoratedClass self decorators) fun node => At lo false [node] := by
  refine .keep (reads_decorators h) fun own => .skip (reads_eatWord "declare") fun _ => ?_
  exact (goes_classDeclaration h true (decorators ++ own)).after rfl fun _ => id

theorem reads_exportNames : Reads false (exportNames self) fun node => [node] := by
  intro lo
  refine .skip (reads_eatWord "type") fun _ => .fork (reads_eat "*") ?_ ?_
  · refine .skip (reads_eatWord "as") fun _ => ?_
    exact .ifSo (fun _ => reads_moduleExportName lo) (reads_fromModule h lo)
  · refine .skip reads_importList fun _ => ?_
    refine .branch (looks_isWord _) (reads_fromModule h lo) ?_
    exact .skip reads_eatSemicolon fun _ => .done rfl (by simp)

theorem goes_exportStatement {lo : Nat} (decorators : List Node) :
    Goes lo (At lo false decorators) (exportStatement self decorators)
      fun node => At lo false [node] := by
  have hnames := reads_exportNames h lo
  refine .skip (reads_expectWord "export") fun _ => ?_
  refine .fork (reads_eatWord "default") (goes_exportDefault h decorators) ?_
  refine .branch (looks_isSign _) (goes_decoratedClass h decorators) (.forget ?_)
  refine .fork (reads_eat "=") ?_ ?_
  · exact .keep (reads_expression h) fun node => .skip reads_semicolon fun _ => .done rfl fun _ => id
  refine .branch (looks_isWord _) (reads_importStatement h lo) ?_
  refine .look (looks_isWord _) fun _ => .branch (looks_followedOnLine _) ?_ ?_
  · refine .skip reads_advance fun _ => .skip reads_advance fun _ => .skip reads_identifier fun _ => ?_
    exact goes_ended []
  refine .look (looks_isSign _) fun _ => ?_
  refine .branch (looks_isSign _) hnames (.look (looks_isWord _) fun _ => ?_)
  refine .branch (looks_followedOnLine _) hnames ?_
  exact (reads_declaration h true lo).bind fun node? => goes_needed node?

/-! ## Statements -/

theorem reads_decoratedStatement : Reads false (decoratedStatement self) fun node => [node] := by
  intro lo
  refine .keep (reads_decorators h) fun decorators => ?_
  exact .branch (looks_isAnyWord _) (goes_decoratedClass h decorators) (.forget (h .statement lo))

theorem reads_expressionStatement : Reads false (expressionStatement self) fun node => [node] := by
  intro lo
  refine .look looks_token fun _ => .branch looks_following ?_ ?_
  · exact .skip reads_advance fun _ => .skip reads_advance fun _ => h .body lo
  · exact .keep (reads_expression h) fun node => .skip reads_semicolon fun _ => .done rfl fun _ => id

theorem reads_wordStatement? :
    Reads false (wordStatement? self) fun node? => node?.elim [] fun node => [node] := by
  intro lo
  refine .branch (looks_isWord _) (reads_some (reads_ifStatement h) lo) ?_
  refine .branch (looks_isWord _) (reads_some (reads_forStatement h) lo) ?_
  refine .branch (looks_isAnyWord _) ?_ ?_
  · refine .skip reads_advance fun _ => .keep (reads_condition h) fun test => ?_
    exact .keep (h .body) fun body => .done rfl (by simp)
  refine .branch (looks_isWord _) (reads_some (reads_doStatement h) lo) ?_
  refine .branch (looks_isWord _) (reads_some (reads_switchStatement h) lo) ?_
  refine .branch (looks_isWord _) (reads_some (reads_tryStatement h) lo) ?_
  refine .branch (looks_isAnyWord _) ?_ ?_
  · exact .skip (reads_handlers h).recover fun _ => .done rfl (by simp)
  refine .branch (looks_isWord _) (reads_some (reads_returnStatement h) lo) ?_
  refine .branch (looks_isWord _) (reads_some (reads_throwStatement h) lo) ?_
  refine .branch (looks_isAnyWord _) (reads_some reads_labelJump lo) ?_
  refine .branch (looks_isWord _) ?_ (.done rfl fun _ => id)
  exact .skip reads_advance fun _ => .skip reads_semicolon fun _ => .done rfl (by simp)

theorem reads_statementRule : Reads false (statementRule self) fun node => [node] := by
  intro lo
  refine .look looks_token fun token => ?_
  split
  · exact .keep (reads_block h) fun nodes => .done rfl (by simp)
  · exact .skip reads_advance fun _ => .done rfl (by simp)
  · exact reads_decoratedStatement h lo
  · refine .keep (reads_wordStatement? h) fun word? => ?_
    cases word? with
    | some node => exact .done rfl fun _ => id
    | none =>
        refine .keep (reads_declaration h false) fun node? => ?_
        cases node? with
        | some node => exact .done rfl fun _ => id
        | none => exact reads_expressionStatement h lo
  · exact reads_expressionStatement h lo

theorem reads_bodyRule : Reads false (bodyRule self) fun node => [node] := by
  intro lo
  refine .look looks_following fun _ => .look (looks_ahead _) fun _ => ?_
  exact .branch (looks_isWord _) (reads_expressionStatement h lo) (reads_statementRule h lo)

theorem reads_decoratedItem : Reads false (decoratedItem self) fun node => [node] := by
  have hexported : Reads false (do
      let decorators ← decorators self
      unless ← isWord "export" do fail
      return decorators) fun nodes => nodes := by
    intro lo
    refine .keep (reads_decorators h) fun decorators => .look (looks_isWord _) fun _ => ?_
    exact .ifNot (fun _ => .fail) (.done rfl fun _ => id)
  intro lo
  refine .keep hexported.attempt fun decorated => ?_
  cases decorated with
  | some decorators => exact goes_exportStatement h decorators
  | none => exact reads_decoratedStatement h lo

theorem reads_itemRule : Reads false (itemRule self) fun node => [node] := by
  intro lo
  refine .look looks_following fun next => ?_
  refine .branch (looks_isWord _) (reads_importStatement h lo) ?_
  refine .branch (looks_isWord _) (goes_exportStatement h []) ?_
  exact .branch (looks_isSign _) (reads_decoratedItem h lo) (reads_statementRule h lo)

end

end KeyLint.Script.Grammar
