import TemplateCompiler.Script.Grammar.Expression

/-!
# Statements

The rules for statements, for variable declarations, and for the import and export declarations of
modules.
-/

namespace TemplateCompiler.Script.Grammar

/-! ## Variables -/

/-- A declared variable without regard to whether it needs a value. -/
def declarator (g : Rules) (c : Context) : Parser Declarator := do
  let p ← g.pattern c
  if ← eatSymbol "=" then
    pure (.mk p (some (← g.assignment c)))
  else pure (.mk p none)

/-- Constants and patterns need a value. -/
def isInitialized (kind : VariableKind) : Declarator → Bool
  | .mk p value =>
    value.isSome ||
      match p with
      | .target _ => kind != .const
      | _ => false

/-- The keyword of a variable declaration. -/
def variableKind? : Token → Option VariableKind
  | .name w false =>
    if w == "var" then some .var
    else if w == "let" then some .let
    else if w == "const" then some .const
    else none
  | _ => none

/-- A token that may follow `let` as the start of a declared pattern. -/
def startsPattern : Token → Bool
  | .name text _ => !reservedWords.contains text
  | .symbol s => s == "[" || s == "\x7b"
  | _ => false

/-- The declaring keyword at the next token; `let` only declares if a pattern follows. -/
def atVariables : Parser (Option VariableKind) := do
  match variableKind? (← peek) with
  | some .let => pure (if startsPattern (← peekSecond).1 then some .let else none)
  | kind => pure kind

/-- A variable declaration. -/
def variableStatement (g : Rules) (c : Context) (kind : VariableKind) : Parser Statement := do
  guard (!(c.isSingle && kind != .var))
  advance
  let ds ← commaChain (declarator g { c with allowsIn := true })
  guard (ds.all (isInitialized kind))
  endStatement
  pure (.variables kind ds)

/-! ## Loops -/

/-- The test and update of a loop and its body, after the semicolon behind its first part. -/
def loopRest (g : Rules) (c : Context) (first : Option Statement) : Parser Statement := do
  let test ← if ← atSymbol ";" then pure none else pure (some (← g.expression c))
  expectSymbol ";"
  let update ← if ← atSymbol ")" then pure none else pure (some (← g.expression c))
  expectSymbol ")"
  let body ← g.statement c.single
  pure (.loop first test update body)

/-- The object or values of a loop over them, and its body. -/
def loopOver (g : Rules) (c : Context) (isAwait : Bool) (target : LoopTarget) :
    Parser Statement := do
  if ← eatWord "of" then
    let values ← g.assignment c
    expectSymbol ")"
    pure (.loopOf isAwait target values (← g.statement c.single))
  else
    guard (!isAwait)
    expectWord "in"
    let object ← g.expression c
    expectSymbol ")"
    pure (.loopIn target object (← g.statement c.single))

/-- The next token is `of` or `in`. -/
def atOver : Parser Bool := do
  if ← atWord "of" then pure true else atWord "in"

/-- A loop whose head declares variables. -/
def declaringLoop (g : Rules) (c : Context) (isAwait : Bool) (kind : VariableKind) :
    Parser Statement := do
  advance
  let ds ← commaChain (declarator g { c with allowsIn := false })
  match ds, ← atOver with
  | [.mk p none], true => loopOver g c isAwait (.declared kind p)
  | _, true => failure
  | _, false =>
    guard (!isAwait && ds.all (isInitialized kind))
    expectSymbol ";"
    loopRest g c (some (.variables kind ds))

/-- The next tokens are `async of`, which start no loop. -/
def atAsyncOf : Parser Bool := do
  if ← atWord "async" then pure ((← peekSecond).1 == .name "of" false) else pure false

/-- A loop, after its `for`. -/
def forRest (g : Rules) (c : Context) : Parser Statement := do
  let isAwait ← eatWord "await"
  guard (!isAwait || c.allowsAwait)
  expectSymbol "("
  if let some kind ← atVariables then return ← declaringLoop g c isAwait kind
  if ← eatSymbol ";" then
    guard (!isAwait)
    return ← loopRest g c none
  guard (isAwait || !(← atAsyncOf))
  let e ← g.expression { c with allowsIn := false }
  if ← atOver then
    return ← loopOver g c isAwait (.assigned (← patternOf e))
  guard (!isAwait)
  expectSymbol ";"
  loopRest g c (some (.expression e))

/-! ## Other statements with keywords -/

/-- A test in parentheses. -/
def testInParens (g : Rules) (c : Context) : Parser Expr := do
  expectSymbol "("
  let e ← g.expression c
  expectSymbol ")"
  pure e

/-- The rest of a choice, after its `if`. -/
def branchRest (g : Rules) (c : Context) : Parser Statement := do
  let test ← testInParens g c
  let yes ← g.statement c.single
  if ← eatWord "else" then
    let no ← g.statement c.single
    pure (.branch test yes (some no))
  else pure (.branch test yes none)

/-- The rest of a loop with its test at the end, after its `do`. -/
def untilRest (g : Rules) (c : Context) : Parser Statement := do
  let body ← g.statement c.single
  expectWord "while"
  let test ← testInParens g c
  let _ ← eatSymbol ";"
  pure (.loopUntil body test)

/-- The label of a jump, on the same line. -/
def jumpLabel (c : Context) : Parser (Option String) := do
  if ← onNewLine then return none
  match ← peek with
  | .name text _ => if c.allowsName text then advance; return some text else return none
  | _ => return none

/-- The rest of a `return`. -/
def returnRest (g : Rules) (c : Context) : Parser Statement := do
  guard c.allowsReturn
  let token ← peek
  let ends := token == .symbol ";" || token == .symbol "\x7d" || token == .finish
  let value ←
    if ends || (← onNewLine) then pure none else pure (some (← g.expression c))
  endStatement
  pure (.returnValue value)

/-- The rest of a `throw`; its value starts on the same line. -/
def throwRest (g : Rules) (c : Context) : Parser Statement := do
  guard (!(← onNewLine))
  let value ← g.expression c
  endStatement
  pure (.throwValue value)

/-- The rest of a `try`: a handler or a final block has to follow the body. -/
def guardedRest (g : Rules) (c : Context) : Parser Statement := do
  let body ← braced g c
  let (param, handler) ←
    if ← eatWord "catch" then
      let param ←
        if ← eatSymbol "(" then
          let p ← g.pattern c
          expectSymbol ")"
          pure (some p)
        else pure none
      let handler ← braced g c
      pure (param, some handler)
    else pure (none, none)
  let final ← if ← eatWord "finally" then pure (some (← braced g c)) else pure none
  guard (handler.isSome || final.isSome)
  pure (.guarded body param handler final)

/-- A case of a switch. -/
def switchCase (g : Rules) (c : Context) : Parser Case := do
  let test ←
    if ← eatWord "default" then pure none
    else
      expectWord "case"
      pure (some (← g.expression c))
  expectSymbol ":"
  -- the statements of a case end where the next case begins
  let atEnd : Parser Bool := do
    if ← atSymbol "\x7d" then return true
    if ← atWord "case" then return true
    atWord "default"
  let body ← repeatWhile (do pure (!(← atEnd))) (g.statement c.nested) (← remaining)
  pure (.mk test body)

/-- The case has no test. -/
def isDefaultCase : Case → Bool
  | .mk test _ => test.isNone

/-- The rest of a `switch`; at most one case has no test. -/
def switchRest (g : Rules) (c : Context) : Parser Statement := do
  let value ← testInParens g c
  expectSymbol "\x7b"
  let cases ← repeatUntil "\x7d" (switchCase g c)
  expectSymbol "\x7d"
  guard ((cases.filter isDefaultCase).length ≤ 1)
  pure (.switch value cases)

/-! ## Modules -/

/-- A string. -/
def stringText : Parser Quoted := do
  match ← peek with
  | .string s => advance; pure s
  | _ => failure

/-- A name in an import or export clause. -/
def moduleName : Parser ModuleName := do
  match ← peek with
  | .string s => advance; pure (.string s)
  | _ => pure (.name (← word))

/-- Attributes of an imported module, if any are given. -/
def importAttributes : Parser (List ImportAttribute) := do
  if ← eatWord "with" then
    let entry : Parser ImportAttribute := do
      let key ← moduleName
      expectSymbol ":"
      pure ⟨key, ← stringText⟩
    let (as, _) ← bracketed "\x7b" "\x7d" entry
    pure as
  else pure []

/-- A binding in the braces of an import clause. -/
def namedImport (c : Context) : Parser ImportBinding := do
  let imported ← moduleName
  if ← eatWord "as" then
    pure (.named imported (← identifier c))
  else
    match imported with
    | .name text =>
      guard (c.allowsName text)
      pure (.named imported text)
    | .string _ => failure

/-- All exports of a module under one name. -/
def importAll (c : Context) : Parser ImportBinding := do
  expectSymbol "*"
  expectWord "as"
  pure (.all (← identifier c))

/-- The part of an import clause behind a default binding. -/
def importGroup (c : Context) : Parser (List ImportBinding) := do
  if ← atSymbol "*" then pure [← importAll c]
  else
    let (bs, _) ← bracketed "\x7b" "\x7d" (namedImport c)
    pure bs

/-- The clause of an import. -/
def importClause (c : Context) : Parser (List ImportBinding) := do
  match ← peek with
  | .name .. =>
    let name ← identifier c
    let more ← if ← eatSymbol "," then importGroup c else pure []
    pure (.default name :: more)
  | _ => importGroup c

/-- The rest of an import declaration. -/
def importRest (c : Context) : Parser Statement := do
  let bindings ←
    match ← peek with
    | .string _ => pure none
    | _ =>
      let bs ← importClause c
      expectWord "from"
      pure (some bs)
  let source ← stringText
  let attributes ← importAttributes
  endStatement
  pure (.imports bindings source attributes)

/-- A name of an export clause. -/
def exportBinding : Parser ExportBinding := do
  let name ← moduleName
  if ← eatWord "as" then pure ⟨name, ← moduleName⟩ else pure ⟨name, name⟩

/-- A binding of the module itself can be exported by this name. -/
def isOwnBinding (c : Context) (b : ExportBinding) : Bool :=
  match b.binding with
  | .name text => c.allowsName text
  | .string _ => false

/-- The rest of `export *`. -/
def exportAllRest : Parser Statement := do
  let exported ← if ← eatWord "as" then pure (some (← moduleName)) else pure none
  expectWord "from"
  let source ← stringText
  let attributes ← importAttributes
  endStatement
  pure (.exportAll exported source attributes)

/-- The rest of an export of names. -/
def exportNamesRest (c : Context) : Parser Statement := do
  let (bs, _) ← bracketed "\x7b" "\x7d" exportBinding
  if ← eatWord "from" then
    let source ← stringText
    let attributes ← importAttributes
    endStatement
    pure (.exportNames bs (some source) attributes)
  else
    guard (bs.all (isOwnBinding c))
    endStatement
    pure (.exportNames bs none [])

/-- The rest of a default export. A function or class may lack a name here. -/
def exportDefaultRest (g : Rules) (c : Context) : Parser Statement := do
  if ← atFunction then
    return .exportDefault (.function (← functionRule g c true false))
  if (← atWord "class") || (← atSymbol "@") then
    let ds ← decorators g c
    return .exportDefault (.classOf (← classRule g c ds false))
  let e ← g.assignment c
  endStatement
  return .exportDefault (.expression e)

/-- An exported declaration. -/
def exportedDeclaration (g : Rules) (c : Context) : Parser Statement := do
  if ← atFunction then
    return .exportDeclaration (.function (← functionRule g c true true))
  if (← atWord "class") || (← atSymbol "@") then
    let ds ← decorators g c
    return .exportDeclaration (.classOf (← classRule g c ds true))
  match variableKind? (← peek) with
  | some kind => return .exportDeclaration (← variableStatement g c kind)
  | none => failure

/-- The rest of an export declaration. -/
def exportRest (g : Rules) (c : Context) : Parser Statement := do
  if ← eatSymbol "*" then return ← exportAllRest
  if ← atSymbol "\x7b" then return ← exportNamesRest c
  if ← eatWord "default" then return ← exportDefaultRest g c
  exportedDeclaration g c

/-! ## Any statement -/

/-- An expression as a statement, or a statement behind a label. -/
def expressionStatement (g : Rules) (c : Context) : Parser Statement := do
  let e ← g.expression { c with allowsIn := true }
  match e, ← atSymbol ":" with
  | .name label, true =>
    advance
    pure (.labeled label (← g.statement c.single))
  | _, _ =>
    endStatement
    pure (.expression e)

/-- The next tokens are `import` as an expression. -/
def atImportOperand : Parser Bool := do
  let (token, _) ← peekSecond
  pure (token == .symbol "(" || token == .symbol ".")

/-- A statement that starts with a word. -/
def wordStatement (g : Rules) (c : Context) (w : String) : Parser Statement := do
  if ← atFunction then
    return .function (← functionRule g c true true)
  if let some kind ← atVariables then return ← variableStatement g c kind
  match w with
  | "class" =>
    guard (!c.isSingle)
    pure (.classOf (← classRule g c [] true))
  | "if" => advance; branchRest g c
  | "for" => advance; forRest g c
  | "while" =>
    advance
    let test ← testInParens g c
    pure (.loopWhile test (← g.statement c.single))
  | "do" => advance; untilRest g c
  | "continue" =>
    advance
    let label ← jumpLabel c
    endStatement
    pure (.continueTo label)
  | "break" =>
    advance
    let label ← jumpLabel c
    endStatement
    pure (.breakTo label)
  | "return" => advance; returnRest g c
  | "throw" => advance; throwRest g c
  | "try" => advance; guardedRest g c
  | "switch" => advance; switchRest g c
  | "with" =>
    advance
    let object ← testInParens g c
    pure (.withObject object (← g.statement c.single))
  | "debugger" =>
    advance
    endStatement
    pure .debugger
  | "import" =>
    if ← atImportOperand then expressionStatement g c
    else
      guard c.isTopLevel
      advance
      importRest c
  | "export" =>
    guard c.isTopLevel
    advance
    exportRest g c
  | _ => expressionStatement g c

/-- Any statement or module item. -/
def statementRule (g : Rules) (c : Context) : Parser Statement := do
  let c := { c with allowsIn := true }
  match ← peek with
  | .name w false => wordStatement g c w
  | .symbol "\x7b" => pure (.block (← braced g c))
  | .symbol ";" => advance; pure .empty
  | .symbol "@" =>
    let ds ← decorators g c
    pure (.classOf (← classRule g c ds true))
  | _ => expressionStatement g c

end TemplateCompiler.Script.Grammar
