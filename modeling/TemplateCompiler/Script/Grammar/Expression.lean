import TemplateCompiler.Script.Grammar.Definition

/-!
# Expressions

The rules for expressions, from operands up to assignments.
-/

namespace TemplateCompiler.Script.Grammar

/-! ## Operands -/

/-- The rest of a template after its first stretch of text: expressions and further stretches in
turn. The brace that ends an expression opens the next stretch. -/
def templateRest (g : Rules) (c : Context) : Nat → Parser (List Chunk × List Expr)
  | 0 => failure
  | steps + 1 => do
    let e ← g.expression c.inBrackets
    guard (← atSymbol "\x7d")
    let r ← get
    let some (chunk, isLast, rest) := scanChunk r.rest | failure
    set { r with rest }
    advance
    if isLast then pure ([chunk], [e])
    else
      let (chunks, es) ← templateRest g c steps
      pure (chunk :: chunks, e :: es)

/-- A template. -/
def templateParts (g : Rules) (c : Context) : Parser (List Chunk × List Expr) := do
  match ← peek with
  | .template chunk true =>
    advance
    pure ([chunk], [])
  | .template chunk false =>
    advance
    let (chunks, es) ← templateRest g c (← remaining)
    pure (chunk :: chunks, es)
  | _ => failure

/-- A template on its own, where each escape has to denote something. -/
def templateLiteral (g : Rules) (c : Context) : Parser Expr := do
  let (chunks, es) ← templateParts g c
  guard (chunks.all (·.cooked.isSome))
  pure (.template chunks es)

/-- A regular expression, where the next token is the slash in front of it. -/
def regexLiteral : Parser Expr := do
  let r ← get
  let text ←
    match r.token with
    | .symbol "/" => pure r.rest
    | .symbol "/=" => pure ('=' :: r.rest)
    | _ => failure
  let some (pattern, flags, rest) := scanRegex text | failure
  set { r with rest }
  advance
  pure (.regex pattern flags)

/-- An element of an array or an argument list. -/
def spreadable (g : Rules) (c : Context) : Parser Expr := do
  if ← eatSymbol "..." then
    pure (.spread (← g.assignment c.inBrackets) false)
  else g.assignment c.inBrackets

/-- Arguments in parentheses. -/
def callArguments (g : Rules) (c : Context) : Parser (List Expr) := do
  let (es, _) ← bracketed "(" ")" (spreadable g c)
  pure es

/-- Elements with a comma behind the last one. -/
def withLastComma : List Expr → List Expr
  | [] => []
  | [.spread operand _] => [.spread operand true]
  | e :: rest => e :: withLastComma rest

/-- An array literal. -/
def arrayLiteral (g : Rules) (c : Context) : Parser Expr := do
  let element : Parser Expr := do
    if ← atSymbol "," then pure .elision else spreadable g c
  let (es, trailing) ← bracketed "[" "]" element
  pure (.array (if trailing then withLastComma es else es))

/-- A member of an object literal. -/
def objectProperty (g : Rules) (c : Context) : Parser Property := do
  if ← eatSymbol "..." then
    return .spread (← g.assignment c.inBrackets) false
  let m ← methodModifiers
  let token ← peek
  let key ← publicKey g c
  if ← atSymbol "(" then
    return .method m.kind key (← methodRest g m)
  guard (!m.isAsync && !m.isGenerator && m.kind == .plain)
  if ← eatSymbol ":" then
    return .keyed key (← g.assignment c.inBrackets) false
  match token with
  | .name text _ =>
    guard (c.allowsName text)
    if ← eatSymbol "=" then
      let value ← g.assignment c.inBrackets
      -- valid only as a pattern; it is counted until one is made of it
      modify fun r => { r with covers := r.covers + 1 }
      return .withDefault text value
    return .keyed key (.name text) true
  | _ => failure

/-- Members with a comma behind the last one. -/
def withLastMemberComma : List Property → List Property
  | [] => []
  | [.spread operand _] => [.spread operand true]
  | p :: rest => p :: withLastMemberComma rest

/-- An object literal. -/
def objectLiteral (g : Rules) (c : Context) : Parser Expr := do
  let (ps, trailing) ← bracketed "\x7b" "\x7d" (objectProperty g c)
  pure (.object (if trailing then withLastMemberComma ps else ps))

/-- An expression in parentheses. -/
def parenthesized (g : Rules) (c : Context) : Parser Expr := do
  let (es, trailing) ← bracketed "(" ")" (g.assignment c.inBrackets)
  guard (!trailing)
  match es with
  | [] => failure
  | [e] => pure (.paren e)
  | es => pure (.paren (.sequence es))

/-- `import.meta` or a call of `import`. -/
def importOperand (g : Rules) (c : Context) : Parser Expr := do
  expectWord "import"
  if ← eatSymbol "." then
    expectWord "meta"
    pure (.metaProperty "import" "meta")
  else
    let (es, _) ← bracketed "(" ")" (g.assignment c.inBrackets)
    guard (es.length == 1 || es.length == 2)
    pure (.importCall es)

/-- `super`, which a member access or a call follows. -/
def superOperand : Parser Expr := do
  expectWord "super"
  let follows ← peek
  guard (follows == .symbol "." || follows == .symbol "(" || follows == .symbol "[")
  pure .super

/-- A name as an operand. -/
def nameOperand (c : Context) : Parser Expr := do
  pure (.name (← identifier c))

/-- An operand that starts with a word. -/
def wordOperand (g : Rules) (c : Context) (w : String) : Parser Expr := do
  if ← atFunction then
    return .function (← functionRule g c false false)
  match w with
  | "this" => advance; pure .this
  | "null" => advance; pure .null
  | "true" => advance; pure (.boolean true)
  | "false" => advance; pure (.boolean false)
  | "class" => pure (.classOf (← classRule g c [] false))
  | "new" => advance; g.construct c
  | "super" => superOperand
  | "import" => importOperand g c
  | _ => nameOperand c

/-- An operand without what is applied to it. -/
def operand (g : Rules) (c : Context) : Parser Expr := do
  match ← peek with
  | .name w escaped => if escaped then nameOperand c else wordOperand g c w
  | .number x => advance; pure (.number x)
  | .bigInt value => advance; pure (.bigInt value)
  | .string s => advance; pure (.string s)
  | .template .. => templateLiteral g c
  | .symbol "(" => parenthesized g c
  | .symbol "[" => arrayLiteral g c
  | .symbol "\x7b" => objectLiteral g c
  | .symbol "@" =>
    let ds ← decorators g c
    pure (.classOf (← classRule g c ds false))
  | .symbol s => if s == "/" || s == "/=" then regexLiteral else failure
  | _ => failure

/-! ## Members and calls -/

/-- Which of the things that may be applied to an operand are taken. -/
structure Tail where
  calls : Bool
  optional : Bool

/-- A member behind a dot. -/
def dotMember (base : Expr) (optional : Bool) : Parser Expr := do
  match ← peek with
  | .name text _ => advance; pure (.member base text optional)
  | .privateName text => advance; pure (.privateMember base text optional)
  | _ => failure

/-- A key in brackets. -/
def indexMember (g : Rules) (c : Context) (base : Expr) (optional : Bool) : Parser Expr := do
  expectSymbol "["
  let key ← g.expression c.inBrackets
  expectSymbol "]"
  pure (.index base key optional)

/-- What follows a question mark with a dot. -/
def optionalMember (g : Rules) (c : Context) (base : Expr) : Parser Expr := do
  match ← peek with
  | .symbol "[" => if c.isDecorator then failure else indexMember g c base true
  | .symbol "(" => pure (.call base (← callArguments g c) true)
  | _ => dotMember base true

/-- Applies members, keys, templates and calls to an expression, as long as they follow, and tells
whether an optional one was among them. -/
def applied (g : Rules) (c : Context) (tail : Tail) : Nat → Expr → Bool → Parser (Expr × Bool)
  | 0, _, _ => failure
  | steps + 1, base, inChain => do
    match ← peek with
    | .symbol "." =>
      advance
      applied g c tail steps (← dotMember base false) inChain
    | .symbol "[" =>
      if c.isDecorator then pure (base, inChain)
      else applied g c tail steps (← indexMember g c base false) inChain
    | .symbol "?." =>
      guard tail.optional
      advance
      applied g c tail steps (← optionalMember g c base) true
    | .template .. =>
      -- a template cannot be tagged with an optional member
      guard (!inChain)
      let (chunks, es) ← templateParts g c
      applied g c tail steps (.tagged base chunks es) inChain
    | .symbol "(" =>
      if tail.calls then
        applied g c tail steps (.call base (← callArguments g c) false) inChain
      else pure (base, inChain)
    | _ => pure (base, inChain)

/-- An operand with what is applied to it. -/
def calleeRule (g : Rules) (c : Context) : Parser Expr := do
  let base ← operand g c
  let (e, inChain) ← applied g c ⟨true, true⟩ (← remaining) base false
  pure (if inChain then .chain e else e)

/-- The rest of a construction, after its `new`. -/
def constructRule (g : Rules) (c : Context) : Parser Expr := do
  if ← eatSymbol "." then
    expectWord "target"
    return .metaProperty "new" "target"
  guard (!(← atWord "import"))
  let base ← operand g c
  let (callee, _) ← applied g c ⟨false, false⟩ (← remaining) base false
  let arguments ← if ← atSymbol "(" then callArguments g c else pure []
  return .construct callee arguments

/-! ## Unary operators -/

/-- The operators in front of an operand. -/
def unarySymbols : List String := ["+", "-", "!", "~"]

/-- The words in front of an operand. -/
def unaryWords : List String := ["typeof", "void", "delete"]

/-- The unary operator at the next token. -/
def unaryOperator? : Token → Option String
  | .symbol s => if unarySymbols.contains s then some s else none
  | .name w false => if unaryWords.contains w then some w else none
  | _ => none

/-- `++` or `--` at the next token. -/
def updateOperator? : Token → Option String
  | .symbol s => if s == "++" || s == "--" then some s else none
  | _ => none

/-- An operand with updates in front of or behind it. -/
def updated (g : Rules) (c : Context) : Parser Expr := do
  if let some op := updateOperator? (← peek) then
    advance
    let e ← g.unary c
    return .update op true (← simpleTarget e)
  let e ← calleeRule g c
  if let some op := updateOperator? (← peek) then
    if !(← onNewLine) then
      advance
      return .update op false (← simpleTarget e)
  return e

/-- The next token is `await` as an operator. Elsewhere the word is a name, unless an operand
follows it. -/
def atAwait (c : Context) : Parser Bool := do
  if ← atWord "await" then
    if c.allowsAwait then pure true
    else
      guard (!(← beforeOperand))
      pure false
  else pure false

/-- An operand with unary operators. A power may not have one on its left. -/
def unaryRule (g : Rules) (c : Context) : Parser Expr := do
  if let some op := unaryOperator? (← peek) then
    advance
    let e ← g.unary c
    guard (!(← atSymbol "**"))
    return .unary op e
  if ← atAwait c then
    advance
    let e ← g.unary c
    guard (!(← atSymbol "**"))
    return .await e
  updated g c

/-! ## Binary operators -/

/-- How tightly a binary operator binds. -/
def precedence? (op : String) : Option Nat :=
  if op == "??" then some 1
  else if op == "||" then some 2
  else if op == "&&" then some 3
  else if op == "|" then some 4
  else if op == "^" then some 5
  else if op == "&" then some 6
  else if ["==", "!=", "===", "!=="].contains op then some 7
  else if ["<", ">", "<=", ">=", "instanceof", "in"].contains op then some 8
  else if ["<<", ">>", ">>>"].contains op then some 9
  else if op == "+" || op == "-" then some 10
  else if op == "*" || op == "/" || op == "%" then some 11
  else if op == "**" then some 12
  else none

/-- The binary operator at the next token. -/
def binaryOperator? (c : Context) : Token → Option (String × Nat)
  | .symbol s => (precedence? s).map (s, ·)
  | .name w false =>
    if w == "instanceof" || (w == "in" && c.allowsIn) then (precedence? w).map (w, ·) else none
  | _ => none

/-- A power takes the operator to its right first, all other operators the one to their left. -/
def bindsAbove (op : String) (level min : Nat) : Bool :=
  if op == "**" then min ≤ level else min < level

/-- An unparenthesized conjunction or disjunction, which `??` does not take as an operand. -/
def Expr.isAndOr : Expr → Bool
  | .binary op _ _ => op == "&&" || op == "||"
  | _ => false

/-- `??` mixes with `&&` and `||` only by way of parentheses. -/
def mixes (op : String) (left right : Expr) : Bool :=
  op == "??" && (Expr.isAndOr left || Expr.isAndOr right)

/-- Applies binary operators above a level to an expression, as long as they follow. -/
def binaryRest (g : Rules) (c : Context) (min : Nat) : Nat → Expr → Parser Expr
  | 0, _ => failure
  | steps + 1, left => do
    match binaryOperator? c (← peek) with
    | none => pure left
    | some (op, level) =>
      if bindsAbove op level min then
        advance
        -- all operators that bind more tightly belong to the right operand
        let right ← g.binary c level
        guard (!mixes op left right)
        binaryRest g c min steps (.binary op left right)
      else pure left

/-- Operands with binary operators above a level. -/
def binaryRule (g : Rules) (c : Context) (min : Nat) : Parser Expr := do
  match ← peek with
  | .privateName name =>
    guard c.allowsIn
    advance
    expectWord "in"
    let right ← g.binary c 8
    binaryRest g c min (← remaining) (.privateIn name right)
  | _ =>
    let left ← unaryRule g c
    binaryRest g c min (← remaining) left

/-! ## Arrow functions -/

/-- Whether what comes next is an arrow function with parameters in parentheses. -/
inductive ArrowGuess where
  | no
  | maybe
  | yes
deriving DecidableEq

/-- A word that may name a parameter. -/
def isNameToken : Token → Bool
  | .name text _ => !reservedWords.contains text
  | _ => false

/-- Judges by the tokens after the opening parenthesis. -/
def guessAfterParen : Parser ArrowGuess := do
  let second ← peek
  match second with
  | .symbol ")" =>
    advance
    let third ← peek
    pure (if third == .symbol "=>" || third == .symbol "\x7b" then .yes else .no)
  | .symbol "[" => pure .maybe
  | .symbol "\x7b" => pure .maybe
  | .symbol "..." => pure .maybe
  | _ =>
    -- a name may be a parameter or an operand, which its follower decides
    if isNameToken second then
      advance
      match ← peek with
      | .symbol s => pure (if s == "," || s == "=" || s == ")" then .maybe else .no)
      | _ => pure .no
    else pure .no

/-- Judges by the tokens from the next one on. -/
def guessArrow : Parser ArrowGuess := do
  if ← atWord "async" then
    advance
    if (← onNewLine) || !(← atSymbol "(") then return .no
  if ← eatSymbol "(" then guessAfterParen else return .no

/-- What a parser answers, without moving on; a parser that fails answers the default. -/
def lookAhead {α : Type} (p : Parser α) (fallback : α) : Parser α := fun r =>
  match p r with
  | some (x, _) => some (x, r)
  | none => some (fallback, r)

/-- The arrow, on the line of what stands before it. -/
def expectArrow : Parser Unit := do
  guard (!(← onNewLine))
  expectSymbol "=>"

/-- The parameters of an arrow function in parentheses. -/
def arrowParameters (g : Rules) (c : Context) : Parser (Bool × List Pattern) := do
  let isAsync ← eatWord "async"
  let ps ← parameters g { c with allowsAwait := c.allowsAwait || isAsync, allowsIn := true }
  pure (isAsync, ps)

/-- The body of an arrow function: statements in braces, or an expression. -/
def arrowBody (g : Rules) (c : Context) (isAsync : Bool) (ps : List Pattern) : Parser Expr := do
  if ← atSymbol "\x7b" then
    pure (.arrow isAsync ps (← functionBody g isAsync false))
  else
    let e ← g.assignment { c with allowsAwait := isAsync, allowsYield := false, isTopLevel := false }
    pure (.arrowTo isAsync ps e)

/-- An arrow function with one parameter that is a name. -/
def simpleArrow (g : Rules) (c : Context) (isAsync : Bool) (name : String) : Parser Expr := do
  expectArrow
  arrowBody g c isAsync [.target (.name name)]

/-- The next tokens are `async`, a name and an arrow. -/
def atAsyncArrow : Parser Bool := do
  if ← atWord "async" then
    advance
    if (← onNewLine) || !isNameToken (← peek) then return false
    advance
    atSymbol "=>"
  else return false

/-! ## Assignments -/

/-- The operators that assign after an operation. -/
def assignmentOperators : List String := [
  "+=", "-=", "*=", "/=", "%=", "**=", "<<=", ">>=", ">>>=", "&=", "|=", "^=", "&&=", "||=", "??="]

/-- The next token is `yield` as an operator. Elsewhere the word is a name, unless an operand follows
it. -/
def atYield (c : Context) : Parser Bool := do
  if ← atWord "yield" then
    if c.allowsYield then pure true
    else
      guard (!(← beforeOperand))
      pure false
  else pure false

/-- The tokens that cannot start what `yield` yields. -/
def endsYield : Token → Bool
  | .finish => true
  | .symbol s => [";", "\x7d", ")", "]", ":", ","].contains s
  | .name w false => w == "in"
  | _ => false

/-- `yield`, with or without a value. -/
def yieldRule (g : Rules) (c : Context) : Parser Expr := do
  advance
  if ← onNewLine then return .yield false none
  let delegate ← eatSymbol "*"
  if endsYield (← peek) && !delegate then return .yield false none
  return .yield delegate (some (← g.assignment c))

/-- The choice between two expressions, if a question mark follows the test. -/
def conditionalRest (g : Rules) (c : Context) (test : Expr) : Parser Expr := do
  if ← eatSymbol "?" then
    let yes ← g.assignment { c with allowsIn := true }
    expectSymbol ":"
    let no ← g.assignment c
    pure (.conditional test yes no)
  else pure test

/-- An assignment, a choice, or an expression that binds more tightly. -/
def assignedOrChosen (g : Rules) (c : Context) : Parser Expr := do
  let left ← binaryRule g c 0
  match left, ← peek with
  | .name id, .symbol "=>" => simpleArrow g c false id
  | _, .symbol "=" =>
    let target ← patternOf left
    advance
    pure (.assign "=" target (← g.assignment c))
  | _, .symbol op =>
    if assignmentOperators.contains op then
      let target ← simpleTarget left
      advance
      pure (.assign op (.target target) (← g.assignment c))
    else conditionalRest g c left
  | _, _ => conditionalRest g c left

/-- An arrow function with parameters in parentheses. -/
def arrowRule (g : Rules) (c : Context) : Parser Expr := do
  let (isAsync, ps) ← arrowParameters g c
  expectArrow
  arrowBody g c isAsync ps

/-- Parameters in parentheses and an arrow come next, wherever the lines end. -/
def atArrowAfterParameters (g : Rules) (c : Context) : Parser Bool := do
  let _ ← arrowParameters g c
  atSymbol "=>"

/-- Any expression without a comma. -/
def assignmentRule (g : Rules) (c : Context) : Parser Expr := do
  if ← atYield c then return ← yieldRule g c
  match ← lookAhead guessArrow .no with
  | .yes => arrowRule g c
  | .maybe =>
    if ← lookAhead (atArrowAfterParameters g c) false then arrowRule g c
    else assignedOrChosen g c
  | .no =>
    if ← lookAhead atAsyncArrow false then
      advance
      let name ← identifier { c with allowsAwait := true }
      simpleArrow g c true name
    else assignedOrChosen g c

end TemplateCompiler.Script.Grammar
