import TemplateCompiler.Script.Token

/-!
# Reading tokens

The state of a reader of script text and its steps. A reader holds one token and the text behind it,
so that the grammar can look one token ahead and can scan a slash or a closing brace again as part
of a regular expression or a template.
-/

namespace TemplateCompiler.Script.Grammar

/-- A reader: the next token, whether a line ends before it, and the text after it. `covers` counts
the members `name = value` that were read in object literals and still wait to become part of a
pattern. -/
structure Reader where
  token : Token
  newline : Bool
  rest : List Char
  covers : Nat

/-- A parser moves a reader on or fails. -/
abbrev Parser (α : Type) := StateT Reader Option α

/-- The token at the start of the text, and what is behind it. -/
def nextToken (cs : List Char) : Option (Token × Bool × List Char) := do
  let (newline, cs) ← skipGap .open false cs
  let (token, rest) ← scanToken cs
  pure (token, newline, rest)

/-- A reader at the start of a text. -/
def Reader.ofText (cs : List Char) : Option Reader := do
  let (token, newline, rest) ← nextToken cs
  pure ⟨token, newline, rest, 0⟩

/-- Moves on by one token; fails if the text goes on with none. -/
def advance : Parser Unit := fun r => do
  let (token, newline, rest) ← nextToken r.rest
  pure ((), { r with token, newline, rest })

/-- The token to be read next. -/
def peek : Parser Token := do pure (← get).token

/-- A line ends before the next token. -/
def onNewLine : Parser Bool := do pure (← get).newline

/-- The token after the next one, with its line break. A text that goes on with no token counts as
finished; reading on will fail there. -/
def peekSecond : Parser (Token × Bool) := do
  match nextToken (← get).rest with
  | some (token, newline, _) => pure (token, newline)
  | none => pure (.finish, false)

/-- The next token is a given symbol. -/
def atSymbol (s : String) : Parser Bool := do
  match ← peek with
  | .symbol t => pure (t == s)
  | _ => pure false

/-- The next token is a given word, spelled without escapes. -/
def atWord (w : String) : Parser Bool := do
  match ← peek with
  | .name t escaped => pure (t == w && !escaped)
  | _ => pure false

/-- Reads a symbol if it comes next. -/
def eatSymbol (s : String) : Parser Bool := do
  if ← atSymbol s then advance; pure true else pure false

/-- Reads a word if it comes next. -/
def eatWord (w : String) : Parser Bool := do
  if ← atWord w then advance; pure true else pure false

/-- Reads a symbol that has to come next. -/
def expectSymbol (s : String) : Parser Unit := do
  guard (← atSymbol s)
  advance

/-- Reads a word that has to come next. -/
def expectWord (w : String) : Parser Unit := do
  guard (← atWord w)
  advance

/-- A bound on the number of tokens that are left. -/
def remaining : Parser Nat := do pure ((← get).rest.length + 2)

/-- Repeats a parser as long as a test holds. The number bounds the repetitions. -/
def repeatWhile {α : Type} (test : Parser Bool) (item : Parser α) : Nat → Parser (List α)
  | 0 => failure
  | steps + 1 => do
    if ← test then
      let x ← item
      let xs ← repeatWhile test item steps
      pure (x :: xs)
    else pure []

/-- Repeats a parser up to a closing symbol, which is left unread. -/
def repeatUntil {α : Type} (close : String) (item : Parser α) : Parser (List α) := do
  repeatWhile (do pure (!(← atSymbol close))) item (← remaining)

/-- Items between commas up to a closing symbol, which is left unread, and whether a comma stands
behind the last one. -/
def commaItems {α : Type} (close : String) (item : Parser α) : Nat → Parser (List α × Bool)
  | 0 => failure
  | steps + 1 => do
    if ← atSymbol close then return ([], false)
    let x ← item
    if ← eatSymbol "," then
      if ← atSymbol close then return ([x], true)
      let (xs, trailing) ← commaItems close item steps
      return (x :: xs, trailing)
    guard (← atSymbol close)
    return ([x], false)

/-- A list in brackets, both of which are read. -/
def bracketed {α : Type} (opening close : String) (item : Parser α) : Parser (List α × Bool) := do
  expectSymbol opening
  let result ← commaItems close item (← remaining)
  expectSymbol close
  pure result

/-- One or more items with commas between them. -/
def commaChain {α : Type} (item : Parser α) : Parser (List α) := do
  let first ← item
  let rest ← repeatWhile (eatSymbol ",") item (← remaining)
  pure (first :: rest)

/-! ## Words -/

/-- The words that never name anything. -/
def reservedWords : List String := [
  "break", "case", "catch", "class", "const", "continue", "debugger", "default", "delete", "do",
  "else", "enum", "export", "extends", "false", "finally", "for", "function", "if", "import", "in",
  "instanceof", "new", "null", "return", "super", "switch", "this", "throw", "true", "try",
  "typeof", "var", "void", "while", "with"]

/-- What the place of an expression or statement allows. -/
structure Context where
  /-- The operator `in` may stand outside of brackets. -/
  allowsIn : Bool
  /-- `yield` is an operator. -/
  allowsYield : Bool
  /-- `await` is an operator. -/
  allowsAwait : Bool
  /-- `return` may occur. -/
  allowsReturn : Bool
  /-- The place is the body of a module itself. -/
  isTopLevel : Bool
  /-- The place takes one statement, and thus no declaration. -/
  isSingle : Bool
  /-- The expression is a decorator, where brackets do not index. -/
  isDecorator : Bool

/-- The context at the top level of a module. -/
def Context.module : Context := ⟨true, false, true, false, true, false, false⟩

/-- The context inside of brackets. -/
def Context.inBrackets (c : Context) : Context := { c with allowsIn := true, isDecorator := false }

/-- The context of a function body. -/
def Context.inFunction (isAsync isGenerator : Bool) : Context :=
  ⟨true, isGenerator, isAsync, true, false, false, false⟩

/-- The context of statements inside another statement. -/
def Context.nested (c : Context) : Context := { c with isTopLevel := false, isSingle := false }

/-- The context of the one statement that another governs. -/
def Context.single (c : Context) : Context := { c with isTopLevel := false, isSingle := true }

/-- A word that may name a variable in the context. -/
def Context.allowsName (c : Context) (word : String) : Bool :=
  !reservedWords.contains word && !(c.allowsAwait && word == "await") &&
    !(c.allowsYield && word == "yield")

/-- The name of a variable. -/
def identifier (c : Context) : Parser String := do
  match ← peek with
  | .name text _ =>
    guard (c.allowsName text)
    advance
    pure text
  | _ => failure

/-- Any word as a name. -/
def word : Parser String := do
  match ← peek with
  | .name text _ => advance; pure text
  | _ => failure

/-- A token that may follow `await` or `yield` as the start of their operand. -/
def startsOperand : Token → Bool
  | .name .. | .number _ | .bigInt _ | .string _ | .template .. => true
  | _ => false

/-- The next token is a word and the token after it starts an operand on the same line. -/
def beforeOperand : Parser Bool := do
  let (token, newline) ← peekSecond
  pure (startsOperand token && !newline)

/-! ## Rules -/

/-- The rules of the grammar that refer to each other. Each rule of a `Rules` may use the rules of
the one below it, after having read a token, so that the length of a text bounds the depth. -/
structure Rules where
  assignment : Context → Parser Expr
  binary : Context → Nat → Parser Expr
  unary : Context → Parser Expr
  construct : Context → Parser Expr
  callee : Context → Parser Expr
  pattern : Context → Parser Pattern
  statement : Context → Parser Statement

/-- The rules that read nothing. -/
def Rules.none : Rules where
  assignment _ := failure
  binary _ _ := failure
  unary _ := failure
  construct _ := failure
  callee _ := failure
  pattern _ := failure
  statement _ := failure

/-- Expressions with commas between them. -/
def Rules.expression (g : Rules) (c : Context) : Parser Expr := do
  let first ← g.assignment c
  if ← atSymbol "," then
    let rest ← repeatWhile (eatSymbol ",") (g.assignment c) (← remaining)
    pure (.sequence (first :: rest))
  else pure first

/-- Ends a statement: by a semicolon, or without one before a closing brace, at a line end and at the
end of the text. -/
def endStatement : Parser Unit := do
  if ← eatSymbol ";" then return
  if ← atSymbol "\x7d" then return
  if ← onNewLine then return
  guard ((← peek) == .finish)

end TemplateCompiler.Script.Grammar
