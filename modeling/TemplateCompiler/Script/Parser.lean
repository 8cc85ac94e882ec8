import TemplateCompiler.Script.Grammar.Statement
import TemplateCompiler.Script.Names

/-!
# Parsing scripts

The parsers for expressions and modules. Both bound the depth of the grammar by the length of the
text: each rule reads a token before it comes to a rule one level below.
-/

namespace TemplateCompiler.Script

namespace Grammar

/-- The rules one level above others. -/
def Rules.above (g : Rules) : Rules where
  assignment := assignmentRule g
  binary := binaryRule g
  unary := unaryRule g
  construct := constructRule g
  callee := calleeRule g
  pattern := patternRule g
  statement := statementRule g

/-- The rules with a number of levels. -/
def Rules.ofDepth : Nat → Rules
  | 0 => .none
  | depth + 1 => (Rules.ofDepth depth).above

/-- The rules for a text. -/
def Rules.forText (cs : List Char) : Rules := .ofDepth (cs.length + 2)

/-- Reads the module items of a text to its end. -/
def moduleItems (g : Rules) : Parser (List Statement) := do
  repeatWhile (do pure ((← peek) != .finish)) (g.statement .module) (← remaining)

end Grammar

open Grammar

/-- A parsed module: the line that names its interpreter, if there is one, and its items. -/
structure Module where
  interpreter : Option String
  items : List Statement

/-- The longest expression at the start of a text. Only the next token behind it is looked at, and
has to be one. -/
def parseExpression (code : String) : Option Expr := do
  let cs := code.toList
  let r ← Reader.ofText cs
  let (e, r) ← (Rules.forText cs).expression .module r
  guard (r.covers == 0)
  pure e

/-- The text starts with an expression. -/
def acceptsExpression (code : String) : Bool := (parseExpression code).isSome

/-- Splits the line off that names the interpreter of a script. -/
def splitInterpreter : List Char → Option (List Char) × List Char
  | '#' :: '!' :: rest =>
    (some (rest.takeWhile (!isLineEnd ·)), rest.dropWhile (!isLineEnd ·))
  | cs => (none, cs)

/-- The module that a text is; no name may be exported twice. -/
def parseModule (code : String) : Option Module := do
  let (interpreter, cs) := splitInterpreter code.toList
  let r ← Reader.ofText cs
  let (items, r) ← moduleItems (Rules.forText cs) r
  guard (r.covers == 0)
  guard (isDistinct (items.flatMap (·.exportedNames)))
  pure ⟨interpreter.map String.ofList, markDirectives items⟩

end TemplateCompiler.Script
