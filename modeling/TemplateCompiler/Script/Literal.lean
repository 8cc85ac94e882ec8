import TemplateCompiler.Decimal.Numeral
import TemplateCompiler.Script.Parser

/-!
# Constants in script

Which expressions are constants, and the text that a constant renders. `null` and `undefined` render
nothing.
-/

namespace TemplateCompiler.Script

open TemplateCompiler.Decimal (Binary64)

/-- A constant value. -/
inductive Literal where
  | string (text : String)
  | number (value : Binary64)
  | boolean (value : Bool)
  | null
  | undefined
deriving DecidableEq, Repr

/-- The text that a constant renders. -/
def Literal.text : Literal → String
  | .string text => text
  | .number x => x.markup
  | .boolean true => "true"
  | .boolean false => "false"
  | .null | .undefined => ""

/-- The opposite of a number. -/
def Literal.negate? : Literal → Option Literal
  | .number x => some (.number x.neg)
  | _ => none

/-- The constant that an expression is: a literal, `undefined`, a template without substitutions, a
constant in parentheses or a number behind minus signs. -/
def Expr.literal? : Expr → Option Literal
  | .string s => some (.string (StringUnit.text s.units))
  | .number x => some (.number x)
  | .boolean b => some (.boolean b)
  | .null => some .null
  | .name id => if id == "undefined" then some .undefined else none
  | .template [chunk] [] => chunk.cooked.map fun units => .string (StringUnit.text units)
  | .paren inner => inner.literal?
  | .unary op operand => if op == "-" then operand.literal?.bind Literal.negate? else none
  | _ => none

/-- The constant that a text is. -/
def literal? (code : String) : Option Literal := do
  (← parseExpression code).literal?

/-- The text is a constant. -/
def isLiteral (code : String) : Bool := (literal? code).isSome

/-- The names that a text reserves at its top level; a text that is no module reserves none. -/
def reservedNames (code : String) : List String :=
  match parseModule code with
  | some m => m.items.flatMap (·.reservedNames)
  | none => []

/-- A constant is an expression. -/
theorem acceptsExpression_of_isLiteral {code : String} (h : isLiteral code = true) :
    acceptsExpression code = true := by
  simp only [isLiteral, literal?, acceptsExpression] at h ⊢
  cases hp : parseExpression code with
  | none => simp [hp] at h
  | some e => rfl

end TemplateCompiler.Script
