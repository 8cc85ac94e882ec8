import TemplateCompiler.Proofs.Decimal.Arithmetic
import TemplateCompiler.Script.Parser

/-!
# Tests on numbers

The expressions that compare numbers and choose between two such tests, as a small language of their own:
which expressions belong to it (`Expr.test?`), and when such a test holds (`Test.holds`).
-/

namespace TemplateCompiler.Script

open TemplateCompiler.Decimal (Binary64 Number)

/-- A number in a test: a variable or a constant. -/
inductive Operand where
  | variable (name : String)
  | constant (value : Binary64)
deriving DecidableEq, Repr

inductive Comparison where
  | atMost
  | atLeast
  | above
deriving DecidableEq, Repr

/-- A test on numbers. -/
inductive Test where
  | compare (op : Comparison) (left right : Operand)
  | choose (test yes no : Test)
deriving DecidableEq, Repr

/-! ## Reading tests -/

def comparison? (op : String) : Option Comparison :=
  if op == "<=" then some .atMost
  else if op == ">=" then some .atLeast
  else if op == ">" then some .above
  else none

/-- The number that an expression stands for, if it is that simple. -/
def Expr.operand? : Expr → Option Operand
  | .name id => some (.variable id)
  | .number x => some (.constant x)
  | .paren inner => inner.operand?
  | _ => none

/-- The test that an expression is. -/
def Expr.test? : Expr → Option Test
  | .binary op left right => do
    pure (.compare (← comparison? op) (← left.operand?) (← right.operand?))
  | .conditional test yes no => do pure (.choose (← test.test?) (← yes.test?) (← no.test?))
  | .paren inner => inner.test?
  | _ => none

/-- The test that a text is. -/
def test? (code : String) : Option Test := (parseExpression code).bind Expr.test?

/-! ## Values of tests -/

/-- The number that an operand stands for, where `value` gives the numbers of variables. -/
def Operand.number (value : String → Number) : Operand → Number
  | .variable name => value name
  | .constant x => .double x

def Comparison.holds : Comparison → Number → Number → Bool
  | .atMost, x, y => x.atMost y
  | .atLeast, x, y => y.atMost x
  | .above, x, y => y.below x

/-- Whether a test holds. -/
def Test.holds (value : String → Number) : Test → Bool
  | .compare op left right => op.holds (left.number value) (right.number value)
  | .choose test yes no => if test.holds value then yes.holds value else no.holds value

/-- The text is a test that holds. -/
def testHolds (code : String) (value : String → Number) : Bool :=
  (test? code).any (·.holds value)

end TemplateCompiler.Script
