import TemplateCompiler.Script.Grammar.Reader

/-!
# Assignment targets

Object and array literals in front of an assignment turn out to be patterns. The conversion counts
the members `name = value` that it takes over, which make no sense anywhere else.
-/

namespace TemplateCompiler.Script

/-- A name or a member, which every assignment takes; parentheses do not matter. -/
def Expr.simpleTarget? : Expr → Option Expr
  | .name id => some (.name id)
  | .member base id optional => if optional then none else some (.member base id false)
  | .privateMember base id optional =>
    if optional then none else some (.privateMember base id false)
  | .index base key optional => if optional then none else some (.index base key false)
  | .paren inner => inner.simpleTarget?
  | _ => none

mutual

/-- The pattern that an expression stands for; inside of a pattern it may have a default value. -/
def Expr.pattern? (allowsDefault : Bool) : Expr → Option (Pattern × Nat)
  | .object properties => do
    let (ps, n) ← propertyPatterns? properties
    pure (.object ps, n)
  | .array elements => do
    let (ps, n) ← elementPatterns? elements
    pure (.array ps, n)
  | .assign op target value =>
    if allowsDefault && op == "=" then some (.withDefault target value, 0) else none
  | e => do
    let target ← e.simpleTarget?
    pure (.target target, 0)
termination_by structural e => e

/-- The patterns of the elements of an array. Only the last one may take the
rest, without a comma behind it. -/
def elementPatterns? : List Expr → Option (List Pattern × Nat)
  | [] => some ([], 0)
  | e :: rest => do
    let (p, n) ←
      match e with
      | .elision => some (.elision, 0)
      | .spread operand beforeComma => do
        guard (rest.isEmpty && !beforeComma)
        let (p, n) ← operand.pattern? false
        pure (.rest p, n)
      | e => e.pattern? true
    let (ps, m) ← elementPatterns? rest
    pure (p :: ps, n + m)
termination_by structural es => es

/-- The patterns of the members of an object. Only the last one may take the
rest, without a comma behind it. -/
def propertyPatterns? : List Property → Option (List PatternProperty × Nat)
  | [] => some ([], 0)
  | p :: rest => do
    let (q, n) ← p.pattern? rest.isEmpty
    let (qs, m) ← propertyPatterns? rest
    pure (q :: qs, n + m)
termination_by structural ps => ps

/-- The pattern of a member of an object. -/
def Property.pattern? (isLast : Bool) : Property → Option (PatternProperty × Nat)
  | .keyed key value _ => do
    let (p, n) ← value.pattern? true
    pure (.keyed key p, n)
  | .withDefault name value =>
    some (.keyed (.name name) (.withDefault (.target (.name name)) value), 1)
  | .spread operand beforeComma => do
    guard (isLast && !beforeComma)
    let target ← operand.simpleTarget?
    pure (.rest (.target target), 0)
  | .method .. => none
termination_by structural p => p

end

namespace Grammar

/-- Turns an expression into the target of an assignment. -/
def patternOf (e : Expr) : Parser Pattern := fun r => do
  let (p, n) ← e.pattern? false
  pure (p, { r with covers := r.covers - n })

/-- Turns an expression into the target of an operator such as `+=`. -/
def simpleTarget (e : Expr) : Parser Expr := fun r => do
  let target ← e.simpleTarget?
  pure (target, r)

end Grammar

end TemplateCompiler.Script
