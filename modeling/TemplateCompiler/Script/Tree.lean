import TemplateCompiler.Decimal.Binary64

/-!
# Script trees

The syntax trees of JavaScript modules: expressions, patterns, statements and the pieces they share.
Parentheses are kept as nodes, because some rules ask whether an operand stood in parentheses.
-/

namespace TemplateCompiler.Script

open TemplateCompiler.Decimal (Binary64)

/-- A unit of string text: a character, or half of a surrogate pair on its own. -/
inductive StringUnit where
  | char (c : Char)
  | lone (code : Nat)
deriving DecidableEq, Repr

/-- A string literal: the text between its quotes as written, and what it denotes. -/
structure Quoted where
  raw : String
  units : List StringUnit
deriving DecidableEq, Repr

/-- A stretch of template text between substitutions: as written, and what it denotes, if its
escapes denote anything. -/
structure Chunk where
  raw : String
  cooked : Option (List StringUnit)
deriving DecidableEq, Repr

/-- What a method definition defines. -/
inductive MethodKind where
  | plain
  | getter
  | setter
deriving DecidableEq, Repr

/-- The declaring keyword of variables. -/
inductive VariableKind where
  | var
  | let
  | const
deriving DecidableEq, Repr

/-- A name in an import or export clause, which may be written as a string. -/
inductive ModuleName where
  | name (text : String)
  | string (text : Quoted)
deriving DecidableEq, Repr

/-- A binding of an import clause. -/
inductive ImportBinding where
  | default (binding : String)
  | all (binding : String)
  | named (imported : ModuleName) (binding : String)
deriving DecidableEq, Repr

/-- A name of an export clause, with the name it is exported under. -/
structure ExportBinding where
  binding : ModuleName
  exported : ModuleName
deriving DecidableEq, Repr

/-- An attribute of an imported module: `type: "json"`. -/
structure ImportAttribute where
  key : ModuleName
  value : Quoted
deriving DecidableEq, Repr

mutual

/-- Expressions. Elisions and spread elements only occur in arrays and argument lists. Of a spread
element or member it is known whether it is the last one and a comma stands behind it. -/
inductive Expr where
  | name (id : String)
  | this
  | super
  | null
  | boolean (value : Bool)
  | number (value : Binary64)
  | bigInt (value : Nat)
  | string (text : Quoted)
  | regex (pattern flags : String)
  | template (chunks : List Chunk) (substitutions : List Expr)
  | tagged (tag : Expr) (chunks : List Chunk) (substitutions : List Expr)
  | array (elements : List Expr)
  | elision
  | spread (operand : Expr) (beforeComma : Bool)
  | object (properties : List Property)
  | function (definition : Function)
  | arrow (isAsync : Bool) (params : List Pattern) (body : List Statement)
  | arrowTo (isAsync : Bool) (params : List Pattern) (result : Expr)
  | classOf (definition : Class)
  | unary (op : String) (operand : Expr)
  | update (op : String) (before : Bool) (operand : Expr)
  | binary (op : String) (left right : Expr)
  | privateIn (name : String) (right : Expr)
  | conditional (test yes no : Expr)
  | assign (op : String) (target : Pattern) (value : Expr)
  | sequence (parts : List Expr)
  | member (object : Expr) (name : String) (optional : Bool)
  | privateMember (object : Expr) (name : String) (optional : Bool)
  | index (object key : Expr) (optional : Bool)
  | call (callee : Expr) (arguments : List Expr) (optional : Bool)
  | construct (callee : Expr) (arguments : List Expr)
  | importCall (arguments : List Expr)
  | metaProperty (object name : String)
  | chain (inner : Expr)
  | paren (inner : Expr)
  | yield (delegate : Bool) (operand : Option Expr)
  | await (operand : Expr)

/-- The names of object and class members. -/
inductive Key where
  | name (text : String)
  | string (text : Quoted)
  | number (value : Binary64)
  | bigInt (value : Nat)
  | computed (e : Expr)
  | privateName (text : String)

/-- Members of object literals. The form `name = value` only makes sense in a pattern. -/
inductive Property where
  | keyed (key : Key) (value : Expr) (shorthand : Bool)
  | method (kind : MethodKind) (key : Key) (definition : Function)
  | withDefault (name : String) (value : Expr)
  | spread (operand : Expr) (beforeComma : Bool)

/-- Patterns to bind names or to assign to. A `target` is a name or a member. -/
inductive Pattern where
  | target (e : Expr)
  | object (properties : List PatternProperty)
  | array (elements : List Pattern)
  | elision
  | rest (inner : Pattern)
  | withDefault (inner : Pattern) (value : Expr)

/-- Members of object patterns. -/
inductive PatternProperty where
  | keyed (key : Key) (value : Pattern)
  | rest (inner : Pattern)

/-- Functions, also as methods. -/
inductive Function where
  | mk (isAsync isGenerator : Bool) (name : Option String) (params : List Pattern)
      (body : List Statement)

/-- Classes. -/
inductive Class where
  | mk (decorators : List Expr) (name : Option String) (parent : Option Expr)
      (members : List Member)

/-- Members of classes. -/
inductive Member where
  | method (decorators : List Expr) (isStatic : Bool) (kind : MethodKind) (key : Key)
      (definition : Function)
  | field (decorators : List Expr) (isStatic isAccessor : Bool) (key : Key) (value : Option Expr)
  | block (body : List Statement)

/-- A declared variable. -/
inductive Declarator where
  | mk (pattern : Pattern) (value : Option Expr)

/-- A case of a switch; the default case has no test. -/
inductive Case where
  | mk (test : Option Expr) (body : List Statement)

/-- What a loop over values assigns to. -/
inductive LoopTarget where
  | declared (kind : VariableKind) (pattern : Pattern)
  | assigned (pattern : Pattern)

/-- Statements and module items. -/
inductive Statement where
  | directive (raw : String)
  | empty
  | expression (e : Expr)
  | block (body : List Statement)
  | variables (kind : VariableKind) (declarators : List Declarator)
  | function (definition : Function)
  | classOf (definition : Class)
  | branch (test : Expr) (yes : Statement) (no : Option Statement)
  | loop (first : Option Statement) (test update : Option Expr) (body : Statement)
  | loopIn (target : LoopTarget) (object : Expr) (body : Statement)
  | loopOf (isAwait : Bool) (target : LoopTarget) (values : Expr) (body : Statement)
  | loopWhile (test : Expr) (body : Statement)
  | loopUntil (body : Statement) (test : Expr)
  | continueTo (label : Option String)
  | breakTo (label : Option String)
  | returnValue (value : Option Expr)
  | throwValue (value : Expr)
  | guarded (body : List Statement) (param : Option Pattern) (handler : Option (List Statement))
      (final : Option (List Statement))
  | switch (value : Expr) (cases : List Case)
  | labeled (label : String) (body : Statement)
  | withObject (object : Expr) (body : Statement)
  | debugger
  | imports (bindings : Option (List ImportBinding)) (source : Quoted)
      (attributes : List ImportAttribute)
  | exportDeclaration (declaration : Statement)
  | exportDefault (declaration : Statement)
  | exportNames (bindings : List ExportBinding) (source : Option Quoted)
      (attributes : List ImportAttribute)
  | exportAll (exported : Option ModuleName) (source : Quoted) (attributes : List ImportAttribute)

end

/-- An expression without the parentheses around it. -/
def Expr.bare : Expr → Expr
  | .paren e => e.bare
  | e => e

end TemplateCompiler.Script
