import TemplateCompiler.Json.Value
import TemplateCompiler.Render.Op
import TemplateCompiler.Script.Literal
import TemplateCompiler.Template.Node

/-!
# Statements of a render function

The statements and blocks that templates are lowered to, and their texts. A statement holds the
authored texts that it is made of, so that they can still be told apart.
-/

namespace TemplateCompiler.Render

open TemplateCompiler.Json (quote)

/-! ## Objects -/

/-- A key of an object: bare if it is a plain identifier, else quoted. -/
def objectKey (key : String) : String :=
  if Text.isPlainIdentifier key then key else quote key

/-- The object with a property for each attribute. -/
def objectText (attributes : List Attribute) : String :=
  if attributes.isEmpty then "\x7b\x7d"
  else
    "\x7b " ++ String.intercalate ", " (attributes.map fun a => objectKey a.name ++ ": " ++ a.value) ++
      " \x7d"

/-- A property of an object. -/
def memberText (object property : String) : String :=
  if Text.isPlainIdentifier property then object ++ "." ++ property
  else object ++ "[" ++ quote property ++ "]"

/-- The values of a slot: the value itself if there is one, else an array. -/
def slotText : List String → String
  | [value] => value
  | values => "[" ++ String.intercalate ", " values ++ "]"

/-! ## Statements -/

/-- A statement of a render function. -/
inductive Statement where
  /-- Code that was authored as it is. -/
  | authored (code : String)
  /-- Writes the value of an expression with the help of a function. -/
  | writeValue (helper expression : String)
  /-- Writes an attribute with the help of a function. -/
  | writeAttribute (helper name value : String)
  /-- Adds constant text to the tree. -/
  | addText (text : String)
  /-- Adds the value of an expression to the tree, as text. -/
  | addValue (expression : String)
  /-- Adds the value of an expression to the tree, as markup. -/
  | addMarkup (expression : String)
  | addComment (text : String)
  | beginElement (name : String) (attributes : List Attribute) (key : Nat)
  | endElement
  /-- Declares the input of a tag. -/
  | declareInput (name : String) (attributes : List Attribute)
  /-- Puts the inputs of the tags in a slot into the input of the tag around them. -/
  | assignSlot (object slot : String) (values : List String)
  | callMacro (function input : String)
  | renderTag (helper template input : String) (key : Nat)
  | renderDynamicTag (helper target input : String) (key : Nat)
deriving DecidableEq, Repr

/-- A key as it is written. -/
def keyText (key : Nat) : String := quote (toString key)

/-- The text of a statement, where `definition` is the parameter with the definition of the
component. -/
def Statement.text (definition : String) : Statement → String
  | .authored code => code
  | .writeValue helper expression => "out.w(" ++ helper ++ "(" ++ expression ++ "));"
  | .writeAttribute helper name value =>
    "out.w(" ++ helper ++ "(" ++ quote name ++ ", " ++ value ++ "));"
  | .addText text => "out.t(" ++ quote text ++ ", " ++ definition ++ ");"
  | .addValue expression => "out.t(" ++ expression ++ ", " ++ definition ++ ");"
  | .addMarkup expression => "out.h(" ++ expression ++ ", " ++ definition ++ ");"
  | .addComment text => "out.comment(" ++ quote text ++ ", " ++ definition ++ ");"
  | .beginElement name attributes key =>
    "out.be(" ++ quote name ++ ", " ++
      (if attributes.isEmpty then "null" else objectText attributes) ++ ", " ++ keyText key ++ ", " ++
      definition ++ ");"
  | .endElement => "out.ee();"
  | .declareInput name attributes => "const " ++ name ++ " = " ++ objectText attributes ++ ";"
  | .assignSlot object slot values => memberText object slot ++ " = " ++ slotText values ++ ";"
  | .callMacro function input => function ++ "(out, " ++ input ++ ");"
  | .renderTag helper template input key =>
    helper ++ "(" ++ template ++ ", " ++ input ++ ", out, " ++ definition ++ ", " ++ keyText key ++
      ");"
  | .renderDynamicTag helper target input key =>
    helper ++ "(out, " ++ target ++ ", () => " ++ input ++ ", " ++ definition ++ ", " ++
      keyText key ++ ");"

/-! ## Blocks -/

/-- How the test of a range depends on its step: the bound is met from below, from above, or as the
sign of the step says. -/
inductive Bound where
  | atMost
  | atLeast
  | bySign
deriving DecidableEq, Repr

/-- The test that a step asks for. Only constant steps have a known sign. -/
def Bound.ofStep (step : String) : Bound :=
  match Script.literal? step with
  | some (.number n) => if n.isBelowZero then .atLeast else .atMost
  | _ => .bySign

/-- The text of a test. -/
def Bound.text (counter bound step : String) : Bound → String
  | .atMost => counter ++ " <= " ++ bound
  | .atLeast => counter ++ " >= " ++ bound
  | .bySign =>
    "(" ++ step ++ ") > 0 ? " ++ counter ++ " <= " ++ bound ++ " : " ++ counter ++ " >= " ++ bound

/-- A block of a render function. -/
inductive Scope where
  /-- The content of a tag, as a function in its input. -/
  | renderBody (object : String) (params : List String)
  | ifTrue (condition : String)
  | elseIfTrue (condition : String)
  | otherwise
  /-- The elements of a list. -/
  | each (item list : String)
  /-- The elements of a list with their positions. -/
  | eachIndexed (index item list : String)
  /-- The properties of an object. -/
  | eachProperty (key value object : String)
  /-- The numbers of a range. -/
  | range (counter start bound step : String)
  /-- The function of a macro. -/
  | function (name : String) (params : List String)
deriving DecidableEq, Repr

/-- The parameters of a function that renders content. -/
def paramsText (params : List String) : String := String.intercalate ", " ("out" :: params)

/-- The text in front of the body of a block. -/
def Scope.opening : Scope → String
  | .renderBody object params =>
    memberText object "renderBody" ++ " = (" ++ paramsText params ++ ") => \x7b"
  | .ifTrue condition => "if (" ++ condition ++ ") \x7b"
  | .elseIfTrue condition => "else if (" ++ condition ++ ") \x7b"
  | .otherwise => "else \x7b"
  | .each item list => "for (const " ++ item ++ " of " ++ list ++ ") \x7b"
  | .eachIndexed index item list =>
    "for (const [" ++ index ++ ", " ++ item ++ "] of Array.from(" ++ list ++ ").entries()) \x7b"
  | .eachProperty key value object =>
    "for (const [" ++ key ++ ", " ++ value ++ "] of Object.entries(" ++ object ++ ")) \x7b"
  | .range counter start bound step =>
    "for (let " ++ counter ++ " = " ++ start ++ "; " ++
      (Bound.ofStep step).text counter bound step ++ "; " ++ counter ++ " += " ++ step ++ ") \x7b"
  | .function name params => "function " ++ name ++ "(" ++ paramsText params ++ ") \x7b"

/-- The text behind the body of a block. -/
def Scope.closing : Scope → String
  | .renderBody _ _ => "\x7d;"
  | _ => "\x7d"

/-- The texts around the body of a block. -/
def Scope.frame (s : Scope) : Frame := ⟨s.opening, s.closing⟩

/-! ## Operations -/

/-- An operation that a template is lowered to. -/
abbrev LoweredOp := Op Statement Scope

/-- Operations as text. -/
def textOps (definition : String) (ops : List LoweredOp) : List TextOp :=
  Op.mapAll (Statement.text definition) Scope.frame ops

end TemplateCompiler.Render
