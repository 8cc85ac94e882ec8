import TemplateCompiler.Error
import TemplateCompiler.Metadata.Basic
import TemplateCompiler.Options
import TemplateCompiler.Registry.Basic
import TemplateCompiler.Render.Import
import TemplateCompiler.Render.Statement

/-!
# The state of lowering

What is known and what is built up while the nodes of a template are lowered. The state is kept when
an error occurs.
-/

namespace TemplateCompiler.Render

open Script (acceptsExpression)

/-- What is built up while a template is lowered. -/
structure State where
  names : Names
  metadata : Metadata
  imports : Imports
  /-- The key of the next component. -/
  nextKey : Nat
  /-- The functions of the macros. -/
  macroNames : List (String × String)
  /-- The code of the last component class. -/
  component : Option String

/-- A step of lowering: it changes the state, and may fail. -/
abbrev Lower := ExceptT Error (StateM State)

/-- The state to start with. -/
def State.start (names : Names) (metadata : Metadata) (imports : Imports) : State :=
  { names, metadata, imports, nextKey := 0, macroNames := [], component := none }

/-- What is known while a template is lowered. -/
structure Env where
  options : Options
  registry : TagRegistry
  /-- The file of the template. -/
  source : Path
  /-- The names of the macros of the file. -/
  macros : List String
  /-- How text is lowered. -/
  text : Marks → String → Lower (List LoweredOp)
  /-- The working directory, if it is known. -/
  working : Option Path

/-- The output is text. -/
def Env.isHtml (env : Env) : Bool := env.options.output.isHtml

/-- A new name for a hint. -/
def generateName (hint : String) : Lower String := do
  let s ← get
  let (name, names) := s.names.generate hint
  set { s with names }
  pure name

/-- The name of an export of a module, which is imported if it is not yet. -/
def importName (source : String) (binding : Binding) (hint : String) : Lower String := do
  let s ← get
  let (name, imports, names) := s.imports.request s.names source binding hint
  set { s with imports, names }
  pure name

/-- The next key. -/
def takeKey : Lower Nat := do
  let s ← get
  set { s with nextKey := s.nextKey + 1 }
  pure s.nextKey

/-- The function of a macro. -/
def macroFunction (name : String) : Lower String := do
  let s ← get
  match s.macroNames.lookup name with
  | some function => pure function
  | none =>
    let function ← generateName name
    modify fun s => { s with macroNames := s.macroNames ++ [(name, function)] }
    pure function

/-- Records a use of a tag. -/
def useTag (request : String) : Lower PUnit :=
  modify fun s => { s with metadata := s.metadata.addTag request }

/-- Records the class of the component. -/
def defineComponent (code : String) : Lower PUnit :=
  modify fun s => { s with component := some code }

/-- Fails at a place if a text is no expression. -/
def checkExpression (env : Env) (location : Location) (text : String) : Lower PUnit :=
  if acceptsExpression text then pure ⟨⟩
  else throw (.expression env.source.text text location)

end TemplateCompiler.Render
