import TemplateCompiler.Json.Value
import TemplateCompiler.Names
import TemplateCompiler.Text.Distinct

/-!
# Hoisted imports

The imports that generated code needs. Each export of a module is imported once, under a generated
name, and all imports of a module are written as one declaration.
-/

namespace TemplateCompiler.Render

/-- What is imported of a module. -/
inductive Binding where
  | default
  | named (name : String)
deriving DecidableEq, Repr

/-- An import and the name it is bound to. -/
structure HoistedImport where
  source : String
  binding : Binding
  localName : String
deriving DecidableEq, Repr

/-- The hoisted imports of a file, in the order in which they were asked for. -/
structure Imports where
  entries : List HoistedImport
deriving DecidableEq, Repr, Inhabited

namespace Imports

/-- No imports. -/
def empty : Imports := ⟨[]⟩

/-- The name that an export is bound to, if it is imported. -/
def find? (imports : Imports) (source : String) (binding : Binding) : Option String :=
  (imports.entries.find? fun e => e.source == source && e.binding == binding).map (·.localName)

/-- The name that an export is bound to. If it is not imported yet, it gets a new name. -/
def request (imports : Imports) (names : Names) (source : String) (binding : Binding)
    (hint : String) : String × Imports × Names :=
  match imports.find? source binding with
  | some name => (name, imports, names)
  | none =>
    let (name, names) := names.generate hint
    (name, ⟨imports.entries ++ [⟨source, binding, name⟩]⟩, names)

/-- The modules that are imported, in the order of their first import. -/
def sources (imports : Imports) : List String := Text.distinct (imports.entries.map (·.source))

/-- The specifier of an import of a named export. -/
def specifier? (e : HoistedImport) : Option String :=
  match e.binding with
  | .default => none
  | .named name => some (if name == e.localName then name else name ++ " as " ++ e.localName)

/-- What is imported of one module, as it is written in front of the module. -/
def clause (entries : List HoistedImport) : String :=
  let defaults := (entries.filter fun e => e.binding == .default).map (·.localName)
  let named := entries.filterMap specifier?
  let braces := "\x7b " ++ String.intercalate ", " named ++ " \x7d"
  match defaults.getLast? with
  | some name => if named.isEmpty then name else name ++ ", " ++ braces
  | none => braces

/-- The declarations of the imports, one for each module. -/
def lines (imports : Imports) : List String :=
  imports.sources.map fun source =>
    "import " ++ clause (imports.entries.filter fun e => e.source == source) ++ " from " ++
      Json.quote source ++ ";"

end Imports

end TemplateCompiler.Render
