import TemplateCompiler.Path.Request
import TemplateCompiler.Registry.Elements
import TemplateCompiler.Text.Blank

/-!
# Tag registries

What tag names stand for. A registry answers which definition a name has as seen from a file; a name
without a definition may still be a native element. Imports can name a tag in angle brackets.
-/

namespace TemplateCompiler

/-- The definition of a tag: the template that implements it, or a plain module, or neither for a
tag that is declared to be a native element. -/
structure TagDefinition where
  name : String
  template : Option Path
  renderer : Option Path
  html : Bool
deriving DecidableEq, Repr

/-- The module to import for a tag. -/
def TagDefinition.entry (d : TagDefinition) : Option Path := d.template.or d.renderer

/-- A tag that a template implements. -/
def TagDefinition.ofTemplate (name : String) (template : Path) : TagDefinition :=
  { name, template := some template, renderer := none, html := false }

/-- A registry: the definition of a name as seen from a file. -/
structure TagRegistry where
  lookup : Path → String → Option TagDefinition

namespace TagRegistry

/-- A definition decides whether its tag is native; names without one are native if they are known
elements. -/
def isNative (r : TagRegistry) (source : Path) (name : String) : Bool :=
  match r.lookup source name with
  | some d => d.html
  | none => isKnownElement name

/-- The registry of a list of definitions, of which later ones replace earlier ones. -/
def ofList (definitions : List TagDefinition) : TagRegistry where
  lookup _ name := definitions.reverse.find? fun d => d.name == name

/-- The request for the module that implements a tag, as seen from a file. -/
def request? (r : TagRegistry) (source : Path) (name : String) (working : Option Path) :
    Option String := do
  let d ← r.lookup source name
  let entry ← d.entry
  pure (source.request entry.text working)

/-- A character of a tag name in angle brackets. -/
def isBracketed (c : Char) : Bool := c != '<' && c != '>' && !Text.isBlank c

/-- The tag name in an import source of the form `<name>`. -/
def importedTag? (source : String) : Option String :=
  match source.toList with
  | '<' :: rest =>
    let name := rest.dropLast
    if rest.getLast? == some '>' && !name.isEmpty && name.all isBracketed then
      some (String.ofList name)
    else none
  | _ => none

/-- The request that takes the place of an import source which names a tag. -/
def resolveImport (r : TagRegistry) (source : Path) (importSource : String)
    (working : Option Path := some .root) : Option String := do
  let name ← importedTag? importSource
  r.request? source name working

end TagRegistry

end TemplateCompiler
