import TemplateCompiler.Render.Assembly
import TemplateCompiler.Render.Lowering
import TemplateCompiler.Script.Printer
import TemplateCompiler.Template.Constant
import TemplateCompiler.Template.TagImport

/-!
# Compilation of one file

How the program of an analysed file becomes a module: constant content is marked, authored names are
kept out of the way of generated ones, the two halves of the body are compiled, and the module is
assembled. Files of plain code are printed anew.
-/

namespace TemplateCompiler

open Render

/-- A compiled file. -/
structure Compiled where
  code : String
  templateMeta : TemplateMeta
  metadata : Metadata

/-- A compiled file as a record. -/
def Compiled.encode (c : Compiled) : Json :=
  .object [
    ("code", .string c.code),
    ("meta", c.templateMeta.encode),
    ("metadata", c.metadata.encode)]

/-! ## Names -/

/-- The names that an item declares for the whole module. -/
def Item.declaredNames : Item → List String
  | .external i =>
    if Text.isBlankText i.specifiers then []
    else
      Script.reservedNames
        -- read as the import that it is going to be
        ("import " ++ i.specifiers ++ " from " ++ Json.quote i.source ++ ";")
  | .statement code => Script.reservedNames code
  | .node (.leaf _ (.scriptlet code)) => Script.reservedNames code
  | .node _ => []

/-- The names that a program declares. -/
def Program.declaredNames (p : Program) : List String := p.body.flatMap Item.declaredNames

/-! ## Module scope -/

/-- The items of a module scope as they are written, the last component class in it, and the record of
the tags that it imports. What is rendered has no place there. -/
def moduleScope (registry : TagRegistry) (source : Path) (working : Option Path) :
    List Item → Metadata → List ModuleItem × Option String × Metadata
  | [], m => ([], none, m)
  | i :: rest, m =>
    match i with
    | .external declaration =>
      let (declaration, m, _) := declaration.resolve registry source m working
      let (items, component, m) := moduleScope registry source working rest m
      (.external declaration :: items, component, m)
    | .statement code =>
      let (items, component, m) := moduleScope registry source working rest m
      (.statement code :: items, component, m)
    | .node (.leaf _ (.scriptlet code)) =>
      let (items, component, m) := moduleScope registry source working rest m
      (.statement code :: items, component, m)
    | .node (.leaf _ (.component code)) =>
      let (items, component, m) := moduleScope registry source working rest m
      -- the rest comes first, so the last class counts
      (items, component.or (some (Text.trim code)), m)
    | .node _ => moduleScope registry source working rest m

/-! ## Templates -/

/-- What a file is compiled with. -/
structure Setting where
  options : Options
  registry : TagRegistry
  /-- How text is lowered. -/
  text : Marks → String → Lower (List LoweredOp)
  /-- The working directory, if it is known. -/
  working : Option Path

/-- The setting without anything special. -/
def Setting.standard (options : Options) (registry : TagRegistry)
    (working : Option Path := some .root) : Setting where
  options := options
  registry := registry
  text := standardText options
  working := working

/-- What a template is lowered with. -/
def Setting.env (setting : Setting) (source : Path) (macros : List String) : Env where
  options := setting.options
  registry := setting.registry
  source := source
  macros := macros
  text := setting.text
  working := setting.working

/-- Lowers what is rendered, and assembles the module around it. -/
def compileScopes (env : Env) (companions : Companions) (definition : String)
    (items : List ModuleItem) (component : Option String) (rendered : List Node) :
    Lower (Module × TemplateMeta) := do
  let ops ← lowerAll env rendered
  let lowered := (← get).component
  assemble env.options env.source companions {
    moduleScope := items
    body := textOps definition ops
    component := lowered.or component
    definition } env.working

/-- The module of an analysed template. -/
def compileTemplate (setting : Setting) (source : Path) (companions : Companions) (m : Metadata)
    (p : Program) : Except Error Compiled :=
  let p := p.classify setting.registry source
  -- all that is authored is kept out of the choice before the first name is generated
  let (definition, names) := (Names.mk []).reserveAll p.declaredNames |>.generate "component"
  let scopes := p.scopes
  let (items, component, m) :=
    moduleScope setting.registry source setting.working scopes.moduleScope m
  let start := State.start names m .empty
  match (compileScopes (setting.env source m.macros) companions definition items component
      scopes.renderScope).run start with
  | (.ok (module, templateMeta), s) =>
    .ok { code := module.batchWrites.print, templateMeta, metadata := s.metadata }
  | (.error e, _) => .error e

/-! ## Plain code -/

/-- The module of a file of plain code. -/
def compileCode (source : Path) (code : String) : Except Error Compiled :=
  match Script.reprint code with
  | some code =>
    let m := Metadata.ofPath source
    .ok { code, templateMeta := .ofMetadata m, metadata := m }
  | none => .error (.moduleCode source.text)

end TemplateCompiler
