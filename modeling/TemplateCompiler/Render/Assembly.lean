import TemplateCompiler.Metadata.Encoding
import TemplateCompiler.Render.Module
import TemplateCompiler.Render.State

/-!
# Assembly

The module around a render function: the template value, the registration of the component, the
renderer and the metadata object.
-/

namespace TemplateCompiler.Render

open TemplateCompiler.Json (quote)

/-! ## Option objects -/

/-- The flags that the renderer is made with. -/
structure RendererOptions where
  componentType : String
  /-- Without a component the template is an anonymous one. -/
  hasComponent : Bool
  isSplit : Bool
  isDevelopment : Bool
deriving DecidableEq, Repr

/-- The flags as an object. Only those that are set are written. -/
def RendererOptions.text (o : RendererOptions) : String :=
  "\x7b " ++ String.intercalate ", " (
    ["t: " ++ o.componentType] ++
      (if o.hasComponent then [] else ["i: true"]) ++
      (if o.isSplit then ["s: true"] else []) ++
      (if o.isDevelopment then ["d: true"] else [])) ++ " \x7d"

/-- The dependencies as they are written into a module. -/
def depsText (deps : List Json) : String := (Json.array deps).render

/-- The properties of the metadata object of a module. -/
def metaProperties (componentType : String) (t : TemplateMeta) : List String :=
  ["id: " ++ componentType] ++
    (t.component.map fun c => "component: " ++ quote c).toList ++
    (if t.deps.isEmpty then [] else ["deps: " ++ depsText t.deps]) ++
    (if t.tags.isEmpty then []
      else ["tags: [" ++ String.intercalate ", " (t.tags.map quote) ++ "]"])

/-- The metadata object of a module. -/
def metaText (componentType : String) (t : TemplateMeta) : String :=
  "\x7b\n  " ++ String.intercalate ",\n  " (metaProperties componentType t) ++ "\n\x7d"

/-! ## The module -/

/-- What a module is assembled from. -/
structure Parts where
  moduleScope : List ModuleItem
  body : List TextOp
  /-- The class of the component that the template defines itself. -/
  component : Option String
  /-- The parameter of the render function with the definition of the component. -/
  definition : String

/-- The comment in the first line of a module. -/
def versionComment : String := " Compiled using template-translator-native@0.1.0 - DO NOT EDIT"

/-- Settles the metadata. -/
def finalizeMetadata (source : Path) (companions : Companions) (working : Option Path) :
    Lower PUnit :=
  modify fun s => { s with metadata := s.metadata.finalize source companions working }

/-- The class of the component: from its own file, else from the template, else an empty one. -/
def componentClass (source : Path) (companions : Companions) (own : Option String)
    (working : Option Path) : Lower String :=
  match companions.component with
  | some file => importName (source.request file working) .default "marko_component"
  | none => pure (own.getD "\x7b\x7d")

/-- The value of the component type. For tree output the component is registered under it. -/
def componentTypeValue (options : Options) (source : Path) (companions : Companions)
    (id template : String) (working : Option Path) : Lower String :=
  match options.output with
  | .html _ => pure (quote id)
  | .dom d => do
    let register ← importName d.registryModule (.named "r") "marko_registerComponent"
    -- a component with a part for browsers is loaded from there, any other with the template
    let loaded ←
      match companions.browser with
      | some file => importName (source.request file working) .default "marko_split_component"
      | none => pure template
    pure (register ++ "(" ++ quote id ++ ", () => " ++ loaded ++ ")")

/-- The definition of the component constructor, which only tree output has. -/
def constructorItems (options : Options) (component template : String) :
    Lower (List ModuleItem) :=
  match options.output with
  | .html _ => pure []
  | .dom d => do
    let define ← importName d.defineComponentModule .default "marko_defineComponent"
    pure [.assign (template ++ ".Component")
      (define ++ "(" ++ component ++ ", " ++ template ++ "._)")]

/-- The metadata object of a module, if it is asked for. -/
def metaItems (options : Options) (source : Path) (componentType template : String)
    (t : TemplateMeta) : Lower (List ModuleItem) :=
  if !options.writeMeta then pure []
  else if t.deps.isEmpty || Script.acceptsExpression (depsText t.deps) then
    pure [.assign (template ++ ".meta") (metaText componentType t)]
  else throw (.metadata source.text (depsText t.deps))

/-- The module for a template, and its metadata object. -/
def assemble (options : Options) (source : Path) (companions : Companions) (parts : Parts)
    (working : Option Path := some .root) : Lower (Module × TemplateMeta) := do
  finalizeMetadata source companions working
  let componentValue ← componentClass source companions parts.component working
  let component ← generateName "marko_component"
  let componentType ← generateName "marko_componentType"
  let template ← generateName "marko_template"
  let renderer ← importName options.runtime.renderer .default "marko_renderer"
  let factory ← importName options.output.runtimeModule (.named "t") "t"
  let metadata := (← get).metadata
  let typeValue ← componentTypeValue options source companions metadata.id template working
  let constructor ← constructorItems options component template
  let templateMeta := TemplateMeta.ofMetadata metadata
  let attached ← metaItems options source componentType template templateMeta
  let call : RenderCall := {
    target := template ++ "._"
    renderer
    params := ["input", "out", parts.definition, "component", "state"]
    body := parts.body
    options := RendererOptions.text {
      componentType
      hasComponent := metadata.component.isSome
      isSplit := companions.browser.isSome
      isDevelopment := !options.optimize }
    component }
  -- what the file declares for the module stands between its export and its render function
  let items :=
    [.constants [(template, factory ++ (if options.writeMeta then "(__filename)" else "()"))],
      .exportDefault template] ++ parts.moduleScope ++
    [.constants [(componentType, typeValue), (component, componentValue)], .render call] ++
    constructor ++ attached
  let header := if options.writeVersionComment then some versionComment else none
  pure ({ header, imports := (← get).imports, items }, templateMeta)

end TemplateCompiler.Render
