import TemplateCompiler.Json.Reader
import TemplateCompiler.Json.Record

/-!
# Options

What can be chosen for the compilation of a file, and how options are read from JSON. Each option has
a default, so that an empty record is a choice of options.
-/

namespace TemplateCompiler

open Json (optional required asString asBool)

/-- The module that text output is written with. -/
structure HtmlOutput where
  /-- The module that exports the template factory. -/
  runtimeModule : String := "marko/src/runtime/html/index.js"
deriving DecidableEq, Repr, Inhabited

/-- The modules that tree output is built with. -/
structure DomOutput where
  /-- The module that exports the template factory. -/
  runtimeModule : String := "marko/src/runtime/vdom/index.js"
  /-- The module that registers component types. -/
  registryModule : String := "marko/src/runtime/components/registry-browser.js"
  /-- The module that makes component constructors. -/
  defineComponentModule : String := "marko/src/runtime/components/defineComponent.js"
deriving DecidableEq, Repr, Inhabited

/-- What a rendering produces: text, or a tree of nodes that is updated later. -/
inductive Output where
  | html (html : HtmlOutput)
  | dom (dom : DomOutput)
deriving DecidableEq, Repr

namespace Output

instance : Inhabited Output := ⟨.html {}⟩

/-- The output is text. -/
def isHtml : Output → Bool
  | .html _ => true
  | .dom _ => false

/-- The module that exports the template factory. -/
def runtimeModule : Output → String
  | .html h => h.runtimeModule
  | .dom d => d.runtimeModule

end Output

/-- The modules that generated code calls in both kinds of output. -/
structure RuntimeModules where
  renderer : String := "marko/src/runtime/components/renderer.js"
  escapeXml : String := "marko/src/runtime/html/helpers/escape-xml.js"
  toText : String := "marko/src/runtime/html/helpers/to-string.js"
  attr : String := "marko/src/runtime/html/helpers/attr.js"
  renderTag : String := "marko/src/runtime/helpers/render-tag.js"
  dynamicTag : String := "marko/src/runtime/helpers/dynamic-tag.js"
deriving DecidableEq, Repr, Inhabited

/-- The options of a compilation. -/
structure Options where
  output : Output := .html {}
  /-- The metadata is attached to the template, and the template is told its file name. -/
  writeMeta : Bool := true
  /-- The module is for production. -/
  optimize : Bool := false
  writeVersionComment : Bool := true
  preserveComments : Bool := false
  runtime : RuntimeModules := {}
deriving DecidableEq, Repr, Inhabited

/-! ## Reading -/

/-- The modules of text output in a record. -/
def HtmlOutput.decode (j : Json) : Option HtmlOutput := do
  let [runtimeModule] ← j.fields ["runtimeModule"] | none
  let d : HtmlOutput := {}
  pure { runtimeModule := ← optional d.runtimeModule asString runtimeModule }

/-- The modules of tree output in a record. -/
def DomOutput.decode (j : Json) : Option DomOutput := do
  let [runtimeModule, registryModule, defineComponentModule] ←
    j.fields ["runtimeModule", "registryModule", "defineComponentModule"] | none
  let d : DomOutput := {}
  pure {
    runtimeModule := ← optional d.runtimeModule asString runtimeModule
    registryModule := ← optional d.registryModule asString registryModule
    defineComponentModule :=
      ← optional d.defineComponentModule asString defineComponentModule }

/-- The output in a record with the name of its kind. -/
def Output.decode (j : Json) : Option Output := do
  let (kind, record) ← j.tagged "type"
  match ← asString kind with
  | "html" => (HtmlOutput.decode record).map .html
  | "dom" => (DomOutput.decode record).map .dom
  | _ => none

/-- The modules that generated code calls in a record. -/
def RuntimeModules.decode (j : Json) : Option RuntimeModules := do
  let [renderer, escapeXml, toText, attr, renderTag, dynamicTag] ←
    j.fields ["renderer", "escapeXml", "toString", "attr", "renderTag", "dynamicTag"] | none
  let d : RuntimeModules := {}
  pure {
    renderer := ← optional d.renderer asString renderer
    escapeXml := ← optional d.escapeXml asString escapeXml
    toText := ← optional d.toText asString toText
    attr := ← optional d.attr asString attr
    renderTag := ← optional d.renderTag asString renderTag
    dynamicTag := ← optional d.dynamicTag asString dynamicTag }

/-- The options in a record. -/
def Options.decode (j : Json) : Option Options := do
  let [output, writeMeta, optimize, writeVersionComment, preserveComments, runtime] ←
    j.fields ["output", "meta", "optimize", "writeVersionComment", "preserveComments", "runtime"]
    | none
  let d : Options := {}
  pure {
    output := ← optional d.output Output.decode output
    writeMeta := ← optional d.writeMeta asBool writeMeta
    optimize := ← optional d.optimize asBool optimize
    writeVersionComment := ← optional d.writeVersionComment asBool writeVersionComment
    preserveComments := ← optional d.preserveComments asBool preserveComments
    runtime := ← optional d.runtime RuntimeModules.decode runtime }

/-- The options in a text. -/
def Options.read (text : String) : Option Options := do Options.decode (← Json.read text)

/-! ## Writing -/

/-- An output as a record with the name of its kind. -/
def Output.encode : Output → Json
  | .html h => .object [("type", .string "html"), ("runtimeModule", .string h.runtimeModule)]
  | .dom d => .object [
      ("type", .string "dom"),
      ("runtimeModule", .string d.runtimeModule),
      ("registryModule", .string d.registryModule),
      ("defineComponentModule", .string d.defineComponentModule)]

/-- The modules that generated code calls as a record. -/
def RuntimeModules.encode (r : RuntimeModules) : Json :=
  .object [
    ("renderer", .string r.renderer),
    ("escapeXml", .string r.escapeXml),
    ("toString", .string r.toText),
    ("attr", .string r.attr),
    ("renderTag", .string r.renderTag),
    ("dynamicTag", .string r.dynamicTag)]

/-- Options as a record. -/
def Options.encode (o : Options) : Json :=
  .object [
    ("output", o.output.encode),
    ("meta", .boolean o.writeMeta),
    ("optimize", .boolean o.optimize),
    ("writeVersionComment", .boolean o.writeVersionComment),
    ("preserveComments", .boolean o.preserveComments),
    ("runtime", o.runtime.encode)]

end TemplateCompiler
