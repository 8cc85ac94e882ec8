import TemplateCompiler.Json.Record
import TemplateCompiler.Metadata.Basic

/-!
# Metadata in JSON

Records of metadata, and the metadata object that is attached to a template at run time. Of that
object, what is absent or empty is not written.
-/

namespace TemplateCompiler

open Json (required optional nullable asString asList asAny)

/-- What is known of a capture, as a word. -/
def Capture.encode : Capture → Json
  | .unknown => .string "unknown"
  | .no => .string "no"
  | .yes => .string "yes"

/-- Companions as a record. -/
def Companions.encode (c : Companions) : Json :=
  .object [
    ("styleFile", Json.ofOption c.style),
    ("packageFile", Json.ofOption c.package),
    ("componentFile", Json.ofOption c.component),
    ("componentBrowserFile", Json.ofOption c.browser)]

/-- A summary as a record. -/
def Summary.encode (s : Summary) : Json :=
  .object [
    ("capture", .boolean s.capture),
    ("component", .boolean s.component),
    ("browser", .boolean s.browser)]

/-- Metadata as a record, without the macros. -/
def Metadata.encode (m : Metadata) : Json :=
  .object [
    ("id", .string m.id),
    ("deps", .array (m.deps.map Dependency.encode)),
    ("tags", .array (m.tags.map .string)),
    ("hasStatefulCapture", m.capture.encode),
    ("hasComponent", .boolean m.hasComponent),
    ("hasComponentBrowser", .boolean m.hasBrowserComponent),
    ("component", Json.ofOption m.component),
    ("componentFiles", (m.companions.map Companions.encode).getD .null)]

/-- The metadata object of a template. -/
structure TemplateMeta where
  id : String
  component : Option String
  deps : List Json
  tags : List String

namespace TemplateMeta

/-- The metadata object for a record. -/
def ofMetadata (m : Metadata) : TemplateMeta where
  id := m.id
  component := m.component
  deps := m.deps.map Dependency.encode
  tags := m.tags

/-- A metadata object as a record. -/
def encode (t : TemplateMeta) : Json :=
  .object ([("id", Json.string t.id)] ++
    (t.component.map fun c => ("component", Json.string c)).toList ++
    (if t.deps.isEmpty then [] else [("deps", Json.array t.deps)]) ++
    (if t.tags.isEmpty then [] else [("tags", Json.array (t.tags.map .string))]))

/-- The metadata object that a record describes. -/
def decode (j : Json) : Option TemplateMeta := do
  let [id, component, deps, tags] ← j.fields ["id", "component", "deps", "tags"] | none
  pure {
    id := ← required asString id
    component := ← optional none (nullable asString) component
    deps := ← optional [] (asList asAny) deps
    tags := ← optional [] (asList asString) tags }

end TemplateMeta

end TemplateCompiler
