import TemplateCompiler.Digest.Sha256
import TemplateCompiler.Json.Value
import TemplateCompiler.Path.Request
import TemplateCompiler.Text.Identifier

/-!
# Metadata

What is recorded of a file while it is compiled, and what other files need to know of it.
-/

namespace TemplateCompiler

/-! ## Parts -/

/-- Whether some tag of a file hands the state of a component to its body. -/
inductive Capture where
  | unknown
  | no
  | yes
deriving DecidableEq, Repr, Inhabited

/-- The state was found to be captured. -/
def Capture.isYes : Capture → Bool
  | .yes => true
  | _ => false

/-- What is known after one more answer. A `yes` stays. -/
def Capture.record (c : Capture) (detected : Bool) : Capture :=
  if detected then .yes else if c = .unknown then .no else c

/-- A dependency of a file: another file, a package descriptor, or a value of which nothing is
known. -/
inductive Dependency where
  | path (path : String)
  | package (path : String)
  | other (value : Json)

namespace Dependency

/-- A dependency as a value. -/
def encode : Dependency → Json
  | .path p => .string p
  | .package p => .string ("package: " ++ p)
  | .other j => j

/-- The dependency as seen from a file. -/
def relativeTo (source : Path) (working : Option Path) : Dependency → Dependency
  | .path p => .path (source.request p working)
  | .package p => .package (source.request p working)
  | .other j => .other j

end Dependency

/-- The files beside a template that belong to it, as requests. -/
structure Companions where
  style : Option String := none
  package : Option String := none
  component : Option String := none
  browser : Option String := none
deriving DecidableEq, Repr, Inhabited

/-- What other files need to know of a template. -/
structure Summary where
  capture : Bool
  component : Bool
  browser : Bool
deriving DecidableEq, Repr, Inhabited

/-! ## The record -/

/-- What is recorded of a file. -/
structure Metadata where
  id : String
  deps : List Dependency := []
  /-- The requests for the modules of the tags in use, each once. -/
  tags : List String := []
  capture : Capture := .unknown
  hasComponent : Bool := false
  hasBrowserComponent : Bool := false
  component : Option String := none
  /-- The companions, once they have been looked for. -/
  companions : Option Companions := none
  /-- The names of the macros, each once. -/
  macros : List String := []

/-- The identifier of a template: its name in plain characters, and the start of the digest of its
path. -/
def Path.templateId (p : Path) : String :=
  let plain (c : Char) : Char :=
    if Text.isAsciiLetter c || Text.isAsciiDigit c then c else '_'
  String.ofList
    ((p.fileStem.getD "").toList.map plain ++ '_' :: (Sha256.hexDigest p.text).take 8)

namespace Metadata

/-- The record of a file of which only the path is known. -/
def ofPath (p : Path) : Metadata := { id := p.templateId }

/-- Records that a tag is in use. -/
def addTag (m : Metadata) (request : String) : Metadata :=
  if m.tags.contains request then m else { m with tags := m.tags ++ [request] }

/-- Records a dependency, even if it is there already. -/
def addDependency (m : Metadata) (d : Dependency) : Metadata := { m with deps := m.deps ++ [d] }

/-- Records a macro. -/
def addMacro (m : Metadata) (name : String) : Metadata :=
  if m.macros.contains name then m else { m with macros := m.macros ++ [name] }

/-- Records whether a tag was found to capture state. -/
def recordCapture (m : Metadata) (detected : Bool) : Metadata :=
  { m with capture := m.capture.record detected }

/-- What other files need to know of the file. -/
def summary (m : Metadata) : Summary where
  capture := m.capture.isYes
  component := m.hasComponent
  browser := m.hasBrowserComponent

theorem mem_tags_addTag (m : Metadata) (request other : String) :
    other ∈ (m.addTag request).tags ↔ other ∈ m.tags ∨ other = request := by
  unfold addTag
  split
  · rename_i h
    constructor
    · exact Or.inl
    · rintro (h' | rfl)
      · exact h'
      · simpa using h
  · simp

theorem nodup_tags_addTag {m : Metadata} (h : m.tags.Nodup) (request : String) :
    (m.addTag request).tags.Nodup := by
  unfold addTag
  split
  · exact h
  · rename_i hn
    have : request ∉ m.tags := by simpa using hn
    simp only [List.nodup_append, h, List.nodup_cons, List.not_mem_nil, not_false_eq_true,
      List.nodup_nil, and_self, List.mem_singleton, true_and]
    rintro a ha b rfl rfl
    exact this ha

/-! ## Settling -/

/-- Puts a dependency in front of the others, if there is one. -/
def insertFront (d : Option Dependency) (deps : List Dependency) : List Dependency :=
  match d with
  | some d => d :: deps
  | none => deps

/-- The dependencies with those on companions: the package is put in front, and then the style. -/
def withCompanions (m : Metadata) (c : Companions) : List Dependency :=
  let deps := insertFront (c.package.map .package) m.deps
  insertFront (c.style.map .path) deps

theorem withCompanions_eq (m : Metadata) (c : Companions) :
    m.withCompanions c =
      (c.style.map Dependency.path).toList ++ (c.package.map Dependency.package).toList ++ m.deps := by
  unfold withCompanions
  cases c.style <;> cases c.package <;> rfl

/-- The file that provides the component: its part for the browser, else the template itself if it
has a component or captures state. -/
def componentFile (m : Metadata) (source : Path) (c : Companions) : Option String :=
  if m.hasBrowserComponent then c.browser
  else if m.hasComponent || m.capture.isYes then some source.text
  else none

/-- Settles the dependencies and the component of a file, as seen from the file. -/
def finalize (m : Metadata) (source : Path) (c : Companions) (working : Option Path := some .root) :
    Metadata :=
  { m with
    deps := (m.withCompanions c).map (·.relativeTo source working)
    component := (m.componentFile source c).map (source.request · working) }

end Metadata

end TemplateCompiler
