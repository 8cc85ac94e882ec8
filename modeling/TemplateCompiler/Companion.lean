import TemplateCompiler.Metadata.Basic
import TemplateCompiler.Storage

/-!
# Companions

The files beside a template that belong to it: `name.style.css`, `name.package.json`,
`name.component.js` and `name.component-browser.js` for a template `name`. A template named `index`
may leave its name out of theirs. Of several candidates for one role the least name counts, so that
the order of a listing does not matter.
-/

namespace TemplateCompiler

/-- What a companion is for. -/
inductive Role where
  | style
  | package
  | component
  | browser
deriving DecidableEq, Repr

/-- The texts before and behind the last dot. -/
def splitLastDot (cs : List Char) : Option (List Char × List Char) :=
  let back := cs.reverse
  match back.dropWhile (· != '.') with
  | _ :: front => some (front.reverse, (back.takeWhile (· != '.')).reverse)
  | [] => none

/-- The role that a kind and an extension stand for. -/
def Role.ofKind (kind extension : List Char) : Option Role :=
  let isWord := !extension.isEmpty && extension.all Text.isWord
  if kind == "style".toList && isWord then some .style
  else if kind == "package".toList && extension == "json".toList then some .package
  else if kind == "component-browser".toList && isWord then some .browser
  else if kind == "component".toList && isWord then some .component
  else none

/-- The role of a file name for a template of the given name. -/
def Role.ofName (stem : String) (name : String) : Option Role := do
  let (front, extension) ← splitLastDot name.toList
  match splitLastDot front with
  | some (owner, kind) =>
    guard (!owner.isEmpty && !owner.contains '\n' && owner == stem.toList)
    Role.ofKind kind extension
  -- without a name in front of the kind, it is one for the index template
  | none =>
    guard (stem == "index")
    Role.ofKind front extension

/-- The least text of a list. -/
def leastName : List String → Option String
  | [] => none
  | s :: rest =>
    match leastName rest with
    | some t => some (if t < s then t else s)
    | none => some s

/-- The companions of a template among the names in its directory. -/
def Companions.ofListing (stem : String) (names : List String) : Companions :=
  let pick (role : Role) : Option String :=
    (leastName (names.filter fun name => Role.ofName stem name == some role)).map ("./" ++ ·)
  { style := pick .style, package := pick .package, component := pick .component,
    browser := pick .browser }

/-- The directory that a file is in. -/
def Path.directory (p : Path) : Path :=
  match p.parent with
  | some d => if d.text == "" then ⟨"."⟩ else d
  | none => ⟨"."⟩

/-- The companions of a template in storage, and the number of readings after `readings` of them. A
path without a file name has none, and a directory that cannot be read is as good as empty. -/
def Storage.companions (storage : Storage) (p : Path) (readings : Nat) : Companions × Nat :=
  match p.fileStem with
  | none => ({}, readings)
  | some stem =>
    (Companions.ofListing stem ((storage.list readings p.directory).getD []), readings + 1)

/-- The companions of a file, the record in which they are remembered, and the number of readings.
Storage is read only if they are not recorded yet. -/
def Metadata.resolveCompanions (m : Metadata) (storage : Storage) (p : Path) (readings : Nat) :
    Companions × Metadata × Nat :=
  match m.companions with
  | some c => (c, m, readings)
  | none =>
    let (c, readings) := storage.companions p readings
    (c, { m with companions := some c }, readings)

/-- Companions that are recorded are not looked for again. -/
theorem Metadata.resolveCompanions_of_some {m : Metadata} {c : Companions}
    (h : m.companions = some c) (storage : Storage) (p : Path) (readings : Nat) :
    m.resolveCompanions storage p readings = (c, m, readings) := by
  simp [resolveCompanions, h]

example : Role.ofName "my.page" "my.page.package.json" = some .package := by decide

example : Role.ofName "index" "style.css" = some .style := by decide

example : Role.ofName "page" "style.css" = none := by decide

end TemplateCompiler
