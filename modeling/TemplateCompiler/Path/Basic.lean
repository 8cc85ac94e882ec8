/-!
# Paths

File paths as text, and their parts. Repeated slashes and dots between slashes do not count, so that
two texts can spell the same path; a leading dot and double dots do count. The parent of a path keeps
the spelling of the path.
-/

namespace TemplateCompiler

/-- A path as it is spelled. -/
structure Path where
  text : String
deriving DecidableEq, Repr

namespace Path

/-- A part of a path. -/
inductive Part where
  | root
  | here
  | up
  | name (text : String)
deriving DecidableEq, Repr

/-- The text of a part. -/
def Part.text : Part → String
  | .root => "/"
  | .here => "."
  | .up => ".."
  | .name text => text

/-- Splits at each slash; `segment` holds what was read of the current segment, in reverse. -/
def splitFrom (segment : List Char) : List Char → List String
  | [] => [String.ofList segment.reverse]
  | c :: rest =>
    if c == '/' then String.ofList segment.reverse :: splitFrom [] rest
    else splitFrom (c :: segment) rest

/-- The texts between the slashes of a path. A path that starts with a slash has an empty one first. -/
def segments (p : Path) : List String := splitFrom [] p.text.toList

/-- The path starts at the root. -/
def isAbsolute (p : Path) : Bool := p.text.toList.head? == some '/'

/-- A segment behind the first one, if it counts. -/
def partOf? (segment : String) : Option Part :=
  if segment == "" || segment == "." then none
  else if segment == ".." then some .up
  else some (.name segment)

/-- The parts of a path. -/
def parts (p : Path) : List Part :=
  match p.segments with
  | [] => []
  | first :: rest =>
    let tail := rest.filterMap partOf?
    if p.isAbsolute then .root :: tail
    -- a dot is a part only if it comes first
    else if first == "." then .here :: tail
    else (partOf? first).toList ++ tail

/-- Two texts spell the same path. -/
def same (p q : Path) : Bool := p.parts == q.parts

theorem same_refl (p : Path) : p.same p = true := by simp [same]

theorem same_iff (p q : Path) : p.same q = true ↔ p.parts = q.parts := by simp [same]

/-- Drops the segments at the end that do not count. The list is in reverse; the first segment of the
path counts if it is a dot. -/
def dropIdle : List String → List String
  | [] => []
  | [first] => if first == "" then [] else [first]
  | segment :: rest => if (partOf? segment).isNone then dropIdle rest else segment :: rest

/-- The directory of a path, spelled as in the path. The root and the empty path have none. -/
def parent (p : Path) : Option Path :=
  match dropIdle p.segments.reverse with
  | [] => none
  | _ :: rest =>
    let above := dropIdle rest
    if above.isEmpty then some ⟨if p.isAbsolute then "/" else ""⟩
    else some ⟨String.intercalate "/" above.reverse⟩

/-- A path below another one; an absolute path stays as it is. -/
def join (p q : Path) : Path :=
  if q.isAbsolute || p.text == "" then q
  else if p.text.toList.getLast? == some '/' then ⟨p.text ++ q.text⟩
  else ⟨p.text ++ "/" ++ q.text⟩

/-- The last part of a path, if it is a name. -/
def fileName (p : Path) : Option String :=
  match p.parts.getLast? with
  | some (.name text) => some text
  | _ => none

/-- A name before and behind its last dot. A dot in front belongs to the name. -/
def splitName (name : String) : String × Option String :=
  let back := name.toList.reverse
  let extension := back.takeWhile (· != '.')
  match back.dropWhile (· != '.') with
  | _ :: stem =>
    if stem.isEmpty then (name, none)
    else (String.ofList stem.reverse, some (String.ofList extension.reverse))
  | [] => (name, none)

/-- The name of the file without its extension. -/
def fileStem (p : Path) : Option String := p.fileName.map fun n => (splitName n).1

/-- The extension of the file. -/
def extension (p : Path) : Option String := p.fileName.bind fun n => (splitName n).2

/-- The entry of a table for a path, in any spelling. -/
def find? {α : Type} (p : Path) (table : List (Path × α)) : Option α :=
  (table.find? fun entry => entry.1.same p).map (·.2)

example : (Path.mk "src/./deep//page.marko").parent = some ⟨"src/./deep"⟩ := by decide +kernel

example : (Path.mk "/app").parent = some ⟨"/"⟩ := by decide +kernel

example : (Path.mk "page.marko").parent = some ⟨""⟩ := by decide +kernel

example : (Path.mk "/").parent = none := by decide +kernel

example : (Path.mk ".marko").fileStem = some ".marko" := by decide +kernel

end Path

end TemplateCompiler
