import TemplateCompiler.Registry.Basic
import TemplateCompiler.Storage

/-!
# Tags in directories

Tags are found in the `components` directories beside a template and in the directories above it,
the nearest first. A tag is a file `name.marko` there, or a file `index.marko` in a directory `name`.
`lookupFresh` reads the directories anew; `Discovery` remembers what it found in a directory, however
the directory was spelled when it was read.
-/

namespace TemplateCompiler

namespace FileTree

/-- Puts an entry into a list sorted by name. -/
def insertByName (e : String × FileTree) : List (String × FileTree) → List (String × FileTree)
  | [] => [e]
  | f :: rest => if e.1 < f.1 then e :: f :: rest else f :: insertByName e rest

/-- Entries sorted by name. -/
def sortByName (es : List (String × FileTree)) : List (String × FileTree) :=
  es.foldl (fun sorted e => insertByName e sorted) []

/-- The file is a template. -/
def isTemplate (name : String) (t : FileTree) : Bool :=
  t.isFile && (Path.mk name).extension == some "marko"

/-- The name of a template without its extension. -/
def stemOf (name : String) : String := (Path.mk name).fileStem.getD ""

/-- The tags of one entry of a directory at a given path: itself, or the index file in it. -/
def tagsOfEntry (directory : Path) (e : String × FileTree) : List TagDefinition :=
  let path := directory.join ⟨e.1⟩
  match e.2 with
  | .file => if isTemplate e.1 .file then [.ofTemplate (stemOf e.1) path] else []
  | .directory inner =>
    -- the tag has the name of the directory
    (sortByName inner).filterMap fun (name, sub) =>
      if isTemplate name sub && stemOf name == "index" then
        some (.ofTemplate e.1 (path.join ⟨name⟩))
      else none

end FileTree

/-- The tags of a `components` directory, in the order of the names in it. -/
def Disk.componentsIn (disk : Disk) (directory : Path) : List TagDefinition :=
  match disk.find? directory with
  | some (.directory es) => (FileTree.sortByName es).flatMap (FileTree.tagsOfEntry directory)
  | _ => []

/-- The directory of a path and those above it, the nearest first. The length of the path bounds
their number. -/
def Path.ancestorsFrom : Nat → Path → List Path
  | 0, _ => []
  | steps + 1, p =>
    match p.parent with
    | none => []
    | some d => d :: ancestorsFrom steps d

/-- The directory of a path and those above it, the nearest first. -/
def Path.ancestors (p : Path) : List Path := p.ancestorsFrom (p.text.length + 1)

/-- The directories in which the tags of a template are looked up. -/
def Path.componentDirectories (p : Path) : List Path :=
  p.ancestors.map fun d => d.join ⟨"components"⟩

/-- The first tag of a name. -/
def firstNamed (name : String) (tags : List TagDefinition) : Option TagDefinition :=
  tags.find? fun d => d.name == name

namespace Disk

/-- The definition of a tag, with every directory read anew. -/
def lookupFresh (disk : Disk) (source : Path) (name : String) : Option TagDefinition :=
  source.componentDirectories.findSome? fun d => firstNamed name (disk.componentsIn d)

/-- The registry of the tags on a disk. -/
def registry (disk : Disk) : TagRegistry where
  lookup := disk.lookupFresh

end Disk

/-- The registry of the tags in a tree. -/
def FileTree.registry (t : FileTree) : TagRegistry := t.disk.registry

/-- A registry over a disk that remembers the directories it has read. -/
structure Discovery where
  disk : Disk
  found : List (Path × List TagDefinition)

namespace Discovery

/-- A registry that has read nothing yet. -/
def new (disk : Disk) : Discovery := { disk, found := [] }

/-- The tags in a directory, read only once. -/
def tagsIn (r : Discovery) (directory : Path) : List TagDefinition × Discovery :=
  match directory.find? r.found with
  | some tags => (tags, r)
  | none =>
    let tags := r.disk.componentsIn directory
    (tags, { r with found := (directory, tags) :: r.found })

/-- Looks a tag up in directories, up to the first that has it. -/
def lookupIn (name : String) : List Path → Discovery → Option TagDefinition × Discovery
  | [], r => (none, r)
  | d :: rest, r =>
    let (tags, r) := r.tagsIn d
    match firstNamed name tags with
    | some tag => (some tag, r)
    | none => lookupIn name rest r

/-- The definition of a tag as seen from a file. -/
def lookup (r : Discovery) (source : Path) (name : String) : Option TagDefinition × Discovery :=
  lookupIn name source.componentDirectories r

theorem disk_tagsIn (r : Discovery) (directory : Path) : (r.tagsIn directory).2.disk = r.disk := by
  unfold tagsIn
  split <;> rfl

theorem disk_lookupIn (name : String) (directories : List Path) (r : Discovery) :
    (lookupIn name directories r).2.disk = r.disk := by
  induction directories generalizing r with
  | nil => rfl
  | cons d rest ih =>
    simp only [lookupIn]
    split
    · exact disk_tagsIn r d
    · rw [ih, disk_tagsIn]

end Discovery

end TemplateCompiler
