import TemplateCompiler.Path.Basic

/-!
# Storage

What the compiler sees of storage: listings of directories, which may change or fail from one
reading to the next, and disks, where paths lead to trees of files and directories. In a tree, paths
are looked up step by step.
-/

namespace TemplateCompiler

/-- The listings of directories: `list n dir` is the answer of the reading of `dir` that `n` readings
went before, or nothing if it fails. -/
structure Storage where
  list : Nat → Path → Option (List String)

/-- Storage whose listings are fixed and given by a table. -/
def Storage.ofTable (table : List (Path × List String)) : Storage where
  list _ dir := dir.find? table

/-- A tree of files and directories. -/
inductive FileTree where
  | file
  | directory (entries : List (String × FileTree))

namespace FileTree

/-- The names in a directory; a file has none. -/
def entries : FileTree → List (String × FileTree)
  | .file => []
  | .directory es => es

/-- The tree is a directory. -/
def isDirectory : FileTree → Bool
  | .file => false
  | .directory _ => true

/-- The tree is a file. -/
def isFile (t : FileTree) : Bool := !t.isDirectory

/-- The entry of a name. -/
def child? (t : FileTree) (name : String) : Option FileTree :=
  (t.entries.find? fun e => e.1 == name).map (·.2)

/-- The tree at the end of a list of names. -/
def at? (t : FileTree) : List String → Option FileTree
  | [] => some t
  | name :: rest => (t.child? name).bind (·.at? rest)

/-- The names from the root to the end of a path, in reverse, where the names so far lead to the place
that the path starts from. Each step has to start at a directory. -/
def follow (t : FileTree) : List String → List Path.Part → Option (List String)
  | place, [] => some place
  | place, part :: rest => do
    let here ← t.at? place.reverse
    guard here.isDirectory
    match part with
    | .root => none
    | .here => follow t place rest
    | .up => if place.isEmpty then none else follow t (place.drop 1) rest
    | .name name => follow t (name :: place) rest

/-- The tree that a relative path leads to. -/
def find? (t : FileTree) (p : Path) : Option FileTree := do
  t.at? (← t.follow [] p.parts).reverse

/-- Puts an entry in place of the entry of the same name, or behind all others. -/
def putEntry (name : String) (sub : FileTree) : List (String × FileTree) → List (String × FileTree)
  | [] => [(name, sub)]
  | e :: es => if e.1 == name then (name, sub) :: es else e :: putEntry name sub es

/-- Adds the directories on a way and, at its end, a file or a directory, unless they are there. -/
def add (isFile : Bool) : List String → FileTree → FileTree
  | [], t => t
  | [name], t =>
    match t.child? name with
    | some _ => t
    | none => .directory (putEntry name (if isFile then .file else .directory []) t.entries)
  | name :: rest, t =>
    .directory (putEntry name (add isFile rest ((t.child? name).getD (.directory []))) t.entries)

/-- The names of a path. -/
def namesOf (p : Path) : List String :=
  p.parts.filterMap fun
    | .name text => some text
    | _ => none

/-- The tree with the given files, and with directories for the paths that end in a slash. -/
def ofPaths (paths : List String) : FileTree :=
  paths.foldl (fun t p => t.add (p.toList.getLast? != some '/') (namesOf ⟨p⟩)) (.directory [])

/-- The listings of the directories of a tree. -/
def storage (t : FileTree) : Storage where
  list _ dir := do
    let found ← t.find? dir
    guard found.isDirectory
    pure (found.entries.map (·.1))

end FileTree

/-- A disk: the tree that a path leads to, if there is one. -/
structure Disk where
  find? : Path → Option FileTree

/-- The disk of a tree below the working directory, into which only relative paths lead. -/
def FileTree.disk (t : FileTree) : Disk where
  find? := t.find?

instance : Coe FileTree Disk := ⟨FileTree.disk⟩

end TemplateCompiler
