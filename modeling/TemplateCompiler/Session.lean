import TemplateCompiler.Analysis
import TemplateCompiler.Compilation
import TemplateCompiler.Registry.Directory
import TemplateCompiler.Template.Encoding

/-!
# Sessions

A session compiles files one at a time and remembers what it has learned of each, so that questions
across files are answered once. A file that is being analysed or compiled has no answer yet.
-/

namespace TemplateCompiler

/-! ## Records -/

/-- What a session remembers of a file. -/
inductive Record where
  | inProgress
  | analyzed (summary : Summary)
deriving DecidableEq, Repr

/-- What a session remembers of the files it knows. -/
structure Records where
  entries : List (Path × Record)
deriving DecidableEq, Repr, Inhabited

namespace Records

/-- The record of a file. -/
def get? (r : Records) (p : Path) : Option Record := p.find? r.entries

/-- Forgets a file. -/
def erase (r : Records) (p : Path) : Records := ⟨r.entries.filter fun e => !e.1.same p⟩

/-- Puts the record of a file in place of an earlier one. -/
def insert (r : Records) (p : Path) (record : Record) : Records :=
  ⟨(p, record) :: (r.erase p).entries⟩

/-- The summary of a file, if it has been analysed. -/
def summary? (r : Records) (p : Path) : Option Summary :=
  match r.get? p with
  | some (.analyzed s) => some s
  | _ => none

end Records

/-- A session: its records, how often it has read storage, and the files it has asked the source
of. -/
structure Session where
  records : Records
  readings : Nat
  loads : List Path
deriving DecidableEq, Repr, Inhabited

/-- A session that knows nothing yet. -/
def Session.new : Session := ⟨⟨[]⟩, 0, []⟩

/-- What a session works with. -/
structure Workspace where
  setting : Setting
  storage : Storage
  /-- The programs of other files; later entries replace earlier ones. -/
  sources : List (Path × Program)

namespace Workspace

/-- The program of a file. -/
def load (w : Workspace) (p : Path) : Option Program := p.find? w.sources.reverse

/-- Sets the record of a file. -/
def setRecord (p : Path) (record : Record) : StateM Session PUnit :=
  modify fun s => { s with records := s.records.insert p record }

/-- Asks for the program of a file. -/
def request (w : Workspace) (p : Path) : StateM Session (Option Program) := do
  modify fun s => { s with loads := s.loads ++ [p] }
  pure (w.load p)

/-- The companions of a file, read from storage unless they are recorded. -/
def companions (w : Workspace) (p : Path) (m : Metadata) : StateM Session (Companions × Metadata) := do
  let s ← get
  let (c, m, readings) := m.resolveCompanions w.storage p s.readings
  set { s with readings }
  pure (c, m)

/-- Analyses the template of a file, which is asked about other files with `ask`. -/
def analyze (w : Workspace) (ask : Path → StateM Session (Option Summary)) (p : Path)
    (program : Program) : StateM Session (Companions × Metadata) := do
  let (c, m) ← w.companions p (Metadata.ofPath p)
  let m ← program.analyze w.setting.registry p ask c m
  pure (c, m)

/-- The record of a file that was just loaded. -/
def examine (w : Workspace) (ask : Path → StateM Session (Option Summary)) (p : Path)
    (program : Program) : StateM Session Metadata := do
  if program.moduleCode.isSome then pure (Metadata.ofPath p)
  else
    let (_, m) ← w.analyze ask p program
    pure m

/-- The summary of a file. A file without a record is loaded and analysed; while that happens it has
no summary. `depth` bounds how many files are analysed for each other, and is not reached if it is the
number of sources: each of them can be in progress only once. -/
def fileSummary (w : Workspace) : Nat → Path → StateM Session (Option Summary)
  | depth, p => do
    match (← get).records.get? p with
    | some (.analyzed summary) => pure (some summary)
    -- it waits for a file that asks for it, so there is no answer yet
    | some .inProgress => pure none
    | none =>
      match ← w.request p with
      -- no record is left, so a file without a source is asked for each time
      | none => pure none
      | some program =>
        match depth with
        | 0 => pure none
        | depth + 1 =>
          setRecord p .inProgress
          let m ← w.examine (fileSummary w depth) p program
          setRecord p (.analyzed m.summary)
          pure (some m.summary)

/-- Compiles the template of a file. -/
def translateTemplate (w : Workspace) (p : Path) (program : Program) :
    StateM Session (Except Error Compiled) := do
  -- an earlier record of the file is gone from here on, even if the file does not compile
  setRecord p .inProgress
  let (c, m) ← w.analyze (w.fileSummary w.sources.length) p program
  match compileTemplate w.setting p c m program with
  | .ok compiled =>
    setRecord p (.analyzed compiled.metadata.summary)
    pure (.ok compiled)
  | .error e =>
    modify fun s => { s with records := s.records.erase p }
    pure (.error e)

/-- Compiles a file. A file of plain code is not analysed. -/
def translate (w : Workspace) (p : Path) (program : Program) :
    StateM Session (Except Error Compiled) :=
  match program.moduleCode with
  | none => w.translateTemplate p program
  | some code =>
    match compileCode p code with
    | .ok compiled => do
      setRecord p (.analyzed compiled.metadata.summary)
      pure (.ok compiled)
    -- an earlier record of the file stays
    | .error e => pure (.error e)

end Workspace

/-! ## Texts -/

/-- Compiles a file given as text, with options given as text, in a tree of files. Blank options are
the default ones. -/
def translateText (tree : FileTree) (p : Path) (program options : String)
    (working : Option Path := some .root) : Except Error Compiled := do
  let options ←
    if Text.isBlankText options then pure {}
    else (Options.read options).elim (throw .options) pure
  let program ←
    ((Json.read program).bind Program.decode).elim (throw (.program p.text)) pure
  let w : Workspace := {
    setting := .standard options tree.registry working
    storage := tree.storage
    sources := [] }
  ((w.translate p program).run .new).1

end TemplateCompiler
