import TemplateCompiler.Companion
import TemplateCompiler.Registry.Basic
import TemplateCompiler.Template.Macro

/-!
# Analysis

What is found out about a file before it is compiled: its component, its macros, and whether one of
its tags hands the state of a component to its body. A tag that binds names does, if the template that
implements it has such a tag itself or has a component that also runs on the server. For that, other
files have to be asked for their summaries; what they answer may change the state of the session.
-/

namespace TemplateCompiler

/-- A template with this summary hands out state of a component. -/
def Summary.exposesState (s : Summary) : Bool := s.capture || (s.component && !s.browser)

/-- What decides whether a tag captures state. -/
inductive Verdict where
  | no
  | yes
  /-- The summary of a template. -/
  | ask (template : Path)
deriving DecidableEq, Repr

/-- What decides whether a tag captures state, where `macros` are the macros of the file. Attribute
tags are left to the template of the tag that they belong to. -/
def Occurrence.verdict (o : Occurrence) (registry : TagRegistry) (source : Path)
    (macros : List String) : Verdict :=
  if o.tag.params.isEmpty then .no
  else
    match o.tag.staticName with
    | none => .yes
    | some name =>
      -- here it is the name of the tag itself, below that of the tag which it belongs to
      if registry.isNative source name || macros.contains name then .no
      else
        match o.owner?.bind Tag.staticName with
        | none => .no
        | some owner =>
          match (registry.lookup source owner).bind TagDefinition.template with
          | some template => .ask template
          | none => .no

/-- There is a component class at the top level. -/
def Program.hasClass (p : Program) : Bool :=
  p.nodes.any fun
    | .leaf _ (.component _) => true
    | _ => false

/-- Records the component and the macros of a file. -/
def Metadata.prepare (m : Metadata) (c : Companions) (p : Program) : Metadata :=
  p.macroNames.foldl addMacro
    { m with
      hasComponent := c.component.isSome || p.hasClass
      hasBrowserComponent := c.browser.isSome }

section

variable {σ : Type}

/-- Whether a tag captures state, and the record of that. Once some tag does, nothing more is asked. -/
def Occurrence.judge (o : Occurrence) (registry : TagRegistry) (source : Path)
    (ask : Path → StateM σ (Option Summary)) (m : Metadata) : StateM σ (Bool × Metadata) :=
  if m.capture.isYes then pure (true, m)
  else
    match o.verdict registry source m.macros with
    | .no => pure (false, m)
    | .yes => pure (true, m.recordCapture true)
    | .ask template => do
      match ← ask template with
      | some s => pure (s.exposesState, m.recordCapture s.exposesState)
      -- nothing is recorded, so that a later tag may still be found to capture state
      | none => pure (false, m)

/-- Judges tags one after the other. -/
def judgeAll (registry : TagRegistry) (source : Path) (ask : Path → StateM σ (Option Summary)) :
    List Occurrence → Metadata → StateM σ Metadata
  | [], m => pure m
  | o :: rest, m => do
    let (_, m) ← o.judge registry source ask m
    judgeAll registry source ask rest m

/-- Records what is found out about a file with the given companions. -/
def Program.analyze (p : Program) (registry : TagRegistry) (source : Path)
    (ask : Path → StateM σ (Option Summary)) (c : Companions) (m : Metadata) : StateM σ Metadata :=
  judgeAll registry source ask p.occurrences (m.prepare c p)

end

end TemplateCompiler
