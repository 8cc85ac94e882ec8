import Mathlib.Logic.Relation
import TemplateCompiler.Session
import TemplateCompiler.Proofs.Path.Spelling

/-!
# What analysis is to find out

Whether a file captures state depends on the templates that its tags are implemented by, and these on
others (`Workspace.Captures`). This is said here of the sources alone, without a session. In a workspace
whose registry and listings are fixed it does not depend on how paths are spelled.
-/

namespace TemplateCompiler.Workspace

/-! ## Components -/

/-- The program of a file that is a template. -/
def template? (w : Workspace) (p : Path) : Option Program :=
  (w.load p).filter fun program => program.moduleCode.isNone

theorem template?_eq_some_iff {w : Workspace} {p : Path} {program : Program} :
    w.template? p = some program ↔ w.load p = some program ∧ program.moduleCode = none := by
  rw [template?, Option.filter_eq_some_iff, Option.isNone_iff_eq_none]

/-- The companions of a file, as a first reading of storage shows them. -/
def companionsOf (w : Workspace) (p : Path) : Companions := (w.storage.companions p 0).1

/-- The file is a template with a component, beside it or in it. -/
def hasComponent (w : Workspace) (p : Path) : Bool :=
  (w.template? p).any fun program => (w.companionsOf p).component.isSome || program.hasClass

/-- The file is a template with a part for the browser. -/
def hasBrowserComponent (w : Workspace) (p : Path) : Bool :=
  (w.template? p).any fun _ => (w.companionsOf p).browser.isSome

/-! ## Captured state -/

/-- A tag that binds names is left to a template: its name is neither native nor that of a macro, and
the tag that it belongs to is implemented by the template. -/
def Consults (w : Workspace) (p : Path) (program : Program) (o : Occurrence) (template : Path) :
    Prop :=
  o.tag.params ≠ [] ∧
  (∃ name, o.tag.name = .static name ∧ w.setting.registry.isNative p name = false ∧
    name ∉ program.macroNames) ∧
  ∃ owner name d, o.owner? = some owner ∧ owner.name = .static name ∧
    w.setting.registry.lookup p name = some d ∧ d.template = some template

/-- Some tag of a template binds names and may hand state to them: it is chosen at rendering, or left
to a template that captures state itself or has a component that runs on the server. -/
inductive Captures (w : Workspace) : Path → Prop where
  | dynamic {p : Path} {program : Program} {o : Occurrence} {target : String}
      (hprogram : w.template? p = some program) (ho : o ∈ program.occurrences)
      (hparams : o.tag.params ≠ []) (hname : o.tag.name = .dynamic target) : Captures w p
  | template {p g : Path} {program : Program} {o : Occurrence}
      (hprogram : w.template? p = some program) (ho : o ∈ program.occurrences)
      (hg : w.Consults p program o g) (h : Captures w g) : Captures w p
  | component {p g : Path} {program : Program} {o : Occurrence}
      (hprogram : w.template? p = some program) (ho : o ∈ program.occurrences)
      (hg : w.Consults p program o g) (hcomponent : w.hasComponent g = true)
      (hbrowser : w.hasBrowserComponent g = false) : Captures w p

/-- A tag is one for which a template captures state. -/
def TagCaptures (w : Workspace) (p : Path) (program : Program) (o : Occurrence) : Prop :=
  (o.tag.params ≠ [] ∧ ∃ target, o.tag.name = .dynamic target) ∨
  ∃ g, w.Consults p program o g ∧
    (w.Captures g ∨ w.hasComponent g = true ∧ w.hasBrowserComponent g = false)

theorem captures_iff {w : Workspace} {p : Path} :
    w.Captures p ↔
      ∃ program, w.template? p = some program ∧ ∃ o ∈ program.occurrences, w.TagCaptures p program o := by
  constructor
  · rintro (⟨hprogram, ho, hparams, hname⟩ | ⟨hprogram, ho, hg, h⟩ |
      ⟨hprogram, ho, hg, hcomponent, hbrowser⟩)
    · exact ⟨_, hprogram, _, ho, .inl ⟨hparams, _, hname⟩⟩
    · exact ⟨_, hprogram, _, ho, .inr ⟨_, hg, .inl h⟩⟩
    · exact ⟨_, hprogram, _, ho, .inr ⟨_, hg, .inr ⟨hcomponent, hbrowser⟩⟩⟩
  · rintro ⟨program, hprogram, o, ho, ⟨hparams, target, hname⟩ | ⟨g, hg, h | ⟨hcomponent, hbrowser⟩⟩⟩
    · exact .dynamic hprogram ho hparams hname
    · exact .template hprogram ho hg h
    · exact .component hprogram ho hg hcomponent hbrowser

/-- A file asks for the summary of a template: one of its tags is left to it, and no tag in front of
that one captures state. -/
def Asks (w : Workspace) (p g : Path) : Prop :=
  ∃ program before o after, w.template? p = some program ∧
    program.occurrences = before ++ o :: after ∧ w.Consults p program o g ∧
    ∀ o' ∈ before, ¬w.TagCaptures p program o'

/-- No file asks for its own summary, not even through others. -/
def IsAcyclic (w : Workspace) : Prop := ∀ p q, Relation.TransGen w.Asks p q → p.same q = false

open Classical in
/-- The summary that a file should have. -/
noncomputable def answer (w : Workspace) (p : Path) : Option Summary :=
  (w.load p).map fun _ => ⟨decide (w.Captures p), w.hasComponent p, w.hasBrowserComponent p⟩

theorem answer_eq_some {w : Workspace} {p : Path} {s : Summary} (h : w.answer p = some s) :
    (s.capture = true ↔ w.Captures p) ∧ s.component = w.hasComponent p ∧
      s.browser = w.hasBrowserComponent p := by
  obtain ⟨program, -, rfl⟩ := Option.map_eq_some_iff.mp h
  simp

/-! ## Fixed workspaces -/

/-- Nothing that a workspace looks up changes from one time to the next or with the spelling of a path,
and text is lowered as usual. -/
structure IsFixed (w : Workspace) : Prop where
  lookup : ∀ p q name, p.same q = true →
    w.setting.registry.lookup p name = w.setting.registry.lookup q name
  list : ∀ n k p q, p.same q = true → w.storage.list n p = w.storage.list k q
  setting : w.setting = .standard w.setting.options w.setting.registry w.setting.working

section

variable {w : Workspace} {p q : Path}

theorem load_eq_of_same (h : p.same q = true) : w.load p = w.load q := Path.find?_eq_of_same h _

theorem template?_eq_of_same (h : p.same q = true) : w.template? p = w.template? q := by
  rw [template?, template?, load_eq_of_same h]

namespace IsFixed

variable (hw : w.IsFixed)
include hw

theorem companions_eq_of_same (h : p.same q = true) (n k : Nat) :
    (w.storage.companions p n).1 = (w.storage.companions q k).1 := by
  unfold Storage.companions
  rw [Path.fileStem_eq_of_same h, hw.list n k _ _ (Path.same_directory h)]
  cases q.fileStem <;> rfl

theorem isNative_eq_of_same (h : p.same q = true) (name : String) :
    w.setting.registry.isNative p name = w.setting.registry.isNative q name := by
  unfold TagRegistry.isNative
  rw [hw.lookup p q name h]

theorem hasComponent_eq_of_same (h : p.same q = true) : w.hasComponent p = w.hasComponent q := by
  unfold hasComponent companionsOf
  rw [template?_eq_of_same h, hw.companions_eq_of_same h 0 0]

theorem hasBrowserComponent_eq_of_same (h : p.same q = true) :
    w.hasBrowserComponent p = w.hasBrowserComponent q := by
  unfold hasBrowserComponent companionsOf
  rw [template?_eq_of_same h, hw.companions_eq_of_same h 0 0]

theorem consults_iff_of_same (h : p.same q = true) {program : Program} {o : Occurrence} {g : Path} :
    w.Consults p program o g ↔ w.Consults q program o g := by
  unfold Consults
  simp only [hw.isNative_eq_of_same h, fun name => hw.lookup p q name h]

theorem tagCaptures_iff_of_same (h : p.same q = true) {program : Program} {o : Occurrence} :
    w.TagCaptures p program o ↔ w.TagCaptures q program o := by
  unfold TagCaptures
  simp only [hw.consults_iff_of_same h]

theorem captures_iff_of_same (h : p.same q = true) : w.Captures p ↔ w.Captures q := by
  rw [captures_iff, captures_iff, template?_eq_of_same h]
  simp only [hw.tagCaptures_iff_of_same h]

theorem answer_eq_of_same (h : p.same q = true) : w.answer p = w.answer q := by
  unfold answer
  rw [load_eq_of_same h, hw.hasComponent_eq_of_same h, hw.hasBrowserComponent_eq_of_same h,
    decide_eq_decide.mpr (hw.captures_iff_of_same h)]

end IsFixed

end

end TemplateCompiler.Workspace
