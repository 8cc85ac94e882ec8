import Mathlib.Data.List.Forall2
import TemplateCompiler.Proofs.Analysis.Verdicts
import TemplateCompiler.Proofs.Lowering.Steps
import TemplateCompiler.Render.Assembly

/-!
# Settled metadata

What it means for the record of a file to be settled: the companions stand before the other dependencies, all of
them as seen from the file, the component is located, and nothing else is different (`IsSettled`). There is one such
record (`isSettled_iff`), and it is the one that settling leaves (`exists_isSettled`).
-/

namespace TemplateCompiler

/-! ## Parts of the record -/

/-- A dependency as seen from a file: the request for what it names, of the same kind. A value of which nothing is
known is left as it is. -/
inductive Dependency.IsSeenFrom (source : Path) (working : Option Path) : Dependency → Dependency → Prop
  | path (p : String) : IsSeenFrom source working (.path p) (.path (source.request p working))
  | package (p : String) : IsSeenFrom source working (.package p) (.package (source.request p working))
  | other (value : Json) : IsSeenFrom source working (.other value) (.other value)

theorem Dependency.isSeenFrom_iff {source : Path} {working : Option Path} {d e : Dependency} :
    IsSeenFrom source working d e ↔ e = d.relativeTo source working := by
  constructor
  · intro h
    cases h <;> rfl
  · rintro rfl
    cases d with
    | path p => exact .path p
    | package p => exact .package p
    | other value => exact .other value

theorem Dependency.forall₂_isSeenFrom_iff {source : Path} {working : Option Path} {before after : List Dependency} :
    List.Forall₂ (IsSeenFrom source working) before after ↔ after = before.map (relativeTo source working) := by
  have hsame : IsSeenFrom source working = fun d e => relativeTo source working d = e :=
    funext₂ fun d e => propext (isSeenFrom_iff.trans eq_comm)
  rw [hsame, ← List.forall₂_map_left_iff, List.forall₂_eq_eq_eq, eq_comm]

/-- Where the component of a file is, as seen from the file. A file that is split for the browser has the component
in its companion for the browser, and in no other place. Without a split, the file itself is the place if it has a
component or captures state. -/
inductive Metadata.Locates (m : Metadata) (source : Path) (working : Option Path) (c : Companions) :
    Option String → Prop
  | browser {file : String} (hsplit : m.hasBrowserComponent = true) (hfile : c.browser = some file) :
    Locates m source working c (some (source.request file working))
  | missing (hsplit : m.hasBrowserComponent = true) (hfile : c.browser = none) : Locates m source working c none
  | template (hsplit : m.hasBrowserComponent = false) (hown : m.hasComponent = true ∨ m.capture = .yes) :
    Locates m source working c (some (source.request source.text working))
  | absent (hsplit : m.hasBrowserComponent = false) (hown : m.hasComponent = false) (hcapture : m.capture ≠ .yes) :
    Locates m source working c none

theorem Metadata.locates_iff {m : Metadata} {source : Path} {working : Option Path} {c : Companions}
    {component : Option String} :
    m.Locates source working c component ↔
      component = (m.componentFile source c).map (source.request · working) := by
  unfold componentFile
  constructor
  · rintro (⟨hsplit, hfile⟩ | ⟨hsplit, hfile⟩ | ⟨hsplit, hown⟩ | ⟨hsplit, hown, hcapture⟩)
    · simp [hsplit, hfile]
    · simp [hsplit, hfile]
    · rw [← Capture.isYes_iff] at hown
      simp [hsplit, hown]
    · have hno : m.capture.isYes = false := Bool.eq_false_iff.mpr (mt Capture.isYes_iff.mp hcapture)
      simp [hsplit, hown, hno]
  · rintro rfl
    cases hsplit : m.hasBrowserComponent with
    | true =>
      cases hfile : c.browser with
      | some file => exact .browser hsplit hfile
      | none => exact .missing hsplit hfile
    | false =>
      by_cases hown : m.hasComponent = true ∨ m.capture = .yes
      · have htemplate : (m.hasComponent || m.capture.isYes) = true := by
          rwa [Bool.or_eq_true, Capture.isYes_iff]
        rw [if_neg Bool.false_ne_true, if_pos htemplate]
        exact .template hsplit hown
      · have hneither : ¬ (m.hasComponent || m.capture.isYes) = true := by
          rwa [Bool.or_eq_true, Capture.isYes_iff]
        rw [if_neg Bool.false_ne_true, if_neg hneither]
        exact .absent hsplit (Bool.eq_false_iff.mpr fun h => hown (.inl h)) fun h => hown (.inr h)

/-! ## The record -/

/-- A record that is settled for a file with companions. In front of the dependencies stand the style and the package
of the file, if it has them. -/
structure Metadata.IsSettled (source : Path) (working : Option Path) (c : Companions) (m m' : Metadata) :
    Prop where
  deps : List.Forall₂ (Dependency.IsSeenFrom source working)
    ((c.style.map Dependency.path).toList ++ (c.package.map Dependency.package).toList ++ m.deps) m'.deps
  component : m.Locates source working c m'.component
  other : { m' with deps := m.deps, component := m.component } = m

theorem Metadata.isSettled_iff {source : Path} {working : Option Path} {c : Companions} {m m' : Metadata} :
    IsSettled source working c m m' ↔ m' = m.finalize source c working := by
  constructor
  · rintro ⟨hdeps, hcomponent, hother⟩
    rw [Dependency.forall₂_isSeenFrom_iff, ← m.withCompanions_eq c] at hdeps
    rw [locates_iff] at hcomponent
    calc m' = { { m' with deps := m.deps, component := m.component } with
          deps := m'.deps, component := m'.component } := rfl
      _ = { m with deps := m'.deps, component := m'.component } := by rw [hother]
      _ = m.finalize source c working := by rw [hdeps, hcomponent]; rfl
  · rintro rfl
    refine ⟨?_, locates_iff.mpr rfl, rfl⟩
    rw [Dependency.forall₂_isSeenFrom_iff, ← m.withCompanions_eq c]
    rfl

/-- Settling succeeds. It leaves the settled record, and the rest of the state as it was. -/
theorem Render.exists_isSettled (source : Path) (working : Option Path) (c : Companions) (s : State) :
    ∃ t, outcome (finalizeMetadata source c working) s = (.ok ⟨⟩, t) ∧
      Metadata.IsSettled source working c s.metadata t.metadata ∧ { t with metadata := s.metadata } = s :=
  ⟨_, rfl, Metadata.isSettled_iff.mpr rfl, rfl⟩

end TemplateCompiler
