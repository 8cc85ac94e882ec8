import TemplateCompiler.Proofs.Lowering.Effects
import TemplateCompiler.Proofs.Session.Output

/-!
# Sessions with other settings

What a session finds out about a file does not depend on the options, nor on how text is lowered: it
compiles the same metadata in the same state (`exists_run_translate`). What tags stand for does not depend on
them, either.
-/

namespace TemplateCompiler

open Render

namespace Workspace

/-- The workspace with other options and another way to lower text. -/
def withSetting (w : Workspace) (options : Options) (text : TextLowering) : Workspace :=
  { w with setting := { w.setting with options, text } }

/-- The workspace with other options, and text that is lowered as they say. -/
def withOptions (w : Workspace) (options : Options) : Workspace :=
  w.withSetting options (standardText options)

/-- The workspace with another way to lower text. -/
def withText (w : Workspace) (f : TextLowering) : Workspace := w.withSetting w.setting.options f

variable {w : Workspace} {p : Path} {program : Program}

-- Other files are asked for the same summaries.
theorem fileSummary_withSetting (w : Workspace) (options : Options) (text : TextLowering) (depth : Nat) :
    (w.withSetting options text).fileSummary depth = w.fileSummary depth := by
  induction depth with
  | zero =>
    funext p
    unfold fileSummary
    rfl
  | succ depth ih =>
    funext p
    unfold fileSummary
    dsimp only
    rw [ih]
    rfl

-- A template is analysed before its setting is looked at, and the session records no more than whether it
-- compiles and what its summary is.
theorem exists_run_translate (w : Workspace) (p : Path) (hcode : program.moduleCode = none) (s : Session) :
    ∃ (c : Companions) (m : Metadata) (t : Session), (∃ capture, m = { prepared p c program with capture }) ∧
      ∀ options text, ((w.withSetting options text).translate p program).run s =
        match compileTemplate (w.withSetting options text).setting p c m program with
        | .ok compiled => (.ok compiled,
            { t with records := t.records.insert p (.analyzed compiled.metadata.summary) })
        | .error e => (.error e, { t with records := t.records.erase p }) := by
  rcases hrun : (w.analyze (w.fileSummary w.sources.length) p program).run
    { s with records := s.records.insert p .inProgress } with ⟨⟨c, m⟩, t⟩
  refine ⟨c, m, t, exists_capture_of_analyze hrun, fun options text => ?_⟩
  have hwith : ((w.withSetting options text).analyze
      ((w.withSetting options text).fileSummary w.sources.length) p program).run
        { s with records := s.records.insert p .inProgress } = ((c, m), t) := by
    rw [fileSummary_withSetting]
    exact hrun
  rw [translate, hcode]
  exact run_translateTemplate_eq hwith

-- A file of plain code is printed without regard to the setting.
theorem translate_withSetting_of_moduleCode {code : String} (hcode : program.moduleCode = some code)
    (w : Workspace) (p : Path) (options : Options) (text : TextLowering) :
    (w.withSetting options text).translate p program = w.translate p program := by
  unfold translate
  rw [hcode]

theorem kindOf_env_withSetting (w : Workspace) (p : Path) {macros : List String}
    (h : ∀ name, macros.contains name = program.macroNames.contains name) (options : Options)
    (text : TextLowering) :
    ((w.withSetting options text).setting.env p macros).kindOf =
      (w.setting.env p program.macroNames).kindOf :=
  congrArg View.kindOf (w.setting.view_env_congr p h)

-- What a session answers for a file that compiles is recorded last.
theorem summary?_insert (r : Records) (p : Path) (summary : Summary) :
    (r.insert p (.analyzed summary)).summary? p = some summary := by
  rw [Records.summary?_eq_some_iff, Records.get?_insert, if_pos (Path.same_refl p)]

theorem summary?_of_translate {s t : Session} {compiled : Compiled}
    (h : (w.translate p program).run s = (.ok compiled, t)) :
    t.records.summary? p = some compiled.metadata.summary := by
  cases hcode : program.moduleCode with
  | none =>
    rcases hrun : (w.analyze (w.fileSummary w.sources.length) p program).run
      { s with records := s.records.insert p .inProgress } with ⟨⟨c, m⟩, u⟩
    rw [translate, hcode, run_translateTemplate_eq hrun] at h
    split at h
    · cases h
      exact summary?_insert _ p _
    · cases h
  | some code =>
    rw [translate, hcode] at h
    dsimp only at h
    split at h
    · cases h
      exact summary?_insert _ p _
    · cases h

end Workspace

end TemplateCompiler
