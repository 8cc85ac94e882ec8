import TemplateCompiler.Session
import TemplateCompiler.Proofs.Analysis.Verdicts

/-!
# Asking other files

What holds of analysis however the files that it asks for answer: two ways to answer that agree on all
states an analysis can get into lead to the same analysis, and an analysis records nothing but whether
state is captured.
-/

namespace TemplateCompiler

section

variable {σ : Type} {ask ask' : Path → StateM σ (Option Summary)} {I : σ → Prop}
  (registry : TagRegistry) (source : Path)

theorem run_judge_congr (hask : ∀ g s, I s → (ask g).run s = (ask' g).run s ∧ I ((ask g).run s).2)
    (o : Occurrence) (m : Metadata) {s : σ} (hs : I s) :
    (o.judge registry source ask m).run s = (o.judge registry source ask' m).run s ∧
      I ((o.judge registry source ask m).run s).2 := by
  unfold Occurrence.judge
  split
  · exact ⟨rfl, hs⟩
  cases o.verdict registry source m.macros with
  | no => exact ⟨rfl, hs⟩
  | yes => exact ⟨rfl, hs⟩
  | ask template =>
    have hrun := hask template s hs
    dsimp only
    rw [StateT.run_bind, StateT.run_bind, ← hrun.1]
    have hkept := hrun.2
    rcases hanswer : (ask template).run s with ⟨answer, t⟩
    rw [hanswer] at hkept
    cases answer <;> exact ⟨rfl, hkept⟩

/-- Judging tags only depends on the answers in the states that judging can get into. -/
theorem run_judgeAll_congr
    (hask : ∀ g s, I s → (ask g).run s = (ask' g).run s ∧ I ((ask g).run s).2)
    (occurrences : List Occurrence) (m : Metadata) {s : σ} (hs : I s) :
    (judgeAll registry source ask occurrences m).run s =
        (judgeAll registry source ask' occurrences m).run s ∧
      I ((judgeAll registry source ask occurrences m).run s).2 := by
  induction occurrences generalizing m s with
  | nil => exact ⟨rfl, hs⟩
  | cons o rest ih =>
    have hone := run_judge_congr registry source hask o m hs
    have hrest := ih ((o.judge registry source ask m).run s).1.2 hone.2
    rw [run_judgeAll_cons, run_judgeAll_cons, ← hone.1]
    exact hrest

theorem judge_eq (ask : Path → StateM σ (Option Summary)) (o : Occurrence) (m : Metadata) (s : σ) :
    ∃ capture, ((o.judge registry source ask m).run s).1.2 = { m with capture } := by
  unfold Occurrence.judge
  split
  · exact ⟨m.capture, rfl⟩
  cases o.verdict registry source m.macros with
  | no => exact ⟨m.capture, rfl⟩
  | yes => exact ⟨m.capture.record true, rfl⟩
  | ask template =>
    dsimp only
    rw [StateT.run_bind]
    rcases (ask template).run s with ⟨_ | summary, t⟩
    · exact ⟨m.capture, rfl⟩
    · exact ⟨m.capture.record summary.exposesState, rfl⟩

theorem judgeAll_eq (ask : Path → StateM σ (Option Summary)) (occurrences : List Occurrence)
    (m : Metadata) (s : σ) :
    ∃ capture, ((judgeAll registry source ask occurrences m).run s).1 = { m with capture } := by
  induction occurrences generalizing m s with
  | nil => exact ⟨m.capture, rfl⟩
  | cons o rest ih =>
    obtain ⟨capture, hone⟩ := judge_eq registry source ask o m s
    obtain ⟨later, hrest⟩ := ih ((o.judge registry source ask m).run s).1.2
      ((o.judge registry source ask m).run s).2
    refine ⟨later, hrest.trans ?_⟩
    rw [hone]

end

namespace Workspace

/-- The record of a file whose companions are known and whose tags have not been judged yet. -/
def prepared (p : Path) (c : Companions) (program : Program) : Metadata :=
  { Metadata.ofPath p with companions := some c }.prepare c program

-- Analysing a file: its companions are read, then its tags are judged.
theorem analyze_run (w : Workspace) (ask : Path → StateM Session (Option Summary)) (p : Path)
    (program : Program) (s : Session) :
    (w.analyze ask p program).run s =
      let c := (w.storage.companions p s.readings).1
      let r := (judgeAll w.setting.registry p ask program.occurrences (prepared p c program)).run
        { s with readings := (w.storage.companions p s.readings).2 }
      ((c, r.1), r.2) := rfl

end Workspace

end TemplateCompiler
