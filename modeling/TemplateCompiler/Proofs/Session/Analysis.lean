import TemplateCompiler.Proofs.Analysis.Verdicts
import TemplateCompiler.Proofs.Session.Capture

/-!
# Analysis with answers

When every file that analysis asks about is answered as it should be, the tags of a file are judged one
by one as `Workspace.judged` does, and what is found out in the end (`Workspace.findings`) is what the
sources say of the file.
-/

namespace TemplateCompiler

theorem Capture.isYes_record (c : Capture) (detected : Bool) :
    (c.record detected).isYes = (detected || c.isYes) := by
  cases c <;> cases detected <;> rfl

namespace Workspace

/-! ## Verdicts -/

section

variable {w : Workspace} {p g : Path} {program : Program} {o : Occurrence} {macros : List String}

theorem verdict_eq_ask_iff
    (hmacros : ∀ name, macros.contains name = true ↔ name ∈ program.macroNames) :
    o.verdict w.setting.registry p macros = .ask g ↔ w.Consults p program o g := by
  have hmem (name : String) : name ∈ macros ↔ name ∈ program.macroNames := by
    rw [← List.contains_iff_mem, hmacros]
  rw [Occurrence.verdict_eq_ask_iff, Occurrence.consults_congr hmem]
  rfl

-- A tag is left to one template at most.
theorem consults_unique {g' : Path} (h : w.Consults p program o g) (h' : w.Consults p program o g') :
    g = g' := by
  have hmacros (name : String) : program.macroNames.contains name = true ↔ name ∈ program.macroNames :=
    List.contains_iff_mem
  have hverdict := (verdict_eq_ask_iff hmacros).mpr h
  rw [(verdict_eq_ask_iff hmacros).mpr h'] at hverdict
  exact (Verdict.ask.inj hverdict).symm

theorem tagCaptures_iff_of_consults (h : w.Consults p program o g) :
    w.TagCaptures p program o ↔
      w.Captures g ∨ w.hasComponent g = true ∧ w.hasBrowserComponent g = false := by
  constructor
  · rintro (⟨-, target, hdynamic⟩ | ⟨g', hg', hexposes⟩)
    · obtain ⟨-, ⟨name, hname, -⟩, -⟩ := h
      rw [hname] at hdynamic
      cases hdynamic
    · rwa [consults_unique h hg']
  · exact fun hexposes => .inr ⟨g, h, hexposes⟩

-- A file that is not among the sources exposes nothing.
theorem not_exposes_of_answer_eq_none (h : w.answer g = none) :
    ¬(w.Captures g ∨ w.hasComponent g = true ∧ w.hasBrowserComponent g = false) := by
  have hnone : w.template? g = none := by
    rw [template?, Option.map_eq_none_iff.mp h]
    rfl
  rintro (hcaptures | ⟨hcomponent, -⟩)
  · obtain ⟨program, hprogram, -⟩ := captures_iff.mp hcaptures
    rw [hnone] at hprogram
    cases hprogram
  · rw [hasComponent, hnone] at hcomponent
    exact Bool.noConfusion hcomponent

theorem exposesState_of_answer {s : Summary} (h : w.answer g = some s) :
    s.exposesState = true ↔
      w.Captures g ∨ w.hasComponent g = true ∧ w.hasBrowserComponent g = false := by
  obtain ⟨hcapture, hcomponent, hbrowser⟩ := answer_eq_some h
  rw [Summary.exposesState, Bool.or_eq_true, Bool.and_eq_true, Bool.not_eq_true', hcapture,
    hcomponent, hbrowser]

end

/-! ## Judging with answers -/

/-- The record of a file after one more tag, if a question is answered as it should be. -/
noncomputable def judged (w : Workspace) (p : Path) (m : Metadata) (o : Occurrence) : Metadata :=
  if m.capture.isYes then m
  else
    match o.verdict w.setting.registry p m.macros with
    | .no => m
    | .yes => m.recordCapture true
    | .ask g =>
      match w.answer g with
      | some s => m.recordCapture s.exposesState
      | none => m

/-- The record of a file whose tags have not been judged yet. -/
def unjudged (w : Workspace) (p : Path) (program : Program) : Metadata :=
  { Metadata.ofPath p with companions := some (w.companionsOf p) }.prepare (w.companionsOf p) program

/-- The record of a file with the right answers to all questions. -/
noncomputable def findings (w : Workspace) (p : Path) (program : Program) : Metadata :=
  program.occurrences.foldl (w.judged p) (w.unjudged p program)

section

variable {w : Workspace} {p : Path} {program : Program} {o : Occurrence} {m : Metadata}

/-- Judging records nothing but whether state is captured. -/
theorem judged_eq (w : Workspace) (p : Path) (m : Metadata) (o : Occurrence) :
    w.judged p m o = { m with capture := (w.judged p m o).capture } := by
  unfold judged
  split
  · rfl
  · split
    · rfl
    · rfl
    · split <;> rfl

theorem isYes_judged (hmacros : ∀ name, m.macros.contains name = true ↔ name ∈ program.macroNames) :
    (w.judged p m o).capture.isYes = true ↔
      m.capture.isYes = true ∨ w.TagCaptures p program o := by
  unfold judged
  cases hyes : m.capture.isYes with
  | true => simp [hyes]
  | false =>
    rw [if_neg Bool.false_ne_true]
    cases hverdict : o.verdict w.setting.registry p m.macros with
    | no =>
      have hnot : ¬w.TagCaptures p program o := by
        rintro (hdynamic | ⟨g, hg, -⟩)
        · rw [Occurrence.verdict_eq_yes_iff.mpr hdynamic] at hverdict
          cases hverdict
        · rw [(verdict_eq_ask_iff hmacros).mpr hg] at hverdict
          cases hverdict
      simp [hyes, hnot]
    | yes =>
      have hcaptures : w.TagCaptures p program o := .inl (Occurrence.verdict_eq_yes_iff.mp hverdict)
      simp [Metadata.recordCapture, Capture.isYes_record, hcaptures]
    | ask g =>
      have hg := (verdict_eq_ask_iff hmacros).mp hverdict
      rw [tagCaptures_iff_of_consults hg]
      dsimp only
      cases hanswer : w.answer g with
      | none => simp only [hyes, not_exposes_of_answer_eq_none hanswer, or_false]
      | some s =>
        rw [← exposesState_of_answer hanswer]
        simp [Metadata.recordCapture, Capture.isYes_record, hyes]

theorem isYes_foldl_judged {occurrences : List Occurrence}
    (hmacros : ∀ name, m.macros.contains name = true ↔ name ∈ program.macroNames) :
    (occurrences.foldl (w.judged p) m).capture.isYes = true ↔
      m.capture.isYes = true ∨ ∃ o ∈ occurrences, w.TagCaptures p program o := by
  induction occurrences generalizing m with
  | nil => simp
  | cons o rest ih =>
    have hrest : ∀ name, (w.judged p m o).macros.contains name = true ↔ name ∈ program.macroNames := by
      rw [judged_eq]
      exact hmacros
    rw [List.foldl_cons, ih hrest, isYes_judged hmacros]
    simp [or_assoc]

theorem foldl_judged_eq (w : Workspace) (p : Path) (occurrences : List Occurrence) (m : Metadata) :
    occurrences.foldl (w.judged p) m =
      { m with capture := (occurrences.foldl (w.judged p) m).capture } := by
  induction occurrences generalizing m with
  | nil => rfl
  | cons o rest ih =>
    rw [List.foldl_cons, ih, judged_eq w p m o]

-- The macros that are recorded first are those of the file.
theorem contains_macros_unjudged (w : Workspace) (p : Path) (program : Program) (name : String) :
    (w.unjudged p program).macros.contains name = true ↔ name ∈ program.macroNames := by
  rw [unjudged, Metadata.prepare, Metadata.contains_macros_foldl]
  simp [Metadata.ofPath]

theorem summary_unjudged (w : Workspace) (p : Path) (program : Program) :
    (w.unjudged p program).summary =
      ⟨false, (w.companionsOf p).component.isSome || program.hasClass,
        (w.companionsOf p).browser.isSome⟩ := by
  rw [unjudged, Metadata.prepare, Metadata.foldl_addMacro_eq]
  rfl

open Classical in
/-- What is found out about a template is what the sources say of it. -/
theorem answer_eq_summary_findings (h : w.template? p = some program) :
    w.answer p = some (w.findings p program).summary := by
  obtain ⟨hload, -⟩ := template?_eq_some_iff.mp h
  have hframe := foldl_judged_eq w p program.occurrences (w.unjudged p program)
  have hstart := summary_unjudged w p program
  have hcapture : (w.findings p program).capture.isYes = true ↔ w.Captures p := by
    have hno : (w.unjudged p program).capture.isYes = false := congrArg Summary.capture hstart
    rw [findings, isYes_foldl_judged (contains_macros_unjudged w p program), hno, captures_iff, h]
    simp
  have hcomponent : (w.findings p program).hasComponent = w.hasComponent p := by
    rw [hasComponent, h]
    exact (congrArg Metadata.hasComponent hframe).trans (congrArg Summary.component hstart)
  have hbrowser : (w.findings p program).hasBrowserComponent = w.hasBrowserComponent p := by
    rw [hasBrowserComponent, h]
    exact (congrArg Metadata.hasBrowserComponent hframe).trans (congrArg Summary.browser hstart)
  rw [answer, hload, Option.map_some, Metadata.summary, hcomponent, hbrowser,
    Bool.eq_iff_iff.mpr (hcapture.trans decide_eq_true_iff.symm)]

open Classical in
-- A file of plain code has nothing to tell.
theorem answer_of_moduleCode {code : String} (hload : w.load p = some program)
    (hcode : program.moduleCode = some code) : w.answer p = some (Metadata.ofPath p).summary := by
  have hnone : w.template? p = none := by
    rw [template?, hload, Option.filter_some, hcode]
    rfl
  have hcaptures : ¬w.Captures p := by
    rw [captures_iff, hnone]
    rintro ⟨program, h, -⟩
    cases h
  rw [answer, hload, Option.map_some, hasComponent, hasBrowserComponent, hnone,
    decide_eq_false hcaptures]
  rfl

/-! ## Asking -/

variable {σ : Type} {I : σ → Prop} {ask : Path → StateM σ (Option Summary)}

/-- One tag is judged as the sources say, if all that the file asks for is answered so. What the
answers keep true stays true. -/
theorem run_judge (hprogram : w.template? p = some program)
    (hask : ∀ g s, w.Asks p g → I s →
      ((ask g).run s).1 = w.answer g ∧ I ((ask g).run s).2)
    {before rest : List Occurrence} {s : σ} (hsplit : program.occurrences = before ++ o :: rest)
    (hmacros : ∀ name, m.macros.contains name = true ↔ name ∈ program.macroNames)
    (hbefore : m.capture.isYes = true ↔ ∃ o ∈ before, w.TagCaptures p program o) (hs : I s) :
    ((o.judge w.setting.registry p ask m).run s).1.2 = w.judged p m o ∧
      I ((o.judge w.setting.registry p ask m).run s).2 := by
  unfold Occurrence.judge judged
  cases hyes : m.capture.isYes with
  | true => exact ⟨rfl, hs⟩
  | false =>
    rw [if_neg Bool.false_ne_true, if_neg Bool.false_ne_true]
    cases hverdict : o.verdict w.setting.registry p m.macros with
    | no => exact ⟨rfl, hs⟩
    | yes => exact ⟨rfl, hs⟩
    | ask g =>
      -- no tag in front captures state, so that this is one of the questions of the file
      have hasks : w.Asks p g := by
        refine ⟨program, before, o, rest, hprogram, hsplit,
          (verdict_eq_ask_iff hmacros).mp hverdict, fun o' ho' hcaptures => ?_⟩
        rw [hbefore.mpr ⟨o', ho', hcaptures⟩] at hyes
        cases hyes
      obtain ⟨hanswer, hI⟩ := hask g s hasks hs
      rcases hrun : (ask g).run s with ⟨answer, t⟩
      rw [hrun] at hanswer hI
      dsimp only at hanswer hI ⊢
      rw [StateT.run_bind, hrun, ← hanswer]
      cases answer <;> exact ⟨rfl, hI⟩

/-- So are all tags, one after the other. -/
theorem run_judgeAll (hprogram : w.template? p = some program)
    (hask : ∀ g s, w.Asks p g → I s →
      ((ask g).run s).1 = w.answer g ∧ I ((ask g).run s).2)
    (before rest : List Occurrence) (m : Metadata) (s : σ)
    (hsplit : program.occurrences = before ++ rest)
    (hmacros : ∀ name, m.macros.contains name = true ↔ name ∈ program.macroNames)
    (hbefore : m.capture.isYes = true ↔ ∃ o ∈ before, w.TagCaptures p program o) (hs : I s) :
    ((judgeAll w.setting.registry p ask rest m).run s).1 = rest.foldl (w.judged p) m ∧
      I ((judgeAll w.setting.registry p ask rest m).run s).2 := by
  -- induction on the tags that are left; those judged before say whether state is captured so far
  induction rest generalizing before m s with
  | nil => exact ⟨rfl, hs⟩
  | cons o rest ih =>
    obtain ⟨hjudged, hI⟩ := run_judge hprogram hask hsplit hmacros hbefore hs
    have hsplit' : program.occurrences = (before ++ [o]) ++ rest := by
      rw [hsplit, List.append_assoc, List.singleton_append]
    have hmacros' : ∀ name, (w.judged p m o).macros.contains name = true ↔
        name ∈ program.macroNames := by
      rw [judged_eq]
      exact hmacros
    have hbefore' : (w.judged p m o).capture.isYes = true ↔
        ∃ o' ∈ before ++ [o], w.TagCaptures p program o' := by
      rw [isYes_judged hmacros, hbefore]
      simp [or_and_right, exists_or]
    rw [run_judgeAll_cons, hjudged]
    exact ih (before ++ [o]) (w.judged p m o) _ hsplit' hmacros' hbefore' hI

end

end Workspace

end TemplateCompiler
