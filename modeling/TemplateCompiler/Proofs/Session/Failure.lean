import TemplateCompiler.Proofs.Session.Loading

/-!
# Files that do not compile

A template that does not compile loses its record, while the summaries of all other files stay. Plain code
is read before the session is looked at, so that a failure there leaves the session as it was, with the record
that the file had as a template (`exists_record_of_failure`). Hence a file without a record is what a failure
leaves behind exactly if the file is a template or had no record (`summary?_of_error`).
-/

namespace TemplateCompiler

namespace Workspace

variable {w : Workspace} {p : Path} {program : Program} {s t : Session} {e : Error}

-- The mark of a file in progress goes away together with the file.
theorem summary?_of_error_of_template (hcode : program.moduleCode = none)
    (h : (w.translate p program).run s = (.error e, t)) : t.records.summary? p = none := by
  rcases hrun : (w.analyze (w.fileSummary w.sources.length) p program).run
    { s with records := s.records.insert p .inProgress } with ⟨⟨c, m⟩, u⟩
  rw [translate, hcode, run_translateTemplate_eq hrun] at h
  cases hcompiled : compileTemplate w.setting p c m program with
  | ok compiled =>
    rw [hcompiled] at h
    cases h
  | error other =>
    rw [hcompiled] at h
    cases h
    show (u.records.erase p).summary? p = none
    unfold Records.summary?
    rw [Records.get?_erase, if_pos (Path.same_refl p)]

-- There is no such mark for plain code, and nothing to take away.
theorem eq_of_error_of_moduleCode {code : String} (hcode : program.moduleCode = some code)
    (h : (w.translate p program).run s = (.error e, t)) : t = s := by
  rw [translate, hcode] at h
  dsimp only at h
  cases hcompiled : compileCode p code with
  | ok compiled =>
    rw [hcompiled] at h
    cases h
  | error other =>
    rw [hcompiled] at h
    cases h
    rfl

/-- After a failure the file has no record exactly if it is a template or had none before. Plain code leaves
the whole session as it was, and all other files keep their summaries in either case. -/
theorem summary?_of_error (w : Workspace) (p : Path) (program : Program) (s t : Session) (e : Error)
    (h : (w.translate p program).run s = (.error e, t)) :
    (t.records.summary? p = none ↔ program.moduleCode = none ∨ s.records.summary? p = none) ∧
      (program.moduleCode ≠ none → t = s) ∧
      ∀ q summary, q.same p = false → s.records.summary? q = some summary →
        t.records.summary? q = some summary := by
  have hcompiles := w.compiles_translate p program s
  rw [h] at hcompiles
  refine ⟨?_, fun hcode => ?_, fun q summary hne hq => ?_⟩
  · cases hcode : program.moduleCode with
    | none => exact iff_of_true (summary?_of_error_of_template hcode h) (.inl rfl)
    | some code =>
      rw [eq_of_error_of_moduleCode hcode h]
      simp
  · obtain ⟨code, hcode⟩ := Option.ne_none_iff_exists'.mp hcode
    exact eq_of_error_of_moduleCode hcode h
  · rw [Records.summary?_eq_some_iff] at hq ⊢
    exact hcompiles.kept q summary hne hq

/-- A page whose attribute is no expression, compiled behind a card and the page as it was before. -/
theorem summary?_of_error_attribute :
    let place : Marks := ⟨false, ⟨1, 1⟩⟩
    let page (value : String) : Program :=
      ⟨[.node (.tag place ⟨.static "div", [⟨"title", value⟩], none, []⟩ [])], none⟩
    let card : Program := ⟨[.node (.leaf place (.component "class \x7b \x7d"))], none⟩
    let w := ofTables {} [] [] []
    let s := ((do
      let _ ← w.translate ⟨"/app/card.marko"⟩ card
      w.translate ⟨"/app/page.marko"⟩ (page "input.title")).run .new).2
    let r := (w.translate ⟨"/app/page.marko"⟩ (page "input.(")).run s
    ∃ e, r = (.error e, r.2) ∧
      (r.2.records.summary? ⟨"/app/page.marko"⟩ = none ↔ (page "input.(").moduleCode = none ∨
        s.records.summary? ⟨"/app/page.marko"⟩ = none) ∧
      ((page "input.(").moduleCode ≠ none → r.2 = s) ∧
      ∀ q summary, q.same ⟨"/app/page.marko"⟩ = false → s.records.summary? q = some summary →
        r.2.records.summary? q = some summary := by
  intro place page card w s r
  have hnone : r.1.toOption.isNone = true := by
    decide +kernel
  obtain ⟨e, hrun⟩ := exists_eq_error_of_isNone hnone
  exact ⟨e, hrun, summary?_of_error w ⟨"/app/page.marko"⟩ (page "input.(") s r.2 e hrun⟩

/-- A page that was a template and then becomes plain code which does not parse keeps the record of the
template. -/
theorem exists_record_of_failure :
    let page : Program := ⟨[.node (.leaf ⟨false, ⟨1, 1⟩⟩ (.component "class \x7b \x7d"))], none⟩
    let code : Program := ⟨[], some "export default function ("⟩
    let file : Path := ⟨"/app/page.marko"⟩
    let w := ofTables {} [] [] []
    let s := ((w.translate file page).run .new).2
    let r := (w.translate file code).run s
    w.Arises s ∧ r.1.toOption.isNone = true ∧ r.2.records.summary? file = some ⟨false, true, false⟩ := by
  intro page code file w s r
  have hs : w.Arises s := .translate _ _ .new
  have hnone : r.1.toOption.isNone = true := by decide +kernel
  have hrecord : r.2.records.summary? file = some ⟨false, true, false⟩ := by decide +kernel
  exact ⟨hs, hnone, hrecord⟩

end Workspace

end TemplateCompiler
