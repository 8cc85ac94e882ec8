import TemplateCompiler.Proofs.Lowering.Comments
import TemplateCompiler.Proofs.Render.Casing
import TemplateCompiler.Proofs.Session.Settings

/-!
# Comments in a session

A session makes the same of a program without some of its comments, if these are not preserved: it comes to the
same error, or to the same metadata and a module that differs by functions for content that do nothing. The
module is the same, too, as long as no tag that takes input loses all of its content
(`translate_of_drops`).
-/

namespace TemplateCompiler

open Render

theorem alike_compileTemplate {S : List LoweredOp → List LoweredOp → Prop} (hS : IsCongruence S)
    {setting : Setting} (hoff : setting.options.preserveComments = false) {source : Path}
    {mayEmpty : Tag → Bool} {m : Metadata}
    (hempty : ∀ t, ((setting.env source m.macros).kindOf t).takesInput = true → mayEmpty t = true →
      ∀ object, S [.block (.renderBody object t.params) []] [])
    {p rest : Program} (h : p.Drops mayEmpty rest) (companions : Companions) :
    Alike Eq (Compiled.SameUpTo S) (compileTemplate setting source companions m p)
      (compileTemplate setting source companions m rest) := by
  rw [compileTemplate_eq, compileTemplate_eq]
  dsimp only
  rw [← h.declaredNames, ← h.moduleScope setting.registry source]
  have hmacros : (moduleScope setting.registry source setting.working
      (p.classify setting.registry source).scopes.moduleScope m).2.2.macros = m.macros := by
    obtain ⟨tags, hscope⟩ := exists_tags_moduleScope setting.registry source setting.working
      (p.classify setting.registry source).scopes.moduleScope m
    rw [hscope]
  rw [hmacros]
  exact Compiled.alike_ofRun (related_compileScopes
    (related_lowerAll_of_drops hS hoff hempty (h.renderScope setting.registry source)).1 _ _ _ _) _

namespace Workspace

variable {w : Workspace} {p : Path} {program rest : Program}

theorem alike_translate {S : List LoweredOp → List LoweredOp → Prop} (hS : IsCongruence S)
    (hoff : w.setting.options.preserveComments = false) {mayEmpty : Tag → Bool}
    (hempty : ∀ t, ((w.setting.env p program.macroNames).kindOf t).takesInput = true → mayEmpty t = true →
      ∀ object, S [.block (.renderBody object t.params) []] [])
    (h : program.Drops mayEmpty rest) (hcode : program.moduleCode = none) (s : Session) :
    Alike Eq (Compiled.SameUpTo S) ((w.translate p program).run s).1 ((w.translate p rest).run s).1 ∧
      ((w.translate p program).run s).2 = ((w.translate p rest).run s).2 := by
  -- an analysis does not look at comments, so both are lowered from the same metadata
  have hanalyze (ask : Path → StateM Session (Option Summary)) :
      w.analyze ask p program = w.analyze ask p rest := by
    unfold analyze
    simp only [h.analyze]
  rcases hrun : (w.analyze (w.fileSummary w.sources.length) p program).run
    { s with records := s.records.insert p .inProgress } with ⟨⟨c, m⟩, t⟩
  have hrest := hrun
  rw [hanalyze] at hrest
  obtain ⟨capture, rfl⟩ := exists_capture_of_analyze hrun
  have hkind : (w.setting.env p (prepared p c program).macros).kindOf =
      (w.setting.env p program.macroNames).kindOf :=
    congrArg View.kindOf (w.setting.view_env_congr p (contains_macros_prepared p c program))
  have halike : Alike Eq (Compiled.SameUpTo S)
      (compileTemplate w.setting p c { prepared p c program with capture } program)
      (compileTemplate w.setting p c { prepared p c program with capture } rest) := by
    refine alike_compileTemplate hS hoff (fun t htakes => hempty t ?_) h c
    rw [← hkind]
    exact htakes
  rw [translate, translate, ← h.moduleCode, hcode, run_translateTemplate_eq hrun,
    run_translateTemplate_eq hrest]
  rcases hx : compileTemplate w.setting p c { prepared p c program with capture } program with e | a <;>
    rcases hy : compileTemplate w.setting p c { prepared p c program with capture } rest with e' | b <;>
    rw [hx, hy] at halike
  · exact ⟨halike, rfl⟩
  · exact halike.elim
  · exact halike.elim
  · refine ⟨halike, ?_⟩
    dsimp only
    rw [halike.metadata]

theorem translate_of_drops_of_moduleCode (w : Workspace) (p : Path) {mayEmpty : Tag → Bool}
    (h : program.Drops mayEmpty rest) (hcode : program.moduleCode.isSome = true) :
    w.translate p program = w.translate p rest := by
  obtain ⟨code, hcode⟩ := Option.isSome_iff_exists.mp hcode
  rw [translate, translate, ← h.moduleCode, hcode]

/-- Without comments that are not preserved a program comes to the same error, or to the same metadata, and
leaves the same session; its module differs by functions for content that do nothing, if it differs at all. It
does not differ where each tag that takes input and has content keeps some. -/
theorem translate_of_drops (w : Workspace) (hoff : w.setting.options.preserveComments = false) (p : Path)
    (program rest : Program) (s : Session) :
    let result := (w.translate p program).run s
    let without := (w.translate p rest).run s
    (program.Drops (fun _ => true) rest →
      Alike Eq (fun a b => a = b ∨ a.SameUpTo Trims b) result.1 without.1 ∧ result.2 = without.2) ∧
    (program.Drops (fun t => !((w.setting.env p program.macroNames).kindOf t).takesInput) rest →
      result = without) := by
  intro result without
  cases hcode : program.moduleCode with
  | some code =>
    have hsame {mayEmpty : Tag → Bool} (h : program.Drops mayEmpty rest) : result = without := by
      dsimp only [result, without]
      rw [translate_of_drops_of_moduleCode w p h (by rw [hcode]; rfl)]
    refine ⟨fun h => ⟨?_, congrArg Prod.snd (hsame h)⟩, hsame⟩
    rw [hsame h]
    exact (alike_eq_iff.mpr rfl).imp fun a b hab => .inl hab
  | none =>
    refine ⟨fun h => ?_, fun h => ?_⟩
    · obtain ⟨halike, hsession⟩ := alike_translate isCongruence_trims hoff
        (fun t _ _ object => .leaveOut object t.params .nil) h hcode s
      exact ⟨halike.imp fun a b hab => .inr hab, hsession⟩
    · obtain ⟨halike, hsession⟩ := alike_translate isCongruence_eq hoff
        (fun t htakes hmay => absurd hmay (by rw [htakes]; decide)) h hcode s
      exact Prod.ext (alike_eq_iff.mp (halike.imp fun a b hab => hab.eq)) hsession

/-- A page with comments around a card, in the card beside a text, and in an element alone. -/
theorem translate_of_drops_page :
    let place : Marks := ⟨false, ⟨1, 1⟩⟩
    let comment : Node := .leaf place (.comment " c ")
    let text : Node := .leaf place (.text "hi")
    let card : Tag := ⟨.static "card", [], none, []⟩
    let div : Tag := ⟨.static "div", [], none, []⟩
    let page : Program := ⟨[.node comment, .node (.tag place card [comment, text]),
      .node (.tag place div [comment])], none⟩
    let bare : Program := ⟨[.node (.tag place card [text]), .node (.tag place div [])], none⟩
    let file : Path := ⟨"/app/page.marko"⟩
    let w := ofTables {} [.ofTemplate "card" ⟨"/app/card.marko"⟩] [] []
    w.setting.options.preserveComments = false ∧
      page.Drops (fun _ => true) bare ∧
      page.Drops (fun t => !((w.setting.env file page.macroNames).kindOf t).takesInput) bare ∧
      ((w.translate file page).run .new).1.toOption.isSome = true ∧
      (w.translate file page).run .new = (w.translate file bare).run .new := by
  intro place comment text card div page bare file w
  have hdrops (mayEmpty : Tag → Bool) (hdiv : mayEmpty div = true) : page.Drops mayEmpty bare :=
    ⟨.comment place " c " (.tag place card (.comment place " c " (.keep text .nil)) (fun _ => .inl rfl)
      (.tag place div (.comment place " c " .nil) (fun _ => .inr hdiv) .nil)), rfl⟩
  have hdiv : (!((w.setting.env file page.macroNames).kindOf div).takesInput) = true := by
    decide +kernel
  refine ⟨rfl, hdrops _ rfl, hdrops _ hdiv, by decide +kernel, ?_⟩
  exact (translate_of_drops w rfl file page bare .new).2 (hdrops _ hdiv)

/-- A card with nothing but a comment is told that it has content. -/
theorem exists_comment_with_trace :
    let place : Marks := ⟨false, ⟨1, 1⟩⟩
    let card : Tag := ⟨.static "card", [], none, []⟩
    let page : Program := ⟨[.node (.tag place card [.leaf place (.comment " c ")])], none⟩
    let bare : Program := ⟨[.node (.tag place card [])], none⟩
    let options : Options := { writeVersionComment := false, writeMeta := false }
    let w := ofTables options [.ofTemplate "card" ⟨"/app/card.marko"⟩] [] []
    let code (program : Program) : Option String :=
      ((w.translate ⟨"/app/page.marko"⟩ program).run .new).1.toOption.map (·.code)
    options.preserveComments = false ∧ page.Drops (fun _ => true) bare ∧ code page ≠ code bare := by
  intro place card page bare options w code
  exact ⟨rfl, ⟨.tag place card (.comment place " c " .nil) (fun _ => .inr rfl) .nil, rfl⟩,
    by decide +kernel⟩

end Workspace

end TemplateCompiler
