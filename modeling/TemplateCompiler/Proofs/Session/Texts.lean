import TemplateCompiler.Proofs.Lowering.Texts
import TemplateCompiler.Proofs.Render.Recording
import TemplateCompiler.Proofs.Session.Settings

/-!
# Texts in a session

Whatever lowers the texts of a template, a session hands over each text that is not left out exactly once,
unless it stands in a constant element, which text output writes as it is (`exists_handsTexts`).
-/

namespace TemplateCompiler

open Render

/-! ## Texts of a program -/

/-- The texts of a program that are not left out. -/
def Program.texts (v : View) (p : Program) : List String := (p.parts v).filterMap Part.text?

/-- The texts in constant elements. -/
def Scopes.foldedTexts (v : View) (s : Scopes) : List String :=
  (foldedParts (s.pieces v)).filterMap Part.text?

-- Texts at the top level are rendered.
theorem Program.texts_moduleScope (registry : TagRegistry) (source : Path) (p : Program) :
    ((p.classify registry source).scopes.moduleScope.filterMap Item.leaf?).filterMap Part.text? = [] := by
  rw [List.filterMap_filterMap, List.filterMap_eq_nil_iff]
  intro i hi
  obtain ⟨hbody, hnone⟩ := List.mem_filter.mp hi
  obtain ⟨original, -, rfl⟩ := List.mem_map.mp hbody
  cases original with
  | node n =>
    cases n with
    | leaf m l =>
      cases l with
      | text v => exact Bool.noConfusion hnone
      | _ => rfl
    | tag m t children => rfl
  | external declaration => rfl
  | statement code => rfl

/-- Each text that is not left out is handed over once, or stands in a constant element. -/
theorem Program.perm_texts (env : Env) (p : Program) :
    ((p.effects env).filterMap Effect.handed? ++
      (p.classify env.registry env.source).scopes.foldedTexts env.view).Perm (p.texts env.view) := by
  let scopes := (p.classify env.registry env.source).scopes
  have hhanded : ((p.effects env).filterMap Effect.handed?).Perm
      ((renderedParts (scopes.pieces env.view)).filterMap Part.text?) := by
    rw [effects, ((handed_effects env).2 _).1]
    exact ((Node.perm_lowered env.view).2 scopes.renderScope).1.filterMap _
  have hpieces : ((renderedParts (scopes.pieces env.view)).filterMap Part.text? ++
      scopes.foldedTexts env.view).Perm (((scopes.pieces env.view).map (·.part)).filterMap Part.text?) := by
    have hperm := (TemplateCompiler.perm_parts (scopes.pieces env.view)).filterMap Part.text?
    rwa [List.filterMap_append] at hperm
  have hparts : (((scopes.pieces env.view).map (·.part)).filterMap Part.text?).Perm (p.texts env.view) := by
    have hperm := (p.perm_parts env.view env.registry env.source).filterMap Part.text?
    rwa [List.filterMap_append, texts_moduleScope, List.append_nil] at hperm
  exact ((hhanded.append_right _).trans hpieces).trans hparts

-- Tree output has no elements that are written as they are.
theorem Scopes.foldedTexts_of_isHtml_eq_false {v : View} (h : v.isHtml = false) (s : Scopes) :
    s.foldedTexts v = [] := by
  rw [foldedTexts, pieces, Node.foldedParts_of_isHtml_eq_false h]
  rfl

/-! ## Compiling -/

/-- What a template that compiles is lowered from and printed from, whatever lowers its texts. -/
theorem exists_lowered_of_compileTemplate {setting : Setting} {source : Path} {companions : Companions}
    {m : Metadata} {p : Program} {compiled : Compiled}
    (h : compileTemplate setting source companions m p = .ok compiled) :
    ∃ (definition value : String) (flags : RendererOptions) (ops : List LoweredOp) (s t : State),
      outcome (lowerAll (setting.env source m.macros)
        (p.classify setting.registry source).scopes.renderScope) s = (.ok ops, t) ∧
      compiled.Emits definition ops value flags := by
  let scope := (p.classify setting.registry source).scopes.moduleScope
  have hrender := isRender_moduleScope setting.registry source setting.working scope m
  obtain ⟨tags, hscope⟩ := exists_tags_moduleScope setting.registry source setting.working scope m
  unfold compileTemplate at h
  dsimp only at h
  split at h
  · rename_i module templateMeta u hrun
    cases h
    obtain ⟨ops, t, value, flags, _, hops, hemits, _⟩ := exists_emits_of_compileScopes hrender hrun
    rw [hscope] at hops
    exact ⟨_, value, flags, ops, _, t, hops, hemits.emits hrender⟩
  · cases h

-- How text is lowered only matters where a template is lowered.
theorem compileTemplate_congr (options : Options) (registry : TagRegistry) (working : Option Path) (source : Path)
    (companions : Companions) (m : Metadata) (p : Program) {f g : TextLowering}
    (h : lowerAll (Setting.env ⟨options, registry, f, working⟩ source m.macros)
        (p.classify registry source).scopes.renderScope =
      lowerAll (Setting.env ⟨options, registry, g, working⟩ source m.macros)
        (p.classify registry source).scopes.renderScope) :
    compileTemplate ⟨options, registry, f, working⟩ source companions m p =
      compileTemplate ⟨options, registry, g, working⟩ source companions m p := by
  let scope := (p.classify registry source).scopes.moduleScope
  have hmacros : (moduleScope registry source working scope m).2.2.macros = m.macros := by
    obtain ⟨tags, hscope⟩ := exists_tags_moduleScope registry source working scope m
    rw [hscope]
  unfold compileTemplate compileScopes
  dsimp only
  rw [hmacros, h]
  rfl

-- The macros of a file do not depend on what stands beside it.
theorem macros_foldl_congr (names : List String) {m m' : Metadata} (h : m.macros = m'.macros) :
    (names.foldl Metadata.addMacro m).macros = (names.foldl Metadata.addMacro m').macros := by
  induction names generalizing m m' with
  | nil => exact h
  | cons name rest ih =>
    apply ih
    unfold Metadata.addMacro
    rw [h]
    split
    · exact h
    · rfl

namespace Workspace

variable {w : Workspace} {p : Path} {program : Program}

theorem macros_prepared (p : Path) (c : Companions) (program : Program) :
    (prepared p c program).macros = (prepared p {} program).macros :=
  macros_foldl_congr program.macroNames rfl

/-- Ways to lower text that agree on the texts that are handed over make the same of a template. -/
theorem translate_withText_congr (hcode : program.moduleCode = none) {f g : TextLowering}
    (h : ∀ m text, .hand m text ∈ program.effects (w.setting.env p (prepared p {} program).macros) →
      f m text = g m text) :
    (w.withText f).translate p program = (w.withText g).translate p program := by
  funext s
  let env := w.setting.env p (prepared p {} program).macros
  let rendered := (program.classify w.setting.registry p).scopes.renderScope
  have hlower : lowerAll (env.withText f) rendered = lowerAll (env.withText g) rendered :=
    ((makes_lower env).2 rendered).1.congr h
  obtain ⟨c, m, t, ⟨capture, hm⟩, hrun⟩ := exists_run_translate w p hcode s
  have hmacros : m.macros = (prepared p {} program).macros := by
    rw [hm]
    exact macros_prepared p c program
  have hcompile : compileTemplate (w.withText f).setting p c m program =
      compileTemplate (w.withText g).setting p c m program := by
    apply compileTemplate_congr
    rw [hmacros]
    exact hlower
  have hf := hrun w.setting.options f
  have hg := hrun w.setting.options g
  rw [← withText] at hf hg
  rw [hcompile, ← hg] at hf
  exact hf

/-- Each text of a template that is not left out is handed over exactly once, whatever lowers it, unless it
stands in a constant element in text output. Nothing else depends on what lowers texts; and the module of a
template that compiles is printed from operations that hold what becomes of each text that is handed over. -/
structure HandsTexts (w : Workspace) (p : Path) (program : Program) (env : Env) : Prop where
  makes : Makes p.text (program.effects env) fun f =>
    lowerAll (env.withText f) (program.classify w.setting.registry p).scopes.renderScope
  perm_texts : ((program.effects env).filterMap Effect.handed? ++
    (program.classify w.setting.registry p).scopes.foldedTexts env.view).Perm (program.texts env.view)
  foldedTexts_eq_nil : env.isHtml = false →
    (program.classify w.setting.registry p).scopes.foldedTexts env.view = []
  translate_congr : ∀ f g : TextLowering,
    (∀ m text, .hand m text ∈ program.effects env → f m text = g m text) →
      (w.withText f).translate p program = (w.withText g).translate p program
  exists_holds : ∀ (f : TextLowering) (s : Session) (compiled : Compiled),
    (((w.withText f).translate p program).run s).1 = .ok compiled →
      ∃ (definition value : String) (flags : RendererOptions) (ops : List LoweredOp)
        (start finish : State),
        outcome (lowerAll (env.withText f) (program.classify w.setting.registry p).scopes.renderScope)
          start = (.ok ops, finish) ∧
        compiled.Emits definition ops value flags ∧
        Holds f ((program.effects env).filterMap Effect.handed?) ops

/-- All templates hand over their texts. -/
theorem exists_handsTexts (w : Workspace) (p : Path) (program : Program)
    (hcode : program.moduleCode = none) :
    ∃ macros : List String, (∀ name, macros.contains name = program.macroNames.contains name) ∧
      w.HandsTexts p program (w.setting.env p macros) := by
  refine ⟨(prepared p {} program).macros, ?_, ?_⟩
  · intro name
    rw [Bool.eq_iff_iff, prepared, Metadata.prepare, Metadata.contains_macros_foldl]
    simp [Metadata.ofPath]
  · let env := w.setting.env p (prepared p {} program).macros
    let rendered := (program.classify w.setting.registry p).scopes.renderScope
    constructor
    case makes => exact ((makes_lower env).2 rendered).1
    case perm_texts => exact program.perm_texts env
    case foldedTexts_eq_nil => exact fun hdom => Scopes.foldedTexts_of_isHtml_eq_false hdom _
    case translate_congr => exact fun f g h => translate_withText_congr hcode h
    case exists_holds =>
      intro f s compiled hok
      obtain ⟨c, capture, hcompiled⟩ := exists_compileTemplate hcode hok
      obtain ⟨definition, value, flags, ops, start, finish, hrun, hemits⟩ :=
        exists_lowered_of_compileTemplate hcompiled
      have hmacros := macros_prepared p c program
      have henv : (w.withText f).setting.env p (prepared p c program).macros = env.withText f := by
        rw [hmacros]
        rfl
      have hrun' : outcome (lowerAll (env.withText f) rendered) start = (.ok ops, finish) := by
        rw [← henv]
        exact hrun
      have htexts : (program.effects env).filterMap Effect.handed? =
          (Node.loweredIn env.view rendered).filterMap Part.text? := ((handed_effects env).2 rendered).1
      refine ⟨definition, value, flags, ops, start, finish, hrun', hemits, ?_⟩
      rw [htexts]
      exact holds_lowerAll hrun'

/-- A text under a condition, beside one in a constant element. -/
theorem exists_handsTexts_condition :
    let place : Marks := ⟨false, ⟨1, 1⟩⟩
    let page : Program := ⟨[.node (.tag place ⟨.static "div", [], none, []⟩ [
      .tag place ⟨.static "if", [], some "input.show", []⟩ [.leaf place (.text "hello")],
      .tag place ⟨.static "p", [], none, []⟩ [.leaf place (.text "hi")]])], none⟩
    let file : Path := ⟨"/app/page.marko"⟩
    let w := ofTables {} [] [] []
    page.moduleCode = none ∧
      ∃ macros : List String, (∀ name, macros.contains name = page.macroNames.contains name) ∧
        w.HandsTexts file page (w.setting.env file macros) := by
  intro place page file w
  exact ⟨rfl, exists_handsTexts w file page rfl⟩

/-- A text in a constant element inside of another one: it is not left out, but nothing is handed over, and
the module is the same whether or not texts are marked. -/
theorem exists_text_not_handed :
    let place : Marks := ⟨false, ⟨1, 1⟩⟩
    let page : Program := ⟨[.node (.tag place ⟨.static "div", [], none, []⟩ [
      .tag place ⟨.static "p", [], none, []⟩ [.leaf place (.text "hi")]])], none⟩
    let file : Path := ⟨"/app/page.marko"⟩
    let w := ofTables {} [] [] []
    let mark : TextLowering := fun _ text => pure [.code (.authored ("mark(" ++ Json.quote text ++ ");"))]
    page.texts (w.setting.env file page.macroNames).view = ["hi"] ∧
      page.effects (w.setting.env file page.macroNames) = [] ∧
      (((w.withText mark).translate file page).run .new).1.toOption.isSome = true ∧
      (w.withText mark).translate file page = w.translate file page := by
  intro place page file w mark
  have hnone : page.effects (w.setting.env file (prepared file {} page).macros) = [] := by decide +kernel
  refine ⟨by decide +kernel, by decide +kernel, by decide +kernel, ?_⟩
  have hsame : (w.withText mark).translate file page = (w.withText w.setting.text).translate file page := by
    apply translate_withText_congr rfl
    intro m text h
    rw [hnone] at h
    cases h
  exact hsame

end Workspace

end TemplateCompiler
