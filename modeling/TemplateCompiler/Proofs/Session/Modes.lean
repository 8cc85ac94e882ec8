import TemplateCompiler.Proofs.Lowering.Modes
import TemplateCompiler.Proofs.Render.Recording
import TemplateCompiler.Proofs.Session.Settings

/-!
# Compiling with other options

What a session finds out about a file does not depend on the options, and neither does what it records of
a file that it compiles (`recorded_eq_of_options`). Text output checks the attributes of a native element
one by one, and tree output the object made of them: a file compiles in both or in neither if these checks
agree for each element (`exists_ok_iff_of_options`).
-/

namespace TemplateCompiler

open Render

/-- The settled metadata are the same in both kinds of output. -/
theorem Program.settled_congr {p : Program} {a b : Env} (hkind : a.kindOf = b.kindOf)
    (hregistry : a.registry = b.registry) (hsource : a.source = b.source) (hworking : a.working = b.working)
    (hvoids : p.hasEmptyVoids a = true) (companions : Companions) (m : Metadata) :
    p.settled a companions m = p.settled b companions m := by
  have hrequests : (p.effects a).filterMap Effect.request? = (p.effects b).filterMap Effect.request? := by
    rw [effects, effects, ← hregistry, ← hsource]
    exact (p.agree_renderScope hkind hregistry hsource hvoids).requests
  unfold settled
  rw [hrequests, hregistry, hsource, hworking]

namespace Workspace

variable {w : Workspace} {p : Path} {program : Program}

/-- Whatever the options are, the same is recorded of a file that compiles, the same metadata are attached
to it, and the session is the same afterwards. -/
theorem recorded_eq_of_options (w : Workspace) (p : Path) (program : Program) (s t₁ t₂ : Session)
    (o₁ o₂ : Options) (c₁ c₂ : Compiled)
    (hvoids : program.hasEmptyVoids (w.setting.env p program.macroNames) = true)
    (h₁ : ((w.withOptions o₁).translate p program).run s = (.ok c₁, t₁))
    (h₂ : ((w.withOptions o₂).translate p program).run s = (.ok c₂, t₂)) :
    c₁.metadata = c₂.metadata ∧ c₁.templateMeta = c₂.templateMeta ∧ t₁ = t₂ ∧
      t₁.records.summary? p = some c₁.metadata.summary := by
  have hsummary := summary?_of_translate h₁
  rw [withOptions] at h₁ h₂
  cases hcode : program.moduleCode with
  | some code =>
    rw [translate_withSetting_of_moduleCode hcode] at h₁ h₂
    rw [h₁] at h₂
    cases h₂
    exact ⟨rfl, rfl, rfl, hsummary⟩
  | none =>
    obtain ⟨c, m, t, ⟨capture, rfl⟩, hrun⟩ := exists_run_translate w p hcode s
    rw [hrun] at h₁ h₂
    split at h₁
    · rename_i d₁ hcompiled₁
      split at h₂
      · rename_i d₂ hcompiled₂
        cases h₁
        cases h₂
        obtain ⟨hmetadata₁, hmeta₁⟩ := recorded_of_compileTemplate rfl hcompiled₁
        obtain ⟨hmetadata₂, hmeta₂⟩ := recorded_of_compileTemplate rfl hcompiled₂
        have hmacros := contains_macros_prepared p c program
        -- the kinds of tags do not depend on options, and what is settled depends on those only
        have hkind₁ := kindOf_env_withSetting w p hmacros o₁ (standardText o₁)
        have hkind₂ := kindOf_env_withSetting w p hmacros o₂ (standardText o₂)
        rw [← Program.hasEmptyVoids_congr hkind₁] at hvoids
        have hmetadata : c₁.metadata = c₂.metadata := by
          rw [hmetadata₁, hmetadata₂]
          exact Program.settled_congr (hkind₁.trans hkind₂.symm) rfl rfl rfl hvoids c _
        refine ⟨hmetadata, ?_, ?_, hsummary⟩
        · rw [hmeta₁, hmeta₂, hmetadata]
        · rw [hmetadata]
      · cases h₂
    · cases h₁

/-- A card in an element beside a constant one, in text output and in tree output. -/
theorem recorded_eq_of_options_card :
    let place : Marks := ⟨false, ⟨1, 1⟩⟩
    let page : Program := ⟨[.node (.tag place ⟨.static "div", [⟨"title", "input.title"⟩], none, []⟩ [
      .tag place ⟨.static "p", [⟨"class", "'lead'"⟩], none, []⟩ [.leaf place (.text "hi")],
      .tag place ⟨.static "card", [⟨"size", "1"⟩], none, ["item"]⟩ [
        .leaf place (.placeholder "item.name" true)]])], none⟩
    let card : Program := ⟨[.node (.leaf place (.component "class \x7b \x7d"))], none⟩
    let file : Path := ⟨"/app/page.marko"⟩
    let w := ofTables {} [.ofTemplate "card" ⟨"/app/card.marko"⟩] [] [(⟨"/app/card.marko"⟩, card)]
    ∃ c₁ c₂ t₁ t₂,
      ((w.withOptions {}).translate file page).run .new = (.ok c₁, t₁) ∧
      ((w.withOptions { output := .dom {}, optimize := true }).translate file page).run .new =
        (.ok c₂, t₂) ∧
      c₁.metadata = c₂.metadata ∧ c₁.templateMeta = c₂.templateMeta ∧ t₁ = t₂ ∧
      t₁.records.summary? file = some c₁.metadata.summary := by
  intro place page card file w
  have hok₁ : (((w.withOptions {}).translate file page).run .new).1.toOption.isSome = true := by
    decide +kernel
  have hok₂ : (((w.withOptions { output := .dom {}, optimize := true }).translate file page).run
      .new).1.toOption.isSome = true := by decide +kernel
  obtain ⟨c₁, h₁⟩ := exists_eq_ok_pair_of_isSome hok₁
  obtain ⟨c₂, h₂⟩ := exists_eq_ok_pair_of_isSome hok₂
  have hvoids : page.hasEmptyVoids (w.setting.env file page.macroNames) = true := by decide +kernel
  exact ⟨c₁, c₂, _, _, h₁, h₂,
    recorded_eq_of_options w file page .new _ _ {} _ c₁ c₂ hvoids h₁ h₂⟩

/-- With options that agree on whether metadata are attached, a file compiles with the ones exactly if it
compiles with the others, if the attributes of each native element are expressions one by one exactly if
they are one as an object. -/
theorem exists_ok_iff_of_options (w : Workspace) (p : Path) (program : Program) (s : Session)
    (o₁ o₂ : Options) (hmeta : o₁.writeMeta = o₂.writeMeta)
    (hvoids : program.hasEmptyVoids (w.setting.env p program.macroNames) = true)
    (heven : program.isEven (w.setting.registry.isNative p) = true) :
    (∃ compiled, (((w.withOptions o₁).translate p program).run s).1 = .ok compiled) ↔
      ∃ compiled, (((w.withOptions o₂).translate p program).run s).1 = .ok compiled := by
  rw [withOptions, withOptions]
  cases hcode : program.moduleCode with
  | some code =>
    rw [translate_withSetting_of_moduleCode hcode, translate_withSetting_of_moduleCode hcode]
  | none =>
    obtain ⟨c, m, t, ⟨capture, hm⟩, hrun⟩ := exists_run_translate w p hcode s
    have hcompiles (options : Options) (text : TextLowering) :
        (∃ compiled, (((w.withSetting options text).translate p program).run s).1 = .ok compiled) ↔
          ∃ compiled, compileTemplate (w.withSetting options text).setting p c m program =
            .ok compiled := by
      rw [hrun]
      cases compileTemplate (w.withSetting options text).setting p c m program with
      | ok compiled => exact Iff.rfl
      | error e => exact Iff.rfl
    have hmacros (name : String) : m.macros.contains name = program.macroNames.contains name := by
      rw [hm]
      exact contains_macros_prepared p c program name
    have hkind₁ := kindOf_env_withSetting w p hmacros o₁ (standardText o₁)
    have hkind₂ := kindOf_env_withSetting w p hmacros o₂ (standardText o₂)
    rw [← Program.hasEmptyVoids_congr hkind₁] at hvoids
    have hagree := (program.agree_renderScope (hkind₁.trans hkind₂.symm) rfl rfl hvoids).accepted heven
    have hattachable (m : Metadata) : m.isAttachable o₁ = m.isAttachable o₂ := by
      rw [Metadata.isAttachable, hmeta]
      rfl
    rw [hcompiles, hcompiles, exists_compileTemplate_iff rfl, exists_compileTemplate_iff rfl]
    exact and_congr hagree (Eq.congr_left (hattachable _))

/-- Text output and tree output of an element with an attribute in a constant one. -/
theorem exists_ok_iff_of_options_element :
    let place : Marks := ⟨false, ⟨1, 1⟩⟩
    let page : Program := ⟨[.node (.tag place ⟨.static "p", [⟨"class", "'lead'"⟩], none, []⟩ [
      .tag place ⟨.static "b", [⟨"title", "input.title"⟩], none, []⟩ [.leaf place (.text "hi")],
      .tag place ⟨.static "br", [], none, []⟩ []])], none⟩
    let file : Path := ⟨"/app/page.marko"⟩
    let w := ofTables {} [] [] []
    page.hasEmptyVoids (w.setting.env file page.macroNames) = true ∧
      page.isEven (w.setting.registry.isNative file) = true ∧
      ((∃ compiled, (((w.withOptions {}).translate file page).run .new).1 = .ok compiled) ↔
        ∃ compiled, (((w.withOptions { output := .dom {} }).translate file page).run .new).1 =
          .ok compiled) := by
  intro place page file w
  have hvoids : page.hasEmptyVoids (w.setting.env file page.macroNames) = true := by decide +kernel
  have heven : page.isEven (w.setting.registry.isNative file) = true := by decide +kernel
  exact ⟨hvoids, heven, exists_ok_iff_of_options w file page .new {} _ rfl hvoids heven⟩

/-- A trailing comma only parses in an object, and what stands behind a number only parses outside of one:
a page with the one compiles in tree output only, a page with the other in text output only. -/
theorem exists_page_for_one_output :
    let place : Marks := ⟨false, ⟨1, 1⟩⟩
    let page (value : String) : Program :=
      ⟨[.node (.tag place ⟨.static "div", [⟨"title", value⟩], none, []⟩ [])], none⟩
    let file : Path := ⟨"/app/page.marko"⟩
    let w := ofTables {} [] [] []
    let compiles (output : Output) (value : String) : Bool :=
      (((w.withOptions { output }).translate file (page value)).run .new).1.toOption.isSome
    (∀ value, (page value).hasEmptyVoids (w.setting.env file (page value).macroNames) = true) ∧
      compiles (.html {}) "1," = false ∧ compiles (.dom {}) "1," = true ∧
      compiles (.html {}) "42 px" = true ∧ compiles (.dom {}) "42 px" = false := by
  intro place page file w compiles
  refine ⟨fun value => rfl, ?_⟩
  decide +kernel

end Workspace

end TemplateCompiler
