import TemplateCompiler.Proofs.Render.Identifiers
import TemplateCompiler.Proofs.Session.Output

/-!
# Generated names and authored ones

The names that a program declares for the whole module are kept out of the choice before anything is
generated. So none of them stands for anything generated in the module that the program becomes
(`spares_of_translate`). Names that are declared further inside are not looked at, nor are those that a tag
binds for its children (`exists_name_generated_twice`).
-/

namespace TemplateCompiler

open Render

/-- None of the names stands for anything generated in a compiled template. `ops` are what its render
function is made of, with `definition` as the parameter for the definition of the component; loops are those
of tags which `loops` holds of. -/
def Compiled.Spares (compiled : Compiled) (names : List String) (loops : Tag → Bool) : Prop :=
  ∃ (m : Module) (call : RenderCall) (definition : String) (ops : List LoweredOp),
    compiled.code = m.print ∧ .render call ∈ m.items ∧
    call.params = ["input", "out", definition, "component", "state"] ∧
    call.body = Op.batch (textOps definition ops) ∧
    definition ∉ names ∧
    (∀ e ∈ m.imports.entries, e.localName ∉ names) ∧
    (∀ i ∈ m.items, ∀ name ∈ i.generated, name ∉ names) ∧
    Op.AreClear (· ∉ names) loops ops

-- Joining writes changes no names.
theorem Render.Module.IsClear.spares {names : List String} {definition : String}
    {ops : List LoweredOp} {m : Module}
    (h : m.IsClear (· ∉ names) (State.Spares names) definition (textOps definition ops))
    (hdefinition : definition ∉ names) {loops : Tag → Bool} (hops : Op.AreClear (· ∉ names) loops ops)
    (templateMeta : TemplateMeta) (metadata : Metadata) :
    (Compiled.mk m.batchWrites.print templateMeta metadata).Spares names loops := by
  obtain ⟨s, hs, himports⟩ := h.imports
  obtain ⟨before, call, after, hitems, hbefore, hparams, hbody⟩ := h.render
  have hbatched : m.batchWrites.items =
      before ++ .render { call with body := Op.batch call.body } :: after := by
    show Module.batchFirst m.items = _
    rw [hitems, batchFirst_append_render hbefore]
  refine ⟨m.batchWrites, { call with body := Op.batch call.body }, definition, ops, rfl, ?_, hparams,
    congrArg Op.batch hbody, hdefinition, ?_, fun i hi => ?_, hops⟩
  · rw [hbatched]
    exact List.mem_append_right _ List.mem_cons_self
  · show ∀ e ∈ m.imports.entries, _
    rw [himports]
    exact hs.imports
  · rw [hbatched] at hi
    rcases List.mem_append.mp hi with hi | hi
    · exact h.items i (hitems ▸ List.mem_append_left _ hi)
    · rcases List.mem_cons.mp hi with rfl | hi
      · exact h.items (.render call) (hitems ▸ List.mem_append_right _ List.mem_cons_self)
      · exact h.items i (hitems ▸ List.mem_append_right _ (List.mem_cons_of_mem _ hi))

/-- A template that compiles spares the names that its program declares. -/
theorem spares_of_compileTemplate {setting : Setting} {source : Path} {companions : Companions}
    {m : Metadata} {p : Program} {compiled : Compiled}
    (htext : setting.text = standardText setting.options)
    (h : compileTemplate setting source companions m p = .ok compiled) :
    compiled.Spares p.declaredNames p.hasTag := by
  let names := (Names.mk []).reserveAll p.declaredNames
  have hused : ∀ name ∈ p.declaredNames, name ∈ names.used := by
    intro name hname
    rw [Names.used_reserveAll]
    exact List.mem_append_left _ (List.mem_reverse.mpr hname)
  have hdefinition : names.fresh "component" ∉ p.declaredNames :=
    fun hmem => Names.fresh_not_mem names "component" (hused _ hmem)
  have hall : Node.allIn (fun t _ => p.hasTag t) (p.classify setting.registry source).scopes.renderScope =
      true := Program.allIn_renderScope (fun _ _ => rfl) p.allIn_hasTag
  have hlogic := isModuleLogic_spares p.declaredNames
  have hstart (m : Metadata) :
      (State.start (names.reserve (names.fresh "component")) m .empty).Spares p.declaredNames :=
    ⟨fun name hname => (Names.mem_reserve _ _ _).mpr (.inr (hused name hname)),
      fun e he => (List.not_mem_nil he).elim, fun e he => (List.not_mem_nil he).elim⟩
  have htexts (marks : Marks) (v : String) : Ensures (State.Spares p.declaredNames)
      (Op.AreClear (· ∉ p.declaredNames) p.hasTag) (setting.text marks v) := by
    rw [htext]
    exact hlogic.standardText setting.options marks v
  rw [compileTemplate_eq] at h
  obtain ⟨module, templateMeta, t, hrun, rfl⟩ := Compiled.ofRun_eq_ok h
  obtain ⟨-, ops, hops, hclear⟩ := hlogic.compileScopes htexts _ (authored_moduleScope _ _ _ _ _) _ hall
    _ _ _ (hstart _) hrun
  exact hclear.spares hdefinition hops _ _

namespace Workspace

variable {w : Workspace} {p : Path} {program : Program} {s : Session} {compiled : Compiled}

/-- A template that a session compiles spares the names that its program declares for the whole module:
those of imports, and those that statements and the scriptlets at the top level declare. -/
theorem spares_of_translate (htext : w.setting.text = standardText w.setting.options)
    (hcode : program.moduleCode = none) (h : ((w.translate p program).run s).1 = .ok compiled) :
    compiled.Spares program.declaredNames program.hasTag := by
  obtain ⟨c, capture, hcompiled⟩ := exists_compileTemplate hcode h
  exact spares_of_compileTemplate htext hcompiled

/-- A page that declares a name which the input of a card would have, and one which the variable of a loop
would have. -/
theorem spares_of_translate_cards :
    let place : Marks := ⟨false, ⟨1, 1⟩⟩
    let card : Node := .tag place ⟨.static "card", [], none, []⟩ []
    let page : Program := ⟨[
      .external ⟨"./cards.js", "_card_input"⟩,
      .node (.leaf place (.scriptlet "const _item = input.item;")), .node card,
      .node (.tag place ⟨.static "for", [⟨"of", "input.cards"⟩], none, []⟩ [card])], none⟩
    let w := ofTables {} [.ofTemplate "card" ⟨"/app/card.marko"⟩] [] []
    page.moduleCode = none ∧ page.declaredNames = ["_card_input", "_item"] ∧
      ∃ compiled, ((w.translate ⟨"/app/page.marko"⟩ page).run .new).1 = .ok compiled ∧
        compiled.Spares page.declaredNames page.hasTag := by
  intro place card page w
  have hsome : ((w.translate ⟨"/app/page.marko"⟩ page).run .new).1.toOption.isSome = true := by
    decide +kernel
  obtain ⟨compiled, hcompiled⟩ := exists_eq_ok_of_isSome hsome
  have hnames : page.declaredNames = ["_card_input", "_item"] := by decide +kernel
  exact ⟨rfl, hnames, compiled, hcompiled, spares_of_translate rfl rfl hcompiled⟩

/-- Not looked at are a name that is exported, one with a default value, one that a scriptlet inside of an
element declares, and a parameter of a tag. Here each is that of an input, too. -/
theorem exists_name_generated_twice :
    let place : Marks := ⟨false, ⟨0, 0⟩⟩
    let card : Node := .tag place ⟨.static "card", [], none, []⟩ []
    let exported := "export const _card_input = 1;"
    let preset := "const \x7b _card_input2 = 2 \x7d = globalThis;"
    let nested := "const _card_input3 = 3;"
    let page : Program := ⟨[.statement exported, .statement preset,
      .node (.tag place ⟨.static "div", [], none, []⟩ [
        .leaf place (.scriptlet nested), card, card, card,
        .tag place ⟨.static "for", [⟨"of", "input.cards"⟩], none, ["_card_input4"]⟩ [card]])], none⟩
    let file : Path := ⟨"/app/page.marko"⟩
    let w := ofTables {} [.ofTemplate "card" ⟨"/app/card.marko"⟩] [] []
    let names (f : Script.Statement → List String) (code : String) : Option (List String) :=
      (Script.parseModule code).map fun m => m.items.flatMap f
    let reserved := (Names.mk []).reserveAll page.declaredNames
    let start := State.start (reserved.reserve (reserved.fresh "component")) (.ofPath file) .empty
    let lowered := (outcome (lowerAll (w.setting.env file page.macroNames)
      (page.classify w.setting.registry file).scopes.renderScope) start).1.toOption
    names Script.Statement.exportedNames exported = some ["_card_input"] ∧
      names Script.Statement.declaredNames preset = some ["_card_input2"] ∧
      names Script.Statement.declaredNames nested = some ["_card_input3"] ∧
      ((w.translate file page).run .new).1.toOption.isSome = true ∧
      lowered.map Op.scopesOf = some [.each "_card_input4" "input.cards"] ∧
      lowered.map Op.statementsOf = some [.authored nested,
        .declareInput "_card_input" [], .renderTag "_marko_renderTag" "_card" "_card_input" 0,
        .declareInput "_card_input2" [], .renderTag "_marko_renderTag" "_card" "_card_input2" 1,
        .declareInput "_card_input3" [], .renderTag "_marko_renderTag" "_card" "_card_input3" 2,
        .declareInput "_card_input4" [], .renderTag "_marko_renderTag" "_card" "_card_input4" 3] := by
  decide +kernel

end Workspace

end TemplateCompiler
