import TemplateCompiler.Proofs.Lowering.MacroScopes
import TemplateCompiler.Proofs.Session.Output

/-!
# Scopes of macros in compiled templates

A macro can be called all over its file, but its function is defined where its tag stands. The calls in a
compiled template are in scope just if those in the outline of the template are, which they are for sure if
tags at the top level of the file define the macros (`callsInScope_of_translate`).
-/

namespace TemplateCompiler

open Render

/-- The macros that tags at the top level of a file define. -/
def Program.topMacros (p : Program) : List String :=
  p.nodes.filterMap fun
    | .tag _ t _ => t.definedMacro?
    | .leaf _ _ => none

-- Whatever names stand for macros, the tag that defines them is a core tag.
theorem Render.kindOf_of_definedMacro? (env : Env) {t : Tag} {name : String}
    (h : t.definedMacro? = some name) :
    env.kindOf t = .macroDefinition ∧ t.macroName? = some name := by
  unfold Tag.definedMacro? at h
  split at h
  · rename_i hname
    refine ⟨?_, h⟩
    obtain ⟨tagName, attributes, arguments, params⟩ := t
    cases tagName with
    | dynamic expression => cases hname
    | static authored =>
      have hauthored : authored = "macro" := Option.some.inj (beq_iff_eq.mp hname)
      subst hauthored
      rfl
  · cases h

-- What the top level defines is defined for all that is rendered.
theorem Program.mem_definedIn_of_mem_topMacros {p : Program} {name : String} (h : name ∈ p.topMacros)
    (env : Env) (registry : TagRegistry) (source : Path) :
    name ∈ Outline.definedIn (Node.outlineIn env.view (p.classify registry source).scopes.renderScope) := by
  obtain ⟨n, hn, hname⟩ := List.mem_filterMap.mp h
  obtain ⟨i, hi, hnode⟩ := List.mem_filterMap.mp hn
  cases n with
  | leaf m l => cases hname
  | tag m t children =>
    have hitem : i = .node (.tag m t children) := by
      cases i with
      | node other => exact congrArg Item.node (Option.some.inj hnode)
      | external declaration => cases hnode
      | statement code => cases hnode
    subst hitem
    obtain ⟨hkind, hdefined⟩ := kindOf_of_definedMacro? env hname
    have hmem : Node.tag { m with isStatic := false } t
        (Node.classifyAll (registry.isNative source) children) ∈
          (p.classify registry source).scopes.renderScope :=
      List.mem_filterMap.mpr ⟨_, List.mem_map_of_mem hi, rfl⟩
    obtain ⟨before, after, hsplit⟩ := List.append_of_mem hmem
    have hviewKind : env.view.kindOf t = .macroDefinition := hkind
    rw [hsplit, Node.outlineIn_append, Outline.definedIn_append, Node.outlineIn, Outline.definedIn_append,
      Node.outline, Node.outlineTag, hviewKind]
    simp only [hdefined]
    exact List.mem_append_right _ (List.mem_append_left _ List.mem_cons_self)

namespace Workspace

/-- The calls of macros that are out of scope in a compiled template are those that are so in the outline of
what is rendered of its file, under the names of the functions. None of a macro is that a tag at the top level
defines; so all calls are in scope if they are of such macros. -/
theorem callsInScope_of_translate (w : Workspace) (p : Path) (program : Program) (s : Session)
    (compiled : Compiled) (hcode : program.moduleCode = none)
    (htext : w.setting.text = standardText w.setting.options)
    (hrun : ((w.translate p program).run s).1 = .ok compiled) :
    let env := w.setting.env p program.macroNames
    let outline := Node.outlineIn env.view (program.classify w.setting.registry p).scopes.renderScope
    ∃ (definition value : String) (flags : RendererOptions) (ops : List LoweredOp)
      (function : String → String),
      compiled.Emits definition ops value flags ∧
      Set.InjOn function
        {name | .call name ∈ Outline.partsIn outline ∨ .definition name ∈ Outline.partsIn outline} ∧
      Op.unboundIn ops = (Outline.unboundIn outline).map function ∧
      (Op.callsInScope ops = true ↔ Outline.unboundIn outline = []) ∧
      (∀ name ∈ Outline.unboundIn outline, name ∉ program.topMacros) ∧
      ((∀ name ∈ Outline.openCallsIn outline, name ∈ program.topMacros) → Op.callsInScope ops = true) := by
  intro env outline
  obtain ⟨c, -, ⟨b⟩⟩ := exists_build hcode htext hrun
  have hbuilds := ((builds_lower _).2 _).1 _ _ _ b.lowered
  rw [w.setting.view_env_congr p b.contains_macros] at hbuilds
  obtain ⟨function, hinj, hfunction⟩ := (hasOwnFunctions_of_lowerAll htext b.macroNames_start b.lowered).exists_injOn
  have hknown := (hbuilds.account (isAccount_macroAccount htext)).known
  have hunbound : Op.unboundIn b.ops = (Outline.unboundIn outline).map function :=
    hbuilds.unboundIn htext hfunction hinj
  have hscope : Op.callsInScope b.ops = true ↔ Outline.unboundIn outline = [] := by
    rw [Op.callsInScope_iff, hunbound, List.map_eq_nil_iff]
  have htop : ∀ name ∈ Outline.unboundIn outline, name ∉ program.topMacros :=
    fun name hname hdefined => (Outline.mem_unboundIn.mp hname).2
      (Program.mem_definedIn_of_mem_topMacros hdefined env w.setting.registry p)
  refine ⟨b.definition, b.value, b.flags, b.ops, function, b.emits, hinj.mono hknown, hunbound, hscope, htop,
    fun hall => hscope.mpr (List.eq_nil_iff_forall_not_mem.mpr fun name hname => ?_)⟩
  exact htop name hname (hall name (Outline.mem_unboundIn.mp hname).1)

/-- A page that calls a macro below a condition, in front of the tag that defines it. The macro calls itself
as well. -/
theorem callsInScope_of_translate_condition :
    let place : Marks := ⟨false, ⟨1, 1⟩⟩
    let call : Node := .tag place ⟨.static "row", [], none, []⟩ []
    let page : Program := ⟨[
      .node (.tag place ⟨.static "if", [], some "input.ok", []⟩ [call]),
      .node (.tag place ⟨.static "macro", [⟨"name", "'row'"⟩], none, []⟩ [.leaf place (.text "hi"), call])],
      none⟩
    let w := ofTables {} [] [] []
    ∃ compiled, ((w.translate ⟨"/app/page.marko"⟩ page).run .new).1 = .ok compiled ∧
      ∃ (definition value : String) (flags : RendererOptions) (ops : List LoweredOp),
        compiled.Emits definition ops value flags ∧ Op.callsInScope ops = true := by
  intro place call page w
  obtain ⟨compiled, hrun⟩ := exists_eq_ok_of_isSome
    (x := ((w.translate ⟨"/app/page.marko"⟩ page).run .new).1) (by decide +kernel)
  obtain ⟨definition, value, flags, ops, -, hemits, -, -, -, -, hall⟩ :=
    callsInScope_of_translate w ⟨"/app/page.marko"⟩ page .new compiled rfl rfl hrun
  exact ⟨compiled, hrun, definition, value, flags, ops, hemits, hall (by decide +kernel)⟩

/-- A macro that is defined below a condition is not known behind it, where the page calls it. -/
theorem exists_call_out_of_scope :
    let place : Marks := ⟨false, ⟨1, 1⟩⟩
    let page : Program := ⟨[
      .node (.tag place ⟨.static "if", [], some "input.ok", []⟩ [
        .tag place ⟨.static "macro", [⟨"name", "'row'"⟩], none, []⟩ [.leaf place (.text "hi")]]),
      .node (.tag place ⟨.static "row", [], none, []⟩ [])], none⟩
    let w := ofTables { writeVersionComment := false } [] [] []
    let env := w.setting.env ⟨"/app/page.marko"⟩ page.macroNames
    let nodes := (page.classify w.setting.registry ⟨"/app/page.marko"⟩).scopes.renderScope
    let start := State.start ⟨[]⟩ (.ofPath ⟨"/app/page.marko"⟩) .empty
    page.macroNames = ["row"] ∧
      env.kindOf ⟨.static "row", [], none, []⟩ = .macroCall "row" ∧
      ((w.translate ⟨"/app/page.marko"⟩ page).run .new).1.toOption.isSome = true ∧
      (outcome (lowerAll env nodes) start).1.toOption.map Op.callsInScope = some false ∧
      (outcome (lowerAll env nodes) start).1.toOption.map (Op.linesOf 0 <| textOps "_component" ·) =
        some ["if (input.ok) \x7b", "  function _row(out) \x7b", "    out.w(\"hi\");", "  \x7d", "\x7d",
          "const _row_input = \x7b\x7d;", "_row(out, _row_input);"] := by
  decide +kernel

end Workspace

end TemplateCompiler
