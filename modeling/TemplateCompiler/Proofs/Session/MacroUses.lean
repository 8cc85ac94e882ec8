import TemplateCompiler.Proofs.Lowering.Macros
import TemplateCompiler.Proofs.Session.Output

/-!
# Macros of compiled templates

A compiled template defines and calls one function for each macro, as often as its tags say, unless a tag
stands in a constant element: such an element is written as it is, with what is in it taken for elements
(`perm_usesOf`). In tree output there is no such element.
-/

namespace TemplateCompiler

open Render

/-! ## Kinds -/

-- The macros of a file go before elements, but not before core tags.
theorem Render.kindOfName_eq_macroCall_iff (env : Env) (name other : String) :
    env.kindOfName name = .macroCall other ↔ other = name ∧ name ∈ env.macros := by
  unfold Env.kindOfName
  split
  · rename_i hname
    rw [List.contains_iff_mem] at hname
    simp [hname, eq_comm]
  · rename_i hname
    rw [List.contains_iff_mem] at hname
    constructor
    · intro h
      split at h
      · cases h
      · split at h <;> cases h
    · exact fun h => absurd h.2 hname

/-- The tags that stand for a macro are those with its name, apart from attribute tags and core tags. -/
theorem Render.kindOf_eq_macroCall_iff (env : Env) (t : Tag) (name : String) :
    env.kindOf t = .macroCall name ↔ t.name = .static name ∧ name ∈ env.macros ∧
      Tag.isSlotName name = false ∧ name ∉ ["if", "else-if", "else", "for", "macro"] := by
  unfold Env.kindOf
  cases t.name with
  | dynamic expression => simp
  | static authored =>
    have hcore (h : Tag.isSlotName authored = true ∨
        authored ∈ ["if", "else-if", "else", "for", "macro"]) :
        ¬(TagName.static authored = .static name ∧ name ∈ env.macros ∧
          Tag.isSlotName name = false ∧ name ∉ ["if", "else-if", "else", "for", "macro"]) := by
      rintro ⟨heq, -, hslot, hname⟩
      cases heq
      rcases h with h | h
      · rw [h] at hslot
        cases hslot
      · exact hname h
    dsimp only
    split_ifs with hslot hif helseIf helse hfor hdefinition
    · exact iff_of_false id (hcore (.inl hslot))
    · exact iff_of_false id (hcore (.inr (by simp [beq_iff_eq.mp hif])))
    · exact iff_of_false id (hcore (.inr (by simp [beq_iff_eq.mp helseIf])))
    · exact iff_of_false id (hcore (.inr (by simp [beq_iff_eq.mp helse])))
    · exact iff_of_false id (hcore (.inr (by simp [beq_iff_eq.mp hfor])))
    · exact iff_of_false id (hcore (.inr (by simp [beq_iff_eq.mp hdefinition])))
    · rw [kindOfName_eq_macroCall_iff, TagName.static.injEq]
      constructor
      · rintro ⟨rfl, hname⟩
        exact ⟨rfl, hname, by simpa using hslot, by simp_all⟩
      · rintro ⟨rfl, hname, -⟩
        exact ⟨rfl, hname⟩

/-! ## Uses -/

-- The same uses with and without regard to where they stand.
theorem map_part_filter (q : Part → Bool) (pieces : List Piece) :
    (pieces.filter fun x => q x.part).map (·.part) = (pieces.map (·.part)).filter q :=
  (List.filter_map ..).symm

/-- The tags that define or call macros, apart from those that are not rendered at all. -/
def Scopes.macroUses (v : View) (s : Scopes) : List Piece := (s.pieces v).filter fun x => x.part.isUse

theorem perm_macroUses (v : View) (registry : TagRegistry) (source : Path) (p : Program) :
    (((p.classify registry source).scopes.macroUses v).map (·.part)).Perm
      ((p.parts v).filter Part.isUse) := by
  have hleaves : ((p.classify registry source).scopes.moduleScope.filterMap Item.leaf?).filter
      Part.isUse = [] := by
    rw [List.filter_eq_nil_iff]
    intro part hpart
    obtain ⟨i, -, hi⟩ := List.mem_filterMap.mp hpart
    unfold Item.leaf? at hi
    split at hi
    · cases hi
      exact Bool.false_ne_true
    · cases hi
  have hperm := (p.perm_parts v registry source).filter Part.isUse
  rw [List.filter_append, hleaves, List.append_nil] at hperm
  rwa [Scopes.macroUses, map_part_filter]

namespace Workspace

/-- Apart from constant elements, the functions that a compiled template defines and calls for macros are
those of the tags that define and call macros; and these are all such tags unless there is one in a
constant element. -/
theorem perm_usesOf (w : Workspace) (p : Path) (program : Program) (s : Session) (compiled : Compiled)
    (hcode : program.moduleCode = none) (htext : w.setting.text = standardText w.setting.options)
    (hrun : ((w.translate p program).run s).1 = .ok compiled) :
    let env := w.setting.env p program.macroNames
    let uses := (program.classify w.setting.registry p).scopes.macroUses env.view
    let live := (program.parts env.view).filter Part.isUse
    (∀ t name, env.kindOf t = .macroCall name ↔ t.name = .static name ∧ name ∈ program.macroNames ∧
      Tag.isSlotName name = false ∧ name ∉ ["if", "else-if", "else", "for", "macro"]) ∧
    (uses.map (·.part)).Perm live ∧
    (env.isHtml = false → foldedParts uses = []) ∧
    ∃ (definition value : String) (flags : RendererOptions) (ops : List LoweredOp)
      (function : String → String),
      compiled.Emits definition ops value flags ∧
      Set.InjOn function {name | .call name ∈ renderedParts uses ∨ .definition name ∈ renderedParts uses} ∧
      (Op.usesOf ops).Perm ((renderedParts uses).map (·.rename function)) ∧
      ((Op.usesOf ops).Perm (live.map (·.rename function)) ↔ foldedParts uses = []) := by
  intro env uses live
  let rendered := (program.classify w.setting.registry p).scopes.renderScope
  obtain ⟨c, -, ⟨b⟩⟩ := exists_build hcode htext hrun
  have haccount := ((accounts_lower (isAccount_macroAccount htext)).2 _).1 _ _ _ b.lowered
  rw [w.setting.view_env_congr p b.contains_macros] at haccount
  obtain ⟨function, hinj, hfunction⟩ := (hasOwnFunctions_of_lowerAll htext b.macroNames_start b.lowered).exists_injOn
  -- what is lowered are the parts outside of constant elements, in another order
  have hlowered : ((Node.loweredIn env.view rendered).filter Part.isUse).Perm (renderedParts uses) := by
    have hrendered : renderedParts uses = (Node.renderedIn env.view false rendered).filter Part.isUse :=
      renderedParts_filter _ _
    rw [hrendered]
    exact ((Node.perm_lowered env.view).2 _).1.filter _
  have huses : (Op.usesOf b.ops).Perm ((renderedParts uses).map (·.rename function)) :=
    (haccount.uses function hfunction).trans (hlowered.map _)
  have hlive : (uses.map (·.part)).Perm live := perm_macroUses env.view _ _ program
  have hsplit : (renderedParts uses ++ foldedParts uses).Perm live := (perm_parts uses).trans hlive
  refine ⟨kindOf_eq_macroCall_iff env, hlive, fun hhtml => ?_, b.definition, b.value, b.flags, b.ops,
    function, b.emits, hinj.mono fun name hname => ?_, huses, fun hall => ?_, fun hfolded => ?_⟩
  · have hnone := Node.foldedParts_of_isHtml_eq_false (v := env.view) hhtml false rendered
    rw [foldedParts, List.map_eq_nil_iff, List.filter_eq_nil_iff] at hnone ⊢
    exact fun x hx => hnone x (List.mem_of_mem_filter hx)
  · have hmem (part : Part) (h : part ∈ renderedParts uses) : part ∈ Node.loweredIn env.view rendered :=
      List.mem_of_mem_filter (hlowered.mem_iff.mpr h)
    exact haccount.known name (hname.imp (hmem _) (hmem _))
  · -- there are as many uses in the operations as tags outside of constant elements
    have hlength := (huses.symm.trans hall).length_eq
    have hsum := hsplit.length_eq
    rw [List.length_map, List.length_map] at hlength
    rw [List.length_append] at hsum
    exact List.eq_nil_of_length_eq_zero (by omega)
  · rw [hfolded, List.append_nil] at hsplit
    exact huses.trans (hsplit.map _)

/-- A page with a macro that is named like an element, and a call of it below a condition in an
element. -/
theorem perm_usesOf_condition :
    let place : Marks := ⟨false, ⟨1, 1⟩⟩
    let page : Program := ⟨[
      .node (.tag place ⟨.static "macro", [⟨"name", "'b'"⟩], none, []⟩ [.leaf place (.text "hi")]),
      .node (.tag place ⟨.static "div", [], none, []⟩ [
        .tag place ⟨.static "if", [], some "input.ok", []⟩ [.tag place ⟨.static "b", [], none, []⟩ []]])],
      none⟩
    let w := ofTables {} [] [] []
    ∃ compiled, ((w.translate ⟨"/app/page.marko"⟩ page).run .new).1 = .ok compiled ∧
      ∃ (definition value : String) (flags : RendererOptions) (ops : List LoweredOp)
        (function : String → String), compiled.Emits definition ops value flags ∧
        (Op.usesOf ops).Perm [.definition (function "b"), .call (function "b")] := by
  intro place page w
  obtain ⟨compiled, hrun⟩ := exists_eq_ok_of_isSome
    (x := ((w.translate ⟨"/app/page.marko"⟩ page).run .new).1) (by decide +kernel)
  obtain ⟨-, -, -, definition, value, flags, ops, function, hemits, -, -, hall⟩ :=
    perm_usesOf w ⟨"/app/page.marko"⟩ page .new compiled rfl rfl hrun
  let env := w.setting.env ⟨"/app/page.marko"⟩ page.macroNames
  have hlive : (page.parts env.view).filter Part.isUse = [.definition "b", .call "b"] := by
    decide +kernel
  have huses := hall.mpr (by decide +kernel)
  rw [hlive] at huses
  exact ⟨compiled, hrun, definition, value, flags, ops, function, hemits, huses⟩

/-- In a constant element a call is written as an element. The page defines a macro that it never
calls. -/
theorem exists_macro_written_as_element :
    let place : Marks := ⟨false, ⟨1, 1⟩⟩
    let page : Program := ⟨[
      .node (.tag place ⟨.static "macro", [⟨"name", "'b'"⟩], none, []⟩ [.leaf place (.text "hi")]),
      .node (.tag place ⟨.static "div", [], none, []⟩ [
        .tag place ⟨.static "p", [], none, []⟩ [.tag place ⟨.static "b", [], none, []⟩ []]])], none⟩
    let w := ofTables { writeVersionComment := false } [] [] []
    let env := w.setting.env ⟨"/app/page.marko"⟩ page.macroNames
    env.kindOf ⟨.static "b", [], none, []⟩ = .macroCall "b" ∧
      page.parts env.view = [.definition "b", .leaf (.text "hi"), .call "b"] ∧
      ((w.translate ⟨"/app/page.marko"⟩ page).run .new).1.toOption.map Compiled.code = some
        ("import _marko_renderer from \"marko/src/runtime/components/renderer.js\";\n" ++
          "import \x7b t as _t \x7d from \"marko/src/runtime/html/index.js\";\n" ++
          "const _marko_template = _t(__filename);\nexport default _marko_template;\n" ++
          "const _marko_componentType = \"page_5b72ec83\",\n  _marko_component = \x7b\x7d;\n" ++
          "_marko_template._ = _marko_renderer(function (input, out, _component, component, state) \x7b\n" ++
          "  function _b(out) \x7b\n    out.w(\"hi\");\n  \x7d\n" ++
          "  out.w(\"<div><p><b></b></p></div>\");\n" ++
          "\x7d, \x7b t: _marko_componentType, i: true, d: true \x7d, _marko_component);\n" ++
          "_marko_template.meta = \x7b\n  id: _marko_componentType\n\x7d;\n") := by
  decide +kernel

end Workspace

end TemplateCompiler
