import TemplateCompiler.Proofs.Lowering.Scriptlets
import TemplateCompiler.Proofs.Session.Output

/-!
# Scriptlets of compiled templates

A compiled template has each static scriptlet of the top level among the statements of its module, and each
other scriptlet that is lowered as a statement of the render function, between what becomes of its siblings
(`scriptlets_of_translate`). Below the top level lowering does not ask whether a scriptlet is static, and a
constant element is written without its scriptlets: so each scriptlet gets where it was authored to be as long
as there are no static ones below the top level, blank ones aside.
-/

namespace TemplateCompiler

open Render

/-! ## Statements of a module -/

/-- The code of a statement of a module. -/
def Render.ModuleItem.statement? : ModuleItem → Option String
  | .statement code => some code
  | _ => none

/-- The code of a statement at the top level. -/
def Item.statement? : Item → Option String
  | .statement code => some code
  | _ => none

/-- The code of a statement or a scriptlet at the top level. -/
def Item.code? : Item → Option String
  | .statement code => some code
  | .node (.leaf _ (.scriptlet code)) => some code
  | _ => none

/-- The code that a module takes over from an item: that of a statement, or of a static scriptlet. -/
def Item.moduleCode? : Item → Option String
  | .statement code => some code
  | i => i.staticScriptlet?.map (·.code)

section

variable (registry : TagRegistry) (source : Path)

-- The module scope leaves out no code.
theorem statements_moduleScope (working : Option Path) (items : List Item) (m : Metadata) :
    (moduleScope registry source working items m).1.filterMap ModuleItem.statement? =
      items.filterMap Item.code? := by
  induction items generalizing m with
  | nil => rfl
  | cons i rest ih =>
    unfold moduleScope
    split
    · exact ih _
    · exact congrArg (_ :: ·) (ih m)
    · exact congrArg (_ :: ·) (ih m)
    · exact ih m
    · rename_i n hscriptlet hcomponent
      have hnone : (Item.node n).code? = none := by
        cases n with
        | leaf marks l =>
          cases l with
          | scriptlet code => exact absurd rfl (hscriptlet marks code)
          | _ => rfl
        | tag marks t children => rfl
      rw [List.filterMap_cons_none hnone]
      exact ih m

theorem filterMap_code?_moduleScope (program : Program) :
    (program.classify registry source).scopes.moduleScope.filterMap Item.code? =
      program.body.filterMap Item.moduleCode? := by
  refine program.filterMap_moduleScope registry source fun i => ?_
  cases i with
  | node n =>
    cases n with
    | leaf m l =>
      cases l with
      | scriptlet code =>
        show (if m.isStatic then some code else none) =
          (if m.isStatic then some (Scriptlet.mk code true) else none).map (·.code)
        cases m.isStatic <;> rfl
      | _ => rfl
    | tag m t children => rfl
  | external declaration => rfl
  | statement code => rfl

end

-- What a module takes over are the statements and the static scriptlets of the top level.
theorem perm_moduleCode? (body : List Item) :
    (body.filterMap Item.moduleCode?).Perm
      (body.filterMap Item.statement? ++ (body.filterMap Item.staticScriptlet?).map (·.code)) := by
  induction body with
  | nil => exact .nil
  | cons i rest ih =>
    rw [filterMap_cons_eq Item.moduleCode?, filterMap_cons_eq Item.statement?,
      filterMap_cons_eq Item.staticScriptlet?, List.map_append]
    have hone : i.moduleCode?.toList = i.statement?.toList ++ i.staticScriptlet?.toList.map (·.code) := by
      cases i with
      | node n =>
        show ((Item.node n).staticScriptlet?.map (·.code)).toList = _
        cases hstatic : (Item.node n).staticScriptlet? <;> rfl
      | external declaration | statement code => rfl
    simp only [hone, List.append_assoc]
    exact ((ih.append_left _).trans (List.perm_append_comm_assoc _ _ _)).append_left _

/-! ## Scriptlets in their places -/

theorem append_perm_self_iff {α : Type} {as bs : List α} : (as ++ bs).Perm bs ↔ as = [] := by
  have hiff : (as ++ bs).Perm ([] ++ bs) ↔ as.Perm [] := List.perm_append_right_iff bs
  rwa [List.nil_append, List.perm_nil] at hiff

theorem filterMap_authored?_code (xs : List Scriptlet) :
    (xs.map (·.code)).filterMap authored? = xs.filterMap Scriptlet.statement? := by
  rw [List.filterMap_map]
  refine List.filterMap_congr fun x _ => ?_
  rw [Function.comp_apply, Scriptlet.statement?]

/-- The statements of the scriptlets that are static, or that are not. -/
def statementsOf (isStatic : Bool) (xs : List Scriptlet) : List String :=
  (xs.filter (·.isStatic == isStatic)).filterMap Scriptlet.statement?

theorem perm_statementsOf {xs ys : List Scriptlet} (h : xs.Perm ys) (isStatic : Bool) :
    (statementsOf isStatic xs).Perm (statementsOf isStatic ys) := (h.filter _).filterMap _

theorem statementsOf_append (isStatic : Bool) (xs ys : List Scriptlet) :
    statementsOf isStatic (xs ++ ys) = statementsOf isStatic xs ++ statementsOf isStatic ys := by
  rw [statementsOf, List.filter_append, List.filterMap_append]
  rfl

theorem statementsOf_true {xs : List Scriptlet} (h : ∀ x ∈ xs, x.isStatic = true) :
    statementsOf true xs = xs.filterMap Scriptlet.statement? := by
  rw [statementsOf, List.filter_eq_self.mpr fun x hx => beq_iff_eq.mpr (h x hx)]

theorem statementsOf_false {xs : List Scriptlet} (h : ∀ x ∈ xs, x.isStatic = true) :
    statementsOf false xs = [] := by
  have hnil : xs.filter (·.isStatic == false) = [] :=
    List.filter_eq_nil_iff.mpr fun x hx => by simp [h x hx]
  rw [statementsOf, hnil]
  rfl

theorem statementsOf_true_eq_nil_iff {xs : List Scriptlet} :
    statementsOf true xs = [] ↔ ∀ x ∈ xs, x.isStatic = true → x.statement? = none := by
  simp [statementsOf, List.filterMap_eq_nil_iff]

theorem perm_statements (xs : List Scriptlet) :
    (xs.filterMap Scriptlet.statement?).Perm (statementsOf true xs ++ statementsOf false xs) := by
  have hsplit := (List.filter_append_perm (fun x : Scriptlet => x.isStatic == true) xs).filterMap
    Scriptlet.statement?
  rw [List.filterMap_append] at hsplit
  have hnot : (fun x : Scriptlet => !(x.isStatic == true)) = fun x => x.isStatic == false := by
    funext x
    cases x.isStatic <;> rfl
  rw [hnot] at hsplit
  exact hsplit.symm

/-- All scriptlets that are not blank are where they were authored to be: the static ones are statements
of the module, besides its own, and all others are statements of the render function. -/
def Program.KeepsScriptlets (p : Program) (v : View) (items : List ModuleItem) (ops : List LoweredOp) :
    Prop :=
  (Op.authoredOf ops).Perm (statementsOf false (p.scriptlets v)) ∧
    ((items.filterMap ModuleItem.statement?).filterMap authored?).Perm
      ((p.body.filterMap Item.statement?).filterMap authored? ++ statementsOf true (p.scriptlets v))

/-- Scriptlets are kept in their places just as long as none of those that are rendered or written in
constant elements is static, blank ones aside. -/
theorem keepsScriptlets_iff {p : Program} {v : View} {items : List ModuleItem} {ops : List LoweredOp}
    {rendered folded : List Scriptlet}
    (hall : (rendered ++ folded ++ p.body.filterMap Item.staticScriptlet?).Perm (p.scriptlets v))
    (hfolded : ∀ x ∈ folded, x.isStatic = true)
    (hops : (Op.authoredOf ops).Perm (rendered.filterMap Scriptlet.statement?))
    (hitems : items.filterMap ModuleItem.statement? = p.body.filterMap Item.moduleCode?) :
    p.KeepsScriptlets v items ops ↔
      ∀ x ∈ rendered ++ folded, x.isStatic = true → x.statement? = none := by
  let top := p.body.filterMap Item.staticScriptlet?
  have htop : ∀ x ∈ top, x.isStatic = true := fun x hx => isStatic_of_mem_staticScriptlets hx
  have hfalse : (statementsOf false (p.scriptlets v)).Perm (statementsOf false rendered) := by
    have hperm := perm_statementsOf hall.symm false
    rwa [statementsOf_append, statementsOf_append, statementsOf_false hfolded, statementsOf_false htop,
      List.append_nil, List.append_nil] at hperm
  have htrue : (statementsOf true (p.scriptlets v)).Perm
      (statementsOf true (rendered ++ folded) ++ statementsOf true top) := by
    rw [← statementsOf_append]
    exact perm_statementsOf hall.symm true
  have hmodule : ((items.filterMap ModuleItem.statement?).filterMap authored?).Perm
      ((p.body.filterMap Item.statement?).filterMap authored? ++ statementsOf true top) := by
    have hperm := (perm_moduleCode? p.body).filterMap authored?
    rw [List.filterMap_append, filterMap_authored?_code] at hperm
    rw [hitems, statementsOf_true htop]
    exact hperm
  -- a static scriptlet that is rendered is one too many in the render function
  have hrender : (Op.authoredOf ops).Perm (statementsOf false (p.scriptlets v)) ↔
      statementsOf true rendered = [] := by
    rw [(hops.trans (perm_statements rendered)).congr_left, hfalse.congr_right]
    exact append_perm_self_iff
  -- the module lacks all static scriptlets but those of the top level
  have hwritten : ((items.filterMap ModuleItem.statement?).filterMap authored?).Perm
      ((p.body.filterMap Item.statement?).filterMap authored? ++ statementsOf true (p.scriptlets v)) ↔
        statementsOf true (rendered ++ folded) = [] := by
    rw [hmodule.congr_left, List.perm_append_left_iff, htrue.congr_right, List.perm_comm]
    exact append_perm_self_iff
  rw [Program.KeepsScriptlets, hrender, hwritten, statementsOf_true_eq_nil_iff, statementsOf_true_eq_nil_iff]
  exact and_iff_right_of_imp fun h x hx => h x (List.mem_append_left _ hx)

namespace Workspace

/-- A compiled template has the scriptlets of its program: the static ones at the top level are statements of
the module, in the order of what is authored for it; those that are lowered are statements of the render
function, each between what becomes of the siblings before and behind it; and those in constant elements,
which are all static and in text output only, are lost. So all are where they were authored to be just as
long as no static one stands below the top level, blank ones aside. -/
theorem scriptlets_of_translate (w : Workspace) (p : Path) (program : Program) (s : Session)
    (compiled : Compiled) (hcode : program.moduleCode = none)
    (htext : w.setting.text = standardText w.setting.options)
    (hrun : ((w.translate p program).run s).1 = .ok compiled) :
    let view := (w.setting.env p program.macroNames).view
    let siblings := (program.classify w.setting.registry p).scopes.siblings view
    let rendered := renderedScriptlets siblings
    let folded := foldedScriptlets siblings
    (rendered ++ folded ++ program.body.filterMap Item.staticScriptlet?).Perm (program.scriptlets view) ∧
    (∀ x ∈ folded, x.isStatic = true ∧ view.isHtml = true) ∧
    ∃ (macros : List String) (items : List ModuleItem) (definition value : String)
      (flags : RendererOptions) (ops : List LoweredOp),
      (∀ name, macros.contains name = program.macroNames.contains name) ∧
      compiled.EmitsAround items definition ops value flags ∧
      items.filterMap ModuleItem.statement? = program.body.filterMap Item.moduleCode? ∧
      (Op.authoredOf ops).Perm (rendered.filterMap Scriptlet.statement?) ∧
      (∀ x ∈ siblings, x.isFolded = false → ∀ before m code after statement,
        x.nodes = before ++ .leaf m (.scriptlet code) :: after → authored? code = some statement →
        StandsBetween (w.setting.env p macros) before after statement ops) ∧
      (program.KeepsScriptlets view items ops ↔
        ∀ x ∈ rendered ++ folded, x.isStatic = true → x.statement? = none) := by
  intro view siblings rendered folded
  let scope := (program.classify w.setting.registry p).scopes
  obtain ⟨c, capture, hcompiled⟩ := exists_compileTemplate hcode hrun
  obtain ⟨definition, value, flags, ops, start, finish, -, hlowered, -, -, hemits, -⟩ :=
    exists_emits htext hcompiled
  have hmacros := contains_macros_prepared p c program
  have hview : (w.setting.env p (prepared p c program).macros).view = view :=
    w.setting.view_env_congr p hmacros
  have hall := program.perm_scriptlets view w.setting.registry p
  have hfolded : ∀ x ∈ folded, x.isStatic = true ∧ view.isHtml = true :=
    fun x hx => program.isStatic_of_mem_foldedScriptlets hx
  have hauthored : (Op.authoredOf ops).Perm (rendered.filterMap Scriptlet.statement?) := by
    -- what is lowered is written in the order of lowering, which puts slots first; as a collection it is what
    -- is rendered
    have haccount : Op.authoredOf ops =
        (Node.loweredIn (w.setting.env p _).view scope.renderScope).filterMap Part.authored? :=
      ((accounts_lower (isAccount_authored htext)).2 _).1 _ _ _ hlowered
    rw [haccount, hview]
    have hparts := (((Node.perm_lowered view).2 scope.renderScope).1).filterMap Part.authored?
    exact hparts.trans ((Node.perm_authored view).2 scope.renderScope false).symm
  have hitems : (moduleScope w.setting.registry p w.setting.working scope.moduleScope
      { prepared p c program with capture }).1.filterMap ModuleItem.statement? =
        program.body.filterMap Item.moduleCode? := by
    rw [statements_moduleScope, filterMap_code?_moduleScope]
  refine ⟨hall, hfolded, _, _, definition, value, flags, ops, hmacros, hemits, hitems, hauthored, ?_,
    keepsScriptlets_iff hall (fun x hx => (hfolded x hx).1) hauthored hitems⟩
  intro x hx hrendered before m code after statement hnodes hstatement
  -- the siblings at the top level are the whole run, others are lowered at some time within it
  have hplaced : IsLoweredIn (w.setting.env p (prepared p c program).macros) x.nodes ops := by
    rcases List.mem_cons.mp hx with rfl | hx
    · exact ⟨start, ops, finish, hlowered, Op.Within.refl ops⟩
    · rw [← hview] at hx
      exact ((yields_places _).2 scope.renderScope).1 start ops finish hlowered x hx hrendered
  rw [hnodes] at hplaced
  exact hplaced.standsBetween hstatement

/-- A page with a static scriptlet in front, and another one between two texts below a condition. -/
theorem scriptlets_of_translate_condition :
    let place : Marks := ⟨false, ⟨1, 1⟩⟩
    let constant : Marks := ⟨true, ⟨1, 1⟩⟩
    let before : Node := .leaf constant (.text "up to ")
    let after : Node := .leaf constant (.text " items")
    let children : List Node := [before, .leaf place (.scriptlet "out.w(limit);"), after]
    let page : Program := ⟨[.node (.leaf constant (.scriptlet "const limit = 10;")),
      .node (.tag place ⟨.static "if", [], some "input.ok", []⟩ children)], none⟩
    let file : Path := ⟨"/app/page.marko"⟩
    let w := ofTables {} [] [] []
    ∃ compiled, ((w.translate file page).run .new).1 = .ok compiled ∧
      ∃ (macros : List String) (items : List ModuleItem) (definition value : String)
        (flags : RendererOptions) (ops : List LoweredOp),
        compiled.EmitsAround items definition ops value flags ∧
        page.KeepsScriptlets (w.setting.env file page.macroNames).view items ops ∧
        items.filterMap ModuleItem.statement? = ["const limit = 10;"] ∧
        StandsBetween (w.setting.env file macros) [before] [after] "out.w(limit);" ops := by
  intro place constant before after children page file w
  obtain ⟨compiled, hrun⟩ := exists_eq_ok_of_isSome
    (x := ((w.translate file page).run .new).1) (by decide +kernel)
  obtain ⟨-, -, macros, items, definition, value, flags, ops, -, hemits, hitems, -, hplaces, hkeeps⟩ :=
    scriptlets_of_translate w file page .new compiled rfl rfl hrun
  refine ⟨compiled, hrun, macros, items, definition, value, flags, ops, hemits,
    hkeeps.mpr (by decide +kernel), hitems.trans (by decide +kernel), ?_⟩
  let view := (w.setting.env file page.macroNames).view
  let condition : Tag := ⟨.static "if", [], some "input.ok", []⟩
  have hkind : view.kindOf condition = .ifTrue := by decide +kernel
  have hrendered : (page.classify w.setting.registry file).scopes.renderScope =
      [.tag place condition children] := rfl
  have hmem : ⟨children, false⟩ ∈ (page.classify w.setting.registry file).scopes.siblings view := by
    rw [Scopes.siblings, hrendered, Node.siblingsIn, Node.siblings, View.enter, View.folds, hkind]
    exact List.mem_cons_of_mem _ List.mem_cons_self
  exact hplaces _ hmem rfl [before] place _ [after] _ rfl (by decide +kernel)

/-- In a constant element a static scriptlet is lost: the module has no code of it at all. -/
theorem exists_static_scriptlet_lost :
    let place : Marks := ⟨false, ⟨1, 1⟩⟩
    let page : Program := ⟨[.node (.tag place ⟨.static "div", [], none, []⟩ [
      .tag place ⟨.static "p", [], none, []⟩ [
        .leaf ⟨true, ⟨1, 1⟩⟩ (.scriptlet "const limit = 10;"), .leaf place (.text "hi")]])], none⟩
    let w := ofTables { writeVersionComment := false, writeMeta := false } [] [] []
    page.scriptlets (w.setting.env ⟨"/app/page.marko"⟩ page.macroNames).view =
        [⟨"const limit = 10;", true⟩] ∧
      ((w.translate ⟨"/app/page.marko"⟩ page).run .new).1.toOption.map Compiled.code = some
        ("import _marko_renderer from \"marko/src/runtime/components/renderer.js\";\n" ++
          "import \x7b t as _t \x7d from \"marko/src/runtime/html/index.js\";\n" ++
          "const _marko_template = _t();\nexport default _marko_template;\n" ++
          "const _marko_componentType = \"page_5b72ec83\",\n  _marko_component = \x7b\x7d;\n" ++
          "_marko_template._ = _marko_renderer(function (input, out, _component, component, state) \x7b\n" ++
          "  out.w(\"<div><p>hi</p></div>\");\n" ++
          "\x7d, \x7b t: _marko_componentType, i: true, d: true \x7d, _marko_component);\n") := by
  decide +kernel

end Workspace

end TemplateCompiler
