import TemplateCompiler.Proofs.Render.Printing
import TemplateCompiler.Proofs.Session.ComponentClasses
import TemplateCompiler.Proofs.Session.Scriptlets

/-!
# Literals of authored code

What becomes of literals that span lines when a template is compiled (`literals_of_translate`). Conditions and
the operands of loops are printed in one line, with all that is in it. All other code is laid out: that of the
module at the left margin, scriptlets and placeholders below it, where each line of a literal but the first is
indented. So only literals of the module, and these only if they have no blank lines but empty ones, and literals
of conditions and loops keep their lines.
-/

namespace TemplateCompiler

open Render

/-! ## Codes of nodes -/

/-- The code that is authored as a leaf. Blank scriptlets and constant placeholders have none. -/
def Leaf.code? : Leaf → Option String
  | .scriptlet code => if (Text.trim code).isEmpty then none else some code
  | .placeholder expression _ => if Script.isLiteral expression then none else some expression
  | _ => none

example : Leaf.code? (.scriptlet "log(`a\nb`);") = some "log(`a\nb`);" := by decide +kernel

/-- The condition of a tag, or what it loops over. -/
def Tag.operands (v : View) (t : Tag) : List String :=
  match v.kindOf t with
  | .ifTrue | .elseIfTrue => t.arguments.toList
  | .loop => loopOperands t
  | _ => []

/-- The codes that a node itself is authored with. -/
def Node.codes (v : View) : Node → List String
  | .leaf _ l => l.code?.toList
  | .tag _ t _ => t.operands v

/-- The node is a tag. -/
def Node.isTag : Node → Bool
  | .leaf _ _ => false
  | .tag _ _ _ => true

namespace Render

/-- A text of the operations has the code in it, at whatever level they are printed. -/
def Op.Holds (isLine : Bool) (code : String) (ops : List LoweredOp) : Prop :=
  ∀ definition level, ∃ text, Has text code ∧ (⟨level, isLine⟩, text) ∈ Op.textsOf level (textOps definition ops)

section

variable {env : Env}

theorem holds_code {statement : Statement} {code : String} (h : ∀ definition, Has (statement.text definition) code) :
    Op.Holds false code [.code statement] :=
  fun definition _ => ⟨_, h definition, List.mem_cons_self⟩

theorem holds_block {scope : Scope} {code : String} (h : Has scope.opening code) (body : List LoweredOp) :
    Op.Holds true code [.block scope body] :=
  fun _ _ => ⟨_, h, List.mem_cons_self⟩

theorem yields_has_lowerPlaceholder {expression : String} (h : Script.isLiteral expression = false)
    (escape : Bool) : Yields (Op.Holds false expression) (lowerPlaceholder env expression escape) := by
  have hnone : Script.literal? expression = none := by
    rwa [Script.isLiteral, Option.isSome_eq_false_iff, Option.isNone_iff_eq_none] at h
  have hwrite (helper : String) : Op.Holds false expression [.code (.writeValue helper expression)] :=
    holds_code fun _ => (has_self expression).between ("out.w(" ++ helper ++ "(") "));"
  have hadd (method definition : String) : Has (method ++ expression ++ ", " ++ definition ++ ");") expression :=
    ((((has_self expression).behind method).append ", ").append definition).append ");"
  unfold lowerPlaceholder
  rw [hnone]
  dsimp only
  split
  · split
    · exact yields_bind_any fun helper => yields_pure (hwrite helper)
    · exact yields_bind_any fun helper => yields_pure (hwrite helper)
  · split
    · exact yields_pure (holds_code (hadd "out.t("))
    · exact yields_pure (holds_code (hadd "out.h("))

theorem yields_has_lowerLeaf (m : Marks) (l : Leaf) :
    Yields (fun ops => ∀ code ∈ l.code?, Op.Holds false code ops) (lowerLeaf env m l) := by
  cases l with
  | scriptlet code =>
    refine yields_pure fun own hown => ?_
    rw [Leaf.code?] at hown
    by_cases hblank : (Text.trim code).isEmpty = true
    · rw [if_pos hblank] at hown
      exact (Option.not_mem_none own hown).elim
    · rw [if_neg hblank] at hown ⊢
      obtain rfl := Option.some.inj hown
      exact holds_code fun _ => has_trim _
  | placeholder expression escape =>
    intro s ops t hrun own hown
    rw [Leaf.code?] at hown
    by_cases hliteral : Script.isLiteral expression = true
    · rw [if_pos hliteral] at hown
      exact (Option.not_mem_none own hown).elim
    · rw [if_neg hliteral] at hown
      obtain rfl := Option.some.inj hown
      exact yields_has_lowerPlaceholder (Bool.eq_false_iff.mpr hliteral) escape s ops t hrun
  | _ => exact fun _ _ _ _ own hown => (Option.not_mem_none own hown).elim

-- The opening of a block has its expressions in it.
theorem Scope.has_opening {scope : Scope} {code : String} (h : code ∈ scope.expressions) :
    Has scope.opening code := by
  cases scope with
  | ifTrue condition =>
    obtain rfl := List.mem_singleton.mp h
    exact (has_self code).between "if (" ") \x7b"
  | elseIfTrue condition =>
    obtain rfl := List.mem_singleton.mp h
    exact (has_self code).between "else if (" ") \x7b"
  | each item list =>
    obtain rfl := List.mem_singleton.mp h
    exact (has_self code).between ("for (const " ++ item ++ " of ") ") \x7b"
  | eachIndexed index item list =>
    obtain rfl := List.mem_singleton.mp h
    exact (has_self code).between ("for (const [" ++ index ++ ", " ++ item ++ "] of Array.from(") ").entries()) \x7b"
  | eachProperty key value object =>
    obtain rfl := List.mem_singleton.mp h
    exact (has_self code).between ("for (const [" ++ key ++ ", " ++ value ++ "] of Object.entries(") ")) \x7b"
  | range counter start bound step =>
    have hbound : Has ((Bound.ofStep step).text counter bound step) bound := by
      cases Bound.ofStep step <;> exact (has_self bound).behind _
    simp only [Scope.expressions, List.mem_cons, List.not_mem_nil, or_false] at h
    rcases h with rfl | rfl | rfl
    · exact ((((((((has_self code).behind _).append _).append _).append _).append _).append _).append _).append _
    · exact (((((hbound.behind _).append _).append _).append _).append _).append _
    · exact (has_self code).between _ ") \x7b"
  | renderBody object params | otherwise | function name params => exact (List.not_mem_nil h).elim

-- A condition that is blank is not in its block, but neither are there literals in it.
theorem has_of_conditionOf {t : Tag} {code text : String} (hcode : code ∈ t.arguments)
    (h : ∃ lead trail, text = lead ++ conditionOf t ++ trail) : Has text code := by
  have hcondition : conditionOf t = if (Text.trim code).isEmpty then "undefined" else Text.trim code := by
    rw [conditionOf, Option.mem_def.mp hcode]
    rfl
  by_cases hblank : (Text.trim code).isEmpty = true
  · exact has_of_blank (String.isEmpty_iff.mp hblank) text
  · rwa [hcondition, if_neg hblank] at h

theorem yields_has_lowerCondition {t : Tag} {location : Location} {inner : Inner} {scope : String → Scope}
    (hscope : ∃ lead trail, (scope (conditionOf t)).opening = lead ++ conditionOf t ++ trail) :
    Yields (fun ops => ∀ code ∈ t.arguments.toList, Op.Holds true code ops)
      (lowerCondition env location t scope inner) :=
  yields_bind_any fun _ => yields_bind_any fun body => yields_pure fun _ hcode =>
    holds_block (has_of_conditionOf (Option.mem_toList.mp hcode) hscope) body

theorem yields_has_lowerTag (m : Marks) (t : Tag) (children : List Node) (inner : Inner) :
    Yields (fun ops => ∀ code ∈ t.operands env.view, Op.Holds true code ops)
      (lowerTag env m t children inner) := by
  have hkind : env.view.kindOf t = env.kindOf t := rfl
  unfold Tag.operands lowerTag
  rw [hkind]
  cases env.kindOf t with
  | ifTrue => exact yields_has_lowerCondition ⟨"if (", ") \x7b", rfl⟩
  | elseIfTrue => exact yields_has_lowerCondition ⟨"else if (", ") \x7b", rfl⟩
  | loop =>
    refine yields_bind (yields_loopScope env m.location t) fun scope hscope => yields_bind_any fun body => ?_
    obtain ⟨hempty, hoperands⟩ := hscope
    cases scope with
    | none =>
      rw [List.isEmpty_iff.mp hempty.symm]
      exact yields_pure fun code hcode => (List.not_mem_nil hcode).elim
    | some scope =>
      rw [← hoperands scope rfl]
      exact yields_pure fun code hcode => holds_block (Scope.has_opening hcode) body
  | _ => exact fun _ _ _ _ code hcode => (List.not_mem_nil hcode).elim

theorem yields_has_lower (n : Node) :
    Yields (fun ops => ∀ code ∈ n.codes env.view, Op.Holds n.isTag code ops) (lower env n) := by
  cases n with
  | leaf m l =>
    intro s ops t hrun code hcode
    exact yields_has_lowerLeaf m l s ops t hrun code (Option.mem_toList.mp hcode)
  | tag m t children => exact yields_has_lowerTag m t children _

/-- Each of the siblings has its codes in the operations. -/
theorem IsLoweredIn.holds {ns : List Node} {n : Node} {ops : List LoweredOp} (h : IsLoweredIn env ns ops)
    (hn : n ∈ ns) : ∃ run, Op.Within run ops ∧ ∀ code ∈ n.codes env.view, Op.Holds n.isTag code run := by
  obtain ⟨before, after, rfl⟩ := List.append_of_mem hn
  obtain ⟨s, run, u, hrun, hwithin⟩ := h
  obtain ⟨front, t, rest, -, hrest, rfl⟩ := exists_of_lowerAll_append hrun
  obtain ⟨one, t', hone, hrest⟩ := outcome_bind_eq_ok.mp hrest
  obtain ⟨behind, u', -, hrest⟩ := outcome_bind_eq_ok.mp hrest
  obtain ⟨rfl, rfl⟩ := outcome_pure_eq_ok.mp hrest
  have hhere : Op.Within one (front ++ (one ++ behind)) := by
    rw [← List.append_assoc]
    exact .here front behind
  exact ⟨one, hhere.trans hwithin, yields_has_lower n _ _ _ hone⟩

/-- The codes of siblings are printed in the render function: those of tags in one line, those of leaves laid
out, and all of them below the left margin. -/
theorem IsLoweredIn.printsAt {ns : List Node} {n : Node} {ops : List LoweredOp} {compiled : Compiled}
    {items : List ModuleItem} {definition value : String} {flags : RendererOptions}
    (h : IsLoweredIn env ns ops) (hn : n ∈ ns)
    (hemits : compiled.EmitsAround items definition ops value flags) {code : String}
    (hcode : code ∈ n.codes env.view) :
    ∃ level, 0 < level ∧ PrintsAt compiled.code ⟨level, n.isTag⟩ code := by
  obtain ⟨run, hwithin, hholds⟩ := h.holds hn
  obtain ⟨depth, hsubset⟩ := hwithin.textsOf_subset definition 1
  obtain ⟨text, htext, hmem⟩ := hholds code hcode definition (1 + depth)
  exact ⟨1 + depth, by omega, hemits.printsAt_of_mem (hsubset hmem) htext⟩

end

end Render

namespace Workspace

/-- Where the codes of a template are printed, and what becomes of their literals. Statements, static scriptlets
of the top level and the class of the component are laid out at the left margin; scriptlets and placeholders are
laid out below it; conditions and operands of loops are printed in one line. At each place a literal that spans
lines keeps them exactly if it is in one line, or is laid out at the left margin without loss. -/
theorem literals_of_translate (w : Workspace) (p : Path) (program : Program) (s : Session)
    (compiled : Compiled) (hcode : program.moduleCode = none)
    (htext : w.setting.text = standardText w.setting.options)
    (hrun : ((w.translate p program).run s).1 = .ok compiled) :
    let view := (w.setting.env p program.macroNames).view
    let scopes := (program.classify w.setting.registry p).scopes
    let top := program.body.filterMap Item.component?
    let lowered := (Node.loweredIn view scopes.renderScope).filterMap Part.component?
    (∀ code ∈ program.body.filterMap Item.moduleCode?, PrintsAt compiled.code ⟨0, false⟩ code) ∧
    (compiled.metadata.companions.bind Companions.component = none →
      PrintsAt compiled.code ⟨0, false⟩ ((lowered.getLast?.or top.getLast?).getD "\x7b\x7d")) ∧
    (∀ x ∈ scopes.siblings view, x.isFolded = false → ∀ n ∈ x.nodes, ∀ code ∈ n.codes view,
      ∃ level, 0 < level ∧ PrintsAt compiled.code ⟨level, n.isTag⟩ code) ∧
    ∀ (place : Placement) (literal : String), Text.IsBackquoted literal → '\n' ∈ literal.toList →
      (Text.lines (place.reflow literal) = Text.lines literal ↔
        place.isLine = true ∨ Text.IsLaidOut place.level literal) := by
  intro view scopes top lowered
  obtain ⟨c, capture, hcompiled⟩ := exists_compileTemplate hcode hrun
  obtain ⟨definition, value, flags, ops, start, finish, tags, hlowered, -, hcomponent, hemits, -, hvalue,
    hmetadata⟩ := exists_emits htext hcompiled
  have hview : (w.setting.env p (prepared p c program).macros).view = view :=
    w.setting.view_env_congr p (contains_macros_prepared p c program)
  refine ⟨fun code hmem => ?_, fun hfile => ?_, fun x hx hrendered n hn code hmem => ?_,
    fun place literal hliteral hlines => ?_⟩
  · rw [← filterMap_code?_moduleScope w.setting.registry p program,
      ← statements_moduleScope w.setting.registry p w.setting.working scopes.moduleScope
        { prepared p c program with capture }] at hmem
    obtain ⟨i, hi, hstatement⟩ := List.mem_filterMap.mp hmem
    cases i with
    | statement code' =>
      obtain rfl := Option.some.inj hstatement
      exact hemits.printsAt_statement hi
    | _ => cases hstatement
  · have hcompanions : compiled.metadata.companions = some c := by
      rw [hmetadata]
      exact companions_prepared p c program
    rw [hcompanions] at hfile
    -- the class is the last one that lowering comes to, or else the one of the top level
    have haccount := ((accounts_lower (isAccount_componentAccount htext)).2 _).1 _ _ _ hlowered
    rw [ComponentAccount, hcomponent, Option.or_none] at haccount
    have heq := hvalue hfile
    rw [filterMap_component?_moduleScope, haccount, hview] at heq
    rw [← heq]
    exact hemits.printsAt_value
  -- siblings below the top level are lowered at some time within the run
  · have hplaced : IsLoweredIn (w.setting.env p (prepared p c program).macros) x.nodes ops := by
      rcases List.mem_cons.mp hx with rfl | hx
      · exact ⟨start, ops, finish, hlowered, Op.Within.refl ops⟩
      · rw [← hview] at hx
        exact ((yields_places _).2 scopes.renderScope).1 start ops finish hlowered x hx hrendered
    rw [← hview] at hmem
    exact hplaced.printsAt hn hemits hmem
  · rw [place.lines_reflow_eq_iff hliteral, or_iff_right (not_not_intro hlines)]

/-- A page with a statement of the module, and a condition around a scriptlet: the literal of the statement
keeps its lines, that of the condition as well, and that of the scriptlet does not, at any level. -/
theorem literals_of_translate_condition :
    let place : Marks := ⟨false, ⟨1, 1⟩⟩
    let literal := "`a\nb`"
    let condition : Node := .tag place ⟨.static "if", [], some "input.kind === `a\nb`", []⟩
      [.leaf place (.scriptlet "log(`a\nb`);")]
    let page : Program := ⟨[.statement "const kinds = [`a\nb`];", .node condition], none⟩
    let file : Path := ⟨"/app/page.marko"⟩
    let w := ofTables {} [] [] []
    let view := (w.setting.env file page.macroNames).view
    Text.IsBackquoted literal ∧ condition.codes view = ["input.kind === `a\nb`"] ∧
      ∃ compiled level, ((w.translate file page).run .new).1 = .ok compiled ∧
        PrintsAt compiled.code ⟨0, false⟩ "const kinds = [`a\nb`];" ∧
        Text.lines (Placement.reflow ⟨0, false⟩ literal) = Text.lines literal ∧
        PrintsAt compiled.code ⟨level, true⟩ "input.kind === `a\nb`" ∧
        Text.lines (Placement.reflow ⟨level, true⟩ literal) = Text.lines literal ∧
        ∃ level, PrintsAt compiled.code ⟨level, false⟩ "log(`a\nb`);" ∧
          Text.lines (Placement.reflow ⟨level, false⟩ literal) ≠ Text.lines literal := by
  intro place literal condition page file w view
  have hliteral : Text.IsBackquoted literal := ⟨"a\nb", by decide +kernel⟩
  have hlines : '\n' ∈ literal.toList := by decide +kernel
  have hcodes : condition.codes view = ["input.kind === `a\nb`"] := by decide +kernel
  obtain ⟨compiled, hrun⟩ := exists_eq_ok_of_isSome
    (x := ((w.translate file page).run .new).1) (by decide +kernel)
  obtain ⟨hmodule, -, hnodes, hkeeps⟩ := literals_of_translate w file page .new compiled rfl rfl hrun
  have hkind : view.kindOf ⟨.static "if", [], some "input.kind === `a\nb`", []⟩ = .ifTrue := by decide +kernel
  have hrendered : (page.classify w.setting.registry file).scopes.renderScope = [condition] := rfl
  have htop : ⟨[condition], false⟩ ∈ (page.classify w.setting.registry file).scopes.siblings view := by
    rw [Scopes.siblings, hrendered]
    exact List.mem_cons_self
  have hinside : ⟨[.leaf place (.scriptlet "log(`a\nb`);")], false⟩ ∈
      (page.classify w.setting.registry file).scopes.siblings view := by
    rw [Scopes.siblings, hrendered, Node.siblingsIn, Node.siblings, View.enter, View.folds, hkind]
    exact List.mem_cons_of_mem _ List.mem_cons_self
  obtain ⟨level, -, hcondition⟩ := hnodes _ htop rfl condition List.mem_cons_self
    "input.kind === `a\nb`" (by rw [hcodes]; exact List.mem_cons_self)
  obtain ⟨below, hbelow, hscriptlet⟩ := hnodes _ hinside rfl _ List.mem_cons_self "log(`a\nb`);"
    (by decide +kernel)
  refine ⟨hliteral, hcodes, compiled, level, hrun, hmodule _ (by decide +kernel), ?_, hcondition, ?_, below,
    hscriptlet, ?_⟩
  · exact (hkeeps ⟨0, false⟩ literal hliteral hlines).mpr (.inr ⟨rfl, by decide +kernel⟩)
  · exact (hkeeps ⟨level, true⟩ literal hliteral hlines).mpr (.inl rfl)
  · intro hsame
    rcases (hkeeps ⟨below, false⟩ literal hliteral hlines).mp hsame with hline | ⟨hlevel, -⟩
    · cases hline
    · exact absurd hlevel hbelow.ne'

/-- The literal of a scriptlet has its second line indented, and the one of a statement of the module loses the
blank of a line that has nothing else. -/
theorem exists_literal_changed :
    let env := (Setting.standard {} (TagRegistry.ofList [])).env ⟨"/app/page.marko"⟩ []
    let scriptlet : Node := .leaf ⟨false, ⟨1, 1⟩⟩ (.scriptlet "const a = `x\ny`;")
    let start := State.start ⟨[]⟩ (.ofPath ⟨"/app/page.marko"⟩) .empty
    let printed (body : List TextOp) : String := Module.print ⟨none, .empty, [.statement "const b = `x\n \ny`;",
      .render ⟨"t._", "render", ["input", "out"], body, "\x7b\x7d", "c"⟩]⟩
    (outcome (lower env scriptlet) start).1.toOption.map (printed <| textOps "c" ·) =
        some ("const b = `x\n\ny`;\nt._ = render(function (input, out) \x7b\n  const a = `x\n  y`;\n" ++
          "\x7d, \x7b\x7d, c);\n") ∧
      Text.lines (Placement.reflow ⟨1, false⟩ "`x\ny`") = ["`x", "  y`"] ∧
      Text.lines (Placement.reflow ⟨0, false⟩ "`x\n \ny`") = ["`x", "", "y`"] := by
  decide +kernel

end Workspace

end TemplateCompiler
