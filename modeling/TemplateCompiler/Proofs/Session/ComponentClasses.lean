import TemplateCompiler.Proofs.Lowering.Accounts
import TemplateCompiler.Proofs.Session.Output

/-!
# Component classes of compiled templates

Which class a compiled template has as its component: the last one that is lowered, or else the last one
at the top level (`value_of_translate`). Whether the template counts as one with a component is decided by
the classes at the top level alone.
-/

namespace TemplateCompiler

open Render

/-- The code of a component class, as it is used. -/
def Part.component? : Part → Option String
  | .leaf (.component code) => some (Text.trim code)
  | _ => none

/-! ## The account -/

/-- Of the component classes that are lowered the last one counts. -/
def Render.ComponentAccount (T : List Part) (s : State) (_ : List LoweredOp) (t : State) : Prop :=
  t.component = (T.filterMap Part.component?).getLast?.or s.component

-- Looking up the function of a macro leaves the component as it is.
theorem Render.component_of_macroFunction {name function : String} {s t : State}
    (h : outcome (macroFunction name) s = (.ok function, t)) : t.component = s.component :=
  (moves_macroFunction (R := fun s t => t.component = s.component) (fun _ => rfl)
    (fun _ _ _ => rfl) name).rel h

theorem Render.isAccount_componentAccount {env : Env} (htext : env.text = standardText env.options) :
    IsAccount env ComponentAccount where
  quiet s t h := h.2
  append T U s t u ops more hT hU := by
    rw [ComponentAccount, hU, hT, List.filterMap_append, List.getLast?_append, Option.or_assoc]
  write s markup := rfl
  code s statement hplain := rfl
  block T s body t scope hne hT := hT
  leaf m l s ops t hrun := by
    have hother (hne : ∀ code, l ≠ .component code) : t.component = s.component :=
      ((moves_lowerLeaf_of_ne isQuiet_sameBuild.toIsNaming
        (moves_text isQuiet_sameBuild.toIsNaming htext m) hne).rel hrun).2
    cases l with
    | component code =>
      obtain ⟨_, u, hdefine, hrun⟩ := outcome_bind_eq_ok.mp hrun
      obtain ⟨-, rfl⟩ := outcome_pure_eq_ok.mp hrun
      cases hdefine
      rfl
    | _ => exact hother fun code => by simp
  call T name function input s t ops u hrun hT := by
    rw [ComponentAccount, ← component_of_macroFunction hrun]
    exact hT
  definition T name function params s t body u hrun hT := by
    rw [ComponentAccount, ← component_of_macroFunction hrun]
    exact hT

/-! ## Classes of a program -/

theorem Item.component?_eq (i : Item) : i.component? = i.leaf?.bind Part.component? := by
  unfold component? leaf?
  split
  · rfl
  · rename_i hother
    split
    · rename_i m l
      cases l with
      | component code => exact absurd rfl (hother m code)
      | _ => rfl
    · rfl

/-- Each class is lowered, or stands in a constant element or at the top level. -/
theorem perm_classes (v : View) (registry : TagRegistry) (source : Path) (p : Program) :
    let scopes := (p.classify registry source).scopes
    ((Node.loweredIn v scopes.renderScope).filterMap Part.component? ++
      (foldedParts (scopes.pieces v)).filterMap Part.component? ++
      p.body.filterMap Item.component?).Perm ((p.parts v).filterMap Part.component?) := by
  intro scopes
  have htop : (scopes.moduleScope.filterMap Item.leaf?).filterMap Part.component? =
      p.body.filterMap Item.component? := by
    rw [← Workspace.filterMap_component?_moduleScope registry source p, List.filterMap_filterMap]
    exact (List.filterMap_congr fun i _ => i.component?_eq).symm
  have hlowered : (Node.loweredIn v scopes.renderScope ++ foldedParts (scopes.pieces v)).Perm
      ((scopes.pieces v).map (·.part)) :=
    (((Node.perm_lowered v).2 _).1.append_right _).trans (perm_parts _)
  have hall := ((hlowered.append_right _).trans (p.perm_parts v registry source)).filterMap
    Part.component?
  rwa [List.filterMap_append, List.filterMap_append, htop] at hall

theorem Program.hasClass_eq (p : Program) :
    p.hasClass = !(p.body.filterMap Item.component?).isEmpty := by
  obtain ⟨body, code⟩ := p
  unfold hasClass nodes
  dsimp only
  induction body with
  | nil => rfl
  | cons i rest ih =>
    cases i with
    | node n =>
      cases n with
      | leaf m l =>
        cases l with
        | component code => rfl
        | _ => exact ih
      | tag m t children => exact ih
    | external declaration => exact ih
    | statement code => exact ih

-- A file that provides the component is recorded if there is any reason for a component.
theorem Metadata.isSome_component_finalize (m : Metadata) (source : Path) (working : Option Path) {c : Companions}
    (h : m.hasBrowserComponent = c.browser.isSome) :
    (m.finalize source c working).component.isSome =
      (m.hasComponent || m.hasBrowserComponent || m.capture.isYes) := by
  show ((m.componentFile source c).map (source.request · working)).isSome = _
  rw [Option.isSome_map, componentFile, Bool.or_right_comm]
  cases hbrowser : m.hasBrowserComponent with
  | true =>
    rw [if_pos rfl, ← h, hbrowser, Bool.or_true]
  | false =>
    rw [if_neg Bool.false_ne_true, Bool.or_false]
    cases m.hasComponent || m.capture.isYes <;> rfl

namespace Workspace

theorem prepared_eq (p : Path) (c : Companions) (program : Program) :
    prepared p c program = { Metadata.ofPath p with
      companions := some c
      hasComponent := c.component.isSome || program.hasClass
      hasBrowserComponent := c.browser.isSome
      macros := (prepared p c program).macros } := by
  rw [prepared, Metadata.prepare, Metadata.foldl_addMacro_eq]

/-- The component of a template that has no component file is the last class that is lowered, or else the
last one at the top level. All classes at the top level are found before that; if there is none, the
template does not count as one with a component, whatever class it has. -/
theorem value_of_translate (w : Workspace) (p : Path) (program : Program) (s : Session)
    (compiled : Compiled) (hcode : program.moduleCode = none)
    (htext : w.setting.text = standardText w.setting.options)
    (hrun : ((w.translate p program).run s).1 = .ok compiled)
    (hfile : compiled.metadata.companions.bind Companions.component = none) :
    let view := (w.setting.env p program.macroNames).view
    let scopes := (program.classify w.setting.registry p).scopes
    let top := program.body.filterMap Item.component?
    let lowered := (Node.loweredIn view scopes.renderScope).filterMap Part.component?
    let folded := (foldedParts (scopes.pieces view)).filterMap Part.component?
    let classes := (program.parts view).filterMap Part.component?
    (lowered ++ folded ++ top).Perm classes ∧
    ((∀ o ∈ Node.occurrencesIn [] scopes.renderScope, o.tag.slot? = none) →
      lowered = (renderedParts (scopes.pieces view)).filterMap Part.component?) ∧
    ∃ (definition value : String) (flags : RendererOptions) (ops : List LoweredOp),
      compiled.Emits definition ops value flags ∧
      value = (lowered.getLast?.or top.getLast?).getD "\x7b\x7d" ∧
      compiled.metadata.hasComponent = !top.isEmpty ∧
      compiled.metadata.component.isSome = (!top.isEmpty ||
        compiled.metadata.hasBrowserComponent || compiled.metadata.capture.isYes) ∧
      flags.hasComponent = compiled.metadata.component.isSome ∧
      (classes = top → ∀ last, classes.getLast? = some last →
        value = last ∧ compiled.metadata.hasComponent = true ∧
          compiled.metadata.component.isSome = true ∧ flags.hasComponent = true) := by
  intro view scopes top lowered folded classes
  obtain ⟨c, hcompanions, ⟨b⟩⟩ := exists_build hcode htext hrun
  rw [hcompanions] at hfile
  replace hfile : c.component = none := hfile
  -- the class that is defined last is the one that is there at the end of lowering
  have haccount := ((accounts_lower (isAccount_componentAccount htext)).2 _).1 _ _ _ b.lowered
  rw [w.setting.view_env_congr p b.contains_macros, ComponentAccount, b.component_start,
    Option.or_none] at haccount
  have hvalue : b.value = (lowered.getLast?.or top.getLast?).getD "\x7b\x7d" := by
    rw [b.value_eq hfile, haccount]
  have hperm : (lowered ++ folded ++ top).Perm classes := perm_classes view w.setting.registry p program
  have hmetadata := b.metadata_eq
  rw [prepared_eq] at hmetadata
  have hhas : compiled.metadata.hasComponent = !top.isEmpty := by
    rw [hmetadata]
    show (c.component.isSome || program.hasClass) = _
    rw [hfile, program.hasClass_eq]
    rfl
  have hcomponent : compiled.metadata.component.isSome = (!top.isEmpty ||
      compiled.metadata.hasBrowserComponent || compiled.metadata.capture.isYes) := by
    rw [← hhas, hmetadata]
    exact Metadata.isSome_component_finalize _ p _ rfl
  refine ⟨hperm, fun hslots => ?_, b.definition, b.value, b.flags, b.ops, b.emits, hvalue, hhas,
    hcomponent, b.hasComponent_flags, fun htop last hlast => ?_⟩
  · exact congrArg (List.filterMap Part.component?) (Node.loweredIn_eq_renderedIn.2 _ [] false hslots)
  -- if all classes are at the top level, none is left to be defined by lowering
  · have hsame : classes.length = top.length := congrArg List.length htop
    have hlength := hperm.length_eq
    rw [List.length_append, List.length_append] at hlength
    have hlowered : lowered = [] := List.eq_nil_of_length_eq_zero (by omega)
    have hne : top.isEmpty = false := by
      rw [← htop]
      cases hclasses : classes with
      | nil =>
        rw [hclasses] at hlast
        cases hlast
      | cons code rest => rfl
    have hsome : compiled.metadata.component.isSome = true := by
      rw [hcomponent, hne]
      rfl
    refine ⟨?_, ?_, hsome, b.hasComponent_flags.trans hsome⟩
    · rw [hvalue, hlowered, ← htop, hlast]
      rfl
    · rw [hhas, hne]
      rfl

/-- A page with two classes at the top level, and no file beside it. -/
theorem value_of_translate_classes :
    let place : Marks := ⟨false, ⟨1, 1⟩⟩
    let page : Program := ⟨[.node (.leaf place (.component "class A \x7b \x7d")),
      .node (.tag place ⟨.static "div", [], none, []⟩ [.leaf place (.text "hi")]),
      .node (.leaf place (.component " class B \x7b \x7d "))], none⟩
    let w := ofTables {} [] [] []
    ∃ compiled, ((w.translate ⟨"/app/page.marko"⟩ page).run .new).1 = .ok compiled ∧
      compiled.metadata.companions.bind Companions.component = none ∧
      ∃ (definition value : String) (flags : RendererOptions) (ops : List LoweredOp),
        compiled.Emits definition ops value flags ∧ value = "class B \x7b \x7d" ∧
        compiled.metadata.hasComponent = true ∧ flags.hasComponent = true := by
  intro place page w
  obtain ⟨compiled, hrun⟩ := exists_eq_ok_of_isSome
    (x := ((w.translate ⟨"/app/page.marko"⟩ page).run .new).1) (by decide +kernel)
  have hfile : compiled.metadata.companions.bind Companions.component = none := by
    have hfiles : (((w.translate ⟨"/app/page.marko"⟩ page).run .new).1.toOption.map
        fun c => c.metadata.companions.bind Companions.component) = some none := by decide +kernel
    rw [hrun] at hfiles
    exact Option.some.inj hfiles
  obtain ⟨-, -, definition, value, flags, ops, hemits, -, -, -, -, hall⟩ :=
    value_of_translate w ⟨"/app/page.marko"⟩ page .new compiled rfl rfl hrun hfile
  obtain ⟨hvalue, hhas, -, hflags⟩ := hall (by decide +kernel) "class B \x7b \x7d" (by decide +kernel)
  exact ⟨compiled, hrun, hfile, definition, value, flags, ops, hemits, hvalue, hhas, hflags⟩

/-- A class below the top level is not found before lowering: a page whose class stands in an element
counts as one without a component. -/
theorem exists_component_not_found :
    let place : Marks := ⟨false, ⟨1, 1⟩⟩
    let page : Program := ⟨[.node (.tag place ⟨.static "div", [], none, []⟩
      [.leaf place (.component "class \x7b \x7d")])], none⟩
    let w := ofTables { writeVersionComment := false } [] [] []
    page.parts (w.setting.env ⟨"/app/page.marko"⟩ page.macroNames).view =
        [.leaf (.component "class \x7b \x7d")] ∧
      (((w.translate ⟨"/app/page.marko"⟩ page).run .new).1.toOption.map fun compiled =>
        (compiled.metadata.companions.bind Companions.component, compiled.metadata.hasComponent,
          compiled.metadata.component)) = some (none, false, none) := by
  decide +kernel

end Workspace

end TemplateCompiler
