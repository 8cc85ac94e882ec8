import TemplateCompiler.Proofs.Render.Assembly
import TemplateCompiler.Proofs.Session.Asking
import TemplateCompiler.Proofs.Session.History
import TemplateCompiler.Proofs.Template.Parts
import TemplateCompiler.Proofs.Template.Scopes

/-!
# What a session prints

A template that a session compiles is lowered from the parts of the program, apart from the leaves that
belong to the module (`perm_parts`), and printed from what they are lowered to (`exists_build`).
-/

namespace TemplateCompiler

open Render

/-! ## Parts of a program -/

/-- The parts of a program, whether they stand in constant elements or not. -/
def Program.parts (v : View) (p : Program) : List Part :=
  (Node.piecesIn v false false p.nodes).map (·.part)

/-- The parts of what is rendered. -/
def Scopes.pieces (v : View) (s : Scopes) : List Piece := Node.piecesIn v false false s.renderScope

/-- The leaf that an item is, as a part. -/
def Item.leaf? : Item → Option Part
  | .node (.leaf _ l) => some (.leaf l)
  | _ => none

/-- The parts of an item. -/
def Item.parts (v : View) (i : Item) : List Part :=
  match i with
  | .node n => (n.pieces v false false).map (·.part)
  | _ => []

section

variable (v : View) (native : String → Bool)

-- Marked or not, what is rendered has the same parts.
theorem Item.parts_of_rendered?_eq_some {i : Item} {n : Node}
    (h : (i.classify native).rendered? = some n) :
    (n.pieces v false false).map (·.part) = i.parts v := by
  cases i with
  | node original =>
    have hsame := (Node.map_part_pieces_setStatic v native).1 original
    have hn : (original.classify native).unmarkOutput = n := by
      simp only [Item.classify, Item.rendered?] at h
      split at h
      · cases h
      · exact Option.some.inj h
    rw [← hn, Node.unmarkOutput]
    split
    · exact hsame false false false false
    · have hmarked := hsame (original.classify native).isStatic false false false
      rwa [Node.setStatic_isStatic] at hmarked
  | external declaration => cases h
  | statement code => cases h

-- What is not rendered is a leaf, if it is a node at all.
theorem Item.parts_of_rendered?_eq_none {i : Item} (h : (i.classify native).rendered? = none) :
    (i.classify native).leaf?.toList = i.parts v := by
  cases i with
  | node n =>
    cases n with
    | leaf m l => cases l <;> rfl
    | tag m t children => cases h
  | external declaration => rfl
  | statement code => rfl

end

/-- All parts of a program are rendered, apart from the leaves that belong to the module. -/
theorem Program.perm_parts (v : View) (registry : TagRegistry) (source : Path) (p : Program) :
    let scopes := (p.classify registry source).scopes
    ((scopes.pieces v).map (·.part) ++ scopes.moduleScope.filterMap Item.leaf?).Perm (p.parts v) := by
  obtain ⟨body, code⟩ := p
  unfold Scopes.pieces Program.parts Program.nodes
  dsimp only [classify, scopes]
  induction body with
  | nil => exact .nil
  | cons i rest ih =>
    have hparts : (Node.piecesIn v false false ((i :: rest).filterMap Item.node?)).map (·.part) =
        i.parts v ++ (Node.piecesIn v false false (rest.filterMap Item.node?)).map (·.part) := by
      cases i with
      | node n => exact List.map_append
      | external declaration => rfl
      | statement code => rfl
    rw [hparts, List.map_cons]
    cases hrendered : (i.classify (registry.isNative source)).rendered? with
    | some n =>
      rw [List.filterMap_cons_some hrendered, List.filter_cons_of_neg (by simp [hrendered]),
        Node.piecesIn, List.map_append, Item.parts_of_rendered?_eq_some v _ hrendered,
        List.append_assoc]
      exact ih.append_left _
    | none =>
      rw [List.filterMap_cons_none hrendered, List.filter_cons_of_pos (by simp [hrendered]),
        ← Item.parts_of_rendered?_eq_none v _ hrendered]
      cases hleaf : (i.classify (registry.isNative source)).leaf? with
      | none =>
        rw [List.filterMap_cons_none hleaf]
        exact ih
      | some part =>
        rw [List.filterMap_cons_some hleaf]
        exact List.perm_middle.trans (ih.cons part)

/-! ## Views -/

-- What tags stand for only depends on which names are those of macros.
theorem Setting.view_env_congr (setting : Setting) (source : Path) {macros others : List String}
    (h : ∀ name, macros.contains name = others.contains name) :
    (setting.env source macros).view = (setting.env source others).view := by
  have hname (name : String) :
      (setting.env source macros).kindOfName name = (setting.env source others).kindOfName name := by
    show (if macros.contains name then _ else _) = if others.contains name then _ else _
    rw [h name]
    rfl
  have hkind : (setting.env source macros).kindOf = (setting.env source others).kindOf := by
    funext t
    unfold Env.kindOf
    simp only [hname]
  unfold Env.view
  simp only [hkind]
  rfl

/-! ## Builds -/

namespace Workspace

variable {w : Workspace} {p : Path} {program : Program} {compiled : Compiled}

/-- What a compiled template was lowered from and printed from, if `companions` are beside it. -/
structure Build (w : Workspace) (p : Path) (program : Program) (companions : Companions)
    (compiled : Compiled) where
  macros : List String
  capture : Capture
  tags : List String
  definition : String
  ops : List LoweredOp
  value : String
  flags : RendererOptions
  start : State
  finish : State
  contains_macros : ∀ name, macros.contains name = program.macroNames.contains name
  lowered : outcome (lowerAll (w.setting.env p macros)
    (program.classify w.setting.registry p).scopes.renderScope) start = (.ok ops, finish)
  macroNames_start : start.macroNames = []
  component_start : start.component = none
  emits : compiled.Emits definition ops value flags
  hasComponent_flags : flags.hasComponent = compiled.metadata.component.isSome
  value_eq : companions.component = none → value = (finish.component.or
    (program.body.filterMap Item.component?).getLast?).getD "\x7b\x7d"
  metadata_eq : compiled.metadata =
    { { prepared p companions program with capture }.finalize p companions w.setting.working with tags }

-- The companions are recorded before anything else, and stay.
theorem companions_prepared (p : Path) (c : Companions) (program : Program) :
    (prepared p c program).companions = some c := by
  rw [prepared, Metadata.prepare, Metadata.foldl_addMacro_eq]

theorem contains_macros_prepared (p : Path) (c : Companions) (program : Program) (name : String) :
    (prepared p c program).macros.contains name = program.macroNames.contains name := by
  rw [Bool.eq_iff_iff, prepared, Metadata.prepare, Metadata.contains_macros_foldl]
  simp [Metadata.ofPath]

-- Analysis finds out nothing but whether state is captured.
theorem exists_capture_of_analyze {ask : Path → StateM Session (Option Summary)} {c : Companions}
    {m : Metadata} {s t : Session} (h : (w.analyze ask p program).run s = ((c, m), t)) :
    ∃ capture, m = { prepared p c program with capture } := by
  rw [analyze_run] at h
  cases h
  exact judgeAll_eq _ _ _ _ _ _

/-- A session that compiles a template makes a module of what it finds out about it. -/
theorem exists_compileTemplate {s : Session} (hcode : program.moduleCode = none)
    (h : ((w.translate p program).run s).1 = .ok compiled) :
    ∃ c capture, compileTemplate w.setting p c { prepared p c program with capture } program =
      .ok compiled := by
  rcases hrun : (w.analyze (w.fileSummary w.sources.length) p program).run
    { s with records := s.records.insert p .inProgress } with ⟨⟨c, m⟩, t⟩
  obtain ⟨capture, rfl⟩ := exists_capture_of_analyze hrun
  refine ⟨c, capture, ?_⟩
  rw [translate, hcode, run_translateTemplate_eq hrun] at h
  dsimp only at h
  split at h
  · rename_i other hcompiled
    rw [hcompiled]
    exact h
  · cases h

-- Component classes at the top level are not rendered, whatever else is.
theorem filterMap_component?_moduleScope (registry : TagRegistry) (p : Path) (program : Program) :
    (program.classify registry p).scopes.moduleScope.filterMap Item.component? =
      program.body.filterMap Item.component? := by
  refine program.filterMap_moduleScope registry p fun i => ?_
  cases i with
  | node n =>
    cases n with
    | leaf m l =>
      cases l with
      | scriptlet code => exact ite_self none
      | _ => rfl
    | tag m t children => rfl
  | external declaration => rfl
  | statement code => rfl

/-- Each template that is compiled is built. -/
theorem exists_build {s : Session} (hcode : program.moduleCode = none)
    (htext : w.setting.text = standardText w.setting.options)
    (h : ((w.translate p program).run s).1 = .ok compiled) :
    ∃ c, compiled.metadata.companions = some c ∧ Nonempty (Build w p program c compiled) := by
  obtain ⟨c, capture, hcompiled⟩ := exists_compileTemplate hcode h
  obtain ⟨definition, value, flags, ops, start, finish, tags, hlowered, hmacros, hcomponent, hemits,
    hflags, hvalue, hmetadata⟩ := exists_emits htext hcompiled
  rw [filterMap_component?_moduleScope] at hvalue
  refine ⟨c, ?_, ⟨_, capture, tags, definition, ops, value, flags, start, finish,
    contains_macros_prepared p c program, hlowered, hmacros, hcomponent,
    hemits.emits (isRender_moduleScope _ _ _ _ _), hflags, hvalue, hmetadata⟩⟩
  rw [hmetadata]
  exact companions_prepared p c program

end Workspace

end TemplateCompiler
