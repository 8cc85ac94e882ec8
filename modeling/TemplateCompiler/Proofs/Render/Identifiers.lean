import TemplateCompiler.Proofs.Lowering.Logic
import TemplateCompiler.Proofs.Render.Assembly

/-!
# Generated names in modules

The logic of lowering goes on to the module that is assembled around it (`IsModuleLogic.compileScopes`). With
the names that are kept out of the choice as `N`, it says that no name in a compiled template that stands for
something generated is one that the program declares (`isModuleLogic_spares`).
-/

namespace TemplateCompiler

open Render

namespace Render

/-! ## The module -/

/-- The names in an item of a module that stand for something generated. -/
def ModuleItem.generated : ModuleItem → List String
  | .constants declarators => declarators.map Prod.fst
  | .exportDefault name => [name]
  | .render call => [call.renderer, call.component]
  | .external _ | .statement _ | .assign _ _ => []

/-- A judgement that goes on to the module. `I` holds of the states that are looked at; the names in use
are not among what is looked for. -/
structure IsModuleLogic (N : String → Prop) (I : State → Prop)
    (J : ∀ {α : Type}, (α → Prop) → Lower α → Prop) : Prop extends IsLogic N J where
  finalizeMetadata : ∀ source companions working,
    J (fun _ => True) (finalizeMetadata source companions working)
  get : ∀ {α : Type} {Q : α → Prop} {f : State → Lower α}, (∀ s names, f { s with names } = f s) →
    (∀ s, I s → J Q (f s)) → J Q (MonadState.get >>= f)

/-- What holds of a module around the operations of a render function: it has one render function with
them, and the names that stand for something generated are as `N` says. -/
structure Module.IsClear (N : String → Prop) (I : State → Prop) (definition : String)
    (body : List TextOp) (m : Module) : Prop where
  imports : ∃ s, I s ∧ m.imports = s.imports
  items : ∀ i ∈ m.items, ∀ name ∈ i.generated, N name
  render : ∃ before call after, m.items = before ++ .render call :: after ∧
    (∀ i ∈ before, i.isRender = false) ∧
    call.params = ["input", "out", definition, "component", "state"] ∧ call.body = body

namespace IsModuleLogic

variable {N : String → Prop} {I : State → Prop} {J : ∀ {α : Type}, (α → Prop) → Lower α → Prop}
  {options : Options} {source : Path} {companions : Companions} {working : Option Path}

theorem componentClass (h : IsModuleLogic N I J) (own : Option String) :
    J (fun _ => True) (componentClass source companions own working) := by
  unfold Render.componentClass
  split
  · exact h.any (h.importName _ _ _)
  · exact h.pure trivial

theorem componentTypeValue (h : IsModuleLogic N I J) (id template : String) :
    J (fun _ => True) (componentTypeValue options source companions id template working) := by
  unfold Render.componentTypeValue
  split
  · exact h.pure trivial
  · apply h.bind (h.importName _ _ _)
    intro register _
    dsimp only
    split
    · exact h.bind (h.importName _ _ _) fun loaded _ => h.pure trivial
    · exact h.bind (h.pure trivial) fun loaded (_ : True) => h.pure trivial

theorem constructorItems (h : IsModuleLogic N I J) (component template : String) :
    J (fun items => ∀ i ∈ items, i.generated = []) (constructorItems options component template) := by
  unfold Render.constructorItems
  split
  · exact h.pure fun i hi => (List.not_mem_nil hi).elim
  · exact h.bind (h.importName _ _ _) fun define _ => h.pure (List.forall_mem_singleton.mpr rfl)

theorem metaItems (h : IsModuleLogic N I J) (componentType template : String) (t : TemplateMeta) :
    J (fun items => ∀ i ∈ items, i.generated = [])
      (metaItems options source componentType template t) := by
  unfold Render.metaItems
  split_ifs
  · exact h.pure fun i hi => (List.not_mem_nil hi).elim
  · exact h.pure (List.forall_mem_singleton.mpr rfl)
  · exact h.throw _

theorem assemble (h : IsModuleLogic N I J) (parts : Parts)
    (hscope : ∀ i ∈ parts.moduleScope, i.isRender = false ∧ i.generated = []) :
    J (fun r => r.1.IsClear N I parts.definition parts.body)
      (assemble options source companions parts working) := by
  refine h.bind (h.finalizeMetadata _ _ _) fun _ _ => h.bind (h.componentClass _) fun value _ => ?_
  apply h.bind (h.generateName _)
  intro component hcomponent
  apply h.bind (h.generateName _)
  intro componentType htype
  apply h.bind (h.generateName _)
  intro template htemplate
  apply h.bind (h.importName _ _ _)
  intro renderer hrenderer
  refine h.bind (h.importName _ _ _) fun factory _ => h.get (fun _ _ => rfl) fun s _ => ?_
  refine h.bind (h.componentTypeValue _ _) fun typeValue _ => h.bind (h.constructorItems _ _) ?_
  intro constructor hconstructor
  apply h.bind (h.metaItems _ _ _)
  intro attached hattached
  refine h.get (fun _ _ => rfl) fun s' hs' => h.pure ⟨⟨s', hs', rfl⟩, fun i hi => ?_, ?_⟩
  · have hnone (heq : i.generated = []) : ∀ name ∈ i.generated, N name := by simp [heq]
    rcases List.mem_append.mp hi with hi | hi
    · rcases List.mem_append.mp hi with hi | hi
      · rcases List.mem_append.mp hi with hi | hi
        · rcases List.mem_append.mp hi with hi | hi
          · rcases List.mem_pair.mp hi with rfl | rfl
            · exact List.forall_mem_singleton.mpr htemplate
            · exact List.forall_mem_singleton.mpr htemplate
          · exact hnone (hscope i hi).2
        · rcases List.mem_pair.mp hi with rfl | rfl
          · exact List.forall_mem_cons.mpr ⟨htype, List.forall_mem_singleton.mpr hcomponent⟩
          · exact List.forall_mem_cons.mpr ⟨hrenderer, List.forall_mem_singleton.mpr hcomponent⟩
      · exact hnone (hconstructor i hi)
    · exact hnone (hattached i hi)
  · have hsplit (start : List ModuleItem) (constants : ModuleItem) (call : RenderCall) :
        start ++ [constants, .render call] ++ constructor ++ attached =
          start ++ [constants] ++ .render call :: (constructor ++ attached) := by
      simp only [List.append_assoc, List.cons_append, List.nil_append]
    refine ⟨_, _, _, hsplit _ _ _, fun i hi => ?_, rfl, rfl⟩
    rcases List.mem_append.mp hi with hi | hi
    · rcases List.mem_append.mp hi with hi | hi
      · rcases List.mem_pair.mp hi with rfl | rfl <;> rfl
      · exact (hscope i hi).1
    · rw [List.mem_singleton.mp hi]
      rfl

/-- A module is as the judgement says if its nodes and the items of its scope are. -/
theorem compileScopes (h : IsModuleLogic N I J) {env : Env} {T : Tag → Bool}
    (htext : ∀ m v, J (Op.AreClear N T) (env.text m v)) (definition : String) {items : List ModuleItem}
    (hscope : ∀ i ∈ items, i.isRender = false ∧ i.generated = []) (component : Option String)
    {rendered : List Node} (hall : Node.allIn (fun t _ => T t) rendered = true) :
    J (fun r => ∃ ops, Op.AreClear N T ops ∧ r.1.IsClear N I definition (textOps definition ops))
      (compileScopes env companions definition items component rendered) := by
  apply h.bind ((h.lower env htext).2 rendered hall).1
  intro ops hops
  refine h.get (fun _ _ => rfl) fun s _ => h.imp (h.assemble _ hscope) fun r hr => ⟨ops, hops, hr⟩

end IsModuleLogic

/-! ## Names that are kept out of the choice -/

/-- The names are in use, and stand for no import and no macro. -/
structure State.Spares (names : List String) (s : State) : Prop where
  used : ∀ name ∈ names, name ∈ s.names.used
  imports : ∀ e ∈ s.imports.entries, e.localName ∉ names
  macros : ∀ e ∈ s.macroNames, e.2 ∉ names

section

variable {names : List String} {s : State}

theorem State.Spares.fresh_not_mem (h : s.Spares names) (hint : String) :
    s.names.fresh hint ∉ names :=
  fun hmem => Names.fresh_not_mem s.names hint (h.used _ hmem)

-- More names may be in use.
theorem State.Spares.reserve (h : s.Spares names) (name : String) :
    ∀ other ∈ names, other ∈ (s.names.reserve name).used :=
  fun other hother => (Names.mem_reserve _ _ _).mpr (.inr (h.used other hother))

theorem ensures_generateName (hint : String) :
    Ensures (State.Spares names) (· ∉ names) (generateName hint) := by
  rintro s name t hs ⟨⟩
  exact ⟨⟨hs.reserve _, hs.imports, hs.macros⟩, hs.fresh_not_mem hint⟩

theorem ensures_importName (source : String) (binding : Binding) (hint : String) :
    Ensures (State.Spares names) (· ∉ names) (importName source binding hint) := by
  intro s name t hs hrun
  obtain ⟨rfl, hknown⟩ | ⟨rfl, rfl⟩ := importName_cases hrun
  · exact ⟨hs, hs.imports _ hknown⟩
  · refine ⟨⟨hs.reserve _, fun e he => ?_, hs.macros⟩, hs.fresh_not_mem hint⟩
    rcases List.mem_append.mp he with he | he
    · exact hs.imports e he
    · rw [List.mem_singleton.mp he]
      exact hs.fresh_not_mem hint

theorem ensures_macroFunction (name : String) :
    Ensures (State.Spares names) (· ∉ names) (macroFunction name) := by
  intro s function t hs hrun
  obtain ⟨rfl, hknown⟩ | ⟨-, rfl, rfl⟩ := macroFunction_cases hrun
  · exact ⟨hs, hs.macros _ (mem_of_lookup hknown)⟩
  · refine ⟨⟨hs.reserve _, hs.imports, fun e he => ?_⟩, hs.fresh_not_mem name⟩
    rcases List.mem_append.mp he with he | he
    · exact hs.macros e he
    · rw [List.mem_singleton.mp he]
      exact hs.fresh_not_mem name

end

/-- Names that are kept out of the choice are never generated. -/
theorem isModuleLogic_spares (names : List String) :
    IsModuleLogic (· ∉ names) (State.Spares names) (Ensures (State.Spares names)) where
  pure := ensures_pure
  throw := ensures_throw
  bind := ensures_bind
  get _ h := ensures_get h
  generateName := ensures_generateName
  importName := ensures_importName
  useTag request hint s name t hs hrun :=
    ensures_importName request .default hint { s with metadata := s.metadata.addTag request } name t
      ⟨hs.used, hs.imports, hs.macros⟩ hrun
  macroFunction := ensures_macroFunction
  takeKey := by
    rintro s key t hs ⟨⟩
    exact ⟨⟨hs.used, hs.imports, hs.macros⟩, trivial⟩
  defineComponent code := by
    rintro s _ t hs ⟨⟩
    exact ⟨⟨hs.used, hs.imports, hs.macros⟩, trivial⟩
  finalizeMetadata source companions working := by
    rintro s _ t hs ⟨⟩
    exact ⟨⟨hs.used, hs.imports, hs.macros⟩, trivial⟩

end Render

/-! ## Declared names -/

-- Marks have no part in what is declared.
theorem Item.declaredNames_classify (native : String → Bool) (i : Item) :
    (i.classify native).declaredNames = i.declaredNames := by
  cases i with
  | node n =>
    cases n with
    | leaf m l => cases l <;> rfl
    | tag m t children => rfl
  | external declaration => rfl
  | statement code => rfl

theorem Program.declaredNames_classify (p : Program) (registry : TagRegistry) (source : Path) :
    (p.classify registry source).declaredNames = p.declaredNames := by
  show (p.body.map _).flatMap Item.declaredNames = p.body.flatMap Item.declaredNames
  rw [List.flatMap_map]
  exact List.flatMap_congr fun i _ => i.declaredNames_classify _

theorem Names.used_reserveAll (names : Names) (reserved : List String) :
    (names.reserveAll reserved).used = reserved.reverse ++ names.used := by
  induction reserved generalizing names with
  | nil => rfl
  | cons name rest ih =>
    show ((names.reserve name).reserveAll rest).used = _
    rw [ih, List.reverse_cons, List.append_assoc]
    rfl

/-! ## Tags of a program -/

/-- The tag stands somewhere in the program. -/
def Program.hasTag (p : Program) (t : Tag) : Bool := p.occurrences.any fun o => o.tag == t

theorem Node.all_iff_occurrences {q : Tag → Bool} :
    (∀ (n : Node) (enclosing : List Tag),
      n.all (fun t _ => q t) = true ↔ ∀ o ∈ n.occurrences enclosing, q o.tag = true) ∧
    ∀ (ns : List Node) (enclosing : List Tag),
      allIn (fun t _ => q t) ns = true ↔ ∀ o ∈ occurrencesIn enclosing ns, q o.tag = true := by
  apply Node.induct
  case leaf => exact fun m l _ => ⟨fun _ o ho => (List.not_mem_nil ho).elim, fun _ => rfl⟩
  case tag =>
    intro m t children ih enclosing
    rw [all, occurrences, Bool.and_eq_true, List.forall_mem_cons, ih (t :: enclosing)]
  case nil => exact fun _ => ⟨fun _ o ho => (List.not_mem_nil ho).elim, fun _ => rfl⟩
  case cons =>
    intro n ns ihn ihns enclosing
    rw [allIn, occurrencesIn, Bool.and_eq_true, List.forall_mem_append, ihn enclosing, ihns enclosing]

theorem Program.allIn_hasTag (p : Program) : Node.allIn (fun t _ => p.hasTag t) p.nodes = true :=
  (Node.all_iff_occurrences.2 p.nodes []).mpr fun o ho =>
    List.any_eq_true.mpr ⟨o, ho, beq_iff_eq.mpr rfl⟩

-- The scope of a module is made of authored items only.
theorem authored_moduleScope (registry : TagRegistry) (source : Path) (working : Option Path)
    (items : List Item) (m : Metadata) :
    ∀ i ∈ (moduleScope registry source working items m).1, i.isRender = false ∧ i.generated = [] := by
  induction items generalizing m with
  | nil => exact fun i hi => (List.not_mem_nil hi).elim
  | cons i rest ih =>
    unfold moduleScope
    split
    · exact List.forall_mem_cons.mpr ⟨⟨rfl, rfl⟩, ih _⟩
    · exact List.forall_mem_cons.mpr ⟨⟨rfl, rfl⟩, ih m⟩
    · exact List.forall_mem_cons.mpr ⟨⟨rfl, rfl⟩, ih m⟩
    · exact ih m
    · exact ih m

/-- The compiled file that a run leads to. -/
def Compiled.ofRun : Except Error (Module × TemplateMeta) × State → Except Error Compiled
  | (.ok (module, templateMeta), t) => .ok ⟨module.batchWrites.print, templateMeta, t.metadata⟩
  | (.error e, _) => .error e

theorem Compiled.ofRun_eq_ok {r : Except Error (Module × TemplateMeta) × State} {compiled : Compiled}
    (h : Compiled.ofRun r = .ok compiled) :
    ∃ module templateMeta t, r = (.ok (module, templateMeta), t) ∧
      compiled = ⟨module.batchWrites.print, templateMeta, t.metadata⟩ := by
  obtain ⟨e | ⟨module, templateMeta⟩, t⟩ := r
  · cases h
  · cases h
    exact ⟨module, templateMeta, t, rfl, rfl⟩

-- Compiling a template, in terms of the names that its program declares.
theorem compileTemplate_eq (setting : Setting) (source : Path) (companions : Companions) (m : Metadata)
    (p : Program) :
    compileTemplate setting source companions m p =
      let scopes := (p.classify setting.registry source).scopes
      let names := (Names.mk []).reserveAll p.declaredNames
      let imported := moduleScope setting.registry source setting.working scopes.moduleScope m
      Compiled.ofRun (outcome (compileScopes (setting.env source imported.2.2.macros) companions
          (names.fresh "component") imported.1 imported.2.1 scopes.renderScope)
        (.start (names.reserve (names.fresh "component")) imported.2.2 .empty)) := by
  rw [← p.declaredNames_classify setting.registry source]
  rfl

end TemplateCompiler
