import TemplateCompiler.Proofs.Lowering.Frames
import TemplateCompiler.Proofs.Render.Batching

/-!
# Modules of compiled templates

What a template that compiles is printed from: one render function whose body is what was lowered, made
with the class of the component (`Compiled.Emits`). And what becomes of the facts that were found out
about it: they are kept up to the tags in use, then settled (`exists_emits`).
-/

namespace TemplateCompiler

open Render

/-! ## Facts about a file -/

/-- The metadata are the same in both states, up to the tags in use. -/
def Render.SameFacts (s t : State) : Prop := ∃ tags, t.metadata = { s.metadata with tags }

theorem Render.isKept_sameFacts : IsKept SameFacts := by
  have hrefl (s : State) : SameFacts s s := ⟨s.metadata.tags, rfl⟩
  have htrans (s t u : State) (hst : SameFacts s t) (htu : SameFacts t u) : SameFacts s u := by
    obtain ⟨tags, ht⟩ := hst
    obtain ⟨tags', hu⟩ := htu
    refine ⟨tags', ?_⟩
    rw [hu, ht]
  have hrest {α : Type} {x : Lower α} (h : Moves (fun s t => t.metadata = s.metadata) x) :
      Moves SameFacts x := fun s => ⟨s.metadata.tags, h s⟩
  refine ⟨⟨⟨hrefl, htrans, fun _ => hrest fun _ => rfl, fun _ _ _ => hrest fun _ => rfl,
    fun request s => ?_⟩, hrest fun _ => rfl⟩,
    moves_macroFunction hrefl fun s _ _ => ⟨s.metadata.tags, rfl⟩, fun _ => hrest fun _ => rfl⟩
  show SameFacts s { s with metadata := s.metadata.addTag request }
  unfold Metadata.addTag SameFacts
  dsimp only
  split
  · exact ⟨s.metadata.tags, rfl⟩
  · exact ⟨s.metadata.tags ++ [request], rfl⟩

/-- The code of a component class at the top level, as it is used. -/
def Item.component? : Item → Option String
  | .node (.leaf _ (.component code)) => some (Text.trim code)
  | _ => none

section

variable (registry : TagRegistry) (source : Path) (working : Option Path)

theorem exists_tags_moduleScope (items : List Item) (m : Metadata) :
    ∃ tags, (moduleScope registry source working items m).2.2 = { m with tags } := by
  induction items generalizing m with
  | nil => exact ⟨m.tags, rfl⟩
  | cons i rest ih =>
    unfold moduleScope
    split
    · rename_i declaration
      obtain ⟨tags, hresolve⟩ :
          ∃ tags, (declaration.resolve registry source m working).2.1 = { m with tags } := by
        unfold Import.resolve Metadata.addTag
        split
        · dsimp only
          split
          · exact ⟨m.tags, rfl⟩
          · exact ⟨_, rfl⟩
        · exact ⟨m.tags, rfl⟩
      obtain ⟨tags', hrest⟩ := ih (declaration.resolve registry source m working).2.1
      refine ⟨tags', hrest.trans ?_⟩
      rw [hresolve]
    · exact ih m
    · exact ih m
    · exact ih m
    · exact ih m

/-- The last component class of a module scope counts. -/
theorem component_moduleScope (items : List Item) (m : Metadata) :
    (moduleScope registry source working items m).2.1 = (items.filterMap Item.component?).getLast? := by
  induction items generalizing m with
  | nil => rfl
  | cons i rest ih =>
    have hskip (m' : Metadata) (h : i.component? = none) :
        (moduleScope registry source working rest m').2.1 =
          ((i :: rest).filterMap Item.component?).getLast? := by
      rw [List.filterMap_cons_none h]
      exact ih m'
    unfold moduleScope
    split
    · exact hskip _ rfl
    · exact hskip m rfl
    · exact hskip m rfl
    · rename_i code
      show (moduleScope registry source working rest m).2.1.or (some (Text.trim code)) =
        (Text.trim code :: rest.filterMap Item.component?).getLast?
      rw [ih m, List.getLast?_cons]
      cases (rest.filterMap Item.component?).getLast? <;> rfl
    · rename_i node hscriptlet hcomponent
      refine hskip m ?_
      unfold Item.component?
      split
      · rename_i code heq
        cases heq
        exact absurd rfl (hcomponent _ code)
      · rfl

theorem isRender_moduleScope (items : List Item) (m : Metadata) :
    ∀ i ∈ (moduleScope registry source working items m).1, i.isRender = false := by
  induction items generalizing m with
  | nil => exact fun i hi => (List.not_mem_nil hi).elim
  | cons i rest ih =>
    unfold moduleScope
    split
    · exact List.forall_mem_cons.mpr ⟨rfl, ih _⟩
    · exact List.forall_mem_cons.mpr ⟨rfl, ih m⟩
    · exact List.forall_mem_cons.mpr ⟨rfl, ih m⟩
    · exact ih m
    · exact ih m

end

/-! ## The render function -/

/-- The item belongs to the frame around a render function: it is neither authored nor a render function
itself. -/
def Render.ModuleItem.isFrame : ModuleItem → Bool
  | .constants _ | .exportDefault _ | .assign _ _ => true
  | .external _ | .statement _ | .render _ => false

theorem Render.ModuleItem.isRender_of_isFrame {i : ModuleItem} (h : i.isFrame = true) :
    i.isRender = false := by
  cases i <;> first | rfl | cases h

/-- A compiled template is printed from a module with one render function. `ops` are what its body is
made of, with `definition` as the parameter for the definition of the component; `value` is the class of
the component, and `flags` are those that the renderer is made with. -/
def Compiled.Emits (compiled : Compiled) (definition : String) (ops : List LoweredOp) (value : String)
    (flags : RendererOptions) : Prop :=
  ∃ (m : Module) (before after : List ModuleItem) (call : RenderCall) (typeValue : String),
    compiled.code = m.print ∧
    m.items = before ++
      .constants [(flags.componentType, typeValue), (call.component, value)] :: .render call :: after ∧
    (∀ i ∈ before ++ after, i.isRender = false) ∧
    call.body = Op.batch (textOps definition ops) ∧
    call.options = flags.text

/-- The same with the items of the module scope, which stand in front of the render function. All other items
belong to the frame. -/
def Compiled.EmitsAround (compiled : Compiled) (items : List ModuleItem) (definition : String)
    (ops : List LoweredOp) (value : String) (flags : RendererOptions) : Prop :=
  ∃ (m : Module) (start attached : List ModuleItem) (call : RenderCall) (typeValue : String),
    compiled.code = m.print ∧
    m.items = start ++ items ++
      .constants [(flags.componentType, typeValue), (call.component, value)] :: .render call :: attached ∧
    (∀ i ∈ start ++ attached, i.isFrame = true) ∧
    call.body = Op.batch (textOps definition ops) ∧
    call.options = flags.text

theorem Compiled.EmitsAround.emits {compiled : Compiled} {items : List ModuleItem} {definition : String}
    {ops : List LoweredOp} {value : String} {flags : RendererOptions}
    (h : compiled.EmitsAround items definition ops value flags)
    (hitems : ∀ i ∈ items, i.isRender = false) : compiled.Emits definition ops value flags := by
  obtain ⟨m, start, attached, call, typeValue, hcode, hmodule, hframe, hbody, hoptions⟩ := h
  refine ⟨m, start ++ items, attached, call, typeValue, hcode, hmodule, fun i hi => ?_, hbody, hoptions⟩
  rcases List.mem_append.mp hi with hi | hi
  · rcases List.mem_append.mp hi with hi | hi
    · exact ModuleItem.isRender_of_isFrame (hframe i (List.mem_append_left _ hi))
    · exact hitems i hi
  · exact ModuleItem.isRender_of_isFrame (hframe i (List.mem_append_right _ hi))

theorem Render.outcome_get_eq_ok {s t a : State} :
    outcome (MonadState.get : Lower State) s = (.ok a, t) ↔ s = a ∧ s = t := by
  show ((.ok s, s) : Except Error State × State) = (.ok a, t) ↔ _
  rw [Prod.mk.injEq, Except.ok.injEq]

section

variable {options : Options} {source : Path} {companions : Companions} {working : Option Path}

theorem componentClass_of_none (hnone : companions.component = none) (own : Option String) {s t : State}
    {value : String} (h : outcome (componentClass source companions own working) s = (.ok value, t)) :
    value = own.getD "\x7b\x7d" := by
  unfold componentClass at h
  rw [hnone] at h
  exact (outcome_pure_eq_ok.mp h).1.symm

theorem isFrame_constructorItems {component template : String} :
    Yields (fun items => ∀ i ∈ items, ModuleItem.isFrame i = true)
      (constructorItems options component template) := by
  unfold constructorItems
  split
  · exact yields_pure fun i hi => (List.not_mem_nil hi).elim
  · exact yields_bind_any fun define => yields_pure (List.forall_mem_singleton.mpr rfl)

theorem isFrame_metaItems {componentType template : String} {t : TemplateMeta} :
    Yields (fun items => ∀ i ∈ items, ModuleItem.isFrame i = true)
      (metaItems options source componentType template t) := by
  unfold metaItems
  split
  · exact yields_pure fun i hi => (List.not_mem_nil hi).elim
  · split
    · exact yields_pure (List.forall_mem_singleton.mpr rfl)
    · intro s a u hrun
      rw [outcome_throw] at hrun
      cases hrun

/-- How a module is assembled around a render function. -/
theorem exists_items_of_assemble {parts : Parts} {s t : State} {module : Module}
    {templateMeta : TemplateMeta}
    (h : outcome (assemble options source companions parts working) s = (.ok (module, templateMeta), t)) :
    ∃ (value typeValue : String) (flags : RendererOptions) (call : RenderCall)
      (start attached : List ModuleItem) (tags : List String),
      module.items = start ++ parts.moduleScope ++
        [.constants [(flags.componentType, typeValue), (call.component, value)], .render call] ++
          attached ∧
      (∀ i ∈ start ++ attached, i.isFrame = true) ∧
      call.body = parts.body ∧ call.options = flags.text ∧
      flags.hasComponent = t.metadata.component.isSome ∧
      (companions.component = none → value = parts.component.getD "\x7b\x7d") ∧
      t.metadata = { s.metadata.finalize source companions working with tags } := by
  obtain ⟨_, s₁, hfinalize, h⟩ := outcome_bind_eq_ok.mp h
  obtain ⟨value, s₂, hvalue, h⟩ := outcome_bind_eq_ok.mp h
  obtain ⟨component, s₃, hcomponent, h⟩ := outcome_bind_eq_ok.mp h
  obtain ⟨componentType, s₄, htype, h⟩ := outcome_bind_eq_ok.mp h
  obtain ⟨template, s₅, htemplate, h⟩ := outcome_bind_eq_ok.mp h
  obtain ⟨renderer, s₆, hrenderer, h⟩ := outcome_bind_eq_ok.mp h
  obtain ⟨factory, s₇, hfactory, h⟩ := outcome_bind_eq_ok.mp h
  obtain ⟨_, s₈, hget, h⟩ := outcome_bind_eq_ok.mp h
  obtain ⟨rfl, rfl⟩ := outcome_get_eq_ok.mp hget
  obtain ⟨typeValue, s₉, htypeValue, h⟩ := outcome_bind_eq_ok.mp h
  obtain ⟨constructor, s₁₀, hconstructor, h⟩ := outcome_bind_eq_ok.mp h
  obtain ⟨attached, s₁₁, hattached, h⟩ := outcome_bind_eq_ok.mp h
  obtain ⟨_, s₁₂, hget, h⟩ := outcome_bind_eq_ok.mp h
  obtain ⟨rfl, rfl⟩ := outcome_get_eq_ok.mp hget
  obtain ⟨hmodule, rfl⟩ := outcome_pure_eq_ok.mp h
  obtain ⟨rfl, rfl⟩ := Prod.mk.inj hmodule
  -- besides the finalized metadata, assembly only takes names and imports, and an import adds a tag at most
  have hquiet := isKept_sameFacts.toIsQuiet
  have hsettled : s₁.metadata = s.metadata.finalize source companions working := by
    have hrun : (outcome (finalizeMetadata source companions working) s).2.metadata =
        s.metadata.finalize source companions working := rfl
    rwa [hfinalize] at hrun
  have hnames : SameFacts s₁ s₅ :=
    hquiet.trans _ _ _ ((moves_componentClass hquiet _).rel hvalue)
      (hquiet.trans _ _ _ ((hquiet.generateName _).rel hcomponent)
        (hquiet.trans _ _ _ ((hquiet.generateName _).rel htype)
          ((hquiet.generateName _).rel htemplate)))
  have hbefore : SameFacts s₁ s₇ := hquiet.trans _ _ _ hnames
    (hquiet.trans _ _ _ ((hquiet.importName _ _ _).rel hrenderer)
      ((hquiet.importName _ _ _).rel hfactory))
  -- the options are read in the middle, so the two halves are compared with that state
  have hbehind : SameFacts s₇ s₁₁ :=
    hquiet.trans _ _ _ ((moves_componentTypeValue hquiet _ _).rel htypeValue)
      (hquiet.trans _ _ _ ((moves_constructorItems hquiet _ _).rel hconstructor)
        ((moves_metaItems hquiet _ _ _).rel hattached))
  obtain ⟨tags, hall⟩ := hquiet.trans _ _ _ hbefore hbehind
  obtain ⟨tags', hlater⟩ := hbehind
  refine ⟨value, typeValue, ⟨componentType, _, _, _⟩, ⟨_, _, _, _, _, component⟩, [_, _],
    constructor ++ attached, tags, List.append_assoc _ constructor attached, ?_, rfl, rfl, ?_,
    fun hnone => componentClass_of_none hnone _ hvalue, ?_⟩
  · intro i hi
    rcases List.mem_append.mp hi with hi | hi
    · rcases List.mem_cons.mp hi with rfl | hi
      · rfl
      · rw [List.mem_singleton.mp hi]
        rfl
    · rcases List.mem_append.mp hi with hi | hi
      · exact isFrame_constructorItems _ _ _ hconstructor i hi
      · exact isFrame_metaItems _ _ _ hattached i hi
  · rw [hlater]
  · rw [hall, hsettled]

end

-- Of the first render function adjacent writes are joined.
theorem batchFirst_append_render {before : List ModuleItem} (h : ∀ i ∈ before, i.isRender = false)
    (call : RenderCall) (after : List ModuleItem) :
    Module.batchFirst (before ++ .render call :: after) =
      before ++ .render { call with body := Op.batch call.body } :: after := by
  induction before with
  | nil => rfl
  | cons i rest ih =>
    have hone := h i List.mem_cons_self
    have hskip : Module.batchFirst (i :: (rest ++ .render call :: after)) =
        i :: Module.batchFirst (rest ++ .render call :: after) := by
      cases i <;> first | rfl | exact Bool.noConfusion hone
    rw [List.cons_append, hskip, ih fun j hj => h j (List.mem_cons_of_mem i hj)]
    rfl

theorem exists_emits_of_compileScopes {env : Env} {companions : Companions} {definition : String}
    {items : List ModuleItem} {component : Option String} {rendered : List Node} {s u : State}
    {module : Module} {templateMeta : TemplateMeta} (hitems : ∀ i ∈ items, i.isRender = false)
    (h : outcome (compileScopes env companions definition items component rendered) s =
      (.ok (module, templateMeta), u)) :
    ∃ (ops : List LoweredOp) (t : State) (value : String) (flags : RendererOptions)
      (tags : List String),
      outcome (lowerAll env rendered) s = (.ok ops, t) ∧
      (Compiled.mk module.batchWrites.print templateMeta u.metadata).EmitsAround items definition ops value
        flags ∧
      flags.hasComponent = u.metadata.component.isSome ∧
      (companions.component = none → value = (t.component.or component).getD "\x7b\x7d") ∧
      u.metadata = { t.metadata.finalize env.source companions env.working with tags } := by
  obtain ⟨ops, t, hops, h⟩ := outcome_bind_eq_ok.mp h
  obtain ⟨_, _, hget, h⟩ := outcome_bind_eq_ok.mp h
  obtain ⟨rfl, rfl⟩ := outcome_get_eq_ok.mp hget
  obtain ⟨value, typeValue, flags, call, start, attached, tags, hmodule, hframe, hbody, hoptions,
    hflag, hvalue, hmetadata⟩ := exists_items_of_assemble h
  refine ⟨ops, t, value, flags, tags, hops, ?_, hflag, hvalue, hmetadata⟩
  have hbefore : ∀ i ∈ start ++ items, i.isRender = false := by
    intro i hi
    rcases List.mem_append.mp hi with hi | hi
    · exact ModuleItem.isRender_of_isFrame (hframe i (List.mem_append_left _ hi))
    · exact hitems i hi
  -- only the first render function is batched, and none is in front of it
  have hbatched : module.batchWrites.items =
      start ++ items ++ .constants [(flags.componentType, typeValue), (call.component, value)] ::
        .render { call with body := Op.batch call.body } :: attached := by
    have hall : ∀ i ∈ start ++ items ++
        [.constants [(flags.componentType, typeValue), (call.component, value)]],
        i.isRender = false := by
      intro i hi
      rcases List.mem_append.mp hi with hi | hi
      · exact hbefore i hi
      · rw [List.mem_singleton.mp hi]
        rfl
    calc module.batchWrites.items
        = Module.batchFirst (start ++ items ++ ([.constants [(flags.componentType, typeValue),
            (call.component, value)], .render call] ++ attached)) := by
          rw [Module.batchWrites, hmodule, List.append_assoc]
      _ = Module.batchFirst (start ++ items ++ [.constants [(flags.componentType, typeValue),
            (call.component, value)]] ++ .render call :: attached) := by
          rw [List.append_assoc (start ++ items)]
          rfl
      _ = _ := by
          rw [batchFirst_append_render hall, List.append_assoc (start ++ items)]
          rfl
  exact ⟨module.batchWrites, start, attached, { call with body := Op.batch call.body }, typeValue, rfl,
    hbatched, hframe, congrArg Op.batch hbody, hoptions⟩

/-- What a template that compiles is lowered from and printed from. -/
theorem exists_emits {setting : Setting} {source : Path} {companions : Companions} {m : Metadata}
    {p : Program} {compiled : Compiled} (htext : setting.text = standardText setting.options)
    (h : compileTemplate setting source companions m p = .ok compiled) :
    let scopes := (p.classify setting.registry source).scopes
    ∃ (definition value : String) (flags : RendererOptions) (ops : List LoweredOp) (s t : State)
      (tags : List String),
      outcome (lowerAll (setting.env source m.macros) scopes.renderScope) s = (.ok ops, t) ∧
      s.macroNames = [] ∧ s.component = none ∧
      compiled.EmitsAround (moduleScope setting.registry source setting.working scopes.moduleScope m).1 definition
        ops value flags ∧
      flags.hasComponent = compiled.metadata.component.isSome ∧
      (companions.component = none → value =
        (t.component.or (scopes.moduleScope.filterMap Item.component?).getLast?).getD "\x7b\x7d") ∧
      compiled.metadata = { m.finalize source companions setting.working with tags } := by
  intro scopes
  have hcomponent := component_moduleScope setting.registry source setting.working scopes.moduleScope m
  have hrender := isRender_moduleScope setting.registry source setting.working scopes.moduleScope m
  obtain ⟨scopeTags, hscope⟩ :=
    exists_tags_moduleScope setting.registry source setting.working scopes.moduleScope m
  unfold compileTemplate at h
  dsimp only at h
  split at h
  · rename_i module templateMeta u hrun
    cases h
    obtain ⟨ops, t, value, flags, tags, hops, hemits, hflag, hvalue, hmetadata⟩ :=
      exists_emits_of_compileScopes hrender hrun
    rw [hscope] at hops
    obtain ⟨tags', ht⟩ := ((moves_lower _ isKept_sameFacts htext).2 _).1.rel hops
    refine ⟨_, value, flags, ops, _, t, tags, hops, rfl, rfl, hemits, hflag, ?_, ?_⟩
    · rw [← hcomponent]
      exact hvalue
    · rw [hmetadata, ht]
      rfl
  · cases h

end TemplateCompiler
