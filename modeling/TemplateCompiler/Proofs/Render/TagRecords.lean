import TemplateCompiler.Proofs.Render.Identifiers
import TemplateCompiler.Proofs.Render.MetaLiteral
import TemplateCompiler.Proofs.Render.Recording
import TemplateCompiler.Proofs.Template.Scopes

/-!
# Tags in the metadata and in the module

A tag that is recorded is imported: by the program (`tags_moduleScope`), or at once where it is used
(`isModuleLogic_importsTags`). The metadata object stands at the end of the module (`leaves_assemble`).
-/

namespace TemplateCompiler

open Render

/-! ## Tags of a program -/

/-- The request for the tag that an item imports. -/
def Item.importedTag? (registry : TagRegistry) (source : Path) (working : Option Path) : Item → Option String
  | .external declaration => registry.resolveImport source declaration.source working
  | _ => none

/-- The requests for the tags that a program imports. -/
def Program.importedTags (p : Program) (registry : TagRegistry) (source : Path) (working : Option Path) :
    List String :=
  p.body.filterMap (Item.importedTag? registry source working)

/-- The requests for the tags that are used where a program is rendered. -/
def Program.usedTags (p : Program) (env : Env) : List String := (p.effects env).filterMap Effect.request?

/-- The module that an import in a module is from. -/
def Render.ModuleItem.importSource? : ModuleItem → Option String
  | .external declaration => some declaration.source
  | _ => none

/-- The modules that a module imports. -/
def Render.Module.importSources (m : Module) : List String :=
  m.imports.sources ++ m.items.filterMap ModuleItem.importSource?

/-! ## Tags that are recorded -/

theorem Metadata.mem_tags_foldl_addTag (requests : List String) (m : Metadata) (request : String) :
    request ∈ (requests.foldl addTag m).tags ↔ request ∈ m.tags ∨ request ∈ requests := by
  induction requests generalizing m with
  | nil => simp
  | cons head rest ih =>
    rw [List.foldl_cons, ih, mem_tags_addTag, List.mem_cons, or_assoc]

theorem Metadata.nodup_tags_foldl_addTag {m : Metadata} (h : m.tags.Nodup) (requests : List String) :
    (requests.foldl addTag m).tags.Nodup := by
  induction requests generalizing m with
  | nil => exact h
  | cons head rest ih => exact ih (nodup_tags_addTag h head)

section

variable (registry : TagRegistry) (source : Path) (working : Option Path)

/-- The imports of tags in a module scope are recorded, and stand there under their requests. -/
theorem tags_moduleScope (items : List Item) (m : Metadata) :
    (moduleScope registry source working items m).2.2 =
        (items.filterMap (Item.importedTag? registry source working)).foldl Metadata.addTag m ∧
      ∀ request ∈ items.filterMap (Item.importedTag? registry source working),
        request ∈ (moduleScope registry source working items m).1.filterMap ModuleItem.importSource? := by
  induction items generalizing m with
  | nil => exact ⟨rfl, fun request h => (List.not_mem_nil h).elim⟩
  | cons i rest ih =>
    unfold moduleScope
    split
    · rename_i declaration
      cases hresolve : registry.resolveImport source declaration.source working with
      | none =>
        have hnone : Item.importedTag? registry source working (.external declaration) = none := hresolve
        rw [List.filterMap_cons_none hnone, Import.resolve_of_none hresolve]
        obtain ⟨htags, hitems⟩ := ih m
        exact ⟨htags, fun request h => List.mem_cons_of_mem _ (hitems request h)⟩
      | some request =>
        have hsome : Item.importedTag? registry source working (.external declaration) = some request := hresolve
        have hcomputed : declaration.resolve registry source m working =
            ({ declaration with source := request }, m.addTag request, true) := by
          unfold Import.resolve
          rw [hresolve]
        rw [List.filterMap_cons_some hsome, hcomputed]
        obtain ⟨htags, hitems⟩ := ih (m.addTag request)
        refine ⟨htags, fun other h => ?_⟩
        rcases List.mem_cons.mp h with rfl | h
        · exact List.mem_cons_self
        · exact List.mem_cons_of_mem _ (hitems other h)
    all_goals exact ih m

-- Imports all belong to the module scope, and marks have no part in them.
theorem Program.importedTags_moduleScope (p : Program) :
    (p.classify registry source).scopes.moduleScope.filterMap (Item.importedTag? registry source working) =
      p.importedTags registry source working := by
  refine filterMap_moduleScope p registry source fun i => ?_
  cases i with
  | external declaration => rfl
  | statement code => rfl
  | node n => exact ite_self none

end

/-! ## Tags that are used -/

-- Effects depend on what tags stand for and on the kind of output only.
theorem Node.effects_congr {a b : Env} (hkind : a.kindOf = b.kindOf) (hhtml : a.isHtml = b.isHtml) :
    (∀ n : Node, n.effects a = n.effects b ∧ ∀ slot, n.effectsFor a slot = n.effectsFor b slot) ∧
      ∀ ns, effectsIn a ns = effectsIn b ns ∧ ∀ slot, effectsForIn a slot ns = effectsForIn b slot ns := by
  apply Node.induct
  case leaf => exact fun m l => ⟨rfl, fun slot => rfl⟩
  case tag =>
    intro m t children ih
    have hslots : (fun slot => effectsForIn a slot children) = fun slot => effectsForIn b slot children :=
      funext ih.2
    constructor
    · rw [effects, effects, ih.1, hslots]
      unfold tagEffects elementChecks
      rw [hkind, hhtml]
    · intro slot
      rw [effectsFor, effectsFor, ih.1, hslots]
  case nil => exact ⟨rfl, fun slot => rfl⟩
  case cons =>
    intro n ns ihn ihns
    constructor
    · rw [effectsIn, effectsIn, ihn.1, ihns.1]
    · intro slot
      rw [effectsForIn, effectsForIn, ihn.2 slot, ihns.2 slot]

theorem Program.usedTags_congr {a b : Env} (hkind : a.kindOf = b.kindOf) (hhtml : a.isHtml = b.isHtml)
    (hregistry : a.registry = b.registry) (hsource : a.source = b.source) (p : Program) :
    p.usedTags a = p.usedTags b := by
  unfold usedTags effects
  rw [hregistry, hsource, ((Node.effects_congr hkind hhtml).2 _).1]

namespace Render

/-- Each tag in the metadata is one of those given, or imported. -/
def State.ImportsTags (given : List String) (s : State) : Prop :=
  ∀ request ∈ s.metadata.tags, request ∈ given ∨ request ∈ s.imports.entries.map (·.source)

section

variable {given : List String}

-- What is asked for is imported, besides what is imported already.
theorem mem_sources_importName {source hint name : String} {binding : Binding} {s t : State}
    (h : outcome (importName source binding hint) s = (.ok name, t)) :
    source ∈ t.imports.entries.map (·.source) ∧ t.metadata = s.metadata ∧
      ∀ other ∈ s.imports.entries.map (·.source), other ∈ t.imports.entries.map (·.source) := by
  obtain ⟨rfl, hknown⟩ | ⟨-, rfl⟩ := importName_cases h
  · exact ⟨List.mem_map.mpr ⟨_, hknown, rfl⟩, rfl, fun other hother => hother⟩
  · refine ⟨?_, rfl, fun other hother => ?_⟩
    · exact List.mem_map.mpr ⟨_, List.mem_append_right _ List.mem_cons_self, rfl⟩
    · rw [List.map_append]
      exact List.mem_append_left _ hother

theorem ensures_importName_importsTags (source : String) (binding : Binding) (hint : String) :
    Ensures (State.ImportsTags given) (fun _ => True) (importName source binding hint) := by
  intro s name t hs hrun
  obtain ⟨-, hmetadata, hkept⟩ := mem_sources_importName hrun
  refine ⟨fun request hrequest => ?_, trivial⟩
  rw [hmetadata] at hrequest
  exact (hs request hrequest).imp_right (hkept request)

theorem ensures_macroFunction_importsTags (name : String) :
    Ensures (State.ImportsTags given) (fun _ => True) (macroFunction name) := by
  intro s function t hs hrun
  obtain ⟨rfl, -⟩ | ⟨-, -, rfl⟩ := macroFunction_cases hrun
  · exact ⟨hs, trivial⟩
  · exact ⟨hs, trivial⟩

end

/-- A tag that is recorded is imported at once. -/
theorem isModuleLogic_importsTags (given : List String) :
    IsModuleLogic (fun _ => True) (State.ImportsTags given) (Ensures (State.ImportsTags given)) where
  pure := ensures_pure
  throw := ensures_throw
  bind := ensures_bind
  get _ h := ensures_get h
  generateName hint := by
    rintro s name t hs ⟨⟩
    exact ⟨hs, trivial⟩
  importName := ensures_importName_importsTags
  useTag request hint s name t hs hrun := by
    have himport : outcome (importName request .default hint)
        { s with metadata := s.metadata.addTag request } = (.ok name, t) := hrun
    obtain ⟨hnew, hmetadata, hkept⟩ := mem_sources_importName himport
    refine ⟨fun other hother => ?_, trivial⟩
    rw [hmetadata, Metadata.mem_tags_addTag] at hother
    rcases hother with hother | rfl
    · exact (hs other hother).imp_right (hkept other)
    · exact .inr hnew
  macroFunction := ensures_macroFunction_importsTags
  takeKey := by
    rintro s key t hs ⟨⟩
    exact ⟨hs, trivial⟩
  defineComponent code := by
    rintro s _ t hs ⟨⟩
    exact ⟨hs, trivial⟩
  finalizeMetadata source companions working := by
    rintro s _ t hs ⟨⟩
    exact ⟨hs, trivial⟩

/-! ## The end of the module -/

/-- `Q` holds of the value and the state that each run which succeeds ends with. -/
def Leaves {α : Type} (Q : α → State → Prop) (x : Lower α) : Prop :=
  ∀ s a t, outcome x s = (.ok a, t) → Q a t

theorem leaves_bind {α β : Type} {P : α → Prop} {Q : β → State → Prop} {x : Lower α} {f : α → Lower β}
    (hx : Yields P x) (hf : ∀ a, P a → Leaves Q (f a)) : Leaves Q (x >>= f) := by
  intro s b t hrun
  obtain ⟨a, u, ha, hb⟩ := outcome_bind_eq_ok.mp hrun
  exact hf a (hx s a u ha) u b t hb

theorem leaves_bind_any {α β : Type} {Q : β → State → Prop} {x : Lower α} {f : α → Lower β}
    (hf : ∀ a, Leaves Q (f a)) : Leaves Q (x >>= f) :=
  leaves_bind (fun _ _ _ _ => trivial) fun a (_ : True) => hf a

/-- What a module that is assembled is made of, as far as tags and metadata are concerned. -/
structure Module.Attaches (options : Options) (scope : List ModuleItem) (r : Module × TemplateMeta)
    (t : State) : Prop where
  imports : r.1.imports = t.imports
  scope : ∀ i ∈ scope, i ∈ r.1.items
  attached : options.writeMeta = true → ∃ before template componentType,
    IsPlainName template ∧ IsPlainName componentType ∧
      r.1.items = before ++ [.assign (template ++ ".meta") (metaText componentType r.2)]

theorem yields_metaItems (options : Options) (source : Path) (componentType template : String)
    (t : TemplateMeta) :
    Yields (fun items => options.writeMeta = true →
        items = [.assign (template ++ ".meta") (metaText componentType t)])
      (metaItems options source componentType template t) := by
  unfold metaItems
  split_ifs with hmeta hdeps
  · refine yields_pure fun h => ?_
    rw [h] at hmeta
    cases hmeta
  · exact yields_pure fun _ => rfl
  · intro s a u hrun
    rw [outcome_throw] at hrun
    cases hrun

theorem leaves_assemble (options : Options) (source : Path) (companions : Companions) (parts : Parts)
    (working : Option Path) :
    Leaves (Module.Attaches options parts.moduleScope) (assemble options source companions parts working) := by
  have hname (hint : String) : Yields IsPlainName (generateName hint) := by
    rintro s name t ⟨⟩
    exact Names.isPlainName_fresh s.names hint
  unfold assemble
  refine leaves_bind_any fun _ => leaves_bind_any fun value => leaves_bind_any fun component => ?_
  refine leaves_bind (hname _) fun componentType htype => ?_
  refine leaves_bind (hname _) fun template htemplate => ?_
  refine leaves_bind_any fun renderer => leaves_bind_any fun factory => leaves_bind_any fun u => ?_
  refine leaves_bind_any fun typeValue => leaves_bind_any fun constructor => ?_
  refine leaves_bind (yields_metaItems _ _ _ _ _) fun attached hattached => ?_
  rintro s r t ⟨⟩
  refine ⟨rfl, fun i hi => ?_, fun hmeta => ?_⟩
  · simp [hi]
  · obtain rfl := hattached hmeta
    exact ⟨_, template, componentType, htemplate, htype, rfl⟩

theorem leaves_compileScopes (env : Env) (companions : Companions) (definition : String)
    (items : List ModuleItem) (component : Option String) (rendered : List Node) :
    Leaves (Module.Attaches env.options items)
      (compileScopes env companions definition items component rendered) :=
  leaves_bind_any fun _ => leaves_bind_any fun _ => leaves_assemble _ _ _ _ _

-- Joining writes leaves all other items.
theorem mem_batchFirst {items : List ModuleItem} {i : ModuleItem} (hi : i ∈ items)
    (hnone : i.batch? = none) : i ∈ Module.batchFirst items := by
  induction items with
  | nil => exact (List.not_mem_nil hi).elim
  | cons j rest ih =>
    unfold Module.batchFirst
    rcases List.mem_cons.mp hi with rfl | hi
    · rw [hnone]
      exact List.mem_cons_self
    · split
      · exact List.mem_cons_of_mem _ hi
      · exact List.mem_cons_of_mem _ (ih hi)

theorem exists_batchFirst_append (items : List ModuleItem) {i : ModuleItem} (hnone : i.batch? = none) :
    ∃ before, Module.batchFirst (items ++ [i]) = before ++ [i] := by
  induction items with
  | nil =>
    refine ⟨[], ?_⟩
    show Module.batchFirst [i] = _
    unfold Module.batchFirst
    rw [hnone]
    rfl
  | cons j rest ih =>
    obtain ⟨before, hrest⟩ := ih
    rw [List.cons_append]
    unfold Module.batchFirst
    split
    · exact ⟨_ :: rest, rfl⟩
    · rw [hrest]
      exact ⟨j :: before, rfl⟩

end Render

/-- The item at the end of a module is what its text ends with. -/
theorem Render.Module.print_of_items {m : Module} {before : List ModuleItem} {i : ModuleItem}
    (h : m.items = before ++ [i]) : ∃ start, m.print = start ++ Text.unlines i.lines := by
  unfold print lines
  rw [h, List.flatMap_append, List.flatMap_singleton, ← List.append_assoc, Text.unlines_append]
  exact ⟨_, rfl⟩

namespace Render.Module.Attaches

variable {options : Options} {scope : List ModuleItem} {r : Module × TemplateMeta} {t : State}

/-- What the module scope imports and what is imported besides is imported by the module. -/
theorem mem_importSources (h : Attaches options scope r t) {request : String}
    (hrequest : request ∈ scope.filterMap ModuleItem.importSource? ∨
      request ∈ t.imports.entries.map (·.source)) : request ∈ r.1.batchWrites.importSources := by
  rcases hrequest with hscope | hhoisted
  · obtain ⟨i, hi, hsource⟩ := List.mem_filterMap.mp hscope
    have hnone : i.batch? = none := by
      cases i <;> first | rfl | cases hsource
    have hmem := mem_batchFirst (h.scope i hi) hnone
    exact List.mem_append_right _ (List.mem_filterMap.mpr ⟨i, hmem, hsource⟩)
  · apply List.mem_append_left
    show request ∈ r.1.imports.sources
    rw [h.imports]
    exact Text.mem_distinct.mpr hhoisted

/-- The text of the module ends with the metadata object. -/
theorem print_batchWrites (h : Attaches options scope r t) (hmeta : options.writeMeta = true) :
    ∃ start template componentType, IsPlainName template ∧ IsPlainName componentType ∧
      r.1.batchWrites.print =
        start ++ Text.unlines (ModuleItem.assign (template ++ ".meta") (metaText componentType r.2)).lines := by
  obtain ⟨before, template, componentType, htemplate, hname, hitems⟩ := h.attached hmeta
  obtain ⟨before, hbatched⟩ := exists_batchFirst_append before
    (i := .assign (template ++ ".meta") (metaText componentType r.2)) rfl
  rw [← hitems] at hbatched
  obtain ⟨start, hprint⟩ := Module.print_of_items (m := r.1.batchWrites) hbatched
  exact ⟨start, template, componentType, htemplate, hname, hprint⟩

end Render.Module.Attaches

end TemplateCompiler
