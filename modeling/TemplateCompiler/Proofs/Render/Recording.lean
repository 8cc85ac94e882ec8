import TemplateCompiler.Proofs.Lowering.Effects
import TemplateCompiler.Proofs.Render.Assembly

/-!
# What is recorded of a compiled template

Whether a template compiles, and what is recorded of it, is decided by the effects of what it renders and
by its settled dependencies. The rest of the module, which the output has a part in, can neither fail nor
change the metadata.
-/

namespace TemplateCompiler

open Render
open Script (acceptsExpression)

/-- The settled metadata can be attached to a template, if they are at all. -/
def Metadata.isAttachable (options : Options) (m : Metadata) : Bool :=
  !options.writeMeta || m.deps.isEmpty || acceptsExpression (depsText (m.deps.map Dependency.encode))

/-- The error of settled metadata that cannot be attached. -/
def Metadata.attachError (source : Path) (m : Metadata) : Error :=
  .metadata source.text (depsText (m.deps.map Dependency.encode))

/-! ## Assembling -/

namespace Render

variable {options : Options} {source : Path} {companions : Companions} {working : Option Path}
  {file : String}

theorem performs_componentClass (file : String) (own : Option String) :
    Performs file [] (componentClass source companions own working) := by
  unfold componentClass
  split
  · exact performs_importName _ _ _
  · exact performs_pure _

theorem performs_componentTypeValue (file id template : String) :
    Performs file [] (componentTypeValue options source companions id template working) := by
  unfold componentTypeValue
  split
  · exact performs_pure _
  · apply performs_before (performs_importName _ _ _)
    intro register
    dsimp only
    split
    · exact performs_before (performs_importName _ _ _) fun loaded => performs_pure _
    · exact performs_before (performs_pure _) fun loaded => performs_pure _

theorem performs_constructorItems (file component template : String) :
    Performs file [] (constructorItems options component template) := by
  unfold constructorItems
  split
  · exact performs_pure _
  · exact performs_before (performs_importName _ _ _) fun define => performs_pure _

-- A step without effects only leaves the rest to be done, with the same metadata.
theorem exists_outcome_bind {α β : Type} {x : Lower α} (hx : Performs file [] x) (f : α → Lower β)
    (s : State) : ∃ a t, t.metadata = s.metadata ∧ outcome (x >>= f) s = outcome (f a) t := by
  have hs := hx s
  rw [outcome_bind]
  rcases hrun : outcome x s with ⟨e | a, t⟩
  · rw [hrun] at hs
    cases congrArg Prod.fst hs
  · rw [hrun] at hs
    exact ⟨a, t, congrArg Prod.snd hs, rfl⟩

theorem outcome_metaItems (componentType template : String) (m : Metadata) (s : State) :
    ∃ items, outcome (metaItems options source componentType template (.ofMetadata m)) s =
      (if m.isAttachable options then .ok items else .error (m.attachError source), s) := by
  have hdeps : (TemplateMeta.ofMetadata m).deps = m.deps.map Dependency.encode := rfl
  unfold metaItems Metadata.isAttachable
  rw [hdeps, List.isEmpty_map]
  cases options.writeMeta with
  | false => exact ⟨[], rfl⟩
  | true =>
    refine ⟨[.assign (template ++ ".meta") (metaText componentType (.ofMetadata m))], ?_⟩
    simp only [Bool.not_true, Bool.false_or, Bool.false_eq_true, if_false]
    split <;> rfl

/-- Assembling settles the metadata, and succeeds if they can be attached. -/
theorem exists_outcome_assemble (options : Options) (source : Path) (companions : Companions)
    (parts : Parts) (working : Option Path) (s : State) :
    let m := s.metadata.finalize source companions working
    ∃ module t, t.metadata = m ∧ outcome (assemble options source companions parts working) s =
      (if m.isAttachable options then .ok (module, .ofMetadata m) else .error (m.attachError source),
        t) := by
  intro m
  have hname (hint : String) : Performs source.text [] (generateName hint) :=
    performs_generateName hint
  have himport (module : String) (binding : Binding) (hint : String) :
      Performs source.text [] (importName module binding hint) := performs_importName module binding hint
  have hget {α : Type} (f : State → Lower α) (t : State) :
      outcome (MonadState.get >>= f) t = outcome (f t) t := rfl
  have hsettle : outcome (finalizeMetadata source companions working) s =
      (.ok ⟨⟩, { s with metadata := m }) := rfl
  unfold assemble
  rw [outcome_bind, hsettle]
  dsimp only
  -- up to the items of the metadata no step fails, and none changes the metadata again
  obtain ⟨value, s₁, h₁, heq⟩ := exists_outcome_bind (performs_componentClass source.text _) _ _
  rw [heq]
  obtain ⟨component, s₂, h₂, heq⟩ := exists_outcome_bind (hname "marko_component") _ s₁
  rw [heq]
  obtain ⟨componentType, s₃, h₃, heq⟩ := exists_outcome_bind (hname "marko_componentType") _ s₂
  rw [heq]
  obtain ⟨template, s₄, h₄, heq⟩ := exists_outcome_bind (hname "marko_template") _ s₃
  rw [heq]
  obtain ⟨renderer, s₅, h₅, heq⟩ := exists_outcome_bind (himport _ _ "marko_renderer") _ s₄
  rw [heq]
  obtain ⟨factory, s₆, h₆, heq⟩ := exists_outcome_bind (himport _ _ "t") _ s₅
  rw [heq, hget]
  have hmetadata : s₆.metadata = m := by rw [h₆, h₅, h₄, h₃, h₂, h₁]
  rw [hmetadata]
  obtain ⟨typeValue, s₇, h₇, heq⟩ :=
    exists_outcome_bind (performs_componentTypeValue source.text m.id template) _ s₆
  rw [heq]
  obtain ⟨constructor, s₈, h₈, heq⟩ :=
    exists_outcome_bind (performs_constructorItems source.text component template) _ s₇
  rw [heq]
  obtain ⟨attached, hattached⟩ := outcome_metaItems componentType template m s₈
  rw [outcome_bind, hattached]
  have hlast : s₈.metadata = m := by rw [h₈, h₇, hmetadata]
  by_cases hattachable : m.isAttachable options = true
  · simp only [hattachable, if_true]
    exact ⟨_, s₈, hlast, rfl⟩
  · simp only [hattachable]
    exact ⟨⟨none, .empty, []⟩, s₈, hlast, rfl⟩

end Render

/-! ## Compiling -/

theorem Metadata.foldl_addTag_eq (requests : List String) (m : Metadata) :
    requests.foldl addTag m = { m with tags := (requests.foldl addTag m).tags } := by
  induction requests generalizing m with
  | nil => rfl
  | cons request rest ih =>
    have hadd : m.addTag request = { m with tags := (m.addTag request).tags } := by
      unfold addTag
      split <;> rfl
    rw [List.foldl_cons, ih, hadd]

-- Whether metadata can be attached does not depend on the tags in use.
theorem Metadata.isAttachable_foldl_addTag (options : Options) (source : Path) (companions : Companions)
    (working : Option Path) (requests : List String) (m : Metadata) :
    ((requests.foldl addTag m).finalize source companions working).isAttachable options =
      (m.finalize source companions working).isAttachable options := by
  rw [foldl_addTag_eq]
  rfl

section

/-- Nodes are compiled if all texts that their effects check are expressions and the metadata can be
attached; these are settled with the tags that the effects use. -/
theorem Render.exists_outcome_compileScopes {env : Env} (htext : env.text = standardText env.options)
    (companions : Companions) (definition : String) (items : List ModuleItem)
    (component : Option String) (rendered : List Node) (s : State) :
    let es := Node.effectsIn env rendered
    let settled := ((es.filterMap Effect.request?).foldl Metadata.addTag s.metadata).finalize env.source
      companions env.working
    ∃ r t, outcome (compileScopes env companions definition items component rendered) s = (r, t) ∧
      ((∃ a, r = .ok a) ↔ Effect.AreAccepted es ∧ settled.isAttachable env.options = true) ∧
      ∀ a, r = .ok a → t.metadata = settled ∧ a.2 = .ofMetadata settled := by
  intro es settled
  have hlower := performs_lowerAll htext rendered s
  have hget {α : Type} (f : State → Lower α) (t : State) :
      outcome (MonadState.get >>= f) t = outcome (f t) t := rfl
  unfold compileScopes
  rw [outcome_bind]
  by_cases haccepted : Effect.AreAccepted es
  · rw [Effect.run_of_areAccepted env.source.text haccepted] at hlower
    rcases hrun : outcome (lowerAll env rendered) s with ⟨e | ops, t⟩
    · rw [hrun] at hlower
      cases congrArg Prod.fst hlower
    · rw [hrun] at hlower
      have hmetadata : t.metadata = (es.filterMap Effect.request?).foldl Metadata.addTag s.metadata :=
        congrArg Prod.snd hlower
      dsimp only
      rw [hget]
      obtain ⟨module, u, hu, hassemble⟩ := exists_outcome_assemble env.options env.source companions
        ⟨items, textOps definition ops, t.component.or component, definition⟩ env.working t
      rw [hmetadata] at hu hassemble
      refine ⟨_, u, hassemble, ?_⟩
      by_cases hattachable : settled.isAttachable env.options = true
      · rw [if_pos hattachable]
        refine ⟨iff_of_true ⟨_, rfl⟩ ⟨haccepted, hattachable⟩, fun a ha => ⟨hu, ?_⟩⟩
        cases ha
        rfl
      · rw [if_neg hattachable]
        refine ⟨iff_of_false ?_ fun h => hattachable h.2, fun a ha => ?_⟩
        · rintro ⟨a, ha⟩
          cases ha
        · cases ha
  · rcases hrun : outcome (lowerAll env rendered) s with ⟨e | ops, t⟩
    · refine ⟨.error e, t, rfl, iff_of_false ?_ fun h => haccepted h.1, fun a ha => ?_⟩
      · rintro ⟨a, ha⟩
        cases ha
      · cases ha
    · rw [hrun] at hlower
      exact absurd (Effect.areAccepted_of_run hlower.symm) haccepted

variable {setting : Setting} {source : Path} {companions : Companions} {m : Metadata} {p : Program}
  {compiled : Compiled}

/-- The effects of what a program renders. -/
def Program.effects (p : Program) (env : Env) : List Effect :=
  Node.effectsIn env (p.classify env.registry env.source).scopes.renderScope

/-- The metadata of a program, with the tags that it imports and those that its effects use. -/
def Program.settled (p : Program) (env : Env) (companions : Companions) (m : Metadata) : Metadata :=
  let imported :=
    moduleScope env.registry env.source env.working (p.classify env.registry env.source).scopes.moduleScope m
  (((p.effects env).filterMap Effect.request?).foldl Metadata.addTag imported.2.2).finalize env.source
    companions env.working

-- Imports, too, only add tags.
theorem Program.isAttachable_settled (p : Program) (env : Env) (companions : Companions)
    (m : Metadata) :
    (p.settled env companions m).isAttachable env.options =
      (m.finalize env.source companions env.working).isAttachable env.options := by
  obtain ⟨tags, hscope⟩ := exists_tags_moduleScope env.registry env.source env.working
    (p.classify env.registry env.source).scopes.moduleScope m
  rw [settled, Metadata.isAttachable_foldl_addTag, hscope]
  rfl

-- Compiling a template is compiling its scopes.
theorem exists_compileTemplate_eq (htext : setting.text = standardText setting.options)
    (source : Path) (companions : Companions) (m : Metadata) (p : Program) :
    let env := setting.env source m.macros
    ∃ (r : Except Error (Module × TemplateMeta)) (t : State),
      compileTemplate setting source companions m p =
        r.map (fun a => ⟨a.1.batchWrites.print, a.2, t.metadata⟩) ∧
      ((∃ a, r = .ok a) ↔ Effect.AreAccepted (p.effects env) ∧
        (m.finalize source companions setting.working).isAttachable setting.options = true) ∧
      ∀ a, r = .ok a →
        t.metadata = p.settled env companions m ∧ a.2 = .ofMetadata (p.settled env companions m) := by
  intro env
  let classified := p.classify setting.registry source
  let named := ((Names.mk []).reserveAll classified.declaredNames).generate "component"
  let imported := moduleScope setting.registry source setting.working classified.scopes.moduleScope m
  obtain ⟨tags, hscope⟩ := exists_tags_moduleScope setting.registry source setting.working
    classified.scopes.moduleScope m
  have hmacros : imported.2.2.macros = m.macros := by
    show (moduleScope setting.registry source setting.working classified.scopes.moduleScope m).2.2.macros = m.macros
    rw [hscope]
  have henv : env.text = standardText env.options := htext
  obtain ⟨r, t, hrun, hiff, hvalue⟩ := Render.exists_outcome_compileScopes henv companions named.1
    imported.1 imported.2.1 classified.scopes.renderScope (.start named.2 imported.2.2 .empty)
  refine ⟨r, t, ?_, hiff.trans ?_, hvalue⟩
  · have hcompile : compileTemplate setting source companions m p =
        match outcome (compileScopes (setting.env source imported.2.2.macros) companions named.1
          imported.1 imported.2.1 classified.scopes.renderScope)
          (.start named.2 imported.2.2 .empty) with
        | (.ok (module, templateMeta), t) => .ok ⟨module.batchWrites.print, templateMeta, t.metadata⟩
        | (.error e, _) => .error e := rfl
    rw [hcompile, hmacros, hrun]
    cases r <;> rfl
  · have hattachable := p.isAttachable_settled env companions m
    exact and_congr_right fun _ => Eq.congr_left hattachable

/-- A template compiles exactly if all texts that its effects check are expressions and its metadata can be
attached. -/
theorem exists_compileTemplate_iff (htext : setting.text = standardText setting.options) :
    (∃ compiled, compileTemplate setting source companions m p = .ok compiled) ↔
      Effect.AreAccepted (p.effects (setting.env source m.macros)) ∧
        (m.finalize source companions setting.working).isAttachable setting.options = true := by
  obtain ⟨r, t, hcompile, hiff, -⟩ := exists_compileTemplate_eq htext source companions m p
  rw [← hiff, hcompile]
  cases r with
  | error e =>
    refine iff_of_false ?_ ?_
    · rintro ⟨a, ha⟩
      cases ha
    · rintro ⟨a, ha⟩
      cases ha
  | ok a => exact iff_of_true ⟨_, rfl⟩ ⟨a, rfl⟩

/-- What is recorded of a template that compiles. -/
theorem recorded_of_compileTemplate (htext : setting.text = standardText setting.options)
    (h : compileTemplate setting source companions m p = .ok compiled) :
    compiled.metadata = p.settled (setting.env source m.macros) companions m ∧
      compiled.templateMeta = .ofMetadata compiled.metadata := by
  obtain ⟨r, t, hcompile, -, hvalue⟩ := exists_compileTemplate_eq htext source companions m p
  rw [hcompile] at h
  cases r with
  | error e => cases h
  | ok a =>
    cases h
    obtain ⟨hmetadata, hmeta⟩ := hvalue a rfl
    exact ⟨hmetadata, hmeta.trans (congrArg TemplateMeta.ofMetadata hmetadata.symm)⟩

end

end TemplateCompiler
