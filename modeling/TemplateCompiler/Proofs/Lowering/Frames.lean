import Mathlib.Tactic.SplitIfs
import TemplateCompiler.Compilation
import TemplateCompiler.Proofs.Lowering.Steps

/-!
# What lowering does to the state

Lowering changes the state only through a few basic steps. A relation between states that these keep
(`IsKept`) holds of the states before and after each run of lowering, whether it succeeds or not. What
other files need to know of a file (`Metadata.summary`) is left as it is, up to the settled metadata of
the module.
-/

namespace TemplateCompiler.Render

variable {R : State → State → Prop}

/-- A relation between states that the basic steps keep which name, import and record. -/
structure IsNaming (R : State → State → Prop) : Prop where
  refl : ∀ s, R s s
  trans : ∀ s t u, R s t → R t u → R s u
  generateName : ∀ hint, Moves R (generateName hint)
  importName : ∀ source binding hint, Moves R (importName source binding hint)
  useTag : ∀ request, Moves R (useTag request)

/-- A relation between states that the basic steps keep which neither look at macros nor define the
component. -/
structure IsQuiet (R : State → State → Prop) : Prop extends IsNaming R where
  takeKey : Moves R takeKey

/-- A relation between states that every basic step of lowering keeps. -/
structure IsKept (R : State → State → Prop) : Prop extends IsQuiet R where
  macroFunction : ∀ name, Moves R (macroFunction name)
  defineComponent : ∀ code, Moves R (defineComponent code)

namespace IsNaming

theorem pure (h : IsNaming R) {α : Type} (a : α) : Moves R (Pure.pure a) := moves_pure h.refl a

theorem bind (h : IsNaming R) {α β : Type} {x : Lower α} {f : α → Lower β} (hx : Moves R x)
    (hf : ∀ a, Moves R (f a)) : Moves R (x >>= f) := moves_bind h.trans hx hf

theorem get (h : IsNaming R) : Moves R (MonadState.get : Lower State) := h.refl

theorem checkExpression (h : IsNaming R) (env : Env) (location : Location) (text : String) :
    Moves R (checkExpression env location text) := by
  unfold Render.checkExpression
  split
  · exact h.pure _
  · exact moves_throw h.refl _

theorem checkAttributes (h : IsNaming R) (env : Env) (location : Location) (t : Tag) :
    Moves R (checkAttributes env location t) := by
  unfold Render.checkAttributes
  split
  · exact h.pure _
  · exact h.checkExpression env _ _

end IsNaming

/-! ## Functions of macros -/

theorem outcome_macroFunction (name : String) (s : State) :
    outcome (macroFunction name) s =
      match s.macroNames.lookup name with
      | some function => (.ok function, s)
      | none => (.ok (s.names.fresh name),
          { s with
            names := s.names.reserve (s.names.fresh name)
            macroNames := s.macroNames ++ [(name, s.names.fresh name)] }) := by
  unfold macroFunction
  rw [outcome_bind]
  show outcome (match s.macroNames.lookup name with | _ => _) s = _
  cases s.macroNames.lookup name <;> rfl

-- Looking up the function of a macro at most changes the names and the functions.
theorem moves_macroFunction (hrefl : ∀ s, R s s)
    (hset : ∀ s names macroNames, R s { s with names, macroNames }) (name : String) :
    Moves R (macroFunction name) := by
  intro s
  rw [outcome_macroFunction]
  cases s.macroNames.lookup name with
  | some function => exact hrefl s
  | none => exact hset s _ _

/-! ## Lowering, part by part -/

/-- Both ways to lower the children of a tag keep the relation. -/
structure Inner.Keeps (inner : Inner) (R : State → State → Prop) : Prop where
  content : Moves R inner.content
  inputs : ∀ slot, Moves R (inner.inputs slot)

section

variable {env : Env} {inner : Inner}

-- By itself text leaves the state as it is.
theorem moves_text (h : IsNaming R) (htext : env.text = standardText env.options) (m : Marks)
    (v : String) : Moves R (env.text m v) := by
  rw [htext]
  exact h.pure _

-- Only a component class defines the component.
theorem moves_lowerLeaf_of_ne (h : IsNaming R) {m : Marks} (htext : ∀ v, Moves R (env.text m v))
    {l : Leaf} (hne : ∀ code, l ≠ .component code) : Moves R (lowerLeaf env m l) := by
  cases l with
  | text v => exact htext v
  | placeholder expression escape =>
    show Moves R (lowerPlaceholder env expression escape)
    unfold lowerPlaceholder
    split
    · exact h.pure _
    · dsimp only
      split_ifs
      · exact h.bind (h.importName _ _ _) fun _ => h.pure _
      · exact h.bind (h.importName _ _ _) fun _ => h.pure _
      · exact h.pure _
      · exact h.pure _
  | component code => exact absurd rfl (hne code)
  | documentType v | declaration v | cdata v | comment v | scriptlet code => exact h.pure _

theorem moves_lowerLeaf (h : IsKept R) {m : Marks} (htext : ∀ v, Moves R (env.text m v)) (l : Leaf) :
    Moves R (lowerLeaf env m l) := by
  cases l with
  | component code => exact h.bind (h.defineComponent _) fun _ => h.pure _
  | _ => exact moves_lowerLeaf_of_ne h.toIsQuiet.toIsNaming htext fun code => by simp

theorem moves_lowerSlots (h : IsKept R) (hinner : inner.Keeps R) (object : String)
    (slots : List String) : Moves R (lowerSlots object inner slots) := by
  induction slots with
  | nil => exact h.pure _
  | cons slot rest ih => exact h.bind (hinner.inputs slot) fun _ => h.bind ih fun _ => h.pure _

theorem moves_lowerBody (h : IsKept R) (hinner : inner.Keeps R) (object : String)
    (params : List String) (children : List Node) :
    Moves R (lowerBody object params children inner) := by
  unfold lowerBody
  split
  · exact h.pure _
  · exact h.bind hinner.content fun _ => h.pure _

theorem moves_lowerInput (h : IsKept R) (hinner : inner.Keeps R) (location : Location) (t : Tag)
    (hint : String) (children : List Node) :
    Moves R (lowerInput env location t hint children inner) := by
  refine h.bind (h.generateName _) fun name => h.bind (h.checkExpression env _ _) fun _ => ?_
  apply h.bind (moves_lowerSlots h hinner _ _)
  intro slots
  exact h.bind (moves_lowerBody h hinner _ _ _) fun body => h.pure _

theorem moves_lowerAttributes (h : IsQuiet R) (location : Location) (attributes : List Attribute) :
    Moves R (lowerAttributes env location attributes) := by
  induction attributes with
  | nil => exact h.pure _
  | cons a rest ih =>
    have hone : Moves R (lowerAttribute env location a) := by
      unfold lowerAttribute
      split
      · exact h.pure _
      · exact h.bind (h.checkExpression env _ _) fun _ =>
          h.bind (h.importName _ _ _) fun _ => h.pure _
    exact h.bind hone fun _ => h.bind ih fun _ => h.pure _

theorem moves_lowerNative (h : IsKept R) (hinner : inner.Keeps R) (m : Marks) (t : Tag)
    (name : String) (children : List Node) :
    Moves R (lowerNative env m t name children inner) := by
  unfold lowerNative
  split_ifs
  · rw [lowerTreeElement_eq]
    refine h.bind (h.checkAttributes env _ t) fun _ => h.bind h.takeKey fun key => ?_
    exact h.bind hinner.content fun content => h.pure _
  · exact h.pure _
  · apply h.bind (moves_lowerAttributes h.toIsQuiet _ _)
    intro attributes
    split
    · exact h.pure _
    · exact h.bind hinner.content fun _ => h.pure _

theorem moves_paramOr (h : IsNaming R) (params : List String) (position : Nat) (hint : String) :
    Moves R (paramOr params position hint) := by
  unfold paramOr
  split
  · exact h.pure _
  · exact h.generateName _

theorem moves_loopScope (h : IsNaming R) (location : Location) (t : Tag) :
    Moves R (loopScope env location t) := by
  unfold loopScope
  split
  · apply h.bind (h.checkExpression env _ _)
    intro _
    split
    · exact h.pure _
    · exact h.bind (moves_paramOr h _ _ _) fun _ => h.pure _
  · refine h.bind (h.checkExpression env _ _) fun _ => h.bind (moves_paramOr h _ _ _) fun key => ?_
    exact h.bind (moves_paramOr h _ _ _) fun value => h.pure _
  · refine h.bind (h.checkExpression env _ _) fun _ => h.bind (h.checkExpression env _ _) fun _ => ?_
    apply h.bind (h.checkExpression env _ _)
    intro _
    exact h.bind (moves_paramOr h _ _ _) fun counter => h.pure _
  · exact h.pure _

theorem moves_lowerTag (h : IsKept R) (hinner : inner.Keeps R) (m : Marks) (t : Tag)
    (children : List Node) : Moves R (lowerTag env m t children inner) := by
  unfold lowerTag
  cases env.kindOf t with
  | dynamic target =>
    apply h.bind (h.checkExpression env _ _)
    intro _
    apply h.bind (moves_lowerInput h hinner _ _ _ _)
    intro r
    exact h.bind (h.importName _ _ _) fun helper => h.bind h.takeKey fun key => h.pure _
  | slot => exact h.pure _
  | ifTrue | elseIfTrue =>
    exact h.bind (h.checkExpression env _ _) fun _ => h.bind hinner.content fun _ => h.pure _
  | otherwise => exact h.bind hinner.content fun _ => h.pure _
  | loop =>
    refine h.bind (moves_loopScope h.toIsQuiet.toIsNaming _ _) fun scope => h.bind hinner.content fun body => ?_
    cases scope <;> exact h.pure _
  | macroDefinition =>
    show Moves R (lowerMacroDefinition t inner)
    unfold lowerMacroDefinition
    split
    · exact h.bind (h.macroFunction _) fun _ => h.bind hinner.content fun _ => h.pure _
    · exact h.pure _
  | macroCall name =>
    apply h.bind (h.macroFunction _)
    intro function
    exact h.bind (moves_lowerInput h hinner _ _ _ _) fun r => h.pure _
  | native name => exact moves_lowerNative h hinner m t name children
  | custom name request =>
    refine h.bind (h.useTag _) fun _ => h.bind (h.importName _ _ _) fun template => ?_
    apply h.bind (moves_lowerInput h hinner _ _ _ _)
    intro r
    exact h.bind (h.importName _ _ _) fun helper => h.bind h.takeKey fun key => h.pure _

variable (env) in
/-- All of lowering keeps what its basic steps and the lowering of text keep. -/
theorem moves_lower_of_text (h : IsKept R) (htext : ∀ m v, Moves R (env.text m v)) :
    (∀ n : Node, Moves R (lower env n) ∧ ∀ slot, Moves R (inputs env slot n)) ∧
    ∀ ns : List Node, Moves R (lowerAll env ns) ∧ ∀ slot, Moves R (inputsAll env slot ns) := by
  apply Node.induct
  case leaf => exact fun m l => ⟨moves_lowerLeaf h (htext m) l, fun slot => h.pure _⟩
  case tag =>
    intro m t children ih
    have hinner : Inner.Keeps ⟨lowerAll env children, fun slot => inputsAll env slot children⟩ R :=
      ⟨ih.1, ih.2⟩
    refine ⟨moves_lowerTag h hinner m t children, fun slot => ?_⟩
    rw [inputs]
    split
    · exact h.bind (moves_lowerInput h hinner _ _ _ _) fun r => h.pure _
    · exact h.pure _
  case nil => exact ⟨h.pure _, fun slot => h.pure _⟩
  case cons =>
    intro n ns ihn ihns
    refine ⟨h.bind ihn.1 fun ops => h.bind ihns.1 fun more => h.pure _, fun slot => ?_⟩
    exact h.bind (ihn.2 slot) fun r => h.bind (ihns.2 slot) fun q => h.pure _

variable (env) in
theorem moves_lower (h : IsKept R) (htext : env.text = standardText env.options) :
    (∀ n : Node, Moves R (lower env n) ∧ ∀ slot, Moves R (inputs env slot n)) ∧
    ∀ ns : List Node, Moves R (lowerAll env ns) ∧ ∀ slot, Moves R (inputsAll env slot ns) :=
  moves_lower_of_text env h (moves_text h.toIsQuiet.toIsNaming htext)

end

/-! ## The module -/

section

variable {options : Options} {source : Path} {companions : Companions} {working : Option Path}

theorem moves_componentClass (h : IsQuiet R) (own : Option String) :
    Moves R (componentClass source companions own working) := by
  unfold componentClass
  split
  · exact h.importName _ _ _
  · exact h.pure _

theorem moves_componentTypeValue (h : IsQuiet R) (id template : String) :
    Moves R (componentTypeValue options source companions id template working) := by
  unfold componentTypeValue
  split
  · exact h.pure _
  · apply h.bind (h.importName _ _ _)
    intro register
    dsimp only
    split
    · exact h.bind (h.importName _ _ _) fun _ => h.pure _
    · exact h.bind (h.pure _) fun _ => h.pure _

theorem moves_constructorItems (h : IsQuiet R) (component template : String) :
    Moves R (constructorItems options component template) := by
  unfold constructorItems
  split
  · exact h.pure _
  · exact h.bind (h.importName _ _ _) fun define => h.pure _

theorem moves_metaItems (h : IsQuiet R) (componentType template : String) (t : TemplateMeta) :
    Moves R (metaItems options source componentType template t) := by
  unfold metaItems
  split_ifs
  · exact h.pure _
  · exact h.pure _
  · exact moves_throw h.refl _

end

-- Assembling keeps what settling the metadata and the basic steps keep.
theorem moves_assemble (h : IsQuiet R)
    (hfinalize : ∀ source companions working, Moves R (finalizeMetadata source companions working))
    (options : Options) (source : Path) (companions : Companions) (parts : Parts) (working : Option Path) :
    Moves R (assemble options source companions parts working) := by
  refine h.bind (hfinalize _ _ _) fun _ => h.bind (moves_componentClass h _) fun componentValue => ?_
  refine h.bind (h.generateName _) fun component => h.bind (h.generateName _) fun type => ?_
  refine h.bind (h.generateName _) fun template => h.bind (h.importName _ _ _) fun renderer => ?_
  refine h.bind (h.importName _ _ _) fun factory => h.bind h.get fun s => ?_
  refine h.bind (moves_componentTypeValue h _ _) fun typeValue => ?_
  refine h.bind (moves_constructorItems h _ _) fun constructor => ?_
  exact h.bind (moves_metaItems h _ _ _) fun attached => h.bind h.get fun s => h.pure _

theorem moves_compileScopes (h : IsKept R)
    (hfinalize : ∀ source companions working, Moves R (finalizeMetadata source companions working)) {env : Env}
    (htext : env.text = standardText env.options) (companions : Companions) (definition : String)
    (items : List ModuleItem) (component : Option String) (rendered : List Node) :
    Moves R (compileScopes env companions definition items component rendered) := by
  refine h.bind ((moves_lower env h htext).2 rendered).1 fun ops => h.bind h.get fun s => ?_
  exact moves_assemble h.toIsQuiet hfinalize _ _ _ _ _

end TemplateCompiler.Render

namespace TemplateCompiler

open Render

/-! ## Summaries -/

theorem Metadata.summary_addTag (m : Metadata) (request : String) :
    (m.addTag request).summary = m.summary := by
  unfold addTag
  split <;> rfl

/-- What other files need to know of the file is the same in both states. -/
def Render.SameSummary (s t : State) : Prop := t.metadata.summary = s.metadata.summary

/-- Lowering does not change what other files need to know of the file. -/
theorem Render.isKept_sameSummary : IsKept SameSummary := by
  have hrefl (s : State) : SameSummary s s := rfl
  have htrans (s t u : State) (hst : SameSummary s t) (htu : SameSummary t u) : SameSummary s u :=
    htu.trans hst
  exact ⟨⟨⟨hrefl, htrans, fun _ _ => rfl, fun _ _ _ _ => rfl,
    fun request s => s.metadata.summary_addTag request⟩, fun _ => rfl⟩,
    moves_macroFunction hrefl fun _ _ _ => rfl, fun _ _ => rfl⟩

theorem summary_moduleScope (registry : TagRegistry) (source : Path) (working : Option Path)
    (items : List Item) (m : Metadata) :
    (moduleScope registry source working items m).2.2.summary = m.summary := by
  induction items generalizing m with
  | nil => rfl
  | cons i rest ih =>
    unfold moduleScope
    split
    · refine (ih _).trans ?_
      unfold Import.resolve
      split
      · exact m.summary_addTag _
      · rfl
    · exact ih m
    · exact ih m
    · exact ih m
    · exact ih m

/-- A compiled template has the summary that was found out about it before. -/
theorem summary_of_compileTemplate {options : Options} {registry : TagRegistry} {working : Option Path}
    {source : Path} {companions : Companions} {m : Metadata} {p : Program} {compiled : Compiled}
    (h : compileTemplate (.standard options registry working) source companions m p = .ok compiled) :
    compiled.metadata.summary = m.summary := by
  unfold compileTemplate at h
  dsimp only at h
  split at h
  · rename_i hrun
    cases h
    have hsame : SameSummary _ _ :=
      (moves_compileScopes isKept_sameSummary (fun _ _ _ _ => rfl) rfl _ _ _ _ _).rel hrun
    exact hsame.trans (summary_moduleScope _ _ _ _ m)
  · cases h

end TemplateCompiler
