import TemplateCompiler.Proofs.Lowering.Frames
import TemplateCompiler.Proofs.Template.Parts

/-!
# Effects of lowering

Seen from outside, lowering does three things: it checks that texts are expressions, it records which tags
are used, and it hands texts to whatever lowers texts. What it does, and in which order, is decided by the
template before anything is lowered (`Node.effects`), and lowering makes just these effects, whatever lowers
the texts (`makes_lower`). If that has no effects of its own, each run checks and records what the effects
say, up to the first text that is no expression (`performs_lowerAll`).
-/

namespace TemplateCompiler

open Render
open Script (acceptsExpression isLiteral literal?)

/-- What lowering does that can be seen from outside: it checks a text at the place of its tag, uses a tag, or
hands over a text that is to be lowered. -/
inductive Effect where
  | check (location : Location) (text : String)
  | use (request : String)
  | hand (marks : Marks) (text : String)
deriving DecidableEq

namespace Effect

/-- The text that is checked. -/
def checked? : Effect → Option String
  | .check _ text => some text
  | _ => none

/-- The tag that is used. -/
def request? : Effect → Option String
  | .use request => some request
  | _ => none

/-- The text that is handed over. -/
def handed? : Effect → Option String
  | .hand _ text => some text
  | _ => none

/-- What effects come to, apart from the texts that are handed over: the first text that is no expression is
the end of it. -/
def run (file : String) : List Effect → Metadata → Except Error Unit × Metadata
  | [], m => (.ok (), m)
  | .check location text :: rest, m =>
    if acceptsExpression text then run file rest m else (.error (.expression file text location), m)
  | .use request :: rest, m => run file rest (m.addTag request)
  | .hand _ _ :: rest, m => run file rest m

/-- All texts that are checked are expressions. -/
def AreAccepted (es : List Effect) : Prop := ∀ text ∈ es.filterMap checked?, acceptsExpression text = true

theorem areAccepted_nil : AreAccepted [] := fun _ h => (List.not_mem_nil h).elim

theorem areAccepted_append {es fs : List Effect} :
    AreAccepted (es ++ fs) ↔ AreAccepted es ∧ AreAccepted fs := by
  unfold AreAccepted
  rw [List.filterMap_append, List.forall_mem_append]

theorem areAccepted_check_cons {location : Location} {text : String} {es : List Effect} :
    AreAccepted (.check location text :: es) ↔ acceptsExpression text = true ∧ AreAccepted es := by
  have hchecked : (check location text).checked? = some text := rfl
  unfold AreAccepted
  rw [List.filterMap_cons_some hchecked, List.forall_mem_cons]

theorem areAccepted_cons_of_none {e : Effect} {es : List Effect} (h : e.checked? = none) :
    AreAccepted (e :: es) ↔ AreAccepted es := by
  unfold AreAccepted
  rw [List.filterMap_cons_none h]

theorem run_append (file : String) (es fs : List Effect) (m : Metadata) :
    run file (es ++ fs) m =
      match run file es m with
      | (.ok _, m') => run file fs m'
      | (.error e, m') => (.error e, m') := by
  induction es generalizing m with
  | nil => rfl
  | cons e rest ih =>
    cases e with
    | use request => exact ih (m.addTag request)
    | hand marks text => exact ih m
    | check location text =>
      rw [List.cons_append, run, run]
      by_cases haccepts : acceptsExpression text = true
      · rw [if_pos haccepts, if_pos haccepts]
        exact ih m
      · rw [if_neg haccepts, if_neg haccepts]

theorem run_of_areAccepted (file : String) {es : List Effect} (h : AreAccepted es) (m : Metadata) :
    run file es m = (.ok (), (es.filterMap request?).foldl Metadata.addTag m) := by
  induction es generalizing m with
  | nil => rfl
  | cons e rest ih =>
    cases e with
    | use request => exact ih ((areAccepted_cons_of_none rfl).mp h) (m.addTag request)
    | hand marks text => exact ih ((areAccepted_cons_of_none rfl).mp h) m
    | check location text =>
      obtain ⟨haccepts, hrest⟩ := areAccepted_check_cons.mp h
      rw [run, if_pos haccepts]
      exact ih hrest m

theorem areAccepted_of_run {file : String} {es : List Effect} {m m' : Metadata}
    (h : run file es m = (.ok (), m')) : AreAccepted es := by
  induction es generalizing m with
  | nil => exact areAccepted_nil
  | cons e rest ih =>
    cases e with
    | use request => exact (areAccepted_cons_of_none rfl).mpr (ih h)
    | hand marks text => exact (areAccepted_cons_of_none rfl).mpr (ih h)
    | check location text =>
      rw [run] at h
      by_cases haccepts : acceptsExpression text = true
      · rw [if_pos haccepts] at h
        exact areAccepted_check_cons.mpr ⟨haccepts, ih h⟩
      · rw [if_neg haccepts] at h
        cases h

end Effect

/-! ## The effects of a template -/

namespace Render

/-- The effects of a leaf. -/
def leafEffects (m : Marks) : Leaf → List Effect
  | .text v => [.hand m v]
  | _ => []

/-- The checks of the attributes of an element: one by one if it is written, or as one object. Constants
are written without a check. -/
def elementChecks (env : Env) (location : Location) (t : Tag) : List Effect :=
  if env.isHtml then
    (t.attributes.filter fun a => !isLiteral a.value).map fun a => .check location a.value
  else if t.attributes.isEmpty then []
  else [.check location (objectText t.attributes)]

/-- The checks of the operands of a loop. -/
def loopChecks (location : Location) (t : Tag) : List Effect :=
  match t.valueOf "of", t.valueOf "in", t.valueOf "from", t.valueOf "to" with
  | some list, _, _, _ => [.check location list]
  | none, some object, _, _ => [.check location object]
  | none, none, some start, some bound =>
    [.check location start, .check location bound, .check location ((t.valueOf "step").getD "1")]
  | _, _, _, _ => []

/-- The effects of an input, given those of the content and of the attribute tags for each slot. -/
def inputEffects (location : Location) (t : Tag) (children : List Node) (content : List Effect)
    (forSlot : String → List Effect) : List Effect :=
  .check location (objectText t.attributes) :: ((slotNames children).flatMap forSlot ++ content)

/-- The effects of a tag, given those of its content and of the attribute tags for each slot. -/
def tagEffects (env : Env) (m : Marks) (t : Tag) (children : List Node) (content : List Effect)
    (forSlot : String → List Effect) : List Effect :=
  match env.kindOf t with
  | .dynamic target => .check m.location target :: inputEffects m.location t children content forSlot
  | .slot => []
  | .ifTrue | .elseIfTrue => .check m.location (conditionOf t) :: content
  | .otherwise => content
  | .loop => loopChecks m.location t ++ content
  | .macroDefinition => if t.macroName?.isSome then content else []
  | .macroCall _ => inputEffects m.location t children content forSlot
  | .native name =>
    if env.isHtml && m.isStatic then []
    else elementChecks env m.location t ++ (if env.isHtml && isVoidElement name then [] else content)
  | .custom _ request => .use request :: inputEffects m.location t children content forSlot

end Render

namespace Node

mutual

/-- The effects of lowering a node. -/
def effects (env : Env) : Node → List Effect
  | .leaf m l => leafEffects m l
  | .tag m t children =>
    tagEffects env m t children (effectsIn env children) fun slot => effectsForIn env slot children
termination_by structural n => n

/-- The effects of lowering nodes. -/
def effectsIn (env : Env) : List Node → List Effect
  | [] => []
  | n :: ns => n.effects env ++ effectsIn env ns
termination_by structural ns => ns

/-- The effects of lowering the input of a node, if it is an attribute tag for the slot. -/
def effectsFor (env : Env) (slot : String) : Node → List Effect
  | .leaf _ _ => []
  | .tag m t children =>
    if t.slot? = some slot then
      inputEffects m.location t children (effectsIn env children) fun slot =>
        effectsForIn env slot children
    else []
termination_by structural n => n

/-- The effects of lowering the inputs of the attribute tags for the slot. -/
def effectsForIn (env : Env) (slot : String) : List Node → List Effect
  | [] => []
  | n :: ns => n.effectsFor env slot ++ effectsForIn env slot ns
termination_by structural ns => ns

end

-- Attribute tags alone leave no content.
theorem effectsIn_of_slot? (env : Env) {ns : List Node} (h : ns.all (·.slot?.isSome) = true) :
    effectsIn env ns = [] := by
  induction ns with
  | nil => rfl
  | cons n ns ih =>
    rw [List.all_cons, Bool.and_eq_true] at h
    have hn : n.effects env = [] := by
      cases n with
      | leaf m l => exact Bool.noConfusion h.1
      | tag m t children =>
        have hkind : env.kindOf t = .slot := (kindOf_eq_slot_iff env t).mpr h.1
        rw [effects, tagEffects, hkind]
    rw [effectsIn, hn, ih h.2, List.append_nil]

end Node

/-! ## Runs -/

namespace Render

variable {α β : Type} {file : String} {es fs : List Effect}

/-- Each run comes to what the effects do, as far as it can be seen from outside. -/
def Performs (file : String) (es : List Effect) (x : Lower α) : Prop :=
  ∀ s, ((outcome x s).1.map fun _ => (), (outcome x s).2.metadata) = Effect.run file es s.metadata

theorem performs_pure (a : α) : Performs file [] (pure a) := fun _ => rfl

theorem performs_bind {x : Lower α} {f : α → Lower β} (hx : Performs file es x)
    (hf : ∀ a, Performs file fs (f a)) : Performs file (es ++ fs) (x >>= f) := by
  intro s
  have hs := hx s
  rw [outcome_bind, Effect.run_append, ← hs]
  rcases outcome x s with ⟨e | a, t⟩
  · rfl
  · exact hf a t

-- A step without effects in front of others, or behind them, and a step with one effect in front.
theorem performs_before {x : Lower α} {f : α → Lower β} (hx : Performs file [] x)
    (hf : ∀ a, Performs file es (f a)) : Performs file es (x >>= f) := performs_bind hx hf

theorem performs_behind {x : Lower α} {f : α → Lower β} (hx : Performs file es x)
    (hf : ∀ a, Performs file [] (f a)) : Performs file es (x >>= f) := by
  have hbind := performs_bind hx hf
  rwa [List.append_nil] at hbind

theorem performs_first {e : Effect} {x : Lower α} {f : α → Lower β} (hx : Performs file [e] x)
    (hf : ∀ a, Performs file es (f a)) : Performs file (e :: es) (x >>= f) := performs_bind hx hf

theorem performs_generateName (hint : String) : Performs file [] (generateName hint) := fun _ => rfl

theorem performs_importName (source : String) (binding : Binding) (hint : String) :
    Performs file [] (importName source binding hint) := fun _ => rfl

theorem performs_takeKey : Performs file [] takeKey := fun _ => rfl

theorem performs_defineComponent (code : String) : Performs file [] (defineComponent code) :=
  fun _ => rfl

theorem performs_useTag (request : String) : Performs file [.use request] (useTag request) :=
  fun _ => rfl

theorem performs_macroFunction (name : String) : Performs file [] (macroFunction name) := by
  intro s
  rw [outcome_macroFunction]
  cases s.macroNames.lookup name <;> rfl

theorem performs_checkExpression (env : Env) (location : Location) (text : String) :
    Performs env.source.text [.check location text] (checkExpression env location text) := by
  intro s
  unfold checkExpression
  rw [Effect.run]
  by_cases haccepts : acceptsExpression text = true
  · rw [if_pos haccepts, if_pos haccepts]
    rfl
  · rw [if_neg haccepts, if_neg haccepts]
    rfl

theorem performs_checkAttributes (env : Env) (location : Location) (t : Tag) (hdom : env.isHtml = false) :
    Performs env.source.text (elementChecks env location t) (checkAttributes env location t) := by
  rw [elementChecks, if_neg (by simp [hdom])]
  unfold checkAttributes
  by_cases hempty : t.attributes.isEmpty = true
  · rw [if_pos hempty, if_pos hempty]
    exact performs_pure _
  · rw [if_neg hempty, if_neg hempty]
    exact performs_checkExpression env location _

theorem performs_lowerAttributes (env : Env) (location : Location) (t : Tag) (hhtml : env.isHtml = true) :
    Performs env.source.text (elementChecks env location t)
      (lowerAttributes env location t.attributes) := by
  rw [elementChecks, if_pos hhtml]
  induction t.attributes with
  | nil => exact performs_pure _
  | cons a rest ih =>
    have hrest (ops : List LoweredOp) : Performs env.source.text _
        (lowerAttributes env location rest >>= fun more => pure (ops ++ more)) :=
      performs_behind ih fun more => performs_pure _
    cases hvalue : literal? a.value with
    | some value =>
      have hliteral : isLiteral a.value = true := by rw [isLiteral, hvalue]; rfl
      have hone : Performs env.source.text [] (lowerAttribute env location a) := by
        unfold lowerAttribute
        rw [hvalue]
        exact performs_pure _
      rw [List.filter_cons_of_neg (by simp [hliteral])]
      exact performs_before hone hrest
    | none =>
      have hliteral : isLiteral a.value = false := by rw [isLiteral, hvalue]; rfl
      have hone : Performs env.source.text [.check location a.value]
          (lowerAttribute env location a) := by
        unfold lowerAttribute
        rw [hvalue]
        apply performs_behind (performs_checkExpression env location _)
        intro _
        exact performs_before (performs_importName _ _ _) fun helper => performs_pure _
      rw [List.filter_cons_of_pos (by simp [hliteral])]
      exact performs_bind hone hrest

theorem performs_paramOr (params : List String) (position : Nat) (hint : String) :
    Performs file [] (paramOr params position hint) := by
  unfold paramOr
  split
  · exact performs_pure _
  · exact performs_generateName _

theorem performs_loopScope (env : Env) (location : Location) (t : Tag) :
    Performs env.source.text (loopChecks location t) (loopScope env location t) := by
  have hcheck := performs_checkExpression env location
  unfold loopScope loopChecks
  cases t.valueOf "of" with
  | some list =>
    apply performs_behind (hcheck list)
    intro _
    split
    · exact performs_pure _
    · exact performs_before (performs_paramOr _ _ _) fun item => performs_pure _
  | none =>
    cases t.valueOf "in" with
    | some object =>
      apply performs_behind (hcheck object)
      intro _
      apply performs_before (performs_paramOr _ _ _)
      intro key
      exact performs_before (performs_paramOr _ _ _) fun value => performs_pure _
    | none =>
      cases t.valueOf "from" with
      | none => exact performs_pure _
      | some start =>
        cases t.valueOf "to" with
        | none => exact performs_pure _
        | some bound =>
          apply performs_first (hcheck start)
          intro _
          apply performs_first (hcheck bound)
          intro _
          apply performs_behind (hcheck _)
          intro _
          exact performs_before (performs_paramOr _ _ _) fun counter => performs_pure _

/-! ## Ways to lower text -/

/-- A way to lower text. -/
abbrev TextLowering := Marks → String → Lower (List LoweredOp)

/-- The environment with another way to lower text. -/
def Env.withText (env : Env) (f : TextLowering) : Env := { env with text := f }

/-- A step that is given a way to lower text makes the effects: the texts that are handed over are lowered in
that way, each once and in their order, and nothing else of the step depends on it. -/
inductive Makes (file : String) : {α : Type} → List Effect → (TextLowering → Lower α) → Prop where
  | own {α : Type} {es : List Effect} {x : Lower α} (h : Performs file es x)
      (hnone : es.filterMap Effect.handed? = []) : Makes file es fun _ => x
  | hand (m : Marks) (text : String) : Makes file [.hand m text] fun f => f m text
  | bind {α β : Type} {es fs : List Effect} {x : TextLowering → Lower α}
      {y : TextLowering → α → Lower β} (hx : Makes file es x) (hy : ∀ a, Makes file fs fun f => y f a) :
      Makes file (es ++ fs) fun f => x f >>= y f

/-- A way to lower text that has no effects leaves the others. -/
theorem Makes.performs {x : TextLowering → Lower α} (h : Makes file es x) {f : TextLowering}
    (hf : ∀ m text, Performs file [] (f m text)) : Performs file es (x f) := by
  induction h with
  | own h _ => exact h
  | hand m text => exact fun s => hf m text s
  | bind _ _ ihx ihy => exact performs_bind ihx ihy

/-- Ways to lower text that agree on the texts that are handed over are as good as each other. -/
theorem Makes.congr {x : TextLowering → Lower α} (h : Makes file es x) {f g : TextLowering}
    (hfg : ∀ m text, .hand m text ∈ es → f m text = g m text) : x f = x g := by
  induction h with
  | own _ _ => rfl
  | hand m text => exact hfg m text List.mem_cons_self
  | bind _ _ ihx ihy =>
    dsimp only
    rw [ihx fun m text h => hfg m text (List.mem_append_left _ h)]
    congr 1
    funext a
    exact ihy a fun m text h => hfg m text (List.mem_append_right _ h)

theorem makes_quiet {x : Lower α} (h : Performs file [] x) : Makes file [] fun _ => x := .own h rfl

-- Steps that do not lower text in front of others and behind them.
theorem makes_before {x : Lower α} {y : TextLowering → α → Lower β} (hx : Performs file [] x)
    (hy : ∀ a, Makes file es fun f => y f a) : Makes file es fun f => x >>= y f :=
  (makes_quiet hx).bind hy

theorem makes_behind {x : TextLowering → Lower α} {y : α → Lower β} (hx : Makes file es x)
    (hy : ∀ a, Performs file [] (y a)) : Makes file es fun f => x f >>= y := by
  have hbind := Makes.bind (y := fun _ => y) hx fun a => makes_quiet (hy a)
  rwa [List.append_nil] at hbind

theorem makes_check (env : Env) (location : Location) (text : String)
    {y : TextLowering → PUnit → Lower β} (hy : ∀ a, Makes env.source.text es fun f => y f a) :
    Makes env.source.text (.check location text :: es) fun f => checkExpression env location text >>= y f :=
  (Makes.own (performs_checkExpression env location text) rfl).bind hy

/-- Both ways to lower the children of a tag make the given effects. -/
structure MakesInner (file : String) (content : List Effect) (forSlot : String → List Effect)
    (inner : TextLowering → Inner) : Prop where
  content : Makes file content fun f => (inner f).content
  inputs : ∀ slot, Makes file (forSlot slot) fun f => (inner f).inputs slot

section

variable {env : Env} {children : List Node} {content : List Effect} {forSlot : String → List Effect}
  {inner : TextLowering → Inner}

-- Only a text is handed over.
theorem performs_lowerLeaf_of_ne (env : Env) (m : Marks) {l : Leaf} (hne : ∀ v, l ≠ .text v) :
    Performs file [] (lowerLeaf env m l) := by
  cases l with
  | text v => exact absurd rfl (hne v)
  | placeholder expression escape =>
    show Performs file [] (lowerPlaceholder env expression escape)
    unfold lowerPlaceholder
    split
    · exact performs_pure _
    · dsimp only
      split_ifs
      · exact performs_before (performs_importName _ _ _) fun _ => performs_pure _
      · exact performs_before (performs_importName _ _ _) fun _ => performs_pure _
      · exact performs_pure _
      · exact performs_pure _
  | component code => exact performs_before (performs_defineComponent _) fun _ => performs_pure _
  | documentType v | declaration v | cdata v | comment v | scriptlet code => exact performs_pure _

theorem makes_lowerLeaf (env : Env) (m : Marks) (l : Leaf) :
    Makes file (leafEffects m l) fun f => lowerLeaf (env.withText f) m l := by
  have hother (hne : ∀ v, l ≠ .text v) : Makes file [] fun _ => lowerLeaf env m l :=
    makes_quiet (performs_lowerLeaf_of_ne env m hne)
  cases l with
  | text v => exact .hand m v
  | _ => exact hother fun v => by simp

theorem makes_lowerSlots (h : MakesInner file content forSlot inner) (object : String)
    (slots : List String) :
    Makes file (slots.flatMap forSlot) fun f => lowerSlots object (inner f) slots := by
  induction slots with
  | nil => exact makes_quiet (performs_pure _)
  | cons slot rest ih =>
    rw [List.flatMap_cons]
    apply (h.inputs slot).bind
    intro r
    exact makes_behind ih fun more => performs_pure _

theorem makes_lowerBody (h : MakesInner file content forSlot inner)
    (hslots : children.all (·.slot?.isSome) = true → content = []) (object : String)
    (params : List String) :
    Makes file content fun f => lowerBody object params children (inner f) := by
  unfold lowerBody
  by_cases hall : children.all (·.slot?.isSome) = true
  · simp only [if_pos hall, hslots hall]
    exact makes_quiet (performs_pure _)
  · simp only [if_neg hall]
    exact makes_behind h.content fun body => performs_pure _

theorem makes_lowerInput (h : MakesInner env.source.text content forSlot inner)
    (hslots : children.all (·.slot?.isSome) = true → content = []) (location : Location) (t : Tag)
    (hint : String) :
    Makes env.source.text (inputEffects location t children content forSlot) fun f =>
      lowerInput env location t hint children (inner f) := by
  apply makes_before (performs_generateName _)
  intro name
  apply makes_check env location
  intro _
  apply (makes_lowerSlots h name _).bind
  intro slots
  exact makes_behind (makes_lowerBody h hslots name t.params) fun body => performs_pure _

-- No checks hand over a text.
theorem handed_elementChecks (env : Env) (location : Location) (t : Tag) :
    (elementChecks env location t).filterMap Effect.handed? = [] := by
  unfold elementChecks
  split
  · rw [List.filterMap_map]
    exact List.filterMap_eq_nil_iff.mpr fun _ _ => rfl
  · split <;> rfl

theorem handed_loopChecks (location : Location) (t : Tag) :
    (loopChecks location t).filterMap Effect.handed? = [] := by
  unfold loopChecks
  split <;> rfl

theorem makes_lowerNative (h : MakesInner env.source.text content forSlot inner) (m : Marks)
    (t : Tag) (name : String) :
    Makes env.source.text
      (if env.isHtml && m.isStatic then []
        else elementChecks env m.location t ++ if env.isHtml && isVoidElement name then [] else content)
      fun f => lowerNative env m t name children (inner f) := by
  have hchecks := handed_elementChecks env m.location t
  unfold lowerNative
  cases hhtml : env.isHtml with
  | false =>
    show Makes _ (elementChecks env m.location t ++ content) fun f =>
      lowerTreeElement env m.location t name (inner f)
    simp only [lowerTreeElement_eq]
    apply (Makes.own (performs_checkAttributes env m.location t hhtml) hchecks).bind
    intro _
    apply makes_before performs_takeKey
    intro key
    exact makes_behind h.content fun ops => performs_pure _
  | true =>
    cases m.isStatic with
    | true => exact makes_quiet (performs_pure _)
    | false =>
      show Makes _ (elementChecks env m.location t ++ if isVoidElement name then [] else content) fun f =>
        lowerElement env m.location t name (inner f)
      apply (Makes.own (performs_lowerAttributes env m.location t hhtml) hchecks).bind
      intro attributes
      dsimp only
      by_cases hvoid : isVoidElement name = true
      · simp only [if_pos hvoid]
        exact makes_quiet (performs_pure _)
      · simp only [if_neg hvoid]
        exact makes_behind h.content fun ops => performs_pure _

theorem makes_lowerTag (h : MakesInner env.source.text content forSlot inner)
    (hslots : children.all (·.slot?.isSome) = true → content = []) (m : Marks) (t : Tag) :
    Makes env.source.text (tagEffects env m t children content forSlot) fun f =>
      lowerTag env m t children (inner f) := by
  have hinput := makes_lowerInput h hslots m.location t
  unfold lowerTag tagEffects
  cases env.kindOf t with
  | dynamic target =>
    apply makes_check env m.location
    intro _
    apply makes_behind (hinput _)
    intro r
    apply performs_before (performs_importName _ _ _)
    intro helper
    exact performs_before performs_takeKey fun key => performs_pure _
  | slot => exact makes_quiet (performs_pure _)
  | ifTrue | elseIfTrue =>
    apply makes_check env m.location
    intro _
    exact makes_behind h.content fun body => performs_pure _
  | otherwise => exact makes_behind h.content fun body => performs_pure _
  | loop =>
    apply (Makes.own (performs_loopScope env m.location t) (handed_loopChecks m.location t)).bind
    intro scope
    apply makes_behind h.content
    intro body
    cases scope <;> exact performs_pure _
  | macroDefinition =>
    -- the content of a macro without a name is not lowered at all
    show Makes _ (if t.macroName?.isSome then content else []) fun f => lowerMacroDefinition t (inner f)
    unfold lowerMacroDefinition
    cases t.macroName? with
    | some name =>
      apply makes_before (performs_macroFunction name)
      intro function
      exact makes_behind h.content fun body => performs_pure _
    | none => exact makes_quiet (performs_pure _)
  | macroCall name =>
    apply makes_before (performs_macroFunction name)
    intro function
    exact makes_behind (hinput _) fun r => performs_pure _
  | native name => exact makes_lowerNative h m t name
  | custom name request =>
    apply (Makes.own (performs_useTag request) rfl).bind
    intro _
    apply makes_before (performs_importName _ _ _)
    intro template
    apply makes_behind (hinput _)
    intro r
    apply performs_before (performs_importName _ _ _)
    intro helper
    exact performs_before performs_takeKey fun key => performs_pure _

end

/-! ## Nodes -/

-- Apart from what is in it, a tag is lowered without regard to texts.
theorem lowerAttributes_withText (env : Env) (f : TextLowering) (location : Location)
    (attributes : List Attribute) :
    lowerAttributes (env.withText f) location attributes = lowerAttributes env location attributes := by
  induction attributes with
  | nil => rfl
  | cons a rest ih =>
    rw [lowerAttributes, lowerAttributes, ih]
    rfl

theorem lowerTag_withText (env : Env) (f : TextLowering) (m : Marks) (t : Tag) (children : List Node)
    (inner : Inner) : lowerTag (env.withText f) m t children inner = lowerTag env m t children inner := by
  have hkind : (env.withText f).kindOf t = env.kindOf t := rfl
  unfold lowerTag
  rw [hkind]
  cases env.kindOf t with
  | native name =>
    have helement : lowerElement (env.withText f) m.location t name inner =
        lowerElement env m.location t name inner := by
      unfold lowerElement
      rw [lowerAttributes_withText]
    show lowerNative (env.withText f) m t name children inner = lowerNative env m t name children inner
    unfold lowerNative
    rw [helement]
    rfl
  | _ => rfl

/-- Lowering makes the effects of its nodes, in their order, and no others. -/
theorem makes_lower (env : Env) :
    (∀ n : Node, Makes env.source.text (n.effects env) (fun f => lower (env.withText f) n) ∧
      ∀ slot, Makes env.source.text (n.effectsFor env slot) fun f => inputs (env.withText f) slot n) ∧
    ∀ ns : List Node,
      Makes env.source.text (Node.effectsIn env ns) (fun f => lowerAll (env.withText f) ns) ∧
      ∀ slot, Makes env.source.text (Node.effectsForIn env slot ns) fun f =>
        inputsAll (env.withText f) slot ns := by
  apply Node.induct
  case leaf => exact fun m l => ⟨makes_lowerLeaf env m l, fun slot => makes_quiet (performs_pure _)⟩
  case tag =>
    intro m t children ih
    have hinner : MakesInner env.source.text (Node.effectsIn env children)
        (fun slot => Node.effectsForIn env slot children) fun f =>
          ⟨lowerAll (env.withText f) children, fun slot => inputsAll (env.withText f) slot children⟩ :=
      ⟨ih.1, ih.2⟩
    have hslots (h : children.all (·.slot?.isSome) = true) : Node.effectsIn env children = [] :=
      Node.effectsIn_of_slot? env h
    constructor
    · simp only [lower, lowerTag_withText]
      exact makes_lowerTag hinner hslots m t
    · intro slot
      simp only [inputs, Node.effectsFor]
      by_cases hslot : t.slot? = some slot
      · simp only [if_pos hslot, if_pos (beq_iff_eq.mpr hslot)]
        exact makes_behind (makes_lowerInput hinner hslots m.location t slot) fun r =>
          performs_pure _
      · simp only [if_neg hslot, if_neg (mt beq_iff_eq.mp hslot)]
        exact makes_quiet (performs_pure _)
  case nil => exact ⟨makes_quiet (performs_pure _), fun slot => makes_quiet (performs_pure _)⟩
  case cons =>
    intro n ns ihn ihns
    constructor
    · apply ihn.1.bind
      intro ops
      exact makes_behind ihns.1 fun more => performs_pure _
    · intro slot
      apply (ihn.2 slot).bind
      intro r
      exact makes_behind (ihns.2 slot) fun more => performs_pure _

/-- Lowering checks and records what the effects of its nodes say, if texts are lowered as they are unless
something else is asked for. -/
theorem performs_lowerAll {env : Env} (htext : env.text = standardText env.options) (ns : List Node) :
    Performs env.source.text (Node.effectsIn env ns) (lowerAll env ns) := by
  have hstandard (m : Marks) (text : String) : Performs env.source.text [] (env.text m text) := by
    rw [htext]
    exact performs_pure _
  exact ((makes_lower env).2 ns).1.performs hstandard

end Render

end TemplateCompiler
