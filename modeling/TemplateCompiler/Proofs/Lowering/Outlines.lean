import TemplateCompiler.Proofs.Lowering.Checks
import TemplateCompiler.Proofs.Lowering.Expressions
import TemplateCompiler.Proofs.Template.Order

/-!
# Outlines

What of a template is lowered, as it nests (`Node.outlineIn`): leaves, elements of a tree, content in blocks
of its own, the functions of macros and their calls, and components. An outline says in which scope each part
ends up. Its parts are those that are lowered, in the same order (`partsIn_outlineIn`), and each run of
lowering builds operations that nest in the same way (`builds_lower`).
-/

namespace TemplateCompiler

open Render

/-- What of a template is lowered, as it nests. -/
inductive Outline where
  | leaf (leaf : Leaf)
  /-- An element of a tree. -/
  | element (content : List Outline)
  /-- Content in a block of its own. -/
  | block (content : List Outline)
  | definition (name : String) (content : List Outline)
  | call (name : String) (input : List Outline)
  /-- A tag with a module of its own, or one that is chosen at rendering. -/
  | component (input : List Outline)

namespace Outline

/-- Induction over an outline and the lists of outlines in it. -/
theorem induct {P : Outline → Prop} {Q : List Outline → Prop} (leaf : ∀ l, P (.leaf l))
    (element : ∀ content, Q content → P (.element content))
    (block : ∀ content, Q content → P (.block content))
    (definition : ∀ name content, Q content → P (.definition name content))
    (call : ∀ name input, Q input → P (.call name input))
    (component : ∀ input, Q input → P (.component input))
    (nil : Q []) (cons : ∀ o os, P o → Q os → Q (o :: os)) : (∀ o, P o) ∧ ∀ os, Q os :=
  ⟨fun o => Outline.rec (motive_1 := P) (motive_2 := Q) leaf element block definition call component nil
      cons o,
    fun os => Outline.rec_1 (motive_1 := P) (motive_2 := Q) leaf element block definition call component nil
      cons os⟩

mutual

/-- The parts of an outline. -/
def parts : Outline → List Part
  | .leaf l => [.leaf l]
  | .element content | .block content | .component content => partsIn content
  | .definition name content => .definition name :: partsIn content
  | .call name input => .call name :: partsIn input
termination_by structural o => o

/-- The parts of outlines. -/
def partsIn : List Outline → List Part
  | [] => []
  | o :: os => o.parts ++ partsIn os
termination_by structural os => os

end

theorem partsIn_append (os ps : List Outline) : partsIn (os ++ ps) = partsIn os ++ partsIn ps := by
  induction os with
  | nil => rfl
  | cons o os ih => rw [List.cons_append, partsIn, partsIn, ih, List.append_assoc]

theorem partsIn_singleton (o : Outline) : partsIn [o] = o.parts := List.append_nil _

theorem partsIn_flatMap {α : Type} (f : α → List Outline) (xs : List α) :
    partsIn (xs.flatMap f) = xs.flatMap fun x => partsIn (f x) := by
  induction xs with
  | nil => rfl
  | cons x xs ih => rw [List.flatMap_cons, List.flatMap_cons, partsIn_append, ih]

end Outline

namespace Node

variable {v : View}

/-- What is lowered in a tag that takes attribute tags: these slot by slot, and a function with the content
if there are other children. -/
def outlineInput (children : List Node) (content : List Outline) (forSlot : String → List Outline) :
    List Outline :=
  (slotNames children).flatMap forSlot ++
    if children.all (·.slot?.isSome) then [] else [.block content]

/-- What is lowered of a tag, given its content and the attribute tags for each slot. -/
def outlineTag (v : View) (m : Marks) (t : Tag) (children : List Node) (content : List Outline)
    (forSlot : String → List Outline) : List Outline :=
  match v.kindOf t with
  | .slot => []
  | .ifTrue | .elseIfTrue | .otherwise => [.block content]
  | .loop => if (loopOperands t).isEmpty then content else [.block content]
  | .macroDefinition =>
    match t.macroName? with
    | some name => [.definition name content]
    | none => []
  | .macroCall name => [.call name (outlineInput children content forSlot)]
  | .native name =>
    if !v.isHtml then [.element content]
    else if m.isStatic || isVoidElement name then []
    else content
  | .dynamic _ | .custom _ _ => [.component (outlineInput children content forSlot)]

mutual

/-- What of a node is lowered. -/
def outline (v : View) : Node → List Outline
  | .leaf _ l => [.leaf l]
  | .tag m t children =>
    outlineTag v m t children (outlineIn v children) fun slot => outlineForIn v slot children
termination_by structural n => n

/-- What of nodes is lowered. -/
def outlineIn (v : View) : List Node → List Outline
  | [] => []
  | n :: ns => n.outline v ++ outlineIn v ns
termination_by structural ns => ns

/-- What of a node is lowered if it is an attribute tag for the slot. -/
def outlineFor (v : View) (slot : String) : Node → List Outline
  | .leaf _ _ => []
  | .tag _ t children =>
    if t.slot? = some slot then
      outlineInput children (outlineIn v children) fun slot => outlineForIn v slot children
    else []
termination_by structural n => n

/-- What of the attribute tags for the slot is lowered. -/
def outlineForIn (v : View) (slot : String) : List Node → List Outline
  | [] => []
  | n :: ns => n.outlineFor v slot ++ outlineForIn v slot ns
termination_by structural ns => ns

end

theorem outlineIn_append (as bs : List Node) :
    outlineIn v (as ++ bs) = outlineIn v as ++ outlineIn v bs := by
  induction as with
  | nil => rfl
  | cons n ns ih => rw [List.cons_append, outlineIn, outlineIn, ih, List.append_assoc]

theorem partsIn_outlineInput {children : List Node} {content : List Outline}
    {forSlot : String → List Outline} (hcontent : Outline.partsIn content = loweredIn v children)
    (hslots : ∀ slot, Outline.partsIn (forSlot slot) = loweredForIn v slot children) :
    Outline.partsIn (outlineInput children content forSlot) =
      loweredInput children (loweredIn v children) fun slot => loweredForIn v slot children := by
  have hbody : Outline.partsIn (if children.all (·.slot?.isSome) then [] else [.block content]) =
      loweredIn v children := by
    split
    · rename_i hall
      exact (loweredIn_of_slot? hall).symm
    · exact (Outline.partsIn_singleton _).trans hcontent
  rw [outlineInput, loweredInput, Outline.partsIn_append, Outline.partsIn_flatMap, hbody]
  simp only [hslots]

/-- The parts of what is lowered are those of `Node.lowered`, in their order. -/
theorem partsIn_outlineIn (v : View) :
    (∀ n : Node, Outline.partsIn (n.outline v) = n.lowered v ∧
      ∀ slot, Outline.partsIn (n.outlineFor v slot) = n.loweredFor v slot) ∧
    ∀ ns : List Node, Outline.partsIn (outlineIn v ns) = loweredIn v ns ∧
      ∀ slot, Outline.partsIn (outlineForIn v slot ns) = loweredForIn v slot ns := by
  apply Node.induct
  case leaf => exact fun m l => ⟨rfl, fun slot => rfl⟩
  case tag =>
    intro m t children ⟨hcontent, hslots⟩
    have hinput := partsIn_outlineInput hcontent hslots
    have hone (o : Outline) {ps : List Part} (h : o.parts = ps) : Outline.partsIn [o] = ps :=
      (Outline.partsIn_singleton o).trans h
    constructor
    · rw [outline, lowered, outlineTag, loweredTag]
      cases v.kindOf t with
      | slot => rfl
      | ifTrue | elseIfTrue | otherwise => exact hone _ hcontent
      | loop =>
        dsimp only
        split
        · exact hcontent
        · exact hone _ hcontent
      | macroDefinition =>
        cases t.macroName? with
        | some name => exact hone _ (congrArg (Part.definition name :: ·) hcontent)
        | none => rfl
      | macroCall name => exact hone _ (congrArg (Part.call name :: ·) hinput)
      | native name =>
        dsimp only
        cases v.isHtml with
        | false => exact hone _ hcontent
        | true => cases (m.isStatic || isVoidElement name) <;> first | exact hcontent | rfl
      | dynamic target | custom name request => exact hone _ hinput
    · intro slot
      rw [outlineFor, loweredFor]
      split
      · exact hinput
      · rfl
  case nil => exact ⟨rfl, fun slot => rfl⟩
  case cons =>
    intro n ns ihn ihns
    constructor
    · rw [outlineIn, loweredIn, Outline.partsIn_append, ihn.1, ihns.1]
    · intro slot
      rw [outlineForIn, loweredForIn, Outline.partsIn_append, ihn.2, ihns.2]

end Node

namespace Render

/-! ## Steps that only name -/

/-- The macros and the component are the same in both states. -/
def SameBuild (s t : State) : Prop := t.macroNames = s.macroNames ∧ t.component = s.component

theorem isQuiet_sameBuild : IsQuiet SameBuild := by
  have hrefl (s : State) : SameBuild s s := ⟨rfl, rfl⟩
  refine ⟨⟨hrefl, fun s t u hst htu => ⟨htu.1.trans hst.1, htu.2.trans hst.2⟩, ?_, ?_, ?_⟩, ?_⟩
  · exact fun hint s => ⟨rfl, rfl⟩
  · exact fun source binding hint s => ⟨rfl, rfl⟩
  · exact fun request s => ⟨rfl, rfl⟩
  · exact fun s => ⟨rfl, rfl⟩

/-- The next key is the same as well. -/
def SameKey (s t : State) : Prop := SameBuild s t ∧ t.nextKey = s.nextKey

theorem isNaming_sameKey : IsNaming SameKey := by
  refine ⟨fun s => ⟨isQuiet_sameBuild.refl s, rfl⟩, fun s t u hst htu => ?_, ?_, ?_, ?_⟩
  · exact ⟨isQuiet_sameBuild.trans s t u hst.1 htu.1, htu.2.trans hst.2⟩
  · exact fun hint s => ⟨isQuiet_sameBuild.generateName hint s, rfl⟩
  · exact fun source binding hint s => ⟨isQuiet_sameBuild.importName source binding hint s, rfl⟩
  · exact fun request s => ⟨isQuiet_sameBuild.useTag request s, rfl⟩

theorem outcome_takeKey (s : State) :
    outcome takeKey s = (.ok s.nextKey, { s with nextKey := s.nextKey + 1 }) := rfl

/-! ## How operations are built -/

/-- The statement is neither authored nor a call of a macro. -/
def Statement.isPlain : Statement → Bool
  | .authored _ | .callMacro _ _ => false
  | _ => true

/-- The statement hands over attributes. -/
def Statement.handsOver : Statement → Bool
  | .writeAttribute _ _ _ | .declareInput _ _ | .assignSlot _ _ _ => true
  | _ => false

/-- The key of the component that a statement renders. -/
def Statement.componentKey? : Statement → Option Nat
  | .renderTag _ _ _ key | .renderDynamicTag _ _ _ key => some key
  | _ => none

theorem Statement.isPlain_of_handsOver {statement : Statement} (h : statement.handsOver = true) :
    statement.isPlain = true := by
  cases statement <;> first | rfl | cases h

theorem Statement.isPlain_of_componentKey? {statement : Statement} {key : Nat}
    (h : statement.componentKey? = some key) : statement.isPlain = true := by
  cases statement <;> first | rfl | cases h

/-- How an outline is lowered from a state to operations and another state. Elements take their keys before
their content, components take them behind their input. -/
inductive Builds (env : Env) : List Outline → State → List LoweredOp → State → Prop where
  | quiet {s t : State} : SameKey s t → Builds env [] s [] t
  | append {os ps : List Outline} {s t u : State} {ops more : List LoweredOp} :
    Builds env os s ops t → Builds env ps t more u → Builds env (os ++ ps) s (ops ++ more) u
  | write (markup : String) (s : State) : Builds env [] s [.write markup] s
  | code {statement : Statement} (s : State) : statement.handsOver = true →
    Builds env [] s [.code statement] s
  | leaf {m : Marks} {l : Leaf} {s t : State} {ops : List LoweredOp} :
    outcome (lowerLeaf env m l) s = (.ok ops, t) → Builds env [.leaf l] s ops t
  | element {os : List Outline} {s t : State} {ops : List LoweredOp} (name : String)
    (attributes : List Attribute) : Builds env os { s with nextKey := s.nextKey + 1 } ops t →
    Builds env [.element os] s
      (.code (.beginElement name attributes s.nextKey) :: (ops ++ [.code .endElement])) t
  | block {os : List Outline} {s t : State} {body : List LoweredOp} {scope : Scope} :
    (∀ name params, scope ≠ .function name params) → Builds env os s body t →
    Builds env [.block os] s [.block scope body] t
  | definition {os : List Outline} {s t u : State} {body : List LoweredOp} {name function : String}
    (params : List String) : outcome (macroFunction name) s = (.ok function, t) →
    Builds env os t body u → Builds env [.definition name os] s [.block (.function function params) body] u
  | call {os : List Outline} {s t u : State} {ops : List LoweredOp} {name function : String}
    (input : String) : outcome (macroFunction name) s = (.ok function, t) → Builds env os t ops u →
    Builds env [.call name os] s (ops ++ [.code (.callMacro function input)]) u
  | component {os : List Outline} {s t : State} {ops : List LoweredOp} {statement : Statement} :
    Builds env os s ops t → statement.componentKey? = some t.nextKey →
    Builds env [.component os] s (ops ++ [.code statement]) { t with nextKey := t.nextKey + 1 }

namespace Builds

variable {env : Env} {os : List Outline} {s t u : State} {ops : List LoweredOp}

theorem nil (s : State) : Builds env [] s [] s := .quiet (isNaming_sameKey.refl s)

theorem quietly (hst : SameKey s t) (h : Builds env os t ops u) : Builds env os s ops u :=
  .append (.quiet hst) h

theorem quietlyAfter (h : Builds env os s ops t) (htu : SameKey t u) : Builds env os s ops u := by
  have happend := h.append (.quiet htu)
  rwa [List.append_nil, List.append_nil] at happend

theorem cons_write (markup : String) (h : Builds env os s ops t) :
    Builds env os s (.write markup :: ops) t := .append (.write markup s) h

theorem cons_code {statement : Statement} (hstatement : statement.handsOver = true)
    (h : Builds env os s ops t) : Builds env os s (.code statement :: ops) t :=
  .append (.code s hstatement) h

theorem snoc_write (markup : String) (h : Builds env os s ops t) :
    Builds env os s (ops ++ [.write markup]) t := by
  have happend := h.append (.write markup t)
  rwa [List.append_nil] at happend

end Builds

/-- Each run that succeeds builds operations for the outline. -/
def AlwaysBuilds {α : Type} (env : Env) (os : List Outline) (opsOf : α → List LoweredOp) (x : Lower α) :
    Prop :=
  ∀ s a t, outcome x s = (.ok a, t) → Builds env os s (opsOf a) t

/-- Both ways to lower the children of a tag build operations for their outlines. -/
structure Inner.Builds (inner : Inner) (env : Env) (children : List Node) : Prop where
  content : AlwaysBuilds env (Node.outlineIn env.view children) id inner.content
  inputs : ∀ slot, AlwaysBuilds env (Node.outlineForIn env.view slot children) Prod.snd (inner.inputs slot)

section

variable {env : Env} {children : List Node} {inner : Inner}

theorem alwaysBuilds_pure_nil {α : Type} {opsOf : α → List LoweredOp} {a : α} (h : opsOf a = []) :
    AlwaysBuilds env [] opsOf (pure a) := by
  intro s b t hrun
  obtain ⟨rfl, rfl⟩ := outcome_pure_eq_ok.mp hrun
  rw [h]
  exact .nil s

theorem builds_lowerSlots (hinner : inner.Builds env children) (object : String) (slots : List String) :
    AlwaysBuilds env (slots.flatMap fun slot => Node.outlineForIn env.view slot children) id
      (lowerSlots object inner slots) := by
  induction slots with
  | nil => exact alwaysBuilds_pure_nil rfl
  | cons slot rest ih =>
    intro s ops t hrun
    obtain ⟨⟨values, slotOps⟩, u, hslot, hrun⟩ := outcome_bind_eq_ok.mp hrun
    obtain ⟨more, t', hmore, hrun⟩ := outcome_bind_eq_ok.mp hrun
    obtain ⟨rfl, rfl⟩ := outcome_pure_eq_ok.mp hrun
    have hassign : Builds env _ u (.code (.assignSlot object slot values) :: more) t' :=
      .cons_code rfl (ih u more t' hmore)
    rw [List.flatMap_cons]
    exact .append (hinner.inputs slot s _ u hslot) hassign

theorem builds_lowerBody (hinner : inner.Builds env children) (object : String) (params : List String) :
    AlwaysBuilds env
      (if children.all (·.slot?.isSome) then [] else [.block (Node.outlineIn env.view children)]) id
      (lowerBody object params children inner) := by
  unfold lowerBody
  split
  · exact alwaysBuilds_pure_nil rfl
  · intro s ops t hrun
    obtain ⟨body, u, hbody, hrun⟩ := outcome_bind_eq_ok.mp hrun
    obtain ⟨rfl, rfl⟩ := outcome_pure_eq_ok.mp hrun
    exact .block (fun _ _ => by simp) (hinner.content s body u hbody)

/-- What is lowered of the children of a tag that takes attribute tags. -/
def outlineInput (env : Env) (children : List Node) : List Outline :=
  Node.outlineInput children (Node.outlineIn env.view children)
    fun slot => Node.outlineForIn env.view slot children

theorem builds_lowerInput (hinner : inner.Builds env children) (location : Location) (t : Tag)
    (hint : String) :
    AlwaysBuilds env (outlineInput env children) Prod.snd
      (lowerInput env location t hint children inner) := by
  intro s r u hrun
  obtain ⟨name, s₁, hname, hrun⟩ := outcome_bind_eq_ok.mp hrun
  obtain ⟨_, s₂, hcheck, hrun⟩ := outcome_bind_eq_ok.mp hrun
  obtain ⟨slots, s₃, hslots, hrun⟩ := outcome_bind_eq_ok.mp hrun
  obtain ⟨body, s₄, hbody, hrun⟩ := outcome_bind_eq_ok.mp hrun
  obtain ⟨rfl, rfl⟩ := outcome_pure_eq_ok.mp hrun
  have hquiet : SameKey s s₂ := isNaming_sameKey.trans _ _ _
    ((isNaming_sameKey.generateName _).rel hname)
    ((isNaming_sameKey.checkExpression env _ _).rel hcheck)
  have hchildren : Builds env (outlineInput env children) s₂ (slots ++ body) s₄ :=
    .append (builds_lowerSlots hinner name _ s₂ slots s₃ hslots)
      (builds_lowerBody hinner name t.params s₃ body s₄ hbody)
  exact .quietly hquiet (.cons_code rfl hchildren)

theorem builds_lowerAttribute (location : Location) (a : Attribute) :
    AlwaysBuilds env [] id (lowerAttribute env location a) := by
  intro s ops t hrun
  unfold lowerAttribute at hrun
  split at hrun
  · obtain ⟨rfl, rfl⟩ := outcome_pure_eq_ok.mp hrun
    show Builds env [] s (if _ then _ else _) s
    split
    · exact .nil s
    · exact .write _ s
  · obtain ⟨_, s₁, hcheck, hrun⟩ := outcome_bind_eq_ok.mp hrun
    obtain ⟨helper, s₂, hhelper, hrun⟩ := outcome_bind_eq_ok.mp hrun
    obtain ⟨rfl, rfl⟩ := outcome_pure_eq_ok.mp hrun
    have hquiet : SameKey s s₂ := isNaming_sameKey.trans _ _ _
      ((isNaming_sameKey.checkExpression env _ _).rel hcheck)
      ((isNaming_sameKey.importName _ _ _).rel hhelper)
    exact .quietly hquiet (.code s₂ rfl)

theorem builds_lowerAttributes (location : Location) (attributes : List Attribute) :
    AlwaysBuilds env [] id (lowerAttributes env location attributes) := by
  induction attributes with
  | nil => exact alwaysBuilds_pure_nil rfl
  | cons a rest ih =>
    intro s ops t hrun
    obtain ⟨first, u, hfirst, hrun⟩ := outcome_bind_eq_ok.mp hrun
    obtain ⟨more, t', hmore, hrun⟩ := outcome_bind_eq_ok.mp hrun
    obtain ⟨rfl, rfl⟩ := outcome_pure_eq_ok.mp hrun
    exact .append (builds_lowerAttribute location a s first u hfirst) (ih u more t' hmore)

/-! ## Tags -/

variable {location : Location} {t : Tag}

theorem builds_lowerMacroCall (hinner : inner.Builds env children) (name : String) :
    AlwaysBuilds env [.call name (outlineInput env children)] id
      (lowerMacroCall env location t name children inner) := by
  intro s ops u hrun
  obtain ⟨function, s₁, hfunction, hrun⟩ := outcome_bind_eq_ok.mp hrun
  obtain ⟨⟨input, inputOps⟩, s₂, hinput, hrun⟩ := outcome_bind_eq_ok.mp hrun
  obtain ⟨rfl, rfl⟩ := outcome_pure_eq_ok.mp hrun
  exact .call input hfunction (builds_lowerInput hinner _ _ _ s₁ _ s₂ hinput)

theorem builds_lowerCustom (hinner : inner.Builds env children) (name request : String) :
    AlwaysBuilds env [.component (outlineInput env children)] id
      (lowerCustom env location t name request children inner) := by
  intro s ops u hrun
  obtain ⟨_, s₁, huse, hrun⟩ := outcome_bind_eq_ok.mp hrun
  obtain ⟨template, s₂, htemplate, hrun⟩ := outcome_bind_eq_ok.mp hrun
  obtain ⟨⟨input, inputOps⟩, s₃, hinput, hrun⟩ := outcome_bind_eq_ok.mp hrun
  obtain ⟨helper, s₄, hhelper, hrun⟩ := outcome_bind_eq_ok.mp hrun
  obtain ⟨key, s₅, hkey, hrun⟩ := outcome_bind_eq_ok.mp hrun
  obtain ⟨rfl, rfl⟩ := outcome_pure_eq_ok.mp hrun
  have hbefore : SameKey s s₂ := isNaming_sameKey.trans _ _ _
    ((isNaming_sameKey.useTag _).rel huse) ((isNaming_sameKey.importName _ _ _).rel htemplate)
  have hchildren : Builds env (outlineInput env children) s inputOps s₄ :=
    (Builds.quietly hbefore (builds_lowerInput hinner _ _ _ s₂ _ s₃ hinput)).quietlyAfter
      ((isNaming_sameKey.importName _ _ _).rel hhelper)
  rw [outcome_takeKey] at hkey
  cases hkey
  exact .component hchildren rfl

theorem builds_lowerDynamic (hinner : inner.Builds env children) (target : String) :
    AlwaysBuilds env [.component (outlineInput env children)] id
      (lowerDynamic env location t target children inner) := by
  intro s ops u hrun
  obtain ⟨_, s₁, hcheck, hrun⟩ := outcome_bind_eq_ok.mp hrun
  obtain ⟨⟨input, inputOps⟩, s₂, hinput, hrun⟩ := outcome_bind_eq_ok.mp hrun
  obtain ⟨helper, s₃, hhelper, hrun⟩ := outcome_bind_eq_ok.mp hrun
  obtain ⟨key, s₄, hkey, hrun⟩ := outcome_bind_eq_ok.mp hrun
  obtain ⟨rfl, rfl⟩ := outcome_pure_eq_ok.mp hrun
  have hbefore : SameKey s s₁ := (isNaming_sameKey.checkExpression env _ _).rel hcheck
  have hchildren : Builds env (outlineInput env children) s inputOps s₃ :=
    (Builds.quietly hbefore (builds_lowerInput hinner _ _ _ s₁ _ s₂ hinput)).quietlyAfter
      ((isNaming_sameKey.importName _ _ _).rel hhelper)
  rw [outcome_takeKey] at hkey
  cases hkey
  exact .component hchildren rfl

theorem builds_lowerTreeElement (hinner : inner.Builds env children) (name : String) :
    AlwaysBuilds env [.element (Node.outlineIn env.view children)] id
      (lowerTreeElement env location t name inner) := by
  intro s ops u hrun
  rw [lowerTreeElement_eq] at hrun
  obtain ⟨_, s₁, hcheck, hrun⟩ := outcome_bind_eq_ok.mp hrun
  obtain ⟨key, s₂, hkey, hrun⟩ := outcome_bind_eq_ok.mp hrun
  obtain ⟨content, s₃, hcontent, hrun⟩ := outcome_bind_eq_ok.mp hrun
  obtain ⟨rfl, rfl⟩ := outcome_pure_eq_ok.mp hrun
  have hquiet : SameKey s s₁ := (isNaming_sameKey.checkAttributes env _ t).rel hcheck
  rw [outcome_takeKey] at hkey
  cases hkey
  exact .quietly hquiet (.element name t.attributes (hinner.content _ content s₃ hcontent))

theorem builds_lowerElement (hinner : inner.Builds env children) (name : String) :
    AlwaysBuilds env (if isVoidElement name then [] else Node.outlineIn env.view children) id
      (lowerElement env location t name inner) := by
  intro s ops u hrun
  obtain ⟨attributes, s₁, hattributes, hrun⟩ := outcome_bind_eq_ok.mp hrun
  have hstart : Builds env [] s (.write ("<" ++ name) :: (attributes ++ [.write ">"])) s₁ :=
    .cons_write _ (.snoc_write _ (builds_lowerAttributes _ _ s attributes s₁ hattributes))
  dsimp only at hrun
  split at hrun
  · obtain ⟨rfl, rfl⟩ := outcome_pure_eq_ok.mp hrun
    rw [if_pos ‹_›]
    exact hstart
  · obtain ⟨content, s₂, hcontent, hrun⟩ := outcome_bind_eq_ok.mp hrun
    obtain ⟨rfl, rfl⟩ := outcome_pure_eq_ok.mp hrun
    rw [if_neg ‹_›]
    exact .snoc_write _ (hstart.append (hinner.content s₁ content s₂ hcontent))

theorem builds_lowerNative (hinner : inner.Builds env children) (m : Marks) (name : String) :
    AlwaysBuilds env
      (if !env.isHtml then [.element (Node.outlineIn env.view children)]
        else if m.isStatic || isVoidElement name then []
        else Node.outlineIn env.view children) id
      (lowerNative env m t name children inner) := by
  unfold lowerNative
  cases env.isHtml with
  | false => exact builds_lowerTreeElement hinner name
  | true =>
    cases m.isStatic with
    | true =>
      intro s ops u hrun
      obtain ⟨rfl, rfl⟩ := outcome_pure_eq_ok.mp hrun
      exact .write _ s
    | false => exact builds_lowerElement hinner name

theorem builds_lowerCondition (hinner : inner.Builds env children) (scope : String → Scope)
    (hscope : ∀ condition name params, scope condition ≠ .function name params) :
    AlwaysBuilds env [.block (Node.outlineIn env.view children)] id
      (lowerCondition env location t scope inner) := by
  intro s ops u hrun
  obtain ⟨_, s₁, hcheck, hrun⟩ := outcome_bind_eq_ok.mp hrun
  obtain ⟨body, s₂, hbody, hrun⟩ := outcome_bind_eq_ok.mp hrun
  obtain ⟨rfl, rfl⟩ := outcome_pure_eq_ok.mp hrun
  have hquiet : SameKey s s₁ := (isNaming_sameKey.checkExpression env _ _).rel hcheck
  exact .quietly hquiet (.block (hscope _) (hinner.content s₁ body s₂ hbody))

theorem builds_lowerMacroDefinition (hinner : inner.Builds env children) :
    AlwaysBuilds env
      (match t.macroName? with
        | some name => [.definition name (Node.outlineIn env.view children)]
        | none => []) id
      (lowerMacroDefinition t inner) := by
  unfold lowerMacroDefinition
  cases t.macroName? with
  | none => exact alwaysBuilds_pure_nil rfl
  | some name =>
    intro s ops u hrun
    obtain ⟨function, s₁, hfunction, hrun⟩ := outcome_bind_eq_ok.mp hrun
    obtain ⟨body, s₂, hbody, hrun⟩ := outcome_bind_eq_ok.mp hrun
    obtain ⟨rfl, rfl⟩ := outcome_pure_eq_ok.mp hrun
    exact .definition t.params hfunction (hinner.content s₁ body s₂ hbody)

/-- A loop has a block just if it has operands, and these are what the block has. -/
theorem yields_loopScope (env : Env) (location : Location) (t : Tag) :
    Yields (fun scope => scope.isNone = (loopOperands t).isEmpty ∧ ∀ b ∈ scope, b.expressions = loopOperands t)
      (loopScope env location t) := by
  have hsome {scope : Scope} (hoperands : scope.expressions.isEmpty = false) :
      Yields (fun s => s.isNone = scope.expressions.isEmpty ∧ ∀ b ∈ s, b.expressions = scope.expressions)
        (pure (some scope) : Lower (Option Scope)) :=
    yields_pure ⟨hoperands.symm, fun b hb => by rw [Option.mem_some.mp hb]⟩
  have hnone : Yields (fun s : Option Scope => s.isNone = true ∧ ∀ b ∈ s, b.expressions = [])
      (pure none : Lower (Option Scope)) :=
    yields_pure ⟨rfl, fun b hb => (Option.not_mem_none b hb).elim⟩
  unfold loopScope loopOperands
  cases t.valueOf "of" with
  | some list =>
    dsimp only
    apply yields_bind_any
    intro _
    split
    · exact hsome rfl
    · exact yields_bind_any fun _ => hsome rfl
  | none =>
    cases t.valueOf "in" with
    | some object =>
      dsimp only
      refine yields_bind_any fun _ => yields_bind_any fun key => yields_bind_any fun value => ?_
      exact hsome rfl
    | none =>
      cases t.valueOf "from" with
      | none => cases t.valueOf "to" <;> exact hnone
      | some start =>
        cases t.valueOf "to" with
        | none => exact hnone
        | some bound =>
          dsimp only
          refine yields_bind_any fun _ => yields_bind_any fun _ => yields_bind_any fun _ => ?_
          exact yields_bind_any fun counter => hsome rfl

theorem builds_lowerLoop (hinner : inner.Builds env children) :
    AlwaysBuilds env
      (if (loopOperands t).isEmpty then Node.outlineIn env.view children
        else [.block (Node.outlineIn env.view children)]) id
      (lowerLoop env location t inner) := by
  intro s ops u hrun
  obtain ⟨scope, s₁, hscope, hrun⟩ := outcome_bind_eq_ok.mp hrun
  obtain ⟨body, s₂, hbody, hrun⟩ := outcome_bind_eq_ok.mp hrun
  have hquiet : SameKey s s₁ := (moves_loopScope isNaming_sameKey location t).rel hscope
  have hcontent := hinner.content s₁ body s₂ hbody
  obtain ⟨hempty, hoperands⟩ := yields_loopScope env location t s scope s₁ hscope
  rw [← hempty]
  cases scope with
  | none =>
    obtain ⟨rfl, rfl⟩ := outcome_pure_eq_ok.mp hrun
    exact .quietly hquiet hcontent
  | some scope =>
    obtain ⟨rfl, rfl⟩ := outcome_pure_eq_ok.mp hrun
    -- a function has no operands, and then the loop would have no block
    refine .quietly hquiet (.block (fun name params hfunction => ?_) hcontent)
    subst hfunction
    rw [← hoperands _ rfl] at hempty
    cases hempty

theorem builds_lowerTag (hinner : inner.Builds env children) (m : Marks) (t : Tag) :
    AlwaysBuilds env ((Node.tag m t children).outline env.view) id
      (lowerTag env m t children inner) := by
  have hkind : env.view.kindOf t = env.kindOf t := rfl
  rw [Node.outline, Node.outlineTag, hkind]
  unfold lowerTag
  cases env.kindOf t with
  | dynamic target => exact builds_lowerDynamic hinner target
  | slot => exact alwaysBuilds_pure_nil rfl
  | ifTrue => exact builds_lowerCondition hinner .ifTrue fun _ _ _ => by simp
  | elseIfTrue => exact builds_lowerCondition hinner .elseIfTrue fun _ _ _ => by simp
  | otherwise =>
    intro s ops u hrun
    obtain ⟨body, s₁, hbody, hrun⟩ := outcome_bind_eq_ok.mp hrun
    obtain ⟨rfl, rfl⟩ := outcome_pure_eq_ok.mp hrun
    exact .block (fun _ _ => by simp) (hinner.content s body s₁ hbody)
  | loop => exact builds_lowerLoop hinner
  | macroDefinition => exact builds_lowerMacroDefinition hinner
  | macroCall name => exact builds_lowerMacroCall hinner name
  | native name => exact builds_lowerNative hinner m name
  | custom name request => exact builds_lowerCustom hinner name request

variable (env) in
/-- Each run of lowering builds operations that nest like what is lowered. -/
theorem builds_lower :
    (∀ n : Node, AlwaysBuilds env (n.outline env.view) id (lower env n) ∧
      ∀ slot, AlwaysBuilds env (n.outlineFor env.view slot) Prod.snd (inputs env slot n)) ∧
    ∀ ns : List Node, AlwaysBuilds env (Node.outlineIn env.view ns) id (lowerAll env ns) ∧
      ∀ slot, AlwaysBuilds env (Node.outlineForIn env.view slot ns) Prod.snd (inputsAll env slot ns) := by
  apply Node.induct
  case leaf => exact fun m l => ⟨fun s ops t hrun => .leaf hrun, fun slot => alwaysBuilds_pure_nil rfl⟩
  case tag =>
    intro m t children ih
    have hinner : Inner.Builds ⟨lowerAll env children, fun slot => inputsAll env slot children⟩
        env children := ⟨ih.1, ih.2⟩
    refine ⟨builds_lowerTag hinner m t, fun slot => ?_⟩
    rw [Node.outlineFor, inputs]
    by_cases hslot : t.slot? = some slot
    · rw [if_pos (beq_iff_eq.mpr hslot), if_pos hslot]
      intro s r u hrun
      obtain ⟨⟨name, ops⟩, u', hinput, hrun⟩ := outcome_bind_eq_ok.mp hrun
      obtain ⟨rfl, rfl⟩ := outcome_pure_eq_ok.mp hrun
      exact builds_lowerInput hinner _ _ _ s _ u' hinput
    · rw [if_neg (mt beq_iff_eq.mp hslot), if_neg hslot]
      exact alwaysBuilds_pure_nil rfl
  case nil => exact ⟨alwaysBuilds_pure_nil rfl, fun slot => alwaysBuilds_pure_nil rfl⟩
  case cons =>
    intro n ns ihn ihns
    refine ⟨fun s ops t hrun => ?_, fun slot s r t hrun => ?_⟩
    · obtain ⟨first, u, hfirst, hrun⟩ := outcome_bind_eq_ok.mp hrun
      obtain ⟨more, t', hmore, hrun⟩ := outcome_bind_eq_ok.mp hrun
      obtain ⟨rfl, rfl⟩ := outcome_pure_eq_ok.mp hrun
      exact .append (ihn.1 s first u hfirst) (ihns.1 u more t' hmore)
    · obtain ⟨first, u, hfirst, hrun⟩ := outcome_bind_eq_ok.mp hrun
      obtain ⟨more, t', hmore, hrun⟩ := outcome_bind_eq_ok.mp hrun
      obtain ⟨rfl, rfl⟩ := outcome_pure_eq_ok.mp hrun
      exact .append (ihn.2 slot s first u hfirst) (ihns.2 slot u more t' hmore)

end

end Render

end TemplateCompiler
