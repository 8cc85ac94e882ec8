import Mathlib.Tactic.SplitIfs
import TemplateCompiler.Compilation
import TemplateCompiler.Proofs.Lowering.Steps

/-!
# Authored expressions in operations

Conditions, operands of loops, targets of tags and attributes that are written are parsed before they
are copied into an operation. Two kinds of expressions are not parsed by themselves: the expressions of
placeholders, which are not parsed at all, and the attributes of inputs and of elements in tree output,
which are only parsed as one object. `Node.unchecked` lists them. A run of lowering copies just these
and otherwise only expressions that parse (`Copies`), so that all its expressions parse exactly if
these do.
-/

namespace TemplateCompiler

open Script (acceptsExpression isLiteral literal?)

namespace Render

/-! ## Expressions in operations -/

/-- The authored expressions in a statement. -/
def Statement.expressions : Statement → List String
  | .writeValue _ expression | .addValue expression | .addMarkup expression => [expression]
  | .writeAttribute _ _ value => [value]
  | .beginElement _ attributes _ | .declareInput _ attributes => attributes.map (·.value)
  | .renderDynamicTag _ target _ _ => [target]
  | .authored _ | .addText _ | .addComment _ | .endElement | .assignSlot _ _ _ | .callMacro _ _
  | .renderTag _ _ _ _ => []

/-- The authored expressions in the opening of a block. -/
def Scope.expressions : Scope → List String
  | .ifTrue condition | .elseIfTrue condition => [condition]
  | .each _ list | .eachIndexed _ _ list => [list]
  | .eachProperty _ _ object => [object]
  | .range _ start bound step => [start, bound, step]
  | .renderBody _ _ | .otherwise | .function _ _ => []

namespace Op

mutual

/-- The authored expressions in an operation. -/
def expressions : LoweredOp → List String
  | .write _ => []
  | .code statement => statement.expressions
  | .block scope body => scope.expressions ++ expressionsOf body
termination_by structural op => op

/-- The authored expressions in a list of operations. -/
def expressionsOf : List LoweredOp → List String
  | [] => []
  | op :: ops => expressions op ++ expressionsOf ops
termination_by structural ops => ops

end

theorem expressionsOf_append (a b : List LoweredOp) :
    expressionsOf (a ++ b) = expressionsOf a ++ expressionsOf b := by
  induction a with
  | nil => rfl
  | cons op ops ih => rw [List.cons_append, expressionsOf, expressionsOf, ih, List.append_assoc]

end Op

end Render

open Render

/-! ## Expressions that are not parsed by themselves -/

/-- The values of the attributes of a tag. -/
def Tag.values (t : Tag) : List String := t.attributes.map (·.value)

namespace Node

mutual

/-- The expressions in a node that are copied and not parsed by themselves. Those of an attribute tag
belong to the tag around it. -/
def unchecked (env : Env) : Node → List String
  | .leaf _ (.placeholder expression _) => if isLiteral expression then [] else [expression]
  | .leaf _ _ => []
  | .tag m t children =>
    match env.kindOf t with
    | .slot => []
    | .ifTrue | .elseIfTrue | .otherwise | .loop => uncheckedAll env children
    | .macroDefinition => if t.macroName?.isSome then uncheckedAll env children else []
    | .native name =>
      if !env.isHtml then t.values ++ uncheckedAll env children
      else if m.isStatic || isVoidElement name then []
      else uncheckedAll env children
    | .dynamic _ | .macroCall _ | .custom _ _ =>
      t.values ++ (uncheckedInputs env children ++ uncheckedAll env children)
termination_by structural n => n

/-- The expressions in nodes that are copied and not parsed by themselves. -/
def uncheckedAll (env : Env) : List Node → List String
  | [] => []
  | n :: ns => n.unchecked env ++ uncheckedAll env ns
termination_by structural ns => ns

/-- The same for a node that is an attribute tag of the tag around it. -/
def uncheckedInput (env : Env) : Node → List String
  | .leaf _ _ => []
  | .tag _ t children =>
    if t.slot?.isSome then t.values ++ (uncheckedInputs env children ++ uncheckedAll env children)
    else []
termination_by structural n => n

/-- The same for the nodes that are attribute tags of the tag around them. -/
def uncheckedInputs (env : Env) : List Node → List String
  | [] => []
  | n :: ns => n.uncheckedInput env ++ uncheckedInputs env ns
termination_by structural ns => ns

end

theorem uncheckedInputs_eq_flatMap (env : Env) (ns : List Node) :
    uncheckedInputs env ns = ns.flatMap (·.uncheckedInput env) := by
  induction ns with
  | nil => rfl
  | cons n ns ih => rw [uncheckedInputs, ih, List.flatMap_cons]

-- An attribute tag alone copies nothing.
theorem unchecked_of_slot? {env : Env} {n : Node} (h : n.slot?.isSome = true) :
    n.unchecked env = [] := by
  cases n with
  | leaf m l => exact Bool.noConfusion h
  | tag m t children =>
    obtain ⟨name, attributes, arguments, params⟩ := t
    cases name with
    | dynamic expression => exact Bool.noConfusion h
    | static name =>
      change (guard (Tag.isSlotName name = true) >>= fun _ => pure _ : Option String).isSome = true at h
      cases hname : Tag.isSlotName name with
      | false =>
        rw [hname] at h
        exact Bool.noConfusion h
      | true => simp only [unchecked, Env.kindOf, hname, if_true]

theorem uncheckedAll_of_slot? {env : Env} {ns : List Node}
    (h : ns.all (·.slot?.isSome) = true) : uncheckedAll env ns = [] := by
  induction ns with
  | nil => rfl
  | cons n ns ih =>
    rw [List.all_cons, Bool.and_eq_true] at h
    rw [uncheckedAll, unchecked_of_slot? h.1, ih h.2, List.append_nil]

/-- What a node counts for a slot: its expressions if it is an attribute tag for that slot. -/
def uncheckedFor (env : Env) (slot : String) (n : Node) : List String :=
  if n.slot? == some slot then n.uncheckedInput env else []

/-- Taking the attribute tags slot by slot leaves none out. -/
theorem mem_uncheckedInputs_iff {env : Env} {ns : List Node} {e : String} :
    e ∈ (slotNames ns).flatMap (fun slot => ns.flatMap (·.uncheckedFor env slot)) ↔
      e ∈ uncheckedInputs env ns := by
  simp only [uncheckedInputs_eq_flatMap, List.mem_flatMap, uncheckedFor]
  constructor
  · rintro ⟨slot, -, n, hn, he⟩
    split at he
    · exact ⟨n, hn, he⟩
    · exact (List.not_mem_nil he).elim
  · rintro ⟨n, hn, he⟩
    -- only attribute tags count at all, and each of them has a slot
    obtain ⟨slot, hslot⟩ : ∃ slot, n.slot? = some slot := by
      cases n with
      | leaf m l => exact (List.not_mem_nil he).elim
      | tag m t children =>
        rw [uncheckedInput] at he
        split at he
        · exact Option.isSome_iff_exists.mp ‹_›
        · exact (List.not_mem_nil he).elim
    refine ⟨slot, Text.mem_distinct.mpr (List.mem_filterMap.mpr ⟨n, hn, hslot⟩), n, hn, ?_⟩
    rwa [hslot, if_pos (beq_self_eq_true _)]

end Node

namespace Render

/-! ## What operations copy -/

/-- The expressions in operations are those listed and otherwise some that parse. -/
structure Copies (ops : List LoweredOp) (unchecked : List String) : Prop where
  parses : ∀ e ∈ Op.expressionsOf ops, acceptsExpression e = true ∨ e ∈ unchecked
  mem : ∀ e ∈ unchecked, e ∈ Op.expressionsOf ops

theorem copies_nil : Copies [] [] := ⟨fun _ he => .inr he, fun _ he => he⟩

theorem copies_write (markup : String) : Copies [.write markup] [] :=
  ⟨fun _ he => .inr he, fun _ he => he⟩

-- A statement copies all of its expressions.
theorem copies_code (statement : Statement) : Copies [.code statement] statement.expressions := by
  have hexpressions : Op.expressionsOf [.code statement] = statement.expressions :=
    List.append_nil _
  exact ⟨fun _ he => .inr (hexpressions ▸ he), fun _ he => hexpressions ▸ he⟩

theorem Copies.append {ops more : List LoweredOp} {us vs : List String} (hops : Copies ops us)
    (hmore : Copies more vs) : Copies (ops ++ more) (us ++ vs) := by
  constructor
  · intro e he
    rw [Op.expressionsOf_append, List.mem_append] at he
    rcases he with he | he
    · exact (hops.parses e he).imp_right (List.mem_append_left _)
    · exact (hmore.parses e he).imp_right (List.mem_append_right _)
  · intro e he
    rw [Op.expressionsOf_append, List.mem_append]
    exact (List.mem_append.mp he).imp (hops.mem e) (hmore.mem e)

-- A statement whose expressions parse counts for nothing.
theorem Copies.snoc {ops : List LoweredOp} {us : List String} (hops : Copies ops us)
    {statement : Statement} (h : ∀ e ∈ statement.expressions, acceptsExpression e = true) :
    Copies (ops ++ [.code statement]) us := by
  have hexpressions : Op.expressionsOf (ops ++ [.code statement]) =
      Op.expressionsOf ops ++ statement.expressions := by
    rw [Op.expressionsOf_append]
    exact congrArg _ (List.append_nil _)
  constructor
  · intro e he
    rw [hexpressions, List.mem_append] at he
    exact he.elim (hops.parses e) fun he => .inl (h e he)
  · intro e he
    rw [hexpressions]
    exact List.mem_append_left _ (hops.mem e he)

-- A block copies what its body does, if the expressions in its opening parse.
theorem Copies.block {body : List LoweredOp} {us : List String} (hbody : Copies body us)
    {scope : Scope} (h : ∀ e ∈ scope.expressions, acceptsExpression e = true) :
    Copies [.block scope body] us := by
  have hexpressions :
      Op.expressionsOf [.block scope body] = scope.expressions ++ Op.expressionsOf body :=
    List.append_nil _
  constructor
  · intro e he
    rw [hexpressions, List.mem_append] at he
    exact he.elim (fun he => .inl (h e he)) (hbody.parses e)
  · intro e he
    rw [hexpressions]
    exact List.mem_append_right _ (hbody.mem e he)

theorem Copies.congr {ops : List LoweredOp} {us vs : List String} (h : Copies ops us)
    (hmem : ∀ e, e ∈ us ↔ e ∈ vs) : Copies ops vs :=
  ⟨fun e he => (h.parses e he).imp_right (hmem e).mp, fun e he => h.mem e ((hmem e).mpr he)⟩

/-! ## Lowering, part by part -/

/-- Both ways to lower the children of a tag copy the expressions that `Node.unchecked` lists. -/
structure Inner.CopiesOf (inner : Inner) (env : Env) (children : List Node) : Prop where
  content : Yields (Copies · (Node.uncheckedAll env children)) inner.content
  inputs : ∀ slot, Yields (fun r => Copies r.2 (children.flatMap (·.uncheckedFor env slot)))
    (inner.inputs slot)

section

variable {env : Env} {children : List Node} {inner : Inner}

theorem copies_lowerConstant (escape : Bool) (text : String) :
    Copies (lowerConstant env escape text) [] := by
  unfold lowerConstant
  split_ifs
  · exact copies_nil
  · exact copies_write _
  · exact copies_code (.addText text)

/-- An expression is copied as it is, unless it is constant. -/
theorem yields_copies_lowerPlaceholder (expression : String) (escape : Bool) :
    Yields (Copies · (if isLiteral expression then [] else [expression]))
      (lowerPlaceholder env expression escape) := by
  unfold lowerPlaceholder isLiteral
  cases literal? expression with
  | some value => exact yields_pure (copies_lowerConstant escape value.text)
  | none =>
    show Yields (Copies · [expression]) _
    have hwrite (helper : String) :
        Yields (Copies · [expression]) (pure [.code (.writeValue helper expression)]) :=
      yields_pure (copies_code (.writeValue helper expression))
    dsimp only
    split_ifs
    · exact yields_bind_any hwrite
    · exact yields_bind_any hwrite
    · exact yields_pure (copies_code (.addValue expression))
    · exact yields_pure (copies_code (.addMarkup expression))

theorem yields_copies_lowerLeaf (htext : env.text = standardText env.options) (m : Marks)
    (l : Leaf) : Yields (Copies · ((Node.leaf m l).unchecked env)) (lowerLeaf env m l) := by
  cases l with
  | documentType v | declaration v =>
    refine yields_pure ?_
    split
    · exact copies_write _
    · exact copies_nil
  | cdata v =>
    refine yields_pure ?_
    split
    · exact copies_write _
    · exact copies_code (.addText v)
  | text v =>
    rw [lowerLeaf, htext]
    refine yields_pure ?_
    split_ifs
    · exact copies_nil
    · exact copies_write _
    · exact copies_code (.addText v)
  | comment v =>
    refine yields_pure ?_
    split_ifs
    · exact copies_nil
    · exact copies_write _
    · exact copies_code (.addComment v)
  | placeholder expression escape => exact yields_copies_lowerPlaceholder expression escape
  | scriptlet code =>
    refine yields_pure ?_
    split
    · exact copies_nil
    · exact copies_code (.authored _)
  | component code => exact yields_bind_any fun _ => yields_pure copies_nil

theorem yields_copies_lowerSlots (h : inner.CopiesOf env children) (object : String)
    (slots : List String) :
    Yields (Copies · (slots.flatMap fun slot => children.flatMap (·.uncheckedFor env slot)))
      (lowerSlots object inner slots) := by
  induction slots with
  | nil => exact yields_pure copies_nil
  | cons slot rest ih =>
    refine yields_bind (h.inputs slot) fun r hr => yields_bind ih fun more hmore => yields_pure ?_
    rw [List.flatMap_cons]
    exact hr.append ((copies_code (.assignSlot object slot r.1)).append hmore)

theorem yields_copies_lowerBody (h : inner.CopiesOf env children) (object : String)
    (params : List String) :
    Yields (Copies · (Node.uncheckedAll env children))
      (lowerBody object params children inner) := by
  unfold lowerBody
  split
  · -- attribute tags alone leave no content, and nothing is lost with it
    rw [Node.uncheckedAll_of_slot? ‹_›]
    exact yields_pure copies_nil
  · exact yields_bind h.content fun body hbody =>
      yields_pure (hbody.block fun _ he => (List.not_mem_nil he).elim)

/-- The attributes of an input are copied whether or not they parse one by one. -/
theorem yields_copies_lowerInput (h : inner.CopiesOf env children) (location : Location) (t : Tag)
    (hint : String) :
    Yields (fun r => Copies r.2
        (t.values ++ (Node.uncheckedInputs env children ++ Node.uncheckedAll env children)))
      (lowerInput env location t hint children inner) := by
  refine yields_bind_any fun name => yields_bind_any fun _ => ?_
  refine yields_bind (yields_copies_lowerSlots h name _) fun slots hslots => ?_
  refine yields_bind (yields_copies_lowerBody h name t.params) fun body hbody => yields_pure ?_
  exact (copies_code (.declareInput name t.attributes)).append
    ((hslots.congr fun _ => Node.mem_uncheckedInputs_iff).append hbody)

theorem yields_copies_lowerAttribute (location : Location) (a : Attribute) :
    Yields (Copies · []) (lowerAttribute env location a) := by
  unfold lowerAttribute
  split
  · refine yields_pure ?_
    split
    · exact copies_nil
    · exact copies_write _
  · refine yields_bind (yields_checkExpression env location a.value) fun _ haccepts => ?_
    refine yields_bind_any fun helper => yields_pure (copies_nil.snoc ?_)
    exact fun e he => List.mem_singleton.mp he ▸ haccepts

theorem yields_copies_lowerAttributes (location : Location) (attributes : List Attribute) :
    Yields (Copies · []) (lowerAttributes env location attributes) := by
  induction attributes with
  | nil => exact yields_pure copies_nil
  | cons a rest ih =>
    refine yields_bind (yields_copies_lowerAttribute location a) fun ops hops => ?_
    exact yields_bind ih fun more hmore => yields_pure (hops.append hmore)

-- In text output the attributes of elements are checked one by one.
theorem yields_copies_lowerElement (h : inner.CopiesOf env children) (location : Location)
    (t : Tag) (name : String) :
    Yields (Copies · (if isVoidElement name then [] else Node.uncheckedAll env children))
      (lowerElement env location t name inner) := by
  refine yields_bind (yields_copies_lowerAttributes location t.attributes) fun ops hops => ?_
  have hstart : Copies (.write ("<" ++ name) :: (ops ++ [.write ">"])) [] :=
    (copies_write _).append (hops.append (copies_write _))
  split
  · exact yields_pure hstart
  · refine yields_bind h.content fun content hcontent => yields_pure ?_
    have hall := (hstart.append hcontent).append (copies_write (closingMarkup name))
    rwa [List.nil_append, List.append_nil] at hall

-- In tree output they are copied whether or not they parse one by one.
theorem yields_copies_lowerTreeElement (h : inner.CopiesOf env children) (location : Location)
    (t : Tag) (name : String) :
    Yields (Copies · (t.values ++ Node.uncheckedAll env children))
      (lowerTreeElement env location t name inner) := by
  rw [lowerTreeElement_eq]
  refine yields_bind_any fun _ => yields_bind_any fun key => ?_
  refine yields_bind h.content fun content hcontent => yields_pure ?_
  exact (copies_code (.beginElement name t.attributes key)).append
    (hcontent.snoc fun _ he => (List.not_mem_nil he).elim)

-- The expressions that a loop runs over parse.
theorem yields_accepts_loopScope (location : Location) (t : Tag) :
    Yields (fun scope : Option Scope =>
        ∀ b ∈ scope, ∀ e ∈ b.expressions, acceptsExpression e = true)
      (loopScope env location t) := by
  unfold loopScope
  split
  · refine yields_bind (yields_checkExpression env location _) fun _ hlist => ?_
    split
    · refine yields_pure ?_
      rintro _ ⟨⟩ e he
      exact List.mem_singleton.mp he ▸ hlist
    · refine yields_bind_any fun item => yields_pure ?_
      rintro _ ⟨⟩ e he
      exact List.mem_singleton.mp he ▸ hlist
  · refine yields_bind (yields_checkExpression env location _) fun _ hobject => ?_
    refine yields_bind_any fun key => yields_bind_any fun value => yields_pure ?_
    rintro _ ⟨⟩ e he
    exact List.mem_singleton.mp he ▸ hobject
  · refine yields_bind (yields_checkExpression env location _) fun _ hstart => ?_
    refine yields_bind (yields_checkExpression env location _) fun _ hbound => ?_
    refine yields_bind (yields_checkExpression env location _) fun _ hstep => ?_
    refine yields_bind_any fun counter => yields_pure ?_
    rintro _ ⟨⟩ e he
    simp only [Scope.expressions, List.mem_cons, List.not_mem_nil, or_false] at he
    rcases he with rfl | rfl | rfl
    · exact hstart
    · exact hbound
    · exact hstep
  · refine yields_pure ?_
    rintro _ ⟨⟩

/-- A tag copies the expressions that `Node.unchecked` lists, if its children do. -/
theorem yields_copies_lowerTag (h : inner.CopiesOf env children) (m : Marks) (t : Tag) :
    Yields (Copies · ((Node.tag m t children).unchecked env)) (lowerTag env m t children inner) := by
  rw [Node.unchecked, lowerTag]
  cases env.kindOf t with
  | dynamic target =>
    refine yields_bind (yields_checkExpression env m.location target) fun _ htarget => ?_
    refine yields_bind (yields_copies_lowerInput h m.location t "dynamic") fun r hr => ?_
    refine yields_bind_any fun helper => yields_bind_any fun key => yields_pure ?_
    exact hr.snoc fun e he => List.mem_singleton.mp he ▸ htarget
  | slot => exact yields_pure copies_nil
  | ifTrue | elseIfTrue =>
    refine yields_bind (yields_checkExpression env m.location _) fun _ hcondition => ?_
    refine yields_bind h.content fun body hbody => yields_pure (hbody.block ?_)
    exact fun e he => List.mem_singleton.mp he ▸ hcondition
  | otherwise =>
    exact yields_bind h.content fun body hbody =>
      yields_pure (hbody.block fun _ he => (List.not_mem_nil he).elim)
  | loop =>
    refine yields_bind (yields_accepts_loopScope m.location t) fun scope hscope => ?_
    refine yields_bind h.content fun body hbody => ?_
    cases scope with
    | none => exact yields_pure hbody
    | some scope => exact yields_pure (hbody.block (hscope scope rfl))
  | macroDefinition =>
    show Yields _ (lowerMacroDefinition t inner)
    unfold lowerMacroDefinition
    cases t.macroName? with
    | none => exact yields_pure copies_nil
    | some name =>
      refine yields_bind_any fun function => yields_bind h.content fun body hbody => ?_
      exact yields_pure (hbody.block fun _ he => (List.not_mem_nil he).elim)
  | macroCall name =>
    refine yields_bind_any fun function => ?_
    refine yields_bind (yields_copies_lowerInput h m.location t name) fun r hr => ?_
    refine yields_pure ?_
    exact hr.snoc fun _ he => (List.not_mem_nil he).elim
  | native name =>
    show Yields _ (lowerNative env m t name children inner)
    unfold lowerNative
    by_cases hdom : (!env.isHtml) = true
    · simp only [hdom, if_true]
      exact yields_copies_lowerTreeElement h m.location t name
    by_cases hstatic : m.isStatic = true
    -- a constant element is written as markup, in which no expression is left
    · simp only [hdom, hstatic, if_true, Bool.true_or]
      exact yields_pure (copies_write _)
    · simp only [hdom, hstatic, Bool.false_or]
      exact yields_copies_lowerElement h m.location t name
  | custom name request =>
    refine yields_bind_any fun _ => yields_bind_any fun template => ?_
    refine yields_bind (yields_copies_lowerInput h m.location t name) fun r hr => ?_
    refine yields_bind_any fun helper => yields_bind_any fun key => yields_pure ?_
    exact hr.snoc fun _ he => (List.not_mem_nil he).elim

variable (env) in
/-- Nodes copy the expressions that `Node.unchecked` lists, as content and as attribute tags. -/
theorem yields_copies_lower (htext : env.text = standardText env.options) :
    (∀ n : Node, Yields (Copies · (n.unchecked env)) (lower env n) ∧
      ∀ slot, Yields (fun r => Copies r.2 (n.uncheckedFor env slot)) (inputs env slot n)) ∧
    ∀ ns : List Node, Yields (Copies · (Node.uncheckedAll env ns)) (lowerAll env ns) ∧
      ∀ slot, Yields (fun r => Copies r.2 (ns.flatMap (·.uncheckedFor env slot)))
        (inputsAll env slot ns) := by
  apply Node.induct
  case leaf =>
    exact fun m l => ⟨yields_copies_lowerLeaf htext m l, fun slot => yields_pure copies_nil⟩
  case tag =>
    intro m t children ih
    have hinner : Inner.CopiesOf ⟨lowerAll env children, fun slot => inputsAll env slot children⟩
        env children := ⟨ih.1, ih.2⟩
    refine ⟨yields_copies_lowerTag hinner m t, fun slot => ?_⟩
    rw [inputs]
    cases hslot : t.slot? == some slot with
    | false =>
      have hnone : (Node.tag m t children).uncheckedFor env slot = [] :=
        if_neg (Bool.eq_false_iff.mp hslot)
      rw [hnone]
      exact yields_pure copies_nil
    | true =>
      -- an attribute tag for the slot is lowered as an input of its own
      have hsome : (Node.tag m t children).uncheckedFor env slot =
          t.values ++ (Node.uncheckedInputs env children ++ Node.uncheckedAll env children) := by
        have hslot' : ((Node.tag m t children).slot? == some slot) = true := hslot
        rw [Node.uncheckedFor, if_pos hslot', Node.uncheckedInput, eq_of_beq hslot]
        rfl
      rw [hsome]
      exact yields_bind (yields_copies_lowerInput hinner m.location t slot) fun r hr =>
        yields_pure hr
  case nil => exact ⟨yields_pure copies_nil, fun slot => yields_pure copies_nil⟩
  case cons =>
    intro n ns ihn ihns
    refine ⟨?_, fun slot => ?_⟩
    · refine yields_bind ihn.1 fun ops hops => yields_bind ihns.1 fun more hmore => ?_
      exact yields_pure (hops.append hmore)
    · refine yields_bind (ihn.2 slot) fun r hr => yields_bind (ihns.2 slot) fun q hq => ?_
      exact yields_pure (hr.append hq)

end

/-! ## Main result -/

/-- When nodes are lowered, all expressions in the operations parse exactly if those do that are not
parsed by themselves. -/
theorem accepts_expressions_iff (options : Options) (registry : TagRegistry) (working : Option Path)
    (source : Path) (macros : List String) (ns : List Node) (s t : State) (ops : List LoweredOp)
    (h : outcome (lowerAll ((Setting.standard options registry working).env source macros) ns) s =
      (.ok ops, t)) :
    (∀ e ∈ Op.expressionsOf ops, acceptsExpression e = true) ↔
      ∀ e ∈ Node.uncheckedAll ((Setting.standard options registry working).env source macros) ns,
        acceptsExpression e = true := by
  have hcopies :=
    ((yields_copies_lower ((Setting.standard options registry working).env source macros) rfl).2 ns).1
      s ops t h
  constructor
  · exact fun hall e he => hall e (hcopies.mem e he)
  · exact fun hall e he => (hcopies.parses e he).elim id (hall e)

/-- A tag with a body, inside of an element in tree output. -/
theorem accepts_expressions_iff_card :
    let registry := TagRegistry.ofList []
    let options : Options := { output := .dom {} }
    let place : Marks := ⟨false, ⟨1, 1⟩⟩
    let ns : List Node := [.tag place ⟨.static "div", [⟨"title", "input.title"⟩], none, []⟩ [
      .tag place ⟨.static "card", [⟨"size", "input.size + 1"⟩], none, ["item"]⟩ [
        .leaf place (.placeholder "item.name" true)]]]
    let env := (Setting.standard options registry).env ⟨"/app/page.marko"⟩ []
    let start := State.start ⟨[]⟩ (.ofPath ⟨"/app/page.marko"⟩) .empty
    ∃ ops t, outcome (lowerAll env ns) start = (.ok ops, t) ∧
      ((∀ e ∈ Op.expressionsOf ops, acceptsExpression e = true) ↔
        ∀ e ∈ Node.uncheckedAll env ns, acceptsExpression e = true) := by
  intro registry options place ns env start
  have hok : (outcome (lowerAll env ns) start).1.toOption.isSome = true := by decide +kernel
  obtain ⟨ops, hrun⟩ := exists_eq_ok_pair_of_isSome hok
  exact ⟨ops, _, hrun, accepts_expressions_iff options registry _ _ [] ns start _ ops hrun⟩

/-- A placeholder that ends too early, and an attribute with a comma that only the object around it
allows: both are copied, and neither is an expression. -/
theorem exists_expression_not_accepted :
    let registry := TagRegistry.ofList []
    let options : Options := { output := .dom {} }
    let place : Marks := ⟨false, ⟨1, 1⟩⟩
    let ns : List Node := [.leaf place (.placeholder "a +" true),
      .tag place ⟨.static "div", [⟨"title", "1,"⟩], none, []⟩ []]
    let env := (Setting.standard options registry).env ⟨"/app/page.marko"⟩ []
    let start := State.start ⟨[]⟩ (.ofPath ⟨"/app/page.marko"⟩) .empty
    (outcome (lowerAll env ns) start).1.toOption.map Op.expressionsOf = some ["a +", "1,"] ∧
      acceptsExpression "a +" = false ∧ acceptsExpression "1," = false := by
  decide +kernel

end Render

end TemplateCompiler
