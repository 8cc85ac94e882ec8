import TemplateCompiler.Compilation
import TemplateCompiler.Proofs.Lowering.Content
import TemplateCompiler.Proofs.Render.Batching
import TemplateCompiler.Proofs.Template.Marks

/-!
# Folding of constant tags

In text output a marked tag is written as constant markup, in one write. Lowering it piece by piece
gives the same operations once writes are batched, as long as nothing below it is lowered for its
effect (`Node.isFoldable`). The two ways to lower are compared step by step; where a tag is folded, its
pieces are writes that add up to its markup (`Writes`).
-/

namespace TemplateCompiler

open Script (Literal literal? isLiteral)

/-! ## What can be folded -/

/-- A name of a core tag. -/
def Tag.isCoreName (name : String) : Bool :=
  name == "if" || name == "else-if" || name == "else" || name == "for" || name == "macro"

/-- The tag has the name of a core tag or of a macro. -/
def Tag.isCoreOrMacro (macros : List String) (t : Tag) : Bool :=
  t.staticName.any fun name => Tag.isCoreName name || macros.contains name

namespace Node

mutual

/-- Neither the node nor one below it is a scriptlet, a component class, a core tag or a macro. -/
def isPlain (macros : List String) : Node → Bool
  | .leaf _ (.scriptlet _) => false
  | .leaf _ (.component _) => false
  | .leaf _ _ => true
  | .tag _ t children => !t.isCoreOrMacro macros && arePlain macros children
termination_by structural n => n

/-- All nodes of a list are plain. -/
def arePlain (macros : List String) : List Node → Bool
  | [] => true
  | n :: ns => n.isPlain macros && arePlain macros ns
termination_by structural ns => ns

end

mutual

/-- All nodes below marked tags are plain. -/
def isFoldable (macros : List String) : Node → Bool
  | .leaf _ _ => true
  | .tag m _ children => (!m.isStatic || arePlain macros children) && areFoldable macros children
termination_by structural n => n

/-- All nodes of a list are foldable. -/
def areFoldable (macros : List String) : List Node → Bool
  | [] => true
  | n :: ns => n.isFoldable macros && areFoldable macros ns
termination_by structural ns => ns

end

theorem slot?_unmarkTags (n : Node) : n.unmarkTags.slot? = n.slot? := by
  cases n <;> rfl

end Node

/-! ## Empty texts -/

theorem Text.escapeText_eq_empty_iff {s : String} : Text.escapeText s = "" ↔ s = "" := by
  have hchar (c : Char) : Text.escapeTextChar c ≠ [] := by
    unfold Text.escapeTextChar
    split_ifs <;> simp
  rw [← String.toList_eq_nil_iff, Text.toList_escapeText, List.flatMap_eq_nil_iff,
    ← String.toList_eq_nil_iff]
  constructor
  · intro h
    exact List.eq_nil_iff_forall_not_mem.mpr fun c hc => hchar c (h c hc)
  · intro h c hc
    rw [h] at hc
    exact (List.not_mem_nil hc).elim

theorem textMarkup_eq_empty_iff {escape : Bool} {text : String} :
    textMarkup escape text = "" ↔ text = "" := by
  unfold textMarkup
  split
  · exact Text.escapeText_eq_empty_iff
  · exact Iff.rfl

namespace Render

theorem slotNames_unmarkTagsIn (ns : List Node) :
    slotNames (Node.unmarkTagsIn ns) = slotNames ns := by
  rw [slotNames, slotNames, Node.unmarkTagsIn_eq_map, List.filterMap_map]
  congr 2
  exact funext Node.slot?_unmarkTags

theorem all_slot_unmarkTagsIn (ns : List Node) :
    (Node.unmarkTagsIn ns).all (·.slot?.isSome) = ns.all (·.slot?.isSome) := by
  rw [Node.unmarkTagsIn_eq_map, List.all_map]
  congr 1
  exact funext fun n => congrArg Option.isSome (Node.slot?_unmarkTags n)

/-! ## Writes -/

/-- A text as a write, unless it is empty. -/
def writeOf (markup : String) : List LoweredOp := if markup = "" then [] else [.write markup]

/-- The operations come down to writing a text. -/
def Writes (ops : List LoweredOp) (markup : String) : Prop := Op.batch ops = writeOf markup

theorem writes_nil : Writes [] "" := rfl

theorem writes_writeOf (markup : String) : Writes (writeOf markup) markup := by
  unfold Writes writeOf
  split <;> rfl

theorem writes_write {markup : String} (h : markup ≠ "") : Writes [.write markup] markup := by
  have := writes_writeOf markup
  rwa [writeOf, if_neg h] at this

theorem batch_writeOf_append (a b : String) :
    Op.batch (writeOf a ++ writeOf b) = writeOf (a ++ b) := by
  by_cases ha : a = ""
  · rw [ha, writeOf, if_pos rfl, List.nil_append, String.empty_append]
    exact writes_writeOf b
  by_cases hb : b = ""
  · rw [hb, writeOf, writeOf, if_pos rfl, List.append_nil, String.append_empty]
    exact writes_writeOf a
  · have hab : a ++ b ≠ "" := fun h => ha (String.append_eq_empty_iff.mp h).1
    rw [writeOf, writeOf, writeOf, if_neg ha, if_neg hb, if_neg hab]
    rfl

theorem Writes.append {ops more : List LoweredOp} {a b : String} (ha : Writes ops a)
    (hb : Writes more b) : Writes (ops ++ more) (a ++ b) := by
  unfold Writes at *
  rw [← Op.batch_append_batch, ha, hb, batch_writeOf_append]

/-! ## Constant nodes, piece by piece -/

theorem markup_tag_ne_empty (preserveComments : Bool) (m : Marks) (t : Tag) (children : List Node) :
    (Node.tag m t children).markup preserveComments ≠ "" := by
  rw [Node.markup]
  split <;> simp [Tag.openingMarkup]

section

variable {env : Env}

theorem lowerAttribute_of_isLiteral {location : Location} {a : Attribute}
    (h : isLiteral a.value = true) :
    lowerAttribute env location a = pure (writeOf a.markup) := by
  obtain ⟨value, hvalue⟩ := Option.isSome_iff_exists.mp h
  simp only [lowerAttribute, Attribute.markup, hvalue, writeOf, String.isEmpty_iff]

variable (env) in
theorem lowerAttributes_of_isLiteral (location : Location) {attributes : List Attribute}
    (h : ∀ a ∈ attributes, isLiteral a.value = true) :
    ∃ ops, lowerAttributes env location attributes = pure ops ∧
      Writes ops (String.join (attributes.map Attribute.markup)) := by
  induction attributes with
  | nil => exact ⟨[], rfl, writes_nil⟩
  | cons a rest ih =>
    obtain ⟨ha, hrest⟩ := List.forall_mem_cons.mp h
    obtain ⟨ops, hops, hwrites⟩ := ih hrest
    refine ⟨writeOf a.markup ++ ops, ?_, ?_⟩
    · rw [lowerAttributes, lowerAttribute_of_isLiteral ha, hops]
      rfl
    · rw [List.map_cons, String.join_cons]
      exact (writes_writeOf _).append hwrites

-- A constant leaf that is plain is written as its markup.
theorem lowerLeaf_of_isConstant (hhtml : env.isHtml = true)
    (htext : env.text = standardText env.options) {m : Marks} {l : Leaf} {macros : List String}
    (hconstant : l.isConstant true = true) (hplain : (Node.leaf m l).isPlain macros = true) :
    lowerLeaf env m l = pure (writeOf (l.markup env.options.preserveComments)) := by
  cases l with
  | documentType v =>
    rw [lowerLeaf, if_pos hhtml, writeOf, if_neg (by simp [Leaf.markup, documentTypeMarkup])]
    rfl
  | declaration v =>
    rw [lowerLeaf, if_pos hhtml, writeOf, if_neg (by simp [Leaf.markup, declarationMarkup])]
    rfl
  | cdata v =>
    rw [lowerLeaf, if_pos hhtml, writeOf, if_neg (by simp [Leaf.markup, cdataMarkup])]
    rfl
  | text v =>
    have hout : env.options.output.isHtml = true := hhtml
    simp only [lowerLeaf, htext, standardText, hout, if_true, String.isEmpty_iff, Leaf.markup,
      textMarkup, writeOf, Text.escapeText_eq_empty_iff]
  | comment v =>
    rw [lowerLeaf, Leaf.markup]
    cases env.options.preserveComments with
    | false => rfl
    | true =>
      rw [if_neg (by decide), if_pos hhtml, if_pos rfl, writeOf, if_neg (by simp [commentMarkup])]
  | placeholder expression escape =>
    obtain ⟨value, hvalue⟩ := Option.isSome_iff_exists.mp hconstant
    simp only [lowerLeaf, lowerPlaceholder, hvalue, lowerConstant, hhtml, if_true,
      String.isEmpty_iff, Leaf.markup, writeOf, textMarkup_eq_empty_iff]
  | scriptlet code => exact Bool.noConfusion hplain
  | component code => exact Bool.noConfusion hplain

variable (env) in
/-- A constant tag that is lowered as an element, where its content comes down to a text. -/
theorem lowerElement_of_isConstant (location : Location) {t : Tag} {name content : String}
    {inner : Inner} {ops : List LoweredOp} (hname : t.staticName = some name)
    (hattributes : ∀ a ∈ t.attributes, isLiteral a.value = true)
    (hinner : inner.content = pure ops) (hops : Writes ops content) :
    ∃ ops, lowerElement env location t name inner = pure ops ∧
      Writes ops (if isVoidElement name then t.openingMarkup
        else t.openingMarkup ++ content ++ closingMarkup name) := by
  obtain ⟨attributes, hlower, hwrites⟩ :=
    lowerAttributes_of_isLiteral env location hattributes
  have hstart : Writes ([.write ("<" ++ name)] ++ (attributes ++ [.write ">"])) t.openingMarkup := by
    have hopening : t.openingMarkup =
        ("<" ++ name) ++ (String.join (t.attributes.map Attribute.markup) ++ ">") := by
      rw [Tag.openingMarkup, hname, Option.getD_some, String.append_assoc]
    rw [hopening]
    exact (writes_write (by simp)).append (hwrites.append (writes_write (by decide)))
  unfold lowerElement
  rw [hlower, pure_bind]
  split
  · exact ⟨_, rfl, hstart⟩
  · rw [hinner, pure_bind]
    exact ⟨_, rfl, (hstart.append hops).append (writes_write (by simp [closingMarkup]))⟩

-- A constant tag is a native element with constant attributes, unless its name is taken.
theorem kindOf_of_isConstant {t : Tag}
    (hconstant : t.isConstant (env.registry.isNative env.source) = true)
    (hfree : t.isCoreOrMacro env.macros = false) :
    ∃ name, t.staticName = some name ∧ env.kindOf t = .native name ∧
      ∀ a ∈ t.attributes, isLiteral a.value = true := by
  obtain ⟨name, hname, hslot, hnative, -, -, hattributes⟩ := Tag.isConstant_iff.mp hconstant
  have hstatic : t.staticName = some name := by rw [Tag.staticName, hname]
  simp only [Tag.isCoreOrMacro, hstatic, Option.any_some, Tag.isCoreName, Bool.or_eq_false_iff] at hfree
  obtain ⟨⟨⟨⟨⟨hif, helseIf⟩, helse⟩, hfor⟩, hmacro⟩, hmacros⟩ := hfree
  refine ⟨name, hstatic, ?_, hattributes⟩
  simp only [Env.kindOf, Env.kindOfName, hname, hslot, hif, helseIf, helse, hfor, hmacro, hmacros, hnative,
    Bool.false_eq_true, if_false, if_true]

/-- A constant tag whose content comes down to the markup of its children comes down to its own. -/
theorem lowerTag_of_isConstant (hhtml : env.isHtml = true) (m : Marks) {t : Tag}
    {children : List Node} (lowered : List Node) (inner : Inner) {ops : List LoweredOp}
    (hconstant : t.isConstant (env.registry.isNative env.source) = true)
    (hfree : t.isCoreOrMacro env.macros = false) (hinner : inner.content = pure ops)
    (hops : Writes ops (Node.markupAll env.options.preserveComments children)) :
    ∃ ops, lowerTag env { m with isStatic := false } t lowered inner = pure ops ∧
      Writes ops ((Node.tag m t children).markup env.options.preserveComments) := by
  obtain ⟨name, hname, hkind, hattributes⟩ := kindOf_of_isConstant hconstant hfree
  obtain ⟨ops, hlower, hwrites⟩ :=
    lowerElement_of_isConstant env m.location hname hattributes hinner hops
  refine ⟨ops, ?_, ?_⟩
  · simp only [lowerTag, hkind, lowerNative, hhtml, Bool.not_true, Bool.false_eq_true,
      if_false]
    exact hlower
  · rw [Node.markup, hname, Option.getD_some]
    exact hwrites

/-- Marked plain nodes come down to their markup when they are lowered without the marks of tags. -/
theorem lower_unmarkTags_of_isStatic (hhtml : env.isHtml = true)
    (htext : env.text = standardText env.options) :
    (∀ n : Node, n.IsWellMarked (env.registry.isNative env.source) → n.isStatic = true →
      n.isPlain env.macros = true → ∃ ops, lower env n.unmarkTags = pure ops ∧
        Writes ops (n.markup env.options.preserveComments)) ∧
    ∀ ns : List Node, Node.AreWellMarked (env.registry.isNative env.source) ns →
      (∀ n ∈ ns, n.isStatic = true) → Node.arePlain env.macros ns = true →
      ∃ ops, lowerAll env (Node.unmarkTagsIn ns) = pure ops ∧
        Writes ops (Node.markupAll env.options.preserveComments ns) := by
  apply Node.induct
  case leaf =>
    intro m l hmarked hstatic hplain
    exact ⟨_, lowerLeaf_of_isConstant hhtml htext (hmarked hstatic) hplain, writes_writeOf _⟩
  case tag =>
    intro m t children ih hmarked hstatic hplain
    -- the mark of a tag promises that its children are marked too, so that the induction goes on
    obtain ⟨hconstant, hchildren⟩ := hmarked.1 hstatic
    rw [Node.isPlain, Bool.and_eq_true, Bool.not_eq_true'] at hplain
    obtain ⟨ops, hlower, hwrites⟩ := ih hmarked.2 hchildren hplain.2
    exact lowerTag_of_isConstant hhtml m _ _ hconstant hplain.1 hlower hwrites
  case nil => exact fun _ _ _ => ⟨[], rfl, writes_nil⟩
  case cons =>
    intro n ns ihn ihns hmarked hstatic hplain
    obtain ⟨hn, hns⟩ := List.forall_mem_cons.mp hstatic
    rw [Node.arePlain, Bool.and_eq_true] at hplain
    obtain ⟨ops, hlower, hwrites⟩ := ihn hmarked.1 hn hplain.1
    obtain ⟨more, hmore, hmoreWrites⟩ := ihns hmarked.2 hns hplain.2
    refine ⟨ops ++ more, ?_, hwrites.append hmoreWrites⟩
    rw [Node.unmarkTagsIn, lowerAll, hlower, hmore]
    rfl

end

/-! ## The same writes -/

/-- The operations are the same once writes are batched. -/
def SameBatch (a b : List LoweredOp) : Prop := Op.batch a = Op.batch b

theorem isCongruence_sameBatch : IsCongruence SameBatch where
  refl _ := rfl
  append hab hcd := by
    unfold SameBatch at *
    rw [← Op.batch_append_batch, hab, hcd, Op.batch_append_batch]
  block scope hab := congrArg (fun body : List LoweredOp => [Op.block scope body]) hab

/-! ## With and without marks -/

section

variable {env : Env}

-- A tag that is lowered as a native element has a name that is not taken.
theorem isCoreOrMacro_of_kindOf_native {t : Tag} {name : String}
    (h : env.kindOf t = .native name) : t.isCoreOrMacro env.macros = false := by
  obtain ⟨tagName, attributes, arguments, params⟩ := t
  cases tagName with
  | dynamic expression => rfl
  | static tagName =>
    simp only [Env.kindOf, Env.kindOfName] at h
    split_ifs at h with hslot hif helseIf helse hfor hmacro hmacros hnative
    · simp only [Tag.isCoreOrMacro, Tag.staticName, Option.any_some, Tag.isCoreName, hif, helseIf,
        helse, hfor, hmacro, hmacros, Bool.or_self]
    · split at h <;> cases h

theorem lowerInput_unmarkTagsIn (location : Location) (t : Tag) (hint : String)
    (children : List Node) (inner : Inner) :
    lowerInput env location t hint (Node.unmarkTagsIn children) inner =
      lowerInput env location t hint children inner := by
  simp only [lowerInput, lowerBody, slotNames_unmarkTagsIn, all_slot_unmarkTagsIn]

-- Marks only count for native elements in text output.
theorem lowerTag_unmark {m : Marks} {t : Tag} {children : List Node} {inner : Inner}
    (h : env.isHtml = true → m.isStatic = true → ∀ name, env.kindOf t ≠ .native name) :
    lowerTag env { m with isStatic := false } t (Node.unmarkTagsIn children) inner =
      lowerTag env m t children inner := by
  unfold lowerTag
  cases hkind : env.kindOf t with
  | dynamic target => simp only [lowerDynamic, lowerInput_unmarkTagsIn]
  | macroCall name => simp only [lowerMacroCall, lowerInput_unmarkTagsIn]
  | custom name request => simp only [lowerCustom, lowerInput_unmarkTagsIn]
  | native name =>
    show lowerNative _ _ _ _ _ _ = lowerNative _ _ _ _ _ _
    unfold lowerNative
    cases hhtml : env.isHtml with
    | false => rfl
    | true =>
      have hstatic : m.isStatic = false :=
        Bool.eq_false_iff.mpr fun hstatic => h hhtml hstatic name hkind
      rw [hstatic]
      rfl
  | slot | ifTrue | elseIfTrue | otherwise | loop | macroDefinition => rfl

variable (env) in
/-- In tree output marks do not count at all. -/
theorem lower_unmarkTags_of_dom (hdom : env.isHtml = false) :
    (∀ n : Node, lower env n.unmarkTags = lower env n ∧
      ∀ slot, inputs env slot n.unmarkTags = inputs env slot n) ∧
    ∀ ns : List Node, lowerAll env (Node.unmarkTagsIn ns) = lowerAll env ns ∧
      ∀ slot, inputsAll env slot (Node.unmarkTagsIn ns) = inputsAll env slot ns := by
  apply Node.induct
  case leaf => exact fun _ _ => ⟨rfl, fun _ => rfl⟩
  case tag =>
    intro m t children ih
    have hinner : (⟨lowerAll env (Node.unmarkTagsIn children),
          fun slot => inputsAll env slot (Node.unmarkTagsIn children)⟩ : Inner) =
        ⟨lowerAll env children, fun slot => inputsAll env slot children⟩ := by
      rw [ih.1, funext ih.2]
    refine ⟨?_, fun slot => ?_⟩
    · rw [Node.unmarkTags, lower, lower, hinner]
      exact lowerTag_unmark fun hhtml => absurd hhtml (by rw [hdom]; decide)
    · rw [Node.unmarkTags, inputs, inputs, hinner, lowerInput_unmarkTagsIn]
  case nil => exact ⟨rfl, fun _ => rfl⟩
  case cons =>
    intro n ns ihn ihns
    refine ⟨?_, fun slot => ?_⟩
    · rw [Node.unmarkTagsIn, lowerAll, lowerAll, ihn.1, ihns.1]
    · rw [Node.unmarkTagsIn, inputsAll, inputsAll, ihn.2, ihns.2]

/-- A tag that is written as constant markup on one side, and piece by piece on the other. -/
theorem related_lowerTag_of_folded (hhtml : env.isHtml = true)
    (htext : env.text = standardText env.options) {m : Marks} {t : Tag} {children : List Node}
    {name : String} (hkind : env.kindOf t = .native name) (hstatic : m.isStatic = true)
    (hmarked : (Node.tag m t children).IsWellMarked (env.registry.isNative env.source))
    (hplain : Node.arePlain env.macros children = true) :
    Related Eq Eq SameBatch
      (lowerTag env m t children
        ⟨lowerAll env children, fun slot => inputsAll env slot children⟩)
      (lowerTag env { m with isStatic := false } t (Node.unmarkTagsIn children)
        ⟨lowerAll env (Node.unmarkTagsIn children),
          fun slot => inputsAll env slot (Node.unmarkTagsIn children)⟩) := by
  obtain ⟨hconstant, hchildren⟩ := hmarked.1 hstatic
  obtain ⟨ops, hlower, hwrites⟩ :=
    (lower_unmarkTags_of_isStatic hhtml htext).2 children hmarked.2 hchildren hplain
  obtain ⟨pieces, hpieces, hmarkup⟩ :=
    lowerTag_of_isConstant hhtml m (Node.unmarkTagsIn children)
      ⟨lowerAll env (Node.unmarkTagsIn children),
        fun slot => inputsAll env slot (Node.unmarkTagsIn children)⟩
      hconstant (isCoreOrMacro_of_kindOf_native hkind) hlower hwrites
  rw [hpieces]
  simp only [lowerTag, hkind, lowerNative, hhtml, hstatic, Bool.not_true, Bool.false_eq_true,
    if_false, if_true]
  apply related_pure
  exact (writes_write (markup_tag_ne_empty _ _ _ _)).trans hmarkup.symm

variable (env) in
/-- In text output folding agrees with lowering piece by piece. -/
theorem related_lower_unmarkTags (hhtml : env.isHtml = true)
    (htext : env.text = standardText env.options) :
    (∀ n : Node, n.IsWellMarked (env.registry.isNative env.source) →
      n.isFoldable env.macros = true →
      Related Eq Eq SameBatch (lower env n) (lower env n.unmarkTags) ∧
        ∀ slot, Related Eq Eq (SameInputs SameBatch) (inputs env slot n) (inputs env slot n.unmarkTags)) ∧
    ∀ ns : List Node, Node.AreWellMarked (env.registry.isNative env.source) ns →
      Node.areFoldable env.macros ns = true →
      Related Eq Eq SameBatch (lowerAll env ns) (lowerAll env (Node.unmarkTagsIn ns)) ∧
        ∀ slot, Related Eq Eq (SameInputs SameBatch) (inputsAll env slot ns)
          (inputsAll env slot (Node.unmarkTagsIn ns)) := by
  apply Node.induct
  case leaf =>
    intro m l _ _
    exact ⟨related_refl isCongruence_sameBatch.refl _, fun _ => related_pure ⟨rfl, rfl⟩⟩
  case tag =>
    intro m t children ih hmarked hfoldable
    rw [Node.isFoldable, Bool.and_eq_true] at hfoldable
    obtain ⟨hcontent, hinputs⟩ := ih hmarked.2 hfoldable.2
    have hinner : Inner.Agrees SameBatch ⟨lowerAll env children, fun slot => inputsAll env slot children⟩
        ⟨lowerAll env (Node.unmarkTagsIn children),
          fun slot => inputsAll env slot (Node.unmarkTagsIn children)⟩ := ⟨hcontent, hinputs⟩
    refine ⟨?_, fun slot => ?_⟩
    · rw [Node.unmarkTags, lower, lower]
      -- a folded element is one write, whose children lower to writes only; all else lowers its children as
      -- before
      by_cases hfold : m.isStatic = true ∧ ∃ name, env.kindOf t = .native name
      · obtain ⟨hstatic, name, hkind⟩ := hfold
        have hplain : Node.arePlain env.macros children = true := by
          simpa [hstatic] using hfoldable.1
        exact related_lowerTag_of_folded hhtml htext hkind hstatic hmarked hplain
      · rw [lowerTag_unmark fun _ hstatic name hkind => hfold ⟨hstatic, name, hkind⟩]
        exact related_lowerTag isCongruence_sameBatch hinner m t rfl
          (fun _ object => related_lowerBody isCongruence_sameBatch hinner object t.params children) rfl
    · rw [Node.unmarkTags, inputs, inputs]
      split
      · rw [lowerInput_unmarkTagsIn]
        refine related_bind (related_lowerInput isCongruence_sameBatch hinner _ t _ rfl fun object =>
          related_lowerBody isCongruence_sameBatch hinner object t.params children)
          fun r r' hr => related_pure ?_
        exact ⟨congrArg (fun name => [name]) hr.1, hr.2⟩
      · exact related_pure ⟨rfl, rfl⟩
  case nil => exact fun _ _ => ⟨related_pure rfl, fun _ => related_pure ⟨rfl, rfl⟩⟩
  case cons =>
    intro n ns ihn ihns hmarked hfoldable
    rw [Node.areFoldable, Bool.and_eq_true] at hfoldable
    obtain ⟨hn, hninputs⟩ := ihn hmarked.1 hfoldable.1
    obtain ⟨hns, hnsinputs⟩ := ihns hmarked.2 hfoldable.2
    refine ⟨?_, fun slot => ?_⟩
    · refine related_bind hn fun ops ops' hops => related_bind hns fun more more' hmore => ?_
      exact related_pure (isCongruence_sameBatch.append hops hmore)
    · refine related_bind (hninputs slot) fun r r' hr => ?_
      refine related_bind (hnsinputs slot) fun q q' hq => related_pure ?_
      exact ⟨congrArg₂ (· ++ ·) hr.1 hq.1, isCongruence_sameBatch.append hr.2 hq.2⟩

end

/-! ## Main result -/

/-- Folding is a matter of size only: lowering with the marks that `classify` sets gives the same
operations once writes are batched, the same error, and the same state as lowering without the marks of
tags. In tree output that holds for any nodes. -/
theorem batch_lowerAll_unmarkTagsIn (options : Options) (registry : TagRegistry) (working : Option Path)
    (source : Path) (macros : List String) (definition : String) (ns : List Node)
    (h : options.output.isHtml = false ∨
      (∀ n ∈ ns, n.IsClassified (registry.isNative source)) ∧ Node.areFoldable macros ns = true)
    (s : State) :
    outcome ((fun ops => Op.batch (textOps definition ops)) <$>
        lowerAll ((Setting.standard options registry working).env source macros) ns) s =
      outcome ((fun ops => Op.batch (textOps definition ops)) <$>
        lowerAll ((Setting.standard options registry working).env source macros) (Node.unmarkTagsIn ns)) s := by
  -- the output may be a tree in both cases of the hypothesis
  rcases h with hdom | ⟨hclassified, hfoldable⟩
  · rw [((lower_unmarkTags_of_dom ((Setting.standard options registry working).env source macros)
      hdom).2 ns).1]
  cases hhtml : options.output.isHtml with
  | false =>
    rw [((lower_unmarkTags_of_dom ((Setting.standard options registry working).env source macros)
      hhtml).2 ns).1]
  | true =>
    have hmarked : Node.AreWellMarked (registry.isNative source) ns :=
      Node.areWellMarked_iff.mpr fun n hn => (hclassified n hn).isWellMarked
    have hrelated :=
      ((related_lower_unmarkTags ((Setting.standard options registry working).env source macros)
        hhtml rfl).2 ns hmarked hfoldable).1
    refine congrArg (outcome · s) (map_eq_map_of_related (hrelated.imp fun ops ops' hops => ?_))
    rw [textOps, textOps, Op.batch_mapAll, Op.batch_mapAll, hops]

/-- An element with a constant attribute and a constant child, beside a value and a void element. -/
theorem batch_lowerAll_unmarkTagsIn_span :
    let registry := TagRegistry.ofList []
    let place : Marks := ⟨false, ⟨1, 1⟩⟩
    let element (name : String) (attributes : List Attribute) (children : List Node) : Node :=
      .tag place ⟨.static name, attributes, none, []⟩ children
    let program : Program := ⟨[.node (element "div" [] [
      element "span" [⟨"class", "'a&b'"⟩] [.leaf place (.text "1 < 2"), element "br" [] []],
      .leaf place (.placeholder "input.name" true)])], none⟩
    let ns := (program.classify registry ⟨"/app/page.marko"⟩).scopes.renderScope
    let env := (Setting.standard {} registry).env ⟨"/app/page.marko"⟩ []
    let start := State.start ⟨[]⟩ (.ofPath ⟨"/app/page.marko"⟩) .empty
    Node.areFoldable [] ns = true ∧
      outcome ((fun ops => Op.batch (textOps "_component" ops)) <$> lowerAll env ns) start =
        outcome ((fun ops => Op.batch (textOps "_component" ops)) <$>
          lowerAll env (Node.unmarkTagsIn ns)) start := by
  intro registry place element program ns env start
  have hfoldable : Node.areFoldable [] ns = true := by decide +kernel
  exact ⟨hfoldable, batch_lowerAll_unmarkTagsIn {} registry (some .root) ⟨"/app/page.marko"⟩ [] "_component" ns
    (.inr ⟨fun _ hn => Program.isClassified_of_mem_renderScope hn, hfoldable⟩) start⟩

end Render

end TemplateCompiler
