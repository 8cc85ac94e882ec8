import TemplateCompiler.Proofs.Template.Scriptlets

/-!
# Tags with inputs

Which tags are handed over as input objects when a template is lowered. A tag that is called has an
input, and so does each attribute tag whose owner is called (`View.hasInput`), if lowering gets to it
at all (`Node.reachedIn`). An attribute tag whose owner is not called may as well be left out
(`Node.ownedIn`).
-/

namespace TemplateCompiler

open Render

/-! ## Owners -/

/-- What stands for the tag is called with an input. -/
def Render.TagKind.isCalled : TagKind → Bool
  | .dynamic _ | .macroCall _ | .custom _ _ => true
  | _ => false

/-- The tag is called with an input, or is an attribute tag and its owner is called. -/
def View.hasInput (v : View) (o : Occurrence) : Bool := o.owner?.any fun t => (v.kindOf t).isCalled

/-- Attribute tags inside of these tags, the innermost first, have inputs. -/
def View.takesIn (v : View) (enclosing : List Tag) : Bool :=
  (enclosing.find? fun t => !t.isAttributeTag).any fun t => (v.kindOf t).isCalled

/-- What the input of a tag that is called is named after. -/
def Render.TagKind.inputHint? : TagKind → Option String
  | .dynamic _ => some "dynamic"
  | .macroCall name | .custom name _ => some name
  | _ => none

/-- What the input of the tag is named after. -/
def View.inputHint? (v : View) (t : Tag) : Option String := t.slot? <|> (v.kindOf t).inputHint?

theorem Tag.isSome_slot? (t : Tag) : t.slot?.isSome = t.isAttributeTag := by
  unfold slot? isAttributeTag
  cases t.staticName with
  | none => rfl
  | some name =>
    show (guard (isSlotName name = true) >>= fun _ => pure _ : Option String).isSome = isSlotName name
    cases isSlotName name <;> rfl

section

variable {v : View} {t : Tag} {around : List Tag}

theorem View.hasInput_of_slot? (h : t.slot?.isSome = true) :
    v.hasInput ⟨t, around⟩ = v.takesIn around := by
  rw [Tag.isSome_slot?] at h
  rw [hasInput, Occurrence.owner?, if_pos h]
  rfl

theorem View.hasInput_of_slot?_eq_none (h : t.slot? = none) :
    v.hasInput ⟨t, around⟩ = (v.kindOf t).isCalled := by
  have hplain : ¬t.isAttributeTag = true := by
    rw [← Tag.isSome_slot?, h]
    exact Bool.false_ne_true
  rw [hasInput, Occurrence.owner?, if_neg hplain]
  rfl

-- Attribute tags have the same owner as an attribute tag around them.
theorem View.takesIn_cons (v : View) (t : Tag) (around : List Tag) :
    v.takesIn (t :: around) = v.hasInput ⟨t, around⟩ := by
  cases hslot : t.slot? with
  | some slot =>
    have hsome : t.slot?.isSome = true := by
      rw [hslot]
      rfl
    have htag : t.isAttributeTag = true := t.isSome_slot?.symm.trans hsome
    rw [hasInput_of_slot? hsome, takesIn, takesIn, List.find?_cons_of_neg (by simp [htag])]
  | none =>
    have hplain : t.isAttributeTag = false := by
      rw [← Tag.isSome_slot?, hslot]
      rfl
    rw [hasInput_of_slot?_eq_none hslot, takesIn, List.find?_cons_of_pos (by simp [hplain])]
    rfl

theorem View.slot?_eq_none_of_kindOf (h : v.kindOf t ≠ .slot) : t.slot? = none := by
  rw [ne_eq, v.kindOf_eq_slot_iff] at h
  exact Option.not_isSome_iff_eq_none.mp h

end

/-! ## Where lowering gets to -/

/-- Lowering goes into the tag: it is not written as it is, and its children are rendered. -/
def View.opens (v : View) (m : Marks) (o : Occurrence) : Bool :=
  !v.folds m o.tag && (v.enter (v.hasInput o) o.tag).isSome

namespace Node

mutual

/-- The tags of a node that lowering gets to, where `enclosing` are the tags around it. -/
def reached (v : View) (enclosing : List Tag) : Node → List Occurrence
  | .leaf _ _ => []
  | .tag m t children =>
    ⟨t, enclosing⟩ ::
      if v.opens m ⟨t, enclosing⟩ then reachedIn v (t :: enclosing) children else []
termination_by structural n => n

/-- The tags of nodes that lowering gets to. -/
def reachedIn (v : View) (enclosing : List Tag) : List Node → List Occurrence
  | [] => []
  | n :: ns => n.reached v enclosing ++ reachedIn v enclosing ns
termination_by structural ns => ns

end

/-- The tags with inputs in a node, among those that lowering gets to. -/
def withInput (v : View) (enclosing : List Tag) (n : Node) : List Occurrence :=
  (n.reached v enclosing).filter v.hasInput

/-- The tags with inputs in nodes, among those that lowering gets to. -/
def withInputIn (v : View) (enclosing : List Tag) (ns : List Node) : List Occurrence :=
  (reachedIn v enclosing ns).filter v.hasInput

/-- The tags with inputs in a node as content, where attribute tags have none. -/
def withInputAsContent (v : View) (enclosing : List Tag) (n : Node) : List Occurrence :=
  if n.slot?.isSome then [] else n.withInput v enclosing

/-- The tags with inputs in a node, if it is an attribute tag for the slot. -/
def withInputFor (v : View) (enclosing : List Tag) (slot : String) (n : Node) : List Occurrence :=
  if n.slot? = some slot then n.withInput v enclosing else []

section

variable {v : View} {around : List Tag}

theorem withInputIn_eq_flatMap (around : List Tag) (ns : List Node) :
    withInputIn v around ns = ns.flatMap (·.withInput v around) := by
  induction ns with
  | nil => rfl
  | cons n ns ih =>
    rw [List.flatMap_cons, ← ih]
    exact List.filter_append _ _

theorem withInput_tag (m : Marks) (t : Tag) (children : List Node) :
    (Node.tag m t children).withInput v around =
      (if v.hasInput ⟨t, around⟩ then [⟨t, around⟩] else []) ++
        if v.opens m ⟨t, around⟩ then withInputIn v (t :: around) children else [] := by
  rw [withInput, reached, List.filter_cons]
  cases v.hasInput ⟨t, around⟩ <;> cases v.opens m ⟨t, around⟩ <;> rfl

-- An attribute tag without an input leaves none inside of it either.
theorem withInput_of_takesIn_eq_false (h : v.takesIn around = false) {n : Node}
    (hslot : n.slot?.isSome = true) : n.withInput v around = [] := by
  cases n with
  | leaf m l => rfl
  | tag m t children =>
    have hnone : v.hasInput ⟨t, around⟩ = false := (View.hasInput_of_slot? hslot).trans h
    have hkind : v.kindOf t = .slot := (v.kindOf_eq_slot_iff t).mpr hslot
    rw [withInput_tag, View.opens, hnone, View.enter, hkind, View.folds, hkind]
    rfl

/-- Only as content are children lowered where no attribute tag has an input. -/
theorem withInputIn_of_takesIn_eq_false (h : v.takesIn around = false) (ns : List Node) :
    withInputIn v around ns = ns.flatMap (·.withInputAsContent v around) := by
  rw [withInputIn_eq_flatMap]
  refine congrArg ns.flatMap (funext fun n => ?_)
  unfold withInputAsContent
  split
  · exact withInput_of_takesIn_eq_false h ‹_›
  · rfl

/-- Children that are lowered slot by slot, and then as content, are all lowered once. -/
theorem perm_withInputIn (v : View) (around : List Tag) (children : List Node) :
    ((slotNames children).flatMap (fun slot => children.flatMap (·.withInputFor v around slot)) ++
      children.flatMap (·.withInputAsContent v around)).Perm (withInputIn v around children) := by
  rw [withInputIn_eq_flatMap]
  exact perm_slots_content (·.withInput v around) children

end

/-! ## Attribute tags without an input -/

mutual

/-- The node without the attribute tags that have no input, and nothing if it is one itself. What is
written as it is stays as it is. -/
def owned (v : View) (enclosing : List Tag) : Node → List Node
  | .leaf m l => [.leaf m l]
  | .tag m t children =>
    if t.slot?.isSome && !v.hasInput ⟨t, enclosing⟩ then []
    else if v.folds m t then [.tag m t children]
    else [.tag m t (ownedIn v (t :: enclosing) children)]
termination_by structural n => n

/-- The nodes without the attribute tags that have no input. -/
def ownedIn (v : View) (enclosing : List Tag) : List Node → List Node
  | [] => []
  | n :: ns => n.owned v enclosing ++ ownedIn v enclosing ns
termination_by structural ns => ns

end

/-! ## Marks -/

-- Marked tags are no attribute tags.
theorem slot?_eq_none_of_isStatic {native : String → Bool} {n : Node} (h : n.IsWellMarked native)
    (hstatic : n.isStatic = true) : n.slot? = none := by
  cases n with
  | leaf m l => rfl
  | tag m t children =>
    obtain ⟨name, hname, hslot, -⟩ := Tag.isConstant_iff.mp (h.1 hstatic).1
    have hplain : t.isAttributeTag = false := by
      rw [Tag.isAttributeTag, Tag.staticName, hname]
      exact hslot
    rw [← Tag.isSome_slot?] at hplain
    exact Option.not_isSome_iff_eq_none.mp (Bool.eq_false_iff.mp hplain)

theorem areWellMarked_of_mem_siblings {v : View} {native : String → Bool} :
    (∀ n : Node, n.IsWellMarked native → ∀ takes folded, ∀ x ∈ n.siblings v takes folded,
      AreWellMarked native x.nodes) ∧
    ∀ ns, AreWellMarked native ns → ∀ takes folded, ∀ x ∈ siblingsIn v takes folded ns,
      AreWellMarked native x.nodes := by
  apply Node.induct
  case leaf => exact fun m l _ takes folded x hx => (List.not_mem_nil hx).elim
  case tag =>
    intro m t children ih hmarked takes folded x hx
    rw [siblings] at hx
    split at hx
    · rcases List.mem_cons.mp hx with rfl | hx
      · exact hmarked.2
      · exact ih hmarked.2 _ _ x hx
    · exact (List.not_mem_nil hx).elim
  case nil => exact fun _ takes folded x hx => (List.not_mem_nil hx).elim
  case cons =>
    intro n ns ihn ihns hmarked takes folded x hx
    exact (List.mem_append.mp hx).elim (ihn hmarked.1 takes folded x) (ihns hmarked.2 takes folded x)

/-- If marks are as they should be, there are no attribute tags in constant elements. -/
theorem slot?_eq_none_of_isFolded {v : View} {native : String → Bool} {ns : List Node}
    (hmarked : AreWellMarked native ns) {takes : Bool} {x : Siblings} (hx : x ∈ siblingsIn v takes false ns)
    (hfolded : x.isFolded = true) : ∀ n ∈ x.nodes, n.slot? = none := by
  intro n hn
  have hstatic := (isStatic_of_isFolded.2 ns hmarked takes false (fun h => Bool.noConfusion h) x hx hfolded).2
  have hnodes := areWellMarked_of_mem_siblings.2 ns hmarked takes false x hx
  exact slot?_eq_none_of_isStatic (areWellMarked_iff.mp hnodes n hn) (hstatic n hn)

end Node

end TemplateCompiler
