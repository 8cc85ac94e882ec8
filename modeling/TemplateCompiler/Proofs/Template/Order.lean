import TemplateCompiler.Proofs.Template.Parts

/-!
# The order of lowering

The order in which the parts outside of constant elements are lowered: the attribute tags in a tag slot by
slot, and the content of the tag behind them. No part is left out (`perm_lowered`). Without attribute tags
it is the order of the template (`loweredIn_eq_renderedIn`).
-/

namespace TemplateCompiler

open Render

namespace Node

variable {v : View}

/-! ## Slot by slot -/

/-- The parts of the attribute tags for a slot. -/
def renderedFor (v : View) (slot : String) (children : List Node) : List Part :=
  children.flatMap fun n => if n.slot? = some slot then n.rendered v true else []

theorem renderedFor_cons (slot : String) (n : Node) (ns : List Node) :
    renderedFor v slot (n :: ns) = renderedFor v slot [n] ++ renderedFor v slot ns := by
  rw [renderedFor, renderedFor, renderedFor, List.flatMap_cons, List.flatMap_cons, List.flatMap_nil,
    List.append_nil]

theorem renderedFor_tag (slot : String) (m : Marks) (t : Tag) (children : List Node) :
    renderedFor v slot [.tag m t children] =
      if t.slot? = some slot then renderedIn v true children else [] := by
  rw [renderedFor, List.flatMap_cons, List.flatMap_nil, List.append_nil]
  show (if t.slot? = some slot then (Node.tag m t children).rendered v true else []) = _
  by_cases hslot : t.slot? = some slot
  · have hkind : v.kindOf t = .slot := by
      rw [v.kindOf_eq_slot_iff, hslot]
      rfl
    rw [if_pos hslot, if_pos hslot, rendered_tag, hkind]
    rfl
  · rw [if_neg hslot, if_neg hslot]

-- What a node has besides attribute tags does not depend on who takes those.
theorem rendered_false_eq (n : Node) :
    n.rendered v false = if n.slot?.isSome then [] else n.rendered v true := by
  cases n with
  | leaf m l => rfl
  | tag m t children =>
    have hslot := v.kindOf_eq_slot_iff t
    by_cases hsome : t.slot?.isSome = true
    · rw [slot?, if_pos hsome, rendered_tag, hslot.mpr hsome]
      rfl
    · have hkind : v.kindOf t ≠ .slot := fun h => hsome (hslot.mp h)
      rw [slot?, if_neg hsome, rendered_tag, rendered_tag]
      cases hkindOf : v.kindOf t with
      | slot => exact absurd hkindOf hkind
      | _ => rfl

theorem flatMap_ite_eq {α : Type} {keys : List String} (hkeys : keys.Nodup) (key : Option String)
    (xs : List α) (hmem : ∀ k, key = some k → k ∈ keys) :
    (keys.flatMap fun k => if key = some k then xs else []) = if key.isSome then xs else [] := by
  induction keys with
  | nil =>
    cases key with
    | none => rfl
    | some k => exact absurd (hmem k rfl) List.not_mem_nil
  | cons head rest ih =>
    rw [List.nodup_cons] at hkeys
    rw [List.flatMap_cons]
    by_cases hkey : key = some head
    · have hrest : (rest.flatMap fun k => if key = some k then xs else []) = [] := by
        rw [List.flatMap_eq_nil_iff]
        intro k hk
        have hne : key ≠ some k := by
          rw [hkey]
          rintro ⟨⟩
          exact hkeys.1 hk
        rw [if_neg hne]
      rw [hrest, if_pos hkey, List.append_nil, hkey]
      rfl
    · rw [if_neg hkey, List.nil_append]
      apply ih hkeys.2
      intro k hk
      have hk' := hmem k hk
      rw [List.mem_cons] at hk'
      exact hk'.resolve_left fun h => hkey (h ▸ hk)

-- Attribute tags are in one slot each.
theorem perm_flatMap_slots {α : Type} (f : Node → List α) {slots : List String} (hslots : slots.Nodup)
    (children : List Node) (hmem : ∀ n ∈ children, ∀ slot, n.slot? = some slot → slot ∈ slots) :
    (slots.flatMap fun slot => children.flatMap fun n => if n.slot? = some slot then f n else []).Perm
      (children.flatMap fun n => if n.slot?.isSome then f n else []) := by
  induction children with
  | nil =>
    have hnil : (slots.flatMap fun _ => ([] : List α)) = [] := List.flatMap_eq_nil_iff.mpr fun _ _ => rfl
    simp only [List.flatMap_nil, hnil]
    exact .nil
  | cons n ns ih =>
    have hsplit := List.flatMap_append_perm slots (fun slot => if n.slot? = some slot then f n else [])
      fun slot => ns.flatMap fun n => if n.slot? = some slot then f n else []
    rw [flatMap_ite_eq hslots n.slot? _ (hmem n List.mem_cons_self)] at hsplit
    simp only [List.flatMap_cons]
    exact hsplit.symm.trans
      ((ih fun n' hn' => hmem n' (List.mem_cons_of_mem n hn')).append_left _)

/-- Taking attribute tags slot by slot and the content behind them leaves no child out. -/
theorem perm_slots_content {α : Type} (f : Node → List α) (children : List Node) :
    ((slotNames children).flatMap (fun slot =>
        children.flatMap fun n => if n.slot? = some slot then f n else []) ++
      children.flatMap fun n => if n.slot?.isSome then [] else f n).Perm (children.flatMap f) := by
  have hslots := perm_flatMap_slots f (Text.nodup_distinct _) children
    fun n hn slot hslot => Text.mem_distinct.mpr (List.mem_filterMap.mpr ⟨n, hn, hslot⟩)
  have hall := List.flatMap_append_perm children (fun n => if n.slot?.isSome then f n else [])
    fun n => if n.slot?.isSome then [] else f n
  have hone : (fun n : Node => (if n.slot?.isSome then f n else []) ++
      if n.slot?.isSome then [] else f n) = f := by
    funext n
    split
    · exact List.append_nil _
    · exact List.nil_append _
  rw [hone] at hall
  exact (hslots.append_right _).trans hall

theorem perm_renderedIn (v : View) (children : List Node) :
    ((slotNames children).flatMap (fun slot => renderedFor v slot children) ++
      renderedIn v false children).Perm (renderedIn v true children) := by
  have hcontent : renderedIn v false children =
      children.flatMap fun n => if n.slot?.isSome then [] else n.rendered v true := by
    rw [renderedIn_eq_flatMap]
    exact congrArg children.flatMap (funext rendered_false_eq)
  rw [hcontent, renderedIn_eq_flatMap]
  exact perm_slots_content (·.rendered v true) children

-- Without other children than attribute tags there is no content.
theorem renderedIn_false_of_slot? {children : List Node}
    (h : children.all (·.slot?.isSome) = true) : renderedIn v false children = [] := by
  rw [renderedIn_eq_flatMap, List.flatMap_eq_nil_iff]
  intro n hn
  have hsome : n.slot?.isSome = true := List.all_eq_true.mp h n hn
  cases n with
  | leaf m l => exact Bool.noConfusion hsome
  | tag m t grandchildren =>
    rw [rendered_tag, (v.kindOf_eq_slot_iff t).mpr hsome]
    rfl

/-! ## Lowering order -/

/-- The parts in a tag that takes attribute tags. -/
def loweredInput (children : List Node) (content : List Part) (forSlot : String → List Part) :
    List Part :=
  (slotNames children).flatMap forSlot ++ content

/-- The parts of a tag, given those of its content and those of the attribute tags for each slot. -/
def loweredTag (v : View) (m : Marks) (t : Tag) (children : List Node) (content : List Part)
    (forSlot : String → List Part) : List Part :=
  match v.kindOf t with
  | .slot => []
  | .ifTrue | .elseIfTrue | .otherwise | .loop => content
  | .macroDefinition =>
    match t.macroName? with
    | some name => .definition name :: content
    | none => []
  | .macroCall name => .call name :: loweredInput children content forSlot
  | .native name => if v.isHtml && (m.isStatic || isVoidElement name) then [] else content
  | .dynamic _ | .custom _ _ => loweredInput children content forSlot

mutual

/-- The parts of a node in the order in which they are lowered. -/
def lowered (v : View) : Node → List Part
  | .leaf _ l => [.leaf l]
  | .tag m t children =>
    loweredTag v m t children (loweredIn v children) fun slot => loweredForIn v slot children
termination_by structural n => n

/-- The parts of nodes in the order in which they are lowered. -/
def loweredIn (v : View) : List Node → List Part
  | [] => []
  | n :: ns => n.lowered v ++ loweredIn v ns
termination_by structural ns => ns

/-- The parts of a node, if it is an attribute tag for the slot. -/
def loweredFor (v : View) (slot : String) : Node → List Part
  | .leaf _ _ => []
  | .tag _ t children =>
    if t.slot? = some slot then
      loweredInput children (loweredIn v children) fun slot => loweredForIn v slot children
    else []
termination_by structural n => n

/-- The parts of the attribute tags for the slot. -/
def loweredForIn (v : View) (slot : String) : List Node → List Part
  | [] => []
  | n :: ns => n.loweredFor v slot ++ loweredForIn v slot ns
termination_by structural ns => ns

end

/-- Lowering takes the parts in another order, but takes all of them. -/
theorem perm_lowered (v : View) :
    (∀ n : Node, (n.lowered v).Perm (n.rendered v false) ∧
      ∀ slot, (n.loweredFor v slot).Perm (renderedFor v slot [n])) ∧
    ∀ ns : List Node, (loweredIn v ns).Perm (renderedIn v false ns) ∧
      ∀ slot, (loweredForIn v slot ns).Perm (renderedFor v slot ns) := by
  apply Node.induct
  case leaf => exact fun m l => ⟨.refl _, fun slot => .refl _⟩
  case tag =>
    intro m t children ⟨hcontent, hslots⟩
    have hinput : (loweredInput children (loweredIn v children)
        fun slot => loweredForIn v slot children).Perm (renderedIn v true children) :=
      ((List.Perm.flatMap_left _ fun slot _ => hslots slot).append hcontent).trans
        (perm_renderedIn v children)
    constructor
    · rw [lowered, rendered_tag, loweredTag]
      cases v.kindOf t with
      | slot => exact .refl _
      | ifTrue | elseIfTrue | otherwise | loop => exact hcontent
      | macroDefinition =>
        cases t.macroName? with
        | some name => exact hcontent.cons _
        | none => exact .refl _
      | macroCall name => exact hinput.cons _
      | native name =>
        dsimp only
        split
        · exact .refl _
        · exact hcontent
      | dynamic target | custom name request => exact hinput
    · intro slot
      rw [loweredFor, renderedFor_tag]
      split
      · exact hinput
      · exact .refl _
  case nil => exact ⟨.refl _, fun slot => .refl _⟩
  case cons =>
    intro n ns ihn ihns
    constructor
    · rw [loweredIn, renderedIn_cons]
      exact ihn.1.append ihns.1
    · intro slot
      rw [loweredForIn, renderedFor_cons]
      exact (ihn.2 slot).append (ihns.2 slot)

-- Without other children than attribute tags there is no content.
theorem loweredIn_of_slot? {children : List Node} (h : children.all (·.slot?.isSome) = true) :
    loweredIn v children = [] := by
  have hperm := ((perm_lowered v).2 children).1
  rw [renderedIn_false_of_slot? h] at hperm
  exact hperm.eq_nil

/-! ## Without attribute tags -/

theorem slotNames_eq_nil {around : List Tag} {ns : List Node}
    (h : ∀ o ∈ occurrencesIn around ns, o.tag.slot? = none) : slotNames ns = [] := by
  have hnone : ns.filterMap Node.slot? = [] := by
    rw [List.filterMap_eq_nil_iff]
    intro n hn
    cases n with
    | leaf m l => rfl
    | tag m t children =>
      refine h ⟨t, around⟩ ?_
      rw [occurrencesIn_eq_flatMap]
      exact List.mem_flatMap.mpr ⟨_, hn, List.mem_cons_self⟩
  rw [slotNames, hnone]
  rfl

/-- Without attribute tags parts are lowered in the order of the template. -/
theorem loweredIn_eq_renderedIn :
    (∀ (n : Node) around takes, (∀ o ∈ n.occurrences around, o.tag.slot? = none) →
      n.lowered v = n.rendered v takes) ∧
    ∀ ns around takes, (∀ o ∈ occurrencesIn around ns, o.tag.slot? = none) →
      loweredIn v ns = renderedIn v takes ns := by
  apply Node.induct
  case leaf => exact fun m l around takes _ => rfl
  case tag =>
    intro m t children ih around takes hslots
    obtain ⟨ht, hchildren⟩ := List.forall_mem_cons.mp hslots
    have hcontent (takes : Bool) : loweredIn v children = renderedIn v takes children :=
      ih (t :: around) takes hchildren
    -- without attribute tags there is only content to put into an input
    have hinput (forSlot : String → List Part) :
        loweredInput children (loweredIn v children) forSlot = renderedIn v true children := by
      rw [loweredInput, slotNames_eq_nil hchildren, List.flatMap_nil, List.nil_append]
      exact hcontent true
    rw [lowered, loweredTag, rendered_tag]
    cases hkind : v.kindOf t with
    | slot =>
      have hsome := (v.kindOf_eq_slot_iff t).mp hkind
      rw [ht] at hsome
      cases hsome
    | ifTrue | elseIfTrue | otherwise | loop => exact hcontent false
    | macroDefinition =>
      cases t.macroName? with
      | some name => exact congrArg (Part.definition name :: ·) (hcontent false)
      | none => rfl
    | macroCall name => exact congrArg (Part.call name :: ·) (hinput _)
    | native name => exact congrArg (ite _ []) (hcontent false)
    | dynamic target | custom name request => exact hinput _
  case nil => exact fun around takes _ => rfl
  case cons =>
    intro n ns ihn ihns around takes hslots
    rw [occurrencesIn, List.forall_mem_append] at hslots
    rw [loweredIn, renderedIn_cons, ihn around takes hslots.1, ihns around takes hslots.2]

end Node

end TemplateCompiler
