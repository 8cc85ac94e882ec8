import TemplateCompiler.Proofs.Lowering.Steps

/-!
# Comparing content

A tag does nothing with its content but put operations and blocks around it. So for each relation that
these keep (`IsCongruence`), tags whose content and inputs are related are lowered to operations that are
related, with the same effects (`related_lowerTag`).
-/

namespace TemplateCompiler.Render

/-! ## Relations between operations -/

/-- The relation is kept by operations in front and behind, and by blocks around. -/
structure IsCongruence (S : List LoweredOp → List LoweredOp → Prop) : Prop where
  refl : ∀ ops, S ops ops
  append : ∀ {a b c d}, S a b → S c d → S (a ++ c) (b ++ d)
  block : ∀ {a b} scope, S a b → S [.block scope a] [.block scope b]

theorem isCongruence_eq : IsCongruence Eq where
  refl _ := rfl
  append hab hcd := by rw [hab, hcd]
  block scope hab := congrArg (fun body : List LoweredOp => [Op.block scope body]) hab

/-- The first parts are the same, and the operations are related. -/
def SameInputs {α : Type} (S : List LoweredOp → List LoweredOp → Prop) (a b : α × List LoweredOp) : Prop :=
  a.1 = b.1 ∧ S a.2 b.2

/-- Both ways to lower children have the same effects and come to related operations. -/
structure Inner.Agrees (S : List LoweredOp → List LoweredOp → Prop) (a b : Inner) : Prop where
  content : Related Eq Eq S a.content b.content
  inputs : ∀ slot, Related Eq Eq (SameInputs S) (a.inputs slot) (b.inputs slot)

/-- What stands for the tag is told its content as a part of its input. -/
def TagKind.takesInput : TagKind → Bool
  | .dynamic _ | .slot | .macroCall _ | .custom _ _ => true
  | _ => false

section

variable {S : List LoweredOp → List LoweredOp → Prop} {env : Env} {a b : Inner}

theorem IsCongruence.cons (hS : IsCongruence S) {x y : List LoweredOp} (op : LoweredOp) (h : S x y) :
    S (op :: x) (op :: y) := hS.append (hS.refl [op]) h

theorem IsCongruence.concat (hS : IsCongruence S) {x y : List LoweredOp} (op : LoweredOp) (h : S x y) :
    S (x ++ [op]) (y ++ [op]) := hS.append h (hS.refl [op])

/-! ## Inputs -/

theorem related_lowerSlots (hS : IsCongruence S) (h : a.Agrees S b) (object : String)
    (slots : List String) :
    Related Eq Eq S (lowerSlots object a slots) (lowerSlots object b slots) := by
  induction slots with
  | nil => exact related_pure (hS.refl [])
  | cons slot rest ih =>
    refine related_bind (h.inputs slot) fun r r' hr => ?_
    refine related_bind ih fun more more' hmore => related_pure ?_
    rw [hr.1]
    exact hS.append hr.2 (hS.cons _ hmore)

theorem related_lowerBody (hS : IsCongruence S) (h : a.Agrees S b) (object : String)
    (params : List String) (children : List Node) :
    Related Eq Eq S (lowerBody object params children a) (lowerBody object params children b) := by
  unfold lowerBody
  split
  · exact related_pure (hS.refl [])
  · exact related_bind h.content fun _ _ hbody => related_pure (hS.block _ hbody)

theorem related_lowerInput (hS : IsCongruence S) (h : a.Agrees S b) (location : Location) (t : Tag)
    (hint : String) {children others : List Node} (hslots : slotNames children = slotNames others)
    (hbody : ∀ object, Related Eq Eq S (lowerBody object t.params children a)
      (lowerBody object t.params others b)) :
    Related Eq Eq (SameInputs S) (lowerInput env location t hint children a)
      (lowerInput env location t hint others b) := by
  refine related_bind_left _ fun name => related_bind_left _ fun _ => ?_
  rw [hslots]
  refine related_bind (related_lowerSlots hS h name _) fun slots slots' hslots => ?_
  refine related_bind (hbody name) fun body body' hbody => related_pure ⟨rfl, ?_⟩
  exact hS.cons _ (hS.append hslots hbody)

/-! ## Tags -/

theorem related_lowerElement (hS : IsCongruence S) (h : a.Agrees S b) (location : Location) (t : Tag)
    (name : String) :
    Related Eq Eq S (lowerElement env location t name a) (lowerElement env location t name b) := by
  refine related_bind_left _ fun attributes => ?_
  split
  · exact related_pure (hS.refl _)
  · refine related_bind h.content fun content content' hcontent => related_pure ?_
    exact hS.concat _ (hS.append (hS.refl _) hcontent)

theorem related_lowerTreeElement (hS : IsCongruence S) (h : a.Agrees S b) (location : Location) (t : Tag)
    (name : String) :
    Related Eq Eq S (lowerTreeElement env location t name a)
      (lowerTreeElement env location t name b) := by
  rw [lowerTreeElement_eq, lowerTreeElement_eq]
  refine related_bind_left _ fun _ => related_bind_left _ fun key => ?_
  refine related_bind h.content fun content content' hcontent => related_pure ?_
  exact hS.cons _ (hS.concat _ hcontent)

/-- A tag is lowered alike if its children are, and if constant children have the same markup. -/
theorem related_lowerTag (hS : IsCongruence S) (h : a.Agrees S b) (m : Marks) (t : Tag)
    {children others : List Node} (hslots : slotNames children = slotNames others)
    (hbody : (env.kindOf t).takesInput = true → ∀ object, Related Eq Eq S
      (lowerBody object t.params children a) (lowerBody object t.params others b))
    (hmarkup : (Node.tag m t children).markup env.options.preserveComments =
      (Node.tag m t others).markup env.options.preserveComments) :
    Related Eq Eq S (lowerTag env m t children a) (lowerTag env m t others b) := by
  have hinput (htakes : (env.kindOf t).takesInput = true) (hint : String) :
      Related Eq Eq (SameInputs S) (lowerInput env m.location t hint children a)
        (lowerInput env m.location t hint others b) :=
    related_lowerInput hS h m.location t hint hslots (hbody htakes)
  have hblock (scope : Scope) : Related Eq Eq S (a.content >>= fun body => pure [.block scope body])
      (b.content >>= fun body => pure [.block scope body]) :=
    related_bind h.content fun _ _ hcontent => related_pure (hS.block scope hcontent)
  unfold lowerTag
  cases hkind : env.kindOf t with
  | dynamic target =>
    refine related_bind_left _ fun _ => related_bind (hinput (by rw [hkind]; rfl) _) fun r r' hr => ?_
    refine related_bind_left _ fun helper => related_bind_left _ fun key => related_pure ?_
    rw [hr.1]
    exact hS.concat _ hr.2
  | slot => exact related_pure (hS.refl [])
  | ifTrue | elseIfTrue => exact related_bind_left _ fun _ => hblock _
  | otherwise => exact hblock _
  | loop =>
    refine related_bind_left _ fun scope => ?_
    cases scope with
    | none => exact related_bind h.content fun _ _ hcontent => related_pure hcontent
    | some scope => exact hblock scope
  | macroDefinition =>
    show Related Eq Eq S (lowerMacroDefinition t a) (lowerMacroDefinition t b)
    unfold lowerMacroDefinition
    split
    · exact related_bind_left _ fun function => hblock _
    · exact related_pure (hS.refl [])
  | macroCall name =>
    refine related_bind_left _ fun function => ?_
    refine related_bind (hinput (by rw [hkind]; rfl) name) fun r r' hr => related_pure ?_
    rw [hr.1]
    exact hS.concat _ hr.2
  | native name =>
    show Related Eq Eq S (lowerNative env m t name children a) (lowerNative env m t name others b)
    unfold lowerNative
    split
    · exact related_lowerTreeElement hS h _ _ _
    · split
      · rw [hmarkup]
        exact related_pure (hS.refl _)
      · exact related_lowerElement hS h _ _ _
  | custom name request =>
    refine related_bind_left _ fun _ => related_bind_left _ fun template => ?_
    refine related_bind (hinput (by rw [hkind]; rfl) name) fun r r' hr => ?_
    refine related_bind_left _ fun helper => related_bind_left _ fun key => related_pure ?_
    rw [hr.1]
    exact hS.concat _ hr.2

end

end TemplateCompiler.Render
