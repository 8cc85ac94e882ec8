import TemplateCompiler.Proofs.Lowering.Content
import TemplateCompiler.Proofs.Template.Comments
import TemplateCompiler.Proofs.Template.Parts

/-!
# Lowering without comments

Comments that are not preserved are lowered to nothing, so that nodes without them are lowered alike
(`related_lowerAll_of_drops`). There is one exception: a tag that takes input is told about its content,
though it may be comments only. Then a function without operations is left over (`Trims`).
-/

namespace TemplateCompiler.Render

/-! ## Functions without operations -/

/-- The second list is the first without some functions for content that do nothing, at all depths. -/
inductive Trims : List LoweredOp → List LoweredOp → Prop
  | nil : Trims [] []
  | keep (op : LoweredOp) {ops rest : List LoweredOp} (behind : Trims ops rest) :
    Trims (op :: ops) (op :: rest)
  | inside (scope : Scope) {body kept ops rest : List LoweredOp} (inside : Trims body kept)
    (behind : Trims ops rest) : Trims (.block scope body :: ops) (.block scope kept :: rest)
  | leaveOut (object : String) (params : List String) {ops rest : List LoweredOp}
    (behind : Trims ops rest) : Trims (.block (.renderBody object params) [] :: ops) rest

theorem isCongruence_trims : IsCongruence Trims where
  refl ops := by
    induction ops with
    | nil => exact .nil
    | cons op ops ih => exact .keep op ih
  append {a b c d} hab hcd := by
    induction hab with
    | nil => exact hcd
    | keep op _ ih => exact .keep op ih
    | inside scope hinside _ _ ih => exact .inside scope hinside ih
    | leaveOut object params _ ih => exact .leaveOut object params ih
  block scope hab := .inside scope hab .nil

/-! ## Nodes that leave nothing -/

section

variable {env : Env}

theorem lowerAll_cons_of_lower {n : Node} (h : lower env n = pure []) (ns : List Node) :
    lowerAll env (n :: ns) = lowerAll env ns := by
  rw [lowerAll, h, pure_bind]
  exact bind_pure _

theorem lower_of_slot? {n : Node} (h : n.slot?.isSome = true) : lower env n = pure [] := by
  cases n with
  | leaf m l => exact Bool.noConfusion h
  | tag m t children =>
    have hkind : env.kindOf t = .slot := (kindOf_eq_slot_iff env t).mpr h
    rw [lower, lowerTag, hkind]

theorem lower_comment (hoff : env.options.preserveComments = false) (m : Marks) (text : String) :
    lower env (.leaf m (.comment text)) = pure [] := by
  rw [lower, lowerLeaf, hoff]
  rfl

theorem inputsAll_cons_leaf (slot : String) (m : Marks) (l : Leaf) (ns : List Node) :
    inputsAll env slot (.leaf m l :: ns) = inputsAll env slot ns := by
  rw [inputsAll, inputs, pure_bind]
  exact bind_pure _

-- Without the comments only attribute tags are left, which are no content.
theorem lowerAll_of_drops (hoff : env.options.preserveComments = false) {mayEmpty : Tag → Bool}
    {ns rest : List Node} (h : Node.Drops mayEmpty ns rest) (hrest : Node.hasContent rest = false) :
    lowerAll env ns = pure [] := by
  rw [Node.hasContent, Bool.not_eq_false'] at hrest
  induction h with
  | nil => rfl
  | keep n _ ih =>
    rw [List.all_cons, Bool.and_eq_true] at hrest
    rw [lowerAll_cons_of_lower (lower_of_slot? hrest.1), ih hrest.2]
  | @tag m t children _ _ _ _ _ _ _ ih =>
    rw [List.all_cons, Bool.and_eq_true] at hrest
    have hslot : (Node.tag m t children).slot?.isSome = true := hrest.1
    rw [lowerAll_cons_of_lower (lower_of_slot? hslot), ih hrest.2]
  | comment m text _ ih => rw [lowerAll_cons_of_lower (lower_comment hoff m text), ih hrest]

end

/-! ## Lowering -/

section

variable {S : List LoweredOp → List LoweredOp → Prop} {env : Env} {mayEmpty : Tag → Bool}

theorem lowerBody_eq (object : String) (params : List String) (children : List Node) (inner : Inner) :
    lowerBody object params children inner =
      if Node.hasContent children then
        inner.content >>= fun body => pure [.block (.renderBody object params) body]
      else pure [] := by
  unfold lowerBody Node.hasContent
  cases children.all (·.slot?.isSome) <;> rfl

-- The content of a tag that is comments only is a function without operations.
theorem related_lowerBody_of_drops (hS : IsCongruence S) (hoff : env.options.preserveComments = false)
    {t : Tag} {children kept : List Node} (h : Node.Drops mayEmpty children kept)
    (hcontent : Node.hasContent children = true → Node.hasContent kept = true ∨ mayEmpty t = true)
    (hempty : mayEmpty t = true → ∀ object, S [.block (.renderBody object t.params) []] [])
    {a b : Inner} (ha : a.content = lowerAll env children)
    (hab : Related Eq Eq S a.content b.content) (object : String) :
    Related Eq Eq S (lowerBody object t.params children a) (lowerBody object t.params kept b) := by
  rw [lowerBody_eq, lowerBody_eq]
  cases hkept : Node.hasContent kept with
  | true =>
    rw [h.hasContent hkept]
    exact related_bind hab fun _ _ hbody => related_pure (hS.block _ hbody)
  | false =>
    cases hchildren : Node.hasContent children with
    | false => exact related_pure (hS.refl [])
    | true =>
      have hmay : mayEmpty t = true := (hcontent hchildren).resolve_left (by rw [hkept]; decide)
      rw [ha, lowerAll_of_drops hoff h hkept]
      exact related_pure (hempty hmay object)

/-- Nodes are lowered alike with and without comments that are not preserved. Where a tag takes input and
loses all of its content, `S` has to leave out a function without operations. -/
theorem related_lowerAll_of_drops (hS : IsCongruence S) (hoff : env.options.preserveComments = false)
    (hempty : ∀ t, (env.kindOf t).takesInput = true → mayEmpty t = true →
      ∀ object, S [.block (.renderBody object t.params) []] [])
    {ns rest : List Node} (h : Node.Drops mayEmpty ns rest) :
    Related Eq Eq S (lowerAll env ns) (lowerAll env rest) ∧
      ∀ slot, Related Eq Eq (SameInputs S) (inputsAll env slot ns) (inputsAll env slot rest) := by
  induction h with
  | nil => exact ⟨related_pure (hS.refl []), fun _ => related_pure ⟨rfl, hS.refl []⟩⟩
  | keep n _ ih =>
    refine ⟨related_bind_left _ fun ops => ?_, fun slot => related_bind_left _ fun r => ?_⟩
    · exact related_bind ih.1 fun more more' hmore => related_pure (hS.append (hS.refl ops) hmore)
    · refine related_bind (ih.2 slot) fun q q' hq => related_pure ⟨?_, hS.append (hS.refl r.2) hq.2⟩
      exact congrArg (r.1 ++ ·) hq.1
  | comment m text _ ih =>
    rw [lowerAll_cons_of_lower (lower_comment hoff m text)]
    refine ⟨ih.1, fun slot => ?_⟩
    rw [inputsAll_cons_leaf]
    exact ih.2 slot
  | @tag m t children kept ns rest hinside hcontent _ ihinside ih =>
    have hinner : Inner.Agrees S ⟨lowerAll env children, fun slot => inputsAll env slot children⟩
        ⟨lowerAll env kept, fun slot => inputsAll env slot kept⟩ := ⟨ihinside.1, ihinside.2⟩
    have hslots : slotNames children = slotNames kept := by
      rw [slotNames, slotNames, hinside.filterMap_slot?]
    have hbody (htakes : (env.kindOf t).takesInput = true) :=
      related_lowerBody_of_drops hS hoff hinside hcontent (hempty t htakes) rfl hinner.content
    have hmarkup : (Node.tag m t children).markup env.options.preserveComments =
        (Node.tag m t kept).markup env.options.preserveComments := by
      rw [hoff, Node.markup, Node.markup, hinside.markupAll]
    refine ⟨?_, fun slot => ?_⟩
    · refine related_bind (related_lowerTag hS hinner m t hslots hbody hmarkup) fun ops ops' hops => ?_
      exact related_bind ih.1 fun more more' hmore => related_pure (hS.append hops hmore)
    · have hinput : Related Eq Eq (SameInputs S) (inputs env slot (.tag m t children))
          (inputs env slot (.tag m t kept)) := by
        rw [inputs, inputs]
        split
        · rename_i hslot
          have hkind : env.kindOf t = .slot :=
            (kindOf_eq_slot_iff env t).mpr (by rw [eq_of_beq hslot]; rfl)
          refine related_bind (related_lowerInput hS hinner _ t _ hslots (hbody (by rw [hkind]; rfl)))
            fun r r' hr => related_pure ⟨?_, hr.2⟩
          exact congrArg (fun name => [name]) hr.1
        · exact related_pure ⟨rfl, hS.refl []⟩
      refine related_bind hinput fun r r' hr => related_bind (ih.2 slot) fun q q' hq => ?_
      exact related_pure ⟨congrArg₂ (· ++ ·) hr.1 hq.1, hS.append hr.2 hq.2⟩

end

end TemplateCompiler.Render
