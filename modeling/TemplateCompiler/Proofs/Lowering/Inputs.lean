import TemplateCompiler.Proofs.Lowering.Scriptlets
import TemplateCompiler.Proofs.Template.Ownership

/-!
# Inputs of tags

What stands for a tag is called with an input object. That has the attributes of the tag, the inputs of its
attribute tags slot by slot, and its content as a function (`BuildsInput`, `yields_buildsCall`). The attribute
tags that are in no input may as well be left out: lowering does the same without them
(`replaces_owned`).
-/

namespace TemplateCompiler.Render

/-! ## Attribute tags without an input -/

section

variable {env : Env} {a b : Inner}

-- The input of a tag depends on its children by the slots that they fill, apart from how they are lowered.
theorem lowerInput_congr {children others : List Node}
    (hslots : children.map Node.slot? = others.map Node.slot?) (location : Location) (t : Tag)
    (hint : String) (inner : Inner) :
    lowerInput env location t hint children inner = lowerInput env location t hint others inner := by
  have hnames : slotNames children = slotNames others := by
    have hfilter (ns : List Node) : ns.filterMap Node.slot? = (ns.map Node.slot?).filterMap id := by
      rw [List.filterMap_map]
      rfl
    rw [slotNames, slotNames, hfilter, hfilter, hslots]
  have hall : children.all (·.slot?.isSome) = others.all (·.slot?.isSome) := by
    have hmap (ns : List Node) : ns.all (·.slot?.isSome) = (ns.map Node.slot?).all (·.isSome) := by
      rw [List.all_map]
      rfl
    rw [hmap, hmap, hslots]
  unfold lowerInput lowerBody
  rw [hnames, hall]

/-- Only a tag that is called looks at attribute tags, and only one that is written as it is looks at its
children otherwise than as content. -/
theorem lowerTag_congr (m : Marks) (t : Tag) {children others : List Node}
    (hcontent : a.content = b.content)
    (hcalled : (env.kindOf t).isCalled = true →
      a = b ∧ children.map Node.slot? = others.map Node.slot?)
    (hfolds : env.view.folds m t = true → children = others) :
    lowerTag env m t children a = lowerTag env m t others b := by
  have hinput (hkind : (env.kindOf t).isCalled = true) (hint : String) :
      lowerInput env m.location t hint children a = lowerInput env m.location t hint others b := by
    obtain ⟨rfl, hslots⟩ := hcalled hkind
    exact lowerInput_congr hslots _ t hint a
  unfold lowerTag
  cases hkind : env.kindOf t with
  | dynamic target =>
    dsimp only
    rw [lowerDynamic, hinput (by rw [hkind]; rfl)]
    rfl
  | macroCall name =>
    dsimp only
    rw [lowerMacroCall, hinput (by rw [hkind]; rfl)]
    rfl
  | custom name request =>
    dsimp only
    rw [lowerCustom, hinput (by rw [hkind]; rfl)]
    rfl
  | slot => rfl
  | ifTrue | elseIfTrue =>
    dsimp only
    rw [lowerCondition, lowerCondition, hcontent]
  | otherwise =>
    dsimp only
    rw [hcontent]
  | loop =>
    dsimp only
    rw [lowerLoop, lowerLoop, hcontent]
  | macroDefinition =>
    dsimp only
    rw [lowerMacroDefinition, lowerMacroDefinition, hcontent]
  | native name =>
    dsimp only
    rw [lowerNative, lowerNative, lowerTreeElement, lowerTreeElement, lowerElement, lowerElement, hcontent]
    -- only constant elements of text output are written from the children themselves
    cases hhtml : env.isHtml with
    | false => rfl
    | true =>
      cases hstatic : m.isStatic with
      | false => rfl
      | true =>
        have hfold : env.view.folds m t = true := by
          have hview : env.view.kindOf t = .native name := hkind
          rw [View.folds, hview]
          show (env.isHtml && m.isStatic) = true
          rw [hhtml, hstatic]
          rfl
        rw [hfolds hfold]

/-- The node is lowered as the other one is, as content and for each slot. -/
structure Replaces (env : Env) (n' n : Node) : Prop where
  slot? : n'.slot? = n.slot?
  lower : lower env n' = lower env n
  inputs : ∀ slot, inputs env slot n' = inputs env slot n

theorem Replaces.refl (env : Env) (n : Node) : Replaces env n n := ⟨rfl, rfl, fun _ => rfl⟩

/-- Attribute tags without an input are lowered to nothing, whatever they are made of. -/
theorem replaces_owned (env : Env) :
    (∀ n around, (n.owned env.view around = [] ∧ n.slot?.isSome = true ∧ env.view.takesIn around = false) ∨
      ∃ n', n.owned env.view around = [n'] ∧ Replaces env n' n) ∧
    ∀ ns around, lowerAll env (Node.ownedIn env.view around ns) = lowerAll env ns ∧
      (env.view.takesIn around = true →
        (Node.ownedIn env.view around ns).map Node.slot? = ns.map Node.slot? ∧
        ∀ slot, inputsAll env slot (Node.ownedIn env.view around ns) = inputsAll env slot ns) := by
  apply Node.induct
  case leaf => exact fun m l around => .inr ⟨_, rfl, .refl env _⟩
  case tag =>
    intro m t children ih around
    rw [Node.owned]
    split
    · rename_i hnone
      rw [Bool.and_eq_true, Bool.not_eq_true'] at hnone
      exact .inl ⟨rfl, hnone.1, (View.hasInput_of_slot? hnone.1).symm.trans hnone.2⟩
    · rename_i hsome
      split
      · exact .inr ⟨_, rfl, .refl env _⟩
      · rename_i hfolds
        obtain ⟨hcontent, htakes⟩ := ih (t :: around)
        rw [env.view.takesIn_cons] at htakes
        -- with an input of the tag, its own attribute tags keep theirs as well, so that none was left out
        have hinner (h : env.view.hasInput ⟨t, around⟩ = true) :
            Inner.mk (lowerAll env (Node.ownedIn env.view (t :: around) children))
                (fun slot => inputsAll env slot (Node.ownedIn env.view (t :: around) children)) =
              ⟨lowerAll env children, fun slot => inputsAll env slot children⟩ :=
          congrArg₂ Inner.mk hcontent (funext (htakes h).2)
        refine .inr ⟨_, rfl, rfl, ?_, fun slot => ?_⟩
        · refine lowerTag_congr m t hcontent (fun hcalled => ?_) fun h => absurd h hfolds
          have hinput : env.view.hasInput ⟨t, around⟩ = true := by
            rw [View.hasInput_of_slot?_eq_none (v := env.view)]
            · exact hcalled
            · refine View.slot?_eq_none_of_kindOf (v := env.view) fun hkind => ?_
              have hkind' : env.kindOf t = .slot := hkind
              rw [hkind'] at hcalled
              cases hcalled
          exact ⟨hinner hinput, (htakes hinput).1⟩
        · rw [inputs, inputs]
          split
          · rename_i hslot
            have hinput : env.view.hasInput ⟨t, around⟩ = true := by
              -- else the tag would have been left out itself
              by_contra hnot
              rw [eq_of_beq hslot] at hsome
              exact hsome (by simp [hnot])
            rw [hinner hinput, lowerInput_congr (htakes hinput).1]
          · rfl
  case nil => exact fun around => ⟨rfl, fun _ => ⟨rfl, fun _ => rfl⟩⟩
  case cons =>
    intro n ns ihn ihns around
    obtain ⟨hall, htakes⟩ := ihns around
    rw [Node.ownedIn]
    rcases ihn around with ⟨hnil, hslot, hnone⟩ | ⟨n', hn', hreplaces⟩
    · rw [hnil, List.nil_append, hall, lowerAll_cons_of_lower (lower_of_slot? hslot)]
      refine ⟨rfl, fun h => ?_⟩
      rw [hnone] at h
      cases h
    · rw [hn', List.singleton_append]
      refine ⟨?_, fun h => ⟨?_, fun slot => ?_⟩⟩
      · rw [lowerAll, lowerAll, hreplaces.lower, hall]
      · rw [List.map_cons, List.map_cons, hreplaces.slot?, (htakes h).1]
      · rw [inputsAll, inputsAll, hreplaces.inputs, (htakes h).2]

end

/-! ## What an input is built of -/

/-- The nodes are lowered to the operations. -/
def IsLoweredTo (env : Env) (ns : List Node) (ops : List LoweredOp) : Prop :=
  ∃ s t, outcome (lowerAll env ns) s = (.ok ops, t)

/-- The children that are no attribute tags. -/
def contentOf (children : List Node) : List Node := children.filter fun n => !n.slot?.isSome

/-- The attribute tags for a slot. -/
def tagsFor (slot : String) (children : List Node) : List Node :=
  children.filter fun n => n.slot? == some slot

/-- The operations put content into an object: none if there are no nodes, else a function that renders them. -/
inductive BuildsBody (env : Env) (object : String) (params : List String) :
    List Node → List LoweredOp → Prop where
  | none : BuildsBody env object params [] []
  | function {content : List Node} {body : List LoweredOp} (hcontent : content ≠ [])
    (hbody : IsLoweredTo env content body) :
    BuildsBody env object params content [.block (.renderBody object params) body]

mutual

/-- The operations build the input of a tag under a name: an object with the attributes, into which the
slots are put one by one, and the content behind them. -/
inductive BuildsInput (env : Env) : Tag → List Node → String → List LoweredOp → Prop where
  | object {t : Tag} {children : List Node} {name : String} {slots body : List LoweredOp}
    (hslots : BuildsSlots env name children (slotNames children) slots)
    (hbody : BuildsBody env name t.params (contentOf children) body) :
    BuildsInput env t children name (.code (.declareInput name t.attributes) :: (slots ++ body))

/-- The operations put slots into an object, each behind the inputs of its attribute tags. -/
inductive BuildsSlots (env : Env) : String → List Node → List String → List LoweredOp → Prop where
  | nil {object : String} {children : List Node} : BuildsSlots env object children [] []
  | cons {object slot : String} {children : List Node} {rest values : List String}
    {ops more : List LoweredOp} (hinputs : BuildsInputs env (tagsFor slot children) values ops)
    (hrest : BuildsSlots env object children rest more) :
    BuildsSlots env object children (slot :: rest) (ops ++ .code (.assignSlot object slot values) :: more)

/-- The operations build the inputs of tags under names, one behind the other. -/
inductive BuildsInputs (env : Env) : List Node → List String → List LoweredOp → Prop where
  | nil : BuildsInputs env [] [] []
  | cons {m : Marks} {t : Tag} {children ns : List Node} {name : String} {names : List String}
    {ops more : List LoweredOp} (hinput : BuildsInput env t children name ops)
    (hrest : BuildsInputs env ns names more) :
    BuildsInputs env (.tag m t children :: ns) (name :: names) (ops ++ more)

end

/-- The input that a statement hands over to what it calls. -/
def Statement.handedInput? : Statement → Option String
  | .callMacro _ input | .renderTag _ _ input _ | .renderDynamicTag _ _ input _ => some input
  | _ => none

/-- The operations build the input of a tag, and call what stands for the tag with it. -/
def BuildsCall (env : Env) (t : Tag) (children : List Node) (ops : List LoweredOp) : Prop :=
  ∃ name input call, BuildsInput env t children name input ∧ call.handedInput? = some name ∧
    ops = input ++ [.code call]

section

variable {env : Env} {t : Tag} {children : List Node}

-- Attribute tags are no content.
theorem lowerAll_contentOf (children : List Node) :
    lowerAll env (contentOf children) = lowerAll env children := by
  induction children with
  | nil => rfl
  | cons n ns ih =>
    by_cases hslot : n.slot?.isSome = true
    · have hskip : contentOf (n :: ns) = contentOf ns := List.filter_cons_of_neg (by simp [hslot])
      rw [hskip, ih, lowerAll_cons_of_lower (lower_of_slot? hslot)]
    · have hkeep : contentOf (n :: ns) = n :: contentOf ns := List.filter_cons_of_pos (by simpa using hslot)
      rw [hkeep, lowerAll, lowerAll, ih]

theorem contentOf_eq_nil_iff : contentOf children = [] ↔ children.all (·.slot?.isSome) = true := by
  simp [contentOf, List.filter_eq_nil_iff, Option.isSome_iff_ne_none]

theorem yields_buildsBody (object : String) (params : List String) {inner : Inner}
    (hinner : inner.content = lowerAll env children) :
    Yields (BuildsBody env object params (contentOf children))
      (lowerBody object params children inner) := by
  unfold lowerBody
  split
  · rename_i hall
    rw [contentOf_eq_nil_iff.mpr hall]
    exact yields_pure .none
  · rename_i hall
    have hbody : Yields (IsLoweredTo env (contentOf children)) inner.content := by
      intro s body u hrun
      rw [hinner, ← lowerAll_contentOf] at hrun
      exact ⟨s, u, hrun⟩
    exact yields_bind hbody fun body hbody =>
      yields_pure (.function (fun hnil => hall (contentOf_eq_nil_iff.mp hnil)) hbody)

theorem BuildsInputs.append {xs ys : List Node} {names more : List String} {ops moreOps : List LoweredOp}
    (h : BuildsInputs env xs names ops) (hmore : BuildsInputs env ys more moreOps) :
    BuildsInputs env (xs ++ ys) (names ++ more) (ops ++ moreOps) := by
  induction xs generalizing names ops with
  | nil =>
    cases h
    exact hmore
  | cons x xs ih =>
    cases h with
    | cons hinput hrest =>
      rw [List.append_assoc]
      exact .cons hinput (ih hrest)

/-- The attribute tags of each slot are lowered to their inputs. -/
def Inner.BuildsFor (inner : Inner) (env : Env) (children : List Node) : Prop :=
  ∀ slot, Yields (fun r => BuildsInputs env (tagsFor slot children) r.1 r.2) (inner.inputs slot)

theorem yields_buildsSlots {inner : Inner} (hinner : inner.BuildsFor env children) (object : String)
    (slots : List String) :
    Yields (BuildsSlots env object children slots) (lowerSlots object inner slots) := by
  induction slots with
  | nil => exact yields_pure .nil
  | cons slot rest ih =>
    exact yields_bind (hinner slot) fun r hr => yields_bind ih fun more hmore => yields_pure (.cons hr hmore)

theorem yields_buildsInput {inner : Inner} (hinner : inner.BuildsFor env children)
    (hcontent : inner.content = lowerAll env children) (location : Location) (t : Tag) (hint : String) :
    Yields (fun r => BuildsInput env t children r.1 r.2) (lowerInput env location t hint children inner) := by
  refine yields_bind_any fun name => yields_bind_any fun _ => ?_
  refine yields_bind (yields_buildsSlots hinner name _) fun slots hslots => ?_
  exact yields_bind (yields_buildsBody name t.params hcontent) fun body hbody =>
    yields_pure (.object hslots hbody)

variable (env) in
/-- Attribute tags are lowered to their inputs, at all depths. -/
theorem yields_buildsInputs :
    (∀ n : Node, ∀ slot, Yields (fun r => BuildsInputs env (tagsFor slot [n]) r.1 r.2) (inputs env slot n)) ∧
    ∀ ns : List Node, Inner.BuildsFor ⟨lowerAll env ns, fun slot => inputsAll env slot ns⟩ env ns := by
  apply Node.induct
  case leaf => exact fun m l slot => yields_pure .nil
  case tag =>
    intro m t children ih slot
    rw [inputs]
    split
    · rename_i hslot
      have htags : tagsFor slot [.tag m t children] = [.tag m t children] :=
        List.filter_cons_of_pos hslot
      rw [htags]
      refine yields_bind (yields_buildsInput ih rfl _ t slot) fun r hr => yields_pure ?_
      have hone := BuildsInputs.cons (m := m) hr .nil
      rwa [List.append_nil] at hone
    · rename_i hslot
      have htags : tagsFor slot [.tag m t children] = [] := List.filter_cons_of_neg hslot
      rw [htags]
      exact yields_pure .nil
  case nil => exact fun slot => yields_pure .nil
  case cons =>
    intro n ns ihn ihns slot
    refine yields_bind (ihn slot) fun r hr => yields_bind (ihns slot) fun q hq => yields_pure ?_
    have htags : tagsFor slot (n :: ns) = tagsFor slot [n] ++ tagsFor slot ns :=
      List.filter_append [n] ns
    rw [htags]
    exact hr.append hq

/-- A tag that is called is lowered to its input, and a call with it. -/
theorem yields_buildsCall (m : Marks) (hcalled : (env.kindOf t).isCalled = true) :
    Yields (BuildsCall env t children) (lower env (.tag m t children)) := by
  have hinput (hint : String) := yields_buildsInput ((yields_buildsInputs env).2 children) rfl m.location t hint
  rw [lower, lowerTag]
  cases hkind : env.kindOf t with
  | dynamic target =>
    refine yields_bind_any fun _ => yields_bind (hinput _) fun r hr => ?_
    exact yields_bind_any fun helper => yields_bind_any fun key => yields_pure ⟨r.1, r.2, _, hr, rfl, rfl⟩
  | macroCall name =>
    refine yields_bind_any fun function => yields_bind (hinput name) fun r hr => ?_
    exact yields_pure ⟨r.1, r.2, _, hr, rfl, rfl⟩
  | custom name request =>
    refine yields_bind_any fun _ => yields_bind_any fun template => yields_bind (hinput name) fun r hr => ?_
    exact yields_bind_any fun helper => yields_bind_any fun key => yields_pure ⟨r.1, r.2, _, hr, rfl, rfl⟩
  | _ =>
    rw [hkind] at hcalled
    cases hcalled

/-- In the operations of nodes, each tag among them that is called has its input built and handed over. -/
theorem IsLoweredIn.exists_buildsCall {ns : List Node} {ops : List LoweredOp} (h : IsLoweredIn env ns ops)
    {m : Marks} (hmem : .tag m t children ∈ ns) (hcalled : (env.kindOf t).isCalled = true) :
    ∃ run, BuildsCall env t children run ∧ Op.Within run ops := by
  obtain ⟨s, all, u, hrun, hwithin⟩ := h
  obtain ⟨before, after, rfl⟩ := List.append_of_mem hmem
  obtain ⟨front, v, rest, -, hrest, rfl⟩ := exists_of_lowerAll_append hrun
  obtain ⟨run, v', hone, hrest⟩ := outcome_bind_eq_ok.mp hrest
  obtain ⟨behind, u', -, hrest⟩ := outcome_bind_eq_ok.mp hrest
  obtain ⟨rfl, rfl⟩ := outcome_pure_eq_ok.mp hrest
  refine ⟨run, yields_buildsCall m hcalled v run v' hone, .trans ?_ hwithin⟩
  rw [← List.append_assoc]
  exact .here front behind

end

end TemplateCompiler.Render
