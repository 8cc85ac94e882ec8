import TemplateCompiler.Compilation
import TemplateCompiler.Proofs.Lowering.Inputs
import TemplateCompiler.Proofs.Render.Batching

/-!
# Declared inputs

Which inputs are declared when nodes are lowered: one for each tag with an input that lowering gets to, under
a name of its own (`declares_of_lowerAll`). To follow that through a run, each step is said to introduce
inputs for tags, behind those that are known already (`Introduces`). With what inputs are built of, that
accounts for all attribute tags (`inputs_of_lowerAll`).
-/

namespace TemplateCompiler.Render

/-! ## Declarations -/

/-- An input object: its name, and the attributes that it is declared with. -/
structure DeclaredInput where
  name : String
  attributes : List Attribute
deriving DecidableEq, Repr

/-- The input that a statement declares. -/
def Statement.declared : Statement → List DeclaredInput
  | .declareInput name attributes => [⟨name, attributes⟩]
  | _ => []

/-- The inputs that are declared in operations, at all depths. -/
def Op.inputsOf (ops : List LoweredOp) : List DeclaredInput :=
  Op.collectOf Statement.declared (fun _ => []) ops

theorem inputsOf_append (a b : List LoweredOp) : Op.inputsOf (a ++ b) = Op.inputsOf a ++ Op.inputsOf b :=
  Op.collectOf_append _ _ a b

theorem inputsOf_cons (op : LoweredOp) (ops : List LoweredOp) :
    Op.inputsOf (op :: ops) = Op.inputsOf [op] ++ Op.inputsOf ops := inputsOf_append [op] ops

theorem inputsOf_block (scope : Scope) (body : List LoweredOp) :
    Op.inputsOf [.block scope body] = Op.inputsOf body := List.append_nil _

theorem inputsOf_concat {op : LoweredOp} (h : Op.inputsOf [op] = []) (ops : List LoweredOp) :
    Op.inputsOf (ops ++ [op]) = Op.inputsOf ops := by
  rw [inputsOf_append, h, List.append_nil]

/-- The input is one for the tag: it has its attributes, and a name that is made for it. -/
structure DeclaredInput.IsFor (v : View) (input : DeclaredInput) (o : Occurrence) : Prop where
  attributes : input.attributes = o.tag.attributes
  name : ∃ hint k, v.inputHint? o.tag = some hint ∧ input.name = Names.candidate (hint ++ "_input") k

/-! ## Names in use -/

/-- Names that are in use stay in use. -/
def KeepsNames (s t : State) : Prop := s.names.used ⊆ t.names.used

theorem keepsNames_reserve (names : Names) (name : String) : names.used ⊆ (names.reserve name).used :=
  List.subset_cons_self name names.used

theorem isKept_keepsNames : IsKept KeepsNames := by
  have hrefl (s : State) : KeepsNames s s := List.Subset.refl _
  refine ⟨⟨⟨hrefl, fun s t u hst htu => List.Subset.trans hst htu, fun hint s => keepsNames_reserve _ _,
    fun source binding hint s => ?_, fun _ => hrefl⟩, hrefl⟩, fun name s => ?_, fun _ => hrefl⟩
  · show s.names.used ⊆ (s.imports.request s.names source binding hint).2.2.used
    unfold Imports.request
    split
    · exact hrefl s
    · exact keepsNames_reserve _ _
  · rw [outcome_macroFunction]
    cases s.macroNames.lookup name with
    | some function => exact hrefl s
    | none => exact keepsNames_reserve _ _

/-- The inputs belong to the tags, each to another one, and have different names that were not in use before. -/
structure Declares (v : View) (tags : List Occurrence) (s : State) (inputs : List DeclaredInput) (t : State) :
    Prop where
  keeps : KeepsNames s t
  nodup : (inputs.map (·.name)).Nodup
  fresh : ∀ input ∈ inputs, input.name ∉ s.names.used ∧ input.name ∈ t.names.used
  matched : ∃ os, os.Perm tags ∧ List.Forall₂ (DeclaredInput.IsFor v) inputs os

namespace Declares

variable {v : View} {T U : List Occurrence} {s t u : State} {a b : List DeclaredInput}

theorem nil (h : KeepsNames s t) : Declares v [] s [] t :=
  ⟨h, List.nodup_nil, fun _ h => (List.not_mem_nil h).elim, [], .nil, .nil⟩

theorem append (h : Declares v T s a t) (h' : Declares v U t b u) : Declares v (T ++ U) s (a ++ b) u := by
  obtain ⟨os, hos, hmatched⟩ := h.matched
  obtain ⟨os', hos', hmatched'⟩ := h'.matched
  refine ⟨List.Subset.trans h.keeps h'.keeps, ?_, ?_, os ++ os', hos.append hos', ?_⟩
  · -- what is declared first is in use when the rest is declared
    rw [List.map_append, List.nodup_append]
    refine ⟨h.nodup, h'.nodup, fun x hx y hy heq => ?_⟩
    obtain ⟨input, hinput, rfl⟩ := List.mem_map.mp hx
    obtain ⟨input', hinput', rfl⟩ := List.mem_map.mp hy
    exact (h'.fresh input' hinput').1 (heq ▸ (h.fresh input hinput).2)
  · intro input hinput
    rcases List.mem_append.mp hinput with hinput | hinput
    · exact ⟨(h.fresh input hinput).1, h'.keeps (h.fresh input hinput).2⟩
    · exact ⟨fun hs => (h'.fresh input hinput).1 (h.keeps hs), (h'.fresh input hinput).2⟩
  · exact List.rel_append hmatched hmatched'

theorem perm (h : Declares v T s a t) (hTU : T.Perm U) : Declares v U s a t := by
  obtain ⟨os, hos, hmatched⟩ := h.matched
  exact ⟨h.keeps, h.nodup, h.fresh, os, hos.trans hTU, hmatched⟩

end Declares

/-! ## Steps -/

/-- Each run that succeeds has inputs for the tags behind those that are known. -/
def Introduces {α : Type} (v : View) (tags : List Occurrence) (known : List DeclaredInput)
    (inputsOf : α → List DeclaredInput) (x : Lower α) : Prop :=
  ∀ s a t, outcome x s = (.ok a, t) → ∃ new, inputsOf a = known ++ new ∧ Declares v tags s new t

section

variable {α β : Type} {v : View} {T U : List Occurrence} {known : List DeclaredInput}
  {f : α → List DeclaredInput} {g : β → List DeclaredInput} {x : Lower α} {k : α → Lower β}

theorem introduces_pure {a : α} (h : f a = known) : Introduces v [] known f (pure a) := by
  intro s b t hrun
  obtain ⟨rfl, rfl⟩ := outcome_pure_eq_ok.mp hrun
  exact ⟨[], h.trans (List.append_nil known).symm, .nil (isKept_keepsNames.refl s)⟩

theorem introduces_bind (hx : Introduces v T [] f x)
    (hk : ∀ a, Introduces v U (known ++ f a) g (k a)) : Introduces v (T ++ U) known g (x >>= k) := by
  intro s b u hrun
  obtain ⟨a, t, hx', hk'⟩ := outcome_bind_eq_ok.mp hrun
  obtain ⟨new, hnew, hdeclares⟩ := hx s a t hx'
  obtain ⟨more, hmore, hdeclares'⟩ := hk a t b u hk'
  refine ⟨new ++ more, ?_, hdeclares.append hdeclares'⟩
  rw [hmore, hnew, List.nil_append, List.append_assoc]

-- A step that introduces nothing only has to keep the names in use.
theorem introduces_skip (hx : Moves KeepsNames x) (hk : ∀ a, Introduces v T known g (k a)) :
    Introduces v T known g (x >>= k) := by
  intro s b u hrun
  obtain ⟨a, t, hx', hk'⟩ := outcome_bind_eq_ok.mp hrun
  obtain ⟨new, hnew, hdeclares⟩ := hk a t b u hk'
  exact ⟨new, hnew, (Declares.nil (hx.rel hx')).append hdeclares⟩

theorem introduces_of_moves (hx : Moves KeepsNames x) (hnone : Yields (fun a => f a = []) x) :
    Introduces v [] [] f x :=
  fun s a t hrun => ⟨[], hnone s a t hrun, .nil (hx.rel hrun)⟩

theorem Introduces.perm (h : Introduces v T known f x) (hTU : T.Perm U) : Introduces v U known f x := by
  intro s a t hrun
  obtain ⟨new, hnew, hdeclares⟩ := h s a t hrun
  exact ⟨new, hnew, hdeclares.perm hTU⟩

-- Behind the last inputs nothing more is introduced.
theorem introduces_last (hx : Introduces v T [] f x) (hk : ∀ a, Introduces v [] (known ++ f a) g (k a)) :
    Introduces v T known g (x >>= k) := by
  rw [← List.append_nil T]
  exact introduces_bind hx hk

theorem introduces_map (hx : Introduces v T [] f x) {h : α → β} (hmap : ∀ a, g (h a) = f a) :
    Introduces v T [] g (x >>= fun a => pure (h a)) :=
  introduces_last hx fun a => introduces_pure (hmap a)

/-- A generated name makes an input for a tag. -/
theorem introduces_generateName {o : Occurrence} {hint : String} (hhint : v.inputHint? o.tag = some hint) :
    Introduces v [o] [] (fun name => [⟨name, o.tag.attributes⟩]) (generateName (hint ++ "_input")) := by
  rintro s name t ⟨⟩
  obtain ⟨k, hk, -⟩ := Names.exists_fresh_eq s.names (hint ++ "_input")
  refine ⟨_, rfl, keepsNames_reserve _ _, List.nodup_singleton _, fun input hinput => ?_, [o], .refl _, ?_⟩
  · rw [List.mem_singleton.mp hinput]
    exact ⟨Names.fresh_not_mem _ _, (Names.mem_reserve _ _ _).mpr (.inl rfl)⟩
  · exact .cons ⟨rfl, hint, k, hhint, hk⟩ .nil

end

/-! ## Parts of lowering -/

/-- Content has inputs for the tags in it, and slots have those for their attribute tags, if these have any. -/
structure Inner.IntroducesFor (inner : Inner) (v : View) (around : List Tag) (children : List Node) : Prop where
  content : Introduces v (children.flatMap (·.withInputAsContent v around)) [] Op.inputsOf inner.content
  inputs : v.takesIn around = true → ∀ slot,
    Introduces v (children.flatMap (·.withInputFor v around slot)) [] (fun r => Op.inputsOf r.2)
      (inner.inputs slot)

section

variable {env : Env} {around : List Tag} {children : List Node} {inner : Inner} {t : Tag}

theorem introduces_lowerSlots (hinner : inner.IntroducesFor env.view around children)
    (htakes : env.view.takesIn around = true) (object : String) (slots : List String) :
    Introduces env.view (slots.flatMap fun slot => children.flatMap (·.withInputFor env.view around slot)) []
      Op.inputsOf (lowerSlots object inner slots) := by
  induction slots with
  | nil => exact introduces_pure rfl
  | cons slot rest ih =>
    rw [List.flatMap_cons]
    refine introduces_bind (hinner.inputs htakes slot) fun r => ?_
    refine introduces_last ih fun more => introduces_pure ?_
    rw [inputsOf_append, inputsOf_cons]
    rfl

theorem introduces_lowerBody (hinner : inner.IntroducesFor env.view around children) (object : String)
    (params : List String) :
    Introduces env.view (children.flatMap (·.withInputAsContent env.view around)) [] Op.inputsOf
      (lowerBody object params children inner) := by
  unfold lowerBody
  split
  · rename_i hall
    have hnone : children.flatMap (·.withInputAsContent env.view around) = [] := by
      rw [List.flatMap_eq_nil_iff]
      intro n hn
      exact if_pos (List.all_eq_true.mp hall n hn)
    rw [hnone]
    exact introduces_pure rfl
  · exact introduces_map hinner.content fun body => inputsOf_block _ body

/-- The input of a tag comes with those of the tags inside of it. -/
theorem introduces_lowerInput (hinner : inner.IntroducesFor env.view (t :: around) children)
    (htakes : env.view.hasInput ⟨t, around⟩ = true) {hint : String}
    (hhint : env.view.inputHint? t = some hint) (location : Location) :
    Introduces env.view (⟨t, around⟩ :: Node.withInputIn env.view (t :: around) children) []
      (fun r => Op.inputsOf r.2) (lowerInput env location t hint children inner) := by
  rw [← env.view.takesIn_cons] at htakes
  have hkept := isKept_keepsNames
  have hinside := Node.perm_withInputIn env.view (t :: around) children
  refine Introduces.perm ?_ (hinside.cons ⟨t, around⟩)
  refine introduces_bind (introduces_generateName (o := ⟨t, around⟩) hhint) fun name => ?_
  refine introduces_skip (hkept.checkExpression env _ _) fun _ => ?_
  refine introduces_bind (introduces_lowerSlots hinner htakes name _) fun slots => ?_
  refine introduces_last (introduces_lowerBody hinner name t.params) fun body => introduces_pure ?_
  rw [inputsOf_cons, inputsOf_append]
  exact List.append_assoc _ _ _ |>.symm

theorem introduces_lowerAttributes (v : View) (location : Location) (attributes : List Attribute) :
    Introduces v [] [] Op.inputsOf (lowerAttributes env location attributes) := by
  refine introduces_of_moves (moves_lowerAttributes isKept_keepsNames.toIsQuiet _ _) ?_
  induction attributes with
  | nil => exact yields_pure rfl
  | cons a rest ih =>
    have hone : Yields (fun ops => Op.inputsOf ops = []) (lowerAttribute env location a) := by
      unfold lowerAttribute
      split
      · refine yields_pure ?_
        split <;> rfl
      · exact yields_bind_any fun _ => yields_bind_any fun helper => yields_pure rfl
    refine yields_bind hone fun ops hops => yields_bind ih fun more hmore => yields_pure ?_
    rw [inputsOf_append, hops, hmore]
    rfl

theorem introduces_lowerLeaf (htext : env.text = standardText env.options) (v : View) (m : Marks)
    (l : Leaf) : Introduces v [] [] Op.inputsOf (lowerLeaf env m l) := by
  have hkept := isKept_keepsNames
  refine introduces_of_moves (moves_lowerLeaf hkept (moves_text hkept.toIsQuiet.toIsNaming htext m) l) ?_
  refine yields_collectOf_lowerLeaf htext (fun statement h => ?_) (fun _ _ => rfl) m
  cases statement <;> first | rfl | cases h

-- What a native element is opened for is its content.
theorem introduces_lowerNative (hinner : inner.IntroducesFor env.view (t :: around) children) (m : Marks)
    (name : String) :
    Introduces env.view
      (if env.isHtml && (m.isStatic || isVoidElement name) then []
        else children.flatMap (·.withInputAsContent env.view (t :: around))) []
      Op.inputsOf (lowerNative env m t name children inner) := by
  have hkept := isKept_keepsNames
  unfold lowerNative
  cases env.isHtml with
  | false =>
    rw [Bool.not_false, if_pos rfl, lowerTreeElement_eq]
    refine introduces_skip (hkept.checkAttributes env _ t) fun _ => introduces_skip hkept.takeKey fun key => ?_
    exact introduces_map hinner.content fun content => inputsOf_concat rfl content
  | true =>
    rw [Bool.not_true, if_neg Bool.false_ne_true]
    cases m.isStatic with
    | true => exact introduces_pure rfl
    | false =>
      rw [if_neg Bool.false_ne_true, Bool.true_and, Bool.false_or]
      have hstart (attributes : List LoweredOp) : Op.inputsOf (.write ("<" ++ name) ::
          (attributes ++ [.write ">"])) = Op.inputsOf attributes := by
        rw [inputsOf_cons, inputsOf_concat rfl]
        rfl
      unfold lowerElement
      rw [← List.nil_append (ite _ _ _)]
      refine introduces_bind (introduces_lowerAttributes env.view _ _) fun attributes => ?_
      split
      · exact introduces_pure (hstart attributes)
      · refine introduces_last hinner.content fun content => introduces_pure ?_
        rw [inputsOf_concat rfl, inputsOf_append, hstart]
        rfl

/-- A tag that is no attribute tag comes with the inputs of itself and of the tags inside of it. -/
theorem introduces_lowerTag (hinner : inner.IntroducesFor env.view (t :: around) children)
    (hslot : t.slot? = none) (m : Marks) :
    Introduces env.view ((Node.tag m t children).withInput env.view around) [] Op.inputsOf
      (lowerTag env m t children inner) := by
  have hkept := isKept_keepsNames
  have hview : env.view.kindOf t = env.kindOf t := rfl
  have hcalled : env.view.hasInput ⟨t, around⟩ = (env.kindOf t).isCalled :=
    View.hasInput_of_slot?_eq_none hslot
  -- where attribute tags have no input, only content is lowered
  have hcontent (hnone : env.view.hasInput ⟨t, around⟩ = false) :
      Introduces env.view (Node.withInputIn env.view (t :: around) children) [] Op.inputsOf inner.content := by
    rw [Node.withInputIn_of_takesIn_eq_false ((env.view.takesIn_cons t around).trans hnone)]
    exact hinner.content
  have hinput {hint : String} (hkind : (env.kindOf t).isCalled = true)
      (hhint : (env.kindOf t).inputHint? = some hint) := by
    have hnamed : env.view.inputHint? t = some hint := by
      rw [View.inputHint?, hslot]
      exact hhint
    exact introduces_lowerInput hinner (hcalled.trans hkind) hnamed m.location
  rw [Node.withInput_tag, View.opens, View.folds, View.enter, hcalled, hview]
  unfold lowerTag
  have hblock (hnone : env.view.hasInput ⟨t, around⟩ = false) (scope : Scope) :=
    introduces_map (hcontent hnone) fun body => inputsOf_block scope body
  cases hkind : env.kindOf t with
  | dynamic target =>
    refine introduces_skip (hkept.checkExpression env _ _) fun _ => ?_
    refine introduces_last (hinput (by rw [hkind]; rfl) (by rw [hkind]; rfl)) fun r => ?_
    refine introduces_skip (hkept.importName _ _ _) fun helper => introduces_skip hkept.takeKey fun key => ?_
    exact introduces_pure (inputsOf_concat rfl _)
  | slot =>
    have hsome := (kindOf_eq_slot_iff env t).mp hkind
    rw [hslot] at hsome
    cases hsome
  | ifTrue | elseIfTrue =>
    exact introduces_skip (hkept.checkExpression env _ _) fun _ => hblock (by rw [hcalled, hkind]; rfl) _
  | otherwise => exact hblock (by rw [hcalled, hkind]; rfl) _
  | loop =>
    refine introduces_skip (moves_loopScope hkept.toIsQuiet.toIsNaming _ _) fun scope => ?_
    cases scope with
    | some scope => exact hblock (by rw [hcalled, hkind]; rfl) scope
    | none => exact introduces_map (hcontent (by rw [hcalled, hkind]; rfl)) fun body => rfl
  | macroDefinition =>
    show Introduces _ _ _ _ (lowerMacroDefinition t inner)
    unfold lowerMacroDefinition
    cases t.macroName? with
    | some name =>
      exact introduces_skip (hkept.macroFunction _) fun function => hblock (by rw [hcalled, hkind]; rfl) _
    | none => exact introduces_pure rfl
  | macroCall name =>
    refine introduces_skip (hkept.macroFunction _) fun function => ?_
    exact introduces_map (hinput (by rw [hkind]; rfl) (by rw [hkind]; rfl)) fun r =>
      inputsOf_concat rfl _
  | native name =>
    have hnative := introduces_lowerNative hinner m name
    rw [← Node.withInputIn_of_takesIn_eq_false ((env.view.takesIn_cons t around).trans
      (by rw [hcalled, hkind]; rfl))] at hnative
    have hhtml : env.view.isHtml = env.isHtml := rfl
    have hopens : (!(env.isHtml && m.isStatic) &&
        (if env.isHtml && isVoidElement name then none else some false).isSome) =
        !(env.isHtml && (m.isStatic || isVoidElement name)) := by
      cases env.isHtml <;> cases m.isStatic <;> cases isVoidElement name <;> rfl
    dsimp only
    rw [hhtml, hopens]
    cases hwritten : env.isHtml && (m.isStatic || isVoidElement name) with
    | true =>
      rw [hwritten] at hnative
      exact hnative
    | false =>
      rw [hwritten] at hnative
      exact hnative
  | custom name request =>
    refine introduces_skip (hkept.useTag _) fun _ => introduces_skip (hkept.importName _ _ _) fun template => ?_
    refine introduces_last (hinput (by rw [hkind]; rfl) (by rw [hkind]; rfl)) fun r => ?_
    refine introduces_skip (hkept.importName _ _ _) fun helper => introduces_skip hkept.takeKey fun key => ?_
    exact introduces_pure (inputsOf_concat rfl _)

/-- Lowering introduces inputs for just the tags that have one, at all depths. -/
theorem introduces_lower (htext : env.text = standardText env.options) :
    (∀ (n : Node) around, Introduces env.view (n.withInputAsContent env.view around) [] Op.inputsOf (lower env n) ∧
      (env.view.takesIn around = true → ∀ slot, Introduces env.view (n.withInputFor env.view around slot) []
        (fun r => Op.inputsOf r.2) (inputs env slot n))) ∧
    ∀ ns around, Inner.IntroducesFor ⟨lowerAll env ns, fun slot => inputsAll env slot ns⟩ env.view around ns := by
  apply Node.induct
  case leaf =>
    exact fun m l around => ⟨introduces_lowerLeaf htext env.view m l, fun _ slot => introduces_pure rfl⟩
  case tag =>
    intro m t children ih around
    have hinner := ih (t :: around)
    constructor
    · cases hslot : t.slot? with
      | none =>
        have htag : (Node.tag m t children).slot? = none := hslot
        rw [Node.withInputAsContent, htag]
        exact introduces_lowerTag hinner hslot m
      | some slot =>
        have hsome : (Node.tag m t children).slot?.isSome = true := congrArg Option.isSome hslot
        rw [Node.withInputAsContent, if_pos hsome, lower_of_slot? hsome]
        exact introduces_pure rfl
    · intro htakes slot
      rw [inputs, Node.withInputFor]
      by_cases hslot : t.slot? = some slot
      · have hsome : t.slot?.isSome = true := congrArg Option.isSome hslot
        have hinput : env.view.hasInput ⟨t, around⟩ = true := (View.hasInput_of_slot? hsome).trans htakes
        have hkind : env.view.kindOf t = .slot := (env.view.kindOf_eq_slot_iff t).mpr hsome
        have hopens : env.view.opens m ⟨t, around⟩ = true := by
          rw [View.opens, View.folds, View.enter, hinput, hkind]
          rfl
        have htag : (Node.tag m t children).slot? = some slot := hslot
        rw [if_pos (beq_iff_eq.mpr hslot), if_pos htag, Node.withInput_tag, hinput, hopens]
        have hhint : env.view.inputHint? t = some slot := by
          rw [View.inputHint?, hslot]
          rfl
        exact introduces_map (introduces_lowerInput hinner hinput hhint m.location) fun r => rfl
      · have htag : ¬(Node.tag m t children).slot? = some slot := hslot
        rw [if_neg htag, if_neg (mt beq_iff_eq.mp hslot)]
        exact introduces_pure rfl
  case nil => exact fun around => ⟨introduces_pure rfl, fun _ slot => introduces_pure rfl⟩
  case cons =>
    intro n ns ihn ihns around
    refine ⟨?_, fun htakes slot => ?_⟩
    · rw [List.flatMap_cons]
      refine introduces_bind (ihn around).1 fun ops => introduces_last (ihns around).content fun more => ?_
      exact introduces_pure (inputsOf_append _ _)
    · rw [List.flatMap_cons]
      refine introduces_bind ((ihn around).2 htakes slot) fun r => ?_
      refine introduces_last ((ihns around).inputs htakes slot) fun q => ?_
      exact introduces_pure (inputsOf_append _ _)

/-- What nodes are lowered to declares one input for each tag that has one. -/
theorem declares_of_lowerAll (htext : env.text = standardText env.options) {ns : List Node} {s u : State}
    {ops : List LoweredOp} (hrun : outcome (lowerAll env ns) s = (.ok ops, u)) :
    Declares env.view (Node.withInputIn env.view [] ns) s (Op.inputsOf ops) u := by
  obtain ⟨new, hnew, hdeclares⟩ := ((introduces_lower htext).2 ns []).content s ops u hrun
  rw [hnew, List.nil_append, Node.withInputIn_of_takesIn_eq_false rfl]
  exact hdeclares

/-! ## Nothing is lost -/

/-- Each tag that is called has its input built from its attributes, its attribute tags and its content, and is
called with it. There is one input for each tag that is called or whose owner is, among those that lowering
gets to. Other attribute tags leave nothing at all, apart from those in elements that are marked as
constant, and there are none if marks are as they should be. -/
theorem inputs_of_lowerAll (htext : env.text = standardText env.options) {ns : List Node} {s u : State}
    {ops : List LoweredOp} (hrun : outcome (lowerAll env ns) s = (.ok ops, u)) :
    (∀ x ∈ ⟨ns, false⟩ :: Node.siblingsIn env.view false false ns, x.isFolded = false →
      ∀ m t children, .tag m t children ∈ x.nodes → (env.kindOf t).isCalled = true →
        ∃ run, BuildsCall env t children run ∧ Op.Within run ops) ∧
    ((Op.inputsOf ops).map (·.name)).Nodup ∧
    (∃ os, os.Perm ((Node.reachedIn env.view [] ns).filter env.view.hasInput) ∧
      List.Forall₂ (DeclaredInput.IsFor env.view) (Op.inputsOf ops) os) ∧
    outcome (lowerAll env (Node.ownedIn env.view [] ns)) s = (.ok ops, u) ∧
    ∀ native, (∀ n ∈ ns, n.IsClassified native) →
      ∀ x ∈ Node.siblingsIn env.view false false ns, x.isFolded = true → ∀ n ∈ x.nodes, n.slot? = none := by
  have hdeclares := declares_of_lowerAll htext hrun
  refine ⟨fun x hx hfolded m t children hmem hcalled => ?_, hdeclares.nodup, hdeclares.matched, ?_, ?_⟩
  · have hplace : IsLoweredIn env x.nodes ops := by
      rcases List.mem_cons.mp hx with rfl | hx
      · exact ⟨s, ops, u, hrun, .refl ops⟩
      · exact ((yields_places env).2 ns).1 s ops u hrun x hx hfolded
    exact hplace.exists_buildsCall hmem hcalled
  · rw [((replaces_owned env).2 ns []).1]
    exact hrun
  · intro native hclassified x hx hfolded
    have hmarked := Node.areWellMarked_iff.mpr fun n hn => (hclassified n hn).isWellMarked
    exact Node.slot?_eq_none_of_isFolded hmarked hx hfolded

/-- A tag with two slots, one of them with two attribute tags and the other one with an attribute tag inside,
and with an element that has an attribute tag of its own. -/
theorem inputs_of_lowerAll_card :
    let registry : TagRegistry := .ofList [.ofTemplate "card" ⟨"/app/card.marko"⟩]
    let env := (Setting.standard {} registry).env ⟨"/app/page.marko"⟩ []
    let place : Marks := ⟨false, ⟨1, 1⟩⟩
    let named (name : String) (children : List Node) : Node :=
      .tag place ⟨.static name, [⟨"title", "input.title"⟩], none, []⟩ children
    let card : Tag := ⟨.static "card", [], none, ["item"]⟩
    let children := [named "@row" [], named "@head" [named "@icon" []], .leaf place (.text "plain"),
      named "@row" [], named "div" [named "@lost" []]]
    let start := State.start ⟨[]⟩ (.ofPath ⟨"/app/page.marko"⟩) .empty
    ∃ ops u, outcome (lowerAll env [.tag place card children]) start = (.ok ops, u) ∧
      (∃ run, BuildsCall env card children run ∧ Op.Within run ops) ∧
      ((Op.inputsOf ops).map (·.name)).Nodup ∧ (Op.inputsOf ops).length = 5 := by
  intro registry env place named card children start
  have hok : (outcome (lowerAll env [.tag place card children]) start).1.toOption.isSome = true := by
    decide +kernel
  obtain ⟨ops, hrun⟩ := exists_eq_ok_pair_of_isSome hok
  have htext : env.text = standardText env.options := rfl
  obtain ⟨hcalls, hnodup, ⟨os, hos, hmatched⟩, -, -⟩ := inputs_of_lowerAll htext hrun
  refine ⟨ops, _, hrun, ?_, hnodup, ?_⟩
  · have hcalled : (env.kindOf card).isCalled = true := by decide +kernel
    exact hcalls ⟨_, false⟩ List.mem_cons_self rfl place card children List.mem_cons_self hcalled
  · have hlength : ((Node.reachedIn env.view [] [.tag place card children]).filter
        env.view.hasInput).length = 5 := by
      decide +kernel
    rw [hmatched.length_eq, hos.length_eq, hlength]

/-- An element that is marked as constant by hand is written with the attribute tag in it, though the
element is not called. -/
theorem exists_attribute_tag_written :
    let env := (Setting.standard {} (TagRegistry.ofList [])).env ⟨"/app/page.marko"⟩ []
    let div : Tag := ⟨.static "div", [], none, []⟩
    let row : Tag := ⟨.static "@row", [], none, []⟩
    let page (children : List Node) : List Node := [.tag ⟨true, ⟨1, 1⟩⟩ div children]
    let lowered (ns : List Node) :=
      (outcome (lowerAll env ns) (.start ⟨[]⟩ (.ofPath ⟨"/app/page.marko"⟩) .empty)).1.toOption.map
          (textOps "_component")
    (Occurrence.mk row [div]).owner? = some div ∧ (env.kindOf div).isCalled = false ∧
    (lowered (page [.tag ⟨false, ⟨1, 6⟩⟩ row []])).map Op.eventsOf =
      some ("<div><@row></@row></div>".toList.map .char) ∧
    (lowered (page [])).map Op.eventsOf = some ("<div></div>".toList.map .char) := by
  decide +kernel

end

end TemplateCompiler.Render
