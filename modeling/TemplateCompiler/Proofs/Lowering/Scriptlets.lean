import TemplateCompiler.Proofs.Lowering.Comments
import TemplateCompiler.Proofs.Lowering.Macros
import TemplateCompiler.Proofs.Template.Scriptlets

/-!
# Scriptlets in operations

What becomes of scriptlets outside of constant elements. The statements that are authored are just those of
the scriptlets that are lowered (`isAccount_authored`). Siblings stay together: they are lowered one
after the other, to operations that are next to each other in the render function or in one of its
blocks (`yields_places`), so that the statement of a scriptlet stands between what becomes of the
siblings before and behind it (`IsLoweredIn.standsBetween`).
-/

namespace TemplateCompiler.Render

/-! ## Authored statements -/

/-- The code of a statement that was authored. -/
def Statement.authored? : Statement → List String
  | .authored code => [code]
  | _ => []

/-- The authored statements in operations. -/
def Op.authoredOf (ops : List LoweredOp) : List String := Op.collectOf Statement.authored? (fun _ => []) ops

theorem yields_authoredOf_lowerLeaf {env : Env} (htext : env.text = standardText env.options) (m : Marks)
    (l : Leaf) :
    Yields (fun ops => Op.authoredOf ops = (Part.leaf l).authored?.toList) (lowerLeaf env m l) := by
  cases l with
  | scriptlet code =>
    refine yields_pure ?_
    show Op.authoredOf (if (Text.trim code).isEmpty then [] else
      [.code (.authored (Text.trim code))]) = (authored? code).toList
    unfold authored?
    split <;> rfl
  | _ =>
    refine yields_collectOf_lowerLeaf htext (fun statement h => ?_) (fun code h => by cases h) m
    cases statement <;> first | rfl | cases h

/-- The authored statements in operations are those of the scriptlets that were lowered, in that order. -/
theorem isAccount_authored {env : Env} (htext : env.text = standardText env.options) :
    IsAccount env fun T _ ops _ => Op.authoredOf ops = T.filterMap Part.authored? := by
  constructor
  case quiet => exact fun _ _ _ => rfl
  case append =>
    intro T U s t u ops more hT hU
    rw [List.filterMap_append, ← hT, ← hU]
    exact Op.collectOf_append _ _ ops more
  case write => exact fun _ markup => rfl
  case code =>
    intro s statement hplain
    cases statement with
    | authored code => cases hplain
    | _ => rfl
  case block => exact fun T s body t scope _ hbody => (List.append_nil _).trans hbody
  case leaf =>
    intro m l s ops t hrun
    rw [yields_authoredOf_lowerLeaf htext m l s ops t hrun, filterMap_cons_eq]
    exact (List.append_nil _).symm
  case call =>
    intro T name function input s t ops u _ hops
    rw [Op.authoredOf, Op.collectOf_append]
    exact (List.append_nil _).trans hops
  case definition =>
    exact fun T name function params s t body u _ hbody => (List.append_nil _).trans hbody

/-! ## Runs of operations -/

/-- The operations are next to each other in others, or in a block of these. -/
inductive Op.Within (run : List LoweredOp) : List LoweredOp → Prop where
  | here (before after : List LoweredOp) : Within run (before ++ run ++ after)
  | inside (before after : List LoweredOp) (scope : Scope) {body : List LoweredOp} (h : Within run body) :
      Within run (before ++ .block scope body :: after)

namespace Op.Within

variable {run ops more : List LoweredOp}

theorem refl (ops : List LoweredOp) : Op.Within ops ops := by
  have h : Op.Within ops ([] ++ ops ++ []) := here [] []
  rwa [List.nil_append, List.append_nil] at h

theorem append (h : Op.Within run ops) (before after : List LoweredOp) :
    Op.Within run (before ++ ops ++ after) := by
  cases h with
  | here first last =>
    have heq : before ++ (first ++ run ++ last) ++ after = (before ++ first) ++ run ++ (last ++ after) := by
      simp only [List.append_assoc]
    rw [heq]
    exact here _ _
  | @inside first last scope body h =>
    have heq : before ++ (first ++ .block scope body :: last) ++ after =
        (before ++ first) ++ .block scope body :: (last ++ after) := by
      simp only [List.append_assoc, List.cons_append]
    rw [heq]
    exact inside _ _ scope h

theorem block (h : Op.Within run ops) (scope : Scope) : Op.Within run [.block scope ops] :=
  inside [] [] scope h

theorem trans (h : Op.Within run ops) (h' : Op.Within ops more) : Op.Within run more := by
  induction h' with
  | here before after => exact h.append before after
  | inside before after scope _ ih => exact inside before after scope ih

end Op.Within

/-! ## Places of siblings -/

/-- The nodes are lowered, one after the other, to operations next to each other. -/
def IsLoweredIn (env : Env) (ns : List Node) (ops : List LoweredOp) : Prop :=
  ∃ s run t, outcome (lowerAll env ns) s = (.ok run, t) ∧ Op.Within run ops

/-- All siblings outside of constant elements are lowered together. -/
def Places (env : Env) (xs : List Siblings) (ops : List LoweredOp) : Prop :=
  ∀ x ∈ xs, x.isFolded = false → IsLoweredIn env x.nodes ops

section

variable {env : Env} {xs ys : List Siblings} {ops more : List LoweredOp} {children : List Node}
  {inner : Inner}

theorem Places.within (h : Places env xs ops) (hops : Op.Within ops more) : Places env xs more := by
  intro x hx hfolded
  obtain ⟨s, run, t, hrun, hwithin⟩ := h x hx hfolded
  exact ⟨s, run, t, hrun, hwithin.trans hops⟩

theorem Places.append (h : Places env xs ops) (before after : List LoweredOp) :
    Places env xs (before ++ ops ++ after) := h.within ((Op.Within.refl ops).append before after)

theorem Places.front (h : Places env xs ops) (after : List LoweredOp) : Places env xs (ops ++ after) :=
  h.append [] after

theorem Places.behind (h : Places env xs ops) (before : List LoweredOp) :
    Places env xs (before ++ ops) := by
  have hplaces := h.append before []
  rwa [List.append_nil] at hplaces

theorem Places.block (h : Places env xs ops) (scope : Scope) : Places env xs [.block scope ops] :=
  h.within ((Op.Within.refl ops).block scope)

theorem places_nil : Places env [] ops := fun _ hx => (List.not_mem_nil hx).elim

theorem places_of_isFolded (h : ∀ x ∈ xs, x.isFolded = true) : Places env xs ops := by
  intro x hx hfolded
  rw [h x hx] at hfolded
  cases hfolded

-- Attribute tags by themselves are lowered to nothing, which is found anywhere.
theorem places_of_slots (h : children.all (·.slot?.isSome) = true) :
    Places env (⟨children, false⟩ :: Node.siblingsIn env.view false false children) ops := by
  have hnone : lowerAll env children = pure [] := by
    induction children with
    | nil => rfl
    | cons n ns ih =>
      rw [List.all_cons, Bool.and_eq_true] at h
      rw [lowerAll_cons_of_lower (lower_of_slot? h.1), ih h.2]
  rw [Node.siblingsIn_of_slot? h]
  intro x hx _
  rw [List.mem_singleton.mp hx]
  let start : State := .start ⟨[]⟩ (Metadata.ofPath env.source) .empty
  refine ⟨start, [], start, ?_, .here [] ops⟩
  show outcome (lowerAll env children) start = _
  rw [hnone]
  rfl

/-- Both ways to lower the children of a tag put siblings together. -/
structure Inner.PlacesFor (inner : Inner) (env : Env) (children : List Node) : Prop where
  content : Yields (Places env (⟨children, false⟩ :: Node.siblingsIn env.view false false children))
    inner.content
  inputs : ∀ slot, Yields (fun r => ∀ n ∈ children, n.slot? = some slot →
    Places env (n.siblings env.view true false) r.2) (inner.inputs slot)

theorem yields_places_lowerSlots (hinner : inner.PlacesFor env children) (object : String)
    (slots : List String) :
    Yields (fun ops => ∀ slot ∈ slots, ∀ n ∈ children, n.slot? = some slot →
      Places env (n.siblings env.view true false) ops) (lowerSlots object inner slots) := by
  induction slots with
  | nil => exact yields_pure fun _ h => (List.not_mem_nil h).elim
  | cons slot rest ih =>
    refine yields_bind (hinner.inputs slot) fun r hr => yields_bind ih fun more hmore => yields_pure ?_
    intro slot' hslot' n hn hslot
    rcases List.mem_cons.mp hslot' with rfl | hslot'
    · exact (hr n hn hslot).front _
    · exact ((hmore slot' hslot' n hn hslot).behind [.code (.assignSlot object slot r.1)]).behind r.2

theorem yields_places_lowerBody (hinner : inner.PlacesFor env children) (object : String)
    (params : List String) :
    Yields (Places env (⟨children, false⟩ :: Node.siblingsIn env.view false false children))
      (lowerBody object params children inner) := by
  unfold lowerBody
  split
  · exact yields_pure (places_of_slots ‹_›)
  · exact yields_bind hinner.content fun body hbody => yields_pure (hbody.block _)

/-- An input holds the attribute tags slot by slot, and the content behind them. -/
theorem yields_places_lowerInput (hinner : inner.PlacesFor env children) (location : Location) (t : Tag)
    (hint : String) :
    Yields (fun r => Places env (⟨children, false⟩ :: Node.siblingsIn env.view true false children) r.2)
      (lowerInput env location t hint children inner) := by
  refine yields_bind_any fun name => yields_bind_any fun _ => ?_
  refine yields_bind (yields_places_lowerSlots hinner name _) fun slots hslots => ?_
  refine yields_bind (yields_places_lowerBody hinner name t.params) fun body hbody => yields_pure ?_
  have hcontent := hbody.behind (.code (.declareInput name t.attributes) :: slots)
  intro x hx hfolded
  rcases List.mem_cons.mp hx with rfl | hx
  · exact hcontent _ List.mem_cons_self hfolded
  rcases Node.mem_siblingsIn_true hx with ⟨n, hn, slot, hslot, hx⟩ | hx
  · have hname : slot ∈ slotNames children :=
      Text.mem_distinct.mpr (List.mem_filterMap.mpr ⟨n, hn, hslot⟩)
    exact (hslots slot hname n hn hslot).append [.code (.declareInput name t.attributes)] body x hx hfolded
  · exact hcontent x (List.mem_cons_of_mem _ hx) hfolded

theorem yields_places_lowerNative (hinner : inner.PlacesFor env children) (m : Marks) (t : Tag)
    (name : String) :
    Yields (Places env
      (if env.isHtml && isVoidElement name then []
        else ⟨children, env.isHtml && m.isStatic⟩ ::
          Node.siblingsIn env.view false (env.isHtml && m.isStatic) children))
      (lowerNative env m t name children inner) := by
  unfold lowerNative
  cases env.isHtml with
  | false =>
    rw [Bool.not_false, if_pos rfl, lowerTreeElement_eq]
    refine yields_bind_any fun _ => yields_bind_any fun key => ?_
    refine yields_bind hinner.content fun content hcontent => yields_pure ?_
    exact hcontent.append [.code (.beginElement name t.attributes key)] [.code .endElement]
  | true =>
    rw [Bool.not_true, if_neg Bool.false_ne_true, Bool.true_and, Bool.true_and]
    cases m.isStatic with
    | true =>
      rw [if_pos rfl]
      refine yields_pure (places_of_isFolded fun x hx => ?_)
      split at hx
      · exact (List.not_mem_nil hx).elim
      · rcases List.mem_cons.mp hx with rfl | hx
        · rfl
        · exact Node.isFolded_of_mem_siblings.2 children false x hx
    | false =>
      rw [if_neg Bool.false_ne_true]
      refine yields_bind_any fun attributes => ?_
      dsimp only
      split
      · exact yields_pure places_nil
      · exact yields_bind hinner.content fun content hcontent =>
          yields_pure (hcontent.append _ [.write (closingMarkup name)])

theorem yields_places_lowerTag (hinner : inner.PlacesFor env children) (m : Marks) (t : Tag) :
    Yields (Places env ((Node.tag m t children).siblings env.view false false))
      (lowerTag env m t children inner) := by
  have hkind : env.view.kindOf t = env.kindOf t := rfl
  have hblock (scope : Scope) : Yields
      (Places env (⟨children, false⟩ :: Node.siblingsIn env.view false false children))
      (do let body ← inner.content; pure [.block scope body]) :=
    yields_bind hinner.content fun body hbody => yields_pure (hbody.block scope)
  rw [Node.siblings, View.enter, View.folds, hkind]
  unfold lowerTag
  cases env.kindOf t with
  | dynamic target =>
    refine yields_bind_any fun _ => ?_
    refine yields_bind (yields_places_lowerInput hinner _ _ _) fun r hr => ?_
    refine yields_bind_any fun helper => yields_bind_any fun key => yields_pure ?_
    exact hr.front _
  | slot => exact yields_pure places_nil
  | ifTrue | elseIfTrue => exact yields_bind_any fun _ => hblock _
  | otherwise => exact hblock _
  | loop =>
    refine yields_bind_any fun scope => yields_bind hinner.content fun body hbody => ?_
    cases scope with
    | some scope => exact yields_pure (hbody.block scope)
    | none => exact yields_pure hbody
  | macroDefinition =>
    show Yields _ (lowerMacroDefinition t inner)
    unfold lowerMacroDefinition
    cases t.macroName? with
    | some name => exact yields_bind_any fun function => hblock _
    | none => exact yields_pure places_nil
  | macroCall name =>
    refine yields_bind_any fun function => ?_
    refine yields_bind (yields_places_lowerInput hinner _ _ _) fun r hr => yields_pure ?_
    exact hr.front _
  | native name =>
    have hnative := yields_places_lowerNative hinner m t name
    have hhtml : env.view.isHtml = env.isHtml := rfl
    dsimp only
    rw [hhtml, Bool.false_or]
    by_cases hvoid : (env.isHtml && isVoidElement name) = true
    · rw [if_pos hvoid] at hnative ⊢
      exact hnative
    · rw [if_neg hvoid] at hnative ⊢
      exact hnative
  | custom name request =>
    refine yields_bind_any fun _ => yields_bind_any fun template => ?_
    refine yields_bind (yields_places_lowerInput hinner _ _ _) fun r hr => ?_
    refine yields_bind_any fun helper => yields_bind_any fun key => yields_pure ?_
    exact hr.front _

variable (env) in
/-- Lowering puts siblings together, at all depths outside of constant elements. -/
theorem yields_places :
    (∀ n : Node, Yields (Places env (n.siblings env.view false false)) (lower env n) ∧
      ∀ slot, Yields (fun r => n.slot? = some slot → Places env (n.siblings env.view true false) r.2)
        (inputs env slot n)) ∧
    ∀ ns : List Node, Yields (Places env (Node.siblingsIn env.view false false ns)) (lowerAll env ns) ∧
      ∀ slot, Yields (fun r => ∀ n ∈ ns, n.slot? = some slot →
        Places env (n.siblings env.view true false) r.2) (inputsAll env slot ns) := by
  apply Node.induct
  case leaf =>
    exact fun m l => ⟨fun _ _ _ _ => places_nil, fun slot => yields_pure fun h => by cases h⟩
  case tag =>
    intro m t children ih
    have hinner : Inner.PlacesFor ⟨lowerAll env children, fun slot => inputsAll env slot children⟩
        env children := by
      refine ⟨fun s ops t hrun x hx hfolded => ?_, ih.2⟩
      rcases List.mem_cons.mp hx with rfl | hx
      · exact ⟨s, ops, t, hrun, Op.Within.refl ops⟩
      · exact ih.1 s ops t hrun x hx hfolded
    refine ⟨yields_places_lowerTag hinner m t, fun slot => ?_⟩
    rw [inputs]
    split
    · rename_i hslot
      have hkind : env.view.kindOf t = .slot := by
        rw [env.view.kindOf_eq_slot_iff, beq_iff_eq.mp hslot]
        rfl
      rw [Node.siblings, View.enter, View.folds, hkind]
      refine yields_bind (yields_places_lowerInput hinner _ _ _) fun r hr => yields_pure fun _ => hr
    · rename_i hslot
      exact yields_pure fun h => absurd (beq_iff_eq.mpr h) hslot
  case nil =>
    exact ⟨fun _ _ _ _ => places_nil, fun slot => yields_pure fun n hn => (List.not_mem_nil hn).elim⟩
  case cons =>
    intro n ns ihn ihns
    refine ⟨?_, fun slot => ?_⟩
    · refine yields_bind ihn.1 fun ops hops => yields_bind ihns.1 fun more hmore => yields_pure ?_
      intro x hx hfolded
      rcases List.mem_append.mp hx with hx | hx
      · exact hops.front more x hx hfolded
      · exact hmore.behind ops x hx hfolded
    · refine yields_bind (ihn.2 slot) fun r hr => yields_bind (ihns.2 slot) fun q hq => yields_pure ?_
      intro n' hn' hslot
      rcases List.mem_cons.mp hn' with rfl | hn'
      · exact (hr hslot).front q.2
      · exact (hq n' hn' hslot).behind r.2

/-! ## Between siblings -/

theorem exists_of_lowerAll_append {before after : List Node} {s u : State}
    (h : outcome (lowerAll env (before ++ after)) s = (.ok ops, u)) :
    ∃ front t behind, outcome (lowerAll env before) s = (.ok front, t) ∧
      outcome (lowerAll env after) t = (.ok behind, u) ∧ ops = front ++ behind := by
  induction before generalizing s ops with
  | nil => exact ⟨[], s, ops, rfl, h, rfl⟩
  | cons n ns ih =>
    obtain ⟨first, s₁, hfirst, h⟩ := outcome_bind_eq_ok.mp h
    obtain ⟨more, s₂, hmore, h⟩ := outcome_bind_eq_ok.mp h
    obtain ⟨rfl, rfl⟩ := outcome_pure_eq_ok.mp h
    obtain ⟨front, t, behind, hfront, hbehind, rfl⟩ := ih hmore
    refine ⟨first ++ front, t, behind, ?_, hbehind, (List.append_assoc ..).symm⟩
    exact outcome_bind_eq_ok.mpr ⟨first, s₁, hfirst, outcome_bind_eq_ok.mpr ⟨front, t, hfront, rfl⟩⟩

/-- The statement stands in the operations, right between what the nodes before and behind it are
lowered to. -/
def StandsBetween (env : Env) (before after : List Node) (statement : String) (ops : List LoweredOp) :
    Prop :=
  ∃ front behind s t u, outcome (lowerAll env before) s = (.ok front, t) ∧
    outcome (lowerAll env after) t = (.ok behind, u) ∧
    Op.Within (front ++ .code (.authored statement) :: behind) ops

/-- A scriptlet becomes a statement in its place between its siblings. -/
theorem IsLoweredIn.standsBetween {before after : List Node} {m : Marks} {code statement : String}
    (h : IsLoweredIn env (before ++ .leaf m (.scriptlet code) :: after) ops)
    (hcode : authored? code = some statement) : StandsBetween env before after statement ops := by
  obtain ⟨s, run, u, hrun, hwithin⟩ := h
  obtain ⟨front, t, rest, hfront, hrest, rfl⟩ := exists_of_lowerAll_append hrun
  obtain ⟨one, t', hone, hrest⟩ := outcome_bind_eq_ok.mp hrest
  obtain ⟨behind, u', hbehind, hrest⟩ := outcome_bind_eq_ok.mp hrest
  obtain ⟨rfl, rfl⟩ := outcome_pure_eq_ok.mp hrest
  obtain ⟨rfl, rfl⟩ := outcome_pure_eq_ok.mp hone
  obtain ⟨hblank, rfl⟩ : ¬(Text.trim code).isEmpty = true ∧ Text.trim code = statement := by
    unfold authored? at hcode
    split at hcode
    · cases hcode
    · exact ⟨‹_›, Option.some.inj hcode⟩
  rw [if_neg hblank] at hwithin
  exact ⟨front, behind, s, t, u', hfront, hbehind, hwithin⟩

end

end TemplateCompiler.Render
