import TemplateCompiler.Compilation
import TemplateCompiler.Proofs.Lowering.Scriptlets
import TemplateCompiler.Proofs.Render.Attachment

/-!
# Chains of conditions

An `else` block has to come right behind an `if` block. Each tag is lowered without a look at its
neighbours, so that depends on what stands between the tags: comments and blank text may stand there, but
they only leave the blocks together if they are lowered to nothing (`areAttached_iff_areJoined`).
-/

namespace TemplateCompiler

open Render

/-! ## Chains of nodes -/

/-- A comment or blank text, as it may stand between the tags of a chain. -/
def Node.isGap : Node → Bool
  | .leaf _ (.comment _) => true
  | .leaf _ (.text v) => Text.isBlankText v
  | _ => false

/-- A comment that is not preserved, or no text at all. -/
def Node.isSilent (options : Options) : Node → Bool
  | .leaf _ (.comment _) => !options.preserveComments
  | .leaf _ (.text v) => v.isEmpty
  | _ => false

theorem Node.isGap_of_isSilent {options : Options} {n : Node} (h : n.isSilent options = true) :
    n.isGap = true := by
  unfold isSilent at h
  split at h
  · rfl
  · rename_i v
    have hempty : v = "" := String.isEmpty_iff.mp h
    subst hempty
    rfl
  · cases h

namespace Render

/-- An `else` tag may follow. -/
def TagKind.takesElse : TagKind → Bool
  | .ifTrue | .elseIfTrue => true
  | _ => false

/-- An `else` tag of one sort or the other. -/
def TagKind.isElse : TagKind → Bool
  | .elseIfTrue | .otherwise => true
  | _ => false

/-- The block is opened by `if` or `else if`. -/
def Frame.takesElse (f : Frame) : Bool :=
  "if (".toList.isPrefixOf f.opening.toList || "else if (".toList.isPrefixOf f.opening.toList

/-- The block is opened by `else` or `else if`. -/
def Frame.isElse (f : Frame) : Bool := "else ".toList.isPrefixOf f.opening.toList

end Render

/-- The node is a tag that an `else` tag may follow. -/
def View.takesElse (v : View) : Node → Bool
  | .leaf _ _ => false
  | .tag _ t _ => (v.kindOf t).takesElse

/-- The node is an `else` tag of one sort or the other. -/
def View.isElse (v : View) : Node → Bool
  | .leaf _ _ => false
  | .tag _ t _ => (v.kindOf t).isElse

/-- Apart from gaps, each `else` tag comes right behind a tag that takes one. -/
def View.IsChained (v : View) (ns : List Node) : Prop :=
  IsAttached v.takesElse v.isElse (ns.filter fun n => !n.isGap)

/-- The same apart from what is lowered to nothing. -/
def View.IsJoined (v : View) (options : Options) (ns : List Node) : Prop :=
  IsAttached v.takesElse v.isElse (ns.filter fun n => !n.isSilent options)

instance (v : View) (ns : List Node) : Decidable (v.IsChained ns) :=
  inferInstanceAs (Decidable (IsAttached _ _ _))

instance (v : View) (options : Options) (ns : List Node) : Decidable (v.IsJoined options ns) :=
  inferInstanceAs (Decidable (IsAttached _ _ _))

namespace Render

/-! ## Openings of blocks -/

/-- The block takes an `else` block, by its text. -/
def Scope.takesElse (scope : Scope) : Bool := scope.frame.takesElse

/-- The block is an `else` block, by its text. -/
def Scope.isElse (scope : Scope) : Bool := scope.frame.isElse

-- The first letter tells other blocks from `else` blocks.
def StartsWith (c : Char) (s : String) : Prop := ∃ cs, s.toList = c :: cs

theorem StartsWith.append {c : Char} {s : String} (h : StartsWith c s) (rest : String) :
    StartsWith c (s ++ rest) := by
  obtain ⟨cs, hcs⟩ := h
  exact ⟨cs ++ rest.toList, by rw [String.toList_append, hcs, List.cons_append]⟩

theorem isPrefixOf_append (first rest : String) :
    first.toList.isPrefixOf (first ++ rest).toList = true := by
  rw [String.toList_append, List.isPrefixOf_iff_prefix]
  exact List.prefix_append _ _

namespace Scope

theorem isElse_of_startsWith {scope : Scope} {c : Char} (h : StartsWith c scope.opening)
    (hc : c ≠ 'e') : scope.isElse = false := by
  obtain ⟨cs, hcs⟩ := h
  have hopening : scope.frame.opening = scope.opening := rfl
  have hprefix : "else ".toList = ['e', 'l', 's', 'e', ' '] := rfl
  rw [isElse, Frame.isElse, hopening, hcs, hprefix, List.isPrefixOf_cons_cons, beq_false_of_ne hc.symm,
    Bool.false_and]

/-- The object that the content of a tag is added to. -/
def object? : Scope → Option String
  | renderBody object _ => some object
  | _ => none

/-- The block is that of an `else` tag of one sort or the other. -/
def isBranch : Scope → Bool
  | elseIfTrue _ | otherwise => true
  | _ => false

/-- By its text, a block is an `else` block exactly if it is that of an `else` tag. Content is added to an object with
a generated name, which does not start like that. -/
theorem isElse_eq_isBranch {scope : Scope} (hobject : ∀ object ∈ scope.object?, StartsWith '_' object) :
    scope.isElse = scope.isBranch := by
  cases scope with
  | renderBody object params =>
    have hmember : StartsWith '_' (memberText object "renderBody") := by
      unfold memberText
      split
      · exact ((hobject object rfl).append _).append _
      · exact (((hobject object rfl).append _).append _).append _
    exact isElse_of_startsWith (((hmember.append _).append _).append _) (by decide)
  | ifTrue condition =>
    have hfirst : StartsWith 'i' "if (" := ⟨_, rfl⟩
    exact isElse_of_startsWith ((hfirst.append _).append _) (by decide)
  | elseIfTrue condition =>
    have hopening : (elseIfTrue condition).frame.opening = "else if (" ++ (condition ++ ") \x7b") :=
      String.append_assoc
    have helse : "else if (" = "else " ++ "if (" := rfl
    rw [isElse, Frame.isElse, hopening, helse, String.append_assoc, isPrefixOf_append]
    rfl
  | otherwise => decide
  | _ =>
    -- a loop opens with `for`, and a macro with `function`
    refine isElse_of_startsWith ?_ (by decide : 'f' ≠ 'e')
    unfold opening
    simp only [String.append_assoc]
    exact StartsWith.append ⟨_, rfl⟩ _

theorem isElse_eq_isBranch_of_object?_eq_none {scope : Scope} (h : scope.object? = none) :
    scope.isElse = scope.isBranch := by
  refine isElse_eq_isBranch fun object hobject => ?_
  rw [h] at hobject
  cases hobject

theorem takesElse_ifTrue (condition : String) : (ifTrue condition).takesElse = true := by
  have hopening : (ifTrue condition).frame.opening = "if (" ++ (condition ++ ") \x7b") := String.append_assoc
  rw [takesElse, Frame.takesElse, hopening, isPrefixOf_append, Bool.true_or]

theorem takesElse_elseIfTrue (condition : String) : (elseIfTrue condition).takesElse = true := by
  have hopening : (elseIfTrue condition).frame.opening = "else if (" ++ (condition ++ ") \x7b") :=
    String.append_assoc
  rw [takesElse, Frame.takesElse, hopening, isPrefixOf_append, Bool.or_true]

end Scope

theorem yields_isElse_loopScope {env : Env} (location : Location) (t : Tag) :
    Yields (fun scope => ∀ b ∈ scope, b.isElse = false) (loopScope env location t) := by
  have hloop {b : Scope} (h : b.isElse = false) : ∀ b' ∈ some b, b'.isElse = false := by
    rintro _ ⟨⟩
    exact h
  unfold loopScope
  split
  · refine yields_bind_any fun _ => ?_
    split
    · exact yields_pure (hloop (Scope.isElse_eq_isBranch_of_object?_eq_none rfl))
    · exact yields_bind_any fun item => yields_pure (hloop (Scope.isElse_eq_isBranch_of_object?_eq_none rfl))
  · exact yields_bind_any fun _ => yields_bind_any fun key => yields_bind_any fun value =>
      yields_pure (hloop (Scope.isElse_eq_isBranch_of_object?_eq_none rfl))
  · exact yields_bind_any fun _ => yields_bind_any fun _ => yields_bind_any fun _ =>
      yields_bind_any fun counter => yields_pure (hloop (Scope.isElse_eq_isBranch_of_object?_eq_none rfl))
  · exact yields_pure fun b hb => by cases hb

-- Generated names do not start with a letter.
theorem yields_generateName (hint : String) : Yields (StartsWith '_') (generateName hint) := by
  intro s name t hrun
  have hname : outcome (generateName hint) s =
      (.ok (s.names.fresh hint), { s with names := s.names.reserve (s.names.fresh hint) }) := rfl
  rw [hname] at hrun
  cases hrun
  obtain ⟨k, hk, -⟩ := Names.exists_fresh_eq s.names hint
  obtain ⟨cs, hcs, -⟩ := Names.exists_toList_candidate hint k
  exact ⟨cs, by rw [hk, hcs]⟩

theorem Yields.and {α : Type} {P Q : α → Prop} {x : Lower α} (hP : Yields P x) (hQ : Yields Q x) :
    Yields (fun a => P a ∧ Q a) x := fun s a t hrun => ⟨hP s a t hrun, hQ s a t hrun⟩

/-! ## One list of nodes -/

open TemplateCompiler.Render.Op (isBlock AreAttached areAttached_iff areAttached_nil areAttached_write
  areAttached_code)

/-- Each `else` block of one list of operations comes right behind a block that takes one. -/
abbrev Attached (ready : Bool) (ops : List LoweredOp) : Prop :=
  AttachedFrom (isBlock Scope.takesElse) (isBlock Scope.isElse) ready ops

/-- The same at all depths. -/
abbrev AllAttached (ops : List LoweredOp) : Prop := AreAttached Scope.takesElse Scope.isElse ops

/-- What a node is lowered to, as far as chains go: the tags of a chain are one block each, and gaps that
are not silent are an operation in between. -/
structure IsLink (env : Env) (n : Node) (ops : List LoweredOp) : Prop where
  block : env.view.takesElse n = true ∨ env.view.isElse n = true →
    ∃ scope body, ops = [.block scope body] ∧ scope.takesElse = env.view.takesElse n ∧
      scope.isElse = env.view.isElse n
  silent : n.isSilent env.options = true → ops = []
  gap : n.isGap = true → n.isSilent env.options = false →
    ∃ op, ops = [op] ∧ ∀ p, isBlock p op = false

section

variable {env : Env} {n : Node} {ns : List Node} {ops more : List LoweredOp}

variable (env) in
theorem takesElse_of_isGap (h : n.isGap = true) :
    env.view.takesElse n = false ∧ env.view.isElse n = false := by
  cases n with
  | leaf m l => exact ⟨rfl, rfl⟩
  | tag m t children => exact Bool.noConfusion h

/-- Nodes that are joined become operations that are attached. -/
theorem IsLink.attached (h : IsLink env n ops)
    (hother : env.view.isElse n = false → Attached false ops)
    (hmore : ∀ ready ready' : Bool, (ready = true → ready' = true) →
      AttachedFrom env.view.takesElse env.view.isElse ready (ns.filter fun n => !n.isSilent env.options) →
      Attached ready' more)
    {ready ready' : Bool} (hready : ready = true → ready' = true)
    (hjoined : AttachedFrom env.view.takesElse env.view.isElse ready
      ((n :: ns).filter fun n => !n.isSilent env.options)) : Attached ready' (ops ++ more) := by
  cases hsilent : n.isSilent env.options with
  | true =>
    rw [List.filter_cons_of_neg (by simp [hsilent])] at hjoined
    rw [h.silent hsilent]
    exact hmore ready ready' hready hjoined
  | false =>
    rw [List.filter_cons_of_pos (by simp [hsilent])] at hjoined
    refine attachedFrom_append.mpr ?_
    cases htakes : env.view.takesElse n with
    | true =>
      obtain ⟨scope, body, rfl, hscope, helse⟩ := h.block (.inl htakes)
      refine ⟨⟨fun hneeds => hready (hjoined.1 (helse ▸ hneeds)), trivial⟩, hmore _ _ ?_ hjoined.2⟩
      exact fun hn => hscope.trans hn
    | false =>
      have hjoined' := hjoined.2
      rw [htakes] at hjoined'
      refine ⟨?_, hmore false _ (fun hfalse => Bool.noConfusion hfalse) hjoined'⟩
      cases helse : env.view.isElse n with
      | true =>
        obtain ⟨scope, body, rfl, -, -⟩ := h.block (.inr helse)
        exact ⟨fun _ => hready (hjoined.1 helse), trivial⟩
      | false => exact (hother helse).anywhere

/-- Nodes of a chain whose operations are attached are joined. -/
theorem IsLink.joined (h : IsLink env n ops)
    (hmore : ∀ chained joined ready : Bool, (chained = true → ready = true → joined = true) →
      AttachedFrom env.view.takesElse env.view.isElse chained (ns.filter fun n => !n.isGap) →
      Attached ready more →
      AttachedFrom env.view.takesElse env.view.isElse joined (ns.filter fun n => !n.isSilent env.options))
    {chained joined ready : Bool} (hjoined : chained = true → ready = true → joined = true)
    (hchained : AttachedFrom env.view.takesElse env.view.isElse chained
      ((n :: ns).filter fun n => !n.isGap)) (hattached : Attached ready (ops ++ more)) :
    AttachedFrom env.view.takesElse env.view.isElse joined
      ((n :: ns).filter fun n => !n.isSilent env.options) := by
  obtain ⟨hops, hbehind⟩ := attachedFrom_append.mp hattached
  cases hsilent : n.isSilent env.options with
  | true =>
    -- what is silent is left out on both sides
    have hgap := Node.isGap_of_isSilent hsilent
    rw [List.filter_cons_of_neg (by simp [hgap])] at hchained
    rw [h.silent hsilent] at hbehind
    rw [List.filter_cons_of_neg (by simp [hsilent])]
    exact hmore chained joined ready hjoined hchained hbehind
  | false =>
    rw [List.filter_cons_of_pos (by simp [hsilent])]
    cases hgap : n.isGap with
    | true =>
      rw [List.filter_cons_of_neg (by simp [hgap])] at hchained
      -- a gap that is written parts the chain: no `else` is attached behind it
      obtain ⟨op, rfl, hop⟩ := h.gap hgap hsilent
      obtain ⟨htakes, helse⟩ := takesElse_of_isGap env hgap
      have hready : readyAfter (isBlock Scope.takesElse) ready [op] = false := hop _
      rw [hready] at hbehind
      refine ⟨fun h => Bool.noConfusion (helse.symm.trans h), ?_⟩
      exact hmore chained _ false (fun _ hfalse => Bool.noConfusion hfalse) hchained hbehind
    | false =>
      rw [List.filter_cons_of_pos (by simp [hgap])] at hchained
      constructor
      · intro helse
        obtain ⟨scope, body, rfl, -, hscope⟩ := h.block (.inr helse)
        exact hjoined (hchained.1 helse) (hops.1 (hscope.trans helse))
      · refine hmore _ _ _ (fun htakes _ => htakes) hchained.2 hbehind

end

/-! ## One node -/

section

variable {env : Env} {n : Node} {ops : List LoweredOp}

-- All other nodes may become anything.
theorem isLink_of_plain (hgap : n.isGap = false) (htakes : env.view.takesElse n = false)
    (helse : env.view.isElse n = false) : IsLink env n ops where
  block h := by simp [htakes, helse] at h
  silent h := Bool.noConfusion (hgap.symm.trans (Node.isGap_of_isSilent h))
  gap h := Bool.noConfusion (hgap.symm.trans h)

theorem yields_isLink_lowerLeaf (htext : env.text = standardText env.options) (m : Marks) (l : Leaf) :
    Yields (IsLink env (.leaf m l)) (lowerLeaf env m l) := by
  have hblock (h : env.view.takesElse (.leaf m l) = true ∨ env.view.isElse (.leaf m l) = true) : False :=
    h.elim Bool.noConfusion Bool.noConfusion
  cases l with
  | text v =>
    rw [lowerLeaf, htext]
    refine yields_pure ⟨fun h => (hblock h).elim, fun hsilent => if_pos hsilent, fun _ hsilent => ?_⟩
    have hnot : ¬v.isEmpty = true := Bool.eq_false_iff.mp hsilent
    rw [if_neg hnot]
    split
    · exact ⟨_, rfl, fun _ => rfl⟩
    · exact ⟨_, rfl, fun _ => rfl⟩
  | comment v =>
    refine yields_pure ⟨fun h => (hblock h).elim, fun hsilent => if_pos hsilent, fun _ hsilent => ?_⟩
    have hnot : ¬(!env.options.preserveComments) = true := Bool.eq_false_iff.mp hsilent
    rw [if_neg hnot]
    split
    · exact ⟨_, rfl, fun _ => rfl⟩
    · exact ⟨_, rfl, fun _ => rfl⟩
  | _ => exact fun _ _ _ _ => isLink_of_plain rfl rfl rfl

theorem isLink_block {m : Marks} {t : Tag} {children : List Node} {scope : Scope} (body : List LoweredOp)
    (htakes : scope.takesElse = (env.kindOf t).takesElse) (helse : scope.isElse = (env.kindOf t).isElse) :
    IsLink env (.tag m t children) [.block scope body] where
  block _ := ⟨scope, body, rfl, htakes, helse⟩
  silent h := Bool.noConfusion h
  gap h := Bool.noConfusion h

theorem yields_isLink (htext : env.text = standardText env.options) (n : Node) :
    Yields (IsLink env n) (lower env n) := by
  cases n with
  | leaf m l => exact yields_isLink_lowerLeaf htext m l
  | tag m t children =>
    rw [lower, lowerTag]
    cases hkind : env.kindOf t with
    | ifTrue =>
      have htakes := Scope.takesElse_ifTrue (conditionOf t)
      have helse : (Scope.ifTrue (conditionOf t)).isElse = false := Scope.isElse_eq_isBranch_of_object?_eq_none rfl
      exact yields_bind_any fun _ => yields_bind_any fun body => yields_pure
        (isLink_block body (by rw [htakes, hkind]; rfl) (by rw [helse, hkind]; rfl))
    | elseIfTrue =>
      have htakes := Scope.takesElse_elseIfTrue (conditionOf t)
      have helse : (Scope.elseIfTrue (conditionOf t)).isElse = true := Scope.isElse_eq_isBranch_of_object?_eq_none rfl
      exact yields_bind_any fun _ => yields_bind_any fun body => yields_pure
        (isLink_block body (by rw [htakes, hkind]; rfl) (by rw [helse, hkind]; rfl))
    | otherwise =>
      have htakes : Scope.otherwise.takesElse = false := by decide
      have helse : Scope.otherwise.isElse = true := Scope.isElse_eq_isBranch_of_object?_eq_none rfl
      exact yields_bind_any fun body => yields_pure
        (isLink_block body (by rw [htakes, hkind]; rfl) (by rw [helse, hkind]; rfl))
    | _ =>
      exact fun _ _ _ _ => isLink_of_plain rfl (congrArg TagKind.takesElse hkind)
        (congrArg TagKind.isElse hkind)

end

/-! ## Nodes that are joined -/

section

variable {env : Env} {xs ys : List Siblings} {inner : Inner} {children : List Node}

/-- Outside of constant elements, all siblings are joined. -/
def AreJoined (env : Env) (xs : List Siblings) : Prop :=
  ∀ x ∈ xs, x.isFolded = false → env.view.IsJoined env.options x.nodes

theorem AreJoined.subset (h : AreJoined env xs) (hsubset : ys ⊆ xs) : AreJoined env ys :=
  fun y hy => h y (hsubset hy)

-- A tag that takes attribute tags has, besides these, what any other tag would have.
theorem siblingsIn_subset (v : View) (folded : Bool) (ns : List Node) :
    Node.siblingsIn v false folded ns ⊆ Node.siblingsIn v true folded ns := by
  intro x hx
  rw [Node.siblingsIn_eq_flatMap] at hx ⊢
  obtain ⟨n, hn, hx⟩ := List.mem_flatMap.mp hx
  refine List.mem_flatMap.mpr ⟨n, hn, ?_⟩
  cases n with
  | leaf m l => exact hx
  | tag m t children =>
    cases hslot : t.slot? with
    | none =>
      rw [Node.siblings, View.enter_of_slot?_eq_none hslot false true] at hx
      rwa [Node.siblings]
    | some slot =>
      rw [Node.siblings, View.enter, (v.kindOf_eq_slot_iff t).mpr (by rw [hslot]; rfl)] at hx
      exact (List.not_mem_nil hx).elim

/-- What a node is lowered to is attached, apart from an `else` block itself, which stands first. -/
structure AttachesNode (env : Env) (n : Node) (ops : List LoweredOp) : Prop where
  whole : env.view.isElse n = false → AllAttached ops
  inside : ∀ level ∈ Op.bodiesOf ops, Attached false level

/-- What nodes are lowered to is attached as far as they are joined. -/
structure AttachesNodes (env : Env) (ns : List Node) (ops : List LoweredOp) : Prop where
  whole : ∀ ready ready' : Bool, (ready = true → ready' = true) →
    AttachedFrom env.view.takesElse env.view.isElse ready
      (ns.filter fun n => !n.isSilent env.options) → Attached ready' ops
  inside : ∀ level ∈ Op.bodiesOf ops, Attached false level

section

variable {n : Node} {ns : List Node} {ops more : List LoweredOp}

theorem attachesNode_of_attached (h : AllAttached ops) : AttachesNode env n ops :=
  ⟨fun _ => h, (areAttached_iff.mp h).2⟩

theorem AttachesNodes.cons (h : AttachesNodes env ns more) (hlink : IsLink env n ops)
    (hn : AttachesNode env n ops) : AttachesNodes env (n :: ns) (ops ++ more) := by
  refine ⟨fun _ _ => hlink.attached (fun helse => (areAttached_iff.mp (hn.whole helse)).1) h.whole, ?_⟩
  intro level hlevel
  rw [Op.bodiesOf_append] at hlevel
  exact (List.mem_append.mp hlevel).elim (hn.inside level) (h.inside level)

theorem AttachesNodes.attached (h : AttachesNodes env ns ops)
    (hjoined : env.view.IsJoined env.options ns) : AllAttached ops :=
  areAttached_iff.mpr ⟨h.whole false false id (isAttached_iff.mp hjoined), h.inside⟩

end

/-- The content of a tag, and the inputs of a slot, are attached if the siblings in it are joined. -/
structure Inner.AttachesFor (inner : Inner) (env : Env) (children : List Node) : Prop where
  content : AreJoined env (⟨children, false⟩ :: Node.siblingsIn env.view false false children) →
    Yields AllAttached inner.content
  inputs : ∀ slot, (∀ n ∈ children, n.slot? = some slot → AreJoined env (n.siblings env.view true false)) →
    Yields (fun r => AllAttached r.2) (inner.inputs slot)

theorem yields_attached_lowerSlots (hinner : inner.AttachesFor env children)
    (hjoined : ∀ n ∈ children, AreJoined env (n.siblings env.view true false)) (object : String)
    (slots : List String) : Yields AllAttached (lowerSlots object inner slots) := by
  induction slots with
  | nil => exact yields_pure areAttached_nil
  | cons slot rest ih =>
    refine yields_bind (hinner.inputs slot fun n hn _ => hjoined n hn) fun r hr =>
      yields_bind ih fun more hmore => yields_pure ?_
    exact hr.append ((areAttached_code _).append hmore)

theorem yields_attached_lowerInput (hinner : inner.AttachesFor env children)
    (hjoined : AreJoined env (⟨children, false⟩ :: Node.siblingsIn env.view true false children))
    (location : Location) (t : Tag) (hint : String) :
    Yields (fun r => AllAttached r.2) (lowerInput env location t hint children inner) := by
  have hcontent := hinner.content
    (hjoined.subset (List.cons_subset_cons _ (siblingsIn_subset env.view false children)))
  have hslots : ∀ n ∈ children, AreJoined env (n.siblings env.view true false) := by
    intro n hn x hx
    rw [Node.siblingsIn_eq_flatMap] at hjoined
    exact hjoined x (List.mem_cons_of_mem _ (List.mem_flatMap.mpr ⟨n, hn, hx⟩))
  refine yields_bind (yields_generateName _) fun name hname => yields_bind_any fun _ => ?_
  refine yields_bind (yields_attached_lowerSlots hinner hslots name _) fun slots hslots => ?_
  have hbody : Yields AllAttached (lowerBody name t.params children inner) := by
    unfold lowerBody
    split
    · exact yields_pure areAttached_nil
    · exact yields_bind hcontent fun body hbody =>
        yields_pure (hbody.block (Scope.isElse_eq_isBranch fun _ hobject => Option.mem_some.mp hobject ▸ hname))
  refine yields_bind hbody fun body hbody => yields_pure ?_
  exact (areAttached_code _).append (hslots.append hbody)

theorem yields_attached_lowerAttributes (location : Location) (attributes : List Attribute) :
    Yields AllAttached (lowerAttributes env location attributes) := by
  induction attributes with
  | nil => exact yields_pure areAttached_nil
  | cons a rest ih =>
    have hone : Yields AllAttached (lowerAttribute env location a) := by
      unfold lowerAttribute
      split
      · apply yields_pure
        split
        · exact areAttached_nil
        · exact areAttached_write _
      · exact yields_bind_any fun _ => yields_bind_any fun helper => yields_pure (areAttached_code _)
    exact yields_bind hone fun ops hops => yields_bind ih fun more hmore => yields_pure (hops.append hmore)

theorem yields_attached_lowerNative (hinner : inner.AttachesFor env children) (m : Marks) (t : Tag)
    (name : String) (hjoined : AreJoined env
      (if env.isHtml && isVoidElement name then []
        else ⟨children, env.isHtml && m.isStatic⟩ ::
          Node.siblingsIn env.view false (env.isHtml && m.isStatic) children)) :
    Yields AllAttached (lowerNative env m t name children inner) := by
  unfold lowerNative
  cases hhtml : env.isHtml with
  | false =>
    rw [hhtml, Bool.false_and, Bool.false_and, if_neg Bool.false_ne_true] at hjoined
    rw [Bool.not_false, if_pos rfl, lowerTreeElement_eq]
    refine yields_bind_any fun _ => yields_bind_any fun key => ?_
    refine yields_bind (hinner.content hjoined) fun content hcontent => yields_pure ?_
    exact (areAttached_code _).append (hcontent.append (areAttached_code _))
  | true =>
    rw [hhtml, Bool.true_and, Bool.true_and] at hjoined
    rw [Bool.not_true, if_neg Bool.false_ne_true]
    cases hstatic : m.isStatic with
    | true => exact yields_pure (areAttached_write _)
    | false =>
      rw [if_neg Bool.false_ne_true]
      refine yields_bind (yields_attached_lowerAttributes _ _) fun attributes hattributes => ?_
      have hstart : AllAttached (.write ("<" ++ name) :: (attributes ++ [.write ">"])) :=
        (areAttached_write _).append (hattributes.append (areAttached_write _))
      dsimp only
      split
      · exact yields_pure hstart
      · rename_i hvoid
        rw [if_neg hvoid, hstatic] at hjoined
        refine yields_bind (hinner.content hjoined) fun content hcontent => yields_pure ?_
        exact (hstart.append hcontent).append (areAttached_write _)

theorem yields_attached_lowerTag (hinner : inner.AttachesFor env children) (m : Marks) (t : Tag)
    (hjoined : AreJoined env ((Node.tag m t children).siblings env.view false false)) :
    Yields (AttachesNode env (.tag m t children)) (lowerTag env m t children inner) := by
  have hview : env.view.kindOf t = env.kindOf t := rfl
  have hwhole {x : Lower (List LoweredOp)} (h : Yields AllAttached x) :
      Yields (AttachesNode env (.tag m t children)) x :=
    fun s ops u hrun => attachesNode_of_attached (h s ops u hrun)
  rw [Node.siblings, View.enter, View.folds, hview] at hjoined
  unfold lowerTag
  cases hkind : env.kindOf t with
  | dynamic target =>
    rw [hkind] at hjoined
    apply hwhole
    refine yields_bind_any fun _ => ?_
    refine yields_bind (yields_attached_lowerInput hinner hjoined _ _ _) fun r hr => ?_
    exact yields_bind_any fun helper => yields_bind_any fun key =>
      yields_pure (hr.append (areAttached_code _))
  | slot => exact hwhole (yields_pure areAttached_nil)
  | ifTrue =>
    rw [hkind] at hjoined
    apply hwhole
    refine yields_bind_any fun _ => yields_bind (hinner.content hjoined) fun body hbody => yields_pure ?_
    exact hbody.block (Scope.isElse_eq_isBranch_of_object?_eq_none rfl)
  | elseIfTrue =>
    rw [hkind] at hjoined
    refine yields_bind_any fun _ => yields_bind (hinner.content hjoined) fun body hbody => yields_pure ?_
    -- the block is an `else` itself, so only what is inside of it has to be attached
    refine ⟨fun h => ?_, Op.attachedFrom_bodiesOf_block hbody⟩
    exact Bool.noConfusion ((congrArg TagKind.isElse hkind).symm.trans h)
  | otherwise =>
    rw [hkind] at hjoined
    refine yields_bind (hinner.content hjoined) fun body hbody => yields_pure ?_
    refine ⟨fun h => ?_, Op.attachedFrom_bodiesOf_block hbody⟩
    exact Bool.noConfusion ((congrArg TagKind.isElse hkind).symm.trans h)
  | loop =>
    rw [hkind] at hjoined
    apply hwhole
    refine yields_bind (yields_isElse_loopScope _ _) fun scope hscope => ?_
    refine yields_bind (hinner.content hjoined) fun body hbody => ?_
    cases scope with
    | some scope => exact yields_pure (hbody.block (hscope scope rfl))
    | none => exact yields_pure hbody
  | macroDefinition =>
    rw [hkind] at hjoined
    apply hwhole
    show Yields _ (lowerMacroDefinition t inner)
    unfold lowerMacroDefinition
    cases hname : t.macroName? with
    | some name =>
      rw [hname] at hjoined
      refine yields_bind_any fun function => yields_bind (hinner.content hjoined) fun body hbody => ?_
      exact yields_pure (hbody.block (Scope.isElse_eq_isBranch_of_object?_eq_none rfl))
    | none => exact yields_pure areAttached_nil
  | macroCall name =>
    rw [hkind] at hjoined
    apply hwhole
    refine yields_bind_any fun function => ?_
    refine yields_bind (yields_attached_lowerInput hinner hjoined _ _ _) fun r hr => ?_
    exact yields_pure (hr.append (areAttached_code _))
  | native name =>
    rw [hkind] at hjoined
    apply hwhole
    apply yields_attached_lowerNative hinner
    have hhtml : env.view.isHtml = env.isHtml := rfl
    dsimp only at hjoined
    rw [hhtml, Bool.false_or] at hjoined
    by_cases hvoid : (env.isHtml && isVoidElement name) = true
    · rw [if_pos hvoid] at hjoined ⊢
      exact hjoined
    · rw [if_neg hvoid] at hjoined ⊢
      exact hjoined
  | custom name request =>
    rw [hkind] at hjoined
    apply hwhole
    refine yields_bind_any fun _ => yields_bind_any fun template => ?_
    refine yields_bind (yields_attached_lowerInput hinner hjoined _ _ _) fun r hr => ?_
    exact yields_bind_any fun helper => yields_bind_any fun key =>
      yields_pure (hr.append (areAttached_code _))

theorem yields_attached_lowerLeaf (htext : env.text = standardText env.options) (m : Marks) (l : Leaf) :
    Yields AllAttached (lowerLeaf env m l) := by
  have hif {c : Prop} [Decidable c] {a b : List LoweredOp} (ha : AllAttached a) (hb : AllAttached b) :
      AllAttached (if c then a else b) := by
    split
    · exact ha
    · exact hb
  have hwrite (markup : String) : AllAttached [.write markup] := areAttached_write markup
  have hcode (statement : Statement) : AllAttached [.code statement] := areAttached_code statement
  have hnone : AllAttached [] := areAttached_nil
  cases l with
  | documentType v | declaration v => exact yields_pure (hif (hwrite _) hnone)
  | cdata v => exact yields_pure (hif (hwrite _) (hcode _))
  | text v =>
    rw [lowerLeaf, htext]
    exact yields_pure (hif hnone (hif (hwrite _) (hcode _)))
  | comment v => exact yields_pure (hif hnone (hif (hwrite _) (hcode _)))
  | placeholder expression escape =>
    show Yields _ (lowerPlaceholder env expression escape)
    unfold lowerPlaceholder
    split
    · exact yields_pure (hif hnone (hif (hwrite _) (hcode _)))
    · dsimp only
      split_ifs
      · exact yields_bind_any fun helper => yields_pure (hcode _)
      · exact yields_bind_any fun helper => yields_pure (hcode _)
      · exact yields_pure (hcode _)
      · exact yields_pure (hcode _)
  | scriptlet code => exact yields_pure (hif hnone (hcode _))
  | component code => exact yields_bind_any fun _ => yields_pure hnone

/-- If siblings are joined at all depths, operations are attached at all depths. -/
theorem yields_attached (htext : env.text = standardText env.options) :
    (∀ n : Node, (AreJoined env (n.siblings env.view false false) →
        Yields (AttachesNode env n) (lower env n)) ∧
      ∀ slot, (n.slot? = some slot → AreJoined env (n.siblings env.view true false)) →
        Yields (fun r => AllAttached r.2) (inputs env slot n)) ∧
    ∀ ns : List Node, (AreJoined env (Node.siblingsIn env.view false false ns) →
        Yields (AttachesNodes env ns) (lowerAll env ns)) ∧
      ∀ slot, (∀ n ∈ ns, n.slot? = some slot → AreJoined env (n.siblings env.view true false)) →
        Yields (fun r => AllAttached r.2) (inputsAll env slot ns) := by
  apply Node.induct
  case leaf =>
    intro m l
    refine ⟨fun _ s ops u hrun => ?_, fun slot _ => yields_pure areAttached_nil⟩
    exact attachesNode_of_attached (yields_attached_lowerLeaf htext m l s ops u hrun)
  case tag =>
    intro m t children ih
    have hinner : Inner.AttachesFor ⟨lowerAll env children, fun slot => inputsAll env slot children⟩
        env children := by
      refine ⟨fun hjoined => ?_, ih.2⟩
      have hcontent := ih.1 (hjoined.subset (List.subset_cons_self _ _))
      intro s ops u hrun
      exact (hcontent s ops u hrun).attached (hjoined _ List.mem_cons_self rfl)
    refine ⟨fun hjoined => yields_attached_lowerTag hinner m t hjoined, fun slot hjoined => ?_⟩
    rw [inputs]
    split
    · rename_i hslot
      -- an attribute tag has its own siblings only as a slot: as content it lowers to nothing
      have hslot' : t.slot? = some slot := beq_iff_eq.mp hslot
      have hkind : env.view.kindOf t = .slot := (env.view.kindOf_eq_slot_iff t).mpr (by rw [hslot']; rfl)
      have hchildren := hjoined hslot'
      rw [Node.siblings, View.enter, View.folds, hkind] at hchildren
      refine yields_bind (yields_attached_lowerInput hinner hchildren _ _ _) ?_
      exact fun r hr => yields_pure hr
    · exact yields_pure areAttached_nil
  case nil =>
    refine ⟨fun _ => yields_pure ⟨?_, ?_⟩, fun slot _ => yields_pure areAttached_nil⟩
    · exact fun _ _ _ _ => trivial
    · exact fun _ h => (List.not_mem_nil h).elim
  case cons =>
    intro n ns ihn ihns
    constructor
    · intro hjoined
      rw [Node.siblingsIn] at hjoined
      -- the first sibling is also the link that the next one goes on from
      have hn := (yields_isLink htext n).and
        (ihn.1 (hjoined.subset (List.subset_append_left _ _)))
      have hns := ihns.1 (hjoined.subset (List.subset_append_right _ _))
      exact yields_bind hn fun ops hops => yields_bind hns fun more hmore =>
        yields_pure (hmore.cons hops.1 hops.2)
    · intro slot hjoined
      rw [List.forall_mem_cons] at hjoined
      refine yields_bind (ihn.2 slot hjoined.1) fun r hr => ?_
      exact yields_bind (ihns.2 slot hjoined.2) fun r' hr' => yields_pure (hr.append hr')

end

/-! ## Operations that are attached -/

section

variable {env : Env} {ops run : List LoweredOp}

theorem attached_of_within (h : AllAttached ops) (hrun : Op.Within run ops) : Attached true run := by
  induction hrun with
  | here before after =>
    have hall := (areAttached_iff.mp h).1
    rw [List.append_assoc, attachedFrom_append, attachedFrom_append] at hall
    exact hall.2.1.mono fun _ => rfl
  | @inside before after scope body _ ih =>
    refine ih fun level hlevel => h level (List.mem_cons_of_mem _ ?_)
    rw [Op.bodiesOf_append]
    exact List.mem_append_right _ (List.mem_append_left _ hlevel)

theorem yields_joined (htext : env.text = standardText env.options) (ns : List Node) :
    Yields (fun ops => ∀ chained joined ready : Bool, (chained = true → ready = true → joined = true) →
      AttachedFrom env.view.takesElse env.view.isElse chained (ns.filter fun n => !n.isGap) →
      Attached ready ops → AttachedFrom env.view.takesElse env.view.isElse joined
        (ns.filter fun n => !n.isSilent env.options)) (lowerAll env ns) := by
  induction ns with
  | nil => exact yields_pure fun _ _ _ _ _ _ => trivial
  | cons n ns ih =>
    refine yields_bind (yields_isLink htext n) fun ops hops => yields_bind ih fun more hmore => ?_
    exact yields_pure fun _ _ _ hjoined hchained => hops.joined hmore hjoined hchained

/-! ## Main result -/

/-- Let each `else` tag come right behind a tag that takes one, apart from comments and blank text. Then in
the batched operations each block that is opened by `else` or `else if` comes right behind one that is
opened by `if` or `else if`, at all depths, exactly if the comments and blank texts between such tags are
lowered to nothing. -/
theorem areAttached_iff_areJoined (htext : env.text = standardText env.options) (definition : String)
    {ns : List Node} {s t : State}
    (hchained : ∀ x ∈ ⟨ns, false⟩ :: Node.siblingsIn env.view false false ns, x.isFolded = false →
      env.view.IsChained x.nodes)
    (hrun : outcome (lowerAll env ns) s = (.ok ops, t)) :
    AreAttached Frame.takesElse Frame.isElse (Op.batch (textOps definition ops)) ↔
    ∀ x ∈ ⟨ns, false⟩ :: Node.siblingsIn env.view false false ns, x.isFolded = false →
      env.view.IsJoined env.options x.nodes := by
  have hscopes : AreAttached Frame.takesElse Frame.isElse (Op.batch (textOps definition ops)) ↔
      AllAttached ops := Op.areAttached_batch.trans (Op.areAttached_mapAll _ _)
  refine hscopes.trans ⟨fun hattached x hx hfolded => ?_, fun hjoined => ?_⟩
  · obtain ⟨s', run, t', hrun', hwithin⟩ : IsLoweredIn env x.nodes ops := by
      rcases List.mem_cons.mp hx with rfl | hx
      · exact ⟨s, ops, t, hrun, .refl ops⟩
      · exact ((yields_places env).2 ns).1 s ops t hrun x hx hfolded
    have hops := attached_of_within hattached hwithin
    rw [View.IsJoined, isAttached_iff]
    exact yields_joined htext x.nodes s' run t' hrun' false false true (fun h => Bool.noConfusion h)
      (isAttached_iff.mp (hchained x hx hfolded)) hops
  · have hnodes := ((yields_attached htext).2 ns).1 (fun x hx => hjoined x (List.mem_cons_of_mem _ hx))
    exact (hnodes s ops t hrun).attached (hjoined _ List.mem_cons_self rfl)

/-- A chain with a comment in it, in an element next to another chain. -/
theorem areAttached_iff_areJoined_list :
    let env := (Setting.standard {} (TagRegistry.ofList [])).env ⟨"/app/page.marko"⟩ []
    let place : Marks := ⟨false, ⟨1, 1⟩⟩
    let ns : List Node := [
      .tag place ⟨.static "ul", [], none, []⟩ [
        .tag place ⟨.static "if", [], some "input.all", []⟩ [.leaf place (.text "all")],
        .leaf place (.comment " some "),
        .tag place ⟨.static "else-if", [], some "input.some", []⟩ [.leaf place (.text "some")],
        .tag place ⟨.static "else", [], none, []⟩ []],
      .tag place ⟨.static "if", [], some "input.last", []⟩ [],
      .leaf place (.text " "),
      .tag place ⟨.static "else", [], none, []⟩ []]
    let xs := ⟨ns, false⟩ :: Node.siblingsIn env.view false false ns
    let start := State.start ⟨[]⟩ (.ofPath ⟨"/app/page.marko"⟩) .empty
    (∀ x ∈ xs, x.isFolded = false → env.view.IsChained x.nodes) ∧
    ∃ ops t, outcome (lowerAll env ns) start = (.ok ops, t) ∧
      (AreAttached Frame.takesElse Frame.isElse (Op.batch (textOps "_component" ops)) ↔
        ∀ x ∈ xs, x.isFolded = false → env.view.IsJoined env.options x.nodes) := by
  intro env place ns xs start
  have hok : (outcome (lowerAll env ns) start).1.toOption.isSome = true := by decide +kernel
  have hchained : ∀ x ∈ xs, x.isFolded = false → env.view.IsChained x.nodes := by decide +kernel
  obtain ⟨ops, hrun⟩ := exists_eq_ok_pair_of_isSome hok
  have htext : env.text = standardText env.options := rfl
  exact ⟨hchained, ops, _, hrun, areAttached_iff_areJoined htext "_component" hchained hrun⟩

/-- Blank text between the two tags of a chain is written between their blocks. -/
theorem exists_else_behind_write :
    let env := (Setting.standard {} (TagRegistry.ofList [])).env ⟨"/app/page.marko"⟩ []
    let place : Marks := ⟨false, ⟨1, 1⟩⟩
    let ns : List Node := [
      .tag place ⟨.static "if", [], some "input.a", []⟩ [.leaf place (.text "a")],
      .leaf place (.text "\n"),
      .tag place ⟨.static "else", [], none, []⟩ [.leaf place (.text "b")]]
    let start := State.start ⟨[]⟩ (.ofPath ⟨"/app/page.marko"⟩) .empty
    let batched := (outcome (lowerAll env ns) start).1.toOption.map fun ops =>
      Op.batch (textOps "_component" ops)
    (∀ x ∈ ⟨ns, false⟩ :: Node.siblingsIn env.view false false ns, x.isFolded = false →
      env.view.IsChained x.nodes) ∧
    batched.map Op.eventsOf = some [.opening "if (input.a) \x7b", .char 'a', .closing "\x7d", .char '\n',
      .opening "else \x7b", .char 'b', .closing "\x7d"] ∧
    batched.any (fun ops => decide (AreAttached Frame.takesElse Frame.isElse ops)) = false := by
  decide +kernel

end

end Render

end TemplateCompiler
