import TemplateCompiler.Proofs.Lowering.Effects
import TemplateCompiler.Proofs.Template.Marks

/-!
# Effects in text and in tree output

Text output checks the attributes of an element one by one and nothing inside of constant elements; tree
output checks them as one object, at all depths. The tags that are used are the same in both, unless a
void element has children, which text output leaves out. So is whether all checks pass, if the attributes
of each native element parse one by one exactly if they do as an object (`agree_effects`).
-/

namespace TemplateCompiler

open Render
open Script (acceptsExpression acceptsExpression_of_isLiteral isLiteral)

/-! ## Conditions on all tags -/

namespace Node

mutual

/-- `q` holds of each tag of a node with its children. -/
def all (q : Tag → List Node → Bool) : Node → Bool
  | .leaf _ _ => true
  | .tag _ t children => q t children && allIn q children
termination_by structural n => n

/-- `q` holds of each tag of the nodes with its children. -/
def allIn (q : Tag → List Node → Bool) : List Node → Bool
  | [] => true
  | n :: ns => n.all q && allIn q ns
termination_by structural ns => ns

end

variable {q : Tag → List Node → Bool} {native : String → Bool}

theorem allIn_iff {ns : List Node} : allIn q ns = true ↔ ∀ n ∈ ns, n.all q = true := by
  induction ns with
  | nil => exact ⟨fun _ _ h => (List.not_mem_nil h).elim, fun _ => rfl⟩
  | cons n ns ih => rw [allIn, Bool.and_eq_true, List.forall_mem_cons, ih]

theorem all_setStatic (n : Node) (isStatic : Bool) : (n.setStatic isStatic).all q = n.all q := by
  cases n <;> rfl

theorem all_classify (hq : ∀ t ns, q t (classifyAll native ns) = q t ns) :
    (∀ n : Node, (n.classify native).all q = n.all q) ∧
      ∀ ns, allIn q (classifyAll native ns) = allIn q ns := by
  apply Node.induct
  case leaf => exact fun m l => rfl
  case tag =>
    intro m t children ih
    rw [classify, all, all, hq, ih]
  case nil => rfl
  case cons =>
    intro n ns ihn ihns
    rw [classifyAll, allIn, allIn, ihn, ihns]

end Node

-- What holds of all tags of a program holds of those that are rendered.
theorem Program.allIn_renderScope {p : Program} {registry : TagRegistry} {source : Path}
    {q : Tag → List Node → Bool}
    (hq : ∀ t ns, q t (Node.classifyAll (registry.isNative source) ns) = q t ns)
    (h : Node.allIn q p.nodes = true) :
    Node.allIn q (p.classify registry source).scopes.renderScope = true := by
  rw [Node.allIn_iff] at h ⊢
  intro n hn
  obtain ⟨item, hitem, hn⟩ := List.mem_filterMap.mp hn
  obtain ⟨original, horiginal, rfl⟩ := List.mem_map.mp hitem
  cases original with
  | node original =>
    have hall : original.all q = true := h original (List.mem_filterMap.mpr ⟨_, horiginal, rfl⟩)
    have hclassified : (original.classify (registry.isNative source)).all q = true := by
      rw [(Node.all_classify hq).1]
      exact hall
    simp only [Item.classify, Item.rendered?] at hn
    split at hn
    · cases hn
    · rw [← Option.some.inj hn, Node.unmarkOutput]
      split
      · rwa [Node.all_setStatic]
      · exact hclassified
  | external declaration => cases hn
  | statement code => cases hn

/-- The tag is no native element, or its attributes are expressions one by one exactly if they are one as
an object. -/
def Tag.isEven (native : String → Bool) (t : Tag) : Bool :=
  !t.staticName.any native ||
    (t.attributes.all fun a => acceptsExpression a.value) == acceptsExpression (objectText t.attributes)

/-- All tags are even. -/
def Program.isEven (native : String → Bool) (p : Program) : Bool :=
  Node.allIn (fun t _ => t.isEven native) p.nodes

/-- The tag is an element that has no closing tag. -/
def Render.Env.isVoid (env : Env) (t : Tag) : Bool :=
  match env.kindOf t with
  | .native name => isVoidElement name
  | _ => false

/-- No element without a closing tag has children. -/
def Program.hasEmptyVoids (env : Env) (p : Program) : Bool :=
  Node.allIn (fun t children => !env.isVoid t || children.isEmpty) p.nodes

-- Which tags are void only depends on what tags stand for.
theorem Program.hasEmptyVoids_congr {a b : Env} (hkind : a.kindOf = b.kindOf) (p : Program) :
    p.hasEmptyVoids a = p.hasEmptyVoids b := by
  have hvoid : a.isVoid = b.isVoid := by
    funext t
    rw [Env.isVoid, Env.isVoid, hkind]
  rw [hasEmptyVoids, hasEmptyVoids, hvoid]

/-! ## Agreement -/

namespace Effect

/-- The same tags are used, in the same order; and if `even` holds, all checks pass in both or in
neither. -/
structure Agree (even : Prop) (es fs : List Effect) : Prop where
  requests : es.filterMap request? = fs.filterMap request?
  accepted : even → (AreAccepted es ↔ AreAccepted fs)

variable {even : Prop} {es es' fs fs' gs : List Effect}

theorem agree_refl (even : Prop) (es : List Effect) : Agree even es es := ⟨rfl, fun _ => .rfl⟩

theorem Agree.symm (h : Agree even es fs) : Agree even fs es :=
  ⟨h.requests.symm, fun heven => (h.accepted heven).symm⟩

theorem Agree.trans (h : Agree even es fs) (h' : Agree even fs gs) : Agree even es gs :=
  ⟨h.requests.trans h'.requests, fun heven => (h.accepted heven).trans (h'.accepted heven)⟩

theorem Agree.append (h : Agree even es fs) (h' : Agree even es' fs') :
    Agree even (es ++ es') (fs ++ fs') := by
  constructor
  · rw [List.filterMap_append, List.filterMap_append, h.requests, h'.requests]
  · intro heven
    rw [areAccepted_append, areAccepted_append, h.accepted heven, h'.accepted heven]

theorem Agree.flatMap {f g : String → List Effect} (h : ∀ slot, Agree even (f slot) (g slot))
    (slots : List String) : Agree even (slots.flatMap f) (slots.flatMap g) := by
  induction slots with
  | nil => exact agree_refl even []
  | cons slot rest ih => exact (h slot).append ih

-- A check that passes is as good as none.
theorem agree_nil_check {text : String} (h : even → acceptsExpression text = true)
    (location : Location) : Agree even [] [.check location text] := by
  refine ⟨rfl, fun heven => ?_⟩
  rw [areAccepted_check_cons]
  exact (and_iff_right (h heven)).symm

end Effect

/-! ## Tags -/

namespace Render

open Effect

variable {env : Env} {even : Prop} {t : Tag}

theorem areAccepted_attributes {location : Location} {attributes : List Attribute} :
    AreAccepted (attributes.map fun a => .check location a.value) ↔
      ∀ a ∈ attributes, acceptsExpression a.value = true := by
  induction attributes with
  | nil => exact ⟨fun _ _ h => (List.not_mem_nil h).elim, fun _ => areAccepted_nil⟩
  | cons a rest ih => rw [List.map_cons, areAccepted_check_cons, List.forall_mem_cons, ih]

theorem requests_attributes (location : Location) (attributes : List Attribute) :
    (attributes.map fun a => check location a.value).filterMap request? = [] := by
  rw [List.filterMap_map]
  exact List.filterMap_eq_nil_iff.mpr fun _ _ => rfl

theorem accepts_iff_of_isEven {native : String → Bool} {name : String} (hname : t.staticName = some name)
    (hnative : native name = true) (h : t.isEven native = true) :
    (∀ a ∈ t.attributes, acceptsExpression a.value = true) ↔
      acceptsExpression (objectText t.attributes) = true := by
  rw [Tag.isEven, hname, Option.any_some, hnative] at h
  rw [← eq_of_beq h, List.all_eq_true]

-- Whatever the output is, the checks of an even element amount to those of its attributes one by one.
theorem agree_elementChecks (env : Env) (location : Location)
    (h : even → ((∀ a ∈ t.attributes, acceptsExpression a.value = true) ↔
      acceptsExpression (objectText t.attributes) = true)) :
    Agree even (t.attributes.map fun a => .check location a.value) (elementChecks env location t) := by
  unfold elementChecks
  by_cases hhtml : env.isHtml = true
  · rw [if_pos hhtml]
    constructor
    · rw [requests_attributes, requests_attributes]
    · intro _
      rw [areAccepted_attributes, areAccepted_attributes]
      constructor
      · exact fun hall a ha => hall a (List.mem_of_mem_filter ha)
      · intro hall a ha
        by_cases hliteral : isLiteral a.value = true
        · exact acceptsExpression_of_isLiteral hliteral
        · exact hall a (List.mem_filter.mpr ⟨ha, by simpa using hliteral⟩)
  · rw [if_neg hhtml]
    by_cases hempty : t.attributes = []
    · rw [hempty]
      exact agree_refl even []
    · rw [if_neg (by simpa using hempty)]
      refine ⟨requests_attributes location t.attributes, fun heven => ?_⟩
      rw [areAccepted_attributes, areAccepted_check_cons, h heven]
      exact (and_iff_left areAccepted_nil).symm

theorem acceptsExpression_of_valueOf (h : ∀ a ∈ t.attributes, acceptsExpression a.value = true)
    {name value : String} (hvalue : t.valueOf name = some value) : acceptsExpression value = true := by
  obtain ⟨a, ha, rfl⟩ := Option.map_eq_some_iff.mp hvalue
  exact h a (List.mem_of_find?_eq_some ha)

-- The operands of a loop are attributes.
theorem agree_nil_loopChecks (location : Location)
    (h : even → ∀ a ∈ t.attributes, acceptsExpression a.value = true) :
    Agree even [] (loopChecks location t) := by
  have hvalue {name value : String} (heq : t.valueOf name = some value) (heven : even) :
      acceptsExpression value = true := acceptsExpression_of_valueOf (h heven) heq
  unfold loopChecks
  split
  · rename_i heq
    exact agree_nil_check (hvalue heq) location
  · rename_i heq
    exact agree_nil_check (hvalue heq) location
  · rename_i hfrom hto
    have hstep (heven : even) : acceptsExpression ((t.valueOf "step").getD "1") = true := by
      cases hstep : t.valueOf "step" with
      | some step => exact hvalue hstep heven
      | none => exact (by decide +kernel : acceptsExpression "1" = true)
    exact (agree_nil_check (hvalue hfrom) location).append
      ((agree_nil_check (hvalue hto) location).append (agree_nil_check hstep location))
  · exact agree_refl even []

-- A name that is known to be native never stands for a tag with a module or for a dynamic one.
theorem kindOf_mem_of_isNative (env : Env) {name : String} (hname : t.name = .static name)
    (hslot : Tag.isSlotName name = false) (hnative : env.registry.isNative env.source name = true) :
    env.kindOf t ∈ [.ifTrue, .elseIfTrue, .otherwise, .loop, .macroDefinition, .macroCall name,
      .native name] := by
  unfold Env.kindOf Env.kindOfName
  rw [hname]
  simp only [hslot, hnative, Bool.false_eq_true, if_false, if_true]
  split_ifs <;> simp

theorem staticName_of_kindOf_eq_native {name : String} (h : env.kindOf t = .native name) :
    t.staticName = some name ∧ env.registry.isNative env.source name = true := by
  unfold Env.kindOf at h
  cases hname : t.name with
  | dynamic expression =>
    rw [hname] at h
    cases h
  | static other =>
    rw [hname] at h
    dsimp only at h
    split_ifs at h
    unfold Env.kindOfName at h
    split_ifs at h with hmacro hnative
    · cases h
      exact ⟨by rw [Tag.staticName, hname], hnative⟩
    · split at h <;> cases h

-- A tag of a constant element is known by its name, and all its attributes are constants.
theorem of_isConstant {native : String → Bool} (h : t.isConstant native = true) :
    ∃ name, t.name = .static name ∧ Tag.isSlotName name = false ∧ native name = true ∧
      t.arguments = none ∧ ∀ a ∈ t.attributes, acceptsExpression a.value = true := by
  obtain ⟨name, hname, hslot, hnative, harguments, -, hliteral⟩ := Tag.isConstant_iff.mp h
  exact ⟨name, hname, hslot, hnative, harguments, fun a ha => acceptsExpression_of_isLiteral (hliteral a ha)⟩

theorem slot?_of_static {name : String} (hname : t.name = .static name)
    (hslot : Tag.isSlotName name = false) : t.slot? = none := by
  unfold Tag.slot? Tag.staticName
  rw [hname]
  show (guard (Tag.isSlotName name = true) >>= fun _ => pure _ : Option String) = none
  rw [hslot]
  rfl

-- An element with attributes that are all expressions has no check that fails.
theorem agree_nil_elementChecks (env : Env) (location : Location)
    (haccepts : ∀ a ∈ t.attributes, acceptsExpression a.value = true)
    (h : even → acceptsExpression (objectText t.attributes) = true) :
    Agree even [] (elementChecks env location t) := by
  have hall := agree_elementChecks env location fun heven => iff_of_true haccepts (h heven)
  have hnil : Agree even [] (t.attributes.map fun a => .check location a.value) := by
    refine ⟨(requests_attributes location t.attributes).symm, fun _ => ?_⟩
    rw [areAccepted_attributes]
    exact iff_of_true areAccepted_nil haccepts
  exact hnil.trans hall

/-- Constant content uses no tags, and its checks pass. -/
theorem agree_nil_effects (env : Env) (even : Prop) :
    let native := env.registry.isNative env.source
    (∀ n : Node, n.IsWellMarked native → n.isStatic = true →
      (even → n.all (fun t _ => t.isEven native) = true) →
        n.slot? = none ∧ Agree even [] (n.effects env)) ∧
    ∀ ns, Node.AreWellMarked native ns → (∀ n ∈ ns, n.isStatic = true) →
      (even → Node.allIn (fun t _ => t.isEven native) ns = true) →
        ns.filterMap Node.slot? = [] ∧ Agree even [] (Node.effectsIn env ns) := by
  intro native
  apply Node.induct
  case leaf =>
    intro m l _ _ _
    refine ⟨rfl, ?_⟩
    cases l with
    | text v => exact ⟨rfl, fun _ => (areAccepted_cons_of_none rfl).symm⟩
    | _ => exact agree_refl even []
  case tag =>
    intro m t children ih hmarked hstatic heven
    obtain ⟨hconstant, hchildren⟩ := hmarked.1 hstatic
    obtain ⟨name, hname, hslot, hnative, harguments, haccepts⟩ := of_isConstant hconstant
    rw [Node.all, Bool.and_eq_true, imp_and] at heven
    obtain ⟨hslots, hcontent⟩ := ih hmarked.2 hchildren heven.2
    -- the checks of text output look at each value, those of the tree at all of them as one object
    have hobject (h : even) : acceptsExpression (objectText t.attributes) = true :=
      (accepts_iff_of_isEven (by rw [Tag.staticName, hname]) hnative (heven.1 h)).mp haccepts
    have hcondition : acceptsExpression (conditionOf t) = true := by
      rw [conditionOf, harguments]
      decide +kernel
    refine ⟨slot?_of_static hname hslot, ?_⟩
    have hkind := kindOf_mem_of_isNative env hname hslot hnative
    simp only [List.mem_cons, List.not_mem_nil, or_false] at hkind
    rw [Node.effects, tagEffects]
    -- a native name may still be one of a kind of its own, so that each kind is looked at but calls of
    -- templates
    rcases hkind with hkind | hkind | hkind | hkind | hkind | hkind | hkind <;> rw [hkind]
    · exact (agree_nil_check (fun _ => hcondition) m.location).append hcontent
    · exact (agree_nil_check (fun _ => hcondition) m.location).append hcontent
    · exact hcontent
    · exact (agree_nil_loopChecks m.location fun _ => haccepts).append hcontent
    · dsimp only
      split
      · exact hcontent
      · exact agree_refl even []
    · have hnames : slotNames children = [] := by
        rw [slotNames, hslots]
        rfl
      rw [inputEffects, hnames]
      exact (agree_nil_check hobject m.location).append hcontent
    · dsimp only
      split
      · exact agree_refl even []
      · apply (agree_nil_elementChecks env m.location haccepts hobject).append
        show Agree even [] _
        split
        · exact agree_refl even []
        · exact hcontent
  case nil => exact fun _ _ _ => ⟨rfl, agree_refl even []⟩
  case cons =>
    intro n ns ihn ihns hmarked hstatic heven
    obtain ⟨hn, hns⟩ := List.forall_mem_cons.mp hstatic
    rw [Node.allIn, Bool.and_eq_true, imp_and] at heven
    obtain ⟨hslot, heffects⟩ := ihn hmarked.1 hn heven.1
    obtain ⟨hslots, hrest⟩ := ihns hmarked.2 hns heven.2
    refine ⟨?_, heffects.append hrest⟩
    rw [List.filterMap_cons_none hslot, hslots]

/-! ## Templates -/

section

variable {a b : Env} {children : List Node} {content content' : List Effect}
  {forSlot forSlot' : String → List Effect}

theorem agree_inputEffects (hcontent : Agree even content content')
    (hslots : ∀ slot, Agree even (forSlot slot) (forSlot' slot)) (location : Location) (t : Tag)
    (children : List Node) :
    Agree even (inputEffects location t children content forSlot)
      (inputEffects location t children content' forSlot') :=
  (agree_refl even [.check location (objectText t.attributes)]).append
    ((Agree.flatMap hslots _).append hcontent)

-- Tags other than native elements have the same checks of their own in both kinds of output.
theorem agree_tagEffects (hkind : a.kindOf t = b.kindOf t) (hnative : ∀ name, a.kindOf t ≠ .native name)
    (hcontent : Agree even content content')
    (hslots : ∀ slot, Agree even (forSlot slot) (forSlot' slot)) (m : Marks) :
    Agree even (tagEffects a m t children content forSlot)
      (tagEffects b m t children content' forSlot') := by
  have hinput := agree_inputEffects hcontent hslots m.location t children
  unfold tagEffects
  rw [← hkind]
  cases htag : a.kindOf t with
  | dynamic target => exact (agree_refl even [.check m.location target]).append hinput
  | slot => exact agree_refl even []
  | ifTrue | elseIfTrue => exact (agree_refl even [.check m.location (conditionOf t)]).append hcontent
  | otherwise => exact hcontent
  | loop => exact (agree_refl even (loopChecks m.location t)).append hcontent
  | macroDefinition =>
    dsimp only
    split
    · exact hcontent
    · exact agree_refl even []
  | macroCall name => exact hinput
  | native name => exact absurd htag (hnative name)
  | custom name request => exact (agree_refl even [.use request]).append hinput

-- Native elements are checked as the output needs it.
theorem agree_elementEffects {name : String} (m : Marks)
    (heven : even → ((∀ x ∈ t.attributes, acceptsExpression x.value = true) ↔
      acceptsExpression (objectText t.attributes) = true))
    (hvoid : isVoidElement name = true → content = [] ∧ content' = [])
    (hcontent : Agree even content content') :
    Agree even
      (elementChecks a m.location t ++ if a.isHtml && isVoidElement name then [] else content)
      (elementChecks b m.location t ++ if b.isHtml && isVoidElement name then [] else content') := by
  have hchecks := (agree_elementChecks a m.location heven).symm.trans
    (agree_elementChecks b m.location heven)
  apply hchecks.append
  by_cases h : isVoidElement name = true
  · obtain ⟨rfl, rfl⟩ := hvoid h
    rw [ite_self, ite_self]
    exact agree_refl even []
  · rw [if_neg (by simp [h]), if_neg (by simp [h])]
    exact hcontent

/-- The same well marked nodes have effects that agree, whatever the output is. -/
theorem agree_effects (hkind : a.kindOf = b.kindOf) (hregistry : a.registry = b.registry)
    (hsource : a.source = b.source) (even : Prop) :
    let native := a.registry.isNative a.source
    let bare (t : Tag) (children : List Node) := !a.isVoid t || children.isEmpty
    (∀ n : Node, n.IsWellMarked native → n.all bare = true →
      (even → n.all (fun t _ => t.isEven native) = true) →
        Agree even (n.effects a) (n.effects b) ∧
          ∀ slot, Agree even (n.effectsFor a slot) (n.effectsFor b slot)) ∧
    ∀ ns, Node.AreWellMarked native ns → Node.allIn bare ns = true →
      (even → Node.allIn (fun t _ => t.isEven native) ns = true) →
        Agree even (Node.effectsIn a ns) (Node.effectsIn b ns) ∧
          ∀ slot, Agree even (Node.effectsForIn a slot ns) (Node.effectsForIn b slot ns) := by
  intro native bare
  have hsameNative : native = b.registry.isNative b.source := by rw [← hregistry, ← hsource]
  apply Node.induct
  case leaf => exact fun m l _ _ _ => ⟨agree_refl even _, fun slot => agree_refl even []⟩
  case tag =>
    intro m t children ih hmarked hbare heven
    rw [Node.all, Bool.and_eq_true] at hbare
    obtain ⟨htag, hchildren⟩ : (even → t.isEven native = true) ∧
        (even → Node.allIn (fun t _ => t.isEven native) children = true) := by
      rwa [Node.all, Bool.and_eq_true, imp_and] at heven
    obtain ⟨hcontent, hslots⟩ := ih hmarked.2 hbare.2 hchildren
    constructor
    · cases hof : a.kindOf t with
      | native name =>
        obtain ⟨hname, hnative⟩ := staticName_of_kindOf_eq_native hof
        by_cases hstatic : m.isStatic = true
        · -- a constant element has trivial effects in both kinds of output
          have hleft := ((agree_nil_effects a even).1 (.tag m t children) hmarked hstatic heven).2
          rw [hsameNative] at hmarked heven
          have hright := ((agree_nil_effects b even).1 (.tag m t children) hmarked hstatic heven).2
          exact hleft.symm.trans hright
        · have hvoid (h : isVoidElement name = true) :
              Node.effectsIn a children = [] ∧ Node.effectsIn b children = [] := by
            have hempty : bare t children = true := hbare.1
            have hisVoid : a.isVoid t = true := by
              rw [Env.isVoid, hof]
              exact h
            simp only [bare, hisVoid, Bool.not_true, Bool.false_or, List.isEmpty_iff] at hempty
            rw [hempty]
            exact ⟨rfl, rfl⟩
          have helement := agree_elementEffects (a := a) (b := b) m
            (fun h => accepts_iff_of_isEven hname hnative (htag h)) hvoid hcontent
          rw [Node.effects, Node.effects, tagEffects, tagEffects, ← hkind, hof]
          simpa only [hstatic, Bool.and_false, Bool.false_eq_true, if_false] using helement
      | _ =>
        apply agree_tagEffects (congrFun hkind t) _ hcontent hslots
        intro name h
        rw [hof] at h
        cases h
    · intro slot
      rw [Node.effectsFor, Node.effectsFor]
      split
      · exact agree_inputEffects hcontent hslots m.location t children
      · exact agree_refl even []
  case nil => exact fun _ _ _ => ⟨agree_refl even [], fun slot => agree_refl even []⟩
  case cons =>
    intro n ns ihn ihns hmarked hbare heven
    rw [Node.allIn, Bool.and_eq_true] at hbare
    rw [Node.allIn, Bool.and_eq_true, imp_and] at heven
    obtain ⟨hn, hnSlots⟩ := ihn hmarked.1 hbare.1 heven.1
    obtain ⟨hns, hnsSlots⟩ := ihns hmarked.2 hbare.2 heven.2
    exact ⟨hn.append hns, fun slot => (hnSlots slot).append (hnsSlots slot)⟩

end

end Render

open Effect

/-- What is rendered of a program has effects that agree in both kinds of output. -/
theorem Program.agree_renderScope {p : Program} {a b : Env} (hkind : a.kindOf = b.kindOf)
    (hregistry : a.registry = b.registry) (hsource : a.source = b.source)
    (hvoids : p.hasEmptyVoids a = true) :
    let scopes := (p.classify a.registry a.source).scopes
    Agree (p.isEven (a.registry.isNative a.source) = true) (Node.effectsIn a scopes.renderScope)
      (Node.effectsIn b scopes.renderScope) := by
  have hmarked : Node.AreWellMarked (a.registry.isNative a.source)
      (p.classify a.registry a.source).scopes.renderScope := by
    rw [Node.areWellMarked_iff]
    exact fun n hn => (Program.isClassified_of_mem_renderScope hn).isWellMarked
  have hempty (t : Tag) (ns : List Node) :
      (!a.isVoid t || (Node.classifyAll (a.registry.isNative a.source) ns).isEmpty) =
        (!a.isVoid t || ns.isEmpty) := by
    cases ns <;> rfl
  have hbare := Program.allIn_renderScope hempty hvoids
  exact ((agree_effects hkind hregistry hsource _).2 _ hmarked hbare
    (Program.allIn_renderScope fun _ _ => rfl)).1

end TemplateCompiler
