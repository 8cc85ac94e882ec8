import TemplateCompiler.Template.Constant

/-!
# Marks of constant content

What the marks that `Node.classify` sets promise (`Node.IsWellMarked`): a marked placeholder is a
constant, and a marked tag is constant by itself and has marked children only. Taking marks away never
breaks that promise.
-/

namespace TemplateCompiler

open Script (isLiteral)

/-- A tag that is constant by itself is a native element with constant attributes that binds no names. -/
theorem Tag.isConstant_iff {native : String → Bool} {t : Tag} :
    t.isConstant native = true ↔
      ∃ name, t.name = .static name ∧ Tag.isSlotName name = false ∧ native name = true ∧
        t.arguments = none ∧ t.params = [] ∧ ∀ a ∈ t.attributes, isLiteral a.value = true := by
  obtain ⟨tagName, attributes, arguments, params⟩ := t
  cases tagName with
  | dynamic expression => simp [isConstant, staticName]
  | static name => simp [isConstant, staticName, isAttributeTag, and_assoc]

namespace Node

/-! ## Taking the marks of tags away -/

mutual

/-- The node without the marks of its tags, at all depths. -/
def unmarkTags : Node → Node
  | .leaf m l => .leaf m l
  | .tag m t children => .tag { m with isStatic := false } t (unmarkTagsIn children)
termination_by structural n => n

/-- The nodes without the marks of their tags, at all depths. -/
def unmarkTagsIn : List Node → List Node
  | [] => []
  | n :: ns => n.unmarkTags :: unmarkTagsIn ns
termination_by structural ns => ns

end

theorem unmarkTagsIn_eq_map (ns : List Node) : unmarkTagsIn ns = ns.map unmarkTags := by
  induction ns with
  | nil => rfl
  | cons n ns ih => rw [unmarkTagsIn, ih, List.map_cons]

/-! ## What marks promise -/

mutual

/-- Marked nodes are constant, as far as their own content and the marks of their children say. -/
def IsWellMarked (native : String → Bool) : Node → Prop
  | .leaf m l => m.isStatic = true → l.isConstant true = true
  | .tag m t children =>
    (m.isStatic = true → t.isConstant native = true ∧ ∀ n ∈ children, n.isStatic = true) ∧
      AreWellMarked native children
termination_by structural n => n

/-- All nodes of a list are well marked. -/
def AreWellMarked (native : String → Bool) : List Node → Prop
  | [] => True
  | n :: ns => n.IsWellMarked native ∧ AreWellMarked native ns
termination_by structural ns => ns

end

theorem areWellMarked_iff {native : String → Bool} {ns : List Node} :
    AreWellMarked native ns ↔ ∀ n ∈ ns, n.IsWellMarked native := by
  induction ns with
  | nil => exact ⟨fun _ _ h => (List.not_mem_nil h).elim, fun _ => trivial⟩
  | cons n ns ih => rw [AreWellMarked, List.forall_mem_cons, ih]

-- A node without its own mark promises less.
theorem IsWellMarked.setStatic_false {native : String → Bool} {n : Node}
    (h : n.IsWellMarked native) : (n.setStatic false).IsWellMarked native := by
  cases n with
  | leaf m l => exact fun hmark => Bool.noConfusion hmark
  | tag m t children => exact ⟨fun hmark => Bool.noConfusion hmark, h.2⟩

theorem IsWellMarked.unmarkOutput {native : String → Bool} {n : Node}
    (h : n.IsWellMarked native) : n.unmarkOutput.IsWellMarked native := by
  unfold Node.unmarkOutput
  split
  · exact h.setStatic_false
  · exact h

/-- Classified nodes are well marked. -/
theorem isWellMarked_classify (native : String → Bool) (n : Node) :
    (n.classify native).IsWellMarked native := by
  have h : (∀ n : Node, (n.classify native).IsWellMarked native) ∧
      ∀ ns, AreWellMarked native (classifyAll native ns) := by
    apply Node.induct
    case leaf =>
      intro m l hmark
      cases l <;> first | rfl | exact hmark
    case tag =>
      intro m t children ih
      refine ⟨fun hmark => ?_, ih⟩
      rw [Bool.and_eq_true, List.all_eq_true] at hmark
      exact hmark
    case nil => trivial
    case cons => exact fun n ns hn hns => ⟨hn, hns⟩
  exact h.1 n

/-- The node carries marks as `classify` sets them, below the top level or at the top level. -/
def IsClassified (native : String → Bool) (n : Node) : Prop :=
  ∃ original : Node,
    n = original.classify native ∨ n = (original.classify native).unmarkOutput

theorem IsClassified.isWellMarked {native : String → Bool} {n : Node}
    (h : n.IsClassified native) : n.IsWellMarked native := by
  obtain ⟨original, rfl | rfl⟩ := h
  · exact isWellMarked_classify native original
  · exact (isWellMarked_classify native original).unmarkOutput

end Node

/-- What is rendered of a classified program is classified. -/
theorem Program.isClassified_of_mem_renderScope {p : Program} {registry : TagRegistry}
    {source : Path} {n : Node} (h : n ∈ (p.classify registry source).scopes.renderScope) :
    n.IsClassified (registry.isNative source) := by
  obtain ⟨item, hitem, hn⟩ := List.mem_filterMap.mp h
  obtain ⟨original, -, rfl⟩ := List.mem_map.mp hitem
  cases original with
  | node original =>
    simp only [Item.classify, Item.rendered?] at hn
    split at hn
    · cases hn
    · exact ⟨original, .inr (Option.some.inj hn).symm⟩
  | external declaration => cases hn
  | statement code => cases hn

end TemplateCompiler
