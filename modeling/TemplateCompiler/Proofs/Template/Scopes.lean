import TemplateCompiler.Proofs.Render.Assembly

/-!
# The two halves of a classified body

Which items of a body belong to the module is decided by what was authored (`Item.isModuleScoped`), whatever
marks the input carries. Classifying changes nothing but marks, so that the two halves are the two filters
of the body, and no item of the module is one that would have to be rendered (`scopes_classify`).
-/

namespace TemplateCompiler

open Render

/-! ## Taking all marks away -/

namespace Node

mutual

/-- The node without any mark for being constant, at all depths. -/
def unmark : Node → Node
  | .leaf m l => .leaf { m with isStatic := false } l
  | .tag m t children => .tag { m with isStatic := false } t (unmarkAll children)
termination_by structural n => n

/-- The nodes without any mark for being constant, at all depths. -/
def unmarkAll : List Node → List Node
  | [] => []
  | n :: ns => n.unmark :: unmarkAll ns
termination_by structural ns => ns

end

theorem unmark_classify (native : String → Bool) :
    (∀ n : Node, (n.classify native).unmark = n.unmark) ∧
      ∀ ns, unmarkAll (classifyAll native ns) = unmarkAll ns := by
  apply Node.induct
  case leaf => exact fun m l => rfl
  case tag =>
    intro m t children ih
    rw [classify, unmark, unmark, ih]
  case nil => rfl
  case cons =>
    intro n ns ihn ihns
    rw [classifyAll, unmarkAll, unmarkAll, ihn, ihns]

theorem unmark_setStatic (n : Node) (isStatic : Bool) : (n.setStatic isStatic).unmark = n.unmark := by
  cases n <;> rfl

theorem unmark_unmarkOutput (n : Node) : n.unmarkOutput.unmark = n.unmark := by
  unfold unmarkOutput
  split
  · exact n.unmark_setStatic false
  · rfl

end Node

/-! ## Items -/

namespace Item

/-- The item without any mark for being constant, at all depths. -/
def unmark : Item → Item
  | .node n => .node n.unmark
  | i => i

/-- The item belongs to the module: it is an import, a statement, a component class, or a scriptlet that its
author made static. -/
def isModuleScoped : Item → Bool
  | .external _ | .statement _ => true
  | .node (.leaf m (.scriptlet _)) => m.isStatic
  | .node (.leaf _ (.component _)) => true
  | .node _ => false

theorem unmark_classify (native : String → Bool) (i : Item) : (i.classify native).unmark = i.unmark := by
  cases i with
  | node n =>
    have hnode : (n.classify native).unmarkOutput.unmark = n.unmark := by
      rw [Node.unmark_unmarkOutput, (Node.unmark_classify native).1]
    exact congrArg Item.node hnode
  | external declaration => rfl
  | statement code => rfl

-- Of a leaf its kind decides, and of a scriptlet the mark that it was authored with.
theorem isNone_rendered?_classify (native : String → Bool) (i : Item) :
    (i.classify native).rendered?.isNone = i.isModuleScoped := by
  cases i with
  | node n =>
    cases n with
    | leaf m l =>
      cases l with
      | scriptlet code =>
        show (if m.isStatic = true then none else some _).isNone = m.isStatic
        cases m.isStatic <;> rfl
      | _ => rfl
    | tag m t children => rfl
  | external declaration => rfl
  | statement code => rfl

theorem eq_node_of_rendered?_eq_some {i : Item} {n : Node} (h : i.rendered? = some n) : i = .node n := by
  cases i with
  | node other =>
    have hif : (if other.isStatic = true then none else some other) = some n := h
    by_cases hstatic : other.isStatic = true
    · rw [if_pos hstatic] at hif
      cases hif
    · rw [if_neg hstatic] at hif
      rw [Option.some.inj hif]
  | external declaration => cases h
  | statement code => cases h

-- What stays marked at the top level produces no output.
theorem producesOutput_of_rendered?_eq_none {native : String → Bool} {i : Item} {n : Node}
    (hnode : i.classify native = .node n) (hnone : (i.classify native).rendered? = none) :
    n.producesOutput = false := by
  cases i with
  | node original =>
    have hn : (original.classify native).unmarkOutput = n := Item.node.inj hnode
    rw [hnode] at hnone
    have hif : (if n.isStatic = true then none else some n) = none := hnone
    have hstatic : n.isStatic = true := by
      by_contra hstatic
      rw [if_neg hstatic] at hif
      cases hif
    by_cases houtput : (original.classify native).producesOutput = true
    · rw [Node.unmarkOutput, if_pos houtput] at hn
      rw [← hn, Node.isStatic_setStatic] at hstatic
      cases hstatic
    · rw [Node.unmarkOutput, if_neg houtput] at hn
      rw [← hn]
      simpa using houtput
  | external declaration => cases hnode
  | statement code => cases hnode

end Item

/-! ## The module scope -/

theorem Program.moduleScope_classify (p : Program) (registry : TagRegistry) (source : Path) :
    (p.classify registry source).scopes.moduleScope =
      (p.body.filter Item.isModuleScoped).map (Item.classify (registry.isNative source)) := by
  show (p.body.map (Item.classify (registry.isNative source))).filter (fun i => i.rendered?.isNone) = _
  rw [List.filter_map]
  congr 2
  exact funext (Item.isNone_rendered?_classify _)

/-- What the items of the module give is what those of the body give that belong to the module. -/
theorem Program.filterMap_moduleScope {α : Type} (p : Program) (registry : TagRegistry) (source : Path)
    {f g : Item → Option α}
    (h : ∀ i : Item, (if i.isModuleScoped then f (i.classify (registry.isNative source)) else none) = g i) :
    (p.classify registry source).scopes.moduleScope.filterMap f = p.body.filterMap g := by
  rw [moduleScope_classify, List.filterMap_map, List.filterMap_filter]
  exact List.filterMap_congr fun i _ => h i

/-- Items that produce no output all count: each is written into the module or is a class of the
component. -/
theorem length_moduleScope (registry : TagRegistry) (source : Path) (working : Option Path) (items : List Item)
    (m : Metadata) (h : ∀ n, Item.node n ∈ items → n.producesOutput = false) :
    (moduleScope registry source working items m).1.length + (items.filterMap Item.component?).length =
      items.length := by
  induction items generalizing m with
  | nil => rfl
  | cons i rest ih =>
    have hrest (m' : Metadata) : (moduleScope registry source working rest m').1.length +
        (rest.filterMap Item.component?).length = rest.length :=
      ih m' fun n hn => h n (List.mem_cons_of_mem i hn)
    have hwritten (items : List ModuleItem) (item : ModuleItem) (hi : i.component? = none)
        (hlength : items.length + (rest.filterMap Item.component?).length = rest.length) :
        (item :: items).length + ((i :: rest).filterMap Item.component?).length =
          (i :: rest).length := by
      rw [List.filterMap_cons_none hi, List.length_cons, List.length_cons]
      omega
    unfold moduleScope
    split
    · exact hwritten _ _ rfl (hrest _)
    · exact hwritten _ _ rfl (hrest m)
    · exact hwritten _ _ rfl (hrest m)
    · have hclass := hrest m
      show (moduleScope registry source working rest m).1.length +
        (rest.filterMap Item.component?).length + 1 = rest.length + 1
      omega
    · rename_i n hscriptlet hcomponent
      have houtput := h n List.mem_cons_self
      cases n with
      | leaf marks l =>
        cases l with
        | scriptlet code => exact absurd rfl (hscriptlet marks code)
        | component code => exact absurd rfl (hcomponent marks code)
        | _ => cases houtput
      | tag marks t children => cases houtput

namespace Program

/-- The module has just the imports, the statements, the classes and the static scriptlets of a body, and what
is rendered is all the rest, both in authored order and without other changes than of marks. So nothing
that would be rendered is left to the module, where it would be lost. -/
theorem scopes_classify (p : Program) (registry : TagRegistry) (source : Path) :
    let scopes := (p.classify registry source).scopes
    scopes.moduleScope.map Item.unmark = (p.body.filter Item.isModuleScoped).map Item.unmark ∧
    (scopes.renderScope.map fun n => Item.node n.unmark) =
      (p.body.filter fun i => !i.isModuleScoped).map Item.unmark ∧
    (∀ n, Item.node n ∈ scopes.moduleScope → n.producesOutput = false) ∧
    ∀ working m, (moduleScope registry source working scopes.moduleScope m).1.length +
      (scopes.moduleScope.filterMap Item.component?).length = scopes.moduleScope.length := by
  intro scopes
  let native := registry.isNative source
  have hmodule : scopes.moduleScope = (p.body.filter Item.isModuleScoped).map (Item.classify native) :=
    p.moduleScope_classify registry source
  have houtput : ∀ n, Item.node n ∈ scopes.moduleScope → n.producesOutput = false := by
    intro n hn
    have hnone : (Item.node n).rendered? = none := by
      have hmem := (List.mem_filter.mp hn).2
      exact Option.isNone_iff_eq_none.mp hmem
    rw [hmodule] at hn
    obtain ⟨i, -, hi⟩ := List.mem_map.mp hn
    exact Item.producesOutput_of_rendered?_eq_none hi (hi ▸ hnone)
  refine ⟨?_, ?_, houtput, fun working m => length_moduleScope registry source working _ m houtput⟩
  · rw [hmodule, List.map_map]
    exact List.map_congr_left fun i _ => i.unmark_classify native
  · show ((p.body.map (Item.classify native)).filterMap Item.rendered?).map _ = _
    induction p.body with
    | nil => rfl
    | cons i rest ih =>
      have hscoped := Item.isNone_rendered?_classify native i
      rw [List.map_cons]
      cases hrendered : (i.classify native).rendered? with
      | none =>
        rw [hrendered] at hscoped
        rw [List.filterMap_cons_none hrendered, List.filter_cons_of_neg (by simp [← hscoped]), ih]
      | some n =>
        rw [hrendered] at hscoped
        have hunmark : Item.node n.unmark = i.unmark := by
          rw [← i.unmark_classify native, Item.eq_node_of_rendered?_eq_some hrendered]
          rfl
        rw [List.filterMap_cons_some hrendered, List.filter_cons_of_pos (by simp [← hscoped]),
          List.map_cons, List.map_cons, ih, hunmark]

end Program

end TemplateCompiler
