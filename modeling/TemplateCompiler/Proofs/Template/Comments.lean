import TemplateCompiler.Analysis
import TemplateCompiler.Compilation

/-!
# Programs without some of their comments

That one program is another one without some of its comments, at whatever depth (`Program.Drops`). Neither the
tags of the program show it, nor the names that it declares, nor the scope of its module; and constant nodes
stay constant, with the same markup. What is rendered lacks the same comments (`Program.Drops.renderScope`).
-/

namespace TemplateCompiler

variable {mayEmpty : Tag → Bool}

/-! ## Nodes -/

namespace Node

/-- There are other nodes than attribute tags. -/
def hasContent (ns : List Node) : Bool := !ns.all (·.slot?.isSome)

/-- The second list is the first without some of its comments, at all depths. Only tags that `mayEmpty`
holds of may lose all of their content. -/
inductive Drops (mayEmpty : Tag → Bool) : List Node → List Node → Prop
  | nil : Drops mayEmpty [] []
  | keep (n : Node) {ns rest : List Node} (behind : Drops mayEmpty ns rest) :
    Drops mayEmpty (n :: ns) (n :: rest)
  | comment (m : Marks) (text : String) {ns rest : List Node} (behind : Drops mayEmpty ns rest) :
    Drops mayEmpty (.leaf m (.comment text) :: ns) rest
  | tag (m : Marks) (t : Tag) {children kept ns rest : List Node} (inside : Drops mayEmpty children kept)
    (content : hasContent children = true → hasContent kept = true ∨ mayEmpty t = true)
    (behind : Drops mayEmpty ns rest) :
    Drops mayEmpty (.tag m t children :: ns) (.tag m t kept :: rest)

variable {ns rest : List Node}

theorem hasContent_classifyAll (native : String → Bool) (ns : List Node) :
    hasContent (classifyAll native ns) = hasContent ns := by
  have hslot (n : Node) : (n.classify native).slot? = n.slot? := by cases n <;> rfl
  rw [hasContent, hasContent, classifyAll_eq_map, List.all_map]
  simp only [Function.comp_def, hslot]

namespace Drops

theorem filterMap_slot? (h : Drops mayEmpty ns rest) :
    ns.filterMap slot? = rest.filterMap slot? := by
  induction h with
  | nil => rfl
  | keep n _ ih => rw [List.filterMap_cons, List.filterMap_cons, ih]
  | comment m text _ ih => exact ih
  | tag m t _ _ _ _ ih =>
    rw [List.filterMap_cons, List.filterMap_cons, ih]
    rfl

theorem any_eq {f : Node → Bool} (hcomment : ∀ m text, f (.leaf m (.comment text)) = false)
    (htag : ∀ m t children kept, f (.tag m t children) = f (.tag m t kept))
    (h : Drops mayEmpty ns rest) : ns.any f = rest.any f := by
  induction h with
  | nil => rfl
  | keep n _ ih => rw [List.any_cons, List.any_cons, ih]
  | comment m text _ ih => rw [List.any_cons, hcomment, Bool.false_or, ih]
  | @tag m t children kept _ _ _ _ _ _ ih => rw [List.any_cons, List.any_cons, htag m t children kept, ih]

theorem hasContent (h : Drops mayEmpty ns rest) (hrest : Node.hasContent rest = true) :
    Node.hasContent ns = true := by
  have hall : ns.all (·.slot?.isSome) = true → rest.all (·.slot?.isSome) = true := by
    clear hrest
    induction h with
    | nil => exact id
    | keep n _ ih | tag m t _ _ _ _ ih =>
      rw [List.all_cons, List.all_cons, Bool.and_eq_true, Bool.and_eq_true]
      exact fun hns => ⟨hns.1, ih hns.2⟩
    | comment m text _ ih => exact fun hns => ih ((Bool.and_eq_true _ _).mp hns).2
  unfold Node.hasContent at *
  rw [Bool.not_eq_true', Bool.eq_false_iff] at *
  exact mt hall hrest

theorem occurrencesIn (h : Drops mayEmpty ns rest) (enclosing : List Tag) :
    Node.occurrencesIn enclosing ns = Node.occurrencesIn enclosing rest := by
  induction h generalizing enclosing with
  | nil => rfl
  | keep n _ ih => rw [Node.occurrencesIn, Node.occurrencesIn, ih]
  | comment m text _ ih => exact ih enclosing
  | tag m t _ _ _ ihinside ih =>
    rw [Node.occurrencesIn, Node.occurrencesIn, Node.occurrences, Node.occurrences, ihinside, ih]

-- Comments are marked as constant, so that tags are as constant without them.
theorem classifyAll (h : Drops mayEmpty ns rest) (native : String → Bool) :
    Drops mayEmpty (Node.classifyAll native ns) (Node.classifyAll native rest) ∧
      (Node.classifyAll native ns).all (·.isStatic) = (Node.classifyAll native rest).all (·.isStatic) := by
  induction h with
  | nil => exact ⟨.nil, rfl⟩
  | keep n _ ih => exact ⟨.keep _ ih.1, congrArg (_ && ·) ih.2⟩
  | comment m text _ ih => exact ⟨.comment _ text ih.1, ih.2⟩
  | tag m t _ hcontent _ ihinside ih =>
    rw [Node.classifyAll, Node.classifyAll, Node.classify, Node.classify, ihinside.2]
    refine ⟨.tag _ t ihinside.1 ?_ ih.1, congrArg (_ && ·) ih.2⟩
    rw [hasContent_classifyAll, hasContent_classifyAll]
    exact hcontent

-- Comments that are left out have no markup.
theorem markupAll (h : Drops mayEmpty ns rest) :
    Node.markupAll false ns = Node.markupAll false rest := by
  induction h with
  | nil => rfl
  | keep n _ ih => rw [Node.markupAll, Node.markupAll, ih]
  | comment m text _ ih => exact String.empty_append.trans ih
  | tag m t _ _ _ ihinside ih =>
    rw [Node.markupAll, Node.markupAll, Node.markup, Node.markup, ihinside, ih]

end Drops

end Node

/-! ## Items -/

/-- The second list is the first without some of its comments, at all depths. -/
inductive Item.Drops (mayEmpty : Tag → Bool) : List Item → List Item → Prop
  | nil : Drops mayEmpty [] []
  | keep (i : Item) {items rest : List Item} (behind : Drops mayEmpty items rest) :
    Drops mayEmpty (i :: items) (i :: rest)
  | comment (m : Marks) (text : String) {items rest : List Item} (behind : Drops mayEmpty items rest) :
    Drops mayEmpty (.node (.leaf m (.comment text)) :: items) rest
  | tag (m : Marks) (t : Tag) {children kept : List Node} {items rest : List Item}
    (inside : Node.Drops mayEmpty children kept)
    (content : Node.hasContent children = true → Node.hasContent kept = true ∨ mayEmpty t = true)
    (behind : Drops mayEmpty items rest) :
    Drops mayEmpty (.node (.tag m t children) :: items) (.node (.tag m t kept) :: rest)

namespace Item.Drops

variable {items rest : List Item}

theorem nodes (h : Item.Drops mayEmpty items rest) :
    Node.Drops mayEmpty (items.filterMap Item.node?) (rest.filterMap Item.node?) := by
  induction h with
  | nil => exact .nil
  | keep i _ ih =>
    cases i with
    | node n => exact .keep n ih
    | external declaration => exact ih
    | statement code => exact ih
  | comment m text _ ih => exact .comment m text ih
  | tag m t hinside hcontent _ ih => exact .tag m t hinside hcontent ih

theorem flatMap_declaredNames (h : Item.Drops mayEmpty items rest) :
    items.flatMap Item.declaredNames = rest.flatMap Item.declaredNames := by
  induction h with
  | nil => rfl
  | keep i _ ih => rw [List.flatMap_cons, List.flatMap_cons, ih]
  | comment m text _ ih => exact ih
  | tag m t _ _ _ ih => exact ih

-- Marked or not, comments at the top level are rendered.
theorem scopes (h : Item.Drops mayEmpty items rest) (native : String → Bool) :
    (items.map (Item.classify native)).filter (·.rendered?.isNone) =
        (rest.map (Item.classify native)).filter (·.rendered?.isNone) ∧
      Node.Drops mayEmpty ((items.map (Item.classify native)).filterMap Item.rendered?)
        ((rest.map (Item.classify native)).filterMap Item.rendered?) := by
  induction h with
  | nil => exact ⟨rfl, .nil⟩
  | keep i _ ih =>
    rw [List.map_cons, List.map_cons, List.filter_cons, List.filter_cons, List.filterMap_cons,
      List.filterMap_cons, ih.1]
    refine ⟨rfl, ?_⟩
    cases (i.classify native).rendered? with
    | none => exact ih.2
    | some n => exact .keep n ih.2
  | comment m text _ ih => exact ⟨ih.1, .comment _ text ih.2⟩
  | tag m t hinside hcontent _ ih =>
    refine ⟨ih.1, .tag _ t (hinside.classifyAll native).1 ?_ ih.2⟩
    rw [Node.hasContent_classifyAll, Node.hasContent_classifyAll]
    exact hcontent

end Item.Drops

/-! ## Programs -/

/-- The second program is the first without some of its comments, at all depths. Only tags that `mayEmpty`
holds of may lose all of their content. -/
structure Program.Drops (mayEmpty : Tag → Bool) (p rest : Program) : Prop where
  body : Item.Drops mayEmpty p.body rest.body
  moduleCode : p.moduleCode = rest.moduleCode

namespace Program.Drops

variable {p rest : Program}

theorem occurrences (h : p.Drops mayEmpty rest) : p.occurrences = rest.occurrences :=
  h.body.nodes.occurrencesIn []

theorem macroNames (h : p.Drops mayEmpty rest) : p.macroNames = rest.macroNames := by
  rw [Program.macroNames, Program.macroNames, h.occurrences]

theorem hasClass (h : p.Drops mayEmpty rest) : p.hasClass = rest.hasClass :=
  h.body.nodes.any_eq (fun _ _ => rfl) fun _ _ _ _ => rfl

theorem prepare (h : p.Drops mayEmpty rest) (m : Metadata) (c : Companions) :
    m.prepare c p = m.prepare c rest := by
  rw [Metadata.prepare, Metadata.prepare, h.macroNames, h.hasClass]

theorem analyze {σ : Type} (h : p.Drops mayEmpty rest) (registry : TagRegistry) (source : Path)
    (ask : Path → StateM σ (Option Summary)) (c : Companions) (m : Metadata) :
    p.analyze registry source ask c m = rest.analyze registry source ask c m := by
  rw [Program.analyze, Program.analyze, h.occurrences, h.prepare]

theorem declaredNames (h : p.Drops mayEmpty rest) : p.declaredNames = rest.declaredNames :=
  h.body.flatMap_declaredNames

section

variable (registry : TagRegistry) (source : Path)

theorem moduleScope (h : p.Drops mayEmpty rest) :
    (p.classify registry source).scopes.moduleScope = (rest.classify registry source).scopes.moduleScope :=
  (h.body.scopes _).1

theorem renderScope (h : p.Drops mayEmpty rest) :
    Node.Drops mayEmpty (p.classify registry source).scopes.renderScope
      (rest.classify registry source).scopes.renderScope :=
  (h.body.scopes _).2

end

end Program.Drops

end TemplateCompiler
