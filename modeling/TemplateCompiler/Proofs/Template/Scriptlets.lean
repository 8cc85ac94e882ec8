import TemplateCompiler.Proofs.Template.Marks
import TemplateCompiler.Proofs.Template.Order

/-!
# Scriptlets of a template

Where the scriptlets of a template stand: each of them is one of several nodes next to each other, the
children of a tag or what is rendered at the top level (`Node.siblings`). Marks only tell which nodes
are in a constant element, and all scriptlets there are static ones (`isStatic_of_isFolded`). Besides those
at the top level that belong to the module, a program has just the scriptlets of what is rendered
(`Program.perm_scriptlets`).
-/

namespace TemplateCompiler

open Render

/-! ## Scriptlets -/

/-- A scriptlet: its code, and whether its author made it static. -/
structure Scriptlet where
  code : String
  isStatic : Bool
deriving DecidableEq, Repr

/-- The code of a scriptlet as a statement, unless it is blank. -/
def authored? (code : String) : Option String :=
  if (Text.trim code).isEmpty then none else some (Text.trim code)

/-- The statement that a scriptlet makes. -/
def Scriptlet.statement? (x : Scriptlet) : Option String := authored? x.code

/-- The statement that a part makes, if it is a scriptlet. -/
def Part.authored? : Part → Option String
  | .leaf (.scriptlet code) => TemplateCompiler.authored? code
  | _ => none

/-- The scriptlet that a node is. -/
def Node.scriptlet? : Node → Option Scriptlet
  | .leaf m (.scriptlet code) => some ⟨code, m.isStatic⟩
  | _ => none

-- The mark of a scriptlet says whether it was authored as static.
theorem Node.isStatic_of_scriptlet? {n : Node} {x : Scriptlet} (h : n.scriptlet? = some x) :
    x.isStatic = n.isStatic := by
  unfold scriptlet? at h
  split at h
  · cases h
    rfl
  · cases h

/-! ## Siblings -/

/-- Nodes next to each other, and whether they stand in a constant element. -/
structure Siblings where
  nodes : List Node
  isFolded : Bool

/-- The scriptlets among siblings. -/
def Siblings.scriptlets (x : Siblings) : List Scriptlet := x.nodes.filterMap Node.scriptlet?

/-- Whether the children of a tag have their attribute tags taken; nothing if they are not rendered at all.
`takes` says it of the tag itself. -/
def View.enter (v : View) (takes : Bool) (t : Tag) : Option Bool :=
  match v.kindOf t with
  | .slot => if takes then some true else none
  | .ifTrue | .elseIfTrue | .otherwise | .loop => some false
  | .macroDefinition => if t.macroName?.isSome then some false else none
  | .macroCall _ | .dynamic _ | .custom _ _ => some true
  | .native name => if v.isHtml && isVoidElement name then none else some false

/-- The tag is written as a constant element. -/
def View.folds (v : View) (m : Marks) (t : Tag) : Bool :=
  match v.kindOf t with
  | .native _ => v.isHtml && m.isStatic
  | _ => false

theorem View.isStatic_of_folds {v : View} {m : Marks} {t : Tag} (h : v.folds m t = true) :
    v.isHtml = true ∧ m.isStatic = true := by
  unfold folds at h
  split at h
  · exact Bool.and_eq_true_iff.mp h
  · cases h

-- Who takes attribute tags makes no difference to other tags.
theorem View.enter_of_slot?_eq_none {v : View} {t : Tag} (h : t.slot? = none) (takes takes' : Bool) :
    v.enter takes t = v.enter takes' t := by
  have hkind : v.kindOf t ≠ .slot := by
    intro hslot
    have hsome := (v.kindOf_eq_slot_iff t).mp hslot
    rw [h] at hsome
    cases hsome
  unfold enter
  split
  · exact absurd ‹_› hkind
  all_goals rfl

namespace Node

mutual

/-- The siblings at all depths below a node, apart from those that are not rendered. `takes` says whether
the tag around the node takes attribute tags, and `folded` whether that tag is in a constant element or
is one. -/
def siblings (v : View) (takes folded : Bool) : Node → List Siblings
  | .leaf _ _ => []
  | .tag m t children =>
    match v.enter takes t with
    | some inside =>
      ⟨children, folded || v.folds m t⟩ :: siblingsIn v inside (folded || v.folds m t) children
    | none => []
termination_by structural n => n

/-- The siblings at all depths below nodes. -/
def siblingsIn (v : View) (takes folded : Bool) : List Node → List Siblings
  | [] => []
  | n :: ns => n.siblings v takes folded ++ siblingsIn v takes folded ns
termination_by structural ns => ns

end

section

variable {v : View}

theorem siblingsIn_eq_flatMap (takes folded : Bool) (ns : List Node) :
    siblingsIn v takes folded ns = ns.flatMap (·.siblings v takes folded) := by
  induction ns with
  | nil => rfl
  | cons n ns ih => rw [siblingsIn, ih, List.flatMap_cons]

-- A tag that takes attribute tags has, besides these, what any other tag would have.
theorem mem_siblingsIn_true {folded : Bool} {ns : List Node} {x : Siblings}
    (h : x ∈ siblingsIn v true folded ns) :
    (∃ n ∈ ns, ∃ slot, n.slot? = some slot ∧ x ∈ n.siblings v true folded) ∨
      x ∈ siblingsIn v false folded ns := by
  rw [siblingsIn_eq_flatMap] at h ⊢
  obtain ⟨n, hn, hx⟩ := List.mem_flatMap.mp h
  cases hslot : n.slot? with
  | some slot => exact .inl ⟨n, hn, slot, hslot, hx⟩
  | none =>
    refine .inr (List.mem_flatMap.mpr ⟨n, hn, ?_⟩)
    cases n with
    | leaf m l => exact hx
    | tag m t children =>
      rw [siblings, View.enter_of_slot?_eq_none hslot true false] at hx
      rw [siblings]
      exact hx

-- Attribute tags that no tag takes have nothing that is rendered.
theorem siblingsIn_of_slot? {folded : Bool} {ns : List Node} (h : ns.all (·.slot?.isSome) = true) :
    siblingsIn v false folded ns = [] := by
  rw [siblingsIn_eq_flatMap, List.flatMap_eq_nil_iff]
  intro n hn
  have hsome : n.slot?.isSome = true := List.all_eq_true.mp h n hn
  cases n with
  | leaf m l => rfl
  | tag m t children =>
    rw [siblings, View.enter, (v.kindOf_eq_slot_iff t).mpr hsome]
    rfl

/-! ## Constant elements -/

-- Below a constant element everything stands in it.
theorem isFolded_of_mem_siblings :
    (∀ (n : Node) takes, ∀ x ∈ n.siblings v takes true, x.isFolded = true) ∧
      ∀ ns takes, ∀ x ∈ siblingsIn v takes true ns, x.isFolded = true := by
  apply Node.induct
  case leaf => exact fun m l takes x hx => (List.not_mem_nil hx).elim
  case tag =>
    intro m t children ih takes x hx
    rw [siblings] at hx
    split at hx
    · rcases List.mem_cons.mp hx with rfl | hx
      · rfl
      · exact ih _ x hx
    · exact (List.not_mem_nil hx).elim
  case nil => exact fun takes x hx => (List.not_mem_nil hx).elim
  case cons => exact fun n ns ihn ihns takes x hx => (List.mem_append.mp hx).elim (ihn takes x) (ihns takes x)

/-- In a constant element all nodes are marked, and there is one in text output only. -/
theorem isStatic_of_isFolded {native : String → Bool} :
    (∀ n : Node, n.IsWellMarked native → ∀ takes folded,
      (folded = true → v.isHtml = true ∧ n.isStatic = true) →
      ∀ x ∈ n.siblings v takes folded, x.isFolded = true →
        v.isHtml = true ∧ ∀ n' ∈ x.nodes, n'.isStatic = true) ∧
    ∀ ns, AreWellMarked native ns → ∀ takes folded,
      (folded = true → v.isHtml = true ∧ ∀ n ∈ ns, n.isStatic = true) →
      ∀ x ∈ siblingsIn v takes folded ns, x.isFolded = true →
        v.isHtml = true ∧ ∀ n' ∈ x.nodes, n'.isStatic = true := by
  apply Node.induct
  case leaf => exact fun m l _ takes folded _ x hx => (List.not_mem_nil hx).elim
  case tag =>
    intro m t children ih hmarked takes folded hfolded x hx
    have hinside (h : (folded || v.folds m t) = true) :
        v.isHtml = true ∧ ∀ n ∈ children, n.isStatic = true := by
      obtain ⟨hhtml, hstatic⟩ : v.isHtml = true ∧ m.isStatic = true :=
        (Bool.or_eq_true_iff.mp h).elim hfolded View.isStatic_of_folds
      exact ⟨hhtml, (hmarked.1 hstatic).2⟩
    rw [siblings] at hx
    split at hx
    · rcases List.mem_cons.mp hx with rfl | hx
      · exact hinside
      · exact ih hmarked.2 _ _ hinside x hx
    · exact (List.not_mem_nil hx).elim
  case nil => exact fun _ takes folded _ x hx => (List.not_mem_nil hx).elim
  case cons =>
    intro n ns ihn ihns hmarked takes folded hfolded x hx
    rcases List.mem_append.mp hx with hx | hx
    · exact ihn hmarked.1 takes folded
        (fun h => ⟨(hfolded h).1, (hfolded h).2 n List.mem_cons_self⟩) x hx
    · exact ihns hmarked.2 takes folded
        (fun h => ⟨(hfolded h).1, fun n' hn' => (hfolded h).2 n' (List.mem_cons_of_mem n hn')⟩) x hx

/-! ## Marks -/

-- A scriptlet keeps the mark that it was authored with.
theorem filterMap_scriptlet?_classifyAll (native : String → Bool) (ns : List Node) :
    (classifyAll native ns).filterMap scriptlet? = ns.filterMap scriptlet? := by
  rw [classifyAll_eq_map, List.filterMap_map]
  refine List.filterMap_congr fun n _ => ?_
  cases n with
  | leaf m l => cases l <;> rfl
  | tag m t children => rfl

/-- Marks only tell which siblings stand in constant elements, not which scriptlets there are. -/
theorem scriptlets_siblings_classify (native : String → Bool) :
    (∀ (n : Node) isStatic takes folded folded',
      (((n.classify native).setStatic isStatic).siblings v takes folded).map Siblings.scriptlets =
        (n.siblings v takes folded').map Siblings.scriptlets) ∧
    ∀ ns takes folded folded', (siblingsIn v takes folded (classifyAll native ns)).map Siblings.scriptlets =
      (siblingsIn v takes folded' ns).map Siblings.scriptlets := by
  apply Node.induct
  case leaf => exact fun m l isStatic takes folded folded' => rfl
  case tag =>
    intro m t children ih isStatic takes folded folded'
    rw [classify, setStatic, siblings, siblings]
    split
    · rw [List.map_cons, List.map_cons, ih _ _ (folded' || v.folds m t)]
      exact congrArg (· :: _) (filterMap_scriptlet?_classifyAll native children)
    · rfl
  case nil => exact fun takes folded folded' => rfl
  case cons =>
    intro n ns ihn ihns takes folded folded'
    have hn := ihn (n.classify native).isStatic takes folded folded'
    rw [setStatic_isStatic] at hn
    rw [classifyAll, siblingsIn, siblingsIn, List.map_append, List.map_append, hn,
      ihns takes folded folded']

end

end Node

/-! ## Rendered scriptlets -/

/-- The scriptlets among siblings outside of constant elements. -/
def renderedScriptlets (xs : List Siblings) : List Scriptlet :=
  (xs.filter fun x => !x.isFolded).flatMap (·.scriptlets)

/-- The scriptlets among siblings in constant elements. -/
def foldedScriptlets (xs : List Siblings) : List Scriptlet :=
  (xs.filter fun x => x.isFolded).flatMap (·.scriptlets)

theorem renderedScriptlets_append (xs ys : List Siblings) :
    renderedScriptlets (xs ++ ys) = renderedScriptlets xs ++ renderedScriptlets ys := by
  rw [renderedScriptlets, List.filter_append, List.flatMap_append]
  rfl

theorem renderedScriptlets_of_isFolded {xs : List Siblings} (h : ∀ x ∈ xs, x.isFolded = true) :
    renderedScriptlets xs = [] := by
  have hnil : (xs.filter fun x => !x.isFolded) = [] :=
    List.filter_eq_nil_iff.mpr fun x hx => by simp [h x hx]
  rw [renderedScriptlets, hnil]
  rfl

/-- Each scriptlet is outside or inside of constant elements. -/
theorem perm_scriptlets (xs : List Siblings) :
    (renderedScriptlets xs ++ foldedScriptlets xs).Perm (xs.flatMap (·.scriptlets)) := by
  have hperm := (List.filter_append_perm (fun x : Siblings => !x.isFolded) xs).flatMap_right (·.scriptlets)
  simpa [renderedScriptlets, foldedScriptlets] using hperm

theorem filterMap_cons_eq {α β : Type} (f : α → Option β) (a : α) (as : List α) :
    (a :: as).filterMap f = (f a).toList ++ as.filterMap f := by
  cases h : f a with
  | none => exact List.filterMap_cons_none h
  | some b => exact List.filterMap_cons_some h

namespace Node

variable {v : View}

/-- The scriptlets outside of constant elements are those among the parts that are rendered. -/
theorem perm_authored (v : View) :
    (∀ (n : Node) takes,
      ((n.scriptlet?.toList ++ renderedScriptlets (n.siblings v takes false)).filterMap
        Scriptlet.statement?).Perm ((n.rendered v takes).filterMap Part.authored?)) ∧
    ∀ ns takes, ((ns.filterMap scriptlet? ++ renderedScriptlets (siblingsIn v takes false ns)).filterMap
      Scriptlet.statement?).Perm ((renderedIn v takes ns).filterMap Part.authored?) := by
  apply Node.induct
  case leaf =>
    intro m l takes
    cases l with
    | scriptlet code =>
      show ([Scriptlet.mk code m.isStatic].filterMap Scriptlet.statement?).Perm
        ([Part.leaf (.scriptlet code)].filterMap Part.authored?)
      rw [filterMap_cons_eq, filterMap_cons_eq, Scriptlet.statement?, Part.authored?]
      exact .refl _
    | _ => exact .refl _
  case tag =>
    intro m t children ih takes
    have hcontent (inside : Bool) :
        ((renderedScriptlets (⟨children, false⟩ :: siblingsIn v inside false children)).filterMap
          Scriptlet.statement?).Perm ((renderedIn v inside children).filterMap Part.authored?) := ih inside
    show ((renderedScriptlets (siblings v takes false (.tag m t children))).filterMap
      Scriptlet.statement?).Perm _
    rw [rendered_tag, siblings, View.enter, View.folds]
    cases v.kindOf t with
    | slot =>
      cases takes with
      | true => exact hcontent true
      | false => exact .refl _
    | ifTrue | elseIfTrue | otherwise | loop => exact hcontent false
    | macroDefinition =>
      cases t.macroName? with
      | some name => exact hcontent false
      | none => exact .refl _
    | native name =>
      dsimp only
      cases v.isHtml with
      | false => exact hcontent false
      | true =>
        cases m.isStatic with
        | false =>
          cases isVoidElement name with
          | false => exact hcontent false
          | true => exact .refl _
        | true =>
          cases isVoidElement name with
          | false =>
            -- in a constant element all siblings are folded at all depths, and nothing of them is rendered
            have hfolded : ∀ x ∈ ⟨children, true⟩ :: siblingsIn v false true children, x.isFolded = true :=
              List.forall_mem_cons.mpr ⟨rfl, isFolded_of_mem_siblings.2 children false⟩
            have hnone := renderedScriptlets_of_isFolded hfolded
            show ((renderedScriptlets (⟨children, true⟩ :: siblingsIn v false true children)).filterMap
              Scriptlet.statement?).Perm []
            rw [hnone]
            exact .nil
          | true => exact .refl _
    | macroCall name | dynamic target | custom name request => exact hcontent true
  case nil => exact fun takes => .refl _
  case cons =>
    intro n ns ihn ihns takes
    -- the scriptlets of the first node and those inside of it are apart in one list and together in the other
    have hsplit : ((n :: ns).filterMap scriptlet? ++
        renderedScriptlets (siblingsIn v takes false (n :: ns))).Perm
        ((n.scriptlet?.toList ++ renderedScriptlets (n.siblings v takes false)) ++
          (ns.filterMap scriptlet? ++ renderedScriptlets (siblingsIn v takes false ns))) := by
      rw [filterMap_cons_eq, siblingsIn, renderedScriptlets_append, List.append_assoc, List.append_assoc]
      exact (List.perm_append_comm_assoc _ _ _).append_left _
    have hall := (ihn takes).append (ihns takes)
    rw [← List.filterMap_append, ← List.filterMap_append] at hall
    rw [renderedIn_cons]
    exact (hsplit.filterMap _).trans hall

end Node

/-! ## Scriptlets of a program -/

/-- The siblings of what is rendered. -/
def Scopes.siblings (v : View) (s : Scopes) : List Siblings :=
  ⟨s.renderScope, false⟩ :: Node.siblingsIn v false false s.renderScope

/-- The scriptlets of a program, apart from those that are not rendered at all. -/
def Program.scriptlets (v : View) (p : Program) : List Scriptlet :=
  p.nodes.filterMap Node.scriptlet? ++ (Node.siblingsIn v false false p.nodes).flatMap (·.scriptlets)

/-- The static scriptlet at the top level that an item is. -/
def Item.staticScriptlet? : Item → Option Scriptlet
  | .node (.leaf m (.scriptlet code)) => if m.isStatic then some ⟨code, true⟩ else none
  | _ => none

theorem isStatic_of_mem_staticScriptlets {body : List Item} {x : Scriptlet}
    (h : x ∈ body.filterMap Item.staticScriptlet?) : x.isStatic = true := by
  obtain ⟨i, -, hi⟩ := List.mem_filterMap.mp h
  unfold Item.staticScriptlet? at hi
  split at hi
  · split at hi
    · cases hi
      rfl
    · cases hi
  · cases hi

/-- Scriptlets in constant elements are static, and there are none in tree output. -/
theorem Program.isStatic_of_mem_foldedScriptlets {registry : TagRegistry} {source : Path} {v : View}
    {x : Scriptlet} (p : Program)
    (h : x ∈ foldedScriptlets ((p.classify registry source).scopes.siblings v)) :
    x.isStatic = true ∧ v.isHtml = true := by
  obtain ⟨y, hy, hx⟩ := List.mem_flatMap.mp h
  obtain ⟨hy, hfolded⟩ := List.mem_filter.mp hy
  rcases List.mem_cons.mp hy with rfl | hy
  · cases hfolded
  have hmarked : Node.AreWellMarked (registry.isNative source)
      (p.classify registry source).scopes.renderScope :=
    Node.areWellMarked_iff.mpr fun n hn => (isClassified_of_mem_renderScope hn).isWellMarked
  obtain ⟨hhtml, hstatic⟩ :=
    Node.isStatic_of_isFolded.2 _ hmarked false false (fun h => by cases h) y hy hfolded
  obtain ⟨n, hn, hn'⟩ := List.mem_filterMap.mp hx
  refine ⟨?_, hhtml⟩
  rw [Node.isStatic_of_scriptlet? hn']
  exact hstatic n hn

section

variable {native : String → Bool} {i : Item} {n : Node}

-- A node at the top level that is rendered has the scriptlets that it was authored with.
theorem Item.scriptlets_of_rendered?_eq_some (h : (i.classify native).rendered? = some n) :
    i.staticScriptlet? = none ∧ ∃ original, i = .node original ∧ n.scriptlet? = original.scriptlet? ∧
      ∀ v, (n.siblings v false false).flatMap (·.scriptlets) =
        (original.siblings v false false).flatMap (·.scriptlets) := by
  cases i with
  | node original =>
    cases original with
    | leaf m l =>
      cases l with
      | scriptlet code =>
        have hif : (if m.isStatic then none else some (Node.leaf m (.scriptlet code))) = some n := h
        split at hif
        · cases hif
        · cases hif
          exact ⟨if_neg ‹_›, _, rfl, rfl, fun v => rfl⟩
      | component code => cases h
      | _ =>
        cases h
        exact ⟨rfl, _, rfl, rfl, fun v => rfl⟩
    | tag m t children =>
      cases h
      refine ⟨rfl, _, rfl, rfl, fun v => ?_⟩
      have hsame := (Node.scriptlets_siblings_classify (v := v) native).1 (.tag m t children) false false
        false false
      exact congrArg List.flatten hsame
  | external declaration => cases h
  | statement code => cases h

-- What is not rendered is a static scriptlet, if it is a scriptlet at all.
theorem Item.scriptlets_of_rendered?_eq_none (h : (i.classify native).rendered? = none) :
    i.node?.bind Node.scriptlet? = i.staticScriptlet? ∧
      ∀ original, i = .node original → ∀ v, original.siblings v false false = [] := by
  cases i with
  | node original =>
    cases original with
    | leaf m l =>
      refine ⟨?_, fun original heq v => by cases heq; rfl⟩
      cases l with
      | scriptlet code =>
        cases hstatic : m.isStatic with
        | true => simp [node?, Node.scriptlet?, staticScriptlet?, hstatic]
        | false =>
          have hif : (if m.isStatic then none else some (Node.leaf m (.scriptlet code))) = none := h
          rw [hstatic] at hif
          cases hif
      | _ => rfl
    | tag m t children => cases h
  | external declaration => exact ⟨rfl, fun original heq => by cases heq⟩
  | statement code => exact ⟨rfl, fun original heq => by cases heq⟩

end

section

variable (native : String → Bool) (body : List Item)

theorem perm_topScriptlets :
    (((body.map (Item.classify native)).filterMap Item.rendered?).filterMap Node.scriptlet? ++
      body.filterMap Item.staticScriptlet?).Perm
        ((body.filterMap Item.node?).filterMap Node.scriptlet?) := by
  induction body with
  | nil => exact .nil
  | cons i rest ih =>
    rw [List.map_cons, filterMap_cons_eq Item.staticScriptlet?, filterMap_cons_eq Item.node?]
    cases hrendered : (i.classify native).rendered? with
    | some n =>
      obtain ⟨hstatic, original, rfl, hscriptlet, -⟩ := Item.scriptlets_of_rendered?_eq_some hrendered
      rw [List.filterMap_cons_some hrendered, filterMap_cons_eq Node.scriptlet?, hscriptlet, hstatic]
      show ((original.scriptlet?.toList ++ _) ++ _).Perm ((original :: _).filterMap Node.scriptlet?)
      rw [filterMap_cons_eq Node.scriptlet?, List.append_assoc]
      exact ih.append_left _
    | none =>
      obtain ⟨hstatic, -⟩ := Item.scriptlets_of_rendered?_eq_none hrendered
      have hone : i.node?.toList.filterMap Node.scriptlet? = i.staticScriptlet?.toList := by
        rw [← hstatic]
        cases i.node? with
        | none => rfl
        | some n => exact (filterMap_cons_eq _ n []).trans (List.append_nil _)
      rw [List.filterMap_cons_none hrendered, List.filterMap_append, hone]
      exact (List.perm_append_comm_assoc _ _ _).trans (ih.append_left _)

theorem flatMap_siblingsIn (v : View) :
    (Node.siblingsIn v false false ((body.map (Item.classify native)).filterMap Item.rendered?)).flatMap
        (·.scriptlets) =
      (Node.siblingsIn v false false (body.filterMap Item.node?)).flatMap (·.scriptlets) := by
  induction body with
  | nil => rfl
  | cons i rest ih =>
    rw [List.map_cons]
    cases hrendered : (i.classify native).rendered? with
    | some n =>
      obtain ⟨-, original, rfl, -, hsame⟩ := Item.scriptlets_of_rendered?_eq_some hrendered
      have hnode : (Item.node original :: rest).filterMap Item.node? =
          original :: rest.filterMap Item.node? := rfl
      rw [List.filterMap_cons_some hrendered, hnode, Node.siblingsIn, Node.siblingsIn,
        List.flatMap_append, List.flatMap_append, hsame v, ih]
    | none =>
      obtain ⟨-, hnone⟩ := Item.scriptlets_of_rendered?_eq_none hrendered
      rw [List.filterMap_cons_none hrendered, ih, filterMap_cons_eq Item.node?]
      cases i with
      | node original =>
        show _ = (Node.siblingsIn v false false (original :: rest.filterMap Item.node?)).flatMap _
        rw [Node.siblingsIn, hnone original rfl v]
        rfl
      | external declaration | statement code => rfl

end

/-- All scriptlets of a program are rendered, apart from those in constant elements and the static ones at
the top level. -/
theorem Program.perm_scriptlets (v : View) (registry : TagRegistry) (source : Path) (p : Program) :
    let xs := (p.classify registry source).scopes.siblings v
    (renderedScriptlets xs ++ foldedScriptlets xs ++ p.body.filterMap Item.staticScriptlet?).Perm
      (p.scriptlets v) := by
  intro xs
  let native := registry.isNative source
  let rendered := (p.body.map (Item.classify native)).filterMap Item.rendered?
  have hall : xs.flatMap (·.scriptlets) = rendered.filterMap Node.scriptlet? ++
      (Node.siblingsIn v false false rendered).flatMap (·.scriptlets) := rfl
  have hsplit := (TemplateCompiler.perm_scriptlets xs).append_right (p.body.filterMap Item.staticScriptlet?)
  rw [hall, flatMap_siblingsIn native p.body v] at hsplit
  refine hsplit.trans ?_
  rw [List.append_assoc]
  refine (List.perm_append_comm.append_left _).trans ?_
  rw [← List.append_assoc]
  exact (perm_topScriptlets native p.body).append_right _

end TemplateCompiler
