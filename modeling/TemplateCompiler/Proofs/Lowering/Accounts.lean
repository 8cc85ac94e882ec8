import TemplateCompiler.Proofs.Lowering.Outlines

/-!
# Accounts of lowering

A run of lowering that succeeds takes each part of the template outside of constant elements once, in the
order of `Node.lowered`, and nothing else. That is said for all that can be observed of a run at the same
time: a relation between the parts that were lowered, the states before and behind, and the operations,
which each basic step keeps (`IsAccount`), holds of each run (`accounts_lower`).
-/

namespace TemplateCompiler.Render

/-- A relation between parts, the state before they are lowered, the operations and the state behind. -/
abbrev Account := List Part → State → List LoweredOp → State → Prop

/-- What holds of a run of lowering if it holds of its steps: parts and operations add up, and only
leaves, calls and definitions of macros count. -/
structure IsAccount (env : Env) (R : Account) : Prop where
  quiet : ∀ s t, SameBuild s t → R [] s [] t
  append : ∀ T U s t u ops more, R T s ops t → R U t more u → R (T ++ U) s (ops ++ more) u
  write : ∀ s markup, R [] s [.write markup] s
  code : ∀ s statement, statement.isPlain = true → R [] s [.code statement] s
  block : ∀ T s body t scope, (∀ name params, scope ≠ .function name params) → R T s body t →
    R T s [.block scope body] t
  leaf : ∀ m l s ops t, outcome (lowerLeaf env m l) s = (.ok ops, t) → R [.leaf l] s ops t
  call : ∀ T name function input s t ops u, outcome (macroFunction name) s = (.ok function, t) →
    R T t ops u → R (.call name :: T) s (ops ++ [.code (.callMacro function input)]) u
  definition : ∀ T name function params s t body u,
    outcome (macroFunction name) s = (.ok function, t) → R T t body u →
    R (.definition name :: T) s [.block (.function function params) body] u

namespace IsAccount

variable {env : Env} {R : Account} {T : List Part} {s t u : State} {ops : List LoweredOp}

theorem quietly (h : IsAccount env R) (hst : SameBuild s t) (hR : R T t ops u) : R T s ops u :=
  h.append _ _ _ _ _ _ _ (h.quiet s t hst) hR

theorem quietlyAfter (h : IsAccount env R) (hR : R T s ops t) (htu : SameBuild t u) :
    R T s ops u := by
  have happend := h.append _ _ _ _ _ _ _ hR (h.quiet t u htu)
  rwa [List.append_nil, List.append_nil] at happend

theorem cons_code (h : IsAccount env R) {statement : Statement}
    (hplain : statement.isPlain = true) (hR : R T s ops t) : R T s (.code statement :: ops) t :=
  h.append _ _ _ _ _ _ _ (h.code s statement hplain) hR

theorem snoc_code (h : IsAccount env R) {statement : Statement}
    (hplain : statement.isPlain = true) (hR : R T s ops t) : R T s (ops ++ [.code statement]) t := by
  have happend := h.append _ _ _ _ _ _ _ hR (h.code t statement hplain)
  rwa [List.append_nil] at happend

end IsAccount

/-- What keeps account of the steps keeps account of each way to build operations for an outline. -/
theorem Builds.account {env : Env} {R : Account} (h : IsAccount env R) {os : List Outline} {s t : State}
    {ops : List LoweredOp} (hbuilds : Builds env os s ops t) : R (Outline.partsIn os) s ops t := by
  induction hbuilds with
  | quiet hst => exact h.quiet _ _ hst.1
  | append _ _ ihfirst ihmore =>
    rw [Outline.partsIn_append]
    exact h.append _ _ _ _ _ _ _ ihfirst ihmore
  | write markup s => exact h.write s markup
  | code s hstatement => exact h.code s _ (Statement.isPlain_of_handsOver hstatement)
  | leaf hrun => exact h.leaf _ _ _ _ _ hrun
  | element name attributes _ ih =>
    rw [Outline.partsIn_singleton]
    refine h.quietly ?_ (h.cons_code rfl (h.snoc_code rfl ih))
    exact ⟨rfl, rfl⟩
  | block hscope _ ih =>
    rw [Outline.partsIn_singleton]
    exact h.block _ _ _ _ _ hscope ih
  | definition params hfunction _ ih =>
    rw [Outline.partsIn_singleton]
    exact h.definition _ _ _ _ _ _ _ _ hfunction ih
  | call input hfunction _ ih =>
    rw [Outline.partsIn_singleton]
    exact h.call _ _ _ _ _ _ _ _ hfunction ih
  | component _ hkey ih =>
    rw [Outline.partsIn_singleton]
    exact h.snoc_code (Statement.isPlain_of_componentKey? hkey) (h.quietlyAfter ih ⟨rfl, rfl⟩)

/-- Each run that succeeds gives account of the parts. -/
def Accounts {α : Type} (R : Account) (T : List Part) (opsOf : α → List LoweredOp) (x : Lower α) :
    Prop :=
  ∀ s a t, outcome x s = (.ok a, t) → R T s (opsOf a) t

theorem AlwaysBuilds.accounts {α : Type} {env : Env} {R : Account} (h : IsAccount env R)
    {os : List Outline} {T : List Part} {opsOf : α → List LoweredOp} {x : Lower α}
    (hbuilds : AlwaysBuilds env os opsOf x) (hparts : Outline.partsIn os = T) : Accounts R T opsOf x :=
  fun s a t hrun => hparts ▸ (hbuilds s a t hrun).account h

/-- Lowering gives account of all parts outside of constant elements. -/
theorem accounts_lower {env : Env} {R : Account} (h : IsAccount env R) :
    (∀ n : Node, Accounts R (n.lowered env.view) id (lower env n) ∧
      ∀ slot, Accounts R (n.loweredFor env.view slot) Prod.snd (inputs env slot n)) ∧
    ∀ ns : List Node, Accounts R (Node.loweredIn env.view ns) id (lowerAll env ns) ∧
      ∀ slot, Accounts R (Node.loweredForIn env.view slot ns) Prod.snd (inputsAll env slot ns) := by
  obtain ⟨hnode, hnodes⟩ := builds_lower env
  obtain ⟨hparts, hpartsIn⟩ := Node.partsIn_outlineIn env.view
  constructor
  · intro n
    exact ⟨(hnode n).1.accounts h (hparts n).1,
      fun slot => ((hnode n).2 slot).accounts h ((hparts n).2 slot)⟩
  · intro ns
    exact ⟨(hnodes ns).1.accounts h (hpartsIn ns).1,
      fun slot => ((hnodes ns).2 slot).accounts h ((hpartsIn ns).2 slot)⟩

end TemplateCompiler.Render
