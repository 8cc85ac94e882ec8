import TemplateCompiler.Proofs.Lowering.Macros

/-!
# Scopes of macros

The function of a macro is known in the list of operations that defines it and in the blocks below. A macro is
defined where its tag stands, so whether a call is in scope is decided by where both tags stand in the
template: a call is out of scope just if it is so in the outline of what is lowered (`Builds.unboundIn`).
-/

namespace TemplateCompiler

namespace Render

/-! ## Calls in operations -/

/-- The function that a statement calls as that of a macro. -/
def Statement.called : Statement → List String
  | .callMacro function _ => [function]
  | _ => []

/-- The function of a macro that a block defines. -/
def Scope.defined : Scope → List String
  | .function name _ => [name]
  | _ => []

namespace Op

/-- The function of a macro that an operation defines for the list that it stands in. -/
def defined : LoweredOp → List String
  | .block scope _ => scope.defined
  | .write _ | .code _ => []

/-- The functions of macros that the blocks in a list define for it. -/
def definedIn (ops : List LoweredOp) : List String := ops.flatMap defined

mutual

/-- Each call of the function of a macro in an operation is in scope, where the functions in `known` are: it is
one of these, or a list around the call has a block that defines it. -/
def callsKnown (known : List String) : LoweredOp → Bool
  | .write _ => true
  | .code statement => statement.called.all (· ∈ known)
  | .block _ body => callsKnownIn (definedIn body ++ known) body
termination_by structural op => op

/-- The same for each operation of a list. -/
def callsKnownIn (known : List String) : List LoweredOp → Bool
  | [] => true
  | op :: ops => callsKnown known op && callsKnownIn known ops
termination_by structural ops => ops

end

/-- Each call of the function of a macro is in scope: the list that it stands in or one around it has a block
that defines the function. -/
def callsInScope (ops : List LoweredOp) : Bool := callsKnownIn (definedIn ops) ops

mutual

/-- The functions of macros that are called in an operation and not defined around the call there. -/
def openCalls : LoweredOp → List String
  | .write _ => []
  | .code statement => statement.called
  | .block _ body => (openCallsIn body).filter (· ∉ definedIn body)
termination_by structural op => op

/-- The same for the operations of a list, where functions that the list itself defines are not left out. -/
def openCallsIn : List LoweredOp → List String
  | [] => []
  | op :: ops => openCalls op ++ openCallsIn ops
termination_by structural ops => ops

end

/-- The functions of the calls that are out of scope. -/
def unboundIn (ops : List LoweredOp) : List String := (openCallsIn ops).filter (· ∉ definedIn ops)

-- What is known around operations has to hold what they call and do not define themselves.
theorem callsKnown_iff :
    (∀ (op : LoweredOp) known, callsKnown known op = true ↔ ∀ f ∈ openCalls op, f ∈ known) ∧
    ∀ (ops : List LoweredOp) known, callsKnownIn known ops = true ↔ ∀ f ∈ openCallsIn ops, f ∈ known := by
  apply induct
  case write => exact fun markup known => by simp [callsKnown, openCalls]
  case code => exact fun statement known => by simp [callsKnown, openCalls]
  case block =>
    intro scope body ih known
    rw [callsKnown, ih, openCalls]
    simp only [List.mem_append, List.mem_filter, decide_eq_true_eq, and_imp]
    exact forall₂_congr fun f _ => or_iff_not_imp_left
  case nil => exact fun known => by simp [callsKnownIn, openCallsIn]
  case cons =>
    intro op ops ihop ihops known
    rw [callsKnownIn, Bool.and_eq_true, ihop, ihops, openCallsIn, List.forall_mem_append]

/-- All calls are in scope if none is out of scope. -/
theorem callsInScope_iff {ops : List LoweredOp} : callsInScope ops = true ↔ unboundIn ops = [] := by
  rw [callsInScope, callsKnown_iff.2, unboundIn, List.filter_eq_nil_iff]
  simp

theorem definedIn_append (a b : List LoweredOp) : definedIn (a ++ b) = definedIn a ++ definedIn b :=
  List.flatMap_append

theorem definedIn_block (scope : Scope) (body : List LoweredOp) :
    definedIn [.block scope body] = scope.defined := List.append_nil _

theorem openCallsIn_append (a b : List LoweredOp) :
    openCallsIn (a ++ b) = openCallsIn a ++ openCallsIn b := by
  induction a with
  | nil => rfl
  | cons op ops ih => rw [List.cons_append, openCallsIn, openCallsIn, ih, List.append_assoc]

-- Nothing is called or defined in operations that hold no call and no definition at any depth.
theorem sublist_openCallsIn :
    (∀ op, (openCalls op).Sublist (collect Statement.called (fun _ => []) op)) ∧
    ∀ ops, (openCallsIn ops).Sublist (collectOf Statement.called (fun _ => []) ops) := by
  apply induct
  case write => exact fun markup => .refl _
  case code => exact fun statement => .refl _
  case block => exact fun scope body ih => List.filter_sublist.trans ih
  case nil => exact .refl _
  case cons => exact fun op ops ihop ihops => ihop.append ihops

theorem sublist_definedIn (ops : List LoweredOp) :
    (definedIn ops).Sublist (collectOf (fun _ => []) Scope.defined ops) := by
  induction ops with
  | nil => exact .refl _
  | cons op ops ih =>
    cases op with
    | write markup => exact ih
    | code statement => exact ih
    | block scope body => exact (List.sublist_append_left _ _).append ih

theorem openCallsIn_code (statement : Statement) : openCallsIn [.code statement] = statement.called :=
  List.append_nil _

theorem openCallsIn_block (scope : Scope) (body : List LoweredOp) :
    openCallsIn [.block scope body] = unboundIn body := List.append_nil _

end Op

end Render

/-! ## Calls in outlines -/

namespace Outline

mutual

/-- The macros that an outline defines for the scope that it stands in. -/
def defined : Outline → List String
  | .leaf _ | .block _ => []
  | .element content | .component content | .call _ content => definedIn content
  | .definition name _ => [name]
termination_by structural o => o

/-- The macros that outlines define for the scope that they stand in. -/
def definedIn : List Outline → List String
  | [] => []
  | o :: os => o.defined ++ definedIn os
termination_by structural os => os

end

mutual

/-- The macros that are called in an outline and not defined around the call there. -/
def openCalls : Outline → List String
  | .leaf _ => []
  | .element content | .component content => openCallsIn content
  | .call name input => openCallsIn input ++ [name]
  | .block content | .definition _ content => (openCallsIn content).filter (· ∉ definedIn content)
termination_by structural o => o

/-- The same for the outlines in a scope, where macros that these define are not left out. -/
def openCallsIn : List Outline → List String
  | [] => []
  | o :: os => o.openCalls ++ openCallsIn os
termination_by structural os => os

end

/-- The calls that are out of scope. -/
def unboundIn (os : List Outline) : List String := (openCallsIn os).filter (· ∉ definedIn os)

theorem mem_unboundIn {os : List Outline} {name : String} :
    name ∈ unboundIn os ↔ name ∈ openCallsIn os ∧ name ∉ definedIn os := by
  simp [unboundIn]

theorem definedIn_append (os ps : List Outline) : definedIn (os ++ ps) = definedIn os ++ definedIn ps := by
  induction os with
  | nil => rfl
  | cons o os ih => rw [List.cons_append, definedIn, definedIn, ih, List.append_assoc]

theorem openCallsIn_append (os ps : List Outline) :
    openCallsIn (os ++ ps) = openCallsIn os ++ openCallsIn ps := by
  induction os with
  | nil => rfl
  | cons o os ih => rw [List.cons_append, openCallsIn, openCallsIn, ih, List.append_assoc]

-- What is called or defined is so by a part.
theorem mem_partsIn :
    (∀ o : Outline, (∀ name ∈ o.defined, .definition name ∈ o.parts) ∧
      ∀ name ∈ o.openCalls, .call name ∈ o.parts) ∧
    ∀ os : List Outline, (∀ name ∈ definedIn os, .definition name ∈ partsIn os) ∧
      ∀ name ∈ openCallsIn os, .call name ∈ partsIn os := by
  have hnone (q : String → Prop) : ∀ name ∈ ([] : List String), q name :=
    fun name h => (List.not_mem_nil h).elim
  apply induct
  case leaf => exact fun l => ⟨hnone _, hnone _⟩
  case element | component => exact fun content ih => ih
  case block =>
    exact fun content ih => ⟨hnone _, fun name h => ih.2 name (List.mem_of_mem_filter h)⟩
  case definition =>
    intro name content ih
    refine ⟨fun other h => ?_, fun other h => ?_⟩
    · rw [List.mem_singleton.mp h]
      exact List.mem_cons_self
    · exact List.mem_cons_of_mem _ (ih.2 other (List.mem_of_mem_filter h))
  case call =>
    intro name input ih
    refine ⟨fun other h => List.mem_cons_of_mem _ (ih.1 other h), fun other h => ?_⟩
    rcases List.mem_append.mp h with h | h
    · exact List.mem_cons_of_mem _ (ih.2 other h)
    · rw [List.mem_singleton.mp h]
      exact List.mem_cons_self
  case nil => exact ⟨hnone _, hnone _⟩
  case cons =>
    intro o os iho ihos
    refine ⟨fun name h => ?_, fun name h => ?_⟩
    · exact List.mem_append.mpr ((List.mem_append.mp h).imp (iho.1 name) (ihos.1 name))
    · exact List.mem_append.mpr ((List.mem_append.mp h).imp (iho.2 name) (ihos.2 name))

theorem definedIn_singleton (o : Outline) : definedIn [o] = o.defined := List.append_nil _

theorem openCallsIn_singleton (o : Outline) : openCallsIn [o] = o.openCalls := List.append_nil _

end Outline

/-! ## Scopes that are kept -/

namespace Render

-- Names that a function tells apart are left out as their values are.
theorem filter_notMem_map {f : String → String} {calls defined : List String}
    (hinj : ∀ a ∈ calls, ∀ b ∈ defined, f a = f b → a = b) :
    (calls.map f).filter (· ∉ defined.map f) = (calls.filter (· ∉ defined)).map f := by
  rw [List.filter_map]
  congr 1
  refine List.filter_congr fun a ha => ?_
  have hmem : f a ∈ defined.map f ↔ a ∈ defined := by
    refine ⟨fun h => ?_, List.mem_map_of_mem⟩
    obtain ⟨b, hb, heq⟩ := List.mem_map.mp h
    rwa [hinj a ha b hb heq.symm]
  exact decide_eq_decide.mpr (not_congr hmem)

section

variable {env : Env} (htext : env.text = standardText env.options) {os : List Outline} {s t : State}
  {ops : List LoweredOp} {f : String → String}

include htext

theorem definedIn_lowerLeaf {m : Marks} {l : Leaf} (hrun : outcome (lowerLeaf env m l) s = (.ok ops, t)) :
    Op.definedIn ops = [] := by
  have hnone := yields_collectOf_lowerLeaf (f := fun _ => []) (g := Scope.defined) htext (fun _ _ => rfl)
    (fun _ _ => rfl) m s ops t hrun
  exact List.sublist_nil.mp (hnone ▸ Op.sublist_definedIn ops)

theorem openCallsIn_lowerLeaf {m : Marks} {l : Leaf} (hrun : outcome (lowerLeaf env m l) s = (.ok ops, t)) :
    Op.openCallsIn ops = [] := by
  have hvalue (statement : Statement) (h : statement.isValue = true) : statement.called = [] := by
    cases statement <;> first | rfl | cases h
  have hnone := yields_collectOf_lowerLeaf (f := Statement.called) (g := fun _ => []) htext hvalue
    (fun _ _ => rfl) m s ops t hrun
  exact List.sublist_nil.mp (hnone ▸ Op.sublist_openCallsIn.2 ops)

/-- The functions that are defined for a scope are those of the macros that are defined for it. -/
theorem Builds.definedIn (h : Builds env os s ops t)
    (hf : ∀ name function, t.macroNames.lookup name = some function → f name = function) :
    Op.definedIn ops = (Outline.definedIn os).map f := by
  induction h with
  | quiet _ => rfl
  | append _ hmore ihfirst ihmore =>
    have hkeeps := (hmore.account (isAccount_macroAccount htext)).keeps
    rw [Op.definedIn_append, Outline.definedIn_append, List.map_append,
      ihfirst fun name function h => hf name function (hkeeps _ _ h), ihmore hf]
  | write markup s => rfl
  | code s hstatement => rfl
  | leaf hrun => exact definedIn_lowerLeaf htext hrun
  | @element os s t ops name attributes _ ih =>
    have hcontent : Op.definedIn (.code (.beginElement name attributes s.nextKey) ::
        (ops ++ [.code .endElement])) = Op.definedIn ops :=
      (Op.definedIn_append ops _).trans (List.append_nil _)
    rw [hcontent, ih hf, Outline.definedIn_singleton]
    rfl
  | @block os s t body scope hscope _ ih =>
    have hnone : scope.defined = [] := by
      cases scope with
      | function name params => exact absurd rfl (hscope name params)
      | _ => rfl
    rw [Op.definedIn_block, hnone]
    rfl
  | definition params hfunction hbody _ =>
    have hkeeps := (hbody.account (isAccount_macroAccount htext)).keeps
    have hname := hf _ _ (hkeeps _ _ (lookup_of_macroFunction hfunction))
    exact congrArg (fun function => [function]) hname.symm
  | call input _ _ ih =>
    rw [Outline.definedIn_singleton, Op.definedIn_append, ih hf]
    exact List.append_nil _
  | component _ _ ih =>
    rw [Outline.definedIn_singleton, Op.definedIn_append, ih hf]
    exact List.append_nil _

/-- The calls that are out of scope are those of the macros that are. -/
theorem Builds.unboundIn_of_openCallsIn (h : Builds env os s ops t)
    (hf : ∀ name function, t.macroNames.lookup name = some function → f name = function)
    (hinj : Set.InjOn f {name | (t.macroNames.lookup name).isSome})
    (hcalls : Op.openCallsIn ops = (Outline.openCallsIn os).map f) :
    Op.unboundIn ops = (Outline.unboundIn os).map f := by
  have hknown := (h.account (isAccount_macroAccount htext)).known
  have hparts := Outline.mem_partsIn.2 os
  rw [Op.unboundIn, hcalls, h.definedIn htext hf]
  refine filter_notMem_map fun a ha b hb heq => hinj ?_ ?_ heq
  · exact hknown a (.inl (hparts.2 a ha))
  · exact hknown b (.inr (hparts.1 b hb))

/-- The functions that are called and not defined around the call are those of such macros. -/
theorem Builds.openCallsIn (h : Builds env os s ops t)
    (hf : ∀ name function, t.macroNames.lookup name = some function → f name = function)
    (hinj : Set.InjOn f {name | (t.macroNames.lookup name).isSome}) :
    Op.openCallsIn ops = (Outline.openCallsIn os).map f := by
  induction h with
  | quiet _ => rfl
  | append _ hmore ihfirst ihmore =>
    have hkeeps := (hmore.account (isAccount_macroAccount htext)).keeps
    have hfirst := ihfirst (fun name function h => hf name function (hkeeps _ _ h))
      (hinj.mono fun name h => isSome_lookup hkeeps h)
    rw [Op.openCallsIn_append, Outline.openCallsIn_append, List.map_append, hfirst, ihmore hf hinj]
  | write markup s => rfl
  | @code statement s hstatement =>
    rw [Op.openCallsIn_code]
    cases statement <;> first | rfl | cases hstatement
  | leaf hrun => exact openCallsIn_lowerLeaf htext hrun
  | @element os s t ops name attributes _ ih =>
    -- the statements that open and close an element call nothing
    have hcontent : Op.openCallsIn (.code (.beginElement name attributes s.nextKey) ::
        (ops ++ [.code .endElement])) = Op.openCallsIn ops :=
      (Op.openCallsIn_append ops _).trans (List.append_nil _)
    rw [hcontent, ih hf hinj, Outline.openCallsIn_singleton]
    rfl
  | block _ hbody ih =>
    rw [Op.openCallsIn_block, Outline.openCallsIn_singleton]
    exact hbody.unboundIn_of_openCallsIn htext hf hinj (ih hf hinj)
  | definition params hfunction hbody ih =>
    rw [Op.openCallsIn_block, Outline.openCallsIn_singleton]
    exact hbody.unboundIn_of_openCallsIn htext hf hinj (ih hf hinj)
  | call input hfunction hinput ih =>
    have hkeeps := (hinput.account (isAccount_macroAccount htext)).keeps
    -- the function of the call is still that of the macro when the run ends
    have hname := hf _ _ (hkeeps _ _ (lookup_of_macroFunction hfunction))
    rw [Op.openCallsIn_append, Op.openCallsIn_code, ih hf hinj, Outline.openCallsIn_singleton,
      Outline.openCalls, List.map_append, Statement.called, List.map_singleton, hname]
  | @component os s t ops statement _ hkey ih =>
    have hnone : statement.called = [] := by
      cases statement <;> first | rfl | cases hkey
    rw [Op.openCallsIn_append, Op.openCallsIn_code, ih hf hinj, hnone, List.append_nil,
      Outline.openCallsIn_singleton]
    rfl

/-- Operations call functions out of scope as the outline that they are built for does. -/
theorem Builds.unboundIn (h : Builds env os s ops t)
    (hf : ∀ name function, t.macroNames.lookup name = some function → f name = function)
    (hinj : Set.InjOn f {name | (t.macroNames.lookup name).isSome}) :
    Op.unboundIn ops = (Outline.unboundIn os).map f :=
  h.unboundIn_of_openCallsIn htext hf hinj (h.openCallsIn htext hf hinj)

end

end Render

end TemplateCompiler
