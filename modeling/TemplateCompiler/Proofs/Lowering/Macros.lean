import Mathlib.Data.List.Nodup
import Mathlib.Data.Set.Function
import TemplateCompiler.Proofs.Lowering.Accounts
import TemplateCompiler.Proofs.Names

/-!
# Uses of macros in operations

Each macro of a template has a function of its own (`State.HasOwnFunctions`). The definitions and calls
of these functions in operations are those of the macros in the template, as often as the macros are used
there outside of constant elements (`isAccount_macroAccount`).
-/

namespace TemplateCompiler

/-- The part is a definition or a call of a macro. -/
def Part.isUse : Part → Bool
  | .leaf _ => false
  | .call _ | .definition _ => true

/-- The part with another name of its macro. -/
def Part.rename (f : String → String) : Part → Part
  | .leaf l => .leaf l
  | .call name => .call (f name)
  | .definition name => .definition (f name)

namespace Render

/-! ## Uses in operations -/

namespace Op

mutual

/-- What the statements and blocks in an operation hold. -/
def collect {α : Type} (f : Statement → List α) (g : Scope → List α) : LoweredOp → List α
  | .write _ => []
  | .code statement => f statement
  | .block scope body => g scope ++ collectOf f g body
termination_by structural op => op

/-- What the statements and blocks in a list of operations hold. -/
def collectOf {α : Type} (f : Statement → List α) (g : Scope → List α) : List LoweredOp → List α
  | [] => []
  | op :: ops => collect f g op ++ collectOf f g ops
termination_by structural ops => ops

end

theorem collectOf_append {α : Type} (f : Statement → List α) (g : Scope → List α)
    (a b : List LoweredOp) : collectOf f g (a ++ b) = collectOf f g a ++ collectOf f g b := by
  induction a with
  | nil => rfl
  | cons op ops ih => rw [List.cons_append, collectOf, collectOf, ih, List.append_assoc]

end Op

/-- The statement adds or writes the value of a leaf. -/
def Statement.isValue : Statement → Bool
  | .writeValue _ _ | .addText _ | .addValue _ | .addMarkup _ | .addComment _ => true
  | _ => false

/-- Leaves are lowered to writes and to statements that add or write their values, apart from
scriptlets. -/
theorem yields_collectOf_lowerLeaf {env : Env} (htext : env.text = standardText env.options) {α : Type}
    {f : Statement → List α} {g : Scope → List α}
    (hvalue : ∀ statement : Statement, statement.isValue = true → f statement = []) {l : Leaf}
    (hscriptlet : ∀ code, l = .scriptlet code → f (.authored (Text.trim code)) = []) (m : Marks) :
    Yields (fun ops => Op.collectOf f g ops = []) (lowerLeaf env m l) := by
  have hcode {statement : Statement} (h : f statement = []) :
      Op.collectOf f g [.code statement] = [] := (List.append_nil _).trans h
  have hif {a b : List LoweredOp} {c : Prop} [Decidable c] (ha : Op.collectOf f g a = [])
      (hb : Op.collectOf f g b = []) : Op.collectOf f g (if c then a else b) = [] := by
    split
    · exact ha
    · exact hb
  cases l with
  | documentType v | declaration v => exact yields_pure (hif rfl rfl)
  | cdata v => exact yields_pure (hif rfl (hcode (hvalue _ rfl)))
  | text v =>
    rw [lowerLeaf, htext]
    exact yields_pure (hif rfl (hif rfl (hcode (hvalue _ rfl))))
  | comment v => exact yields_pure (hif rfl (hif rfl (hcode (hvalue _ rfl))))
  | placeholder expression escape =>
    show Yields _ (lowerPlaceholder env expression escape)
    unfold lowerPlaceholder
    split
    · exact yields_pure (hif rfl (hif rfl (hcode (hvalue _ rfl))))
    · dsimp only
      split_ifs
      · exact yields_bind_any fun helper => yields_pure (hcode (hvalue _ rfl))
      · exact yields_bind_any fun helper => yields_pure (hcode (hvalue _ rfl))
      · exact yields_pure (hcode (hvalue _ rfl))
      · exact yields_pure (hcode (hvalue _ rfl))
  | scriptlet code => exact yields_pure (hif rfl (hcode (hscriptlet code rfl)))
  | component code => exact yields_bind_any fun _ => yields_pure rfl

/-- The function that a statement calls as that of a macro. -/
def Statement.uses : Statement → List Part
  | .callMacro function _ => [.call function]
  | _ => []

/-- The function of a macro that a block defines. -/
def Scope.uses : Scope → List Part
  | .function name _ => [.definition name]
  | _ => []

/-- The definitions and calls of functions of macros in operations. -/
def Op.usesOf (ops : List LoweredOp) : List Part := Op.collectOf Statement.uses Scope.uses ops

theorem usesOf_append (a b : List LoweredOp) :
    Op.usesOf (a ++ b) = Op.usesOf a ++ Op.usesOf b := Op.collectOf_append _ _ a b

theorem usesOf_code (statement : Statement) : Op.usesOf [.code statement] = statement.uses :=
  List.append_nil _

theorem usesOf_block (scope : Scope) (body : List LoweredOp) :
    Op.usesOf [.block scope body] = scope.uses ++ Op.usesOf body := List.append_nil _

/-! ## Functions of macros -/

/-- The functions that are known stay. -/
def KeepsFunctions (s t : State) : Prop :=
  ∀ name function, s.macroNames.lookup name = some function →
    t.macroNames.lookup name = some function

/-- No two macros have the same function, and functions are names in use. -/
structure State.HasOwnFunctions (s : State) : Prop where
  nodup : (s.macroNames.map Prod.snd).Nodup
  used : ∀ e ∈ s.macroNames, e.2 ∈ s.names.used

theorem isKept_keepsFunctions : IsKept KeepsFunctions := by
  have hrefl (s : State) : KeepsFunctions s s := fun _ _ h => h
  refine ⟨⟨⟨hrefl, fun s t u hst htu name function h => htu _ _ (hst _ _ h), fun _ => hrefl,
    fun _ _ _ => hrefl, fun _ => hrefl⟩, hrefl⟩, fun name s => ?_, fun _ => hrefl⟩
  rw [outcome_macroFunction]
  cases s.macroNames.lookup name with
  | some function => exact hrefl s
  | none =>
    intro other function h
    show (s.macroNames ++ _).lookup other = _
    rw [List.lookup_append, h]
    rfl

/-- A macro has a function already, or it gets a new one. -/
theorem macroFunction_cases {name function : String} {s t : State}
    (h : outcome (macroFunction name) s = (.ok function, t)) :
    (t = s ∧ s.macroNames.lookup name = some function) ∨
      (s.macroNames.lookup name = none ∧ function = s.names.fresh name ∧ t = { s with
        names := s.names.reserve (s.names.fresh name)
        macroNames := s.macroNames ++ [(name, s.names.fresh name)] }) := by
  rw [outcome_macroFunction] at h
  cases hlookup : s.macroNames.lookup name with
  | some known =>
    rw [hlookup] at h
    cases h
    exact .inl ⟨rfl, rfl⟩
  | none =>
    rw [hlookup] at h
    cases h
    exact .inr ⟨rfl, rfl, rfl⟩

theorem lookup_of_macroFunction {name function : String} {s t : State}
    (h : outcome (macroFunction name) s = (.ok function, t)) :
    t.macroNames.lookup name = some function := by
  obtain ⟨rfl, hlookup⟩ | ⟨hlookup, rfl, rfl⟩ := macroFunction_cases h
  · exact hlookup
  · show (s.macroNames ++ _).lookup name = _
    rw [List.lookup_append, hlookup]
    simp

-- A function that is new is not one of those in use.
theorem isKept_hasOwnFunctions : IsKept fun s t => s.HasOwnFunctions → t.HasOwnFunctions := by
  have hreserve (s : State) (name : String) (h : s.HasOwnFunctions) (e : String × String)
      (he : e ∈ s.macroNames) : e.2 ∈ (s.names.reserve name).used :=
    (Names.mem_reserve _ _ _).mpr (.inr (h.used e he))
  refine ⟨⟨⟨fun s h => h, fun s t u hst htu h => htu (hst h), fun hint s h => ?_,
    fun source binding hint s h => ?_, fun _ s h => ⟨h.nodup, h.used⟩⟩, fun s h => ⟨h.nodup, h.used⟩⟩,
    fun name s h => ?_, fun _ s h => ⟨h.nodup, h.used⟩⟩
  · exact ⟨h.nodup, hreserve s _ h⟩
  · refine ⟨h.nodup, fun e he => ?_⟩
    show e.2 ∈ (s.imports.request s.names source binding hint).2.2.used
    unfold Imports.request
    split
    · exact h.used e he
    · exact hreserve s _ h e he
  · rw [outcome_macroFunction]
    cases s.macroNames.lookup name with
    | some function => exact h
    | none =>
      constructor
      · show ((s.macroNames ++ [(name, s.names.fresh name)]).map Prod.snd).Nodup
        rw [List.map_append, List.nodup_append]
        refine ⟨h.nodup, List.nodup_singleton _, fun a ha b hb => ?_⟩
        obtain ⟨e, he, rfl⟩ := List.mem_map.mp ha
        rw [List.mem_singleton.mp hb]
        intro heq
        have hused := h.used e he
        rw [heq] at hused
        exact Names.fresh_not_mem _ _ hused
      · intro e he
        rcases List.mem_append.mp he with he | he
        · exact hreserve s _ h e he
        · rw [List.mem_singleton.mp he]
          exact (Names.mem_reserve _ _ _).mpr (.inl rfl)

theorem mem_of_lookup {α β : Type} [BEq α] [LawfulBEq α] {l : List (α × β)} {a : α} {b : β}
    (h : l.lookup a = some b) : (a, b) ∈ l := by
  obtain ⟨before, after, rfl, -⟩ := List.lookup_eq_some_iff.mp h
  exact List.mem_append_right _ List.mem_cons_self

/-- Lowering starts without functions, and no two macros ever share one. -/
theorem hasOwnFunctions_of_lowerAll {env : Env} (htext : env.text = standardText env.options) {ns : List Node}
    {s t : State} {ops : List LoweredOp} (hstart : s.macroNames = [])
    (hrun : outcome (lowerAll env ns) s = (.ok ops, t)) : t.HasOwnFunctions := by
  have hnone : s.HasOwnFunctions := by
    constructor
    · rw [hstart]
      exact List.nodup_nil
    · rw [hstart]
      exact fun e he => (List.not_mem_nil he).elim
  exact ((moves_lower _ isKept_hasOwnFunctions htext).2 _).1.rel hrun hnone

theorem State.HasOwnFunctions.eq_of_lookup {s : State} (h : s.HasOwnFunctions) {a b function : String}
    (ha : s.macroNames.lookup a = some function) (hb : s.macroNames.lookup b = some function) :
    a = b :=
  congrArg Prod.fst (List.inj_on_of_nodup_map h.nodup (mem_of_lookup ha) (mem_of_lookup hb) rfl)

-- Naming macros by their functions keeps them apart.
theorem State.HasOwnFunctions.exists_injOn {s : State} (h : s.HasOwnFunctions) :
    ∃ f : String → String, Set.InjOn f {name | (s.macroNames.lookup name).isSome} ∧
      ∀ name function, s.macroNames.lookup name = some function → f name = function := by
  have hf (name function : String) (hname : s.macroNames.lookup name = some function) :
      (s.macroNames.lookup name).getD "" = function := by
    rw [hname]
    rfl
  refine ⟨fun name => (s.macroNames.lookup name).getD "", fun a ha b hb heq => ?_, hf⟩
  obtain ⟨function, hfunction⟩ := Option.isSome_iff_exists.mp ha
  obtain ⟨other, hother⟩ := Option.isSome_iff_exists.mp hb
  dsimp only at heq
  rw [hf a function hfunction, hf b other hother] at heq
  exact h.eq_of_lookup hfunction (heq ▸ hother)

/-! ## The account -/

/-- The uses of macros in operations are those of the parts, under the names of their functions. -/
structure MacroAccount (T : List Part) (s : State) (ops : List LoweredOp) (t : State) : Prop where
  keeps : KeepsFunctions s t
  known : ∀ name, .call name ∈ T ∨ .definition name ∈ T → (t.macroNames.lookup name).isSome = true
  uses : ∀ f : String → String,
    (∀ name function, t.macroNames.lookup name = some function → f name = function) →
      (Op.usesOf ops).Perm ((T.filter Part.isUse).map (·.rename f))

theorem isSome_lookup {s t : State} (h : KeepsFunctions s t) {name : String}
    (hname : (s.macroNames.lookup name).isSome = true) :
    (t.macroNames.lookup name).isSome = true := by
  obtain ⟨function, hfunction⟩ := Option.isSome_iff_exists.mp hname
  rw [h name function hfunction]
  rfl

-- Leaves are lowered to writes and statements that call no macro.
theorem yields_usesOf_lowerLeaf {env : Env} (htext : env.text = standardText env.options) (m : Marks)
    (l : Leaf) : Yields (fun ops => Op.usesOf ops = []) (lowerLeaf env m l) := by
  refine yields_collectOf_lowerLeaf htext (fun statement h => ?_) (fun _ _ => rfl) m
  cases statement <;> first | rfl | cases h

-- One more use of a macro, behind looking up its function.
theorem MacroAccount.use {T : List Part} {name function : String} {s t u : State}
    {ops more : List LoweredOp} (hT : MacroAccount T t ops u)
    (hrun : outcome (macroFunction name) s = (.ok function, t)) (part : Part)
    (huse : part.isUse = true)
    (hpart : ∀ other, .call other = part ∨ .definition other = part → other = name)
    (hmore : ∀ f : String → String, f name = function →
      (Op.usesOf more).Perm (part.rename f :: Op.usesOf ops)) :
    MacroAccount (part :: T) s more u := by
  have hlookup := hT.keeps _ _ (lookup_of_macroFunction hrun)
  have hkeeps : KeepsFunctions s t := (isKept_keepsFunctions.macroFunction name).rel hrun
  refine ⟨fun _ _ h => hT.keeps _ _ (hkeeps _ _ h), fun other hother => ?_, fun f hf => ?_⟩
  · have hknown (h : other = name) : (u.macroNames.lookup other).isSome = true := by
      rw [h, hlookup]
      rfl
    rw [List.mem_cons, List.mem_cons] at hother
    rcases hother with (h | h) | (h | h)
    · exact hknown (hpart other (.inl h))
    · exact hT.known other (.inl h)
    · exact hknown (hpart other (.inr h))
    · exact hT.known other (.inr h)
  · rw [List.filter_cons_of_pos huse, List.map_cons]
    exact (hmore f (hf name function hlookup)).trans ((hT.uses f hf).cons _)

theorem isAccount_macroAccount {env : Env} (htext : env.text = standardText env.options) :
    IsAccount env MacroAccount where
  quiet s t h := by
    have hkeeps : KeepsFunctions s t := fun name function hlookup => by rwa [h.1]
    exact ⟨hkeeps, fun name hname => by simp at hname, fun f hf => .nil⟩
  append T U s t u ops more hT hU := by
    refine ⟨fun name function h => hU.keeps _ _ (hT.keeps _ _ h), fun name hname => ?_, fun f hf => ?_⟩
    · simp only [List.mem_append] at hname
      rcases hname with (h | h) | (h | h)
      · exact isSome_lookup hU.keeps (hT.known name (.inl h))
      · exact hU.known name (.inl h)
      · exact isSome_lookup hU.keeps (hT.known name (.inr h))
      · exact hU.known name (.inr h)
    -- what the first run takes a macro for is still so after the second, so one renaming serves both
    · rw [usesOf_append, List.filter_append, List.map_append]
      exact (hT.uses f fun name function h => hf name function (hU.keeps _ _ h)).append (hU.uses f hf)
  write s markup := ⟨fun _ _ h => h, fun name hname => by simp at hname, fun f hf => .nil⟩
  code s statement hplain := by
    have huses : statement.uses = [] := by
      cases statement with
      | callMacro function input => cases hplain
      | _ => rfl
    refine ⟨fun _ _ h => h, fun name hname => by simp at hname, fun f hf => ?_⟩
    rw [usesOf_code, huses]
    exact .nil
  block T s body t scope hne hT := by
    have huses : scope.uses = [] := by
      cases scope with
      | function name params => exact absurd rfl (hne name params)
      | _ => rfl
    refine ⟨hT.keeps, hT.known, fun f hf => ?_⟩
    rw [usesOf_block, huses]
    exact hT.uses f hf
  leaf m l s ops t hrun := by
    have hkept := isKept_keepsFunctions
    refine ⟨(moves_lowerLeaf hkept (moves_text hkept.toIsQuiet.toIsNaming htext m) l).rel hrun,
      fun name hname => by simp at hname, fun f hf => ?_⟩
    rw [yields_usesOf_lowerLeaf htext m l s ops t hrun]
    exact .nil
  call T name function input s t ops u hrun hT := by
    refine hT.use hrun (.call name) rfl (by simp) fun f hf => ?_
    rw [usesOf_append, usesOf_code]
    have hcall : (Part.call name).rename f = .call function := congrArg Part.call hf
    rw [hcall]
    exact List.perm_append_singleton _ _
  definition T name function params s t body u hrun hT := by
    refine hT.use hrun (.definition name) rfl (by simp) fun f hf => ?_
    rw [usesOf_block]
    have hdefinition : (Part.definition name).rename f = .definition function :=
      congrArg Part.definition hf
    rw [hdefinition]
    exact .refl _

end Render

end TemplateCompiler
