import TemplateCompiler.Proofs.Render.Identifiers

/-!
# The order of names in use

Whether a name is in use matters, and not since when. Nothing in a compiled template depends on the order of
the names that were kept out of the choice (`isModuleLogic_orderFree`).
-/

namespace TemplateCompiler

open Render

theorem Names.fresh_eq_of_perm {a b : Names} (h : a.used.Perm b.used) (hint : String) :
    a.fresh hint = b.fresh hint := by
  have hcontains (name : String) : a.used.contains name = b.used.contains name := by
    rw [Bool.eq_iff_iff, List.contains_iff_mem, List.contains_iff_mem, h.mem_iff]
  unfold fresh
  simp only [h.length_eq, hcontains]

namespace Render

/-- The states are the same up to the order of the names in use. -/
def Permuted (s t : State) : Prop := ∃ names : Names, s.names.used.Perm names.used ∧ t = { s with names }

/-- The step does not look at the order of the names in use. -/
def IsOrderFree {α : Type} (x : Lower α) : Prop := Related Permuted Eq Eq x x

/-- Two runs come to the same value, which is as `Q` says. -/
def OrderFree {α : Type} (Q : α → Prop) (x : Lower α) : Prop :=
  Related Permuted Eq (fun a b => a = b ∧ Q a) x x

section

variable {α : Type}

theorem IsOrderFree.orderFree {x : Lower α} (h : IsOrderFree x) {Q : α → Prop} (hQ : ∀ a, Q a) :
    OrderFree Q x := Related.imp h fun a _ hab => ⟨hab, hQ a⟩

-- Steps that change nothing but the names, by the first name for a hint.
theorem orderFree_generateName (hint : String) : OrderFree (fun _ => True) (generateName hint) := by
  rintro s _ ⟨names, hperm, rfl⟩
  have hfresh : s.names.fresh hint = names.fresh hint := Names.fresh_eq_of_perm hperm hint
  refine ⟨⟨hfresh, trivial⟩, names.reserve (names.fresh hint), ?_, rfl⟩
  show (s.names.fresh hint :: s.names.used).Perm (names.fresh hint :: names.used)
  rw [hfresh]
  exact hperm.cons _

theorem orderFree_importName (source : String) (binding : Binding) (hint : String) :
    OrderFree (fun _ => True) (importName source binding hint) := by
  rintro s _ ⟨names, hperm, rfl⟩
  have hfresh : s.names.fresh hint = names.fresh hint := Names.fresh_eq_of_perm hperm hint
  rw [outcome_importName, outcome_importName]
  dsimp only
  cases s.imports.find? source binding with
  | some known => exact ⟨⟨rfl, trivial⟩, names, hperm, rfl⟩
  | none =>
    dsimp only
    rw [hfresh]
    exact ⟨⟨rfl, trivial⟩, names.reserve (names.fresh hint), hperm.cons _, rfl⟩

theorem orderFree_macroFunction (name : String) :
    OrderFree (fun _ => True) (macroFunction name) := by
  rintro s _ ⟨names, hperm, rfl⟩
  have hfresh : s.names.fresh name = names.fresh name := Names.fresh_eq_of_perm hperm name
  rw [outcome_macroFunction, outcome_macroFunction]
  dsimp only
  cases s.macroNames.lookup name with
  | some function => exact ⟨⟨rfl, trivial⟩, names, hperm, rfl⟩
  | none =>
    dsimp only
    rw [hfresh]
    exact ⟨⟨rfl, trivial⟩, names.reserve (names.fresh name), hperm.cons _, rfl⟩

end

/-- Nothing in a module depends on the order of the names in use. -/
theorem isModuleLogic_orderFree : IsModuleLogic (fun _ => True) (fun _ => True) OrderFree where
  pure h := related_pure ⟨rfl, h⟩
  throw e s t hst := ⟨rfl, hst⟩
  bind hx hf := related_bind hx fun a b ⟨hab, ha⟩ => hab ▸ hf a ha
  get := by
    rintro α Q f hnames hf s _ ⟨names, hperm, rfl⟩
    have hrun (u : State) : outcome (MonadState.get >>= f) u = outcome (f u) u := rfl
    rw [hrun, hrun, hnames s names]
    exact hf s trivial s _ ⟨names, hperm, rfl⟩
  generateName := orderFree_generateName
  importName := orderFree_importName
  useTag request hint := by
    rintro s _ ⟨names, hperm, rfl⟩
    exact orderFree_importName request .default hint
      { s with metadata := s.metadata.addTag request } _ ⟨names, hperm, rfl⟩
  macroFunction := orderFree_macroFunction
  takeKey := by
    rintro s _ ⟨names, hperm, rfl⟩
    exact ⟨⟨rfl, trivial⟩, names, hperm, rfl⟩
  defineComponent code := by
    rintro s _ ⟨names, hperm, rfl⟩
    exact ⟨⟨rfl, trivial⟩, names, hperm, rfl⟩
  finalizeMetadata source companions working := by
    rintro s _ ⟨names, hperm, rfl⟩
    exact ⟨⟨rfl, trivial⟩, names, hperm, rfl⟩

-- Nothing is asked of names and loops here.
theorem areClear_true (ops : List LoweredOp) : Op.AreClear (fun _ => True) (fun _ => true) ops where
  statements _ _ _ _ := trivial
  scopes _ _ := ⟨fun _ _ => trivial, fun _ => ⟨⟨.static "for", [], none, []⟩, rfl, rfl,
    fun _ _ _ => .inr ⟨List.getElem?_nil, trivial⟩⟩⟩

/-- From states that differ in the order of the names in use only, a module is compiled alike. -/
theorem isOrderFree_compileScopes {env : Env} (htext : ∀ m v, IsOrderFree (env.text m v))
    (companions : Companions) (definition : String) {items : List ModuleItem}
    (hscope : ∀ i ∈ items, i.isRender = false ∧ i.generated = []) (component : Option String)
    (rendered : List Node) :
    IsOrderFree (compileScopes env companions definition items component rendered) := by
  have htexts (m : Marks) (v : String) : OrderFree (Op.AreClear (fun _ => True) fun _ => true)
      (env.text m v) := (htext m v).orderFree areClear_true
  have hall : Node.allIn (fun _ _ => true) rendered = true :=
    (Node.all_iff_occurrences.2 rendered []).mpr fun _ _ => rfl
  exact (isModuleLogic_orderFree.compileScopes htexts definition hscope component hall).imp
    fun a b hab => hab.1

theorem IsOrderFree.ofRun_eq {x : Lower (Module × TemplateMeta)} (hx : IsOrderFree x) {s t : State}
    (hst : Permuted s t) : Compiled.ofRun (outcome x s) = Compiled.ofRun (outcome x t) := by
  obtain ⟨halike, names, -, hsame⟩ := hx s t hst
  rcases hs : outcome x s with ⟨e | a, s'⟩ <;> rcases ht : outcome x t with ⟨e' | b, t'⟩ <;>
    rw [hs, ht] at halike hsame
  · exact congrArg Except.error halike
  · exact halike.elim
  · exact halike.elim
  · obtain rfl : a = b := halike
    obtain rfl : t' = { s' with names } := hsame
    rfl

end Render

end TemplateCompiler
