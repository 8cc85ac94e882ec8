import TemplateCompiler.Proofs.Lowering.Macros

/-!
# Keys

The elements and components that operations add to the tree have keys, by which they are found again when the
tree is rendered once more. Lowering counts them: the keys in the operations of a run, at all depths and one
behind the other, are the numbers from the next key before the run to the next key behind it
(`keys_of_lowerAll`).
-/

namespace TemplateCompiler.Render

/-! ## Keys in operations -/

/-- The key that a statement has: that of an element of the tree, or of a component. -/
def Statement.key? : Statement → Option Nat
  | .beginElement _ _ key => some key
  | statement => statement.componentKey?

/-- The keys in operations, at all depths. -/
def Op.keysOf (ops : List LoweredOp) : List Nat := Op.collectOf (·.key?.toList) (fun _ => []) ops

theorem keysOf_append (a b : List LoweredOp) : Op.keysOf (a ++ b) = Op.keysOf a ++ Op.keysOf b :=
  Op.collectOf_append _ _ a b

theorem keysOf_code (statement : Statement) : Op.keysOf [.code statement] = statement.key?.toList :=
  List.append_nil _

theorem keysOf_block (scope : Scope) (body : List LoweredOp) :
    Op.keysOf [.block scope body] = Op.keysOf body := List.append_nil _

theorem Statement.key?_of_handsOver {statement : Statement} (h : statement.handsOver = true) :
    statement.key? = none := by
  cases statement <;> first | rfl | cases h

theorem Statement.key?_of_componentKey? {statement : Statement} {key : Nat}
    (h : statement.componentKey? = some key) : statement.key? = some key := by
  cases statement <;> first | exact h | cases h

-- Leaves have no keys.
theorem yields_keysOf_lowerLeaf {env : Env} (htext : env.text = standardText env.options) (m : Marks)
    (l : Leaf) : Yields (fun ops => Op.keysOf ops = []) (lowerLeaf env m l) := by
  refine yields_collectOf_lowerLeaf htext (fun statement h => ?_) (fun _ _ => rfl) m
  cases statement <;> first | rfl | cases h

/-! ## Counting -/

/-- The keys from the first one up to the next one that is free. -/
def keysBetween (first next : Nat) : List Nat := List.range' first (next - first)

theorem keysBetween_self (key : Nat) : keysBetween key key = [] := by
  rw [keysBetween, Nat.sub_self]
  rfl

theorem keysBetween_succ (key : Nat) : keysBetween key (key + 1) = [key] := by
  rw [keysBetween, Nat.add_sub_cancel_left]
  rfl

theorem keysBetween_append {a b c : Nat} (hab : a ≤ b) (hbc : b ≤ c) :
    keysBetween a b ++ keysBetween b c = keysBetween a c := by
  have hlength : c - a = (b - a) + (c - b) := by omega
  have hstart : a + 1 * (b - a) = b := by omega
  rw [keysBetween, keysBetween, keysBetween, hlength, ← List.range'_append, hstart]

theorem mem_keysBetween {a b key : Nat} : key ∈ keysBetween a b ↔ a ≤ key ∧ key < b := by
  rw [keysBetween, List.mem_range'_1]
  omega

/-- The operations have the keys that were taken, in order. -/
structure TakesKeys (s : State) (ops : List LoweredOp) (t : State) : Prop where
  le : s.nextKey ≤ t.nextKey
  keys : Op.keysOf ops = keysBetween s.nextKey t.nextKey

/-- Operations without keys, while the next key stays. -/
theorem TakesKeys.of_eq {s t : State} {ops : List LoweredOp} (hnext : t.nextKey = s.nextKey)
    (hkeys : Op.keysOf ops = []) : TakesKeys s ops t := by
  refine ⟨hnext.ge, ?_⟩
  rw [hkeys, hnext, keysBetween_self]

theorem TakesKeys.append {s t u : State} {ops more : List LoweredOp} (hops : TakesKeys s ops t)
    (hmore : TakesKeys t more u) : TakesKeys s (ops ++ more) u := by
  refine ⟨hops.le.trans hmore.le, ?_⟩
  rw [keysOf_append, hops.keys, hmore.keys, keysBetween_append hops.le hmore.le]

/-- A statement with the next key takes it. -/
theorem TakesKeys.take (s : State) {statement : Statement} (h : statement.key? = some s.nextKey) :
    TakesKeys s [.code statement] { s with nextKey := s.nextKey + 1 } := by
  refine ⟨Nat.le_succ _, ?_⟩
  rw [keysOf_code, h, keysBetween_succ]
  rfl

theorem nextKey_lowerLeaf {env : Env} (htext : env.text = standardText env.options) {m : Marks} {l : Leaf}
    {s t : State} {ops : List LoweredOp} (hrun : outcome (lowerLeaf env m l) s = (.ok ops, t)) :
    t.nextKey = s.nextKey := by
  by_cases hcomponent : ∃ code, l = .component code
  · obtain ⟨code, rfl⟩ := hcomponent
    cases hrun
    rfl
  · have hnaming := isNaming_sameKey
    have hsame : SameKey s t :=
      (moves_lowerLeaf_of_ne hnaming (moves_text hnaming htext m) (not_exists.mp hcomponent)).rel hrun
    exact hsame.2

theorem takesKeys_macroFunction {name function : String} {s t : State}
    (hrun : outcome (macroFunction name) s = (.ok function, t)) : TakesKeys s [] t := by
  have hmoves := moves_macroFunction (R := fun s t => t.nextKey = s.nextKey) (fun _ => rfl)
    (fun _ _ _ => rfl) name
  exact .of_eq (hmoves.rel hrun) rfl

/-- However operations are built, they have the keys that were taken. An element takes its key in front of
those in it, a component behind those in its input, and that is where their statements stand. -/
theorem Builds.takesKeys {env : Env} (htext : env.text = standardText env.options) {os : List Outline}
    {s t : State} {ops : List LoweredOp} (h : Builds env os s ops t) : TakesKeys s ops t := by
  induction h with
  | quiet hst => exact .of_eq hst.2 rfl
  | append _ _ ihfirst ihmore => exact ihfirst.append ihmore
  | write markup s => exact .of_eq rfl rfl
  | code s hstatement =>
    refine .of_eq rfl ?_
    rw [keysOf_code, Statement.key?_of_handsOver hstatement]
    rfl
  | leaf hrun => exact .of_eq (nextKey_lowerLeaf htext hrun) (yields_keysOf_lowerLeaf htext _ _ _ _ _ hrun)
  | @element os s t ops name attributes _ ih =>
    have hend : TakesKeys t [.code .endElement] t := .of_eq rfl rfl
    exact (TakesKeys.take s rfl).append (ih.append hend)
  | block _ _ ih => exact ⟨ih.le, (keysOf_block _ _).trans ih.keys⟩
  | definition params hfunction _ ih =>
    have hbody := (takesKeys_macroFunction hfunction).append ih
    exact ⟨hbody.le, (keysOf_block _ _).trans hbody.keys⟩
  | @call os s t u ops name function input hfunction _ ih =>
    have hcall : TakesKeys u [.code (.callMacro function input)] u := .of_eq rfl rfl
    exact (takesKeys_macroFunction hfunction).append (ih.append hcall)
  | component _ hkey ih => exact ih.append (.take _ (Statement.key?_of_componentKey? hkey))

/-- The keys in the operations of a run are the numbers from the next key before the run up to the next key
behind it, one behind the other and each of them once. -/
theorem keys_of_lowerAll {env : Env} (htext : env.text = standardText env.options) {ns : List Node}
    {s t : State} {ops : List LoweredOp} (hrun : outcome (lowerAll env ns) s = (.ok ops, t)) :
    s.nextKey ≤ t.nextKey ∧ Op.keysOf ops = List.range' s.nextKey (t.nextKey - s.nextKey) ∧
      (Op.keysOf ops).Nodup ∧ ∀ key, key ∈ Op.keysOf ops ↔ s.nextKey ≤ key ∧ key < t.nextKey := by
  have htakes : TakesKeys s ops t := (((builds_lower env).2 ns).1 s ops t hrun).takesKeys htext
  refine ⟨htakes.le, htakes.keys, ?_, fun key => ?_⟩
  · rw [htakes.keys]
    exact List.nodup_range'
  · rw [htakes.keys]
    exact mem_keysBetween

/-- An element with a tag in it that is chosen at rendering. That tag has a tag in a slot with an element in
it, which comes first, and a component behind the element closes the count. -/
theorem keys_of_lowerAll_slot :
    let tags := TagRegistry.ofList [.ofTemplate "my-tag" ⟨"/app/my-tag.marko"⟩]
    let env := (Setting.standard { output := .dom {} } tags).env ⟨"/app/page.marko"⟩ []
    let place : Marks := ⟨false, ⟨1, 1⟩⟩
    let chosen : Node := .tag place ⟨.dynamic "input.tag", [], none, []⟩ [
      .tag place ⟨.static "@head", [], none, []⟩ [.tag place ⟨.static "b", [], none, []⟩ []]]
    let ns : List Node := [.tag place ⟨.static "div", [], none, []⟩ [chosen],
      .tag place ⟨.static "my-tag", [], none, []⟩ []]
    let start := { State.start ⟨[]⟩ (.ofPath ⟨"/app/page.marko"⟩) .empty with nextKey := 5 }
    ∃ ops t, outcome (lowerAll env ns) start = (.ok ops, t) ∧ t.nextKey = 9 ∧
      Op.keysOf ops = [5, 6, 7, 8] := by
  intro tags env place chosen ns start
  have hnext : (outcome (lowerAll env ns) start).2.nextKey = 9 := by decide +kernel
  have hok : (outcome (lowerAll env ns) start).1.toOption.isSome = true := by decide +kernel
  obtain ⟨ops, hrun⟩ := exists_eq_ok_pair_of_isSome hok
  obtain ⟨-, hkeys, -, -⟩ := keys_of_lowerAll rfl hrun
  refine ⟨ops, _, hrun, hnext, ?_⟩
  rw [hkeys, hnext]
  rfl

end TemplateCompiler.Render
