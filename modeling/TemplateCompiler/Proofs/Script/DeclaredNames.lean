import TemplateCompiler.Script.Literal

/-!
# Names of a module

The names that a module binds at its top level (`Module.boundNames`): those of its imports and of its
declarations, exported or not, through all patterns, and those of variables that are declared with `var` in
other statements, which belong to the module as well. A text reserves the plain ones among them
(`Statement.reservedNames`). All others are in one of three places: below a default value of a pattern, in
an exported declaration, or inside of another statement (`Statement.hiddenNames`).
-/

namespace TemplateCompiler.Script

/-! ## Names below default values -/

mutual

/-- The names that a pattern binds below a default value. -/
def Pattern.defaultedNames : Pattern → List String
  | .target _ => []
  | .object properties => propertyDefaultedNames properties
  | .array elements => elementDefaultedNames elements
  | .elision => []
  | .rest inner => inner.defaultedNames
  | .withDefault inner _ => inner.boundNames
termination_by structural p => p

/-- The names that the elements of an array pattern bind below a default value. -/
def elementDefaultedNames : List Pattern → List String
  | [] => []
  | p :: rest => p.defaultedNames ++ elementDefaultedNames rest
termination_by structural ps => ps

/-- The names that the members of an object pattern bind below a default value. -/
def propertyDefaultedNames : List PatternProperty → List String
  | [] => []
  | p :: rest => p.defaultedNames ++ propertyDefaultedNames rest
termination_by structural ps => ps

/-- The names that a member of an object pattern binds below a default value. -/
def PatternProperty.defaultedNames : PatternProperty → List String
  | .keyed _ value => value.defaultedNames
  | .rest inner => inner.defaultedNames
termination_by structural p => p

end

mutual

/-- A name of a pattern has a default value around it, or it has none. -/
theorem Pattern.mem_boundNames_iff (x : String) :
    ∀ p : Pattern, x ∈ p.boundNames ↔ x ∈ p.plainNames ∨ x ∈ p.defaultedNames
  | .target e => by
    cases e <;> simp [Pattern.boundNames, Pattern.plainNames, Pattern.defaultedNames]
  | .object properties => by
    rw [Pattern.boundNames, Pattern.plainNames, Pattern.defaultedNames]
    exact mem_propertyBoundNames_iff x properties
  | .array elements => by
    rw [Pattern.boundNames, Pattern.plainNames, Pattern.defaultedNames]
    exact mem_elementBoundNames_iff x elements
  | .elision => by simp [Pattern.boundNames, Pattern.plainNames, Pattern.defaultedNames]
  | .rest inner => by
    rw [Pattern.boundNames, Pattern.plainNames, Pattern.defaultedNames]
    exact inner.mem_boundNames_iff x
  -- All names below the default value are hidden, so no plain one is left to look for.
  | .withDefault inner _ => by simp [Pattern.boundNames, Pattern.plainNames, Pattern.defaultedNames]
termination_by structural p => p

theorem mem_elementBoundNames_iff (x : String) :
    ∀ ps : List Pattern, x ∈ elementBoundNames ps ↔
      x ∈ elementPlainNames ps ∨ x ∈ elementDefaultedNames ps
  | [] => by simp [elementBoundNames, elementPlainNames, elementDefaultedNames]
  | p :: ps => by
    simp only [elementBoundNames, elementPlainNames, elementDefaultedNames, List.mem_append]
    rw [p.mem_boundNames_iff x, mem_elementBoundNames_iff x ps]
    exact or_or_or_comm
termination_by structural ps => ps

theorem mem_propertyBoundNames_iff (x : String) :
    ∀ ps : List PatternProperty, x ∈ propertyBoundNames ps ↔
      x ∈ propertyPlainNames ps ∨ x ∈ propertyDefaultedNames ps
  | [] => by simp [propertyBoundNames, propertyPlainNames, propertyDefaultedNames]
  | p :: ps => by
    simp only [propertyBoundNames, propertyPlainNames, propertyDefaultedNames, List.mem_append]
    rw [p.mem_boundNames_iff x, mem_propertyBoundNames_iff x ps]
    exact or_or_or_comm
termination_by structural ps => ps

theorem PatternProperty.mem_boundNames_iff (x : String) :
    ∀ p : PatternProperty, x ∈ p.boundNames ↔ x ∈ p.plainNames ∨ x ∈ p.defaultedNames
  | .keyed _ value => by
    rw [PatternProperty.boundNames, PatternProperty.plainNames, PatternProperty.defaultedNames]
    exact value.mem_boundNames_iff x
  | .rest inner => by
    rw [PatternProperty.boundNames, PatternProperty.plainNames, PatternProperty.defaultedNames]
    exact inner.mem_boundNames_iff x
termination_by structural p => p

end

/-! ## Variables of other statements -/

/-- The names that the target of a loop declares with `var`. -/
def LoopTarget.varNames : LoopTarget → List String
  | .declared .var pattern => pattern.boundNames
  | .declared _ _ | .assigned _ => []

mutual

/-- The names that a statement declares with `var`, also in statements inside of it. Functions and classes
keep theirs to themselves. -/
def Statement.varNames : Statement → List String
  | .variables .var ds => ds.flatMap (·.pattern.boundNames)
  | .block body => varNamesOf body
  | .branch _ yes no => yes.varNames ++ optionVarNames no
  | .loop first _ _ body => optionVarNames first ++ body.varNames
  | .loopIn target _ body | .loopOf _ target _ body => target.varNames ++ body.varNames
  | .loopWhile _ body | .loopUntil body _ => body.varNames
  | .guarded body _ handler final => varNamesOf body ++ blockVarNames handler ++ blockVarNames final
  | .switch _ cases => casesVarNames cases
  | .labeled _ body | .withObject _ body => body.varNames
  | .directive _ | .empty | .expression _ | .variables _ _ | .function _ | .classOf _ | .continueTo _
  | .breakTo _ | .returnValue _ | .throwValue _ | .debugger | .imports _ _ _ | .exportDeclaration _
  | .exportDefault _ | .exportNames _ _ _ | .exportAll _ _ _ => []
termination_by structural s => s

/-- The names that statements declare with `var`. -/
def varNamesOf : List Statement → List String
  | [] => []
  | s :: rest => s.varNames ++ varNamesOf rest
termination_by structural ss => ss

/-- The names that a statement declares with `var`, if there is one. -/
def optionVarNames : Option Statement → List String
  | none => []
  | some s => s.varNames
termination_by structural s => s

/-- The names that a block declares with `var`, if there is one. -/
def blockVarNames : Option (List Statement) → List String
  | none => []
  | some body => varNamesOf body
termination_by structural body => body

/-- The names that the cases of a switch declare with `var`. -/
def casesVarNames : List Case → List String
  | [] => []
  | c :: rest => c.varNames ++ casesVarNames rest
termination_by structural cases => cases

/-- The names that a case declares with `var`. -/
def Case.varNames : Case → List String
  | .mk _ body => varNamesOf body
termination_by structural c => c

end

/-! ## Names of module items -/

namespace Statement

/-- The names that a module item binds at the top level of the module. -/
def boundNames : Statement → List String
  | .variables _ ds => ds.flatMap (·.pattern.boundNames)
  | .function f => f.name?.toList
  | .classOf c => c.name?.toList
  | .imports (some bs) _ _ => bs.map (·.name)
  | .exportDeclaration d | .exportDefault d => d.declaredNames
  | s => s.varNames

/-- The names that a module item binds in an exported declaration, below a default value, or inside of
another statement. -/
def hiddenNames : Statement → List String
  | .variables _ ds => ds.flatMap (·.pattern.defaultedNames)
  | .exportDeclaration d | .exportDefault d => d.declaredNames
  | s => s.varNames

/-- A module item reserves all its names apart from the hidden ones. -/
theorem mem_boundNames_iff (s : Statement) (x : String) :
    x ∈ s.boundNames ↔ x ∈ s.reservedNames ∨ x ∈ s.hiddenNames := by
  cases s with
  | «variables» kind ds =>
    simp only [boundNames, reservedNames, hiddenNames, List.mem_flatMap, ← exists_or, ← and_or_left,
      Pattern.mem_boundNames_iff x]
  | imports bindings source attributes =>
    cases bindings <;> simp [boundNames, reservedNames, hiddenNames, varNames]
  | _ => simp [boundNames, reservedNames, hiddenNames, varNames]

end Statement

/-- The names that a module binds at its top level. -/
def Module.boundNames (m : Module) : List String := m.items.flatMap (·.boundNames)

/-- The names of a module that are hidden from those who read its plain declarations only. -/
def Module.hiddenNames (m : Module) : List String := m.items.flatMap (·.hiddenNames)

/-! ## Main result -/

/-- A module reserves names that it binds, and only hidden ones may be missing. So it reserves just the names
that it binds exactly if each hidden name is bound in plain sight as well; with no hidden names it always
does. -/
theorem mem_reservedNames_iff (code : String) (m : Module) (h : parseModule code = some m) :
    (∀ x, x ∈ m.boundNames ↔ x ∈ reservedNames code ∨ x ∈ m.hiddenNames) ∧
    ((∀ x, x ∈ reservedNames code ↔ x ∈ m.boundNames) ↔ ∀ x ∈ m.hiddenNames, x ∈ reservedNames code) := by
  have hreserved : reservedNames code = m.items.flatMap (·.reservedNames) := by
    rw [reservedNames, h]
  have hbound (x : String) : x ∈ m.boundNames ↔ x ∈ reservedNames code ∨ x ∈ m.hiddenNames := by
    simp only [hreserved, Module.boundNames, Module.hiddenNames, List.mem_flatMap, ← exists_or,
      ← and_or_left, Statement.mem_boundNames_iff]
  refine ⟨hbound, fun hall x hx => (hall x).mpr ((hbound x).mpr (.inr hx)), fun hhidden x => ?_⟩
  rw [hbound x]
  exact ⟨.inl, fun hx => hx.elim id (hhidden x)⟩

/-- A module with imports, nested patterns, a function and a class. -/
theorem mem_reservedNames_iff_patterns :
    let code := "import a, \x7b b as c \x7d from \"x\"; const \x7b d: [e, ...f], ...g \x7d = h; " ++
      "function i() \x7b var j; \x7d class k \x7b \x7d"
    ∃ m, parseModule code = some m ∧ m.hiddenNames = [] ∧ (∀ x, x ∈ reservedNames code ↔ x ∈ m.boundNames) ∧
      reservedNames code = ["a", "c", "e", "f", "g", "i", "k"] := by
  intro code
  have hhidden : (parseModule code).map Module.hiddenNames = some [] := by decide +kernel
  obtain ⟨m, hm, hnil⟩ := Option.map_eq_some_iff.mp hhidden
  have hnone : ∀ x ∈ m.hiddenNames, x ∈ reservedNames code := by simp [hnil]
  exact ⟨m, hm, hnil, (mem_reservedNames_iff code m hm).2.mpr hnone, by decide +kernel⟩

/-- An exported declaration, a default value and a variable in a block: all four names are bound at the top
level, and none of them is reserved. -/
theorem exists_name_not_reserved :
    let code := "export const a = 1; export default function b() \x7b \x7d const \x7b c = 1 \x7d = d; " ++
      "if (d) \x7b var e; \x7d"
    (parseModule code).map Module.boundNames = some ["a", "b", "c", "e"] ∧ reservedNames code = [] := by
  decide +kernel

end TemplateCompiler.Script
