import TemplateCompiler.Script.Token

/-!
# Names in modules

The names that patterns and declarations bind and that modules export. There are two readings of a
pattern: `boundNames` are all the names it binds, `plainNames` those that have no default value.
-/

namespace TemplateCompiler.Script

mutual

/-- The names that a pattern binds. -/
def Pattern.boundNames : Pattern → List String
  | .target (.name id) => [id]
  | .target _ => []
  | .object properties => propertyBoundNames properties
  | .array elements => elementBoundNames elements
  | .elision => []
  | .rest inner => inner.boundNames
  | .withDefault inner _ => inner.boundNames
termination_by structural p => p

/-- The names that the elements of an array pattern bind. -/
def elementBoundNames : List Pattern → List String
  | [] => []
  | p :: rest => p.boundNames ++ elementBoundNames rest
termination_by structural ps => ps

/-- The names that the members of an object pattern bind. -/
def propertyBoundNames : List PatternProperty → List String
  | [] => []
  | p :: rest => p.boundNames ++ propertyBoundNames rest
termination_by structural ps => ps

/-- The names that a member of an object pattern binds. -/
def PatternProperty.boundNames : PatternProperty → List String
  | .keyed _ value => value.boundNames
  | .rest inner => inner.boundNames
termination_by structural p => p

end

/-- The pattern of a declared variable. -/
def Declarator.pattern : Declarator → Pattern
  | .mk p _ => p

/-- The name of a function. -/
def Function.name? : Function → Option String
  | .mk _ _ name _ _ => name

/-- The name of a class. -/
def Class.name? : Class → Option String
  | .mk _ name _ _ => name

/-! ## Declared and exported names -/

/-- The names that a declaration binds. -/
def Statement.declaredNames : Statement → List String
  | .variables _ ds => ds.flatMap (·.pattern.boundNames)
  | .function f => f.name?.toList
  | .classOf c => c.name?.toList
  | _ => []

/-- The text of a name in an import or export clause. -/
def ModuleName.text : ModuleName → String
  | .name text => text
  | .string s => StringUnit.text s.units

/-- The names under which an item exports something. -/
def Statement.exportedNames : Statement → List String
  | .exportDeclaration d => d.declaredNames
  | .exportDefault _ => ["default"]
  | .exportNames bs _ _ => bs.map (·.exported.text)
  | .exportAll (some name) _ _ => [name.text]
  | _ => []

/-- No name of a list occurs twice. -/
def isDistinct : List String → Bool
  | [] => true
  | x :: xs => !xs.contains x && isDistinct xs

/-! ## Names without default values -/

mutual

/-- The names that a pattern binds without a default value anywhere around them. -/
def Pattern.plainNames : Pattern → List String
  | .target (.name id) => [id]
  | .target _ => []
  | .object properties => propertyPlainNames properties
  | .array elements => elementPlainNames elements
  | .elision => []
  | .rest inner => inner.plainNames
  | .withDefault _ _ => []
termination_by structural p => p

/-- The plain names of the elements of an array pattern. -/
def elementPlainNames : List Pattern → List String
  | [] => []
  | p :: rest => p.plainNames ++ elementPlainNames rest
termination_by structural ps => ps

/-- The plain names of the members of an object pattern. -/
def propertyPlainNames : List PatternProperty → List String
  | [] => []
  | p :: rest => p.plainNames ++ propertyPlainNames rest
termination_by structural ps => ps

/-- The plain names of a member of an object pattern. -/
def PatternProperty.plainNames : PatternProperty → List String
  | .keyed _ value => value.plainNames
  | .rest inner => inner.plainNames
termination_by structural p => p

end

/-- The name that an import clause binds. -/
def ImportBinding.name : ImportBinding → String
  | .default name | .all name | .named _ name => name

/-- The names that a module item reserves: those of imports and of declarations that are not
exported, where patterns count with their plain names. -/
def Statement.reservedNames : Statement → List String
  | .variables _ ds => ds.flatMap (·.pattern.plainNames)
  | .function f => f.name?.toList
  | .classOf c => c.name?.toList
  | .imports (some bs) _ _ => bs.map (·.name)
  | _ => []

end TemplateCompiler.Script
