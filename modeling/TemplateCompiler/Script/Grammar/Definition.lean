import TemplateCompiler.Script.Grammar.Target

/-!
# Patterns, functions and classes

The rules for binding patterns, member names, parameters, function bodies and class bodies.
-/

namespace TemplateCompiler.Script.Grammar

/-- A token that may start a member name. -/
def startsKey : Token → Bool
  | .name .. | .privateName _ | .number _ | .bigInt _ | .string _ => true
  | .symbol s => s == "["
  | _ => false

/-- A member name. -/
def memberKey (g : Rules) (c : Context) : Parser Key := do
  match ← peek with
  | .name text _ => advance; pure (.name text)
  | .privateName text => advance; pure (.privateName text)
  | .number x => advance; pure (.number x)
  | .bigInt value => advance; pure (.bigInt value)
  | .string s => advance; pure (.string s)
  | _ =>
    expectSymbol "["
    let e ← g.assignment c.inBrackets
    expectSymbol "]"
    pure (.computed e)

/-- Private names only name members of classes. -/
def publicKey (g : Rules) (c : Context) : Parser Key := do
  match ← memberKey g c with
  | .privateName _ => failure
  | key => pure key

/-! ## Patterns -/

/-- A pattern with a default value, if one follows. -/
def withDefault (g : Rules) (c : Context) (p : Pattern) : Parser Pattern := do
  if ← eatSymbol "=" then
    let value ← g.assignment c.inBrackets
    pure (.withDefault p value)
  else pure p

/-- A member of an object pattern. The rest has to be a name and the last member. -/
def patternProperty (g : Rules) (c : Context) : Parser PatternProperty := do
  if ← eatSymbol "..." then
    let name ← identifier c
    guard (← atSymbol "\x7d")
    return .rest (.target (.name name))
  let token ← peek
  let key ← publicKey g c
  if ← eatSymbol ":" then
    let p ← g.pattern c
    return .keyed key (← withDefault g c p)
  match token with
  | .name text _ =>
    guard (c.allowsName text)
    return .keyed key (← withDefault g c (.target (.name text)))
  | _ => failure

/-- An element of an array pattern. -/
def patternElement (g : Rules) (c : Context) : Parser Pattern := do
  if ← atSymbol "," then return .elision
  if ← eatSymbol "..." then
    let p ← g.pattern c
    guard (← atSymbol "]")
    return .rest p
  withDefault g c (← g.pattern c)

/-- A pattern that binds names. -/
def patternRule (g : Rules) (c : Context) : Parser Pattern := do
  if ← atSymbol "\x7b" then
    let (properties, _) ← bracketed "\x7b" "\x7d" (patternProperty g c)
    return .object properties
  if ← atSymbol "[" then
    let (elements, _) ← bracketed "[" "]" (patternElement g c)
    return .array elements
  return .target (.name (← identifier c))

/-! ## Functions -/

/-- A parameter. The rest has no default value and is the last parameter. -/
def parameter (g : Rules) (c : Context) : Parser Pattern := do
  if ← eatSymbol "..." then
    let p ← g.pattern c
    guard (← atSymbol ")")
    return .rest p
  withDefault g c (← g.pattern c)

/-- Parameters in parentheses. -/
def parameters (g : Rules) (c : Context) : Parser (List Pattern) := do
  let (ps, _) ← bracketed "(" ")" (parameter g c)
  pure ps

/-- Leading statements that are nothing but a string direct the reader of the script. -/
def markDirectives : List Statement → List Statement
  | .expression (.string s) :: rest => .directive s.raw :: markDirectives rest
  | statements => statements

/-- Statements in braces. -/
def braced (g : Rules) (c : Context) : Parser (List Statement) := do
  expectSymbol "\x7b"
  let statements ← repeatUntil "\x7d" (g.statement c.nested)
  expectSymbol "\x7d"
  pure statements

/-- The body of a function. -/
def functionBody (g : Rules) (isAsync isGenerator : Bool) : Parser (List Statement) := do
  pure (markDirectives (← braced g (.inFunction isAsync isGenerator)))

/-- Parameters and body of a function or method. -/
def functionRest (g : Rules) (isAsync isGenerator : Bool) (name : Option String) :
    Parser Function := do
  let ps ← parameters g (.inFunction isAsync isGenerator)
  let body ← functionBody g isAsync isGenerator
  pure (.mk isAsync isGenerator name ps body)

/-- The next tokens are `async function`, on one line. -/
def atAsyncFunction : Parser Bool := do
  if ← atWord "async" then
    match ← peekSecond with
    | (.name text false, newline) => pure (text == "function" && !newline)
    | _ => pure false
  else pure false

/-- The next token starts a function. -/
def atFunction : Parser Bool := do
  if ← atWord "function" then pure true else atAsyncFunction

/-- The name of a function or class, if it has one. The context is that of the name. -/
def optionalName (c : Context) : Parser (Option String) := do
  match ← peek with
  | .name text _ => if c.allowsName text then advance; pure (some text) else pure none
  | _ => pure none

/-- A function. The name of a declaration belongs to the place around it, the name of an expression
to the function itself. -/
def functionRule (g : Rules) (c : Context) (isDeclaration needsName : Bool) :
    Parser Function := do
  let isAsync ← eatWord "async"
  expectWord "function"
  let isGenerator ← eatSymbol "*"
  let name ← optionalName (if isDeclaration then c else .inFunction isAsync isGenerator)
  guard (name.isSome || !needsName)
  functionRest g isAsync isGenerator name

/-! ## Methods -/

/-- The words and marks in front of a member name. -/
structure Modifiers where
  isAsync : Bool
  isGenerator : Bool
  kind : MethodKind
  isAccessor : Bool

/-- A word is a modifier if a member name follows it, for `async` on the same line. -/
def eatModifier (w : String) : Parser Bool := do
  if ← atWord w then
    let (token, newline) ← peekSecond
    let isMark := token == .symbol "*"
    if (startsKey token || (isMark && w == "async")) && !(newline && w == "async") then
      advance
      pure true
    else pure false
  else pure false

/-- The modifiers of a method. -/
def methodModifiers : Parser Modifiers := do
  if ← eatModifier "get" then return ⟨false, false, .getter, false⟩
  if ← eatModifier "set" then return ⟨false, false, .setter, false⟩
  let isAsync ← eatModifier "async"
  let isGenerator ← eatSymbol "*"
  return ⟨isAsync, isGenerator, .plain, false⟩

/-- A getter takes nothing, a setter exactly one value. -/
def arityFits (kind : MethodKind) : Function → Bool
  | .mk _ _ _ params _ =>
    match kind, params with
    | .plain, _ => true
    | .getter, [] => true
    | .setter, [.rest _] => false
    | .setter, [_] => true
    | _, _ => false

/-- Parameters and body of a method. -/
def methodRest (g : Rules) (m : Modifiers) : Parser Function := do
  let f ← functionRest g m.isAsync m.isGenerator none
  guard (arityFits m.kind f)
  pure f

/-! ## Classes -/

/-- The key names a constructor. -/
def Key.isConstructor : Key → Bool
  | .name text => text == "constructor"
  | .string s => s.raw == "constructor"
  | _ => false

/-- The key names the prototype. -/
def Key.isPrototype : Key → Bool
  | .name text => text == "prototype"
  | .string s => s.raw == "prototype"
  | _ => false

/-- No private member has the name of the constructor. -/
def Key.isAllowed : Key → Bool
  | .privateName text => text != "constructor"
  | _ => true

/-- Decorators. They apply calls and members, but do not index. -/
def decorators (g : Rules) (c : Context) : Parser (List Expr) := do
  repeatWhile (eatSymbol "@") (g.callee { c with isDecorator := true }) (← remaining)

/-- A static block. -/
def staticBlock (g : Rules) : Parser Member := do
  let statements ← repeatUntil "\x7d" (g.statement ⟨true, false, false, false, false, false, false⟩)
  expectSymbol "\x7d"
  pure (.block statements)

/-- The next tokens open a static block. -/
def atStaticBlock : Parser Bool := do
  if ← atWord "static" then pure ((← peekSecond).1 == .symbol "\x7b") else pure false

/-- `static` is a modifier if a member follows it. -/
def eatStatic : Parser Bool := do
  if ← atWord "static" then
    let (token, _) ← peekSecond
    if startsKey token || token == .symbol "*" then
      advance
      pure true
    else pure false
  else pure false

/-- A member of a class, after the semicolons before it. -/
def classMember (g : Rules) (c : Context) : Parser Member := do
  let ds ← decorators g c
  if ← atStaticBlock then
    guard ds.isEmpty
    advance
    advance
    return ← staticBlock g
  let isStatic ← eatStatic
  let isAccessor ← eatModifier "accessor"
  let m ← if isAccessor then pure ⟨false, false, .plain, true⟩ else methodModifiers
  let key ← memberKey g c
  guard (Key.isAllowed key && !(isStatic && Key.isPrototype key))
  let isConstructor := !isStatic && Key.isConstructor key
  if ← atSymbol "(" then
    guard (!isAccessor)
    guard (!(isConstructor && (m.isAsync || m.isGenerator || m.kind != .plain)))
    let f ← methodRest g m
    return .method ds isStatic m.kind key f
  guard (!m.isAsync && !m.isGenerator && m.kind == .plain && !Key.isConstructor key)
  let value ←
    if ← eatSymbol "=" then
      let e ← g.assignment ⟨true, false, false, false, false, false, false⟩
      pure (some e)
    else pure none
  endStatement
  return .field ds isStatic isAccessor key value

/-- The members of a class, with any number of semicolons between them. -/
def classMembers (g : Rules) (c : Context) :
    Nat → Parser (List Member)
  | 0 => failure
  | steps + 1 => do
    if ← eatSymbol ";" then return ← classMembers g c steps
    if ← atSymbol "\x7d" then return []
    let member ← classMember g c
    let members ← classMembers g c steps
    return member :: members

/-- A class, after its decorators. -/
def classRule (g : Rules) (c : Context) (ds : List Expr)
    (needsName : Bool) : Parser Class := do
  expectWord "class"
  let name ← if ← atWord "extends" then pure none else optionalName c
  guard (name.isSome || !needsName)
  let parent ←
    if ← eatWord "extends" then
      let e ← g.callee c.inBrackets
      pure (some e)
    else pure none
  expectSymbol "\x7b"
  let members ← classMembers g c.inBrackets (← remaining)
  expectSymbol "\x7d"
  pure (.mk ds name parent members)

end TemplateCompiler.Script.Grammar
