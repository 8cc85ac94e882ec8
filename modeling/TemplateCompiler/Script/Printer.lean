import TemplateCompiler.Decimal.Numeral
import TemplateCompiler.Script.Parser

/-!
# Printing scripts

The printed form of a module: one statement a line, tabs for indentation, double quotes around
strings, numbers in their shortest form, and parentheses only where the reading needs them.
-/

namespace TemplateCompiler.Script

open TemplateCompiler.Text

/-! ## Binding strength -/

/-- How tightly the place of an expression holds it: a looser expression needs parentheses. -/
inductive Level where
  | lowest
  | comma
  | spread
  | yield
  | assign
  | conditional
  | coalesce
  | or
  | and
  | bitOr
  | bitXor
  | bitAnd
  | equals
  | compare
  | shift
  | add
  | multiply
  | power
  | unary
  | suffix
  | construct
  | call
deriving DecidableEq, Ord

/-- One level holds at least as tightly as another. -/
def Level.holds (outer inner : Level) : Bool := (Ord.compare outer inner).isGE

/-- The level of a binary operator and the next looser one. -/
def operatorLevels (op : String) : Level × Level :=
  match Grammar.precedence? op with
  | some 1 => (.coalesce, .conditional)
  | some 2 => (.or, .coalesce)
  | some 3 => (.and, .or)
  | some 4 => (.bitOr, .and)
  | some 5 => (.bitXor, .bitOr)
  | some 6 => (.bitAnd, .bitXor)
  | some 7 => (.equals, .bitAnd)
  | some 8 => (.compare, .equals)
  | some 9 => (.shift, .compare)
  | some 10 => (.add, .shift)
  | some 11 => (.multiply, .add)
  | _ => (.power, .multiply)

/-- What the text of an expression stands right behind. Some expressions need parentheses there, so
as not to be read as something else. -/
inductive Lead where
  | none
  | statement
  | arrow
  | defaultExport
deriving DecidableEq

/-- The place of an expression in the printed text. -/
structure Place where
  indent : Nat
  level : Level
  lead : Lead
  /-- The operator `in` needs parentheses. -/
  noIn : Bool
  /-- Calls need parentheses. -/
  noCall : Bool

/-- A place inside of brackets. -/
def Place.free (indent : Nat) (level : Level) : Place := ⟨indent, level, .none, false, false⟩

/-- The same place with another level. -/
def Place.at (p : Place) (level : Level) : Place := { p with level }

/-- The place of an operand that does not come first. -/
def Place.behind (p : Place) (level : Level) : Place := { p with level, lead := .none }

/-- Text in parentheses if a condition holds. -/
def parens (needed : Bool) (text : String) : String := if needed then "(" ++ text ++ ")" else text

/-- The place inside of parentheses, if they are needed. -/
def Place.inside (p : Place) (needed : Bool) : Place :=
  if needed then { p with lead := .none, noIn := false, noCall := false } else p

/-! ## Leaves -/

/-- Indentation. -/
def tabs (n : Nat) : String := String.ofList (List.replicate n '\t')

/-- Texts with a separator between them. -/
def joinWith (separator : String) (texts : List String) : String := String.intercalate separator texts

/-- The letters of the tag name that must not follow `</`. -/
def scriptTag : List Char := "script".toList

/-- Text in which no tag ends a script around it: a backslash breaks `</script`. -/
def guardClosing : List Char → List Char
  | [] => []
  | '<' :: '/' :: rest =>
    let tail := '/' :: guardClosing rest
    if (rest.take 6).map Char.toLower == scriptTag then '<' :: '\\' :: tail else '<' :: tail
  | c :: rest => c :: guardClosing rest

/-- The characters of string text in double quotes. -/
def quotedChars : List StringUnit → List Char
  | [] => []
  | .lone code :: rest => '\\' :: 'u' :: hex4 code ++ quotedChars rest
  | .char c :: rest =>
    let tail := quotedChars rest
    if c == '\x00' then
      match rest with
      | .char d :: _ => (if isAsciiDigit d then "\\x00" else "\\0").toList ++ tail
      | _ => "\\0".toList ++ tail
    else if c == '\x07' then "\\x07".toList ++ tail
    else if c == '\x08' then "\\b".toList ++ tail
    else if c == '\n' then "\\n".toList ++ tail
    else if c == '\x0b' then "\\v".toList ++ tail
    else if c == '\x0c' then "\\f".toList ++ tail
    else if c == '\r' then "\\r".toList ++ tail
    else if c == '\x1b' then "\\x1B".toList ++ tail
    else if c == '\\' then "\\\\".toList ++ tail
    else if c == '\x22' then '\\' :: '\x22' :: tail
    else if c == '\u2028' then "\\u2028".toList ++ tail
    else if c == '\u2029' then "\\u2029".toList ++ tail
    else if c == '\u00a0' then "\\xA0".toList ++ tail
    else c :: tail

/-- A string in double quotes. -/
def printString (s : Quoted) : String :=
  String.ofList ('\x22' :: (guardClosing (quotedChars s.units) ++ ['\x22']))

/-- The quote around a directive: double, unless the first quote in it is a double one. -/
def directiveQuote : List Char → Char
  | [] => '\x22'
  | '\\' :: _ :: rest => directiveQuote rest
  | c :: rest => if c == '\x22' then '\'' else if c == '\'' then '\x22' else directiveQuote rest

/-- A directive as it was written, apart from its quotes. -/
def printDirective (raw : String) : String :=
  let quote := String.ofList [directiveQuote raw.toList]
  quote ++ raw ++ quote ++ ";"

/-- A number. -/
def printNumber (x : Decimal.Binary64) : String := String.ofList x.magnitude.compact

/-- A whole number of arbitrary size, in decimal digits. -/
def printBigInt (value : Nat) : String := String.ofList (Nat.toDigits 10 value ++ ['n'])

/-- A dot behind a whole number would be read as part of it. -/
def needsSpaceBeforeDot : Expr → Bool
  | .number x => x.magnitude.compact.all isAsciiDigit
  | _ => false

/-- A name in an import or export clause. -/
def printModuleName : ModuleName → String
  | .name text => text
  | .string s => printString s

/-- Two names of a clause with `as` between them, or one if they are the same. -/
def printRenaming (first second : String) : String :=
  if first == second then first else first ++ " as " ++ second

/-- Texts in spaced braces. -/
def spacedBraces (texts : List String) : String :=
  if texts.isEmpty then "\x7b\x7d" else "\x7b " ++ joinWith ", " texts ++ " \x7d"

/-- A binding in the braces of an import clause. -/
def printNamedImport? : ImportBinding → Option String
  | .named imported name => some (printRenaming (printModuleName imported) name)
  | _ => none

/-- A binding of an import clause outside of braces. -/
def printOuterImport? : ImportBinding → Option String
  | .default name => some name
  | .all name => some ("* as " ++ name)
  | .named .. => none

/-- The clause of an import. -/
def printImportClause (bs : List ImportBinding) : String :=
  let outer := bs.filterMap printOuterImport?
  let named := bs.filterMap printNamedImport?
  joinWith ", " (if named.isEmpty && !outer.isEmpty then outer else outer ++ [spacedBraces named])

/-- The attributes of an imported module. -/
def printAttributes (as : List ImportAttribute) : String :=
  if as.isEmpty then ""
  else
    " with " ++ spacedBraces (as.map fun a => printModuleName a.key ++ ": " ++ printString a.value)

/-- The module that something comes from. -/
def printFrom (source : Quoted) (as : List ImportAttribute) : String :=
  " from " ++ printString source ++ printAttributes as

/-- The keyword of a variable declaration. -/
def VariableKind.keyword : VariableKind → String
  | .var => "var"
  | .let => "let"
  | .const => "const"

/-- The word in front of a method. -/
def MethodKind.text : MethodKind → String
  | .plain => ""
  | .getter => "get "
  | .setter => "set "

/-- Items in braces, one a line, at a given indentation of the braces. -/
def bracedLines (indent : Nat) (lines : List String) : String :=
  if lines.isEmpty then "\x7b\x7d"
  else "\x7b\n" ++ String.join lines ++ tabs indent ++ "\x7d"

/-- Items between two brackets: on one line, or one a line with commas behind them. -/
def listed (indent : Nat) (multiline : Bool) (opening close pad : String) (texts : List String) :
    String :=
  if texts.isEmpty then opening ++ close
  else if multiline then
    opening ++ "\n" ++ joinWith ",\n" (texts.map (tabs (indent + 1) ++ ·)) ++ "\n" ++
      tabs indent ++ close
  else opening ++ pad ++ joinWith ", " texts ++ pad ++ close

/-- An array whose last element is missing ends in a comma. -/
def endsInElision (elements : List Expr) : Bool :=
  match elements.getLast? with
  | some .elision => true
  | _ => false

/-- A pattern whose last element is missing ends in a comma. -/
def patternEndsInElision (elements : List Pattern) : Bool :=
  match elements.getLast? with
  | some .elision => true
  | _ => false

/-- Texts with a comma behind the last one, if it is needed. -/
def withTrailingComma (needed : Bool) : List String → List String
  | [] => []
  | [t] => [if needed then t ++ "," else t]
  | t :: rest => t :: withTrailingComma needed rest

/-- The value repeats the key, so that one of them suffices. -/
def isShorthand (key : Key) (value : Expr) (written : Bool) : Bool :=
  match key, value.bare with
  | .name k, .name v => if k == "__proto__" then written else k == v
  | _, _ => false

/-- The pattern repeats the key, so that one of them suffices. -/
def isShorthandPattern (key : Key) (value : Pattern) : Bool :=
  match key, value with
  | .name k, .target (.name v) => k == v
  | .name k, .withDefault (.target (.name v)) _ => k == v
  | _, _ => false

/-- A part of a template between substitutions. -/
def printChunk (chunk : Chunk) : String := String.ofList (guardClosing chunk.raw.toList)

/-- Template text with substitutions in turn. -/
def interleave : List Chunk → List String → String
  | [], _ => ""
  | [chunk], _ => printChunk chunk
  | chunk :: chunks, e :: es =>
    printChunk chunk ++ "$\x7b" ++ e ++ "\x7d" ++ interleave chunks es
  | chunk :: _, [] => printChunk chunk

/-- A template in its marks. -/
def printTemplate (chunks : List Chunk) (es : List String) : String :=
  String.ofList ['\x60'] ++ interleave chunks es ++ String.ofList ['\x60']

/-- Two signs in a row would be read as one operator. -/
def needsSpaceAfterSign (op : String) : Expr → Bool
  | .unary inner _ => (op == "+" || op == "-") && inner == op
  | .update inner true _ => (op == "+" && inner == "++") || (op == "-" && inner == "--")
  | _ => false

/-- An `if` without an `else` at the end of the text, which would take an `else` that follows. -/
def endsInBranch : Statement → Bool
  | .branch _ _ none => true
  | .branch _ _ (some no) => endsInBranch no
  | .loop _ _ _ body => endsInBranch body
  | .loopIn _ _ body => endsInBranch body
  | .loopOf _ _ _ body => endsInBranch body
  | .loopWhile _ body => endsInBranch body
  | .withObject _ body => endsInBranch body
  | .labeled _ body => endsInBranch body
  | _ => false

/-- Statements in braces. -/
def isBlock : Statement → Bool
  | .block _ => true
  | _ => false

/-- How a statement is placed: on a line of its own, or behind what governs it. -/
inductive Start where
  | line
  | behind

/-- The text in front of a statement. -/
def Start.text (indent : Nat) : Start → String
  | .line => tabs indent
  | .behind => " "

/-- The text in front of an empty statement: no blank separates it from what governs it. -/
def Start.textOfEmpty (indent : Nat) : Start → String
  | .line => tabs indent
  | .behind => ""

/-- Names before a function's parameters. -/
def functionKeyword (isAsync isGenerator : Bool) (name : Option String) : String :=
  (if isAsync then "async " else "") ++ "function" ++ (if isGenerator then "* " else "") ++
    match name with
    | some n => (if isGenerator then n else " " ++ n)
    | none => ""

/-! ## Trees -/

mutual

/-- The text of an expression in its place. -/
def Expr.print (p : Place) : Expr → String
  | .name id => id
  | .this => "this"
  | .super => "super"
  | .null => "null"
  | .boolean b => if b then "true" else "false"
  | .number x => printNumber x
  | .bigInt value => printBigInt value
  | .string s => printString s
  | .regex pattern flags => "/" ++ pattern ++ "/" ++ flags
  | .template chunks es => printTemplate chunks (printExprs (.free p.indent .lowest) es)
  | .tagged tag chunks es =>
    tag.print ⟨p.indent, .suffix, p.lead, false, false⟩ ++
      printTemplate chunks (printExprs (.free p.indent .lowest) es)
  | .array es =>
    let multiline := 2 < es.length
    let inner := if multiline then p.indent + 1 else p.indent
    listed p.indent multiline "[" "]" ""
      (withTrailingComma (endsInElision es) (printExprs (.free inner .comma) es))
  | .elision => ""
  | .spread e _ => "..." ++ e.print (.free p.indent .comma)
  | .object ps =>
    let multiline := 1 < ps.length
    let inner := if multiline then p.indent + 1 else p.indent
    parens (p.lead == .statement || p.lead == .arrow)
      (listed p.indent multiline "\x7b" "\x7d" " " (printProperties inner ps))
  | .function f =>
    parens (p.lead == .statement || p.lead == .defaultExport) (f.print p.indent)
  | .arrow isAsync params body =>
    parens (p.level.holds .assign)
      ((if isAsync then "async " else "") ++ "(" ++ joinWith ", " (printPatterns p.indent params) ++
        ") => " ++ bracedLines p.indent (printStatements (p.indent + 1) body))
  | .arrowTo isAsync params e =>
    let needed := p.level.holds .assign
    parens needed
      ((if isAsync then "async " else "") ++ "(" ++ joinWith ", " (printPatterns p.indent params) ++
        ") => " ++ e.print ⟨p.indent, .comma, .arrow, (p.inside needed).noIn, false⟩)
  | .classOf c =>
    parens (p.lead == .statement || p.lead == .defaultExport) (c.print p.indent)
  | .unary op e =>
    let needed := p.level.holds .unary
    let q := (p.inside needed).behind .power
    let space := if Grammar.unaryWords.contains op || needsSpaceAfterSign op e.bare then " " else ""
    parens needed (op ++ space ++ e.print q)
  | .update op true e =>
    let needed := p.level.holds .unary
    parens needed (op ++ e.print ((p.inside needed).behind .unary))
  | .update op false e =>
    let needed := p.level.holds .suffix
    parens needed (e.print ((p.inside needed).at .suffix) ++ op)
  | .binary op l r =>
    let (level, looser) := operatorLevels op
    let needed := p.level.holds level || (op == "in" && p.noIn)
    let q := { p.inside needed with noCall := false }
    let isPower := op == "**"
    let left :=
      match l.bare with
      | .unary .. => if isPower then Level.call else looser
      | .await _ => if isPower then Level.call else looser
      | e =>
        if isPower then level
        else if op == "??" && Grammar.Expr.isAndOr e then .unary
        else looser
    let right :=
      if isPower then looser
      else if op == "??" && Grammar.Expr.isAndOr r.bare then .unary
      else level
    parens needed (l.print (q.at left) ++ " " ++ op ++ " " ++ r.print (q.behind right))
  | .privateIn name e =>
    let needed := p.level.holds .compare || p.noIn
    parens needed ("#" ++ name ++ " in " ++ e.print ((p.inside needed).behind .compare))
  | .conditional test yes no =>
    let needed := p.level.holds .conditional
    let q := { p.inside needed with noCall := false }
    parens needed
      (test.print (q.at .conditional) ++ " ? " ++ yes.print (.free p.indent .yield) ++ " : " ++
        no.print (q.behind .yield))
  | .assign op target value =>
    let isObject := match target with | .object _ => true | _ => false
    let needed :=
      (isObject && (p.lead == .statement || p.lead == .arrow)) || p.level.holds .assign
    let q := { p.inside needed with noCall := false }
    parens needed
      (target.print p.indent q.lead ++ " " ++ op ++ " " ++ value.print (q.behind .comma))
  | .sequence es =>
    let needed := p.level.holds .comma
    let q := { p.inside needed with noCall := false }
    parens needed (joinWith ", " (printSequence (q.at .lowest) es))
  | .member e name optional =>
    let dot := if optional then "?." else if needsSpaceBeforeDot e.bare then " ." else "."
    e.print ⟨p.indent, .suffix, p.lead, false, p.noCall⟩ ++ dot ++ name
  | .privateMember e name optional =>
    e.print ⟨p.indent, .suffix, p.lead, false, p.noCall⟩ ++ (if optional then "?." else ".") ++
      "#" ++ name
  | .index e key optional =>
    e.print ⟨p.indent, .suffix, p.lead, false, p.noCall⟩ ++ (if optional then "?.[" else "[") ++
      key.print (.free p.indent .lowest) ++ "]"
  | .call callee arguments optional =>
    let needed := p.level.holds .construct || p.noCall
    parens needed
      (callee.print ⟨p.indent, .suffix, (p.inside needed).lead, false, false⟩ ++
        (if optional then "?." else "") ++ "(" ++
        joinWith ", " (printExprs (.free p.indent .comma) arguments) ++ ")")
  | .construct callee arguments =>
    parens (p.level.holds .call)
      ("new " ++ callee.print ⟨p.indent, .construct, .none, false, true⟩ ++ "(" ++
        joinWith ", " (printExprs (.free p.indent .comma) arguments) ++ ")")
  | .importCall arguments =>
    parens (p.level.holds .construct || p.noCall)
      ("import(" ++ joinWith ", " (printExprs (.free p.indent .comma) arguments) ++ ")")
  | .metaProperty object name => object ++ "." ++ name
  | .chain e =>
    let needed := p.level.holds .suffix
    parens needed (e.print (p.inside needed))
  | .paren e => e.print p
  | .yield delegate e =>
    let needed := p.level.holds .assign
    parens needed
      ("yield" ++ (if delegate then "*" else "") ++ printOperand ((p.inside needed).behind .yield) e)
  | .await e =>
    let needed := p.level.holds .unary
    parens needed ("await " ++ e.print ((p.inside needed).behind .power))
termination_by structural e => e

/-- The operand of `yield`, behind a blank. -/
def printOperand (p : Place) : Option Expr → String
  | none => ""
  | some e => " " ++ e.print p
termination_by structural e => e

/-- The texts of expressions in like places. -/
def printExprs (p : Place) : List Expr → List String
  | [] => []
  | e :: es => e.print p :: printExprs p es
termination_by structural es => es

/-- The texts of the parts of a sequence, of which only the first comes first. -/
def printSequence (p : Place) : List Expr → List String
  | [] => []
  | e :: es => e.print p :: printSequence (p.behind p.level) es
termination_by structural es => es

/-- The text of a member name. -/
def Key.print (indent : Nat) : Key → String
  | .name text => text
  | .string s => printString s
  | .number x => printNumber x
  | .bigInt value => printBigInt value
  | .computed e => "[" ++ e.print (.free indent .comma) ++ "]"
  | .privateName text => "#" ++ text
termination_by structural k => k

/-- The text of a member of an object. -/
def Property.print (indent : Nat) : Property → String
  | .keyed key value shorthand =>
    (if isShorthand key value shorthand then "" else key.print indent ++ ": ") ++
      value.print (.free indent .comma)
  | .method kind key f => kind.text ++ f.printMethod indent (key.print indent)
  | .withDefault name value => name ++ " = " ++ value.print (.free indent .comma)
  | .spread e _ => "..." ++ e.print (.free indent .comma)
termination_by structural p => p

/-- The texts of the members of an object. -/
def printProperties (indent : Nat) : List Property → List String
  | [] => []
  | p :: ps => p.print indent :: printProperties indent ps
termination_by structural ps => ps

/-- The text of a pattern. -/
def Pattern.print (indent : Nat) (lead : Lead) : Pattern → String
  | .target e => e.print ⟨indent, .lowest, lead, false, false⟩
  | .object ps => listed indent false "\x7b" "\x7d" " " (printPatternProperties indent ps)
  | .array es =>
    listed indent false "[" "]" ""
      (withTrailingComma (patternEndsInElision es) (printPatterns indent es))
  | .elision => ""
  | .rest inner => "..." ++ inner.print indent .none
  | .withDefault inner value =>
    inner.print indent lead ++ " = " ++ value.print (.free indent .comma)
termination_by structural p => p

/-- The texts of patterns. -/
def printPatterns (indent : Nat) : List Pattern → List String
  | [] => []
  | p :: ps => p.print indent .none :: printPatterns indent ps
termination_by structural ps => ps

/-- The text of a member of an object pattern. -/
def PatternProperty.print (indent : Nat) : PatternProperty → String
  | .keyed key value =>
    (if isShorthandPattern key value then "" else key.print indent ++ ": ") ++
      value.print indent .none
  | .rest inner => "..." ++ inner.print indent .none
termination_by structural p => p

/-- The texts of the members of an object pattern. -/
def printPatternProperties (indent : Nat) : List PatternProperty → List String
  | [] => []
  | p :: ps => p.print indent :: printPatternProperties indent ps
termination_by structural ps => ps

/-- The text of a function. -/
def Function.print (indent : Nat) : Function → String
  | .mk isAsync isGenerator name params body =>
    functionKeyword isAsync isGenerator name ++ "(" ++
      joinWith ", " (printPatterns indent params) ++ ") " ++
      bracedLines indent (printStatements (indent + 1) body)
termination_by structural f => f

/-- The text of a function as a method with a given name. -/
def Function.printMethod (indent : Nat) (key : String) : Function → String
  | .mk isAsync isGenerator _ params body =>
    (if isAsync then "async " else "") ++ (if isGenerator then "*" else "") ++ key ++ "(" ++
      joinWith ", " (printPatterns indent params) ++ ") " ++
      bracedLines indent (printStatements (indent + 1) body)
termination_by structural f => f

/-- The text of a class. -/
def Class.print (indent : Nat) : Class → String
  | .mk decorators name parent members =>
    printDecorators indent decorators ++ "class " ++
      (match name with
        | some n => n ++ " "
        | none => "") ++
      printParent indent parent ++ bracedLines indent (printMembers (indent + 1) members)
termination_by structural c => c

/-- The class that a class extends. -/
def printParent (indent : Nat) : Option Expr → String
  | none => ""
  | some e => "extends " ++ e.print (.free indent .suffix) ++ " "
termination_by structural e => e

/-- The decorators in front of a class or member. -/
def printDecorators (indent : Nat) : List Expr → String
  | [] => ""
  | e :: es => "@" ++ e.print (.free indent .lowest) ++ " " ++ printDecorators indent es
termination_by structural es => es

/-- The line of a member of a class. -/
def Member.print (indent : Nat) : Member → String
  | .method decorators isStatic kind key f =>
    tabs indent ++ printDecorators indent decorators ++ (if isStatic then "static " else "") ++
      kind.text ++ f.printMethod indent (key.print indent) ++ "\n"
  | .field decorators isStatic isAccessor key value =>
    tabs indent ++ printDecorators indent decorators ++ (if isStatic then "static " else "") ++
      (if isAccessor then "accessor " else "") ++ key.print indent ++ printInitial indent value ++
      ";\n"
  | .block body =>
    tabs indent ++ "static " ++ bracedLines indent (printStatements (indent + 1) body) ++ "\n"
termination_by structural m => m

/-- The lines of the members of a class. -/
def printMembers (indent : Nat) : List Member → List String
  | [] => []
  | m :: ms => m.print indent :: printMembers indent ms
termination_by structural ms => ms

/-- The initial value of a field. -/
def printInitial (indent : Nat) : Option Expr → String
  | none => ""
  | some e => " = " ++ e.print (.free indent .comma)
termination_by structural e => e

/-- The text of a declared variable. -/
def Declarator.print (indent : Nat) (noIn : Bool) : Declarator → String
  | .mk p value => p.print indent .none ++ printInitialIn indent noIn value
termination_by structural d => d

/-- The initial value of a variable. -/
def printInitialIn (indent : Nat) (noIn : Bool) : Option Expr → String
  | none => ""
  | some e => " = " ++ e.print ⟨indent, .comma, .none, noIn, false⟩
termination_by structural e => e

/-- The texts of declared variables. -/
def printDeclarators (indent : Nat) (noIn : Bool) : List Declarator → List String
  | [] => []
  | d :: ds => d.print indent noIn :: printDeclarators indent noIn ds
termination_by structural ds => ds

/-- The lines of a case of a switch. One statement stays on the line of its case. -/
def Case.print (indent : Nat) : Case → String
  | .mk test body =>
    let head := tabs indent ++ printTest indent test ++ ":"
    let only := printOnly indent body
    match body with
    | [_] => head ++ only
    | _ => head ++ "\n" ++ String.join (printStatements (indent + 1) body)
termination_by structural c => c

/-- The test of a case. -/
def printTest (indent : Nat) : Option Expr → String
  | none => "default"
  | some e => "case " ++ e.print (.free indent .lowest)
termination_by structural e => e

/-- The first of some statements, behind what governs it. -/
def printOnly (indent : Nat) : List Statement → String
  | [] => ""
  | s :: _ => s.print indent .behind
termination_by structural ss => ss

/-- The lines of the cases of a switch. -/
def printCases (indent : Nat) : List Case → List String
  | [] => []
  | c :: cs => c.print indent :: printCases indent cs
termination_by structural cs => cs

/-- What a loop over values assigns to. -/
def LoopTarget.print (indent : Nat) : LoopTarget → String
  | .declared kind p => kind.keyword ++ " " ++ p.print indent .none
  | .assigned p => p.print indent .none
termination_by structural t => t

/-- The first part of a loop. -/
def printFirst (indent : Nat) : Option Statement → String
  | none => ""
  | some s => s.printHead indent
termination_by structural s => s

/-- A declaration or an expression as the first part of a loop, where `in` needs parentheses. -/
def Statement.printHead (indent : Nat) : Statement → String
  | .variables kind ds => kind.keyword ++ " " ++ joinWith ", " (printDeclarators indent true ds)
  | .expression e => e.print ⟨indent, .lowest, .none, true, false⟩
  | _ => ""
termination_by structural s => s

/-- The second or third part of a loop. -/
def printPart (indent : Nat) : Option Expr → String
  | none => ""
  | some e => " " ++ e.print (.free indent .lowest)
termination_by structural e => e

/-- The text of a block without its line end; other statements are none. -/
def Statement.printBlock (indent : Nat) : Statement → String
  | .block body => bracedLines indent (printStatements (indent + 1) body)
  | _ => ""
termination_by structural s => s

/-- The lines of the `else` of a choice. -/
def printElse (indent : Nat) : Option Statement → String
  | none => ""
  | some s => "else" ++ s.print indent .behind
termination_by structural s => s

/-- The handler of a `try`. -/
def printHandler (indent : Nat) (param : String) : Option (List Statement) → String
  | none => ""
  | some body =>
    " catch " ++ param ++ bracedLines indent (printStatements (indent + 1) body)
termination_by structural h => h

/-- What a handler catches. -/
def printParam (indent : Nat) : Option Pattern → String
  | none => ""
  | some p => "(" ++ p.print indent .none ++ ") "
termination_by structural p => p

/-- The final block of a `try`. -/
def printFinal (indent : Nat) : Option (List Statement) → String
  | none => ""
  | some body => " finally " ++ bracedLines indent (printStatements (indent + 1) body)
termination_by structural f => f

/-- The lines of a statement. -/
def Statement.print (indent : Nat) (start : Start) : Statement → String
  | .directive raw => start.text indent ++ printDirective raw ++ "\n"
  | .empty => start.textOfEmpty indent ++ ";\n"
  | .expression e =>
    start.text indent ++ e.print ⟨indent, .lowest, .statement, false, false⟩ ++ ";\n"
  | .block body =>
    start.text indent ++ bracedLines indent (printStatements (indent + 1) body) ++ "\n"
  | .variables kind ds =>
    start.text indent ++ kind.keyword ++ " " ++ joinWith ", " (printDeclarators indent false ds) ++
      ";\n"
  | .function f => start.text indent ++ f.print indent ++ "\n"
  | .classOf c => start.text indent ++ c.print indent ++ "\n"
  | .branch test yes no =>
    let head := start.text indent ++ "if (" ++ test.print (.free indent .lowest) ++ ")"
    let rest := printElse indent no
    let inner := yes.print (indent + 1) .line
    let body := yes.print indent .behind
    let block := yes.printBlock indent
    if isBlock yes then head ++ " " ++ block ++ (if no.isSome then " " ++ rest else "\n")
    -- braces keep the `else` from the inner branch
    else if endsInBranch yes then
      head ++ " \x7b\n" ++ inner ++ tabs indent ++ "\x7d" ++
        (if no.isSome then " " ++ rest else "\n")
    else head ++ body ++ (if no.isSome then tabs indent ++ rest else "")
  | .loop first test update body =>
    start.text indent ++ "for (" ++ printFirst indent first ++ ";" ++ printPart indent test ++ ";" ++
      printPart indent update ++ ")" ++ body.print indent .behind
  | .loopIn target object body =>
    start.text indent ++ "for (" ++ target.print indent ++ " in " ++
      object.print (.free indent .lowest) ++ ")" ++ body.print indent .behind
  | .loopOf isAwait target values body =>
    start.text indent ++ "for " ++ (if isAwait then "await " else "") ++ "(" ++
      target.print indent ++ " of " ++ values.print (.free indent .comma) ++ ")" ++
      body.print indent .behind
  | .loopWhile test body =>
    start.text indent ++ "while (" ++ test.print (.free indent .lowest) ++ ")" ++
      body.print indent .behind
  | .loopUntil body test =>
    let ending := "while (" ++ test.print (.free indent .lowest) ++ ");\n"
    let inner := body.print (indent + 1) .line
    let block := body.printBlock indent
    start.text indent ++ "do" ++
      (if isBlock body then " " ++ block ++ " " ++ ending
      else "\n" ++ inner ++ tabs indent ++ ending)
  | .continueTo label => start.text indent ++ "continue" ++ (label.elim "" (" " ++ ·)) ++ ";\n"
  | .breakTo label => start.text indent ++ "break" ++ (label.elim "" (" " ++ ·)) ++ ";\n"
  | .returnValue value => start.text indent ++ "return" ++ printPart indent value ++ ";\n"
  | .throwValue value =>
    start.text indent ++ "throw " ++ value.print (.free indent .lowest) ++ ";\n"
  | .guarded body param handler final =>
    start.text indent ++ "try " ++ bracedLines indent (printStatements (indent + 1) body) ++
      printHandler indent (printParam indent param) handler ++ printFinal indent final ++ "\n"
  | .switch value cases =>
    start.text indent ++ "switch (" ++ value.print (.free indent .lowest) ++ ") " ++
      bracedLines indent (printCases (indent + 1) cases) ++ "\n"
  | .labeled label body => start.text indent ++ label ++ ":" ++ body.print indent .behind
  | .withObject object body =>
    start.text indent ++ "with (" ++ object.print (.free indent .lowest) ++ ")" ++
      body.print indent .behind
  | .debugger => start.text indent ++ "debugger;\n"
  | .imports none source as =>
    start.text indent ++ "import " ++ printString source ++ printAttributes as ++ ";\n"
  | .imports (some bs) source as =>
    start.text indent ++ "import " ++ printImportClause bs ++ printFrom source as ++ ";\n"
  | .exportDeclaration d => start.text indent ++ "export" ++ d.print indent .behind
  | .exportDefault (.expression e) =>
    start.text indent ++ "export default " ++
      e.print ⟨indent, .comma, .defaultExport, false, false⟩ ++ ";\n"
  | .exportDefault d => start.text indent ++ "export default" ++ d.print indent .behind
  | .exportNames bs source as =>
    start.text indent ++ "export " ++
      spacedBraces (bs.map fun b => printRenaming (printModuleName b.binding)
        (printModuleName b.exported)) ++
      (source.elim "" (printFrom · as)) ++ ";\n"
  | .exportAll exported source as =>
    start.text indent ++ "export *" ++ (exported.elim "" (" as " ++ printModuleName ·)) ++
      printFrom source as ++ ";\n"
termination_by structural s => s

/-- The lines of statements. -/
def printStatements (indent : Nat) : List Statement → List String
  | [] => []
  | s :: ss => s.print indent .line :: printStatements indent ss
termination_by structural ss => ss

end

/-- The text of a module. -/
def Module.print (m : Module) : String :=
  (m.interpreter.elim "" ("#!" ++ · ++ "\n")) ++ String.join (printStatements 0 m.items)

/-- A module text, printed anew. -/
def reprint (code : String) : Option String := (parseModule code).map Module.print

end TemplateCompiler.Script
