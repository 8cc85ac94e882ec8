import TemplateCompiler.Script.Tree
import TemplateCompiler.Text.Digits
import TemplateCompiler.Text.Identifier

/-!
# Tokens

The tokens of JavaScript and the scanner for one token. A slash always scans as an operator; the
grammar asks for a regular expression where it expects an operand (`scanRegex`), and for the rest of
a template where a substitution ends (`scanChunk`).
-/

namespace TemplateCompiler.Script

open TemplateCompiler.Decimal (Binary64 Magnitude)
open TemplateCompiler.Text

/-- Tokens. Names include keywords; `escaped` tells that a name was spelled with an escape. -/
inductive Token where
  | name (text : String) (escaped : Bool)
  | privateName (text : String)
  | number (value : Binary64)
  | bigInt (value : Nat)
  | string (text : Quoted)
  | template (chunk : Chunk) (isLast : Bool)
  | symbol (text : String)
  | finish
deriving DecidableEq, Repr

/-! ## Blanks and comments -/

/-- The characters that end a line. -/
def isLineEnd (c : Char) : Bool :=
  c == '\n' || c == '\r' || c == '\u2028' || c == '\u2029'

/-- The characters between tokens other than line ends. -/
def isSpace (c : Char) : Bool :=
  c == ' ' || c == '\t' || c == '\x0b' || c == '\x0c' || c == '\u00a0' || c == '\ufeff' ||
    c == '\u0085' || c == '\u1680' || ('\u2000' ≤ c && c ≤ '\u200b') || c == '\u202f' ||
    c == '\u205f' || c == '\u3000'

/-- Where the scanner stands between two tokens. -/
inductive Gap where
  | open
  | lineComment
  | blockComment
deriving DecidableEq, Repr

/-- Skips blanks and comments, noting whether a line ends among them. A block comment that is never
closed is an error. -/
def skipGap : Gap → Bool → List Char → Option (Bool × List Char)
  | .blockComment, _, [] => none
  | _, newline, [] => some (newline, [])
  | .open, newline, '/' :: '/' :: rest => skipGap .lineComment newline rest
  | .open, newline, '/' :: '*' :: rest => skipGap .blockComment newline rest
  | .open, newline, c :: rest =>
    if isLineEnd c then skipGap .open true rest
    else if isSpace c then skipGap .open newline rest
    else some (newline, c :: rest)
  | .lineComment, newline, c :: rest =>
    if isLineEnd c then skipGap .open true rest else skipGap .lineComment newline rest
  | .blockComment, newline, '*' :: '/' :: rest => skipGap .open newline rest
  | .blockComment, newline, c :: rest => skipGap .blockComment (newline || isLineEnd c) rest

/-! ## Escapes -/

/-- The digits of a number of a given length in hexadecimal. -/
def scanHex (count : Nat) (cs : List Char) : Option (Nat × List Char) :=
  let digits := cs.take count
  if digits.length = count && digits.all (isDigitOf 16) then
    some (ofDigits 16 digits, cs.drop count)
  else none

/-- The code point of a unicode escape, after its `u`. -/
def scanCodePoint : List Char → Option (Nat × List Char)
  | '\x7b' :: rest =>
    let digits := rest.takeWhile (isDigitOf 16)
    match rest.dropWhile (isDigitOf 16) with
    | '\x7d' :: rest =>
      let code := ofDigits 16 digits
      if digits.isEmpty || 0x10FFFF < code then none else some (code, rest)
    | _ => none
  | cs => scanHex 4 cs

/-- A code point as string units; a surrogate stands alone for now. -/
def unitsOf (code : Nat) : StringUnit :=
  if 0xD800 ≤ code && code ≤ 0xDFFF then .lone code else .char (Char.ofNat code)

/-- Joins the halves of surrogate pairs that follow each other. -/
def joinSurrogates : List StringUnit → List StringUnit
  | .lone high :: .lone low :: rest =>
    if 0xD800 ≤ high && high ≤ 0xDBFF && 0xDC00 ≤ low && low ≤ 0xDFFF then
      .char (Char.ofNat (0x10000 + (high - 0xD800) * 0x400 + (low - 0xDC00))) ::
        joinSurrogates rest
    -- the second may still be the first half of a pair
    else .lone high :: joinSurrogates (.lone low :: rest)
  | u :: rest => u :: joinSurrogates rest
  | [] => []

/-- The escapes of one letter. -/
def letterEscape? : Char → Option Char
  | 'n' => some '\n'
  | 't' => some '\t'
  | 'r' => some '\r'
  | 'b' => some '\x08'
  | 'v' => some '\x0b'
  | 'f' => some '\x0c'
  | _ => none

/-- An octal escape takes up to three digits and stays below 256. -/
def scanOctal (cs : List Char) : Nat × List Char :=
  let count := if (cs.head?.map fun c => decide (c ≤ '3')).getD false then 3 else 2
  let digits := (cs.take count).takeWhile (isDigitOf 8)
  (ofDigits 8 digits, cs.drop digits.length)

/-- What an escape denotes, after its backslash. Templates know no octal escapes. -/
def scanEscape (isTemplate : Bool) : List Char → Option (List StringUnit × List Char)
  | [] => none
  | 'u' :: rest => (scanCodePoint rest).map fun (code, rest) => ([unitsOf code], rest)
  | 'x' :: rest => (scanHex 2 rest).map fun (code, rest) => ([unitsOf code], rest)
  | '\r' :: '\n' :: rest => some ([], rest)
  | c :: rest =>
    if isLineEnd c then some ([], rest)
    else if isAsciiDigit c then
      let nextIsDigit := (rest.head?.map isAsciiDigit).getD false
      if c == '0' && !nextIsDigit then some ([.char '\x00'], rest)
      else if isTemplate then none
      else if isDigitOf 8 c then
        let (code, rest) := scanOctal (c :: rest)
        some ([unitsOf code], rest)
      else some ([.char c], rest)
    else some ([.char ((letterEscape? c).getD c)], rest)

/-! ## Strings and templates -/

/-- The text between two points of the input. -/
def between (start stop : List Char) : List Char :=
  start.take (start.length - stop.length)

/-- The units of a string up to its closing quote, in reverse. The first argument bounds the number
of steps. -/
def scanUnits (quote : Char) : Nat → List StringUnit → List Char →
    Option (List StringUnit × List Char)
  | 0, _, _ => none
  | _, _, [] => none
  | steps + 1, units, c :: rest =>
    if c == quote then some (units, rest)
    else if c == '\\' then do
      let (more, rest) ← scanEscape false rest
      scanUnits quote steps (more.reverse ++ units) rest
    else if c == '\n' || c == '\r' then none
    else scanUnits quote steps (.char c :: units) rest

/-- A string after its opening quote. -/
def scanString (quote : Char) (cs : List Char) : Option (Quoted × List Char) := do
  let (units, rest) ← scanUnits quote (cs.length + 1) [] cs
  let raw := (between cs rest).dropLast
  pure (⟨String.ofList raw, joinSurrogates units.reverse⟩, rest)

/-- Line ends of template text are line feeds, however they are written. -/
def normalLineEnds : List Char → List Char
  | '\r' :: '\n' :: rest => '\n' :: normalLineEnds rest
  | '\r' :: rest => '\n' :: normalLineEnds rest
  | c :: rest => c :: normalLineEnds rest
  | [] => []

/-- The units of a stretch of template text, in reverse, and whether the template ends with it. An
escape that denotes nothing makes the text denote nothing, but does not end the template. -/
def scanChunkUnits : Nat → Option (List StringUnit) → List Char →
    Option (Option (List StringUnit) × Bool × List Char)
  | 0, _, _ => none
  | _, _, [] => none
  | _, units, '\x60' :: rest => some (units, true, rest)
  | _, units, '$' :: '\x7b' :: rest => some (units, false, rest)
  | steps + 1, units, '\r' :: '\n' :: rest =>
    scanChunkUnits steps (units.map (.char '\n' :: ·)) rest
  | steps + 1, units, '\r' :: rest =>
    scanChunkUnits steps (units.map (.char '\n' :: ·)) rest
  | steps + 1, units, '\\' :: rest =>
    match scanEscape true rest with
    | some (more, rest) => scanChunkUnits steps (units.map (more.reverse ++ ·)) rest
    -- what follows the backslash is passed over, so that an escaped mark does not end the template
    | none => scanChunkUnits steps none (rest.drop 1)
  | steps + 1, units, c :: rest => scanChunkUnits steps (units.map (.char c :: ·)) rest

/-- A stretch of template text, after the mark that opens it. -/
def scanChunk (cs : List Char) : Option (Chunk × Bool × List Char) := do
  let (units, isLast, rest) ← scanChunkUnits (cs.length + 1) (some []) cs
  let raw := between cs rest
  let raw := raw.take (raw.length - if isLast then 1 else 2)
  pure (⟨String.ofList (normalLineEnds raw), units.map (joinSurrogates ·.reverse)⟩, isLast, rest)

/-! ## Numbers -/

/-- Digits of a base with single low lines between them. At least one digit is needed, and a low line
only stands between two digits. -/
def scanDigits (base : Nat) : (last : Option Char) → List Char → List Char →
    Option (List Char × List Char)
  | last, digits, '_' :: rest =>
    match last, rest with
    -- no two low lines in a row, and none at either end
    | some '_', _ => none
    | some _, d :: _ => if isDigitOf base d then scanDigits base (some '_') digits rest else none
    | _, _ => none
  | last, digits, c :: rest =>
    if isDigitOf base c then scanDigits base (some c) (c :: digits) rest
    else if last.isNone then none
    else some (digits.reverse, c :: rest)
  | last, digits, [] => if last.isNone then none else some (digits.reverse, [])

/-- The exponent of a decimal number, zero if it has none. -/
def scanExponent : List Char → Option (Int × List Char)
  | c :: rest =>
    if c == 'e' || c == 'E' then
      match rest with
      | '-' :: rest =>
        (scanDigits 10 none [] rest).map fun (ds, rest) => (-(ofDigits 10 ds : Int), rest)
      | '+' :: rest =>
        (scanDigits 10 none [] rest).map fun (ds, rest) => ((ofDigits 10 ds : Int), rest)
      | rest => (scanDigits 10 none [] rest).map fun (ds, rest) => ((ofDigits 10 ds : Int), rest)
    else some (0, c :: rest)
  | [] => some (0, [])

/-- The double that decimal digits with a fraction and an exponent denote. -/
def decimalToken (whole fraction : List Char) (exponent : Int) : Token :=
  .number ⟨false, Magnitude.ofDecimal (ofDigits 10 (whole ++ fraction))
    (exponent - fraction.length)⟩

/-- A fraction and an exponent after the whole digits of a number. -/
def scanFraction (whole : List Char) : List Char → Option (Token × List Char)
  | '.' :: rest => do
    let (fraction, rest) ←
      if (rest.head?.map isAsciiDigit).getD false then scanDigits 10 none [] rest
      else some ([], rest)
    let (exponent, rest) ← scanExponent rest
    pure (decimalToken whole fraction exponent, rest)
  | rest => do
    let (exponent, rest) ← scanExponent rest
    pure (decimalToken whole [] exponent, rest)

/-- A whole number in a base other than ten, possibly of arbitrary size. -/
def scanBased (base : Nat) (cs : List Char) : Option (Token × List Char) := do
  let (digits, rest) ← scanDigits base none [] cs
  match rest with
  | 'n' :: rest => pure (.bigInt (ofDigits base digits), rest)
  | rest => pure (.number ⟨false, Magnitude.ofRatio (ofDigits base digits) 1⟩, rest)

/-- A number that starts with a zero and another digit: octal, unless a digit is too great. -/
def scanLegacy (cs : List Char) : Option (Token × List Char) :=
  let digits := cs.takeWhile isAsciiDigit
  let rest := cs.dropWhile isAsciiDigit
  if digits.all (isDigitOf 8) then
    some (.number ⟨false, Magnitude.ofRatio (ofDigits 8 digits) 1⟩, rest)
  else scanFraction digits rest

/-- A number without regard to what follows it. -/
def scanNumberText : List Char → Option (Token × List Char)
  | '0' :: c :: rest =>
    if c == 'x' || c == 'X' then scanBased 16 rest
    else if c == 'o' || c == 'O' then scanBased 8 rest
    else if c == 'b' || c == 'B' then scanBased 2 rest
    else if isAsciiDigit c then scanLegacy (c :: rest)
    else if c == 'n' then some (.bigInt 0, rest)
    else scanFraction ['0'] (c :: rest)
  | '.' :: rest => scanFraction [] ('.' :: rest)
  | cs => do
    let (digits, rest) ← scanDigits 10 none [] cs
    match rest with
    | 'n' :: rest => pure (.bigInt (ofDigits 10 digits), rest)
    | rest => scanFraction digits rest

/-- A number; no digit or identifier may follow it directly. -/
def scanNumber (cs : List Char) : Option (Token × List Char) := do
  let (token, rest) ← scanNumberText cs
  match rest with
  | c :: _ => if isIdentifierStart c || isAsciiDigit c then none else pure (token, rest)
  | [] => pure (token, [])

/-! ## Names -/

/-- The characters of a name, in reverse. Escapes denote characters that must fit in their place. -/
def scanNameChars : Nat → List Char → Bool → List Char → Option (List Char × Bool × List Char)
  | 0, _, _, _ => none
  | steps + 1, name, _, '\\' :: 'u' :: rest => do
    let (code, rest) ← scanCodePoint rest
    let c := Char.ofNat code
    if name.isEmpty then guard (isIdentifierStart c) else guard (isIdentifierPart c)
    scanNameChars steps (c :: name) true rest
  | _, _, _, '\\' :: _ => none
  | steps + 1, name, escaped, c :: rest =>
    if (if name.isEmpty then isIdentifierStart c else isIdentifierPart c) then
      scanNameChars steps (c :: name) escaped rest
    else some (name, escaped, c :: rest)
  | _, name, escaped, [] => some (name, escaped, [])

/-- A name of at least one character. -/
def scanName (cs : List Char) : Option (String × Bool × List Char) := do
  let (name, escaped, rest) ← scanNameChars (cs.length + 1) [] false cs
  if name.isEmpty then none else pure (String.ofList name.reverse, escaped, rest)

/-! ## Symbols -/

/-- The punctuators and operators, longer ones first. -/
def symbols : List String := [
  ">>>=", "...", "===", "!==", "**=", "<<=", ">>=", ">>>", "&&=", "||=", "??=", "=>", "==", "!=",
  "<=", ">=", "&&", "||", "??", "?.", "++", "--", "+=", "-=", "*=", "/=", "%=", "&=", "|=", "^=",
  "<<", ">>", "**", "\x7b", "\x7d", "(", ")", "[", "]", ";", ",", "<", ">", "+", "-", "*", "/", "%",
  "&", "|", "^", "!", "~", "?", ":", "=", ".", "@"]

/-- The text after a leading symbol. `?.` before a digit is a question mark. -/
def stripSymbol? (symbol : String) (cs : List Char) : Option (List Char) :=
  let chars := symbol.toList
  if chars.isPrefixOf cs then
    let rest := cs.drop chars.length
    if symbol == "?." && (rest.head?.map isAsciiDigit).getD false then none else some rest
  else none

/-- The longest symbol at the start of the text. -/
def scanSymbol (cs : List Char) : Option (Token × List Char) :=
  symbols.findSome? fun s => (stripSymbol? s cs).map fun rest => (.symbol s, rest)

/-! ## Any token -/

/-- The token at the start of the text. -/
def scanToken (cs : List Char) : Option (Token × List Char) :=
  match cs with
  | [] => some (.finish, [])
  | c :: rest =>
    if c == '\x22' || c == '\'' then (scanString c rest).map fun (s, rest) => (.string s, rest)
    else if c == '\x60' then
      (scanChunk rest).map fun (chunk, isLast, rest) => (.template chunk isLast, rest)
    else if c == '#' then
      (scanName rest).map fun (name, _, rest) => (.privateName name, rest)
    else if isAsciiDigit c || (c == '.' && (rest.head?.map isAsciiDigit).getD false) then
      scanNumber cs
    else if isIdentifierStart c || c == '\\' then
      (scanName cs).map fun (name, escaped, rest) => (.name name escaped, rest)
    else scanSymbol cs

/-- The text of a regular expression up to its closing slash, in reverse. -/
def scanRegexBody : (inClass : Bool) → List Char → List Char → Option (List Char × List Char)
  | _, _, [] => none
  | inClass, body, '\\' :: c :: rest =>
    if isLineEnd c then none else scanRegexBody inClass (c :: '\\' :: body) rest
  | inClass, body, c :: rest =>
    if isLineEnd c || c == '\\' then none
    else if c == '/' && !inClass then some (body, rest)
    else if c == '[' then scanRegexBody true (c :: body) rest
    else if c == ']' then scanRegexBody false (c :: body) rest
    else scanRegexBody inClass (c :: body) rest

/-- The flags of regular expressions, in the order in which they are printed. -/
def regexFlags : List Char := ['d', 'g', 'i', 'm', 's', 'u', 'v', 'y']

/-- A regular expression after its opening slash. A flag occurs at most once. -/
def scanRegex (cs : List Char) : Option (String × String × List Char) := do
  let (body, rest) ← scanRegexBody false [] cs
  let flags := rest.takeWhile isPlainPart
  guard (flags.all regexFlags.contains && flags.length == (regexFlags.filter flags.contains).length)
  pure (String.ofList body.reverse, String.ofList (regexFlags.filter flags.contains),
    rest.dropWhile isPlainPart)

/-! ## Text of string units -/

/-- Four hexadecimal digits. -/
def hex4 (n : Nat) : List Char :=
  let digits := Nat.toDigits 16 n
  List.replicate (4 - digits.length) '0' ++ digits

/-- The text of string units. When a lone surrogate is among them, it and every replacement character
are written as a replacement character with the code in hexadecimal. -/
def StringUnit.text (units : List StringUnit) : String :=
  let hasLone := units.any fun | .lone _ => true | .char _ => false
  String.ofList <| units.flatMap fun
    | .lone code => '\ufffd' :: hex4 code
    | .char c => if hasLone && c == '\ufffd' then '\ufffd' :: hex4 c.toNat else [c]

end TemplateCompiler.Script
