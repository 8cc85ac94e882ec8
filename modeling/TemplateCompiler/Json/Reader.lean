import TemplateCompiler.Json.Value
import TemplateCompiler.Text.Digits
import TemplateCompiler.Text.Identifier

/-!
# Reading JSON

The strict reader of JSON texts. Arrays and objects nest at most 127 deep, surrogates come in pairs,
and nothing but blanks may follow the value. `read` is the entry point.
-/

namespace TemplateCompiler.Json

open TemplateCompiler.Decimal (Binary64 Magnitude)
open TemplateCompiler.Text

/-- Skips the blanks of JSON. -/
def skipBlanks (cs : List Char) : List Char :=
  cs.dropWhile fun c => c == ' ' || c == '\t' || c == '\n' || c == '\r'

/-- Four hexadecimal digits. -/
def readHex4 (cs : List Char) : Option (Nat × List Char) :=
  let digits := cs.take 4
  if digits.length = 4 && digits.all (isDigitOf 16) then some (ofDigits 16 digits, cs.drop 4)
  else none

/-- A unicode escape after its `u`: one code unit, or two that form a pair. -/
def readUnicode (cs : List Char) : Option (Char × List Char) := do
  let (unit, rest) ← readHex4 cs
  if 0xDC00 ≤ unit && unit ≤ 0xDFFF then none
  else if 0xD800 ≤ unit && unit ≤ 0xDBFF then
    match rest with
    | '\\' :: 'u' :: rest =>
      let (low, rest) ← readHex4 rest
      if 0xDC00 ≤ low && low ≤ 0xDFFF then
        some (Char.ofNat (0x10000 + (unit - 0xD800) * 0x400 + (low - 0xDC00)), rest)
      else none
    | _ => none
  else some (Char.ofNat unit, rest)

/-- An escape after its backslash. -/
def readEscape : List Char → Option (Char × List Char)
  | '\x22' :: rest => some ('\x22', rest)
  | '\\' :: rest => some ('\\', rest)
  | '/' :: rest => some ('/', rest)
  | 'b' :: rest => some ('\x08', rest)
  | 'f' :: rest => some ('\x0c', rest)
  | 'n' :: rest => some ('\n', rest)
  | 'r' :: rest => some ('\r', rest)
  | 't' :: rest => some ('\t', rest)
  | 'u' :: rest => readUnicode rest
  | _ => none

/-- The characters of a string up to its closing quote, in reverse. The number bounds the steps. -/
def readChars : Nat → List Char → List Char → Option (List Char × List Char)
  | 0, _, _ => none
  | _, _, [] => none
  | steps + 1, text, c :: rest =>
    if c == '\x22' then some (text, rest)
    else if c == '\\' then do
      let (d, rest) ← readEscape rest
      readChars steps (d :: text) rest
    else if c.toNat < 0x20 then none
    else readChars steps (c :: text) rest

/-- A string after its opening quote. -/
def readString (cs : List Char) : Option (String × List Char) := do
  let (text, rest) ← readChars (cs.length + 1) [] cs
  pure (String.ofList text.reverse, rest)

/-- Whole digits without a leading zero. -/
def readWhole : List Char → Option (List Char × List Char)
  | '0' :: rest =>
    match rest with
    | c :: _ => if isAsciiDigit c then none else some (['0'], rest)
    | [] => some (['0'], [])
  | cs =>
    let digits := cs.takeWhile isAsciiDigit
    if digits.isEmpty then none else some (digits, cs.dropWhile isAsciiDigit)

/-- The digits behind a point, none if there is no point. -/
def readFraction : List Char → Option (Option (List Char) × List Char)
  | '.' :: rest =>
    let digits := rest.takeWhile isAsciiDigit
    if digits.isEmpty then none else some (some digits, rest.dropWhile isAsciiDigit)
  | cs => some (none, cs)

/-- The exponent of a number, if it has one. -/
def readExponent : List Char → Option (Option Int × List Char)
  | c :: rest =>
    if c == 'e' || c == 'E' then
      let negative := rest.head? == some '-'
      let rest := if negative || rest.head? == some '+' then rest.drop 1 else rest
      let digits := rest.takeWhile isAsciiDigit
      if digits.isEmpty then none
      else
        let n : Int := ofDigits 10 digits
        some (some (if negative then -n else n), rest.dropWhile isAsciiDigit)
    else some (none, c :: rest)
  | [] => some (none, [])

/-- The number that its parts denote. Whole numbers within 64 bits are integers, except for negative
zero; no number may be too great for a double. -/
def numberOf (negative : Bool) (whole : List Char) (fraction : Option (List Char))
    (exponent : Option Int) : Option Json :=
  let n := ofDigits 10 whole
  let fits := if negative then n ≤ Nat.pow 2 63 && n != 0 else n < Nat.pow 2 64
  if fraction.isNone && exponent.isNone && fits then
    some (.integer (if negative then -(n : Int) else n))
  else
    let digits := fraction.getD []
    match Magnitude.ofDecimal (ofDigits 10 (whole ++ digits))
        (exponent.getD 0 - digits.length) with
    | .infinite => none
    | m => some (.real ⟨negative, m⟩)

/-- A number. -/
def readNumber (cs : List Char) : Option (Json × List Char) := do
  let negative := cs.head? == some '-'
  let (whole, rest) ← readWhole (if negative then cs.drop 1 else cs)
  let (fraction, rest) ← readFraction rest
  let (exponent, rest) ← readExponent rest
  pure (← numberOf negative whole fraction exponent, rest)

/-- The rest of a text after one of the words of JSON. -/
def dropWord (word : String) (cs : List Char) : Option (List Char) :=
  let chars := word.toList
  if chars.isPrefixOf cs then some (cs.drop chars.length) else none

/-- Items between commas, up to the closing mark, which is read. There is at least one, and no comma
stands behind the last one. The number bounds the items. -/
def readItems {α : Type} (item : List Char → Option (α × List Char)) (close : Char) :
    Nat → List Char → Option (List α × List Char)
  | 0, _ => none
  | steps + 1, cs => do
    let (x, rest) ← item cs
    match skipBlanks rest with
    | c :: rest =>
      if c == close then some ([x], rest)
      else if c == ',' then do
        let (xs, rest) ← readItems item close steps rest
        pure (x :: xs, rest)
      else none
    | [] => none

/-- Items up to the closing mark, possibly none. -/
def readList {α : Type} (item : List Char → Option (α × List Char)) (close : Char)
    (cs : List Char) : Option (List α × List Char) :=
  match skipBlanks cs with
  | [] => none
  | c :: rest => if c == close then some ([], rest) else readItems item close cs.length cs

/-- A member of an object, where `value` reads its value. -/
def readMember (value : List Char → Option (Json × List Char)) (cs : List Char) :
    Option ((String × Json) × List Char) := do
  match skipBlanks cs with
  | '\x22' :: rest =>
    let (key, rest) ← readString rest
    match skipBlanks rest with
    | ':' :: rest =>
      let (v, rest) ← value rest
      pure ((key, v), rest)
    | _ => none
  | _ => none

/-- A value that nests at most `depth` deep, after any blanks. -/
def readValue : (depth : Nat) → List Char → Option (Json × List Char)
  | depth, cs =>
    match skipBlanks cs with
    | [] => none
    | c :: rest =>
      if c == '\x22' then (readString rest).map fun (s, rest) => (.string s, rest)
      else if c == '-' || isAsciiDigit c then readNumber (c :: rest)
      else if c == 'n' then (dropWord "null" (c :: rest)).map (.null, ·)
      else if c == 't' then (dropWord "true" (c :: rest)).map (.boolean true, ·)
      else if c == 'f' then (dropWord "false" (c :: rest)).map (.boolean false, ·)
      else
        match depth with
        | 0 => none
        | depth + 1 =>
          if c == '[' then
            (readList (readValue depth) ']' rest).map fun (es, rest) => (.array es, rest)
          else if c == '\x7b' then
            (readList (readMember (readValue depth)) '\x7d' rest).map
              fun (ms, rest) => (.object ms, rest)
          else none

/-- How deep arrays and objects may nest. -/
def maxDepth : Nat := 127

/-- The value that a text writes. -/
def read (text : String) : Option Json := do
  let (value, rest) ← readValue maxDepth text.toList
  if (skipBlanks rest).isEmpty then some value else none

end TemplateCompiler.Json
