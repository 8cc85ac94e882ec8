import TemplateCompiler.Decimal.Numeral
import TemplateCompiler.Text.Digits

/-!
# JSON values

JSON values and their compact text. Objects keep their members in order, repeated keys included;
`canonical` sorts them and keeps the last member of a key. Main statement: the text of a quoted
string is the quote mark, the escaped characters and the quote mark (`toList_quote`).
-/

namespace TemplateCompiler

open TemplateCompiler.Decimal (Binary64)
open TemplateCompiler.Text (hexDigit)

/-- JSON values. Numbers without fraction and exponent are integers as far as they fit into 64 bits,
all others are doubles. -/
inductive Json where
  | null
  | boolean (value : Bool)
  | integer (value : Int)
  | real (value : Binary64)
  | string (text : String)
  | array (elements : List Json)
  | object (members : List (String × Json))

namespace Json

/-! ## Strings -/

/-- A character inside of a string. Only what has to be is escaped. -/
def escapeChar (c : Char) : List Char :=
  if c == '\x22' then ['\\', '\x22']
  else if c == '\\' then ['\\', '\\']
  else if c == '\x08' then ['\\', 'b']
  else if c == '\x0c' then ['\\', 'f']
  else if c == '\n' then ['\\', 'n']
  else if c == '\r' then ['\\', 'r']
  else if c == '\t' then ['\\', 't']
  else if c.toNat < 0x20 then ['\\', 'u', '0', '0', hexDigit (c.toNat / 16), hexDigit c.toNat]
  else [c]

/-- The characters of a string in quotes. -/
def quoteChars (cs : List Char) : List Char :=
  '\x22' :: (cs.flatMap escapeChar ++ ['\x22'])

/-- A string in quotes. It is a string literal of scripts as well. -/
def quote (s : String) : String := String.ofList (quoteChars s.toList)

theorem toList_quote (s : String) :
    (quote s).toList = '\x22' :: (s.toList.flatMap escapeChar ++ ['\x22']) := by
  simp [quote, quoteChars]

/-! ## Text -/

mutual

/-- The compact text of a value. -/
def render : Json → String
  | .null => "null"
  | .boolean b => if b then "true" else "false"
  | .integer n => toString n
  | .real x => x.json
  | .string s => quote s
  | .array es => "[" ++ String.intercalate "," (renderElements es) ++ "]"
  | .object ms => "\x7b" ++ String.intercalate "," (renderMembers ms) ++ "\x7d"
termination_by structural j => j

/-- The texts of the elements of an array. -/
def renderElements : List Json → List String
  | [] => []
  | e :: es => e.render :: renderElements es
termination_by structural es => es

/-- The texts of the members of an object. -/
def renderMembers : List (String × Json) → List String
  | [] => []
  | m :: ms => renderMember m :: renderMembers ms
termination_by structural ms => ms

/-- The text of a member of an object. -/
def renderMember : String × Json → String
  | (k, v) => quote k ++ ":" ++ v.render
termination_by structural m => m

end

/-! ## Canonical order -/

/-- Puts a member into a list sorted by key, in place of a member with the same key. -/
def insertMember (key : String) (value : Json) : List (String × Json) → List (String × Json)
  | [] => [(key, value)]
  | (k, v) :: rest =>
    if key == k then (key, value) :: rest
    else if key < k then (key, value) :: (k, v) :: rest
    else (k, v) :: insertMember key value rest

mutual

/-- A value with the members of its objects sorted by key; of several with one key the last stays. -/
def canonical : Json → Json
  | .array es => .array (canonicalElements es)
  | .object ms => .object (canonicalMembers ms [])
  | j => j
termination_by structural j => j

/-- The elements of an array, canonical. -/
def canonicalElements : List Json → List Json
  | [] => []
  | e :: es => e.canonical :: canonicalElements es
termination_by structural es => es

/-- Inserts members into sorted ones, each canonical. -/
def canonicalMembers : List (String × Json) → List (String × Json) → List (String × Json)
  | [], sorted => sorted
  | m :: ms, sorted => canonicalMembers ms (canonicalMember m sorted)
termination_by structural ms => ms

/-- Inserts one member, canonical. -/
def canonicalMember : String × Json → List (String × Json) → List (String × Json)
  | (k, v), sorted => insertMember k v.canonical sorted
termination_by structural m => m

end

end Json

end TemplateCompiler
