import TemplateCompiler.Text.Category

/-!
# Identifier and word characters

The characters that may start and continue a script identifier, the ASCII identifiers that
generated code uses, and the word characters of file name patterns.
-/

namespace TemplateCompiler.Text

/-- An ASCII letter. -/
def isAsciiLetter (c : Char) : Bool :=
  ('a' ≤ c && c ≤ 'z') || ('A' ≤ c && c ≤ 'Z')

/-- An ASCII digit. -/
def isAsciiDigit (c : Char) : Bool := '0' ≤ c && c ≤ '9'

/-- An ASCII character that may start an identifier. -/
def isPlainStart (c : Char) : Bool := isAsciiLetter c || c == '_' || c == '$'

/-- An ASCII character that may continue an identifier. -/
def isPlainPart (c : Char) : Bool := isPlainStart c || isAsciiDigit c

/-- A plain identifier is written in ASCII and does not start with a digit. -/
def isPlainIdentifier (s : String) : Bool :=
  match s.toList with
  | [] => false
  | c :: rest => isPlainStart c && rest.all isPlainPart

/-- The characters with the property `ID_Start`, the dollar sign and the low line. -/
def isIdentifierStart (c : Char) : Bool :=
  if c.toNat < 0x80 then isPlainStart c
  else
    (Category.holds Category.letters c && c.toNat != 0x2E2F) ||
      [0x1885, 0x1886, 0x2118, 0x212E, 0x309B, 0x309C].contains c.toNat

/-- The characters with the property `ID_Continue`, the dollar sign and the two joiners. -/
def isIdentifierPart (c : Char) : Bool :=
  if c.toNat < 0x80 then isPlainPart c
  else
    isIdentifierStart c || Category.holds Category.marks c || Category.holds Category.digits c ||
      Category.holds Category.connectors c ||
      [0xB7, 0x387, 0x1369, 0x136A, 0x136B, 0x136C, 0x136D, 0x136E, 0x136F, 0x1370, 0x1371,
        0x19DA, 0x200C, 0x200D, 0x30FB, 0xFF65].contains c.toNat

/-- A word character: alphabetic, a mark, a decimal digit, connector punctuation or a joiner. -/
def isWord (c : Char) : Bool :=
  if c.toNat < 0x80 then isAsciiLetter c || isAsciiDigit c || c == '_'
  else
    Category.holds Category.letters c || Category.holds Category.marks c ||
      Category.holds Category.enclosing c || Category.holds Category.digits c ||
      Category.holds Category.connectors c ||
      Category.holds [(0x200C, 0x200D), (0x24B6, 0x24E9), (0x1F130, 0x1F149), (0x1F150, 0x1F169),
        (0x1F170, 0x1F189)] c

/-- In ASCII, whatever starts an identifier also continues one. -/
theorem isPlainPart_of_isPlainStart {c : Char} (h : isPlainStart c = true) :
    isPlainPart c = true := by
  simp [isPlainPart, h]

end TemplateCompiler.Text
