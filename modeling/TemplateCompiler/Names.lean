import TemplateCompiler.Text.Identifier

/-!
# Generated names

Names for generated code, made from hints. A generated name starts with a low line and is the first
of `_hint`, `_hint2`, `_hint3` and so on that is not in use. Since these differ from each other, one of
the first `n + 1` is free if `n` names are in use.
-/

namespace TemplateCompiler

/-- The names in use in a file, the latest first. -/
structure Names where
  used : List String
deriving DecidableEq, Repr, Inhabited

namespace Names

/-- The letters, digits, low lines and dollar signs of a hint. The first one behind other characters
is a capital, unless it is the first of all; `started` says whether there was one before, and `gap`
whether another character stands in between. -/
def plainParts (started gap : Bool) : List Char → List Char
  | [] => []
  | c :: rest =>
    if Text.isPlainPart c then
      (if started && gap then c.toUpper else c) :: plainParts true false rest
    else plainParts started true rest

/-- The identifier that a hint stands for. -/
def identifierChars (hint : List Char) : List Char :=
  match plainParts false false hint with
  | [] => ['_']
  | c :: rest => if Text.isAsciiDigit c then '_' :: c :: rest else c :: rest

/-- The first name for a hint. -/
def base (hint : String) : String := String.ofList ('_' :: identifierChars hint.toList)

/-- The names for a hint, in the order in which they are tried. -/
def candidate (hint : String) : Nat → String
  | 0 => base hint
  | n + 1 => base hint ++ toString (n + 2)

/-- The first name for a hint that is not in use. -/
def fresh (names : Names) (hint : String) : String :=
  match (List.range (names.used.length + 1)).find? fun n => !names.used.contains (candidate hint n) with
  | some n => candidate hint n
  | none => candidate hint names.used.length

/-- Takes a name out of the choice. -/
def reserve (names : Names) (name : String) : Names := ⟨name :: names.used⟩

/-- Takes names out of the choice. -/
def reserveAll (names : Names) (reserved : List String) : Names := reserved.foldl reserve names

/-- A new name for a hint, which is in use from now on. -/
def generate (names : Names) (hint : String) : String × Names :=
  (names.fresh hint, names.reserve (names.fresh hint))

theorem mem_reserve (names : Names) (name other : String) :
    other ∈ (names.reserve name).used ↔ other = name ∨ other ∈ names.used := by
  simp [reserve]

end Names

end TemplateCompiler
