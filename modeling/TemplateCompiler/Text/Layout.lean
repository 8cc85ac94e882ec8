import TemplateCompiler.Text.Blank

/-!
# Layout

Lines at levels of indentation, two blanks a level.
-/

namespace TemplateCompiler.Text

/-- A line at a level of indentation. -/
def indent (level : Nat) (line : String) : String :=
  String.ofList (List.replicate (2 * level) ' ') ++ line

/-- The lines of a text at a level of indentation. Lines without other characters than blanks are
empty, and there are none of them at the end. -/
def layout (level : Nat) (text : String) : List String :=
  (lines (trimEnd text)).map fun line => if isBlankText line then "" else indent level line

/-- The text of lines, each with its line feed. -/
def unlines (ls : List String) : String := String.join (ls.map (· ++ "\n"))

theorem indent_zero (line : String) : indent 0 line = line := by
  simp [indent]

end TemplateCompiler.Text
