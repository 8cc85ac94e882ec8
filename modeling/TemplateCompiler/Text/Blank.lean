/-!
# Blank characters

Which characters count as blank, and how text is cut at blanks and at line ends. Main statement:
`lines` never leaves a line feed inside a line (`not_mem_of_mem_lines`).
-/

namespace TemplateCompiler.Text

/-- The code points with the property `White_Space`. -/
def isBlank (c : Char) : Bool :=
  let n := c.toNat
  n == 0x20 || (0x09 ≤ n && n ≤ 0x0D) || n == 0x85 || n == 0xA0 || n == 0x1680 ||
    (0x2000 ≤ n && n ≤ 0x200A) || n == 0x2028 || n == 0x2029 || n == 0x202F || n == 0x205F ||
    n == 0x3000

/-- The text without the blanks at its end. -/
def trimEndChars (cs : List Char) : List Char :=
  (cs.reverse.dropWhile isBlank).reverse

/-- The text without the blanks at either end. -/
def trimChars (cs : List Char) : List Char :=
  trimEndChars (cs.dropWhile isBlank)

/-- The text without the blanks at its end. -/
def trimEnd (s : String) : String := String.ofList (trimEndChars s.toList)

/-- The text without the blanks at either end. -/
def trim (s : String) : String := String.ofList (trimChars s.toList)

/-- A text is blank when it holds no other characters than blanks. -/
def isBlankText (s : String) : Bool := s.toList.all isBlank

theorem trimEndChars_append_nonblank (cs : List Char) {c : Char} (h : isBlank c = false) :
    trimEndChars (cs ++ [c]) = cs ++ [c] := by
  simp [trimEndChars, h]

/-- A line read so far, in reverse, without the carriage return that stood before a line feed. -/
def dropReturn : List Char → List Char
  | '\r' :: line => line
  | line => line

/-- The lines of a text, where `line` holds what was read of the current one, in reverse. A line
feed ends its line, together with one carriage return before it; the last line may lack one. -/
def linesFrom (line : List Char) : List Char → List (List Char)
  | [] => if line.isEmpty then [] else [line.reverse]
  | c :: rest =>
    if c = '\n' then (dropReturn line).reverse :: linesFrom [] rest else linesFrom (c :: line) rest

/-- The lines of a text, without their line feeds. -/
def lines (s : String) : List String := (linesFrom [] s.toList).map String.ofList

theorem mem_of_mem_dropReturn {line : List Char} {c : Char} (h : c ∈ dropReturn line) :
    c ∈ line := by
  unfold dropReturn at h
  split at h
  · exact List.mem_cons_of_mem _ h
  · exact h

theorem not_mem_of_mem_linesFrom {text : List Char} : ∀ {line : List Char}, '\n' ∉ line →
    ∀ l ∈ linesFrom line text, '\n' ∉ l := by
  induction text with
  | nil =>
    intro line hline l hl
    simp only [linesFrom] at hl
    split at hl
    · simp at hl
    · simp only [List.mem_singleton] at hl
      simpa [hl] using hline
  | cons c rest ih =>
    intro line hline l hl
    simp only [linesFrom] at hl
    split at hl
    · rcases List.mem_cons.1 hl with rfl | hl
      · exact fun h => hline (mem_of_mem_dropReturn (List.mem_reverse.1 h))
      · exact ih (by simp) l hl
    · rename_i hc
      exact ih (by simp [hline, Ne.symm hc]) l hl

/-- No line holds a line feed. -/
theorem not_mem_of_mem_lines {s l : String} (h : l ∈ lines s) : '\n' ∉ l.toList := by
  obtain ⟨cs, hcs, rfl⟩ := List.mem_map.1 h
  simpa using not_mem_of_mem_linesFrom (by simp) cs hcs

end TemplateCompiler.Text
