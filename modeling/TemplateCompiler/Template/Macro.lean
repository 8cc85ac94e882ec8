import TemplateCompiler.Script.Literal
import TemplateCompiler.Template.Walk

/-!
# Macros

The macros that a template defines. A macro has the name that its tag gives as a constant text.
-/

namespace TemplateCompiler

open Script (literal?)

/-- The constant text of the attribute `name`. -/
def Tag.macroName? (t : Tag) : Option String := do
  match ← literal? (← t.valueOf "name") with
  | .string name => pure name
  | _ => none

/-- The name of the macro that a tag defines. -/
def Tag.definedMacro? (t : Tag) : Option String :=
  if t.staticName == some "macro" then t.macroName? else none

/-- The macros of a program, in authored order. -/
def Program.macroNames (p : Program) : List String :=
  p.occurrences.filterMap fun o => o.tag.definedMacro?

end TemplateCompiler
