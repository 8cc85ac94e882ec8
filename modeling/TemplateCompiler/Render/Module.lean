import TemplateCompiler.Render.Import
import TemplateCompiler.Render.Op
import TemplateCompiler.Template.Program
import TemplateCompiler.Text.Layout

/-!
# Render modules

The module that a template becomes, and its text.
-/

namespace TemplateCompiler.Render

open TemplateCompiler.Text (indent layout)

/-- The definition of the render function. -/
structure RenderCall where
  target : String
  renderer : String
  params : List String
  body : List TextOp
  options : String
  component : String

/-- An item of a module. -/
inductive ModuleItem where
  | external (declaration : Import)
  | statement (code : String)
  | constants (declarators : List (String × String))
  | exportDefault (name : String)
  | assign (target value : String)
  | render (call : RenderCall)

/-- A module: a comment in its first line, hoisted imports and items. -/
structure Module where
  header : Option String
  imports : Imports
  items : List ModuleItem

/-! ## Text -/

namespace Op

mutual

/-- The lines of an operation at a level of indentation. -/
def lines (level : Nat) : TextOp → List String
  | .write markup => [indent level ("out.w(" ++ Json.quote markup ++ ");")]
  | .code statement => layout level statement
  | .block frame body =>
    indent level frame.opening :: (linesOf (level + 1) body ++ [indent level frame.closing])
termination_by structural op => op

/-- The lines of operations at a level of indentation. -/
def linesOf (level : Nat) : List TextOp → List String
  | [] => []
  | op :: ops => lines level op ++ linesOf level ops
termination_by structural ops => ops

end

end Op

/-- The lines of declarators behind the first one. -/
def moreDeclarators : List (String × String) → List String
  | [] => []
  | [(name, value)] => layout 0 ("  " ++ name ++ " = " ++ value ++ ";")
  | (name, value) :: rest => layout 0 ("  " ++ name ++ " = " ++ value ++ ",") ++ moreDeclarators rest

/-- The lines of a declaration of constants. -/
def constantLines : List (String × String) → List String
  | [] => []
  | (name, value) :: rest =>
    layout 0 ("const " ++ name ++ " = " ++ value ++ (if rest.isEmpty then ";" else ",")) ++
      moreDeclarators rest

namespace ModuleItem

/-- The lines of an item. -/
def lines : ModuleItem → List String
  | .external i =>
    let specifiers := Text.trim i.specifiers
    if specifiers.isEmpty then ["import " ++ Json.quote i.source ++ ";"]
    else ["import " ++ specifiers ++ " from " ++ Json.quote i.source ++ ";"]
  | .statement code => layout 0 code
  | .constants declarators => constantLines declarators
  | .exportDefault name => ["export default " ++ name ++ ";"]
  | .assign target value => layout 0 (target ++ " = " ++ value ++ ";")
  | .render call =>
    (call.target ++ " = " ++ call.renderer ++ "(function (" ++
        String.intercalate ", " call.params ++ ") \x7b") ::
      (Op.linesOf 1 call.body ++
        layout 0 ("\x7d, " ++ call.options ++ ", " ++ call.component ++ ");"))

/-- The item with adjacent writes of its render function joined, if it defines one. -/
def batch? : ModuleItem → Option ModuleItem
  | .render call => some (.render { call with body := Op.batch call.body })
  | _ => none

end ModuleItem

namespace Module

/-- The lines of a module. -/
def lines (m : Module) : List String :=
  (m.header.map ("//" ++ ·)).toList ++ m.imports.lines ++ m.items.flatMap ModuleItem.lines

/-- The text of a module. -/
def print (m : Module) : String := Text.unlines m.lines

/-- Items with adjacent writes of the first render function joined. -/
def batchFirst : List ModuleItem → List ModuleItem
  | [] => []
  | i :: rest =>
    match i.batch? with
    | some j => j :: rest
    | none => i :: batchFirst rest

/-- The module with adjacent writes of its render function joined. -/
def batchWrites (m : Module) : Module := { m with items := batchFirst m.items }

end Module

end TemplateCompiler.Render
