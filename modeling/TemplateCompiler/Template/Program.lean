import TemplateCompiler.Template.Node

/-!
# Template programs

The program of a file: its top-level items in authored order. A file can also be plain code, which is
not a template at all.
-/

namespace TemplateCompiler

/-- An authored import. The specifiers are the text between `import` and `from`; they are blank if the
module is only loaded. -/
structure Import where
  source : String
  specifiers : String
deriving DecidableEq, Repr

/-- A top-level item: a template node, an import or other code of the module. -/
inductive Item where
  | node (node : Node)
  | external (declaration : Import)
  | statement (code : String)
deriving Repr

/-- The node that an item is. -/
def Item.node? : Item → Option Node
  | .node n => some n
  | _ => none

/-- The program of a file. If there is module code, the file is that code and the body is not used. -/
structure Program where
  body : List Item
  moduleCode : Option String
deriving Repr

/-- The template nodes at the top level. -/
def Program.nodes (p : Program) : List Node := p.body.filterMap Item.node?

end TemplateCompiler
