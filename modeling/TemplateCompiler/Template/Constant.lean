import TemplateCompiler.Registry.Basic
import TemplateCompiler.Script.Literal
import TemplateCompiler.Template.Program

/-!
# Constant content

Which nodes are constant: their output is the same at each rendering, so that it can be written out
once and for all. `classify` marks them. At the top level nothing that produces output stays marked,
since it has to be written at each rendering.
-/

namespace TemplateCompiler

open Script (isLiteral)

/-- A leaf is constant; scriptlets are what their author says. -/
def Leaf.isConstant (authored : Bool) : Leaf → Bool
  | .placeholder expression _ => isLiteral expression
  | .scriptlet _ => authored
  | _ => true

/-- A tag is constant as far as it depends on the tag alone: a native element with constant attributes
that binds no names. -/
def Tag.isConstant (native : String → Bool) (t : Tag) : Bool :=
  match t.staticName with
  | none => false
  | some name =>
    !t.isAttributeTag && native name && t.arguments.isNone && t.params.isEmpty &&
      t.attributes.all fun a => isLiteral a.value

namespace Node

mutual

/-- Marks a node and all nodes below it. -/
def classify (native : String → Bool) : Node → Node
  | .leaf m l => .leaf { m with isStatic := l.isConstant m.isStatic } l
  | .tag m t children =>
    -- the children are marked even where the tag is not constant
    let marked := classifyAll native children
    .tag { m with isStatic := t.isConstant native && marked.all (·.isStatic) } t marked
termination_by structural n => n

/-- Marks the nodes of a list. -/
def classifyAll (native : String → Bool) : List Node → List Node
  | [] => []
  | n :: ns => n.classify native :: classifyAll native ns
termination_by structural ns => ns

end

theorem classifyAll_eq_map (native : String → Bool) (ns : List Node) :
    classifyAll native ns = ns.map (·.classify native) := by
  induction ns with
  | nil => rfl
  | cons n ns ih => simp [classifyAll, ih]

/-- The node without its mark if it produces output. -/
def unmarkOutput (n : Node) : Node := if n.producesOutput then n.setStatic false else n

end Node

/-- Marks a top-level item. -/
def Item.classify (native : String → Bool) : Item → Item
  | .node n => .node (n.classify native).unmarkOutput
  | i => i

/-- Marks the nodes of a program. -/
def Program.classify (p : Program) (registry : TagRegistry) (source : Path) : Program :=
  { p with body := p.body.map (Item.classify (registry.isNative source)) }

/-! ## The two scopes -/

/-- A body in two halves: what runs when the module is loaded, and what is rendered. -/
structure Scopes where
  moduleScope : List Item
  renderScope : List Node
deriving Repr

/-- The node that an item is, if it is to be rendered. -/
def Item.rendered? : Item → Option Node
  | .node n => if n.isStatic then none else some n
  | _ => none

/-- The two halves of a program. Nodes that are not marked as constant are rendered. -/
def Program.scopes (p : Program) : Scopes where
  moduleScope := p.body.filter fun i => i.rendered?.isNone
  renderScope := p.body.filterMap Item.rendered?

end TemplateCompiler
