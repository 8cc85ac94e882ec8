/-!
# Template nodes

The tree of a template. A node is a leaf or a tag with children; both carry marks, which say whether
the node is constant and where it was authored.
-/

namespace TemplateCompiler

/-- A place in a template. -/
structure Location where
  line : UInt32
  column : UInt32
deriving DecidableEq, Repr, Inhabited

/-- What is known about a node besides its content: whether it is constant, and its place. -/
structure Marks where
  isStatic : Bool
  location : Location
deriving DecidableEq, Repr, Inhabited

/-- A node without children. -/
inductive Leaf where
  /-- `<!value>` -/
  | documentType (value : String)
  /-- `<?value?>` -/
  | declaration (value : String)
  | cdata (value : String)
  | text (value : String)
  | comment (value : String)
  /-- The value of an expression, escaped or as it is. -/
  | placeholder (expression : String) (escape : Bool)
  /-- Code that runs at each rendering, or once if it is static. -/
  | scriptlet (code : String)
  /-- The class of the component, as an expression. -/
  | component (code : String)
deriving DecidableEq, Repr

/-- A leaf writes something when it is rendered. -/
def Leaf.producesOutput : Leaf → Bool
  | .scriptlet _ | .component _ => false
  | _ => true

/-- The name of a tag: fixed, or an expression that gives the tag at rendering. -/
inductive TagName where
  | static (name : String)
  | dynamic (expression : String)
deriving DecidableEq, Repr

/-- An attribute; its value is an expression. -/
structure Attribute where
  name : String
  value : String
deriving DecidableEq, Repr

/-- A tag without its children: what stands between the angle brackets. -/
structure Tag where
  name : TagName
  attributes : List Attribute
  arguments : Option String
  /-- The names that the tag binds for its children. -/
  params : List String
deriving DecidableEq, Repr

namespace Tag

/-- The name of the tag, if it is fixed. -/
def staticName (t : Tag) : Option String :=
  match t.name with
  | .static name => some name
  | .dynamic _ => none

/-- The tag is chosen at rendering. -/
def isDynamic (t : Tag) : Bool := t.staticName.isNone

/-- A name of an attribute tag. -/
def isSlotName (name : String) : Bool := name.toList.head? == some '@'

/-- An attribute tag fills a slot of the tag around it. -/
def isAttributeTag (t : Tag) : Bool := t.staticName.any isSlotName

/-- The value of the first attribute of a name. -/
def valueOf (t : Tag) (name : String) : Option String :=
  (t.attributes.find? fun a => a.name == name).map (·.value)

end Tag

/-- A node of a template. -/
inductive Node where
  | leaf (marks : Marks) (leaf : Leaf)
  | tag (marks : Marks) (tag : Tag) (children : List Node)
deriving Repr

namespace Node

/-- The marks of a node. -/
def marks : Node → Marks
  | .leaf m _ => m
  | .tag m _ _ => m

/-- The node is marked as constant. -/
def isStatic (n : Node) : Bool := n.marks.isStatic

/-- Where the node was authored. -/
def location (n : Node) : Location := n.marks.location

/-- The node with another mark for being constant. -/
def setStatic (isStatic : Bool) : Node → Node
  | .leaf m l => .leaf { m with isStatic } l
  | .tag m t children => .tag { m with isStatic } t children

/-- The node writes something when it is rendered. -/
def producesOutput : Node → Bool
  | .leaf _ l => l.producesOutput
  | .tag _ _ _ => true

@[simp] theorem isStatic_setStatic (n : Node) (b : Bool) : (n.setStatic b).isStatic = b := by
  cases n <;> rfl

theorem setStatic_isStatic (n : Node) : n.setStatic n.isStatic = n := by
  cases n <;> rfl

/-! ## Induction -/

/-- Induction over a node and its lists of children. -/
theorem induct {P : Node → Prop} {Q : List Node → Prop}
    (leaf : ∀ m l, P (.leaf m l)) (tag : ∀ m t children, Q children → P (.tag m t children))
    (nil : Q []) (cons : ∀ n ns, P n → Q ns → Q (n :: ns)) : (∀ n, P n) ∧ ∀ ns, Q ns :=
  ⟨fun n => Node.rec (motive_1 := P) (motive_2 := Q) leaf tag nil cons n,
    fun ns => Node.rec_1 (motive_1 := P) (motive_2 := Q) leaf tag nil cons ns⟩

end Node

end TemplateCompiler
