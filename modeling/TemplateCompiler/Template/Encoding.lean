import TemplateCompiler.Json.Record
import TemplateCompiler.Template.Program

/-!
# Programs in JSON

Programs are records in JSON. A node carries the name of its kind, the other items do not, and an item
is what decodes first: a node, an import or a statement. Written programs show every field; when they
are read, fields that have a default may be missing. The depth of a value bounds the depth of the
nodes in it.
-/

namespace TemplateCompiler

namespace Json

/-! ## Depth -/

mutual

/-- How deep arrays and objects are nested in a value. -/
def depth : Json → Nat
  | .array es => depthOfElements es + 1
  | .object ms => depthOfMembers ms + 1
  | _ => 0
termination_by structural j => j

/-- The depth of the deepest element. -/
def depthOfElements : List Json → Nat
  | [] => 0
  | e :: es => max e.depth (depthOfElements es)
termination_by structural es => es

/-- The depth of the deepest member. -/
def depthOfMembers : List (String × Json) → Nat
  | [] => 0
  | m :: ms => max (depthOfMember m) (depthOfMembers ms)
termination_by structural ms => ms

/-- The depth of the value of a member. -/
def depthOfMember : String × Json → Nat
  | (_, v) => v.depth
termination_by structural m => m

end

end Json

open Json (required optional nullable asString asBool asUInt32 asList)

/-! ## Parts of nodes -/

/-- A place as a record. -/
def Location.encode (l : Location) : Json :=
  .object [("line", .integer l.line.toNat), ("column", .integer l.column.toNat)]

/-- The place that a record describes. -/
def Location.decode (j : Json) : Option Location := do
  let [line, column] ← j.fields ["line", "column"] | none
  pure ⟨← required asUInt32 line, ← required asUInt32 column⟩

/-- The fields of marks. -/
def Marks.encode (m : Marks) : List (String × Json) :=
  [("static", .boolean m.isStatic), ("location", m.location.encode)]

/-- The marks in two fields. -/
def Marks.decode (isStatic location : Option Json) : Option Marks := do
  pure ⟨← optional false asBool isStatic, ← optional ⟨0, 0⟩ Location.decode location⟩

/-- A tag name as a record of its kind and value. -/
def TagName.encode : TagName → Json
  | .static name => .object [("kind", .string "static"), ("value", .string name)]
  | .dynamic expression => .object [("kind", .string "dynamic"), ("value", .string expression)]

/-- The name of a kind. It may also be the only member of an object, with an empty value. -/
def kindName : Json → Option String
  | .string kind => some kind
  | .object [(kind, .null)] => some kind
  | .object [(kind, .object [])] => some kind
  | _ => none

/-- The tag name that a record describes. -/
def TagName.decode (j : Json) : Option TagName := do
  let [kind, value] ← j.fields ["kind", "value"] | none
  let value ← required asString value
  match ← required kindName kind with
  | "static" => some (.static value)
  | "dynamic" => some (.dynamic value)
  | _ => none

/-- An attribute as a record. -/
def Attribute.encode (a : Attribute) : Json :=
  .object [("name", .string a.name), ("value", .string a.value)]

/-- The attribute that a record describes. -/
def Attribute.decode (j : Json) : Option Attribute := do
  let [name, value] ← j.fields ["name", "value"] | none
  pure ⟨← required asString name, ← required asString value⟩

/-! ## Nodes -/

/-- The kinds of nodes. -/
inductive NodeKind where
  | documentType
  | declaration
  | cdata
  | tag
  | text
  | placeholder
  | comment
  | scriptlet
  | component
deriving DecidableEq, Repr

namespace NodeKind

/-- The names of the kinds, in the order that numbers refer to. -/
def names : List (String × NodeKind) :=
  [("document-type", .documentType), ("declaration", .declaration), ("cdata", .cdata),
    ("tag", .tag), ("text", .text), ("placeholder", .placeholder), ("comment", .comment),
    ("scriptlet", .scriptlet), ("class", .component)]

/-- The name of a kind. -/
def name : NodeKind → String
  | .documentType => "document-type"
  | .declaration => "declaration"
  | .cdata => "cdata"
  | .tag => "tag"
  | .text => "text"
  | .placeholder => "placeholder"
  | .comment => "comment"
  | .scriptlet => "scriptlet"
  | .component => "class"

/-- The kind that a name or a number stands for. -/
def decode : Json → Option NodeKind
  | .string name => names.lookup name
  | .integer n => if 0 ≤ n then names[n.toNat]?.map (·.2) else none
  | _ => none

theorem decode_name (k : NodeKind) : decode (.string k.name) = some k := by
  cases k <;> rfl

end NodeKind

/-- The kind of a leaf. -/
def Leaf.kind : Leaf → NodeKind
  | .documentType _ => .documentType
  | .declaration _ => .declaration
  | .cdata _ => .cdata
  | .text _ => .text
  | .comment _ => .comment
  | .placeholder _ _ => .placeholder
  | .scriptlet _ => .scriptlet
  | .component _ => .component

/-- The fields of a leaf. -/
def Leaf.encode : Leaf → List (String × Json)
  | .documentType v | .declaration v | .cdata v | .text v | .comment v => [("value", .string v)]
  | .placeholder e escape => [("expression", .string e), ("escape", .boolean escape)]
  | .scriptlet c | .component c => [("code", .string c)]

/-- A list of texts. -/
def Json.ofStrings (texts : List String) : Json := .array (texts.map .string)

mutual

/-- A node as a record. -/
def Node.encode : Node → Json
  | .leaf m l => .object (("type", .string l.kind.name) :: (l.encode ++ m.encode))
  | .tag m t children => .object ([
      ("type", .string "tag"),
      ("name", t.name.encode),
      ("attributes", .array (t.attributes.map Attribute.encode)),
      ("arguments", Json.ofOption t.arguments),
      ("body", .object [
        ("params", Json.ofStrings t.params),
        ("children", .array (Node.encodeAll children))])] ++ m.encode)
termination_by structural n => n

/-- A list of nodes as records. -/
def Node.encodeAll : List Node → List Json
  | [] => []
  | n :: ns => n.encode :: Node.encodeAll ns
termination_by structural ns => ns

end

theorem Node.encodeAll_eq_map (ns : List Node) : Node.encodeAll ns = ns.map Node.encode := by
  induction ns with
  | nil => rfl
  | cons n ns ih => simp [Node.encodeAll, ih]

/-- A leaf of one field, and its marks. -/
def Node.decodeLeaf (field : String) (leaf : String → Leaf) (j : Json) : Option Node := do
  let [content, isStatic, location] ← j.fields [field, "static", "location"] | none
  pure (.leaf (← Marks.decode isStatic location) (leaf (← required asString content)))

/-- A placeholder and its marks. -/
def Node.decodePlaceholder (j : Json) : Option Node := do
  let [expression, escape, isStatic, location] ←
    j.fields ["expression", "escape", "static", "location"] | none
  pure (.leaf (← Marks.decode isStatic location)
    (.placeholder (← required asString expression) (← optional true asBool escape)))

/-- The parameters and the children in the body of a tag. -/
def Node.decodeBody (decode : Json → Option Node) (j : Json) :
    Option (List String × List Node) := do
  let [params, children] ← j.fields ["params", "children"] | none
  pure (← optional [] (asList asString) params, ← optional [] (asList decode) children)

/-- A tag with its children and its marks. -/
def Node.decodeTag (decode : Json → Option Node) (j : Json) : Option Node := do
  let [name, attributes, arguments, body, isStatic, location] ←
    j.fields ["name", "attributes", "arguments", "body", "static", "location"] | none
  let name ← required TagName.decode name
  let attributes ← optional [] (asList Attribute.decode) attributes
  let arguments ← optional none (nullable asString) arguments
  let (params, children) ← optional ([], []) (Node.decodeBody decode) body
  pure (.tag (← Marks.decode isStatic location) { name, attributes, arguments, params } children)

/-- The node that a record describes, if its depth is bounded. -/
def Node.decodeWithin : Nat → Json → Option Node
  | 0, _ => none
  | depth + 1, j => do
    let (kind, record) ← j.tagged "type"
    match ← NodeKind.decode kind with
    | .documentType => Node.decodeLeaf "value" .documentType record
    | .declaration => Node.decodeLeaf "value" .declaration record
    | .cdata => Node.decodeLeaf "value" .cdata record
    | .text => Node.decodeLeaf "value" .text record
    | .comment => Node.decodeLeaf "value" .comment record
    | .scriptlet => Node.decodeLeaf "code" .scriptlet record
    | .component => Node.decodeLeaf "code" .component record
    | .placeholder => Node.decodePlaceholder record
    | .tag => Node.decodeTag (Node.decodeWithin depth) record

/-- The node that a record describes. -/
def Node.decode (j : Json) : Option Node := Node.decodeWithin j.depth j

/-! ## Programs -/

/-- An import as a record. -/
def Import.encode (i : Import) : Json :=
  .object [("source", .string i.source), ("specifiers", .string i.specifiers)]

/-- The import that a record describes. -/
def Import.decode (j : Json) : Option Import := do
  let [source, specifiers] ← j.fields ["source", "specifiers"] | none
  pure ⟨← required asString source, ← optional "" asString specifiers⟩

/-- An item as a record. -/
def Item.encode : Item → Json
  | .node n => n.encode
  | .external i => i.encode
  | .statement code => .object [("code", .string code)]

/-- A statement as a record of its code. -/
def Item.decodeStatement (j : Json) : Option Item := do
  let [code] ← j.fields ["code"] | none
  pure (.statement (← required asString code))

/-- The item that a record describes: a node, else an import, else a statement. -/
def Item.decode (j : Json) : Option Item :=
  (Node.decode j).map .node <|> (Import.decode j).map .external <|> Item.decodeStatement j

/-- A program as a record. -/
def Program.encode (p : Program) : Json :=
  .object [("body", .array (p.body.map Item.encode)), ("moduleCode", Json.ofOption p.moduleCode)]

/-- The program that a record describes. -/
def Program.decode (j : Json) : Option Program := do
  let [body, moduleCode] ← j.fields ["body", "moduleCode"] | none
  pure ⟨← required (asList Item.decode) body, ← optional none (nullable asString) moduleCode⟩

end TemplateCompiler
