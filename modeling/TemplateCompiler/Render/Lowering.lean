import TemplateCompiler.Render.Markup
import TemplateCompiler.Render.State
import TemplateCompiler.Template.Macro
import TemplateCompiler.Text.Blank

/-!
# Lowering

How the nodes of a template become operations of its render function. What a tag stands for is decided
by its name alone (`Env.kindOf`). The children of a tag are lowered in two ways: as its content, in
which attribute tags leave nothing, and slot by slot, as the inputs of the attribute tags.
-/

namespace TemplateCompiler

/-- The slot that an attribute tag fills. -/
def Tag.slot? (t : Tag) : Option String := do
  let name ← t.staticName
  guard (Tag.isSlotName name)
  pure (String.ofList (name.toList.dropWhile (· == '@')))

/-- The slot that a node fills. -/
def Node.slot? : Node → Option String
  | .leaf _ _ => none
  | .tag _ t _ => t.slot?

namespace Render

open Script (Literal literal?)

/-! ## Leaves -/

/-- Text as it is lowered unless something else is asked for. -/
def standardText (options : Options) (_marks : Marks) (text : String) : Lower (List LoweredOp) :=
  pure <|
    if text.isEmpty then []
    else if options.output.isHtml then [.write (Text.escapeText text)]
    else [.code (.addText text)]

/-- The value of a constant. -/
def lowerConstant (env : Env) (escape : Bool) (text : String) : List LoweredOp :=
  if text.isEmpty then []
  else if env.isHtml then [.write (textMarkup escape text)]
  else [.code (.addText text)]

/-- The value of an expression. -/
def lowerPlaceholder (env : Env) (expression : String) (escape : Bool) : Lower (List LoweredOp) := do
  match literal? expression with
  | some value => pure (lowerConstant env escape value.text)
  | none =>
    -- the expression is taken as it is, without a check
    if env.isHtml then
      let helper ←
        if escape then importName env.options.runtime.escapeXml (.named "x") "marko_escapeXml"
        else importName env.options.runtime.toText .default "marko_to_string"
      pure [.code (.writeValue helper expression)]
    -- a tree holds text as it is; only what is not to be escaped is parsed as markup
    else if escape then pure [.code (.addValue expression)]
    else pure [.code (.addMarkup expression)]

/-- A leaf as operations. -/
def lowerLeaf (env : Env) (marks : Marks) : Leaf → Lower (List LoweredOp)
  | .documentType v => pure (if env.isHtml then [.write (documentTypeMarkup v)] else [])
  | .declaration v => pure (if env.isHtml then [.write (declarationMarkup v)] else [])
  | .cdata v =>
    pure (if env.isHtml then [.write (cdataMarkup v)] else [.code (.addText v)])
  | .text v => env.text marks v
  | .comment v =>
    pure <|
      if !env.options.preserveComments then []
      else if env.isHtml then [.write (commentMarkup v)]
      else [.code (.addComment v)]
  | .placeholder expression escape => lowerPlaceholder env expression escape
  | .scriptlet code =>
    let code := Text.trim code
    pure (if code.isEmpty then [] else [.code (.authored code)])
  | .component code => do
    defineComponent (Text.trim code)
    pure []

/-! ## Kinds of tags -/

/-- What a tag stands for. -/
inductive TagKind where
  /-- A tag that an expression chooses at rendering. -/
  | dynamic (target : String)
  /-- An attribute tag that no tag around it takes. -/
  | slot
  | ifTrue
  | elseIfTrue
  | otherwise
  | loop
  | macroDefinition
  | macroCall (name : String)
  | native (name : String)
  /-- A tag with a module of its own. -/
  | custom (name request : String)
deriving DecidableEq, Repr

/-- What a name stands for that no core tag has. -/
def Env.kindOfName (env : Env) (name : String) : TagKind :=
  if env.macros.contains name then .macroCall name
  else if env.registry.isNative env.source name then .native name
  else
    match env.registry.request? env.source name env.working with
    | some request => .custom name request
    -- nothing is known of the tag, so its name stands in for an expression
    | none => .dynamic (Json.quote name)

/-- What a tag stands for. A tag that nothing is known of is chosen at rendering, by its name. -/
def Env.kindOf (env : Env) (t : Tag) : TagKind :=
  match t.name with
  | .dynamic expression => .dynamic expression
  | .static name =>
    -- core tags come before macros and registered tags of the same name
    if Tag.isSlotName name then .slot
    else if name == "if" then .ifTrue
    else if name == "else-if" then .elseIfTrue
    else if name == "else" then .otherwise
    else if name == "for" then .loop
    else if name == "macro" then .macroDefinition
    else env.kindOfName name

/-! ## Inputs -/

/-- How the children of a tag are lowered: all of them as content, or the attribute tags of a slot as
inputs, which have names and operations that declare them. -/
structure Inner where
  content : Lower (List LoweredOp)
  inputs : String → Lower (List String × List LoweredOp)

/-- The slots that nodes fill, in the order of their first occurrence. -/
def slotNames (children : List Node) : List String :=
  Text.distinct (children.filterMap Node.slot?)

/-- The slots of an input, one by one. -/
def lowerSlots (object : String) (inner : Inner) : List String → Lower (List LoweredOp)
  | [] => pure []
  | slot :: rest => do
    let (values, ops) ← inner.inputs slot
    let more ← lowerSlots object inner rest
    pure (ops ++ .code (.assignSlot object slot values) :: more)

/-- The content of a tag as a function in its input, if there are other children than attribute
tags. -/
def lowerBody (object : String) (params : List String) (children : List Node) (inner : Inner) :
    Lower (List LoweredOp) := do
  if children.all (·.slot?.isSome) then pure []
  else
    let body ← inner.content
    pure [.block (.renderBody object params) body]

/-- The input of a tag: an object with the attributes, the slots and the content. -/
def lowerInput (env : Env) (location : Location) (t : Tag) (hint : String) (children : List Node)
    (inner : Inner) : Lower (String × List LoweredOp) := do
  -- the name is taken before those of the inputs for the slots, and even if the check fails
  let name ← generateName (hint ++ "_input")
  checkExpression env location (objectText t.attributes)
  let slots ← lowerSlots name inner (slotNames children)
  let body ← lowerBody name t.params children inner
  pure (name, .code (.declareInput name t.attributes) :: (slots ++ body))

/-- A call of a macro. -/
def lowerMacroCall (env : Env) (location : Location) (t : Tag) (name : String)
    (children : List Node) (inner : Inner) : Lower (List LoweredOp) := do
  let function ← macroFunction name
  let (input, ops) ← lowerInput env location t name children inner
  pure (ops ++ [.code (.callMacro function input)])

/-- A tag with a module of its own. -/
def lowerCustom (env : Env) (location : Location) (t : Tag) (name request : String)
    (children : List Node) (inner : Inner) : Lower (List LoweredOp) := do
  useTag request
  let template ← importName request .default name
  let (input, ops) ← lowerInput env location t name children inner
  let helper ← importName env.options.runtime.renderTag .default "marko_renderTag"
  let key ← takeKey
  pure (ops ++ [.code (.renderTag helper template input key)])

/-- A tag that an expression chooses. -/
def lowerDynamic (env : Env) (location : Location) (t : Tag) (target : String)
    (children : List Node) (inner : Inner) : Lower (List LoweredOp) := do
  checkExpression env location target
  let (input, ops) ← lowerInput env location t "dynamic" children inner
  let helper ← importName env.options.runtime.dynamicTag .default "marko_dynamicTag"
  let key ← takeKey
  pure (ops ++ [.code (.renderDynamicTag helper target input key)])

/-! ## Native elements -/

/-- An attribute of an element that is written. -/
def lowerAttribute (env : Env) (location : Location) (a : Attribute) : Lower (List LoweredOp) := do
  match literal? a.value with
  | some value =>
    let markup := value.attributeMarkup a.name
    pure (if markup.isEmpty then [] else [.write markup])
  | none =>
    checkExpression env location a.value
    let helper ← importName env.options.runtime.attr .default "marko_attr"
    pure [.code (.writeAttribute helper a.name a.value)]

/-- The attributes of an element that is written. -/
def lowerAttributes (env : Env) (location : Location) : List Attribute → Lower (List LoweredOp)
  | [] => pure []
  | a :: rest => do
    let ops ← lowerAttribute env location a
    let more ← lowerAttributes env location rest
    pure (ops ++ more)

/-- An element that is written. -/
def lowerElement (env : Env) (location : Location) (t : Tag) (name : String) (inner : Inner) :
    Lower (List LoweredOp) := do
  let attributes ← lowerAttributes env location t.attributes
  let start := .write ("<" ++ name) :: (attributes ++ [.write ">"])
  if isVoidElement name then pure start
  else
    let content ← inner.content
    pure (start ++ content ++ [.write (closingMarkup name)])

/-- An element that is added to the tree. -/
def lowerTreeElement (env : Env) (location : Location) (t : Tag) (name : String) (inner : Inner) :
    Lower (List LoweredOp) := do
  if !t.attributes.isEmpty then checkExpression env location (objectText t.attributes)
  -- the key of an element is taken before, that of a tag after the keys of what is inside
  let key ← takeKey
  let content ← inner.content
  pure (.code (.beginElement name t.attributes key) :: (content ++ [.code .endElement]))

/-- A native element. Constant elements are written as they are. -/
def lowerNative (env : Env) (marks : Marks) (t : Tag) (name : String) (children : List Node)
    (inner : Inner) : Lower (List LoweredOp) :=
  if !env.isHtml then lowerTreeElement env marks.location t name inner
  else if marks.isStatic then
    -- the children are a part of the markup and not lowered at all
    pure [.write ((Node.tag marks t children).markup env.options.preserveComments)]
  else lowerElement env marks.location t name inner

/-! ## Core tags -/

/-- The condition of a tag. One that is missing never holds. -/
def conditionOf (t : Tag) : String :=
  match t.arguments.map Text.trim with
  | some condition => if condition.isEmpty then "undefined" else condition
  | none => "undefined"

/-- A block for content under a condition. -/
def lowerCondition (env : Env) (location : Location) (t : Tag) (scope : String → Scope)
    (inner : Inner) : Lower (List LoweredOp) := do
  let condition := conditionOf t
  checkExpression env location condition
  let body ← inner.content
  pure [.block (scope condition) body]

/-- A parameter of a tag, or a new name if the tag does not have it. -/
def paramOr (params : List String) (position : Nat) (hint : String) : Lower String :=
  match params[position]? with
  | some name => pure name
  | none => generateName hint

/-- The block that a loop enters: over a list, else an object, else a range. A loop over nothing has
none. -/
def loopScope (env : Env) (location : Location) (t : Tag) : Lower (Option Scope) := do
  match t.valueOf "of", t.valueOf "in", t.valueOf "from", t.valueOf "to" with
  | some list, _, _, _ =>
    checkExpression env location list
    -- the index is there only if both are named, and the item is the first of them
    match t.params with
    | item :: index :: _ => pure (some (.eachIndexed index item list))
    | _ => pure (some (.each (← paramOr t.params 0 "item") list))
  | none, some object, _, _ =>
    checkExpression env location object
    let key ← paramOr t.params 0 "key"
    let value ← paramOr t.params 1 "value"
    pure (some (.eachProperty key value object))
  | none, none, some start, some bound =>
    let step := (t.valueOf "step").getD "1"
    checkExpression env location start
    checkExpression env location bound
    checkExpression env location step
    pure (some (.range (← paramOr t.params 0 "i") start bound step))
  | _, _, _, _ => pure none

/-- A loop. The content of a loop over nothing is rendered once. -/
def lowerLoop (env : Env) (location : Location) (t : Tag) (inner : Inner) :
    Lower (List LoweredOp) := do
  let scope ← loopScope env location t
  let body ← inner.content
  match scope with
  | some scope => pure [.block scope body]
  | none => pure body

/-- The definition of a macro. One without a name is left out. -/
def lowerMacroDefinition (t : Tag) (inner : Inner) : Lower (List LoweredOp) := do
  match t.macroName? with
  | some name =>
    let function ← macroFunction name
    let body ← inner.content
    pure [.block (.function function t.params) body]
  | none => pure []

/-! ## Nodes -/

/-- A tag as operations. -/
def lowerTag (env : Env) (marks : Marks) (t : Tag) (children : List Node) (inner : Inner) :
    Lower (List LoweredOp) :=
  match env.kindOf t with
  | .dynamic target => lowerDynamic env marks.location t target children inner
  | .slot => pure []
  | .ifTrue => lowerCondition env marks.location t .ifTrue inner
  | .elseIfTrue => lowerCondition env marks.location t .elseIfTrue inner
  | .otherwise => do
    let body ← inner.content
    pure [.block .otherwise body]
  | .loop => lowerLoop env marks.location t inner
  | .macroDefinition => lowerMacroDefinition t inner
  | .macroCall name => lowerMacroCall env marks.location t name children inner
  | .native name => lowerNative env marks t name children inner
  | .custom name request => lowerCustom env marks.location t name request children inner

mutual

/-- A node as operations. -/
def lower (env : Env) : Node → Lower (List LoweredOp)
  | .leaf marks l => lowerLeaf env marks l
  | .tag marks t children =>
    lowerTag env marks t children ⟨lowerAll env children, fun slot => inputsAll env slot children⟩
termination_by structural n => n

/-- A list of nodes as operations. -/
def lowerAll (env : Env) : List Node → Lower (List LoweredOp)
  | [] => pure []
  | n :: ns => do
    let ops ← lower env n
    let more ← lowerAll env ns
    pure (ops ++ more)
termination_by structural ns => ns

/-- The input of a node, if it is an attribute tag for a slot. -/
def inputs (env : Env) (slot : String) : Node → Lower (List String × List LoweredOp)
  | .leaf _ _ => pure ([], [])
  | .tag marks t children => do
    if t.slot? == some slot then
      let (name, ops) ← lowerInput env marks.location t slot children
        ⟨lowerAll env children, fun slot => inputsAll env slot children⟩
      pure ([name], ops)
    else pure ([], [])
termination_by structural n => n

/-- The inputs of the attribute tags for a slot. -/
def inputsAll (env : Env) (slot : String) : List Node → Lower (List String × List LoweredOp)
  | [] => pure ([], [])
  | n :: ns => do
    let (names, ops) ← inputs env slot n
    let (more, moreOps) ← inputsAll env slot ns
    pure (names ++ more, ops ++ moreOps)
termination_by structural ns => ns

end

end Render

end TemplateCompiler
