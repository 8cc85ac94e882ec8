import TemplateCompiler.Registry.Elements
import TemplateCompiler.Script.Literal
import TemplateCompiler.Template.Node
import TemplateCompiler.Text.Markup

/-!
# Constant markup

The markup of constant attributes and of constant tags.
-/

namespace TemplateCompiler

open Script (Literal literal?)

/-- The markup of an attribute with a constant value. `true` stands for the attribute without a value;
`false`, `null` and `undefined` for no attribute at all. -/
def Script.Literal.attributeMarkup (name : String) : Literal → String
  | .boolean false | .null | .undefined => ""
  | .boolean true => " " ++ name
  | value => " " ++ name ++ "=\"" ++ Text.escapeAttribute value.text ++ "\""

/-- The markup of an attribute, if its value is constant. -/
def Attribute.markup (a : Attribute) : String :=
  match literal? a.value with
  | some value => value.attributeMarkup a.name
  | none => ""

/-- The markup of a declaration of the document type. -/
def documentTypeMarkup (value : String) : String := "<!" ++ value ++ ">"

/-- The markup of a declaration. -/
def declarationMarkup (value : String) : String := "<?" ++ value ++ "?>"

/-- The markup of character data. -/
def cdataMarkup (value : String) : String := "<![CDATA[" ++ value ++ "]]>"

/-- The markup of a comment. -/
def commentMarkup (value : String) : String := "<!--" ++ value ++ "-->"

/-- The markup of a text, escaped or as it is. -/
def textMarkup (escape : Bool) (text : String) : String :=
  if escape then Text.escapeText text else text

/-- The markup of a constant leaf. -/
def Leaf.markup (preserveComments : Bool) : Leaf → String
  | .documentType v => documentTypeMarkup v
  | .declaration v => declarationMarkup v
  | .cdata v => cdataMarkup v
  | .text v => textMarkup true v
  | .comment v => if preserveComments then commentMarkup v else ""
  | .placeholder expression escape =>
    match literal? expression with
    | some value => textMarkup escape value.text
    | none => ""
  | .scriptlet _ | .component _ => ""

/-- The start of a constant tag. -/
def Tag.openingMarkup (t : Tag) : String :=
  "<" ++ t.staticName.getD "" ++ String.join (t.attributes.map Attribute.markup) ++ ">"

/-- The end of a tag. -/
def closingMarkup (name : String) : String := "</" ++ name ++ ">"

namespace Node

mutual

/-- The markup of a constant node. -/
def markup (preserveComments : Bool) : Node → String
  | .leaf _ l => l.markup preserveComments
  | .tag _ t children =>
    let name := t.staticName.getD ""
    if isVoidElement name then t.openingMarkup
    else t.openingMarkup ++ markupAll preserveComments children ++ closingMarkup name
termination_by structural n => n

/-- The markup of constant nodes, one behind the other. -/
def markupAll (preserveComments : Bool) : List Node → String
  | [] => ""
  | n :: ns => markup preserveComments n ++ markupAll preserveComments ns
termination_by structural ns => ns

end

end Node

end TemplateCompiler
