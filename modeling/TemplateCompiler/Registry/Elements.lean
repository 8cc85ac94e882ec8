/-!
# Native elements

The names of the elements that browsers know, and of those among them that have no content.
-/

namespace TemplateCompiler

/-- The elements of HTML. -/
def htmlElements : List String := [
  "a", "abbr", "address", "area", "article", "aside", "audio", "b", "base", "bdi", "bdo",
  "blockquote", "body", "br", "button", "canvas", "caption", "cite", "code", "col", "colgroup",
  "data", "datalist", "dd", "del", "details", "dfn", "dialog", "div", "dl", "dt", "em", "embed",
  "fieldset", "figcaption", "figure", "footer", "form", "h1", "h2", "h3", "h4", "h5", "h6",
  "head", "header", "hgroup", "hr", "html", "i", "iframe", "img", "input", "ins", "kbd", "label",
  "legend", "li", "link", "main", "map", "mark", "menu", "meta", "meter", "nav", "noscript",
  "object", "ol", "optgroup", "option", "output", "p", "param", "picture", "pre", "progress",
  "q", "rp", "rt", "ruby", "s", "samp", "script", "search", "section", "select", "slot", "small",
  "source", "span", "strong", "style", "sub", "summary", "sup", "table", "tbody", "td",
  "template", "textarea", "tfoot", "th", "thead", "time", "title", "tr", "track", "u", "ul",
  "var", "video", "wbr"]

/-- The elements of SVG. -/
def svgElements : List String := [
  "svg", "path", "circle", "ellipse", "line", "polyline", "polygon", "rect", "g", "defs", "use",
  "symbol", "clipPath", "mask", "pattern", "marker", "linearGradient", "radialGradient", "stop",
  "filter", "foreignObject", "image", "switch", "text", "tspan", "textPath"]

/-- The elements that never have content or a closing tag. -/
def voidElements : List String := [
  "area", "base", "br", "col", "embed", "hr", "img", "input", "link", "meta", "param", "source",
  "track", "wbr"]

/-- The name of a native element. -/
def isKnownElement (name : String) : Bool :=
  htmlElements.contains name || svgElements.contains name

/-- The name of an element without content. -/
def isVoidElement (name : String) : Bool := voidElements.contains name

end TemplateCompiler
