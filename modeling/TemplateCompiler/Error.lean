import TemplateCompiler.Json.Record
import TemplateCompiler.Template.Node

/-!
# Errors

Why a file cannot be compiled. A report shows the code of a cause, the message, the guarantee that
would have been broken, and the place.
-/

namespace TemplateCompiler

/-- What is reported of an error. -/
structure Report where
  code : String
  message : String
  guarantee : String
  file : String
  location : Location
  context : Option String
  hints : List String
deriving DecidableEq, Repr

/-- The guarantee that stands behind a code. -/
def guaranteeOf (code : String) : String :=
  match code with
  | "T-ERR-SYNTAX-001" => "Every expression emitted into the module parses as JavaScript."
  | "T-ERR-SYNTAX-002" =>
    "A template compiled as plain module code is valid JavaScript on its own."
  | "T-ERR-META-001" => "Template metadata is emitted as a valid object literal."
  | "T-ERR-INPUT-001" => "The translator only accepts well-formed program and option JSON."
  | _ => "Unknown invariant."

namespace Report

/-- A report with the guarantee of its code. -/
def ofCode (code message file : String) (location : Location) (context : Option String)
    (hints : List String) : Report :=
  { code, message, guarantee := guaranteeOf code, file, location, context, hints }

/-- The report with the place of the node that was being compiled. -/
def locatedAt (r : Report) (location : Location) : Report := { r with location }

/-- The line that shows a report. -/
def display (r : Report) : String := "[" ++ r.code ++ "] " ++ r.message

/-- A report as a record. -/
def encode (r : Report) : Json :=
  .object [
    ("code", .string r.code),
    ("message", .string r.message),
    ("guarantee", .string r.guarantee),
    ("file", .string r.file),
    ("line", .integer r.location.line.toNat),
    ("column", .integer r.location.column.toNat),
    ("context", Json.ofOption r.context),
    ("hints", .array (r.hints.map .string))]

end Report

/-- Why a file cannot be compiled. -/
inductive Error where
  /-- A text that is no expression, at the tag it belongs to. -/
  | expression (file text : String) (location : Location)
  /-- Module code that is no module. -/
  | moduleCode (file : String)
  /-- Dependencies whose text is no expression. -/
  | metadata (file : String) (text : String)
  /-- Input that is no program. -/
  | program (file : String)
  /-- Input that is no record of options. -/
  | options
deriving DecidableEq, Repr

namespace Error

/-- The code of a cause. -/
def code : Error → String
  | .expression .. => "T-ERR-SYNTAX-001"
  | .moduleCode _ => "T-ERR-SYNTAX-002"
  | .metadata .. => "T-ERR-META-001"
  | .program _ | .options => "T-ERR-INPUT-001"

/-- The message of a cause. -/
def message : Error → String
  | .expression .. | .metadata .. => "Invalid expression"
  | .moduleCode _ => "Module code does not parse"
  | .program _ => "Invalid program"
  | .options => "Invalid translator options"

/-- The file that cannot be compiled. -/
def file : Error → String
  | .expression file _ _ | .moduleCode file | .metadata file _ | .program file => file
  | .options => "<options>"

/-- The place of the cause. Only expressions have one. -/
def location : Error → Location
  | .expression _ _ location => location
  | _ => ⟨0, 0⟩

/-- The text that was not accepted. -/
def context : Error → Option String
  | .expression _ text _ | .metadata _ text => some text
  | _ => none

/-- The report of an error. -/
def report (e : Error) : Report := .ofCode e.code e.message e.file e.location e.context []

end Error

end TemplateCompiler
