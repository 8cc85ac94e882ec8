import TemplateCompiler.Json.Value

/-!
# Records in JSON

How records of named fields are taken from JSON values. A record is an object, whose unknown members
are ignored and whose known members occur at most once, or an array of its fields in order, whose
last fields may be missing. A tagged record also carries the name of its kind, as a member or as the
first element.
-/

namespace TemplateCompiler.Json

/-- The values of the members with a key. -/
def valuesOf (key : String) (members : List (String × Json)) : List Json :=
  members.filterMap fun (k, v) => if k == key then some v else none

/-- The member with a key, if there is one; a second one is an error. -/
def field? (key : String) (members : List (String × Json)) : Option (Option Json) :=
  match valuesOf key members with
  | [] => some none
  | [v] => some (some v)
  | _ => none

/-- The fields of a record by their names. -/
def fields (names : List String) : Json → Option (List (Option Json))
  | .object members => names.mapM fun name => field? name members
  | .array elements =>
    if elements.length ≤ names.length then
      some (elements.map some ++ List.replicate (names.length - elements.length) none)
    else none
  | _ => none

/-- A tagged record: the value of its tag, and the record without it. -/
def tagged (key : String) : Json → Option (Json × Json)
  | .object members =>
    match valuesOf key members with
    | [tag] => some (tag, .object (members.filter fun m => m.1 != key))
    | _ => none
  | .array (tag :: rest) => some (tag, .array rest)
  | _ => none

/-- A field that has to be there. -/
def required {α : Type} (decode : Json → Option α) : Option Json → Option α
  | some j => decode j
  | none => none

/-- A field with a default value. -/
def optional {α : Type} (default : α) (decode : Json → Option α) : Option Json → Option α
  | some j => decode j
  | none => some default

/-- A value or null. -/
def nullable {α : Type} (decode : Json → Option α) : Json → Option (Option α)
  | .null => some none
  | j => (decode j).map some

/-- Text. -/
def asString : Json → Option String
  | .string s => some s
  | _ => none

/-- A truth value. -/
def asBool : Json → Option Bool
  | .boolean b => some b
  | _ => none

/-- An unsigned number of 32 bits. -/
def asUInt32 : Json → Option UInt32
  | .integer n => if 0 ≤ n && n < UInt32.size then some (UInt32.ofNat n.toNat) else none
  | _ => none

/-- A list. -/
def asList {α : Type} (decode : Json → Option α) : Json → Option (List α)
  | .array elements => elements.mapM decode
  | _ => none

/-- Any value, in canonical order. -/
def asAny (j : Json) : Option Json := some j.canonical

/-- Text or null. -/
def ofOption : Option String → Json
  | some s => .string s
  | none => .null

end TemplateCompiler.Json
