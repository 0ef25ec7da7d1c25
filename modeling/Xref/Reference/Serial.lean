import Xref.Json.Read
import Xref.Reference.Record

/-!
# Records as JSON

A record is an object with a field for each of its parts; the element values are left out if there
are none. It can also be read from an array of the parts in order. An element value says by its
field `kind` of which form it is.
-/
namespace Xref.Reference

open Java Text

namespace ElementValue

mutual

def toJson : ElementValue → Json
  | literal type value =>
    .object
      [("kind", .string "literal"), ("literal_type", .ofOption .string type),
       ("value", .string value)]
  | list values => .object [("kind", .string "list"), ("values", .array (itemsJson values))]
  | nested name values =>
    .object
      [("kind", .string "annotation"), ("qualified_name", .string name),
       ("values", .object (fieldsJson values))]

def itemsJson : List ElementValue → List Json
  | [] => []
  | v :: vs => v.toJson :: itemsJson vs

def fieldsJson : List (String × ElementValue) → List (String × Json)
  | [] => []
  | (name, v) :: vs => (name, v.toJson) :: fieldsJson vs

end

end ElementValue

def ElementValues.toJson (values : ElementValues) : Json :=
  .object (ElementValue.fieldsJson values)

def Record.toJson (r : Record) : Json :=
  .object
    ([("qualified_name", .string r.name), ("resolution_status", .string r.status.label),
      ("location", .string r.location.label), ("line", .ofNat r.span.line),
      ("column", .ofNat r.span.column), ("length", .ofNat r.span.length),
      ("source_snippet", .string r.snippet)] ++
    (r.values.map fun v => ("annotation_values", ElementValues.toJson v)).toList)

namespace ElementValue

inductive Form where
  | literal | list | nested
  deriving Repr, DecidableEq

/-- The form that `kind` names. Inside of another value it may also be a number. -/
def formOf? (isInner : Bool) : Json → Option Form
  | .string "literal" => some .literal
  | .string "list" => some .list
  | .string "annotation" => some .nested
  | j =>
    if isInner then
      match j.nat? 3 with
      | some 0 => some .literal
      | some 1 => some .list
      | some 2 => some .nested
      | _ => none
    else none

def optString? : Json → Option (Option String)
  | .null => some none
  | .string s => some (some s)
  | _ => none

mutual

def ofJson? (isInner : Bool) : Json → Option ElementValue
  | .object fields => do
    match ← formOf? isInner (← fields.lookup "kind") with
    | .literal =>
      return .literal (← optString? ((fields.lookup "literal_type").getD .null))
        (← (← fields.lookup "value").string?)
    | .list => return .list (← listField? fields)
    | .nested =>
      return .nested (← (← fields.lookup "qualified_name").string?) (← valuesField? fields)
  | .array [kind, values] => do
    match ← formOf? isInner kind with
    | .list => return .list (← listOf? values)
    | _ => none
  | .array [kind, first, second] => do
    match ← formOf? isInner kind with
    | .literal => return .literal (← optString? first) (← second.string?)
    | .nested => return .nested (← first.string?) (← valuesOf? second)
    | .list => none
  | _ => none

def listField? : List (String × Json) → Option (List ElementValue)
  | [] => none
  | (name, j) :: rest => if name == "values" then listOf? j else listField? rest

def valuesField? : List (String × Json) → Option ElementValues
  | [] => none
  | (name, j) :: rest => if name == "values" then valuesOf? j else valuesField? rest

def listOf? : Json → Option (List ElementValue)
  | .array items => itemsOf? items
  | _ => none

def valuesOf? : Json → Option ElementValues
  | .object fields => fieldsOf? true fields
  | _ => none

def itemsOf? : List Json → Option (List ElementValue)
  | [] => some []
  | j :: rest => do return (← ofJson? true j) :: (← itemsOf? rest)

def fieldsOf? (isInner : Bool) : List (String × Json) → Option ElementValues
  | [] => some []
  | (name, j) :: rest => do
    let value ← ofJson? isInner j
    let values ← fieldsOf? isInner rest
    return if (values.lookup name).isSome then values else ElementValues.insert name value values

end

end ElementValue

namespace Record

/-- A label, or an object whose only field is the label and has no value. -/
def label? : Json → Option String
  | .string s => some s
  | .object [(s, .null)] => some s
  | _ => none

def values? : Json → Option (Option ElementValues)
  | .null => some none
  | .object fields => (ElementValue.fieldsOf? false fields).map some
  | _ => none

def ofParts? (name status location line column length snippet values : Json) : Option Record := do
  return {
    name := ← name.string?
    status := ← Status.ofLabel? (← label? status)
    location := ← Location.ofLabel? (← label? location)
    span := {
      line := ← line.nat? Json.bound32
      column := ← column.nat? Json.bound32
      length := ← length.nat? Json.bound32 }
    snippet := ← snippet.string?
    values := ← values? values }

def ofJson? : Json → Option Record
  | .object fields => do
    ofParts? (← fields.lookup "qualified_name") (← fields.lookup "resolution_status")
      (← fields.lookup "location") (← fields.lookup "line") (← fields.lookup "column")
      (← fields.lookup "length") (← fields.lookup "source_snippet")
      ((fields.lookup "annotation_values").getD .null)
  | .array [name, status, location, line, column, length, snippet] =>
    ofParts? name status location line column length snippet .null
  | .array [name, status, location, line, column, length, snippet, values] =>
    ofParts? name status location line column length snippet values
  | _ => none

/-- The element values of a record, which are one level inside of it. -/
def valuesOf : Json → Json
  | .object fields => (fields.lookup "annotation_values").getD .null
  | .array items => items[7]?.getD .null
  | _ => .null

/-- Reads a record from a text. Unknown fields are skipped, however deep they are nested, but
element values must not go below the limit. -/
def read? (text : String) : Option Record := do
  let j ← Json.read? text
  if (valuesOf j).nesting < Json.nestingLimit then ofJson? j else none

end Record

end Xref.Reference
