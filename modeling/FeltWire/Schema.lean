import FeltWire.Dictionary
import FeltWire.Json.Written
import FeltWire.Shape

/-!
# Schemas

A schema defines structs by name and names two of them: the record of a method's
arguments and the record of its results. It is written as a JSON document.

## Main definitions

* `FieldType`, `Field`, `Schema`: what a schema says
* `Schema.parse?`: the schema of a text
* `Schema.text`: the text of a schema
-/

namespace FeltWire

/-- The type of a struct's field. An `array` and a `span` are written alike, as
sequences. -/
inductive FieldType where
  | primitive (name : String)
  | array (item : FieldType)
  | span (item : FieldType)
  | struct (name : String)
deriving DecidableEq, Repr

/-- A field of a struct, with its name and type. -/
structure Field where
  name : String
  type : FieldType
deriving DecidableEq, Repr

/-- **A schema**: the fields of each of its `structs`, and the structs of a
method's arguments (`input`) and results (`output`). -/
structure Schema where
  structs : Dictionary (List Field)
  input : String
  output : String
deriving DecidableEq, Repr

/-! ## Texts of schemas -/

/-- A type as a document, under the tag of its sort (`FieldType.Tag`). -/
def FieldType.json : FieldType → Json
  | primitive name => .object [("type", .string "Primitive"), ("name", .string name)]
  | array item => .object [("type", .string "Array"), ("item_type", item.json)]
  | span item => .object [("type", .string "Span"), ("item_type", item.json)]
  | struct name => .object [("type", .string "Struct"), ("name", .string name)]

/-- A field as a document, with its members in the order of declaration. -/
def Field.json (f : Field) : Json := .object [("name", .string f.name), ("ty", f.type.json)]

/-- A schema as a document. The members stand in the order of their declaration,
the `structs` in that of their names. -/
def Schema.json (s : Schema) : Json :=
  .object [
    ("schemas", .object (s.structs.map fun (name, fields) =>
      (name, .object [("fields", .array (fields.map Field.json))]))),
    ("input", .string s.input),
    ("output", .string s.output)]

/-- **The text of a schema**, on one line (`Json.compact`); `parse?` reads it
back. -/
def Schema.text (s : Schema) : String := s.json.compact

/-! ## Schemas of texts -/

namespace Written

/-- The text that a form is, if it is a string; unpaired surrogates have none
(`Written.text?`). -/
def string? : Written → Option String
  | .string s => text? s
  | _ => none

/-- The parts of a form that stands for a struct with the given `keys`: an
object that has each key once, whatever other keys it has, or an array of just
as many items. -/
def parts? (keys : List String) : Written → Option (List Written)
  | .object members => do
    let members ← members.mapM fun (key, value) => (text? key).map fun key => (key, value)
    keys.mapM fun key =>
      match members.filter fun member => member.1 = key with
      | [member] => some member.2
      | _ => none
  | .array items => if items.length = keys.length then some items else none
  | _ => none

end Written

/-- The sorts of a `FieldType`, in the order of their numbers. -/
inductive FieldType.Tag where
  | primitive
  | array
  | span
  | struct
deriving DecidableEq, Repr

namespace FieldType

/-- The key under which a type of the sort holds its content. -/
def Tag.key : Tag → String
  | .primitive | .struct => "name"
  | .array | .span => "item_type"

/-- The tag that a form is: its name or, in the type of an item (`nested`), its
number. -/
def tag? (nested : Bool) : Written → Option Tag
  | .string s =>
    match Written.text? s with
    | some "Primitive" => some .primitive
    | some "Array" => some .array
    | some "Span" => some .span
    | some "Struct" => some .struct
    | _ => none
  | .number n =>
    match nested, n.meaning? with
    | true, some (.integer 0) => some .primitive
    | true, some (.integer 1) => some .array
    | true, some (.integer 2) => some .span
    | true, some (.integer 3) => some .struct
    | _, _ => none
  | _ => none

/-- The tag of a type and the form of its content, as an object with the
`Tag.key` or an array of both. -/
def tagged? (nested : Bool) : Written → Option (Tag × Written)
  | .object members => do
    let [tag] ← (Written.object members).parts? ["type"] | none
    let tag ← tag? nested tag
    let [content] ← (Written.object members).parts? [tag.key] | none
    return (tag, content)
  | .array [tag, content] => do
    let tag ← tag? nested tag
    return (tag, content)
  | _ => none

/-- The type that a form stands for, if it is nested no deeper than there is
`room`. -/
def ofTagged? (nested : Bool) : (room : Nat) → Written → Option FieldType
  | 0, _ => none
  | room + 1, form => do
    let (tag, content) ← tagged? nested form
    match tag with
    | .primitive => content.string?.map .primitive
    | .struct => content.string?.map .struct
    | .array => (ofTagged? true room content).map .array
    | .span => (ofTagged? true room content).map .span

/-- The type that a form stands for. All of the form has to have a meaning
(`Written.meaning?`), also what no type asks for. -/
def ofWritten? (room : Nat) (form : Written) : Option FieldType := do
  let _ ← form.meaning? room
  ofTagged? false room form

end FieldType

namespace Schema

/-- How deep a type can nest arrays and objects: the document nests it in five
of the `Written.maxDepth`. -/
def typeDepth : Nat := Written.maxDepth - 5

/-- The field that a form stands for, by its `name` and `ty`. -/
def fieldOfWritten? (form : Written) : Option Field := do
  let [name, type] ← form.parts? ["name", "ty"] | none
  return ⟨← name.string?, ← FieldType.ofWritten? typeDepth type⟩

/-- The fields of the struct that a form stands for, an array of what
`fieldOfWritten?` reads. -/
def fieldsOfWritten? (form : Written) : Option (List Field) := do
  let [.array fields] ← form.parts? ["fields"] | none
  fields.mapM fieldOfWritten?

/-- The structs that an object defines; of several with one name the last counts
(`Dictionary.ofList`). -/
def structsOfWritten? : Written → Option (Dictionary (List Field))
  | .object members => do
    let entries ← members.mapM fun (name, form) => do
      return (← Written.text? name, ← fieldsOfWritten? form)
    return Dictionary.ofList entries
  | _ => none

/-- The schema that a form stands for, by its structs and the names of two of
them. -/
def ofWritten? (form : Written) : Option Schema := do
  let [structs, input, output] ← form.parts? ["schemas", "input", "output"] | none
  return ⟨← structsOfWritten? structs, ← input.string?, ← output.string?⟩

/-- **The schema of a text**, all of which has to be one document. -/
def parse? (text : String) : Option Schema := do
  let form ← Written.parse? text
  ofWritten? form

end Schema

end FeltWire
