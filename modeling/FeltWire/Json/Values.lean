import FeltWire.Codec.Encode
import FeltWire.Json
import FeltWire.Utf8

/-!
# Values as JSON

A value of a shape as a document, and back. Integers are numbers as long as
these have 64 bits and decimal texts beyond; elements are hexadecimal texts, and
can also be given as numbers or as short texts; fixed-point numbers are doubles
and byte strings are texts. Records are objects, sequences and tuples arrays.

## Main definitions

* `Shape.ofJson`: the value that a document gives
* `Shape.toJson`: the document of a value
* `JsonError`: what is wrong and the steps to where it is
-/

namespace FeltWire

/-- What a document is asked to give, as it is named in a `JsonFault`. -/
inductive Wanted where
  | shape (s : Shape)
  | record (name : String)
  | integerFelt
  | felt
deriving DecidableEq, Repr

/-- **A fault of a conversion**, without its place; a `Fault` of the codec can
be one. -/
inductive JsonFault where
  | unexpected (wanted : Wanted) (found : String)
  | missingField (name : String)
  | codec (fault : Fault)
  | notUtf8
deriving DecidableEq, Repr

/-- A fault of a conversion with the steps that lead to it, from the whole
document on. -/
abbrev JsonError := Located JsonFault

/-- The words for what is asked for: the `Shape.text` of a shape, or the name of
a record. -/
def Wanted.text : Wanted → String
  | shape s => s.text
  | record name => name
  | integerFelt => "integer field element"
  | felt => "field element"

/-- What is said about a fault; one of the codec has its own `Fault.message`. -/
def JsonFault.message : JsonFault → String
  | unexpected wanted found => "expected " ++ wanted.text ++ ", found " ++ found
  | missingField name => s!"missing field `{name}`"
  | codec fault => fault.message
  | notUtf8 => "byte string is not valid UTF-8"

/-- The path to a fault, its `Located.path` behind `$`, the whole document. -/
def JsonError.path (e : JsonError) : String := "$" ++ Located.path e

/-- What is said about a fault and where it is: the `path` and the message. -/
def JsonError.message (e : JsonError) : String := e.path ++ ": " ++ e.fault.message

/-! ## Scalars from documents -/

namespace Json

/-- The fault that the document `j` is of another kind than what was
`wanted`. -/
def unexpected {α : Type} (wanted : Wanted) (j : Json) : Except JsonFault α :=
  .error (.unexpected wanted j.kind)

/-- What a document gives, or the fault that it is of another kind, if `x` is
`none`. -/
def wanting {α : Type} (wanted : Wanted) (j : Json) (x : Option α) : Except JsonFault α :=
  match x with
  | some a => .ok a
  | none => j.unexpected wanted

/-- An unsigned integer: a number, or a text of its decimal digits. The number
has 64 bits, the text may have 128. -/
def natural? : Json → Option Nat
  | number n => n.natural?
  | string s => (Numeral.natural? s.toList).filter (· < 2 ^ 128)
  | _ => none

/-- A signed integer: a number, or a text of its sign and decimal digits. The
number has 64 bits, the text may have 128. -/
def integer? : Json → Option Int
  | number n => n.integer?
  | string s => (Numeral.integer? s.toList).filter fun v => -2 ^ 127 ≤ v ∧ v < 2 ^ 127
  | _ => none

/-- The unsigned integer of the width `w` that a document gives; `natural?`
reads it, and the codec's range fault refuses what is too great. -/
def unsigned (w : Width) (j : Json) : Except JsonFault Value := do
  let n ← j.wanting (.shape (.unsigned w)) j.natural?
  if n ≤ w.maxUnsigned then return .unsigned n
  else throw (.codec (.range (.integer n) w false))

/-- The signed integer of the width `w` that a document gives, which `integer?`
reads. -/
def signed (w : Width) (j : Json) : Except JsonFault Value := do
  let v ← j.wanting (.shape (.signed w)) j.integer?
  if w.minSigned ≤ v ∧ v ≤ w.maxSigned then return .signed v
  else throw (.codec (.range (.integer v) w true))

/-- The truth value that a document gives, which has to be a `bool` itself. -/
def boolean : Json → Except JsonFault Value
  | bool b => .ok (.bool b)
  | j => j.unexpected (.shape .bool)

/-- An element: a number that is an integer, a text that is meant as a number
(`Felt.isNumeral`), or a short text. -/
def felt : Json → Except JsonFault Value
  | number n =>
    match natural : n.natural?, integer : n.integer? with
    | some k, _ => .ok (.felt (.ofUnsigned k (JsonNumber.lt_of_natural? natural)))
    | none, some v => .ok (.felt (.ofSigned v (JsonNumber.natAbs_lt_of_integer? integer)))
    | none, none => (number n).unexpected .integerFelt
  | string s =>
    ((if Felt.isNumeral s then Felt.parse s else Felt.ofShortText s).map .felt).mapError .codec
  | j => j.unexpected .felt

/-- The fixed-point number nearest to the double that a document gives
(`Fixed.ofBinary64`). -/
def fixed (scale : UInt32) : Json → Except JsonFault Value
  | number n => ((Fixed.ofBinary64 n.toBinary64 scale).map .fixed).mapError .codec
  | j => j.unexpected (.shape (.fixed scale))

/-- The UTF-8 bytes of the text that a document gives, by `Utf8.encode`. -/
def byteString : Json → Except JsonFault Value
  | string s => .ok (.bytes (Utf8.encode s))
  | j => j.unexpected (.shape .bytes)

end Json

namespace Shape

/-! ## Values from documents -/

/-- The values of the items of an array, the first of which has the given
`index`; `ofJson` gives one. -/
def elementsOfJson (ofJson : Json → Except JsonError Value) (index : Nat) :
    List Json → Except JsonError (List Value)
  | [] => .ok []
  | j :: js => do
    let v ← atStep (.element index) (ofJson j)
    let vs ← elementsOfJson ofJson (index + 1) js
    return v :: vs

mutual

/-- **The value that a document gives** under a shape. Members of an object that
the record has no field for are left out. -/
def ofJson : Shape → Json → Except JsonError Value
  | .unsigned w, j => atRoot (j.unsigned w)
  | .signed w, j => atRoot (j.signed w)
  | .bool, j => atRoot j.boolean
  | .felt, j => atRoot j.felt
  | .fixed scale, j => atRoot (j.fixed scale)
  | .bytes, j => atRoot j.byteString
  | .record name fields, j =>
    match j with
    | .object members => (fieldsOfJson 0 fields members).map .record
    | j => atRoot (j.unexpected (.record name))
  | .sequence s, j =>
    match j with
    | .array js => (elementsOfJson s.ofJson 0 js).map .sequence
    | j => atRoot (j.unexpected (.shape (.sequence s)))
  | .tuple items, j =>
    match j with
    | .array js =>
      if js.length = items.length then (itemsOfJson 0 items js).map .tuple
      else atRoot ((Json.array js).unexpected (.shape (.tuple items)))
    | j => atRoot (j.unexpected (.shape (.tuple items)))

/-- The values of the fields of a record, the first of which has the given
`position`. A field without a member is a fault of the record itself. -/
def fieldsOfJson (position : Nat) :
    List (String × Shape) → Dictionary Json → Except JsonError (List Value)
  | [], _ => .ok []
  | (name, s) :: fields, members =>
    match Dictionary.get? name members with
    | none => atRoot (.error (.missingField name))
    | some j => do
      let v ← atStep (.field position name) (s.ofJson j)
      let vs ← fieldsOfJson (position + 1) fields members
      return v :: vs

/-- The values of the items of a tuple, the first of which has the given
`position`. -/
def itemsOfJson (position : Nat) : List Shape → List Json → Except JsonError (List Value)
  | s :: items, j :: js => do
    let v ← atStep (.item position) (s.ofJson j)
    let vs ← itemsOfJson (position + 1) items js
    return v :: vs
  | _, _ => .ok []

end

/-! ## Documents from values -/

/-- What was found in the stead of a value of the shape `s`, by its
`Value.kind`. -/
def unexpectedValue {α : Type} (s : Shape) (v : Value) : Except JsonFault α :=
  .error (.unexpected (.shape s) v.kind)

/-- A double as a document; infinities and `nan` have none. -/
def jsonOfBinary64? (x : Binary64) : Option Json :=
  if x.isFinite then some (.number (.double x)) else none

/-- The document `j` that a value is to be shown as, or the fault that it has
none. -/
def showing (s : Shape) (v : Value) (j : Option Json) : Except JsonFault Json :=
  match j with
  | some j => .ok j
  | none => s.unexpectedValue v

/-- The document of a byte string, if `Utf8.decode?` reads it as a text. -/
def byteStringToJson (data : List UInt8) : Except JsonFault Json :=
  match Utf8.decode? data with
  | some s => .ok (.string s)
  | none => .error .notUtf8

/-- The documents of the elements of a sequence, the first of which has the
given `index`; `toJson` gives one. -/
def elementsToJson (toJson : Value → Except JsonError Json) (index : Nat) :
    List Value → Except JsonError (List Json)
  | [] => .ok []
  | v :: vs => do
    let j ← atStep (.element index) (toJson v)
    let js ← elementsToJson toJson (index + 1) vs
    return j :: js

mutual

/-- **The document of a value** under a shape. An integer of more than 64 bits
is a text, and so is an element, which is shown by `Felt.hex`. -/
def toJson : Shape → Value → Except JsonError Json
  | .unsigned _, .unsigned n =>
    .ok (if n < 2 ^ 64 then .number (.integer n) else .string (toString n))
  | .signed _, .signed v =>
    .ok (if -2 ^ 63 ≤ v ∧ v < 2 ^ 63 then .number (.integer v) else .string (toString v))
  | .bool, .bool b => .ok (.bool b)
  | .felt, .felt x => .ok (.string x.hex)
  | .fixed scale, .fixed x =>
    atRoot (showing (.fixed scale) (.fixed x) (jsonOfBinary64? x.toBinary64))
  | .bytes, .bytes data => atRoot (byteStringToJson data)
  | .record name fields, .record vs =>
    if fields.length = vs.length then do
      let members ← fieldsToJson 0 fields vs
      return .object (Dictionary.ofList members)
    else atRoot (unexpectedValue (.record name fields) (.record vs))
  | .sequence s, .sequence vs => (elementsToJson s.toJson 0 vs).map .array
  | .tuple items, .tuple vs =>
    if items.length = vs.length then (itemsToJson 0 items vs).map .array
    else atRoot (unexpectedValue (.tuple items) (.tuple vs))
  | s, v => atRoot (unexpectedValue s v)

/-- The members that the fields of a record give, the first of which has the
given `position`. -/
def fieldsToJson (position : Nat) :
    List (String × Shape) → List Value → Except JsonError (List (String × Json))
  | (name, s) :: fields, v :: vs => do
    let j ← atStep (.field position name) (s.toJson v)
    let members ← fieldsToJson (position + 1) fields vs
    return (name, j) :: members
  | _, _ => .ok []

/-- The documents of the items of a tuple, the first of which has the given
`position`. -/
def itemsToJson (position : Nat) : List Shape → List Value → Except JsonError (List Json)
  | s :: items, v :: vs => do
    let j ← atStep (.item position) (s.toJson v)
    let js ← itemsToJson (position + 1) items vs
    return j :: js
  | _, _ => .ok []

end

end Shape

end FeltWire
