import FeltWire.Codec.Decode

/-!
# Types with a shape

Types whose values all have one shape: integers of each width, truth values,
elements, fixed-point numbers of the standard scale, byte strings, and lists,
tuples and records of such types. A value of such a type becomes a `Value` and
is made of one, and so it is written and read without a value that could be of a
wrong kind.

## Main definitions

* `StaticType`: the types
* `StaticType.Carrier`: the values of a type
* `StaticType.shape`: the shape they have
* `StaticType.toValue`, `StaticType.ofValue`: from a type's values to `Value`
  and back
* `StaticType.encode`, `StaticType.decode`: a type's values as bytes
-/

namespace FeltWire

/-- **The types whose values have one shape**, which `shape` gives. -/
inductive StaticType where
  | unsigned (width : Width)
  | signed (width : Width)
  | bool
  | felt
  | fixed
  | bytes
  | list (item : StaticType)
  | tuple (items : List StaticType)
  | record (name : String) (fields : List (String × StaticType))
deriving Repr

namespace StaticType

/-! ## Values and shapes -/

mutual

/-- **The values of a type.** An integer carries the proof that it is in
range. -/
def Carrier : StaticType → Type
  | .unsigned w => { n : Nat // n ≤ w.maxUnsigned }
  | .signed w => { v : Int // w.minSigned ≤ v ∧ v ≤ w.maxSigned }
  | .bool => Bool
  | .felt => Felt
  | .fixed => Fixed
  | .bytes => List UInt8
  | .list t => List t.Carrier
  | .tuple items => ItemCarriers items
  | .record _ fields => FieldCarriers fields

/-- The values of the items of a tuple, a product of every `Carrier`. -/
def ItemCarriers : List StaticType → Type
  | [] => Unit
  | t :: items => t.Carrier × ItemCarriers items

/-- The values of the fields of a record, a product of every `Carrier`. -/
def FieldCarriers : List (String × StaticType) → Type
  | [] => Unit
  | (_, t) :: fields => t.Carrier × FieldCarriers fields

end

mutual

/-- The shape of a type's values; fixed-point numbers have the
`Fixed.standardScale`. -/
def shape : StaticType → Shape
  | .unsigned w => .unsigned w
  | .signed w => .signed w
  | .bool => .bool
  | .felt => .felt
  | .fixed => .fixed Fixed.standardScale
  | .bytes => .bytes
  | .list t => .sequence t.shape
  | .tuple items => .tuple (itemShapes items)
  | .record name fields => .record name (fieldShapes fields)

/-- The `shape` of each item of a tuple. -/
def itemShapes : List StaticType → List Shape
  | [] => []
  | t :: items => t.shape :: itemShapes items

/-- The fields of a record with the `shape` of each. -/
def fieldShapes : List (String × StaticType) → List (String × Shape)
  | [] => []
  | (name, t) :: fields => (name, t.shape) :: fieldShapes fields

end

mutual

/-- **The `Value` of a type's value.** The names in a record type are those of
its `shape`, and left out here. -/
def toValue : (t : StaticType) → t.Carrier → Value
  | .unsigned _, n => .unsigned n.val
  | .signed _, v => .signed v.val
  | .bool, b => .bool b
  | .felt, x => .felt x
  | .fixed, x => .fixed x
  | .bytes, data => .bytes data
  | .list t, xs => .sequence (List.map t.toValue xs)
  | .tuple items, xs => .tuple (itemValues items xs)
  | .record _ fields, xs => .record (fieldValues fields xs)

/-- The `Value` of each item of a tuple. -/
def itemValues : (items : List StaticType) → ItemCarriers items → List Value
  | [], _ => []
  | t :: items, xs => t.toValue xs.1 :: itemValues items xs.2

/-- The `Value` of each field of a record. -/
def fieldValues : (fields : List (String × StaticType)) → FieldCarriers fields → List Value
  | [], _ => []
  | (_, t) :: fields, xs => t.toValue xs.1 :: fieldValues fields xs.2

end

/-! ## Taking records apart -/

/-- The fields of a record not yet taken, and how many were `taken`. -/
structure FieldCursor where
  position : Nat
  rest : List Value
deriving Repr

/-- The fields of a record that should have the `expected` number of them, with
none taken. -/
def takeFields (v : Value) (s : Shape) (expected : Nat) : Except Fault FieldCursor :=
  match v with
  | .record vs =>
    if vs.length = expected then .ok ⟨0, vs⟩
    else .error (.mismatch (.arity s expected vs.length))
  | v => Shape.wrongKind s v

/-- The next field by `convert`; it counts as taken whether it can be converted
or not. -/
def nextField {α : Type} (convert : Value → Except WireError α) (name : String)
    (c : FieldCursor) : Except WireError α × FieldCursor :=
  match c.rest with
  | v :: vs => (atStep (.field c.position name) (convert v), ⟨c.position + 1, vs⟩)
  | [] => (atRoot (.error (.mismatch (.missingField name))), c)

/-! ## Values of types -/

/-- The elements of a list by `convert`, the first of which has the given
`index`. -/
def listOfValues {α : Type} (convert : Value → Except WireError α) (index : Nat) :
    List Value → Except WireError (List α)
  | [] => .ok []
  | v :: vs => do
    let x ← atStep (.element index) (convert v)
    let xs ← listOfValues convert (index + 1) vs
    return x :: xs

mutual

/-- **The type's value that a `Value` gives.** Integers have to be in range and
fixed-point numbers of the `Fixed.standardScale`. It fails as `Shape.encode`
does, with the steps to the component at fault. -/
def ofValue : (t : StaticType) → Value → Except WireError t.Carrier
  | .unsigned w, .unsigned n =>
    if h : n ≤ w.maxUnsigned then .ok ⟨n, h⟩
    else atRoot (.error (.range (.integer n) w false))
  | .signed w, .signed v =>
    if h : w.minSigned ≤ v ∧ v ≤ w.maxSigned then .ok ⟨v, h⟩
    else atRoot (.error (.range (.integer v) w true))
  | .bool, .bool b => .ok b
  | .felt, .felt x => .ok x
  | .fixed, .fixed x =>
    if x.scale = Fixed.standardScale then .ok x
    else atRoot (.error (.scaleMismatch Fixed.standardScale x.scale))
  | .bytes, .bytes data => .ok data
  | .list t, .sequence vs => listOfValues t.ofValue 0 vs
  | .tuple items, .tuple vs =>
    if vs.length = items.length then itemsOfValues 0 items vs
    else atRoot (Shape.wrongKind (.tuple (itemShapes items)) (.tuple vs))
  | .record name fields, v => do
    let cursor ← atRoot (takeFields v (.record name (fieldShapes fields)) fields.length)
    fieldsOfValues fields cursor
  | t, v => atRoot (Shape.wrongKind t.shape v)

/-- The items of a tuple, the first of which has the given `position`. -/
def itemsOfValues (position : Nat) :
    (items : List StaticType) → List Value → Except WireError (ItemCarriers items)
  | [], _ => .ok ()
  | t :: items, v :: vs => do
    let x ← atStep (.item position) (t.ofValue v)
    let xs ← itemsOfValues (position + 1) items vs
    return (x, xs)
  | t :: items, [] => atRoot (Shape.wrongKind (.tuple (itemShapes (t :: items))) (.tuple []))

/-- The fields of a record, taken in their order by `nextField`. -/
def fieldsOfValues :
    (fields : List (String × StaticType)) → FieldCursor → Except WireError (FieldCarriers fields)
  | [], _ => .ok ()
  | (name, t) :: fields, cursor => do
    let next := nextField t.ofValue name cursor
    let x ← next.1
    let xs ← fieldsOfValues fields next.2
    return (x, xs)

end

/-! ## Bytes -/

/-- The bytes of a type's value, those of its `Value` under `shape`. -/
def encode (t : StaticType) (x : t.Carrier) : Except WireError (List UInt8) :=
  t.shape.encodeBytes (t.toValue x)

/-- The type's value of a run of bytes: the `Value` is decoded under `shape` and
then converted. -/
def decode (t : StaticType) (bytes : List UInt8) : Except WireError t.Carrier := do
  let v ← t.shape.decode bytes
  t.ofValue v

end StaticType

end FeltWire
