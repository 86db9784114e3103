import FeltWire.Schema

/-!
# Shapes of schemas

The shape of a struct is the record of its fields' shapes, with every reference
to another struct replaced by that struct's shape. A struct has none if
following its references leads back to a struct that is still being resolved.

## Main definitions

* `Schema.resolve`: the shape of a struct
* `Schema.inputShape`, `Schema.outputShape`: the shapes of a method's arguments
  and results
* `SchemaError`: why a struct has no shape
-/

namespace FeltWire

/-- **Why a struct has no shape.** Each case is an answer of
`Schema.resolve`. -/
inductive SchemaError where
  | unknownPrimitive (name : String)
  | unknownStruct (name : String)
  /-- A `chain` of references from the struct in question to one that occurs in
  it before. -/
  | recursive (chain : List String)
  /-- An array whose items, of the shape `item`, take no words. -/
  | emptyItem (item : Shape)
  | duplicateField (struct field : String)
deriving DecidableEq, Repr

/-- What is said about it; a `chain` is shown with arrows between its names. -/
def SchemaError.message : SchemaError → String
  | unknownPrimitive name => s!"unknown primitive type `{name}`"
  | unknownStruct name => s!"struct `{name}` is not defined in the schema"
  | recursive chain => "recursive struct reference: " ++ " -> ".intercalate chain
  | emptyItem item => "array item `" ++ item.text ++ "` takes no words on the wire"
  | duplicateField struct field => s!"struct `{struct}` declares field `{field}` more than once"

namespace Schema

/-- The shape of the primitive type `name`, if there is one. -/
def primitive? (name : String) : Option Shape :=
  match name with
  | "u8" => some (.unsigned .w8)
  | "u16" => some (.unsigned .w16)
  | "u32" => some (.unsigned .w32)
  | "u64" => some (.unsigned .w64)
  | "u128" => some (.unsigned .w128)
  | "i8" => some (.signed .w8)
  | "i16" => some (.signed .w16)
  | "i32" => some (.signed .w32)
  | "i64" => some (.signed .w64)
  | "i128" => some (.signed .w128)
  | "felt252" => some .felt
  | "bool" => some .bool
  | "ByteArray" => some .bytes
  | "F64" => some (.fixed 32)
  | _ => none

/-- The shape of a sequence, whose elements have to take words:
`item.fixedWords` is not 0. -/
def sequenceOf (item : Shape) : Except SchemaError Shape :=
  if item.fixedWords = some 0 then .error (.emptyItem item) else .ok (.sequence item)

/-- The shape of a type, `struct` giving the shapes of structs. -/
def resolveType (struct : String → Except SchemaError Shape) :
    FieldType → Except SchemaError Shape
  | .primitive name =>
    match primitive? name with
    | some s => .ok s
    | none => .error (.unknownPrimitive name)
  | .array item => do sequenceOf (← resolveType struct item)
  | .span item => do sequenceOf (← resolveType struct item)
  | .struct name => struct name

/-- The shapes of the fields of the struct `owner`, of which those with the
names `seen` came before. -/
def resolveFields (struct : String → Except SchemaError Shape) (owner : String)
    (seen : List String) : List Field → Except SchemaError (List (String × Shape))
  | [] => .ok []
  | f :: fields =>
    if f.name ∈ seen then .error (.duplicateField owner f.name)
    else do
      let s ← resolveType struct f.type
      let rest ← resolveFields struct owner (f.name :: seen) fields
      return (f.name, s) :: rest

/-- The number of definitions in `s` that are not on a `stack` of names; it
bounds how deep resolution can go. -/
def unvisited (s : Schema) (stack : List String) : Nat :=
  (s.structs.filter fun entry => entry.1 ∉ stack).length

/-- A name that is defined and not yet on the `stack` leaves fewer definitions
`unvisited` when it is put there. -/
theorem unvisited_append_lt {s : Schema} {stack : List String} {name : String}
    {fields : List Field} (fresh : name ∉ stack)
    (defined : Dictionary.get? name s.structs = some fields) :
    s.unvisited (stack ++ [name]) < s.unvisited stack := by
  unfold unvisited
  generalize s.structs = structs at defined
  have fewer : ∀ l : Dictionary (List Field),
      (l.filter fun entry => entry.1 ∉ stack ++ [name]).length ≤
        (l.filter fun entry => entry.1 ∉ stack).length := by
    intro l
    induction l with
    | nil => simp
    | cons entry l ih => grind
  induction structs with
  | nil => cases defined
  | cons entry structs ih =>
    have := fewer structs
    grind [Dictionary.get?]

/-- **The shape of a struct** below the structs on the `stack`. A name that is
on the stack already closes a chain; otherwise it is put there for the types of
the fields. -/
def resolveBelow (s : Schema) (stack : List String) (name : String) : Except SchemaError Shape :=
  if _fresh : name ∈ stack then .error (.recursive (stack ++ [name]))
  else
    match _defined : Dictionary.get? name s.structs with
    | none => .error (.unknownStruct name)
    | some fields =>
      (resolveFields (fun n => resolveBelow s (stack ++ [name]) n) name [] fields).map
        (.record name ·)
termination_by s.unvisited stack
decreasing_by exact unvisited_append_lt _fresh _defined

section
variable {s : Schema} {stack : List String} {name : String}

theorem resolveBelow_of_mem (cyclic : name ∈ stack) :
    s.resolveBelow stack name = .error (.recursive (stack ++ [name])) := by
  rw [resolveBelow, dif_pos cyclic]

theorem resolveBelow_of_undefined (new : name ∉ stack)
    (undefined : Dictionary.get? name s.structs = none) :
    s.resolveBelow stack name = .error (.unknownStruct name) := by
  rw [resolveBelow, dif_neg new]
  split
  · rfl
  · next defined => cases undefined.symm.trans defined

theorem resolveBelow_of_defined {fields : List Field} (new : name ∉ stack)
    (defined : Dictionary.get? name s.structs = some fields) : s.resolveBelow stack name =
      (resolveFields (s.resolveBelow (stack ++ [name])) name [] fields).map (.record name ·) := by
  rw [resolveBelow, dif_neg new]
  split
  · next undefined => cases undefined.symm.trans defined
  · next found =>
    cases found.symm.trans defined
    rfl

end

/-- The shape of the struct `name`, with nothing above it. -/
def resolve (s : Schema) (name : String) : Except SchemaError Shape := s.resolveBelow [] name

/-- The shape of a method's arguments, the struct `s.input`. -/
def inputShape (s : Schema) : Except SchemaError Shape := s.resolve s.input

/-- The shape of a method's results, the struct `s.output`. -/
def outputShape (s : Schema) : Except SchemaError Shape := s.resolve s.output

end Schema

end FeltWire
