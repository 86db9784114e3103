import FeltWire.Width

/-!
# Shapes

A shape says how a value is laid out in words. Shapes are agreed on beforehand
and never written on the wire.

## Main definitions

* `Shape`: scalars, byte strings, records, sequences and tuples
* `Shape.fixedWords`: the number of words that every value of the shape takes,
  if it does not depend on the value
* `Shape.text`: the shape as it is named in messages

## Main results

* `Shape.induct`: induction over nested shapes
* `DecidableEq Shape`
-/

namespace FeltWire

/-- **The shape of a value.** The order of a record's fields is part of the
shape; their names and the record's are for messages and documents only. -/
inductive Shape where
  | unsigned (width : Width)
  | signed (width : Width)
  | bool
  | felt
  | fixed (scale : UInt32)
  | bytes
  | record (name : String) (fields : List (String × Shape))
  | sequence (element : Shape)
  | tuple (items : List Shape)
deriving Repr

namespace Shape

/-- Induction over shapes, with the hypothesis for every component: for the
fields of a `record` and the items of a `tuple`, which the recursor of the
nested type does not give. -/
@[elab_as_elim]
theorem induct {motive : Shape → Prop} (unsigned : ∀ w, motive (.unsigned w))
    (signed : ∀ w, motive (.signed w)) (bool : motive .bool) (felt : motive .felt)
    (fixed : ∀ k, motive (.fixed k)) (bytes : motive .bytes)
    (record : ∀ name fields, (∀ f ∈ fields, motive f.2) → motive (.record name fields))
    (sequence : ∀ s, motive s → motive (.sequence s))
    (tuple : ∀ items, (∀ s ∈ items, motive s) → motive (.tuple items)) (s : Shape) : motive s :=
  Shape.rec (motive_1 := motive) (motive_2 := fun fields => ∀ f ∈ fields, motive f.2)
    (motive_3 := fun items => ∀ s ∈ items, motive s) (motive_4 := fun f => motive f.2)
    unsigned signed bool felt fixed bytes record sequence tuple
    (fun _ h => absurd h List.not_mem_nil)
    (fun _ _ head tail _ h => (List.mem_cons.1 h).elim (fun e => e ▸ head) (tail _))
    (fun _ h => absurd h List.not_mem_nil)
    (fun _ _ head tail _ h => (List.mem_cons.1 h).elim (fun e => e ▸ head) (tail _))
    (fun _ _ h => h) s

/-! ## Sizes -/

mutual

/-- The number of words that every value of the shape takes, or `none` if it
depends on the value, as for `bytes` and every `sequence`. -/
def fixedWords : Shape → Option Nat
  | .bytes | .sequence _ => none
  | .record _ fields => fieldWords fields
  | .tuple items => itemWords items
  | _ => some 1

/-- The sum of `fixedWords` over the fields of a record, if it is fixed for
each. -/
def fieldWords : List (String × Shape) → Option Nat
  | [] => some 0
  | (_, s) :: fields => do return (← s.fixedWords) + (← fieldWords fields)

/-- The sum of `fixedWords` over the items of a tuple, if it is fixed for
each. -/
def itemWords : List Shape → Option Nat
  | [] => some 0
  | s :: items => do return (← s.fixedWords) + (← itemWords items)

end

/-! ## Names in messages -/

mutual

/-- The shape as it is named in messages; a `record` shows its own name and
`fieldTexts`. -/
def text : Shape → String
  | .unsigned w => "u" ++ toString w.bits
  | .signed w => "i" ++ toString w.bits
  | .bool => "bool"
  | .felt => "felt"
  | .fixed scale => "fixed<" ++ toString scale.toNat ++ ">"
  | .bytes => "bytes"
  | .record name fields => name ++ "\x7b" ++ ", ".intercalate (fieldTexts fields) ++ "\x7d"
  | .sequence s => "sequence<" ++ s.text ++ ">"
  | .tuple items => "(" ++ ", ".intercalate (itemTexts items) ++ ")"

/-- The `text` of each field of a record, behind its name. -/
def fieldTexts : List (String × Shape) → List String
  | [] => []
  | (name, s) :: fields => (name ++ ": " ++ s.text) :: fieldTexts fields

/-- The `text` of each item of a tuple. -/
def itemTexts : List Shape → List String
  | [] => []
  | s :: items => s.text :: itemTexts items

end

/-- The first of the `fields` of a record that has the given `name`. -/
def field? (fields : List (String × Shape)) (name : String) : Option (String × Shape) :=
  fields.find? fun f => f.1 = name

/-! ## Equality -/

mutual

/-- Whether two shapes are the same, names included. With `sameFields` and
`sameItems` it decides equality (`same_iff`). -/
def same : Shape → Shape → Bool
  | .unsigned w, .unsigned w' => w = w'
  | .signed w, .signed w' => w = w'
  | .bool, .bool => true
  | .felt, .felt => true
  | .fixed k, .fixed k' => k = k'
  | .bytes, .bytes => true
  | .record name fields, .record name' fields' => name = name' && sameFields fields fields'
  | .sequence s, .sequence s' => s.same s'
  | .tuple items, .tuple items' => sameItems items items'
  | _, _ => false

/-- Whether two lists of fields are the same, with their names and in their
order. -/
def sameFields : List (String × Shape) → List (String × Shape) → Bool
  | [], [] => true
  | (name, s) :: fields, (name', s') :: fields' =>
    name = name' && s.same s' && sameFields fields fields'
  | _, _ => false

/-- Whether two lists of items are the same, in their order. -/
def sameItems : List Shape → List Shape → Bool
  | [], [] => true
  | s :: items, s' :: items' => s.same s' && sameItems items items'
  | _, _ => false

end

theorem sameFields_iff {fields : List (String × Shape)}
    (ih : ∀ f ∈ fields, ∀ t, f.2.same t = true ↔ f.2 = t) (fields' : List (String × Shape)) :
    sameFields fields fields' = true ↔ fields = fields' := by
  induction fields generalizing fields' with
  | nil => cases fields' <;> simp [sameFields]
  | cons f fields step =>
    cases fields' with
    | nil => simp [sameFields]
    | cons f' fields' =>
      have head := ih f (by simp)
      have tail := step (fun g hg => ih g (by simp [hg])) fields'
      obtain ⟨name, s⟩ := f
      obtain ⟨name', s'⟩ := f'
      simp [sameFields, head, tail]

theorem sameItems_iff {items : List Shape} (ih : ∀ s ∈ items, ∀ t, s.same t = true ↔ s = t)
    (items' : List Shape) : sameItems items items' = true ↔ items = items' := by
  induction items generalizing items' with
  | nil => cases items' <;> simp [sameItems]
  | cons s items step =>
    cases items' with
    | nil => simp [sameItems]
    | cons s' items' =>
      simp [sameItems, ih s (by simp), step (fun g hg => ih g (by simp [hg])) items']

/-- The test `same` finds exactly the equal shapes; `DecidableEq Shape` rests on
it. -/
theorem same_iff (s t : Shape) : s.same t = true ↔ s = t := by
  induction s using Shape.induct generalizing t with
  | record name fields ih => cases t <;> simp [same, sameFields_iff ih]
  | tuple items ih => cases t <;> simp [same, sameItems_iff ih]
  | sequence s ih => cases t <;> simp [same, ih]
  | _ => cases t <;> simp [same]

instance : DecidableEq Shape := fun s t => decidable_of_iff _ (same_iff s t)

end Shape

end FeltWire
