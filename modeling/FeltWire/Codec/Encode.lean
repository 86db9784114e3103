import FeltWire.ByteString
import FeltWire.Fixed.Arithmetic

/-!
# Encoding values

A value of a shape is written as a list of words. Scalars take one word, byte
strings as many as their chunks need, records and tuples are their components
one after another, and a sequence is its length followed by its elements.

## Main definitions

* `Shape.encode`: the words of a value
* `Shape.encodeBytes`: the words as bytes
* `Shape.wordCount`: how many words a value takes, counted without writing it
-/

namespace FeltWire

/-- Words one after another, as bytes; each takes `wordSize` of them. -/
def wordBytes (words : List Felt) : List UInt8 := words.flatMap Felt.toBytes

@[simp] theorem wordBytes_nil : wordBytes [] = [] := rfl

@[simp] theorem wordBytes_cons (x : Felt) (words : List Felt) :
    wordBytes (x :: words) = x.toBytes ++ wordBytes words := rfl

@[simp] theorem wordBytes_append (front back : List Felt) :
    wordBytes (front ++ back) = wordBytes front ++ wordBytes back := List.flatMap_append

@[simp] theorem length_wordBytes (words : List Felt) :
    (wordBytes words).length = words.length * wordSize := by
  induction words with
  | nil => simp
  | cons x words ih => simp [ih, Nat.add_mul, Nat.add_comm]

/-- The width of the length in front of a sequence, 32 bits. -/
def lengthWidth : Width := .w32

namespace Shape

/-- As many components have to be `found` as the shape `s` has. -/
def checkArity (s : Shape) (expected found : Nat) : Except Fault Unit :=
  if expected = found then .ok () else .error (.mismatch (.arity s expected found))

/-- The elements of a sequence have to take words: otherwise its length alone
would decide how much is built from no data. -/
def checkElement (s : Shape) : Except Fault Unit :=
  if s.fixedWords = some 0 then .error (.mismatch (.emptyElement s)) else .ok ()

/-- A value `v` is not of the kind that the shape `s` asks for. -/
def wrongKind {α : Type} (s : Shape) (v : Value) : Except Fault α :=
  .error (.mismatch (.kind s v.kind))

/-! ## Words -/

/-- The words of the elements of a sequence, the first of which has the given
`index`; `encode` gives those of one. -/
def encodeElements (encode : Value → Except WireError (List Felt)) (index : Nat) :
    List Value → Except WireError (List Felt)
  | [] => .ok []
  | v :: vs => do
    let head ← atStep (.element index) (encode v)
    let tail ← encodeElements encode (index + 1) vs
    return head ++ tail

mutual

/-- **The words of a value** under a shape. It fails at the first component at
fault, with the steps to it. -/
def encode : Shape → Value → Except WireError (List Felt)
  | .unsigned w, .unsigned n => do return [← atRoot (encodeUnsigned w n)]
  | .signed w, .signed v => do return [← atRoot (encodeSigned w v)]
  | .bool, .bool b => .ok [encodeBool b]
  | .felt, .felt x => .ok [x]
  | .fixed scale, .fixed x => do return [← atRoot (x.encodeAt scale)]
  | .bytes, .bytes data => atRoot (ByteString.encode data)
  | .record name fields, .record vs => do
    atRoot (checkArity (.record name fields) fields.length vs.length)
    encodeFields 0 fields vs
  | .sequence s, .sequence vs => do
    atRoot s.checkElement
    let count ← atRoot (encodeUnsigned lengthWidth vs.length)
    let elements ← encodeElements s.encode 0 vs
    return count :: elements
  | .tuple items, .tuple vs => do
    atRoot (checkArity (.tuple items) items.length vs.length)
    encodeItems 0 items vs
  | s, v => atRoot (wrongKind s v)

/-- The words of the fields of a record, the first of which has the given
`position`. -/
def encodeFields (position : Nat) :
    List (String × Shape) → List Value → Except WireError (List Felt)
  | (name, s) :: fields, v :: vs => do
    let head ← atStep (.field position name) (s.encode v)
    let tail ← encodeFields (position + 1) fields vs
    return head ++ tail
  | _, _ => .ok []

/-- The words of the items of a tuple, the first of which has the given
`position`. -/
def encodeItems (position : Nat) : List Shape → List Value → Except WireError (List Felt)
  | s :: items, v :: vs => do
    let head ← atStep (.item position) (s.encode v)
    let tail ← encodeItems (position + 1) items vs
    return head ++ tail
  | _, _ => .ok []

end

/-- The words of a value (`encode`), as bytes. -/
def encodeBytes (s : Shape) (v : Value) : Except WireError (List UInt8) :=
  (s.encode v).map wordBytes

theorem encodeBytes_eq_ok_iff {s : Shape} {v : Value} {bytes : List UInt8} :
    s.encodeBytes v = .ok bytes ↔ ∃ words, s.encode v = .ok words ∧ wordBytes words = bytes :=
  map_eq_ok_iff

/-! ## Sizes -/

/-- The sum of the sizes that `size` gives, the first failure being the failure
of the sum. -/
def sumSizes (size : Value → Except Fault Nat) : List Value → Except Fault Nat
  | [] => .ok 0
  | v :: vs => do
    let head ← size v
    let tail ← sumSizes size vs
    return head + tail

mutual

/-- **The number of words that a value takes**, if it has the shape. Unlike
`encode` it does not look at whether integers are in range and scales agree, and
it does not locate a fault. -/
def wordCount : Shape → Value → Except Fault Nat
  | .unsigned _, .unsigned _ => .ok 1
  | .signed _, .signed _ => .ok 1
  | .bool, .bool _ => .ok 1
  | .felt, .felt _ => .ok 1
  | .fixed _, .fixed _ => .ok 1
  | .bytes, .bytes data => .ok (ByteString.words data.length)
  | .record name fields, .record vs => do
    checkArity (.record name fields) fields.length vs.length
    fieldCounts fields vs
  | .sequence s, .sequence vs => do
    s.checkElement
    return 1 + (← sumSizes s.wordCount vs)
  | .tuple items, .tuple vs => do
    checkArity (.tuple items) items.length vs.length
    itemCounts items vs
  | s, v => wrongKind s v

/-- The sum of `wordCount` over the fields of a record. -/
def fieldCounts : List (String × Shape) → List Value → Except Fault Nat
  | (_, s) :: fields, v :: vs => do
    let head ← s.wordCount v
    let tail ← fieldCounts fields vs
    return head + tail
  | _, _ => .ok 0

/-- The sum of `wordCount` over the items of a tuple. -/
def itemCounts : List Shape → List Value → Except Fault Nat
  | s :: items, v :: vs => do
    let head ← s.wordCount v
    let tail ← itemCounts items vs
    return head + tail
  | _, _ => .ok 0

end

/-- The number of bytes that a value takes, `wordSize` for each of its words. -/
def encodedLength (s : Shape) (v : Value) : Except Fault Nat :=
  (s.wordCount v).map (· * wordSize)

end Shape

end FeltWire
