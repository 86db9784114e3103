import FeltWire.Codec.Encode

/-!
# Decoding values

A value is read back from words, its shape saying what each word is. A
sequence's length is checked against the words that are left before any element
is read.

## Main definitions

* `Shape.read`: the value whose words come next
* `Shape.decode`: the value of a run of bytes, all of which have to be used
* `Shape.decodeWords`: the value of a list of words
-/

namespace FeltWire

namespace Reader

/-- A step whose fault is one of the value itself (`Located.here`). -/
def atRoot {α : Type} (r : Reader Fault α) : Reader WireError α := r.mapError Located.here

/-- A step whose fault is one of the component behind `step`. -/
def atStep {α : Type} (step : Step) (r : Reader WireError α) : Reader WireError α :=
  r.mapError (Located.within step)

/-- The next word, read as a scalar by `decode`. -/
def scalar {α : Type} (decode : Felt → Except Fault α) : Reader Fault α := do
  let x ← word
  lift (decode x)

end Reader

namespace Shape

/-- The next `count` elements of a sequence, the first of which has the given
`index`; `read` gives one. -/
def readElements (read : Reader WireError Value) (index : Nat) :
    (count : Nat) → Reader WireError (List Value)
  | 0 => return []
  | count + 1 => do
    let v ← Reader.atStep (.element index) read
    let vs ← readElements read (index + 1) count
    return v :: vs

mutual

/-- **The value whose words come next** under a shape. The length of a sequence
has to be paid for by the bytes that are left (`Reader.require`) before any
element is read. -/
def read : Shape → Reader WireError Value
  | .unsigned w => return .unsigned (← Reader.atRoot (.scalar (decodeUnsigned w)))
  | .signed w => return .signed (← Reader.atRoot (.scalar (decodeSigned w)))
  | .bool => return .bool (← Reader.atRoot (.scalar decodeBool))
  | .felt => return .felt (← Reader.atRoot .word)
  | .fixed scale => return .fixed (← Reader.atRoot (.scalar (Fixed.decode scale)))
  | .bytes => return .bytes (← Reader.atRoot ByteString.read)
  | .record _ fields => return .record (← readFields 0 fields)
  | .sequence s => do
    Reader.atRoot (.lift s.checkElement)
    let count ← Reader.atRoot (.scalar (decodeUnsigned lengthWidth))
    Reader.atRoot (.require count)
    return .sequence (← readElements s.read 0 count)
  | .tuple items => return .tuple (← readItems 0 items)

/-- The fields of a record, the first of which has the given `position`. -/
def readFields (position : Nat) : List (String × Shape) → Reader WireError (List Value)
  | [] => return []
  | (name, s) :: fields => do
    let v ← Reader.atStep (.field position name) s.read
    let vs ← readFields (position + 1) fields
    return v :: vs

/-- The items of a tuple, the first of which has the given `position`. -/
def readItems (position : Nat) : List Shape → Reader WireError (List Value)
  | [] => return []
  | s :: items => do
    let v ← Reader.atStep (.item position) s.read
    let vs ← readItems (position + 1) items
    return v :: vs

end

/-- **The value of a run of bytes**, all of which have to be used
(`Reader.finish`). -/
def decode (s : Shape) (bytes : List UInt8) : Except WireError Value :=
  let whole : Reader WireError Value := do
    let v ← s.read
    Reader.atRoot .finish
    return v
  (whole.outcome (.start bytes)).1

/-- The value of a list of words, by `decode` on their bytes. -/
def decodeWords (s : Shape) (words : List Felt) : Except WireError Value :=
  s.decode (wordBytes words)

end Shape

end FeltWire
