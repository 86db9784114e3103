import FeltWire.Felt
import FeltWire.Fixed

/-!
# Values

The values that are written as words. A value does not carry its shape: the
fields of a record are in order but without names, and integers without their
width.

## Main definitions

* `Value`: a tree of scalars, byte strings, records, sequences and tuples
* `Value.kind`: what sort of value it is, as messages name it
-/

namespace FeltWire

/-- **A value**, without the names and types that a `Shape` gives to its
components. -/
inductive Value where
  | unsigned (n : Nat)
  | signed (v : Int)
  | bool (b : Bool)
  | felt (x : Felt)
  | fixed (x : Fixed)
  | bytes (data : List UInt8)
  | record (fields : List Value)
  | sequence (items : List Value)
  | tuple (items : List Value)
deriving Repr

/-- What sort of value it is, as a `Mismatch` shows it. -/
def Value.kind : Value → String
  | unsigned _ => "unsigned integer"
  | signed _ => "signed integer"
  | bool _ => "bool"
  | felt _ => "felt"
  | fixed _ => "fixed-point"
  | bytes _ => "bytes"
  | record _ => "record"
  | sequence _ => "sequence"
  | tuple _ => "tuple"

end FeltWire
