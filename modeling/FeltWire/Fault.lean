import FeltWire.Located
import FeltWire.Shape
import FeltWire.Value

/-!
# Faults of the codec

What can be wrong with a value, its shape or its words. A fault holds what was
found; `message` is the only place where it is worded.

## Main definitions

* `Fault`: one cause
* `WireError`: a fault and the steps to the component at fault
* `Fault.message`, `WireError.message`: what is said about them
-/

namespace FeltWire

/-- An integer out of range: an `integer` that should be written, or a `word`
that was read. -/
inductive Offender where
  | integer (v : Int)
  | word (x : Felt)
deriving DecidableEq, Repr

/-- The attempt whose result is no fixed-point number: a conversion or an
operation of `Fixed`, with its operands. -/
inductive Attempt where
  | double (x : Binary64)
  | ratio (numerator denominator : Int)
  | sum (a b : Fixed)
  | difference (a b : Fixed)
  | product (a b : Fixed)
deriving DecidableEq, Repr

/-- What is wrong with the padding of a byte string: the place of data where
`ByteString` has zeros. -/
inductive Padding where
  | chunk (index : Nat)
  | pendingLength (word : Felt)
  | pendingExcess (length : Nat)
deriving DecidableEq, Repr

/-- How a value or a document fails to have the `Shape` that is asked for. -/
inductive Mismatch where
  | kind (shape : Shape) (found : String)
  | arity (shape : Shape) (expected found : Nat)
  | emptyElement (element : Shape)
  | numeral (text : String)
  | shortText (length : Nat)
  | missingField (name : String)
deriving DecidableEq, Repr

/-- **A fault**, without its place; `Located` adds that. -/
inductive Fault where
  /-- An integer does not fit the declared `width`. -/
  | range (found : Offender) (width : Width) (signed : Bool)
  /-- A word `raw` is not below the `prime`. -/
  | fieldRange (raw : Nat)
  /-- A `word` for a truth value is neither 0 nor 1. -/
  | invalidBoolean (word : Felt)
  /-- A result has no signed 64-bit raw value. -/
  | overflow (attempt : Attempt)
  /-- Two scales should be the same. -/
  | scaleMismatch (expected got : UInt32)
  /-- Fewer bytes are `available` than are `needed`. -/
  | truncated (needed available : Nat)
  /-- Padding of a byte string holds data. -/
  | padding (p : Padding)
  /-- A value does not have the shape asked for. -/
  | mismatch (m : Mismatch)
  /-- Bytes are left after the value, `remaining` of them. -/
  | trailing (remaining : Nat)
deriving DecidableEq, Repr

/-- A fault with the steps that lead to it, from the outermost value on. -/
abbrev WireError := Located Fault

/-- The offender as it is written: an `integer` in decimal, a `word` in
hexadecimal. -/
def Offender.text : Offender → String
  | integer v => toString v
  | word x => x.hex

/-- What was tried to be computed, with the operands in their own text. -/
def Attempt.text : Attempt → String
  | double x => x.text .plain
  | ratio n d => toString n ++ "/" ++ toString d
  | sum a b => a.text ++ " + " ++ b.text
  | difference a b => a.text ++ " - " ++ b.text
  | product a b => a.text ++ " * " ++ b.text

/-- Where the stray data is: the chunk, the pending length or the bytes behind
it. -/
def Padding.text : Padding → String
  | chunk index => s!"chunk {index} has data outside its {chunkSize} bytes"
  | pendingLength word =>
    "pending length " ++ word.hex ++ s!" is not below the chunk width {chunkSize}"
  | pendingExcess length => s!"pending word holds more than {length} bytes"

/-- The text of what is asked for, mostly the `Shape.text` of the shape. -/
def Mismatch.expected : Mismatch → String
  | kind shape _ => shape.text
  | arity shape expected _ => shape.text ++ s!" with {expected} fields"
  | emptyElement _ => "sequence element of at least one word"
  | numeral _ => "decimal or 0x-prefixed hex field element"
  | shortText _ => s!"short string of at most {chunkSize} bytes"
  | missingField name => name

/-- The text of what is there instead, mostly the `Value.kind` of a value. -/
def Mismatch.found : Mismatch → String
  | kind _ found => found
  | arity _ _ found => s!"{found} fields"
  | emptyElement element => element.text
  | numeral text => text
  | shortText length => s!"{length} bytes"
  | missingField _ => "missing field"

/-- What is said about a fault, whose `Mismatch` shows both `expected` and
`found`. -/
def Fault.message : Fault → String
  | range found width signed =>
    found.text ++ " does not fit " ++ (if signed then "i" else "u") ++ toString width.bits
  | fieldRange raw => "word " ++ Numeral.hex raw ++ " is not below the field prime"
  | invalidBoolean word => "invalid boolean word " ++ word.hex ++ ", expected 0 or 1"
  | overflow attempt =>
    "fixed-point value " ++ attempt.text ++ " overflows the scaled 64-bit range"
  | scaleMismatch expected got =>
    s!"fixed-point scale mismatch, expected 2^{expected} got 2^{got}"
  | truncated needed available =>
    s!"truncated data, needed {needed} bytes but only {available} remain"
  | padding p => "byte string padding mismatch: " ++ p.text
  | mismatch m => "shape mismatch, expected " ++ m.expected ++ " got " ++ m.found
  | trailing remaining => s!"{remaining} trailing bytes after decoded value"

/-- What is said about a fault and the steps to it, by `Located.message`. -/
def WireError.message (e : WireError) : String := Located.message e Fault.message

end FeltWire
