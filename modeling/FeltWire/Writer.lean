import FeltWire.ByteString

/-!
# Writing words

A writer collects words. What cannot be encoded leaves it as it was.

## Main definitions

* `Writer`: the words so far
* `Writer.put`: the words of an encoding, if there are any
* `Writer.byteString`, `Writer.scalar`: the words of a byte string and of a
  scalar
-/

namespace FeltWire

/-- **The words so far**, to which each step can only append. -/
structure Writer where
  words : List Felt
deriving DecidableEq, Repr

namespace Writer

/-- The writer of no `words`. -/
def empty : Writer := ⟨[]⟩

/-- The writer with one more word `x` at its end. -/
def push (w : Writer) (x : Felt) : Writer := ⟨w.words ++ [x]⟩

/-- The writer with the words of an `encoding`; a fault leaves `w` as it was. -/
def put (w : Writer) (encoding : Except Fault (List Felt)) : Except Fault Unit × Writer :=
  match encoding with
  | .ok words => (.ok (), ⟨w.words ++ words⟩)
  | .error e => (.error e, w)

/-- The writer with the words of a byte string (`ByteString.encode`). -/
def byteString (w : Writer) (data : List UInt8) : Except Fault Unit × Writer :=
  w.put (ByteString.encode data)

/-- The writer with the one `word` of a scalar. -/
def scalar (w : Writer) (word : Except Fault Felt) : Except Fault Unit × Writer :=
  w.put (word.map ([·]))

end Writer

end FeltWire
