import FeltWire.Fault

/-!
# Field elements as text

An element is written as a decimal or hexadecimal number, or as a short text
whose bytes are its digits.

## Main definitions

* `Felt.parse`: the element that a decimal or hexadecimal number denotes
* `Felt.ofShortText`: at most 31 bytes of text as an element
* `Felt.isNumeral`: which texts are meant as numbers
-/

namespace FeltWire.Felt

/-- The element that `n` is by `ofNat?`, or the fault `fieldRange`, which shows
the number. -/
def ofNat (n : Nat) : Except Fault Felt :=
  match ofNat? n with
  | some x => .ok x
  | none => .error (.fieldRange n)

/-- The element of a word's `bytes`, the first of them the most significant;
`ofNat` refuses what is not below the `prime`. -/
def ofBytes (bytes : List UInt8) : Except Fault Felt := ofNat (BigEndian.decode bytes)

/-- **The element that a text denotes**: hexadecimal digits behind `0x` or `0X`,
or decimal digits, which a `-` in front negates. The number has to be below the
`prime` (`ofNat`). -/
def parse (s : String) : Except Fault Felt :=
  let read (number : Option Nat) : Except Fault Felt :=
    match number with
    | some n => ofNat n
    | none => .error (.mismatch (.numeral s))
  match s.toList with
  | '0' :: 'x' :: digits => read (Numeral.hexNatural? digits)
  | '0' :: 'X' :: digits => read (Numeral.hexNatural? digits)
  | '-' :: digits => (read (Numeral.decimal? digits)).map (-·)
  | digits => read (Numeral.decimal? digits)

/-- At most `chunkSize` bytes of text as one element, the first byte being the
most significant; a longer text is a `shortText` mismatch. -/
def ofShortText (s : String) : Except Fault Felt :=
  let bytes := s.toUTF8.toList
  if h : bytes.length ≤ chunkSize then .ok (ofChunk bytes h)
  else .error (.mismatch (.shortText bytes.length))

/-- Whether `s` is meant as a number rather than a short text: it starts with
`0x` or `0X`, or is decimal (`Numeral.isDecimal`). -/
def isNumeral (s : String) : Bool :=
  match s.toList with
  | '0' :: 'x' :: _ => true
  | '0' :: 'X' :: _ => true
  | cs => Numeral.isDecimal cs

end FeltWire.Felt
