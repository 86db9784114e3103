import FeltWire.BigEndian
import FeltWire.Utf8

/-!
# MessagePack

The part of MessagePack that message bodies are made of. Lengths and small
integers are written in their shortest form; every form is read.

## Main definitions

* `MessagePack.text`, `MessagePack.integers`, `MessagePack.arrayHeader`: writing
* `MessagePack.Parser`: a reading step, with the bytes not yet read
* `MessagePack.Header`, `MessagePack.header`: what the next object is
* `MessagePack.readText`, `MessagePack.readBytes`, `MessagePack.skip`: reading
-/

namespace FeltWire.MessagePack

/-! ## Writing -/

/-- The header of an array of `length` objects, in the shortest of its three
forms. -/
def arrayHeader (length : Nat) : List UInt8 :=
  if length < 16 then [UInt8.ofNat (0x90 + length)]
  else if length < 2 ^ 16 then 0xdc :: BigEndian.encode 2 length
  else 0xdd :: BigEndian.encode 4 length

/-- The header of a text of `length` bytes, in the shortest of its four
forms. -/
def textHeader (length : Nat) : List UInt8 :=
  if length < 32 then [UInt8.ofNat (0xa0 + length)]
  else if length < 2 ^ 8 then 0xd9 :: BigEndian.encode 1 length
  else if length < 2 ^ 16 then 0xda :: BigEndian.encode 2 length
  else 0xdb :: BigEndian.encode 4 length

/-- The text `s`: the header and its UTF-8 bytes. -/
def text (s : String) : List UInt8 :=
  let bytes := Utf8.encode s
  textHeader bytes.length ++ bytes

/-- The byte `b`, as an integer: itself below 128, behind `0xcc` otherwise. -/
def integer (b : UInt8) : List UInt8 := if b < 128 then [b] else [0xcc, b]

/-- Bytes, as an array of what `integer` writes. -/
def integers (bytes : List UInt8) : List UInt8 := arrayHeader bytes.length ++ bytes.flatMap integer

/-! ## Reading -/

/-- **A reading step**: what it read and the bytes not yet read, unless it
fails. -/
abbrev Parser := StateT (List UInt8) Option

/-- The next `n` bytes, if there are as many. -/
def take (n : Nat) : Parser (List UInt8) := fun bytes =>
  let taken := bytes.take n
  if taken.length = n then some (taken, bytes.drop n) else none

/-- An unsigned integer of `n` bytes, the most significant first. -/
def natural (n : Nat) : Parser Nat := do
  let bytes ← take n
  return BigEndian.decode bytes

/-- A signed integer of `n` bytes, in two's complement. -/
def signed (n : Nat) : Parser Int := do
  let bytes ← take n
  return Int.bmod (BigEndian.decode bytes) (256 ^ n)

/-- **What an object is.** Numbers are read with their header; of other objects
it tells how many bytes or objects follow, which `skip` leaves out. -/
inductive Header where
  | nil
  | bool
  | float
  | natural (n : Nat)
  | signed (v : Int)
  | text (length : Nat)
  | binary (length : Nat)
  | array (length : Nat)
  | map (length : Nat)
  | extension (length : Nat)
deriving DecidableEq, Repr

/-- The header that starts with the byte `first`. The byte `0xc1` starts
none. -/
def headerOf (first : Nat) : Parser Header :=
  if first < 0x80 then return .natural first
  else if first < 0x90 then return .map (first - 0x80)
  else if first < 0xa0 then return .array (first - 0x90)
  else if first < 0xc0 then return .text (first - 0xa0)
  else if 0xe0 ≤ first then return .signed (first - 256)
  else match first with
    | 0xc0 => return .nil
    | 0xc2 => return .bool
    | 0xc3 => return .bool
    | 0xc4 => return .binary (← natural 1)
    | 0xc5 => return .binary (← natural 2)
    | 0xc6 => return .binary (← natural 4)
    | 0xc7 => return .extension (← natural 1)
    | 0xc8 => return .extension (← natural 2)
    | 0xc9 => return .extension (← natural 4)
    | 0xca => do
      discard (take 4)
      return .float
    | 0xcb => do
      discard (take 8)
      return .float
    | 0xcc => return .natural (← natural 1)
    | 0xcd => return .natural (← natural 2)
    | 0xce => return .natural (← natural 4)
    | 0xcf => return .natural (← natural 8)
    | 0xd0 => return .signed (← signed 1)
    | 0xd1 => return .signed (← signed 2)
    | 0xd2 => return .signed (← signed 4)
    | 0xd3 => return .signed (← signed 8)
    | 0xd4 => return .extension 1
    | 0xd5 => return .extension 2
    | 0xd6 => return .extension 4
    | 0xd7 => return .extension 8
    | 0xd8 => return .extension 16
    | 0xd9 => return .text (← natural 1)
    | 0xda => return .text (← natural 2)
    | 0xdb => return .text (← natural 4)
    | 0xdc => return .array (← natural 2)
    | 0xdd => return .array (← natural 4)
    | 0xde => return .map (← natural 2)
    | 0xdf => return .map (← natural 4)
    | _ => failure

/-- The header of the next object, by `headerOf`. -/
def header : Parser Header := do
  let first ← natural 1
  headerOf first

/-- How deep objects can be nested where `skip` leaves them out. -/
def maxDepth : Nat := 1023

/-- The step `step` taken `count` times. -/
def times (step : Parser Unit) : (count : Nat) → Parser Unit
  | 0 => return ()
  | count + 1 => do
    step
    times step count

/-- The next object, whatever it is, nested no deeper than there is `room`. -/
def skip : (room : Nat) → Parser Unit
  | 0 => do
    match ← header with
    | .text n | .binary n => discard (take n)
    | .array _ | .map _ | .extension _ => failure
    | _ => return ()
  | room + 1 => do
    match ← header with
    | .text n | .binary n => discard (take n)
    | .array n => times (skip room) n
    | .map n => times (skip room) (2 * n)
    | .extension n => discard (take (n + 1))
    | _ => return ()

/-- A text: one of the format's own, or a binary object that `Utf8.decode?`
reads. -/
def readText : Parser String := do
  match ← header with
  | .text n | .binary n =>
    let bytes ← take n
    match Utf8.decode? bytes with
    | some s => return s
    | none => failure
  | _ => failure

/-- An integer below 256, in any form; `integer` writes the shortest. -/
def readByte : Parser UInt8 := do
  match ← header with
  | .natural n => if n < 256 then return .ofNat n else failure
  | .signed v => if 0 ≤ v ∧ v < 256 then return .ofNat v.toNat else failure
  | _ => failure

/-- The next `count` integers below 256. -/
def readIntegers : (count : Nat) → Parser (List UInt8)
  | 0 => return []
  | count + 1 => do
    let b ← readByte
    let bytes ← readIntegers count
    return b :: bytes

/-- Bytes: an array of integers, as `integers` writes them, or the format's
own. -/
def readBytes : Parser (List UInt8) := do
  match ← header with
  | .array n => readIntegers n
  | .binary n => take n
  | _ => failure

/-- A key that stands for one of the given `names`: its text or its position.
Any other text, valid or not, and any other position stand for none. -/
def readKey (names : List String) : Parser (Option Nat) := do
  match ← header with
  | .text n | .binary n =>
    let bytes ← take n
    return names.findIdx? fun name => Utf8.encode name = bytes
  | .natural n => return if n < names.length then some n else none
  | _ => failure

end FeltWire.MessagePack
