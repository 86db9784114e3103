import FeltWire.Json
import FeltWire.Numeral

/-!
# JSON text

A text is read in two steps. The first finds its form: which values, numbers and
strings it is written with. The second gives the form its meaning, and can fail
where the first cannot: a number may be too large, an escape may name no
character, and values may be nested too deep. Readers that skip a part of a text
ask only for the form of that part.

## Main definitions

* `Written`: the form of a text
* `Written.parse?`: the form that a text has
* `Written.meaning?`: the document that a form stands for
* `Json.parse?`: the document of a text
-/

namespace FeltWire

/-- A number as it is written, digit for digit; `meaning?` tells what it is. -/
structure WrittenNumber where
  negative : Bool
  whole : List Char
  fraction : List Char
  /-- The sign and the digits behind the `e`. -/
  exponent : Option (Bool × List Char)
deriving DecidableEq, Repr

/-- A character of a string as it is written: itself, or a sixteen-bit `unit`
behind `\u`. -/
inductive WrittenChar where
  | char (c : Char)
  | unit (code : Nat)
deriving DecidableEq, Repr

/-- **The form of a text.** The members of an `object` are in the order of the
text, repeated keys and all. -/
inductive Written where
  | null
  | bool (b : Bool)
  | number (n : WrittenNumber)
  | string (s : List WrittenChar)
  | array (items : List Written)
  | object (members : List (List WrittenChar × Written))
deriving Repr

namespace Written

/-! ## Form -/

/-- Leaves out leading blanks: spaces, tabs and line ends. -/
def skipBlanks (cs : List Char) : List Char :=
  cs.dropWhile fun c => c = ' ' || c = '\n' || c = '\t' || c = '\r'

/-- The leading digits of `cs` and what follows them. -/
def takeDigits (cs : List Char) : List Char × List Char := cs.span Char.isDigit

/-- The digits of the whole part: a zero alone, or digits that do not start with
one. -/
def whole? : List Char → Option (List Char × List Char)
  | '0' :: cs => some (['0'], cs)
  | cs => match takeDigits cs with
    | ([], _) => none
    | (digits, rest) => some (digits, rest)

/-- The digits behind a point, of which there has to be one; without a point
there are none. -/
def fraction? : List Char → Option (List Char × List Char)
  | '.' :: cs => match takeDigits cs with
    | ([], _) => none
    | (digits, rest) => some (digits, rest)
  | cs => some ([], cs)

/-- The sign of an exponent and what follows it. -/
def exponentSign : List Char → Bool × List Char
  | '+' :: cs => (false, cs)
  | '-' :: cs => (true, cs)
  | cs => (false, cs)

/-- The exponent behind an `e` or `E`, which has to have a digit. -/
def exponent? (cs : List Char) : Option (Option (Bool × List Char) × List Char) :=
  match cs with
  | c :: cs' =>
    if c = 'e' || c = 'E' then
      let (negative, rest) := exponentSign cs'
      match takeDigits rest with
      | ([], _) => none
      | (digits, rest) => some (some (negative, digits), rest)
    else some (none, cs)
  | [] => some (none, [])

/-- A number without its sign, which `negative` tells. -/
def unsignedNumber? (negative : Bool) (cs : List Char) : Option (Written × List Char) := do
  let (whole, cs) ← whole? cs
  let (fraction, cs) ← fraction? cs
  let (exponent, cs) ← exponent? cs
  return (.number ⟨negative, whole, fraction, exponent⟩, cs)

/-- A number with its sign. -/
def number? : List Char → Option (Written × List Char)
  | '-' :: cs => unsignedNumber? true cs
  | cs => unsignedNumber? false cs

/-- The character that the letter `c` behind a backslash stands for. -/
def escaped? (c : Char) : Option Char :=
  if c = '"' || c = '\\' || c = '/' then some c
  else if c = 'b' then some '\x08'
  else if c = 'f' then some '\x0c'
  else if c = 'n' then some '\n'
  else if c = 'r' then some '\r'
  else if c = 't' then some '\t'
  else none

/-- The characters of a string up to its closing quote, and what follows it.
Controls have to be escaped. A unit behind `\u` stays one; `characters?` joins
surrogates. -/
def stringBody? : List Char → Option (List WrittenChar × List Char)
  | '"' :: cs => some ([], cs)
  | '\\' :: 'u' :: a :: b :: c :: d :: cs => do
    let code ← [a, b, c, d].foldlM
      (fun n digit => (Numeral.hexDigit? digit).map (16 * n + ·)) 0
    let (body, rest) ← stringBody? cs
    return (.unit code :: body, rest)
  | '\\' :: letter :: cs => do
    let c ← escaped? letter
    let (body, rest) ← stringBody? cs
    return (.char c :: body, rest)
  | c :: cs =>
    if c = '\\' || c.toNat < 0x20 then none
    else do
      let (body, rest) ← stringBody? cs
      return (.char c :: body, rest)
  | [] => none

mutual

/-- A value after blanks, and what follows it. Every level of nesting uses up
one of the given `fuel` and at least one character. -/
def value? : (fuel : Nat) → List Char → Option (Written × List Char)
  | 0, _ => none
  | fuel + 1, cs =>
    match skipBlanks cs with
    | 'n' :: 'u' :: 'l' :: 'l' :: rest => some (.null, rest)
    | 't' :: 'r' :: 'u' :: 'e' :: rest => some (.bool true, rest)
    | 'f' :: 'a' :: 'l' :: 's' :: 'e' :: rest => some (.bool false, rest)
    | '"' :: rest => (stringBody? rest).map fun (s, rest) => (.string s, rest)
    | '[' :: rest =>
      match skipBlanks rest with
      | ']' :: rest => some (.array [], rest)
      | rest => (items? fuel rest).map fun (items, rest) => (.array items, rest)
    | '\x7b' :: rest =>
      match skipBlanks rest with
      | '\x7d' :: rest => some (.object [], rest)
      | rest => (members? fuel rest).map fun (members, rest) => (.object members, rest)
    | cs => number? cs

/-- The items of an array from the next one on, up to the closing bracket;
`value?` reads one. -/
def items? : (fuel : Nat) → List Char → Option (List Written × List Char)
  | 0, _ => none
  | fuel + 1, cs => do
    let (item, cs) ← value? fuel cs
    match skipBlanks cs with
    | ']' :: rest => return ([item], rest)
    | ',' :: rest =>
      let (items, rest) ← items? fuel rest
      return (item :: items, rest)
    | _ => none

/-- The members of an object from the next one on, up to the closing brace; each
is a key, a colon and what `value?` reads. -/
def members? : (fuel : Nat) → List Char → Option (List (List WrittenChar × Written) × List Char)
  | 0, _ => none
  | fuel + 1, cs =>
    match skipBlanks cs with
    | '"' :: cs => do
      let (key, cs) ← stringBody? cs
      match skipBlanks cs with
      | ':' :: cs =>
        let (value, cs) ← value? fuel cs
        match skipBlanks cs with
        | '\x7d' :: rest => return ([(key, value)], rest)
        | ',' :: rest =>
          let (members, rest) ← members? fuel rest
          return ((key, value) :: members, rest)
        | _ => none
      | _ => none
    | _ => none

end

/-- **The form of a text**, all of which has to belong to it. One level more
than `text` has characters is never reached. -/
def parse? (text : String) : Option Written := do
  let (written, rest) ← value? (text.length + 1) text.toList
  guard (skipBlanks rest = [])
  return written

/-! ## Meaning -/

/-- The characters that a string stands for. Two units of which the first is a
high and the second a low surrogate name one character; a surrogate in any other
place names none. -/
def characters? : List WrittenChar → Option (List Char)
  | [] => some []
  | .char c :: rest => (characters? rest).map (c :: ·)
  | .unit high :: .unit low :: rest =>
    if 0xD800 ≤ high ∧ high < 0xDC00 then
      if 0xDC00 ≤ low ∧ low < 0xE000 then
        (characters? rest).map
          (Char.ofNat (0x10000 + (high - 0xD800) * 0x400 + (low - 0xDC00)) :: ·)
      else none
    else if 0xDC00 ≤ high ∧ high < 0xE000 then none
    else (characters? (.unit low :: rest)).map (Char.ofNat high :: ·)
  | .unit code :: rest =>
    if 0xD800 ≤ code ∧ code < 0xE000 then none
    else (characters? rest).map (Char.ofNat code :: ·)

/-- The text that a string stands for, if `characters?` gives one. -/
def text? (s : List WrittenChar) : Option String := (characters? s).map String.ofList

end Written

namespace WrittenNumber

/-- Digits taken into a `significand` one by one as long as it stays one of 64
bits, and how many were taken. -/
def takeSignificand (significand : Nat) : List Char → Nat × Nat
  | [] => (significand, 0)
  | c :: digits =>
    let next := 10 * significand + (c.toNat - '0'.toNat)
    if next < 2 ^ 64 then
      let (significand, taken) := takeSignificand next digits
      (significand, taken + 1)
    else (significand, 0)

/-- The double nearest to `10 ^ e`. -/
def powerOfTen (e : Nat) : Binary64 := .nearest false (10 ^ e) 1

/-- The double `x` divided by `10 ^ e`, by at most `10 ^ 308` at a time. -/
def divPowerOfTen (x : Binary64) (e : Nat) : Binary64 :=
  if e ≤ 308 then x.div (powerOfTen e)
  else if x.magnitude = 0 then x
  else divPowerOfTen (x.div (powerOfTen 308)) (e - 308)
termination_by e

/-- A `significand` times `10 ^ e`, as a double: the significand, the power and
their product or quotient are each rounded. A result that is not finite is
refused. -/
def scale? (significand : Nat) (e : Int) : Option Binary64 :=
  let x := Binary64.nearest false significand 1
  if e < 0 then some (divPowerOfTen x e.natAbs)
  else if e ≤ 308 then
    let product := x.mul (powerOfTen e.toNat)
    if product.isFinite then some product else none
  else if significand = 0 then some x
  else none

/-- The double that a number stands for. It is made of the digits that fit a
significand of 64 bits (`takeSignificand`) and of the power of ten that their
place and the exponent give. -/
def double? (n : WrittenNumber) : Option Binary64 := do
  let (significand, kept) := takeSignificand 0 n.whole
  let (significand, places) := takeSignificand significand n.fraction
  let written : Int := match n.exponent with
    | none => 0
    | some (negative, digits) =>
      let e : Int := Nat.ofDigitChars 10 digits 0
      if negative then -e else e
  let x ← scale? significand ((n.whole.length - kept : Nat) - places + written)
  return if n.negative then x.neg else x

/-- **The number that is meant**: an `integer` if it is written as one and fits
64 bits, with a sign if it is negative, and a `double` otherwise. A negative
zero is a double. -/
def meaning? (n : WrittenNumber) : Option JsonNumber :=
  let v : Int := Nat.ofDigitChars 10 n.whole 0
  if n.fraction = [] ∧ n.exponent = none ∧ ¬n.negative ∧ v < 2 ^ 64 then some (.integer v)
  else if n.fraction = [] ∧ n.exponent = none ∧ n.negative ∧ 0 < v ∧ v ≤ 2 ^ 63 then
    some (.integer (-v))
  else n.double?.map .double

end WrittenNumber

namespace Written

mutual

/-- **The document that a form stands for**, unless it nests arrays and objects
deeper than there is `room`. -/
def meaning? (room : Nat) : Written → Option Json
  | .null => some .null
  | .bool b => some (.bool b)
  | .number n => n.meaning?.map .number
  | .string s => (text? s).map .string
  | .array items =>
    if room = 0 then none else (itemMeanings? (room - 1) items).map .array
  | .object members =>
    if room = 0 then none
    else (memberMeanings? (room - 1) members).map fun members => .object (Dictionary.ofList members)

/-- The documents of the items of an array, by `meaning?` with the same
`room`. -/
def itemMeanings? (room : Nat) : List Written → Option (List Json)
  | [] => some []
  | item :: items => do
    let item ← item.meaning? room
    let items ← itemMeanings? room items
    return item :: items

/-- The keys and documents of the members of an object, by `text?` and
`meaning?`. -/
def memberMeanings? (room : Nat) :
    List (List WrittenChar × Written) → Option (List (String × Json))
  | [] => some []
  | (key, value) :: members => do
    let key ← text? key
    let value ← value.meaning? room
    let members ← memberMeanings? room members
    return (key, value) :: members

end

/-- How deep arrays and objects can be nested in a text that `Json.parse?`
reads. -/
def maxDepth : Nat := 127

end Written

/-- **The document of a text**: the meaning of its form, in which of several
members with one key the last wins. -/
def Json.parse? (text : String) : Option Json := do
  let written ← Written.parse? text
  written.meaning? Written.maxDepth

end FeltWire
