/-!
# Written numbers

The two spellings in which whole numbers enter and leave the library: decimal
digits, with or without a sign, and hexadecimal digits behind `0x`.

## Main definitions

* `Numeral.decimal?`: the number that a nonempty run of decimal digits denotes
* `Numeral.natural?`, `Numeral.integer?`: the same behind an optional sign
* `Numeral.hex`: a number as `0x` and its lowercase digits, without leading
  zeros
* `Numeral.hexNatural?`: the number that hexadecimal digits of either case
  denote
-/

namespace FeltWire.Numeral

/-! ## Decimal digits -/

/-- The number that decimal `digits` denote, where there has to be at least one;
any other character gives `none`. -/
def decimal? (digits : List Char) : Option Nat :=
  if digits ≠ [] ∧ digits.all Char.isDigit then some (Nat.ofDigitChars 10 digits 0) else none

/-- A decimal number (`decimal?`) behind an optional `+`. -/
def natural? : List Char → Option Nat
  | '+' :: digits => decimal? digits
  | digits => decimal? digits

/-- A decimal number (`decimal?`) behind an optional `+` or `-`, the latter
negating it. -/
def integer? : List Char → Option Int
  | '-' :: digits => (decimal? digits).map fun n => -(n : Int)
  | '+' :: digits => (decimal? digits).map fun n => (n : Int)
  | digits => (decimal? digits).map fun n => (n : Int)

/-- Whether a text is an optional `-` and then what `decimal?` reads, and
nothing else. Unlike `integer?` it takes no `+`. -/
def isDecimal : List Char → Bool
  | '-' :: digits => (decimal? digits).isSome
  | digits => (decimal? digits).isSome

@[simp] theorem decimal?_nil : decimal? [] = none := rfl

/-- Reading back the decimal digits of `n`, as `Nat.toDigits` writes them, gives
`n`. -/
theorem decimal?_toDigits (n : Nat) : decimal? (Nat.toDigits 10 n) = some n := by
  have digits : (Nat.toDigits 10 n).all Char.isDigit = true :=
    List.all_eq_true.2 fun c hc => Nat.isDigit_of_mem_toDigits (by decide) (by decide) hc
  have nonempty : Nat.toDigits 10 n ≠ [] :=
    List.ne_nil_of_length_pos Nat.length_toDigits_pos
  simp only [decimal?, digits, nonempty, ne_eq, not_false_eq_true, and_self, if_true,
    Nat.ofDigitChars_toDigits (b := 10) (by decide) (by decide)]

/-! ## Hexadecimal digits -/

/-- The value of a hexadecimal digit `c` of either case. -/
def hexDigit? (c : Char) : Option Nat :=
  if '0' ≤ c ∧ c ≤ '9' then some (c.toNat - '0'.toNat)
  else if 'a' ≤ c ∧ c ≤ 'f' then some (c.toNat - 'a'.toNat + 10)
  else if 'A' ≤ c ∧ c ≤ 'F' then some (c.toNat - 'A'.toNat + 10)
  else none

/-- The number that hexadecimal digits denote, each by `hexDigit?`. The first
has to be a digit; underscores among the later ones count for nothing. -/
def hexDigits? : List Char → Option Nat
  | [] => none
  | '_' :: _ => none
  | digits => (digits.filter (· ≠ '_')).foldlM (fun n c => (hexDigit? c).map (16 * n + ·)) 0

/-- A hexadecimal number (`hexDigits?`) behind an optional `+`. -/
def hexNatural? : List Char → Option Nat
  | '+' :: digits => hexDigits? digits
  | digits => hexDigits? digits

/-- The number `n` as `0x` and its lowercase hexadecimal digits, without leading
zeros. -/
def hex (n : Nat) : String := String.ofList ('0' :: 'x' :: Nat.toDigits 16 n)

end FeltWire.Numeral
