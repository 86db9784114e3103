import FeltWire.Felt.Text

/-!
# Numbers are read as they are written

Decimal digits, with or without a sign, and the hexadecimal form of an element
denote the number that they were written for.

## Main results

* `natural?_toDigits`, `integer?_toDigits`, `integer?_neg_toDigits`: decimal
  digits
* `natural?_toString`, `integer?_toString`, `isDecimal_toString`: texts of
  numbers
* `hexNatural?_toDigits`: hexadecimal digits
* `Felt.isNumeral_hex`, `Felt.parse_hex`: elements
-/

namespace FeltWire

namespace Numeral

/-! ## Decimal digits -/

theorem isDigit_toDigits {n : Nat} {c : Char} (h : c ∈ Nat.toDigits 10 n) : c.isDigit = true :=
  Nat.isDigit_of_mem_toDigits (by decide) (by decide) h

/-- Digits have no sign in front, so that `natural?` reads them as `decimal?`
does. -/
theorem natural?_toDigits (n : Nat) : natural? (Nat.toDigits 10 n) = some n := by
  unfold natural?
  split
  · next digits written =>
    have sign : '+' ∈ Nat.toDigits 10 n := written ▸ List.mem_cons_self
    exact absurd (isDigit_toDigits sign) (by decide)
  · exact decimal?_toDigits n

theorem integer?_toDigits (n : Nat) : integer? (Nat.toDigits 10 n) = some (n : Int) := by
  unfold integer?
  split
  · next digits written =>
    have sign : '-' ∈ Nat.toDigits 10 n := written ▸ List.mem_cons_self
    exact absurd (isDigit_toDigits sign) (by decide)
  · next digits written =>
    have sign : '+' ∈ Nat.toDigits 10 n := written ▸ List.mem_cons_self
    exact absurd (isDigit_toDigits sign) (by decide)
  · rw [decimal?_toDigits]
    rfl

theorem integer?_neg_toDigits (n : Nat) :
    integer? ('-' :: Nat.toDigits 10 n) = some (-(n : Int)) := by
  rw [integer?, decimal?_toDigits]
  rfl

/-! ## Texts of numbers -/

theorem toList_toString_ofNat (n : Nat) :
    (toString (Int.ofNat n)).toList = Nat.toDigits 10 n := by
  show (Nat.repr n).toList = _
  rw [Nat.repr_eq_ofList_toDigits, String.toList_ofList]

theorem toList_toString_negSucc (n : Nat) :
    (toString (Int.negSucc n)).toList = '-' :: Nat.toDigits 10 (n + 1) := by
  show ("-" ++ Nat.repr (n + 1)).toList = _
  simp [Nat.repr_eq_ofList_toDigits]

/-- **A natural number is read as it is written**, by `natural?`. -/
theorem natural?_toString (n : Nat) : natural? (toString n).toList = some n := by
  rw [Nat.toString_eq_ofList_toDigits, String.toList_ofList, natural?_toDigits]

/-- An integer `v` has an unsigned reading unless it has a sign. -/
theorem natural?_toString_int (v : Int) :
    natural? (toString v).toList = if 0 ≤ v then some v.toNat else none := by
  cases v with
  | ofNat n =>
    have positive : 0 ≤ Int.ofNat n := Int.natCast_nonneg n
    rw [if_pos positive, toList_toString_ofNat, natural?_toDigits]
    rfl
  | negSucc n =>
    rw [if_neg (Int.not_le.2 (Int.negSucc_lt_zero n)), toList_toString_negSucc]
    simp [natural?, decimal?]

/-- **An integer is read as it is written**, by `integer?`. -/
theorem integer?_toString (v : Int) : integer? (toString v).toList = some v := by
  cases v with
  | ofNat n =>
    rw [toList_toString_ofNat, integer?_toDigits]
    rfl
  | negSucc n =>
    rw [toList_toString_negSucc, integer?_neg_toDigits]
    rfl

/-- The text of an integer `v` is decimal, a sign in front included. -/
theorem isDecimal_toString (v : Int) : isDecimal (toString v).toList = true := by
  cases v with
  | ofNat n =>
    rw [toList_toString_ofNat]
    unfold isDecimal
    split
    · next digits written =>
      have sign : '-' ∈ Nat.toDigits 10 n := written ▸ List.mem_cons_self
      exact absurd (isDigit_toDigits sign) (by decide)
    · rw [decimal?_toDigits, Option.isSome_some]
  | negSucc n =>
    rw [toList_toString_negSucc, isDecimal, decimal?_toDigits, Option.isSome_some]

/-! ## Hexadecimal digits -/

/-- A digit `d` stands for its value and is neither a sign nor an underscore. -/
theorem digitChar_spec : ∀ d < 16, hexDigit? (Nat.digitChar d) = some d ∧
    Nat.digitChar d ≠ '_' ∧ Nat.digitChar d ≠ '+' := by decide

theorem exists_digit_of_mem_toDigits {n : Nat} {c : Char} (h : c ∈ Nat.toDigits 16 n) :
    ∃ d < 16, c = Nat.digitChar d := by
  induction n using Nat.strongRecOn with
  | ind n ih =>
    rw [Nat.toDigits_eq_if (by decide)] at h
    split at h
    · next small => exact ⟨n, small, List.mem_singleton.1 h⟩
    · next large =>
      rcases List.mem_append.1 h with front | last
      · exact ih (n / 16) (by omega) front
      · exact ⟨n % 16, by omega, List.mem_singleton.1 last⟩

/-- The digits that `Nat.toDigits` writes add up to the number `n`. -/
theorem foldlM_toDigits (n : Nat) : (Nat.toDigits 16 n).foldlM
    (fun n c => (hexDigit? c).map (16 * n + ·)) 0 = some n := by
  induction n using Nat.strongRecOn with
  | ind n ih =>
    rw [Nat.toDigits_eq_if (by decide)]
    split
    · next small => simp [(digitChar_spec n small).1]
    · next large =>
      have last : n % 16 < 16 := by omega
      have whole : 16 * (n / 16) + n % 16 = n := by omega
      simp [List.foldlM_append, ih (n / 16) (by omega), (digitChar_spec _ last).1, whole]

/-- **A number is read from its hexadecimal digits**, by `hexNatural?`. -/
theorem hexNatural?_toDigits (n : Nat) : hexNatural? (Nat.toDigits 16 n) = some n := by
  have plain : ∀ c ∈ Nat.toDigits 16 n, c ≠ '_' ∧ c ≠ '+' := by
    intro c hc
    obtain ⟨d, small, rfl⟩ := exists_digit_of_mem_toDigits hc
    exact (digitChar_spec d small).2
  have kept : (Nat.toDigits 16 n).filter (· ≠ '_') = Nat.toDigits 16 n :=
    List.filter_eq_self.2 fun c hc => decide_eq_true (plain c hc).1
  unfold hexNatural?
  split
  · next digits written => exact absurd rfl (plain '+' (written ▸ List.mem_cons_self)).2
  · unfold hexDigits?
    split
    · next empty => exact absurd empty Nat.toDigits_ne_nil
    · next digits written => exact absurd rfl (plain '_' (written ▸ List.mem_cons_self)).1
    · rw [kept, foldlM_toDigits]

end Numeral

/-! ## Elements -/

namespace Felt

theorem toList_hex (x : Felt) : x.hex.toList = '0' :: 'x' :: Nat.toDigits 16 x.val := by
  rw [hex, Numeral.hex, String.toList_ofList]

/-- The hexadecimal form of an element is meant as a number: `Felt.hex` begins
with `0x`. -/
theorem isNumeral_hex (x : Felt) : isNumeral x.hex = true := by
  rw [isNumeral, toList_hex]
  rfl

/-- **An element is read from its hexadecimal form**, as `Felt.parse` undoes
`Felt.hex`. -/
theorem parse_hex (x : Felt) : parse x.hex = .ok x := by
  rw [parse, toList_hex]
  simp only [Numeral.hexNatural?_toDigits, ofNat, ofNat?_val]

end Felt

end FeltWire
