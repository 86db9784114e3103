import FeltWire.Proofs.Felt.Programs
import FeltWire.Proofs.Numeral
import Mathlib.Data.Nat.Digits.Defs

/-!
# Which texts are numerals

A numeral is an optional `-` and decimal digits, or `0x` or `0X` and hexadecimal
digits. A text of this form is read as the element of the number that it
denotes, and a number that is not below the prime is refused as such.

## Why more than the numerals is read

Decimal characters are checked one by one before they are read. Hexadecimal ones
are left to the reader of digits, which takes a `+` in front of them and skips
underscores behind the first. So exactly the texts with such a sign or
underscore behind `0x` are read although they are no numerals.

## Main definitions

* `Numeral.Denotes`, `Numeral.DenotesLoosely`: digits denote a number, strictly
  or with a sign and underscores
* `Numeral.Spelled`, `Numeral.LooselySpelled`: the numerals, and the texts that
  are read like one
* `Felt.ReadsAsWritten`: a text is read as its form says

## Main results

* `Numeral.decimal?_eq_some_iff`, `Numeral.hexNatural?_eq_some_iff`: what the
  readers of digits accept
* `Felt.parse_of_spelled`, `Felt.parse_of_looselySpelled`,
  `Felt.parse_eq_mismatch`: what each form of text is read as
* `Felt.parse_toString`: an element is read from the decimal text of an integer
* `Felt.readsAsWritten_iff`: which texts are read as their form says
-/

namespace FeltWire

namespace Numeral

/-! ## Digits -/

/-- The character `c` is a digit of the `base` with the value `d`. Letters are
digits in either case. -/
def IsDigit (base : Nat) (c : Char) (d : Nat) : Prop :=
  d < base ∧ (c = Nat.digitChar d ∨ c = (Nat.digitChar d).toUpper)

/-- **Digits denote a number** `n`, the first of them the most significant.
There has to be one. -/
def Denotes (base : Nat) (chars : List Char) (n : Nat) : Prop :=
  chars ≠ [] ∧ ∃ digits, List.Forall₂ (IsDigit base) chars digits ∧
    Nat.ofDigits base digits.reverse = n

/-- Hexadecimal digits denote a number `n`, a `+` in front of them and
underscores behind the first one being skipped. -/
def DenotesLoosely (chars : List Char) (n : Nat) : Prop :=
  ∃ digits, (chars = digits ∨ chars = '+' :: digits) ∧ digits.head? ≠ some '_' ∧
    Denotes 16 (digits.filter (· ≠ '_')) n

/-- A character between two others is found by counting on from the first,
`low`. -/
theorem exists_ofNat_of_between {low high c : Char} (h : low ≤ c ∧ c ≤ high) :
    ∃ k, low.toNat + k ≤ high.toNat ∧ c.toNat = low.toNat + k ∧ c = Char.ofNat (low.toNat + k) := by
  simp only [Char.le_def, UInt32.le_iff_toNat_le, Char.toNat_val] at h
  have place : low.toNat + (c.toNat - low.toNat) = c.toNat := by omega
  exact ⟨c.toNat - low.toNat, by omega, by omega, by rw [place, Char.ofNat_toNat]⟩

theorem digitChar_of_lt_ten : ∀ k < 10, Char.ofNat ('0'.toNat + k) = Nat.digitChar k := by decide

theorem digitChar_of_lt_six : ∀ k < 6, Char.ofNat ('a'.toNat + k) = Nat.digitChar (k + 10) ∧
    Char.ofNat ('A'.toNat + k) = (Nat.digitChar (k + 10)).toUpper := by decide

theorem hexDigit?_digitChar : ∀ d < 16, hexDigit? (Nat.digitChar d) = some d ∧
    hexDigit? (Nat.digitChar d).toUpper = some d := by decide

/-- **Hexadecimal digits** are those of base sixteen: `hexDigit?` decides
`IsDigit 16`. -/
theorem hexDigit?_eq_some_iff {c : Char} {d : Nat} : hexDigit? c = some d ↔ IsDigit 16 c d := by
  constructor
  · intro h
    unfold hexDigit? at h
    split at h
    · next between =>
      obtain ⟨k, bound, place, counted⟩ := exists_ofNat_of_between between
      have small : k < 10 := Nat.lt_succ_of_le (Nat.le_of_add_le_add_left bound)
      obtain rfl : k = d := by simpa [place] using h
      exact ⟨by omega, .inl (counted.trans (digitChar_of_lt_ten k small))⟩
    split at h
    · next between =>
      obtain ⟨k, bound, place, counted⟩ := exists_ofNat_of_between between
      have small : k < 6 := Nat.lt_succ_of_le (Nat.le_of_add_le_add_left bound)
      obtain rfl : k + 10 = d := by simpa [place] using h
      exact ⟨by omega, .inl (counted.trans (digitChar_of_lt_six k small).1)⟩
    split at h
    · next between =>
      obtain ⟨k, bound, place, counted⟩ := exists_ofNat_of_between between
      have small : k < 6 := Nat.lt_succ_of_le (Nat.le_of_add_le_add_left bound)
      obtain rfl : k + 10 = d := by simpa [place] using h
      exact ⟨by omega, .inr (counted.trans (digitChar_of_lt_six k small).2)⟩
    · cases h
  · rintro ⟨small, rfl | rfl⟩
    · exact (hexDigit?_digitChar d small).1
    · exact (hexDigit?_digitChar d small).2

theorem isDigit_digitChar : ∀ d < 10, (Nat.digitChar d).isDigit = true ∧
    (Nat.digitChar d).toUpper = Nat.digitChar d ∧
      (Nat.digitChar d).toNat - '0'.toNat = d := by decide

/-- **Decimal digits** are those of base ten: `Char.isDigit` decides
`IsDigit 10`. -/
theorem isDigit_ten_iff {c : Char} {d : Nat} :
    IsDigit 10 c d ↔ c.isDigit = true ∧ c.toNat - '0'.toNat = d := by
  constructor
  · rintro ⟨small, same⟩
    obtain ⟨digit, upper, value⟩ := isDigit_digitChar d small
    obtain rfl : c = Nat.digitChar d := same.elim id fun other => other.trans upper
    exact ⟨digit, value⟩
  · rintro ⟨digit, rfl⟩
    have between : '0' ≤ c ∧ c ≤ '9' := by simpa [Char.isDigit, Char.le_def] using digit
    obtain ⟨k, bound, place, counted⟩ := exists_ofNat_of_between between
    have small : k < 10 := Nat.lt_succ_of_le (Nat.le_of_add_le_add_left bound)
    have value : c.toNat - '0'.toNat = k := by omega
    rw [value]
    exact ⟨small, .inl (counted.trans (digitChar_of_lt_ten k small))⟩

/-! ## Runs of digits -/

theorem Denotes.exists_digit {base : Nat} {chars : List Char} {n : Nat} (h : Denotes base chars n)
    {c : Char} (hc : c ∈ chars) : ∃ d, IsDigit base c d := by
  obtain ⟨-, digits, each, -⟩ := h
  obtain ⟨i, bound, rfl⟩ := List.getElem_of_mem hc
  exact ⟨_, each.get bound (each.length_eq ▸ bound)⟩

/-- Hexadecimal digits are neither signs nor underscores, nor any other `c` that
`hexDigit?` refuses. -/
theorem Denotes.not_mem_of_hexDigit? {chars : List Char} {n : Nat} (h : Denotes 16 chars n)
    {c : Char} (other : hexDigit? c = none) : c ∉ chars := by
  intro hc
  obtain ⟨d, digit⟩ := h.exists_digit hc
  rw [hexDigit?_eq_some_iff.2 digit] at other
  cases other

/-- Decimal digits are neither signs nor letters, nor any other `c` that
`Char.isDigit` refuses. -/
theorem Denotes.not_mem_of_isDigit {chars : List Char} {n : Nat} (h : Denotes 10 chars n)
    {c : Char} (other : c.isDigit = false) : c ∉ chars := by
  intro hc
  obtain ⟨d, digit⟩ := h.exists_digit hc
  rw [(isDigit_ten_iff.1 digit).1] at other
  cases other

/-- The number that digits denote is found from the first digit on, where
`Nat.ofDigits` begins with the last. -/
theorem ofDigits_reverse (base : Nat) (digits : List Nat) :
    Nat.ofDigits base digits.reverse = digits.foldl (fun n d => base * n + d) 0 := by
  rw [Nat.ofDigits_eq_foldr, List.foldr_reverse]
  simp only [Nat.cast_id, Nat.add_comm]

/-- **Decimal digits** denote what they are read as by `decimal?`. -/
theorem decimal?_eq_some_iff {chars : List Char} {n : Nat} :
    decimal? chars = some n ↔ Denotes 10 chars n := by
  have each (digits : List Nat) : List.Forall₂ (IsDigit 10) chars digits ↔
      (∀ c ∈ chars, c.isDigit = true) ∧ chars.map (fun c => c.toNat - '0'.toNat) = digits := by
    have separate : IsDigit 10 = fun c d => c.isDigit = true ∧ c.toNat - '0'.toNat = d := by
      ext c d
      exact isDigit_ten_iff
    rw [separate, List.forall₂_and_left, ← List.forall₂_map_left_iff (R := Eq),
      List.forall₂_eq_eq_eq]
  have value : Nat.ofDigits 10 (chars.map fun c => c.toNat - '0'.toNat).reverse =
      Nat.ofDigitChars 10 chars 0 := by
    rw [ofDigits_reverse, List.foldl_map]
    rfl
  unfold decimal? Denotes
  simp only [each, List.all_eq_true]
  constructor
  · intro h
    split at h
    · next digits =>
      exact ⟨digits.1, _, ⟨digits.2, rfl⟩, value.trans (Option.some.inj h)⟩
    · cases h
  · rintro ⟨nonempty, _, ⟨digits, rfl⟩, rfl⟩
    rw [if_pos ⟨nonempty, digits⟩, value]

theorem denotes_toDigits (n : Nat) : Denotes 10 (Nat.toDigits 10 n) n :=
  decimal?_eq_some_iff.1 (decimal?_toDigits n)

/-- Digits that are read one after another are read as a number exactly if each
is a digit; `start` is the number of those before. -/
theorem foldlM_hexDigit?_eq_some_iff {chars : List Char} {start n : Nat} :
    chars.foldlM (fun n c => (hexDigit? c).map (16 * n + ·)) start = some n ↔
      ∃ digits, List.Forall₂ (IsDigit 16) chars digits ∧
        digits.foldl (fun n d => 16 * n + d) start = n := by
  induction chars generalizing start with
  | nil => simp
  | cons c chars ih =>
    rw [List.foldlM_cons]
    constructor
    · intro h
      obtain ⟨next, head, tail⟩ := Option.bind_eq_some_iff.1 h
      obtain ⟨d, digit, rfl⟩ := Option.map_eq_some_iff.1 head
      obtain ⟨digits, each, value⟩ := ih.1 tail
      exact ⟨d :: digits, .cons (hexDigit?_eq_some_iff.1 digit) each, value⟩
    · rintro ⟨_, _ | ⟨digit, each⟩, value⟩
      next d digits =>
      refine Option.bind_eq_some_iff.2 ⟨16 * start + d, ?_, ih.2 ⟨digits, each, value⟩⟩
      rw [hexDigit?_eq_some_iff.2 digit, Option.map_some]

/-- Hexadecimal digits, with underscores behind the first, denote what they are
read as by `hexDigits?`. -/
theorem hexDigits?_eq_some_iff {chars : List Char} {n : Nat} :
    hexDigits? chars = some n ↔ chars.head? ≠ some '_' ∧ Denotes 16 (chars.filter (· ≠ '_')) n := by
  unfold hexDigits? Denotes
  simp only [ofDigits_reverse, ← foldlM_hexDigit?_eq_some_iff]
  split
  · simp
  · simp
  · next nonempty clean =>
    rcases chars with _ | ⟨c, chars⟩
    · exact absurd rfl nonempty
    · have first : c ≠ '_' := fun h => clean chars (h ▸ rfl)
      simp [first]

/-- **Hexadecimal digits**, loosely written, denote what they are read as by
`hexNatural?`. The first character is no underscore, so that it is left when
these are taken out. -/
theorem hexNatural?_eq_some_iff {chars : List Char} {n : Nat} :
    hexNatural? chars = some n ↔ DenotesLoosely chars n := by
  unfold hexNatural?
  split
  · next digits =>
    rw [hexDigits?_eq_some_iff]
    constructor
    · rintro ⟨first, denoted⟩
      exact ⟨digits, .inr rfl, first, denoted⟩
    · rintro ⟨_, rfl | h, first, denoted⟩
      -- a second sign is no digit
      · exact absurd (by simp) (denoted.not_mem_of_hexDigit? (c := '+') rfl)
      · obtain rfl := (List.cons.inj h).2
        exact ⟨first, denoted⟩
  · next unsigned =>
    rw [hexDigits?_eq_some_iff]
    constructor
    · rintro ⟨first, denoted⟩
      exact ⟨chars, .inl rfl, first, denoted⟩
    · rintro ⟨digits, rfl | rfl, first, denoted⟩
      · exact ⟨first, denoted⟩
      · exact absurd rfl (unsigned digits)

/-- Without underscores (`clean`) none are skipped. -/
theorem filter_underscores {chars : List Char} (clean : '_' ∉ chars) :
    chars.filter (· ≠ '_') = chars :=
  List.filter_eq_self.2 fun _ hc => decide_eq_true fun same => clean (same ▸ hc)

theorem Denotes.loosely {chars : List Char} {n : Nat} (h : Denotes 16 chars n) :
    DenotesLoosely chars n := by
  have clean : '_' ∉ chars := h.not_mem_of_hexDigit? rfl
  refine ⟨chars, .inl rfl, fun first => clean (List.mem_of_head? first), ?_⟩
  rwa [filter_underscores clean]

/-- Without signs and underscores nothing is loose: `DenotesLoosely` is then
`Denotes`. -/
theorem DenotesLoosely.strictly {chars : List Char} {n : Nat} (h : DenotesLoosely chars n)
    (unsigned : '+' ∉ chars) (clean : '_' ∉ chars) : Denotes 16 chars n := by
  obtain ⟨_, rfl | rfl, -, denoted⟩ := h
  · rwa [filter_underscores clean] at denoted
  · exact absurd List.mem_cons_self unsigned

/-! ## Numerals -/

/-- **A numeral**, with its sign and the number that its digits denote. Unlike
`LooselySpelled` it has only the sign of `negative`. -/
inductive Spelled : List Char → Bool → Nat → Prop
  | decimal {digits : List Char} {n : Nat} (denoted : Denotes 10 digits n) :
      Spelled digits false n
  | negative {digits : List Char} {n : Nat} (denoted : Denotes 10 digits n) :
      Spelled ('-' :: digits) true n
  | hexadecimal {marker : Char} {digits : List Char} {n : Nat}
      (marked : marker = 'x' ∨ marker = 'X')
      (denoted : Denotes 16 digits n) : Spelled ('0' :: marker :: digits) false n

/-- **A text that is no numeral but for its `+` or its underscores**, with the
number that the digits denote. -/
inductive LooselySpelled : List Char → Nat → Prop
  | hexadecimal {marker : Char} {digits : List Char} {n : Nat}
      (marked : marker = 'x' ∨ marker = 'X')
      (denoted : DenotesLoosely digits n) (stray : '+' ∈ digits ∨ '_' ∈ digits) :
      LooselySpelled ('0' :: marker :: digits) n

/-- What is `LooselySpelled` is no numeral, whatever sign and number. -/
theorem LooselySpelled.not_spelled {chars : List Char} {n m : Nat} {negative : Bool}
    (h : LooselySpelled chars n) : ¬ Spelled chars negative m := by
  rcases h with @⟨marker, digits, _, marked, -, stray⟩
  have letter : marker.isDigit = false := by rcases marked with rfl | rfl <;> rfl
  rintro (denoted | _ | ⟨-, denoted⟩)
  · exact denoted.not_mem_of_isDigit letter (by simp)
  · exact stray.elim (denoted.not_mem_of_hexDigit? rfl) (denoted.not_mem_of_hexDigit? rfl)

end Numeral

namespace Felt

open Numeral

variable {s : String} {digits : List Char} {n : Nat}

/-! ## What texts are read as -/

theorem parse_of_decimal (denoted : Denotes 10 s.toList n) : parse s = ofNat n := by
  have read := decimal?_eq_some_iff.2 denoted
  unfold parse
  split
  · next written => exact absurd (by simp [written]) (denoted.not_mem_of_isDigit (c := 'x') rfl)
  · next written => exact absurd (by simp [written]) (denoted.not_mem_of_isDigit (c := 'X') rfl)
  · next written => exact absurd (by simp [written]) (denoted.not_mem_of_isDigit (c := '-') rfl)
  · rw [read]

theorem parse_of_negative (written : s.toList = '-' :: digits) (denoted : Denotes 10 digits n) :
    parse s = (ofNat n).map (-·) := by
  have read := decimal?_eq_some_iff.2 denoted
  unfold parse
  rw [written]
  simp only [read]

theorem parse_of_hexadecimal {marker : Char} (written : s.toList = '0' :: marker :: digits)
    (marked : marker = 'x' ∨ marker = 'X') (denoted : DenotesLoosely digits n) :
    parse s = ofNat n := by
  have read := hexNatural?_eq_some_iff.2 denoted
  unfold parse
  rw [written]
  rcases marked with rfl | rfl
  · simp only [read]
  · simp only [read]

/-- Texts of no form are refused as they stand: behind a marker, whatever is
read is spelled in one of the two ways, `Spelled` or `LooselySpelled`. -/
theorem parse_eq_mismatch (strict : ∀ negative n, ¬ Spelled s.toList negative n)
    (loose : ∀ n, ¬ LooselySpelled s.toList n) : parse s = .error (.mismatch (.numeral s)) := by
  have marked {marker : Char} {digits : List Char} (written : s.toList = '0' :: marker :: digits)
      (hm : marker = 'x' ∨ marker = 'X') : hexNatural? digits = none := by
    refine Option.eq_none_iff_forall_ne_some.2 fun n read => ?_
    have denoted := hexNatural?_eq_some_iff.1 read
    by_cases stray : '+' ∈ digits ∨ '_' ∈ digits
    · exact loose n (written ▸ .hexadecimal hm denoted stray)
    · obtain ⟨unsigned, clean⟩ := not_or.1 stray
      exact strict false n (written ▸ .hexadecimal hm (denoted.strictly unsigned clean))
  unfold parse
  split
  · next digits written => rw [marked written (.inl rfl)]
  · next digits written => rw [marked written (.inr rfl)]
  · next digits written =>
    have none_read : decimal? digits = none :=
      Option.eq_none_iff_forall_ne_some.2 fun n read =>
        strict true n (written ▸ .negative (decimal?_eq_some_iff.1 read))
    rw [none_read]
    rfl
  · have none_read : decimal? s.toList = none :=
      Option.eq_none_iff_forall_ne_some.2 fun n read =>
        strict false n (.decimal (decimal?_eq_some_iff.1 read))
    rw [none_read]

/-- **A numeral** is read as the element of its number by `ofNat`, negated
behind a `-`. -/
theorem parse_of_spelled {negative : Bool} (h : Spelled s.toList negative n) :
    parse s = (ofNat n).map fun x => if negative then -x else x := by
  have same (r : Except Fault Felt) : r = r.map fun x => x := by cases r <;> rfl
  generalize chars : s.toList = text at h
  cases h with
  | decimal denoted => exact (parse_of_decimal (chars.symm ▸ denoted)).trans (same _)
  | negative denoted => exact parse_of_negative chars denoted
  | hexadecimal marked denoted =>
    exact (parse_of_hexadecimal chars marked denoted.loosely).trans (same _)

/-- What is `LooselySpelled` is read as the element of its number by `ofNat`. -/
theorem parse_of_looselySpelled (h : LooselySpelled s.toList n) : parse s = ofNat n := by
  generalize chars : s.toList = text at h
  rcases h with ⟨marked, denoted, -⟩
  exact parse_of_hexadecimal chars marked denoted

/-- A number `n` below the `prime` is its own residue. -/
theorem ofNat_eq_reduce (small : n < prime) : ofNat n = .ok (reduce n) :=
  (ofNat_of_lt small).trans (congrArg Except.ok (Felt.ext (val_reduce_of_lt small).symm))

/-- The text of an integer `v` is meant as a number. -/
theorem isNumeral_toString (v : Int) : isNumeral (toString v) = true := by
  unfold isNumeral
  split
  · rfl
  · rfl
  · exact isDecimal_toString v

/-- **An element is read from the decimal text of an integer** `v` that is below
the `prime` in absolute value. -/
theorem parse_toString {v : Int} (small : v.natAbs < prime) :
    parse (toString v) = .ok (ofInt v) := by
  cases v with
  | ofNat n =>
    have denoted : Denotes 10 (toString (Int.ofNat n)).toList n :=
      toList_toString_ofNat n ▸ denotes_toDigits n
    have below : n < prime := small
    rw [parse_of_decimal denoted, ofNat_eq_reduce below, ← ofInt_natCast]
    rfl
  | negSucc n =>
    have below : n + 1 < prime := small
    rw [parse_of_negative (toList_toString_negSucc n) (denotes_toDigits _),
      ofNat_eq_reduce below, ofInt_negSucc]
    rfl

/-- **A text is read as its form says.** A numeral below the `prime` is read as
the element of its number, one that is not below it is out of the field, and any
other text is refused. -/
structure ReadsAsWritten (s : String) : Prop where
  accepts : ∀ x, parse s = .ok x ↔ ∃ negative n, Spelled s.toList negative n ∧ n < prime ∧
    x.val = if negative = true ∧ n ≠ 0 then prime - n else n
  large : ∀ negative n, Spelled s.toList negative n → prime ≤ n →
    parse s = .error (.fieldRange n)
  refuses : (∀ negative n, ¬ Spelled s.toList negative n) →
    parse s = .error (.mismatch (.numeral s))

/-- The element of a number `n`, or its negation. -/
theorem val_signed (negative : Bool) (small : n < prime) :
    (if negative = true then -⟨n, small⟩ else (⟨n, small⟩ : Felt)).val =
      if negative = true ∧ n ≠ 0 then prime - n else n := by
  cases negative with
  | false => simp
  | true => by_cases zero : n = 0 <;> simp [val_neg_eq, zero]

/-- Numerals are read as their form says, by `parse_of_spelled`. -/
theorem readsAsWritten_of_spelled {negative : Bool} (h : Spelled s.toList negative n) :
    ReadsAsWritten s := by
  refine ⟨fun x => ⟨fun read => ?_, ?_⟩, fun negative n form large => ?_,
    fun strict => absurd h (strict _ _)⟩
  · rw [parse_of_spelled h] at read
    by_cases small : n < prime
    · rw [ofNat_of_lt small] at read
      cases read
      exact ⟨negative, n, h, small, val_signed negative small⟩
    · rw [ofNat_of_le (Nat.le_of_not_lt small)] at read
      cases read
  · rintro ⟨negative, n, form, small, value⟩
    rw [parse_of_spelled form, ofNat_of_lt small]
    exact congrArg Except.ok (Felt.ext ((val_signed negative small).trans value.symm))
  · rw [parse_of_spelled form, ofNat_of_le large]
    rfl

/-- **Texts are read as their form says** (`ReadsAsWritten`), those excepted
that are `LooselySpelled`. These are no numerals, and are read as if they had
neither the sign nor the underscores. -/
theorem readsAsWritten_iff (s : String) :
    (ReadsAsWritten s ↔ ¬ ∃ n, LooselySpelled s.toList n) ∧
    ∀ n, LooselySpelled s.toList n → parse s = ofNat n := by
  refine ⟨⟨?_, fun strict => ?_⟩, fun n h => parse_of_looselySpelled h⟩
  · rintro reads ⟨n, loose⟩
    have refused := reads.refuses fun negative m => loose.not_spelled
    rw [parse_of_looselySpelled loose, ofNat] at refused
    split at refused <;> cases refused
  · by_cases form : ∃ negative n, Spelled s.toList negative n
    · obtain ⟨negative, n, form⟩ := form
      exact readsAsWritten_of_spelled form
    · have refused := parse_eq_mismatch (fun negative n h => form ⟨negative, n, h⟩)
        fun n h => strict ⟨n, h⟩
      refine ⟨fun x => ⟨fun read => ?_, ?_⟩, fun negative n h => absurd ⟨negative, n, h⟩ form,
        fun _ => refused⟩
      · rw [refused] at read
        cases read
      · rintro ⟨negative, n, h, -⟩
        exact absurd ⟨negative, n, h⟩ form

/-- A text with an underscore, and a numeral with a sign that belongs to it. -/
theorem readsAsWritten_iff_underscore :
    LooselySpelled "0X1_0".toList 16 ∧ parse "0X1_0" = ofNat 16 ∧ ¬ ReadsAsWritten "0X1_0" ∧
      ReadsAsWritten "-60" := by
  have denoted : DenotesLoosely "1_0".toList 16 := hexNatural?_eq_some_iff.1 rfl
  have loose : LooselySpelled "0X1_0".toList 16 :=
    .hexadecimal (.inr rfl) denoted (.inr (by decide))
  have strict : ¬ ∃ n, LooselySpelled "-60".toList n := by
    rintro ⟨n, h⟩
    generalize chars : "-60".toList = text at h
    rcases h with ⟨⟩
    cases chars
  obtain ⟨meets, read⟩ := readsAsWritten_iff "0X1_0"
  exact ⟨loose, read 16 loose, fun h => meets.1 h ⟨16, loose⟩,
    (readsAsWritten_iff "-60").1.2 strict⟩

/-- A sign behind `0x` is read over by `parse`, although the text is no
numeral. -/
theorem sign_read_over :
    parse "0x+1" = .ok (reduce 1) ∧ ¬ ReadsAsWritten "0x+1" := by
  have read : parse "0x+1" = .ok (reduce 1) := by decide +kernel
  have loose : LooselySpelled "0x+1".toList 1 :=
    .hexadecimal (.inl rfl) (hexNatural?_eq_some_iff.1 rfl) (.inl List.mem_cons_self)
  refine ⟨read, fun reads => ?_⟩
  obtain ⟨negative, n, form, -⟩ := (reads.accepts _).1 read
  exact loose.not_spelled form

end Felt

end FeltWire
