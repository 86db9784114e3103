import FeltWire.Felt.Text
import FeltWire.Proofs.Felt.Primality
import FeltWire.Proofs.Reader.Exact

/-!
# Programs of field operations

A program makes elements, from numbers, words and texts, and computes with the
elements it has made. It can be run over the elements and over the integers. The
elements of the one run are the residues of the integers of the other, however
long the program is and however often it uses a result: every way to make an
element and every operation on elements gives the residue below the prime.

## Main definitions

* `Source`: the ways to make an element
* `Source.element?`, `Source.integer?`: the element that is made, and the
  integer it is made for
* `IsResidue`: an element is the residue of an integer
* `Instruction`, `run`: programs, over anything that can be computed with

## Main results

* `IsResidue.add`, `IsResidue.sub`, `IsResidue.mul`, `IsResidue.neg`: the
  operations keep residues
* `Source.rel_element?`: an element is made for its integer, or both are refused
* `forall₂_perform`, `forall₂_run`: what one instruction keeps, and what a whole
  run keeps
* `ofBytes_eq_error_iff`, `exists_ofBytes`: which words are elements
* `canonical_residues`: elements are canonical residues, in programs and on the
  wire
-/

namespace FeltWire.Felt

/-! ## Making elements -/

/-- **A way to make an element**, with what it is made of. -/
inductive Source where
  /-- A number that has to be below the `prime`. -/
  | number (n : Nat)
  /-- The residue of a number of any size. -/
  | residue (n : Nat)
  /-- The bytes of a word. -/
  | word (bytes : List UInt8)
  /-- A text whose bytes are the digits. -/
  | shortText (s : String)
  /-- A decimal or hexadecimal number. -/
  | numeral (s : String)
  /-- An integer, as programs hold it. -/
  | integer (v : Int)
  /-- A truth value. -/
  | bool (b : Bool)
deriving DecidableEq, Repr

namespace Source

/-- The element that is made, unless it is refused; each source has its function
in `Felt`. -/
def element? : Source → Option Felt
  | number n => (ofNat n).toOption
  | residue n => some (reduce n)
  | word bytes => (ofBytes bytes).toOption
  | shortText s => (ofShortText s).toOption
  | numeral s => (parse s).toOption
  | integer v => some (ofInt v)
  | bool b => some (ofBool b)

/-- The integer that a numeral denotes: decimal digits, which a `-` in front
negates, or hexadecimal digits behind `0x` or `0X` (`hexNatural?`). -/
def denoted? (s : String) : Option Int :=
  let positive (number : Option Nat) : Option Int := number.map fun n : Nat => (n : Int)
  let negative (number : Option Nat) : Option Int := number.map fun n : Nat => -(n : Int)
  match s.toList with
  | '-' :: digits => negative (Numeral.decimal? digits)
  | '0' :: 'x' :: digits => positive (Numeral.hexNatural? digits)
  | '0' :: 'X' :: digits => positive (Numeral.hexNatural? digits)
  | digits => positive (Numeral.decimal? digits)

/-- The integer that an element is made for. Numbers, words and numerals
have to be below the `prime` in absolute value, and texts have to have at
most 31 bytes. -/
def integer? : Source → Option Int
  | number n => if n < prime then some n else none
  | residue n => some n
  | word bytes => if BigEndian.decode bytes < prime then some (BigEndian.decode bytes) else none
  | shortText s =>
    if s.toUTF8.toList.length ≤ 31 then some (BigEndian.decode s.toUTF8.toList) else none
  | numeral s => (denoted? s).filter (·.natAbs < prime)
  | integer v => some v
  | bool b => some (if b then 1 else 0)

end Source

/-! ## Residues -/

/-- The element `x` is the residue of the integer `v`. -/
def IsResidue (x : Felt) (v : Int) : Prop := (x.val : Int) = v % prime

namespace IsResidue

variable {x y : Felt} {v w : Int}

theorem zero : IsResidue 0 0 := rfl

theorem reduce (n : Nat) : IsResidue (reduce n) n := Int.natCast_emod n prime

theorem add (hx : IsResidue x v) (hy : IsResidue y w) : IsResidue (x + y) (v + w) := by
  unfold IsResidue at *
  rw [val_add, Int.natCast_emod, Int.natCast_add, hx, hy, ← Int.add_emod]

theorem mul (hx : IsResidue x v) (hy : IsResidue y w) : IsResidue (x * y) (v * w) := by
  unfold IsResidue at *
  rw [val_mul, Int.natCast_emod, Int.natCast_mul, hx, hy, ← Int.mul_emod]

/-- The `prime` that is added first is no more than a detour: the difference is
that of the integers. -/
theorem sub (hx : IsResidue x v) (hy : IsResidue y w) : IsResidue (x - y) (v - w) := by
  have low := y.val_lt
  have detour : ((x.val + prime - y.val : Nat) : Int) = x.val - y.val + prime := by omega
  unfold IsResidue at *
  rw [val_sub, Int.natCast_emod, detour, Int.add_emod_right, hx, hy, ← Int.sub_emod]

theorem neg (hx : IsResidue x v) : IsResidue (-x) (-v) := by
  have low := x.val_lt
  have detour : ((prime - x.val : Nat) : Int) = 0 - x.val + prime := by omega
  unfold IsResidue at *
  rw [val_neg, Int.natCast_emod, detour, Int.add_emod_right, hx, Int.sub_emod, Int.emod_emod,
    ← Int.sub_emod, Int.zero_sub]

theorem ofInt (v : Int) : IsResidue (ofInt v) v := by
  cases v with
  | ofNat n => exact ofInt_natCast n ▸ reduce n
  | negSucc n => exact ofInt_negSucc n ▸ (reduce (n + 1)).neg

theorem ofBool (b : Bool) : IsResidue (ofBool b) (if b then 1 else 0) := by
  cases b <;> rfl

end IsResidue

/-! ## Elements are made for their integers -/

theorem ofNat_of_lt {n : Nat} (h : n < prime) : ofNat n = .ok ⟨n, h⟩ := by
  rw [ofNat, ofNat?, dif_pos h]

theorem ofNat_of_le {n : Nat} (h : prime ≤ n) : ofNat n = .error (.fieldRange n) := by
  rw [ofNat, ofNat?_eq_none_iff.2 h]

theorem isResidue_of_lt {n : Nat} (h : n < prime) : IsResidue ⟨n, h⟩ n :=
  (Int.emod_eq_of_lt (Int.natCast_nonneg n) (Int.ofNat_lt.2 h)).symm

/-- A number is an element if it is below the `prime`, and is refused
otherwise. -/
theorem rel_ofNat (n : Nat) :
    Option.Rel IsResidue (ofNat n).toOption (if n < prime then some (n : Int) else none) := by
  by_cases small : n < prime
  · rw [ofNat_of_lt small, if_pos small]
    exact .some (isResidue_of_lt small)
  · rw [ofNat_of_le (Nat.le_of_not_lt small), if_neg small]
    exact .none

/-- The same behind a sign as in `rel_ofNat`: the element is the negation. -/
theorem rel_neg_ofNat (n : Nat) :
    Option.Rel IsResidue ((ofNat n).map (-·)).toOption
      (if n < prime then some (-(n : Int)) else none) := by
  by_cases small : n < prime
  · rw [ofNat_of_lt small, if_pos small]
    exact .some (isResidue_of_lt small).neg
  · rw [ofNat_of_le (Nat.le_of_not_lt small), if_neg small]
    exact .none

/-- The digits of a text are below the `prime` if they are few enough. -/
theorem rel_ofShortText (s : String) :
    Option.Rel IsResidue (ofShortText s).toOption
      (if s.toUTF8.toList.length ≤ 31 then some (BigEndian.decode s.toUTF8.toList : Int)
        else none) := by
  by_cases short : s.toUTF8.toList.length ≤ 31
  · have made : ofShortText s = .ok (ofChunk s.toUTF8.toList short) := dif_pos short
    rw [made, if_pos short]
    exact .some (isResidue_of_lt (ofChunk s.toUTF8.toList short).val_lt)
  · have refused : ofShortText s = .error (.mismatch (.shortText s.toUTF8.toList.length)) :=
      dif_neg short
    rw [refused, if_neg short]
    exact .none

/-- A text is read by `parse` as the residue of the integer that it denotes.
Without a marker or a sign in front, all its characters are digits. -/
theorem rel_parse (s : String) :
    Option.Rel IsResidue (parse s).toOption ((Source.denoted? s).filter (·.natAbs < prime)) := by
  have positive (n : Nat) : Option.Rel IsResidue (ofNat n).toOption
      ((some (n : Int)).filter (·.natAbs < prime)) := by
    simpa [Option.filter_some] using rel_ofNat n
  have negative (n : Nat) : Option.Rel IsResidue ((ofNat n).map (-·)).toOption
      ((some (-(n : Int))).filter (·.natAbs < prime)) := by
    simpa [Option.filter_some] using rel_neg_ofNat n
  unfold parse
  split
  · next digits written =>
    have denoted : Source.denoted? s = (Numeral.hexNatural? digits).map Nat.cast := by
      rw [Source.denoted?, written]
      rfl
    rw [denoted]
    cases Numeral.hexNatural? digits with
    | none => exact .none
    | some n => exact positive n
  · next digits written =>
    have denoted : Source.denoted? s = (Numeral.hexNatural? digits).map Nat.cast := by
      rw [Source.denoted?, written]
      rfl
    rw [denoted]
    cases Numeral.hexNatural? digits with
    | none => exact .none
    | some n => exact positive n
  · next digits written =>
    have denoted : Source.denoted? s = (Numeral.decimal? digits).map fun n : Nat => -(n : Int) := by
      rw [Source.denoted?, written]
      rfl
    rw [denoted]
    cases Numeral.decimal? digits with
    | none => exact .none
    | some n => exact negative n
  · next lower upper minus =>
    have denoted : Source.denoted? s = (Numeral.decimal? s.toList).map Nat.cast := by
      unfold Source.denoted?
      split
      · next written => exact absurd written (minus _)
      · next written => exact absurd written (lower _)
      · next written => exact absurd written (upper _)
      · rfl
    rw [denoted]
    cases Numeral.decimal? s.toList with
    | none => exact .none
    | some n => exact positive n

/-- **An element is made for its integer**, and none is made where the integer
is refused: `element?` and `integer?` are related by `IsResidue`. -/
theorem Source.rel_element? (source : Source) :
    Option.Rel IsResidue source.element? source.integer? := by
  cases source with
  | number n => exact rel_ofNat n
  | residue n => exact .some (.reduce n)
  | word bytes => exact rel_ofNat _
  | shortText s => exact rel_ofShortText s
  | numeral s => exact rel_parse s
  | integer v => exact .some (.ofInt v)
  | bool b => exact .some (.ofBool b)

/-! ## Programs -/

/-- **An instruction** makes an element or computes with results of earlier
instructions, which are counted from the first. Where there is no such result it
computes with zero. -/
inductive Instruction where
  | make (source : Source)
  | add (i j : Nat)
  | sub (i j : Nat)
  | mul (i j : Nat)
  | neg (i : Nat)
deriving DecidableEq, Repr

section
variable {R : Type} [Zero R] [Add R] [Sub R] [Mul R] [Neg R]

/-- The `results` after an instruction. Where a source is refused nothing is
added to them. -/
def perform (value? : Source → Option R) (results : List R) : Instruction → List R
  | .make source => results ++ (value? source).toList
  | .add i j => results ++ [results.getD i 0 + results.getD j 0]
  | .sub i j => results ++ [results.getD i 0 - results.getD j 0]
  | .mul i j => results ++ [results.getD i 0 * results.getD j 0]
  | .neg i => results ++ [-results.getD i 0]

/-- **All results of a `program`**, in the order in which they are found, over
the elements or over the integers as `value?` has it. -/
def run (value? : Source → Option R) (program : List Instruction) : List R :=
  program.foldl (perform value?) []

end

/-- What is made on one side is made on the other, so that lists of results stay
in step. -/
theorem forall₂_toList {x? : Option Felt} {v? : Option Int} (h : Option.Rel IsResidue x? v?) :
    List.Forall₂ IsResidue x?.toList v?.toList := by
  cases h with
  | some hx => exact .cons hx .nil
  | none => exact .nil

/-- A result that is missing on one side is missing on the other, and zero is
the residue of zero. -/
theorem isResidue_getD {xs : List Felt} {vs : List Int} (h : List.Forall₂ IsResidue xs vs)
    (i : Nat) : IsResidue (xs.getD i 0) (vs.getD i 0) := by
  induction h generalizing i with
  | nil => exact .zero
  | cons head tail ih =>
    cases i with
    | zero => exact head
    | succ i => exact ih i

/-- **What one `instruction` keeps**: the elements found so far are the residues
of the integers. -/
theorem forall₂_perform {xs : List Felt} {vs : List Int} (h : List.Forall₂ IsResidue xs vs)
    (instruction : Instruction) :
    List.Forall₂ IsResidue (perform Source.element? xs instruction)
      (perform Source.integer? vs instruction) := by
  have result {x : Felt} {v : Int} (hx : IsResidue x v) :
      List.Forall₂ IsResidue (xs ++ [x]) (vs ++ [v]) := List.rel_append h (.cons hx .nil)
  cases instruction with
  | make source => exact List.rel_append h (forall₂_toList source.rel_element?)
  | add i j => exact result ((isResidue_getD h i).add (isResidue_getD h j))
  | sub i j => exact result ((isResidue_getD h i).sub (isResidue_getD h j))
  | mul i j => exact result ((isResidue_getD h i).mul (isResidue_getD h j))
  | neg i => exact result (isResidue_getD h i).neg

/-- **What a whole run keeps**, by induction on the `program`: its elements are
the residues of its integers. -/
theorem forall₂_run (program : List Instruction) :
    List.Forall₂ IsResidue (run Source.element? program) (run Source.integer? program) := by
  suffices from_any : ∀ xs vs, List.Forall₂ IsResidue xs vs →
      List.Forall₂ IsResidue (program.foldl (perform Source.element?) xs)
        (program.foldl (perform Source.integer?) vs) from from_any [] [] .nil
  induction program with
  | nil => exact fun xs vs h => h
  | cons instruction program ih =>
    intro xs vs h
    exact ih _ _ (forall₂_perform h instruction)

/-! ## Words -/

/-- A word that is no element is one that is not below the `prime`, and
`fieldRange` shows its number. -/
theorem ofBytes_eq_error_iff (bytes : List UInt8) :
    ofBytes bytes = .error (.fieldRange (BigEndian.decode bytes)) ↔
      prime ≤ BigEndian.decode bytes := by
  constructor
  · intro refused
    by_contra small
    rw [ofBytes, ofNat_of_lt (Nat.lt_of_not_le small)] at refused
    cases refused
  · exact ofNat_of_le

/-- Any other word is the word of its element, as `toBytes` gives it. -/
theorem exists_ofBytes {bytes : List UInt8} (size : bytes.length = wordSize)
    (small : BigEndian.decode bytes < prime) :
    ∃ x, ofBytes bytes = .ok x ∧ x.toBytes = bytes := by
  have read : ofBytes bytes = .ok ⟨_, small⟩ := ofNat_of_lt small
  exact ⟨_, read, (eq_toBytes_of_ofBytes size read).symm⟩

/-- The integers of integer types are made elements as `ofSigned` does, without
reducing them. -/
theorem val_ofInt {v : Int} (lower : -2 ^ 127 ≤ v) (upper : v < 2 ^ 128) :
    ((ofInt v).val : Int) = if v < 0 then prime + v else v := by
  have small : v.natAbs < 2 ^ 128 := by omega
  rw [← ofSigned_eq_ofInt small, val_ofSigned small]

/-- Zero is its own negation. What any other element lacks to the `prime` is
below it. -/
theorem val_neg_eq (x : Felt) : (-x).val = if x.val = 0 then 0 else prime - x.val := by
  show (if h : x.val = 0 then (0 : Felt) else ⟨x.complement, _⟩).val = _
  split <;> rfl

/-- **Elements are canonical residues.** They are the field of residues modulo a
prime: all results of a `program` are below the `prime` and are the residues of
the results over the integers, and negative integers become the prime and the
integer. Of two numbers that are subtracted on the way the second is never the
greater one. The words of elements have 32 bytes, from which the element is read
back, and the words that are read are those below the prime. -/
theorem canonical_residues :
    prime.Prime ∧
    (∀ program : List Instruction,
      (∀ x ∈ run Source.element? program, x.val < prime) ∧
      List.Forall₂ (fun x v => (x.val : Int) = v % prime)
        (run Source.element? program) (run Source.integer? program)) ∧
    (∀ v : Int, -2 ^ 127 ≤ v → v < 2 ^ 128 →
      ((ofInt v).val : Int) = if v < 0 then prime + v else v) ∧
    (∀ x y : Felt, y.val ≤ x.val + prime ∧ x - y = reduce (x.val + prime - y.val) ∧
      x.val ≤ prime ∧ (-x).val = if x.val = 0 then 0 else prime - x.val) ∧
    (∀ x : Felt, x.val < 256 ^ 32 ∧ x.toBytes.length = 32 ∧ ofBytes x.toBytes = .ok x) ∧
    ∀ bytes : List UInt8, bytes.length = 32 →
      (ofBytes bytes = .error (.fieldRange (BigEndian.decode bytes)) ↔
        prime ≤ BigEndian.decode bytes) ∧
      (BigEndian.decode bytes < prime → ∃ x, ofBytes bytes = .ok x ∧ x.toBytes = bytes) := by
  refine ⟨prime_prime, fun program => ⟨fun x _ => x.val_lt, forall₂_run program⟩,
    fun v lower upper => val_ofInt lower upper, fun x y => ?_, fun x => ?_, fun bytes size => ?_⟩
  · have room : y.val ≤ x.val + prime := Nat.le_add_left_of_le (Nat.le_of_lt y.val_lt)
    exact ⟨room, rfl, Nat.le_of_lt x.val_lt, val_neg_eq x⟩
  · exact ⟨Nat.lt_of_lt_of_le x.val_lt prime_le, x.length_toBytes, ofBytes_toBytes x⟩
  · exact ⟨ofBytes_eq_error_iff bytes, exists_ofBytes size⟩

/-- A program with a number that is refused and an operand that is missing. -/
def edgeProgram : List Instruction :=
  [.make (.numeral "-60"), .make (.numeral "0x2A"), .make (.shortText "hi"),
    .make (.number prime), .make (.integer (-1)), .mul 3 3, .sub 4 1, .neg 9]

theorem canonical_residues_edge :
    let word := BigEndian.encode 32 (prime - 1)
    run Source.integer? edgeProgram = [-60, 42, 0x6869, -1, 1, -41, 0] ∧
      List.Forall₂ (fun x v => (x.val : Int) = v % prime)
        (run Source.element? edgeProgram) [-60, 42, 0x6869, -1, 1, -41, 0] ∧
      reduce (prime - 41) ∈ run Source.element? edgeProgram ∧ (reduce (prime - 41)).val < prime ∧
      (-2 ^ 127 ≤ (-60 : Int) ∧ (-60 : Int) < 2 ^ 128 ∧ ((ofInt (-60)).val : Int) = prime + -60) ∧
      word.length = 32 ∧ BigEndian.decode word < prime ∧
        ∃ x, ofBytes word = .ok x ∧ x.toBytes = word := by
  intro word
  have integers : run Source.integer? edgeProgram = [-60, 42, 0x6869, -1, 1, -41, 0] := by
    decide +kernel
  have mem : reduce (prime - 41) ∈ run Source.element? edgeProgram := by decide +kernel
  have size : word.length = 32 := BigEndian.length_encode ..
  have small : BigEndian.decode word < prime := by decide +kernel
  obtain ⟨-, programs, conversions, -, -, words⟩ := canonical_residues
  obtain ⟨below, residues⟩ := programs edgeProgram
  refine ⟨integers, integers ▸ residues, mem, below _ mem, ⟨by decide, by decide, ?_⟩, size, small,
    (words word size).2 small⟩
  exact conversions (-60) (by decide) (by decide)

end FeltWire.Felt
