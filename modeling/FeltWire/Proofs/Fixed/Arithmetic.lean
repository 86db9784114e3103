import FeltWire.Proofs.Fixed.Ratio

/-!
# Exact arithmetic of fixed-point numbers

The operations are those of the rational numbers. Sums and differences of
numbers of one scale are exact, and a product is the number of that scale which
is nearest to the exact one. An operation fails only if the scales differ or the
raw result does not fit 64 bits; the product of two raw values always fits 128
bits, whatever it is divided by.

A run of operations on an accumulator keeps its scale, and each step that
succeeds is off by half a unit at most. A step that fails leaves the accumulator
as it was.

## Main definitions

* `Fixed.value`, `Fixed.unit`: the rational number that a fixed-point number
  stands for, and the distance of neighbours
* `Operation`, `Operation.IsRaw`: the operations, and their results on raw
  values
* `mulWide?`: the product, found in 128 bits
* `accumulate`: a run of operations

## Main results

* `Operation.apply_eq_ok_iff`, `Operation.apply_of_isRaw`: when an operation
  succeeds, and with what
* `mulWide?_eq`: the product is found in 128 bits
* `Operation.value_of_apply`: what an operation gives, as a rational number
* `scale_accumulate`: what a whole run keeps
* `arithmetic_exact`: the laws of the operations and of their runs
-/

namespace FeltWire.Fixed

/-! ## Rational values -/

/-- The distance of neighbours at a `scale`, `1 / 2 ^ scale`. -/
def unit (scale : UInt32) : ℚ := 1 / (2 ^ scale.toNat : Nat)

/-- **The rational number** that a fixed-point number stands for,
`raw / 2 ^ scale`. -/
def value (x : Fixed) : ℚ := x.raw.toInt / (2 ^ x.scale.toNat : Nat)

/-! ## Operations -/

/-- An operation on two numbers of one scale. -/
inductive Operation where
  | add
  | sub
  | mul
deriving DecidableEq, Repr

namespace Operation

/-- The operation on fixed-point numbers, as `Fixed` has it. -/
def apply : Operation → Fixed → Fixed → Except Fault Fixed
  | add => Fixed.add
  | sub => Fixed.sub
  | mul => Fixed.mul

/-- The operation as an `Attempt`, where it gives no number. -/
def attempt : Operation → Fixed → Fixed → Attempt
  | add => .sum
  | sub => .difference
  | mul => .product

/-- The operation on rational numbers, without rounding. -/
def exact : Operation → ℚ → ℚ → ℚ
  | add, x, y => x + y
  | sub, x, y => x - y
  | mul, x, y => x * y

/-- **The raw result** of an operation on raw values at a `scale`: the exact
one, or for a product the nearest integer (`IsNearestEven`) once it is brought
back to the scale. Products have none at scales above 126. -/
def IsRaw : Operation → (scale : Nat) → (x y r : Int) → Prop
  | add, _, x, y, r => r = x + y
  | sub, _, x, y, r => r = x - y
  | mul, scale, x, y, r => scale ≤ 126 ∧ IsNearestEven ((x * y : Int) / (2 ^ scale : Nat)) r

/-- The raw result, if it fits 64 bits; `apply` computes it. -/
def rawOf? : Operation → (scale : Nat) → (x y : Int) → Option Int64
  | add, _, x, y => raw? (x + y)
  | sub, _, x, y => raw? (x - y)
  | mul, scale, x, y =>
    if scale ≤ maxScale then raw? (divHalfEven (x * y) (2 ^ scale)) else none

variable {op : Operation} {a b x : Fixed} {scale : Nat} {r : Int}

/-- The operations differ only in what they do to raw values, `rawOf?`;
`combine` is all the rest. -/
theorem apply_eq (op : Operation) (a b : Fixed) :
    op.apply a b = combine (op.rawOf? a.scale.toNat) op.attempt a b := by
  cases op <;> rfl

theorem isRaw_mul_iff (small : scale ≤ maxScale) {v w : Int} :
    mul.IsRaw scale v w r ↔ divHalfEven (v * w) (2 ^ scale) = r := by
  have positive : (0 : Int) < 2 ^ scale := Int.pow_pos (by decide)
  have power : ((2 ^ scale : Int) : ℚ) = (2 ^ scale : Nat) := by push_cast; rfl
  rw [← isNearestEven_div_iff positive, power]
  exact and_iff_right small

/-- **The raw result is found**, and given if it fits: `IsRaw` determines
`rawOf?`. -/
theorem rawOf?_of_isRaw {v w : Int} (h : op.IsRaw scale v w r) : op.rawOf? scale v w = raw? r := by
  cases op with
  | add => rw [rawOf?, h]
  | sub => rw [rawOf?, h]
  | mul =>
    have small : scale ≤ maxScale := h.1
    rw [rawOf?, if_pos small, (isRaw_mul_iff small).1 h]

/-- Nothing else than `IsRaw` is given by `rawOf?`. -/
theorem isRaw_of_rawOf? {v w : Int} {raw : Int64} (h : op.rawOf? scale v w = some raw) :
    op.IsRaw scale v w raw.toInt := by
  cases op with
  | add => exact raw?_eq_some_iff.1 h
  | sub => exact raw?_eq_some_iff.1 h
  | mul =>
    by_cases small : scale ≤ maxScale
    · rw [rawOf?, if_pos small, raw?_eq_some_iff] at h
      exact (isRaw_mul_iff small).2 h.symm
    · rw [rawOf?, if_neg small] at h
      cases h

theorem apply_of_scale_ne (h : a.scale ≠ b.scale) :
    op.apply a b = .error (.scaleMismatch a.scale b.scale) := by
  rw [apply_eq, combine, if_neg h]

/-- **At one scale** (`same`) the raw result is given if it fits 64 bits, and
otherwise there is an overflow. -/
theorem apply_of_isRaw (same : a.scale = b.scale)
    (h : op.IsRaw a.scale.toNat a.raw.toInt b.raw.toInt r) :
    op.apply a b = if -2 ^ 63 ≤ r ∧ r < 2 ^ 63 then .ok ⟨.ofInt r, a.scale⟩
      else .error (.overflow (op.attempt a b)) := by
  rw [apply_eq, combine, if_pos same, rawOf?_of_isRaw h, raw?]
  split <;> rfl

/-- Beyond `maxScale` a product overflows, even one that is zero. -/
theorem mul_of_lt (same : a.scale = b.scale) (large : 126 < a.scale.toNat) :
    Fixed.mul a b = .error (.overflow (.product a b)) := by
  have beyond : ¬ a.scale.toNat ≤ maxScale := Nat.not_le.2 large
  rw [Fixed.mul, combine, if_pos same, if_neg beyond, ofRaw?]

/-- **When an operation succeeds**, and with what: the scales are the same, and
the raw value of `x` is the raw result. -/
theorem apply_eq_ok_iff : op.apply a b = .ok x ↔ a.scale = b.scale ∧ x.scale = a.scale ∧
    op.IsRaw a.scale.toNat a.raw.toInt b.raw.toInt x.raw.toInt := by
  constructor
  · intro h
    by_cases same : a.scale = b.scale
    · rw [apply_eq, combine, if_pos same] at h
      cases found : op.rawOf? a.scale.toNat a.raw.toInt b.raw.toInt with
      | none =>
        rw [found] at h
        cases h
      | some raw =>
        rw [found] at h
        cases h
        exact ⟨same, rfl, isRaw_of_rawOf? found⟩
    · rw [apply_of_scale_ne same] at h
      cases h
  · rintro ⟨same, scale, raw⟩
    obtain ⟨raw', scale'⟩ := x
    obtain rfl : scale' = a.scale := scale
    rw [apply_of_isRaw same raw, if_pos ⟨raw'.le_toInt, raw'.toInt_lt⟩, Int64.ofInt_toInt]

/-- There is one raw result, for a product at the scales that numbers can be
computed at (`small`). -/
theorem existsUnique_isRaw (op : Operation) (small : op = mul → scale ≤ 126) (v w : Int) :
    ∃! r, op.IsRaw scale v w r := by
  cases op with
  | add => exact ⟨_, rfl, fun r other => other⟩
  | sub => exact ⟨_, rfl, fun r other => other⟩
  | mul =>
    obtain ⟨r, nearest, unique⟩ := existsUnique_isNearestEven ((v * w : Int) / (2 ^ scale : Nat))
    exact ⟨r, ⟨small rfl, nearest⟩, fun r' other => unique r' other.2⟩

end Operation

/-! ## Products in 128 bits -/

/-- **The product, found in 128 bits**, step by step as in `Fixed.mul`. There is
no outcome at all if a step leaves them. -/
def mulWide? (a b : Fixed) : Option (Except Fault Fixed) :=
  if a.scale ≠ b.scale then some (.error (.scaleMismatch a.scale b.scale))
  else if maxScale < a.scale.toNat then some (.error (.overflow (.product a b)))
  else do
    let product ← wide? (a.raw.toInt * b.raw.toInt)
    let power ← wide? (2 ^ a.scale.toNat)
    let raw ← divHalfEvenWide? product power
    return ofRaw? (raw? raw) a.scale (.product a b)

/-- The product of two raw values fits 128 bits: the greatest is that of the two
least values, with a bit to spare. -/
theorem isWide_mul (x y : Int64) : IsWide (x.toInt * y.toInt) := by
  have bounded (v : Int64) : v.toInt.natAbs ≤ 2 ^ 63 := by
    have low := v.le_toInt
    have high := v.toInt_lt
    omega
  have product : (x.toInt * y.toInt).natAbs ≤ 2 ^ 63 * 2 ^ 63 := by
    rw [Int.natAbs_mul]
    exact Nat.mul_le_mul (bounded x) (bounded y)
  unfold IsWide
  omega

theorem mul_eq {a b : Fixed} (same : a.scale = b.scale) (small : a.scale.toNat ≤ maxScale) :
    mul a b = ofRaw? (raw? (divHalfEven (a.raw.toInt * b.raw.toInt) (2 ^ a.scale.toNat))) a.scale
      (.product a b) := by
  unfold mul combine
  simp only [if_pos same, if_pos small]

/-- **No step of a product leaves 128 bits**: `mulWide?` always has the outcome
of `mul`. -/
theorem mulWide?_eq (a b : Fixed) : mulWide? a b = some (mul a b) := by
  unfold mulWide?
  by_cases same : a.scale = b.scale
  · rw [if_neg (not_not.2 same)]
    by_cases small : a.scale.toNat ≤ maxScale
    · have power := isWide_two_pow small
      have positive : (0 : Int) < 2 ^ a.scale.toNat := Int.pow_pos (by decide)
      have product := isWide_mul a.raw b.raw
      rw [if_neg (Nat.not_lt.2 small), wide?_of_isWide product, wide?_of_isWide power,
        mul_eq same small]
      simp only [Option.bind_eq_bind, Option.bind_some,
        divHalfEvenWide?_eq product positive power, Option.pure_def]
    · have large : maxScale < a.scale.toNat := Nat.lt_of_not_le small
      rw [if_pos large, Operation.mul_of_lt same large]
  · have mismatch : Operation.mul.apply a b = .error (.scaleMismatch a.scale b.scale) :=
      Operation.apply_of_scale_ne same
    rw [if_pos same, ← mismatch, Operation.apply]

/-! ## Commuting operands -/

theorem toOption_ofRaw? (raw : Option Int64) (scale : UInt32) (attempt : Attempt) :
    (ofRaw? raw scale attempt).toOption = raw.map fun raw => ⟨raw, scale⟩ := by
  cases raw <;> rfl

/-- An operation whose raw result does not depend on the order of the operands
(`comm`) commutes; the operands stand in their order in a fault. -/
theorem toOption_combine_comm {f g : Int → Int → Option Int64} {attempt : Fixed → Fixed → Attempt}
    {a b : Fixed} (comm : a.scale = b.scale → ∀ x y, f x y = g y x) :
    (combine f attempt a b).toOption = (combine g attempt b a).toOption := by
  unfold combine
  by_cases same : a.scale = b.scale
  · rw [if_pos same, if_pos same.symm, toOption_ofRaw?, toOption_ofRaw?, comm same, same]
  · rw [if_neg same, if_neg (Ne.symm same)]
    rfl

theorem toOption_add_comm (a b : Fixed) : (add a b).toOption = (add b a).toOption :=
  toOption_combine_comm fun _ x y => by rw [Int.add_comm]

theorem toOption_mul_comm (a b : Fixed) : (mul a b).toOption = (mul b a).toOption :=
  toOption_combine_comm fun same x y => by rw [Int.mul_comm, same]

/-! ## Errors -/

/-- What is off by half a raw value at most is off by half a `unit` at most. -/
theorem abs_div_sub_mul_le {x y r : Int} {d : ℚ} (positive : 0 < d)
    (nearest : IsNearestEven ((x * y : Int) / d) r) :
    |(r / d - x / d * (y / d) : ℚ)| ≤ 1 / d / 2 := by
  have scaled : (r / d - x / d * (y / d) : ℚ) = -(((x * y : Int) / d - r) / d) := by
    push_cast
    field_simp
    rw [neg_sub]
  rw [scaled, abs_neg, abs_div, abs_of_pos positive, div_right_comm]
  exact div_le_div_of_nonneg_right nearest.le_half positive.le

/-- **An operation is off by half a `unit` at most**, and only a product is off
at all. Sums and differences of multiples of a unit are such multiples. -/
theorem Operation.value_of_apply {op : Operation} {a b x : Fixed} (h : op.apply a b = .ok x) :
    |x.value - op.exact a.value b.value| ≤ unit a.scale / 2 ∧
      (op ≠ .mul → x.value = op.exact a.value b.value) := by
  obtain ⟨same, scale, raw⟩ := apply_eq_ok_iff.1 h
  have positive : (0 : ℚ) < (2 ^ a.scale.toNat : Nat) := Nat.cast_pos.2 (Nat.two_pow_pos _)
  unfold value unit
  rw [scale, ← same]
  have half : (0 : ℚ) ≤ 1 / (2 ^ a.scale.toNat : Nat) / 2 := by positivity
  cases op with
  | add =>
    rw [exact, ← add_div, ← Int.cast_add, ← (raw : x.raw.toInt = _), sub_self, abs_zero]
    exact ⟨half, fun _ => rfl⟩
  | sub =>
    rw [exact, ← sub_div, ← Int.cast_sub, ← (raw : x.raw.toInt = _), sub_self, abs_zero]
    exact ⟨half, fun _ => rfl⟩
  | mul => exact ⟨abs_div_sub_mul_le positive raw.2, fun other => absurd rfl other⟩

/-! ## Runs -/

/-- One operation on an `accumulator`. If it fails the accumulator stays as it
was. -/
def accumulateOne (accumulator : Fixed) (task : Operation × Fixed) : Fixed :=
  match task.1.apply accumulator task.2 with
  | .ok x => x
  | .error _ => accumulator

/-- **A run of operations** on an `accumulator`, each with its second
operand. -/
def accumulate (accumulator : Fixed) (tasks : List (Operation × Fixed)) : Fixed :=
  tasks.foldl accumulateOne accumulator

/-- **What one operation keeps**: the scale of the `accumulator`, whether it
succeeds or fails. -/
theorem scale_accumulateOne (accumulator : Fixed) (task : Operation × Fixed) :
    (accumulateOne accumulator task).scale = accumulator.scale := by
  unfold accumulateOne
  split
  · next done => exact (Operation.apply_eq_ok_iff.1 done).2.1
  · rfl

/-- **What a whole run keeps**: the scale of the `accumulator`, by induction on
the `tasks`. -/
theorem scale_accumulate (accumulator : Fixed) (tasks : List (Operation × Fixed)) :
    (accumulate accumulator tasks).scale = accumulator.scale := by
  induction tasks generalizing accumulator with
  | nil => rfl
  | cons task tasks ih => exact (ih _).trans (scale_accumulateOne accumulator task)

/-- The last operation of a run is one on what the operations before it have
left. -/
theorem accumulate_concat (accumulator : Fixed) (tasks : List (Operation × Fixed))
    (task : Operation × Fixed) : accumulate accumulator (tasks ++ [task]) =
      accumulateOne (accumulate accumulator tasks) task := by
  simp only [accumulate, List.foldl_append, List.foldl_cons, List.foldl_nil]

/-- **Arithmetic is exact.** Operations on numbers of different scales fail. At
one scale the raw result of an operation (`IsRaw`), the exact one or for a
product the one nearest to it, is given at this scale if it fits 64 bits, and is
an overflow otherwise; so is a product at a scale above 126. Products need no
more than 128 bits (`mulWide?`). Sums and products commute. A run of operations
on an accumulator keeps its scale; each operation that succeeds is off by half a
unit at most and only if it is a product, and one that fails has no effect. -/
theorem arithmetic_exact (a b : Fixed) :
    (∀ op : Operation, a.scale ≠ b.scale →
      op.apply a b = .error (.scaleMismatch a.scale b.scale)) ∧
    (∀ op : Operation, a.scale = b.scale → (op = .mul → a.scale.toNat ≤ 126) →
      ∃! r, op.IsRaw a.scale.toNat a.raw.toInt b.raw.toInt r) ∧
    (∀ (op : Operation) (r : Int), a.scale = b.scale →
      op.IsRaw a.scale.toNat a.raw.toInt b.raw.toInt r →
      op.apply a b = if -2 ^ 63 ≤ r ∧ r < 2 ^ 63 then .ok ⟨.ofInt r, a.scale⟩
        else .error (.overflow (op.attempt a b))) ∧
    (a.scale = b.scale → 126 < a.scale.toNat → mul a b = .error (.overflow (.product a b))) ∧
    mulWide? a b = some (mul a b) ∧
    (add a b).toOption = (add b a).toOption ∧ (mul a b).toOption = (mul b a).toOption ∧
    ∀ tasks : List (Operation × Fixed), ∀ op y,
      let before := accumulate a tasks
      let after := accumulate a (tasks ++ [(op, y)])
      before.scale = a.scale ∧
      (∀ x, op.apply before y = .ok x → after = x ∧
        |x.value - op.exact before.value y.value| ≤ unit a.scale / 2 ∧
        (op ≠ .mul → x.value = op.exact before.value y.value)) ∧
      ∀ e, op.apply before y = .error e → after = before := by
  refine ⟨fun op => Operation.apply_of_scale_ne, fun op _ small => op.existsUnique_isRaw small _ _,
    fun op r => Operation.apply_of_isRaw, Operation.mul_of_lt, mulWide?_eq a b,
    toOption_add_comm a b, toOption_mul_comm a b, fun tasks op y => ?_⟩
  have kept := scale_accumulate a tasks
  have last := accumulate_concat a tasks (op, y)
  refine ⟨kept, fun x done => ⟨?_, ?_⟩, fun e failed => ?_⟩
  · simp only [last, accumulateOne, done]
  · exact kept ▸ Operation.value_of_apply done
  · simp only [last, accumulateOne, failed]

/-- A product that leaves 64 bits only by rounding up, and a run with a failure
and a negative tie. -/
theorem arithmetic_exact_ties :
    let a : Fixed := ⟨4294967295, 1⟩
    let b : Fixed := ⟨4294967297, 1⟩
    let tasks : List (Operation × Fixed) := [(.add, ⟨5, 1⟩), (.sub, ⟨1, 2⟩)]
    (a.scale = b.scale ∧ Operation.mul.IsRaw a.scale.toNat a.raw.toInt b.raw.toInt (2 ^ 63) ∧
      mul a b = .error (.overflow (.product a b))) ∧
    ((1 : UInt32) ≠ 2 ∧ sub ⟨-3, 1⟩ ⟨1, 2⟩ = .error (.scaleMismatch 1 2)) ∧
    (126 < (127 : UInt32).toNat ∧
      mul ⟨1, 127⟩ ⟨1, 127⟩ = .error (.overflow (.product ⟨1, 127⟩ ⟨1, 127⟩))) ∧
    mul (accumulate ⟨-8, 1⟩ tasks) ⟨1, 1⟩ = .ok ⟨-2, 1⟩ ∧
      accumulate ⟨-8, 1⟩ (tasks ++ [(.mul, ⟨1, 1⟩)]) = ⟨-2, 1⟩ ∧
      |value ⟨-2, 1⟩ - value (accumulate ⟨-8, 1⟩ tasks) * value ⟨1, 1⟩| ≤ unit 1 / 2 := by
  intro a b tasks
  obtain ⟨-, -, given, -⟩ := arithmetic_exact a b
  obtain ⟨other, -⟩ := arithmetic_exact ⟨-3, 1⟩ ⟨1, 2⟩
  obtain ⟨-, -, -, beyond, -⟩ := arithmetic_exact ⟨1, 127⟩ ⟨1, 127⟩
  obtain ⟨-, -, -, -, -, -, -, runs⟩ := arithmetic_exact ⟨-8, 1⟩ ⟨1, 1⟩
  have raw : Operation.mul.IsRaw a.scale.toNat a.raw.toInt b.raw.toInt (2 ^ 63) :=
    (Operation.isRaw_mul_iff (by decide)).2 (by decide)
  have done : mul (accumulate ⟨-8, 1⟩ tasks) ⟨1, 1⟩ = .ok ⟨-2, 1⟩ := by decide
  obtain ⟨last, near, -⟩ := (runs tasks .mul ⟨1, 1⟩).2.1 _ done
  exact ⟨⟨rfl, raw, (given .mul _ rfl raw).trans (if_neg (by decide))⟩,
    ⟨by decide, other .sub (by decide)⟩, ⟨by decide, beyond rfl (by decide)⟩, done, last, near⟩

end FeltWire.Fixed
