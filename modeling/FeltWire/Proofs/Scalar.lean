import FeltWire.Fixed.Arithmetic

/-!
# Scalars and their words

Each scalar decoder undoes its encoder and accepts nothing else: a word decodes
to a value exactly if the value encodes to the word. The ranges of all widths
are far below the prime, so that positive integers are their own residues and
negative ones are found in the upper half.

## Main results

* `decodeUnsigned_eq_ok_iff`, `decodeSigned_eq_ok_iff`, `decodeBool_eq_ok_iff`:
  integers and truth values
* `Felt.ofInt_balanced`, `Felt.balanced_ofInt`: words and the integers they
  stand for
* `Fixed.decode_eq_ok_iff`: fixed-point numbers at the scale that is asked for
-/

namespace FeltWire

theorem word_range_lt : 2 ^ 128 < (prime - 1) / 2 := by decide

/-! ## Integers and truth values -/

variable {w : Width} {x : Felt}

theorem encodeUnsigned_eq_ok_iff {n : Nat} :
    encodeUnsigned w n = .ok x ↔ n ≤ w.maxUnsigned ∧ .reduce n = x := by
  unfold encodeUnsigned
  split
  · next fits => simp only [fits, true_and, Except.ok.injEq, Felt.ofUnsigned_eq_reduce]
  · next large => simp only [large, false_and, reduceCtorEq]

theorem encodeSigned_eq_ok_iff {v : Int} :
    encodeSigned w v = .ok x ↔ (w.minSigned ≤ v ∧ v ≤ w.maxSigned) ∧ .ofInt v = x := by
  unfold encodeSigned
  split
  · next fits => simp only [fits, and_self, true_and, Except.ok.injEq, Felt.ofSigned_eq_ofInt]
  · next large => simp only [large, false_and, reduceCtorEq]

/-- **Unsigned integers** and their words: `decodeUnsigned` and `encodeUnsigned`
undo each other. -/
theorem decodeUnsigned_eq_ok_iff {n : Nat} :
    decodeUnsigned w x = .ok n ↔ encodeUnsigned w n = .ok x := by
  have range := w.maxUnsigned_lt
  have room := word_range_lt
  constructor
  · intro h
    unfold decodeUnsigned at h
    split at h
    · next fits =>
      cases h
      exact encodeUnsigned_eq_ok_iff.2 ⟨fits, x.reduce_val⟩
    · cases h
  · intro h
    obtain ⟨fits, rfl⟩ := encodeUnsigned_eq_ok_iff.1 h
    have value : (Felt.reduce n).val = n := Felt.val_reduce_of_lt (by omega)
    rw [decodeUnsigned, value, if_pos fits]

/-- The integer that the word `x` stands for: a word of the upper half is a
negative one, `-x.complement`. -/
def Felt.balanced (x : Felt) : Int := if x.isUpperHalf then -x.complement else x.val

/-- A word is that of the integer it stands for: `Felt.ofInt` undoes
`Felt.balanced`. -/
theorem Felt.ofInt_balanced (x : Felt) : Felt.ofInt x.balanced = x := by
  have canonical := x.val_lt
  unfold balanced
  split
  · next upper =>
    have positive : 0 < x.complement := Nat.sub_pos_of_lt canonical
    have nonzero : (prime - 1) / 2 < x.val := of_decide_eq_true upper
    have back : prime - x.complement = x.val := by
      unfold complement
      omega
    rw [ofInt_eq, if_pos (by omega), Int.natAbs_neg, Int.natAbs_natCast]
    ext
    rw [val_neg, val_reduce_of_lt (by unfold complement; omega), back, Nat.mod_eq_of_lt canonical]
  · rw [ofInt_natCast, reduce_val]

/-- An integer `v` of at most half the `prime` is the one that its word stands
for. -/
theorem Felt.balanced_ofInt {v : Int} (lower : -((prime - 1) / 2 : Nat) ≤ v)
    (upper : v ≤ ((prime - 1) / 2 : Nat)) : (Felt.ofInt v).balanced = v := by
  have odd : prime = 2 * ((prime - 1) / 2) + 1 := by decide
  rw [ofInt_eq]
  by_cases negative : v < 0
  · have value : (-reduce v.natAbs).val = prime - v.natAbs := by
      rw [val_neg, val_reduce_of_lt (by omega), Nat.mod_eq_of_lt (by omega)]
    have high : (-reduce v.natAbs).isUpperHalf = true := by
      simp only [isUpperHalf, value, decide_eq_true_eq]
      omega
    rw [if_pos negative, balanced, if_pos high, complement, value]
    omega
  · have value : (reduce v.natAbs).val = v.natAbs := val_reduce_of_lt (by omega)
    have low : ¬ (reduce v.natAbs).isUpperHalf = true := by
      simp only [isUpperHalf, value, decide_eq_true_eq, Nat.not_lt]
      omega
    rw [if_neg negative, balanced, if_neg low, value]
    omega

/-- A signed integer is read if `x.balanced`, what the word stands for, fits the
width. The sign settles one of the two bounds, and `decodeSigned` tests only the
other. -/
theorem decodeSigned_eq (w : Width) (x : Felt) :
    decodeSigned w x = if w.minSigned ≤ x.balanced ∧ x.balanced ≤ w.maxSigned
      then .ok x.balanced else .error (.range (.word x) w true) := by
  have signs := w.signed_range
  unfold decodeSigned Felt.balanced
  -- the sign settles one of the two bounds
  by_cases upper : x.isUpperHalf = true
  · have positive : 0 < x.complement := Nat.sub_pos_of_lt x.val_lt
    have fits : -(x.complement : Int) ≤ w.maxSigned := by omega
    simp only [if_pos upper, fits, and_true]
  · have fits : w.minSigned ≤ (x.val : Int) := by omega
    simp only [if_neg upper, fits, true_and]

/-- **Signed integers** and their words: `decodeSigned` and `encodeSigned` undo
each other. -/
theorem decodeSigned_eq_ok_iff {v : Int} :
    decodeSigned w x = .ok v ↔ encodeSigned w v = .ok x := by
  have signs := w.signed_range
  have room := word_range_lt
  rw [decodeSigned_eq, encodeSigned_eq_ok_iff]
  constructor
  · intro h
    split at h
    · next fits =>
      cases h
      exact ⟨fits, x.ofInt_balanced⟩
    · cases h
  · rintro ⟨fits, rfl⟩
    rw [Felt.balanced_ofInt (by omega) (by omega), if_pos fits]

/-- **Truth values** and their words: `decodeBool` and `encodeBool` undo each
other. -/
theorem decodeBool_eq_ok_iff {b : Bool} : decodeBool x = .ok b ↔ encodeBool b = x := by
  have zero : (encodeBool false).val = 0 := rfl
  have one : (encodeBool true).val = 1 := rfl
  constructor
  · intro h
    unfold decodeBool at h
    split at h
    · next is_zero =>
      cases h
      exact Felt.ext (zero.trans is_zero.symm)
    · split at h
      · next is_one =>
        cases h
        exact Felt.ext (one.trans is_one.symm)
      · cases h
  · rintro rfl
    cases b <;> rfl

/-! ## Fixed-point numbers -/

theorem Fixed.encode_eq (f : Fixed) : f.encode = .ofInt f.raw.toInt := Felt.ofSigned_eq_ofInt _

theorem Fixed.encodeAt_eq_ok_iff {scale : UInt32} {f : Fixed} :
    f.encodeAt scale = .ok x ↔ f.scale = scale ∧ f.encode = x := by
  unfold encodeAt
  split
  · next same => simp only [same, true_and, Except.ok.injEq]
  · next other => simp only [other, false_and, reduceCtorEq]

/-- **Fixed-point numbers** and their words: the scale is not written, and has
to be the `scale` that is asked for. -/
theorem Fixed.decode_eq_ok_iff {scale : UInt32} {f : Fixed} :
    Fixed.decode scale x = .ok f ↔ f.encodeAt scale = .ok x := by
  constructor
  · intro h
    unfold decode at h
    rcases hv : decodeSigned .w64 x with _ | v
    · rw [hv] at h
      cases h
    · rw [hv] at h
      cases h
      obtain ⟨fits, rfl⟩ := encodeSigned_eq_ok_iff.1 (decodeSigned_eq_ok_iff.1 hv)
      have raw : (Int64.ofInt v).toInt = v :=
        Int64.toInt_ofInt_of_le fits.1 (Int.lt_of_le_of_lt fits.2 (by decide))
      rw [encodeAt, if_pos rfl, encode_eq, raw]
  · intro h
    obtain ⟨rfl, rfl⟩ := encodeAt_eq_ok_iff.1 h
    have word : encodeSigned .w64 f.raw.toInt = .ok f.encode :=
      encodeSigned_eq_ok_iff.2 ⟨⟨f.raw.le_toInt, f.raw.toInt_le⟩, f.encode_eq.symm⟩
    rw [decode, decodeSigned_eq_ok_iff.2 word]
    show Except.ok (⟨Int64.ofInt f.raw.toInt, f.scale⟩ : Fixed) = .ok f
    rw [Int64.ofInt_toInt]

end FeltWire
