import FeltWire.Proofs.Scalar

/-!
# Integers and words at every width

The words of the integers of a width are exactly the words that are read at that
width, and each is read as its own integer. Since the ranges of all widths lie
within half the prime on either side of zero, a word stands for the same integer
at every width, signed or not, and the width decides only whether it is
accepted.

## Main definitions

* `decodeSignedWide`: a signed integer, read in words of 128 bits that wrap
* `PartialInverse`: an encoder and a decoder that undo each other on a range and
  refuse everything else

## Main results

* `Width.limits_mono`: a greater width has the greater range
* `balanced_of_decodeSigned`, `balanced_of_decodeUnsigned`: what is read is what
  the word stands for
* `decodeSignedWide_eq`: nothing is lost in 128 bits
* `partialInverse_signed`, `partialInverse_unsigned`: integers of either sign
  and their words
* `integer_words_exact`: both together, at one width and across widths
-/

namespace FeltWire

/-- A greater width has the greater range, signed and unsigned; widths are
compared by `Width.bits`. -/
theorem Width.limits_mono {w w' : Width} (h : w.bits ≤ w'.bits) :
    w'.minSigned ≤ w.minSigned ∧ w.maxSigned ≤ w'.maxSigned ∧ w.maxUnsigned ≤ w'.maxUnsigned := by
  have half : 2 ^ (w.bits - 1) ≤ 2 ^ (w'.bits - 1) :=
    Nat.pow_le_pow_right (by decide) (Nat.sub_le_sub_right h 1)
  have full : 2 ^ w.bits ≤ 2 ^ w'.bits := Nat.pow_le_pow_right (by decide) h
  have half' : (2 : Int) ^ (w.bits - 1) ≤ 2 ^ (w'.bits - 1) := by exact_mod_cast half
  unfold minSigned maxSigned maxUnsigned
  omega

variable {w : Width} {x : Felt}

/-! ## What a word is read as -/

/-- A signed integer that is read is the one that the word stands for,
`x.balanced`. -/
theorem balanced_of_decodeSigned {v : Int} (h : decodeSigned w x = .ok v) : x.balanced = v := by
  rw [decodeSigned_eq] at h
  split at h
  · exact Except.ok.inj h
  · cases h

/-- So is an unsigned one, since no width reaches the upper half. -/
theorem balanced_of_decodeUnsigned {n : Nat} (h : decodeUnsigned w x = .ok n) :
    x.balanced = n := by
  have range := w.maxUnsigned_lt
  have room := word_range_lt
  obtain ⟨fits, rfl⟩ := encodeUnsigned_eq_ok_iff.1 (decodeUnsigned_eq_ok_iff.1 h)
  rw [← Felt.ofInt_natCast]
  exact Felt.balanced_ofInt (by omega) (by omega)

/-! ## Words of 128 bits -/

/-- **A signed integer, read in words of 128 bits.** What does not fit one is
out of range. In the upper half the complement is negated as a word, which
wraps, before it is compared with the absolute value of `w.minSigned`; in the
lower half the residue is compared with the word of `w.maxSigned`. -/
def decodeSignedWide (w : Width) (x : Felt) : Except Fault Int :=
  let outOfRange : Except Fault Int := .error (.range (.word x) w true)
  if x.isUpperHalf then
    if x.complement < 2 ^ 128 then
      let magnitude := BitVec.ofNat 128 x.complement
      let value := (-magnitude).toInt
      if w.minSigned.natAbs < magnitude.toNat then outOfRange else .ok value
    else outOfRange
  else
    match x.small? with
    | some n => if n ≤ (BitVec.ofInt 128 w.maxSigned).toNat then .ok (BitVec.ofNat 128 n).toInt
      else outOfRange
    | none => outOfRange

/-- Negating a word is exact up to `2 ^ 127`, whose word is its own negation and
stands for the least integer of 128 bits. -/
theorem toInt_neg_ofNat {n : Nat} (h : n ≤ 2 ^ 127) : (-BitVec.ofNat 128 n).toInt = -n := by
  have wrapped : -BitVec.ofNat 128 n = BitVec.ofInt 128 (-n) := by
    rw [BitVec.ofInt_neg, BitVec.ofInt_natCast]
  rw [wrapped]
  exact BitVec.toInt_ofInt_eq_self (by decide) (by omega) (by omega)

/-- A word below `2 ^ 127` stands for itself. -/
theorem toInt_ofNat_of_lt {n : Nat} (h : n < 2 ^ 127) : (BitVec.ofNat 128 n).toInt = n := by
  rw [← BitVec.ofInt_natCast]
  exact BitVec.toInt_ofInt_eq_self (by decide) (by omega) (by omega)

/-- The negative integer that `decodeSigned` finds is the complement of the word
`x`, negated in 128 bits. -/
theorem toInt_neg_complement {v : Int} (upper : x.isUpperHalf = true)
    (h : decodeSigned w x = .ok v) :
    x.complement < 2 ^ 128 ∧ (-BitVec.ofNat 128 x.complement).toInt = v := by
  have signs := w.signed_range
  obtain ⟨fits, -⟩ := encodeSigned_eq_ok_iff.1 (decodeSigned_eq_ok_iff.1 h)
  have negative : -(x.complement : Int) = v := by
    rw [← balanced_of_decodeSigned h, Felt.balanced, if_pos upper]
  refine ⟨by omega, ?_⟩
  rw [toInt_neg_ofNat (by omega), negative]

/-- **Nothing is lost in 128 bits**: `decodeSignedWide` is `decodeSigned`. -/
theorem decodeSignedWide_eq (w : Width) (x : Felt) : decodeSignedWide w x = decodeSigned w x := by
  have signs := w.signed_range
  unfold decodeSignedWide decodeSigned
  by_cases upper : x.isUpperHalf = true
  · rw [if_pos upper, if_pos upper]
    by_cases fits : w.minSigned ≤ -(x.complement : Int)
    · have small : x.complement < 2 ^ 128 := by omega
      have within : ¬ w.minSigned.natAbs < x.complement := by omega
      simp only [if_pos small, BitVec.toNat_ofNat, Nat.mod_eq_of_lt small, if_neg within,
        if_pos fits, toInt_neg_ofNat (show x.complement ≤ 2 ^ 127 by omega)]
    · rw [if_neg fits]
      split
      · next small =>
        have beyond : w.minSigned.natAbs < x.complement := by omega
        simp only [BitVec.toNat_ofNat, Nat.mod_eq_of_lt small, if_pos beyond]
      · rfl
  · rw [if_neg upper, if_neg upper]
    have greatest : (BitVec.ofInt 128 w.maxSigned).toNat = w.maxSigned.toNat := by
      rw [BitVec.toNat_ofInt]
      omega
    by_cases fits : (x.val : Int) ≤ w.maxSigned
    · have small : x.small? = some x.val := if_pos (by omega)
      have within : x.val ≤ w.maxSigned.toNat := by omega
      simp only [small, greatest, if_pos within, if_pos fits,
        toInt_ofNat_of_lt (show x.val < 2 ^ 127 by omega)]
    · rw [if_neg fits, Felt.small?]
      have beyond : ¬ x.val ≤ w.maxSigned.toNat := by omega
      split
      · next n found =>
        obtain ⟨-, ⟨⟩⟩ := Option.ite_none_right_eq_some.1 found
        rw [greatest, if_neg beyond]
      · rfl

/-! ## Encoders and decoders -/

/-- **An encoder and a decoder that undo each other exactly** on what `fits`,
and refuse everything else as out of range. The word of `a` is that of the
integer `toInt a`. -/
structure PartialInverse {α : Type} (toInt : α → Int) (fits : α → Prop) (w : Width) (signed : Bool)
    (encode : α → Except Fault Felt) (decode : Felt → Except Fault α) : Prop where
  /-- Words of integers that fit are read as these. -/
  decodes : ∀ x a, decode x = .ok a ↔ fits a ∧ x = .ofInt (toInt a)
  /-- Any other word is refused. -/
  refuses : ∀ x, (¬ ∃ a, fits a ∧ x = .ofInt (toInt a)) →
    decode x = .error (.range (.word x) w signed)
  /-- Integers that fit are written as their words. -/
  encodes : ∀ a x, encode a = .ok x ↔ fits a ∧ x = .ofInt (toInt a)
  /-- Any other integer is refused. -/
  declines : ∀ a, ¬ fits a → encode a = .error (.range (.integer (toInt a)) w signed)
  /-- What is written is read back. -/
  undoes : ∀ a x, encode a = .ok x → decode x = .ok a

/-- A decoder that fails in one way, and gives what the encoder writes, is a
`PartialInverse`. The hypothesis `outcome` says that it fails in no other
way. -/
theorem PartialInverse.of_iff {α : Type} {toInt : α → Int} {fits : α → Prop} {w : Width}
    {signed : Bool} {encode : α → Except Fault Felt} {decode : Felt → Except Fault α}
    (encodes : ∀ {a x}, encode a = .ok x ↔ fits a ∧ .ofInt (toInt a) = x)
    (declines : ∀ a, ¬ fits a → encode a = .error (.range (.integer (toInt a)) w signed))
    (inverse : ∀ {x a}, decode x = .ok a ↔ encode a = .ok x)
    (outcome : ∀ x, (∃ a, decode x = .ok a) ∨ decode x = .error (.range (.word x) w signed)) :
    PartialInverse toInt fits w signed encode decode where
  decodes x a := by rw [inverse, encodes, eq_comm]
  refuses x stray := by
    rcases outcome x with ⟨a, read⟩ | refused
    · obtain ⟨fit, word⟩ := encodes.1 (inverse.1 read)
      exact absurd ⟨a, fit, word.symm⟩ stray
    · exact refused
  encodes a x := by rw [encodes, eq_comm]
  declines := declines
  undoes a x written := inverse.2 written

/-- **Signed integers and their words** are partial inverses at every width, by
`decodeSigned_eq_ok_iff`. -/
theorem partialInverse_signed (w : Width) :
    PartialInverse id (fun v => w.minSigned ≤ v ∧ v ≤ w.maxSigned) w true (encodeSigned w)
      (decodeSigned w) := by
  refine .of_iff encodeSigned_eq_ok_iff (fun v large => dif_neg large) decodeSigned_eq_ok_iff
    fun x => ?_
  rw [decodeSigned_eq]
  split
  · exact .inl ⟨_, rfl⟩
  · exact .inr rfl

/-- **Unsigned integers and their words** are partial inverses at every width,
by `decodeUnsigned_eq_ok_iff`. -/
theorem partialInverse_unsigned (w : Width) :
    PartialInverse Nat.cast (fun n => n ≤ w.maxUnsigned) w false (encodeUnsigned w)
      (decodeUnsigned w) := by
  have encodes {n : Nat} {x : Felt} :
      encodeUnsigned w n = .ok x ↔ n ≤ w.maxUnsigned ∧ .ofInt n = x := by
    rw [Felt.ofInt_natCast, encodeUnsigned_eq_ok_iff]
  refine .of_iff encodes (fun n large => dif_neg large) decodeUnsigned_eq_ok_iff fun x => ?_
  unfold decodeUnsigned
  split
  · exact .inl ⟨_, rfl⟩
  · exact .inr rfl

/-! ## Across widths -/

theorem decodeSigned_of_le {w' : Width} (h : w.bits ≤ w'.bits) {v : Int}
    (read : decodeSigned w x = .ok v) : decodeSigned w' x = .ok v := by
  obtain ⟨least, greatest, -⟩ := Width.limits_mono h
  obtain ⟨fits, word⟩ := ((partialInverse_signed w).decodes x v).1 read
  exact ((partialInverse_signed w').decodes x v).2
    ⟨⟨Int.le_trans least fits.1, Int.le_trans fits.2 greatest⟩, word⟩

theorem decodeUnsigned_of_le {w' : Width} (h : w.bits ≤ w'.bits) {n : Nat}
    (read : decodeUnsigned w x = .ok n) : decodeUnsigned w' x = .ok n := by
  obtain ⟨-, -, greatest⟩ := Width.limits_mono h
  obtain ⟨fits, word⟩ := ((partialInverse_unsigned w).decodes x n).1 read
  exact ((partialInverse_unsigned w').decodes x n).2 ⟨Nat.le_trans fits greatest, word⟩

/-- **Integers and their words determine each other** at every width
(`PartialInverse`), and whatever is no word of an integer of the width is out of
range. A word that is accepted at one width is accepted as the same integer at
every greater one, and a word that both decoders accept is the same integer for
both. Negative integers are found in 128 bits, and so is everything that
`decodeSigned` finds (`decodeSignedWide`). -/
theorem integer_words_exact (w : Width) :
    PartialInverse id (fun v => w.minSigned ≤ v ∧ v ≤ w.maxSigned) w true (encodeSigned w)
      (decodeSigned w) ∧
    PartialInverse Nat.cast (fun n => n ≤ w.maxUnsigned) w false (encodeUnsigned w)
      (decodeUnsigned w) ∧
    (∀ x v, decodeSigned w x = .ok v →
      (∀ w', w.bits ≤ w'.bits → decodeSigned w' x = .ok v) ∧
      (∀ w' n, decodeUnsigned w' x = .ok n → v = n) ∧
      (x.isUpperHalf = true →
        x.complement < 2 ^ 128 ∧ (-BitVec.ofNat 128 x.complement).toInt = v)) ∧
    (∀ x n, decodeUnsigned w x = .ok n →
      ∀ w', w.bits ≤ w'.bits → decodeUnsigned w' x = .ok n) ∧
    ∀ x, decodeSignedWide w x = decodeSigned w x := by
  refine ⟨partialInverse_signed w, partialInverse_unsigned w, fun x v read => ⟨?_, ?_, ?_⟩,
    fun x n read w' wider => decodeUnsigned_of_le wider read, decodeSignedWide_eq w⟩
  · intro w' wider
    exact decodeSigned_of_le wider read
  · intro w' n read'
    exact (balanced_of_decodeSigned read).symm.trans (balanced_of_decodeUnsigned read')
  · intro upper
    exact toInt_neg_complement upper read

/-- The `least` integer of 128 bits, and one that both decoders accept at some
of the widths. -/
theorem integer_words_exact_limits :
    let least := Felt.ofInt (-2 ^ 127)
    let shared := Felt.ofInt 200
    decodeSigned .w128 least = .ok (-2 ^ 127) ∧ least.isUpperHalf = true ∧
      (-BitVec.ofNat 128 least.complement).toInt = -2 ^ 127 ∧
      decodeSigned .w8 shared = .error (.range (.word shared) .w8 true) ∧
      decodeSigned .w16 shared = .ok 200 ∧ decodeSigned .w64 shared = .ok 200 ∧
      decodeUnsigned .w8 shared = .ok 200 ∧ decodeUnsigned .w128 shared = .ok 200 ∧
      (200 : Int) = (200 : Nat) ∧ decodeSignedWide .w128 least = .ok (-2 ^ 127) := by
  intro least shared
  obtain ⟨signed, -, found, -, wide⟩ := integer_words_exact .w128
  obtain ⟨-, unsigned, -, widened, -⟩ := integer_words_exact .w8
  obtain ⟨signed', -, shared', -⟩ := integer_words_exact .w16
  have read : decodeSigned .w128 least = .ok (-2 ^ 127) :=
    (signed.decodes _ _).2 ⟨by decide, rfl⟩
  have read' : decodeSigned .w16 shared = .ok 200 := (signed'.decodes _ _).2 ⟨by decide, rfl⟩
  have natural : decodeUnsigned .w8 shared = .ok 200 := (unsigned.decodes _ _).2 ⟨by decide, rfl⟩
  have upper : least.isUpperHalf = true := by decide
  exact ⟨read, upper, ((found _ _ read).2.2 upper).2, rfl, read',
    (shared' _ _ read').1 .w64 (by decide), natural, widened _ _ natural .w128 (by decide),
    (shared' _ _ read').2.1 .w8 200 natural, (wide least).trans read⟩

end FeltWire
