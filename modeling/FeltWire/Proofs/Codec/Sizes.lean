import FeltWire.Proofs.ByteString
import FeltWire.Proofs.Codec.Components
import FeltWire.Proofs.Codec.Scalars

/-!
# Sizes of encodings

A shape that fixes the number of words fixes the size of every encoding; any
other shape takes at least one word. This is why a sequence's elements may not
be of a shape that takes no words: each element is then paid for by its words,
and the length in front of a sequence never promises more words than its
encoding has.

## Main definitions

* `Shape.Allows`: the sizes that a predicted number of words allows

## Main results

* `allows_length`: the size of an encoding is one that its shape allows
* `le_length_flatten`: a list of elements that take words has at least as many
  words as elements
-/

namespace FeltWire.Shape

/-- The sizes in bytes that a predicted number of words allows: exactly those
words or, for `none`, at least one word. -/
def Allows : Option Nat → Nat → Prop
  | some words, size => size = words * wordSize
  | none, size => wordSize ≤ size

theorem Allows.add {a b : Option Nat} {m n : Nat} (ha : Allows a m) (hb : Allows b n) :
    Allows (do return (← a) + (← b)) (m + n) := by
  cases a with
  | none => exact Nat.le_add_right_of_le ha
  | some words =>
    cases b with
    | none => exact Nat.le_add_left_of_le hb
    | some words' =>
      show m + n = (words + words') * wordSize
      rw [Nat.add_mul, show m = words * wordSize from ha, show n = words' * wordSize from hb]

/-- Values that take words, for which the prediction is not `some 0`, take at
least one. -/
theorem Allows.wordSize_le {a : Option Nat} {size : Nat} (h : Allows a size)
    (positive : a ≠ some 0) : wordSize ≤ size := by
  cases a with
  | none => exact h
  | some words =>
    have some_words : 0 < words := Nat.pos_of_ne_zero fun zero => positive (zero ▸ rfl)
    rw [show size = words * wordSize from h]
    exact Nat.le_mul_of_pos_left _ some_words

theorem fieldWords_eq (fields : List (String × Shape)) :
    fieldWords fields = itemWords (fields.map Prod.snd) := by
  induction fields with
  | nil => rfl
  | cons f fields ih => rw [fieldWords, ih, List.map_cons, itemWords]

/-- The encodings of components take the sum of what each takes, as `itemWords`
predicts. -/
theorem Encodings.allows {shapes : List Shape} {vs : List Value} {encodings : List (List UInt8)}
    (h : Encodings shapes vs encodings)
    (each : ∀ s ∈ shapes, ∀ v bytes, s.encodeBytes v = .ok bytes →
      Allows s.fixedWords bytes.length) :
    Allows (itemWords shapes) encodings.flatten.length := by
  induction h with
  | nil => exact (Nat.zero_mul _).symm
  | cons head tail ih =>
    rw [itemWords, List.flatten_cons, List.length_append]
    exact (each _ List.mem_cons_self _ _ head).add
      (ih fun s hs => each s (List.mem_cons_of_mem _ hs))

/-- **The size of an encoding** is one that `s.fixedWords` allows. A byte string
takes three words or more, and the length in front of a sequence takes one
whatever the elements take. -/
theorem allows_length {s : Shape} {v : Value} {bytes : List UInt8}
    (h : s.encodeBytes v = .ok bytes) : Allows s.fixedWords bytes.length := by
  induction s using inductScalar generalizing v bytes with
  | scalar s scalar =>
    obtain ⟨x, -, rfl⟩ := (encodeBytes_scalar_iff scalar).1 h
    have one : s.fixedWords = some 1 := by
      cases s with
      | bytes | record | sequence | tuple => exact scalar.elim
      | _ => rfl
    rw [one]
    exact x.length_toBytes.trans (Nat.one_mul _).symm
  | bytes =>
    obtain ⟨data, rfl, encoded⟩ := encodeBytes_bytes_iff.1 h
    obtain ⟨words, written, rfl⟩ := map_eq_ok_iff.1 encoded
    show wordSize ≤ _
    rw [length_wordBytes, ByteString.length_of_encode written]
    exact Nat.le_mul_of_pos_left _ (Nat.succ_pos _)
  | record name fields ih =>
    obtain ⟨vs, encodings, rfl, each, rfl⟩ := encodeBytes_record_iff.1 h
    rw [fixedWords, fieldWords_eq]
    refine each.allows fun s hs v bytes encoded => ?_
    obtain ⟨f, hf, rfl⟩ := List.mem_map.1 hs
    exact ih f hf encoded
  | sequence s ih =>
    obtain ⟨vs, count, encodings, rfl, -, -, -, rfl⟩ := encodeBytes_sequence_iff.1 h
    show wordSize ≤ _
    rw [List.length_append, Felt.length_toBytes]
    exact Nat.le_add_right ..
  | tuple items ih =>
    obtain ⟨vs, encodings, rfl, each, rfl⟩ := encodeBytes_tuple_iff.1 h
    exact each.allows fun s hs v bytes encoded => ih s hs encoded

/-- **Elements are paid for**: if each takes words (`positive`), there are at
least as many words as elements. -/
theorem Encodings.le_length_flatten {s : Shape} {count : Nat} {vs : List Value}
    {encodings : List (List UInt8)} (h : Encodings (List.replicate count s) vs encodings)
    (positive : s.fixedWords ≠ some 0) : count * wordSize ≤ encodings.flatten.length := by
  induction count generalizing vs encodings with
  | zero => simp
  | succ count ih =>
    rw [List.replicate_succ] at h
    rcases h with _ | ⟨head, tail⟩
    have paid := (allows_length head).wordSize_le positive
    have rest := ih tail
    rw [List.flatten_cons, List.length_append, Nat.add_mul, Nat.one_mul]
    omega

end FeltWire.Shape
