import FeltWire.Proofs.ByteString
import FeltWire.Proofs.Writer

/-!
# The layout of byte strings

The words of a byte string as numbers: how many chunks of 31 bytes it has, the
chunks one by one, the bytes left over and how many these are. No word is
reduced, since every one of these numbers is below the prime, and none is
missing: without bytes left over there are still two words for them. A chunk
that begins with zero bytes is the same number as one without them, but it is
read back with all of its 31 bytes.

## Main definitions

* `ByteString.layout`: the numbers that a byte string is written as

## Main results

* `chunks_eq`: the chunks by their place in the byte string
* `map_val_of_encode`: the words are the numbers of the layout
* `exists_encode`, `encode_eq_error`: which byte strings have words
* `outcome_read_of_encode`: the words are read in place
* `layout_exact`: how byte strings are written onto any writer and read from
  between any words
-/

namespace FeltWire.ByteString

/-- **The numbers of a byte string**: how many full chunks it has, the chunks,
the bytes left over and how many these are, without `chunkWord`. -/
def layout (data : List UInt8) : List Nat :=
  data.length / chunkSize ::
    (List.range (data.length / chunkSize)).map (fun i =>
      BigEndian.decode (data.extract (chunkSize * i) (chunkSize * i + chunkSize))) ++
    [BigEndian.decode (data.drop (data.length - data.length % chunkSize)),
      data.length % chunkSize]

/-! ## The words as numbers -/

/-- A chunk by its place in the byte string: the `i`-th starts at
`chunkSize * i`. -/
theorem chunks_eq (count : Nat) (data : List UInt8) :
    chunks count data = (List.range count).map fun i =>
      data.extract (chunkSize * i) (chunkSize * i + chunkSize) := by
  induction count generalizing data with
  | zero => rfl
  | succ count ih =>
    rw [chunks, ih, List.range_succ_eq_map, List.map_cons, List.map_map]
    congr 1
    refine List.map_congr_left fun i _ => ?_
    simp only [List.extract_eq_take_drop, Function.comp_apply, List.drop_drop,
      Nat.add_sub_cancel_left, Nat.mul_succ, Nat.add_comm chunkSize]

/-- A chunk has `chunkSize` bytes at most, so that its word is its number. -/
theorem val_chunkWord_extract (data : List UInt8) (i : Nat) :
    (chunkWord (data.extract i (i + chunkSize))).val =
      BigEndian.decode (data.extract i (i + chunkSize)) := by
  apply val_chunkWord
  rw [List.extract_eq_take_drop, Nat.add_sub_cancel_left]
  exact List.length_take_le ..

/-- The full chunks leave out what is left over, `length % chunkSize` bytes. -/
theorem div_mul_chunkSize (length : Nat) :
    length / chunkSize * chunkSize = length - length % chunkSize := by
  have whole := Nat.div_add_mod' length chunkSize
  omega

/-- **The words of a byte string are its numbers**, those of `layout`, none of
them reduced. -/
theorem map_val_of_encode {data : List UInt8} {words : List Felt} (h : encode data = .ok words) :
    words.map Felt.val = layout data := by
  obtain ⟨count, counted, ⟨⟩⟩ := bind_eq_ok_iff.1 h
  obtain ⟨fits, rfl⟩ := encodeUnsigned_eq_ok_iff.1 counted
  have few : data.length % chunkSize < chunkSize := Nat.mod_lt _ (by decide)
  have left : (pending data).length = data.length % chunkSize := by
    rw [pending, List.length_drop, div_mul_chunkSize]
    have := Nat.mod_le data.length chunkSize
    omega
  have full : (Felt.reduce (data.length / chunkSize)).val = data.length / chunkSize :=
    Felt.val_reduce_of_lt (Nat.lt_trans (Width.lt_of_le_maxUnsigned fits) Felt.two_pow_lt_prime)
  rw [layout, chunks_eq, List.map_append, List.map_cons, List.map_map, List.map_map, List.map_cons,
    List.map_cons, List.map_nil, pendingLength, Felt.val_ofUnsigned, left, full,
    val_chunkWord (left ▸ Nat.le_of_lt few), pending, div_mul_chunkSize]
  congr 2
  exact List.map_congr_left fun i _ => val_chunkWord_extract data (chunkSize * i)

/-! ## Which byte strings have words -/

/-- Whether the number of full chunks is one of 32 bits, in terms of the
`length`. -/
theorem div_chunkSize_le_iff {length : Nat} :
    length / chunkSize ≤ Width.w32.maxUnsigned ↔ length < chunkSize * 2 ^ 32 := by
  show length / chunkSize ≤ 2 ^ 32 - 1 ↔ _
  rw [← Nat.lt_iff_le_pred (by decide), Nat.div_lt_iff_lt_mul (by decide), Nat.mul_comm]

theorem exists_encode {data : List UInt8} (size : data.length < chunkSize * 2 ^ 32) :
    ∃ words, encode data = .ok words := by
  have counted := encodeUnsigned_eq_ok_iff.2 ⟨div_chunkSize_le_iff.2 size, rfl⟩
  exact ⟨_, bind_eq_ok_iff.2 ⟨_, counted, rfl⟩⟩

theorem encode_eq_error {data : List UInt8} (size : chunkSize * 2 ^ 32 ≤ data.length) :
    encode data =
      .error (.range (.integer (data.length / chunkSize : Nat)) .w32 false) := by
  refine bind_eq_error_iff.2 (.inl ?_)
  rw [encodeUnsigned, dif_neg]
  exact fun fits => absurd (div_chunkSize_le_iff.1 fits) (Nat.not_lt.2 size)

/-! ## Reading in place -/

/-- **The words of a byte string are read in place**: from the first of them to
the last, whatever words stand in `front` and `back`. -/
theorem outcome_read_of_encode {data : List UInt8} {words : List Felt} (h : encode data = .ok words)
    (front back : List Felt) :
    read.outcome ((Cursor.start (wordBytes (front ++ words ++ back))).advance
        (wordSize * front.length)) =
      (.ok data, (Cursor.start (wordBytes (front ++ words ++ back))).advance
        (wordSize * (front.length + words.length))) := by
  have drop_words (before after : List Felt) :
      (wordBytes (before ++ after)).drop (wordSize * before.length) = wordBytes after := by
    rw [wordBytes_append, Nat.mul_comm, ← length_wordBytes, List.drop_left]
  have size : wordSize * (front.length + words.length) =
      wordSize * front.length + (wordBytes words).length := by
    rw [length_wordBytes, Nat.mul_add, Nat.mul_comm words.length]
  have behind := drop_words (front ++ words) back
  rw [List.length_append] at behind
  simp only [Cursor.start, Cursor.advance, behind, Nat.zero_add]
  rw [List.append_assoc, drop_words, wordBytes_append, size]
  exact exact_read.accepts (map_eq_ok_iff.2 ⟨words, h, rfl⟩) _ _

/-! ## Writing and reading -/

/-- **How byte strings are written and read.** A byte string of fewer than
`31 * 2 ^ 32` bytes is written behind the words that a writer has, as the
numbers of its `layout` and as many words as its length says, and from there it
is read with any words before and after. A longer one cannot be written, and
leaves the writer as it was. -/
theorem layout_exact (data : List UInt8) :
    (∀ w : Writer, (write data).outcome w = w.byteString data) ∧
      (data.length < 31 * 2 ^ 32 → ∃ words : List Felt,
        (∀ w : Writer, w.byteString data = (.ok (), ⟨w.words ++ words⟩)) ∧
          words.length = ByteString.words data.length ∧ words.map Felt.val = layout data ∧
          ∀ front back : List Felt,
            read.outcome ((Cursor.start (wordBytes (front ++ words ++ back))).advance
                (wordSize * front.length)) =
              (.ok data, (Cursor.start (wordBytes (front ++ words ++ back))).advance
                (wordSize * (front.length + words.length)))) ∧
      (31 * 2 ^ 32 ≤ data.length → ∀ w : Writer, w.byteString data =
        (.error (.range (.integer (data.length / chunkSize : Nat)) .w32 false), w)) := by
  refine ⟨outcome_write data, fun short => ?_, fun long w => ?_⟩
  · obtain ⟨words, encoded⟩ := exists_encode short
    refine ⟨words, fun w => ?_, length_of_encode encoded, map_val_of_encode encoded,
      outcome_read_of_encode encoded⟩
    rw [Writer.byteString, encoded]
    rfl
  · rw [Writer.byteString, encode_eq_error long]
    rfl

/-- A chunk of zero bytes with two more bytes behind it, and `2 ^ 32` chunks,
which are one too many. -/
theorem layout_exact_edges :
    (∃ words : List Felt, (∀ w : Writer, w.byteString (List.replicate 31 0 ++ [1, 2]) =
        (.ok (), ⟨w.words ++ words⟩)) ∧ words.map Felt.val = [1, 0, 258, 2]) ∧
      ∀ w : Writer, w.byteString (List.replicate (31 * 2 ^ 32) 0) =
        (.error (.range (.integer (2 ^ 32 : Nat)) .w32 false), w) := by
  constructor
  · obtain ⟨words, written, -, numbers, -⟩ :=
      (layout_exact (List.replicate 31 0 ++ [1, 2])).2.1 (by decide)
    exact ⟨words, written, by rw [numbers]; decide⟩
  · intro w
    have length : (List.replicate (31 * 2 ^ 32) (0 : UInt8)).length = 31 * 2 ^ 32 :=
      List.length_replicate
    rw [(layout_exact (List.replicate (31 * 2 ^ 32) 0)).2.2 (Nat.le_of_eq length.symm) w, length]
    rfl

end FeltWire.ByteString
