import FeltWire.Proofs.Reader.Exact
import FeltWire.Proofs.Scalar

/-!
# Byte strings are read exactly

The words of a byte string are read as that byte string, and no other words are:
the bytes in front of a chunk have to be zero, fewer than 31 bytes can be left
over, and their number is what it says.

## Main definitions

* `ByteString.readBody`: the part of a byte string behind the number of its full
  chunks
* `ByteString.BodyWords`: the words of that part

## Main results

* `unpad?_eq_some_iff`: the bytes of a chunk and its word determine each other
* `encode_append`: the words of a byte string that is cut into chunks
* `exact_readChunks`, `exact_readBody`, `exact_read`: chunks, what follows their
  number, and byte strings are read exactly
-/

namespace FeltWire.ByteString

/-! ## Chunks -/

/-- A chunk is below the `prime`, so that its word is its number. -/
theorem val_chunkWord {bytes : List UInt8} (size : bytes.length ≤ chunkSize) :
    (chunkWord bytes).val = BigEndian.decode bytes := by
  apply Felt.val_reduce_of_lt
  calc BigEndian.decode bytes < 256 ^ bytes.length := BigEndian.decode_lt bytes
    _ ≤ 256 ^ chunkSize := Nat.pow_le_pow_right (by decide) size
    _ ≤ prime := Felt.chunk_le_prime

/-- **Chunks and their words** determine each other, once the number of bytes is
known: `unpad?` undoes `chunkWord` at one `length`. -/
theorem unpad?_eq_some_iff {length : Nat} {x : Felt} {bytes : List UInt8}
    (size : length ≤ chunkSize) :
    unpad? length x = some bytes ↔ bytes.length = length ∧ chunkWord bytes = x := by
  constructor
  · intro h
    unfold unpad? at h
    split at h
    · next low =>
      cases h
      refine ⟨BigEndian.length_encode .., Felt.ext ?_⟩
      rw [val_chunkWord (by rwa [BigEndian.length_encode]), BigEndian.decode_encode,
        Nat.mod_eq_of_lt low]
    · cases h
  · rintro ⟨rfl, rfl⟩
    rw [unpad?, val_chunkWord size, if_pos (BigEndian.decode_lt bytes), BigEndian.encode_decode]

/-- A word `x` that holds a chunk is followed by what the chunks after it are
written as; `unpad?` tells whether it does. -/
theorem exact_chunk (index : Nat) (x : Felt) {others : Reader Fault (List UInt8)}
    {written : List UInt8 → List UInt8 → Prop}
    (h : Reader.Exact Fault.IsShortage others written) :
    Reader.Exact Fault.IsShortage
      (match unpad? chunkSize x with
        | none => throw (.padding (.chunk index))
        | some chunk => do return chunk ++ (← others))
      fun data bytes => ∃ chunk, unpad? chunkSize x = some chunk ∧
        ∃ rest, data = chunk ++ rest ∧ written rest bytes := by
  cases unpad? chunkSize x with
  | none => exact (Reader.Exact.fail _).congr fun data bytes => by simp
  | some chunk => exact (h.map (chunk ++ ·)).congr fun data bytes => by simp

/-- The words of full chunks are read exactly (`Reader.Exact`), for every number
`count` of them. The induction cuts off the first chunk. -/
theorem exact_readChunks (index count : Nat) :
    Reader.Exact Fault.IsShortage (readChunks index count) fun data bytes =>
      data.length = count * chunkSize ∧
        wordBytes ((chunks count data).map chunkWord) = bytes := by
  induction count generalizing index with
  | zero =>
    refine (Reader.Exact.pure []).congr fun data bytes => ?_
    simp [chunks, eq_comm]
  | succ count ih =>
    refine (Reader.exact_word.bind fun x => exact_chunk index x (ih (index + 1))).congr
      fun data bytes => ?_
    constructor
    · rintro ⟨size, rfl⟩
      rw [Nat.add_mul, Nat.one_mul] at size
      have front : (data.take chunkSize).length = chunkSize := by
        rw [List.length_take]
        omega
      have good := (unpad?_eq_some_iff (Nat.le_refl _)).2 ⟨front, rfl⟩
      have back : (data.drop chunkSize).length = count * chunkSize := by
        rw [List.length_drop]
        omega
      exact ⟨_, _, _, rfl, ⟨_, good, _, (List.take_append_drop ..).symm, back, rfl⟩,
        wordBytes_cons ..⟩
    · rintro ⟨x, _, _, rfl, ⟨chunk, good, rest, rfl, size, rfl⟩, rfl⟩
      obtain ⟨front, rfl⟩ := (unpad?_eq_some_iff (Nat.le_refl _)).1 good
      refine ⟨by rw [List.length_append, front, size, Nat.add_mul, Nat.one_mul, Nat.add_comm], ?_⟩
      simp only [chunks, ← front, List.take_left, List.drop_left, List.map_cons, wordBytes_cons]

@[simp] theorem length_chunks (count : Nat) (data : List UInt8) :
    (chunks count data).length = count := by
  induction count generalizing data with
  | zero => rfl
  | succ count ih => simp [chunks, ih]

/-- Chunks are cut from the front, so that `rest` behind full ones changes
nothing. -/
theorem chunks_append {count : Nat} {data : List UInt8} (size : data.length = count * chunkSize)
    (rest : List UInt8) : chunks count (data ++ rest) = chunks count data := by
  induction count generalizing data with
  | zero => rfl
  | succ count ih =>
    rw [Nat.add_mul, Nat.one_mul] at size
    have back : (data.drop chunkSize).length = count * chunkSize := by
      rw [List.length_drop]
      omega
    rw [chunks, chunks, List.take_append_of_le_length (by omega),
      List.drop_append_of_le_length (by omega), ih back]

/-! ## Whole byte strings -/

/-- The number `full` of full chunks, whatever fewer than `chunkSize` bytes
follow. -/
theorem length_append_div {full : Nat} {data rest : List UInt8}
    (size : data.length = full * chunkSize) (few : rest.length < chunkSize) :
    (data ++ rest).length / chunkSize = full := by
  rw [List.length_append, size, Nat.mul_comm, Nat.mul_add_div (by decide), Nat.div_eq_of_lt few,
    Nat.add_zero]

/-- **The words of a byte string** that is cut into full `chunks` and fewer than
`chunkSize` bytes. -/
theorem encode_append {full : Nat} {data rest : List UInt8}
    (size : data.length = full * chunkSize) (few : rest.length < chunkSize) :
    encode (data ++ rest) = (encodeUnsigned .w32 full).map fun count =>
      count :: (chunks full data).map chunkWord ++ [chunkWord rest, .reduce rest.length] := by
  have left : pending (data ++ rest) = rest := by
    rw [pending, length_append_div size few, ← size, List.drop_left]
  have length : pendingLength (data ++ rest) = .reduce rest.length := by
    rw [pendingLength, Felt.ofUnsigned_eq_reduce, left]
  unfold encode
  simp only [length_append_div size few, left, length, chunks_append size]
  cases encodeUnsigned .w32 full <;> rfl

/-- Every byte string is cut into full `chunks` and fewer than `chunkSize`
bytes. -/
theorem exists_chunks (data : List UInt8) : ∃ full front rest, data = front ++ rest ∧
    front.length = full * chunkSize ∧ rest.length < chunkSize := by
  have few : data.length % chunkSize < chunkSize := Nat.mod_lt _ (by decide)
  have whole := Nat.div_add_mod' data.length chunkSize
  refine ⟨data.length / chunkSize, data.take (data.length / chunkSize * chunkSize),
    data.drop (data.length / chunkSize * chunkSize), (List.take_append_drop ..).symm, ?_, ?_⟩
  · rw [List.length_take]
    omega
  · rw [List.length_drop]
    omega

/-- A byte string takes as many words as its length says
(`ByteString.words`). -/
theorem length_of_encode {data : List UInt8} {words : List Felt} (h : encode data = .ok words) :
    words.length = ByteString.words data.length := by
  obtain ⟨full, front, rest, rfl, size, few⟩ := exists_chunks data
  rw [encode_append size few, map_eq_ok_iff] at h
  obtain ⟨count, -, rfl⟩ := h
  rw [ByteString.words, length_append_div size few]
  simp

/-- The bytes left over and their number are read exactly, behind the `data` of
the chunks. The number is below `chunkSize`, so that its word is that number
again. -/
theorem exact_pending (data : List UInt8) :
    Reader.Exact Fault.IsShortage
      (do
        let pending ← Reader.word
        let length ← Reader.word
        if length.val < chunkSize then
          match unpad? length.val pending with
          | none => throw (.padding (.pendingExcess length.val))
          | some rest => return data ++ rest
        else
          throw (.padding (.pendingLength length)))
      fun whole bytes => ∃ rest, rest.length < chunkSize ∧ whole = data ++ rest ∧
        wordBytes [chunkWord rest, .reduce rest.length] = bytes := by
  have last (pending length : Felt) : Reader.Exact Fault.IsShortage
      (if length.val < chunkSize then
          match unpad? length.val pending with
          | none => throw (.padding (.pendingExcess length.val))
          | some rest => return data ++ rest
        else
          throw (.padding (.pendingLength length)))
      fun whole bytes => ∃ rest, length.val < chunkSize ∧ unpad? length.val pending = some rest ∧
        whole = data ++ rest ∧ bytes = [] := by
    split
    · next few =>
      split
      · next bad => exact (Reader.Exact.fail _).congr fun whole bytes => by simp [bad]
      · next rest good => exact (Reader.Exact.pure _).congr fun whole bytes => by simp [few, good]
    · next many => exact (Reader.Exact.fail _).congr fun whole bytes => by simp [many]
  refine (Reader.exact_word.bind fun pending => Reader.exact_word.bind (last pending)).congr
    fun whole bytes => ?_
  constructor
  · rintro ⟨rest, few, rfl, rfl⟩
    have length : (Felt.reduce rest.length).val = rest.length :=
      Felt.val_reduce_of_lt (Nat.lt_trans few (by decide))
    have good : unpad? (Felt.reduce rest.length).val (chunkWord rest) = some rest := by
      rw [length]
      exact (unpad?_eq_some_iff (Nat.le_of_lt few)).2 ⟨rfl, rfl⟩
    exact ⟨_, _, _, rfl, ⟨_, _, _, rfl, ⟨rest, by rwa [length], good, rfl, rfl⟩, rfl⟩, rfl⟩
  · rintro ⟨pending, _, _, rfl, ⟨length, _, _, rfl, ⟨rest, few, good, rfl, rfl⟩, rfl⟩, rfl⟩
    obtain ⟨size, rfl⟩ := (unpad?_eq_some_iff (Nat.le_of_lt few)).1 good
    refine ⟨rest, size ▸ few, rfl, ?_⟩
    rw [size, Felt.reduce_val, wordBytes_cons, wordBytes_cons, wordBytes_nil]

/-- A byte string behind the number `full` of its full chunks, the second half
of `read`. -/
def readBody (full : Nat) : Reader Fault (List UInt8) := do
  let data ← readChunks 0 full
  let pending ← Reader.word
  let length ← Reader.word
  if length.val < chunkSize then
    match unpad? length.val pending with
    | none => throw (.padding (.pendingExcess length.val))
    | some rest => return data ++ rest
  else
    throw (.padding (.pendingLength length))

/-- The words of a byte string behind the number `full` of its full chunks. -/
def BodyWords (full : Nat) (whole bytes : List UInt8) : Prop :=
  ∃ data rest, whole = data ++ rest ∧ data.length = full * chunkSize ∧ rest.length < chunkSize ∧
    wordBytes ((chunks full data).map chunkWord ++ [chunkWord rest, .reduce rest.length]) = bytes

/-- **What follows the number of full chunks** is read exactly: `readBody` reads
what `BodyWords` describes. -/
theorem exact_readBody (full : Nat) :
    Reader.Exact Fault.IsShortage (readBody full) (BodyWords full) := by
  refine ((exact_readChunks 0 full).bind exact_pending).congr fun whole bytes => ?_
  constructor
  · rintro ⟨data, rest, rfl, size, few, rfl⟩
    exact ⟨data, _, _, ⟨size, rfl⟩, ⟨rest, few, rfl, rfl⟩, (wordBytes_append ..).symm⟩
  · rintro ⟨data, _, _, ⟨size, rfl⟩, ⟨rest, few, rfl, rfl⟩, rfl⟩
    exact ⟨data, rest, rfl, size, few, wordBytes_append ..⟩

/-- Each full chunk takes a word, and two more words follow them: the bytes left
over and their number. -/
theorem BodyWords.le_length {full : Nat} {whole bytes : List UInt8}
    (h : BodyWords full whole bytes) : (full + 2) * wordSize ≤ bytes.length := by
  obtain ⟨data, rest, -, -, -, rfl⟩ := h
  rw [length_wordBytes]
  simp

/-- **Byte strings are read exactly.** The test in `read` that the promised
words are there fails on no genuine byte string. -/
theorem exact_read : Reader.Exact Fault.IsShortage read fun data bytes =>
    (encode data).map wordBytes = .ok bytes := by
  have tested (full : Nat) := (exact_readBody full).after_check (Reader.check_require (full + 2))
    fun _ _ body => body.le_length
  refine (Reader.exact_word.bind fun x =>
    (Reader.Exact.lift (decodeUnsigned .w32 x)).bind tested).congr fun whole bytes => ?_
  rw [map_eq_ok_iff]
  constructor
  · rintro ⟨words, encoded, rfl⟩
    obtain ⟨full, data, rest, rfl, size, few⟩ := exists_chunks whole
    rw [encode_append size few, map_eq_ok_iff] at encoded
    obtain ⟨count, fits, rfl⟩ := encoded
    have counted := decodeUnsigned_eq_ok_iff.2 fits
    exact ⟨count, _, _, rfl, ⟨full, _, _, ⟨counted, rfl⟩, ⟨data, rest, rfl, size, few, rfl⟩, rfl⟩,
      by simp⟩
  · rintro ⟨count, _, _, rfl, ⟨full, _, _, ⟨counted, rfl⟩, ⟨data, rest, rfl, size, few, rfl⟩,
      rfl⟩, rfl⟩
    have fits := decodeUnsigned_eq_ok_iff.1 counted
    exact ⟨_, by rw [encode_append size few, fits]; rfl, by simp⟩

end FeltWire.ByteString
