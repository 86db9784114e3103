import FeltWire.Reader
import FeltWire.Scalar

/-!
# Byte strings as words

A byte string is cut into chunks of 31 bytes. Its words are the number of full
chunks, the chunks, the bytes that are left over, fewer than 31, and how many
these are:

    [full] [chunk 0] … [chunk full-1] [pending] [pending length]

Each chunk and the left-over bytes are numbers whose first byte is the most
significant, so the bytes in front of them are zero.

## Main definitions

* `ByteString.words`: how many words a byte string takes
* `ByteString.pending`: the bytes that the full chunks leave over
* `ByteString.encode`: the words of a byte string
* `ByteString.read`: the byte string whose words come next
-/

namespace FeltWire.ByteString

/-- How many words a byte string of the given `length` takes: its full chunks,
their count, the pending word and its length. -/
def words (length : Nat) : Nat := length / chunkSize + 3

/-- The first `count` chunks of `chunkSize` bytes. -/
def chunks : (count : Nat) → List UInt8 → List (List UInt8)
  | 0, _ => []
  | count + 1, bytes => bytes.take chunkSize :: chunks count (bytes.drop chunkSize)

/-- The word of a chunk or of the left-over bytes, whose number
`BigEndian.decode` gives. -/
def chunkWord (bytes : List UInt8) : Felt := .reduce (BigEndian.decode bytes)

/-- The bytes that the full `chunks` leave over, fewer than `chunkSize`. -/
def pending (bytes : List UInt8) : List UInt8 := bytes.drop (bytes.length / chunkSize * chunkSize)

theorem length_pending_lt (bytes : List UInt8) : (pending bytes).length < chunkSize := by
  have whole := Nat.div_add_mod' bytes.length chunkSize
  have few : bytes.length % chunkSize < chunkSize := Nat.mod_lt _ (by decide)
  rw [pending, List.length_drop]
  omega

/-- The word of how many bytes are left over, a number that `length_pending_lt`
bounds. -/
def pendingLength (bytes : List UInt8) : Felt :=
  .ofUnsigned (pending bytes).length (Nat.lt_trans (length_pending_lt bytes) (by decide))

/-- **The words of a byte string**: the count of full chunks, the `chunks`, the
`pending` bytes and their number. The count has to be one of 32 bits. -/
def encode (bytes : List UInt8) : Except Fault (List Felt) := do
  let full := bytes.length / chunkSize
  let count ← encodeUnsigned .w32 full
  return count :: (chunks full bytes).map chunkWord ++
    [chunkWord (pending bytes), pendingLength bytes]

/-- The last `length` bytes of a `word`, if the bytes in front of them are
zero. -/
def unpad? (length : Nat) (word : Felt) : Option (List UInt8) :=
  if word.val < 256 ^ length then some (BigEndian.encode length word.val) else none

/-- The bytes of the next `count` chunks, the first of which has the given
`index`; a chunk that `unpad?` refuses is reported with its index. -/
def readChunks (index : Nat) : (count : Nat) → Reader Fault (List UInt8)
  | 0 => return []
  | count + 1 => do
    let word ← Reader.word
    match unpad? chunkSize word with
    | none => throw (.padding (.chunk index))
    | some chunk => return chunk ++ (← readChunks (index + 1) count)

/-- **The byte string whose words come next.** The words that its count promises
have to be there (`Reader.require`) before any of them is read. -/
def read : Reader Fault (List UInt8) := do
  let full ← Reader.lift (decodeUnsigned .w32 (← Reader.word))
  Reader.require (full + 2)
  let data ← readChunks 0 full
  let pending ← Reader.word
  let length ← Reader.word
  if length.val < chunkSize then
    match unpad? length.val pending with
    | none => throw (.padding (.pendingExcess length.val))
    | some rest => return data ++ rest
  else
    throw (.padding (.pendingLength length))

end FeltWire.ByteString
