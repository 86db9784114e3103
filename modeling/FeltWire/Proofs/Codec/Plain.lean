import FeltWire.Proofs.Codec.Exact

/-!
# Reading without looking ahead

Before the chunks of a byte string and before the elements of a sequence, the
number of words that are left is compared with the number that was promised. The
plain reader does without: it reads one chunk or element after another and runs
out of words where they end. It gives the same values.

## Why the values are the same

A test of the number of bytes left reads nothing, so that it can only turn a
value into an error. It would do so if a value could be read from fewer words
than were promised. Each full chunk takes a word, and so does each element,
whatever its shape: elements of a shape that takes no words are refused
beforehand, by both readers. The errors differ, since the plain reader finds out
late and blames the chunk or the element that it was reading.

## Main definitions

* `Reader.SameResults`: two steps that differ only in their errors
* `ByteString.readPlain`, `Shape.readPlain`, `Shape.decodePlain`: reading
  without the tests

## Main results

* `SameResults.bind`, `Check.sameResults`: steps one after another, and a test
  that no result fails
* `Shape.sameResults_sequence`, `Shape.sameResults_readPlain`: sequences and all
  values are read alike
* `Shape.decode_eq_ok_iff_decodePlain`: values are decoded alike
-/

namespace FeltWire

/-! ## Steps with the same results -/

namespace Reader

variable {ε ε' α β : Type}

/-- **Two steps with the same results**: from every place, what one of them
gives the other gives as well, and both stop at the same place. Nothing is said
about their errors. -/
def SameResults (r r' : Reader ε α) : Prop :=
  ∀ c a after, r.outcome c = (.ok a, after) ↔ r'.outcome c = (.ok a, after)

namespace SameResults

variable {r r' : Reader ε α}

theorem refl (r : Reader ε α) : SameResults r r := fun _ _ _ => Iff.rfl

theorem trans {r'' : Reader ε α} (h : SameResults r r') (h' : SameResults r' r'') :
    SameResults r r'' := fun c a after => (h c a after).trans (h' c a after)

/-- One step after another. The second steps have to agree only on what the
first can give (`hf`). -/
theorem bind_of_outcome {f f' : α → Reader ε β} (h : SameResults r r')
    (hf : ∀ a c after, r.outcome c = (.ok a, after) → SameResults (f a) (f' a)) :
    SameResults (r >>= f) (r' >>= f') := by
  intro c b after
  rw [outcome_bind_eq_ok_iff, outcome_bind_eq_ok_iff]
  constructor
  · rintro ⟨a, middle, first, second⟩
    exact ⟨a, middle, (h c a middle).1 first, (hf a c middle first middle b after).1 second⟩
  · rintro ⟨a, middle, first, second⟩
    have first' := (h c a middle).2 first
    exact ⟨a, middle, first', (hf a c middle first' middle b after).2 second⟩

theorem bind {f f' : α → Reader ε β} (h : SameResults r r') (hf : ∀ a, SameResults (f a) (f' a)) :
    SameResults (r >>= f) (r' >>= f') :=
  h.bind_of_outcome fun a _ _ _ => hf a

/-- Where an error is seen from, by `g`, does not matter. -/
theorem mapError (g : ε → ε') (h : SameResults r r') :
    SameResults (r.mapError g) (r'.mapError g) := by
  intro c a after
  rw [outcome_mapError_eq_ok_iff, outcome_mapError_eq_ok_iff]
  exact h c a after

end SameResults

/-- **A test that no result fails** (`enough`) can be left out. It never moves,
so that what follows it starts where the test did. -/
theorem Check.sameResults {short : ε → Prop} {test : Reader ε Unit} {size : Nat} {r : Reader ε α}
    {written : α → List UInt8 → Prop} (check : Check short test size) (h : Exact short r written)
    (enough : ∀ a bytes, written a bytes → size ≤ bytes.length) :
    SameResults (test >>= fun _ => r) r := by
  intro c a after
  rw [outcome_bind_eq_ok_iff]
  constructor
  · rintro ⟨⟨⟩, middle, tested, read⟩
    rcases check.stays c with passed | ⟨e, failed, -⟩
    · rw [passed] at tested
      cases tested
      exact read
    · rw [failed] at tested
      cases (Prod.mk.inj tested).1
  -- what was read was there: the test passes
  · intro read
    obtain ⟨bytes, w, split⟩ := h.canonical read
    have room : size ≤ c.remaining := by
      rw [Cursor.remaining, split, List.length_append]
      exact Nat.le_add_right_of_le (enough a bytes w)
    exact ⟨(), c, check.passes c room, read⟩

end Reader

/-! ## Byte strings -/

namespace ByteString

/-- **A byte string, read chunk by chunk**, without the test of
`ByteString.read` that all of them are there. -/
def readPlain : Reader Fault (List UInt8) := do
  let full ← Reader.lift (decodeUnsigned .w32 (← Reader.word))
  readBody full

theorem sameResults_readPlain : Reader.SameResults read readPlain := by
  apply Reader.SameResults.bind (.refl _)
  intro x
  apply Reader.SameResults.bind (.refl _)
  intro full
  apply (Reader.check_require (full + 2)).sameResults (exact_readBody full)
  intro whole bytes body
  exact body.le_length

end ByteString

/-! ## Values -/

namespace Shape

mutual

/-- **A value, read component by component**, without a test that the elements
of a sequence have words left. -/
def readPlain : Shape → Reader WireError Value
  | .bytes => return .bytes (← Reader.atRoot ByteString.readPlain)
  | .record _ fields => return .record (← readPlainFields 0 fields)
  | .sequence s => do
    Reader.atRoot (.lift s.checkElement)
    let count ← Reader.atRoot (.scalar (decodeUnsigned lengthWidth))
    return .sequence (← readElements s.readPlain 0 count)
  | .tuple items => return .tuple (← readPlainItems 0 items)
  | s => s.read

/-- The fields of a record, the first of which has the given `position`. -/
def readPlainFields (position : Nat) : List (String × Shape) → Reader WireError (List Value)
  | [] => return []
  | (name, s) :: fields => do
    let v ← Reader.atStep (.field position name) s.readPlain
    let vs ← readPlainFields (position + 1) fields
    return v :: vs

/-- The items of a tuple, the first of which has the given `position`. -/
def readPlainItems (position : Nat) : List Shape → Reader WireError (List Value)
  | [] => return []
  | s :: items => do
    let v ← Reader.atStep (.item position) s.readPlain
    let vs ← readPlainItems (position + 1) items
    return v :: vs

end

/-- **The value of a run of bytes**, all of which have to be used, read
component by component (`readPlain`). -/
def decodePlain (s : Shape) (bytes : List UInt8) : Except WireError Value :=
  let whole : Reader WireError Value := do
    let v ← s.readPlain
    Reader.atRoot .finish
    return v
  (whole.outcome (.start bytes)).1

/-- A component and those behind it are read alike if each is, through the same
`step`. -/
theorem sameResults_cons {r r' : Reader WireError Value} {rs rs' : Reader WireError (List Value)}
    (step : Step) (head : Reader.SameResults r r') (tail : Reader.SameResults rs rs') :
    Reader.SameResults
      (do
        let v ← Reader.atStep step r
        let vs ← rs
        return v :: vs)
      (do
        let v ← Reader.atStep step r'
        let vs ← rs'
        return v :: vs) := by
  apply Reader.SameResults.bind (head.mapError _)
  intro v
  exact tail.bind fun vs => .refl _

theorem sameResults_readPlainFields {fields : List (String × Shape)}
    (each : ∀ f ∈ fields, Reader.SameResults f.2.read f.2.readPlain) (position : Nat) :
    Reader.SameResults (readFields position fields) (readPlainFields position fields) := by
  induction fields generalizing position with
  | nil => exact .refl _
  | cons f fields ih =>
    have tail := ih (fun g hg => each g (List.mem_cons_of_mem _ hg)) (position + 1)
    exact sameResults_cons _ (each f List.mem_cons_self) tail

theorem sameResults_readPlainItems {items : List Shape}
    (each : ∀ s ∈ items, Reader.SameResults s.read s.readPlain) (position : Nat) :
    Reader.SameResults (readItems position items) (readPlainItems position items) := by
  induction items generalizing position with
  | nil => exact .refl _
  | cons s items ih =>
    have tail := ih (fun t ht => each t (List.mem_cons_of_mem _ ht)) (position + 1)
    exact sameResults_cons _ (each s List.mem_cons_self) tail

theorem sameResults_readElements {r r' : Reader WireError Value} (each : Reader.SameResults r r')
    (index count : Nat) :
    Reader.SameResults (readElements r index count) (readElements r' index count) := by
  induction count generalizing index with
  | zero => exact .refl _
  | succ count ih => exact sameResults_cons _ each (ih (index + 1))

/-- **A sequence is read alike** if its elements are: these take words, so that
as many words are left as there are elements wherever all of them can be read.
First the test goes, and then the elements are read plainly. -/
theorem sameResults_sequence {s : Shape} (element : Reader.SameResults s.read s.readPlain) :
    Reader.SameResults s.sequence.read s.sequence.readPlain := by
  apply Reader.SameResults.bind_of_outcome (.refl _)
  intro _ c after checked
  have positive : s.fixedWords ≠ some 0 :=
    checkElement_eq_ok_iff.1 (Prod.mk.inj (Reader.outcome_mapError_eq_ok_iff.1 checked)).1
  apply Reader.SameResults.bind (.refl _)
  intro count
  have tested : Reader.SameResults
      (do
        Reader.atRoot (.require count)
        return Value.sequence (← readElements s.read 0 count))
      (do return Value.sequence (← readElements s.read 0 count)) := by
    rw [readElements_eq]
    apply (Reader.check_require count).atRoot.sameResults
      ((exact_readElements s.exact_read count).map Value.sequence)
    rintro _ bytes ⟨vs, rfl, encodings, each, rfl⟩
    exact each.le_length_flatten positive
  exact tested.trans ((sameResults_readElements element 0 count).bind fun _ => .refl _)

/-- **Values are read alike**: `readPlain` gives what `read` gives. -/
theorem sameResults_readPlain (s : Shape) : Reader.SameResults s.read s.readPlain := by
  induction s using inductScalar with
  | scalar s scalar =>
    cases s with
    | bytes | record | sequence | tuple => exact scalar.elim
    | _ => exact .refl _
  | bytes => exact (ByteString.sameResults_readPlain.mapError _).bind fun _ => .refl _
  | record name fields ih => exact (sameResults_readPlainFields ih 0).bind fun _ => .refl _
  | tuple items ih => exact (sameResults_readPlainItems ih 0).bind fun _ => .refl _
  | sequence s ih => exact sameResults_sequence ih

/-- **Looking ahead changes no value**: bytes `decode` to a value exactly if
they do so read component by component. -/
theorem decode_eq_ok_iff_decodePlain (s : Shape) (bytes : List UInt8) (v : Value) :
    s.decode bytes = .ok v ↔ s.decodePlain bytes = .ok v := by
  have whole := s.sameResults_readPlain.bind fun v =>
    Reader.SameResults.refl (do
      Reader.atRoot .finish
      return v)
  constructor
  · intro decoded
    have plain := (whole (.start bytes) v _).1 (Prod.ext decoded rfl)
    exact congrArg Prod.fst plain
  · intro decoded
    have tested := (whole (.start bytes) v _).2 (Prod.ext decoded rfl)
    exact congrArg Prod.fst tested

/-- Two elements are promised and one is there: without the test, the second one
is missed. -/
example : (sequence .bool).decode (wordBytes [.reduce 2, .reduce 1]) =
      .error ⟨[], .truncated 64 32⟩ ∧
    (sequence .bool).decodePlain (wordBytes [.reduce 2, .reduce 1]) =
      .error ⟨[.element 1], .truncated 32 0⟩ := ⟨rfl, rfl⟩

end Shape

end FeltWire
