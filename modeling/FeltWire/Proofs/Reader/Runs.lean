import FeltWire.Proofs.ByteString

/-!
# Runs of reading steps

Steps are taken one after another on one cursor, and a run goes on after a step
that failed, from wherever that step stopped. Such a run stays in step with its
bytes: the cursor is always a whole number of words from the start and never
moves back, and what it has in front of it is what is left of the bytes.

## Why a failing step keeps this

A byte string is read in several steps, and one of them may fail after others
have moved the cursor. So the laws are about where a step stops in either case,
and they are kept by one step after another because a failure in the middle
stops where the last success did. Nothing in a step looks at the position, so
that a run cannot tell how many bytes came before it.

## Main definitions

* `Cursor.shift`: the same bytes in front, but more of them read before
* `Cursor.InStep`: a cursor in step with its bytes
* `Reader.Disciplined`: a step moves over whole words and does not see what came
  before it
* `Reading`, `Reading.outcomes`, `Reading.after`: steps, the outcomes of a run,
  and where it stops
* `Reading.Strides`: how far a step moves

## Main results

* `Disciplined.bind`, `disciplined_word`, `ByteString.disciplined_read`: the
  steps are disciplined
* `position_of_read`: how far a byte string moves the cursor
* `Reading.inStep_after`: what a whole run keeps
* `Reading.outcomes_shift`: a run from a later place
* `run_discipline`: the laws of runs together
-/

namespace FeltWire

namespace Cursor

/-- The same bytes in front, but `offset` more of them read before. -/
def shift (offset : Nat) (c : Cursor) : Cursor := ⟨offset + c.position, c.rest⟩

@[simp] theorem advance_zero (c : Cursor) : c.advance 0 = c := rfl

@[simp] theorem advance_advance (c : Cursor) (m n : Nat) :
    (c.advance m).advance n = c.advance (m + n) := by
  simp [advance, Nat.add_assoc]

@[simp] theorem remaining_advance (c : Cursor) (n : Nat) :
    (c.advance n).remaining = c.remaining - n := List.length_drop

@[simp] theorem position_advance (c : Cursor) (n : Nat) :
    (c.advance n).position = c.position + n := rfl

@[simp] theorem rest_shift (offset : Nat) (c : Cursor) : (c.shift offset).rest = c.rest := rfl

@[simp] theorem remaining_shift (offset : Nat) (c : Cursor) :
    (c.shift offset).remaining = c.remaining := rfl

/-- **A cursor in step with its bytes**, as one that has come from
`Cursor.start` by whole words. -/
structure InStep (bytes : List UInt8) (c : Cursor) : Prop where
  /-- The `position` is a whole number of words from the start. -/
  whole : 32 ∣ c.position
  /-- What was read and what is left are all the `bytes`. -/
  total : c.position + c.remaining = bytes.length
  /-- What is left are the `bytes` from the position on. -/
  rest : c.rest = bytes.drop c.position

theorem InStep.start (bytes : List UInt8) : (Cursor.start bytes).InStep bytes :=
  ⟨Nat.dvd_zero 32, Nat.zero_add _, rfl⟩

theorem shift_advance (offset n : Nat) (c : Cursor) :
    (c.advance n).shift offset = (c.shift offset).advance n := by
  simp [shift, advance, Nat.add_assoc]

end Cursor

namespace Reader

variable {ε ε' α β : Type}

/-- A result that is changed by `g` on the way out does not change where the
step stops. -/
theorem outcome_map (r : Reader ε α) (g : α → β) (c : Cursor) :
    (r >>= fun a => pure (g a)).outcome c = ((r.outcome c).1.map g, (r.outcome c).2) := by
  rw [outcome_bind]
  rcases r.outcome c with ⟨_ | a, middle⟩ <;> rfl

theorem outcome_map_eq_error_iff {r : Reader ε α} {g : α → β} {c after : Cursor} {e : ε} :
    (r >>= fun a => pure (g a)).outcome c = (.error e, after) ↔
      r.outcome c = (.error e, after) := by
  rw [outcome_bind_eq_error_iff]
  refine or_iff_left ?_
  rintro ⟨a, middle, -, done⟩
  cases (Prod.mk.inj done).1

/-! ## Disciplined steps -/

/-- **A disciplined step**: what it `advances` over are whole words, and it
`shifts` with the cursor. -/
structure Disciplined (r : Reader ε α) : Prop where
  /-- It moves over whole words, all of which are there, whether it succeeds or
  fails. -/
  advances : ∀ c, ∃ words, words * wordSize ≤ c.remaining ∧
    (r.outcome c).2 = c.advance (words * wordSize)
  /-- It does not see how many bytes were read before. -/
  shifts : ∀ offset c,
    r.outcome (c.shift offset) = ((r.outcome c).1, (r.outcome c).2.shift offset)

/-- A step that never moves is `Disciplined` if it does not see what came before
it. -/
theorem Disciplined.of_stays {r : Reader ε α} (stays : ∀ c, (r.outcome c).2 = c)
    (same : ∀ offset c, (r.outcome (c.shift offset)).1 = (r.outcome c).1) : Disciplined r where
  advances c := ⟨0, Nat.zero_le _, by rw [stays, Nat.zero_mul, Cursor.advance_zero]⟩
  shifts offset c := by
    rw [Prod.ext_iff]
    exact ⟨same offset c, by rw [stays, stays]⟩

namespace Disciplined

variable {r : Reader ε α}

theorem lift (x : Except ε α) : Disciplined (Reader.lift x) :=
  of_stays (fun _ => rfl) fun _ _ => rfl

theorem pure (a : α) : Disciplined (Pure.pure a : Reader ε α) := lift (.ok a)

theorem fail (e : ε) : Disciplined (throw e : Reader ε α) := lift (.error e)

/-- **One step after another.** If the first fails the second is not taken, and
the cursor stays where the first has left it; otherwise the words of both add
up. -/
theorem bind {f : α → Reader ε β} (h : Disciplined r) (hf : ∀ a, Disciplined (f a)) :
    Disciplined (r >>= f) where
  advances c := by
    obtain ⟨words, room, moved⟩ := h.advances c
    rw [outcome_bind]
    rcases first : r.outcome c with ⟨_ | a, middle⟩
    · rw [first] at moved
      exact ⟨words, room, moved⟩
    · rw [first] at moved
      obtain ⟨more, room', moved'⟩ := (hf a).advances middle
      obtain rfl : middle = c.advance (words * wordSize) := moved
      rw [Cursor.remaining_advance] at room'
      refine ⟨words + more, ?_, ?_⟩
      · rw [Nat.add_mul]
        omega
      · rw [Nat.add_mul, ← Cursor.advance_advance]
        exact moved'
  shifts offset c := by
    rw [outcome_bind, outcome_bind, h.shifts]
    rcases first : r.outcome c with ⟨_ | a, middle⟩
    · rfl
    · exact (hf a).shifts offset middle

theorem map (h : Disciplined r) (g : α → β) : Disciplined (r >>= fun a => Pure.pure (g a)) :=
  h.bind fun a => pure (g a)

/-- Where an error is seen from, by `g`, does not matter. -/
theorem mapError (h : Disciplined r) (g : ε → ε') : Disciplined (r.mapError g) where
  advances c := h.advances c
  shifts offset c := by
    rw [outcome_mapError, outcome_mapError, h.shifts]

/-- **Only the bytes in front decide** what a disciplined step gives: it gives
the same from `Cursor.start` of them. -/
theorem outcome_start (h : Disciplined r) (c : Cursor) :
    (r.outcome (.start c.rest)).1 = (r.outcome c).1 := by
  have same := h.shifts c.position (.start c.rest)
  rw [Cursor.shift, Cursor.start, Nat.add_zero] at same
  exact (congrArg Prod.fst same).symm

/-- What is in front (`Cursor.remaining`) shrinks by as much as the position
grows. -/
theorem position_add_remaining (h : Disciplined r) (c : Cursor) :
    (r.outcome c).2.position + (r.outcome c).2.remaining = c.position + c.remaining := by
  obtain ⟨words, room, moved⟩ := h.advances c
  rw [moved, Cursor.position_advance, Cursor.remaining_advance]
  omega

theorem position_le (h : Disciplined r) (c : Cursor) :
    c.position ≤ (r.outcome c).2.position := by
  obtain ⟨words, room, moved⟩ := h.advances c
  rw [moved]
  exact Nat.le_add_right ..

/-- **What one step keeps**: a cursor that is `InStep` with its bytes stays
so. -/
theorem inStep (h : Disciplined r) {bytes : List UInt8} {c : Cursor} (hc : c.InStep bytes) :
    (r.outcome c).2.InStep bytes := by
  have total := h.position_add_remaining c
  obtain ⟨words, room, moved⟩ := h.advances c
  refine ⟨?_, total.trans hc.total, ?_⟩
  · rw [moved]
    exact Nat.dvd_add hc.whole (Nat.dvd_mul_left ..)
  · rw [moved, Cursor.advance, hc.rest, List.drop_drop]

end Disciplined

theorem disciplined_word : Disciplined word where
  advances c := by
    rw [outcome_word]
    by_cases short : c.rest.length < wordSize
    · rw [if_pos short]
      exact ⟨0, Nat.zero_le _, rfl⟩
    · rw [if_neg short]
      cases Felt.ofBytes (c.rest.take wordSize) with
      | ok x => exact ⟨1, Nat.le_of_not_lt short, rfl⟩
      | error e => exact ⟨0, Nat.zero_le _, rfl⟩
  shifts offset c := by
    rw [outcome_word, outcome_word, Cursor.rest_shift]
    by_cases short : c.rest.length < wordSize
    · rw [if_pos short, if_pos short]
      rfl
    · rw [if_neg short, if_neg short]
      cases Felt.ofBytes (c.rest.take wordSize) with
      | ok x => exact congrArg (Prod.mk _) (Cursor.shift_advance offset wordSize c).symm
      | error e => rfl

theorem outcome_require_snd (words : Nat) (c : Cursor) : ((require words).outcome c).2 = c := by
  rw [outcome_require]
  split <;> rfl

theorem disciplined_require (words : Nat) : Disciplined (require words) := by
  apply Disciplined.of_stays (outcome_require_snd words)
  intro offset c
  rw [outcome_require, outcome_require, Cursor.remaining_shift]
  split <;> rfl

theorem outcome_finish_snd (c : Cursor) : (finish.outcome c).2 = c := by
  rw [outcome_finish]
  split <;> rfl

theorem disciplined_finish : Disciplined finish := by
  apply Disciplined.of_stays outcome_finish_snd
  intro offset c
  rw [outcome_finish, outcome_finish, Cursor.remaining_shift]
  split <;> rfl

end Reader

/-! ## Byte strings -/

namespace ByteString

theorem disciplined_readChunks (index count : Nat) :
    Reader.Disciplined (readChunks index count) := by
  induction count generalizing index with
  | zero => exact .pure []
  | succ count ih =>
    apply Reader.disciplined_word.bind
    intro x
    cases unpad? chunkSize x with
    | none => exact .fail _
    | some chunk => exact (ih (index + 1)).map _

theorem disciplined_readBody (full : Nat) : Reader.Disciplined (readBody full) := by
  apply (disciplined_readChunks 0 full).bind
  intro data
  apply Reader.disciplined_word.bind
  intro pending
  apply Reader.disciplined_word.bind
  intro length
  split
  · cases unpad? length.val pending with
    | none => exact .fail _
    | some rest => exact .pure _
  · exact .fail _

/-- **A byte string is read in disciplined steps**, so that it is read so as a
whole; the chunks go by induction on their number. -/
theorem disciplined_read : Reader.Disciplined read := by
  apply Reader.disciplined_word.bind
  intro x
  apply (Reader.Disciplined.lift (decodeUnsigned .w32 x)).bind
  intro full
  exact (Reader.disciplined_require (full + 2)).bind fun _ => disciplined_readBody full

/-- **A byte string moves the cursor** over as many words as `words data.length`
says. What was read are its words, and they are missing from what is left. -/
theorem position_of_read {c after : Cursor} {data : List UInt8}
    (h : read.outcome c = (.ok data, after)) :
    after.position = c.position + 32 * words data.length := by
  have total : after.position + after.rest.length = c.position + c.rest.length := by
    have kept := disciplined_read.position_add_remaining c
    rwa [h] at kept
  -- the words that were read are missing from what is left
  obtain ⟨bytes, written, split⟩ := exact_read.canonical h
  obtain ⟨encoding, encoded, rfl⟩ := map_eq_ok_iff.1 written
  have passed := congrArg List.length split
  rw [List.length_append, length_wordBytes, length_of_encode encoded] at passed
  unfold wordSize at passed
  omega

end ByteString

/-! ## Runs -/

/-- **A step of a run**, one of those that `Reader` has. -/
inductive Reading where
  | word
  | require (words : Nat)
  | finish
  | byteString
deriving DecidableEq, Repr

namespace Reading

/-- What a step of a run gives. -/
inductive Answer where
  | nothing
  | word (x : Felt)
  | bytes (data : List UInt8)
deriving DecidableEq, Repr

/-- The step itself, as a `Reader`. -/
def reader : Reading → Reader Fault Answer
  | word => return .word (← Reader.word)
  | require words => do
    Reader.require words
    return .nothing
  | finish => do
    Reader.finish
    return .nothing
  | byteString => return .bytes (← ByteString.read)

/-- **The outcomes of a run.** Each of the `steps` starts where the one before
it has stopped, whether that one has succeeded or failed. -/
def outcomes : List Reading → Cursor → List (Except Fault Answer × Cursor)
  | [], _ => []
  | step :: steps, c => step.reader.outcome c :: outcomes steps (step.reader.outcome c).2

/-- Where a run of `steps` from `c` stops. -/
def after (steps : List Reading) (c : Cursor) : Cursor :=
  steps.foldl (fun c step => (step.reader.outcome c).2) c

/-- **How far a step moves**, depending on what it gives. A `byteString` that is
not read may have moved over some of its words. -/
def Strides : Reading → Except Fault Answer → Nat → Prop
  | word, .ok _, distance => distance = 32
  | word, .error _, distance => distance = 0
  | require _, _, distance => distance = 0
  | finish, _, distance => distance = 0
  | byteString, .ok (.bytes data), distance => distance = 32 * ByteString.words data.length
  | byteString, _, _ => True

theorem disciplined_reader (step : Reading) : step.reader.Disciplined := by
  cases step with
  | word => exact Reader.disciplined_word.map _
  | require words => exact (Reader.disciplined_require words).map _
  | finish => exact Reader.disciplined_finish.map _
  | byteString => exact ByteString.disciplined_read.map _

/-- **Each step moves as far as it should**, from every cursor: `Strides` holds
of its result and the distance. -/
theorem strides (step : Reading) (c : Cursor) :
    step.Strides (step.reader.outcome c).1 ((step.reader.outcome c).2.position - c.position) := by
  cases step with
  | word =>
    rw [reader, Reader.outcome_map, Reader.outcome_word]
    by_cases short : c.rest.length < wordSize
    · rw [if_pos short]
      exact Nat.sub_self _
    · rw [if_neg short]
      cases Felt.ofBytes (c.rest.take wordSize) with
      | ok x => exact Nat.add_sub_cancel_left ..
      | error e => exact Nat.sub_self _
  | require words =>
    have stays : ((require words).reader.outcome c).2 = c := by
      rw [reader, Reader.outcome_map, Reader.outcome_require_snd]
    rw [stays, Nat.sub_self]
    rfl
  | finish =>
    have stays : (finish.reader.outcome c).2 = c := by
      rw [reader, Reader.outcome_map, Reader.outcome_finish_snd]
    rw [stays, Nat.sub_self]
    rfl
  | byteString =>
    rw [reader, Reader.outcome_map]
    rcases read : ByteString.read.outcome c with ⟨e | data, next⟩
    · trivial
    · show next.position - c.position = _
      rw [ByteString.position_of_read read]
      exact Nat.add_sub_cancel_left ..

/-- **What a whole run keeps**: `Cursor.InStep`, by induction on the `steps`. -/
theorem inStep_after {bytes : List UInt8} {c : Cursor} (h : c.InStep bytes)
    (steps : List Reading) : (after steps c).InStep bytes := by
  induction steps generalizing c with
  | nil => exact h
  | cons step steps ih => exact ih (step.disciplined_reader.inStep h)

theorem after_concat (steps : List Reading) (step : Reading) (c : Cursor) :
    after (steps ++ [step]) c = (step.reader.outcome (after steps c)).2 := by
  simp [after, List.foldl_append]

/-- The last `step` of a run starts where the steps before it have stopped. -/
theorem outcomes_concat (steps : List Reading) (step : Reading) (c : Cursor) :
    outcomes (steps ++ [step]) c = outcomes steps c ++ [step.reader.outcome (after steps c)] := by
  induction steps generalizing c with
  | nil => rfl
  | cons first steps ih => rw [List.cons_append, outcomes, ih, outcomes, List.cons_append]; rfl

/-- **A run from a later place** gives what it gives from the start, each cursor
shifted by `offset`. -/
theorem outcomes_shift (steps : List Reading) (offset : Nat) (c : Cursor) :
    outcomes steps (c.shift offset) =
      (outcomes steps c).map fun o => (o.1, o.2.shift offset) := by
  induction steps generalizing c with
  | nil => rfl
  | cons step steps ih =>
    rw [outcomes, outcomes, List.map_cons, step.disciplined_reader.shifts, ih]

/-- **The discipline of runs.** Whatever `steps` were taken, whether they
succeeded or failed, the cursor is a whole number of words from the start, and
what it has in front is what is left of the `buffer`; the next step does not
move it back and moves it as far as its result says (`Strides`). Nothing but the
bytes in front decides what a step gives and how far it moves, so that a run
from a later place gives what it gives on the bytes from there on. -/
theorem run_discipline (buffer : List UInt8) :
    (∀ (steps : List Reading) (step : Reading),
      let here := after steps (.start buffer)
      let next := after (steps ++ [step]) (.start buffer)
      let answer := (step.reader.outcome here).1
      outcomes (steps ++ [step]) (.start buffer) =
          outcomes steps (.start buffer) ++ [(answer, next)] ∧
        32 ∣ here.position ∧ here.position + here.remaining = buffer.length ∧
        here.rest = buffer.drop here.position ∧
        32 ∣ next.position ∧ next.position + next.remaining = buffer.length ∧
        here.position ≤ next.position ∧ step.Strides answer (next.position - here.position)) ∧
    (∀ (step : Reading) (front : List UInt8) (p q : Nat),
      let fromP := step.reader.outcome ⟨p, front⟩
      let fromQ := step.reader.outcome ⟨q, front⟩
      fromP.1 = fromQ.1 ∧ fromP.2.rest = fromQ.2.rest ∧
        fromP.2.position - p = fromQ.2.position - q) ∧
    ∀ (steps : List Reading) (p : Nat),
      outcomes steps ⟨p, buffer.drop p⟩ =
        (outcomes steps (.start (buffer.drop p))).map fun o => (o.1, o.2.shift p) := by
  refine ⟨fun steps step => ?_, fun step front p q => ?_, fun steps p => ?_⟩
  · have before := inStep_after (.start buffer) steps
    have behind := inStep_after (.start buffer) (steps ++ [step])
    rw [outcomes_concat, after_concat] at *
    exact ⟨rfl, before.whole, before.total, before.rest, behind.whole, behind.total,
      step.disciplined_reader.position_le _, step.strides _⟩
  · have fromP := step.disciplined_reader.shifts p (.start front)
    have fromQ := step.disciplined_reader.shifts q (.start front)
    simp only [Cursor.shift, Cursor.start, Nat.add_zero] at fromP fromQ
    simp only [fromP, fromQ, true_and]
    omega
  · exact outcomes_shift steps p (.start (buffer.drop p))

/-- A byte string that fails in its last word has moved over all three. -/
example : (outcomes [.byteString, .word, .finish]
      (.start (wordBytes [.reduce 0, .reduce 256, .reduce 1, .reduce 7]))).map
        (fun o => (o.1.toOption, o.2.position)) =
    [(none, 96), (some (.word (.reduce 7)), 128), (some .nothing, 128)] := by decide +kernel

end Reading

end FeltWire
