import FeltWire.Felt.Text

/-!
# Reading words

A cursor moves over bytes one word at a time. A reading step may fail, and what
it consumed before it failed stays consumed, so that a run can go on after a
failure.

## Main definitions

* `Cursor`: the bytes not yet read and how many were read before them
* `Reader`: a step that moves a cursor
* `Reader.word`: the next word
* `Reader.require`: fails unless as many words as given are left
* `Reader.finish`: fails unless nothing is left

## Main results

* `Reader.outcome_bind`, `Reader.outcome_bind_eq_ok_iff`,
  `Reader.outcome_bind_eq_error_iff`: a step after another starts where that one
  stopped, and a failure ends both
* `Reader.outcome_word`, `Reader.outcome_require`, `Reader.outcome_finish`: what
  each step gives and where it leaves the cursor
-/

namespace FeltWire

/-- **A place in a run of bytes.** The part in front of it is known by its
length only. -/
structure Cursor where
  /-- How many bytes were read. -/
  position : Nat
  /-- The bytes not yet read. -/
  rest : List UInt8
deriving DecidableEq, Repr

namespace Cursor

/-- The cursor before the first of the `bytes`. -/
def start (bytes : List UInt8) : Cursor := ⟨0, bytes⟩

/-- The number of bytes not yet read, the length of `rest`. -/
def remaining (c : Cursor) : Nat := c.rest.length

/-- The number of whole words not yet read, in `wordSize` bytes each. -/
def remainingWords (c : Cursor) : Nat := c.remaining / wordSize

/-- The cursor `n` bytes further on. -/
def advance (c : Cursor) (n : Nat) : Cursor := ⟨c.position + n, c.rest.drop n⟩

end Cursor

/-- **A reading step**: it moves a `Cursor` and gives a result or an error. The
cursor after a failure is the one that the failure left behind. -/
abbrev Reader (ε : Type) := ExceptT ε (StateM Cursor)

namespace Reader

variable {ε ε' α : Type}

/-- The outcome of the step `r` from the cursor `c`, and the cursor after it. -/
def outcome (r : Reader ε α) (c : Cursor) : Except ε α × Cursor := r.run.run c

/-- A step that does not move, with `x` as its outcome. -/
def lift (x : Except ε α) : Reader ε α := ExceptT.mk (pure x)

/-- The same step with its error seen from elsewhere, by `f`. -/
def mapError (f : ε → ε') (r : Reader ε α) : Reader ε' α := ExceptT.adapt f r

/-- The next word. Too few bytes, or a number that is not below the `prime`,
leave the cursor where it is. -/
def word : Reader Fault Felt := do
  let c ← get
  let bytes := c.rest.take wordSize
  if bytes.length < wordSize then
    throw (.truncated wordSize c.remaining)
  else
    let x ← lift (Felt.ofBytes bytes)
    set (c.advance wordSize)
    return x

/-- The greatest number of bytes that can be asked for; `require` saturates
there. -/
def maxBytes : Nat := 2 ^ 64 - 1

/-- Fails unless the given number of `words` is left. It never moves. -/
def require (words : Nat) : Reader Fault Unit := do
  let c ← get
  let needed := min (words * wordSize) maxBytes
  if c.remaining < needed then throw (.truncated needed c.remaining) else return ()

/-- Fails unless every byte was read. What is left is counted as `trailing`. -/
def finish : Reader Fault Unit := do
  let c ← get
  if c.remaining = 0 then return () else throw (.trailing c.remaining)

/-! ## What a step does to a cursor -/

variable {β : Type}

theorem outcome_bind (r : Reader ε α) (f : α → Reader ε β) (c : Cursor) :
    (r >>= f).outcome c =
      match r.outcome c with
      | (.ok a, after) => (f a).outcome after
      | (.error e, after) => (.error e, after) := by
  simp only [outcome, ExceptT.run_bind]
  rw [StateT.run_bind]
  rcases h : (ExceptT.run r).run c with ⟨x, after⟩
  cases x <;> rfl

/-- One step after another succeeds exactly if both do, the second from the
cursor `middle` where the first stopped. -/
theorem outcome_bind_eq_ok_iff {r : Reader ε α} {f : α → Reader ε β} {c after : Cursor} {b : β} :
    (r >>= f).outcome c = (.ok b, after) ↔
      ∃ a middle, r.outcome c = (.ok a, middle) ∧ (f a).outcome middle = (.ok b, after) := by
  rw [outcome_bind]
  rcases r.outcome c with ⟨_ | a, middle⟩
  · constructor
    · intro h
      cases (Prod.mk.inj h).1
    · rintro ⟨a, middle, h, -⟩
      cases (Prod.mk.inj h).1
  · constructor
    · intro h
      exact ⟨a, middle, rfl, h⟩
    · rintro ⟨a', middle', h, second⟩
      cases h
      exact second

/-- The step `r >>= f` fails if `r` does, or `f` from the cursor `middle` where
`r` stopped. -/
theorem outcome_bind_eq_error_iff {r : Reader ε α} {f : α → Reader ε β} {c after : Cursor} {e : ε} :
    (r >>= f).outcome c = (.error e, after) ↔ r.outcome c = (.error e, after) ∨
      ∃ a middle, r.outcome c = (.ok a, middle) ∧ (f a).outcome middle = (.error e, after) := by
  rw [outcome_bind]
  rcases r.outcome c with ⟨_ | a, middle⟩
  · constructor
    · intro h
      cases h
      exact .inl rfl
    · rintro (h | ⟨a, middle, h, -⟩)
      · cases h
        rfl
      · cases (Prod.mk.inj h).1
  · constructor
    · intro h
      exact .inr ⟨a, middle, rfl, h⟩
    · rintro (h | ⟨a', middle', h, second⟩)
      · cases (Prod.mk.inj h).1
      · cases h
        exact second

@[simp] theorem outcome_pure (a : α) (c : Cursor) :
    (pure a : Reader ε α).outcome c = (.ok a, c) := rfl

@[simp] theorem outcome_throw (e : ε) (c : Cursor) :
    (throw e : Reader ε α).outcome c = (.error e, c) := rfl

@[simp] theorem outcome_lift (x : Except ε α) (c : Cursor) : (lift x).outcome c = (x, c) := rfl

theorem outcome_mapError (f : ε → ε') (r : Reader ε α) (c : Cursor) :
    (r.mapError f).outcome c = ((r.outcome c).1.mapError f, (r.outcome c).2) := rfl

/-- Another account `f` of a failure changes no success, nor where the step
stops. -/
theorem outcome_mapError_eq_ok_iff {f : ε → ε'} {r : Reader ε α} {c after : Cursor} {a : α} :
    (r.mapError f).outcome c = (.ok a, after) ↔ r.outcome c = (.ok a, after) := by
  rw [outcome_mapError, Prod.ext_iff, Prod.ext_iff]
  exact and_congr_left fun _ => mapError_eq_ok_iff

theorem outcome_mapError_eq_error_iff {f : ε → ε'} {r : Reader ε α} {c after : Cursor} {e' : ε'} :
    (r.mapError f).outcome c = (.error e', after) ↔
      ∃ e, r.outcome c = (.error e, after) ∧ f e = e' := by
  rw [outcome_mapError]
  rcases r.outcome c with ⟨e | a, middle⟩
  · constructor
    · intro h
      cases h
      exact ⟨e, rfl, rfl⟩
    · rintro ⟨e, h, rfl⟩
      cases h
      rfl
  · constructor
    · intro h
      cases (Prod.mk.inj h).1
    · rintro ⟨e, h, -⟩
      cases (Prod.mk.inj h).1

theorem outcome_word (c : Cursor) :
    word.outcome c =
      if c.rest.length < wordSize then (.error (.truncated wordSize c.remaining), c)
      else
        match Felt.ofBytes (c.rest.take wordSize) with
        | .ok x => (.ok x, c.advance wordSize)
        | .error e => (.error e, c) := by
  unfold word
  rw [outcome_bind]
  show (if _ then _ else _ : Reader Fault Felt).outcome c = _
  by_cases h : c.rest.length < wordSize
  · simp [h, Nat.min_eq_right (Nat.le_of_lt h)]
  · have long : ¬ min wordSize c.rest.length < wordSize := by omega
    simp only [List.length_take, long, h, if_false, outcome_bind, outcome_lift]
    cases Felt.ofBytes (c.rest.take wordSize) <;> rfl

theorem outcome_require (words : Nat) (c : Cursor) :
    (require words).outcome c =
      if c.remaining < min (words * wordSize) maxBytes then
        (.error (.truncated (min (words * wordSize) maxBytes) c.remaining), c)
      else (.ok (), c) := by
  unfold require
  rw [outcome_bind]
  show (if _ then _ else _ : Reader Fault Unit).outcome c = _
  split <;> rfl

theorem outcome_finish (c : Cursor) :
    finish.outcome c =
      if c.remaining = 0 then (.ok (), c) else (.error (.trailing c.remaining), c) := by
  unfold finish
  rw [outcome_bind]
  show (if _ then _ else _ : Reader Fault Unit).outcome c = _
  split <;> rfl

end Reader

end FeltWire
