import FeltWire.Located
import FeltWire.Writer

/-!
# Writing word by word

Encodings are lists of words. They can also be written step by step, onto one
writer that is handed from each component to the next and grows by a word at a
time. A step appends an encoding if it puts the words behind whatever was
written before, and fails as the encoding does. This is kept by one step after
another, so that what a component is written as never depends on what stands in
front.

A step that fails may have written some words before. They stay, but so does all
that was there.

## Main definitions

* `Writing`: a step that adds words to a writer
* `Writing.push`, `Writing.pushAll`: one more word, and several one after
  another
* `Writing.Appends`: a step that puts an encoding behind whatever is there
* `ByteString.write`: a byte string, word by word

## Main results

* `Appends.append`, `Appends.check`, `Appends.mapError`: steps one after another
* `ByteString.outcome_write`: a byte string is appended or, if it is too long,
  nothing is
-/

namespace FeltWire

/-- **A writing step**: it adds words to a `Writer` and may fail. What it added
before it failed stays there. -/
abbrev Writing (ε : Type) := ExceptT ε (StateM Writer)

namespace Writing

variable {ε ε' α β : Type}

/-- The outcome of the step `r` from the writer `w`, and the writer after it. -/
def outcome (r : Writing ε α) (w : Writer) : Except ε α × Writer := r.run.run w

/-- The words that are there after the step `r`, if it succeeds. -/
def written (r : Writing ε α) (w : Writer) : Except ε (List Felt) :=
  (r.outcome w).1.map fun _ => (r.outcome w).2.words

/-- A step that writes nothing, with `x` as its outcome. -/
def lift (x : Except ε α) : Writing ε α := ExceptT.mk (pure x)

/-- The same step with its error seen from elsewhere, by `f`. -/
def mapError (f : ε → ε') (r : Writing ε α) : Writing ε' α := ExceptT.adapt f r

/-- One more word `x`, by `Writer.push`. -/
def push (x : Felt) : Writing ε Unit := modify (·.push x)

/-- Words one after another, each by `push`. -/
def pushAll : List Felt → Writing ε Unit
  | [] => return ()
  | x :: xs => do
    push x
    pushAll xs

/-! ## What a step does to a writer -/

theorem outcome_bind (r : Writing ε α) (f : α → Writing ε β) (w : Writer) :
    (r >>= f).outcome w =
      match r.outcome w with
      | (.ok a, after) => (f a).outcome after
      | (.error e, after) => (.error e, after) := by
  simp only [outcome, ExceptT.run_bind]
  rw [StateT.run_bind]
  rcases h : (ExceptT.run r).run w with ⟨x, after⟩
  cases x <;> rfl

@[simp] theorem outcome_lift (x : Except ε α) (w : Writer) : (lift x).outcome w = (x, w) := rfl

theorem outcome_mapError (f : ε → ε') (r : Writing ε α) (w : Writer) :
    (r.mapError f).outcome w = ((r.outcome w).1.mapError f, (r.outcome w).2) := rfl

@[simp] theorem outcome_push (x : Felt) (w : Writer) :
    (push x : Writing ε Unit).outcome w = (.ok (), w.push x) := rfl

@[simp] theorem outcome_pushAll (xs : List Felt) (w : Writer) :
    (pushAll xs : Writing ε Unit).outcome w = (.ok (), ⟨w.words ++ xs⟩) := by
  induction xs generalizing w with
  | nil => exact congrArg (fun words => (Except.ok (), Writer.mk words)) (List.append_nil _).symm
  | cons x xs ih => simp only [pushAll, outcome_bind, outcome_push, ih, Writer.push,
      List.append_assoc, List.singleton_append]

/-! ## Appending encodings -/

/-- **A step that appends an encoding**, whatever the writer holds; `writes` and
`fails` say what is there afterwards. -/
structure Appends (r : Writing ε Unit) (encoding : Except ε (List Felt)) : Prop where
  /-- The words of the `encoding` are put behind those that are there. -/
  writes : ∀ {words}, encoding = .ok words → ∀ w, r.outcome w = (.ok (), ⟨w.words ++ words⟩)
  /-- Without an `encoding` the step fails as it does, and all that was there
  stays in front. -/
  fails : ∀ {e}, encoding = .error e → ∀ w, ∃ more, r.outcome w = (.error e, ⟨w.words ++ more⟩)

namespace Appends

variable {r s : Writing ε Unit} {x y : Except ε (List Felt)}

theorem nil : Appends (pure () : Writing ε Unit) (.ok []) where
  writes := by
    rintro _ ⟨⟩ w
    rw [List.append_nil]
    rfl
  fails := nofun

/-- A word is appended if `x` is one. -/
theorem word (x : Except ε Felt) :
    Appends (do
      let word ← lift x
      push word) (x.map ([·])) where
  writes := by
    intro words encoded w
    obtain ⟨word, rfl, rfl⟩ := map_eq_ok_iff.1 encoded
    rfl
  fails := by
    intro e failed w
    rw [map_eq_error_iff.1 failed]
    exact ⟨[], by rw [List.append_nil]; rfl⟩

/-- **One step after another** appends the one encoding and then the other. A
failure of the second stands behind all the words of the first. -/
theorem append (h : Appends r x) (h' : Appends s y) :
    Appends (do
      r
      s) (do
      let front ← x
      let back ← y
      return front ++ back) where
  writes := by
    intro words encoded w
    obtain ⟨front, hfront, encoded⟩ := bind_eq_ok_iff.1 encoded
    obtain ⟨back, hback, ⟨⟩⟩ := bind_eq_ok_iff.1 encoded
    simp only [outcome_bind, h.writes hfront, h'.writes hback, List.append_assoc]
  fails := by
    intro e failed w
    rw [outcome_bind]
    rcases bind_eq_error_iff.1 failed with first | ⟨front, hfront, failed⟩
    · obtain ⟨more, stopped⟩ := h.fails first w
      exact ⟨more, by rw [stopped]⟩
    · rcases bind_eq_error_iff.1 failed with second | ⟨back, -, ⟨⟩⟩
      obtain ⟨more, stopped⟩ := h'.fails second ⟨w.words ++ front⟩
      exact ⟨front ++ more, by rw [h.writes hfront, ← List.append_assoc]; exact stopped⟩

/-- One word in front, if `x` is one. -/
theorem cons (x : Except ε Felt) (h : Appends r y) :
    Appends (do
      let head ← lift x
      push head
      r) (do
      let head ← x
      let tail ← y
      return head :: tail) := by
  cases x with
  | ok head => exact (word (.ok head)).append h
  | error e => exact ⟨nofun, (word (.error e)).fails⟩

/-- A `test` that is passed changes nothing. -/
theorem check (test : Except ε Unit) (h : Appends r x) :
    Appends (do
      lift test
      r) (do
      test
      x) := by
  cases test with
  | ok _ => exact ⟨h.writes, h.fails⟩
  | error e =>
    refine ⟨nofun, ?_⟩
    rintro _ ⟨⟩ w
    exact ⟨[], by rw [List.append_nil]; rfl⟩

/-- An error may be seen from elsewhere, by `f` on both sides. -/
theorem mapError (f : ε → ε') (h : Appends r x) : Appends (r.mapError f) (x.mapError f) where
  writes := by
    intro words encoded w
    rw [outcome_mapError, h.writes (mapError_eq_ok_iff.1 encoded)]
    rfl
  fails := by
    intro e failed w
    cases x with
    | ok words => cases failed
    | error e' =>
      cases failed
      obtain ⟨more, stopped⟩ := h.fails rfl w
      exact ⟨more, by rw [outcome_mapError, stopped]; rfl⟩

/-- What is there after a step that appends an encoding: the words of `w` and
then those of `x`. -/
theorem written_eq (h : Appends r x) (w : Writer) : r.written w = x.map (w.words ++ ·) := by
  cases x with
  | ok words => rw [written, h.writes rfl w, Except.map, Except.map]
  | error e =>
    obtain ⟨more, stopped⟩ := h.fails rfl w
    rw [written, stopped, Except.map, Except.map]

end Appends

end Writing

/-! ## Byte strings -/

namespace ByteString

/-- **A byte string, word by word**: the number of full chunks, the `chunks`,
the bytes that are left over and how many these are. -/
def write (data : List UInt8) : Writing Fault Unit := do
  let full := data.length / chunkSize
  let count ← Writing.lift (encodeUnsigned .w32 full)
  Writing.push count
  Writing.pushAll ((chunks full data).map chunkWord)
  Writing.push (chunkWord (pending data))
  Writing.push (pendingLength data)

/-- **A byte string is appended** by `write` as `Writer.byteString` says. Its
first step is the only one that can fail, before any word is written. -/
theorem outcome_write (data : List UInt8) (w : Writer) :
    (write data).outcome w = w.byteString data := by
  simp only [write, Writer.byteString, encode, Writing.outcome_bind, Writing.outcome_lift,
    Writing.outcome_push, Writing.outcome_pushAll]
  cases encodeUnsigned .w32 (data.length / chunkSize) with
  | error e => rfl
  | ok count =>
    show (_, _) = (_, Writer.mk _)
    simp only [Writer.push, List.append_assoc, List.cons_append, List.nil_append]

theorem appends_write (data : List UInt8) : Writing.Appends (write data) (encode data) where
  writes := by
    intro words encoded w
    rw [outcome_write, Writer.byteString, encoded]
    rfl
  fails := by
    intro e failed w
    rw [outcome_write, Writer.byteString, failed]
    exact ⟨[], by rw [List.append_nil]; rfl⟩

end ByteString

end FeltWire
