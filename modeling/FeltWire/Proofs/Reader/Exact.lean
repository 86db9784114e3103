import FeltWire.Codec.Decode

/-!
# Exact reading steps

A reading step is exact for a relation between results and bytes if it reads the
bytes of a result as that result and stops right after them, reads nothing else,
and on bytes that break off too soon says that data is missing. The first law is
the round trip, the second says that a result has no second spelling, the third
that an encoding ends where it says. Each way of putting reading steps together
keeps all three, so that the laws of the codec are those of its leaves.

## Main definitions

* `Fault.IsShortage`: more bytes are needed than there are
* `Reader.Exact`: the three laws
* `Reader.Check`: a test of the number of bytes left, which reads none

## Main results

* `Exact.bind`, `Exact.pure`, `Exact.lift`, `Exact.fail`: exact steps one after
  another
* `Exact.after_check`: a test that no result fails changes nothing
* `exact_word`, `exact_scalar`: one word is read exactly
-/

namespace FeltWire

/-- More bytes are needed than there are: the fault is `truncated`. -/
def Fault.IsShortage (f : Fault) : Prop :=
  ∃ needed available, f = .truncated needed available ∧ available < needed

namespace Felt

/-- The bytes of a word are read as its element: `ofBytes` undoes `toBytes`. -/
@[simp] theorem ofBytes_toBytes (x : Felt) : ofBytes x.toBytes = .ok x := by
  simp [ofBytes, ofNat]

/-- **A word has one spelling**: `wordSize` bytes that are read as an element
are its `toBytes`. -/
theorem eq_toBytes_of_ofBytes {bytes : List UInt8} {x : Felt} (size : bytes.length = wordSize)
    (h : ofBytes bytes = .ok x) : bytes = x.toBytes := by
  unfold ofBytes ofNat at h
  split at h
  · next found =>
    cases h
    rw [toBytes, ← ofNat?_eq_some_iff.1 found, ← size, BigEndian.encode_decode]
  · cases h

end Felt

namespace Reader

variable {ε ε' α β : Type} {short : ε → Prop} {short' : ε' → Prop}

/-- **An exact reading step**, for the bytes that each result is `written` as.
An error is `short` if it says that data is missing. -/
structure Exact (short : ε → Prop) (r : Reader ε α) (written : α → List UInt8 → Prop) : Prop where
  /-- The bytes of a result are read as that result, whatever `rest` follows
  them. -/
  accepts : ∀ {a bytes}, written a bytes → ∀ position rest,
    r.outcome ⟨position, bytes ++ rest⟩ = (.ok a, ⟨position + bytes.length, rest⟩)
  /-- Whatever is read as a result are the bytes of that result. -/
  canonical : ∀ {a c after}, r.outcome c = (.ok a, after) →
    ∃ bytes, written a bytes ∧ c.rest = bytes ++ after.rest
  /-- The bytes of a result that break off too soon are missed. -/
  starves : ∀ {a bytes}, written a bytes → ∀ position k, k < bytes.length →
    ∃ e after, r.outcome ⟨position, bytes.take k⟩ = (.error e, after) ∧ short e

/-! ## Steps one after another -/

namespace Exact

variable {r : Reader ε α} {written written' : α → List UInt8 → Prop}

/-- Exactness depends only on which bytes a result is `written` as. -/
theorem congr (h : Exact short r written) (same : ∀ a bytes, written' a bytes ↔ written a bytes) :
    Exact short r written' where
  accepts w := h.accepts ((same _ _).1 w)
  canonical read := by
    obtain ⟨bytes, w, split⟩ := h.canonical read
    exact ⟨bytes, (same _ _).2 w, split⟩
  starves w := h.starves ((same _ _).1 w)

/-- A step that reads nothing is exact for no bytes, and for the result of
`x`. -/
theorem lift (x : Except ε α) :
    Exact short (Reader.lift x) fun a bytes => x = .ok a ∧ bytes = [] where
  accepts := by
    rintro a bytes ⟨rfl, rfl⟩ position rest
    rfl
  canonical := by
    intro a c after read
    obtain ⟨rfl, rfl⟩ := Prod.mk.inj read
    exact ⟨[], ⟨rfl, rfl⟩, rfl⟩
  starves := by
    rintro a bytes ⟨-, rfl⟩ position k hk
    simp at hk

theorem pure (a : α) : Exact short (Pure.pure a : Reader ε α) fun b bytes => b = a ∧ bytes = [] :=
  (lift (.ok a)).congr fun b bytes => by simp [eq_comm]

/-- A step that fails is exact for nothing at all, whatever its error `e`. -/
theorem fail (e : ε) : Exact short (throw e : Reader ε α) fun _ _ => False :=
  (lift (.error e)).congr fun b bytes => by simp

/-- **One step after another** reads the bytes of the one and then those of the
other. The second has to be exact only for what the first can give (`hf`). Cut
bytes are missed by the step whose part is cut. -/
theorem bind_of_written {f : α → Reader ε β} {next : α → β → List UInt8 → Prop}
    (h : Exact short r written)
    (hf : ∀ a bytes, written a bytes → Exact short (f a) (next a)) :
    Exact short (r >>= f) fun b bytes =>
      ∃ a front back, written a front ∧ next a b back ∧ front ++ back = bytes where
  accepts := by
    rintro b bytes ⟨a, front, back, hfront, hback, rfl⟩ position rest
    rw [outcome_bind, List.append_assoc, h.accepts hfront]
    simp only [(hf a front hfront).accepts hback, List.length_append, Nat.add_assoc]
  canonical := by
    intro b c after read
    obtain ⟨a, middle, first, second⟩ := outcome_bind_eq_ok_iff.1 read
    obtain ⟨front, hfront, split₁⟩ := h.canonical first
    obtain ⟨back, hback, split₂⟩ := (hf a front hfront).canonical second
    exact ⟨front ++ back, ⟨a, front, back, hfront, hback, rfl⟩, by
      rw [split₁, split₂, List.append_assoc]⟩
  starves := by
    rintro b bytes ⟨a, front, back, hfront, hback, rfl⟩ position k hk
    rw [outcome_bind]
    by_cases hk' : k < front.length
    · obtain ⟨e, after, read, he⟩ := h.starves hfront position k hk'
      refine ⟨e, after, ?_, he⟩
      rw [List.take_append_of_le_length (Nat.le_of_lt hk'), read]
    · rw [List.length_append] at hk
      obtain ⟨e, after, read, he⟩ := (hf a front hfront).starves hback (position + front.length)
        (k - front.length) (by omega)
      refine ⟨e, after, ?_, he⟩
      rw [List.take_append, List.take_of_length_le (by omega), h.accepts hfront]
      exact read

theorem bind {f : α → Reader ε β} {next : α → β → List UInt8 → Prop} (h : Exact short r written)
    (hf : ∀ a, Exact short (f a) (next a)) :
    Exact short (r >>= f) fun b bytes =>
      ∃ a front back, written a front ∧ next a b back ∧ front ++ back = bytes :=
  h.bind_of_written fun a _ _ => hf a

/-- A step whose result is changed by `g` on the way out. -/
theorem map (h : Exact short r written) (g : α → β) :
    Exact short (r >>= fun a => Pure.pure (g a)) fun b bytes => ∃ a, b = g a ∧ written a bytes :=
  (h.bind fun a => pure (g a)).congr fun b bytes => by
    constructor
    · rintro ⟨a, hb, w⟩
      exact ⟨a, bytes, [], w, ⟨hb, rfl⟩, List.append_nil _⟩
    · rintro ⟨a, front, back, w, ⟨hb, rfl⟩, rfl⟩
      exact ⟨a, hb, by rwa [List.append_nil]⟩

/-- An error that is seen from elsewhere still says that data is missing, if `g`
keeps `short` errors so. -/
theorem mapError {g : ε → ε'} (h : Exact short r written) (hg : ∀ e, short e → short' (g e)) :
    Exact short' (r.mapError g) written where
  accepts w position rest := by
    rw [outcome_mapError, h.accepts w]
    rfl
  canonical := by
    intro a c after read
    exact h.canonical (outcome_mapError_eq_ok_iff.1 read)
  starves := by
    intro a bytes w position k hk
    obtain ⟨e, after, read, he⟩ := h.starves w position k hk
    exact ⟨g e, after, by rw [outcome_mapError, read]; rfl, hg e he⟩

end Exact

/-! ## Tests of the number of bytes left -/

/-- **A test that `size` bytes are left.** It reads nothing, passes if the bytes
are there, and if it does not pass it says that data is missing. -/
structure Check (short : ε → Prop) (test : Reader ε Unit) (size : Nat) : Prop where
  passes : ∀ c : Cursor, size ≤ c.remaining → test.outcome c = (.ok (), c)
  stays : ∀ c : Cursor, test.outcome c = (.ok (), c) ∨
    ∃ e, test.outcome c = (.error e, c) ∧ short e

/-- A test that no result fails (`enough`) changes neither what is read nor how
it is missed. -/
theorem Exact.after_check {test : Reader ε Unit} {size : Nat} {r : Reader ε α}
    {written : α → List UInt8 → Prop} (h : Exact short r written) (check : Check short test size)
    (enough : ∀ a bytes, written a bytes → size ≤ bytes.length) :
    Exact short (test >>= fun _ => r) written where
  accepts := by
    intro a bytes w position rest
    have room : size ≤ (bytes ++ rest).length := by
      rw [List.length_append]
      exact Nat.le_add_right_of_le (enough a bytes w)
    rw [outcome_bind, check.passes ⟨position, bytes ++ rest⟩ room]
    exact h.accepts w position rest
  canonical := by
    intro a c after read
    rw [outcome_bind] at read
    rcases check.stays c with passed | ⟨e, failed, -⟩
    · rw [passed] at read
      exact h.canonical read
    · rw [failed] at read
      cases (Prod.mk.inj read).1
  starves := by
    intro a bytes w position k hk
    rw [outcome_bind]
    rcases check.stays ⟨position, bytes.take k⟩ with passed | ⟨e, failed, he⟩
    · rw [passed]
      exact h.starves w position k hk
    · exact ⟨e, _, by rw [failed], he⟩

theorem check_require (words : Nat) :
    Check Fault.IsShortage (require words) (words * wordSize) where
  passes c room := by
    rw [outcome_require, if_neg]
    exact Nat.not_lt.2 (Nat.le_trans (Nat.min_le_left ..) room)
  stays c := by
    rw [outcome_require]
    by_cases h : c.remaining < min (words * wordSize) maxBytes
    · exact .inr ⟨_, if_pos h, _, _, rfl, h⟩
    · exact .inl (if_neg h)

theorem Check.mapError {test : Reader ε Unit} {size : Nat} {g : ε → ε'}
    (h : Check short test size) (hg : ∀ e, short e → short' (g e)) :
    Check short' (test.mapError g) size where
  passes c room := by
    rw [outcome_mapError, h.passes c room]
    rfl
  stays c := by
    rw [outcome_mapError]
    rcases h.stays c with passed | ⟨e, failed, he⟩
    · exact .inl (by rw [passed]; rfl)
    · exact .inr ⟨g e, by rw [failed]; rfl, hg e he⟩

/-! ## Words -/

/-- One word is read exactly, from its `toBytes`. -/
theorem exact_word : Exact Fault.IsShortage word fun x bytes => x.toBytes = bytes where
  accepts := by
    rintro x bytes rfl position rest
    have size : x.toBytes.length = wordSize := x.length_toBytes
    have room : ¬ (x.toBytes ++ rest).length < wordSize := by
      rw [List.length_append]
      omega
    rw [outcome_word, if_neg room, ← size]
    simp only [List.take_left, Felt.ofBytes_toBytes, Cursor.advance, List.drop_left]
  canonical := by
    intro x c after read
    rw [outcome_word] at read
    split at read
    · cases (Prod.mk.inj read).1
    · next room =>
      split at read
      · next y found =>
        obtain ⟨value, rfl⟩ := Prod.mk.inj read
        cases value
        have size : (c.rest.take wordSize).length = wordSize := by
          rw [List.length_take]
          omega
        exact ⟨_, (Felt.eq_toBytes_of_ofBytes size found).symm, (List.take_append_drop ..).symm⟩
      · cases (Prod.mk.inj read).1
  starves := by
    rintro x bytes rfl position k hk
    rw [Felt.length_toBytes] at hk
    have size : (x.toBytes.take k).length = k := by
      rw [List.length_take, Felt.length_toBytes]
      omega
    rw [outcome_word, if_pos (by rwa [size])]
    exact ⟨_, _, rfl, _, _, rfl, by rwa [Cursor.remaining, size]⟩

/-- A scalar is read exactly: its word, which `decode` takes to it. -/
theorem exact_scalar (decode : Felt → Except Fault α) :
    Exact Fault.IsShortage (scalar decode) fun a bytes =>
      ∃ x, decode x = .ok a ∧ x.toBytes = bytes :=
  (exact_word.bind fun x => .lift (decode x)).congr fun a bytes => by
    constructor
    · rintro ⟨x, hx, word⟩
      exact ⟨x, bytes, [], word, ⟨hx, rfl⟩, List.append_nil _⟩
    · rintro ⟨x, front, back, word, ⟨hx, rfl⟩, rfl⟩
      exact ⟨x, hx, word.trans (List.append_nil _).symm⟩

/-- The word of a scalar is read whether `decode` accepts it or not. -/
theorem outcome_scalar_append (decode : Felt → Except Fault α) (x : Felt) (position : Nat)
    (rest : List UInt8) :
    (scalar decode).outcome ⟨position, x.toBytes ++ rest⟩ =
      (decode x, ⟨position + wordSize, rest⟩) := by
  have word := exact_word.accepts (a := x) rfl position rest
  rw [x.length_toBytes] at word
  rw [scalar, outcome_bind, word]
  rfl

/-- A located error says that data is missing if its `fault` does. -/
theorem Exact.atRoot {r : Reader Fault α} {written : α → List UInt8 → Prop}
    (h : Exact Fault.IsShortage r written) :
    Exact (fun e : WireError => e.fault.IsShortage) (Reader.atRoot r) written :=
  h.mapError fun _ short => short

theorem Check.atRoot {test : Reader Fault Unit} {size : Nat}
    (h : Check Fault.IsShortage test size) :
    Check (fun e : WireError => e.fault.IsShortage) (Reader.atRoot test) size :=
  h.mapError fun _ short => short

theorem Exact.atStep {r : Reader WireError α} {written : α → List UInt8 → Prop} (step : Step)
    (h : Exact (fun e : WireError => e.fault.IsShortage) r written) :
    Exact (fun e : WireError => e.fault.IsShortage) (Reader.atStep step r) written :=
  h.mapError fun _ short => short

end Reader

end FeltWire
