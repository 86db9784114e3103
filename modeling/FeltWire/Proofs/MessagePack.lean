import FeltWire.MessagePack

/-!
# What is written in MessagePack is read back

Reading steps are followed along the bytes that they should read: whatever
stands after these bytes is left alone, and if they break off the step fails.
Each length has one of several headers, chosen by its size; a header is a marker
and a number of fixed width, so that one law serves all of them.

## Main definitions

* `MessagePack.Reads`: a step reads bytes as a result, and needs all of them

## Main results

* `Reads.bind`, `Reads.pure`: steps one after another
* `reads_first`, `reads_marker`: a first byte alone, and a marker with its
  number
* `reads_arrayHeader`, `reads_textHeader`, `reads_integer`: headers in their
  shortest form
* `reads_text`, `reads_integers`: texts and bytes
-/

namespace FeltWire.MessagePack

variable {α β : Type}

/-- **A step reads bytes as a result** `a`, whatever follows them, and needs all
of them. -/
structure Reads (p : Parser α) (bytes : List UInt8) (a : α) : Prop where
  reads : ∀ rest, p.run (bytes ++ rest) = some (a, rest)
  starves : ∀ k, k < bytes.length → p.run (bytes.take k) = none

namespace Reads

theorem pure (a : α) : Reads (Pure.pure a) [] a where
  reads _ := rfl
  starves k hk := absurd hk (Nat.not_lt_zero k)

/-- One step after another reads the bytes of the one (`first`) and then those
of the other (`second`). Either of them is cut if the bytes of both are. -/
theorem bind {p : Parser α} {f : α → Parser β} {front back : List UInt8} {a : α} {b : β}
    (first : Reads p front a) (second : Reads (f a) back b) :
    Reads (p >>= f) (front ++ back) b where
  reads rest := by
    rw [StateT.run_bind, List.append_assoc, first.reads]
    exact second.reads rest
  starves k hk := by
    rw [StateT.run_bind]
    by_cases cut : k < front.length
    · rw [List.take_append_of_le_length (Nat.le_of_lt cut), first.starves k cut]
      rfl
    · rw [List.length_append] at hk
      rw [List.take_append, List.take_of_length_le (Nat.le_of_not_lt cut), first.reads]
      exact second.starves _ (by omega)

/-- A step that reads nothing more, and only looks at what the one before it
read. -/
theorem bind_nil {p : Parser α} {f : α → Parser β} {bytes : List UInt8} {a : α} {b : β}
    (first : Reads p bytes a) (second : Reads (f a) [] b) : Reads (p >>= f) bytes b := by
  have both := first.bind second
  rwa [List.append_nil] at both

/-- A step whose result is changed by `f` on the way out. -/
theorem map {p : Parser α} {bytes : List UInt8} {a : α} (h : Reads p bytes a) (f : α → β) :
    Reads (do return f (← p)) bytes (f a) :=
  h.bind_nil (pure (f a))

end Reads

theorem reads_guard {c : Prop} [Decidable c] (holds : c) : Reads (guard c) [] () := by
  have passed : guard c = (pure () : Parser Unit) := if_pos holds
  rw [passed]
  exact .pure ()

/-! ## Headers -/

theorem reads_take (bytes : List UInt8) : Reads (take bytes.length) bytes bytes where
  reads rest := by
    have taken : (bytes ++ rest).take bytes.length = bytes := List.take_left
    have left : (bytes ++ rest).drop bytes.length = rest := List.drop_left
    simp only [take, StateT.run, taken, left, if_true]
  starves k hk := by
    have short : ((bytes.take k).take bytes.length).length ≠ bytes.length := by
      rw [List.length_take, List.length_take]
      omega
    exact if_neg short

/-- A number of fixed `width`, the most significant byte first. -/
theorem reads_natural {width n : Nat} (fits : n < 256 ^ width) :
    Reads (natural width) (BigEndian.encode width n) n := by
  have taken := (reads_take (BigEndian.encode width n)).map BigEndian.decode
  rwa [BigEndian.length_encode, BigEndian.decode_encode, Nat.mod_eq_of_lt fits] at taken

/-- The byte `first` decides by `headerOf` what else belongs to a header. -/
theorem reads_header {first : Nat} {bytes : List UInt8} {h : Header} (byte : first < 256)
    (rest : Reads (headerOf first) bytes h) : Reads header (UInt8.ofNat first :: bytes) h :=
  (@reads_natural 1 first byte).bind rest

/-- A header that is its first byte alone, as `meaning` says. -/
theorem reads_first {first : Nat} {h : Header} (byte : first < 256)
    (meaning : headerOf first = return h) : Reads header [UInt8.ofNat first] h :=
  reads_header byte (meaning ▸ .pure h)

/-- **A `marker` and its number**, in `width` bytes. -/
theorem reads_marker {marker width n : Nat} {make : Nat → Header} (byte : marker < 256)
    (meaning : headerOf marker = do return make (← natural width)) (fits : n < 256 ^ width) :
    Reads header (UInt8.ofNat marker :: BigEndian.encode width n) (make n) :=
  reads_header byte (meaning ▸ (reads_natural fits).map make)

/-- **The number of elements of an array.** Up to 15 of them are counted in the
marker itself, more of them in two or in four bytes, as in `arrayHeader`. -/
theorem reads_arrayHeader {length : Nat} (fits : length < 2 ^ 32) :
    Reads header (arrayHeader length) (.array length) := by
  unfold arrayHeader
  split
  · next small =>
    have meaning : headerOf (0x90 + length) = return .array length := by
      unfold headerOf
      rw [if_neg (by omega), if_neg (by omega), if_pos (by omega), Nat.add_sub_cancel_left]
    exact reads_first (by omega) meaning
  · split
    · next middle => exact reads_marker (by decide) rfl middle
    · exact reads_marker (by decide) rfl fits

/-- **The number of bytes of a text.** Up to 31 of them are counted in the
marker itself, more of them in one, two or four bytes, as in `textHeader`. -/
theorem reads_textHeader {length : Nat} (fits : length < 2 ^ 32) :
    Reads header (textHeader length) (.text length) := by
  unfold textHeader
  split
  · next small =>
    have meaning : headerOf (0xa0 + length) = return .text length := by
      unfold headerOf
      rw [if_neg (by omega), if_neg (by omega), if_neg (by omega), if_pos (by omega),
        Nat.add_sub_cancel_left]
    exact reads_first (by omega) meaning
  · split
    · next short => exact reads_marker (by decide) rfl short
    · split
      · next middle => exact reads_marker (by decide) rfl middle
      · exact reads_marker (by decide) rfl fits

/-- **A byte** is an integer of one or two bytes, as `integer` writes it. -/
theorem reads_integer (b : UInt8) : Reads header (integer b) (.natural b.toNat) := by
  have byte := b.toNat_lt
  unfold integer
  split
  · next small =>
    have small' : b.toNat < 128 := UInt8.lt_iff_toNat_lt.1 small
    have meaning : headerOf b.toNat = return .natural b.toNat := by
      unfold headerOf
      rw [if_pos small']
    have own := reads_first byte meaning
    rwa [UInt8.ofNat_toNat] at own
  · have meaning : headerOf 0xcc = do return .natural (← natural 1) := rfl
    have own : Reads header [0xcc, UInt8.ofNat b.toNat] (.natural b.toNat) :=
      reads_marker (by decide) meaning byte
    rwa [UInt8.ofNat_toNat] at own

/-! ## Texts and bytes -/

/-- **A text**: its header counts the bytes that are taken, and `Utf8.decode?`
reads them. -/
theorem reads_text {s : String} (fits : (Utf8.encode s).length < 2 ^ 32) :
    Reads readText (text s) s := by
  unfold readText text
  refine (reads_textHeader fits).bind ((reads_take (Utf8.encode s)).bind_nil ?_)
  rw [Utf8.decode?_encode]
  exact .pure s

/-- A byte is an integer that fits, whichever of its forms `integer` takes. -/
theorem reads_byte (b : UInt8) : Reads readByte (integer b) b := by
  unfold readByte
  refine (reads_integer b).bind_nil ?_
  simp only [b.toNat_lt, if_true, UInt8.ofNat_toNat]
  exact .pure b

/-- As many bytes as were counted, each as an `integer`. -/
theorem reads_integersItems (bytes : List UInt8) :
    Reads (readIntegers bytes.length) (bytes.flatMap integer) bytes := by
  induction bytes with
  | nil => exact .pure []
  | cons b bytes ih => exact (reads_byte b).bind (ih.map (b :: ·))

/-- **Bytes**, as an array of integers, are read by `readBytes` behind the
header of their number. -/
theorem reads_integers {bytes : List UInt8} (fits : bytes.length < 2 ^ 32) :
    Reads readBytes (integers bytes) bytes := by
  unfold readBytes integers
  exact (reads_arrayHeader fits).bind (reads_integersItems bytes)

end FeltWire.MessagePack
