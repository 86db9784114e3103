import FeltWire.Proofs.Codec.Exact
import FeltWire.Proofs.Json.Components
import FeltWire.Proofs.Json.Scalars
import FeltWire.Proofs.Schema.Resolution

/-!
# What a document gives can be written

A document is converted with checks of its own: the bounds of integers, the
number of items, the scale of fixed-point numbers. Whatever passes them is also
accepted where values are written, with one exception. The number of a
sequence's elements and of a byte string's chunks is written in 32 bits, and a
document knows no such limit.

## Main definitions

* `LimitedBy`: a computation that fails exactly in a given case, by something
  out of range

## Main results

* `limitedBy_encode`: values from documents are written unless they are too long
* `encodes_of_json`: the same for the shapes of a schema, and what is written is
  read back
-/

namespace FeltWire

/-! ## Computations that one thing limits -/

/-- **A computation fails exactly in the case `limit`**, and then because
something is out of range. -/
def LimitedBy {α : Type} (limit : Prop) (x : Except WireError α) : Prop :=
  match x with
  | .ok _ => ¬limit
  | .error e => limit ∧ ∃ found w signed, e.fault = .range found w signed

namespace LimitedBy

variable {α β : Type} {p q : Prop} {x : Except WireError α}

theorem ok (h : ¬p) (a : α) : LimitedBy p (.ok a) := h

theorem congr (h : LimitedBy p x) (same : p ↔ q) : LimitedBy q x := propext same ▸ h

theorem atStep (h : LimitedBy p x) (step : Step) : LimitedBy p (atStep step x) := by
  cases x <;> exact h

/-- One computation after another is limited by what limits either, `p` or
`q`. -/
theorem bind {f : α → Except WireError β} (h : LimitedBy p x) (next : ∀ a, LimitedBy q (f a)) :
    LimitedBy (p ∨ q) (x >>= f) := by
  cases x with
  | error e => exact ⟨.inl h.1, h.2⟩
  | ok a => exact (next a).congr (or_iff_right h).symm

theorem map (h : LimitedBy p x) (f : α → β) : LimitedBy p (do return f (← x)) :=
  (h.bind fun a => .ok not_false (f a)).congr (Iff.of_eq (or_false p))

end LimitedBy

theorem limitedBy_encodeUnsigned (w : Width) (n : Nat) :
    LimitedBy (w.maxUnsigned < n) (atRoot (encodeUnsigned w n)) := by
  unfold encodeUnsigned
  split
  · next fits => exact Nat.not_lt.2 fits
  · next large => exact ⟨Nat.not_le.1 large, _, _, _, rfl⟩

/-- A byte string is limited by the number of its chunks, which has to be one of
32 bits. -/
theorem ByteString.limitedBy_encode (data : List UInt8) :
    LimitedBy (31 * 2 ^ 32 ≤ data.length) (atRoot (ByteString.encode data)) := by
  have chunks : Width.w32.maxUnsigned < data.length / chunkSize ↔ 31 * 2 ^ 32 ≤ data.length := by
    show 2 ^ 32 - 1 < data.length / 31 ↔ _
    omega
  refine LimitedBy.congr ?_ chunks
  have count := limitedBy_encodeUnsigned .w32 (data.length / chunkSize)
  show LimitedBy _ (atRoot (encodeUnsigned .w32 (data.length / chunkSize) >>= _))
  cases encoded : encodeUnsigned .w32 (data.length / chunkSize) <;> rwa [encoded] at count

namespace Shape

/-! ## Values from documents -/

variable {s : Shape} {j : Json} {v : Value}

/-- Scalars are never too long, as `Value.TooLong` is about sequences and byte
strings. -/
theorem not_tooLong_of_word {x : Felt} (written : s.word v = .ok x) : ¬v.TooLong := by
  rw [Value.tooLong_iff, components_of_word written]
  cases v with
  | bytes | sequence => cases s <;> cases written
  | _ => simp [Value.Exceeds]

/-- Components are limited by what limits each of them, one value that is
`TooLong`. -/
theorem limitedBy_encodeComponents {components : List (Step × Shape)} {js : List Json}
    {vs : List Value} (read : Each ReadFrom (components.map Prod.snd) js vs)
    (each : ∀ s ∈ components.map Prod.snd, ∀ j v, s.ofJson j = .ok v →
      LimitedBy v.TooLong (s.encode v)) :
    LimitedBy (∃ v ∈ vs, v.TooLong) (encodeComponents components vs) := by
  induction components generalizing js vs with
  | nil =>
    cases read
    exact .ok (by simp) []
  | cons component components ih =>
    obtain ⟨step, s⟩ := component
    rcases read with _ | ⟨head, tail⟩
    have first := (each s List.mem_cons_self _ _ head).atStep step
    have others := ih tail fun t ht => each t (List.mem_cons_of_mem _ ht)
    exact (first.bind fun front => others.map (front ++ ·)).congr (by simp)

/-- **Values from documents are written unless they are too long**
(`Value.TooLong`). Each field was read, so that there are as many values as
fields. -/
theorem limitedBy_encode (positive : s.ElementsTakeWords) (read : s.ofJson j = .ok v) :
    LimitedBy v.TooLong (s.encode v) := by
  induction s using inductScalar generalizing j v with
  | scalar s scalar =>
    obtain ⟨x, written⟩ := exists_word_of_ofJson scalar read
    obtain ⟨words, encoded, -⟩ :=
      encodeBytes_eq_ok_iff.1 ((encodeBytes_scalar_iff scalar).2 ⟨x, written, rfl⟩)
    rw [encoded]
    exact not_tooLong_of_word written
  | bytes =>
    obtain ⟨text, -, rfl⟩ := ofJson_bytes_iff.1 read
    rw [encode]
    refine (ByteString.limitedBy_encode _).congr ?_
    simp [Value.tooLong_iff (v := .bytes _), Value.Exceeds, Value.components]
  | record name fields ih =>
    obtain ⟨members, js, vs, -, rfl, -, each⟩ := ofJson_record_iff.1 read
    have arity := checkArity_eq_ok_iff (s := record name fields).2
      (show fields.length = vs.length by simpa using each.length_right)
    rw [encode, arity, encodeFields_eq]
    refine (limitedBy_encodeComponents (by rwa [map_snd_fieldComponents])
      fun s hs j v field => ?_).congr ?_
    · rw [map_snd_fieldComponents] at hs
      obtain ⟨f, hf, rfl⟩ := List.mem_map.1 hs
      exact ih f hf (positive.component hs) field
    · simp [Value.tooLong_iff (v := .record vs), Value.Exceeds, Value.components]
  | sequence s ih =>
    obtain ⟨js, vs, rfl, rfl, each⟩ := ofJson_sequence_iff.1 read
    have size : js.length = vs.length := by simpa using each.length_right
    have words := checkElement_eq_ok_iff.2 (positive s .here)
    have elements : LimitedBy (∃ v ∈ vs, v.TooLong) (encodeElements s.encode 0 vs) := by
      rw [encodeElements_eq]
      refine limitedBy_encodeComponents (by rwa [map_snd_elementComponents, ← size])
        fun t ht j v element => ?_
      rw [map_snd_elementComponents] at ht
      obtain rfl := List.eq_of_mem_replicate ht
      exact ih (positive.component List.mem_cons_self) element
    rw [encode, words]
    refine ((limitedBy_encodeUnsigned lengthWidth vs.length).bind fun count =>
      elements.map (count :: ·)).congr ?_
    rw [Value.tooLong_iff (v := .sequence vs)]
    exact or_congr Nat.lt_iff_add_one_le Iff.rfl
  | tuple items ih =>
    obtain ⟨js, vs, -, rfl, each⟩ := ofJson_tuple_iff.1 read
    have arity := checkArity_eq_ok_iff (s := tuple items).2 each.length_right
    rw [encode, arity, encodeItems_eq]
    refine (limitedBy_encodeComponents (by rwa [map_snd_itemComponents])
      fun s hs j v item => ?_).congr ?_
    · rw [map_snd_itemComponents] at hs
      exact ih s hs (positive.component hs) item
    · simp [Value.tooLong_iff (v := .tuple vs), Value.Exceeds, Value.components]

/-- **Whatever a document gives is written and read back**, under a shape that a
schema resolves to (`resolved`), unless it is `TooLong`; then something is out
of range. Writing it never fails because the value is not of the shape or of
another scale. -/
theorem encodes_of_json (σ : Schema) (n : String) {s : Shape} (resolved : σ.resolve n = .ok s)
    (j : Json) {v : Value} (read : s.ofJson j = .ok v) :
    (¬v.TooLong → ∃ bytes, s.encodeBytes v = .ok bytes ∧ s.decode bytes = .ok v) ∧
    (v.TooLong → ∃ e, s.encodeBytes v = .error e ∧
      ∃ found w signed, e.fault = .range found w signed) ∧
    ∀ e, s.encodeBytes v = .error e → (∀ m, e.fault ≠ .mismatch m) ∧
      ∀ expected got, e.fault ≠ .scaleMismatch expected got := by
  have limited := limitedBy_encode (Schema.elementsTakeWords_of_resolve resolved) read
  unfold encodeBytes
  cases encoded : s.encode v with
  | ok words =>
    rw [encoded] at limited
    have bytes : s.encodeBytes v = .ok (wordBytes words) :=
      encodeBytes_eq_ok_iff.2 ⟨words, encoded, rfl⟩
    exact ⟨fun _ => ⟨_, rfl, decode_eq_ok_iff.2 bytes⟩, fun long => absurd long limited, nofun⟩
  | error e =>
    rw [encoded] at limited
    obtain ⟨long, range⟩ := limited
    refine ⟨fun short => absurd long short, fun _ => ⟨e, rfl, range⟩, ?_⟩
    rintro _ ⟨⟩
    obtain ⟨found, w, signed, fault⟩ := range
    simp [fault]

/-- An order of three empty notes is written, one of `2 ^ 32` is not. -/
theorem encodes_of_json_order :
    let σ : Schema :=
      ⟨[("Order", [⟨"id", .primitive "u32"⟩, ⟨"notes", .array (.primitive "ByteArray")⟩])],
        "Order", "Order"⟩
    let s : Shape := .record "Order" [("id", .unsigned .w32), ("notes", .sequence .bytes)]
    let j (count : Nat) : Json := .object [("extra", .null), ("id", .string "7"),
      ("notes", .array (List.replicate count (.string "")))]
    let v (count : Nat) : Value :=
      .record [.unsigned 7, .sequence (List.replicate count (.bytes []))]
    σ.resolve "Order" = .ok s ∧
      (s.ofJson (j 3) = .ok (v 3) ∧ ∃ bytes, s.encodeBytes (v 3) = .ok bytes ∧
        s.decode bytes = .ok (v 3)) ∧
      s.ofJson (j (2 ^ 32)) = .ok (v (2 ^ 32)) ∧ ∃ e, s.encodeBytes (v (2 ^ 32)) = .error e ∧
        ∃ found w signed, e.fault = .range found w signed := by
  intro σ s j v
  have resolved : σ.resolve "Order" = .ok s := by
    rw [Schema.resolve, Schema.resolveBelow]
    rfl
  have read (count : Nat) : s.ofJson (j count) = .ok (v count) := by
    refine ofJson_record_iff.2 ⟨_, [.string "7", _], _, rfl, rfl, rfl, .cons rfl (.cons ?_ .nil)⟩
    refine ofJson_sequence_iff.2 ⟨_, _, rfl, rfl, ?_⟩
    rw [List.length_replicate]
    exact .replicate rfl count
  have tooLong_iff (count : Nat) : (v count).TooLong ↔ 2 ^ 32 ≤ count := by
    simp [v, Value.tooLong_iff (v := .record _), Value.tooLong_iff (v := .unsigned _),
      Value.tooLong_iff (v := .sequence _), Value.tooLong_iff (v := .bytes _), Value.Exceeds,
      Value.components]
  have short := (encodes_of_json σ "Order" resolved (j 3) (read 3)).1
    (mt (tooLong_iff 3).1 (by decide))
  have long := (encodes_of_json σ "Order" resolved (j (2 ^ 32)) (read (2 ^ 32))).2.1
    ((tooLong_iff (2 ^ 32)).2 (Nat.le_refl _))
  exact ⟨resolved, ⟨read 3, short⟩, read (2 ^ 32), long⟩

end Shape

end FeltWire
