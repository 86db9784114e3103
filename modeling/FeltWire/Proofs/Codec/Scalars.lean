import FeltWire.Codec.Decode
import FeltWire.Proofs.Reader.Exact
import FeltWire.Proofs.Scalar

/-!
# Scalar shapes

Five of the shapes are written as one word. They differ only in which word
belongs to which value, so that everything else is said about all of them at
once.

## Main definitions

* `Shape.IsScalar`: every value is one word
* `Shape.word`, `Shape.ofWord`: the word of a value and the value of a word

## Main results

* `ofWord_eq_ok_iff`: a word is read as exactly the value that it is written for
* `encode_scalar`, `encodeBytes_scalar_iff`, `exact_read_scalar`: scalars are
  written as their word and read exactly
* `Shape.inductScalar`: induction over nested shapes, with one case for all
  scalars
-/

namespace FeltWire.Shape

/-- Every value of the shape is one word. -/
def IsScalar : Shape → Prop
  | .bytes | .record .. | .sequence _ | .tuple _ => False
  | _ => True

/-- Induction over shapes as in `Shape.induct`, the scalars being one case. -/
@[elab_as_elim]
theorem inductScalar {motive : Shape → Prop} (scalar : ∀ s, s.IsScalar → motive s)
    (bytes : motive .bytes)
    (record : ∀ name fields, (∀ f ∈ fields, motive f.2) → motive (.record name fields))
    (sequence : ∀ s, motive s → motive (.sequence s))
    (tuple : ∀ items, (∀ s ∈ items, motive s) → motive (.tuple items)) (s : Shape) : motive s :=
  Shape.induct (fun _ => scalar _ trivial) (fun _ => scalar _ trivial) (scalar _ trivial)
    (scalar _ trivial) (fun _ => scalar _ trivial) bytes record sequence tuple s

/-- The word of a scalar, if it has the shape; `encode` writes no other. -/
def word : Shape → Value → Except Fault Felt
  | .unsigned w, .unsigned n => encodeUnsigned w n
  | .signed w, .signed v => encodeSigned w v
  | .bool, .bool b => .ok (encodeBool b)
  | .felt, .felt x => .ok x
  | .fixed scale, .fixed x => x.encodeAt scale
  | s, v => wrongKind s v

/-- The scalar of a shape that the word `x` is. -/
def ofWord (x : Felt) : Shape → Except Fault Value
  | .unsigned w => (decodeUnsigned w x).map .unsigned
  | .signed w => (decodeSigned w x).map .signed
  | .bool => (decodeBool x).map .bool
  | .fixed scale => (Fixed.decode scale x).map .fixed
  | _ => .ok (.felt x)

variable {s : Shape} {v : Value} {x : Felt} {bytes : List UInt8}

/-- **Scalars and their words** determine each other: `ofWord` and `word` undo
each other. -/
theorem ofWord_eq_ok_iff (h : s.IsScalar) : s.ofWord x = .ok v ↔ s.word v = .ok x := by
  cases s with
  | unsigned w =>
    cases v <;> simp [ofWord, word, wrongKind, map_eq_ok_iff, decodeUnsigned_eq_ok_iff]
  | signed w => cases v <;> simp [ofWord, word, wrongKind, map_eq_ok_iff, decodeSigned_eq_ok_iff]
  | bool => cases v <;> simp [ofWord, word, wrongKind, map_eq_ok_iff, decodeBool_eq_ok_iff]
  | felt => cases v <;> simp [ofWord, word, wrongKind, eq_comm]
  | fixed scale =>
    cases v <;> simp [ofWord, word, wrongKind, map_eq_ok_iff, Fixed.decode_eq_ok_iff]
  | bytes | record | sequence | tuple => exact h.elim

/-- A scalar is written as one word, and what is wrong with it is wrong with the
whole, as `atRoot` has it. -/
theorem encode_scalar (h : s.IsScalar) (v : Value) :
    s.encode v = (atRoot (s.word v)).map fun x => [x] := by
  cases s with
  | bytes | record | sequence | tuple => exact h.elim
  | _ => cases v <;> simp only [encode, word] <;> rfl

/-- A scalar is written as the bytes of its `word`. -/
theorem encodeBytes_scalar_iff (h : s.IsScalar) :
    s.encodeBytes v = .ok bytes ↔ ∃ x, s.word v = .ok x ∧ x.toBytes = bytes := by
  rw [encodeBytes_eq_ok_iff]
  constructor
  · rintro ⟨words, written, rfl⟩
    rw [encode_scalar h, map_eq_ok_iff] at written
    obtain ⟨x, hx, rfl⟩ := written
    exact ⟨x, atRoot_eq_ok.1 hx, (List.append_nil _).symm⟩
  · rintro ⟨x, hx, rfl⟩
    exact ⟨[x], by rw [encode_scalar h, hx]; rfl, List.append_nil _⟩

/-- **A scalar is read exactly** (`Reader.Exact`). All but the elements differ
only in how their word is decoded. -/
theorem exact_read_scalar (h : s.IsScalar) :
    Reader.Exact (fun e : WireError => e.fault.IsShortage) s.read
      fun v bytes => s.encodeBytes v = .ok bytes := by
  have whole : Reader.Exact (fun e : WireError => e.fault.IsShortage) s.read
      fun v bytes => ∃ x, s.ofWord x = .ok v ∧ x.toBytes = bytes := by
    -- four of the five scalars differ only in the decoder
    have scalar {α : Type} (decode : Felt → Except Fault α) (make : α → Value) :
        Reader.Exact (fun e : WireError => e.fault.IsShortage)
          (do return make (← Reader.atRoot (.scalar decode)))
          fun v bytes => ∃ x, (decode x).map make = .ok v ∧ x.toBytes = bytes := by
      refine ((Reader.exact_scalar decode).atRoot.map make).congr fun v bytes => ?_
      constructor
      · rintro ⟨x, made, word⟩
        obtain ⟨a, ha, rfl⟩ := map_eq_ok_iff.1 made
        exact ⟨a, rfl, x, ha, word⟩
      · rintro ⟨a, rfl, x, ha, word⟩
        exact ⟨x, map_eq_ok_iff.2 ⟨a, ha, rfl⟩, word⟩
    cases s with
    | unsigned w => exact scalar (decodeUnsigned w) .unsigned
    | signed w => exact scalar (decodeSigned w) .signed
    | bool => exact scalar decodeBool .bool
    | felt =>
      refine (Reader.exact_word.atRoot.map Value.felt).congr fun v bytes => ?_
      simp [ofWord, eq_comm]
    | fixed scale => exact scalar (Fixed.decode scale) .fixed
    | bytes | record | sequence | tuple => exact h.elim
  refine whole.congr fun v bytes => ?_
  simp only [encodeBytes_scalar_iff h, ofWord_eq_ok_iff h]

end FeltWire.Shape
