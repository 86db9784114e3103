import FeltWire.Proofs.Codec.Scalars
import FeltWire.Proofs.Writer

/-!
# Values on one writer

An encoding is the list of words of one value, put together from the lists of
its components. The same words come about on one writer that is handed down
through the value, each part adding what it has to what the parts before it have
left. Nothing that was written before decides what is added, or whether anything
is, so that a component is written there as it is on its own.

## Main definitions

* `Shape.write`: a value, word by word

## Main results

* `appends_write`: writing a value appends its encoding
* `written_write`: what is there after a value
-/

namespace FeltWire

namespace Writing

variable {α : Type} {x : Except WireError (List Felt)}

/-- A step whose fault is one of the value itself (`Located.here`). -/
def atRoot (r : Writing Fault α) : Writing WireError α := r.mapError Located.here

/-- A step whose fault is one of the component behind `step`. -/
def atStep (step : Step) (r : Writing WireError α) : Writing WireError α :=
  r.mapError (Located.within step)

theorem Appends.atStep {r : Writing WireError Unit} (step : Step) (h : Appends r x) :
    Appends (Writing.atStep step r) (FeltWire.atStep step x) :=
  h.mapError _

end Writing

namespace Shape

/-! ## Writing values -/

/-- The elements of a sequence, the first of which has the given `index`;
`write` adds one. -/
def writeElements (write : Value → Writing WireError Unit) (index : Nat) :
    List Value → Writing WireError Unit
  | [] => return ()
  | v :: vs => do
    Writing.atStep (.element index) (write v)
    writeElements write (index + 1) vs

mutual

/-- **A value, word by word**, into a `Writer` that is passed along. Scalars are
one word, and values of another kind none. -/
def write : Shape → Value → Writing WireError Unit
  | .bytes, .bytes data => Writing.atRoot (ByteString.write data)
  | .record name fields, .record vs => do
    Writing.lift (atRoot (checkArity (.record name fields) fields.length vs.length))
    writeFields 0 fields vs
  | .sequence s, .sequence vs => do
    Writing.lift (atRoot s.checkElement)
    let count ← Writing.lift (atRoot (encodeUnsigned lengthWidth vs.length))
    Writing.push count
    writeElements s.write 0 vs
  | .tuple items, .tuple vs => do
    Writing.lift (atRoot (checkArity (.tuple items) items.length vs.length))
    writeItems 0 items vs
  -- scalars, and values of another kind
  | s, v => do
    let word ← Writing.lift (atRoot (s.word v))
    Writing.push word

/-- The fields of a record, the first of which has the given `position`. -/
def writeFields (position : Nat) :
    List (String × Shape) → List Value → Writing WireError Unit
  | (name, s) :: fields, v :: vs => do
    Writing.atStep (.field position name) (s.write v)
    writeFields (position + 1) fields vs
  | _, _ => return ()

/-- The items of a tuple, the first of which has the given `position`. -/
def writeItems (position : Nat) : List Shape → List Value → Writing WireError Unit
  | s :: items, v :: vs => do
    Writing.atStep (.item position) (s.write v)
    writeItems (position + 1) items vs
  | _, _ => return ()

end

/-! ## Writing appends the encoding -/

/-- Each value of the shape is written as its encoding, behind whatever is there
(`Writing.Appends`). -/
abbrev WritesBehind (s : Shape) : Prop := ∀ v, Writing.Appends (s.write v) (s.encode v)

theorem appends_writeElements {s : Shape} (element : s.WritesBehind) (index : Nat)
    (vs : List Value) :
    Writing.Appends (writeElements s.write index vs) (encodeElements s.encode index vs) := by
  induction vs generalizing index with
  | nil => exact .nil
  | cons v vs ih => exact ((element v).atStep _).append (ih (index + 1))

theorem appends_writeFields {fields : List (String × Shape)}
    (each : ∀ f ∈ fields, f.2.WritesBehind) (position : Nat) (vs : List Value) :
    Writing.Appends (writeFields position fields vs) (encodeFields position fields vs) := by
  induction fields generalizing position vs with
  | nil => exact .nil
  | cons f fields ih =>
    cases vs with
    | nil => exact .nil
    | cons v vs =>
      have head := each f List.mem_cons_self v
      have tail := ih (fun g hg => each g (List.mem_cons_of_mem _ hg)) (position + 1) vs
      exact (head.atStep _).append tail

theorem appends_writeItems {items : List Shape} (each : ∀ s ∈ items, s.WritesBehind)
    (position : Nat) (vs : List Value) :
    Writing.Appends (writeItems position items vs) (encodeItems position items vs) := by
  induction items generalizing position vs with
  | nil => exact .nil
  | cons s items ih =>
    cases vs with
    | nil => exact .nil
    | cons v vs =>
      have head := each s List.mem_cons_self v
      have tail := ih (fun t ht => each t (List.mem_cons_of_mem _ ht)) (position + 1) vs
      exact (head.atStep _).append tail

/-- A scalar is one more word, `s.word v`. -/
theorem write_scalar {s : Shape} (h : s.IsScalar) (v : Value) : s.write v = (do
    let word ← Writing.lift (atRoot (s.word v))
    Writing.push word) := by
  cases s with
  | bytes | record | sequence | tuple => exact h.elim
  | _ => rfl

/-- What is not of the kind that the shape `s` asks for is not written. -/
theorem appends_wrongKind (s : Shape) (v : Value) :
    Writing.Appends (do
      let word ← Writing.lift (atRoot (s.wrongKind v))
      Writing.push word) (atRoot (s.wrongKind v)) :=
  .word (atRoot (s.wrongKind v))

/-- **Writing a value appends its encoding**, and fails as the encoding does:
`write` keeps what is there and adds `encode`. -/
theorem appends_write (s : Shape) : s.WritesBehind := by
  induction s using inductScalar with
  | scalar s scalar =>
    intro v
    rw [write_scalar scalar, encode_scalar scalar]
    exact .word _
  | bytes =>
    intro v
    cases v with
    | bytes data => exact (ByteString.appends_write data).mapError _
    | _ => exact appends_wrongKind _ _
  | record name fields ih =>
    intro v
    cases v with
    | record vs => exact (appends_writeFields ih 0 vs).check _
    | _ => exact appends_wrongKind _ _
  | sequence s ih =>
    intro v
    cases v with
    | sequence vs => exact ((appends_writeElements ih 0 vs).cons _).check _
    | _ => exact appends_wrongKind _ _
  | tuple items ih =>
    intro v
    cases v with
    | tuple vs => exact (appends_writeItems ih 0 vs).check _
    | _ => exact appends_wrongKind _ _

/-- **What is there after a value**: the words of `w` and the encoding of the
value. -/
theorem written_write (s : Shape) (v : Value) (w : Writer) :
    ((s.write v).written w).map wordBytes = (s.encodeBytes v).map (wordBytes w.words ++ ·) := by
  rw [(appends_write s v).written_eq, encodeBytes]
  cases s.encode v with
  | ok words => exact congrArg Except.ok (wordBytes_append ..)
  | error e => rfl

end Shape

end FeltWire
