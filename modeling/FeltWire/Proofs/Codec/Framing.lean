import FeltWire.Proofs.Codec.Exact
import Mathlib.Order.Bounds.Basic

/-!
# Encodings end where they say

An encoding is followed by nothing and preceded by nothing that could be
mistaken for a part of it: bytes after it are left over, and an encoding that
breaks off is never read as a value. The error then says that data is missing,
and in a record or a tuple it blames the first component whose own bytes are not
all there, even if components without bytes stand before or after it.

## Main results

* `readComponents_starves`: which component of a list is blamed for missing data
* `blamed_component`: which component of a value that decoding misses data of
* `decode_append`, `decode_take`: bytes after an encoding, and an encoding that
  breaks off
* `self_delimiting`: both together, with the component of a record or a tuple
-/

namespace FeltWire.Shape

/-! ## The component that is blamed -/

/-- **The component that is blamed.** If the encodings of components break off
after `k` bytes, the first step of the error is that of the first component
which does not end by then (`IsLeast`). Either the first component is cut
itself, or it is whole and a later one is cut. -/
theorem readComponents_starves {components : List (Step × Shape)} {vs : List Value}
    {encodings : List (List UInt8)} (h : Encodings (components.map Prod.snd) vs encodings)
    (position : Nat) {k : Nat} (hk : k < encodings.flatten.length) :
    ∃ e after i component,
      (readComponents components).outcome ⟨position, encodings.flatten.take k⟩ =
        (.error e, after) ∧ Starved e ∧ components[i]? = some component ∧
      e.steps.head? = some component.1 ∧
      IsLeast {j | k < (encodings.take (j + 1)).flatten.length} i := by
  induction components generalizing vs encodings position k with
  | nil =>
    rcases h with ⟨⟩
    exact absurd hk (Nat.not_lt_zero k)
  | cons component components ih =>
    obtain ⟨step, s⟩ := component
    rcases h with _ | ⟨head, tail⟩
    next v bytes vs encodings =>
    rw [List.flatten_cons, List.length_append] at hk
    rw [readComponents, Reader.outcome_bind, List.flatten_cons]
    by_cases cut : k < bytes.length
    · obtain ⟨e, after, read, starved⟩ := s.exact_read.starves head position k cut
      refine ⟨e.within step, after, 0, (step, s), ?_, starved, rfl, rfl, ?_, ?_⟩
      · rw [List.take_append_of_le_length (Nat.le_of_lt cut), Reader.atStep,
          Reader.outcome_mapError, read]
        rfl
      · simpa using cut
      · exact fun _ _ => Nat.zero_le _
    · obtain ⟨e, after, i, blamed, read, starved, at_i, first, longer, least⟩ :=
        ih tail (position + bytes.length) (k := k - bytes.length) (by omega)
      refine ⟨e, after, i + 1, blamed, ?_, starved, at_i, first, ?_, ?_⟩
      · have whole (rest : List UInt8) : (Reader.atStep step s.read).outcome
            ⟨position, bytes ++ rest⟩ = (.ok v, ⟨position + bytes.length, rest⟩) :=
          Reader.outcome_mapError_eq_ok_iff.2 (s.exact_read.accepts head position rest)
        rw [List.take_append, List.take_of_length_le (Nat.le_of_not_lt cut), whole]
        simp only [Reader.outcome_bind, read]
      · simp only [Set.mem_ofPred_eq, List.take_succ_cons, List.flatten_cons,
          List.length_append] at longer ⊢
        omega
      · rintro (_ | j) hj
        · simp [cut] at hj
        · refine Nat.succ_le_succ (least ?_)
          simp only [Set.mem_ofPred_eq, List.take_succ_cons, List.flatten_cons,
            List.length_append] at hj ⊢
          omega

/-! ## Bytes added and bytes missing -/

/-- **Bytes after an encoding** are left over, and `tail.length` of them are
reported. -/
theorem decode_append {s : Shape} {v : Value} {bytes tail : List UInt8}
    (h : s.encodeBytes v = .ok bytes) (more : tail ≠ []) :
    s.decode (bytes ++ tail) = .error (.here (.trailing tail.length)) := by
  have read := s.exact_read.accepts h 0 tail
  have left : tail.length ≠ 0 := fun none => more (List.length_eq_zero_iff.1 none)
  rw [decode_eq, Cursor.start, read]
  exact if_neg left

/-- Decoding fails as reading does: an error of `s.read` is one of
`s.decode`. -/
theorem decode_eq_error {s : Shape} {bytes : List UInt8} {e : WireError} {after : Cursor}
    (read : s.read.outcome ⟨0, bytes⟩ = (.error e, after)) : s.decode bytes = .error e := by
  rw [decode_eq, Cursor.start, read]

/-- **An encoding that breaks off** after `k` bytes is missed. -/
theorem decode_take {s : Shape} {v : Value} {bytes : List UInt8} (h : s.encodeBytes v = .ok bytes)
    {k : Nat} (hk : k < bytes.length) : ∃ e, s.decode (bytes.take k) = .error e ∧ Starved e := by
  obtain ⟨e, after, read, starved⟩ := s.exact_read.starves h 0 k hk
  exact ⟨e, decode_eq_error read, starved⟩

/-- A value that is read as its components (`h`) blames one of them. -/
theorem blamed_component {s : Shape} {components : List (Step × Shape)}
    {make : List Value → Value} (h : s.read = do return make (← readComponents components))
    {vs : List Value} {encodings : List (List UInt8)}
    (each : Encodings (components.map Prod.snd) vs encodings) {k : Nat}
    (hk : k < encodings.flatten.length) {e : WireError}
    (failed : s.decode (encodings.flatten.take k) = .error e) :
    ∃ i component, components[i]? = some component ∧ e.steps.head? = some component.1 ∧
      IsLeast {j | k < (encodings.take (j + 1)).flatten.length} i := by
  obtain ⟨e', after, i, component, read, -, at_i, first, least⟩ :=
    readComponents_starves each 0 hk
  have failed' : s.read.outcome ⟨0, encodings.flatten.take k⟩ = (.error e', after) := by
    rw [h, Reader.outcome_bind, read]
  obtain rfl : e = e' := Except.error.inj (failed.symm.trans (decode_eq_error failed'))
  exact ⟨i, component, at_i, first, least⟩

/-- **Encodings are self-delimiting.** Bytes after an encoding are left over
(`trailing`), and an encoding that breaks off is missed (`truncated`). In a
record or a tuple that breaks off, the first step of the error is that of the
first component which does not end by then. -/
theorem self_delimiting {s : Shape} {v : Value} {bytes : List UInt8}
    (h : s.encodeBytes v = .ok bytes) :
    (∀ tail, tail ≠ [] → s.decode (bytes ++ tail) = .error ⟨[], .trailing tail.length⟩) ∧
    ∀ k, k < bytes.length → ∃ e, s.decode (bytes.take k) = .error e ∧
      (∃ needed available, e.fault = .truncated needed available ∧ available < needed) ∧
      (∀ name fields, s = .record name fields → ∃ vs encodings i field,
        v = .record vs ∧ Encodings (fields.map Prod.snd) vs encodings ∧
        fields[i]? = some field ∧ e.steps.head? = some (.field i field.1) ∧
        IsLeast {j | k < (encodings.take (j + 1)).flatten.length} i) ∧
      (∀ items, s = .tuple items → ∃ vs encodings i,
        v = .tuple vs ∧ Encodings items vs encodings ∧
        i < items.length ∧ e.steps.head? = some (.item i) ∧
        IsLeast {j | k < (encodings.take (j + 1)).flatten.length} i) := by
  refine ⟨fun tail more => decode_append h more, fun k hk => ?_⟩
  obtain ⟨e, failed, starved⟩ := decode_take h hk
  refine ⟨e, failed, starved, ?_, ?_⟩
  · rintro name fields rfl
    obtain ⟨vs, encodings, rfl, each, rfl⟩ := encodeBytes_record_iff.1 h
    have shapes := map_snd_fieldComponents 0 fields
    obtain ⟨i, component, at_i, first, least⟩ :=
      blamed_component (read_record name fields) (shapes.symm ▸ each) hk failed
    rw [fieldComponents, List.getElem?_mapIdx, Option.map_eq_some_iff] at at_i
    obtain ⟨field, at_i, rfl⟩ := at_i
    exact ⟨vs, encodings, i, field, rfl, each, at_i, by rw [first, Nat.zero_add], least⟩
  · rintro items rfl
    obtain ⟨vs, encodings, rfl, each, rfl⟩ := encodeBytes_tuple_iff.1 h
    have shapes := map_snd_itemComponents 0 items
    obtain ⟨i, component, at_i, first, least⟩ :=
      blamed_component (read_tuple items) (shapes.symm ▸ each) hk failed
    rw [itemComponents, List.getElem?_mapIdx, Option.map_eq_some_iff] at at_i
    obtain ⟨item, at_i, rfl⟩ := at_i
    exact ⟨vs, encodings, i, rfl, each, (List.getElem?_eq_some_iff.1 at_i).1, by
      rw [first, Nat.zero_add], least⟩

theorem self_delimiting_flags :
    let shapes : List Shape := [.tuple [], .bool, .bool]
    let vs : List Value := [.tuple [], .bool true, .bool false]
    ∃ bytes, (tuple shapes).encodeBytes (.tuple vs) = .ok bytes ∧ 40 < bytes.length ∧
      (tuple shapes).decode (bytes ++ [0]) = .error ⟨[], .trailing 1⟩ ∧
      ∃ e, (tuple shapes).decode (bytes.take 40) = .error e ∧
        (∃ needed available, e.fault = .truncated needed available ∧ available < needed) ∧
        ∃ encodings i, Encodings shapes vs encodings ∧ e.steps.head? = some (.item i) ∧
          IsLeast {j | 40 < (encodings.take (j + 1)).flatten.length} i := by
  intro shapes vs
  obtain ⟨bytes, encoded, long⟩ :
      ∃ bytes, (tuple shapes).encodeBytes (.tuple vs) = .ok bytes ∧ 40 < bytes.length :=
    ⟨_, rfl, by simp [wordSize]⟩
  obtain ⟨added, missing⟩ := self_delimiting encoded
  obtain ⟨e, failed, short, -, items⟩ := missing 40 long
  obtain ⟨_, encodings, i, ⟨⟩, each, -, first, least⟩ := items shapes rfl
  exact ⟨bytes, encoded, long, added [0] (by simp), e, failed, short, encodings, i, each, first,
    least⟩

end FeltWire.Shape
