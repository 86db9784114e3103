import FeltWire.Proofs.Codec.Sizes

/-!
# Lengths that are counted beforehand

The number of words that a value takes is counted without writing them. The
count visits the components in the order in which they are written and makes the
same tests of kinds, numbers of components and elements. So it is the number of
words wherever there are any, and where writing fails because of such a test,
counting fails with the same fault. It does not look at ranges and scales: where
writing fails because of these, there may be a count all the same.

## Why the first fault is the same

Writing stops at its first fault. If that is one of shape, everything in front
of it was written, so that it was counted as well, and the count stops at the
same fault. A fault of range or scale that comes first hides what stands behind
it from the writer but not from the count, which is why nothing is said about
the count then.

## Main definitions

* `Fault.IsContent`: what can be wrong with a value that has the shape
* `Shape.Counts`: a count goes with what is written

## Main results

* `Counts.append`, `Counts.check`, `Counts.atStep`: parts one after another, and
  tests in front
* `counts_scalar`, `counts_bytes`, `counts_components`, `counts_sequence`:
  values by their kinds
* `counts_wordCount`: the count of a value goes with what is written
* `encodedLength_agrees`: the same in bytes
-/

namespace FeltWire

/-- What can be wrong with a value that has the shape: its `range` or its
scale. -/
def Fault.IsContent (f : Fault) : Prop :=
  (∃ found width signed, f = .range found width signed) ∨
    ∃ expected got, f = .scaleMismatch expected got

theorem Fault.IsContent.ne_mismatch {f : Fault} (h : f.IsContent) (m : Mismatch) :
    f ≠ .mismatch m := by
  rcases h with ⟨_, _, _, rfl⟩ | ⟨_, _, rfl⟩ <;> exact nofun

/-! ## Faults of the parts -/

theorem encodeUnsigned_fault {w : Width} {n : Nat} {f : Fault}
    (h : encodeUnsigned w n = .error f) : f.IsContent := by
  unfold encodeUnsigned at h
  split at h <;> cases h
  exact .inl ⟨_, _, _, rfl⟩

theorem encodeSigned_fault {w : Width} {v : Int} {f : Fault}
    (h : encodeSigned w v = .error f) : f.IsContent := by
  unfold encodeSigned at h
  split at h <;> cases h
  exact .inl ⟨_, _, _, rfl⟩

theorem Fixed.encodeAt_fault {scale : UInt32} {x : Fixed} {f : Fault}
    (h : x.encodeAt scale = .error f) : f.IsContent := by
  unfold Fixed.encodeAt at h
  split at h <;> cases h
  exact .inr ⟨_, _, rfl⟩

/-- Only the number of chunks of a byte string can be out of range
(`Fault.IsContent`). -/
theorem ByteString.encode_fault {data : List UInt8} {f : Fault}
    (h : ByteString.encode data = .error f) : f.IsContent := by
  rcases bind_eq_error_iff.1 h with count | ⟨_, _, done⟩
  · exact encodeUnsigned_fault count
  · cases done

namespace Shape

theorem checkArity_fault {s : Shape} {expected found : Nat} {f : Fault}
    (h : s.checkArity expected found = .error f) : ∃ m, f = .mismatch m := by
  unfold checkArity at h
  split at h <;> cases h
  exact ⟨_, rfl⟩

theorem checkElement_fault {s : Shape} {f : Fault} (h : s.checkElement = .error f) :
    ∃ m, f = .mismatch m := by
  unfold checkElement at h
  split at h <;> cases h
  exact ⟨_, rfl⟩

/-! ## Counts -/

/-- **A count goes with what is written**: it is the number of words and,
where nothing is `written` because of a fault of shape, it fails with the
same fault. -/
structure Counts (written : Except WireError (List Felt)) (count : Except Fault Nat) : Prop where
  /-- What is `written` is counted. -/
  ok : ∀ words, written = .ok words → count = .ok words.length
  /-- What is not `written` is refused for its content, or for its shape by the
  count as well. -/
  error : ∀ e, written = .error e →
    e.fault.IsContent ∨ ∃ m, e.fault = .mismatch m ∧ count = .error (.mismatch m)

namespace Counts

variable {a b : Except WireError (List Felt)} {m n : Except Fault Nat}

/-- A count that cannot fail goes with what has this `size` whenever it is
written and is never refused for its shape (`content`). -/
theorem of_size {size : Nat} (length : ∀ words, a = .ok words → words.length = size)
    (content : ∀ e, a = .error e → e.fault.IsContent) : Counts a (.ok size) where
  ok words written := congrArg Except.ok (length words written).symm
  error e failed := .inl (content e failed)

/-- One word, which may be out of range or have another scale (`content`). -/
theorem word {x : Except Fault Felt} (content : ∀ f, x = .error f → f.IsContent) :
    Counts ((atRoot x).map fun x => [x]) (.ok 1) := by
  apply of_size
  · intro words written
    obtain ⟨x, -, rfl⟩ := map_eq_ok_iff.1 written
    rfl
  · intro e failed
    obtain ⟨f, refused, rfl⟩ := atRoot_eq_error.1 (map_eq_error_iff.1 failed)
    exact content f refused

/-- No components are no words, on both sides. -/
theorem nil : Counts (.ok []) (.ok 0) := by
  apply of_size
  · intro words written
    cases written
    rfl
  · intro e failed
    cases failed

/-- What is refused for its shape, as a `mismatch`, before anything is written
is not counted. -/
theorem refused (mismatch : Mismatch) :
    Counts (atRoot (.error (.mismatch mismatch))) (.error (.mismatch mismatch)) where
  ok words written := by cases written
  error e failed := by
    cases failed
    exact .inr ⟨mismatch, rfl, rfl⟩

/-- A test `x` that only finds faults of shape stands in front of both. -/
theorem check {x : Except Fault Unit} (h : Counts a n)
    (shape : ∀ f, x = .error f → ∃ m, f = .mismatch m) :
    Counts (atRoot x >>= fun _ => a) (x >>= fun _ => n) := by
  cases x with
  | ok _ => exact h
  | error f =>
    obtain ⟨mismatch, rfl⟩ := shape f rfl
    exact refused mismatch

/-- Where a fault is seen from, through `step`, does not matter. -/
theorem atStep (step : Step) (h : Counts a n) : Counts (FeltWire.atStep step a) n where
  ok words written := h.ok words (atStep_eq_ok.1 written)
  error e failed := by
    obtain ⟨inner, inside, rfl⟩ := atStep_eq_error.1 failed
    exact h.error inner inside

/-- **One part after another.** If the second fails the first was written, so
that the count comes to the second as well; if the first fails for its shape,
both stop there. -/
theorem append (h : Counts a m) (h' : Counts b n) :
    Counts
      (do
        let head ← a
        let tail ← b
        return head ++ tail)
      (do
        let head ← m
        let tail ← n
        return head + tail) where
  ok words written := by
    obtain ⟨head, hhead, rest⟩ := bind_eq_ok_iff.1 written
    obtain ⟨tail, htail, joined⟩ := bind_eq_ok_iff.1 rest
    rw [h.ok head hhead, h'.ok tail htail, ← pure_eq_ok_iff.1 joined, List.length_append]
    rfl
  error e failed := by
    rcases bind_eq_error_iff.1 failed with first | ⟨head, written, later⟩
    · rcases h.error e first with content | ⟨mismatch, shape, same⟩
      · exact .inl content
      · exact .inr ⟨mismatch, shape, by rw [same]; rfl⟩
    · rcases bind_eq_error_iff.1 later with second | ⟨_, _, done⟩
      · rcases h'.error e second with content | ⟨mismatch, shape, same⟩
        · exact .inl content
        · exact .inr ⟨mismatch, shape, by rw [h.ok head written, same]; rfl⟩
      · cases done

end Counts

/-! ## Values -/

/-- A value of another kind is neither written nor counted, by `wrongKind` on
both sides. -/
theorem counts_wrongKind (s : Shape) (v : Value) :
    Counts (atRoot (wrongKind s v)) (wrongKind s v) := .refused _

/-- The word of a scalar and its count, which is 1. -/
theorem counts_scalar {s : Shape} (h : s.IsScalar) (v : Value) :
    Counts (s.encode v) (s.wordCount v) := by
  cases s with
  | bytes | record | sequence | tuple => exact h.elim
  | unsigned w =>
    cases v with
    | unsigned n => exact .word fun f => encodeUnsigned_fault
    | _ => exact counts_wrongKind _ _
  | signed w =>
    cases v with
    | signed n => exact .word fun f => encodeSigned_fault
    | _ => exact counts_wrongKind _ _
  | bool =>
    cases v with
    | bool b => exact .word (x := .ok (encodeBool b)) nofun
    | _ => exact counts_wrongKind _ _
  | felt =>
    cases v with
    | felt x => exact .word (x := .ok x) nofun
    | _ => exact counts_wrongKind _ _
  | fixed scale =>
    cases v with
    | fixed x => exact .word fun f => Fixed.encodeAt_fault
    | _ => exact counts_wrongKind _ _

/-- A byte string takes as many words as `ByteString.words` says, unless its
chunks are too many to be numbered. -/
theorem counts_bytes (v : Value) : Counts (Shape.bytes.encode v) (Shape.bytes.wordCount v) := by
  cases v with
  | bytes data =>
    apply Counts.of_size
    · intro words written
      exact ByteString.length_of_encode (atRoot_eq_ok.1 written)
    · intro e failed
      obtain ⟨f, refused, rfl⟩ := atRoot_eq_error.1 failed
      exact ByteString.encode_fault refused
  | _ => exact counts_wrongKind _ _

theorem fieldCounts_eq (fields : List (String × Shape)) (vs : List Value) :
    fieldCounts fields vs = itemCounts (fields.map Prod.snd) vs := by
  induction fields generalizing vs with
  | nil => cases vs <;> rfl
  | cons f fields ih =>
    cases vs with
    | nil => rfl
    | cons v vs => rw [fieldCounts, List.map_cons, itemCounts, ih]

theorem sumSizes_eq (s : Shape) (vs : List Value) :
    sumSizes s.wordCount vs = itemCounts (List.replicate vs.length s) vs := by
  induction vs with
  | nil => rfl
  | cons v vs ih => rw [sumSizes, List.length_cons, List.replicate_succ, itemCounts, ih]

/-- **Components one after another** are counted as they are written, if `each`
is. -/
theorem counts_components {components : List (Step × Shape)} {shapes : List Shape}
    (h : components.map Prod.snd = shapes) (vs : List Value)
    (each : ∀ s ∈ shapes, ∀ v, Counts (s.encode v) (s.wordCount v)) :
    Counts (encodeComponents components vs) (itemCounts shapes vs) := by
  subst h
  induction components generalizing vs with
  | nil => exact .nil
  | cons component components ih =>
    cases vs with
    | nil => exact .nil
    | cons v vs =>
      have head := each component.2 List.mem_cons_self v
      have tail := ih vs fun s hs => each s (List.mem_cons_of_mem _ hs)
      exact (head.atStep component.1).append tail

/-- **A sequence is counted as it is written**: the length in front is one more
word, which is out of range for too many elements. -/
theorem counts_sequence {s : Shape} (v : Value)
    (element : ∀ u, Counts (s.encode u) (s.wordCount u)) :
    Counts (s.sequence.encode v) (s.sequence.wordCount v) := by
  cases v with
  | sequence vs =>
    have length : Counts ((atRoot (encodeUnsigned lengthWidth vs.length)).map fun x => [x])
        (.ok 1) := .word fun f => encodeUnsigned_fault
    have elements : Counts (encodeElements s.encode 0 vs) (sumSizes s.wordCount vs) := by
      rw [encodeElements_eq, sumSizes_eq]
      apply counts_components (map_snd_elementComponents s 0 vs.length)
      intro t ht
      rw [List.eq_of_mem_replicate ht]
      exact element
    have whole := (length.append elements).check fun f => checkElement_fault (s := s)
    -- one word in front of the elements
    have joined : s.sequence.encode (.sequence vs) = (do
        atRoot s.checkElement
        let head ← (atRoot (encodeUnsigned lengthWidth vs.length)).map fun x => [x]
        let tail ← encodeElements s.encode 0 vs
        return head ++ tail) := by
      unfold encode
      cases encodeUnsigned lengthWidth vs.length <;> rfl
    rw [joined]
    exact whole
  | _ => exact counts_wrongKind _ _

/-- **Values are counted as they are written**: `wordCount` goes with `encode`,
by induction over the shape. -/
theorem counts_wordCount (s : Shape) (v : Value) : Counts (s.encode v) (s.wordCount v) := by
  induction s using inductScalar generalizing v with
  | scalar s scalar => exact counts_scalar scalar v
  | bytes => exact counts_bytes v
  | record name fields ih =>
    cases v with
    | record vs =>
      have each : Counts (encodeFields 0 fields vs) (fieldCounts fields vs) := by
        rw [encodeFields_eq, fieldCounts_eq]
        apply counts_components (map_snd_fieldComponents 0 fields)
        exact List.forall_mem_map.2 fun f hf v => ih f hf v
      exact each.check fun f => checkArity_fault
    | _ => exact counts_wrongKind _ _
  | sequence s ih => exact counts_sequence v ih
  | tuple items ih =>
    cases v with
    | tuple vs =>
      have each : Counts (encodeItems 0 items vs) (itemCounts items vs) := by
        rw [encodeItems_eq]
        exact counts_components (map_snd_itemComponents 0 items) vs ih
      exact each.check fun f => checkArity_fault
    | _ => exact counts_wrongKind _ _

/-- **Length before writing.** If a value is written, its `encodedLength` is the
number of bytes. If it is not, then because of a range, a scale or the shape,
and in the last case there is no length because of the same fault. So there is a
length wherever the value is written. -/
theorem encodedLength_agrees (s : Shape) (v : Value) :
    (∀ bytes, s.encodeBytes v = .ok bytes → s.encodedLength v = .ok bytes.length) ∧
      (∀ e, s.encodeBytes v = .error e →
        ((∃ found width signed, e.fault = .range found width signed) ∨
          (∃ expected got, e.fault = .scaleMismatch expected got) ∨ ∃ m, e.fault = .mismatch m) ∧
        ∀ m, e.fault = .mismatch m → s.encodedLength v = .error (.mismatch m)) ∧
      ∀ f, s.encodedLength v = .error f → ∃ e, s.encodeBytes v = .error e := by
  have counts := counts_wordCount s v
  have agrees (bytes : List UInt8) (written : s.encodeBytes v = .ok bytes) :
      s.encodedLength v = .ok bytes.length := by
    obtain ⟨words, encoded, rfl⟩ := map_eq_ok_iff.1 written
    rw [encodedLength, counts.ok words encoded, length_wordBytes]
    rfl
  refine ⟨agrees, fun e failed => ?_, fun f failed => ?_⟩
  · rcases counts.error e (map_eq_error_iff.1 failed) with content | ⟨m, shape, same⟩
    · refine ⟨?_, fun m shape => absurd shape (content.ne_mismatch m)⟩
      exact content.imp_right .inl
    · refine ⟨.inr (.inr ⟨m, shape⟩), fun m' shape' => ?_⟩
      rw [encodedLength, same, ← shape, shape']
      rfl
  · cases written : s.encodeBytes v with
    | ok bytes => cases (agrees bytes written).symm.trans failed
    | error e => exact ⟨e, rfl⟩

/-- Lines that are written, lines whose second has a truth value of another
kind, and a line that is out of range in front of such a truth value: `encode`
stops at the range and the count goes on. -/
theorem encodedLength_agrees_lines :
    let s : Shape := .sequence (.record "Line" [("change", .signed .w8), ("open", .bool)])
    let good : Value := .sequence [.record [.signed 127, .bool true]]
    let wrong : Value :=
      .sequence [.record [.signed 0, .bool true], .record [.signed 1, .unsigned 1]]
    let hidden : Value := .sequence [.record [.signed 128, .unsigned 1]]
    let kind : Mismatch := .kind .bool "unsigned integer"
    let steps : List Step := [.element 1, .field 1 "open"]
    s.encodedLength good = .ok 96 ∧
      s.encodeBytes wrong = .error ⟨steps, .mismatch kind⟩ ∧
      s.encodedLength wrong = .error (.mismatch kind) ∧
      s.encodedLength hidden = .error (.mismatch kind) ∧
      ∃ e, s.encodeBytes hidden = .error e := by
  intro s good wrong hidden kind steps
  have written : s.encodeBytes good = .ok
      (wordBytes [Felt.reduce 1, Felt.ofInt 127, encodeBool true]) := rfl
  have failed : s.encodeBytes wrong = .error ⟨steps, .mismatch kind⟩ := rfl
  have uncounted : s.encodedLength hidden = .error (.mismatch kind) := rfl
  refine ⟨?_, failed, ?_, uncounted, ?_⟩
  · exact ((encodedLength_agrees s good).1 _ written).trans
      (congrArg Except.ok (length_wordBytes _))
  · exact ((encodedLength_agrees s wrong).2.1 _ failed).2 kind rfl
  · exact (encodedLength_agrees s hidden).2.2 _ uncounted

end Shape

end FeltWire
