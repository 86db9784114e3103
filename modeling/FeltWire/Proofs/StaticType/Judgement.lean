import FeltWire.Proofs.ByteString.Layout
import FeltWire.Proofs.Correspondence
import FeltWire.Proofs.Occurrence
import FeltWire.Proofs.StaticType

/-!
# Converting and writing judge alike

A value that is to become one of a type is checked twice over in two different
ways: the conversion follows the type, and writing follows its shape. Both take
a value apart in the same order and test the same things at the same places, so
that a value is either accepted by both or refused by both, and then for the
same fault at the same place.

## Where they differ

A tuple with another number of items than it should have is a value of another
kind for a conversion, and one with a wrong number of items where it is written.
There are also two tests that a conversion does not make. It does not ask
whether the elements of a list take words, nor whether lengths can be counted in
32 bits, so that such types and values are left out.

## Main definitions

* `WireError.Judged`: an error of a conversion and the one that writing reports
* `StaticType.Judges`: a conversion and a shape judge values alike
* `StaticType.JudgesAll`: the same for components that are taken one after
  another

## Main results

* `JudgesAll.cons`, `judges_list`, `judges_tuple`, `judges_record`: judging
  alike, by kinds of types
* `judges`: every type's conversion judges as its shape does
* `conversion_judges`: what this says of successes, of results and of errors
-/

namespace FeltWire

/-- A fault of a conversion and the one that writing reports: the same one, or
that a tuple has another number of items than it should, which a conversion
takes for a wrong `kind`. -/
inductive Fault.Judged : Fault → Fault → Prop
  | same {f : Fault} : Judged f f
  | arity {items : List Shape} {found : Nat} (wrong : found ≠ items.length) :
      Judged (.mismatch (.kind (.tuple items) "tuple"))
        (.mismatch (.arity (.tuple items) items.length found))

/-- **An error of a conversion and the one that writing reports**: the steps are
the same, and the faults are `Fault.Judged`. -/
abbrev WireError.Judged : WireError → WireError → Prop := Located.Corresponds id Fault.Judged

namespace StaticType

open Shape (encodeComponents elementComponents fieldComponents itemComponents)

variable {α β γ : Type}

/-- **A conversion and a shape judge alike**: whatever is not `TooLong` is
converted exactly if it is written, and otherwise the errors are the same. -/
abbrev Judges (s : Shape) (ofValue : Value → Except WireError α) : Prop :=
  ∀ v : Value, ¬v.TooLong → Corresponds WireError.Judged (fun _ _ => True) (ofValue v) (s.encode v)

/-! ## Scalars and byte strings -/

/-- A test `p` on which both depend, and the same fault `f` without it. -/
theorem corresponds_test {p : Prop} [Decidable p] {x : p → α} {word : p → Felt} {f : Fault} :
    Corresponds WireError.Judged (fun _ _ => True)
      (if h : p then .ok (x h) else atRoot (.error f))
      (do return [← atRoot (if h : p then .ok (word h) else .error f)] :
        Except WireError (List Felt)) := by
  split
  · exact .ok trivial
  · exact .error ⟨rfl, .same⟩

theorem judges_unsigned (w : Width) : Judges (.unsigned w) (unsigned w).ofValue := by
  intro v _
  cases v with
  | unsigned n => exact corresponds_test
  | _ => exact .error ⟨rfl, .same⟩

theorem judges_signed (w : Width) : Judges (.signed w) (signed w).ofValue := by
  intro v _
  cases v with
  | signed n => exact corresponds_test
  | _ => exact .error ⟨rfl, .same⟩

theorem judges_bool : Judges .bool bool.ofValue := by
  intro v _
  cases v with
  | bool b => exact .ok trivial
  | _ => exact .error ⟨rfl, .same⟩

theorem judges_felt : Judges .felt felt.ofValue := by
  intro v _
  cases v with
  | felt x => exact .ok trivial
  | _ => exact .error ⟨rfl, .same⟩

theorem judges_fixed : Judges (.fixed Fixed.standardScale) fixed.ofValue := by
  intro v _
  cases v with
  | fixed x => exact corresponds_test
  | _ => exact .error ⟨rfl, .same⟩

/-- A byte string is converted as it is, and written unless it is `TooLong`. -/
theorem judges_bytes : Judges .bytes bytes.ofValue := by
  intro v short
  cases v with
  | bytes data =>
    have size : data.length < 31 * 2 ^ 32 := by
      rw [Value.tooLong_iff, not_or] at short
      exact Nat.lt_of_not_le short.1
    obtain ⟨words, encoded⟩ := ByteString.exists_encode size
    have written : Shape.bytes.encode (.bytes data) = .ok words := by
      rw [Shape.encode, encoded]
      rfl
    rw [written]
    exact .ok trivial
  | _ => exact .error ⟨rfl, .same⟩

/-! ## Components -/

/-- **Conversions of components judge as their shapes do**, if there are as many
values as shapes. -/
abbrev JudgesAll (components : List (Step × Shape)) (ofValues : List Value → Except WireError α) :
    Prop :=
  ∀ vs : List Value, vs.length = components.length → (∀ v ∈ vs, ¬v.TooLong) →
    Corresponds WireError.Judged (fun _ _ => True) (ofValues vs) (encodeComponents components vs)

namespace JudgesAll

theorem nil {ofValues : List Value → Except WireError α} {x : α} (given : ofValues [] = .ok x) :
    JudgesAll [] ofValues := by
  intro vs size _
  obtain rfl := List.length_eq_zero_iff.1 size
  rw [given]
  exact .ok trivial

/-- A component in front is judged first, and its faults are seen through its
own `step` on both sides. -/
theorem cons {step : Step} {s : Shape} {components : List (Step × Shape)}
    {ofValue : Value → Except WireError α} {ofValues : List Value → Except WireError β}
    {ofAll : List Value → Except WireError γ} {join : α → β → γ} (head : Judges s ofValue)
    (tail : JudgesAll components ofValues)
    (taken : ∀ v vs, ofAll (v :: vs) = do
      let x ← atStep step (ofValue v)
      let xs ← ofValues vs
      return join x xs) : JudgesAll ((step, s) :: components) ofAll := by
  intro vs size short
  rcases vs with _ | ⟨v, vs⟩
  · cases size
  have first := (head v (short v List.mem_cons_self)).atStep step
  have others := tail vs (Nat.succ.inj size) fun u hu => short u (List.mem_cons_of_mem v hu)
  rw [taken, encodeComponents]
  apply first.bind
  rintro x words -
  apply others.bind
  rintro xs rest -
  exact .ok trivial

end JudgesAll

/-- The elements of a list are judged by one shape, whatever the `index` of the
first. -/
theorem judgesAll_elements {s : Shape} {ofValue : Value → Except WireError α}
    (each : Judges s ofValue) (index count : Nat) :
    JudgesAll (elementComponents s index count) (listOfValues ofValue index) := by
  induction count generalizing index with
  | zero => exact .nil rfl
  | succ count ih =>
    rw [Shape.elementComponents_succ]
    exact .cons each (ih (index + 1)) fun v vs => rfl

theorem judgesAll_items {items : List StaticType}
    (each : ∀ t ∈ items, Judges t.shape t.ofValue) (position : Nat) :
    JudgesAll (itemComponents position (itemShapes items)) (itemsOfValues position items) := by
  induction items generalizing position with
  | nil => exact .nil rfl
  | cons t items ih =>
    have tail := ih (fun u hu => each u (List.mem_cons_of_mem t hu)) (position + 1)
    rw [itemShapes, Shape.itemComponents_cons]
    exact .cons (each t List.mem_cons_self) tail fun v vs => rfl

theorem judgesAll_fields {fields : List (String × StaticType)}
    (each : ∀ f ∈ fields, Judges f.2.shape f.2.ofValue) (position : Nat) :
    JudgesAll (fieldComponents position (fieldShapes fields))
      fun vs => fieldsOfValues fields ⟨position, vs⟩ := by
  induction fields generalizing position with
  | nil => exact .nil rfl
  | cons f fields ih =>
    have tail := ih (fun g hg => each g (List.mem_cons_of_mem f hg)) (position + 1)
    rw [fieldShapes, Shape.fieldComponents_cons]
    exact .cons (each f List.mem_cons_self) tail fun v vs => rfl

/-! ## Lists, tuples and records -/

/-- **A list** is judged as the sequence of its elements: these take `words`,
and can be counted. Only the count stands in front of what the elements are
written as. -/
theorem judges_list {t : StaticType} (words : t.shape.fixedWords ≠ some 0)
    (each : Judges t.shape t.ofValue) : Judges (list t).shape (list t).ofValue := by
  intro v short
  cases v with
  | sequence vs =>
    have size : vs.length ≤ lengthWidth.maxUnsigned := by
      rw [Value.tooLong_iff, not_or] at short
      exact Nat.le_pred_of_lt (Nat.lt_of_not_le short.1)
    have counted := encodeUnsigned_eq_ok_iff.2 ⟨size, rfl⟩
    have elements := judgesAll_elements each 0 vs.length vs
      (Shape.length_elementComponents t.shape 0 vs.length).symm (Value.not_tooLong_of_mem short)
    rw [shape, Shape.encode, Shape.checkElement_eq_ok_iff.2 words, counted, Shape.encodeElements_eq]
    have converted : (list t).ofValue (.sequence vs) =
        listOfValues t.ofValue 0 vs >>= Except.ok := (bind_pure _).symm
    rw [converted]
    exact elements.bind fun xs words _ => .ok trivial
  | _ => exact .error ⟨rfl, .same⟩

/-- **A tuple** is judged item by item if it has as many items as it should.
What one calls another kind of value has for the other a wrong number of
items. -/
theorem judges_tuple {items : List StaticType} (each : ∀ t ∈ items, Judges t.shape t.ofValue) :
    Judges (tuple items).shape (tuple items).ofValue := by
  intro v short
  cases v with
  | tuple vs =>
    have converted : (tuple items).ofValue (.tuple vs) =
        if vs.length = items.length then itemsOfValues 0 items vs
        else atRoot (Shape.wrongKind (.tuple (itemShapes items)) (.tuple vs)) := rfl
    rw [converted, shape, Shape.encode, Shape.checkArity, Shape.encodeItems_eq, length_itemShapes]
    -- one equation, read in the two directions
    split
    · next size =>
      rw [if_pos size.symm]
      apply judgesAll_items each 0 vs _ (Value.not_tooLong_of_mem short)
      rw [size, Shape.length_itemComponents, length_itemShapes]
    · next wrong =>
      rw [if_neg (Ne.symm wrong), ← length_itemShapes]
      refine .error ⟨rfl, .arity ?_⟩
      rwa [length_itemShapes]
  | _ => exact .error ⟨rfl, .same⟩

/-- **A record** is judged field by field, and both refuse a wrong number of
fields alike, with the `arity`. -/
theorem judges_record {name : String} {fields : List (String × StaticType)}
    (each : ∀ f ∈ fields, Judges f.2.shape f.2.ofValue) :
    Judges (record name fields).shape (record name fields).ofValue := by
  intro v short
  have converted : (record name fields).ofValue v =
      atRoot (takeFields v (.record name (fieldShapes fields)) fields.length) >>=
        fieldsOfValues fields := rfl
  rw [converted]
  cases v with
  | record vs =>
    rw [takeFields, shape, Shape.encode, Shape.checkArity, Shape.encodeFields_eq,
      length_fieldShapes]
    split
    · next size =>
      rw [if_pos size.symm]
      apply judgesAll_fields each 0 vs _ (Value.not_tooLong_of_mem short)
      rw [size, Shape.length_fieldComponents, length_fieldShapes]
    · next wrong =>
      rw [if_neg (Ne.symm wrong)]
      exact .error ⟨rfl, .same⟩
  | _ => exact .error ⟨rfl, .same⟩

/-! ## All types -/

theorem itemShapes_eq (items : List StaticType) : itemShapes items = items.map shape := by
  induction items with
  | nil => rfl
  | cons t items ih => rw [itemShapes, ih, List.map_cons]

theorem fieldShapes_eq (fields : List (String × StaticType)) :
    fieldShapes fields = fields.map fun f => (f.1, f.2.shape) := by
  induction fields with
  | nil => rfl
  | cons f fields ih => rw [fieldShapes, ih, List.map_cons]

/-- **Every type's conversion judges as its shape does**, if the elements of its
lists take `words`. The induction is over the type. -/
theorem judges (t : StaticType) (words : t.shape.ElementsTakeWords) : Judges t.shape t.ofValue := by
  induction t using induct with
  | unsigned w => exact judges_unsigned w
  | signed w => exact judges_signed w
  | bool => exact judges_bool
  | felt => exact judges_felt
  | fixed => exact judges_fixed
  | bytes => exact judges_bytes
  | list t ih => exact judges_list (words t.shape .here) (ih (words.component List.mem_cons_self))
  | tuple items ih =>
    refine judges_tuple fun t mem => ih t mem (words.component ?_)
    rw [shape, Shape.components, itemShapes_eq]
    exact List.mem_map_of_mem mem
  | record name fields ih =>
    refine judges_record fun f mem => ih f mem (words.component ?_)
    rw [shape, Shape.components, fieldShapes_eq, List.map_map]
    exact List.mem_map_of_mem (f := Prod.snd ∘ _) mem

/-- **Converting and writing judge alike.** For a type the elements of whose
lists take `words`, and a value that is not `TooLong`: it is converted exactly
if it is written, and what it is converted to stands for it. If both fail, they
do so at the same place and for the same fault; only a tuple with a wrong number
of items is described in two ways. -/
theorem conversion_judges (t : StaticType) (words : t.shape.ElementsTakeWords) (v : Value)
    (short : ¬v.TooLong) :
    ((∃ x, t.ofValue v = .ok x) ↔ ∃ bytes, t.shape.encodeBytes v = .ok bytes) ∧
    (∀ x, t.ofValue v = .ok x → t.toValue x = v) ∧
    ∀ e e', t.ofValue v = .error e → t.shape.encodeBytes v = .error e' →
      e'.path = e.path ∧ e'.steps = e.steps ∧
        (e'.fault = e.fault ∨ ∃ (items : List Shape) (found : Nat), found ≠ items.length ∧
          e.fault = .mismatch (.kind (.tuple items) "tuple") ∧
          e'.fault = .mismatch (.arity (.tuple items) items.length found)) := by
  have alike := judges t words v short
  refine ⟨?_, fun x => t.faithful.sound, fun e e' failed failed' => ?_⟩
  · rw [alike.exists_ok_iff]
    simp only [Shape.encodeBytes_eq_ok_iff]
    exact ⟨fun ⟨words, written⟩ => ⟨_, words, written, rfl⟩,
      fun ⟨_, words, written, _⟩ => ⟨words, written⟩⟩
  · obtain ⟨steps, fault⟩ := alike.of_error failed (map_eq_error_iff.1 failed')
    rw [List.map_id] at steps
    refine ⟨by rw [Located.path, Located.path, steps], steps, ?_⟩
    generalize e.fault = f, e'.fault = f' at fault
    cases fault with
    | same => exact .inl rfl
    | arity wrong => exact .inr ⟨_, _, wrong, rfl, rfl⟩

/-- A quote that is converted and written, one with a number out of range, and
one with a line of a single item. -/
theorem conversion_judges_quote :
    let value (line : List Value) : Value :=
      .record [.unsigned 7, .sequence [.tuple line], .bytes [0x6f, 0x6b]]
    let good := value [.signed (-3), .bool true]
    let wide := value [.signed (2 ^ 63), .bool true]
    let single := value [.signed (-3)]
    (∃ x bytes, quoteType.ofValue good = .ok x ∧ quoteType.toValue x = good ∧
      quoteType.shape.encodeBytes good = .ok bytes) ∧
    (∃ e e' : WireError, quoteType.ofValue wide = .error e ∧
      quoteType.shape.encodeBytes wide = .error e' ∧ e.path = ".lines[0].0" ∧ e'.path = e.path ∧
      e.fault = .range (.integer (2 ^ 63)) .w64 true ∧ e'.fault = e.fault) ∧
    ∃ e e' : WireError, quoteType.ofValue single = .error e ∧
      quoteType.shape.encodeBytes single = .error e' ∧ e.path = ".lines[0]" ∧ e'.path = e.path ∧
      e.fault ≠ e'.fault := by
  intro value good wide single
  have words : quoteType.shape.ElementsTakeWords := by
    simp [Shape.ElementsTakeWords, quoteType, shape, fieldShapes, itemShapes,
      Shape.occurs_iff (s := .record _ _), Shape.occurs_iff (s := .sequence _),
      Shape.occurs_iff (s := .tuple _), Shape.occurs_iff (s := .unsigned _),
      Shape.occurs_iff (s := .signed _), Shape.occurs_iff (s := .bool),
      Shape.occurs_iff (s := .bytes), Shape.components, Shape.fixedWords, Shape.itemWords]
  have number (n : Int) : ¬(Value.signed n).TooLong := by
    simp [Value.tooLong_iff (v := .signed _), Value.components, Value.Exceeds]
  have truth (b : Bool) : ¬(Value.bool b).TooLong := by
    simp [Value.tooLong_iff (v := .bool _), Value.components, Value.Exceeds]
  have short (line : List Value) (scalars : ∀ v ∈ line, ¬v.TooLong) : ¬(value line).TooLong := by
    simpa [value, Value.tooLong_iff (v := .record _), Value.tooLong_iff (v := .sequence _),
      Value.tooLong_iff (v := .unsigned _), Value.tooLong_iff (v := .tuple _),
      Value.tooLong_iff (v := .bytes _), Value.components, Value.Exceeds] using scalars
  have pair (n : Int) (b : Bool) := short [.signed n, .bool b] (by simp [number, truth])
  obtain ⟨accepted, stands, -⟩ := conversion_judges quoteType words good (pair _ _)
  obtain ⟨-, -, range⟩ := conversion_judges quoteType words wide (pair _ _)
  obtain ⟨-, -, arity⟩ := conversion_judges quoteType words single (short _ (by simp [number]))
  obtain ⟨x, converted⟩ : ∃ x, quoteType.ofValue good = .ok x := ⟨_, rfl⟩
  obtain ⟨bytes, written⟩ := accepted.1 ⟨x, converted⟩
  refine ⟨⟨x, bytes, converted, stands x converted, written⟩, ?_, ?_⟩
  · have place := (range _ _ rfl rfl).1
    exact ⟨_, _, rfl, rfl, by decide, place, rfl, rfl⟩
  · have place := (arity _ _ rfl rfl).1
    exact ⟨_, _, rfl, rfl, by decide, place, by decide⟩

/-- A list of empty tuples can be converted, but its elements take no words. -/
example : (∃ x, (list (tuple [])).ofValue (.sequence [.tuple []]) = .ok x) ∧
    (list (tuple [])).shape.encodeBytes (.sequence [.tuple []]) =
      .error (.here (.mismatch (.emptyElement (.tuple [])))) :=
  ⟨⟨_, rfl⟩, rfl⟩

end StaticType

end FeltWire
