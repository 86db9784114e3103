import FeltWire.Located
import FeltWire.Proofs.Schema.Unfolding
import Mathlib.Logic.Function.Basic
import Mathlib.Tactic.Choose

/-!
# Resolution is exact

A struct has a shape exactly if nothing that it reaches stands in the way: an
undefined struct, a chain of references that closes, a repeated field, an
unknown primitive type or items without words. The shape is then the unfolding
of the definitions.

One step of the resolution asks for the name to be new and the struct to be
defined, for its fields to have different names and for their types to resolve
in turn. What a struct reaches is resolved below all structs on the way to it;
hence a chain that closes is found, and a struct that is only shared is not
mistaken for one.

## Main results

* `resolveBelow_eq_ok_iff`: when one step of the resolution succeeds
* `unfolds_of_resolveBelow`, `isProper_of_resolveBelow`: what it gives
* `exists_resolveBelow_of_reaches`: what a resolved struct reaches is resolved
* `exists_resolveBelow`: what nothing stands in the way of is resolved
* `distinctNames_of_resolve`, `elementsTakeWords_of_resolve`,
  `scale_of_resolve`: what the shape of a struct is like
* `resolve_exact`: all of these together
-/

namespace FeltWire

/-- What a shape that comes from a schema is like by itself, whatever its
`components` are. -/
def Shape.IsProper : Shape → Prop
  | .fixed scale => scale = Fixed.standardScale
  | .record _ fields => (fields.map Prod.fst).Nodup
  | .sequence element => element.fixedWords ≠ some 0
  | .tuple _ => False
  | _ => True

namespace Schema

variable {s : Schema} {name : String} {stack : List String} {d : Shape}
  {struct : String → Except SchemaError Shape} {t item : FieldType}

/-! ## Types -/

theorem isProper_of_primitive? {u : Shape} (h : primitive? name = some d) (hu : u.Occurs d) :
    u.IsProper := by
  have single : d.components = [] ∧ d.IsProper := by
    unfold primitive? at h
    split at h <;> cases h <;> exact ⟨rfl, by trivial⟩
  rcases hu with _ | ⟨mem, -⟩
  · exact single.2
  · exact absurd (single.1 ▸ mem) List.not_mem_nil

theorem sequenceOf_eq_ok_iff {element : Shape} :
    sequenceOf element = .ok d ↔ element.fixedWords ≠ some 0 ∧ d = .sequence element := by
  unfold sequenceOf
  split <;> simp_all [eq_comm]

theorem resolveType_primitive_eq_ok_iff :
    resolveType struct (.primitive name) = .ok d ↔ primitive? name = some d := by
  rw [resolveType]
  cases primitive? name <;> simp

theorem resolveType_array_eq_ok_iff : resolveType struct (.array item) = .ok d ↔
    ∃ element, resolveType struct item = .ok element ∧ element.fixedWords ≠ some 0 ∧
      d = .sequence element := by
  rw [resolveType, bind_eq_ok_iff]
  simp only [sequenceOf_eq_ok_iff]

/-- **What a type resolves to** is what it stands for (`Unfolds`), if that is so
for structs. -/
theorem unfolds_of_resolveType (h : resolveType struct t = .ok d)
    (structs : ∀ name d, struct name = .ok d → s.Unfolds (.struct name) d) : s.Unfolds t d := by
  induction t generalizing d with
  | primitive name => exact .primitive (resolveType_primitive_eq_ok_iff.1 h)
  | array item ih =>
    obtain ⟨element, resolved, -, rfl⟩ := resolveType_array_eq_ok_iff.1 h
    exact .array (ih resolved)
  | span item ih =>
    obtain ⟨element, resolved, -, rfl⟩ := resolveType_array_eq_ok_iff.1 h
    exact .span (ih resolved)
  | struct name => exact structs name d h

/-- What occurs in what a type resolves to is `Shape.IsProper`, if that is so
for structs. -/
theorem isProper_of_resolveType {u : Shape} (h : resolveType struct t = .ok d)
    (structs : ∀ name d, struct name = .ok d → u.Occurs d → u.IsProper) (hu : u.Occurs d) :
    u.IsProper := by
  induction t generalizing d with
  | primitive name => exact isProper_of_primitive? (resolveType_primitive_eq_ok_iff.1 h) hu
  | array item ih | span item ih =>
    obtain ⟨element, resolved, positive, rfl⟩ := resolveType_array_eq_ok_iff.1 h
    rcases hu with _ | ⟨mem, inner⟩
    · exact positive
    · exact ih resolved (List.mem_singleton.1 mem ▸ inner)
  | struct name => exact structs name d h hu

/-- What occurs in a type that `resolveType` resolves also resolves. -/
theorem exists_resolveType_of_occurs {u : FieldType} (hu : u.Occurs t)
    (h : resolveType struct t = .ok d) : ∃ d', resolveType struct u = .ok d' := by
  induction hu generalizing d with
  | here => exact ⟨d, h⟩
  | array _ ih | span _ ih =>
    obtain ⟨element, resolved, -⟩ := resolveType_array_eq_ok_iff.1 h
    exact ih resolved

/-- **A type resolves** if the structs in it do, its primitive type is known
(`supported`), and the items of its arrays and spans take words (`positive`). -/
theorem exists_resolveType
    (structs : ∀ name, (FieldType.struct name).Occurs t → ∃ d, struct name = .ok d)
    (supported : ∀ name, (FieldType.primitive name).Occurs t → name ∈ primitiveNames)
    (positive : ∀ item element, (FieldType.array item).Occurs t ∨ (FieldType.span item).Occurs t →
      resolveType struct item = .ok element → element.fixedWords ≠ some 0) :
    ∃ d, resolveType struct t = .ok d := by
  induction t with
  | primitive name =>
    obtain ⟨d, known⟩ := exists_primitive?_iff.2 (supported name .here)
    exact ⟨d, resolveType_primitive_eq_ok_iff.2 known⟩
  | array item ih =>
    obtain ⟨element, resolved⟩ := ih (fun name h => structs name (.array h))
      (fun name h => supported name (.array h))
      (fun item element h => positive item element (h.imp .array .array))
    exact ⟨_, resolveType_array_eq_ok_iff.2
      ⟨element, resolved, positive item element (.inl .here) resolved, rfl⟩⟩
  | span item ih =>
    obtain ⟨element, resolved⟩ := ih (fun name h => structs name (.span h))
      (fun name h => supported name (.span h))
      (fun item element h => positive item element (h.imp .span .span))
    exact ⟨_, resolveType_array_eq_ok_iff.2
      ⟨element, resolved, positive item element (.inr .here) resolved, rfl⟩⟩
  | struct name => exact structs name .here

/-! ## Fields -/

/-- **When the fields of a struct resolve**: no name repeats or was `seen`
before, and all types resolve. The shapes are those of one function `unfold` of
the fields, which exists since no two fields have one name. -/
theorem resolveFields_eq_ok_iff {owner : String} {seen : List String} {fields : List Field}
    {ds : List (String × Shape)} : resolveFields struct owner seen fields = .ok ds ↔
      (∀ f ∈ fields, f.name ∉ seen) ∧ (fields.map Field.name).Nodup ∧
      ∃ unfold : Field → Shape, (∀ f ∈ fields, resolveType struct f.type = .ok (unfold f)) ∧
        ds = fields.map fun f => (f.name, unfold f) := by
  induction fields generalizing seen ds with
  | nil =>
    have some_shape : Nonempty (Field → Shape) := ⟨fun _ => .bool⟩
    simp [resolveFields, eq_comm]
  | cons f fields ih =>
    rw [resolveFields]
    split
    · next repeated => simp [repeated]
    · next new =>
      simp only [bind_eq_ok_iff, pure_eq_ok_iff, ih]
      constructor
      · rintro ⟨d, resolved, _, ⟨fresh, distinct, unfold, each, rfl⟩, rfl⟩
        have other : ∀ g ∈ fields, g ≠ f := fun g hg same =>
          fresh g hg (same ▸ List.mem_cons_self)
        have kept : ∀ g ∈ fields, Function.update unfold f d g = unfold g := fun g hg =>
          Function.update_of_ne (other g hg) ..
        refine ⟨?_, ?_, Function.update unfold f d, ?_, ?_⟩
        · rintro g (_ | ⟨_, hg⟩)
          · exact new
          · exact fun seen => fresh g hg (List.mem_cons_of_mem _ seen)
        · refine List.nodup_cons.2 ⟨fun repeated => ?_, distinct⟩
          obtain ⟨g, hg, same⟩ := List.mem_map.1 repeated
          exact fresh g hg (same ▸ List.mem_cons_self)
        · rintro g (_ | ⟨_, hg⟩)
          · rw [Function.update_self, resolved]
          · rw [kept g hg, each g hg]
        · rw [List.map_cons, Function.update_self]
          exact congrArg _ (List.map_congr_left fun g hg => by rw [kept g hg])
      · rintro ⟨fresh, distinct, unfold, each, rfl⟩
        obtain ⟨unrepeated, distinct⟩ := List.nodup_cons.1 distinct
        refine ⟨unfold f, each f List.mem_cons_self, _, ⟨fun g hg => ?_, distinct, unfold,
          fun g hg => each g (List.mem_cons_of_mem _ hg), rfl⟩, rfl⟩
        rw [List.mem_cons, not_or]
        exact ⟨fun same => unrepeated (same ▸ List.mem_map_of_mem hg),
          fresh g (List.mem_cons_of_mem _ hg)⟩

/-! ## Structs -/

/-- **When one step of the resolution succeeds**: the `name` is not on the
`stack`, the struct is defined, and its fields have different names and types
that resolve with the name on the stack. -/
theorem resolveBelow_eq_ok_iff : s.resolveBelow stack name = .ok d ↔
    name ∉ stack ∧ ∃ fields, s.Defines name fields ∧ (fields.map Field.name).Nodup ∧
      ∃ unfold : Field → Shape,
        (∀ f ∈ fields, resolveType (s.resolveBelow (stack ++ [name])) f.type = .ok (unfold f)) ∧
        d = .record name (fields.map fun f => (f.name, unfold f)) := by
  rw [resolveBelow]
  split
  · next cyclic => simp [cyclic]
  · next new =>
    split
    · next undefined => simp [Defines, undefined]
    · next fields defined =>
      simp only [map_eq_ok_iff, resolveFields_eq_ok_iff, Defines, defined]
      constructor
      · rintro ⟨_, ⟨-, distinct, unfold, each, rfl⟩, rfl⟩
        exact ⟨new, fields, rfl, distinct, unfold, each, rfl⟩
      · rintro ⟨-, _, ⟨⟩, distinct, unfold, each, rfl⟩
        exact ⟨_, ⟨fun _ _ => List.not_mem_nil, distinct, unfold, each, rfl⟩, rfl⟩

/-- **What a struct resolves to** is what it stands for: `resolveBelow` only
gives what `Unfolds` allows. -/
theorem unfolds_of_resolveBelow (h : s.resolveBelow stack name = .ok d) :
    s.Unfolds (.struct name) d := by
  induction stack, name using resolveBelow.induct s generalizing d with
  | case1 stack name cyclic => exact absurd cyclic (resolveBelow_eq_ok_iff.1 h).1
  | case2 stack name new undefined =>
    obtain ⟨-, fields, defined, -⟩ := resolveBelow_eq_ok_iff.1 h
    cases undefined.symm.trans defined
  | case3 stack name new fields _ ih =>
    obtain ⟨-, fields, defined, -, unfold, each, rfl⟩ := resolveBelow_eq_ok_iff.1 h
    exact .struct unfold defined fun f hf =>
      unfolds_of_resolveType (each f hf) fun other d below => ih other below

/-- All that occurs in what a struct resolves to is `Shape.IsProper`. -/
theorem isProper_of_resolveBelow {u : Shape} (h : s.resolveBelow stack name = .ok d)
    (hu : u.Occurs d) : u.IsProper := by
  induction stack, name using resolveBelow.induct s generalizing d with
  | case1 stack name cyclic => exact absurd cyclic (resolveBelow_eq_ok_iff.1 h).1
  | case2 stack name new undefined =>
    obtain ⟨-, fields, defined, -⟩ := resolveBelow_eq_ok_iff.1 h
    cases undefined.symm.trans defined
  | case3 stack name new fields _ ih =>
    obtain ⟨-, fields, defined, distinct, unfold, each, rfl⟩ := resolveBelow_eq_ok_iff.1 h
    rcases hu with _ | ⟨mem, inner⟩
    · simpa [Shape.IsProper, Function.comp_def] using distinct
    · obtain ⟨field, listed, rfl⟩ := List.mem_map.1 mem
      obtain ⟨f, hf, rfl⟩ := List.mem_map.1 listed
      exact isProper_of_resolveType (each f hf) (fun other d below hu => ih other below hu) inner

/-- The types in the fields of a resolved struct are resolved below it, with its
`name` on the stack. -/
theorem exists_resolveType_of_mentions (h : s.resolveBelow stack name = .ok d)
    (mentions : s.Mentions name t) :
    ∃ d', resolveType (s.resolveBelow (stack ++ [name])) t = .ok d' := by
  obtain ⟨-, fields, defined, -, unfold, each, -⟩ := resolveBelow_eq_ok_iff.1 h
  obtain ⟨_, defined', f, hf, occurs⟩ := mentions
  obtain rfl := Option.some.inj (defined.symm.trans defined')
  exact exists_resolveType_of_occurs occurs (each f hf)

/-- The items of arrays and spans in the fields of a resolved struct take words;
both are resolved alike. -/
theorem fixedWords_ne_of_mentions (h : s.resolveBelow stack name = .ok d)
    (mentions : s.Mentions name (.array item) ∨ s.Mentions name (.span item)) {element : Shape}
    (unfolds : s.Unfolds item element) : element.fixedWords ≠ some 0 := by
  have resolved : ∃ d', resolveType (s.resolveBelow (stack ++ [name])) (.array item) = .ok d' :=
    mentions.elim (exists_resolveType_of_mentions h) (exists_resolveType_of_mentions h)
  obtain ⟨_, resolved⟩ := resolved
  obtain ⟨element', inner, positive, -⟩ := resolveType_array_eq_ok_iff.1 resolved
  have unfolds' := unfolds_of_resolveType inner fun other d below => unfolds_of_resolveBelow below
  exact unfolds.unique unfolds' ▸ positive

/-- **What a resolved struct reaches is resolved**, below a stack that keeps all
that is above the struct. The induction is on `Reaches`. -/
theorem exists_resolveBelow_of_reaches (h : s.resolveBelow stack name = .ok d) {other : String}
    (reached : s.Reaches name other) :
    ∃ stack' d', stack ⊆ stack' ∧ s.resolveBelow stack' other = .ok d' := by
  induction reached using Relation.ReflTransGen.head_induction_on generalizing stack d with
  | refl => exact ⟨stack, d, List.Subset.refl _, h⟩
  | head refers _ ih =>
    obtain ⟨d₁, below⟩ := exists_resolveType_of_mentions h refers
    obtain ⟨stack', d', kept, resolved⟩ := ih below
    exact ⟨stack', d', fun m hm => kept (List.mem_append_left _ hm), resolved⟩

/-- A resolved struct does not lead back to itself: it would be resolved below
itself, with its `name` on the stack, by `exists_resolveBelow_of_reaches`. -/
theorem not_transGen_of_resolveBelow (h : s.resolveBelow stack name = .ok d) :
    ¬Relation.TransGen s.Refers name name := by
  intro cycle
  obtain ⟨other, refers, back⟩ := Relation.TransGen.head'_iff.1 cycle
  obtain ⟨d₁, below⟩ := exists_resolveType_of_mentions h refers
  obtain ⟨stack', d', kept, again⟩ := exists_resolveBelow_of_reaches below back
  exact (resolveBelow_eq_ok_iff.1 again).1 (kept (List.mem_append_right _ List.mem_cons_self))

/-- **Nothing stands in the way** of a struct that is resolved: whatever it
reaches is resolved too, and `Resolvable` collects what that says. -/
theorem resolvable_of_resolveBelow (h : s.resolveBelow stack name = .ok d) :
    s.Resolvable name where
  defined m reached := by
    obtain ⟨_, _, -, resolved⟩ := exists_resolveBelow_of_reaches h reached
    obtain ⟨-, fields, defined, -⟩ := resolveBelow_eq_ok_iff.1 resolved
    exact ⟨fields, defined⟩
  acyclic m reached := by
    obtain ⟨_, _, -, resolved⟩ := exists_resolveBelow_of_reaches h reached
    exact not_transGen_of_resolveBelow resolved
  distinct m fields reached defined := by
    obtain ⟨_, _, -, resolved⟩ := exists_resolveBelow_of_reaches h reached
    obtain ⟨-, _, defined', distinct, -⟩ := resolveBelow_eq_ok_iff.1 resolved
    exact Option.some.inj (defined'.symm.trans defined) ▸ distinct
  supported m p reached mentions := by
    obtain ⟨_, _, -, resolved⟩ := exists_resolveBelow_of_reaches h reached
    obtain ⟨d', known⟩ := exists_resolveType_of_mentions resolved mentions
    exact exists_primitive?_iff.1 ⟨d', resolveType_primitive_eq_ok_iff.1 known⟩
  positive m item element reached mentions unfolds := by
    obtain ⟨_, _, -, resolved⟩ := exists_resolveBelow_of_reaches h reached
    exact fixedWords_ne_of_mentions resolved mentions unfolds

/-- **A `Resolvable` struct resolves** below structs that lead to it (`above`):
none of them is that struct, since it would lead to itself. The induction is
that of `resolveBelow`, with the name put on the stack for the types of the
fields. -/
theorem exists_resolveBelow (h : s.Resolvable name)
    (above : ∀ m ∈ stack, Relation.TransGen s.Refers m name) :
    ∃ d, s.resolveBelow stack name = .ok d := by
  induction stack, name using resolveBelow.induct s with
  | case1 stack name cyclic => exact absurd (above name cyclic) (h.acyclic name .refl)
  | case2 stack name new undefined =>
    obtain ⟨fields, defined⟩ := h.defined name .refl
    cases undefined.symm.trans defined
  | case3 stack name new fields defined ih =>
    have mentions {f : Field} (hf : f ∈ fields) {t : FieldType} (occurs : t.Occurs f.type) :
        s.Mentions name t := ⟨fields, defined, f, hf, occurs⟩
    have each : ∀ f ∈ fields,
        ∃ d, resolveType (s.resolveBelow (stack ++ [name])) f.type = .ok d := by
      intro f hf
      refine exists_resolveType (fun other occurs => ?_)
        (fun p occurs => h.supported name p .refl (mentions hf occurs))
        (fun item element occurs resolved => ?_)
      · have refers : s.Refers name other := mentions hf occurs
        refine ih other (h.of_refers refers) fun m hm => ?_
        rcases List.mem_append.1 hm with hm | hm
        · exact .tail (above m hm) refers
        · exact List.mem_singleton.1 hm ▸ .single refers
      · exact h.positive name item element .refl (occurs.imp (mentions hf) (mentions hf))
          (unfolds_of_resolveType resolved fun other d below => unfolds_of_resolveBelow below)
    have : Nonempty Shape := ⟨.bool⟩
    choose! unfold each using each
    exact ⟨_, resolveBelow_eq_ok_iff.2
      ⟨new, fields, defined, h.distinct name fields .refl defined, unfold, each, rfl⟩⟩

/-! ## Whole schemas -/

variable {n : String}

theorem unfolds_of_resolve (h : s.resolve n = .ok d) : s.Unfolds (.struct n) d :=
  unfolds_of_resolveBelow h

theorem distinctNames_of_resolve (h : s.resolve n = .ok d) : d.DistinctNames :=
  fun _ _ occurs => isProper_of_resolveBelow h occurs

theorem elementsTakeWords_of_resolve (h : s.resolve n = .ok d) : d.ElementsTakeWords :=
  fun _ occurs => isProper_of_resolveBelow h occurs

/-- The fixed-point numbers of a schema have the `Fixed.standardScale`. -/
theorem scale_of_resolve (h : s.resolve n = .ok d) {scale : UInt32}
    (occurs : (Shape.fixed scale).Occurs d) : scale = Fixed.standardScale :=
  isProper_of_resolveBelow h occurs

/-- **Resolution is exact.** `resolve` ends for every schema, since each step
leaves fewer definitions that are not on the stack, and it succeeds exactly if
the struct is `Resolvable`. Then it gives the one shape that the struct stands
for (`Unfolds`), whose records have different names for their fields, whose
sequences have elements that take words, and whose fixed-point numbers have
`Fixed.standardScale`. -/
theorem resolve_exact (s : Schema) (n : String) :
    ((∃ d, s.resolve n = .ok d) ↔ s.Resolvable n) ∧
    ∀ d, s.resolve n = .ok d →
      (s.Unfolds (.struct n) d ∧ ∀ d', s.Unfolds (.struct n) d' → d' = d) ∧
      d.DistinctNames ∧ d.ElementsTakeWords ∧
      ∀ scale, (Shape.fixed scale).Occurs d → scale = Fixed.standardScale := by
  refine ⟨⟨fun ⟨_, resolved⟩ => resolvable_of_resolveBelow resolved, fun resolvable => ?_⟩,
    fun d resolved => ⟨⟨unfolds_of_resolve resolved, fun d' unfolds => ?_⟩,
      distinctNames_of_resolve resolved, elementsTakeWords_of_resolve resolved,
      fun _ occurs => scale_of_resolve resolved occurs⟩⟩
  · exact exists_resolveBelow resolvable fun m above => absurd above List.not_mem_nil
  · exact unfolds.unique (unfolds_of_resolve resolved)

theorem resolve_exact_shared :
    let s : Schema :=
      ⟨[("Line", [⟨"price", .primitive "F64"⟩, ⟨"memo", .primitive "ByteArray"⟩]),
        ("Order", [⟨"first", .struct "Line"⟩, ⟨"rest", .array (.span (.struct "Line"))⟩])],
        "Order", "Line"⟩
    let line : Shape := .record "Line" [("price", .fixed 32), ("memo", .bytes)]
    let order : Shape := .record "Order" [("first", line), ("rest", .sequence (.sequence line))]
    s.resolve "Order" = .ok order ∧ s.Resolvable "Order" ∧ s.Unfolds (.struct "Order") order ∧
      order.DistinctNames ∧ order.ElementsTakeWords ∧
      ¬(Shape.fixed 64).Occurs order := by
  intro s line order
  have resolved : s.resolve "Order" = .ok order := by
    simp [resolve, resolveBelow, resolveFields, resolveType, primitive?, sequenceOf,
      Dictionary.get?, s, line, order]
    rfl
  obtain ⟨⟨unfolds, -⟩, distinct, positive, scales⟩ := (resolve_exact s "Order").2 order resolved
  exact ⟨resolved, (resolve_exact s "Order").1.1 ⟨order, resolved⟩, unfolds, distinct, positive,
    fun occurs => absurd (scales 64 occurs) (by decide)⟩

end Schema

end FeltWire
