import FeltWire.Proofs.Schema.Resolution
import FeltWire.Proofs.Schema.Walk
import Mathlib.Data.List.Chain
import Mathlib.Data.List.Nodup

/-!
# What an error of resolution witnesses

A struct that is not resolved comes with an error, and the error names what is
wrong: a chain of references that closes, a struct that is not defined, a field
that repeats, a primitive type that is not known, or items that take no words.
Whatever it names is there, in a struct that the one to be resolved reaches.

## Where the chain comes from

Resolution fails at some struct, and there it does so for a cause of its own.
Above that struct the stack is a path of references that starts where resolution
started: each struct is put there before what it refers to is resolved, and none
is put there twice. A struct that is found on the stack closes this path, so
that the chain in the error is a path and a name that occurs on it.

## Main definitions

* `Schema.IsPath`: a stack is the path of references to a struct
* `Schema.FailsAt`: what can go wrong at a struct, below a stack

## Main results

* `typesFail_of_resolveType`, `resolveFields_eq_error`: how types and fields fail
* `failsAt_or_below`: a struct fails by itself or because of one that it refers
  to
* `exists_failsAt`: a failure has its place at the end of a path
* `errors_witnessed`: what each error says is so, and what a walk has left on
  its stack
-/

namespace FeltWire.Schema

variable {s : Schema} {name other : String} {stack : List String} {e : SchemaError}
  {struct : String → Except SchemaError Shape} {t : FieldType}

/-! ## Types and fields -/

theorem sequenceOf_eq_error {d : Shape} (h : sequenceOf d = .error e) :
    d.fixedWords = some 0 ∧ e = .emptyItem d := by
  unfold sequenceOf at h
  split at h
  · next empty =>
    cases h
    exact ⟨empty, rfl⟩
  · cases h

/-- **How types fail**, for the types that are among `types`: a primitive type
is not known, the items of an array or a span take no words, or a `struct`
fails. -/
inductive TypesFail (struct : String → Except SchemaError Shape) (types : FieldType → Prop) :
    SchemaError → Prop
  | unknownPrimitive {p : String} (mentions : types (.primitive p)) (unknown : p ∉ primitiveNames) :
      TypesFail struct types (.unknownPrimitive p)
  | emptyItem {item : FieldType} {d : Shape} (mentions : types (.array item) ∨ types (.span item))
      (resolved : resolveType struct item = .ok d) (empty : d.fixedWords = some 0) :
      TypesFail struct types (.emptyItem d)
  | struct {other : String} {e : SchemaError} (mentions : types (.struct other))
      (fails : struct other = .error e) : TypesFail struct types e

theorem TypesFail.mono {types types' : FieldType → Prop} (h : TypesFail struct types e)
    (sub : ∀ t, types t → types' t) : TypesFail struct types' e := by
  cases h with
  | unknownPrimitive mentions unknown => exact .unknownPrimitive (sub _ mentions) unknown
  | emptyItem mentions resolved empty =>
    exact .emptyItem (mentions.imp (sub _) (sub _)) resolved empty
  | struct mentions fails => exact .struct (sub _ mentions) fails

/-- **A type fails** because of a type that occurs in it, in one of the ways of
`TypesFail`. -/
theorem typesFail_of_resolveType (h : resolveType struct t = .error e) :
    TypesFail struct (·.Occurs t) e := by
  induction t with
  | primitive name =>
    rw [resolveType] at h
    split at h
    · cases h
    · next unknown =>
      cases h
      exact .unknownPrimitive .here (by simp [← exists_primitive?_iff, unknown])
  | array item ih =>
    rcases bind_eq_error_iff.1 h with inner | ⟨d, resolved, h⟩
    · exact (ih inner).mono fun _ => .array
    · obtain ⟨empty, rfl⟩ := sequenceOf_eq_error h
      exact .emptyItem (.inl .here) resolved empty
  | span item ih =>
    rcases bind_eq_error_iff.1 h with inner | ⟨d, resolved, h⟩
    · exact (ih inner).mono fun _ => .span
    · obtain ⟨empty, rfl⟩ := sequenceOf_eq_error h
      exact .emptyItem (.inr .here) resolved empty
  | struct name => exact .struct .here h

/-- **How fields fail**: a name repeats, or was `seen` before, or a type fails.
What was seen is counted with the fields, so that each field in turn counts as
seen for those behind it. -/
theorem resolveFields_eq_error {owner : String} {seen : List String} {fields : List Field}
    (h : resolveFields struct owner seen fields = .error e) :
    (∃ f, e = .duplicateField owner f ∧ 2 ≤ (seen ++ fields.map Field.name).count f) ∨
      ∃ f ∈ fields, resolveType struct f.type = .error e := by
  induction fields generalizing seen with
  | nil => cases h
  | cons f fields ih =>
    rw [resolveFields] at h
    split at h
    · next repeated =>
      cases h
      have before : 0 < seen.count f.name := List.count_pos_iff.2 repeated
      refine .inl ⟨f.name, rfl, ?_⟩
      rw [List.map_cons, List.count_append, List.count_cons_self]
      omega
    · rcases bind_eq_error_iff.1 h with h | ⟨d, -, h⟩
      · exact .inr ⟨f, List.mem_cons_self, h⟩
      · rcases bind_eq_error_iff.1 h with h | ⟨rest, -, ⟨⟩⟩
        rcases ih h with ⟨g, rfl, twice⟩ | ⟨g, hg, h⟩
        · refine .inl ⟨g, rfl, ?_⟩
          rwa [List.map_cons, List.perm_middle.count_eq]
        · exact .inr ⟨g, List.mem_cons_of_mem f hg, h⟩

/-! ## Structs -/

/-- **What can go wrong at a struct**, below a `stack` of names, that is not the
fault of another struct. -/
inductive FailsAt (s : Schema) (stack : List String) (name : String) : SchemaError → Prop
  /-- The struct is on the `stack`. -/
  | recursive (cyclic : name ∈ stack) : FailsAt s stack name (.recursive (stack ++ [name]))
  /-- The struct is not defined. -/
  | unknownStruct (undefined : ∀ fields, ¬s.Defines name fields) :
      FailsAt s stack name (.unknownStruct name)
  /-- Two of its fields have one name `f`. -/
  | duplicateField {fields : List Field} {f : String} (defined : s.Defines name fields)
      (twice : 2 ≤ (fields.map Field.name).count f) : FailsAt s stack name (.duplicateField name f)
  /-- A primitive type `p` in its fields is not known. -/
  | unknownPrimitive {p : String} (mentions : s.Mentions name (.primitive p))
      (unknown : p ∉ primitiveNames) : FailsAt s stack name (.unknownPrimitive p)
  /-- The items of an array or a span in its fields take no words. -/
  | emptyItem {item : FieldType} {d : Shape}
      (mentions : s.Mentions name (.array item) ∨ s.Mentions name (.span item))
      (resolved : resolveType s.resolve item = .ok d) (empty : d.fixedWords = some 0) :
      FailsAt s stack name (.emptyItem d)

/-- What a struct resolves to does not depend on the `stack`: without one it is
`Resolvable` as well, and `Unfolds.unique` applies. -/
theorem resolve_of_resolveBelow {d : Shape} (h : s.resolveBelow stack name = .ok d) :
    s.resolve name = .ok d := by
  obtain ⟨d', resolved⟩ : ∃ d', s.resolveBelow [] name = .ok d' :=
    exists_resolveBelow (resolvable_of_resolveBelow h) nofun
  rw [resolve, resolved, (unfolds_of_resolveBelow h).unique (unfolds_of_resolveBelow resolved)]

/-- What a type resolves to is the same wherever structs resolve to the same. -/
theorem resolveType_mono {struct' : String → Except SchemaError Shape} {d : Shape}
    (h : resolveType struct t = .ok d)
    (structs : ∀ name d, struct name = .ok d → struct' name = .ok d) :
    resolveType struct' t = .ok d := by
  induction t generalizing d with
  | primitive name => exact h
  | array item ih | span item ih =>
    obtain ⟨element, resolved, positive, rfl⟩ := resolveType_array_eq_ok_iff.1 h
    exact resolveType_array_eq_ok_iff.2 ⟨element, ih resolved, positive, rfl⟩
  | struct name => exact structs name d h

/-- **A struct fails by itself or because of one that it refers to**, which is
then resolved with the struct on the stack. In the first case `FailsAt` says
how; in the second a type that occurs in a field fails. -/
theorem failsAt_or_below (h : s.resolveBelow stack name = .error e) :
    s.FailsAt stack name e ∨ name ∉ stack ∧
      ∃ other, s.Refers name other ∧ s.resolveBelow (stack ++ [name]) other = .error e := by
  by_cases new : name ∈ stack
  · cases (resolveBelow_of_mem new).symm.trans h
    exact .inl (.recursive new)
  rcases defined : Dictionary.get? name s.structs with _ | fields
  · cases (resolveBelow_of_undefined new defined).symm.trans h
    refine .inl (.unknownStruct fun fields found => ?_)
    cases defined.symm.trans found
  rw [resolveBelow_of_defined new defined, map_eq_error_iff] at h
  rcases resolveFields_eq_error h with ⟨f, rfl, twice⟩ | ⟨f, hf, h⟩
  · exact .inl (.duplicateField defined twice)
  have fails := (typesFail_of_resolveType h).mono
    fun t occurs => (⟨fields, defined, f, hf, occurs⟩ : s.Mentions name t)
  cases fails with
  | unknownPrimitive mentions unknown => exact .inl (.unknownPrimitive mentions unknown)
  | emptyItem mentions resolved empty =>
    have resolved' := resolveType_mono resolved fun other d => resolve_of_resolveBelow
    exact .inl (.emptyItem mentions resolved' empty)
  | struct refers fails => exact .inr ⟨new, _, refers, fails⟩

/-! ## Paths -/

/-- **A stack is a path to a struct**: each name on it `Refers` to the next, the
last one to the struct, and none is there twice. -/
structure IsPath (s : Schema) (stack : List String) (name : String) : Prop where
  chain : (stack ++ [name]).IsChain s.Refers
  nodup : stack.Nodup

theorem IsPath.nil (s : Schema) (name : String) : s.IsPath [] name :=
  ⟨List.isChain_singleton name, List.nodup_nil⟩

/-- A struct that is not on the stack (`new`) is put there before what it refers
to is resolved. -/
theorem IsPath.concat (h : s.IsPath stack name) (new : name ∉ stack)
    (refers : s.Refers name other) : s.IsPath (stack ++ [name]) other where
  chain := by
    rw [List.append_assoc]
    exact List.isChain_append_cons_cons.2 ⟨h.chain, refers, List.isChain_singleton other⟩
  nodup := by
    rw [← List.concat_eq_append, List.nodup_concat]
    exact ⟨new, h.nodup⟩

/-- **A failure has its place**: some struct fails by itself (`FailsAt`) at the
end of a path that goes on from where resolution is. The stack grows with the
path, so that there are fewer `unvisited` definitions. -/
theorem exists_failsAt {stack : List String} {name : String}
    (h : s.resolveBelow stack name = .error e) (path : s.IsPath stack name) :
    ∃ stack' last, stack ++ [name] <+: stack' ++ [last] ∧ s.IsPath stack' last ∧
      s.Reaches name last ∧ s.FailsAt stack' last e := by
  rcases failsAt_or_below h with here | ⟨new, other, refers, below⟩
  · exact ⟨stack, name, List.prefix_rfl, path, .refl, here⟩
  · obtain ⟨stack', last, goes, path', reached, fails⟩ :=
      exists_failsAt below (path.concat new refers)
    exact ⟨stack', last, (List.prefix_append ..).trans goes, path', .head refers reached, fails⟩
termination_by s.unvisited stack
decreasing_by
  obtain ⟨fields, defined, -⟩ := refers
  exact unvisited_append_lt new defined

/-! ## Errors -/

/-- **Errors witness what they say.** A `chain` of references that closes starts
with the struct that is resolved; each name in it refers to the next, and the
last one is one of the names before it, which are different. These names are
what `walkFrom` then has on its stack. A struct that is not defined is the one
to be resolved or one that a struct in reach refers to. A field that repeats, a
primitive type that is not known and items that take no words are found in a
struct in reach. Where there is no error, `walkFrom` leaves nothing on its
stack. -/
theorem errors_witnessed (s : Schema) (n : String) :
    (∀ chain, s.resolve n = .error (.recursive chain) → chain.head? = some n ∧
      chain.IsChain s.Refers ∧ chain.dropLast.Nodup ∧
      (∃ last, chain.getLast? = some last ∧ last ∈ chain.dropLast) ∧
      s.walkFrom n = (.error (.recursive chain), chain.dropLast)) ∧
    (∀ x, s.resolve n = .error (.unknownStruct x) →
      (x = n ∨ ∃ m, s.Reaches n m ∧ s.Refers m x) ∧ ∀ fields, ¬s.Defines x fields) ∧
    (∀ t f, s.resolve n = .error (.duplicateField t f) → s.Reaches n t ∧
      ∃ fields, s.Defines t fields ∧ 2 ≤ (fields.map Field.name).count f) ∧
    (∀ p, s.resolve n = .error (.unknownPrimitive p) →
      (∃ m, s.Reaches n m ∧ s.Mentions m (.primitive p)) ∧ p ∉ primitiveNames) ∧
    (∀ d, s.resolve n = .error (.emptyItem d) → d.fixedWords = some 0 ∧
      ∃ m item, s.Reaches n m ∧ (s.Mentions m (.array item) ∨ s.Mentions m (.span item)) ∧
        resolveType s.resolve item = .ok d) ∧
    ∀ d, s.resolve n = .ok d → s.walkFrom n = (.ok d, []) := by
  have place : ∀ e, s.resolve n = .error e → ∃ stack last, [n] <+: stack ++ [last] ∧
      s.IsPath stack last ∧ s.Reaches n last ∧ s.FailsAt stack last e :=
    fun e h => exists_failsAt h (.nil s n)
  refine ⟨fun chain h => ?_, fun x h => ?_, fun t f h => ?_, fun p h => ?_, fun d h => ?_,
    fun d resolved => walkFrom_of_ok resolved⟩
  · obtain ⟨stack, last, ⟨rest, starts⟩, path, -, fails⟩ := place _ h
    cases fails with
    | recursive cyclic =>
      have stops := walkFrom_of_recursive h
      rw [List.dropLast_concat] at stops ⊢
      refine ⟨?_, path.chain, path.nodup, ⟨last, List.getLast?_concat, cyclic⟩, stops⟩
      rw [← starts]
      rfl
  · obtain ⟨_, _, -, -, reached, fails⟩ := place _ h
    cases fails with
    | unknownStruct undefined =>
      refine ⟨?_, undefined⟩
      rcases reached.cases_tail with same | ⟨m, reached, refers⟩
      · exact .inl same
      · exact .inr ⟨m, reached, refers⟩
  · obtain ⟨_, _, -, -, reached, fails⟩ := place _ h
    cases fails with
    | duplicateField defined twice => exact ⟨reached, _, defined, twice⟩
  · obtain ⟨_, m, -, -, reached, fails⟩ := place _ h
    cases fails with
    | unknownPrimitive mentions unknown => exact ⟨⟨m, reached, mentions⟩, unknown⟩
  · obtain ⟨_, m, -, -, reached, fails⟩ := place _ h
    cases fails with
    | emptyItem mentions resolved empty => exact ⟨empty, m, _, reached, mentions, resolved⟩

/-- A tree whose nodes lead back to it, structs that fail in each of the other
ways, and one that has a shape. -/
theorem errors_witnessed_tree :
    let s : Schema :=
      ⟨[("Root", [⟨"tree", .struct "Tree"⟩]),
        ("Tree", [⟨"size", .primitive "u32"⟩, ⟨"nodes", .array (.struct "Node")⟩]),
        ("Node", [⟨"parents", .span (.array (.struct "Tree"))⟩]),
        ("Orphan", [⟨"parent", .struct "Missing"⟩]),
        ("Twins", [⟨"a", .primitive "u8"⟩, ⟨"b", .primitive "bool"⟩, ⟨"a", .primitive "u16"⟩]),
        ("Odd", [⟨"x", .primitive "u7"⟩]),
        ("Blank", []),
        ("Blanks", [⟨"list", .array (.struct "Blank")⟩])], "Root", "Orphan"⟩
    let chain := ["Root", "Tree", "Node", "Tree"]
    let blank : Shape := .record "Blank" []
    (s.resolve "Root" = .error (.recursive chain) ∧ chain.IsChain s.Refers ∧
      s.walkFrom "Root" = (.error (.recursive chain), ["Root", "Tree", "Node"])) ∧
    (s.resolve "Orphan" = .error (.unknownStruct "Missing") ∧
      ∀ fields, ¬s.Defines "Missing" fields) ∧
    (s.resolve "Twins" = .error (.duplicateField "Twins" "a") ∧
      ∃ fields, s.Defines "Twins" fields ∧ 2 ≤ (fields.map Field.name).count "a") ∧
    (s.resolve "Odd" = .error (.unknownPrimitive "u7") ∧ "u7" ∉ primitiveNames) ∧
    (s.resolve "Blanks" = .error (.emptyItem blank) ∧ ∃ m item, s.Reaches "Blanks" m ∧
      (s.Mentions m (.array item) ∨ s.Mentions m (.span item)) ∧
      resolveType s.resolve item = .ok blank) ∧
    s.walkFrom "Blank" = (.ok blank, []) := by
  intro s chain blank
  have closes : s.resolve "Root" = .error (.recursive chain) := by
    simp [resolve, resolveBelow, resolveFields, resolveType, primitive?, Dictionary.get?, s, chain]
    rfl
  have missing : s.resolve "Orphan" = .error (.unknownStruct "Missing") := by
    simp [resolve, resolveBelow, resolveFields, resolveType, Dictionary.get?, s]
    rfl
  have twice : s.resolve "Twins" = .error (.duplicateField "Twins" "a") := by
    simp [resolve, resolveBelow, resolveFields, resolveType, primitive?, Dictionary.get?, s]
    rfl
  have unknown : s.resolve "Odd" = .error (.unknownPrimitive "u7") := by
    simp [resolve, resolveBelow, resolveFields, resolveType, primitive?, Dictionary.get?, s]
    rfl
  have empty : s.resolve "Blanks" = .error (.emptyItem blank) := by
    simp [resolve, resolveBelow, resolveFields, resolveType, Dictionary.get?, s]
    rfl
  have alone : s.resolve "Blank" = .ok blank := by
    simp [resolve, resolveBelow, resolveFields, Dictionary.get?, s, blank]
    rfl
  obtain ⟨-, refers, -, -, stack⟩ := (errors_witnessed s "Root").1 chain closes
  obtain ⟨-, undefined⟩ := (errors_witnessed s "Orphan").2.1 _ missing
  obtain ⟨-, repeated⟩ := (errors_witnessed s "Twins").2.2.1 _ _ twice
  obtain ⟨-, unsupported⟩ := (errors_witnessed s "Odd").2.2.2.1 _ unknown
  obtain ⟨-, items⟩ := (errors_witnessed s "Blanks").2.2.2.2.1 _ empty
  exact ⟨⟨closes, refers, stack⟩, ⟨missing, undefined⟩, ⟨twice, repeated⟩,
    ⟨unknown, unsupported⟩, ⟨empty, items⟩, (errors_witnessed s "Blank").2.2.2.2.2 blank alone⟩

end FeltWire.Schema
