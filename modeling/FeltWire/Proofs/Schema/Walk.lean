import FeltWire.Located
import FeltWire.Schema.Resolution

/-!
# Resolving with one stack

Each struct is resolved below a stack of names that is handed down to it. A walk
has a single stack instead: a struct puts its name there before its fields are
resolved, and takes the last name off afterwards. What is left of the stack
after one field is what the next one starts with.

The walk gives what the resolution gives. Whatever is resolved has left the
stack as it was, so that every struct finds just the names above it. A failure
leaves its names behind, and a chain of references that closes is what the stack
then holds, followed by the name found there.

## Main definitions

* `Walking`: a step that changes the stack
* `Walking.below`: a step with one more name on the stack
* `Schema.walk`: the walk of a struct
* `Schema.walkFrom`: the walk of a struct with nothing on the stack
* `Walking.Resolves`: a step that gives a result and restores the stack

## Main results

* `Walking.Resolves.bind`, `Walking.Resolves.below`: steps one after another and
  below a name
* `Schema.resolves_walk`: the walk resolves what the resolution does
* `Schema.walkFrom_of_ok`, `Schema.walkFrom_of_recursive`: what is left on the
  stack
-/

namespace FeltWire

/-- **A step of a walk**: it changes the stack of names and may fail with a
`SchemaError`. -/
abbrev Walking := ExceptT SchemaError (StateM (List String))

namespace Walking

variable {α β : Type}

/-- The outcome of the step `w` from a `stack`, and the stack after it. -/
def outcome (w : Walking α) (stack : List String) : Except SchemaError α × List String :=
  w.run.run stack

/-- A step that does not look at the stack, with `x` as its outcome. -/
def lift (x : Except SchemaError α) : Walking α := ExceptT.mk (pure x)

/-- The step `w` with one more `name` on the stack, which is taken off
afterwards unless it fails. -/
def below (name : String) (w : Walking α) : Walking α := do
  modify (· ++ [name])
  let a ← w
  modify List.dropLast
  return a

end Walking

/-! ## The walk -/

namespace Schema

/-- The shape of a type, `struct` walking the structs. -/
def walkType (struct : String → Walking Shape) : FieldType → Walking Shape
  | .primitive name => .lift <|
    match primitive? name with
    | some d => .ok d
    | none => .error (.unknownPrimitive name)
  | .array item => do
    let d ← walkType struct item
    Walking.lift (sequenceOf d)
  | .span item => do
    let d ← walkType struct item
    Walking.lift (sequenceOf d)
  | .struct name => struct name

/-- The shapes of the fields of the struct `owner`, one after another, as in
`resolveFields`. -/
def walkFields (struct : String → Walking Shape) (owner : String) (seen : List String) :
    List Field → Walking (List (String × Shape))
  | [] => return []
  | f :: fields =>
    if f.name ∈ seen then .lift (.error (.duplicateField owner f.name))
    else do
      let d ← walkType struct f.type
      let rest ← walkFields struct owner (f.name :: seen) fields
      return (f.name, d) :: rest

/-- **The walk of a struct**, nested no deeper than there is `room`. It keeps
one stack, where `resolveBelow` is given a stack of its own. -/
def walk (s : Schema) : (room : Nat) → String → Walking Shape
  | 0, name => .lift (.error (.unknownStruct name))
  | room + 1, name => do
    let stack ← get
    if name ∈ stack then .lift (.error (.recursive (stack ++ [name])))
    else
      match Dictionary.get? name s.structs with
      | none => .lift (.error (.unknownStruct name))
      | some fields => do
        -- walked with the name on the stack
        let ds ← Walking.below name (walkFields (s.walk room) name [] fields)
        return .record name ds

end Schema

/-! ## What a step does to the stack -/

namespace Walking

variable {α β : Type}

theorem outcome_bind (w : Walking α) (f : α → Walking β) (stack : List String) :
    (w >>= f).outcome stack =
      match w.outcome stack with
      | (.ok a, after) => (f a).outcome after
      | (.error e, after) => (.error e, after) := by
  simp only [outcome, ExceptT.run_bind]
  rw [StateT.run_bind]
  rcases h : (ExceptT.run w).run stack with ⟨x, after⟩
  cases x <;> rfl

/-- **A step resolves**: it gives the result `x`, and restores the `stack`
unless it fails. The stack of a chain that closes is left as it was found. -/
structure Resolves (w : Walking α) (stack : List String) (x : Except SchemaError α) : Prop where
  result : (w.outcome stack).1 = x
  restored : ∀ {a}, x = .ok a → (w.outcome stack).2 = stack
  left : ∀ {chain}, x = .error (.recursive chain) → (w.outcome stack).2 = chain.dropLast

namespace Resolves

variable {w : Walking α} {stack : List String} {x : Except SchemaError α} {name : String}

/-- What does not look at the stack leaves it as it is, and reports no chain
(`other`). -/
theorem lift (other : ∀ chain, x ≠ .error (.recursive chain)) :
    (Walking.lift x).Resolves stack x where
  result := rfl
  restored := fun _ => rfl
  left := fun closed => absurd closed (other _)

theorem pure (a : α) : (Pure.pure a : Walking α).Resolves stack (.ok a) := lift nofun

/-- **One step after another**: the second one finds the `stack` restored. -/
theorem bind {f : α → Walking β} {g : α → Except SchemaError β} (h : w.Resolves stack x)
    (next : ∀ a, (f a).Resolves stack (g a)) : (w >>= f).Resolves stack (x >>= g) := by
  obtain ⟨result, restored, left⟩ := h
  have run := outcome_bind w f stack
  generalize w.outcome stack = outcome at result restored left run
  obtain ⟨y, after⟩ := outcome
  obtain rfl : y = x := result
  cases y with
  | ok a =>
    obtain rfl : after = stack := restored rfl
    obtain ⟨result', restored', left'⟩ := next a
    exact ⟨run ▸ result', run ▸ restored', run ▸ left'⟩
  | error e =>
    refine ⟨by rw [run]; rfl, nofun, ?_⟩
    rintro chain ⟨⟩
    rw [run]
    exact left rfl

theorem map (h : w.Resolves stack x) (f : α → β) :
    (do return f (← w) : Walking β).Resolves stack (x.map f) := by
  have same : x.map f = x >>= fun a => .ok (f a) := by cases x <;> rfl
  rw [same]
  exact h.bind fun a => .pure (f a)

/-- A step that looks at the stack finds `stack` there. -/
theorem get {f : List String → Walking α} (h : (f stack).Resolves stack x) :
    (do f (← MonadState.get) : Walking α).Resolves stack x := by
  obtain ⟨result, restored, left⟩ := h
  exact ⟨result, restored, left⟩

/-- A `name` that is on the stack closes the chain of names there. -/
theorem recursive : (Walking.lift (.error (.recursive (stack ++ [name]))) : Walking α).Resolves
    stack (.error (.recursive (stack ++ [name]))) where
  result := rfl
  restored := nofun
  left := by
    rintro _ ⟨⟩
    exact List.dropLast_concat.symm

/-- **A step below a name** takes off the `name` that it put on the stack, and
no other. -/
theorem below (h : w.Resolves (stack ++ [name]) x) : (Walking.below name w).Resolves stack x := by
  have run : (Walking.below name w).outcome stack =
      match w.outcome (stack ++ [name]) with
      | (.ok a, after) => (.ok a, after.dropLast)
      | (.error e, after) => (.error e, after) := by
    rw [Walking.below, outcome_bind]
    exact outcome_bind w _ (stack ++ [name])
  obtain ⟨result, restored, left⟩ := h
  generalize w.outcome (stack ++ [name]) = outcome at result restored left run
  obtain ⟨y, after⟩ := outcome
  obtain rfl : y = x := result
  cases y with
  | ok a =>
    refine ⟨by rw [run], fun _ => ?_, nofun⟩
    rw [run]
    obtain rfl : after = stack ++ [name] := restored rfl
    exact List.dropLast_concat
  | error e =>
    refine ⟨by rw [run], nofun, ?_⟩
    rintro chain ⟨⟩
    rw [run]
    exact left rfl

end Resolves

end Walking

namespace Schema

variable {s : Schema} {stack : List String} {walks : String → Walking Shape}
  {struct : String → Except SchemaError Shape}

/-- Items without words are no chain that closes: `sequenceOf` fails
otherwise. -/
theorem sequenceOf_ne_recursive (d : Shape) (chain : List String) :
    sequenceOf d ≠ .error (.recursive chain) := by
  unfold sequenceOf
  split <;> exact nofun

/-- A type is resolved if `structs` are. -/
theorem resolves_walkType (structs : ∀ name, (walks name).Resolves stack (struct name))
    (t : FieldType) : (walkType walks t).Resolves stack (resolveType struct t) := by
  induction t with
  | primitive name =>
    rw [walkType, resolveType]
    cases primitive? name <;> exact .lift nofun
  | array item ih | span item ih =>
    exact ih.bind fun d => .lift (sequenceOf_ne_recursive d)
  | struct name => exact structs name

/-- Fields are resolved if `structs` are. -/
theorem resolves_walkFields (structs : ∀ name, (walks name).Resolves stack (struct name))
    (owner : String) (seen : List String) (fields : List Field) :
    (walkFields walks owner seen fields).Resolves stack
      (resolveFields struct owner seen fields) := by
  induction fields generalizing seen with
  | nil => exact .pure []
  | cons f fields ih =>
    rw [walkFields, resolveFields]
    split
    · exact .lift nofun
    · apply (resolves_walkType structs f.type).bind
      intro d
      exact (ih (f.name :: seen)).map _

/-- **The walk resolves what the resolution does** if there is `room` for the
definitions that are not on the stack (`unvisited`). -/
theorem resolves_walk {room : Nat} {name : String} (enough : s.unvisited stack < room) :
    (s.walk room name).Resolves stack (s.resolveBelow stack name) := by
  induction room generalizing stack name with
  | zero => cases enough
  | succ room ih =>
    rw [walk]
    apply Walking.Resolves.get
    split
    · next cyclic =>
      rw [resolveBelow_of_mem cyclic]
      exact .recursive
    · next new =>
      split
      · next undefined =>
        rw [resolveBelow_of_undefined new undefined]
        exact .lift nofun
      · next fields defined =>
        -- one definition less to come to
        have fewer : s.unvisited (stack ++ [name]) < room :=
          Nat.lt_of_lt_of_le (unvisited_append_lt new defined) (Nat.le_of_lt_succ enough)
        have each := resolves_walkFields (fun other => @ih (stack ++ [name]) other fewer) name []
          fields
        rw [resolveBelow_of_defined new defined]
        exact each.below.map _

/-- The walk of a struct with nothing on the stack, and the stack that it
leaves. There is room for every definition. -/
def walkFrom (s : Schema) (n : String) : Except SchemaError Shape × List String :=
  (s.walk (s.structs.length + 1) n).outcome []

variable {n : String}

theorem resolves_walkFrom : (s.walk (s.structs.length + 1) n).Resolves [] (s.resolve n) :=
  resolves_walk (Nat.lt_succ_of_le (List.length_filter_le ..))

/-- **A struct that has a shape is walked without a trace**: `walkFrom` ends
with the empty stack that it started with. -/
theorem walkFrom_of_ok {d : Shape} (h : s.resolve n = .ok d) : s.walkFrom n = (.ok d, []) :=
  Prod.ext (resolves_walkFrom.result.trans h) (resolves_walkFrom.restored h)

/-- **A chain that closes is what the stack holds**, and the name that was found
there behind it. -/
theorem walkFrom_of_recursive {chain : List String}
    (h : s.resolve n = .error (.recursive chain)) :
    s.walkFrom n = (.error (.recursive chain), chain.dropLast) :=
  Prod.ext (resolves_walkFrom.result.trans h) (resolves_walkFrom.left h)

end Schema

end FeltWire
