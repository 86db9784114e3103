/-!
# Located faults

A fault inside a nested value is reported with the way to it. The fault itself
and the way are kept apart: the innermost cause is never mistaken for a step,
and the steps never hide the cause.

## Main definitions

* `Step`: from a value to one of its components
* `Located`: a fault and the steps from the outermost value to where it is
* `Located.within`: the same fault, seen from one value further out
* `atRoot`, `atStep`: results that can be such a fault
* `Located.path`: the steps as text

## Main results

* `bind_eq_ok_iff`, `pure_eq_ok_iff`, `map_eq_ok_iff`, `mapError_eq_ok_iff`:
  when a computation succeeds
* `bind_eq_error_iff`, `map_eq_error_iff`: when it fails
* `atRoot_eq_ok`, `atStep_eq_ok`: placing a fault changes no success
* `atRoot_eq_error`, `atStep_eq_error`: what a placed fault is
-/

namespace FeltWire

/-- A step from a value to one of its components; a `field` has its position and
its name. -/
inductive Step where
  | field (position : Nat) (name : String)
  | item (position : Nat)
  | element (index : Nat)
deriving DecidableEq, Repr

namespace Step

/-- A step in a path, such as `.name` for a `field` and `[3]` for an
`element`. -/
def text : Step → String
  | field _ name => "." ++ name
  | item position => "." ++ toString position
  | element index => "[" ++ toString index ++ "]"

/-- A step in a message, which gives the position of a `field` as well as its
name. -/
def label : Step → String
  | field position name => s!"field `{name}` (position {position})"
  | item position => s!"item {position}"
  | element index => s!"element {index}"

end Step

/-- **A fault and where it is**: the `steps` lead from the outermost value to
the component at fault. -/
structure Located (ε : Type) where
  steps : List Step
  fault : ε
deriving DecidableEq, Repr

namespace Located

variable {ε : Type}

/-- A fault of the value itself, which has no `steps`. -/
def here (fault : ε) : Located ε := ⟨[], fault⟩

/-- The fault `e` of a component, reported for the value that `step` starts
from. -/
def within (step : Step) (e : Located ε) : Located ε := ⟨step :: e.steps, e.fault⟩

/-- The `steps` as one text (`Step.text`), empty for a fault of the outermost
value. -/
def path (e : Located ε) : String := String.join (e.steps.map Step.text)

/-- A message that names each step by its `Step.label` and then tells the fault
by `text`. -/
def message (e : Located ε) (text : ε → String) : String :=
  e.steps.foldr (fun step rest => step.label ++ ": " ++ rest) (text e.fault)

@[simp] theorem steps_here (fault : ε) : (here fault).steps = [] := rfl

@[simp] theorem fault_here (fault : ε) : (here fault).fault = fault := rfl

@[simp] theorem steps_within (step : Step) (e : Located ε) :
    (e.within step).steps = step :: e.steps := rfl

@[simp] theorem fault_within (step : Step) (e : Located ε) : (e.within step).fault = e.fault := rfl

@[simp] theorem path_here (fault : ε) : (here fault).path = "" := rfl

/-- The outermost step stands first, so that `within` puts the text of `step` in
front of the path. -/
theorem path_within (step : Step) (e : Located ε) :
    (e.within step).path = step.text ++ e.path := String.join_cons

end Located

/-! ## Results -/

section
variable {ε α β : Type}

/-- The first computation `x` and what `f` makes of its result succeed exactly
if both do. -/
theorem bind_eq_ok_iff {x : Except ε α} {f : α → Except ε β} {b : β} :
    x >>= f = .ok b ↔ ∃ a, x = .ok a ∧ f a = .ok b := by
  cases x <;> simp [bind, Except.bind]

/-- The sequence `x >>= f` fails if `x` does, or `f` after a success of `x`. -/
theorem bind_eq_error_iff {x : Except ε α} {f : α → Except ε β} {e : ε} :
    x >>= f = .error e ↔ x = .error e ∨ ∃ a, x = .ok a ∧ f a = .error e := by
  cases x <;> simp [bind, Except.bind]

theorem pure_eq_ok_iff {a b : α} : (pure a : Except ε α) = .ok b ↔ a = b := by
  simp [pure, Except.pure]

theorem map_eq_ok_iff {x : Except ε α} {f : α → β} {b : β} :
    x.map f = .ok b ↔ ∃ a, x = .ok a ∧ f a = b := by
  cases x <;> simp [Except.map]

theorem map_eq_error_iff {x : Except ε α} {f : α → β} {e : ε} :
    x.map f = .error e ↔ x = .error e := by
  cases x <;> simp [Except.map]

/-- Another account `f` of a failure changes no success. -/
theorem mapError_eq_ok_iff {ε' : Type} {x : Except ε α} {f : ε → ε'} {a : α} :
    x.mapError f = .ok a ↔ x = .ok a := by
  cases x with
  | error e => exact ⟨nofun, nofun⟩
  | ok b => exact ⟨fun h => congrArg Except.ok (Except.ok.inj h), fun h => congrArg _ h⟩

theorem throw_ne_ok {e : ε} {a : α} : (throw e : Except ε α) ≠ .ok a := by
  simp [throw, throwThe, MonadExceptOf.throw]

end

/-- A result whose fault is one of the value itself (`Located.here`). -/
def atRoot {ε α : Type} (x : Except ε α) : Except (Located ε) α := x.mapError Located.here

/-- A result whose fault is one of the component behind `step`
(`Located.within`). -/
def atStep {ε α : Type} (step : Step) (x : Except (Located ε) α) : Except (Located ε) α :=
  x.mapError (Located.within step)

section
variable {ε α : Type}

@[simp] theorem atRoot_ok (a : α) : atRoot (.ok a : Except ε α) = .ok a := rfl

@[simp] theorem atRoot_error (e : ε) :
    (atRoot (.error e) : Except (Located ε) α) = .error (Located.here e) := rfl

@[simp] theorem atStep_ok (step : Step) (a : α) :
    atStep step (.ok a : Except (Located ε) α) = .ok a := rfl

@[simp] theorem atStep_error (step : Step) (e : Located ε) :
    (atStep step (.error e) : Except (Located ε) α) = .error (e.within step) := rfl

/-- Placing a fault with `atRoot` changes no success. -/
@[simp] theorem atRoot_eq_ok {x : Except ε α} {a : α} : atRoot x = .ok a ↔ x = .ok a := by
  cases x <;> simp

@[simp] theorem atStep_eq_ok {step : Step} {x : Except (Located ε) α} {a : α} :
    atStep step x = .ok a ↔ x = .ok a := by
  cases x <;> simp

/-- A fault placed with `atRoot` is that of `x` without steps, and no other. -/
theorem atRoot_eq_error {x : Except ε α} {e : Located ε} :
    atRoot x = .error e ↔ ∃ fault, x = .error fault ∧ Located.here fault = e := by
  cases x <;> simp

theorem atStep_eq_error {step : Step} {x : Except (Located ε) α} {e : Located ε} :
    atStep step x = .error e ↔ ∃ inner, x = .error inner ∧ inner.within step = e := by
  cases x <;> simp

end

end FeltWire
