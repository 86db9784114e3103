import FeltWire.Codec.Decode

/-!
# Computations that correspond

Two computations correspond if they end alike: both succeed, with results that
belong together, or both fail, with errors that belong together. For reading
steps this has to be so from every place, and both have to stop at the same
place. Putting computations together keeps it, so that whatever two programs do
in the same order can be compared part by part.

## Main definitions

* `Corresponds`: two results end alike
* `Located.Corresponds`: two located faults belong together, and are at the same
  place
* `Reader.Corresponds`: two reading steps end alike, from every place

## Main results

* `Corresponds.bind`, `Corresponds.atRoot`, `Corresponds.atStep`: computations
  one after another, and faults that are given a place
* `Corresponds.exists_ok_iff`, `Corresponds.exists_error_iff`: one succeeds or
  fails exactly if the other does
* `Reader.Corresponds.bind`, `Reader.Corresponds.atRoot`,
  `Reader.Corresponds.atStep`: the same for reading steps
-/

namespace FeltWire

variable {ε ε' δ δ' α α' β β' : Type}

/-! ## Results -/

/-- **Two results correspond**: both are successes whose values belong together
by `result`, or both are failures whose errors do by `error`. -/
inductive Corresponds (error : ε → ε' → Prop) (result : α → α' → Prop) :
    Except ε α → Except ε' α' → Prop
  | ok {a : α} {a' : α'} (h : result a a') : Corresponds error result (.ok a) (.ok a')
  | error {e : ε} {e' : ε'} (h : error e e') : Corresponds error result (.error e) (.error e')

namespace Corresponds

variable {error : ε → ε' → Prop} {result : α → α' → Prop} {x : Except ε α} {x' : Except ε' α'}

/-- One computation after another. The second ones have to correspond only for
results of the first ones that belong together (`hf`). -/
theorem bind {next : β → β' → Prop} {f : α → Except ε β} {f' : α' → Except ε' β'}
    (h : Corresponds error result x x')
    (hf : ∀ a a', result a a' → Corresponds error next (f a) (f' a')) :
    Corresponds error next (x >>= f) (x' >>= f') := by
  rcases h with h | h
  · exact hf _ _ h
  · exact .error h

/-- Errors that are seen from elsewhere, by `g` and `g'`, as long as they still
belong together. -/
theorem mapError {error' : δ → δ' → Prop} {g : ε → δ} {g' : ε' → δ'}
    (h : Corresponds error result x x') (hg : ∀ e e', error e e' → error' (g e) (g' e')) :
    Corresponds error' result (x.mapError g) (x'.mapError g') := by
  rcases h with h | h
  · exact .ok h
  · exact .error (hg _ _ h)

/-- One succeeds exactly if the other does, whatever `error` and `result`
are. -/
theorem exists_ok_iff (h : Corresponds error result x x') :
    (∃ a, x = .ok a) ↔ ∃ a', x' = .ok a' := by
  rcases h with h | h <;> simp

/-- One fails exactly if the other does, whatever `error` and `result` are. -/
theorem exists_error_iff (h : Corresponds error result x x') :
    (∃ e, x = .error e) ↔ ∃ e', x' = .error e' := by
  rcases h with h | h <;> simp

theorem exists_of_ok (h : Corresponds error result x x') {a : α} (succeeds : x = .ok a) :
    ∃ a', x' = .ok a' ∧ result a a' := by
  subst succeeds
  cases h with
  | ok h => exact ⟨_, rfl, h⟩

theorem of_error (h : Corresponds error result x x') {e : ε} {e' : ε'} (fails : x = .error e)
    (fails' : x' = .error e') : error e e' := by
  subst fails fails'
  cases h with
  | error h => exact h

end Corresponds

/-! ## Located faults -/

/-- **Located faults correspond**: the steps to one are those to the other, each
as `step` shows it there, and the faults themselves belong together. -/
structure Located.Corresponds (step : Step → Step) (fault : ε → ε' → Prop) (e : Located ε)
    (e' : Located ε') : Prop where
  steps : e'.steps = e.steps.map step
  fault : fault e.fault e'.fault

namespace Corresponds

variable {step : Step → Step} {fault : ε → ε' → Prop} {result : α → α' → Prop}

/-- Faults of components, seen from the whole through the step `inner`. -/
theorem atStep {x : Except (Located ε) α} {x' : Except (Located ε') α'}
    (h : Corresponds (Located.Corresponds step fault) result x x') (inner : Step) :
    Corresponds (Located.Corresponds step fault) result (atStep inner x) (atStep (step inner) x') :=
  h.mapError fun _ _ belong => ⟨congrArg (step inner :: ·) belong.steps, belong.fault⟩

end Corresponds

/-! ## Reading steps -/

namespace Reader

/-- **Two reading steps correspond**: from every `Cursor` they end alike, and
stop at the same place. -/
def Corresponds (error : ε → ε' → Prop) (result : α → α' → Prop) (r : Reader ε α)
    (r' : Reader ε' α') : Prop :=
  ∀ c, FeltWire.Corresponds error result (r.outcome c).1 (r'.outcome c).1 ∧
    (r.outcome c).2 = (r'.outcome c).2

namespace Corresponds

variable {error : ε → ε' → Prop} {result : α → α' → Prop} {r : Reader ε α} {r' : Reader ε' α'}

/-- A step corresponds to itself if whatever it ends with belongs together with
itself. -/
theorem refl {error : ε → ε → Prop} {result : α → α → Prop} (errors : ∀ e, error e e)
    (results : ∀ a, result a a) (r : Reader ε α) : Corresponds error result r r := by
  intro c
  refine ⟨?_, rfl⟩
  rcases (r.outcome c).1 with e | a
  · exact .error (errors e)
  · exact .ok (results a)

theorem lift {x : Except ε α} {x' : Except ε' α'} (h : FeltWire.Corresponds error result x x') :
    Corresponds error result (Reader.lift x) (Reader.lift x') :=
  fun _ => ⟨h, rfl⟩

theorem pure {a : α} {a' : α'} (h : result a a') :
    Corresponds error result (Pure.pure a : Reader ε α) (Pure.pure a' : Reader ε' α') :=
  lift (.ok h)

/-- One step after another: the second ones start at the same place, and a
failure of the first ones ends both. -/
theorem bind {next : β → β' → Prop} {f : α → Reader ε β} {f' : α' → Reader ε' β'}
    (h : Corresponds error result r r')
    (hf : ∀ a a', result a a' → Corresponds error next (f a) (f' a')) :
    Corresponds error next (r >>= f) (r' >>= f') := by
  intro c
  have first := h c
  rw [outcome_bind, outcome_bind]
  generalize r.outcome c = outcome, r'.outcome c = outcome' at first ⊢
  obtain ⟨x, middle⟩ := outcome
  obtain ⟨x', middle'⟩ := outcome'
  -- both stop at one place
  obtain ⟨alike, rfl⟩ := first
  cases alike with
  | ok h => exact hf _ _ h middle
  | error h => exact ⟨.error h, rfl⟩

theorem mapError {error' : δ → δ' → Prop} {g : ε → δ} {g' : ε' → δ'}
    (h : Corresponds error result r r') (hg : ∀ e e', error e e' → error' (g e) (g' e')) :
    Corresponds error' result (r.mapError g) (r'.mapError g') := by
  intro c
  obtain ⟨alike, place⟩ := h c
  exact ⟨alike.mapError hg, place⟩

section Located

variable {step : Step → Step} {fault : Fault → Fault → Prop}

/-- Faults of the values themselves, which no `step` changes. -/
theorem atRoot {r : Reader Fault α} {r' : Reader Fault α'} (h : Corresponds fault result r r') :
    Corresponds (Located.Corresponds step fault) result (Reader.atRoot r) (Reader.atRoot r') :=
  h.mapError fun _ _ belong => ⟨rfl, belong⟩

/-- Faults of components, seen from the whole through the step `inner`. -/
theorem atStep {r : Reader WireError α} {r' : Reader WireError α'}
    (h : Corresponds (Located.Corresponds step fault) result r r') (inner : Step) :
    Corresponds (Located.Corresponds step fault) result (Reader.atStep inner r)
      (Reader.atStep (step inner) r') :=
  h.mapError fun _ _ belong => ⟨congrArg (step inner :: ·) belong.steps, belong.fault⟩

end Located

end Corresponds

end Reader

end FeltWire
