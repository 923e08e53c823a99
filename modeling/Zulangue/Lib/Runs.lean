import Mathlib.Tactic.Common

/-!
# Runs of a step relation

A run is a finite sequence of labelled steps. Every statement about whole runs goes
through one of the rules below, so that each development only proves what one step
keeps.
-/

namespace Zulangue.Lib

section
variable {State Event : Type*} {step : State → Event → State → Prop}

/-- `Run step s es s'`: the steps labelled `es` lead from `s` to `s'`. -/
inductive Run (step : State → Event → State → Prop) : State → List Event → State → Prop
  | nil (s : State) : Run step s [] s
  | cons {s s' s'' : State} {e : Event} {es : List Event} :
      step s e s' → Run step s' es s'' → Run step s (e :: es) s''

/-- A relation that is reflexive, transitive and kept by every step relates the two
ends of a run. -/
theorem Run.relates {R : State → State → Prop} (refl : ∀ s, R s s)
    (trans : ∀ a b c, R a b → R b c → R a c) (hstep : ∀ s e s', step s e s' → R s s')
    {s s' : State} {es : List Event} (h : Run step s es s') : R s s' := by
  induction h with
  | nil s => exact refl s
  | cons hs _ ih => exact trans _ _ _ (hstep _ _ _ hs) ih

/-- An invariant kept by every step holds at the end of a run that starts in it. -/
theorem Run.invariant {I : State → Prop} (hstep : ∀ s e s', I s → step s e s' → I s')
    {s s' : State} {es : List Event} (h : Run step s es s') (hs : I s) : I s' := by
  induction h with
  | nil s => exact hs
  | cons h' _ ih => exact ih (hstep _ _ _ hs h')

theorem Run.append {s s' s'' : State} {es es' : List Event} (h : Run step s es s')
    (h' : Run step s' es' s'') : Run step s (es ++ es') s'' := by
  induction h with
  | nil s => exact h'
  | cons hs _ ih => exact .cons hs (ih h')

theorem Run.single {s s' : State} {e : Event} (h : step s e s') : Run step s [e] s' :=
  .cons h (.nil s')

/-- Weakening the step relation keeps the run. -/
theorem Run.mono {step' : State → Event → State → Prop}
    (hsub : ∀ s e s', step s e s' → step' s e s') {s s' : State} {es : List Event}
    (h : Run step s es s') : Run step' s es s' := by
  induction h with
  | nil s => exact .nil s
  | cons hs _ ih => exact .cons (hsub _ _ _ hs) ih

end

section
variable {State Event : Type*}

/-- Runs a partial step function over a list of events. -/
def exec (step : State → Event → Option State) : State → List Event → Option State
  | s, [] => some s
  | s, e :: es => (step s e).bind fun s' => exec step s' es

theorem run_of_exec {step : State → Event → Option State} {s s' : State} {es : List Event}
    (h : exec step s es = some s') : Run (fun s e s' => step s e = some s') s es s' := by
  induction es generalizing s with
  | nil =>
    obtain rfl := Option.some.inj h
    exact .nil s
  | cons e es ih =>
    obtain ⟨mid, hstep, hrest⟩ := Option.bind_eq_some_iff.mp h
    exact .cons hstep (ih hrest)

/-- A run found by evaluation, with what was decided about its end. -/
theorem exists_run_of_exec {step : State → Event → Option State} {s : State} {es : List Event}
    {p : State → Prop} [DecidablePred p]
    (h : (exec step s es).any (fun s' => decide (p s')) = true) :
    ∃ s', Run (fun s e s' => step s e = some s') s es s' ∧ p s' := by
  cases hexec : exec step s es with
  | none => simp [hexec] at h
  | some s' =>
    rw [hexec] at h
    exact ⟨s', run_of_exec hexec, of_decide_eq_true h⟩

end

end Zulangue.Lib
