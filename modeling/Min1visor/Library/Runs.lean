import Mathlib.Data.List.Basic

/-!
# Runs of a fallible step function

A system is a state type with a step function that consumes one event and may
stop with a failure. A run feeds a list of events to it. Side conditions on
single steps are collected along the run they occur in, so that an invariant
argued for one step is available after any number of them.
-/
namespace Runs

variable {σ ε φ : Type*}

/-- Feed the events to the step function one after another. -/
def run (step : σ → ε → Except φ σ) : σ → List ε → Except φ σ
  | s, [] => .ok s
  | s, e :: es =>
    match step s e with
    | .ok s' => run step s' es
    | .error p => .error p

/-- Every step that the run takes meets its side condition. -/
def Along (step : σ → ε → Except φ σ) (cond : σ → ε → Prop) : σ → List ε → Prop
  | _, [] => True
  | s, e :: es => cond s e ∧ ∀ s', step s e = .ok s' → Along step cond s' es

@[simp] theorem run_nil (step : σ → ε → Except φ σ) (s : σ) : run step s [] = .ok s := rfl

theorem run_cons_ok {step : σ → ε → Except φ σ} {s s' : σ} {e : ε} (es : List ε)
    (h : step s e = .ok s') : run step s (e :: es) = run step s' es := by
  simp only [run, h]

/-- A run that goes on. -/
theorem run_append_ok {step : σ → ε → Except φ σ} {s s' : σ} {es : List ε} (fs : List ε)
    (h : run step s es = .ok s') : run step s (es ++ fs) = run step s' fs := by
  induction es generalizing s with
  | nil =>
    cases h
    rfl
  | cons e es ih =>
    cases ht : step s e with
    | error p => simp [run, ht] at h
    | ok t =>
      rw [run_cons_ok es ht] at h
      rw [List.cons_append, run_cons_ok (es ++ fs) ht]
      exact ih h

theorem along_cons_ok {step : σ → ε → Except φ σ} {cond : σ → ε → Prop} {s s' : σ} {e : ε}
    {es : List ε} (h : step s e = .ok s') (hcond : cond s e) (hes : Along step cond s' es) :
    Along step cond s (e :: es) := by
  refine ⟨hcond, ?_⟩
  intro t ht
  rw [h] at ht
  cases ht
  exact hes

/-- A condition on the events alone. -/
theorem along_of_forall {step : σ → ε → Except φ σ} {cond : ε → Prop} {es : List ε}
    (h : ∀ e ∈ es, cond e) (s : σ) : Along step (fun _ e => cond e) s es := by
  induction es generalizing s with
  | nil => trivial
  | cons e es ih =>
    rw [List.forall_mem_cons] at h
    exact ⟨h.1, fun s' _ => ih h.2 s'⟩

/-- An invariant that allowed steps preserve, and under which they never fail,
holds after every allowed run; in particular the run does not fail. -/
theorem run_total {step : σ → ε → Except φ σ} {cond : σ → ε → Prop} (inv : σ → Prop)
    (hstep : ∀ s e, inv s → cond s e → ∃ s', step s e = .ok s' ∧ inv s') :
    ∀ (es : List ε) (s : σ), inv s → Along step cond s es →
      ∃ s', run step s es = .ok s' ∧ inv s' := by
  intro es
  induction es with
  | nil => exact fun s hs _ => ⟨s, rfl, hs⟩
  | cons e es ih =>
    intro s hs hc
    obtain ⟨t, ht, hti⟩ := hstep s e hs hc.1
    rw [run_cons_ok es ht]
    exact ih t hti (hc.2 t ht)

/-- An invariant that every allowed step preserves, if it returns, holds in
every state that an allowed run returns. -/
theorem run_invariant {step : σ → ε → Except φ σ} {cond : σ → ε → Prop} (inv : σ → Prop)
    (hstep : ∀ s e s', inv s → cond s e → step s e = .ok s' → inv s') :
    ∀ (es : List ε) (s s' : σ), inv s → Along step cond s es → run step s es = .ok s' →
      inv s' := by
  intro es
  induction es with
  | nil =>
    intro s s' hs _ hrun
    cases hrun
    exact hs
  | cons e es ih =>
    intro s s' hs hc hrun
    cases ht : step s e with
    | error p => simp [run, ht] at hrun
    | ok t =>
      rw [run_cons_ok es ht] at hrun
      exact ih t s' (hstep s e t hs hc.1 ht) (hc.2 t ht) hrun

/-- An invariant of every step holds in every state that a run returns. -/
theorem run_preserves {step : σ → ε → Except φ σ} (inv : σ → Prop)
    (hstep : ∀ s e s', inv s → step s e = .ok s' → inv s') :
    ∀ (es : List ε) (s s' : σ), inv s → run step s es = .ok s' → inv s' := by
  intro es s s' hs hrun
  have hall : Along step (fun _ _ => True) s es := along_of_forall (fun _ _ => trivial) s
  exact run_invariant inv (fun s e s' hi _ h => hstep s e s' hi h) es s s' hs hall hrun

end Runs
