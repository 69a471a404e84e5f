import Mathlib.Data.List.Basic

/-!
# Machines that answer

A machine takes one request after another and answers each. One machine stands for another
when related states give the same answer and stay related.
-/
namespace Answers

variable {σ τ ε β : Type*}

/-- The answers to a list of requests, and the state behind them. -/
def serve (step : σ → ε → β × σ) : σ → List ε → List β × σ
  | s, [] => ([], s)
  | s, e :: es =>
    let (answer, s) := step s e
    let (answers, s) := serve step s es
    (answer :: answers, s)

@[simp] theorem serve_nil (step : σ → ε → β × σ) (s : σ) : serve step s [] = ([], s) := rfl

theorem serve_cons (step : σ → ε → β × σ) (s : σ) (e : ε) (es : List ε) :
    serve step s (e :: es) =
      ((step s e).1 :: (serve step (step s e).2 es).1, (serve step (step s e).2 es).2) := rfl

/-- Requests answered alike, one by one, are answered alike as a whole. -/
theorem serve_related {step : σ → ε → β × σ} {step' : τ → ε → β × τ} {rel : σ → τ → Prop}
    (hstep : ∀ s t e, rel s t → (step s e).1 = (step' t e).1 ∧ rel (step s e).2 (step' t e).2)
    (es : List ε) {s : σ} {t : τ} (h : rel s t) :
    (serve step s es).1 = (serve step' t es).1 ∧
      rel (serve step s es).2 (serve step' t es).2 := by
  induction es generalizing s t with
  | nil => exact ⟨rfl, h⟩
  | cons e es ih =>
    obtain ⟨hanswer, hnext⟩ := hstep s t e h
    obtain ⟨hanswers, hlast⟩ := ih hnext
    rw [serve_cons, serve_cons, hanswer, hanswers]
    exact ⟨rfl, hlast⟩

/-- Every request is allowed in the state in which it arrives. -/
def Along (step : σ → ε → β × σ) (cond : σ → ε → Prop) : σ → List ε → Prop
  | _, [] => True
  | s, e :: es => cond s e ∧ Along step cond (step s e).2 es

/-- Allowed requests answered alike, one by one, are answered alike as a whole. -/
theorem serve_related_along {step : σ → ε → β × σ} {step' : τ → ε → β × τ} {rel : σ → τ → Prop}
    {cond : τ → ε → Prop}
    (hstep : ∀ s t e, rel s t → cond t e →
      (step s e).1 = (step' t e).1 ∧ rel (step s e).2 (step' t e).2)
    (es : List ε) {s : σ} {t : τ} (h : rel s t) (hcond : Along step' cond t es) :
    (serve step s es).1 = (serve step' t es).1 ∧
      rel (serve step s es).2 (serve step' t es).2 := by
  induction es generalizing s t with
  | nil => exact ⟨rfl, h⟩
  | cons e es ih =>
    obtain ⟨hanswer, hnext⟩ := hstep s t e h hcond.1
    obtain ⟨hanswers, hlast⟩ := ih hnext hcond.2
    rw [serve_cons, serve_cons, hanswer, hanswers]
    exact ⟨rfl, hlast⟩

end Answers
