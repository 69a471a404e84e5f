import Mathlib.Logic.Function.Iterate
import Mathlib.Tactic

/-!
# Programs with a state and a way to stop

A program transforms a state and either returns or stops with a fault; the state
it leaves is kept in both cases, so that what happened before a fault stays
visible. A program is executed part by part against a relation between its result
and its final state.
-/

/-- A program over a state that may stop with a fault. -/
def Prog (σ φ α : Type) : Type := σ → Except φ α × σ

namespace Prog

variable {σ φ α β : Type}

instance : Monad (Prog σ φ) where
  pure a := fun s => (.ok a, s)
  bind x f := fun s =>
    match x s with
    | (.ok a, s) => f a s
    | (.error e, s) => (.error e, s)

/-- The current state. -/
def get : Prog σ φ σ := fun s => (.ok s, s)

def modify (f : σ → σ) : Prog σ φ Unit := fun s => (.ok (), f s)

/-- Stop here. -/
def stop (e : φ) : Prog σ φ α := fun s => (.error e, s)

/-- A computation without a state. -/
def lift (x : Except φ α) : Prog σ φ α := fun s => (x, s)

@[simp] theorem pure_apply (a : α) (s : σ) : (pure a : Prog σ φ α) s = (.ok a, s) := rfl

theorem bind_apply (x : Prog σ φ α) (f : α → Prog σ φ β) (s : σ) :
    (x >>= f) s = match x s with
      | (.ok a, s) => f a s
      | (.error e, s) => (.error e, s) := rfl

@[simp] theorem get_apply (s : σ) : (get : Prog σ φ σ) s = (.ok s, s) := rfl

@[simp] theorem modify_apply (f : σ → σ) (s : σ) :
    (modify f : Prog σ φ Unit) s = (.ok (), f s) := rfl

@[simp] theorem stop_apply (e : φ) (s : σ) : (stop e : Prog σ φ α) s = (.error e, s) := rfl

@[simp] theorem lift_apply (x : Except φ α) (s : σ) : (lift x : Prog σ φ α) s = (x, s) := rfl

theorem get_bind (g : σ → Prog σ φ α) (s : σ) : (get >>= g) s = g s s := rfl

/-- A sequence that returns has a first part that returns. -/
theorem bind_inv {x : Prog σ φ β} {g : β → Prog σ φ α} {a : α} {s s' : σ}
    (h : (x >>= g) s = (.ok a, s')) : ∃ b s₁, x s = (.ok b, s₁) ∧ g b s₁ = (.ok a, s') := by
  rw [bind_apply] at h
  cases hx : x s with
  | mk result s₁ =>
    rw [hx] at h
    cases result with
    | ok b => exact ⟨b, s₁, rfl, h⟩
    | error e => cases (Prod.mk.inj h).1

/-! ## Symbolic execution -/

/-- What a program yields from a state, as result and final state, is in `R`. -/
def Yields (R : Except φ α → σ → Prop) (x : Prog σ φ α) (s : σ) : Prop := R (x s).1 (x s).2

namespace Yields

variable {R : Except φ α → σ → Prop} {s s' : σ}

theorem pure {a : α} (h : R (.ok a) s) : Yields R (Pure.pure a) s := h

theorem stop {e : φ} (h : R (.error e) s) : Yields R (Prog.stop e) s := h

/-- The first part of a sequence returns. -/
theorem bind_ok {x : Prog σ φ β} {f : β → Prog σ φ α} {b : β} (hx : x s = (.ok b, s'))
    (hf : Yields R (f b) s') : Yields R (x >>= f) s := by
  rw [Yields, bind_apply, hx]
  exact hf

/-- The first part of a sequence stops. -/
theorem bind_error {x : Prog σ φ β} {f : β → Prog σ φ α} {e : φ} (hx : x s = (.error e, s'))
    (h : R (.error e) s') : Yields R (x >>= f) s := by
  rw [Yields, bind_apply, hx]
  exact h

/-- Either outcome of the first part. -/
theorem bind {x : Prog σ φ β} {f : β → Prog σ φ α} {Q : Except φ β → σ → Prop}
    (hx : Yields Q x s) (hok : ∀ b s', Q (.ok b) s' → Yields R (f b) s')
    (herror : ∀ e s', Q (.error e) s' → R (.error e) s') : Yields R (x >>= f) s := by
  rw [Yields] at hx
  cases hxs : x s with
  | mk result s' =>
    rw [hxs] at hx
    cases result with
    | ok b => exact bind_ok hxs (hok b s' hx)
    | error e => exact bind_error hxs (herror e s' hx)

theorem ite_pos {p : Prop} [Decidable p] {x y : Prog σ φ α} (hp : p) (h : Yields R x s) :
    Yields R (if p then x else y) s := by rwa [if_pos hp]

theorem ite_neg {p : Prop} [Decidable p] {x y : Prog σ φ α} (hp : ¬ p) (h : Yields R y s) :
    Yields R (if p then x else y) s := by rwa [if_neg hp]

end Yields

/-! ## The image of a program -/

/-- From the image of a state, `y` does what `x` does from the state. -/
def MapsTo {τ : Type} (f : σ → τ) (x : Prog σ φ α) (y : Prog τ φ α) : Prop :=
  ∀ s, y (f s) = ((x s).1, f (x s).2)

namespace MapsTo

variable {τ : Type} {f : σ → τ}

theorem pure (a : α) : MapsTo f (Pure.pure a : Prog σ φ α) (Pure.pure a) := fun _ => rfl

theorem stop (e : φ) : MapsTo f (Prog.stop e : Prog σ φ α) (Prog.stop e) := fun _ => rfl

theorem lift (x : Except φ α) : MapsTo f (Prog.lift x) (Prog.lift x) := fun _ => rfl

theorem modify {g : σ → σ} {g' : τ → τ} (h : ∀ s, g' (f s) = f (g s)) :
    MapsTo f (Prog.modify g : Prog σ φ Unit) (Prog.modify g') := fun s =>
  congrArg (Prod.mk _) (h s)

theorem bind {x : Prog σ φ β} {x' : Prog τ φ β} {g : β → Prog σ φ α} {g' : β → Prog τ φ α}
    (hx : MapsTo f x x') (hg : ∀ b, MapsTo f (g b) (g' b)) : MapsTo f (x >>= g) (x' >>= g') := by
  intro s
  rw [bind_apply, bind_apply, hx s]
  cases hxs : x s with
  | mk result s₁ =>
    cases result with
    | ok b => exact hg b s₁
    | error e => rfl

theorem get_bind {g : σ → Prog σ φ α} {g' : τ → Prog τ φ α}
    (h : ∀ s, MapsTo f (g s) (g' (f s))) : MapsTo f (Prog.get >>= g) (Prog.get >>= g') :=
  fun s => h s s

theorem ite {p : Prop} [Decidable p] {x y : Prog σ φ α} {x' y' : Prog τ φ α}
    (hx : MapsTo f x x') (hy : MapsTo f y y') :
    MapsTo f (if p then x else y) (if p then x' else y') := by
  split
  · exact hx
  · exact hy

end MapsTo

end Prog

/-! ## Loops

A loop is what one turn of it does; its runs are the iterates. -/
namespace Loop

variable {σ : Type} {f : σ → σ} {s : σ}

/-- A loop that is done stays as it is. -/
theorem stays {m n : ℕ} (hdone : f (f^[m] s) = f^[m] s) (h : m ≤ n) :
    f^[n] s = f^[m] s := by
  induction n, h using Nat.le_induction with
  | base => rfl
  | succ n _ ih => rw [Function.iterate_succ_apply', ih, hdone]

/-- The turn in which a loop gets done. -/
theorem last_turn {P : σ → Prop} (hs : ¬ P s) {n : ℕ} (hn : P (f^[n] s)) :
    ∃ m < n, ¬ P (f^[m] s) ∧ P (f^[m + 1] s) := by
  induction n with
  | zero => exact absurd hn hs
  | succ n ih =>
    by_cases hP : P (f^[n] s)
    · obtain ⟨m, hm, hlast⟩ := ih hP
      exact ⟨m, hm.trans n.lt_succ_self, hlast⟩
    · exact ⟨n, n.lt_succ_self, hP, hn⟩

end Loop
