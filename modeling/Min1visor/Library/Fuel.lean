import Min1visor.Library.Checked

/-!
# Computations that run on a fuel

A loop that runs on a fuel stops with a failure of its own, `e`, when the fuel is used up.
More fuel never changes another outcome. A computation terminates when from some fuel on it
has one outcome, which is not that failure.
-/
namespace Fuel

variable {ε α β : Type} {e : ε}

/-! ## More fuel -/

/-- The first computation is cut off, or both have the same outcome. -/
def Le (e : ε) (x y : Except ε α) : Prop := x = .error e ∨ x = y

namespace Le

variable {x y z : Except ε α}

theorem refl (x : Except ε α) : Le e x x := .inr rfl

theorem cut (x : Except ε α) : Le e (.error e) x := .inl rfl

theorem bind {f g : α → Except ε β} (hx : Le e x y) (hf : ∀ a, Le e (f a) (g a)) :
    Le e (x >>= f) (y >>= g) := by
  rcases hx with rfl | rfl
  · exact .inl rfl
  · cases x with
    | error e' => exact refl _
    | ok a => exact hf a

theorem ite {p : Prop} [Decidable p] {x' y' : Except ε α} (hx : Le e x x') (hy : Le e y y') :
    Le e (if p then x else y) (if p then x' else y') := by
  by_cases hp : p
  · rwa [if_pos hp, if_pos hp]
  · rwa [if_neg hp, if_neg hp]

/-- What is not cut off stays as it is. -/
theorem eq (h : Le e x y) (hx : x ≠ .error e) : y = x := (h.resolve_left hx).symm

end Le

/-! ## Enough fuel -/

/-- The computation is not cut off, and what it returns satisfies `P`. -/
structure Ends (e : ε) (P : α → Prop) (x : Except ε α) : Prop where
  ne : x ≠ .error e
  result : ∀ a, x = .ok a → P a

namespace Ends

variable {P Q : α → Prop} {x y : Except ε α}

theorem ok {a : α} (h : P a) : Ends e P (.ok a) :=
  ⟨nofun, fun _ heq => Except.ok.inj heq ▸ h⟩

theorem error {e' : ε} (h : e' ≠ e) : Ends e P (.error e') :=
  ⟨fun heq => h (Except.error.inj heq), nofun⟩

theorem mono (h : Ends e P x) (hle : ∀ a, P a → Q a) : Ends e Q x :=
  ⟨h.ne, fun a ha => hle a (h.result a ha)⟩

theorem bind {f : α → Except ε β} {R : β → Prop} (hx : Ends e P x)
    (hf : ∀ a, P a → Ends e R (f a)) : Ends e R (x >>= f) := by
  cases hxa : x with
  | error e' => exact error fun heq => hx.ne (hxa.trans (congrArg _ heq))
  | ok a => exact hf a (hx.result a hxa)

theorem ite {p : Prop} [Decidable p] (hx : p → Ends e P x) (hy : ¬ p → Ends e P y) :
    Ends e P (if p then x else y) := by
  by_cases hp : p
  · rw [if_pos hp]
    exact hx hp
  · rw [if_neg hp]
    exact hy hp

end Ends

/-! ## Termination -/

/-- From some fuel on there is one outcome, and the computation is not cut off. -/
def Terminates (e : ε) (f : ℕ → Except ε α) : Prop :=
  ∃ bound r, r ≠ .error e ∧ ∀ fuel, bound ≤ fuel → f fuel = r

theorem Terminates.of_ends {f : ℕ → Except ε α} {P : α → Prop} {bound : ℕ}
    (hmono : ∀ m n, m ≤ n → Le e (f m) (f n)) (hends : Ends e P (f bound)) : Terminates e f :=
  ⟨bound, f bound, hends.ne, fun fuel hle => (hmono bound fuel hle).eq hends.ne⟩

end Fuel
