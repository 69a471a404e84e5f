import Mathlib.Data.Nat.Basic
import Mathlib.Tactic

/-!
# Machine integers as bounded naturals

An unsigned integer of width `w` is a natural below `2 ^ w`. Arithmetic that
leaves this range aborts the program, as does a division by zero; both are
failures of the ordinary `Except` monad, beside the other ways a program aborts.
-/

/-- The ways a run of the program aborts instead of returning. -/
inductive Panic
  | overflow
  | divideByZero
  | assertion
  | indexOutOfRange
  | unwrapNone
  | explicit
  deriving DecidableEq, Repr

namespace Checked

section Except
variable {ε α β : Type}

@[simp] theorem ok_bind (a : α) (f : α → Except ε β) : (Except.ok a >>= f) = f a := rfl

@[simp] theorem error_bind (e : ε) (f : α → Except ε β) :
    (Except.error e >>= f) = .error e := rfl

@[simp] theorem pure_eq_ok (a : α) : (pure a : Except ε α) = .ok a := rfl

@[simp] theorem throw_eq_error (e : ε) : (throw e : Except ε α) = .error e := rfl

/-- A sequence of two computations returns exactly when both do. -/
theorem bind_eq_ok {x : Except ε α} {f : α → Except ε β} {b : β} :
    (x >>= f) = .ok b ↔ ∃ a, x = .ok a ∧ f a = .ok b := by
  cases x <;> simp

/-- A branch that returns, whichever it is. -/
theorem ite_eq_ok {p : Prop} [Decidable p] {x y : Except ε α} {a : α}
    (h : (if p then x else y) = .ok a) : x = .ok a ∨ y = .ok a := by
  by_cases hp : p
  · exact .inl (by rwa [if_pos hp] at h)
  · exact .inr (by rwa [if_neg hp] at h)

/-- A test returns when the branch it takes does. -/
theorem exists_ite {p : Prop} [Decidable p] {x y : Except ε α} (hx : p → ∃ a, x = .ok a)
    (hy : ¬ p → ∃ a, y = .ok a) : ∃ a, (if p then x else y) = .ok a := by
  by_cases hp : p
  · rw [if_pos hp]
    exact hx hp
  · rw [if_neg hp]
    exact hy hp

/-- What holds of every value that either branch of a test returns. -/
theorem forall_ite {p : Prop} [Decidable p] {x y : Except ε α} {q : α → Prop}
    (hx : p → ∀ a, x = .ok a → q a) (hy : ¬ p → ∀ a, y = .ok a → q a) :
    ∀ a, (if p then x else y) = .ok a → q a := by
  by_cases hp : p
  · rw [if_pos hp]
    exact hx hp
  · rw [if_neg hp]
    exact hy hp

end Except

def add (w a b : ℕ) : Except Panic ℕ :=
  if a + b < 2 ^ w then .ok (a + b) else .error .overflow

def sub (a b : ℕ) : Except Panic ℕ :=
  if b ≤ a then .ok (a - b) else .error .overflow

def mul (w a b : ℕ) : Except Panic ℕ :=
  if a * b < 2 ^ w then .ok (a * b) else .error .overflow

/-- The non-aborting addition, which reports an overflow to its caller. -/
def checkedAdd (w a b : ℕ) : Option ℕ :=
  if a + b < 2 ^ w then some (a + b) else none

/-- The least multiple of `b` that is not below `a`. -/
def nextMultipleOf (w a b : ℕ) : Except Panic ℕ :=
  if b = 0 then .error .divideByZero
  else if a % b = 0 then .ok a
  else add w a (b - a % b)

theorem add_ok {w a b : ℕ} (h : a + b < 2 ^ w) : add w a b = .ok (a + b) := if_pos h

theorem sub_ok {a b : ℕ} (h : b ≤ a) : sub a b = .ok (a - b) := if_pos h

theorem mul_ok {w a b : ℕ} (h : a * b < 2 ^ w) : mul w a b = .ok (a * b) := if_pos h

theorem add_eq_ok {w a b c : ℕ} : add w a b = .ok c ↔ a + b < 2 ^ w ∧ a + b = c := by
  unfold add
  split_ifs with h <;> simp [h]

/-- An addition returns the sum, or it aborts because the sum is out of range. -/
theorem add_cases (w a b : ℕ) :
    add w a b = .ok (a + b) ∨ (2 ^ w ≤ a + b ∧ add w a b = .error .overflow) := by
  unfold add
  split_ifs with h
  · exact .inl rfl
  · exact .inr ⟨not_lt.mp h, rfl⟩

theorem sub_eq_ok {a b c : ℕ} : sub a b = .ok c ↔ b ≤ a ∧ a - b = c := by
  unfold sub
  split_ifs with h <;> simp [h]

theorem mul_eq_ok {w a b c : ℕ} : mul w a b = .ok c ↔ a * b < 2 ^ w ∧ a * b = c := by
  unfold mul
  split_ifs with h <;> simp [h]

theorem checkedAdd_some {w a b : ℕ} (h : a + b < 2 ^ w) :
    checkedAdd w a b = some (a + b) := if_pos h

theorem nextMultipleOf_of_dvd {w a b : ℕ} (hb : 0 < b) (h : b ∣ a) :
    nextMultipleOf w a b = .ok a := by
  simp [nextMultipleOf, hb.ne', Nat.mod_eq_zero_of_dvd h]

/-- A rounding that returns a value. -/
theorem nextMultipleOf_eq_ok {w a b c : ℕ} (h : nextMultipleOf w a b = .ok c) :
    0 < b ∧ b ∣ c ∧ a ≤ c ∧ c < a + b := by
  unfold nextMultipleOf at h
  split_ifs at h with hb ha
  · cases h
    exact ⟨Nat.pos_of_ne_zero hb, Nat.dvd_of_mod_eq_zero ha, le_rfl, by omega⟩
  · obtain ⟨-, rfl⟩ := add_eq_ok.mp h
    have hlt := Nat.mod_lt a (Nat.pos_of_ne_zero hb)
    have hsum := Nat.div_add_mod a b
    refine ⟨Nat.pos_of_ne_zero hb, ⟨a / b + 1, ?_⟩, by omega, by omega⟩
    rw [Nat.mul_add, Nat.mul_one]
    omega

/-- Away from the top of the range the rounding succeeds, reaches a multiple
and moves by less than one step. -/
theorem nextMultipleOf_spec {w a b : ℕ} (hb : 0 < b) (h : a + b ≤ 2 ^ w) :
    ∃ c, nextMultipleOf w a b = .ok c ∧ b ∣ c ∧ a ≤ c ∧ c < a + b := by
  by_cases ha : a % b = 0
  · exact ⟨a, nextMultipleOf_of_dvd hb (Nat.dvd_of_mod_eq_zero ha),
      Nat.dvd_of_mod_eq_zero ha, le_rfl, by omega⟩
  · have hlt := Nat.mod_lt a hb
    refine ⟨a + (b - a % b), ?_, ?_, by omega, by omega⟩
    · simp only [nextMultipleOf, hb.ne', ha, if_false]
      exact add_ok (by omega)
    · refine ⟨a / b + 1, ?_⟩
      have hd := Nat.div_add_mod a b
      rw [Nat.mul_add, Nat.mul_one]
      omega

end Checked
