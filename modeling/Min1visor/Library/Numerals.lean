import Mathlib.Data.Nat.Digits.Defs
import Mathlib.Tactic

/-!
# Numerals

A numeral is read digit by digit, most significant digit first, and given up once the number
no longer fits. It never fits again with more digits, so that only the whole number counts.
-/
namespace Numerals

/-- The number that the digits stand for, most significant digit first. -/
def value (base : ℕ) (digits : List ℕ) : ℕ := Nat.ofDigits base digits.reverse

@[simp] theorem value_nil (base : ℕ) : value base [] = 0 := rfl

theorem value_cons (base d : ℕ) (ds : List ℕ) :
    value base (d :: ds) = d * base ^ ds.length + value base ds := by
  simp [value, Nat.ofDigits_append, Nat.ofDigits_singleton]
  ring

/-- A number between the digits that were read and the bound. -/
def accumulate (base bound : ℕ) : List ℕ → ℕ → Option ℕ
  | [], n => some n
  | d :: ds, n =>
    if n * base < bound then
      if n * base + d < bound then accumulate base bound ds (n * base + d) else none
    else none

theorem accumulate_eq_some {base bound : ℕ} (hbase : 0 < base) {ds : List ℕ} {n v : ℕ}
    (hn : n < bound) : accumulate base bound ds n = some v ↔
      v = n * base ^ ds.length + value base ds ∧ v < bound := by
  induction ds generalizing n with
  | nil =>
    rw [accumulate, Option.some.injEq, List.length_nil, pow_zero, Nat.mul_one, value_nil,
      Nat.add_zero]
    exact ⟨fun h => ⟨h.symm, h ▸ hn⟩, fun h => h.1.symm⟩
  | cons d ds ih =>
    have hsum : n * base ^ (d :: ds).length + value base (d :: ds) =
        (n * base + d) * base ^ ds.length + value base ds := by
      rw [value_cons, List.length_cons, pow_succ]
      ring
    have hgrows : n * base + d ≤ (n * base + d) * base ^ ds.length + value base ds :=
      (Nat.le_mul_of_pos_right _ (Nat.pow_pos hbase)).trans (Nat.le_add_right _ _)
    rw [accumulate, hsum]
    split_ifs with hmul hadd
    · exact ih hadd
    · simp
      omega
    · simp
      omega

/-- The digits of a number; that of 0 is one 0. -/
def digits (base n : ℕ) : List ℕ := if n = 0 then [0] else (Nat.digits base n).reverse

theorem value_digits (base n : ℕ) : value base (digits base n) = n := by
  rw [digits]
  split_ifs with h
  · simp [h, value]
  · rw [value, List.reverse_reverse, Nat.ofDigits_digits]

theorem digits_ne_nil (base n : ℕ) : digits base n ≠ [] := by
  rw [digits]
  split_ifs with h
  · simp
  · simpa [Nat.digits_eq_nil_iff_eq_zero] using h

theorem lt_of_mem_digits {base n d : ℕ} (hbase : 1 < base) (h : d ∈ digits base n) : d < base := by
  rw [digits] at h
  split_ifs at h
  · rw [List.mem_singleton] at h
    omega
  · exact Nat.digits_lt_base hbase (List.mem_reverse.mp h)

end Numerals
