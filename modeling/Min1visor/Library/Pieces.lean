import Mathlib.Tactic

/-!
# A number in pieces

A number is read piece by piece from its lowest bits on, each piece with a width of
its own, and put together again. The result is the number exactly when every piece
agrees with the bits it stands for.
-/
namespace Pieces

/-- The number that the pieces give, the lowest first; of a piece only its width
counts. -/
def reassemble : List (ℕ × ℕ) → ℕ
  | [] => 0
  | (width, value) :: rest => value % 2 ^ width + 2 ^ width * reassemble rest

def totalWidth (pieces : List (ℕ × ℕ)) : ℕ := (pieces.map Prod.fst).sum

/-- Every piece is the part of the number that starts at its position. -/
def Match (n : ℕ) : ℕ → List (ℕ × ℕ) → Prop
  | _, [] => True
  | position, (width, value) :: rest =>
    value % 2 ^ width = n / 2 ^ position % 2 ^ width ∧ Match n (position + width) rest

theorem reassemble_eq_iff_from (n : ℕ) (pieces : List (ℕ × ℕ)) (position : ℕ)
    (hn : n / 2 ^ position < 2 ^ totalWidth pieces) :
    reassemble pieces = n / 2 ^ position ↔ Match n position pieces := by
  induction pieces generalizing position with
  | nil =>
    have hzero : n / 2 ^ position = 0 := by
      simp only [totalWidth, List.map_nil, List.sum_nil, pow_zero] at hn
      exact Nat.lt_one_iff.mp hn
    simp [reassemble, Match, hzero]
  | cons piece rest ih =>
    obtain ⟨width, value⟩ := piece
    have hpos : 0 < 2 ^ width := Nat.two_pow_pos width
    have hnext : n / 2 ^ (position + width) = n / 2 ^ position / 2 ^ width := by
      rw [pow_add, Nat.div_div_eq_div_mul]
    have hrest : n / 2 ^ (position + width) < 2 ^ totalWidth rest := by
      rw [hnext]
      apply Nat.div_lt_of_lt_mul
      rw [← pow_add]
      simpa [totalWidth] using hn
    have hdiv := Nat.div_add_mod (n / 2 ^ position) (2 ^ width)
    have hlow := Nat.mod_lt value hpos
    rw [Match, ← ih (position + width) hrest, hnext, reassemble]
    constructor
    · intro h
      constructor
      · rw [← h, Nat.add_mul_mod_self_left, Nat.mod_mod]
      · rw [← h, Nat.add_mul_div_left _ _ hpos, Nat.div_eq_of_lt hlow, Nat.zero_add]
    · rintro ⟨hvalue, hhigh⟩
      rw [hvalue, hhigh, Nat.add_comm]
      exact hdiv

/-- The pieces of a number give it back exactly when each of them is right. -/
theorem reassemble_eq_iff (n : ℕ) (pieces : List (ℕ × ℕ)) (hn : n < 2 ^ totalWidth pieces) :
    reassemble pieces = n ↔ Match n 0 pieces := by
  have h := reassemble_eq_iff_from n pieces 0
  simp only [pow_zero, Nat.div_one] at h
  exact h hn

end Pieces
