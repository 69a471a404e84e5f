import Mathlib.Data.List.Basic
import Mathlib.Tactic

/-!
# Runs of consecutive numbers

A list of block numbers breaks up into runs of consecutive numbers. A program
that merges neighbouring blocks works on one run after the other.
-/
namespace Fragments

/-- The length of the longest run of consecutive numbers at the head. -/
def runLength : List ℕ → ℕ
  | [] => 0
  | [_] => 1
  | c :: d :: cs => if d = c + 1 then runLength (d :: cs) + 1 else 1

theorem runLength_pos (c : ℕ) (cs : List ℕ) : 0 < runLength (c :: cs) := by
  cases cs with
  | nil => exact Nat.one_pos
  | cons d cs =>
    rw [runLength]
    split_ifs <;> omega

theorem runLength_le (cs : List ℕ) : runLength cs ≤ cs.length := by
  induction cs with
  | nil => simp [runLength]
  | cons c cs ih =>
    cases cs with
    | nil => simp [runLength]
    | cons d cs =>
      rw [runLength]
      simp only [List.length_cons] at ih ⊢
      split_ifs <;> omega

/-- The numbers of the run at the head. -/
theorem getElem_run (c : ℕ) (cs : List ℕ) (j : ℕ) (h : j < runLength (c :: cs)) :
    (c :: cs)[j]? = some (c + j) := by
  induction cs generalizing c j with
  | nil =>
    have hj : j = 0 := by simpa [runLength] using h
    simp [hj]
  | cons d cs ih =>
    cases j with
    | zero => simp
    | succ j =>
      rw [runLength] at h
      split_ifs at h with hd
      · have hnext := ih d j (by omega)
        rw [List.getElem?_cons_succ, hnext, hd]
        congr 1
        omega
      · omega

/-- The run at the head ends where the next number is another one. -/
theorem getElem_break (c : ℕ) (cs : List ℕ) (d : ℕ)
    (h : (c :: cs)[runLength (c :: cs)]? = some d) : d ≠ c + runLength (c :: cs) := by
  induction cs generalizing c with
  | nil => simp [runLength] at h
  | cons e cs ih =>
    rw [runLength] at h ⊢
    split_ifs at h ⊢ with he
    · rw [List.getElem?_cons_succ] at h
      have hbreak := ih e h
      omega
    · rw [List.getElem?_cons_succ, List.getElem?_cons_zero] at h
      obtain rfl := Option.some.inj h
      exact he

/-- Every part of a run up to its end is a run. -/
theorem runLength_drop (cs : List ℕ) (h : runLength cs = cs.length) (k : ℕ) :
    runLength (cs.drop k) = (cs.drop k).length := by
  induction cs generalizing k with
  | nil => simp [runLength]
  | cons c cs ih =>
    cases k with
    | zero => exact h
    | succ k =>
      rw [List.drop_succ_cons]
      apply ih
      cases cs with
      | nil => rfl
      | cons d cs =>
        rw [runLength] at h
        simp only [List.length_cons] at h ⊢
        split_ifs at h <;> omega

end Fragments
