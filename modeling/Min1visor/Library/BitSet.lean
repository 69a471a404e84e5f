import Mathlib.Data.Nat.Basic
import Mathlib.Tactic

/-!
# Words as sets of numbers

A word of width `w` as the set of the numbers below `w` whose bits are 1. A number is
put in with an or, taken out with an and, and the least member is the number of zeros
below the first 1.
-/
namespace BitSet

variable {w : ℕ}

theorem getLsbD_insert (x : BitVec w) {i : ℕ} (hi : i < w) (j : ℕ) :
    (x ||| (1 : BitVec w) <<< i).getLsbD j = (x.getLsbD j || decide (i = j)) := by
  change (x ||| 1#w <<< i).getLsbD j = _
  rw [← BitVec.twoPow_eq, BitVec.getLsbD_or, BitVec.getLsbD_twoPow]
  simp [hi]

theorem getLsbD_erase (x : BitVec w) (i j : ℕ) :
    (x &&& ~~~((1 : BitVec w) <<< i)).getLsbD j = (x.getLsbD j && decide (i ≠ j)) := by
  change (x &&& ~~~(1#w <<< i)).getLsbD j = _
  rw [← BitVec.twoPow_eq, BitVec.getLsbD_and, BitVec.getLsbD_not, BitVec.getLsbD_twoPow]
  by_cases hj : j < w
  · by_cases hij : i = j
    · subst hij
      simp [hj]
    · simp [hj, hij]
  · simp [BitVec.getLsbD_of_ge x j (Nat.le_of_not_lt hj)]

/-- A number is a member exactly when masking with its bit leaves something. -/
theorem and_bit_ne_zero (x : BitVec w) {i : ℕ} (hi : i < w) :
    x &&& (1 : BitVec w) <<< i ≠ 0 ↔ x.getLsbD i = true := by
  have hand (j : ℕ) : (x &&& (1 : BitVec w) <<< i).getLsbD j = (x.getLsbD j && decide (i = j)) := by
    change (x &&& 1#w <<< i).getLsbD j = _
    rw [← BitVec.twoPow_eq, BitVec.getLsbD_and, BitVec.getLsbD_twoPow]
    simp [hi]
  constructor
  · intro hne
    by_contra hbit
    apply hne
    apply BitVec.eq_of_getLsbD_eq
    intro j _
    rw [hand, BitVec.ofNat_eq_ofNat, BitVec.getLsbD_zero, Bool.and_eq_false_iff]
    by_cases hij : i = j
    · exact .inl (by rw [← hij]; simpa using hbit)
    · exact .inr (by simp [hij])
  · intro hbit h
    have hzero := hand i
    rw [h, hbit] at hzero
    simp at hzero

theorem insert_ne_zero (x : BitVec w) {i : ℕ} (hi : i < w) : x ||| (1 : BitVec w) <<< i ≠ 0 := by
  intro h
  have hbit := getLsbD_insert x hi i
  rw [h] at hbit
  simp at hbit

/-- The least member of a set. -/
theorem ctz_least {x : BitVec w} (h : x ≠ 0) : x.ctz.toNat < w ∧ x.getLsbD x.ctz.toNat = true ∧
    ∀ i < x.ctz.toNat, x.getLsbD i = false := by
  have hbit := BitVec.getLsbD_true_ctz_of_ne_zero h
  exact ⟨BitVec.lt_of_getLsbD hbit, hbit, fun i hi => BitVec.getLsbD_false_of_lt_ctz hi⟩

/-- The members of a set in ascending order. -/
def members (x : BitVec w) : List ℕ := (List.range w).filter x.getLsbD

@[simp] theorem mem_members {x : BitVec w} {i : ℕ} : i ∈ members x ↔ x.getLsbD i = true := by
  rw [members, List.mem_filter, List.mem_range]
  exact and_iff_right_of_imp BitVec.lt_of_getLsbD

theorem members_eq_nil {x : BitVec w} : members x = [] ↔ x = 0 := by
  constructor
  · intro h
    apply BitVec.eq_of_getLsbD_eq
    intro i _
    have hi : i ∉ members x := by simp [h]
    simpa using hi
  · rintro rfl
    simp [members]

/-- The least member comes first, and the others are those of the set without it. -/
theorem members_eq_cons {x : BitVec w} (h : x ≠ 0) :
    members x = x.ctz.toNat :: members (x &&& ~~~((1 : BitVec w) <<< x.ctz.toNat)) := by
  obtain ⟨hlt, hbit, hleast⟩ := ctz_least h
  generalize x.ctz.toNat = k at hlt hbit hleast
  obtain ⟨n, hn⟩ : ∃ n, w = k + (1 + n) := ⟨w - k - 1, by omega⟩
  have hrange : List.range w = List.range' 0 k ++ k :: List.range' (k + 1) n := by
    rw [List.range_eq_range', hn, ← List.range'_append_1, ← List.range'_append_1]
    simp
  have hbelow : ∀ y : BitVec w, (∀ i < k, y.getLsbD i = false) →
      (List.range' 0 k).filter y.getLsbD = [] := by
    intro y hy
    rw [List.filter_eq_nil_iff]
    intro i hi
    simp [hy i (by simpa using hi)]
  have herase := getLsbD_erase x k
  generalize x &&& ~~~((1 : BitVec w) <<< k) = y at herase
  have habove : (List.range' (k + 1) n).filter x.getLsbD =
      (List.range' (k + 1) n).filter y.getLsbD := by
    refine List.filter_congr fun i hi => ?_
    have hne : k ≠ i := by
      have := (List.mem_range'_1.mp hi).1
      omega
    rw [herase i]
    simp [hne]
  have hself : y.getLsbD k = false := by
    rw [herase k]
    simp
  have hnone : ∀ i < k, y.getLsbD i = false := by
    intro i hi
    rw [herase i, hleast i hi, Bool.false_and]
  rw [members, members, hrange, List.filter_append, List.filter_append, hbelow x hleast,
    hbelow y hnone, List.filter_cons_of_pos hbit, List.filter_cons_of_neg (by simp [hself]), habove]
  rfl

end BitSet
