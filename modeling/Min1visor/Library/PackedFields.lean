import Min1visor.Library.FixedArray

/-!
# Fields packed into a word

A number that was shifted to a position of a word is found there, and nowhere else. A 32-bit
word is seen as a row of fields of one width. A field is replaced by clearing its bits with a
shifted mask and adding the shifted value; what a later extraction of any field sees is the
value or the old field. An array of words packs one field per identifier.
-/
namespace PackedFields

/-! ## Numbers at any position -/

section Place
variable {n x s lo len : ℕ}

/-- A number is read at the position that it was shifted to. -/
theorem extract_place (h : s + len ≤ n) :
    (BitVec.ofNat n x <<< s).extractLsb' s len = BitVec.ofNat len x := by
  apply BitVec.eq_of_getLsbD_eq
  intro i hi
  simp only [BitVec.getLsbD_extractLsb', BitVec.getLsbD_shiftLeft, BitVec.getLsbD_ofNat, hi,
    show s + i < n by omega, show i < n by omega, show ¬ s + i < s by omega, Nat.add_sub_cancel_left,
    decide_true, decide_false, Bool.not_false, Bool.true_and]

/-- It does not show outside of its own bits. -/
theorem extract_apart {m : ℕ} (hx : x < 2 ^ m) (h : s + m ≤ lo ∨ lo + len ≤ s) :
    (BitVec.ofNat n x <<< s).extractLsb' lo len = 0 := by
  apply BitVec.eq_of_getLsbD_eq
  intro i hi
  simp only [BitVec.getLsbD_extractLsb', BitVec.getLsbD_shiftLeft, BitVec.getLsbD_ofNat]
  by_cases hlow : lo + i < s
  · simp [hlow]
  · have hzero : x.testBit (lo + i - s) = false :=
      Nat.testBit_lt_two_pow (hx.trans_le (Nat.pow_le_pow_right (by decide) (by omega)))
    simp [hzero]

end Place

/-- A number with the bits that are meant for it. -/
structure Placed where
  position : ℕ
  width : ℕ
  value : ℕ

/-- The number needs no more bits than are meant for it. -/
def Placed.Fits (f : Placed) : Prop := f.value < 2 ^ f.width

/-- The bits of the number are among `len` bits from `lo` on, at least in part. -/
def Placed.meets (lo len : ℕ) (f : Placed) : Bool :=
  decide (lo < f.position + f.width ∧ f.position < lo + len)

/-- The numbers joined into one word, without masks. -/
def join (n : ℕ) : List Placed → BitVec n
  | [] => 0
  | f :: fields => (BitVec.ofNat n f.value <<< f.position) ||| join n fields

section Join
variable {n lo len : ℕ} {fields : List Placed}

/-- Only the numbers placed at the bits extracted have a part in them. -/
theorem extract_join (hfits : ∀ f ∈ fields, f.Fits) :
    (join n fields).extractLsb' lo len =
      (join n (fields.filter (Placed.meets lo len))).extractLsb' lo len := by
  induction fields with
  | nil => rfl
  | cons f fields ih =>
    obtain ⟨hfit, hrest⟩ := List.forall_mem_cons.mp hfits
    by_cases hmeets : f.meets lo len = true
    · rw [List.filter_cons_of_pos hmeets, join, join, BitVec.extractLsb'_or, BitVec.extractLsb'_or,
        ih hrest]
    · have hapart : f.position + f.width ≤ lo ∨ lo + len ≤ f.position := by
        simp only [Placed.meets, decide_eq_true_eq] at hmeets
        omega
      rw [List.filter_cons_of_neg hmeets, join, BitVec.extractLsb'_or, extract_apart hfit hapart,
        ih hrest]
      simp

/-- A number that meets no other is read back. -/
theorem extract_join_one {s m x : ℕ} (hfits : ∀ f ∈ fields, f.Fits)
    (hone : fields.filter (Placed.meets s m) = [⟨s, m, x⟩]) (hn : s + m ≤ n) :
    ((join n fields).extractLsb' s m).toNat = x := by
  have hfit : x < 2 ^ m := hfits ⟨s, m, x⟩ (List.mem_of_mem_filter (hone ▸ List.mem_singleton_self _))
  have hjoin : join n [⟨s, m, x⟩] = BitVec.ofNat n x <<< s := by simp [join]
  rw [extract_join hfits, hone, hjoin, extract_place hn, BitVec.toNat_ofNat, Nat.mod_eq_of_lt hfit]

/-- Where no number is placed, nothing is set. -/
theorem extract_join_none (hfits : ∀ f ∈ fields, f.Fits)
    (hnone : fields.filter (Placed.meets lo len) = []) :
    ((join n fields).extractLsb' lo len).toNat = 0 := by
  rw [extract_join hfits, hnone]
  simp [join]

/-- A field by masking first and shifting down then. -/
theorem mask_and_shiftRight {s m : ℕ} (x : BitVec n) {mask : BitVec n}
    (hmask : mask = (BitVec.allOnes (s + m)).setWidth n) :
    (x &&& mask) >>> s = BitVec.ofNat n (x.extractLsb' s m).toNat := by
  rw [hmask, BitVec.ofNat_toNat]
  apply BitVec.eq_of_getLsbD_eq
  intro i hi
  simp only [BitVec.getLsbD_ushiftRight, BitVec.getLsbD_and, BitVec.getLsbD_setWidth,
    BitVec.getLsbD_allOnes, BitVec.getLsbD_extractLsb', hi, decide_true, Bool.true_and,
    Nat.add_lt_add_iff_left]
  by_cases hin : s + i < n
  · simp [hin, Bool.and_comm]
  · simp [BitVec.getLsbD_of_ge x (s + i) (by omega)]

end Join

/-! ## Rows of fields -/

variable {w : ℕ}

/-- The field at a position of the row. -/
def field (w : ℕ) (word : BitVec 32) (k : ℕ) : BitVec w := word.extractLsb' (k * w) w

/-- The word with one field replaced. -/
def replace (word : BitVec 32) (k : ℕ) (value : BitVec w) : BitVec 32 :=
  (word &&& ~~~((BitVec.allOnes w).setWidth 32 <<< (k * w))) ||| (value.setWidth 32 <<< (k * w))

theorem getLsbD_replace (word : BitVec 32) {k i : ℕ} (value : BitVec w) (hi : i < 32) :
    (replace word k value).getLsbD i =
      if k * w ≤ i ∧ i < k * w + w then value.getLsbD (i - k * w) else word.getLsbD i := by
  simp only [replace, BitVec.getLsbD_or, BitVec.getLsbD_and, BitVec.getLsbD_not,
    BitVec.getLsbD_shiftLeft, BitVec.getLsbD_setWidth, BitVec.getLsbD_allOnes, hi, decide_true,
    Bool.true_and]
  have hsub : i - k * w < 32 := by omega
  by_cases hlow : i < k * w
  · rw [if_neg (by omega)]
    simp [hlow]
  by_cases hhigh : i < k * w + w
  · rw [if_pos ⟨by omega, hhigh⟩]
    have hfield : i - k * w < w := by omega
    simp [hlow, hsub, hfield]
  · rw [if_neg (by omega)]
    have hfield : ¬ i - k * w < w := by omega
    have hnone : value.getLsbD (i - k * w) = false := BitVec.getLsbD_of_ge value _ (by omega)
    simp [hlow, hsub, hfield, hnone]

/-- A field after another, or the same, was replaced. -/
theorem field_replace (word : BitVec 32) {k j : ℕ} (value : BitVec w) (hj : j * w + w ≤ 32) :
    field w (replace word k value) j = if j = k then value else field w word j := by
  apply BitVec.eq_of_getLsbD_eq
  intro i hi
  rw [field, BitVec.getLsbD_extractLsb', getLsbD_replace word value (by omega)]
  simp only [hi, decide_true, Bool.true_and]
  by_cases hjk : j = k
  · subst hjk
    rw [if_pos ⟨by omega, by omega⟩, if_pos rfl, Nat.add_sub_cancel_left]
  · -- Two rows of the same width do not overlap.
    have hapart : ¬ (k * w ≤ j * w + i ∧ j * w + i < k * w + w) := by
      rintro ⟨hle, hlt⟩
      rcases Nat.lt_or_gt_of_ne hjk with hlt' | hgt
      · have hmul := Nat.mul_le_mul_right w (Nat.succ_le_of_lt hlt')
        rw [Nat.succ_mul] at hmul
        omega
      · have hmul := Nat.mul_le_mul_right w (Nat.succ_le_of_lt hgt)
        rw [Nat.succ_mul] at hmul
        omega
    rw [if_neg hapart, if_neg hjk, field, BitVec.getLsbD_extractLsb']
    simp [hi]

/-- A field by shifting down and masking. -/
theorem shiftRight_and_mask (word : BitVec 32) (k : ℕ) :
    ((word >>> (k * w)) &&& (BitVec.allOnes w).setWidth 32) = (field w word k).setWidth 32 := by
  apply BitVec.eq_of_getLsbD_eq
  intro i hi
  simp only [field, BitVec.getLsbD_and, BitVec.getLsbD_ushiftRight, BitVec.getLsbD_setWidth,
    BitVec.getLsbD_allOnes, BitVec.getLsbD_extractLsb', hi, decide_true, Bool.true_and]
  exact Bool.and_comm _ _

/-- The fields of an array of words after one of them was replaced. -/
theorem field_put {size per n : ℕ} (a : FixedArray (BitVec 32) size) (hper : 0 < per)
    (hw : per * w ≤ 32) (hn : n / per < size) (value : BitVec w) (m : ℕ) :
    field w ((a.put (n / per) (replace (a.getD (n / per) 0) (n % per) value)).getD (m / per) 0)
        (m % per) = if m = n then value else field w (a.getD (m / per) 0) (m % per) := by
  rw [FixedArray.getD_put a _ _ _ _ hn]
  by_cases hword : m / per = n / per
  · have hlt : (m % per + 1) * w ≤ per * w := Nat.mul_le_mul_right w (Nat.mod_lt m hper)
    rw [Nat.succ_mul] at hlt
    have hsame : m % per = n % per ↔ m = n := by
      refine ⟨fun h => ?_, fun h => by rw [h]⟩
      rw [← Nat.div_add_mod m per, ← Nat.div_add_mod n per, hword, h]
    rw [if_pos hword, field_replace _ _ (hlt.trans hw), hword]
    simp only [hsame]
  · have hne : m ≠ n := fun h => hword (by rw [h])
    rw [if_neg hword, if_neg hne]

end PackedFields
