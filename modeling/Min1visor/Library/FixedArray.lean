import Min1visor.Library.Checked

/-!
# Fixed-size arrays and banks of bits

An array of `n` cells whose accesses abort outside its bounds. A bank packs one
bit per identifier into 32-bit words; setting and clearing single bits of it is
described by what a later test of any bit sees.
-/

/-- An array of `n` cells. -/
def FixedArray (α : Type) (n : ℕ) : Type := Fin n → α

namespace FixedArray

variable {α : Type} {n : ℕ}

def fill (n : ℕ) (x : α) : FixedArray α n := fun _ => x

/-- A read with a default outside the bounds. -/
def getD (a : FixedArray α n) (i : ℕ) (d : α) : α := if h : i < n then a ⟨i, h⟩ else d

/-- An update without a bounds check; outside the bounds it does nothing. -/
def put (a : FixedArray α n) (i : ℕ) (x : α) : FixedArray α n :=
  fun j => if j.val = i then x else a j

def get (a : FixedArray α n) (i : ℕ) : Except Panic α :=
  if h : i < n then .ok (a ⟨i, h⟩) else .error .indexOutOfRange

def set (a : FixedArray α n) (i : ℕ) (x : α) : Except Panic (FixedArray α n) :=
  if i < n then .ok (a.put i x) else .error .indexOutOfRange

def modify (a : FixedArray α n) (i : ℕ) (f : α → α) : Except Panic (FixedArray α n) := do
  a.set i (f (← a.get i))

theorem get_ok (a : FixedArray α n) {i : ℕ} (d : α) (h : i < n) : a.get i = .ok (a.getD i d) := by
  simp [get, getD, h]

theorem set_ok (a : FixedArray α n) {i : ℕ} (x : α) (h : i < n) : a.set i x = .ok (a.put i x) :=
  if_pos h

theorem modify_ok (a : FixedArray α n) {i : ℕ} (f : α → α) (d : α) (h : i < n) :
    a.modify i f = .ok (a.put i (f (a.getD i d))) := by
  simp [modify, get_ok a d h, set_ok a _ h]

theorem lt_of_modify {a b : FixedArray α n} {i : ℕ} {f : α → α} (d : α)
    (h : a.modify i f = .ok b) : i < n ∧ b = a.put i (f (a.getD i d)) := by
  by_cases hi : i < n
  · exact ⟨hi, (Except.ok.inj ((modify_ok a f d hi).symm.trans h)).symm⟩
  · simp [modify, get, hi] at h

theorem getD_put (a : FixedArray α n) (i j : ℕ) (x d : α) (h : i < n) :
    (a.put i x).getD j d = if j = i then x else a.getD j d := by
  unfold getD put
  by_cases hj : j < n
  · simp [hj]
  · have hne : j ≠ i := by omega
    simp [hj, hne]

theorem get_put_ne (a : FixedArray α n) {i j : ℕ} (x : α) (h : j ≠ i) :
    (a.put i x).get j = a.get j := by
  simp [get, put, h]

/-- Writing back what a cell holds changes nothing. -/
theorem put_getD (a : FixedArray α n) (i : ℕ) (d : α) : a.put i (a.getD i d) = a := by
  funext j
  unfold put
  by_cases hj : j.val = i
  · simp [← hj, getD]
  · simp [hj]

@[simp] theorem getD_fill (x : α) (i : ℕ) (d : α) :
    (fill n x).getD i d = if i < n then x else d := by
  unfold getD fill
  split_ifs <;> rfl

/-- The bit of an identifier in a bank of 32-bit words. -/
def bit (a : FixedArray (BitVec 32) n) (id : ℕ) : Bool := (a.getD (id / 32) 0).getLsbD (id % 32)

@[simp] theorem bit_fill_zero (id : ℕ) : (fill n (0 : BitVec 32)).bit id = false := by
  simp [bit]

/-- A bank after a word was rewritten, seen bit by bit. -/
theorem bit_put (a : FixedArray (BitVec 32) n) {i : ℕ} (x : BitVec 32) (h : i < n) (id : ℕ) :
    (a.put i x).bit id = if id / 32 = i then x.getLsbD (id % 32) else a.bit id := by
  unfold bit
  rw [getD_put a i (id / 32) x 0 h]
  split_ifs <;> rfl

/-- The mask of one bit position. -/
theorem getLsbD_one_shiftLeft (k i : ℕ) (hk : k < 32) :
    ((1 : BitVec 32) <<< k).getLsbD i = decide (i = k) := by
  rw [show (1 : BitVec 32) <<< k = BitVec.twoPow 32 k from (BitVec.twoPow_eq 32 k).symm]
  simp only [BitVec.getLsbD_twoPow, hk, decide_true, Bool.true_and, decide_eq_decide]
  exact eq_comm

theorem bit_set (a : FixedArray (BitVec 32) n) {id : ℕ} (h : id / 32 < n) (m : ℕ) :
    (a.put (id / 32) (a.getD (id / 32) 0 ||| (1 : BitVec 32) <<< (id % 32))).bit m =
      (a.bit m || decide (m = id)) := by
  rw [bit_put a _ h m]
  by_cases hw : m / 32 = id / 32
  · have hm : m % 32 = id % 32 ↔ m = id := by omega
    rw [if_pos hw, BitVec.getLsbD_or, getLsbD_one_shiftLeft _ _ (Nat.mod_lt _ (by decide))]
    simp only [bit, hw, hm]
  · have hne : m ≠ id := fun he => hw (he ▸ rfl)
    simp [hw, hne]

theorem bit_clear (a : FixedArray (BitVec 32) n) {id : ℕ} (h : id / 32 < n) (m : ℕ) :
    (a.put (id / 32) (a.getD (id / 32) 0 &&& ~~~((1 : BitVec 32) <<< (id % 32)))).bit m =
      (a.bit m && !decide (m = id)) := by
  rw [bit_put a _ h m]
  by_cases hw : m / 32 = id / 32
  · have hm : m % 32 = id % 32 ↔ m = id := by omega
    rw [if_pos hw, BitVec.getLsbD_and, BitVec.getLsbD_not,
      getLsbD_one_shiftLeft _ _ (Nat.mod_lt _ (by decide))]
    simp only [bit, hw, hm, Nat.mod_lt m (by decide : 0 < 32), decide_true, Bool.true_and]
  · have hne : m ≠ id := fun he => hw (he ▸ rfl)
    simp [hw, hne]

/-- Testing one bit by shifting it down. -/
theorem shiftRight_and_one (x : BitVec 32) (k : ℕ) :
    (x >>> k) &&& 1 = if x.getLsbD k then 1 else 0 := by
  have h1 : (x >>> k) &&& 1 = ((BitVec.ofBool ((x >>> k).getLsbD 0)).setWidth 32) :=
    BitVec.and_one_eq_setWidth_ofBool_getLsbD
  rw [h1, BitVec.getLsbD_ushiftRight, Nat.add_zero]
  cases x.getLsbD k <;> rfl

/-- Testing the lowest bit of a value. -/
theorem and_one_ne_zero (x : BitVec 64) : x &&& 1 ≠ 0 ↔ x.getLsbD 0 = true := by
  have h1 : x &&& 1 = (BitVec.ofBool (x.getLsbD 0)).setWidth 64 :=
    BitVec.and_one_eq_setWidth_ofBool_getLsbD
  rw [h1]
  cases x.getLsbD 0 <;> decide

end FixedArray
