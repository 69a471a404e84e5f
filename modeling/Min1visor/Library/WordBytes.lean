import Mathlib.Logic.Function.Basic
import Mathlib.Tactic

/-!
# The bytes of a memory of words

A memory of 64-bit words is read and written byte by byte. A byte is a part of the word at
the multiple of eight below its address; a byte that is stored is read back at its own address
and changes no other.
-/
namespace WordBytes

/-- The address of the word that a byte lies in. -/
def wordOf (a : ℕ) : ℕ := a / 8 * 8

def byte (word : BitVec 64) (k : ℕ) : BitVec 8 := word.extractLsb' (k * 8) 8

/-- The word with one of its bytes replaced. -/
def replace (word : BitVec 64) (k : ℕ) (data : BitVec 8) : BitVec 64 :=
  (word &&& ~~~((BitVec.allOnes 8).setWidth 64 <<< (k * 8))) ||| (data.setWidth 64 <<< (k * 8))

def load (mem : ℕ → BitVec 64) (a : ℕ) : BitVec 8 := byte (mem (wordOf a)) (a % 8)

def store (mem : ℕ → BitVec 64) (a : ℕ) (data : BitVec 8) : ℕ → BitVec 64 :=
  Function.update mem (wordOf a) (replace (mem (wordOf a)) (a % 8) data)

theorem getLsbD_replace (word : BitVec 64) {k i : ℕ} (data : BitVec 8) (hi : i < 64) :
    (replace word k data).getLsbD i =
      if k * 8 ≤ i ∧ i < k * 8 + 8 then data.getLsbD (i - k * 8) else word.getLsbD i := by
  simp only [replace, BitVec.getLsbD_or, BitVec.getLsbD_and, BitVec.getLsbD_not,
    BitVec.getLsbD_shiftLeft, BitVec.getLsbD_setWidth, BitVec.getLsbD_allOnes, hi, decide_true,
    Bool.true_and]
  have hsub : i - k * 8 < 64 := by omega
  by_cases hlow : i < k * 8
  · have hout : ¬ (k * 8 ≤ i ∧ i < k * 8 + 8) := by omega
    simp [hlow, hout]
  by_cases hhigh : i < k * 8 + 8
  · have hbyte : i - k * 8 < 8 := by omega
    have hin : k * 8 ≤ i ∧ i < k * 8 + 8 := ⟨by omega, hhigh⟩
    simp [hlow, hsub, hbyte, hin]
  · have hbyte : ¬ i - k * 8 < 8 := by omega
    have hout : ¬ (k * 8 ≤ i ∧ i < k * 8 + 8) := by omega
    have hnone : data.getLsbD (i - k * 8) = false := BitVec.getLsbD_of_ge data _ (by omega)
    simp [hlow, hsub, hbyte, hout, hnone]

theorem byte_replace (word : BitVec 64) {k j : ℕ} (data : BitVec 8) (hj : j < 8) :
    byte (replace word k data) j = if j = k then data else byte word j := by
  apply BitVec.eq_of_getLsbD_eq
  intro i hi
  rw [byte, BitVec.getLsbD_extractLsb', getLsbD_replace word data (by omega)]
  by_cases hjk : j = k
  · have hin : k * 8 ≤ j * 8 + i ∧ j * 8 + i < k * 8 + 8 := by omega
    have hbit : j * 8 + i - k * 8 = i := by omega
    simp [hjk, hi]
  · have hout : ¬ (k * 8 ≤ j * 8 + i ∧ j * 8 + i < k * 8 + 8) := by omega
    simp [hjk, hout, byte, hi]

/-- A byte that was stored is read back, and the other bytes are as before. -/
theorem load_store (mem : ℕ → BitVec 64) (a b : ℕ) (data : BitVec 8) :
    load (store mem a data) b = if b = a then data else load mem b := by
  unfold load store
  by_cases hword : wordOf b = wordOf a
  · have hsame : b % 8 = a % 8 ↔ b = a := by
      unfold wordOf at hword
      omega
    rw [hword, Function.update_self, byte_replace _ _ (Nat.mod_lt b (by decide))]
    simp only [hsame]
  · have hne : b ≠ a := fun heq => hword (by rw [heq])
    rw [Function.update_of_ne hword, if_neg hne]

/-- A store leaves the words that the byte does not lie in. -/
theorem store_other (mem : ℕ → BitVec 64) {a w : ℕ} (hw : w ≠ wordOf a) (data : BitVec 8) :
    store mem a data w = mem w := Function.update_of_ne hw _ _

/-- The word of a byte lies in every aligned range that the byte lies in. -/
theorem wordOf_mem {a lo size : ℕ} (hlo : 8 ∣ lo) (hin : lo ≤ a ∧ a < lo + size) :
    lo ≤ wordOf a ∧ wordOf a < lo + size := by
  unfold wordOf
  omega

end WordBytes
