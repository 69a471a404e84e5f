import Min1visor.Library.Bytes

/-!
# Tables of numbers in memory

Numbers of one size, stored one behind the other. A part of an entry reads as that part
of its number, and nothing around the table changes.
-/
namespace Bytes

/-- The first `n` entries of a table of numbers of `size` bytes. -/
def storeTable (mem : Bytes) (base size : ℕ) (value : ℕ → ℕ) : ℕ → Bytes
  | 0 => mem
  | n + 1 => store (storeTable mem base size value n) (base + size * n) size (value n)

variable (mem : Bytes) (base size : ℕ) (value : ℕ → ℕ)

theorem storeTable_outside {n x : ℕ} (h : x < base ∨ base + size * n ≤ x) :
    storeTable mem base size value n x = mem x := by
  induction n with
  | zero => rfl
  | succ n ih =>
    rw [Nat.mul_succ] at h
    rw [storeTable, store_outside _ _ (by omega), ih (by omega)]

/-- A part of an entry. -/
theorem load_storeTable {n k i m : ℕ} (hk : k < n) (h : i + m ≤ size) :
    load (storeTable mem base size value n) (base + size * k + i) m =
      value k / 256 ^ i % 256 ^ m := by
  induction n with
  | zero => omega
  | succ n ih =>
    rw [storeTable]
    by_cases hlast : k = n
    · subst hlast
      exact load_store_from _ _ _ h
    · have hbelow : k < n := by omega
      have hmul : size * (k + 1) ≤ size * n := Nat.mul_le_mul_left size hbelow
      rw [Nat.mul_succ] at hmul
      rw [load_store_apart _ _ (by omega), ih hbelow]

/-- A number apart from the table. -/
theorem load_storeTable_apart {n a m : ℕ} (h : a + m ≤ base ∨ base + size * n ≤ a) :
    load (storeTable mem base size value n) a m = load mem a m :=
  load_congr fun _ _ _ => storeTable_outside mem base size value (by omega)

end Bytes
