import Mathlib.Data.Nat.Basic
import Mathlib.Tactic

/-!
# Spaces of bytes

A space of bytes is a function on addresses: a memory or the content of a disk.
Copying between two of them replaces one extent and leaves the rest.
-/

/-- The bytes of a memory or of a disk. -/
abbrev Bytes := ℕ → UInt8

namespace Bytes

/-- `len` bytes of `src` from address `source` on, copied over `dst` at `target`. -/
def copy (dst src : Bytes) (target source len : ℕ) : Bytes := fun a =>
  if target ≤ a ∧ a < target + len then src (source + (a - target)) else dst a

theorem copy_inside (dst src : Bytes) (target source : ℕ) {len i : ℕ} (h : i < len) :
    copy dst src target source len (target + i) = src (source + i) := by
  have hin : target ≤ target + i ∧ target + i < target + len := by omega
  rw [copy, if_pos hin, Nat.add_sub_cancel_left]

theorem copy_outside (dst src : Bytes) {target len a : ℕ} (source : ℕ)
    (h : ¬ (target ≤ a ∧ a < target + len)) : copy dst src target source len a = dst a := if_neg h

@[simp] theorem copy_zero (dst src : Bytes) (target source : ℕ) :
    copy dst src target source 0 = dst := by
  ext a
  rw [copy, if_neg (by omega)]

/-- The number in the `n` bytes from an address on, least significant first. -/
def load (mem : Bytes) : ℕ → ℕ → ℕ
  | _, 0 => 0
  | a, n + 1 => (mem a).toNat + 256 * load mem (a + 1) n

/-- The low `n` bytes of a number written from an address on. -/
def store (mem : Bytes) (a n value : ℕ) : Bytes := fun x =>
  if a ≤ x ∧ x < a + n then UInt8.ofNat (value / 256 ^ (x - a)) else mem x

theorem load_lt (mem : Bytes) (a n : ℕ) : load mem a n < 256 ^ n := by
  induction n generalizing a with
  | zero => exact Nat.one_pos
  | succ n ih =>
    have hbyte : (mem a).toNat < 256 := (mem a).toNat_lt
    have hrest := ih (a + 1)
    rw [load, pow_succ]
    omega

/-- A number depends on its bytes only. -/
theorem load_congr {mem mem' : Bytes} {a n : ℕ} (h : ∀ x, a ≤ x → x < a + n → mem x = mem' x) :
    load mem a n = load mem' a n := by
  induction n generalizing a with
  | zero => rfl
  | succ n ih =>
    rw [load, load, h a le_rfl (by omega), ih fun x hx hlt => h x (by omega) (by omega)]

/-- A number among bytes that were copied. -/
theorem load_copy (dst src : Bytes) (target source : ℕ) {len i n : ℕ} (h : i + n ≤ len) :
    load (copy dst src target source len) (target + i) n = load src (source + i) n := by
  induction n generalizing i with
  | zero => rfl
  | succ n ih =>
    rw [load, load, copy_inside dst src target source (show i < len by omega), Nat.add_assoc,
      Nat.add_assoc, ih (by omega)]

/-- The part of a stored number from one of its bytes on. -/
theorem load_store_from (mem : Bytes) (a value : ℕ) {i n size : ℕ} (h : i + n ≤ size) :
    load (store mem a size value) (a + i) n = value / 256 ^ i % 256 ^ n := by
  induction n generalizing i with
  | zero => simp [load, Nat.mod_one]
  | succ n ih =>
    have hbyte : (store mem a size value (a + i)).toNat = value / 256 ^ i % 256 := by
      rw [store, if_pos (by omega), Nat.add_sub_cancel_left]
      exact UInt8.toNat_ofNat'
    rw [load, hbyte, Nat.add_assoc, ih (by omega), pow_succ 256 n, Nat.mul_comm (256 ^ n) 256,
      Nat.mod_mul, Nat.div_div_eq_div_mul, ← pow_succ]

/-- A number that was stored. -/
theorem load_store (mem : Bytes) (a n value : ℕ) :
    load (store mem a n value) a n = value % 256 ^ n := by
  have h := load_store_from mem a value (show 0 + n ≤ n by omega)
  rwa [Nat.add_zero, pow_zero, Nat.div_one] at h

theorem store_outside (mem : Bytes) {a n x : ℕ} (value : ℕ) (h : x < a ∨ a + n ≤ x) :
    store mem a n value x = mem x := if_neg (by omega)

/-- A number apart from a store. -/
theorem load_store_apart (mem : Bytes) {a n b m : ℕ} (value : ℕ) (h : b + m ≤ a ∨ a + n ≤ b) :
    load (store mem a n value) b m = load mem b m :=
  load_congr fun x _ _ => store_outside mem value (by omega)

end Bytes
