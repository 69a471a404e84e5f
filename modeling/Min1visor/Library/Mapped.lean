import Mathlib.Data.List.Basic
import Mathlib.Tactic

/-!
# Memory with unmapped addresses

A memory maps some of the addresses to bytes; reading another one is a fault. What a
program computes from the bytes of a range, and from nothing else, it also computes in a
memory that is mapped nowhere else.
-/

/-- The bytes of the mapped addresses. -/
abbrev Mapped := ℕ → Option UInt8

namespace Mapped

variable {mem mem' : Mapped}

/-- The bytes lie one after another from an address on. -/
def Has (mem : Mapped) : ℕ → List UInt8 → Prop
  | _, [] => True
  | a, b :: bs => mem a = some b ∧ Has mem (a + 1) bs

/-- The `n` bytes from an address on, if all are mapped. -/
def bytesAt (mem : Mapped) : ℕ → ℕ → Option (List UInt8)
  | _, 0 => some []
  | a, n + 1 => do
    let b ← mem a
    let bs ← bytesAt mem (a + 1) n
    return b :: bs

/-- The memory with these bytes from an address on, and nothing else. -/
def ofBytes (base : ℕ) (bs : List UInt8) : Mapped := fun a =>
  if base ≤ a then bs[a - base]? else none

/-- The computation reads an address: where that is not mapped, it comes to something else. -/
def Reads {α : Type*} (run : Mapped → α) (mem : Mapped) (a : ℕ) : Prop :=
  run (Function.update mem a none) ≠ run mem

theorem has_append {a : ℕ} {xs ys : List UInt8} :
    mem.Has a (xs ++ ys) ↔ mem.Has a xs ∧ mem.Has (a + xs.length) ys := by
  induction xs generalizing a with
  | nil => simp [Has]
  | cons x xs ih =>
    have hlength : a + (x :: xs).length = a + 1 + xs.length := by
      rw [List.length_cons]
      omega
    rw [List.cons_append, Has, Has, ih, hlength, and_assoc]

theorem Has.bytesAt {a : ℕ} {bs : List UInt8} (h : mem.Has a bs) :
    mem.bytesAt a bs.length = some bs := by
  induction bs generalizing a with
  | nil => rfl
  | cons b bs ih =>
    rw [List.length_cons, Mapped.bytesAt, h.1, ih h.2]
    rfl

theorem Has.getElem {a i : ℕ} {bs : List UInt8} (h : mem.Has a bs) (hi : i < bs.length) :
    mem (a + i) = some bs[i] := by
  induction bs generalizing a i with
  | nil => exact absurd hi (Nat.not_lt_zero i)
  | cons b bs ih =>
    cases i with
    | zero => exact h.1
    | succ i =>
      rw [show a + (i + 1) = a + 1 + i by omega]
      exact ih h.2 (Nat.lt_of_succ_lt_succ hi)

/-- An address among bytes that are there is mapped. -/
theorem Has.mapped {a x : ℕ} {bs : List UInt8} (h : mem.Has a bs) (hle : a ≤ x)
    (hlt : x < a + bs.length) : ∃ b, mem x = some b := by
  obtain ⟨i, rfl⟩ := Nat.exists_eq_add_of_le hle
  exact ⟨_, h.getElem (by omega)⟩

/-- Bytes depend on their own addresses only. -/
theorem Has.congr {a : ℕ} {bs : List UInt8} (h : mem.Has a bs)
    (heq : ∀ x, a ≤ x → x < a + bs.length → mem' x = mem x) : mem'.Has a bs := by
  induction bs generalizing a with
  | nil => trivial
  | cons b bs ih =>
    rw [List.length_cons] at heq
    refine ⟨?_, ih h.2 fun x hx hlt => heq x (by omega) (by omega)⟩
    rw [heq a le_rfl (by omega)]
    exact h.1

/-- What comes out the same in every memory with these bytes is read from them alone. -/
theorem Has.mem_of_reads {α : Type*} {run : Mapped → α} {a x : ℕ} {bs : List UInt8}
    (h : mem.Has a bs) (hrun : ∀ mem', mem'.Has a bs → run mem' = run mem)
    (hreads : Reads run mem x) : a ≤ x ∧ x < a + bs.length := by
  by_contra hout
  refine hreads (hrun _ (h.congr fun y hle hlt => ?_))
  have hne : y ≠ x := by
    rintro rfl
    exact hout ⟨hle, hlt⟩
  exact Function.update_of_ne hne ..

theorem ofBytes_has_drop (base n : ℕ) (bs : List UInt8) :
    (ofBytes base bs).Has (base + n) (bs.drop n) := by
  generalize hrest : bs.drop n = rest
  induction rest generalizing n with
  | nil => trivial
  | cons b rest ih =>
    have hlt : n < bs.length := by
      by_contra hle
      rw [List.drop_eq_nil_of_le (not_lt.mp hle)] at hrest
      exact absurd hrest (List.cons_ne_nil b rest).symm
    rw [List.drop_eq_getElem_cons hlt, List.cons.injEq] at hrest
    refine ⟨?_, ih (n + 1) hrest.2⟩
    rw [ofBytes, if_pos (by omega), Nat.add_sub_cancel_left, List.getElem?_eq_getElem hlt, hrest.1]

theorem ofBytes_has (base : ℕ) (bs : List UInt8) : (ofBytes base bs).Has base bs :=
  ofBytes_has_drop base 0 bs

/-- Mapped addresses can be read together. -/
theorem bytesAt_of_mapped {a n : ℕ} (h : ∀ x, a ≤ x → x < a + n → ∃ b, mem x = some b) :
    ∃ bs, bs.length = n ∧ mem.bytesAt a n = some bs := by
  induction n generalizing a with
  | zero => exact ⟨[], rfl, rfl⟩
  | succ n ih =>
    obtain ⟨b, hb⟩ := h a le_rfl (by omega)
    obtain ⟨bs, hlength, hbs⟩ := ih (a := a + 1) fun x hx hlt => h x (by omega) (by omega)
    refine ⟨b :: bs, by rw [List.length_cons, hlength], ?_⟩
    rw [Mapped.bytesAt, hb, hbs]
    rfl

end Mapped
