import Min1visor.Library.Bytes
import Mathlib.Logic.Function.Basic

/-!
# Arrays next to a memory

A memory and a family of arrays of bytes; a transfer copies a range of one array to
the memory or back. Such arrays are kept in one space of bytes when every cell of
every array has a place of its own. A transfer whose cells lie one behind the other
is then one copy between the memory and the space, and no other place changes.
-/
namespace Transfers

/-- A range of an array and the address in memory that it is copied to or from. -/
structure Transfer (ι : Type) where
  array : ι
  isWrite : Bool
  buffer : ℕ
  offset : ℕ
  length : ℕ

structure Arrays (ι : Type) where
  mem : Bytes
  array : ι → Bytes

section Arrays
variable {ι : Type} [DecidableEq ι]

/-- A write copies from the memory to the array, a read back. -/
def Arrays.transfer (s : Arrays ι) (t : Transfer ι) : Arrays ι :=
  if t.isWrite then
    { s with
      array := Function.update s.array t.array
        (Bytes.copy (s.array t.array) s.mem t.offset t.buffer t.length) }
  else { s with mem := Bytes.copy s.mem (s.array t.array) t.buffer t.offset t.length }

theorem Arrays.transfer_write (s : Arrays ι) {t : Transfer ι} (h : t.isWrite = true) :
    s.transfer t =
      { s with
        array := Function.update s.array t.array
          (Bytes.copy (s.array t.array) s.mem t.offset t.buffer t.length) } := if_pos h

theorem Arrays.transfer_read (s : Arrays ι) {t : Transfer ι} (h : t.isWrite = false) :
    s.transfer t =
      { s with mem := Bytes.copy s.mem (s.array t.array) t.buffer t.offset t.length } :=
  if_neg (by simp [h])

/-- A transfer between memories that agree on some addresses, its buffer among them. -/
theorem Arrays.transfer_congr (s : Arrays ι) {mem : Bytes} {t : Transfer ι} {data : ℕ → Prop}
    (hsame : ∀ x, data x → mem x = s.mem x)
    (hbuffer : ∀ x, t.buffer ≤ x → x < t.buffer + t.length → data x) :
    (Arrays.transfer ⟨mem, s.array⟩ t).array = (s.transfer t).array ∧
      ∀ x, data x → (Arrays.transfer ⟨mem, s.array⟩ t).mem x = (s.transfer t).mem x := by
  cases hwrite : t.isWrite with
  | true =>
    have hcopy : Bytes.copy (s.array t.array) mem t.offset t.buffer t.length =
        Bytes.copy (s.array t.array) s.mem t.offset t.buffer t.length := by
      ext x
      by_cases hin : t.offset ≤ x ∧ x < t.offset + t.length
      · rw [Bytes.copy, Bytes.copy, if_pos hin, if_pos hin,
          hsame _ (hbuffer _ (by omega) (by omega))]
      · rw [Bytes.copy_outside _ _ _ hin, Bytes.copy_outside _ _ _ hin]
    rw [Arrays.transfer_write _ hwrite, Arrays.transfer_write _ hwrite, hcopy]
    exact ⟨rfl, hsame⟩
  | false =>
    rw [Arrays.transfer_read _ hwrite, Arrays.transfer_read _ hwrite]
    refine ⟨rfl, fun x hx => ?_⟩
    dsimp only
    rw [Bytes.copy, Bytes.copy, hsame x hx]

/-- Transfers one after another, each with the memory that it finds. The answers are the
lengths and what the memories become. -/
def serve : (ι → Bytes) → List (Bytes × Transfer ι) → List (ℕ × Bytes) × (ι → Bytes)
  | array, [] => ([], array)
  | array, (mem, t) :: calls =>
    let s := Arrays.transfer ⟨mem, array⟩ t
    let (answers, array) := serve s.array calls
    ((t.length, s.mem) :: answers, array)

end Arrays

/-- Where the cells of the arrays are kept; different cells have different places. -/
structure Placement (ι : Type) where
  size : ι → ℕ
  place : ι → ℕ → ℕ
  apart : ∀ a b i j, i < size a → j < size b → place a i = place b j → a = b ∧ i = j

namespace Placement

variable {ι : Type} (p : Placement ι)

/-- The space holds the arrays. -/
def Shows (space : Bytes) (array : ι → Bytes) : Prop :=
  ∀ a i, i < p.size a → space (p.place a i) = array a i

/-- An address that no cell is kept at. -/
def Free (x : ℕ) : Prop := ∀ a i, i < p.size a → p.place a i ≠ x

/-- A range of an array whose cells lie one behind the other. -/
structure Straight (a : ι) (offset length : ℕ) : Prop where
  inside : offset + length ≤ p.size a
  place : ∀ i, i < length → p.place a (offset + i) = p.place a offset + i

variable {p} {space mem : Bytes} {array : ι → Bytes} {a : ι} {offset length : ℕ}

/-- The extent of a straight range holds the cells of the range and no others. -/
theorem Straight.mem_extent (h : p.Straight a offset length) {b : ι} {i : ℕ} (hi : i < p.size b) :
    (p.place a offset ≤ p.place b i ∧ p.place b i < p.place a offset + length) ↔
      b = a ∧ offset ≤ i ∧ i < offset + length := by
  have hinside := h.inside
  constructor
  · rintro ⟨hlow, hhigh⟩
    have hplace := h.place (p.place b i - p.place a offset) (by omega)
    rw [Nat.add_sub_cancel' hlow] at hplace
    obtain ⟨rfl, hi⟩ := p.apart a b _ i (by omega) hi hplace
    exact ⟨rfl, by omega⟩
  · rintro ⟨rfl, hlow, hhigh⟩
    have hplace := h.place (i - offset) (by omega)
    rw [Nat.add_sub_cancel' hlow] at hplace
    omega

/-- A copy to the extent of a straight range changes the range of the array. -/
theorem Shows.write [DecidableEq ι] (hshows : p.Shows space array)
    (h : p.Straight a offset length) (buffer : ℕ) :
    p.Shows (Bytes.copy space mem (p.place a offset) buffer length)
      (Function.update array a (Bytes.copy (array a) mem offset buffer length)) := by
  intro b i hi
  by_cases hin : p.place a offset ≤ p.place b i ∧ p.place b i < p.place a offset + length
  · obtain ⟨rfl, hlow, hhigh⟩ := (h.mem_extent hi).mp hin
    have hplace := h.place (i - offset) (by omega)
    rw [Nat.add_sub_cancel' hlow] at hplace
    rw [Function.update_self, Bytes.copy, Bytes.copy, if_pos hin, if_pos ⟨hlow, hhigh⟩, hplace,
      Nat.add_sub_cancel_left]
  · rw [Bytes.copy_outside _ _ _ hin, hshows b i hi]
    by_cases hb : b = a
    · subst hb
      have hout : ¬ (offset ≤ i ∧ i < offset + length) := fun hrange =>
        hin ((h.mem_extent hi).mpr ⟨rfl, hrange⟩)
      rw [Function.update_self, Bytes.copy_outside _ _ _ hout]
    · rw [Function.update_of_ne hb]

/-- A free address keeps its byte. -/
theorem Free.write {x : ℕ} (hfree : p.Free x) (h : p.Straight a offset length) (buffer : ℕ) :
    Bytes.copy space mem (p.place a offset) buffer length x = space x := by
  apply Bytes.copy_outside
  rintro ⟨hlow, hhigh⟩
  have hinside := h.inside
  have hplace := h.place (x - p.place a offset) (by omega)
  rw [Nat.add_sub_cancel' hlow] at hplace
  exact hfree a _ (by omega) hplace

/-- A copy from the extent of a straight range is one of the range of the array. -/
theorem Shows.read (hshows : p.Shows space array) (h : p.Straight a offset length)
    (buffer : ℕ) :
    Bytes.copy mem space buffer (p.place a offset) length =
      Bytes.copy mem (array a) buffer offset length := by
  ext x
  have hinside := h.inside
  by_cases hin : buffer ≤ x ∧ x < buffer + length
  · rw [Bytes.copy, Bytes.copy, if_pos hin, if_pos hin, ← h.place _ (by omega),
      hshows a _ (by omega)]
  · rw [Bytes.copy_outside _ _ _ hin, Bytes.copy_outside _ _ _ hin]

end Placement

end Transfers
