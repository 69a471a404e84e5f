import Min1visor.VirtioBlkDriver
import Min1visor.Library.BitSet

/-!
# The descriptors of the block driver

Bit by bit, the bitmap of the driver is the set of the descriptors that are not allocated.
A descriptor is allocated at most once before it is freed, every request gives back the
three it takes, and so the next one finds all of them free.
-/
namespace Min1visor.VirtioDriver
open Virtio

namespace VirtioBlk

/-- The descriptor may be allocated. -/
def isFree (d : VirtioBlk) (index : ℕ) : Bool := (d.freeBitmap.getD (index / 8) 0).getLsbD (index % 8)

theorem isFree_of_bitmap {d d' : VirtioBlk} (h : d'.freeBitmap = d.freeBitmap) (index : ℕ) :
    d'.isFree index = d.isFree index := by rw [isFree, h, isFree]

/-! ## Allocating and freeing -/

theorem firstFree_some {bitmap : FixedArray (BitVec 8) 8} {index : ℕ}
    (h : firstFree bitmap = some index) :
    index < 64 ∧ (bitmap.getD (index / 8) 0).getLsbD (index % 8) = true := by
  obtain ⟨byte, hbyte, hfind⟩ := List.exists_of_findSome?_eq_some h
  obtain ⟨bit, hbit, rfl⟩ := Option.map_eq_some_iff.mp hfind
  have hset := List.find?_some hbit
  have hlt := List.mem_range.mp (List.mem_of_find?_eq_some hbit)
  have hbyte' := List.mem_range.mp hbyte
  refine ⟨by omega, ?_⟩
  rw [show (byte * 8 + bit) / 8 = byte by omega, show (byte * 8 + bit) % 8 = bit by omega]
  exact hset

theorem firstFree_none {bitmap : FixedArray (BitVec 8) 8} (h : firstFree bitmap = none) {index : ℕ}
    (hindex : index < 64) : (bitmap.getD (index / 8) 0).getLsbD (index % 8) = false := by
  have hbyte := List.findSome?_eq_none_iff.mp h (index / 8) (List.mem_range.mpr (by omega))
  have hbit := List.find?_eq_none.mp (Option.map_eq_none_iff.mp hbyte) (index % 8)
    (List.mem_range.mpr (Nat.mod_lt _ (by decide)))
  simpa using hbit

/-- The bitmap after one byte was rewritten, bit by bit. -/
theorem getLsbD_put {bitmap : FixedArray (BitVec 8) 8} {index : ℕ} (hindex : index < 64)
    {byte : BitVec 8}
    {p : Bool → Bool → Bool} (hbyte : ∀ i, byte.getLsbD i =
      p ((bitmap.getD (index / 8) 0).getLsbD i) (decide (index % 8 = i)))
    (hkeep : ∀ b, p b false = b) (j : ℕ) :
    ((bitmap.put (index / 8) byte).getD (j / 8) 0).getLsbD (j % 8) =
      p ((bitmap.getD (j / 8) 0).getLsbD (j % 8)) (decide (j = index)) := by
  rw [FixedArray.getD_put _ _ _ _ _ (show index / 8 < 8 by omega)]
  by_cases hsame : j / 8 = index / 8
  · rw [if_pos hsame, hbyte, hsame]
    congr 2
    exact propext ⟨fun h => by omega, fun h => by omega⟩
  · have hne : j ≠ index := fun h => hsame (by rw [h])
    rw [if_neg hsame, decide_eq_false hne, hkeep]

/-- Allocating finds a free descriptor, and takes exactly this one. -/
theorem allocateDescriptor_some {d d' : VirtioBlk} {index : ℕ}
    (h : d.allocateDescriptor = some (index, d')) :
    index < 64 ∧ d.isFree index = true ∧ (∀ j, d'.isFree j = (d.isFree j && !decide (j = index))) ∧
      d'.descriptors = d.descriptors := by
  obtain ⟨i, hi, heq⟩ := Option.map_eq_some_iff.mp h
  cases heq
  obtain ⟨hlt, hset⟩ := firstFree_some hi
  refine ⟨hlt, hset, fun j => ?_, rfl⟩
  refine getLsbD_put hlt (p := fun b e => b && !e) (fun i => ?_) (fun b => by simp) j
  rw [BitSet.getLsbD_erase]
  simp

theorem allocateDescriptor_none {d : VirtioBlk} (h : d.allocateDescriptor = none) {j : ℕ}
    (hj : j < 64) :
    d.isFree j = false :=
  firstFree_none (Option.map_eq_none_iff.mp h) hj

/-- Freeing makes exactly this descriptor free. -/
theorem freeDescriptor_ok {d d' : VirtioBlk} {index : ℕ} (h : d.freeDescriptor index = .ok d') :
    index < 64 ∧ ∀ j, d'.isFree j = (d.isFree j || decide (j = index)) := by
  unfold freeDescriptor at h
  split_ifs at h with hindex
  have hlt : index < 64 := hindex
  obtain ⟨bitmap, hbitmap, hd⟩ := Checked.bind_eq_ok.mp h
  cases hd
  obtain ⟨hbyte, rfl⟩ := FixedArray.lt_of_modify 0 hbitmap
  refine ⟨hlt, fun j => ?_⟩
  refine getLsbD_put hlt (p := fun b e => b || e) (fun i => ?_) (fun b => by simp) j
  have hmod : index &&& ((1 <<< 3) - 1) = index % 8 := Nat.and_two_pow_sub_one_eq_mod index 3
  rw [hmod, BitSet.getLsbD_insert _ (Nat.mod_lt _ (by decide))]

/-! ## The descriptors of a request -/

/-- The descriptor at an index, with a default outside of the table. -/
def descriptor (d : VirtioBlk) (index : ℕ) : VirtQueueDesc := d.descriptors.getD index ⟨0, 0, 0, 0⟩

/-- Rewriting a descriptor changes no other, and nothing in the bitmap. -/
theorem setDescriptor_eq_ok {d d' : VirtioBlk} {index : ℕ} {f : VirtQueueDesc → VirtQueueDesc}
    (h : d.setDescriptor index f = .ok d') :
    (∀ j, d'.descriptor j = if j = index then f (d.descriptor index) else d.descriptor j) ∧
      ∀ j, d'.isFree j = d.isFree j := by
  obtain ⟨descriptors, hmodify, hd⟩ := Checked.bind_eq_ok.mp h
  cases hd
  obtain ⟨hindex, rfl⟩ := FixedArray.lt_of_modify ⟨0, 0, 0, 0⟩ hmodify
  exact ⟨fun j => FixedArray.getD_put _ _ _ _ _ hindex, fun j => rfl⟩

/-- Three different descriptors of the table, each but the last leading to the next. -/
structure Linked (d : VirtioBlk) (first second third : ℕ) : Prop where
  inRange : first < 64 ∧ second < 64 ∧ third < 64
  distinct : first ≠ second ∧ first ≠ third ∧ second ≠ third
  first : (d.descriptor first).flags &&& virtQueueDescFlagsNext ≠ 0 ∧
    (d.descriptor first).next = second
  second : (d.descriptor second).flags &&& virtQueueDescFlagsNext ≠ 0 ∧
    (d.descriptor second).next = third
  third : (d.descriptor third).flags &&& virtQueueDescFlagsNext = 0

/-- Whatever is allocated before, a chain has three descriptors that were free and links them. -/
theorem chain_linked {d d' : VirtioBlk} {o : Operation} {first second third : ℕ}
    (h : d.chain o = .ok (some (first, second, third), d')) : d'.Linked first second third := by
  unfold chain at h
  cases h₁ : d.allocateDescriptor with
  | none => simp [h₁] at h
  | some found =>
    obtain ⟨i₁, d₁⟩ := found
    simp only [h₁] at h
    obtain ⟨e₁, hset₁, h⟩ := Checked.bind_eq_ok.mp h
    cases h₂ : e₁.allocateDescriptor with
    | none => simp [h₂] at h
    | some found =>
      obtain ⟨i₂, d₂⟩ := found
      simp only [h₂] at h
      obtain ⟨e₂, hset₂, h⟩ := Checked.bind_eq_ok.mp h
      obtain ⟨f₂, hnext₂, h⟩ := Checked.bind_eq_ok.mp h
      cases h₃ : f₂.allocateDescriptor with
      | none => simp [h₃] at h
      | some found =>
        obtain ⟨i₃, d₃⟩ := found
        simp only [h₃] at h
        obtain ⟨e₃, hset₃, h⟩ := Checked.bind_eq_ok.mp h
        obtain ⟨f₃, hnext₃, h⟩ := Checked.bind_eq_ok.mp h
        cases h
        obtain ⟨hlt₁, -, htaken₁, hsame₁⟩ := allocateDescriptor_some h₁
        obtain ⟨hlt₂, hfree₂, htaken₂, hsame₂⟩ := allocateDescriptor_some h₂
        obtain ⟨hlt₃, hfree₃, -, hsame₃⟩ := allocateDescriptor_some h₃
        obtain ⟨htable₁, hbits₁⟩ := setDescriptor_eq_ok hset₁
        obtain ⟨htable₂, hbits₂⟩ := setDescriptor_eq_ok hset₂
        obtain ⟨htable₂', hbits₂'⟩ := setDescriptor_eq_ok hnext₂
        obtain ⟨htable₃, -⟩ := setDescriptor_eq_ok hset₃
        obtain ⟨htable₃', -⟩ := setDescriptor_eq_ok hnext₃
        -- What is free later was not taken before.
        have hne₂ : second ≠ first := by
          rintro rfl
          simp [hbits₁, htaken₁] at hfree₂
        have hne₃ : third ≠ second := by
          rintro rfl
          simp [hbits₂', hbits₂, htaken₂] at hfree₃
        have hne₃' : third ≠ first := by
          rintro rfl
          simp [hbits₂', hbits₂, htaken₂, hbits₁, htaken₁] at hfree₃
        have hkept₂ (j : ℕ) : d₂.descriptor j = e₁.descriptor j := by
          rw [descriptor, hsame₂, descriptor]
        have hkept₃ (j : ℕ) : d₃.descriptor j = f₂.descriptor j := by
          rw [descriptor, hsame₃, descriptor]
        refine ⟨⟨hlt₁, hlt₂, hlt₃⟩, ⟨hne₂.symm, hne₃'.symm, hne₃.symm⟩, ?_, ?_, ?_⟩
        · simp [htable₃', htable₃, hkept₃, htable₂', htable₂, hkept₂, htable₁, hne₂.symm, hne₃'.symm,
            virtQueueDescFlagsNext]
        · simp [htable₃', htable₃, hkept₃, htable₂', htable₂, hne₂, hne₃.symm, virtQueueDescFlagsNext]
        · simp [htable₃', htable₃, hne₃, virtQueueDescFlagsNext, virtQueueDescFlagsWrite]

end VirtioBlk

/-! ## Runs of requests -/

theorem step_idle {d d' : VirtioBlk} {k : ℕ} (hd : d.Idle k) {o : Operation} (h : d.step o = .ok d') :
    ∃ k', d'.Idle k' := by
  obtain ⟨⟨result, d₁⟩, hsync, hd'⟩ := Checked.bind_eq_ok.mp h
  cases hd'
  by_cases ho : o.Aligned
  · by_cases hk : k + 1 < 2 ^ 16
    · obtain ⟨result', d₂, hok, hidle, -⟩ := VirtioBlk.operationSync_idle hd ho hk
      cases hok.symm.trans hsync
      exact ⟨k + 1, hidle⟩
    · rw [VirtioBlk.operationSync_overflow hd ho hk] at hsync
      cases hsync
  · rw [d.operationSync_unaligned ho] at hsync
    cases hsync
    exact ⟨k, hd⟩

/-! ## Runs of allocations -/

/-- The driver, with the descriptors that were allocated and not freed since. -/
structure Ledger where
  driver : VirtioBlk
  taken : Finset ℕ

/-- What may happen to the bitmap. -/
inductive Booking
  | allocate
  | free (index : ℕ)

namespace Ledger

def new : Ledger := ⟨.new, ∅⟩

def step (s : Ledger) : Booking → Except Panic Ledger
  | .allocate =>
    match s.driver.allocateDescriptor with
    | none => .ok s
    | some (index, driver) => .ok ⟨driver, insert index s.taken⟩
  | .free index => do return ⟨← s.driver.freeDescriptor index, s.taken.erase index⟩

/-- The bitmap is the complement of the descriptors taken. -/
def Balanced (s : Ledger) : Prop := ∀ j, j < 64 → (s.driver.isFree j = true ↔ j ∉ s.taken)

theorem step_balanced {s s' : Ledger} {b : Booking} (hs : s.Balanced) (h : s.step b = .ok s') :
    s'.Balanced := by
  cases b with
  | allocate =>
    simp only [step] at h
    cases halloc : s.driver.allocateDescriptor with
    | none =>
      rw [halloc] at h
      cases h
      exact hs
    | some found =>
      obtain ⟨index, driver⟩ := found
      rw [halloc] at h
      cases h
      obtain ⟨-, -, hbits, -⟩ := VirtioBlk.allocateDescriptor_some halloc
      intro j hj
      simp [hbits j, hs j hj, Finset.mem_insert, and_comm, not_or]
  | free index =>
    obtain ⟨driver, hfree, hs'⟩ := Checked.bind_eq_ok.mp h
    cases hs'
    obtain ⟨-, hbits⟩ := VirtioBlk.freeDescriptor_ok hfree
    intro j hj
    simp only [hbits j, Bool.or_eq_true, hs j hj, decide_eq_true_eq, Finset.mem_erase]
    tauto

theorem new_balanced : new.Balanced := by
  have hfree : ∀ j, j < 64 → VirtioBlk.new.isFree j = true := by decide
  intro j hj
  simp [new, hfree j hj]

/-- What is allocated was not taken, and nothing is allocated only when everything is taken. -/
theorem Balanced.allocate {s : Ledger} (hs : s.Balanced) :
    (∀ index driver, s.driver.allocateDescriptor = some (index, driver) →
      index < 64 ∧ index ∉ s.taken) ∧
      (s.driver.allocateDescriptor = none → ∀ j, j < 64 → j ∈ s.taken) := by
  constructor
  · intro index driver h
    obtain ⟨hlt, hfree, -⟩ := VirtioBlk.allocateDescriptor_some h
    exact ⟨hlt, (hs index hlt).mp hfree⟩
  · intro h j hj
    by_contra htaken
    have hfree := (hs j hj).mpr htaken
    rw [VirtioBlk.allocateDescriptor_none h hj] at hfree
    cases hfree

end Ledger

/-- In every run of calls, all descriptors are free between two of them and every request gets
three of them, linked; in every run of allocations, no descriptor is taken twice and all are
taken when there is none left. -/
theorem descriptors_booked_once :
    (∀ (calls : List Operation) (d : VirtioBlk), Runs.run VirtioBlk.step .new calls = .ok d →
      (∀ j, j < 64 → d.isFree j = true) ∧ ∀ o : Operation,
        ∃ first second third d', d.chain o = .ok (some (first, second, third), d') ∧
          d'.Linked first second third) ∧
    ∀ (bookings : List Booking) (s : Ledger), Runs.run Ledger.step .new bookings = .ok s →
      (∀ index driver, s.driver.allocateDescriptor = some (index, driver) →
        index < 64 ∧ index ∉ s.taken) ∧
      (s.driver.allocateDescriptor = none → ∀ j, j < 64 → j ∈ s.taken) := by
  constructor
  · intro calls d hrun
    obtain ⟨k, hidle⟩ := Runs.run_preserves (fun d => ∃ k, VirtioBlk.Idle d k)
      (fun d o d' ⟨k, hd⟩ h => step_idle hd h) calls .new d ⟨0, new_idle⟩ hrun
    constructor
    · have hnew : ∀ j, j < 64 → VirtioBlk.new.isFree j = true := by decide
      intro j hj
      rw [VirtioBlk.isFree_of_bitmap (d := .new) hidle.free]
      exact hnew j hj
    · intro o
      obtain ⟨descriptors, hchain, -⟩ := VirtioBlk.chain_idle hidle.free o
      exact ⟨_, _, _, _, hchain, VirtioBlk.chain_linked hchain⟩
  · intro bookings s hrun
    have hs := Runs.run_preserves Ledger.Balanced (fun s b s' => Ledger.step_balanced) bookings .new s
      Ledger.new_balanced hrun
    exact hs.allocate

end Min1visor.VirtioDriver
