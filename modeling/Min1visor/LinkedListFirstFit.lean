import Min1visor.LinkedListConservation

/-!
# Exact first fit

An allocation takes the first region that holds the block at its first aligned address and
leaves behind it nothing or enough for a node. A block that was freed is the first region of
the list, and it fits the next request of its size exactly.
-/
namespace Min1visor.LinkedList

/-! ## Which regions hold a block -/

/-- The first multiple of an alignment from an address on. -/
def firstAligned (addr align : ℕ) : ℕ := (addr + align - 1) / align * align

/-- The region holds the block at its first aligned address, and what is left behind the
block is nothing or enough for a node. -/
def Accommodates (region : ListNode) (size align : ℕ) : Prop :=
  firstAligned region.start align + size = region.stop ∨
    firstAligned region.start align + size + listNodeSize ≤ region.stop

instance (region : ListNode) (size align : ℕ) : Decidable (Accommodates region size align) :=
  inferInstanceAs (Decidable (_ ∨ _))

/-- The free region behind the block. -/
def leftover (region : ListNode) (size align : ℕ) : List ListNode :=
  if firstAligned region.start align + size = region.stop then []
  else [⟨firstAligned region.start align + size,
    region.stop - (firstAligned region.start align + size)⟩]

theorem firstAligned_spec {align : ℕ} (h : 0 < align) (addr : ℕ) :
    align ∣ firstAligned addr align ∧ addr ≤ firstAligned addr align ∧
      firstAligned addr align < addr + align := by
  have hdiv := Nat.div_add_mod (addr + align - 1) align
  have hlt := Nat.mod_lt (addr + align - 1) h
  rw [Nat.mul_comm] at hdiv
  refine ⟨Nat.dvd_mul_left _ _, ?_, ?_⟩
  · unfold firstAligned
    omega
  · unfold firstAligned
    omega

/-- There is one multiple in a step. -/
theorem firstAligned_eq {addr align c : ℕ} (h : 0 < align) (hdvd : align ∣ c) (hle : addr ≤ c)
    (hlt : c < addr + align) : firstAligned addr align = c := by
  obtain ⟨q, rfl⟩ := hdvd
  have hquot : (addr + align - 1) / align = q := by
    rw [Nat.mul_comm] at hle hlt
    apply Nat.div_eq_of_lt_le
    · omega
    · rw [Nat.succ_mul]
      omega
  rw [firstAligned, hquot, Nat.mul_comm]

/-- The rounding aborts where the first aligned address leaves the address space. -/
theorem alignUp_eq {addr align : ℕ} (haddr : addr < 2 ^ 64) (halign : 0 < align) :
    alignUp addr align = if firstAligned addr align < 2 ^ 64 then .ok (firstAligned addr align)
      else .error .overflow := by
  unfold alignUp Checked.nextMultipleOf
  rw [if_neg halign.ne']
  by_cases hmod : addr % align = 0
  · have hfirst : firstAligned addr align = addr :=
      firstAligned_eq halign (Nat.dvd_of_mod_eq_zero hmod) le_rfl (by omega)
    rw [if_pos hmod, hfirst, if_pos haddr]
  · have hlt := Nat.mod_lt addr halign
    have hfirst : firstAligned addr align = addr + (align - addr % align) := by
      refine firstAligned_eq halign ⟨addr / align + 1, ?_⟩ (by omega) (by omega)
      have hdiv := Nat.div_add_mod addr align
      rw [Nat.mul_add, Nat.mul_one]
      omega
    rw [if_neg hmod, hfirst]
    rfl

/-- What is tested for one region. -/
theorem validateRegion_eq {region : ListNode} {size align : ℕ} (hstop : region.stop < 2 ^ 64)
    (halign : 0 < align) :
    validateRegion region size align =
      if firstAligned region.start align < 2 ^ 64 then
        .ok (if Accommodates region size align then some (firstAligned region.start align) else none)
      else .error .overflow := by
  have hstart : region.start < 2 ^ 64 := by
    unfold Extent.stop at hstop
    omega
  have hend : Checked.add 64 region.start region.size = .ok region.stop := Checked.add_ok hstop
  rw [validateRegion, alignUp_eq hstart halign]
  by_cases hfirst : firstAligned region.start align < 2 ^ 64
  swap
  · rw [if_neg hfirst, if_neg hfirst]
    rfl
  rw [if_pos hfirst, if_pos hfirst, Checked.ok_bind, Checked.checkedAdd]
  have hholds : Accommodates region size align ↔
      firstAligned region.start align + size = region.stop ∨
        firstAligned region.start align + size + 16 ≤ region.stop := Iff.rfl
  generalize firstAligned region.start align = start at *
  by_cases hadd : start + size < 2 ^ 64
  swap
  · rw [if_neg hadd, if_neg (by rw [hholds]; omega)]
    rfl
  rw [if_pos hadd]
  dsimp only
  rw [hend, Checked.ok_bind]
  by_cases hfits : start + size > region.stop
  · rw [if_pos hfits, if_neg (by rw [hholds]; omega)]
    rfl
  rw [if_neg hfits, Checked.sub_ok (not_lt.mp hfits), Checked.ok_bind]
  by_cases htail : region.stop - (start + size) > 0 ∧ region.stop - (start + size) < listNodeSize
  · rw [if_pos htail, if_neg]
    · rfl
    · rw [listNodeSize] at htail
      rw [hholds]
      omega
  · rw [if_neg htail, if_pos]
    · rfl
    · rw [listNodeSize] at htail
      rw [hholds]
      omega

/-! ## The search -/

/-- The search comes to this region. -/
def Reaches (l : List ListNode) (size align : ℕ) (region : ListNode) : Prop :=
  ∃ pre post, l = pre ++ region :: post ∧ ∀ r ∈ pre, ¬ Accommodates r size align

/-- The search ends without a fault when every region that it comes to can be aligned. -/
theorem findAndTakeRegion_ne_error {size align : ℕ} (halign : 0 < align) {l : List ListNode}
    (hstop : ∀ r ∈ l, r.stop < 2 ^ 64)
    (hreach : ∀ r, Reaches l size align r → firstAligned r.start align < 2 ^ 64) :
    ∃ found, findAndTakeRegion size align l = .ok found := by
  induction l with
  | nil => exact ⟨none, rfl⟩
  | cons region next ih =>
    rw [List.forall_mem_cons] at hstop
    have hfirst := hreach region ⟨[], next, rfl, by simp⟩
    rw [findAndTakeRegion, validateRegion_eq hstop.1 halign, if_pos hfirst, Checked.ok_bind]
    by_cases hholds : Accommodates region size align
    · rw [if_pos hholds]
      exact ⟨_, rfl⟩
    · rw [if_neg hholds]
      have hnext : ∀ r, Reaches next size align r → firstAligned r.start align < 2 ^ 64 := by
        rintro r ⟨pre, post, hl, hpre⟩
        exact hreach r ⟨region :: pre, post, congrArg (region :: ·) hl,
          List.forall_mem_cons.mpr ⟨hholds, hpre⟩⟩
      obtain ⟨found, hfound⟩ := ih hstop.2 hnext
      dsimp only
      rw [hfound]
      cases found with
      | none => exact ⟨none, rfl⟩
      | some taken => exact ⟨_, rfl⟩

/-- A region that was tested without a fault. -/
theorem validateRegion_ok_iff {region : ListNode} {size align : ℕ} (hstop : region.stop < 2 ^ 64)
    (halign : 0 < align) (found : Option ℕ) :
    validateRegion region size align = .ok found ↔ firstAligned region.start align < 2 ^ 64 ∧
      found = if Accommodates region size align then some (firstAligned region.start align)
        else none := by
  rw [validateRegion_eq hstop halign]
  by_cases hfirst : firstAligned region.start align < 2 ^ 64
  · rw [if_pos hfirst, Except.ok.injEq]
    exact ⟨fun h => ⟨hfirst, h.symm⟩, fun h => h.2.symm⟩
  · rw [if_neg hfirst]
    exact ⟨nofun, fun h => absurd h.1 hfirst⟩

/-- A search that returns came only to regions that can be aligned; it took the first one
that holds the block, or there is none. -/
theorem findAndTakeRegion_exact {size align : ℕ} (halign : 0 < align) {l : List ListNode}
    (hstop : ∀ r ∈ l, r.stop < 2 ^ 64) {found : Option (ListNode × ℕ × List ListNode)}
    (h : findAndTakeRegion size align l = .ok found) :
    (∀ r, Reaches l size align r → firstAligned r.start align < 2 ^ 64) ∧
      ((found = none ∧ ∀ r ∈ l, ¬ Accommodates r size align) ∨
        ∃ pre region post, l = pre ++ region :: post ∧
          (∀ r ∈ pre, ¬ Accommodates r size align) ∧ Accommodates region size align ∧
          found = some (region, firstAligned region.start align, pre ++ post)) := by
  have hrefused : ∀ r ∈ l, validateRegion r size align = .ok none →
      firstAligned r.start align < 2 ^ 64 ∧ ¬ Accommodates r size align := by
    intro r hr hnone
    obtain ⟨hfirst, hfound⟩ := (validateRegion_ok_iff (hstop r hr) halign none).mp hnone
    refine ⟨hfirst, fun hholds => ?_⟩
    rw [if_pos hholds] at hfound
    cases hfound
  rcases findAndTakeRegion_eq_ok h with ⟨rfl, hnone⟩ | ⟨pre, region, post, s, rfl, rfl, hpre, hs⟩
  · refine ⟨?_, .inl ⟨rfl, fun r hr => (hrefused r hr (hnone r hr)).2⟩⟩
    rintro r ⟨pre, post, rfl, -⟩
    exact (hrefused r (by simp) (hnone r (by simp))).1
  · obtain ⟨hfirst, hfound⟩ := (validateRegion_ok_iff (hstop region (by simp)) halign (some s)).mp hs
    have hholds : Accommodates region size align := by
      by_contra hnot
      rw [if_neg hnot] at hfound
      cases hfound
    rw [if_pos hholds, Option.some.injEq] at hfound
    refine ⟨?_, .inr ⟨pre, region, post, rfl, ?_, hholds, by rw [hfound]⟩⟩
    · rintro r ⟨pre', post', hl, hpre'⟩
      -- The region that was taken is not one of those passed on the way to `r`.
      rcases List.append_eq_append_iff.mp hl with ⟨mid, hmid, hrest⟩ | ⟨mid, hmid, hrest⟩
      · cases mid with
        | nil =>
          obtain ⟨rfl, -⟩ := List.cons.inj hrest
          exact hfirst
        | cons x mid =>
          obtain ⟨rfl, -⟩ := List.cons.inj hrest
          exact absurd hholds (hpre' _ (by simp [hmid]))
      · cases mid with
        | nil =>
          obtain ⟨rfl, -⟩ := List.cons.inj hrest
          exact hfirst
        | cons x mid =>
          obtain ⟨rfl, -⟩ := List.cons.inj hrest
          have hx : r ∈ pre := by simp [hmid]
          exact (hrefused r (by simp [hx]) (hpre r hx)).1
    · intro r hr
      exact (hrefused r (by simp [hr]) (hpre r hr)).2

/-! ## Rounding of sizes -/

/-- The rounding aborts where the rounded size leaves the type. -/
theorem sizeAlign_cases {size : ℕ} (align : ℕ) (hsize : size < 2 ^ 64) :
    (roundedSize size < 2 ^ 64 ∧ sizeAlign size align = .ok (roundedSize size, max align 8)) ∨
      (2 ^ 64 ≤ roundedSize size ∧ sizeAlign size align = .error .overflow) := by
  have hround : firstAligned (max size listNodeSize) listNodeAlign = roundedSize size := rfl
  have hmax : max size listNodeSize < 2 ^ 64 := by
    unfold listNodeSize
    omega
  rw [sizeAlign, alignUp_eq hmax (by decide), hround]
  by_cases hlt : roundedSize size < 2 ^ 64
  · rw [if_pos hlt]
    exact .inl ⟨hlt, rfl⟩
  · rw [if_neg hlt]
    exact .inr ⟨not_lt.mp hlt, rfl⟩

/-! ## Freed blocks -/

/-- A region of the size of the block at an aligned address is taken as a whole. -/
theorem alloc_exact {start size align : ℕ} {l : List ListNode}
    (hsum : start + roundedSize size < 2 ^ 64)
    (hdvd : max align 8 ∣ start) :
    alloc ⟨⟨start, roundedSize size⟩ :: l⟩ size align = .ok (start, ⟨l⟩) := by
  have halign : 0 < max align 8 := by omega
  have hle := (le_roundedSize size).1
  have hfirst : firstAligned start (max align 8) = start :=
    firstAligned_eq halign hdvd le_rfl (by omega)
  have hvalid : validateRegion ⟨start, roundedSize size⟩ (roundedSize size) (max align 8) =
      .ok (some start) := by
    have hstop : (⟨start, roundedSize size⟩ : ListNode).stop < 2 ^ 64 := hsum
    refine (validateRegion_ok_iff hstop halign _).mpr ⟨?_, ?_⟩
    · rw [hfirst]
      omega
    · rw [if_pos, hfirst]
      exact .inl (by rw [hfirst]; rfl)
  rcases sizeAlign_cases align (show size < 2 ^ 64 by omega) with ⟨-, hsize⟩ | ⟨hover, -⟩
  · simp [alloc, hsize, findAndTakeRegion, hvalid, Checked.checkedAdd_some hsum, Checked.add_ok hsum,
      Checked.sub_ok]
  · omega

/-- A block that was handed out ends in the address space. -/
theorem alloc_sum_lt {a a' : LinkedListAllocator} {size align ptr : ℕ}
    (h : alloc a size align = .ok (ptr, a')) (hptr : ptr ≠ 0) : ptr + roundedSize size < 2 ^ 64 := by
  obtain ⟨⟨s, l⟩, hsize, h⟩ := Checked.bind_eq_ok.mp h
  obtain ⟨rfl, rfl⟩ := sizeAlign_eq_ok hsize
  obtain ⟨found, -, h⟩ := Checked.bind_eq_ok.mp h
  cases found with
  | none =>
    cases h
    exact absurd rfl hptr
  | some taken =>
    obtain ⟨region, start, rest⟩ := taken
    by_cases hsum : start + roundedSize size < 2 ^ 64
    · simp only [Checked.checkedAdd_some hsum, Checked.bind_eq_ok] at h
      obtain ⟨_, -, _, -, h⟩ := h
      have hstart : ptr = start := by
        rcases Checked.ite_eq_ok h with h | h
        · obtain ⟨_, -, h⟩ := Checked.bind_eq_ok.mp h
          cases h
          rfl
        · cases h
          rfl
      rwa [hstart]
    · simp only [Checked.checkedAdd, if_neg hsum] at h
      cases h

/-- What was allocated and freed, with any alignment passed to the freeing call, is returned
for every size that rounds to the same one and every alignment that it has; then the free
list is as it was after the first allocation. -/
theorem freed_block_reused (a a' : LinkedListAllocator) (size k p : ℕ)
    (halloc : alloc a size (2 ^ k) = .ok (p, a')) (hp : p ≠ 0) (freeAlign size' k' : ℕ)
    (hsame : roundedSize size' = roundedSize size) (hdvd : 2 ^ k' ∣ p) :
    ∃ freed, deallocAligned a' p size freeAlign = .ok freed ∧
      alloc freed size' (2 ^ k') = .ok (p, a') := by
  have hsum := alloc_sum_lt halloc hp
  have hround := le_roundedSize size
  rcases alloc_eq_ok halloc with ⟨hnull, -⟩ | ⟨_, _, _, -, -, hfits, -, -⟩
  · exact absurd hnull hp
  have h8 : 8 ∣ p := (eight_dvd_max_of_two_pow k).1.trans hfits.aligned
  have hmax : max (2 ^ k') 8 ∣ p := by
    rcases le_total (2 ^ k') 8 with hle | hle
    · rwa [max_eq_right hle]
    · rwa [max_eq_left hle]
  refine ⟨⟨⟨p, roundedSize size⟩ :: a'.head⟩, ?_, ?_⟩
  · rcases sizeAlign_cases freeAlign (show size < 2 ^ 64 by omega) with ⟨-, hsize⟩ | ⟨hover, -⟩
    · rw [deallocAligned, hsize, Checked.ok_bind]
      exact addFreeRegion_ok a' h8 hround.2
    · omega
  · rw [← hsame]
    exact alloc_exact (hsame ▸ hsum) hmax

/-- A small block with a high alignment, requested again with a smaller one. -/
theorem freed_block_reused_small : ∃ a' freed,
    alloc ⟨[⟨0x50000008, 0x10000⟩]⟩ 0x20 (2 ^ 12) = .ok (0x50001000, a') ∧
      deallocAligned a' 0x50001000 0x20 1 = .ok freed ∧
      alloc freed 0x1D (2 ^ 4) = .ok (0x50001000, a') := by
  obtain ⟨a', halloc⟩ : ∃ a', alloc ⟨[⟨0x50000008, 0x10000⟩]⟩ 0x20 (2 ^ 12) =
      .ok (0x50001000, a') := ⟨_, rfl⟩
  obtain ⟨freed, hfree, hagain⟩ := freed_block_reused _ a' 0x20 12 0x50001000 halloc (by decide) 1
    0x1D 4 (by decide) (by decide)
  exact ⟨a', freed, halloc, hfree, hagain⟩

end Min1visor.LinkedList
