import Min1visor.LinkedListSafety

/-!
# Conservation of the heap

An allocation that starts behind the start of its region leaves a gap before it, which
goes neither to the block nor back to the free list. The sum over all extents falls by
these gaps and never rises again.
-/
namespace Min1visor.LinkedList

/-! ## Calls that return -/

theorem addFreeRegion_eq_ok {a a' : LinkedListAllocator} {addr size : ℕ}
    (h : addFreeRegion a addr size = .ok a') :
    8 ∣ addr ∧ 16 ≤ size ∧ a' = ⟨⟨addr, size⟩ :: a.head⟩ := by
  obtain ⟨c, hc, h⟩ := Checked.bind_eq_ok.mp h
  obtain ⟨-, hdvd, -, -⟩ := Checked.nextMultipleOf_eq_ok hc
  by_cases haddr : c = addr
  · by_cases hsize : size < listNodeSize
    · simp [haddr, hsize] at h
    · simp [haddr, hsize] at h
      rw [haddr] at hdvd
      exact ⟨hdvd, Nat.le_of_not_lt hsize, h.symm⟩
  · simp [haddr] at h

theorem sizeAlign_eq_ok {size align s l : ℕ} (h : sizeAlign size align = .ok (s, l)) :
    s = roundedSize size ∧ l = max align 8 := by
  obtain ⟨c, hc, h⟩ := Checked.bind_eq_ok.mp h
  obtain ⟨-, ⟨q, rfl⟩, hle, hlt⟩ := Checked.nextMultipleOf_eq_ok hc
  cases h
  refine ⟨?_, rfl⟩
  unfold roundedSize
  unfold listNodeAlign at hle hlt ⊢
  omega

/-- A region that is accepted, and where the block starts in it. -/
theorem validateRegion_eq_ok {region : ListNode} {size align s : ℕ}
    (h : validateRegion region size align = .ok (some s)) :
    Fits region size align s ∧ (align ∣ region.start ↔ s = region.start) := by
  obtain ⟨c, hc, h⟩ := Checked.bind_eq_ok.mp h
  obtain ⟨hpos, hdvd, hle, hlt⟩ := Checked.nextMultipleOf_eq_ok hc
  cases hend : Checked.checkedAdd 64 c size with
  | none => simp [hend] at h
  | some allocEnd =>
    have hallocEnd : c + size = allocEnd := by
      unfold Checked.checkedAdd at hend
      split_ifs at hend
      exact Option.some.inj hend
    rw [hend] at h
    obtain ⟨stop, hstop, h⟩ := Checked.bind_eq_ok.mp h
    obtain ⟨-, rfl⟩ := Checked.add_eq_ok.mp hstop
    by_cases hfits : allocEnd > region.start + region.size
    · simp [hfits] at h
    · rw [if_neg hfits, Checked.sub_ok (Nat.le_of_not_lt hfits), Checked.ok_bind] at h
      by_cases htail : region.start + region.size - allocEnd > 0 ∧
          region.start + region.size - allocEnd < listNodeSize
      · simp [htail] at h
      · rw [if_neg htail] at h
        cases h
        rw [listNodeSize] at htail
        refine ⟨⟨hdvd, hle, ?_, ?_⟩, ?_, fun heq => heq ▸ hdvd⟩
        · rw [Extent.stop]
          omega
        · rw [Extent.stop]
          omega
        · -- A region that starts at a multiple leaves less than one step to round up.
          intro hstart
          obtain ⟨gap, hgap⟩ := (Nat.dvd_sub hdvd hstart)
          have hlt' : align * gap < align * 1 := by omega
          have hzero := Nat.lt_one_iff.mp (Nat.lt_of_mul_lt_mul_left hlt')
          rw [hzero] at hgap
          omega

/-- The region that first fit takes for a block. -/
def FirstFit (l : List ListNode) (size align : ℕ) (region : ListNode) : Prop :=
  ∃ pre post, l = pre ++ region :: post ∧ (∀ r ∈ pre, validateRegion r size align = .ok none) ∧
    ∃ s, validateRegion region size align = .ok (some s)

theorem findAndTakeRegion_append {size align : ℕ} {pre : List ListNode}
    (hpre : ∀ r ∈ pre, validateRegion r size align = .ok none) {region : ListNode} {s : ℕ}
    (hregion : validateRegion region size align = .ok (some s)) (post : List ListNode) :
    findAndTakeRegion size align (pre ++ region :: post) = .ok (some (region, s, pre ++ post)) := by
  induction pre with
  | nil => simp [findAndTakeRegion, hregion]
  | cons r pre ih =>
    rw [List.forall_mem_cons] at hpre
    simp [findAndTakeRegion, hpre.1, ih hpre.2]

/-- The two ways in which the search ends. -/
theorem findAndTakeRegion_eq_ok {size align : ℕ} {l : List ListNode}
    {r : Option (ListNode × ℕ × List ListNode)} (h : findAndTakeRegion size align l = .ok r) :
    (r = none ∧ ∀ region ∈ l, validateRegion region size align = .ok none) ∨
      ∃ pre region post s, l = pre ++ region :: post ∧ r = some (region, s, pre ++ post) ∧
        (∀ r ∈ pre, validateRegion r size align = .ok none) ∧
        validateRegion region size align = .ok (some s) := by
  induction l generalizing r with
  | nil =>
    cases h
    exact .inl ⟨rfl, by simp⟩
  | cons region next ih =>
    obtain ⟨v, hv, h⟩ := Checked.bind_eq_ok.mp h
    cases v with
    | some s =>
      cases h
      exact .inr ⟨[], region, next, s, rfl, rfl, by simp, hv⟩
    | none =>
      obtain ⟨t, ht, h⟩ := Checked.bind_eq_ok.mp h
      rcases ih ht with ⟨rfl, hnone⟩ | ⟨pre, taken, post, s, rfl, rfl, hpre, htaken⟩
      · cases h
        exact .inl ⟨rfl, List.forall_mem_cons.mpr ⟨hv, hnone⟩⟩
      · cases h
        exact .inr ⟨region :: pre, taken, post, s, rfl, rfl, List.forall_mem_cons.mpr ⟨hv, hpre⟩,
          htaken⟩

/-- There is at most one such region. -/
theorem FirstFit.unique {l : List ListNode} {size align : ℕ} {region region' : ListNode}
    (h : FirstFit l size align region) (h' : FirstFit l size align region') : region = region' := by
  obtain ⟨pre, post, rfl, hpre, s, hs⟩ := h
  obtain ⟨pre', post', heq, hpre', s', hs'⟩ := h'
  have hfind := findAndTakeRegion_append hpre hs post
  rw [heq, findAndTakeRegion_append hpre' hs' post'] at hfind
  simp only [Except.ok.injEq, Option.some.injEq, Prod.mk.injEq] at hfind
  exact hfind.1.symm

/-- The two ways in which `alloc` returns. -/
theorem alloc_eq_ok {a a' : LinkedListAllocator} {size align ptr : ℕ}
    (h : alloc a size align = .ok (ptr, a')) :
    (ptr = 0 ∧ a' = a ∧
      ∀ region, ¬ FirstFit a.head (roundedSize size) (max align 8) region) ∨
    ∃ pre region post, a.head = pre ++ region :: post ∧
      FirstFit a.head (roundedSize size) (max align 8) region ∧
      Fits region (roundedSize size) (max align 8) ptr ∧
      (max align 8 ∣ region.start ↔ ptr = region.start) ∧
      ((ptr + roundedSize size = region.stop ∧ a' = ⟨pre ++ post⟩) ∨
        (ptr + roundedSize size + 16 ≤ region.stop ∧
          a' = ⟨⟨ptr + roundedSize size, region.stop - (ptr + roundedSize size)⟩ :: (pre ++ post)⟩)) := by
  obtain ⟨⟨s, l⟩, hsize, h⟩ := Checked.bind_eq_ok.mp h
  obtain ⟨rfl, rfl⟩ := sizeAlign_eq_ok hsize
  obtain ⟨found, hfind, h⟩ := Checked.bind_eq_ok.mp h
  rcases findAndTakeRegion_eq_ok hfind with ⟨rfl, hnone⟩ | ⟨pre, region, post, s, hhead, rfl, hpre, hs⟩
  · cases h
    refine .inl ⟨rfl, rfl, ?_⟩
    rintro region ⟨pre, post, hhead, -, s, hs⟩
    have hregion := hnone region (by simp [hhead])
    rw [hs] at hregion
    cases hregion
  · obtain ⟨hfits, hstart⟩ := validateRegion_eq_ok hs
    have hupper := hfits.upper
    have htail := hfits.tail
    dsimp only at h
    cases hend : Checked.checkedAdd 64 s (roundedSize size) with
    | none => simp [hend] at h
    | some allocEnd =>
      have hallocEnd : s + roundedSize size = allocEnd := by
        unfold Checked.checkedAdd at hend
        split_ifs at hend
        exact Option.some.inj hend
      subst hallocEnd
      rw [hend] at h
      obtain ⟨stop, hstop, h⟩ := Checked.bind_eq_ok.mp h
      obtain ⟨-, rfl⟩ := Checked.add_eq_ok.mp hstop
      have hsub : Checked.sub (region.start + region.size) (s + roundedSize size) =
          .ok (region.stop - (s + roundedSize size)) := Checked.sub_ok hupper
      rw [hsub, Checked.ok_bind] at h
      by_cases hexcess : region.stop - (s + roundedSize size) > 0
      · rw [if_pos hexcess] at h
        obtain ⟨b, hb, h⟩ := Checked.bind_eq_ok.mp h
        obtain ⟨-, hlarge, rfl⟩ := addFreeRegion_eq_ok hb
        cases h
        exact .inr ⟨pre, region, post, hhead, ⟨pre, post, hhead, hpre, _, hs⟩, hfits, hstart,
          .inr ⟨by omega, rfl⟩⟩
      · rw [if_neg hexcess] at h
        cases h
        exact .inr ⟨pre, region, post, hhead, ⟨pre, post, hhead, hpre, _, hs⟩, hfits, hstart,
          .inl ⟨by omega, rfl⟩⟩

/-! ## The sum over all extents -/

/-- The sizes of the free regions and the rounded sizes of the live blocks. -/
def Heap.total (h : Heap) : ℕ :=
  (h.allocator.head.map Extent.size).sum + (h.live.map fun b => roundedSize b.size).sum

/-- A layout with an alignment of the language, or a live block with its size. -/
def Heap.Matching (h : Heap) : HeapOp → Prop
  | .alloc _ align => ∃ k, align = 2 ^ k
  | .dealloc ptr size _ => ⟨ptr, size⟩ ∈ h.live

/-- The region that an allocation takes starts at a multiple of the alignment, and not
at address 0. -/
def Heap.Snug (h : Heap) : HeapOp → Prop
  | .alloc size align => ∀ region, FirstFit h.allocator.head (roundedSize size) (max align 8) region →
      max align 8 ∣ region.start ∧ region.start ≠ 0
  | .dealloc _ _ _ => True

/-- What an allocation loses. -/
theorem Heap.alloc_total {h h' : Heap} {size align : ℕ} (hstep : h.step (.alloc size align) = .ok h') :
    h'.total ≤ h.total ∧ (h'.total = h.total ↔ h.Snug (.alloc size align)) := by
  obtain ⟨⟨ptr, a'⟩, halloc, hstep⟩ := Checked.bind_eq_ok.mp hstep
  cases hstep
  rcases alloc_eq_ok halloc with ⟨rfl, rfl, hnone⟩ |
    ⟨pre, region, post, hhead, hfirst, hfits, hstart, hleft⟩
  · exact ⟨le_rfl, iff_of_true rfl fun region hregion => absurd hregion (hnone region)⟩
  · have hsnug : h.Snug (.alloc size align) ↔ ptr = region.start ∧ region.start ≠ 0 := by
      rw [← hstart]
      exact ⟨fun hall => hall region hfirst, fun hregion r hr => hr.unique hfirst ▸ hregion⟩
    have hbefore : h.total = (pre.map Extent.size).sum + (region.size + (post.map Extent.size).sum) +
        (h.live.map fun b => roundedSize b.size).sum := by
      rw [Heap.total, hhead, List.map_append, List.sum_append, List.map_cons, List.sum_cons]
    have hrest : (a'.head.map Extent.size).sum = region.stop - (ptr + roundedSize size) +
        ((pre.map Extent.size).sum + (post.map Extent.size).sum) := by
      rcases hleft with ⟨hend, rfl⟩ | ⟨-, rfl⟩
      · rw [hend, Nat.sub_self, Nat.zero_add, List.map_append, List.sum_append]
      · rw [List.map_cons, List.sum_cons, List.map_append, List.sum_append]
    have hlarge := (le_roundedSize size).2
    have hlower := hfits.lower
    have hupper := hfits.upper
    have hlive : ((if ptr = 0 then h.live else ⟨ptr, size⟩ :: h.live).map fun b =>
        roundedSize b.size).sum =
        (if ptr = 0 then 0 else roundedSize size) + (h.live.map fun b => roundedSize b.size).sum := by
      split_ifs
      · exact (Nat.zero_add _).symm
      · rw [List.map_cons, List.sum_cons]
    have hafter : Heap.total ⟨a', if ptr = 0 then h.live else ⟨ptr, size⟩ :: h.live,
        (align, ptr) :: h.answers⟩ = _ := congrArg₂ (· + ·) hrest hlive
    rw [Extent.stop] at hupper hafter
    rw [hsnug, hafter, hbefore]
    split_ifs
    · exact ⟨by omega, by omega⟩
    · exact ⟨by omega, by omega⟩

/-- Freeing a live block loses nothing. -/
theorem Heap.dealloc_total {h h' : Heap} {ptr size align : ℕ} (hlive : ⟨ptr, size⟩ ∈ h.live)
    (hstep : h.step (.dealloc ptr size align) = .ok h') :
    h' = ⟨⟨⟨ptr, roundedSize size⟩ :: h.allocator.head⟩, h.live.erase ⟨ptr, size⟩, h.answers⟩ ∧
      h'.total = h.total := by
  obtain ⟨a', hfree, hstep⟩ := Checked.bind_eq_ok.mp hstep
  obtain ⟨⟨s, l⟩, hsize, hfree⟩ := Checked.bind_eq_ok.mp hfree
  obtain ⟨rfl, -⟩ := sizeAlign_eq_ok hsize
  obtain ⟨-, -, rfl⟩ := addFreeRegion_eq_ok hfree
  cases hstep
  refine ⟨rfl, ?_⟩
  have herase := ((List.perm_cons_erase hlive).map fun b => roundedSize b.size).sum_eq
  rw [List.map_cons, List.sum_cons] at herase
  rw [Heap.total, Heap.total, herase, List.map_cons, List.sum_cons]
  dsimp only
  omega

theorem Heap.step_total {h h' : Heap} {op : HeapOp} (hmatch : h.Matching op)
    (hstep : h.step op = .ok h') : h'.total ≤ h.total ∧ (h'.total = h.total ↔ h.Snug op) := by
  cases op with
  | alloc size align => exact Heap.alloc_total hstep
  | dealloc ptr size align =>
    have hsame := (Heap.dealloc_total hmatch hstep).2
    exact ⟨hsame.le, iff_of_true hsame trivial⟩

/-- A run keeps the sum exactly when each of its allocations is snug. -/
theorem Heap.run_total (ops : List HeapOp) {h h' : Heap}
    (hmatch : Runs.Along Heap.step Heap.Matching h ops) (hrun : Runs.run Heap.step h ops = .ok h') :
    h'.total ≤ h.total ∧ (h'.total = h.total ↔ Runs.Along Heap.step Heap.Snug h ops) := by
  induction ops generalizing h with
  | nil =>
    cases hrun
    exact ⟨le_rfl, iff_of_true rfl trivial⟩
  | cons op ops ih =>
    cases hstep : h.step op with
    | error p => simp [Runs.run, hstep] at hrun
    | ok next =>
      rw [Runs.run_cons_ok ops hstep] at hrun
      obtain ⟨hle, hiff⟩ := Heap.step_total hmatch.1 hstep
      obtain ⟨hle', hiff'⟩ := ih (hmatch.2 next hstep) hrun
      refine ⟨hle'.trans hle, ?_⟩
      have halong : Runs.Along Heap.step Heap.Snug h (op :: ops) ↔
          h.Snug op ∧ Runs.Along Heap.step Heap.Snug next ops := by
        refine ⟨fun hall => ⟨hall.1, hall.2 next hstep⟩, fun hall => ⟨hall.1, fun s hs => ?_⟩⟩
        rw [hstep] at hs
        cases hs
        exact hall.2
      rw [halong, ← hiff, ← hiff']
      omega

/-! ## Everything freed -/

theorem Heap.step_inv {lo hi : ℕ} {h h' : Heap} {op : HeapOp} (hinv : h.Inv lo hi)
    (hmatch : h.Matching op) (hstep : h.step op = .ok h') : h'.Inv lo hi := by
  cases op with
  | alloc size align =>
    obtain ⟨k, rfl⟩ := hmatch
    obtain ⟨⟨ptr, a'⟩, halloc, hstep⟩ := Checked.bind_eq_ok.mp hstep
    cases hstep
    refine hinv.allocated ?_
    rcases alloc_eq_ok halloc with ⟨rfl, rfl, -⟩ | ⟨pre, region, post, hhead, -, hfits, -, hafter⟩
    · exact .null
    · rcases hafter with ⟨-, rfl⟩ | ⟨hroom, rfl⟩
      · exact Allocated.taken hhead hfits (.inl (Eq.refl []))
      · exact Allocated.taken hhead hfits (.inr ⟨hroom, Eq.refl [_]⟩)
  | dealloc ptr size align =>
    rw [(Heap.dealloc_total hmatch hstep).1]
    exact hinv.freed hmatch

theorem Heap.start_eq_ok {heapStart heapSize : ℕ} {h : Heap}
    (hstart : Heap.start heapStart heapSize = .ok h) :
    h.Inv heapStart (heapStart + heapSize) ∧ h.total = heapSize := by
  obtain ⟨a, ha, -⟩ := Checked.bind_eq_ok.mp hstart
  obtain ⟨hdvd, hlarge, -⟩ := addFreeRegion_eq_ok ha
  obtain ⟨h', hstart', hinv⟩ := Heap.start_inv hdvd hlarge
  rw [hstart] at hstart'
  cases hstart'
  refine ⟨hinv, ?_⟩
  obtain ⟨a, ha, hstart⟩ := Checked.bind_eq_ok.mp hstart
  obtain ⟨-, -, rfl⟩ := addFreeRegion_eq_ok ha
  cases hstart
  simp [Heap.total]

/-- After any calls with matching frees, nothing is lost exactly when every allocation
was snug; then the free regions cover the heap again once everything is freed. -/
theorem heap_run_conserved_iff (heapStart heapSize : ℕ) (h₀ h : Heap) (ops : List HeapOp)
    (hstart : Heap.start heapStart heapSize = .ok h₀)
    (hmatch : Runs.Along Heap.step Heap.Matching h₀ ops) (hrun : Runs.run Heap.step h₀ ops = .ok h) :
    (h.total = heapSize ↔ Runs.Along Heap.step Heap.Snug h₀ ops) ∧
      (h.total = heapSize → h.live = [] → ∀ a, heapStart ≤ a → a < heapStart + heapSize →
        ∃ region ∈ h.allocator.head, a ∈ region.addresses) := by
  obtain ⟨hinv₀, htotal⟩ := Heap.start_eq_ok hstart
  refine ⟨?_, fun hkept hfreed a hlo hhi => ?_⟩
  · rw [← (Heap.run_total ops hmatch hrun).2, htotal]
  · have hinv : h.Inv heapStart (heapStart + heapSize) := Runs.run_invariant _
      (fun _ _ _ hinv hm hstep => Heap.step_inv hinv hm hstep) ops h₀ h hinv₀ hmatch hrun
    have hextents : h.extents = h.allocator.head := by simp [Heap.extents, hfreed]
    have hsum : (h.allocator.head.map Extent.size).sum = heapStart + heapSize - heapStart := by
      rw [Heap.total, hfreed] at hkept
      simp only [List.map_nil, List.sum_nil] at hkept
      omega
    exact (hextents ▸ hinv.separated).cover (hextents ▸ hinv.within) hsum hlo hhi

/-- The heap of the allocator's own tests, with one page. -/
theorem heap_run_conserved_page : ∃ h₀ h, Heap.start 0x50000000 0x10000000 = .ok h₀ ∧
    Runs.run Heap.step h₀ [.alloc 0x1000 (2 ^ 12), .dealloc 0x50000000 0x1000 1] = .ok h ∧
    (h.total = 0x10000000 ↔ Runs.Along Heap.step Heap.Snug h₀
      [.alloc 0x1000 (2 ^ 12), .dealloc 0x50000000 0x1000 1]) := by
  obtain ⟨h₀, hstart⟩ : ∃ h₀, Heap.start 0x50000000 0x10000000 = .ok h₀ := ⟨_, rfl⟩
  obtain ⟨h, hrun⟩ : ∃ h, Runs.run Heap.step h₀ [.alloc 0x1000 (2 ^ 12),
      .dealloc 0x50000000 0x1000 1] = .ok h := by
    cases hstart
    exact ⟨_, rfl⟩
  refine ⟨h₀, h, hstart, hrun, (heap_run_conserved_iff _ _ h₀ h _ hstart ?_ hrun).1⟩
  cases hstart
  refine ⟨⟨12, rfl⟩, fun s hs => ⟨?_, fun _ _ => trivial⟩⟩
  cases hs
  exact List.mem_singleton.mpr rfl

/-- A small block before a page: when both are freed, the bytes between them are gone. -/
theorem gap_is_lost : ∃ h₀ h, Heap.start 0x50000000 0x10000000 = .ok h₀ ∧
    Runs.Along Heap.step Heap.Matching h₀ [.alloc 16 8, .alloc 0x1000 (2 ^ 12),
      .dealloc 0x50000000 16 8, .dealloc 0x50001000 0x1000 (2 ^ 12)] ∧
    Runs.run Heap.step h₀ [.alloc 16 8, .alloc 0x1000 (2 ^ 12), .dealloc 0x50000000 16 8,
      .dealloc 0x50001000 0x1000 (2 ^ 12)] = .ok h ∧
    h.live = [] ∧ h.total + 0xFF0 = 0x10000000 := by
  have hsmall : Heap.step ⟨⟨[⟨0x50000000, 0x10000000⟩]⟩, [], []⟩ (.alloc 16 8) =
      .ok ⟨⟨[⟨0x50000010, 0xFFFFFF0⟩]⟩, [⟨0x50000000, 16⟩], [(8, 0x50000000)]⟩ := rfl
  have hpage : Heap.step ⟨⟨[⟨0x50000010, 0xFFFFFF0⟩]⟩, [⟨0x50000000, 16⟩], [(8, 0x50000000)]⟩
      (.alloc 0x1000 (2 ^ 12)) = .ok ⟨⟨[⟨0x50002000, 0xFFFE000⟩]⟩,
        [⟨0x50001000, 0x1000⟩, ⟨0x50000000, 16⟩], [(2 ^ 12, 0x50001000), (8, 0x50000000)]⟩ := rfl
  have hfree : Heap.step ⟨⟨[⟨0x50002000, 0xFFFE000⟩]⟩, [⟨0x50001000, 0x1000⟩, ⟨0x50000000, 16⟩],
      [(2 ^ 12, 0x50001000), (8, 0x50000000)]⟩ (.dealloc 0x50000000 16 8) =
      .ok ⟨⟨[⟨0x50000000, 16⟩, ⟨0x50002000, 0xFFFE000⟩]⟩, [⟨0x50001000, 0x1000⟩],
        [(2 ^ 12, 0x50001000), (8, 0x50000000)]⟩ := rfl
  refine ⟨_, ⟨⟨[⟨0x50001000, 0x1000⟩, ⟨0x50000000, 16⟩, ⟨0x50002000, 0xFFFE000⟩]⟩, [],
    [(2 ^ 12, 0x50001000), (8, 0x50000000)]⟩, rfl, ?_, ?_, rfl, rfl⟩
  · refine Runs.along_cons_ok hsmall ⟨3, rfl⟩ (Runs.along_cons_ok hpage ⟨12, rfl⟩
      (Runs.along_cons_ok hfree ?_ ⟨?_, fun _ _ => trivial⟩))
    · exact List.mem_cons_of_mem _ (List.mem_singleton.mpr rfl)
    · exact List.mem_singleton.mpr rfl
  · rw [Runs.run_cons_ok _ hsmall, Runs.run_cons_ok _ hpage, Runs.run_cons_ok _ hfree]
    rfl

end Min1visor.LinkedList
