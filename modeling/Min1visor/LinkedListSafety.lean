import Min1visor.LinkedList
import Min1visor.Library.Runs

/-!
# Allocation histories of the linked-list allocator

A heap is the allocator together with the blocks that were handed out and not
yet returned. Every free region and every live block, taken at its rounded
size, is one extent; the invariant says that these extents are pairwise apart,
stay inside the region given to `init`, start on a node boundary and are large
enough to hold a node.
-/
namespace Min1visor.LinkedList

/-- The size a request really occupies: the first component of `sizeAlign`. -/
def roundedSize (size : ℕ) : ℕ := (max size listNodeSize + 7) / 8 * 8

theorem roundedSize_dvd (size : ℕ) : 8 ∣ roundedSize size := Nat.dvd_mul_left 8 _

theorem le_roundedSize (size : ℕ) : size ≤ roundedSize size ∧ 16 ≤ roundedSize size := by
  unfold roundedSize listNodeSize
  omega

theorem roundedSize_lt {size : ℕ} (h : size < 2 ^ 63) : roundedSize size ≤ 2 ^ 63 := by
  unfold roundedSize listNodeSize
  omega

theorem alignUp_of_dvd {addr align : ℕ} (ha : 0 < align) (h : align ∣ addr) :
    alignUp addr align = .ok addr := Checked.nextMultipleOf_of_dvd ha h

theorem sizeAlign_eq {size : ℕ} (align : ℕ) (h : size < 2 ^ 63) :
    sizeAlign size align = .ok (roundedSize size, max align 8) := by
  obtain ⟨c, hc, hd, hl, hu⟩ := Checked.nextMultipleOf_spec (w := 64)
    (a := max size listNodeSize) (b := listNodeAlign) (by decide)
    (by unfold listNodeSize listNodeAlign; omega)
  have he : c = roundedSize size := by
    obtain ⟨k, rfl⟩ := hd
    unfold roundedSize
    unfold listNodeAlign at hl hu ⊢
    omega
  subst he
  simp only [sizeAlign, alignUp, hc, Checked.ok_bind, Checked.pure_eq_ok]
  rfl

theorem addFreeRegion_ok (a : LinkedListAllocator) {addr size : ℕ} (ha : 8 ∣ addr)
    (hs : 16 ≤ size) : addFreeRegion a addr size = .ok ⟨⟨addr, size⟩ :: a.head⟩ := by
  have hal : alignUp addr listNodeAlign = .ok addr := alignUp_of_dvd (by decide) ha
  have hns : ¬ size < listNodeSize := by unfold listNodeSize; omega
  simp [addFreeRegion, hal, hns]

/-- How an allocation of `size` bytes sits in a region that was validated. -/
structure Fits (region : ListNode) (size align allocStart : ℕ) : Prop where
  aligned : align ∣ allocStart
  lower : region.start ≤ allocStart
  upper : allocStart + size ≤ region.stop
  tail : allocStart + size = region.stop ∨ allocStart + size + 16 ≤ region.stop

theorem validateRegion_spec {region : ListNode} {size align : ℕ} (hr : region.stop ≤ 2 ^ 48)
    (ha : 0 < align) (hal : align ≤ 2 ^ 62) (hs : size ≤ 2 ^ 63) :
    ∃ r, validateRegion region size align = .ok r ∧
      ∀ allocStart, r = some allocStart → Fits region size align allocStart := by
  have hr' : region.start + region.size ≤ 2 ^ 48 := hr
  obtain ⟨c, hc, hd, hl, hu⟩ := Checked.nextMultipleOf_spec (w := 64)
    (a := region.start) (b := align) ha (by omega)
  have hend : Checked.add 64 region.start region.size = .ok region.stop :=
    Checked.add_ok (by omega)
  simp only [validateRegion, alignUp, hc, Checked.checkedAdd_some (show c + size < 2 ^ 64 by omega),
    hend, Checked.ok_bind, Checked.pure_eq_ok]
  by_cases h1 : c + size > region.stop
  · simp [h1]
  · have hsub : Checked.sub region.stop (c + size) = .ok (region.stop - (c + size)) :=
      Checked.sub_ok (by omega)
    simp only [h1, if_false, hsub, Checked.ok_bind]
    by_cases h2 : region.stop - (c + size) > 0 ∧ region.stop - (c + size) < listNodeSize
    · simp [h2]
    · simp only [h2, if_false]
      unfold listNodeSize at h2
      exact ⟨some c, rfl, fun s hs => by cases hs; exact ⟨hd, hl, by omega, by omega⟩⟩

/-- The search never aborts on regions below `2 ^ 48`, and what it takes is one
region of the list, the others keeping their order. -/
theorem findAndTakeRegion_spec (size align : ℕ) (ha : 0 < align) (hal : align ≤ 2 ^ 62)
    (hs : size ≤ 2 ^ 63) (l : List ListNode) (hl : ∀ e ∈ l, e.stop ≤ 2 ^ 48) :
    ∃ r, findAndTakeRegion size align l = .ok r ∧
      ∀ region allocStart rest, r = some (region, allocStart, rest) →
        ∃ pre post, l = pre ++ region :: post ∧ rest = pre ++ post ∧
          Fits region size align allocStart := by
  induction l with
  | nil => exact ⟨none, rfl, by simp⟩
  | cons region next ih =>
    obtain ⟨v, hv, hfit⟩ := validateRegion_spec (hl region (by simp)) ha hal hs
    obtain ⟨r, hr, hrest⟩ := ih fun e he => hl e (by simp [he])
    cases v with
    | some s =>
      refine ⟨some (region, s, next), by
        simp [findAndTakeRegion, hv], ?_⟩
      intro region' s' rest' h
      cases h
      exact ⟨[], next, rfl, rfl, hfit s rfl⟩
    | none =>
      cases r with
      | none => exact ⟨none, by
          simp [findAndTakeRegion, hv, hr], by simp⟩
      | some t =>
        obtain ⟨taken, s, rest⟩ := t
        refine ⟨some (taken, s, region :: rest), by
          simp [findAndTakeRegion, hv, hr], ?_⟩
        intro region' s' rest' h
        cases h
        obtain ⟨pre, post, hpre, hpost, hf⟩ := hrest taken s rest rfl
        exact ⟨region :: pre, post, by simp [hpre], by simp [hpost], hf⟩

/-- The two ways `alloc` ends: null with the allocator untouched, or one region
replaced by the tail that the block leaves free, if any. -/
inductive Allocated (a : LinkedListAllocator) (size align : ℕ) :
    ℕ → LinkedListAllocator → Prop
  | null : Allocated a size align 0 a
  | taken {pre post : List ListNode} {region : ListNode} {ptr : ℕ} {pieces : List ListNode}
      (hhead : a.head = pre ++ region :: post)
      (hfit : Fits region (roundedSize size) (max align 8) ptr)
      (hpieces : pieces = [] ∨ ptr + roundedSize size + 16 ≤ region.stop ∧
        pieces = [⟨ptr + roundedSize size, region.stop - (ptr + roundedSize size)⟩]) :
      Allocated a size align ptr ⟨pieces ++ (pre ++ post)⟩

theorem alloc_spec (a : LinkedListAllocator) {size align : ℕ} (hal : align ≤ 2 ^ 62)
    (hs : size < 2 ^ 63) (hl : ∀ e ∈ a.head, e.stop ≤ 2 ^ 48)
    (hd : 8 ∣ max align 8) :
    ∃ ptr a', alloc a size align = .ok (ptr, a') ∧ Allocated a size align ptr a' := by
  obtain ⟨r, hr, hspec⟩ := findAndTakeRegion_spec (roundedSize size) (max align 8) (by omega) (by omega) (roundedSize_lt hs) a.head hl
  cases r with
  | none =>
    exact ⟨0, a, by
      simp [alloc, sizeAlign_eq align hs, hr], .null⟩
  | some t =>
    obtain ⟨region, ptr, rest⟩ := t
    obtain ⟨pre, post, hhead, rfl, hfit⟩ := hspec region ptr rest rfl
    have hstop : region.start + region.size ≤ 2 ^ 48 := hl region (by simp [hhead])
    have hup := hfit.upper
    have hadd : Checked.checkedAdd 64 ptr (roundedSize size) = some (ptr + roundedSize size) :=
      Checked.checkedAdd_some (by unfold Extent.stop at hup; omega)
    have hend : Checked.add 64 region.start region.size = .ok region.stop :=
      Checked.add_ok (by omega)
    have hsub : Checked.sub region.stop (ptr + roundedSize size) =
        .ok (region.stop - (ptr + roundedSize size)) := Checked.sub_ok hup
    rcases hfit.tail with htail | htail
    · refine ⟨ptr, ⟨[] ++ (pre ++ post)⟩, ?_, .taken hhead hfit (.inl rfl)⟩
      have hz : ¬ region.stop - (ptr + roundedSize size) > 0 := by omega
      simp [alloc, sizeAlign_eq align hs, hr, hadd, hend, hsub, hz]
    · refine ⟨ptr, ⟨[_] ++ (pre ++ post)⟩, ?_, .taken hhead hfit (.inr ⟨htail, rfl⟩)⟩
      have hp : region.stop - (ptr + roundedSize size) > 0 := by omega
      have hdvd : 8 ∣ ptr + roundedSize size :=
        (Nat.dvd_add_right (hd.trans hfit.aligned)).mpr (roundedSize_dvd size)
      have hadd' := addFreeRegion_ok ⟨pre ++ post⟩ hdvd
        (show 16 ≤ region.stop - (ptr + roundedSize size) by omega)
      simp [alloc, sizeAlign_eq align hs, hr, hadd, hend, hsub, hp, hadd']

/-- The allocator with the blocks handed out and not yet returned, and every
answer `alloc` has given so far with the alignment it was asked for. -/
structure Heap where
  allocator : LinkedListAllocator
  live : List Extent
  answers : List (ℕ × ℕ)

inductive HeapOp
  | alloc (size align : ℕ)
  | dealloc (ptr size align : ℕ)

def Heap.step (h : Heap) : HeapOp → Except Panic Heap
  | .alloc size align => do
    let (ptr, a) ← alloc h.allocator size align
    return ⟨a, if ptr = 0 then h.live else ⟨ptr, size⟩ :: h.live, (align, ptr) :: h.answers⟩
  | .dealloc ptr size align => do
    let a ← deallocAligned h.allocator ptr size align
    return ⟨a, h.live.erase ⟨ptr, size⟩, h.answers⟩

/-- Requests stay in the ranges of the language; only live blocks are freed,
with the size they were requested with and any alignment argument. -/
def Heap.Permitted (h : Heap) : HeapOp → Prop
  | .alloc size align => (∃ k, align = 2 ^ k ∧ k < 62) ∧ size < 2 ^ 63
  | .dealloc ptr size _ => ⟨ptr, size⟩ ∈ h.live

/-- A live block at the size it really occupies. -/
def rounded (b : Extent) : Extent := ⟨b.start, roundedSize b.size⟩

/-- Free regions and live blocks. -/
def Heap.extents (h : Heap) : List Extent := h.allocator.head ++ h.live.map rounded

structure Heap.Safe (lo hi : ℕ) (h : Heap) : Prop where
  separated : Extent.Separated h.extents
  within : ∀ e ∈ h.extents, e.Within lo hi
  answers : ∀ r ∈ h.answers, r.2 ≠ 0 → r.1 ∣ r.2

/-- What the induction carries: safety and the shape that the assertions of
`addFreeRegion` rely on. -/
structure Heap.Inv (lo hi : ℕ) (h : Heap) : Prop extends Heap.Safe lo hi h where
  aligned : ∀ e ∈ h.extents, 8 ∣ e.start
  large : ∀ e ∈ h.extents, 16 ≤ e.size

/-- A heap whose extents are those of a good heap, up to their order. -/
theorem Heap.Inv.of_perm {lo hi : ℕ} {h h' : Heap} (hi' : h.Inv lo hi)
    (hp : h.extents.Perm h'.extents) (ha : ∀ r ∈ h'.answers, r.2 ≠ 0 → r.1 ∣ r.2) :
    h'.Inv lo hi where
  separated := hi'.separated.perm hp
  within e he := hi'.within e (hp.mem_iff.mpr he)
  answers := ha
  aligned e he := hi'.aligned e (hp.mem_iff.mpr he)
  large e he := hi'.large e (hp.mem_iff.mpr he)

/-- A heap in which one extent was replaced by separated, well-shaped pieces. -/
theorem Heap.Inv.of_refine {lo hi : ℕ} {h h' : Heap} {region : Extent}
    {rest : List Extent} (pieces : List Extent) (hinv : h.Inv lo hi)
    (hp : h.extents.Perm (region :: rest)) (hp' : h'.extents.Perm (pieces ++ rest))
    (hsep : Extent.Separated pieces)
    (hin : ∀ p ∈ pieces, p.Within region.start region.stop ∧ 8 ∣ p.start ∧ 16 ≤ p.size)
    (ha : ∀ r ∈ h'.answers, r.2 ≠ 0 → r.1 ∣ r.2) : h'.Inv lo hi := by
  have hregion := hinv.within region (hp.mem_iff.mpr (by simp))
  have hold : ∀ e ∈ rest, e ∈ h.extents := fun e he => hp.mem_iff.mpr (by simp [he])
  have hmem : ∀ e ∈ h'.extents, e ∈ pieces ∨ e ∈ rest := fun e he =>
    List.mem_append.mp (hp'.mem_iff.mp he)
  refine ⟨⟨?_, ?_, ha⟩, ?_, ?_⟩
  · exact ((hinv.separated.perm hp).refine hsep fun p hm => (hin p hm).1).perm hp'.symm
  · intro e he
    rcases hmem e he with h1 | h1
    · exact (hin e h1).1.mono hregion.1 hregion.2
    · exact hinv.within e (hold e h1)
  · intro e he
    rcases hmem e he with h1 | h1
    · exact (hin e h1).2.1
    · exact hinv.aligned e (hold e h1)
  · intro e he
    rcases hmem e he with h1 | h1
    · exact (hin e h1).2.2
    · exact hinv.large e (hold e h1)

theorem eight_dvd_max_of_two_pow (k : ℕ) : 8 ∣ max (2 ^ k) 8 ∧ 2 ^ k ∣ max (2 ^ k) 8 := by
  rcases le_total k 3 with h | h
  · have hle : 2 ^ k ≤ 2 ^ 3 := Nat.pow_le_pow_right (by norm_num) h
    rw [show 8 = 2 ^ 3 from rfl, max_eq_right hle]
    exact ⟨dvd_rfl, pow_dvd_pow 2 h⟩
  · have hle : 2 ^ 3 ≤ 2 ^ k := Nat.pow_le_pow_right (by norm_num) h
    rw [show 8 = 2 ^ 3 from rfl, max_eq_left hle]
    exact ⟨pow_dvd_pow 2 h, dvd_rfl⟩

/-- The block and the tail it leaves are separated pieces of the region. -/
theorem Fits.pieces {region : ListNode} {size align ptr : ℕ} {pieces : List ListNode}
    (hfit : Fits region (roundedSize size) (max align 8) ptr) (h8 : 8 ∣ max align 8)
    (hp : pieces = [] ∨ ptr + roundedSize size + 16 ≤ region.stop ∧
      pieces = [⟨ptr + roundedSize size, region.stop - (ptr + roundedSize size)⟩]) :
    Extent.Separated (rounded ⟨ptr, size⟩ :: pieces) ∧
      ∀ p ∈ rounded ⟨ptr, size⟩ :: pieces,
        p.Within region.start region.stop ∧ 8 ∣ p.start ∧ 16 ≤ p.size := by
  have hlo := hfit.lower
  have hup := hfit.upper
  have hd : 8 ∣ ptr := h8.trans hfit.aligned
  have hblock : (rounded ⟨ptr, size⟩).Within region.start region.stop ∧
      8 ∣ (rounded ⟨ptr, size⟩).start ∧ 16 ≤ (rounded ⟨ptr, size⟩).size :=
    ⟨⟨hlo, hup⟩, hd, (le_roundedSize size).2⟩
  rcases hp with rfl | ⟨htail, rfl⟩
  · exact ⟨List.pairwise_singleton _ _, by simpa using hblock⟩
  · have hdt : 8 ∣ ptr + roundedSize size :=
      (Nat.dvd_add_right hd).mpr (roundedSize_dvd size)
    refine ⟨?_, ?_⟩
    · simp [Extent.Separated, Extent.Apart, Extent.stop, rounded]
    · intro p hp
      rcases List.mem_cons.mp hp with rfl | hp
      · exact hblock
      · obtain rfl := List.mem_singleton.mp hp
        refine ⟨⟨?_, ?_⟩, hdt, ?_⟩
        · exact hlo.trans (Nat.le_add_right _ _)
        · simp only [Extent.stop] at hup htail ⊢
          omega
        · show 16 ≤ region.stop - (ptr + roundedSize size)
          omega

/-- The heap after an allocation. -/
theorem Heap.Inv.allocated {lo hi : ℕ} {h : Heap} (hinv : h.Inv lo hi) {size k ptr : ℕ}
    {a' : LinkedListAllocator} (hcase : Allocated h.allocator size (2 ^ k) ptr a') :
    Heap.Inv lo hi
      ⟨a', if ptr = 0 then h.live else ⟨ptr, size⟩ :: h.live, (2 ^ k, ptr) :: h.answers⟩ := by
  obtain ⟨h8, hpow⟩ := eight_dvd_max_of_two_pow k
  have hans : ∀ p, 2 ^ k ∣ p → ∀ r ∈ (2 ^ k, p) :: h.answers, r.2 ≠ 0 → r.1 ∣ r.2 := by
    intro p hp r hr hz
    rcases List.mem_cons.mp hr with rfl | hr
    · exact hp
    · exact hinv.answers r hr hz
  cases hcase with
  | null => exact hinv.of_perm (List.Perm.refl _) (hans 0 (dvd_zero _))
  | @taken pre post region _ pieces hhead hfit hpieces =>
    obtain ⟨hsep, hin⟩ := hfit.pieces h8 hpieces
    have hold : h.extents.Perm (region :: (pre ++ post ++ h.live.map rounded)) := by
      simp only [Heap.extents, hhead, List.append_assoc, List.cons_append]
      exact List.perm_middle
    have hdvd : 2 ^ k ∣ ptr := hpow.trans hfit.aligned
    by_cases hz : ptr = 0
    · subst hz
      -- A block at address 0 is reported as null and belongs to nobody.
      refine Heap.Inv.of_refine pieces hinv hold ?_ (List.pairwise_cons.mp hsep).2
        (fun p hp => hin p (List.mem_cons_of_mem _ hp)) (hans 0 hdvd)
      simp [Heap.extents]
    · refine Heap.Inv.of_refine (rounded ⟨ptr, size⟩ :: pieces) hinv hold ?_ hsep hin
        (hans ptr hdvd)
      simp only [Heap.extents, if_neg hz, List.map_cons, List.append_assoc, List.cons_append]
      have hmid : (pieces ++ (pre ++ post) ++ rounded ⟨ptr, size⟩ :: h.live.map rounded).Perm
          (rounded ⟨ptr, size⟩ :: (pieces ++ (pre ++ post) ++ h.live.map rounded)) :=
        List.perm_middle
      simpa only [List.append_assoc] using hmid

theorem Heap.step_alloc {lo hi : ℕ} (hhi : hi ≤ 2 ^ 48) {h : Heap} (hinv : h.Inv lo hi)
    {size k : ℕ} (hk : k < 62) (hs : size < 2 ^ 63) :
    ∃ h', h.step (.alloc size (2 ^ k)) = .ok h' ∧ h'.Inv lo hi := by
  obtain ⟨h8, -⟩ := eight_dvd_max_of_two_pow k
  have hle : 2 ^ k ≤ 2 ^ 62 := Nat.pow_le_pow_right (by norm_num) hk.le
  obtain ⟨ptr, a', halloc, hcase⟩ := alloc_spec h.allocator hle hs
    (fun e he => ((hinv.within e (by simp [Heap.extents, he])).2).trans hhi) h8
  exact ⟨_, by simp only [Heap.step, halloc, Checked.ok_bind, Checked.pure_eq_ok],
    hinv.allocated hcase⟩

/-- The heap after a live block was freed. -/
theorem Heap.Inv.freed {lo hi : ℕ} {h : Heap} (hinv : h.Inv lo hi) {ptr size : ℕ}
    (hlive : ⟨ptr, size⟩ ∈ h.live) :
    Heap.Inv lo hi ⟨⟨⟨ptr, roundedSize size⟩ :: h.allocator.head⟩, h.live.erase ⟨ptr, size⟩,
      h.answers⟩ := by
  refine hinv.of_perm ?_ hinv.answers
  -- The freed extent moves from the live blocks to the free list.
  have herase := (List.perm_cons_erase hlive).map rounded
  simp only [Heap.extents, List.cons_append]
  exact (herase.append_left h.allocator.head).trans List.perm_middle

theorem Heap.step_dealloc {lo hi : ℕ} (hhi : hi ≤ 2 ^ 48) {h : Heap} (hinv : h.Inv lo hi)
    {ptr size : ℕ} (align : ℕ) (hlive : ⟨ptr, size⟩ ∈ h.live) :
    ∃ h', h.step (.dealloc ptr size align) = .ok h' ∧ h'.Inv lo hi := by
  have hmem : rounded ⟨ptr, size⟩ ∈ h.extents := by
    simp only [Heap.extents, List.mem_append, List.mem_map]
    exact Or.inr ⟨_, hlive, rfl⟩
  have hd : 8 ∣ ptr := hinv.aligned _ hmem
  have hw : ptr + roundedSize size ≤ hi := (hinv.within _ hmem).2
  have hle := le_roundedSize size
  have hs : size < 2 ^ 63 := by omega
  exact ⟨_, by simp only [Heap.step, deallocAligned, sizeAlign_eq align hs,
      addFreeRegion_ok h.allocator hd hle.2, Checked.ok_bind, Checked.pure_eq_ok],
    hinv.freed hlive⟩

/-- The heap right after `init`. -/
def Heap.start (heapStart heapSize : ℕ) : Except Panic Heap := do
  return ⟨← init heapStart heapSize, [], []⟩

theorem Heap.start_inv {heapStart heapSize : ℕ} (ha : 8 ∣ heapStart) (hs : 16 ≤ heapSize) :
    ∃ h, Heap.start heapStart heapSize = .ok h ∧ h.Inv heapStart (heapStart + heapSize) := by
  refine ⟨⟨⟨[⟨heapStart, heapSize⟩]⟩, [], []⟩, by
    simp [Heap.start, init, addFreeRegion_ok _ ha hs], ?_⟩
  refine ⟨⟨?_, ?_, ?_⟩, ?_, ?_⟩
  · simp [Heap.extents, Extent.Separated]
  · simp [Heap.extents, Extent.Within, Extent.stop]
  · simp
  · simpa [Heap.extents] using ha
  · simpa [Heap.extents] using hs

/-- Whatever is allocated and freed, in any order and with any alignment passed
to the freeing call, nothing aborts: the assertions of `addFreeRegion` hold, the
free regions and the live blocks stay separated inside the initial region, and
every non-null answer has the alignment it was asked for. -/
theorem heap_run_safe (heapStart heapSize : ℕ) (ha : 8 ∣ heapStart)
    (hs : listNodeSize ≤ heapSize) (hend : heapStart + heapSize < 2 ^ 48) :
    ∃ h₀, Heap.start heapStart heapSize = .ok h₀ ∧
      ∀ ops : List HeapOp, Runs.Along Heap.step Heap.Permitted h₀ ops →
        ∃ h, Runs.run Heap.step h₀ ops = .ok h ∧
          h.Safe heapStart (heapStart + heapSize) := by
  have hstep : ∀ h op, Heap.Inv heapStart (heapStart + heapSize) h → h.Permitted op →
      ∃ h', h.step op = .ok h' ∧ h'.Inv heapStart (heapStart + heapSize) := by
    intro h op hinv hperm
    cases op with
    | alloc size align =>
      obtain ⟨⟨k, rfl, hk⟩, hsize⟩ := hperm
      exact Heap.step_alloc hend.le hinv hk hsize
    | dealloc ptr size align => exact Heap.step_dealloc hend.le hinv align hperm
  obtain ⟨h₀, hstart, hinv₀⟩ := Heap.start_inv ha hs
  refine ⟨h₀, hstart, fun ops hops => ?_⟩
  obtain ⟨h, hrun, hinv⟩ := Runs.run_total _ hstep ops h₀ hinv₀ hops
  exact ⟨h, hrun, hinv.toSafe⟩

/-- The heap of the allocator's own tests, with one aligned block that is
allocated and then freed with an alignment of 1. -/
theorem heap_run_safe_test_heap :
    ∃ h₀ h, Heap.start 0x50000000 0x10000000 = .ok h₀ ∧
      Runs.run Heap.step h₀ [.alloc 0x1000 (2 ^ 12), .dealloc 0x50000000 0x1000 1] = .ok h ∧
      h.Safe 0x50000000 (0x50000000 + 0x10000000) := by
  obtain ⟨h₀, hstart, hall⟩ := heap_run_safe 0x50000000 0x10000000 (by decide) (by decide)
    (by decide)
  obtain rfl : ⟨⟨[⟨0x50000000, 0x10000000⟩]⟩, [], []⟩ = h₀ := Except.ok.inj hstart
  obtain ⟨h, hrun, hsafe⟩ := hall [.alloc 0x1000 (2 ^ 12), .dealloc 0x50000000 0x1000 1] (by
    refine ⟨⟨⟨12, rfl, by decide⟩, by decide⟩, fun s hs => ⟨?_, fun _ _ => trivial⟩⟩
    obtain rfl := Except.ok.inj hs
    exact List.mem_singleton.mpr rfl)
  exact ⟨_, h, hstart, hrun, hsafe⟩

end Min1visor.LinkedList
