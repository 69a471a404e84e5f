import Min1visor.Library.ThreadedList
import Min1visor.LinkedListFirstFit

/-!
# The free list in memory

The nodes of the free list lie in the regions that they describe, and the search moves a
cursor along their links. What it takes is unlinked in place. On a memory that holds a list
of regions, the search and the allocation do what they do on the list.
-/
namespace Min1visor.LinkedList
open ThreadedList

/-- The allocator's `head` and the memory that its nodes lie in. The value of a node is the
size of its region, and its address the start. -/
abbrev NodeMemory := Memory ℕ ℕ

/-- A region as its node in memory. -/
def node (region : ListNode) : ℕ × ℕ := (region.start, region.size)

namespace NodeMemory

/-- `add_free_region` -/
def addFreeRegion (a : NodeMemory) (addr size : ℕ) : Except Panic NodeMemory := do
  if (← alignUp addr listNodeAlign) ≠ addr then throw .assertion
  if size < listNodeSize then throw .assertion
  return a.push addr size

/-- The loop of `find_and_take_region`, with its cursor. It runs on a fuel and is cut off
with `none`. -/
def findAndTakeRegion (size align : ℕ) : ℕ → Option ℕ → NodeMemory →
    Option (Except Panic (Option (ListNode × ℕ) × NodeMemory))
  | 0, _, _ => none
  | fuel + 1, current, a =>
    match (a.place current).next with
    | none => some (.ok (none, a))
    | some addr =>
      let region : ListNode := ⟨addr, (a.node addr).value⟩
      match validateRegion region size align with
      | .error p => some (.error p)
      | .ok (some allocStart) =>
        let next := (a.node addr).next
        let a := a.setNext (some addr) none
        let a := a.setNext current none
        some (.ok (some (region, allocStart), a.setNext current next))
      | .ok none => findAndTakeRegion size align fuel (some addr) a

/-- What `alloc` does with the region that was found. -/
def carve (size : ℕ) : Option (ListNode × ℕ) × NodeMemory → Except Panic (ℕ × NodeMemory)
  | (some (region, allocStart), a) =>
    match Checked.checkedAdd 64 allocStart size with
    | none => throw .unwrapNone
    | some allocEnd => do
      let endAddr ← Checked.add 64 region.start region.size
      let excessSize ← Checked.sub endAddr allocEnd
      if excessSize > 0 then return (allocStart, ← addFreeRegion a allocEnd excessSize)
      else return (allocStart, a)
  | (none, a) => return (0, a)

/-- `alloc`: the address of the block, or 0 for the null pointer. -/
def alloc (fuel : ℕ) (a : NodeMemory) (size align : ℕ) :
    Option (Except Panic (ℕ × NodeMemory)) :=
  match sizeAlign size align with
  | .error p => some (.error p)
  | .ok (size, align) =>
    (findAndTakeRegion size align fuel none a).map fun found => found >>= carve size

end NodeMemory

/-- A free list in memory: no two regions overlap, none starts at the null address, and none
reaches the end of the address space. -/
structure FreeList (a : NodeMemory) (l : List ListNode) : Prop where
  represents : Represents a (l.map node)
  separated : Extent.Separated l
  start : ∀ r ∈ l, 0 < r.start
  stop : ∀ r ∈ l, r.stop < 2 ^ 64

/-! ## The search in memory -/

theorem map_fst_node (l : List ListNode) : (l.map node).map Prod.fst = l.map Extent.start := by
  rw [List.map_map]
  rfl

/-- The outcome of a search in memory is that of the search on the list. -/
def Finds (a : NodeMemory) (pre : List ListNode) :
    Except Panic (Option (ListNode × ℕ × List ListNode)) →
      Except Panic (Option (ListNode × ℕ) × NodeMemory) → Prop
  | .error p, result => result = .error p
  | .ok none, result => result = .ok (none, a)
  | .ok (some (region, allocStart, rest)), result =>
    ∃ a', result = .ok (some (region, allocStart), a') ∧ Represents a' ((pre ++ rest).map node)

theorem findAndTakeRegion_finds {size align : ℕ} {a : NodeMemory} (fuel : ℕ) (pre l : List ListNode)
    (h : Represents a ((pre ++ l).map node)) (hfuel : l.length < fuel) :
    ∃ result, NodeMemory.findAndTakeRegion size align fuel (endPlace (pre.map node)) a = some result ∧
      Finds a pre (findAndTakeRegion size align l) result := by
  induction fuel generalizing pre l with
  | zero => omega
  | succ fuel ih =>
    rw [List.map_append] at h
    have hrest := h.rest
    cases l with
    | nil =>
      have hnext : (a.place (endPlace (pre.map node))).next = none := hrest
      refine ⟨.ok (none, a), ?_, rfl⟩
      simp only [NodeMemory.findAndTakeRegion, hnext]
    | cons region next =>
      obtain ⟨hnext, hvalue, -⟩ := hrest
      have hregion : (⟨region.start, (a.node region.start).value⟩ : ListNode) = region := by
        rw [show (a.node region.start).value = region.size from hvalue]
      simp only [NodeMemory.findAndTakeRegion, hnext, hregion, findAndTakeRegion]
      cases hvalid : validateRegion region size align with
      | error p => exact ⟨.error p, rfl, rfl⟩
      | ok found =>
        cases found with
        | some allocStart =>
          refine ⟨_, rfl, _, rfl, ?_⟩
          rw [List.map_append]
          exact Represents.unlink h
        | none =>
          have hcursor : some region.start = endPlace ((pre ++ [region]).map node) := by
            rw [List.map_append, List.map_singleton, endPlace_concat]
            rfl
          obtain ⟨result, hresult, hfinds⟩ := ih (pre ++ [region]) next (by
            rw [List.append_assoc, List.singleton_append, List.map_append]
            exact h) (by simpa using hfuel)
          refine ⟨result, ?_, ?_⟩
          · dsimp only
            rw [hcursor]
            exact hresult
          · simp only [Checked.ok_bind]
            cases hfound : findAndTakeRegion size align next with
            | error p =>
              rw [hfound] at hfinds
              exact hfinds
            | ok found =>
              rw [hfound] at hfinds
              cases found with
              | none => exact hfinds
              | some taken =>
                obtain ⟨a', hok, hrep⟩ := hfinds
                refine ⟨a', hok, ?_⟩
                rwa [List.append_assoc, List.singleton_append] at hrep

/-! ## Exact first fit -/

/-- Null and an unchanged memory where no region holds the block. Otherwise the block lies in
the first region that does; this region is unlinked, what is left behind the block becomes the
first region, and all others keep their order. -/
def ExactFirstFit (a : NodeMemory) (l : List ListNode) (size align : ℕ) : Prop :=
  ∀ fuel, l.length < fuel →
    ((∀ r ∈ l, ¬ Accommodates r (roundedSize size) (max align 8)) ∧
      NodeMemory.alloc fuel a size align = some (.ok (0, a))) ∨
    ∃ pre region post a', l = pre ++ region :: post ∧
      (∀ r ∈ pre, ¬ Accommodates r (roundedSize size) (max align 8)) ∧
      Accommodates region (roundedSize size) (max align 8) ∧
      firstAligned region.start (max align 8) ≠ 0 ∧
      NodeMemory.alloc fuel a size align =
        some (.ok (firstAligned region.start (max align 8), a')) ∧
      FreeList a' (leftover region (roundedSize size) (max align 8) ++ (pre ++ post))

/-- The allocation in memory is decided by the search on the list. -/
theorem NodeMemory.alloc_finds {a : NodeMemory} {l : List ListNode} (h : Represents a (l.map node))
    {size align : ℕ} (hsize : sizeAlign size align = .ok (roundedSize size, max align 8)) {fuel : ℕ}
    (hfuel : l.length < fuel) :
    ∃ result, NodeMemory.alloc fuel a size align = some (result >>= carve (roundedSize size)) ∧
      Finds a [] (LinkedList.findAndTakeRegion (roundedSize size) (max align 8) l) result := by
  have hsearch : ∃ result, NodeMemory.findAndTakeRegion (roundedSize size) (max align 8) fuel
      (endPlace (([] : List ListNode).map node)) a = some result ∧
      Finds a [] (LinkedList.findAndTakeRegion (roundedSize size) (max align 8) l) result :=
    findAndTakeRegion_finds fuel [] l h hfuel
  obtain ⟨result, hresult, hfinds⟩ := hsearch
  refine ⟨result, ?_, hfinds⟩
  simp only [alloc, hsize]
  rw [show (none : Option ℕ) = endPlace (([] : List ListNode).map node) from rfl, hresult]
  rfl

theorem NodeMemory.addFreeRegion_ok (a : NodeMemory) {addr size : ℕ} (ha : 8 ∣ addr)
    (hs : 16 ≤ size) : addFreeRegion a addr size = .ok (a.push addr size) := by
  have hal : alignUp addr listNodeAlign = .ok addr := alignUp_of_dvd (by decide) ha
  have hns : ¬ size < listNodeSize := by
    unfold listNodeSize
    omega
  simp [addFreeRegion, hal, hns]

/-- The regions after the block was cut out of one of them. -/
theorem FreeList.carved {a a' : NodeMemory} {pre post : List ListNode} {region : ListNode}
    (h : FreeList a (pre ++ region :: post)) {size align : ℕ} (halign : 0 < align)
    (h8 : 8 ∣ align) (hsize : 8 ∣ size ∧ 0 < size) (hholds : Accommodates region size align)
    (hrep : Represents a' ((pre ++ post).map node)) :
    ∃ a'', NodeMemory.carve size (some (region, firstAligned region.start align), a') =
        .ok (firstAligned region.start align, a'') ∧
      FreeList a'' (leftover region size align ++ (pre ++ post)) := by
  obtain ⟨hdvd, hlower, -⟩ := firstAligned_spec halign region.start
  have hstop := h.stop region (by simp)
  have hholds' : firstAligned region.start align + size = region.stop ∨
      firstAligned region.start align + size + 16 ≤ region.stop := hholds
  have hapart : Extent.Separated (region :: (pre ++ post)) := h.separated.perm List.perm_middle
  have hothers : ∀ r ∈ pre ++ post, r ∈ pre ++ region :: post := by
    intro r hr
    rw [List.mem_append] at hr
    rcases hr with hr | hr <;> simp [hr]
  unfold leftover
  generalize firstAligned region.start align = start at *
  have hend : Checked.add 64 region.start region.size = .ok region.stop := Checked.add_ok hstop
  have hsub : Checked.sub region.stop (start + size) = .ok (region.stop - (start + size)) :=
    Checked.sub_ok (by omega)
  simp only [NodeMemory.carve, Checked.checkedAdd_some (show start + size < 2 ^ 64 by omega), hend,
    hsub, Checked.ok_bind]
  by_cases hexact : start + size = region.stop
  · rw [if_pos hexact, if_neg (by omega), List.nil_append]
    exact ⟨a', rfl, hrep, (List.pairwise_cons.mp hapart).2, fun r hr => h.start r (hothers r hr),
      fun r hr => h.stop r (hothers r hr)⟩
  · have htail : start + size + 16 ≤ region.stop := hholds'.resolve_left hexact
    rw [if_neg hexact, if_pos (by omega), NodeMemory.addFreeRegion_ok a'
      ((Nat.dvd_add_right (h8.trans hdvd)).mpr hsize.1) (by omega)]
    refine ⟨_, rfl, ?_, ?_, ?_, ?_⟩
    · -- The new node lies in the region that was taken, apart from all others.
      refine hrep.push ?_ _
      rw [map_fst_node, List.mem_map]
      rintro ⟨r, hr, hstart⟩
      rcases (List.pairwise_cons.mp hapart).1 r hr with hlow | hhigh
      · unfold Extent.stop at hlow htail
        omega
      · unfold Extent.stop at hhigh
        omega
    · refine hapart.refine (List.pairwise_singleton _ _) fun p hp => ?_
      obtain rfl := List.mem_singleton.mp hp
      unfold Extent.Within Extent.stop at *
      dsimp only
      omega
    · rw [List.singleton_append, List.forall_mem_cons]
      exact ⟨show 0 < start + size by omega, fun r hr => h.start r (hothers r hr)⟩
    · rw [List.singleton_append, List.forall_mem_cons]
      refine ⟨?_, fun r hr => h.stop r (hothers r hr)⟩
      unfold Extent.stop at *
      dsimp only
      omega

/-- On every free list, first fit is exact precisely when the rounded size is a number of the
type and every region that the search comes to has its first aligned address in the address
space; otherwise the allocation aborts. -/
theorem exactFirstFit_iff (a : NodeMemory) (l : List ListNode) (h : FreeList a l) (size k : ℕ)
    (hsize : size < 2 ^ 64) :
    ExactFirstFit a l size (2 ^ k) ↔ roundedSize size < 2 ^ 64 ∧
      ∀ r, Reaches l (roundedSize size) (max (2 ^ k) 8) r →
        firstAligned r.start (max (2 ^ k) 8) < 2 ^ 64 := by
  have halign : 0 < max (2 ^ k) 8 := by omega
  constructor
  · intro hexact
    have hok : ∃ p a', NodeMemory.alloc (l.length + 1) a size (2 ^ k) = some (.ok (p, a')) := by
      rcases hexact (l.length + 1) (Nat.lt_succ_self _) with
        ⟨-, hnull⟩ | ⟨_, _, _, a', -, -, -, -, hp, -⟩
      · exact ⟨_, _, hnull⟩
      · exact ⟨_, _, hp⟩
    obtain ⟨p, a', hok⟩ := hok
    rcases sizeAlign_cases (2 ^ k) hsize with ⟨hlt, hround⟩ | ⟨-, hover⟩
    · obtain ⟨result, hresult, hfinds⟩ := NodeMemory.alloc_finds h.represents hround
        (Nat.lt_succ_self l.length)
      refine ⟨hlt, ?_⟩
      cases hfound : findAndTakeRegion (roundedSize size) (max (2 ^ k) 8) l with
      | error p =>
        rw [hfound] at hfinds
        have herror : result = .error p := hfinds
        rw [hresult, herror] at hok
        cases hok
      | ok found => exact (findAndTakeRegion_exact halign h.stop hfound).1
    · rw [NodeMemory.alloc, hover] at hok
      cases hok
  · rintro ⟨hlt, hreach⟩ fuel hfuel
    have hround : sizeAlign size (2 ^ k) = .ok (roundedSize size, max (2 ^ k) 8) := by
      rcases sizeAlign_cases (2 ^ k) hsize with ⟨-, hround⟩ | ⟨hover, -⟩
      · exact hround
      · omega
    obtain ⟨result, hresult, hfinds⟩ := NodeMemory.alloc_finds h.represents hround hfuel
    obtain ⟨found, hfound⟩ := findAndTakeRegion_ne_error halign h.stop hreach
    rw [hfound] at hfinds
    rcases (findAndTakeRegion_exact halign h.stop hfound).2 with
      ⟨rfl, hnone⟩ | ⟨pre, region, post, rfl, hpre, hholds, rfl⟩
    · have hnull : result = .ok (none, a) := hfinds
      refine .inl ⟨hnone, ?_⟩
      rw [hresult, hnull]
      rfl
    · obtain ⟨a', hok, hrep⟩ := hfinds
      have h8 := (eight_dvd_max_of_two_pow k).1
      have hpos := (le_roundedSize size).2
      obtain ⟨a'', hcarve, hlist⟩ := h.carved halign h8 ⟨roundedSize_dvd size, by omega⟩ hholds hrep
      have hstart := h.start region (by simp)
      have hlower := (firstAligned_spec halign region.start).2.1
      refine .inr ⟨pre, region, post, a'', rfl, hpre, hholds, by omega, ?_, hlist⟩
      rw [hresult, hok, Checked.ok_bind, hcarve]

/-- Three regions: one too small, one with too little behind the block, and one that is split. -/
def threeRegions : List ListNode := [⟨0x1000, 0x20⟩, ⟨0x2000, 0x48⟩, ⟨0x3000, 0x100⟩]

/-- The memory of the three regions. -/
def threeNodes : NodeMemory where
  anchor := ⟨0, some 0x1000⟩
  node a := if a = 0x1000 then ⟨0x20, some 0x2000⟩ else if a = 0x2000 then ⟨0x48, some 0x3000⟩
    else ⟨0x100, none⟩

theorem threeNodes_freeList : FreeList threeNodes threeRegions :=
  ⟨⟨⟨rfl, rfl, rfl, rfl, rfl, rfl, rfl⟩, by decide⟩, by decide, by decide, by decide⟩

theorem exactFirstFit_three_regions : ExactFirstFit threeNodes threeRegions 0x40 (2 ^ 4) := by
  refine (exactFirstFit_iff threeNodes threeRegions threeNodes_freeList 0x40 4 (by decide)).mpr
    ⟨by decide, ?_⟩
  rintro r ⟨pre, post, hl, -⟩
  have hall : ∀ r ∈ threeRegions, firstAligned r.start (max (2 ^ 4) 8) < 2 ^ 64 := by decide
  exact hall r (by simp [hl])

/-- The size `usize::MAX` fits no region, yet the rounding of the size aborts. -/
theorem largest_size_aborts : FreeList threeNodes threeRegions ∧
    (∀ r ∈ threeRegions, ¬ Accommodates r (roundedSize (2 ^ 64 - 1)) 8) ∧
      NodeMemory.alloc 4 threeNodes (2 ^ 64 - 1) 1 = some (.error .overflow) ∧
      ¬ ExactFirstFit threeNodes threeRegions (2 ^ 64 - 1) 1 := by
  have habort : NodeMemory.alloc 4 threeNodes (2 ^ 64 - 1) 1 = some (.error .overflow) := rfl
  refine ⟨threeNodes_freeList, by decide, habort, fun hexact => ?_⟩
  rcases hexact 4 (by decide) with ⟨-, hnull⟩ | ⟨_, _, _, _, -, -, -, -, hp, -⟩
  · rw [habort] at hnull
    cases hnull
  · rw [habort] at hp
    cases hp

end Min1visor.LinkedList
