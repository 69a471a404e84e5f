import Min1visor.PagingFrame
import Min1visor.PagingRuns

/-!
# The memory of a virtual machine

A virtual machine is created with a block of host memory as its RAM, a fresh
stage 2 table and one mapping of the block. The emulated devices translate guest
addresses on their own, by a range check and an addition.
-/
namespace Min1visor.Vm
open Paging TranslationTable

/-- The part of the machine that addresses are translated by. -/
structure VM where
  ramVirtualBaseAddress : ℕ
  ramPhysicalBaseAddress : ℕ
  ramSize : ℕ

def VM.getPhysicalAddress (vm : VM) (virtualAddress : ℕ) : Option ℕ :=
  if vm.ramVirtualBaseAddress ≤ virtualAddress ∧
      virtualAddress < vm.ramVirtualBaseAddress + vm.ramSize then
    some (virtualAddress - vm.ramVirtualBaseAddress + vm.ramPhysicalBaseAddress)
  else none

def ramVirtualBase : ℕ := 0x40000000
def ramSize : ℕ := 0x10000000

/-- The steps of `create_vm` that build the memory of the machine. -/
def createVm (idAa64mmfr0El1 : BitVec 64) (s : Stage2 LinkedList.LinkedListAllocator) :
    Except Panic (VM × Stage2 LinkedList.LinkedListAllocator) := do
  match ← LinkedList.allocatePages s.heap (ramSize >>> pageShift) pageShift with
  | (none, _) => throw .unwrapNone
  | (some ramPhysicalAddress, heap) =>
    let s ← initStage2TranslationTable LinkedList.allocatePages idAa64mmfr0El1
      { s with heap := heap }
    match ← mapAddressStage2 LinkedList.allocatePages s ramPhysicalAddress ramVirtualBase ramSize
      true true with
    | (.error (), _) => throw .unwrapNone
    | (.ok (), s) => return (⟨ramVirtualBase, ramPhysicalAddress, ramSize⟩, s)

/-! ## Agreement of the two translations -/

/-- A table of `n` entries at depth `k` that a walk can come to. -/
inductive TableAt (s : Stage2 LinkedList.LinkedListAllocator) : ℕ → ℕ → ℕ → Prop
  | root : TableAt s (startDepth s.vtcrEl2)
      (2 ^ (inputBits s.vtcrEl2 - (12 + 9 * startDepth s.vtcrEl2)))
      (s.vttbrEl2 &&& 0x0000FFFFFFFFFFFE).toNat
  | child {k n t i : ℕ} (h : TableAt s (k + 1) n t) (hi : i < n)
      (htable : isTable (s.mem (t + 8 * i)) = true) :
      TableAt s k 512 (address (s.mem (t + 8 * i)))

/-- The devices and the guest see the same memory, which holds no table. -/
structure Agrees (vm : VM) (s : Stage2 LinkedList.LinkedListAllocator) : Prop where
  mapped : ∀ x, x < 2 ^ inputBits s.vtcrEl2 → ∀ p,
    vm.getPhysicalAddress x = some p ↔ stage2Walk s x = some (p, permissionNumber true true)
  unmapped : ∀ x, x < 2 ^ inputBits s.vtcrEl2 → vm.getPhysicalAddress x = none →
    stage2Walk s x = none
  hidden : ∀ x p perm k n t, stage2Walk s x = some (p, perm) → TableAt s k n t →
    ¬ (t ≤ p ∧ p < t + 8 * n)

/-- The pages of the allocator while one block stays live. -/
theorem pageSource_keeping (lo : ℕ) {hi : ℕ} (hhi : hi ≤ 2 ^ 48) (block : Extent) :
    PageSource LinkedList.allocatePages
      (fun a live => HeapOwns lo hi a live ∧ block ∈ live) where
  fresh hn hn' hk howns halloc := by
    obtain ⟨h1, h2, h3, h4⟩ := (linkedList_pageSource hhi).fresh hn hn' hk howns.1 halloc
    exact ⟨h1, h2, h3, h4, List.mem_cons_of_mem _ howns.2⟩

/-- Two different live blocks are apart. -/
theorem live_apart {lo hi : ℕ} {a : LinkedList.LinkedListAllocator} {live : List Extent}
    (h : HeapOwns lo hi a live) {e f : Extent} (he : e ∈ live) (hf : f ∈ live) (hne : e ≠ f) :
    Extent.Apart e f := by
  obtain ⟨answers, hinv⟩ := h
  obtain ⟨-, hlive, -⟩ := List.pairwise_append.mp hinv.separated
  rw [List.pairwise_map] at hlive
  have hsymm : Std.Symm fun e f : Extent =>
      Extent.Apart (LinkedList.rounded e) (LinkedList.rounded f) := ⟨fun _ _ h => h.symm⟩
  have hapart := hlive.forall he hf hne
  have h1 := LinkedList.le_roundedSize e.size
  have h2 := LinkedList.le_roundedSize f.size
  simp only [Extent.Apart, Extent.stop, LinkedList.rounded] at hapart ⊢
  omega

/-- The steps of a creation that succeeds. -/
theorem createVm_ok {idAa64mmfr0El1 : BitVec 64} {s s' : Stage2 LinkedList.LinkedListAllocator}
    {vm : VM} (h : createVm idAa64mmfr0El1 s = .ok (vm, s')) :
    ∃ ram heap s₁, LinkedList.allocatePages s.heap 0x10000 12 = .ok (some ram, heap) ∧
      initStage2TranslationTable LinkedList.allocatePages idAa64mmfr0El1 { s with heap := heap } =
        .ok s₁ ∧
      mapStep LinkedList.allocatePages s₁ ⟨ram, ramVirtualBase, ramSize, true, true⟩ = .ok s' ∧
      vm = ⟨ramVirtualBase, ram, ramSize⟩ := by
  obtain ⟨⟨found, heap⟩, halloc, h⟩ := Checked.bind_eq_ok.mp h
  cases found with
  | none => cases h
  | some ram =>
    obtain ⟨s₁, hinit, h⟩ := Checked.bind_eq_ok.mp h
    obtain ⟨⟨result, s₂⟩, hmap, h⟩ := Checked.bind_eq_ok.mp h
    cases result with
    | error e => cases h
    | ok u =>
      cases h
      refine ⟨ram, heap, s₁, halloc, hinit, ?_, rfl⟩
      simp only [mapStep, hmap]

/-- Every table that a walk can come to is labelled. -/
theorem TableAt.labelled {owns : LinkedList.LinkedListAllocator → List Extent → Prop} {g : Shape}
    {root : ℕ} {s : Stage2 LinkedList.LinkedListAllocator} (hbuilt : Built owns g root s)
    {label : Labels} (howned : Owned owns g.depth g.entries root label s.mem s.heap)
    {k n t : ℕ} (h : TableAt s k n t) :
    ∃ p, label t = some (k, p) ∧ n ≤ width g.depth g.entries k := by
  induction h with
  | root =>
    have hroot : (s.vttbrEl2 &&& 0x0000FFFFFFFFFFFE).toNat = root := by
      rw [hbuilt.base, and_mask_page hbuilt.aligned hbuilt.low (by decide), BitVec.toNat_ofNat]
      exact Nat.mod_eq_of_lt (hbuilt.low.trans (by norm_num))
    rw [hroot, hbuilt.sound.start]
    refine ⟨0, howned.labelled.root, ?_⟩
    rw [width, if_pos rfl, hbuilt.sound.input]
    apply Nat.le_of_mul_le_mul_right _ (span_pos g.depth)
    rw [span, ← pow_add, Nat.sub_add_cancel hbuilt.sound.fits.1]
    exact hbuilt.sound.fits.2.2
  | @child k n t i _ hi htable ih =>
    obtain ⟨p, ht, hn⟩ := ih
    have hidx : i + (width g.depth g.entries (k + 1) - i - 1 + 1) =
        width g.depth g.entries (k + 1) := by omega
    have hword := word_entry (t := t) (p := p) hidx
    have hchild := howned.labelled.child ht (entry_div hidx) (by rw [hword]; exact htable)
    rw [hword] at hchild
    have hdepth : k < g.depth := howned.labelled.below ht
    exact ⟨_, hchild.1, by rw [width_of_lt _ hdepth]⟩

/-- With its root table below `2 ^ 47`, a new machine is consistent. -/
theorem createVm_agrees {lo hi : ℕ} (hhi : hi ≤ 2 ^ 48) {idAa64mmfr0El1 : BitVec 64}
    {s s' : Stage2 LinkedList.LinkedListAllocator} {vm : VM} {live : List Extent}
    (howns : HeapOwns lo hi s.heap live) (h : createVm idAa64mmfr0El1 s = .ok (vm, s'))
    (hroot : rootTable s' < 2 ^ 47) : Agrees vm s' := by
  obtain ⟨ram, heap, s₁, halloc, hinit, hmap, rfl⟩ := createVm_ok h
  rw [rootTable, (mapStep_registers hmap).2, ← rootTable] at hroot
  obtain ⟨hdvd, hbound, -, howns₁⟩ := (linkedList_pageSource hhi).fresh (by decide) (by decide)
    (by decide) howns halloc
  have hsource := pageSource_keeping lo hhi ⟨ram, 0x10000 * 4096⟩
  obtain ⟨hbuilt, hnone⟩ := initStage2TranslationTable_spec hsource
    (⟨howns₁, List.mem_cons_self⟩ : HeapOwns lo hi heap _ ∧ _) hinit hroot
  have hvalid : (⟨ram, ramVirtualBase, ramSize, true, true⟩ : Call).Valid
      (2 ^ inputBits s₁.vtcrEl2) := by
    refine ⟨hdvd, show 4096 ∣ ramVirtualBase by decide, show 4096 ∣ ramSize by decide,
      show 0 < ramSize by decide, ?_, hbound⟩
    rw [hbuilt.sound.input]
    exact (show ramVirtualBase + ramSize ≤ 2 ^ 32 by decide).trans
      (Nat.pow_le_pow_right (by decide) hbuilt.sound.large)
  obtain ⟨hbuilt', -, hwalk⟩ := mapStep_spec hsource hbuilt hvalid (fun x _ => hnone x) hmap
  have htranslate : ∀ x, stage2Walk s' x =
      ((⟨ramVirtualBase, ram, ramSize⟩ : VM).getPhysicalAddress x).map
        fun p => (p, permissionNumber true true) := by
    intro x
    rw [hwalk x, hnone x, VM.getPhysicalAddress]
    by_cases hx : (⟨ram, ramVirtualBase, ramSize, true, true⟩ : Call).Covers x
    · rw [if_pos hx, if_pos (show ramVirtualBase ≤ x ∧ x < ramVirtualBase + ramSize from hx),
        Nat.add_comm]
      rfl
    · rw [if_neg hx, if_neg (show ¬ (ramVirtualBase ≤ x ∧ x < ramVirtualBase + ramSize) from hx)]
      rfl
  refine ⟨?_, ?_, ?_⟩
  · intro x _ p
    rw [htranslate x]
    simp
  · intro x _ hx
    rw [htranslate x, hx]
    rfl
  · intro x p perm k n t hx htable
    -- The table is a live block of its own, apart from the RAM.
    obtain ⟨label, howned⟩ := hbuilt'.owned
    obtain ⟨q, ht, hn⟩ := htable.labelled hbuilt' howned
    obtain ⟨blocks, ⟨hheap, hram⟩, hblocks⟩ := howned.live
    have hwidth := hbuilt'.sound.width_le k
    have hapart := live_apart hheap (hblocks t k q ht) hram (by
      intro he
      have hsize := congrArg Extent.size he
      dsimp only at hsize
      omega)
    have hp : ram ≤ p ∧ p < ram + 0x10000 * 4096 := by
      rw [htranslate x, VM.getPhysicalAddress] at hx
      split_ifs at hx with hin
      · simp only [Option.map_some, Option.some.injEq, Prod.mk.injEq] at hx
        have hsize : ramSize = 0x10000 * 4096 := rfl
        dsimp only at hin
        omega
      · cases hx
    simp only [Extent.Apart, Extent.stop] at hapart
    omega

/-- The mapper drops the top bit of a root at or above `2 ^ 47`. -/
theorem masked_root_le {root : ℕ} (hlow : 2 ^ 47 ≤ root) (hhigh : root < 2 ^ 48) :
    (BitVec.ofNat 64 root &&& vttbrBaddr).toNat ≤ root - 2 ^ 47 := by
  have hmod : root % 2 ^ 47 = root - 2 ^ 47 := by
    rw [Nat.mod_eq_sub_mod hlow]
    exact Nat.mod_eq_of_lt (by omega)
  rw [vttbrBaddr, ← BitVec.and_assoc, BitVec.toNat_and, BitVec.toNat_and, BitVec.toNat_ofNat,
    Nat.mod_eq_of_lt (hhigh.trans (by norm_num)),
    show (((1 : BitVec 64) <<< 47) - 1).toNat = 2 ^ 47 - 1 by decide,
    Nat.and_two_pow_sub_one_eq_mod, hmod]
  exact Nat.and_le_left

/-- With its root table at or above `2 ^ 47`, a machine created on zeroed memory
has none of its RAM mapped. -/
theorem createVm_unmapped {lo hi : ℕ} (hhi : hi ≤ 2 ^ 48) {idAa64mmfr0El1 : BitVec 64}
    {s s' : Stage2 LinkedList.LinkedListAllocator} {vm : VM} {live : List Extent}
    (howns : HeapOwns lo hi s.heap live) (hmem : s.mem = fun _ => 0)
    (h : createVm idAa64mmfr0El1 s = .ok (vm, s')) (hroot : 2 ^ 47 ≤ rootTable s') :
    stage2Walk s' ramVirtualBase = none := by
  obtain ⟨ram, heap, s₁, halloc, hinit, hmap, rfl⟩ := createVm_ok h
  obtain ⟨hvtcr', hvttbr'⟩ := mapStep_registers hmap
  rw [rootTable, hvttbr', ← rootTable] at hroot
  obtain ⟨hdvd, hbound, -, howns₁⟩ := (linkedList_pageSource hhi).fresh (by decide) (by decide)
    (by decide) howns halloc
  have hsource := pageSource_keeping lo hhi ⟨ram, 0x10000 * 4096⟩
  obtain ⟨hzero, hvtcr, hvttbr, halign, htop, hlive⟩ := initStage2TranslationTable_ok hsource rfl
    (⟨howns₁, List.mem_cons_self⟩ : HeapOwns lo hi heap _ ∧ _) hinit
  have hsound := shape_sound idAa64mmfr0El1
  generalize idAa64mmfr0El1 &&& idAa64mmfr0El1Parange = ps at *
  rw [← hvtcr] at hsound
  have hsize : 0 < (shape ps).entries ∧ (shape ps).entries ≤ 4096 := by
    have htables := hsound.tables
    unfold Shape.entries
    omega
  -- The mapper starts below the root and never comes to it.
  obtain ⟨cursor, hfrom, rfl⟩ := mapStep_ok hsound (show 4096 ∣ ramSize by decide) hmap
  have hmasked := masked_root_le hroot (show rootTable s₁ < 2 ^ 48 by omega)
  rw [← hvttbr] at hmasked
  have hapart := live_apart hlive.1 List.mem_cons_self hlive.2 (by
    intro he
    have hne := congrArg Extent.size he
    dsimp only at hne
    omega)
  have hallZero : ∀ a, s₁.mem a = 0 := by
    intro a
    rw [hzero, zeroTable, hmem]
    split_ifs <;> rfl
  have hclear : Clear (fun a live => HeapOwns lo hi a live ∧ ⟨ram, 0x10000 * 4096⟩ ∈ live)
      ⟨rootTable s₁, 8 * (shape ps).entries⟩
      ⟨s₁.mem, s₁.heap, ram, ramVirtualBase, ramSize⟩ := by
    refine ⟨?_, ⟨_, hlive, List.mem_cons_self⟩, hdvd, hbound, hapart.symm⟩
    intro a _ htable
    dsimp only at htable
    rw [hallZero a] at htable
    simp [Descriptor.isTableDescriptor] at htable
  obtain ⟨-, hsame⟩ := mapAddressStage2From_leavesAlone hsource _ true true (shape ps).depth
    (shape ps).entries _ _ cursor (by
      simp only [Extent.Apart, Extent.stop]
      omega) hclear (show 0 < ramSize by decide) hfrom
  have hbase : (s₁.vttbrEl2 &&& 0x0000FFFFFFFFFFFE).toNat = rootTable s₁ := by
    rw [hvttbr, and_mask_page halign (show rootTable s₁ < 2 ^ 48 by omega) (by decide),
      BitVec.toNat_ofNat]
    exact Nat.mod_eq_of_lt (by omega)
  have hn : 2 ^ (inputBits s₁.vtcrEl2 - (12 + 9 * startDepth s₁.vtcrEl2)) ≤ (shape ps).entries := by
    rw [hsound.input, hsound.start]
    apply Nat.le_of_mul_le_mul_right _ (span_pos (shape ps).depth)
    rw [span, ← pow_add, Nat.sub_add_cancel hsound.fits.1]
    exact hsound.fits.2.2
  rw [stage2Walk]
  split_ifs
  · dsimp only
    rw [hbase]
    apply walk_zero (Nat.two_pow_pos _)
    intro i hi
    rw [hsame _ (by dsimp only; omega) (by simp only [Extent.stop]; omega)]
    exact hallZero _
  · rfl

/-- The block that the allocator has for the root table, after the one for the RAM. -/
def rootBlock (idAa64mmfr0El1 : BitVec 64) (heap : LinkedList.LinkedListAllocator) : Option ℕ :=
  match LinkedList.allocatePages heap 0x10000 12 with
  | .ok (some _, heap) =>
    let tables := (shape (idAa64mmfr0El1 &&& idAa64mmfr0El1Parange)).tables
    match LinkedList.allocatePages heap tables (12 + tables - 1) with
    | .ok (found, _) => found
    | .error _ => none
  | _ => none

/-- The root table and the input range of a new machine. -/
theorem createVm_root {lo hi : ℕ} (hhi : hi ≤ 2 ^ 48) {idAa64mmfr0El1 : BitVec 64}
    {s s' : Stage2 LinkedList.LinkedListAllocator} {vm : VM} {live : List Extent}
    (howns : HeapOwns lo hi s.heap live) (h : createVm idAa64mmfr0El1 s = .ok (vm, s')) :
    rootBlock idAa64mmfr0El1 s.heap = some (rootTable s') ∧
      ramVirtualBase < 2 ^ inputBits s'.vtcrEl2 := by
  obtain ⟨ram, heap, s₁, halloc, hinit, hmap, rfl⟩ := createVm_ok h
  obtain ⟨hvtcr', hvttbr'⟩ := mapStep_registers hmap
  rw [rootTable, hvttbr', ← rootTable, hvtcr']
  obtain ⟨-, -, -, howns₁⟩ := (linkedList_pageSource hhi).fresh (by decide) (by decide)
    (by decide) howns halloc
  obtain ⟨-, hvtcr, -⟩ := initStage2TranslationTable_ok (linkedList_pageSource hhi) rfl
    (show HeapOwns lo hi heap _ from howns₁) hinit
  have hsound := shape_sound idAa64mmfr0El1
  rw [← hvtcr] at hsound
  constructor
  · obtain ⟨⟨found, heap'⟩, hroot, hinit⟩ := Checked.bind_eq_ok.mp hinit
    change LinkedList.allocatePages heap
      (shape (idAa64mmfr0El1 &&& idAa64mmfr0El1Parange)).tables
      (12 + (shape (idAa64mmfr0El1 &&& idAa64mmfr0El1Parange)).tables - 1) = _ at hroot
    cases found with
    | none => cases hinit
    | some table =>
      cases hinit
      obtain ⟨-, hbound, -, -⟩ := (linkedList_pageSource hhi).fresh hsound.tables.1
        (by have := hsound.tables.2; omega) (by have := hsound.tables.2; omega) howns₁ hroot
      have htable : (BitVec.ofNat 64 table).toNat = table := by
        rw [BitVec.toNat_ofNat]
        exact Nat.mod_eq_of_lt (by omega)
      simp only [rootBlock, halloc, hroot, rootTable, htable]
  · rw [hsound.input]
    exact (show ramVirtualBase < 2 ^ 32 by decide).trans_le
      (Nat.pow_le_pow_right (by decide) hsound.large)

/-- A machine created in a heap below `2 ^ 48` is consistent, whatever the memory
held before, exactly when the allocator has its root table below `2 ^ 47`. -/
theorem createVm_agrees_iff (lo hi : ℕ) (hhi : hi ≤ 2 ^ 48) (idAa64mmfr0El1 : BitVec 64)
    (heap : LinkedList.LinkedListAllocator) (live : List Extent) (howns : HeapOwns lo hi heap live)
    (vtcrEl2 vttbrEl2 : BitVec 64) (vm₀ : VM) (s₀ : Stage2 LinkedList.LinkedListAllocator)
    (hok : createVm idAa64mmfr0El1 ⟨fun _ => 0, heap, vtcrEl2, vttbrEl2⟩ = .ok (vm₀, s₀)) :
    (∀ mem vm s, createVm idAa64mmfr0El1 ⟨mem, heap, vtcrEl2, vttbrEl2⟩ = .ok (vm, s) →
      Agrees vm s) ↔ ∀ table, rootBlock idAa64mmfr0El1 heap = some table → table < 2 ^ 47 := by
  constructor
  · intro hagrees table htable
    obtain ⟨hroot, hin⟩ := createVm_root hhi howns hok
    obtain rfl : rootTable s₀ = table := Option.some.inj (hroot.symm.trans htable)
    by_contra hhigh
    have hnone := createVm_unmapped hhi howns rfl hok (not_lt.mp hhigh)
    obtain ⟨ram, heap', s₁, halloc, hinit, hmap, rfl⟩ := createVm_ok hok
    have hram : (⟨ramVirtualBase, ram, ramSize⟩ : VM).getPhysicalAddress ramVirtualBase =
        some ram := by simp [VM.getPhysicalAddress, ramSize]
    have hsome := ((hagrees _ _ _ hok).mapped ramVirtualBase hin ram).mp hram
    rw [hnone] at hsome
    cases hsome
  · intro hlow mem vm s h
    exact createVm_agrees hhi howns h (hlow _ (createVm_root hhi howns h).1)

set_option maxRecDepth 20000 in
theorem createVm_agrees_sample :
    ∃ vm s, createVm 2 (machineAt 0x50000000 0x20000000) = .ok (vm, s) ∧
      stage2Walk s 0x48000123 = (vm.getPhysicalAddress 0x48000123).map fun p => (p, 3) := by
  obtain ⟨vm, s, hok, hbits, hphys, hroot⟩ : ∃ vm s,
      createVm 2 (machineAt 0x50000000 0x20000000) = .ok (vm, s) ∧ inputBits s.vtcrEl2 = 40 ∧
      vm.getPhysicalAddress 0x48000123 = some 0x58000123 ∧
      rootBlock 2 (machineAt 0x50000000 0x20000000).heap = some 0x60000000 :=
    ⟨_, _, rfl, rfl, rfl, rfl⟩
  refine ⟨vm, s, hok, ?_⟩
  have howns : HeapOwns 0x50000000 (0x50000000 + 0x20000000)
      (machineAt 0x50000000 0x20000000).heap [] := machineAt_owns (by decide) (by decide)
  have hagrees := (createVm_agrees_iff _ _ (by decide) 2 _ [] howns 0 0 vm s hok).mpr (by
    intro table htable
    obtain rfl : 0x60000000 = table := Option.some.inj (hroot.symm.trans htable)
    decide) _ _ _ hok
  rw [hphys]
  exact (hagrees.mapped 0x48000123 (by rw [hbits]; decide) 0x58000123).mp hphys

set_option maxRecDepth 20000 in
/-- In a heap that starts at `2 ^ 47` the RAM and the root table are above it. The
creation succeeds and the guest faults on its first address. -/
theorem created_unmapped :
    HeapOwns (2 ^ 47) (2 ^ 47 + 0x20000000) (machineAt (2 ^ 47) 0x20000000).heap [] ∧
    ∃ vm s, createVm 5 (machineAt (2 ^ 47) 0x20000000) = .ok (vm, s) ∧ ¬ Agrees vm s := by
  have howns : HeapOwns (2 ^ 47) (2 ^ 47 + 0x20000000) (machineAt (2 ^ 47) 0x20000000).heap [] :=
    machineAt_owns (by decide) (by decide)
  obtain ⟨vm, s, hok, hroot, hphys⟩ : ∃ vm s,
      createVm 5 (machineAt (2 ^ 47) 0x20000000) = .ok (vm, s) ∧
      rootTable s = 2 ^ 47 + 0x10000000 ∧
      vm.getPhysicalAddress ramVirtualBase = some (2 ^ 47) := ⟨_, _, rfl, rfl, rfl⟩
  refine ⟨howns, vm, s, hok, ?_⟩
  intro hagrees
  have hnone := createVm_unmapped (by decide) howns rfl hok (by rw [hroot]; decide)
  have hsome := (hagrees.mapped _ (createVm_root (by decide) howns hok).2 _).mp hphys
  rw [hnone] at hsome
  cases hsome

end Min1visor.Vm
