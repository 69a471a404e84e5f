import Min1visor.Vm
import Min1visor.Boot
import Min1visor.Library.WordBytes
import Min1visor.Library.Answers

/-!
# The memory of a guest is its own

The stage 2 tables lie in the memory that the guest and its devices store to, but apart from
the RAM of the guest. So whatever is stored, the translation stays what it was when the machine
was created, and no word outside the RAM changes: the guest sees a memory of its own, which
starts at the base of its RAM and faults everywhere else.
-/
namespace Min1visor.Paging
open TranslationTable

/-! ## Stores apart from the tables -/

variable {η : Type} {owns : η → List Extent → Prop} {g : Shape} {root : ℕ} {zone : Extent}

/-- All blocks in use lie apart from a zone. -/
def apartFrom (η : Type) (zone : Extent) : η → List Extent → Prop :=
  fun _ live => ∀ e ∈ live, Extent.Apart e zone

/-- Tables of which none overlaps the zone. -/
theorem Built.apart {s : Stage2 η} (h : Built owns g root s)
    (htables : ∀ live, owns s.heap live → ∀ e ∈ live, e.size ≤ 8 * 4096 → Extent.Apart e zone) :
    Built (apartFrom η zone) g root s := by
  obtain ⟨label, howned⟩ := h.owned
  obtain ⟨live, hlive, hlabel⟩ := howned.live
  refine ⟨h.sound, h.base, h.aligned, h.low, label, howned.labelled,
    live.filter fun e => Extent.Apart e zone, ?_, ?_⟩
  · intro e he
    exact of_decide_eq_true (List.mem_filter.mp he).2
  · intro t k p ht
    have hmem := hlabel t k p ht
    have hsize : 8 * width g.depth g.entries k ≤ 8 * 4096 :=
      Nat.mul_le_mul_left 8 (h.sound.width_le k)
    exact List.mem_filter.mpr ⟨hmem, decide_eq_true (htables live hlive _ hmem hsize)⟩

/-- A word of the zone is no entry of a table: what is stored there leaves the translation. -/
theorem Built.update {s : Stage2 η} (h : Built (apartFrom η zone) g root s) {w : ℕ}
    (hw : zone.start ≤ w ∧ w < zone.stop) (data : BitVec 64) :
    Built (apartFrom η zone) g root { s with mem := Function.update s.mem w data } ∧
      ∀ x, stage2Walk { s with mem := Function.update s.mem w data } x = stage2Walk s x := by
  obtain ⟨label, howned⟩ := h.owned
  obtain ⟨live, hapart, hlabel⟩ := howned.live
  obtain ⟨j, -, hj⟩ := h.sound.power
  have he : 0 < g.entries := hj ▸ Nat.two_pow_pos j
  have hsame : ∀ t k p q, label t = some (k, p) →
      Function.update s.mem w data (word g.depth g.entries k t q) =
        s.mem (word g.depth g.entries k t q) := by
    intro t k p q ht
    have htable := hapart _ (hlabel t k p ht)
    have hentry := Nat.mod_lt q (width_pos g.depth he k)
    simp only [Extent.Apart, Extent.stop] at htable hw
    apply Function.update_of_ne
    unfold word
    omega
  have hlabelled : Labelled g.depth g.entries WellFormed root (Function.update s.mem w data)
      label := by
    refine ⟨howned.labelled.root, howned.labelled.below, ?_, howned.labelled.apart⟩
    intro t k p q ht hq htable
    rw [hsame t (k + 1) p q ht] at htable ⊢
    exact howned.labelled.child ht hq htable
  have hbuilt : Built (apartFrom η zone) g root { s with mem := Function.update s.mem w data } :=
    ⟨h.sound, h.base, h.aligned, h.low, label, hlabelled, live, hapart, hlabel⟩
  refine ⟨hbuilt, fun x => ?_⟩
  by_cases hx : x < 2 ^ inputBits s.vtcrEl2
  · have hwidth : width g.depth g.entries g.depth = g.entries := if_pos rfl
    have hroot : slot g.depth x / width g.depth g.entries g.depth = 0 := by
      rw [hwidth]
      exact Nat.div_eq_of_lt (slot_lt_entries h hx)
    have hending := howned.labelled.ending_congr howned.labelled.root hroot
      fun t k p ht _ _ => hsame t k p _ ht
    rw [hwidth] at hending
    rw [h.stage2Walk_eq hx, walk_eq_leaf, ← hending, ← walk_eq_leaf]
    exact hbuilt.stage2Walk_eq hx
  · rw [stage2Walk_of_le (s := s) (not_lt.mp hx)]
    exact stage2Walk_of_le (not_lt.mp hx)

end Min1visor.Paging

namespace Min1visor.Vm
open Paging TranslationTable

/-! ## Accesses to the memory of a guest -/

/-- An access to one byte: one of the guest, which goes through the tables, or one that an
emulated device makes for it at an address translated by the machine. -/
inductive Access
  | load (x : ℕ)
  | store (x : ℕ) (data : BitVec 8)
  | deviceLoad (x : ℕ)
  | deviceStore (x : ℕ) (data : BitVec 8)

namespace Access
variable {η : Type}

/-- The byte at an address, or a fault. -/
def loadAt (s : Stage2 η) (address : Option ℕ) : Option (BitVec 8) × Stage2 η :=
  (address.map (WordBytes.load s.mem), s)

def storeAt (s : Stage2 η) (address : Option ℕ) (data : BitVec 8) :
    Option (BitVec 8) × Stage2 η :=
  match address with
  | some a => (some data, { s with mem := WordBytes.store s.mem a data })
  | none => (none, s)

/-- The output address of a walk that has a permission. -/
def permitted (s : Stage2 η) (x permission : ℕ) : Option ℕ :=
  match stage2Walk s x with
  | some (a, permissions) => if permissions.testBit permission then some a else none
  | none => none

/-- The access in the memory that holds the tables as well. Bit 0 of the permissions is that
to read, and bit 1 that to write. -/
def exec (vm : VM) (s : Stage2 η) : Access → Option (BitVec 8) × Stage2 η
  | load x => loadAt s (permitted s x 0)
  | store x data => storeAt s (permitted s x 1) data
  | deviceLoad x => loadAt s (vm.getPhysicalAddress x)
  | deviceStore x data => storeAt s (vm.getPhysicalAddress x) data

/-- The guest's address. -/
def address : Access → ℕ
  | load x | store x _ | deviceLoad x | deviceStore x _ => x

/-- The access in a memory of its own. -/
def execOwn (vm : VM) (m : ℕ → BitVec 8) (access : Access) : Option (BitVec 8) × (ℕ → BitVec 8) :=
  if (vm.getPhysicalAddress access.address).isSome then
    match access with
    | load x | deviceLoad x => (some (m x), m)
    | store x data | deviceStore x data => (some data, Function.update m x data)
  else (none, m)

end Access

/-! ## One access -/

section Accesses
variable {η : Type} {vm : VM} {s : Stage2 η} {m : ℕ → BitVec 8}

/-- The host memory of the RAM. -/
def VM.ram (vm : VM) : Extent := ⟨vm.ramPhysicalBaseAddress, vm.ramSize⟩

/-- The tables translate as the machine does and lie apart from the RAM, which holds the bytes
of a memory. The words outside the RAM are those of another memory. -/
structure Private (vm : VM) (mem : Memory) (s : Stage2 η) (m : ℕ → BitVec 8) : Prop where
  built : ∃ g root, Built (apartFrom η vm.ram) g root s
  walk : ∀ x, stage2Walk s x =
    (vm.getPhysicalAddress x).map fun a => (a, permissionNumber true true)
  bytes : ∀ x a, vm.getPhysicalAddress x = some a → WordBytes.load s.mem a = m x
  outside : ∀ w, ¬ (vm.ram.start ≤ w ∧ w < vm.ram.stop) → s.mem w = mem w

theorem getPhysicalAddress_mem {x a : ℕ} (h : vm.getPhysicalAddress x = some a) :
    vm.ram.start ≤ a ∧ a < vm.ram.stop := by
  unfold VM.getPhysicalAddress at h
  split_ifs at h with hin
  have ha := Option.some.inj h
  simp only [VM.ram, Extent.stop]
  omega

theorem Private.permitted {mem : Memory} (h : Private vm mem s m) (x : ℕ) {permission : ℕ}
    (hp : permission < 2) : Access.permitted s x permission = vm.getPhysicalAddress x := by
  have hbit : (permissionNumber true true).testBit permission = true := by
    obtain rfl | rfl : permission = 0 ∨ permission = 1 := by omega
    · rfl
    · rfl
  unfold Access.permitted
  rw [h.walk x]
  cases vm.getPhysicalAddress x with
  | none => rfl
  | some a => exact if_pos hbit

/-- A byte of the RAM is stored, in both memories. -/
theorem Private.store {mem : Memory} (h : Private vm mem s m)
    (haligned : 8 ∣ vm.ramPhysicalBaseAddress) {x a : ℕ} (hx : vm.getPhysicalAddress x = some a)
    (data : BitVec 8) :
    Private vm mem { s with mem := WordBytes.store s.mem a data } (Function.update m x data) := by
  obtain ⟨g, root, hbuilt⟩ := h.built
  have hin := WordBytes.wordOf_mem haligned (getPhysicalAddress_mem hx)
  obtain ⟨hbuilt', hwalk⟩ := hbuilt.update hin
    (WordBytes.replace (s.mem (WordBytes.wordOf a)) (a % 8) data)
  refine ⟨⟨g, root, hbuilt'⟩, ?_, ?_, ?_⟩
  · intro y
    rw [← h.walk y]
    exact hwalk y
  · intro y b hy
    have hload : WordBytes.load (WordBytes.store s.mem a data) b = _ :=
      WordBytes.load_store s.mem a b data
    rw [hload]
    by_cases hyx : y = x
    · subst hyx
      obtain rfl : b = a := Option.some.inj (hy.symm.trans hx)
      rw [if_pos rfl, Function.update_self]
    · have hne : b ≠ a := by
        rintro rfl
        exact hyx (Boot.getPhysicalAddress_inj hy hx)
      rw [if_neg hne, Function.update_of_ne hyx]
      exact h.bytes y b hy
  · intro w hw
    have hne : w ≠ WordBytes.wordOf a := by
      rintro rfl
      exact hw hin
    rw [← h.outside w hw]
    exact WordBytes.store_other s.mem hne data

theorem Private.loadAt {mem : Memory} (h : Private vm mem s m) (x : ℕ) :
    Access.loadAt s (vm.getPhysicalAddress x) =
      (if (vm.getPhysicalAddress x).isSome then some (m x) else none, s) := by
  cases hx : vm.getPhysicalAddress x with
  | none => rfl
  | some a => simp [Access.loadAt, h.bytes x a hx]

theorem Private.storeAt {mem : Memory} (h : Private vm mem s m)
    (haligned : 8 ∣ vm.ramPhysicalBaseAddress) (x : ℕ) (data : BitVec 8) :
    (Access.storeAt s (vm.getPhysicalAddress x) data).1 =
        (if (vm.getPhysicalAddress x).isSome then some data else none) ∧
      Private vm mem (Access.storeAt s (vm.getPhysicalAddress x) data).2
        (if (vm.getPhysicalAddress x).isSome then Function.update m x data else m) := by
  cases hx : vm.getPhysicalAddress x with
  | none => exact ⟨rfl, h⟩
  | some a => exact ⟨rfl, h.store haligned hx data⟩

/-- An access is answered as in a memory of the guest's own. -/
theorem Private.exec {mem : Memory} (h : Private vm mem s m)
    (haligned : 8 ∣ vm.ramPhysicalBaseAddress) (access : Access) :
    (access.exec vm s).1 = (access.execOwn vm m).1 ∧
      Private vm mem (access.exec vm s).2 (access.execOwn vm m).2 := by
  have hload : ∀ x, (Access.loadAt s (vm.getPhysicalAddress x)).1 = ((Access.load x).execOwn vm m).1 ∧
      Private vm mem (Access.loadAt s (vm.getPhysicalAddress x)).2
        ((Access.load x).execOwn vm m).2 := by
    intro x
    rw [h.loadAt x]
    by_cases hx : (vm.getPhysicalAddress x).isSome = true
    · simp [Access.execOwn, Access.address, hx, h]
    · simp [Access.execOwn, Access.address, hx, h]
  have hstore : ∀ x data, (Access.storeAt s (vm.getPhysicalAddress x) data).1 =
        ((Access.store x data).execOwn vm m).1 ∧
      Private vm mem (Access.storeAt s (vm.getPhysicalAddress x) data).2
        ((Access.store x data).execOwn vm m).2 := by
    intro x data
    obtain ⟨hanswer, hnext⟩ := h.storeAt haligned x data
    rw [hanswer]
    by_cases hx : (vm.getPhysicalAddress x).isSome = true
    · rw [if_pos hx] at hnext
      simpa [Access.execOwn, Access.address, hx] using hnext
    · rw [if_neg hx] at hnext
      simpa [Access.execOwn, Access.address, hx] using hnext
  cases access with
  | load x =>
    rw [Access.exec, h.permitted x (by decide)]
    exact hload x
  | store x data =>
    rw [Access.exec, h.permitted x (by decide)]
    exact hstore x data
  | deviceLoad x => exact hload x
  | deviceStore x data => exact hstore x data

/-- The bytes that the guest finds. -/
def image (vm : VM) (mem : Memory) (x : ℕ) : BitVec 8 :=
  WordBytes.load mem ((vm.getPhysicalAddress x).getD 0)

/-- A run of accesses by the guest and its devices is answered as in a memory of the guest's
own. It leaves the translation and every word outside the RAM. -/
theorem Private.serve {mem : Memory} (h : Private vm mem s m)
    (haligned : 8 ∣ vm.ramPhysicalBaseAddress) (accesses : List Access) :
    (Answers.serve (fun s access => access.exec vm s) s accesses).1 =
        (Answers.serve (fun m access => access.execOwn vm m) m accesses).1 ∧
      Private vm mem (Answers.serve (fun s access => access.exec vm s) s accesses).2
        (Answers.serve (fun m access => access.execOwn vm m) m accesses).2 :=
  Answers.serve_related (fun _ _ access hrel => hrel.exec haligned access) accesses h

end Accesses

/-! ## New machines -/

/-- The RAM of a machine on page boundaries, within both address ranges. -/
structure VM.Sound (vm : VM) : Prop where
  physical : 4096 ∣ vm.ramPhysicalBaseAddress
  virtual : 4096 ∣ vm.ramVirtualBaseAddress
  size : 4096 ∣ vm.ramSize ∧ 0 < vm.ramSize
  input : vm.ramVirtualBaseAddress + vm.ramSize ≤ 2 ^ 32
  output : vm.ramPhysicalBaseAddress + vm.ramSize ≤ 2 ^ 48

/-- The mapping of the RAM. -/
def VM.call (vm : VM) : Call :=
  ⟨vm.ramPhysicalBaseAddress, vm.ramVirtualBaseAddress, vm.ramSize, true, true⟩

/-- Fresh tables with one mapping, taken from pages apart from the RAM. -/
theorem mapped_private {η : Type} {owns : η → List Extent → Prop} {allocatePages : AllocatePages η}
    (hsource : PageSource allocatePages owns) {idAa64mmfr0El1 : BitVec 64} {s s₁ s₂ : Stage2 η}
    {live : List Extent} {vm : VM} (hvm : vm.Sound) (howns : owns s.heap live)
    (hinit : initStage2TranslationTable allocatePages idAa64mmfr0El1 s = .ok s₁)
    (hroot : rootTable s₁ < 2 ^ 47) (hmap : mapStep allocatePages s₁ vm.call = .ok s₂)
    (htables : ∀ heap live, owns heap live → ∀ e ∈ live, e.size ≤ 8 * 4096 →
      Extent.Apart e vm.ram) : Private vm s₂.mem s₂ (image vm s₂.mem) := by
  obtain ⟨hbuilt, hnone⟩ := initStage2TranslationTable_spec hsource howns hinit hroot
  have hinput : vm.ramVirtualBaseAddress + vm.ramSize ≤ 2 ^ inputBits s₁.vtcrEl2 := by
    rw [hbuilt.sound.input]
    exact hvm.input.trans (Nat.pow_le_pow_right (by decide) hbuilt.sound.large)
  have hvalid : vm.call.Valid (2 ^ inputBits s₁.vtcrEl2) :=
    ⟨hvm.physical, hvm.virtual, hvm.size.1, hvm.size.2, hinput, hvm.output⟩
  obtain ⟨hbuilt', -, hwalk⟩ := mapStep_spec hsource hbuilt hvalid (fun x _ => hnone x) hmap
  refine ⟨⟨_, _, hbuilt'.apart (htables _)⟩, ?_, ?_, fun _ _ => rfl⟩
  · intro x
    rw [hwalk x, hnone x, VM.getPhysicalAddress]
    by_cases hx : vm.call.Covers x
    · have hin : vm.ramVirtualBaseAddress ≤ x ∧ x < vm.ramVirtualBaseAddress + vm.ramSize := hx
      rw [if_pos hx, if_pos hin, Nat.add_comm]
      rfl
    · have hout : ¬ (vm.ramVirtualBaseAddress ≤ x ∧ x < vm.ramVirtualBaseAddress + vm.ramSize) := hx
      rw [if_neg hx, if_neg hout]
      rfl
  · intro x a hx
    rw [image, hx]
    rfl

/-- A run of accesses by the guest and its devices is answered as in a memory of the guest's
own, which is all that the run changes. -/
structure OwnMemory {η : Type} (vm : VM) (s : Stage2 η) (accesses : List Access) : Prop where
  answers : (Answers.serve (fun s access => Access.exec vm s access) s accesses).1 =
    (Answers.serve (fun m access => Access.execOwn vm m access) (image vm s.mem) accesses).1
  bytes : ∀ x a, vm.getPhysicalAddress x = some a →
    WordBytes.load (Answers.serve (fun s access => Access.exec vm s access) s accesses).2.mem a =
      (Answers.serve (fun m access => Access.execOwn vm m access) (image vm s.mem) accesses).2 x
  translation : ∀ x,
    stage2Walk (Answers.serve (fun s access => Access.exec vm s access) s accesses).2 x =
      stage2Walk s x
  outside : ∀ w, ¬ (vm.ram.start ≤ w ∧ w < vm.ram.stop) →
    (Answers.serve (fun s access => Access.exec vm s access) s accesses).2.mem w = s.mem w

theorem Private.ownMemory {η : Type} {vm : VM} {s : Stage2 η}
    (h : Private vm s.mem s (image vm s.mem)) (haligned : 8 ∣ vm.ramPhysicalBaseAddress)
    (accesses : List Access) : OwnMemory vm s accesses := by
  obtain ⟨hanswers, hprivate⟩ := h.serve haligned accesses
  refine ⟨hanswers, hprivate.bytes, fun x => ?_, hprivate.outside⟩
  rw [hprivate.walk x, h.walk x]

/-- The guest of a new machine has its memory to itself, if the root table lies below `2 ^ 47`. -/
theorem createVm_ownMemory {lo hi : ℕ} (hhi : hi ≤ 2 ^ 48) (idAa64mmfr0El1 : BitVec 64)
    (s s' : Stage2 LinkedList.LinkedListAllocator) (vm : VM) (live : List Extent)
    (howns : HeapOwns lo hi s.heap live) (h : createVm idAa64mmfr0El1 s = .ok (vm, s'))
    (hroot : rootTable s' < 2 ^ 47) (accesses : List Access) : OwnMemory vm s' accesses := by
  obtain ⟨ram, heap, s₁, halloc, hinit, hmap, rfl⟩ := createVm_ok h
  rw [rootTable, (mapStep_registers hmap).2, ← rootTable] at hroot
  obtain ⟨hdvd, hbound, -, howns₁⟩ := (linkedList_pageSource hhi).fresh (by decide) (by decide)
    (by decide) howns halloc
  have hvm : VM.Sound ⟨ramVirtualBase, ram, ramSize⟩ :=
    ⟨hdvd, show 4096 ∣ ramVirtualBase by decide, show 4096 ∣ ramSize ∧ 0 < ramSize by decide,
      show ramVirtualBase + ramSize ≤ 2 ^ 32 by decide, hbound⟩
  refine (mapped_private (pageSource_keeping lo hhi ⟨ram, 0x10000 * 4096⟩) hvm
    ⟨howns₁, List.mem_cons_self⟩ hinit hroot hmap ?_).ownMemory
      ((by decide : 8 ∣ 4096).trans hdvd) accesses
  -- The block of the RAM is too large to be one of a table.
  intro heap' live' howns' e he hsize
  refine live_apart howns'.1 he howns'.2 ?_
  intro heq
  rw [heq] at hsize
  exact absurd hsize (show ¬ ramSize ≤ 8 * 4096 by decide)

/-- A store that the guest and a device read back, and an access to what is not mapped. -/
def sampleAccesses : List Access :=
  [.store 0x40000123 7, .load 0x40000123, .deviceLoad 0x40000123, .load 0x60000000]

set_option maxRecDepth 20000 in
theorem createVm_ownMemory_sample :
    ∃ vm s, createVm 2 (machineAt 0x50000000 0x20000000) = .ok (vm, s) ∧
      (Answers.serve (fun s access => Access.exec vm s access) s sampleAccesses).1 =
        [some 7, some 7, some 7, none] := by
  obtain ⟨s, hok, hroot⟩ : ∃ s, createVm 2 (machineAt 0x50000000 0x20000000) =
        .ok (⟨ramVirtualBase, 0x50000000, ramSize⟩, s) ∧ rootTable s = 0x60000000 :=
    ⟨_, rfl, rfl⟩
  have hown := createVm_ownMemory (by decide) 2 (machineAt 0x50000000 0x20000000) s
    ⟨ramVirtualBase, 0x50000000, ramSize⟩ [] (machineAt_owns (by decide) (by decide)) hok
    (by rw [hroot]; decide) sampleAccesses
  refine ⟨_, s, hok, ?_⟩
  rw [hown.answers]
  simp [Answers.serve, sampleAccesses, Access.execOwn, Access.address, VM.getPhysicalAddress,
    ramVirtualBase, ramSize]

/-! ## The Raspberry Pi -/

namespace Rpi4

/-- The steps of `create_vm` that build the memory of the machine. -/
def createVm (idAa64mmfr0El1 : BitVec 64) (s : Stage2 LinkedList.LinkedListAllocator) :
    Except Panic (Stage2 LinkedList.LinkedListAllocator) := do
  let s ← initStage2TranslationTable LinkedList.allocatePages idAa64mmfr0El1 s
  match ← mapAddressStage2 LinkedList.allocatePages s SetupMemory.hostRamBase
    Boot.Rpi4.guestRamBase SetupMemory.ramSize true true with
  | (.error (), _) => throw .unwrapNone
  | (.ok (), s) => return s

theorem createVm_ok {idAa64mmfr0El1 : BitVec 64} {s s' : Stage2 LinkedList.LinkedListAllocator}
    (h : createVm idAa64mmfr0El1 s = .ok s') :
    ∃ s₁, initStage2TranslationTable LinkedList.allocatePages idAa64mmfr0El1 s = .ok s₁ ∧
      mapStep LinkedList.allocatePages s₁ Boot.Rpi4.vm.call = .ok s' := by
  obtain ⟨s₁, hinit, h⟩ := Checked.bind_eq_ok.mp h
  obtain ⟨⟨result, s₂⟩, hmap, h⟩ := Checked.bind_eq_ok.mp h
  cases result with
  | error e => cases h
  | ok u =>
    cases h
    refine ⟨s₁, hinit, ?_⟩
    rw [mapStep_eq_ok]
    exact hmap

/-- A heap that `init` accepts holds no block yet. -/
theorem init_owns {lo size : ℕ} {heap : LinkedList.LinkedListAllocator}
    (h : LinkedList.init lo size = .ok heap) : HeapOwns lo (lo + size) heap [] := by
  unfold LinkedList.init LinkedList.addFreeRegion LinkedList.alignUp at h
  obtain ⟨aligned, haligned, h⟩ := Checked.bind_eq_ok.mp h
  obtain ⟨-, hdvd, -⟩ := Checked.nextMultipleOf_eq_ok haligned
  by_cases hlo : aligned = lo
  · subst hlo
    by_cases hsmall : size < LinkedList.listNodeSize
    · simp [hsmall] at h
    · simp only [hsmall, ne_eq, not_true_eq_false, if_false, Checked.pure_eq_ok,
        Except.ok.injEq] at h
      subst h
      exact machineAt_owns hdvd (not_lt.mp hsmall)
  · simp [hlo] at h

/-- All blocks of a heap lie within it. -/
theorem live_within {lo hi : ℕ} {heap : LinkedList.LinkedListAllocator} {live : List Extent}
    (h : HeapOwns lo hi heap live) {e : Extent} (he : e ∈ live) : e.Within lo hi := by
  obtain ⟨answers, hinv⟩ := h
  have hwithin := hinv.within (LinkedList.rounded e)
    (List.mem_append_right _ (List.mem_map_of_mem he))
  have hround := LinkedList.le_roundedSize e.size
  simp only [Extent.Within, Extent.stop, LinkedList.rounded] at hwithin ⊢
  omega

variable {d : Dtb} {fuel dtbAddress elfAddress stackPointer linuxImageAddress : ℕ}
  {heap : LinkedList.LinkedListAllocator}

/-- The heap that `setup_memory` leaves, with its bounds. -/
theorem setupMemory_owns (h : SetupMemory.setupMemory d fuel dtbAddress elfAddress stackPointer
      linuxImageAddress = .ok heap) :
    ∃ lo, HeapOwns lo (min (SetupMemory.stackOf stackPointer).start linuxImageAddress) heap [] := by
  unfold SetupMemory.setupMemory at h
  obtain ⟨-, -, h⟩ := Checked.bind_eq_ok.mp h
  obtain ⟨lo, -, h⟩ := Checked.bind_eq_ok.mp h
  obtain ⟨stack, hstack, h⟩ := Checked.bind_eq_ok.mp h
  obtain ⟨_, hlt, h⟩ := Checked.bind_eq_ok.mp h
  rw [SetupMemory.ensure_eq_ok] at hlt
  obtain rfl := SetupMemory.reserveStack_ok hstack
  refine ⟨lo, ?_⟩
  cases hinit : LinkedList.init lo
      (min (SetupMemory.stackOf stackPointer).start linuxImageAddress - lo) with
  | error e =>
    rw [hinit] at h
    cases h
  | ok a =>
    rw [hinit] at h
    cases h
    have howns := init_owns hinit
    rwa [Nat.add_sub_cancel' hlt.le] at howns

/-- A guest whose image was loaded at the start of its RAM, or below which the stack ends the
heap, has its memory to itself. -/
theorem setupMemory_ownMemory (hsetup : SetupMemory.setupMemory d fuel dtbAddress elfAddress
      stackPointer linuxImageAddress = .ok heap)
    (himage : linuxImageAddress = SetupMemory.hostRamBase ∨
      (SetupMemory.stackOf stackPointer).start ≤ SetupMemory.hostRamBase)
    (idAa64mmfr0El1 : BitVec 64) (mem : Memory) (vtcrEl2 vttbrEl2 : BitVec 64)
    (s' : Stage2 LinkedList.LinkedListAllocator)
    (h : createVm idAa64mmfr0El1 ⟨mem, heap, vtcrEl2, vttbrEl2⟩ = .ok s')
    (accesses : List Access) : OwnMemory Boot.Rpi4.vm s' accesses := by
  obtain ⟨lo, howns⟩ := setupMemory_owns hsetup
  have hhi : min (SetupMemory.stackOf stackPointer).start linuxImageAddress ≤
      SetupMemory.hostRamBase := by
    rcases himage with himage | hstack
    · exact (min_le_right _ _).trans himage.le
    · exact (min_le_left _ _).trans hstack
  generalize min (SetupMemory.stackOf stackPointer).start linuxImageAddress = hi at howns hhi
  have hbase : SetupMemory.hostRamBase = 0x10000000 := rfl
  obtain ⟨s₁, hinit, hmap⟩ := createVm_ok h
  have hsource := @linkedList_pageSource lo hi (show hi ≤ 2 ^ 48 by omega)
  have hvm : Boot.Rpi4.vm.Sound := ⟨by decide, by decide, by decide, by decide, by decide⟩
  -- The root table lies in the heap, far below the bits that the mapper masks.
  have hroot : rootTable s₁ < 2 ^ 47 := by
    obtain ⟨-, -, -, -, -, howns₁⟩ := initStage2TranslationTable_ok hsource rfl howns hinit
    have hwithin := live_within howns₁ List.mem_cons_self
    simp only [Extent.Within, Extent.stop] at hwithin
    omega
  refine (mapped_private hsource hvm howns hinit hroot hmap ?_).ownMemory (by decide) accesses
  intro heap' live' howns' e he _
  have hwithin := live_within howns' he
  simp only [Extent.Within, Extent.Apart] at hwithin ⊢
  exact .inl (hwithin.2.trans hhi)

set_option maxRecDepth 20000 in
theorem setupMemory_ownMemory_board :
    ∃ heap s, SetupMemory.setupMemory ⟨SetupMemory.boardMem 0x10000000, 0x2e000000⟩ 100 0x2e000000
        0x1000000 0x3b400000 0x10000000 = .ok heap ∧
      createVm 2 ⟨fun _ => 0, heap, 0, 0⟩ = .ok s ∧
      (Answers.serve (fun s access => Access.exec Boot.Rpi4.vm s access) s sampleAccesses).1 =
        [some 7, some 7, some 7, none] := by
  have hsetup : SetupMemory.setupMemory ⟨SetupMemory.boardMem 0x10000000, 0x2e000000⟩ 100
      0x2e000000 0x1000000 0x3b400000 0x10000000 = .ok ⟨[⟨0x180000, 0xfe80000⟩]⟩ := by
    decide +kernel
  obtain ⟨s, hok⟩ : ∃ s, createVm 2 ⟨fun _ => 0, ⟨[⟨0x180000, 0xfe80000⟩]⟩, 0, 0⟩ = .ok s :=
    ⟨_, rfl⟩
  have hown := setupMemory_ownMemory hsetup (.inl rfl) 2 (fun _ => 0) 0 0 s hok sampleAccesses
  refine ⟨_, s, hsetup, hok, ?_⟩
  rw [hown.answers]
  simp [Answers.serve, sampleAccesses, Access.execOwn, Access.address, VM.getPhysicalAddress,
    Boot.Rpi4.vm, Boot.Rpi4.guestRamBase, SetupMemory.ramSize]

end Rpi4

end Min1visor.Vm
