import Min1visor.VirtioBlkDriver

/-!
# The driver's handshake with the block device

Before its first request the driver checks what the device is, resets it, and hands over
the page number of a queue in fresh zeroed pages. Driver and device then compute the
places of the rings on their own, the driver from the types of the rings and the device
from the size of the queue.
-/
namespace Min1visor.VirtioDriver
open Fat Fat.Fat32 Virtio

def virtioMmioDriverFeatures : ℕ := 0x020
def virtioMmioQueueSel : ℕ := 0x030

def virtioDeviceStatusAcknowledge : BitVec 32 := 1
def virtioDeviceStatusDriver : BitVec 32 := 2
def virtioDeviceStatusDriverOk : BitVec 32 := 4
def virtioDeviceStatusFeaturesOk : BitVec 32 := 8

/-- Whether the disk can only be read. -/
def virtioBlkFRo : BitVec 32 := 1 <<< 5

def virtioPageShift : ℕ := 12
def virtioPageSize : ℕ := 1 <<< virtioPageShift

/-- The sizes of the two rings, the second one with its padding. -/
def sizeOfAvail : ℕ := 2 + 2 + 2 * numberOfDescriptors + 2
def sizeOfUsed : ℕ := 2 + 2 + sizeOfUsedElement * numberOfDescriptors + 2 + 2

def numberOfPagesQueue : ℕ :=
  (((sizeOfDesc * numberOfDescriptors + sizeOfAvail) >>> virtioPageShift) + 1) +
    ((sizeOfUsed >>> virtioPageShift) + 1)

/-- The registers of a device, as volatile accesses of 32 bits relative to its base. -/
structure Registers (σ : Type) where
  read : σ → ℕ → Except Panic (BitVec 32)
  write : σ → ℕ → BitVec 32 → Except Panic σ

/-- What the handshake changes: the device, the memory and the page allocator. -/
structure Setup (σ η : Type) where
  device : σ
  mem : Bytes
  heap : η

/-- The pointers of the driver. -/
structure Queue where
  descriptors : ℕ
  avail : ℕ
  used : ℕ
  deriving DecidableEq

variable {σ η : Type}

abbrev Handshake (σ η : Type) := Prog (Setup σ η) Stop

namespace Handshake

/-- A computation that may panic. -/
def checked {α : Type} (x : Except Panic α) : Handshake σ η α :=
  .lift (match x with
    | .ok a => .ok a
    | .error p => .error (.panic p))

def readRegister (regs : Registers σ) (offset : ℕ) : Handshake σ η (BitVec 32) := do
  checked (regs.read (← .get).device offset)

def writeRegister (regs : Registers σ) (offset : ℕ) (data : BitVec 32) : Handshake σ η Unit := do
  let device ← checked (regs.write (← .get).device offset data)
  .modify fun s => { s with device := device }

/-- A bit is added to the status. -/
def addStatus (regs : Registers σ) (bit : BitVec 32) : Handshake σ η Unit := do
  let status ← readRegister regs virtioMmioStatus
  writeRegister regs virtioMmioStatus (status ||| bit)

/-- `Err` if something is wrong. -/
def refuse (p : Prop) [Decidable p] : Handshake σ η Unit :=
  if p then .stop .err else pure ()

/-- Zeroed pages for the queue. -/
def allocateQueue (pages : Pages η) : Handshake σ η ℕ := do
  match ← checked (pages.allocatePages (← .get).heap numberOfPagesQueue virtioPageShift) with
  | (none, _) => .stop (.panic .unwrapNone)
  | (some queue, heap) =>
    let size := numberOfPagesQueue <<< virtioPageShift
    .modify fun s => { s with heap := heap, mem := Bytes.store s.mem queue size 0 }
    return queue

/-- The places of the rings, from the type of the available ring. -/
def placeQueue (queue : ℕ) : Except Panic Queue := do
  let avail ← Checked.add 64 queue (sizeOfDesc * numberOfDescriptors)
  let last ← Checked.sub (← Checked.add 64 avail sizeOfAvail) 1
  let used ← Checked.add 64 (last &&& (2 ^ 64 - 1 - (virtioPageSize - 1))) virtioPageSize
  return ⟨queue, avail, used⟩

end Handshake

open Handshake

/-- `VirtioBlk::new`, to the driver and its pointers. -/
def VirtioBlk.attach (regs : Registers σ) (pages : Pages η) : Handshake σ η (VirtioBlk × Queue) := do
  refuse ((← readRegister regs virtioMmioMagic) ≠ BitVec.ofNat 32 virtioMmioMagicValue)
  refuse ((← readRegister regs virtioMmioVersion) ≠ 1)
  refuse ((← readRegister regs virtioMmioDeviceId) ≠ 2)
  refuse ((← readRegister regs virtioMmioVendorId) ≠ 0x554d4551)
  writeRegister regs virtioMmioStatus 0
  addStatus regs virtioDeviceStatusAcknowledge
  addStatus regs virtioDeviceStatusDriver
  let features ← readRegister regs virtioMmioDeviceFeatures
  refuse (features &&& virtioBlkFRo ≠ 0)
  -- No feature of the device is asked for.
  writeRegister regs virtioMmioDriverFeatures 0
  addStatus regs virtioDeviceStatusFeaturesOk
  writeRegister regs virtioMmioGuestPageSize (BitVec.ofNat 32 virtioPageSize)
  writeRegister regs virtioMmioQueueSel 0
  let queueMax ← readRegister regs virtioMmioQueueNumMax
  refuse (queueMax.toNat < numberOfDescriptors)
  writeRegister regs virtioMmioQueueNum (BitVec.ofNat 32 numberOfDescriptors)
  let queue ← allocateQueue pages
  writeRegister regs virtioMmioQueuePfn (BitVec.ofNat 32 (queue >>> virtioPageShift))
  addStatus regs virtioDeviceStatusDriverOk
  return (.new, ← checked (placeQueue queue))

/-- The emulated device, as a guest of the machine reaches it. -/
def emulated (vm : Vm.VM) : Registers VirtioBlkMmio where
  read v offset := do return BitVec.ofNat 32 (← v.read offset)
  write v offset data := do return (← v.write vm offset (data.setWidth 64)).1

/-! ## The handshake on the emulated device -/

section Emulated
variable (vm : Vm.VM) {v w : VirtioBlkMmio} (mem : Bytes) (heap : η)

theorem readRegister_emulated {offset n : ℕ} (h : v.read offset = .ok n) :
    readRegister (emulated vm) offset (⟨v, mem, heap⟩ : Setup VirtioBlkMmio η) =
      (.ok (BitVec.ofNat 32 n), ⟨v, mem, heap⟩) := by
  simp only [readRegister, emulated, checked, Prog.bind_apply, Prog.get_apply, h, Checked.ok_bind,
    Checked.pure_eq_ok, Prog.lift_apply]

theorem writeRegister_emulated {offset : ℕ} {data : BitVec 32} {b : Bool}
    (h : v.write vm offset (data.setWidth 64) = .ok (w, b)) :
    writeRegister (emulated vm) offset data (⟨v, mem, heap⟩ : Setup VirtioBlkMmio η) =
      (.ok (), ⟨w, mem, heap⟩) := by
  simp only [writeRegister, emulated, checked, Prog.bind_apply, Prog.get_apply, h, Checked.ok_bind,
    Checked.pure_eq_ok, Prog.lift_apply, Prog.modify_apply]

/-- A status that is not 0 is stored as it is. -/
theorem addStatus_emulated {bit status : BitVec 32} (h : v.status ||| bit = status)
    (hne : status ≠ 0) :
    addStatus (emulated vm) bit (⟨v, mem, heap⟩ : Setup VirtioBlkMmio η) =
      (.ok (), ⟨{ v with status := status }, mem, heap⟩) := by
  have hstatus : BitVec.ofNat 32 v.status.toNat = v.status := by
    rw [BitVec.ofNat_toNat, BitVec.setWidth_eq]
  have hback : (status.setWidth 64).setWidth 32 = status := by
    rw [BitVec.setWidth_setWidth_of_le _ (by decide), BitVec.setWidth_eq]
  have hwide : status.setWidth 64 ≠ 0 := by
    intro hzero
    rw [hzero] at hback
    exact hne hback.symm
  have hwrite : v.write vm virtioMmioStatus (status.setWidth 64) =
      .ok ({ v with status := status }, false) := by
    change (if status.setWidth 64 = 0 then _ else _) = _
    rw [if_neg hwide, hback]
  rw [addStatus, Prog.bind_apply, readRegister_emulated vm mem heap
    (show v.read virtioMmioStatus = .ok v.status.toNat from rfl), hstatus]
  subst h
  exact writeRegister_emulated vm mem heap hwrite

end Emulated

theorem refuse_false {p : Prop} [Decidable p] (h : ¬ p) (s : Setup σ η) :
    (refuse p : Handshake σ η Unit) s = (.ok (), s) := by
  rw [refuse, if_neg h, Prog.pure_apply]

/-- A device with a queue of the driver, its table at a host address. -/
def attached (v : VirtioBlkMmio) (table : ℕ) : VirtioBlkMmio :=
  { v.reset with
    status := 15
    queueSize := numberOfDescriptors
    pageSize := virtioPageSize
    descriptor := table
    availRing := table + sizeOfDesc * numberOfDescriptors
    usedRing := table + virtioPageSize }

/-- The mask clears the offset in a page. -/
theorem mask_page {x : ℕ} (hx : x < 2 ^ 64) :
    x &&& (2 ^ 64 - 1 - (virtioPageSize - 1)) = x / 4096 * 4096 := by
  have hmask : 2 ^ 64 - 1 - (virtioPageSize - 1) = (2 ^ 52 - 1) <<< 12 := by decide
  have hpage : x / 4096 * 4096 = (x >>> 12) <<< 12 := by
    rw [Nat.shiftLeft_eq, Nat.shiftRight_eq_div_pow]
  rw [hmask, hpage]
  apply Nat.eq_of_testBit_eq
  intro i
  rw [Nat.testBit_and, Nat.testBit_shiftLeft, Nat.testBit_shiftLeft, Nat.testBit_shiftRight,
    Nat.testBit_two_pow_sub_one]
  by_cases hi : 12 ≤ i
  · rw [Nat.add_sub_cancel' hi]
    by_cases hlt : i < 64
    · simp [hi, show i - 12 < 52 by omega]
    · have hhigh : x.testBit i = false :=
        Nat.testBit_lt_two_pow (hx.trans_le (Nat.pow_le_pow_right (by decide) (not_lt.mp hlt)))
      simp [hhigh]
  · simp [hi]

/-- The rings of a queue on a page, as the driver places them. -/
theorem placeQueue_ok {queue : ℕ} (haligned : 4096 ∣ queue) (hhigh : queue + 8192 ≤ 2 ^ 64) :
    placeQueue queue = .ok ⟨queue, queue + 1024, queue + 4096⟩ := by
  have htable : sizeOfDesc * numberOfDescriptors = 1024 := rfl
  have havail : sizeOfAvail = 134 := rfl
  have hpage : virtioPageSize = 4096 := rfl
  have hlast : (queue + 1024 + 134 - 1) / 4096 * 4096 = queue := by omega
  rw [placeQueue, htable, havail, Checked.add_ok (show queue + 1024 < 2 ^ 64 by omega),
    Checked.ok_bind, Checked.add_ok (show queue + 1024 + 134 < 2 ^ 64 by omega), Checked.ok_bind,
    Checked.sub_ok (show 1 ≤ queue + 1024 + 134 by omega), Checked.ok_bind,
    mask_page (show queue + 1024 + 134 - 1 < 2 ^ 64 by omega), hlast, hpage,
    Checked.add_ok (show queue + 4096 < 2 ^ 64 by omega), Checked.ok_bind, Checked.pure_eq_ok]

/-- The rings of the same queue, as the device places them. -/
theorem placeRings_page {v : VirtioBlkMmio} (hsize : v.queueSize = numberOfDescriptors)
    (hpage : v.pageSize = virtioPageSize) (haligned : 4096 ∣ v.descriptor)
    (hhigh : v.descriptor + 8192 ≤ 2 ^ 64) :
    v.placeRings =
      .ok { v with availRing := v.descriptor + 1024, usedRing := v.descriptor + 4096 } := by
  have htable : sizeOfDesc * numberOfDescriptors = 1024 := rfl
  have hentries : 3 + numberOfDescriptors = 67 := rfl
  have hring : 2 * 67 = 134 := rfl
  have hp : virtioPageSize = 4096 := rfl
  have hlast : (v.descriptor + 1024 + 134 - 1) / 4096 * 4096 = v.descriptor := by omega
  rw [VirtioBlkMmio.placeRings, hsize, hpage, Checked.mul_ok (show sizeOfDesc * numberOfDescriptors
    < 2 ^ 64 by decide), Checked.ok_bind, htable,
    Checked.add_ok (show v.descriptor + 1024 < 2 ^ 64 by omega), Checked.ok_bind,
    Checked.add_ok (show 3 + numberOfDescriptors < 2 ^ 64 by decide), Checked.ok_bind, hentries,
    Checked.mul_ok (show 2 * 67 < 2 ^ 64 by decide), Checked.ok_bind, hring,
    Checked.add_ok (show v.descriptor + 1024 + 134 < 2 ^ 64 by omega), Checked.ok_bind,
    Checked.sub_ok (show 1 ≤ v.descriptor + 1024 + 134 by omega), Checked.ok_bind,
    Checked.sub_ok (show 1 ≤ virtioPageSize by decide), Checked.ok_bind,
    mask_page (show v.descriptor + 1024 + 134 - 1 < 2 ^ 64 by omega), hlast, hp,
    Checked.add_ok (show v.descriptor + 4096 < 2 ^ 64 by omega), Checked.ok_bind,
    Checked.pure_eq_ok]

/-- The write of the page number of the queue. -/
theorem write_pfn {vm : Vm.VM} {v : VirtioBlkMmio} {queue table : ℕ} (haligned : 4096 ∣ queue)
    (hlow : queue < 2 ^ 44) (haddress : vm.getPhysicalAddress queue = some table)
    (htable : 4096 ∣ table) (hhigh : table + 8192 ≤ 2 ^ 64)
    (hsize : v.queueSize = numberOfDescriptors) (hpage : v.pageSize = virtioPageSize) :
    v.write vm virtioMmioQueuePfn ((BitVec.ofNat 32 (queue >>> virtioPageShift)).setWidth 64) =
      .ok ({ v with descriptor := table, availRing := table + 1024, usedRing := table + 4096 },
        false) := by
  have hvalue : ((BitVec.ofNat 32 (queue >>> virtioPageShift)).setWidth 64).toNat = queue / 4096 := by
    have hshift : queue >>> virtioPageShift = queue / 4096 := Nat.shiftRight_eq_div_pow queue 12
    rw [BitVec.toNat_setWidth, BitVec.toNat_ofNat, hshift, Nat.mod_eq_of_lt (by omega),
      Nat.mod_eq_of_lt (by omega)]
  have hmul : Checked.mul 64 (queue / 4096) v.pageSize = .ok queue := by
    have hproduct : queue / 4096 * virtioPageSize = queue := Nat.div_mul_cancel haligned
    rw [hpage, Checked.mul_ok (by rw [hproduct]; omega), hproduct]
  have hring := placeRings_page (v := { v with descriptor := table }) hsize hpage htable hhigh
  unfold VirtioBlkMmio.write
  rw [if_neg (by decide), if_neg (by decide), if_pos rfl, hvalue, hmul, Checked.ok_bind, haddress]
  dsimp only
  rw [hring, Checked.ok_bind, Checked.pure_eq_ok]

/-- The write of the size of the queue, before a table is known. -/
theorem write_queueNum (vm : Vm.VM) (v : VirtioBlkMmio) (hdescriptor : v.descriptor = 0)
    (hpage : v.pageSize = virtioPageSize) :
    v.write vm virtioMmioQueueNum ((BitVec.ofNat 32 numberOfDescriptors).setWidth 64) =
      .ok ({ v with
        queueSize := numberOfDescriptors
        availRing := 1024
        usedRing := 4096 }, false) := by
  have hwrite : v.write vm virtioMmioQueueNum ((BitVec.ofNat 32 numberOfDescriptors).setWidth 64) =
      (do return (← VirtioBlkMmio.placeRings { v with queueSize := numberOfDescriptors }, false)) :=
    rfl
  have hplace := placeRings_page (v := { v with queueSize := numberOfDescriptors }) rfl hpage
    (by rw [hdescriptor]; exact dvd_zero _) (by rw [hdescriptor]; decide)
  rw [hwrite, hplace, Checked.ok_bind, Checked.pure_eq_ok, hdescriptor]

theorem allocateQueue_ok {pages : Pages η} (device : σ) (mem : Bytes) {heap heap' : η} {queue : ℕ}
    (h : pages.allocatePages heap numberOfPagesQueue virtioPageShift = .ok (some queue, heap')) :
    allocateQueue pages (⟨device, mem, heap⟩ : Setup σ η) =
      (.ok queue, ⟨device, Bytes.store mem queue 8192 0, heap'⟩) := by
  have hsize : numberOfPagesQueue <<< virtioPageShift = 8192 := rfl
  simp only [allocateQueue, checked, Prog.bind_apply, Prog.get_apply, h, Prog.lift_apply,
    Prog.modify_apply, Prog.pure_apply, hsize]

/-- Whatever state the device is in, the handshake ends with both sides agreed on a queue
whose rings lie in the fresh pages. -/
theorem attach_emulated (vm : Vm.VM) (pages : Pages η) (s : Setup VirtioBlkMmio η)
    {queue table : ℕ} {heap : η}
    (halloc : pages.allocatePages s.heap numberOfPagesQueue virtioPageShift = .ok (some queue, heap))
    (haligned : 4096 ∣ queue) (hlow : queue < 2 ^ 44)
    (haddress : vm.getPhysicalAddress queue = some table) (htable : 4096 ∣ table)
    (hhigh : table + 8192 ≤ 2 ^ 64) :
    VirtioBlk.attach (emulated vm) pages s =
      (.ok (.new, ⟨queue, queue + 1024, queue + 4096⟩),
        ⟨attached s.device table, Bytes.store s.mem queue 8192 0, heap⟩) := by
  obtain ⟨v, mem, heap₀⟩ := s
  suffices h : Prog.Yields (fun result last =>
      (result, last) = (Except.ok (VirtioBlk.new, (⟨queue, queue + 1024, queue + 4096⟩ : Queue)),
        (⟨attached v table, Bytes.store mem queue 8192 0, heap⟩ : Setup VirtioBlkMmio η)))
      (VirtioBlk.attach (emulated vm) pages) ⟨v, mem, heap₀⟩ from h
  -- What the device is.
  refine .bind_ok (readRegister_emulated vm mem heap₀ (n := virtioMmioMagicValue) rfl) ?_
  refine .bind_ok (refuse_false (by decide) _) ?_
  refine .bind_ok (readRegister_emulated vm mem heap₀ (n := 1) rfl) ?_
  refine .bind_ok (refuse_false (by decide) _) ?_
  refine .bind_ok (readRegister_emulated vm mem heap₀ (n := 2) rfl) ?_
  refine .bind_ok (refuse_false (by decide) _) ?_
  refine .bind_ok (readRegister_emulated vm mem heap₀ (n := 0x554d4551) rfl) ?_
  refine .bind_ok (refuse_false (by decide) _) ?_
  -- The reset clears the status, to which one bit after the other is added.
  refine .bind_ok (writeRegister_emulated vm mem heap₀ (w := v.reset) (b := false) rfl) ?_
  refine .bind_ok (addStatus_emulated vm mem heap₀ (show (0 ||| 1 : BitVec 32) = 1 by decide)
    (by decide)) ?_
  refine .bind_ok (addStatus_emulated vm mem heap₀ (show (1 ||| 2 : BitVec 32) = 3 by decide)
    (by decide)) ?_
  refine .bind_ok (readRegister_emulated vm mem heap₀ (n := 0) rfl) ?_
  refine .bind_ok (refuse_false (by decide) _) ?_
  refine .bind_ok (writeRegister_emulated vm mem heap₀ (b := false) rfl) ?_
  refine .bind_ok (addStatus_emulated vm mem heap₀ (show (3 ||| 8 : BitVec 32) = 11 by decide)
    (by decide)) ?_
  -- The size of the queue moves the rings of a table at 0, then the page number all of them.
  refine .bind_ok (writeRegister_emulated vm mem heap₀ (b := false) rfl) ?_
  refine .bind_ok (writeRegister_emulated vm mem heap₀ (b := false) rfl) ?_
  refine .bind_ok (readRegister_emulated vm mem heap₀ (n := 1024) rfl) ?_
  refine .bind_ok (refuse_false (by decide) _) ?_
  refine .bind_ok (writeRegister_emulated vm mem heap₀ (write_queueNum vm _ rfl rfl)) ?_
  refine .bind_ok (allocateQueue_ok _ mem halloc) ?_
  refine .bind_ok (writeRegister_emulated vm _ heap
    (write_pfn haligned hlow haddress htable hhigh rfl rfl)) ?_
  refine .bind_ok (addStatus_emulated vm _ heap (show (11 ||| 4 : BitVec 32) = 15 by decide)
    (by decide)) ?_
  have hplace : placeQueue queue = .ok ⟨queue, queue + 1024, queue + 4096⟩ :=
    placeQueue_ok haligned (by omega)
  rw [hplace]
  rfl

/-- An allocator that has the pages at an address. -/
def pagesAt (queue : ℕ) : Pages Unit := ⟨fun _ _ _ => .ok (some queue, ()), fun _ _ _ => .ok ()⟩

theorem attach_emulated_sample :
    VirtioBlk.attach (emulated sampleVm) (pagesAt 0x44000000)
      (⟨sampleDevice, fun _ => 7, ()⟩ : Setup VirtioBlkMmio Unit) =
        (.ok (.new, ⟨0x44000000, 0x44000000 + 1024, 0x44000000 + 4096⟩),
          ⟨attached sampleDevice 0x54000000, Bytes.store (fun _ => 7) 0x44000000 8192 0, ()⟩) :=
  attach_emulated sampleVm (pagesAt 0x44000000) ⟨sampleDevice, fun _ => 7, ()⟩ rfl (by decide)
    (by decide) (by decide) (by decide) (by decide)

end Min1visor.VirtioDriver
