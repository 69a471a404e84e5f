import Min1visor.VirtioBlkMmio

/-!
# Rules for the turns of the virtio handler

What a turn of either loop can do, as one relation for each of its parts. A rule
has the tests that lead to it as premises, in terms of the registers and the guest
memory before the turn, and the whole state behind it as conclusion.
-/
namespace Min1visor.Virtio
open Vgicv3 Gicv3Mmio Fat Fat.Fat32

variable {η : Type}

/-- Either call of the file system, behind its clamping. -/
def FileBody.call (body : FileBody η) (isWrite : Bool) (file : FileInfo) (address offset length : ℕ)
    (m : Machine η) : Except Stop ℕ × Machine η :=
  if isWrite then body.write file address offset length m
  else body.read file address offset length m

/-! ## What a turn reads -/

namespace World

/-- The index of the available ring. -/
def availIndex (w : World η) : ℕ := Bytes.load w.machine.mem (w.device.availRing + 2) 2

/-- The queue size as the ring counters see it. -/
def slots (w : World η) : ℕ := w.device.queueSize % 2 ^ 16

def availSlot (w : World η) : ℕ := w.device.availRing + 4 + 2 * (w.device.lastAvailId % w.slots)

/-- The head of the next request. -/
def head (w : World η) : ℕ := Bytes.load w.machine.mem (w.availSlot) 2

theorem head_lt (w : World η) : w.head < 2 ^ 16 := Bytes.load_lt _ _ 2

def entry (w : World η) (id : ℕ) : ℕ := w.device.descriptor + 16 * id

def desc (w : World η) (id : ℕ) : VirtQueueDesc := loadDesc w.machine.mem (w.entry id)

/-- The descriptor that the next turn of the inner loop visits. -/
def nextDesc (w : World η) (r : Request) : VirtQueueDesc := w.desc r.descriptor.next

def usedSlot (w : World η) : ℕ := w.device.usedRing + 4 + 8 * (w.device.usedId % w.slots)

/-- There is a new entry and the counter can move on to it. -/
structure Advances (w : World η) : Prop where
  new : w.device.lastAvailId ≠ w.availIndex
  slots : w.slots ≠ 0
  counter : w.device.lastAvailId + 1 < 2 ^ 16

/-- The new entry can be read. -/
structure Takes (w : World η) : Prop extends w.Advances where
  ring : w.device.availRing ≠ 0
  slot : w.availSlot < 2 ^ 64

/-- A descriptor can be read. -/
structure Readable (w : World η) (id : ℕ) : Prop where
  table : w.device.descriptor ≠ 0
  entry : w.entry id < 2 ^ 64

/-- After the index of the available ring was read. -/
def polled (w : World η) : World η := w.touch ⟨w.device.availRing + 2, 2⟩

/-- After the counter moved on. -/
def advanced (w : World η) : World η :=
  { w.polled with device := { w.device with lastAvailId := w.device.lastAvailId + 1 } }

/-- After the head was read. -/
def taken (w : World η) : World η := (w.advanced.touch ⟨w.availSlot, 2⟩).consume (some w.head)

/-- After a descriptor was read. -/
def visited (w : World η) (id : ℕ) : World η := w.touch ⟨w.entry id, sizeOfDesc⟩

/-- After the interrupt was raised in the device. -/
def raised (w : World η) : World η :=
  { w with device := { w.device with interruptStatus := w.device.interruptStatus ||| 1 } }

/-- After the interrupt was triggered. -/
def triggered (w : World η) (d : GicDistributorMmio) (c : CpuInterface) : World η :=
  { w.raised with
    distributor := d
    cpu := c
    history := { w.history with triggers := w.history.triggers + 1 } }

/-- After the counter of the used ring moved on. -/
def counted (w : World η) : World η :=
  { w with device := { w.device with usedId := w.device.usedId + 1 } }

/-- After a store on behalf of the guest. -/
def stored (w : World η) (a size value : ℕ) : World η := (w.touch ⟨a, size⟩).store a size value

/-- After a used element was written. -/
def completed (w : World η) (id length : ℕ) : World η :=
  ((w.counted.stored w.usedSlot sizeOfUsedElement (id + 2 ^ 32 * length)).stored
    (w.device.usedRing + 2) 2 (w.device.usedId + 1)).publish id

end World

/-- The request that a header starts. -/
def World.request (w : World η) (blkReq : ℕ) : Request where
  descriptorId := w.head
  descriptor := w.desc w.head
  isWrite := Bytes.load w.machine.mem blkReq 4 = virtioBlkTypeOut
  offset := Bytes.load w.machine.mem (blkReq + 8) 8 * 512 % 2 ^ 64
  totalSize := 0
  status := virtioBlkSOk

/-! ## The rules -/

/-- A turn of the outer loop. -/
inductive FetchRule (vm : Vm.VM) (w : World η) : Except Fault Pc → World η → Prop
  | drained {d c} (empty : w.device.lastAvailId = w.availIndex)
      (trigger : w.distributor.triggerInterrupt w.cpu virtioBlkIntId none = .ok (d, c)) :
      FetchRule vm w (.ok .returned) (w.polled.triggered d c)
  | interruptAborts {p} (empty : w.device.lastAvailId = w.availIndex)
      (trigger : w.distributor.triggerInterrupt w.cpu virtioBlkIntId none = .error p) :
      FetchRule vm w (.error (.interrupt p)) w.polled.raised
  | noSlots (new : w.device.lastAvailId ≠ w.availIndex) (slots : w.slots = 0) :
      FetchRule vm w (.error (.arithmetic .divideByZero)) w.polled
  | counter (new : w.device.lastAvailId ≠ w.availIndex) (slots : w.slots ≠ 0)
      (last : ¬ w.device.lastAvailId + 1 < 2 ^ 16) : FetchRule vm w (.error .counter) w.polled
  | noRing (advances : w.Advances) (ring : w.device.availRing = 0) :
      FetchRule vm w (.ok .returned) (w.advanced.consume none)
  | slotOverflow (advances : w.Advances) (ring : w.device.availRing ≠ 0)
      (slot : ¬ w.availSlot < 2 ^ 64) : FetchRule vm w (.error (.arithmetic .overflow)) w.advanced
  | noTable (takes : w.Takes) (table : w.device.descriptor = 0) :
      FetchRule vm w (.ok .returned) w.taken
  | entryOverflow (takes : w.Takes) (table : w.device.descriptor ≠ 0)
      (entry : ¬ w.entry w.head < 2 ^ 64) :
      FetchRule vm w (.error (.arithmetic .overflow)) w.taken
  | badHeader (takes : w.Takes) (readable : w.Readable w.head)
      (bad : (w.desc w.head).length ≠ sizeOfReq ∨
        vm.getPhysicalAddress (w.desc w.head).address = none) :
      FetchRule vm w (.ok .returned) (w.taken.visited w.head)
  | noNext {blkReq} (takes : w.Takes) (readable : w.Readable w.head)
      (length : (w.desc w.head).length = sizeOfReq)
      (address : vm.getPhysicalAddress (w.desc w.head).address = some blkReq)
      (next : (w.desc w.head).flags &&& virtQueueDescFlagsNext = 0) :
      FetchRule vm w (.ok .returned) ((w.taken.visited w.head).touch ⟨blkReq, sizeOfReq⟩)
  | started {blkReq} (takes : w.Takes) (readable : w.Readable w.head)
      (length : (w.desc w.head).length = sizeOfReq)
      (address : vm.getPhysicalAddress (w.desc w.head).address = some blkReq)
      (next : (w.desc w.head).flags &&& virtQueueDescFlagsNext ≠ 0) :
      FetchRule vm w (.ok (.walk (w.request blkReq)))
        ((w.taken.visited w.head).touch ⟨blkReq, sizeOfReq⟩)

/-- The publication of a used element. -/
inductive PublishRule (w : World η) (id length : ℕ) : Except Fault Unit → World η → Prop
  | noSlots (slots : w.slots = 0) : PublishRule w id length (.error (.arithmetic .divideByZero)) w
  | counter (slots : w.slots ≠ 0) (last : ¬ w.device.usedId + 1 < 2 ^ 16) :
      PublishRule w id length (.error .counter) w
  | slotOverflow (slots : w.slots ≠ 0) (counter : w.device.usedId + 1 < 2 ^ 16)
      (slot : ¬ w.usedSlot < 2 ^ 64) :
      PublishRule w id length (.error (.arithmetic .overflow)) w.counted
  | published (slots : w.slots ≠ 0) (counter : w.device.usedId + 1 < 2 ^ 16)
      (slot : w.usedSlot < 2 ^ 64) : PublishRule w id length (.ok ()) (w.completed id length)

/-- An access of the file, after the test of its end. -/
inductive AccessRule (w : World η) : Except Fault Bool → World η → Prop
  | returned {success machine} : AccessRule w (.ok success) { w with machine := machine }
  | aborted {p machine} : AccessRule w (.error (.file p)) { w with machine := machine }
  | running {machine} : AccessRule w (.error .running) { w with machine := machine }

theorem AccessRule.history {w w' : World η} {result : Except Fault Bool}
    (h : AccessRule w result w') : w'.history = w.history ∧ w'.device = w.device := by
  cases h <;> exact ⟨rfl, rfl⟩

/-- A turn of the inner loop. -/
inductive WalkRule (vm : Vm.VM) (w : World η) (r : Request) : Except Fault Pc → World η → Prop
  | noTable (table : w.device.descriptor = 0) : WalkRule vm w r (.ok .returned) w
  | entryOverflow (table : w.device.descriptor ≠ 0) (entry : ¬ w.entry r.descriptor.next < 2 ^ 64) :
      WalkRule vm w r (.error (.arithmetic .overflow)) w
  | statusOverflow {a} (readable : w.Readable r.descriptor.next)
      (last : (w.desc r.descriptor.next).flags &&& virtQueueDescFlagsNext = 0)
      (address : vm.getPhysicalAddress (w.desc r.descriptor.next).address = some a)
      (length : ¬ r.totalSize + (w.desc r.descriptor.next).length < 2 ^ 32) :
      WalkRule vm w r (.error (.arithmetic .overflow))
        ((w.visited r.descriptor.next).stored a 1 r.status.toNat)
  | status {a result w'} (readable : w.Readable r.descriptor.next)
      (last : (w.desc r.descriptor.next).flags &&& virtQueueDescFlagsNext = 0)
      (address : vm.getPhysicalAddress (w.desc r.descriptor.next).address = some a)
      (length : r.totalSize + (w.desc r.descriptor.next).length < 2 ^ 32)
      (publish : PublishRule ((w.visited r.descriptor.next).stored a 1 r.status.toNat)
        r.descriptorId (r.totalSize + (w.desc r.descriptor.next).length) result w') :
      WalkRule vm w r (result.map fun _ => .fetch) w'
  | noStatus {result w'} (readable : w.Readable r.descriptor.next)
      (last : (w.desc r.descriptor.next).flags &&& virtQueueDescFlagsNext = 0)
      (address : vm.getPhysicalAddress (w.desc r.descriptor.next).address = none)
      (publish : PublishRule (w.visited r.descriptor.next) r.descriptorId r.totalSize result w') :
      WalkRule vm w r (result.map fun _ => .fetch) w'
  | sizeOverflow (readable : w.Readable r.descriptor.next)
      (next : (w.desc r.descriptor.next).flags &&& virtQueueDescFlagsNext ≠ 0)
      (length : ¬ r.totalSize + (w.desc r.descriptor.next).length < 2 ^ 32) :
      WalkRule vm w r (.error (.arithmetic .overflow)) (w.visited r.descriptor.next)
  | untranslated (readable : w.Readable r.descriptor.next)
      (next : (w.desc r.descriptor.next).flags &&& virtQueueDescFlagsNext ≠ 0)
      (length : r.totalSize + (w.desc r.descriptor.next).length < 2 ^ 32)
      (address : vm.getPhysicalAddress (w.desc r.descriptor.next).address = none) :
      WalkRule vm w r (.ok (.walk { r with
        descriptor := w.desc r.descriptor.next
        totalSize := r.totalSize + (w.desc r.descriptor.next).length
        status := virtioBlkSIoerr })) (w.visited r.descriptor.next)
  | offsetOverflow {a} (readable : w.Readable r.descriptor.next)
      (next : (w.desc r.descriptor.next).flags &&& virtQueueDescFlagsNext ≠ 0)
      (length : r.totalSize + (w.desc r.descriptor.next).length < 2 ^ 32)
      (address : vm.getPhysicalAddress (w.desc r.descriptor.next).address = some a)
      (offset : ¬ r.offset + (w.desc r.descriptor.next).length < 2 ^ 64) :
      WalkRule vm w r (.error (.arithmetic .overflow))
        ((w.visited r.descriptor.next).touch ⟨a, (w.desc r.descriptor.next).length⟩)
  | stopped {a f w'} (readable : w.Readable r.descriptor.next)
      (next : (w.desc r.descriptor.next).flags &&& virtQueueDescFlagsNext ≠ 0)
      (length : r.totalSize + (w.desc r.descriptor.next).length < 2 ^ 32)
      (address : vm.getPhysicalAddress (w.desc r.descriptor.next).address = some a)
      (offset : r.offset + (w.desc r.descriptor.next).length < 2 ^ 64)
      (access : AccessRule ((w.visited r.descriptor.next).touch
        ⟨a, (w.desc r.descriptor.next).length⟩) (.error f) w') :
      WalkRule vm w r (.error f) w'
  | accessed {a success w'} (readable : w.Readable r.descriptor.next)
      (next : (w.desc r.descriptor.next).flags &&& virtQueueDescFlagsNext ≠ 0)
      (length : r.totalSize + (w.desc r.descriptor.next).length < 2 ^ 32)
      (address : vm.getPhysicalAddress (w.desc r.descriptor.next).address = some a)
      (offset : r.offset + (w.desc r.descriptor.next).length < 2 ^ 64)
      (access : AccessRule ((w.visited r.descriptor.next).touch
        ⟨a, (w.desc r.descriptor.next).length⟩) (.ok success) w') :
      WalkRule vm w r (.ok (.walk { r with
        descriptor := w.desc r.descriptor.next
        totalSize := r.totalSize + (w.desc r.descriptor.next).length
        offset := r.offset + (w.desc r.descriptor.next).length
        status := if success then r.status else virtioBlkSIoerr })) w'

/-! ## The parts of a turn -/

namespace Device

@[simp] theorem arithmetic_ok {α : Type} (a : α) (w : World η) :
    (arithmetic (.ok a) : Device η α) w = (.ok a, w) := rfl

@[simp] theorem arithmetic_error {α : Type} (p : Panic) (w : World η) :
    (arithmetic (.error p) : Device η α) w = (.error (.arithmetic p), w) := rfl

@[simp] theorem touch_apply (a size : ℕ) (w : World η) :
    (touch a size : Device η Unit) w = (.ok (), w.touch ⟨a, size⟩) := rfl

@[simp] theorem mem_apply (w : World η) : (mem : Device η Bytes) w = (.ok w.machine.mem, w) := rfl

@[simp] theorem setDevice_apply (f : VirtioBlkMmio → VirtioBlkMmio) (w : World η) :
    (setDevice f : Device η Unit) w = (.ok (), { w with device := f w.device }) := rfl

@[simp] theorem storeBytes_apply (a size value : ℕ) (w : World η) :
    (storeBytes a size value : Device η Unit) w = (.ok (), w.stored a size value) := rfl

theorem increment_ok {counter : ℕ} (h : counter + 1 < 2 ^ 16) (w : World η) :
    (increment counter : Device η ℕ) w = (.ok (counter + 1), w) := by
  rw [increment, if_pos h, Prog.lift_apply]

theorem increment_error {counter : ℕ} (h : ¬ counter + 1 < 2 ^ 16) (w : World η) :
    (increment counter : Device η ℕ) w = (.error .counter, w) := by
  rw [increment, if_neg h, Prog.lift_apply]

end Device

/-- The address of a descriptor. -/
theorem entry_address (base id : ℕ) :
    (do Checked.add 64 base (← Checked.mul 64 sizeOfDesc id) : Except Panic ℕ) =
      if base + 16 * id < 2 ^ 64 then .ok (base + 16 * id) else .error .overflow := by
  by_cases h : base + 16 * id < 2 ^ 64
  · rw [Checked.mul_ok (show sizeOfDesc * id < 2 ^ 64 by unfold sizeOfDesc; omega), if_pos h]
    exact Checked.add_ok h
  · rw [if_neg h]
    by_cases hmul : sizeOfDesc * id < 2 ^ 64
    · rw [Checked.mul_ok hmul]
      exact if_neg h
    · rw [Checked.mul, if_neg hmul]
      rfl

/-- The address of a slot of either ring. -/
theorem slot_address (base size slot : ℕ) :
    (do Checked.add 64 (← Checked.add 64 base 4) (← Checked.mul 64 size slot) : Except Panic ℕ) =
      if base + 4 + size * slot < 2 ^ 64 then .ok (base + 4 + size * slot)
      else .error .overflow := by
  by_cases hbase : base + 4 < 2 ^ 64
  · rw [Checked.add_ok hbase, Checked.ok_bind]
    by_cases hmul : size * slot < 2 ^ 64
    · rw [Checked.mul_ok hmul]
      rfl
    · rw [Checked.mul, if_neg hmul, if_neg (by omega)]
      rfl
  · rw [Checked.add, if_neg hbase, if_neg (by omega)]
    rfl

namespace VirtioBlkMmio
open Device

theorem ringSlot_noSlots {w : World η} (h : w.slots = 0) (counter : ℕ) :
    ringSlot counter w.device.queueSize = .error .divideByZero := if_pos h

theorem ringSlot_slots {w : World η} (h : w.slots ≠ 0) (counter : ℕ) :
    ringSlot counter w.device.queueSize = .ok (counter % w.slots) := if_neg h

theorem getNextAvailId_drained {w : World η} (h : w.device.lastAvailId = w.availIndex) :
    getNextAvailId w = (.ok none, w.polled) := congrFun (if_pos h) _

/-- Reading the next entry of the available ring. -/
theorem getNextAvailId_new {w : World η} {R : Except Fault (Option ℕ) → World η → Prop}
    (h : w.device.lastAvailId ≠ w.availIndex)
    (hnoSlots : w.slots = 0 → R (.error (.arithmetic .divideByZero)) w.polled)
    (hcounter : w.slots ≠ 0 → ¬ w.device.lastAvailId + 1 < 2 ^ 16 → R (.error .counter) w.polled)
    (hadvances : w.Advances → R (.ok (some (w.device.lastAvailId % w.slots))) w.advanced) :
    Prog.Yields R getNextAvailId w := by
  refine .bind_ok (Prog.get_apply w) (.bind_ok (touch_apply _ _ w) (.bind_ok (mem_apply _) ?_))
  refine .ite_neg h ?_
  by_cases hslots : w.slots = 0
  · exact .bind_error (by rw [ringSlot_noSlots hslots]; rfl) (hnoSlots hslots)
  refine .bind_ok (by rw [ringSlot_slots hslots]; rfl) ?_
  by_cases hlast : w.device.lastAvailId + 1 < 2 ^ 16
  · exact .bind_ok (increment_ok hlast _) (hadvances ⟨h, hslots, hlast⟩)
  · exact .bind_error (increment_error hlast _) (hcounter hslots hlast)

/-- Reading a head from the available ring. -/
theorem getDescriptorId_yields {R : Except Fault (Option ℕ) → World η → Prop} (w : World η) (id : ℕ)
    (hnone : w.device.availRing = 0 → R (.ok none) w)
    (hoverflow : w.device.availRing ≠ 0 → ¬ w.device.availRing + 4 + 2 * id < 2 ^ 64 →
      R (.error (.arithmetic .overflow)) w)
    (hsome : w.device.availRing ≠ 0 → w.device.availRing + 4 + 2 * id < 2 ^ 64 →
      R (.ok (some (Bytes.load w.machine.mem (w.device.availRing + 4 + 2 * id) 2)))
        (w.touch ⟨w.device.availRing + 4 + 2 * id, 2⟩)) :
    Prog.Yields R (getDescriptorId id) w := by
  refine .bind_ok (Prog.get_apply w) ?_
  by_cases hring : w.device.availRing = 0
  · exact .ite_pos hring (.pure (hnone hring))
  refine .ite_neg hring ?_
  by_cases hslot : w.device.availRing + 4 + 2 * id < 2 ^ 64
  · exact .bind_ok (by rw [slot_address, if_pos hslot]; rfl) (hsome hring hslot)
  · exact .bind_error (by rw [slot_address, if_neg hslot]; rfl) (hoverflow hring hslot)

/-- Reading a descriptor. -/
theorem getDescriptor_yields {R : Except Fault (Option VirtQueueDesc) → World η → Prop}
    (w : World η) (id : ℕ) (hnone : w.device.descriptor = 0 → R (.ok none) w)
    (hoverflow : w.device.descriptor ≠ 0 → ¬ w.entry id < 2 ^ 64 →
      R (.error (.arithmetic .overflow)) w)
    (hsome : w.Readable id → R (.ok (some (w.desc id))) (w.visited id)) :
    Prog.Yields R (getDescriptor id) w := by
  refine .bind_ok (Prog.get_apply w) ?_
  by_cases htable : w.device.descriptor = 0
  · exact .ite_pos htable (.pure (hnone htable))
  refine .ite_neg htable ?_
  have haddress : (do Checked.add 64 w.device.descriptor (← Checked.mul 64 sizeOfDesc id)) =
      if w.entry id < 2 ^ 64 then .ok (w.entry id) else .error .overflow :=
    entry_address w.device.descriptor id
  by_cases hentry : w.entry id < 2 ^ 64
  · exact .bind_ok (by rw [haddress, if_pos hentry]; rfl) (hsome ⟨htable, hentry⟩)
  · exact .bind_error (by rw [haddress, if_neg hentry]; rfl) (hoverflow htable hentry)

/-- Publishing follows its rules. -/
theorem writeUsed_rule (w : World η) (id length : ℕ) :
    Prog.Yields (PublishRule w id length) (writeUsed id length) w := by
  refine .bind_ok (Prog.get_apply w) ?_
  by_cases hslots : w.slots = 0
  · exact .bind_error (by rw [ringSlot_noSlots hslots]; rfl) (.noSlots hslots)
  refine .bind_ok (by rw [ringSlot_slots hslots]; rfl) ?_
  by_cases hcounter : w.device.usedId + 1 < 2 ^ 16
  swap
  · exact .bind_error (increment_error hcounter w) (.counter hslots hcounter)
  refine .bind_ok (increment_ok hcounter w) (.bind_ok (setDevice_apply _ w) ?_)
  have haddress : (do
      Checked.add 64 (← Checked.add 64 w.device.usedRing 4)
        (← Checked.mul 64 sizeOfUsedElement (w.device.usedId % w.slots))) =
      if w.usedSlot < 2 ^ 64 then .ok w.usedSlot else .error .overflow :=
    slot_address w.device.usedRing sizeOfUsedElement (w.device.usedId % w.slots)
  by_cases hslot : w.usedSlot < 2 ^ 64
  · exact .bind_ok (by rw [haddress, if_pos hslot]; rfl) (.published hslots hcounter hslot)
  · exact .bind_error (by rw [haddress, if_neg hslot]; rfl) (.slotOverflow hslots hcounter hslot)

/-- The end of the outer loop. -/
theorem raiseInterrupt_yields {w : World η} {R : Except Fault Unit → World η → Prop}
    (herror : ∀ p, w.distributor.triggerInterrupt w.cpu virtioBlkIntId none = .error p →
      R (.error (.interrupt p)) w.raised)
    (hok : ∀ d c, w.distributor.triggerInterrupt w.cpu virtioBlkIntId none = .ok (d, c) →
      R (.ok ()) (w.triggered d c)) :
    Prog.Yields R raiseInterrupt w := by
  refine .bind_ok (setDevice_apply _ w) (.bind_ok (Prog.get_apply _) ?_)
  dsimp only
  cases htrigger : w.distributor.triggerInterrupt w.cpu virtioBlkIntId none with
  | error p => exact .stop (herror p htrigger)
  | ok next => exact hok next.1 next.2 htrigger

theorem getDescriptor_readable {w : World η} {id : ℕ} (h : w.Readable id) :
    getDescriptor id w = (.ok (some (w.desc id)), w.visited id) := by
  have hyields := getDescriptor_yields w id (R := fun result w' =>
    (result, w') = (Except.ok (some (w.desc id)), w.visited id)) (fun ht => absurd ht h.table)
    (fun _ he => absurd h.entry he) fun _ => rfl
  exact hyields

/-- A turn of the outer loop follows its rules. -/
theorem fetch_rule (vm : Vm.VM) (w : World η) : Prog.Yields (FetchRule vm w) (fetch vm) w := by
  by_cases hempty : w.device.lastAvailId = w.availIndex
  · refine .bind_ok (getNextAvailId_drained hempty) (.bind (raiseInterrupt_yields
      (R := fun result w' => FetchRule vm w (result.map fun _ => .returned) w') ?_ ?_) ?_ ?_)
    · exact fun p htrigger => .interruptAborts hempty htrigger
    · exact fun d c htrigger => .drained hempty htrigger
    · exact fun _ _ h => h
    · exact fun _ _ h => h
  refine .bind (getNextAvailId_new hempty
    (R := fun result w' => match result with
      | .ok id => w.Advances ∧ id = some (w.device.lastAvailId % w.slots) ∧ w' = w.advanced
      | .error f => FetchRule vm w (.error f) w')
    (.noSlots hempty) (.counter hempty) fun h => ⟨h, rfl, rfl⟩) ?_ fun _ _ h => h
  rintro id w' ⟨hadvances, rfl, rfl⟩
  refine .bind (getDescriptorId_yields w.advanced _
    (R := fun result w' => match result with
      | .ok none => w.device.availRing = 0 ∧ w' = w.advanced
      | .ok (some head) => w.Takes ∧ head = w.head ∧ w'.consume (some head) = w.taken
      | .error f => FetchRule vm w (.error f) w')
    (fun h => ⟨h, rfl⟩) (.slotOverflow hadvances)
    fun hring hslot => ⟨⟨hadvances, hring, hslot⟩, rfl, rfl⟩) ?_ fun _ _ h => h
  intro head w' htaken
  refine .bind_ok (Prog.modify_apply _ _) ?_
  cases head with
  | none =>
    obtain ⟨hring, rfl⟩ := htaken
    exact .noRing hadvances hring
  | some head =>
    obtain ⟨htakes, rfl, htaken⟩ := htaken
    rw [htaken]
    refine .bind (getDescriptor_yields w.taken w.head
      (R := fun result w' => match result with
        | .ok none => FetchRule vm w (.ok .returned) w'
        | .ok (some d) => w.Readable w.head ∧ d = w.desc w.head ∧ w' = w.taken.visited w.head
        | .error f => FetchRule vm w (.error f) w')
      (.noTable htakes) (.entryOverflow htakes)
      fun h => ⟨⟨h.table, h.entry⟩, rfl, rfl⟩) ?_ fun _ _ h => h
    intro d w' hread
    cases d with
    | none => exact .pure hread
    | some d =>
      obtain ⟨hreadable, rfl, rfl⟩ := hread
      by_cases hlength : (w.desc w.head).length = sizeOfReq
      swap
      · exact .ite_pos hlength (.badHeader htakes hreadable (.inl hlength))
      refine .ite_neg (not_not.mpr hlength) ?_
      cases haddress : vm.getPhysicalAddress (w.desc w.head).address with
      | none => exact .badHeader htakes hreadable (.inr haddress)
      | some blkReq =>
        refine .bind_ok (touch_apply _ _ _) (.bind_ok (mem_apply _) (.bind_ok (mem_apply _) ?_))
        by_cases hnext : (w.desc w.head).flags &&& virtQueueDescFlagsNext = 0
        · exact .ite_pos hnext (.noNext htakes hreadable hlength haddress hnext)
        · exact .ite_neg hnext (.started htakes hreadable hlength haddress hnext)

/-- Arithmetic on the length of a request. -/
theorem arithmetic_add {α : Type} {R : Except Fault α → World η → Prop} {w : World η}
    {width a b : ℕ} {f : ℕ → Device η α}
    (herror : ¬ a + b < 2 ^ width → R (.error (.arithmetic .overflow)) w)
    (hok : a + b < 2 ^ width → Prog.Yields R (f (a + b)) w) :
    Prog.Yields R (arithmetic (Checked.add width a b) >>= f) w := by
  by_cases h : a + b < 2 ^ width
  · exact .bind_ok (by rw [Checked.add_ok h]; rfl) (hok h)
  · exact .bind_error (by rw [Checked.add, if_neg h]; rfl) (herror h)

/-- The end of an access of the file overflows. -/
theorem accessFile_overflow (body : FileBody η) (isWrite : Bool) (address : ℕ) {offset length : ℕ}
    (w : World η) (h : ¬ offset + length < 2 ^ 64) :
    accessFile body isWrite address offset length w = (.error (.arithmetic .overflow), w) := by
  have hclamp : clamp w.device.file offset length = .error .overflow := by
    rw [clamp, Checked.add, if_neg h, Checked.error_bind]
  simp only [accessFile, Prog.bind_apply, Prog.get_apply, hclamp, arithmetic_error]

/-- What a call of the file system reports to the handler. -/
def report (offset length : ℕ) : Except Stop ℕ → Except Fault Bool
  | .ok _ => .ok true
  | .error .err => .ok false
  | .error (.panic p) => .error (if offset + length < 2 ^ 64 then .file p else .arithmetic p)
  | .error .running => .error .running

theorem endAccess_apply {offset length : ℕ} (h : offset + length < 2 ^ 64)
    (outcome : Except Stop ℕ × Machine η) (w : World η) :
    endAccess outcome w = (report offset length outcome.1, { w with machine := outcome.2 }) := by
  obtain ⟨result, machine⟩ := outcome
  cases result with
  | ok count => rfl
  | error stop =>
    cases stop with
    | panic p =>
      simp only [report, if_pos h]
      rfl
    | _ => rfl

/-- The clamped length of an access, if its end does not overflow. -/
theorem clamp_returns (file : FileInfo) {offset length : ℕ} (h : offset + length < 2 ^ 64) :
    ∃ clamped, clamp file offset length = .ok clamped := by
  rw [clamp, Checked.add_ok h, Checked.ok_bind]
  split_ifs <;> exact ⟨_, rfl⟩

/-- A file access, if its end does not overflow: the clamping leaves nothing of it, or the
file system is called. -/
theorem accessFile_yields {body : FileBody η} {R : Except Fault Bool → World η → Prop}
    {isWrite : Bool} {address offset length : ℕ} {w : World η} (h : offset + length < 2 ^ 64)
    (hpast : clamp w.device.file offset length = .ok none → R (.ok true) w)
    (hcalled : ∀ n, clamp w.device.file offset length = .ok (some n) →
      R (report offset length (body.call isWrite w.device.file address offset n w.machine).1)
        { w with machine := (body.call isWrite w.device.file address offset n w.machine).2 }) :
    Prog.Yields R (accessFile body isWrite address offset length) w := by
  refine .bind_ok (Prog.get_apply w) ?_
  obtain ⟨clamped, hclamp⟩ := clamp_returns w.device.file h
  refine .bind_ok (by rw [hclamp]; rfl) ?_
  cases clamped with
  | none => exact .pure (hpast hclamp)
  | some n =>
    refine .bind_ok (Prog.get_apply w) ?_
    have hyields : Prog.Yields R
        (endAccess (body.call isWrite w.device.file address offset n w.machine)) w := by
      rw [Prog.Yields, endAccess_apply h]
      exact hcalled n hclamp
    exact hyields

/-- With the bodies of FAT32, the handler reads as FAT32 does. -/
theorem accessFile_read (fs : Fat32) (pages : Pages η) (fuel address offset length : ℕ)
    (w : World η) :
    let outcome := fs.read pages fuel w.device.file address offset length w.machine
    accessFile (.fat32 fs pages fuel) false address offset length w =
      (report offset length outcome.1, { w with machine := outcome.2 }) := by
  by_cases h : offset + length < 2 ^ 64
  swap
  · rw [accessFile_overflow _ _ _ _ h]
    simp only [Fat32.read, clamp, Checked.add, if_neg h, Checked.error_bind, report]
  obtain ⟨clamped, hclamp⟩ := clamp_returns w.device.file h
  simp only [accessFile, Prog.bind_apply, Prog.get_apply, hclamp, arithmetic_ok, Fat32.read]
  cases clamped with
  | none => rfl
  | some n => exact endAccess_apply h _ w

/-- With the bodies of FAT32, the handler writes as FAT32 does. -/
theorem accessFile_write (fs : Fat32) (pages : Pages η) (fuel address offset length : ℕ)
    (w : World η) :
    let outcome := fs.write fuel w.device.file w.machine.mem address offset length w.machine.blk
    accessFile (.fat32 fs pages fuel) true address offset length w =
      (report offset length outcome.1, { w with machine := { w.machine with blk := outcome.2 } }) := by
  by_cases h : offset + length < 2 ^ 64
  swap
  · rw [accessFile_overflow _ _ _ _ h]
    simp only [Fat32.write, clamp, Checked.add, if_neg h, Checked.error_bind, report]
  obtain ⟨clamped, hclamp⟩ := clamp_returns w.device.file h
  simp only [accessFile, Prog.bind_apply, Prog.get_apply, hclamp, arithmetic_ok, Fat32.write]
  cases clamped with
  | none => rfl
  | some n =>
    refine (endAccess_apply h _ w).trans ?_
    simp only [FileBody.fat32, if_true]
    cases fs.locate w.device.file offset <;> rfl

theorem endAccess_rule (outcome : Except Stop ℕ × Machine η) (w : World η) :
    Prog.Yields (AccessRule w) (endAccess outcome) w := by
  obtain ⟨result, machine⟩ := outcome
  refine .bind_ok (Prog.modify_apply _ w) ?_
  cases result with
  | ok count => exact .returned
  | error stop =>
    cases stop with
    | err => exact .returned
    | panic p => exact .aborted
    | running => exact .running

/-- An access of the file follows its rules, if its end does not overflow. -/
theorem accessFile_rule (body : FileBody η) (isWrite : Bool) (address : ℕ) {offset length : ℕ}
    (w : World η) (h : offset + length < 2 ^ 64) :
    Prog.Yields (AccessRule w) (accessFile body isWrite address offset length) w := by
  refine .bind_ok (Prog.get_apply w) ?_
  obtain ⟨clamped, hclamp⟩ := clamp_returns w.device.file h
  refine .bind_ok (by rw [hclamp]; rfl) ?_
  cases clamped with
  | none => exact @AccessRule.returned _ w true w.machine
  | some n =>
    exact .bind_ok (Prog.get_apply w) (endAccess_rule _ w)

/-- A turn of the inner loop follows its rules. -/
theorem walk_rule (vm : Vm.VM) (body : FileBody η) (w : World η) (r : Request) :
    Prog.Yields (WalkRule vm w r) (walk vm body r) w := by
  refine .bind (getDescriptor_yields w r.descriptor.next
    (R := fun result w' => match result with
      | .ok none => WalkRule vm w r (.ok .returned) w'
      | .ok (some d) => w.Readable r.descriptor.next ∧ d = w.desc r.descriptor.next ∧
          w' = w.visited r.descriptor.next
      | .error f => WalkRule vm w r (.error f) w')
    .noTable .entryOverflow fun h => ⟨h, rfl, rfl⟩) ?_ fun _ _ h => h
  intro d w' hread
  cases d with
  | none => exact .pure hread
  | some d =>
    obtain ⟨hreadable, rfl, rfl⟩ := hread
    by_cases hnext : (w.desc r.descriptor.next).flags &&& virtQueueDescFlagsNext = 0
    · refine .ite_pos hnext ?_
      unfold complete
      cases haddress : vm.getPhysicalAddress (w.desc r.descriptor.next).address with
      | none =>
        refine .bind (writeUsed_rule _ _ _) (fun _ _ h => .pure ?_) fun _ _ h => ?_
        · exact .noStatus hreadable hnext haddress h
        · exact .noStatus hreadable hnext haddress h
      | some a =>
        refine .bind_ok (storeBytes_apply _ _ _ _) (arithmetic_add
          (.statusOverflow hreadable hnext haddress) fun hlength => ?_)
        refine .bind (writeUsed_rule _ _ _) (fun _ _ h => .pure ?_) fun _ _ h => ?_
        · exact .status hreadable hnext haddress hlength h
        · exact .status hreadable hnext haddress hlength h
    · refine .ite_neg hnext (arithmetic_add (.sizeOverflow hreadable hnext) fun hlength => ?_)
      cases haddress : vm.getPhysicalAddress (w.desc r.descriptor.next).address with
      | none => exact .untranslated hreadable hnext hlength haddress
      | some a =>
        refine .bind_ok (touch_apply _ _ _) ?_
        by_cases hoffset : r.offset + (w.desc r.descriptor.next).length < 2 ^ 64
        swap
        · exact .bind_error (accessFile_overflow _ _ _ _ hoffset)
            (.offsetOverflow hreadable hnext hlength haddress hoffset)
        refine .bind (accessFile_rule _ _ _ _ hoffset) (fun success w' h => ?_) fun _ _ h => ?_
        · refine .bind_ok (by rw [Checked.add_ok hoffset]; rfl) ?_
          exact .accessed hreadable hnext hlength haddress hoffset h
        · exact .stopped hreadable hnext hlength haddress hoffset h

end VirtioBlkMmio

/-! ## Turns of the handler -/

namespace Handler

variable {vm : Vm.VM} {body : FileBody η} {h : Handler η}

theorem step_fetch (vm : Vm.VM) (body : FileBody η) (hpc : h.pc = .ok .fetch) :
    FetchRule vm h.world (step vm body h).pc (step vm body h).world := by
  rw [step, hpc]
  exact VirtioBlkMmio.fetch_rule vm h.world

theorem step_walk (vm : Vm.VM) (body : FileBody η) {r : Request} (hpc : h.pc = .ok (.walk r)) :
    WalkRule vm h.world r (step vm body h).pc (step vm body h).world := by
  rw [step, hpc]
  exact VirtioBlkMmio.walk_rule vm body h.world r

theorem step_returned (hpc : h.pc = .ok .returned) : step vm body h = h := by
  rw [step, hpc]

theorem step_error {f : Fault} (hpc : h.pc = .error f) : step vm body h = h := by
  rw [step, hpc]

/-- The state after one more turn. -/
theorem operation_succ (vm : Vm.VM) (body : FileBody η) (turns : ℕ) (w : World η) :
    operation vm body (turns + 1) w = step vm body (operation vm body turns w) :=
  Function.iterate_succ_apply' _ _ _

/-- A call that is done stays so. -/
theorem operation_stays {m n : ℕ} {w : World η}
    (hdone : step vm body (operation vm body m w) = operation vm body m w) (h : m ≤ n) :
    operation vm body n w = operation vm body m w := Loop.stays hdone h

end Handler

/-! ## What the turns keep -/

/-- The queue is set up as before. -/
structure SameQueue (v v' : VirtioBlkMmio) : Prop where
  file : v'.file = v.file
  queueSize : v'.queueSize = v.queueSize
  pageSize : v'.pageSize = v.pageSize
  descriptor : v'.descriptor = v.descriptor
  availRing : v'.availRing = v.availRing
  usedRing : v'.usedRing = v.usedRing

theorem SameQueue.refl (v : VirtioBlkMmio) : SameQueue v v := ⟨rfl, rfl, rfl, rfl, rfl, rfl⟩

theorem SameQueue.trans {v v' v'' : VirtioBlkMmio} (h : SameQueue v v') (h' : SameQueue v' v'') :
    SameQueue v v'' :=
  ⟨h'.file.trans h.file, h'.queueSize.trans h.queueSize, h'.pageSize.trans h.pageSize,
    h'.descriptor.trans h.descriptor, h'.availRing.trans h.availRing, h'.usedRing.trans h.usedRing⟩

theorem FetchRule.queue {vm : Vm.VM} {w w' : World η} {result : Except Fault Pc}
    (h : FetchRule vm w result w') : SameQueue w.device w'.device := by
  cases h <;> exact ⟨rfl, rfl, rfl, rfl, rfl, rfl⟩

theorem PublishRule.queue {w w' : World η} {id length : ℕ} {result : Except Fault Unit}
    (h : PublishRule w id length result w') : SameQueue w.device w'.device := by
  cases h <;> exact ⟨rfl, rfl, rfl, rfl, rfl, rfl⟩

theorem WalkRule.queue {vm : Vm.VM} {w w' : World η} {r : Request} {result : Except Fault Pc}
    (h : WalkRule vm w r result w') : SameQueue w.device w'.device := by
  cases h with
  | status _ _ _ _ publish => exact publish.queue
  | noStatus _ _ _ publish => exact publish.queue
  | stopped _ _ _ _ _ access =>
    rw [access.history.2]
    exact .refl _
  | accessed _ _ _ _ _ access =>
    rw [access.history.2]
    exact .refl _
  | _ => exact .refl _

theorem PublishRule.last {w w' : World η} {id length : ℕ} {result : Except Fault Unit}
    (h : PublishRule w id length result w') : w'.device.lastAvailId = w.device.lastAvailId := by
  cases h <;> rfl

theorem WalkRule.last {vm : Vm.VM} {w w' : World η} {r : Request} {result : Except Fault Pc}
    (h : WalkRule vm w r result w') : w'.device.lastAvailId = w.device.lastAvailId := by
  cases h with
  | status _ _ _ _ publish => exact publish.last
  | noStatus _ _ _ publish => exact publish.last
  | stopped _ _ _ _ _ access =>
    rw [access.history.2]
    rfl
  | accessed _ _ _ _ _ access =>
    rw [access.history.2]
    rfl
  | _ => rfl

/-- The handler does not set up the queue anew. -/
theorem Handler.step_queue (vm : Vm.VM) (body : FileBody η) (h : Handler η) :
    SameQueue h.world.device (step vm body h).world.device := by
  cases hpc : h.pc with
  | error f =>
    rw [step_error hpc]
    exact .refl _
  | ok pc =>
    cases pc with
    | fetch => exact (step_fetch vm body hpc).queue
    | walk r => exact (step_walk vm body hpc).queue
    | returned =>
      rw [step_returned hpc]
      exact .refl _

/-- The state before a turn of a call. -/
def Handler.before (vm : Vm.VM) (body : FileBody η) (w : World η) (turn : ℕ) : World η :=
  (operation vm body turn w).world

theorem Handler.operation_queue (vm : Vm.VM) (body : FileBody η) (turns : ℕ) (w : World η) :
    SameQueue w.device (operation vm body turns w).world.device := by
  induction turns with
  | zero => exact .refl _
  | succ turns ih =>
    rw [operation_succ]
    exact ih.trans (step_queue vm body _)

theorem Handler.before_queue (vm : Vm.VM) (body : FileBody η) (w : World η) (turn : ℕ) :
    SameQueue w.device (before vm body w turn).device := operation_queue vm body turn w

end Min1visor.Virtio
