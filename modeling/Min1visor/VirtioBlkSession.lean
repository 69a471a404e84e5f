import Min1visor.VirtioBlkHandshake
import Min1visor.VirtioBlkDisk
import Min1visor.Gicv3Trigger
import Min1visor.Library.Tables

/-!
# The driver on the emulated device

The driver of the hypervisor, run in a guest, meets the device that the hypervisor
emulates for it. Its queue and the two variables of a call lie in the memory of the guest;
the write of the notification register runs the handler to its end, and the status byte is
read from memory. Any sequence of calls is a sequence of transfers between the memory and
the file.
-/
namespace Min1visor.VirtioDriver
open Fat Fat.Fat32 Virtio Vgicv3 Gicv3Mmio Transfers

def virtioBlkTypeIn : ℕ := 0

/-- The arguments of `operation_sync` and the addresses of its two variables. -/
structure Call where
  bufferAddress : ℕ
  blockAddress : ℕ
  length : ℕ
  isWrite : Bool
  reqAddress : ℕ
  statusAddress : ℕ

namespace Call

/-- The call of a driver that sees one status. -/
def operation (c : Call) (status : UInt8) (h : status ≠ 0xFF) : Operation where
  bufferAddress := c.bufferAddress
  blockAddress := c.blockAddress
  length := c.length
  isWrite := c.isWrite
  reqAddress := c.reqAddress
  statusAddress := c.statusAddress
  polls := [status]
  answered := ⟨status, List.mem_singleton_self _, h⟩

/-- The call, while nothing is known of its status. -/
def pending (c : Call) : Operation := c.operation 0 (by decide)

end Call

/-- The place of an address of the guest in host memory. -/
def host (vm : Vm.VM) (a : ℕ) : ℕ := a - vm.ramVirtualBaseAddress + vm.ramPhysicalBaseAddress

/-- A descriptor as a number of 16 bytes. -/
def descNumber (d : VirtQueueDesc) : ℕ :=
  d.address + 2 ^ 64 * (d.length + 2 ^ 32 * (d.flags + 2 ^ 16 * d.next))

/-- The memory with the queue of a driver in it. -/
def VirtioBlk.image (d : VirtioBlk) (vm : Vm.VM) (q : Queue) (mem : Bytes) : Bytes :=
  let mem := Bytes.storeTable mem (host vm q.descriptors) sizeOfDesc
    (fun id => descNumber (d.descriptors.getD id ⟨0, 0, 0, 0⟩)) numberOfDescriptors
  let mem := Bytes.storeTable mem (host vm q.avail + 4) 2 (fun k => d.availRing.getD k 0)
    numberOfDescriptors
  Bytes.store mem (host vm q.avail + 2) 2 d.availIdx

/-- The memory with the request header and the status of a call in it. -/
def Call.variables (c : Call) (vm : Vm.VM) (mem : Bytes) : Bytes :=
  let req := host vm c.reqAddress
  let mem := Bytes.store mem req 4 (if c.isWrite then virtioBlkTypeOut else virtioBlkTypeIn)
  let mem := Bytes.store mem (req + 4) 4 0
  let mem := Bytes.store mem (req + 8) 8 (c.blockAddress >>> 9)
  Bytes.store mem (host vm c.statusAddress) 1 0xFF

/-- The driver and the machine around it. -/
structure Session (η : Type) where
  driver : VirtioBlk
  world : World η

namespace Session

variable {η : Type}

def mem (s : Session η) : Bytes := s.world.machine.mem

def setMem (s : Session η) (mem : Bytes) : Session η :=
  { s with world := { s.world with machine := { s.world.machine with mem := mem } } }

/-- A step of the driver, whose queue is in memory. -/
def drive {α : Type} (vm : Vm.VM) (q : Queue) (f : VirtioBlk → Except Panic (α × VirtioBlk)) :
    Prog (Session η) Panic α := do
  let (a, d) ← .lift (f (← .get).driver)
  .modify fun s => { s.setMem (d.image vm q s.mem) with driver := d }
  return a

/-- The write of the notification register, and whether the guest goes on behind it. -/
def notify (vm : Vm.VM) (body : FileBody η) (turns : ℕ) : Prog (Session η) Panic Bool := do
  let s ← .get
  let (device, starts) ← .lift (s.world.device.write vm virtioMmioQueueNotify 0)
  let w := { s.world with device := device }
  if starts then
    let h := Handler.operation vm body turns w.begin
    .modify fun s => { s with world := h.world }
    return h.pc = .ok .returned
  else
    .modify fun s => { s with world := w }
    return true

/-- `operation_sync` on the emulated device; without an answer it does not return. -/
def operationSync (vm : Vm.VM) (q : Queue) (body : FileBody η) (turns : ℕ) (c : Call) :
    Prog (Session η) Panic (Option (Except Unit Unit)) := do
  if ¬ c.pending.Aligned then return some (.error ())
  .modify fun s => s.setMem (c.variables vm s.mem)
  match ← drive vm q fun d => d.chain c.pending with
  | none => return some (.error ())
  | some (first, second, third) =>
    drive vm q fun d => do return ((), ← d.offer first)
    if ← notify vm body turns then
      match spinWait [(← .get).mem (host vm c.statusAddress)] with
      | none => return none
      | some result =>
        drive vm q fun d => do return ((), ← d.freeDescriptor first)
        drive vm q fun d => do return ((), ← d.freeDescriptor second)
        drive vm q fun d => do return ((), ← d.freeDescriptor third)
        return some result
    else return none

/-- Calls one after another, with their answers. -/
def serve (vm : Vm.VM) (q : Queue) (body : FileBody η) (turns : ℕ) :
    Session η → List Call → List (Except Panic (Option (Except Unit Unit))) × Session η
  | s, [] => ([], s)
  | s, c :: calls =>
    let (answer, s) := operationSync vm q body turns c s
    let (answers, last) := serve vm q body turns s calls
    (answer :: answers, last)

end Session

/-! ## The driver's queue in memory -/

/-- The numbers of a descriptor that the device reads fit into their fields. -/
structure Sized (d : VirtQueueDesc) : Prop where
  address : d.address < 2 ^ 64
  length : d.length < 2 ^ 32
  flags : d.flags < 2 ^ 16

/-- The two parts of a number, the lower one of which fits. -/
theorem low_add {a b n : ℕ} (h : a < n) : (a + n * b) % n = a ∧ (a + n * b) / n = b := by
  rw [Nat.add_mul_mod_self_left, Nat.mod_eq_of_lt h, Nat.add_mul_div_left _ _ (Nat.zero_lt_of_lt h),
    Nat.div_eq_of_lt h, Nat.zero_add]
  exact ⟨rfl, rfl⟩

theorem descNumber_parts {d : VirtQueueDesc} (h : Sized d) :
    descNumber d / 256 ^ 0 % 256 ^ 8 = d.address ∧ descNumber d / 256 ^ 8 % 256 ^ 4 = d.length ∧
      descNumber d / 256 ^ 12 % 256 ^ 2 = d.flags ∧
      descNumber d / 256 ^ 14 % 256 ^ 2 = d.next % 2 ^ 16 := by
  obtain ⟨haddress, hrest⟩ :=
    low_add (b := d.length + 2 ^ 32 * (d.flags + 2 ^ 16 * d.next)) h.address
  obtain ⟨hlength, hrest'⟩ := low_add (b := d.flags + 2 ^ 16 * d.next) h.length
  obtain ⟨hflags, hnext⟩ := low_add (b := d.next) h.flags
  have h8 : descNumber d / 256 ^ 8 = d.length + 2 ^ 32 * (d.flags + 2 ^ 16 * d.next) := hrest
  have h12 : descNumber d / 256 ^ 12 = d.flags + 2 ^ 16 * d.next := by
    rw [show (256 : ℕ) ^ 12 = 256 ^ 8 * 256 ^ 4 by norm_num, ← Nat.div_div_eq_div_mul, h8]
    exact hrest'
  have h14 : descNumber d / 256 ^ 14 = d.next := by
    rw [show (256 : ℕ) ^ 14 = 256 ^ 12 * 256 ^ 2 by norm_num, ← Nat.div_div_eq_div_mul, h12]
    exact hnext
  rw [pow_zero, Nat.div_one, h8, h12, h14]
  exact ⟨haddress, hlength, hflags, rfl⟩

section Image
variable {vm : Vm.VM} {q : Queue} (d : VirtioBlk) (mem : Bytes)

/-- The extent of the table and of the part of the ring that the driver writes. -/
def InQueue (vm : Vm.VM) (q : Queue) (x : ℕ) : Prop :=
  host vm q.descriptors ≤ x ∧ x < host vm q.descriptors + 1024 + 132

theorem image_outside (havail : host vm q.avail = host vm q.descriptors + 1024) {x : ℕ}
    (hx : ¬ InQueue vm q x) : d.image vm q mem x = mem x := by
  rw [InQueue] at hx
  have htable : sizeOfDesc * numberOfDescriptors = 1024 := rfl
  have hring : 2 * numberOfDescriptors = 128 := rfl
  rw [VirtioBlk.image, Bytes.store_outside _ _ (by omega), Bytes.storeTable_outside _ _ _ _ (by omega),
    Bytes.storeTable_outside _ _ _ _ (by omega)]

/-- A descriptor of the driver, as the device loads it. -/
theorem loadDesc_image (havail : host vm q.avail = host vm q.descriptors + 1024) {id : ℕ}
    (hid : id < 64) {e : VirtQueueDesc} (he : d.descriptors.getD id ⟨0, 0, 0, 0⟩ = e)
    (hsized : Sized e) :
    loadDesc (d.image vm q mem) (host vm q.descriptors + 16 * id) =
      ⟨e.address, e.length, e.flags, e.next % 2 ^ 16⟩ := by
  have hload : ∀ i n, i + n ≤ 16 →
      Bytes.load (d.image vm q mem) (host vm q.descriptors + 16 * id + i) n =
        descNumber e / 256 ^ i % 256 ^ n := by
    intro i n hi
    rw [← he, VirtioBlk.image, Bytes.load_store_apart _ _ (by omega),
      Bytes.load_storeTable_apart _ _ _ _ (by omega)]
    exact Bytes.load_storeTable _ _ _ _ hid hi
  obtain ⟨haddress, hlength, hflags, hnext⟩ := descNumber_parts hsized
  have hfirst := hload 0 8 (by decide)
  rw [Nat.add_zero] at hfirst
  rw [loadDesc, hfirst, hload 8 4 (by decide), hload 12 2 (by decide), hload 14 2 (by decide),
    haddress, hlength, hflags, hnext]

theorem load_slot_image {k : ℕ} (hk : k < 64) (hslot : d.availRing.getD k 0 < 2 ^ 16) :
    Bytes.load (d.image vm q mem) (host vm q.avail + 4 + 2 * k) 2 = d.availRing.getD k 0 := by
  have hload := Bytes.load_storeTable (Bytes.storeTable mem (host vm q.descriptors) sizeOfDesc
    (fun id => descNumber (d.descriptors.getD id ⟨0, 0, 0, 0⟩)) numberOfDescriptors)
    (host vm q.avail + 4) 2 (fun k => d.availRing.getD k 0) (show k < numberOfDescriptors from hk)
    (show 0 + 2 ≤ 2 by decide)
  simp only [Nat.add_zero, pow_zero, Nat.div_one] at hload
  rw [VirtioBlk.image, Bytes.load_store_apart _ _ (by omega), hload]
  exact Nat.mod_eq_of_lt hslot

theorem load_index_image (hindex : d.availIdx < 2 ^ 16) :
    Bytes.load (d.image vm q mem) (host vm q.avail + 2) 2 = d.availIdx := by
  rw [VirtioBlk.image, Bytes.load_store]
  exact Nat.mod_eq_of_lt hindex

end Image

/-! ## A call on an idle driver -/

/-- The descriptors of a call. -/
structure Chained (c : Call) (descriptors : FixedArray VirtQueueDesc 64) : Prop where
  first : descriptors.getD 0 ⟨0, 0, 0, 0⟩ = ⟨c.reqAddress, sizeOfReq, virtQueueDescFlagsNext, 1⟩
  second : descriptors.getD 1 ⟨0, 0, 0, 0⟩ = ⟨c.bufferAddress, c.length % 2 ^ 32,
    virtQueueDescFlagsNext ||| if c.isWrite then 0 else virtQueueDescFlagsWrite, 2⟩
  third : ∃ next, descriptors.getD 2 ⟨0, 0, 0, 0⟩ =
    ⟨c.statusAddress, 1, virtQueueDescFlagsWrite, next⟩

theorem chain_chained {d : VirtioBlk} (h : d.freeBitmap = .fill 8 0xFF) (c : Call) :
    ∃ descriptors, d.chain c.pending =
        .ok (some (0, 1, 2), ⟨descriptors, d.availIdx, d.availRing, threeTaken⟩) ∧
      Chained c descriptors := by
  obtain ⟨descriptors, availIdx, availRing, freeBitmap⟩ := d
  have hfree : freeBitmap = .fill 8 0xFF := h
  subst hfree
  simp only [VirtioBlk.chain, VirtioBlk.allocateDescriptor_first,
    VirtioBlk.allocateDescriptor_second, VirtioBlk.allocateDescriptor_third,
    VirtioBlk.setDescriptor_ok _ _ _ _ (show 0 < 64 by decide),
    VirtioBlk.setDescriptor_ok _ _ _ _ (show 1 < 64 by decide),
    VirtioBlk.setDescriptor_ok _ _ _ _ (show 2 < 64 by decide), Checked.ok_bind,
    Checked.pure_eq_ok]
  exact ⟨_, rfl, rfl, rfl, _, rfl⟩

/-- The driver gives its three descriptors back. -/
theorem free_three (descriptors : FixedArray VirtQueueDesc 64) (availIdx : ℕ)
    (availRing : FixedArray ℕ 64) :
    VirtioBlk.freeDescriptor ⟨descriptors, availIdx, availRing, threeTaken⟩ 0 =
        .ok ⟨descriptors, availIdx, availRing, threeTaken.put 0 0xF9⟩ ∧
      VirtioBlk.freeDescriptor ⟨descriptors, availIdx, availRing, threeTaken.put 0 0xF9⟩ 1 =
        .ok ⟨descriptors, availIdx, availRing, (threeTaken.put 0 0xF9).put 0 0xFB⟩ ∧
      VirtioBlk.freeDescriptor
          ⟨descriptors, availIdx, availRing, (threeTaken.put 0 0xF9).put 0 0xFB⟩ 2 =
        .ok ⟨descriptors, availIdx, availRing, .fill 8 0xFF⟩ := by
  refine ⟨?_, ?_, ?_⟩
  · exact VirtioBlk.freeDescriptor_eq _ _ _ (by decide) (by decide)
  · exact VirtioBlk.freeDescriptor_eq _ _ _ (by decide) (by decide)
  · rw [← VirtioBlk.put_threeTaken]
    exact VirtioBlk.freeDescriptor_eq _ _ _ (by decide) (by decide)

/-! ## Where everything lies -/

def InRam (vm : Vm.VM) (a : ℕ) : Prop :=
  vm.ramVirtualBaseAddress ≤ a ∧ a < vm.ramVirtualBaseAddress + vm.ramSize

theorem getPhysicalAddress_host {vm : Vm.VM} {a : ℕ} (h : InRam vm a) :
    vm.getPhysicalAddress a = some (host vm a) := if_pos h

/-- A queue in two pages of a guest, as the driver places it. -/
structure Queue.Lies (q : Queue) (vm : Vm.VM) : Prop where
  avail : q.avail = q.descriptors + 1024
  used : q.used = q.descriptors + 4096
  low : vm.ramVirtualBaseAddress ≤ q.descriptors
  positive : 0 < host vm q.descriptors
  high : host vm q.descriptors + 8192 ≤ 2 ^ 64

theorem Queue.Lies.host_avail {q : Queue} {vm : Vm.VM} (h : q.Lies vm) :
    host vm q.avail = host vm q.descriptors + 1024 := by
  have hlow := h.low
  rw [h.avail, host, host]
  omega

theorem Queue.Lies.host_used {q : Queue} {vm : Vm.VM} (h : q.Lies vm) :
    host vm q.used = host vm q.descriptors + 4096 := by
  have hlow := h.low
  rw [h.used, host, host]
  omega

def Queue.Pages (q : Queue) (vm : Vm.VM) (x : ℕ) : Prop :=
  host vm q.descriptors ≤ x ∧ x < host vm q.descriptors + 8192

/-- The header of a call. -/
def Call.Header (c : Call) (vm : Vm.VM) (x : ℕ) : Prop :=
  host vm c.reqAddress ≤ x ∧ x < host vm c.reqAddress + sizeOfReq

variable {ι η : Type}

/-- What a call is for. -/
def Call.transfer (c : Call) (vm : Vm.VM) (f : ι) : Transfers.Transfer ι :=
  ⟨f, c.isWrite, host vm c.bufferAddress, c.blockAddress, c.length⟩

/-- A call for sectors of the file; its buffer lies in the data, its variables and the pages
of the queue apart from that and from each other. -/
structure Call.Fits (c : Call) (vm : Vm.VM) (q : Queue) (v : Store ι) (f : ι) (data : ℕ → Prop) :
    Prop where
  whole : v.Whole (c.transfer vm f)
  reqInRam : InRam vm c.reqAddress
  bufferInRam : InRam vm c.bufferAddress
  statusInRam : InRam vm c.statusAddress
  buffer : ∀ x, host vm c.bufferAddress ≤ x → x < host vm c.bufferAddress + c.length → data x
  header : ∀ x, c.Header vm x → ¬ data x ∧ ¬ q.Pages vm x ∧ x ≠ host vm c.statusAddress
  status : ¬ data (host vm c.statusAddress) ∧ ¬ q.Pages vm (host vm c.statusAddress)
  pages : ∀ x, q.Pages vm x → ¬ data x

/-- The request that the device sees. -/
def Call.request (c : Call) (vm : Vm.VM) : DiskRequest :=
  ⟨0, host vm c.reqAddress, c.isWrite, c.blockAddress, [⟨host vm c.bufferAddress, c.length⟩],
    ⟨host vm c.statusAddress, 1⟩⟩

/-- What the device reads of a call: the queue up to the used ring, and the header. -/
def Call.Keep (c : Call) (vm : Vm.VM) (q : Queue) (x : ℕ) : Prop :=
  (host vm q.descriptors ≤ x ∧ x < host vm q.descriptors + 4096) ∨ c.Header vm x

/-- The device knows the queue and has answered `k` requests, and its interrupt does not
abort. -/
structure Attends (w : World η) (vm : Vm.VM) (q : Queue) (v : Store ι) (f : ι) (k : ℕ) : Prop where
  file : w.device.file = v.file f
  queueSize : w.device.queueSize = 64
  descriptor : w.device.descriptor = host vm q.descriptors
  availRing : w.device.availRing = host vm q.avail
  usedRing : w.device.usedRing = host vm q.used
  lastAvailId : w.device.lastAvailId = k
  usedId : w.device.usedId = k
  raises : w.distributor.enable.bit virtioBlkIntId = true →
    w.distributor.DeliverySafe w.cpu virtioBlkIntId
  completes : w.machine.blk.Completes

/-- Driver and device have counted the same requests. -/
structure Session.Ready (s : Session η) (vm : Vm.VM) (q : Queue) (v : Store ι) (f : ι) (k : ℕ) :
    Prop where
  idle : s.driver.Idle k
  attends : Attends s.world vm q v f k

/-- The data in memory and the files are those of the arrays. -/
structure Session.Holds (s : Session η) (v : Store ι) (data : ℕ → Prop) (disk : Bytes)
    (a : Arrays ι) : Prop where
  mem : ∀ x, data x → s.mem x = a.mem x
  shows : v.Shows s.world.machine.blk.disk a.array
  rest : ∀ x, v.placement.Free x → s.world.machine.blk.disk x = disk x

/-! ## A request in memory -/

section Present
variable {vm : Vm.VM} {q : Queue} {v : Store ι} {f : ι} {data : ℕ → Prop} {c : Call}

/-- The header behind the writes of the driver. -/
theorem header_loads (hfits : c.Fits vm q v f data) (mem : Bytes) {mem' : Bytes}
    (hsame : ∀ x, c.Header vm x → mem' x = c.variables vm mem x) :
    Bytes.load mem' (host vm c.reqAddress) 4 =
        (if c.isWrite then virtioBlkTypeOut else virtioBlkTypeIn) ∧
      Bytes.load mem' (host vm c.reqAddress + 8) 8 = c.blockAddress >>> 9 := by
  have hsize : sizeOfReq = 16 := rfl
  have hapart : ∀ x, c.Header vm x → x ≠ host vm c.statusAddress := fun x hx =>
    (hfits.header x hx).2.2
  have hload : ∀ i n, i + n ≤ 16 → Bytes.load mem' (host vm c.reqAddress + i) n =
      Bytes.load (c.variables vm mem) (host vm c.reqAddress + i) n := fun i n hi =>
    Bytes.load_congr fun x hlow hhigh => hsame x ⟨by omega, by omega⟩
  have hstatus : host vm c.statusAddress < host vm c.reqAddress ∨
      host vm c.reqAddress + 16 ≤ host vm c.statusAddress := by
    by_contra hin
    exact hapart _ ⟨by omega, by omega⟩ rfl
  have hsector : c.blockAddress >>> 9 < 256 ^ 8 := by
    have hinside : c.blockAddress + c.length ≤ (v.file f).fileSize := hfits.whole.aligned.inside
    have hfile := (v.holds f).size
    rw [Nat.shiftRight_eq_div_pow]
    omega
  have htype : (if c.isWrite then virtioBlkTypeOut else virtioBlkTypeIn) < 256 ^ 4 := by
    cases c.isWrite <;> decide
  have hfirst := hload 0 4 (by decide)
  rw [Nat.add_zero] at hfirst
  rw [hfirst, hload 8 8 (by decide)]
  simp only [Call.variables]
  constructor
  · rw [Bytes.load_store_apart _ _ (by omega), Bytes.load_store_apart _ _ (by omega),
      Bytes.load_store_apart _ _ (by omega), Bytes.load_store, Nat.mod_eq_of_lt htype]
  · rw [Bytes.load_store_apart _ _ (by omega), Bytes.load_store, Nat.mod_eq_of_lt hsector]

theorem variables_outside {mem : Bytes} {x : ℕ} (hheader : ¬ c.Header vm x)
    (hstatus : x ≠ host vm c.statusAddress) : c.variables vm mem x = mem x := by
  have hsize : sizeOfReq = 16 := rfl
  rw [Call.Header, hsize] at hheader
  simp only [Call.variables]
  rw [Bytes.store_outside _ _ (by omega), Bytes.store_outside _ _ (by omega),
    Bytes.store_outside _ _ (by omega), Bytes.store_outside _ _ (by omega)]

/-- The descriptors of a call, as the device loads them. -/
theorem Chained.loads {d : VirtioBlk} (hchained : Chained c d.descriptors)
    (havail : host vm q.avail = host vm q.descriptors + 1024) (hreq : c.reqAddress < 2 ^ 64)
    (hbuffer : c.bufferAddress < 2 ^ 64) (hstatus : c.statusAddress < 2 ^ 64)
    (hlength : c.length < 2 ^ 32) (mem : Bytes) :
    loadDesc (d.image vm q mem) (host vm q.descriptors + 16 * 0) =
        ⟨c.reqAddress, sizeOfReq, virtQueueDescFlagsNext, 1⟩ ∧
      loadDesc (d.image vm q mem) (host vm q.descriptors + 16 * 1) = ⟨c.bufferAddress, c.length,
        virtQueueDescFlagsNext ||| if c.isWrite then 0 else virtQueueDescFlagsWrite, 2⟩ ∧
      ∃ next, loadDesc (d.image vm q mem) (host vm q.descriptors + 16 * 2) =
        ⟨c.statusAddress, 1, virtQueueDescFlagsWrite, next⟩ := by
  obtain ⟨hfirst, hsecond, next, hthird⟩ := hchained
  have hflags : (virtQueueDescFlagsNext ||| if c.isWrite then 0 else virtQueueDescFlagsWrite) <
      2 ^ 16 := by
    cases c.isWrite <;> decide
  rw [Nat.mod_eq_of_lt hlength] at hsecond
  refine ⟨?_, ?_, next % 2 ^ 16, ?_⟩
  · exact loadDesc_image d mem havail (by decide) hfirst
      ⟨hreq, show sizeOfReq < 2 ^ 32 by decide, show virtQueueDescFlagsNext < 2 ^ 16 by decide⟩
  · exact loadDesc_image d mem havail (by decide) hsecond ⟨hbuffer, hlength, hflags⟩
  · exact loadDesc_image d mem havail (by decide) hthird
      ⟨hstatus, show 1 < 2 ^ 32 by decide, show virtQueueDescFlagsWrite < 2 ^ 16 by decide⟩

/-- What the device reads of a call holds no data. -/
theorem Call.Fits.not_data (hfits : c.Fits vm q v f data) {x : ℕ} (hx : c.Keep vm q x) :
    ¬ data x := by
  rcases hx with hqueue | hheader
  · exact hfits.pages x ⟨hqueue.1, by omega⟩
  · exact (hfits.header x hheader).1

theorem Call.Fits.not_keep (hfits : c.Fits vm q v f data) :
    ¬ c.Keep vm q (host vm c.statusAddress) := by
  rintro (hqueue | hheader)
  · exact hfits.status.2 ⟨hqueue.1, by omega⟩
  · exact (hfits.header _ hheader).2.2 rfl

/-- The device reads what is kept, and answers beside it. -/
theorem Attends.guards {w : World η} {k : ℕ} (hattends : Attends w vm q v f k) (hlies : q.Lies vm)
    (hfits : c.Fits vm q v f data) : Guards (c.Keep vm q) w.device := by
  have havail := hlies.host_avail
  have hused := hlies.host_used
  have hsize := hattends.queueSize
  constructor
  · intro x hlow hlast
    rw [hattends.descriptor, hsize] at *
    exact .inl ⟨by omega, by omega⟩
  · intro x hlow hlast
    rw [hattends.availRing, hsize] at *
    exact .inl ⟨by omega, by omega⟩
  · intro x hlow hlast
    rw [hattends.usedRing, hsize] at *
    rintro (hin | hin)
    · omega
    · exact (hfits.header x hin).2.1 ⟨by omega, by omega⟩

/-- The rings of the queue have addresses. -/
theorem Attends.placed {w : World η} {k : ℕ} (hattends : Attends w vm q v f k) (hlies : q.Lies vm) :
    QueueFits w.device := by
  have havail := hlies.host_avail
  have hused := hlies.host_used
  have hpositive := hlies.positive
  have hhigh := hlies.high
  constructor <;>
    simp only [hattends.queueSize, hattends.descriptor, hattends.availRing, hattends.usedRing] <;>
    omega

/-- The descriptors that the driver fills for a call. -/
structure Call.Described (c : Call) (table : ℕ → VirtQueueDesc) : Prop where
  header : table 0 = ⟨c.reqAddress, sizeOfReq, virtQueueDescFlagsNext, 1⟩
  data : table 1 = ⟨c.bufferAddress, c.length,
    virtQueueDescFlagsNext ||| if c.isWrite then 0 else virtQueueDescFlagsWrite, 2⟩
  status : ∃ next, table 2 = ⟨c.statusAddress, 1, virtQueueDescFlagsWrite, next⟩

/-- Behind the header the chain leads over the buffer to the status. -/
theorem Call.Described.leads {table : ℕ → VirtQueueDesc} (h : c.Described table)
    (hfits : c.Fits vm q v f data) : Leads vm table 64 1 [⟨host vm c.bufferAddress, c.length⟩]
      ⟨host vm c.statusAddress, 1⟩ := by
  obtain ⟨next, hstatus⟩ := h.status
  have hnext : (table 1).flags &&& virtQueueDescFlagsNext ≠ 0 := by
    rw [h.data]
    change (virtQueueDescFlagsNext ||| if c.isWrite then 0 else virtQueueDescFlagsWrite) &&&
      virtQueueDescFlagsNext ≠ 0
    cases c.isWrite <;> decide
  refine .data (by decide) hnext ?_ (by rw [h.data]) ?_
  · rw [h.data]
    exact getPhysicalAddress_host hfits.bufferInRam
  · rw [h.data]
    refine .status (show 2 < 64 by decide) ?_ ?_ (by rw [hstatus]) <;> rw [hstatus]
    · exact (by decide : virtQueueDescFlagsWrite &&& virtQueueDescFlagsNext = 0)
    · exact getPhysicalAddress_host hfits.statusInRam

/-- A call that is described in memory is a request for its transfer. -/
theorem Call.Fits.ready {w : World η} (hfits : c.Fits vm q v f data) (halign : c.pending.Aligned)
    (hsize : w.device.queueSize = 64) (hdescribed : c.Described w.desc) (mem : Bytes)
    (hheader : ∀ x, c.Header vm x → w.machine.mem x = c.variables vm mem x) :
    (c.request vm).Ready v f vm (c.Keep vm q) w := by
  obtain ⟨htype, hsector⟩ := header_loads hfits mem hheader
  have hinside : c.blockAddress + c.length ≤ (v.file f).fileSize := hfits.whole.aligned.inside
  have hfile := (v.holds f).size
  have hoffset : c.blockAddress >>> 9 * 512 % 2 ^ 64 = c.blockAddress := by
    have haligned : c.blockAddress % 512 = 0 := halign.1
    rw [Nat.shiftRight_eq_div_pow]
    omega
  have hfirst : w.desc (c.request vm).head = ⟨c.reqAddress, sizeOfReq, virtQueueDescFlagsNext, 1⟩ :=
    hdescribed.header
  have hlaid : (c.request vm).header = host vm c.reqAddress := rfl
  refine
    { head := by rw [hsize]; exact (by decide : 0 < 64)
      length := by rw [hfirst]
      header := by
        rw [hfirst]
        exact getPhysicalAddress_host hfits.reqInRam
      next := by
        rw [hfirst]
        exact (by decide : virtQueueDescFlagsNext &&& virtQueueDescFlagsNext ≠ 0)
      type := by
        rw [hlaid, htype]
        change c.isWrite = _
        cases c.isWrite <;> rfl
      offset := by
        rw [hlaid, hsector]
        exact hoffset.symm
      data := by
        rw [hfirst, hsize]
        exact hdescribed.leads hfits
      whole := by
        intro t ht
        rw [List.mem_singleton.mp ht]
        exact hfits.whole
      total := by
        have haligned : c.length % 512 = 0 := halign.2
        change (c.length + 0) + 1 < 2 ^ 32
        omega
      keepHeader := fun x hlow hlast => .inr ⟨hlow, hlast⟩
      keepData := by
        intro _ p hp x hx hin
        rw [List.mem_singleton.mp hp] at hin
        exact hfits.not_data hx (hfits.buffer x hin.1 hin.2)
      keepStatus := hfits.not_keep }

/-- The request waits in the queue. -/
theorem Call.Fits.pending {w : World η} {k : ℕ} (hfits : c.Fits vm q v f data)
    (halign : c.pending.Aligned) (hvm : vm.ramVirtualBaseAddress + vm.ramSize ≤ 2 ^ 64)
    (hlies : q.Lies vm) (hattends : Attends w vm q v f k) (hk : k + 1 < 2 ^ 16) {d : VirtioBlk}
    (hchained : Chained c d.descriptors) (hindex : d.availIdx = k + 1)
    (hslot : d.availRing.getD (k % 64) 0 = 0) (mem mem' : Bytes)
    (hmem : w.machine.mem = d.image vm q mem')
    (hheader : ∀ x, c.Header vm x → w.machine.mem x = c.variables vm mem x) :
    Pending v f vm (c.Keep vm q) w [c.request vm] := by
  have havail := hlies.host_avail
  have hsize := hattends.queueSize
  have hreqInRam := hfits.reqInRam.2
  have hbufferInRam := hfits.bufferInRam.2
  have hstatusInRam := hfits.statusInRam.2
  have hinside : c.blockAddress + c.length ≤ (v.file f).fileSize := hfits.whole.aligned.inside
  have hfile := (v.holds f).size
  have hentry : ∀ id, w.entry id = host vm q.descriptors + 16 * id := fun id => by
    rw [World.entry, hattends.descriptor]
  have hdescribed : c.Described w.desc := by
    obtain ⟨hfirst, hsecond, hthird⟩ := hchained.loads havail
      (show c.reqAddress < 2 ^ 64 by omega) (show c.bufferAddress < 2 ^ 64 by omega)
      (show c.statusAddress < 2 ^ 64 by omega) (show c.length < 2 ^ 32 by omega) mem'
    rw [← hmem, ← hentry, ← World.desc] at hfirst hsecond hthird
    exact ⟨hfirst, hsecond, hthird⟩
  refine ⟨hattends.file, hattends.placed hlies, hattends.guards hlies hfits, ?_, ?_, ?_, ?_⟩
  · rw [World.availIndex, hmem, hattends.availRing, load_index_image d mem' (by omega), hindex,
      hattends.lastAvailId]
    rfl
  · rw [hattends.usedId]
    exact hk
  · intro i r hr
    obtain ⟨rfl, rfl⟩ : i = 0 ∧ r = c.request vm := by
      cases i with
      | zero => exact ⟨rfl, (Option.some.inj hr).symm⟩
      | succ i => simp at hr
    have hlimit : k % 64 < 64 := Nat.mod_lt k (by decide)
    rw [hmem, hattends.availRing, hattends.lastAvailId, hsize]
    exact (load_slot_image d mem' hlimit (by rw [hslot]; decide)).trans hslot
  · intro r hr
    rw [List.mem_singleton.mp hr]
    exact hfits.ready halign hsize hdescribed mem hheader

/-! ## A call -/

/-- The answer to a request. -/
theorem reply_apart {u : VirtioBlkMmio} (hslots : 0 < u.queueSize) (mem : Bytes)
    {address value head length x : ℕ} (haddress : x ≠ address)
    (hused : ¬ (u.usedRing ≤ x ∧ x < u.usedRing + 4 + 8 * u.queueSize)) :
    DiskRequest.reply u mem address value head length x = mem x := by
  have hmod := Nat.mod_lt u.usedId hslots
  have helement : sizeOfUsedElement = 8 := rfl
  rw [DiskRequest.reply, Bytes.store_outside _ _ (by omega), Bytes.store_outside _ _ (by omega),
    Bytes.store_outside _ _ (by omega)]

theorem reply_status {u : VirtioBlkMmio} (hslots : 0 < u.queueSize) (mem : Bytes)
    {address value head length : ℕ}
    (hused : ¬ (u.usedRing ≤ address ∧ address < u.usedRing + 4 + 8 * u.queueSize)) :
    DiskRequest.reply u mem address value head length address = UInt8.ofNat value := by
  have hmod := Nat.mod_lt u.usedId hslots
  have helement : sizeOfUsedElement = 8 := rfl
  rw [DiskRequest.reply, Bytes.store_outside _ _ (by omega), Bytes.store_outside _ _ (by omega),
    Bytes.store, if_pos ⟨le_rfl, by omega⟩, Nat.sub_self, pow_zero, Nat.div_one]

/-- An interrupt does not make the next one abort. -/
theorem raises_trigger {d d' : GicDistributorMmio} {cpu cpu' : CpuInterface} {n : ℕ} (hn : n < 1024)
    (hraises : d.enable.bit n = true → d.DeliverySafe cpu n)
    (h : d.triggerInterrupt cpu n none = .ok (d', cpu')) :
    d'.enable.bit n = true → d'.DeliverySafe cpu' n := by
  have hrequeued := GicDistributorMmio.triggerInterrupt_requeued hn h
  intro henable
  rw [hrequeued.deliverySafe]
  rw [hrequeued.registers] at henable
  split_ifs at henable ⊢ with hctlr
  · exact hraises henable
  · exact hraises henable

theorem attends_setMem {w : World η} {k : ℕ} (h : Attends w vm q v f k) (mem : Bytes) :
    Attends { w with machine := { w.machine with mem := mem } } vm q v f k :=
  ⟨h.file, h.queueSize, h.descriptor, h.availRing, h.usedRing, h.lastAvailId, h.usedId, h.raises,
    h.completes⟩

/-- A call on its own: the transfer, and the answer behind it. -/
theorem performAll_request [DecidableEq ι] (c : Call) (vm : Vm.VM) (f : ι) (u : VirtioBlkMmio)
    (s : Arrays ι) :
    DiskRequest.performAll f [c.request vm] u s =
      { s.transfer (c.transfer vm f) with
        mem := DiskRequest.reply u (s.transfer (c.transfer vm f)).mem (host vm c.statusAddress)
          virtioBlkSOk.toNat 0 (c.request vm).total } := rfl

/-- The turns of the handler for a call. -/
theorem turns_request (c : Call) (vm : Vm.VM) :
    ([c.request vm].map DiskRequest.turns).sum + 1 = 4 := rfl

/-- A notification performs the waiting request. -/
theorem notify_answers [DecidableEq ι] (hfits : c.Fits vm q v f data) (hlies : q.Lies vm)
    (pages : Pages η) {fuel : ℕ} (hfuel : 0 < fuel) {turns : ℕ} (hturns : 4 ≤ turns) {k : ℕ}
    {s : Session η} (hattends : Attends s.world vm q v f k)
    (hpending : Pending v f vm (c.Keep vm q) s.world [c.request vm]) {disk : Bytes} {a : Arrays ι}
    (hholds : s.Holds v data disk a) :
    ∃ s', Session.notify vm (.fat32 v.fs pages fuel) turns s = (.ok true, s') ∧
      s'.driver = s.driver ∧ Attends s'.world vm q v f (k + 1) ∧
      s'.mem (host vm c.statusAddress) = virtioBlkSOk ∧
      s'.Holds v data disk (a.transfer (c.transfer vm f)) := by
  have hused := hlies.host_used
  have hsize := hattends.queueSize
  have hpositive : 0 < s.world.device.queueSize := by omega
  obtain ⟨⟨d', cpu'⟩, htrigger⟩ := (GicDistributorMmio.triggerInterrupt_ok_iff s.world.distributor
    s.world.cpu (show virtioBlkIntId < 1024 by decide) none).mpr hattends.raises
  have hdisk := operation_disk v f vm pages fuel hfuel (c.Keep vm q) s.world [c.request vm] hpending
    a.array hholds.shows hattends.completes d' cpu' htrigger
  rw [turns_request] at hdisk
  obtain ⟨hpc, ⟨hmem, hshows, hrest, -, hcompletes⟩, hdevice, hinterrupt, -, -⟩ := hdisk
  have hstays : Handler.operation vm (.fat32 v.fs pages fuel) turns s.world.begin =
      Handler.operation vm (.fat32 v.fs pages fuel) 4 s.world.begin :=
    Handler.operation_stays (Handler.step_returned hpc) hturns
  generalize hlast : Handler.operation vm (.fat32 v.fs pages fuel) 4 s.world.begin = last at *
  have hnotify : Session.notify vm (.fat32 v.fs pages fuel) turns s =
      (.ok true, { s with world := last.world }) := by
    have hwrite : s.world.device.write vm virtioMmioQueueNotify 0 = .ok (s.world.device, true) := rfl
    simp only [Session.notify, Prog.bind_apply, Prog.get_apply, hwrite, Prog.lift_apply, if_true,
      Prog.modify_apply, Prog.pure_apply, hstays, hpc, decide_true]
  obtain ⟨harray, hsame⟩ := a.transfer_congr (t := c.transfer vm f) hholds.mem hfits.buffer
  rw [performAll_request] at hmem hshows
  dsimp only at hmem hshows
  rw [show s.world.machine.mem = s.mem from rfl] at hmem hshows
  have hnotUsed : ∀ x, ¬ q.Pages vm x → ¬ (s.world.device.usedRing ≤ x ∧
      x < s.world.device.usedRing + 4 + 8 * s.world.device.queueSize) := by
    intro x hx hin
    rw [hattends.usedRing, hsize] at hin
    exact hx ⟨by omega, by omega⟩
  refine ⟨_, hnotify, rfl, ?_, ?_, ?_, ?_, ?_⟩
  · obtain ⟨rfl, rfl⟩ := Prod.mk.inj hinterrupt
    have hraises := raises_trigger (by decide) hattends.raises htrigger
    refine ⟨?_, ?_, ?_, ?_, ?_, ?_, ?_, hraises, hcompletes⟩ <;> rw [hdevice]
    · exact hattends.file
    · exact hsize
    · exact hattends.descriptor
    · exact hattends.availRing
    · exact hattends.usedRing
    · exact congrArg (· + 1) hattends.lastAvailId
    · exact congrArg (· + 1) hattends.usedId
  · change last.world.machine.mem _ = _
    rw [hmem, reply_status hpositive _ (hnotUsed _ hfits.status.2)]
    rfl
  · intro x hx
    have hstatus : x ≠ host vm c.statusAddress := fun heq => hfits.status.1 (heq ▸ hx)
    have hpages : ¬ q.Pages vm x := fun hin => hfits.pages x hin hx
    change last.world.machine.mem x = _
    rw [hmem, reply_apart hpositive _ hstatus (hnotUsed x hpages), hsame x hx]
  · rw [← harray]
    exact hshows
  · intro x hx
    exact (hrest x hx).trans (hholds.rest x hx)

/-- After a step of the driver. -/
def Session.driven (s : Session η) (vm : Vm.VM) (q : Queue) (d : VirtioBlk) : Session η :=
  { s.setMem (d.image vm q s.mem) with driver := d }

theorem drive_ok {α : Type} {g : VirtioBlk → Except Panic (α × VirtioBlk)} {s : Session η} {b : α}
    {d : VirtioBlk} (h : g s.driver = .ok (b, d)) :
    Session.drive vm q g s = (.ok b, s.driven vm q d) := by
  simp only [Session.drive, Prog.bind_apply, Prog.get_apply, h, Prog.lift_apply, Prog.modify_apply,
    Prog.pure_apply]
  rfl

theorem drive_unit {g : VirtioBlk → Except Panic VirtioBlk} {s : Session η} {d : VirtioBlk}
    (h : g s.driver = .ok d) :
    Session.drive vm q (fun d => do return ((), ← g d)) s = (.ok (), s.driven vm q d) := by
  apply drive_ok
  rw [h]
  rfl

/-- A step of the driver touches neither the data nor the status. -/
theorem Session.driven_mem (hlies : q.Lies vm) (s : Session η) (d : VirtioBlk) {x : ℕ}
    (hx : ¬ q.Pages vm x) : (s.driven vm q d).mem x = s.mem x :=
  image_outside d s.mem hlies.host_avail fun hin => hx ⟨hin.1, by rw [InQueue] at hin; omega⟩

theorem Session.Holds.driven {s : Session η} {disk : Bytes} {a : Arrays ι}
    (hholds : s.Holds v data disk a) (hlies : q.Lies vm) (hpages : ∀ x, q.Pages vm x → ¬ data x)
    (d : VirtioBlk) : (s.driven vm q d).Holds v data disk a where
  mem x hx := (s.driven_mem hlies d fun hin => hpages x hin hx).trans (hholds.mem x hx)
  shows := hholds.shows
  rest := hholds.rest

/-- A call on a driver and a device that are ready is the transfer. -/
theorem Call.Fits.answers [DecidableEq ι] (hfits : c.Fits vm q v f data) (hc : c.pending.Aligned)
    (hvm : vm.ramVirtualBaseAddress + vm.ramSize ≤ 2 ^ 64) (hlies : q.Lies vm) (pages : Pages η)
    {fuel : ℕ} (hfuel : 0 < fuel) {turns : ℕ} (hturns : 4 ≤ turns) {k : ℕ} (hk : k + 1 < 2 ^ 16)
    {s : Session η} (hready : s.Ready vm q v f k) {disk : Bytes} {a : Arrays ι}
    (hholds : s.Holds v data disk a) :
    ∃ s', Session.operationSync vm q (.fat32 v.fs pages fuel) turns c s =
        (.ok (some (.ok ())), s') ∧
      s'.Ready vm q v f (k + 1) ∧ s'.Holds v data disk (a.transfer (c.transfer vm f)) := by
  obtain ⟨descriptors, hchain, hchained⟩ := chain_chained hready.idle.free c
  have hslot : k % 64 < 64 := Nat.mod_lt k (by decide)
  -- The request in memory.
  let d₁ : VirtioBlk := ⟨descriptors, k, s.driver.availRing, threeTaken⟩
  let d₂ : VirtioBlk := ⟨descriptors, k + 1, s.driver.availRing.put (k % 64) 0, threeTaken⟩
  let s₁ := s.setMem (c.variables vm s.mem)
  let s₂ := s₁.driven vm q d₁
  let s₃ := s₂.driven vm q d₂
  rw [hready.idle.availIdx] at hchain
  have hoffer : d₁.offer 0 = .ok d₂ := by
    rw [VirtioBlk.offer_eq]
    exact if_pos hk
  have hholds₁ : s₁.Holds v data disk a := by
    refine ⟨fun x hx => ?_, hholds.shows, hholds.rest⟩
    have hvariables : c.variables vm s.mem x = s.mem x := variables_outside
      (fun hheader => (hfits.header x hheader).1 hx) fun hstatus => hfits.status.1 (hstatus ▸ hx)
    exact hvariables.trans (hholds.mem x hx)
  have hholds₃ : s₃.Holds v data disk a :=
    (hholds₁.driven hlies hfits.pages d₁).driven hlies hfits.pages d₂
  have hattends₃ : Attends s₃.world vm q v f k :=
    attends_setMem (attends_setMem (attends_setMem hready.attends _) _) _
  have hheader₃ : ∀ x, c.Header vm x → s₃.world.machine.mem x = c.variables vm s.mem x := by
    intro x hx
    have hpages := (hfits.header x hx).2.1
    exact (s₂.driven_mem hlies d₂ hpages).trans (s₁.driven_mem hlies d₁ hpages)
  have hpending : Pending v f vm (c.Keep vm q) s₃.world [c.request vm] :=
    hfits.pending hc hvm hlies hattends₃ hk (d := d₂) hchained rfl
      (by rw [FixedArray.getD_put _ _ _ _ _ hslot, if_pos rfl]) s.mem s₂.mem rfl hheader₃
  obtain ⟨s₄, hnotify, hdriver, hattends₄, hstatus, hholds₄⟩ :=
    notify_answers hfits hlies pages hfuel hturns hattends₃ hpending hholds₃
  -- The descriptors come back.
  obtain ⟨hfree, hfree', hfree''⟩ := free_three descriptors (k + 1) (s.driver.availRing.put (k % 64) 0)
  let d₅ : VirtioBlk := { d₂ with freeBitmap := threeTaken.put 0 0xF9 }
  let d₆ : VirtioBlk := { d₂ with freeBitmap := (threeTaken.put 0 0xF9).put 0 0xFB }
  let d₇ : VirtioBlk := { d₂ with freeBitmap := .fill 8 0xFF }
  let s₇ := ((s₄.driven vm q d₅).driven vm q d₆).driven vm q d₇
  refine ⟨s₇, ?_, ⟨⟨rfl, rfl⟩, attends_setMem (attends_setMem (attends_setMem hattends₄ _) _) _⟩,
    ((hholds₄.driven hlies hfits.pages d₅).driven hlies hfits.pages d₆).driven hlies hfits.pages d₇⟩
  suffices h : Prog.Yields (fun result last =>
      (result, last) = (Except.ok (some (Except.ok ())), s₇))
      (Session.operationSync vm q (.fat32 v.fs pages fuel) turns c) s from h
  refine .ite_neg (not_not.mpr hc) ?_
  refine .bind_ok (show Prog.modify _ s = (.ok (), s₁) from rfl) ?_
  refine .bind_ok (drive_ok hchain) ?_
  refine .bind_ok (drive_unit hoffer) ?_
  refine .bind_ok hnotify ?_
  refine .ite_pos rfl ?_
  refine .bind_ok (Prog.get_apply s₄) ?_
  rw [hstatus]
  refine .bind_ok (drive_unit (g := fun d => d.freeDescriptor 0) (d := d₅) ?_) ?_
  · rw [hdriver]
    exact hfree
  refine .bind_ok (drive_unit (g := fun d => d.freeDescriptor 1) (d := d₆) hfree') ?_
  refine .bind_ok (drive_unit (g := fun d => d.freeDescriptor 2) (d := d₇) hfree'') ?_
  rfl

/-! ## The driver of a session -/

theorem drive_inv {α : Type} {g : VirtioBlk → Except Panic (α × VirtioBlk)} {s s' : Session η} {b : α}
    (h : Session.drive vm q g s = (.ok b, s')) : g s.driver = .ok (b, s'.driver) := by
  cases hg : g s.driver with
  | error p =>
    simp [Session.drive, Prog.bind_apply, hg] at h
  | ok x =>
    obtain ⟨b', d⟩ := x
    rw [drive_ok hg] at h
    obtain ⟨hresult, hsession⟩ := Prod.mk.inj h
    rw [← hsession, Except.ok.inj hresult]
    rfl

theorem drive_unit_inv {g : VirtioBlk → Except Panic VirtioBlk} {s s' : Session η} {b : Unit}
    (h : Session.drive vm q (fun d => do return ((), ← g d)) s = (.ok b, s')) :
    g s.driver = .ok s'.driver := by
  obtain ⟨d, hd, hpair⟩ := Checked.bind_eq_ok.mp (drive_inv h)
  rw [hd, ← (Prod.mk.inj (Except.ok.inj hpair)).2]

theorem notify_driver {body : FileBody η} {turns : ℕ} {s s' : Session η} {b : Bool}
    (h : Session.notify vm body turns s = (.ok b, s')) : s'.driver = s.driver := by
  have hwrite : s.world.device.write vm virtioMmioQueueNotify 0 = .ok (s.world.device, true) := rfl
  simp only [Session.notify, Prog.bind_apply, Prog.get_apply, hwrite, Prog.lift_apply, if_true,
    Prog.modify_apply, Prog.pure_apply, Prod.mk.injEq] at h
  rw [← h.2]

/-- Whatever the device does, the driver answers as it does to the status that it finds in
memory. -/
theorem operationSync_driver {body : FileBody η} {turns : ℕ} {s s' : Session η}
    {result : Except Unit Unit}
    (h : Session.operationSync vm q body turns c s = (.ok (some result), s')) :
    ∃ status hs, s.driver.operationSync (c.operation status hs) = .ok (some result, s'.driver) := by
  by_cases hc : c.pending.Aligned
  swap
  · rw [Session.operationSync, if_pos hc] at h
    obtain ⟨hresult, rfl⟩ := Prod.mk.inj h
    refine ⟨0, by decide, ?_⟩
    rw [← Except.ok.inj hresult]
    exact s.driver.operationSync_unaligned hc
  rw [Session.operationSync, if_neg (not_not.mpr hc)] at h
  obtain ⟨_, s₁, hs₁, h⟩ := Prog.bind_inv h
  obtain ⟨heads, s₂, hchain, h⟩ := Prog.bind_inv h
  replace hchain := drive_inv hchain
  have hdriver₁ : s₁.driver = s.driver := by
    rw [← (Prod.mk.inj hs₁).2]
    rfl
  rw [hdriver₁] at hchain
  have hnot : ∀ status hs, ¬ ¬ (c.operation status hs).Aligned := fun _ _ => not_not.mpr hc
  have hchain' : ∀ status hs, s.driver.chain (c.operation status hs) = .ok (heads, s₂.driver) :=
    fun _ _ => hchain
  cases heads with
  | none =>
    obtain ⟨hresult, rfl⟩ := Prod.mk.inj h
    refine ⟨0, by decide, ?_⟩
    rw [VirtioBlk.operationSync, if_neg (hnot _ _), hchain', ← Except.ok.inj hresult]
    rfl
  | some heads =>
    obtain ⟨first, second, third⟩ := heads
    obtain ⟨_, s₃, hoffer, h⟩ := Prog.bind_inv h
    obtain ⟨returned, s₄, hnotify, h⟩ := Prog.bind_inv h
    replace hoffer := drive_unit_inv hoffer
    replace hnotify := notify_driver hnotify
    cases returned with
    | false => cases (Prod.mk.inj h).1
    | true =>
      rw [if_pos rfl] at h
      rw [Prog.get_bind] at h
      generalize s₄.mem (host vm c.statusAddress) = status at h
      cases hwait : spinWait [status] with
      | none =>
        rw [hwait] at h
        cases Except.ok.inj (Prod.mk.inj h).1
      | some answer =>
        rw [hwait] at h
        have hstatus : status ≠ 0xFF := by
          rintro rfl
          cases hwait
        obtain ⟨_, s₅, hfree, h⟩ := Prog.bind_inv h
        obtain ⟨_, s₆, hfree', h⟩ := Prog.bind_inv h
        obtain ⟨_, s₇, hfree'', h⟩ := Prog.bind_inv h
        replace hfree := drive_unit_inv hfree
        rw [hnotify] at hfree
        obtain ⟨hresult, rfl⟩ := Prod.mk.inj h
        refine ⟨status, hstatus, ?_⟩
        have hpolls : spinWait (c.operation status hstatus).polls = some answer := hwait
        rw [VirtioBlk.operationSync, if_neg (hnot _ _), hchain', Checked.ok_bind]
        dsimp only
        rw [hoffer, Checked.ok_bind, hpolls]
        dsimp only
        rw [hfree, Checked.ok_bind, drive_unit_inv hfree', Checked.ok_bind, drive_unit_inv hfree'',
          ← Except.ok.inj hresult]
        rfl

/-- A call for anything but whole sectors is refused before anything happens. -/
theorem operationSync_refuses (vm : Vm.VM) (q : Queue) (body : FileBody η) (turns : ℕ)
    (hc : ¬ c.pending.Aligned) (s : Session η) :
    Session.operationSync vm q body turns c s = (.ok (some (.error ())), s) := by
  rw [Session.operationSync, if_pos hc]
  rfl

/-! ## Runs of calls -/

/-- The transfers that calls ask for. -/
def transfersOf (calls : List Call) (vm : Vm.VM) (f : ι) : List (Transfers.Transfer ι) :=
  (calls.filter fun c => decide c.pending.Aligned).map fun c => c.transfer vm f

/-- The answer to a call that asks for sectors of the file, or not for whole ones. -/
def Call.answer (c : Call) : Except Unit Unit := if c.pending.Aligned then .ok () else .error ()

theorem serve_ready [DecidableEq ι] (hvm : vm.ramVirtualBaseAddress + vm.ramSize ≤ 2 ^ 64)
    (hlies : q.Lies vm) (pages : Pages η) {fuel : ℕ} (hfuel : 0 < fuel) {turns : ℕ}
    (hturns : 4 ≤ turns) {disk : Bytes} {calls : List Call}
    (hcalls : ∀ c ∈ calls, c.pending.Aligned → c.Fits vm q v f data) {k : ℕ}
    (hk : k + (transfersOf calls vm f).length < 2 ^ 16) {s : Session η}
    (hready : s.Ready vm q v f k) {a : Arrays ι} (hholds : s.Holds v data disk a) :
    let outcome := Session.serve vm q (.fat32 v.fs pages fuel) turns s calls
    outcome.1 = calls.map (fun c => .ok (some c.answer)) ∧
      outcome.2.Ready vm q v f (k + (transfersOf calls vm f).length) ∧
      outcome.2.Holds v data disk ((transfersOf calls vm f).foldl Arrays.transfer a) := by
  induction calls generalizing k s a with
  | nil => exact ⟨rfl, hready, hholds⟩
  | cons c rest ih =>
    rw [List.forall_mem_cons] at hcalls
    obtain ⟨hfirst, hrest⟩ := hcalls
    by_cases hc : c.pending.Aligned
    · have htransfers : transfersOf (c :: rest) vm f = c.transfer vm f :: transfersOf rest vm f := by
        simp [transfersOf, hc]
      have hanswer : c.answer = .ok () := if_pos hc
      rw [htransfers, List.length_cons] at hk ⊢
      obtain ⟨s', hcall, hready', hholds'⟩ := (hfirst hc).answers hc hvm hlies pages hfuel hturns
        (by omega) hready hholds
      obtain ⟨hanswers, hlast, hend⟩ := ih hrest (by omega) hready' hholds'
      simp only [Session.serve, hcall, List.map_cons, hanswer, List.foldl_cons]
      refine ⟨by rw [hanswers], ?_, hend⟩
      rw [show k + ((transfersOf rest vm f).length + 1) = k + 1 + (transfersOf rest vm f).length by
        omega]
      exact hlast
    · have htransfers : transfersOf (c :: rest) vm f = transfersOf rest vm f := by
        simp [transfersOf, hc]
      have hanswer : c.answer = .error () := if_neg hc
      rw [htransfers] at hk ⊢
      have hcall := operationSync_refuses vm q (.fat32 v.fs pages fuel) turns hc s
      obtain ⟨hanswers, hlast, hend⟩ := ih hrest hk hready hholds
      simp only [Session.serve, hcall, List.map_cons, hanswer]
      exact ⟨by rw [hanswers], hlast, hend⟩

/-- The device behind the handshake. -/
theorem attends_attached (hlies : q.Lies vm) {w : World η} {u : VirtioBlkMmio}
    (hdevice : w.device = attached u (host vm q.descriptors)) (hfile : u.file = v.file f)
    (hraises : w.distributor.enable.bit virtioBlkIntId = true →
      w.distributor.DeliverySafe w.cpu virtioBlkIntId)
    (hblk : w.machine.blk.Completes) : Attends w vm q v f 0 := by
  refine ⟨?_, ?_, ?_, ?_, ?_, ?_, ?_, hraises, hblk⟩ <;> rw [hdevice]
  · exact hfile
  · rfl
  · rfl
  · exact hlies.host_avail.symm
  · exact hlies.host_used.symm
  · rfl
  · rfl

/-- Behind the handshake, any calls of the driver are answered in order: those for whole
sectors with a success, the others with an error. The data in memory and the files are
what the transfers make of them, and nothing else on the disk changed. -/
theorem serve_disk [DecidableEq ι] (v : Store ι) (f : ι) (vm : Vm.VM)
    (hvm : vm.ramVirtualBaseAddress + vm.ramSize ≤ 2 ^ 64) (q : Queue) (hlies : q.Lies vm)
    (pages : Pages η) (fuel : ℕ) (hfuel : 0 < fuel) (turns : ℕ) (hturns : 4 ≤ turns)
    (data : ℕ → Prop) (calls : List Call)
    (hcalls : ∀ c ∈ calls, c.pending.Aligned → c.Fits vm q v f data)
    (hcount : (transfersOf calls vm f).length < 2 ^ 16) (u : VirtioBlkMmio)
    (hfile : u.file = v.file f) (w : World η)
    (hdevice : w.device = attached u (host vm q.descriptors))
    (hraises : w.distributor.enable.bit virtioBlkIntId = true →
      w.distributor.DeliverySafe w.cpu virtioBlkIntId)
    (hblk : w.machine.blk.Completes) (contents : ι → Bytes)
    (hshows : v.Shows w.machine.blk.disk contents) :
    let outcome := Session.serve vm q (.fat32 v.fs pages fuel) turns ⟨.new, w⟩ calls
    let a := (transfersOf calls vm f).foldl Arrays.transfer ⟨w.machine.mem, contents⟩
    outcome.1 = calls.map (fun c => .ok (some c.answer)) ∧
      (∀ x, data x → outcome.2.mem x = a.mem x) ∧
      v.Shows outcome.2.world.machine.blk.disk a.array ∧
      (∀ x, v.placement.Free x →
        outcome.2.world.machine.blk.disk x = w.machine.blk.disk x) ∧
      outcome.2.driver.Idle (transfersOf calls vm f).length := by
  intro outcome a
  have hready : Session.Ready ⟨.new, w⟩ vm q v f 0 :=
    ⟨new_idle, attends_attached hlies hdevice hfile hraises hblk⟩
  have hholds : Session.Holds ⟨.new, w⟩ v data w.machine.blk.disk ⟨w.machine.mem, contents⟩ :=
    ⟨fun _ _ => rfl, hshows, fun _ _ => rfl⟩
  obtain ⟨hanswers, hlast, hend⟩ := serve_ready hvm hlies pages hfuel hturns hcalls
    (by rwa [Nat.zero_add]) hready hholds
  rw [Nat.zero_add] at hlast
  exact ⟨hanswers, hend.mem, hend.shows, hend.rest, hlast.idle⟩

end Present

/-! ## A session of three calls -/

def sessionQueue : Queue := ⟨0x44000000, 0x44000400, 0x44001000⟩

def sessionDevice : VirtioBlkMmio := { sampleDevice with file := ⟨5, 4096⟩ }

/-- The second half of a file is written, a part of a sector is asked for, and the whole
file is read. -/
def sessionCalls : List Call :=
  [⟨0x40004000, 2048, 2048, true, 0x40001000, 0x40001010⟩,
    ⟨0x40004000, 0, 100, false, 0x40001000, 0x40001010⟩,
    ⟨0x40008000, 0, 4096, false, 0x40001000, 0x40001010⟩]

def sessionData (x : ℕ) : Prop := 0x50004000 ≤ x ∧ x < 0x50010000

/-- Any buffer in the data will do. -/
theorem session_fits {c : Call} (hreq : c.reqAddress = 0x40001000)
    (hstatus : c.statusAddress = 0x40001010)
    (hwhole : Store.twoFiles.Whole (c.transfer sampleVm true)) (hlow : 0x40004000 ≤ c.bufferAddress)
    (hhigh : c.bufferAddress + c.length ≤ 0x40010000) :
    c.Fits sampleVm sessionQueue Store.twoFiles true sessionData := by
  have hhost : ∀ a, host sampleVm a = a - 0x40000000 + 0x50000000 := fun _ => rfl
  have hbase : sampleVm.ramVirtualBaseAddress = 0x40000000 := rfl
  have hsize : sampleVm.ramSize = 0x10000000 := rfl
  have hqueue : sessionQueue.descriptors = 0x44000000 := rfl
  have hpositive : 0 < c.length := hwhole.aligned.positive
  refine ⟨hwhole, ?_, ?_, ?_, ?_, ?_, ?_, ?_⟩ <;>
    simp only [Call.Header, Queue.Pages, sessionData, InRam, hhost, hbase, hsize, hqueue, hreq,
      hstatus, sizeOfReq] <;>
    intros <;> omega

theorem sessionCalls_fit : ∀ c ∈ sessionCalls, c.pending.Aligned →
    c.Fits sampleVm sessionQueue Store.twoFiles true sessionData := by
  simp only [sessionCalls, List.forall_mem_cons, List.not_mem_nil, false_implies, implies_true,
    and_true]
  refine ⟨fun _ => ?_, fun haligned => absurd haligned (by decide), fun _ => ?_⟩
  · exact session_fits rfl rfl ⟨⟨by decide, by decide, by decide, by decide, by decide⟩, by decide⟩
      (by decide) (by decide)
  · exact session_fits rfl rfl ⟨⟨by decide, by decide, by decide, by decide, by decide⟩, by decide⟩
      (by decide) (by decide)

theorem serve_disk_three_calls :
    let w := World.start (attached sessionDevice 0x54000000) fun _ => 7
    let outcome := Session.serve sampleVm sessionQueue (.fat32 Store.twoFiles.fs samplePages 1) 4
      ⟨.new, w⟩ sessionCalls
    let a := (transfersOf sessionCalls sampleVm true).foldl Arrays.transfer ⟨fun _ => 7, fun _ _ => 0⟩
    outcome.1 = [.ok (some (.ok ())), .ok (some (.error ())), .ok (some (.ok ()))] ∧
      (∀ x, sessionData x → outcome.2.mem x = a.mem x) ∧
      Store.twoFiles.Shows outcome.2.world.machine.blk.disk a.array ∧
      (∀ x, Store.twoFiles.placement.Free x → outcome.2.world.machine.blk.disk x = 0) ∧
      outcome.2.driver.Idle 2 :=
  serve_disk Store.twoFiles true sampleVm (by decide) sessionQueue
    ⟨by decide, by decide, by decide, by decide, by decide⟩ samplePages 1 Nat.one_pos 4 le_rfl
    sessionData sessionCalls sessionCalls_fit (by decide) sessionDevice rfl
    (World.start (attached sessionDevice 0x54000000) fun _ => 7) rfl (fun h => absurd h (by decide))
    (fun _ _ => le_rfl) (fun _ _ => 0) (fun _ _ _ => rfl)

end Min1visor.VirtioDriver
