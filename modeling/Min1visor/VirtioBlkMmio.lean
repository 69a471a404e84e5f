import Min1visor.Fat32
import Min1visor.Gicv3Mmio
import Min1visor.Vm
import Min1visor.Library.Extents
import Min1visor.Library.Programs

/-!
# The emulated virtio block device

The registers of the device and the handler of a queue notification. The handler
has two nested loops, one over the entries of the available ring and one over the
descriptors of a request; a turn of either is one step here. Host memory is read
and written at addresses that the guest chose. Beside the state of the source, the
accesses on behalf of the guest and what happened to the entries of the ring are
kept as they happen.
-/
namespace Min1visor.Virtio
open Vgicv3 Gicv3Mmio Fat Fat.Fat32

def virtioMmioMagic : ℕ := 0x000
def virtioMmioMagicValue : ℕ := 0x74726976
def virtioMmioVersion : ℕ := 0x004
def virtioMmioDeviceId : ℕ := 0x008
def virtioMmioVendorId : ℕ := 0x00c
def virtioMmioDeviceFeatures : ℕ := 0x010
def virtioMmioGuestPageSize : ℕ := 0x028
def virtioMmioQueueNumMax : ℕ := 0x034
def virtioMmioQueueNum : ℕ := 0x038
def virtioMmioQueuePfn : ℕ := 0x040
def virtioMmioQueueReady : ℕ := 0x044
def virtioMmioQueueNotify : ℕ := 0x050
def virtioMmioInterruptStatus : ℕ := 0x060
def virtioMmioInterruptAck : ℕ := 0x064
def virtioMmioStatus : ℕ := 0x070
def virtioConfigOffset : ℕ := 0x100

def virtQueueDescFlagsNext : ℕ := 1
def virtioBlkTypeOut : ℕ := 1
def virtioBlkSOk : UInt8 := 0
def virtioBlkSIoerr : UInt8 := 1
def virtioBlkIntId : ℕ := 40

/-- The sizes of a descriptor, a request header and a used element. -/
def sizeOfDesc : ℕ := 16
def sizeOfReq : ℕ := 16
def sizeOfUsedElement : ℕ := 8

structure VirtQueueDesc where
  address : ℕ
  length : ℕ
  flags : ℕ
  next : ℕ
  deriving DecidableEq

def loadDesc (mem : Bytes) (a : ℕ) : VirtQueueDesc :=
  ⟨Bytes.load mem a 8, Bytes.load mem (a + 8) 4, Bytes.load mem (a + 12) 2, Bytes.load mem (a + 14) 2⟩

/-- The device. A null pointer is 0. -/
structure VirtioBlkMmio where
  file : FileInfo
  interruptStatus : BitVec 32
  status : BitVec 32
  queueSize : ℕ
  queueReady : Bool
  pageSize : ℕ
  descriptor : ℕ
  availRing : ℕ
  usedRing : ℕ
  lastAvailId : ℕ
  usedId : ℕ
  deriving DecidableEq

namespace VirtioBlkMmio

/-- A new device; the size of its file is a multiple of 512. -/
def new (file : FileInfo) : Except Panic VirtioBlkMmio :=
  if file.fileSize &&& 0x1FF ≠ 0 then .error .explicit
  else .ok
    { file := file
      interruptStatus := 0
      status := 0
      queueSize := 0
      queueReady := false
      pageSize := 1 <<< 12
      descriptor := 0
      availRing := 0
      usedRing := 0
      lastAvailId := 0
      usedId := 0 }

end VirtioBlkMmio

/-! ## The state of the handler -/

/-- What stops the handler for good. Overflows of the two ring counters are kept
apart from the other arithmetic of the device. -/
inductive Fault
  | counter
  | arithmetic (p : Panic)
  | file (p : Panic)
  | interrupt (p : Panic)
  | running
  deriving DecidableEq

/-- What follows the clamping of a file access, in the file system. -/
structure FileBody (η : Type) where
  read : FileInfo → ℕ → ℕ → ℕ → Machine η → Except Stop ℕ × Machine η
  write : FileInfo → ℕ → ℕ → ℕ → Machine η → Except Stop ℕ × Machine η

/-- The file accesses of a FAT32 volume, behind their clamping. -/
def FileBody.fat32 {η : Type} (fs : Fat32) (pages : Pages η) (fuel : ℕ) : FileBody η where
  read file address offset length m :=
    match fs.locate file offset with
    | .error stop => (.error stop, m)
    | .ok (cluster, dataOffset) => fs.readFrom pages address length fuel cluster dataOffset 0 m
  write file address offset length m :=
    match fs.locate file offset with
    | .error stop => (.error stop, m)
    | .ok (cluster, dataOffset) =>
      let (result, blk) := fs.writeFrom m.mem address length fuel cluster dataOffset 0 m.blk
      (result, { m with blk := blk })

/-- The history of the handler: the accesses on behalf of the guest, the heads of
the consumed entries of the available ring, the published used elements, and how
often the interrupt was triggered. -/
structure History where
  accesses : List Extent
  consumed : List (Option ℕ)
  published : List ℕ
  triggers : ℕ

structure World (η : Type) where
  device : VirtioBlkMmio
  machine : Machine η
  distributor : GicDistributorMmio
  cpu : CpuInterface
  history : History

variable {η : Type}

namespace World

def touch (w : World η) (e : Extent) : World η :=
  { w with history := { w.history with accesses := w.history.accesses ++ [e] } }

def store (w : World η) (a size value : ℕ) : World η :=
  { w with machine := { w.machine with mem := Bytes.store w.machine.mem a size value } }

/-- The state in which a call of the handler starts, with an empty history. -/
def begin (w : World η) : World η := { w with history := ⟨[], [], [], 0⟩ }

/-- A device next to a new interrupt controller and an empty disk. -/
def start (device : VirtioBlkMmio) (mem : Bytes) : World Unit where
  device := device
  machine := ⟨mem, (), ⟨fun _ => 0, fun _ n => n⟩⟩
  distributor := .new
  cpu := .reset 0 3
  history := ⟨[], [], [], 0⟩

/-- An entry of the available ring was consumed. -/
def consume (w : World η) (head : Option ℕ) : World η :=
  { w with history := { w.history with consumed := w.history.consumed ++ [head] } }

/-- A used element was published. -/
def publish (w : World η) (id : ℕ) : World η :=
  { w with history := { w.history with published := w.history.published ++ [id] } }

end World

/-- The variables of the loop over the descriptors of a request. -/
structure Request where
  descriptorId : ℕ
  descriptor : VirtQueueDesc
  isWrite : Bool
  offset : ℕ
  totalSize : ℕ
  status : UInt8
  deriving DecidableEq

/-- Where the handler is: at the head of one of its loops, or done. -/
inductive Pc
  | fetch
  | walk (request : Request)
  | returned
  deriving DecidableEq

/-- Programs of the device. -/
abbrev Device (η : Type) := Prog (World η) Fault

namespace Device

/-- Arithmetic of the device that may abort. -/
def arithmetic {α : Type} (x : Except Panic α) : Device η α :=
  .lift (match x with
    | .ok a => .ok a
    | .error p => .error (.arithmetic p))

/-- The overflow of a ring counter. -/
def increment (counter : ℕ) : Device η ℕ :=
  .lift (if counter + 1 < 2 ^ 16 then .ok (counter + 1) else .error .counter)

/-- An access of host memory on behalf of the guest. -/
def touch (a size : ℕ) : Device η Unit := .modify (World.touch · ⟨a, size⟩)

def mem : Device η Bytes := do return (← .get).machine.mem

def setDevice (f : VirtioBlkMmio → VirtioBlkMmio) : Device η Unit :=
  .modify fun w => { w with device := f w.device }

def storeBytes (a size value : ℕ) : Device η Unit := do
  touch a size
  .modify (World.store · a size value)

end Device

/-! ## The queue -/

namespace VirtioBlkMmio
open Device

def getDescriptor (id : ℕ) : Device η (Option VirtQueueDesc) := do
  let v := (← .get).device
  if v.descriptor = 0 then return none
  else
    let a ← arithmetic (do Checked.add 64 v.descriptor (← Checked.mul 64 sizeOfDesc id))
    touch a sizeOfDesc
    return some (loadDesc (← mem) a)

def getDescriptorId (id : ℕ) : Device η (Option ℕ) := do
  let v := (← .get).device
  if v.availRing = 0 then return none
  else
    let a ← arithmetic (do Checked.add 64 (← Checked.add 64 v.availRing 4) (← Checked.mul 64 2 id))
    touch a 2
    return some (Bytes.load (← mem) a 2)

/-- A remainder by the queue size, cut to 16 bits. -/
def ringSlot (counter queueSize : ℕ) : Except Panic ℕ :=
  if queueSize % 2 ^ 16 = 0 then .error .divideByZero else .ok (counter % (queueSize % 2 ^ 16))

def getNextAvailId : Device η (Option ℕ) := do
  let v := (← .get).device
  touch (v.availRing + 2) 2
  if v.lastAvailId = Bytes.load (← mem) (v.availRing + 2) 2 then return none
  else
    let next ← arithmetic (ringSlot v.lastAvailId v.queueSize)
    let lastAvailId ← increment v.lastAvailId
    setDevice fun v => { v with lastAvailId := lastAvailId }
    return some next

def writeUsed (id length : ℕ) : Device η Unit := do
  let v := (← .get).device
  let slot ← arithmetic (ringSlot v.usedId v.queueSize)
  let usedId ← increment v.usedId
  setDevice fun v => { v with usedId := usedId }
  let a ← arithmetic (do
    Checked.add 64 (← Checked.add 64 v.usedRing 4) (← Checked.mul 64 sizeOfUsedElement slot))
  storeBytes a sizeOfUsedElement (id + 2 ^ 32 * length)
  storeBytes (v.usedRing + 2) 2 usedId
  .modify (World.publish · id)

/-- What the handler makes of the outcome of a file access. -/
def endAccess (outcome : Except Stop ℕ × Machine η) : Device η Bool := do
  .modify fun w => { w with machine := outcome.2 }
  match outcome.1 with
  | .ok _ => return true
  | .error .err => return false
  | .error (.panic p) => .stop (.file p)
  | .error .running => .stop .running

/-- The first part of a file access is the test of `offset + length`. -/
def accessFile (body : FileBody η) (isWrite : Bool) (address offset length : ℕ) : Device η Bool := do
  let file := (← .get).device.file
  match ← arithmetic (Fat32.clamp file offset length) with
  | none => return true
  | some length =>
    let machine := (← .get).machine
    endAccess (if isWrite then body.write file address offset length machine
      else body.read file address offset length machine)

def raiseInterrupt : Device η Unit := do
  setDevice fun v => { v with interruptStatus := v.interruptStatus ||| 1 }
  let w ← .get
  match w.distributor.triggerInterrupt w.cpu virtioBlkIntId none with
  | .error p => .stop (.interrupt p)
  | .ok (d, c) => .modify fun w => { w with
      distributor := d
      cpu := c
      history := { w.history with triggers := w.history.triggers + 1 } }

/-- A turn of the outer loop, up to the first descriptor behind the header. -/
def fetch (vm : Vm.VM) : Device η Pc := do
  match ← getNextAvailId with
  | none =>
    raiseInterrupt
    return .returned
  | some id =>
    let head ← getDescriptorId id
    .modify (World.consume · head)
    match head with
    | none => return .returned
    | some descriptorId =>
      match ← getDescriptor descriptorId with
      | none => return .returned
      | some request =>
        if request.length ≠ sizeOfReq then return .returned
        else
          match vm.getPhysicalAddress request.address with
          | none => return .returned
          | some blkReq =>
            touch blkReq sizeOfReq
            let reqType := Bytes.load (← mem) blkReq 4
            let sector := Bytes.load (← mem) (blkReq + 8) 8
            if request.flags &&& virtQueueDescFlagsNext = 0 then return .returned
            else return (.walk
              { descriptorId := descriptorId
                descriptor := request
                isWrite := reqType = virtioBlkTypeOut
                offset := sector * 512 % 2 ^ 64
                totalSize := 0
                status := virtioBlkSOk })

/-- The end of a request: its status byte and its used element. -/
def complete (vm : Vm.VM) (r : Request) (d : VirtQueueDesc) : Device η Pc := do
  match vm.getPhysicalAddress d.address with
  | some a =>
    storeBytes a 1 r.status.toNat
    let totalSize ← arithmetic (Checked.add 32 r.totalSize d.length)
    writeUsed r.descriptorId totalSize
    return .fetch
  | none =>
    writeUsed r.descriptorId r.totalSize
    return .fetch

/-- A turn of the inner loop. -/
def walk (vm : Vm.VM) (body : FileBody η) (r : Request) : Device η Pc := do
  match ← getDescriptor r.descriptor.next with
  | none => return .returned
  | some d =>
    if d.flags &&& virtQueueDescFlagsNext = 0 then complete vm r d
    else
      let totalSize ← arithmetic (Checked.add 32 r.totalSize d.length)
      match vm.getPhysicalAddress d.address with
      | none => return (.walk { r with
          descriptor := d
          totalSize := totalSize
          status := virtioBlkSIoerr })
      | some address =>
        touch address d.length
        let success ← accessFile body r.isWrite address r.offset d.length
        let offset ← arithmetic (Checked.add 64 r.offset d.length)
        return (.walk { r with
          descriptor := d
          totalSize := totalSize
          offset := offset
          status := if success then r.status else virtioBlkSIoerr })

end VirtioBlkMmio

/-! ## The handler and the registers -/

/-- The handler between two turns, or after it returned or stopped. -/
structure Handler (η : Type) where
  world : World η
  pc : Except Fault Pc

namespace Handler

def finish (x : Device η Pc) (w : World η) : Handler η :=
  let (pc, world) := x w
  ⟨world, pc⟩

/-- One turn of `operation`; a handler that is done stays as it is. -/
def step (vm : Vm.VM) (body : FileBody η) (h : Handler η) : Handler η :=
  match h.pc with
  | .ok .fetch => finish (VirtioBlkMmio.fetch vm) h.world
  | .ok (.walk r) => finish (VirtioBlkMmio.walk vm body r) h.world
  | _ => h

/-- The handler after a number of turns of `operation`. -/
def operation (vm : Vm.VM) (body : FileBody η) (turns : ℕ) (w : World η) : Handler η :=
  (step vm body)^[turns] ⟨w, .ok .fetch⟩

end Handler

namespace VirtioBlkMmio

/-- The rings behind the descriptor table, from the queue size and the page size. -/
def placeRings (v : VirtioBlkMmio) : Except Panic VirtioBlkMmio := do
  let availRing ← Checked.add 64 v.descriptor (← Checked.mul 64 sizeOfDesc v.queueSize)
  let size ← Checked.mul 64 2 (← Checked.add 64 3 v.queueSize)
  let last ← Checked.sub (← Checked.add 64 availRing size) 1
  let mask ← Checked.sub v.pageSize 1
  let usedRing ← Checked.add 64 (last &&& (2 ^ 64 - 1 - mask)) v.pageSize
  return { v with availRing := availRing, usedRing := usedRing }

def read (v : VirtioBlkMmio) (offset : ℕ) : Except Panic ℕ :=
  if offset = virtioMmioMagic then .ok virtioMmioMagicValue
  else if offset = virtioMmioVersion then .ok 0x01
  else if offset = virtioMmioDeviceId then .ok 0x02
  else if offset = virtioMmioVendorId then .ok 0x554d4551
  else if offset = virtioMmioDeviceFeatures then .ok 0x00
  else if offset = virtioMmioQueueNumMax then .ok 1024
  else if offset = virtioMmioQueueReady then .ok v.queueReady.toNat
  else if offset = virtioMmioQueuePfn then
    if v.pageSize = 0 then .error .divideByZero else .ok (v.descriptor / v.pageSize)
  else if offset = virtioMmioInterruptStatus then .ok v.interruptStatus.toNat
  else if offset = virtioMmioStatus then .ok v.status.toNat
  else if virtioConfigOffset ≤ offset then
    let configOffset := offset - virtioConfigOffset
    if configOffset < 8 then .ok (v.file.fileSize >>> 9 >>> (configOffset * 8)) else .ok 0
  else .ok 0

/-- The registers of a reset device. -/
def reset (v : VirtioBlkMmio) : VirtioBlkMmio :=
  { v with
    queueSize := 0
    queueReady := false
    pageSize := 1 <<< 12
    interruptStatus := 0
    status := 0
    descriptor := 0
    availRing := 0
    usedRing := 0
    lastAvailId := 0
    usedId := 0 }

/-- What a write leaves of the device, and whether it starts the handler. -/
def write (v : VirtioBlkMmio) (vm : Vm.VM) (offset : ℕ) (value : BitVec 64) :
    Except Panic (VirtioBlkMmio × Bool) :=
  if offset = virtioMmioGuestPageSize then .ok ({ v with pageSize := value.toNat }, false)
  else if offset = virtioMmioQueueNum then do
    return (← placeRings { v with queueSize := value.toNat }, false)
  else if offset = virtioMmioQueuePfn then do
    match vm.getPhysicalAddress (← Checked.mul 64 value.toNat v.pageSize) with
    | some address => return (← placeRings { v with descriptor := address }, false)
    | none => return (v, false)
  else if offset = virtioMmioQueueNotify then .ok (v, value = 0)
  else if offset = virtioMmioInterruptAck then
    .ok ({ v with interruptStatus := v.interruptStatus &&& ~~~value.setWidth 32 }, false)
  else if offset = virtioMmioStatus then
    if value = 0 then .ok (v.reset, false) else .ok ({ v with status := value.setWidth 32 }, false)
  else .ok (v, false)

end VirtioBlkMmio

/-! ## A machine with a small queue -/

/-- Memory with numbers in it, given by address, size and value. -/
def guestMemory (numbers : List (ℕ × ℕ × ℕ)) : Bytes :=
  numbers.foldl (fun mem (a, size, value) => Bytes.store mem a size value) fun _ => 0

def sampleVm : Vm.VM := ⟨Vm.ramVirtualBase, 0x50000000, Vm.ramSize⟩

/-- A device with a file of one sector. -/
def sampleDevice : VirtioBlkMmio where
  file := ⟨2, 512⟩
  interruptStatus := 0
  status := 0
  queueSize := 4
  queueReady := false
  pageSize := 4096
  descriptor := 0x50000000
  availRing := 0x50000040
  usedRing := 0x50001000
  lastAvailId := 0
  usedId := 0

def sampleVolume : Fat32 where
  baseLba := 0
  lbaSize := 512
  bytesPerSector := 512
  sectorsPerCluster := 1
  reservedSectors := 1
  fatSectors := 1
  numberOfFats := 1
  fat _ := 0x0FFFFFFF

def samplePages : Pages Unit := ⟨fun h _ _ => .ok (none, h), fun h _ _ => .ok h⟩

def sampleBody : FileBody Unit := .fat32 sampleVolume samplePages 1

/-- The registers that a driver writes to set up the queue of the sample. -/
example : (do
    let v ← VirtioBlkMmio.new ⟨2, 512⟩
    let (v, _) ← v.write sampleVm virtioMmioGuestPageSize 4096
    let (v, _) ← v.write sampleVm virtioMmioQueueNum 4
    v.write sampleVm virtioMmioQueuePfn 0x40000) = .ok (sampleDevice, false) := rfl

/-- A header and its status descriptor, and a ring with this one request. -/
def oneRequest : List (ℕ × ℕ × ℕ) :=
  [(0x50000000, 8, 0x40002000), (0x50000008, 4, 16), (0x5000000c, 2, 1), (0x5000000e, 2, 1),
    (0x50000010, 8, 0x40002010), (0x50000018, 4, 1), (0x50000042, 2, 1)]

end Min1visor.Virtio
