import Min1visor.Pl011
import Min1visor.VirtioBlkGuest

/-!
# Trapped device accesses

A load or a store of the guest to a device window ends in a data abort. The entry
saves the registers of the guest in a frame, the handler decodes the syndrome and
passes the access to the device in whose window the address lies, and the exit
restores the registers from the frame. A notification of the block device starts
its handler, which then takes its turns.
-/
namespace Min1visor.Exception
open Vgicv3 Gicv3Mmio Pl011 Virtio

def esrEl2EcBitsOffset : ℕ := 26
def esrEl2Ec : BitVec 64 := 0b111111 <<< esrEl2EcBitsOffset
def esrEl2EcDataAbort : BitVec 64 := 0b100100 <<< 26
def esrEl2IssIsv : BitVec 64 := 1 <<< 24
def esrEl2IssSasBitsOffset : ℕ := 22
def esrEl2IssSas : BitVec 64 := 0b11 <<< esrEl2IssSasBitsOffset
def esrEl2IssSrtBitsOffset : ℕ := 16
def esrEl2IssSrt : BitVec 64 := 0b11111 <<< esrEl2IssSrtBitsOffset
def esrEl2IssSf : BitVec 64 := 1 <<< 15
def esrEl2IssWnr : BitVec 64 := 1 <<< 6
def hpfarEl2FipaBitsOffset : ℕ := 4
def hpfarEl2Fipa : BitVec 64 := (((1 : BitVec 64) <<< 44) - 1) &&& ~~~(((1 : BitVec 64) <<< 4) - 1)
def pageShift : ℕ := 12
def pl011IntId : ℕ := 33

/-- The system registers that describe an exception. -/
structure Syndrome where
  esrEl2 : BitVec 64
  hpfarEl2 : BitVec 64
  farEl2 : BitVec 64
  elrEl2 : BitVec 64

namespace Syndrome

def isWriteAccess (s : Syndrome) : Bool := s.esrEl2 &&& esrEl2IssWnr ≠ 0

def is64bitRegister (s : Syndrome) : Bool := s.esrEl2 &&& esrEl2IssSf ≠ 0

def accessWidth (s : Syndrome) : ℕ :=
  match ((s.esrEl2 &&& esrEl2IssSas) >>> esrEl2IssSasBitsOffset).toNat with
  | 0b00 => 8
  | 0b01 => 16
  | 0b10 => 32
  | _ => 64

def registerNumber (s : Syndrome) : ℕ :=
  ((s.esrEl2 &&& esrEl2IssSrt) >>> esrEl2IssSrtBitsOffset).toNat

/-- The intermediate physical address of the access. -/
def address (s : Syndrome) : ℕ :=
  ((((s.hpfarEl2 &&& hpfarEl2Fipa) >>> hpfarEl2FipaBitsOffset) <<< pageShift) |||
    (s.farEl2 &&& ((1 <<< pageShift) - 1))).toNat

end Syndrome

/-! ## The devices and their windows -/

/-- The devices of a virtual machine; the distributor and the CPU interface are in
the world of the block device. -/
structure Board (η : Type) where
  pl011 : Pl011Mmio
  console : List UInt8
  redistributor : GicRedistributorMmio
  blk : Virtio.Handler η

variable {η : Type}

namespace Board

def device (b : Board η) : VirtioBlkMmio := b.blk.world.device

def distributor (b : Board η) : GicDistributorMmio := b.blk.world.distributor

def cpu (b : Board η) : CpuInterface := b.blk.world.cpu

def setInterrupts (b : Board η) (distributor : GicDistributorMmio)
    (redistributor : GicRedistributorMmio) (cpu : CpuInterface) : Board η :=
  { b with
    redistributor := redistributor
    blk := { b.blk with world := { b.blk.world with distributor := distributor, cpu := cpu } } }

end Board

inductive MmioHandler
  | pl011
  | virtioBlk
  | gicDistributor
  | gicRedistributor
  deriving DecidableEq

namespace MmioHandler

def read (b : Board η) (offset accessWidth : ℕ) : MmioHandler → Except Panic (BitVec 64 × Board η)
  | .pl011 =>
    let (value, device) := b.pl011.read offset
    .ok (BitVec.ofNat 64 value, { b with pl011 := device })
  | .virtioBlk => do return (BitVec.ofNat 64 (← b.device.read offset), b)
  | .gicDistributor => do return (← b.distributor.read offset accessWidth, b)
  | .gicRedistributor => do return (← b.redistributor.read offset accessWidth, b)

def write (vm : Vm.VM) (b : Board η) (offset accessWidth : ℕ) (value : BitVec 64) :
    MmioHandler → Except Panic (Board η)
  | .pl011 =>
    let (device, sent) := b.pl011.write offset value.toNat
    .ok { b with pl011 := device, console := b.console ++ sent.toList }
  | .virtioBlk => do return { b with blk := ← b.blk.writeRegister vm offset value }
  | .gicDistributor => do
    let (distributor, cpu) ← b.distributor.write b.cpu offset accessWidth value
    return b.setInterrupts distributor b.redistributor cpu
  | .gicRedistributor => do
    let (redistributor, cpu) ← b.redistributor.write b.cpu offset accessWidth value
    return b.setInterrupts b.distributor redistributor cpu

end MmioHandler

structure MmioEntry where
  baseAddress : ℕ
  length : ℕ
  handler : MmioHandler

/-- The windows, in the order in which `create_vm` adds them. -/
def mmioHandlers : List MmioEntry :=
  [⟨0x9000000, 0x1000, .pl011⟩, ⟨0xa000000, 0x0200, .virtioBlk⟩,
    ⟨0x8000000, GicDistributorMmio.mmioSize, .gicDistributor⟩,
    ⟨0x80a0000, GicRedistributorMmio.mmioSize, .gicRedistributor⟩]

/-- The device at an address, and the offset in its window. -/
def deviceAt (address : ℕ) : Option (MmioHandler × ℕ) :=
  (mmioHandlers.find? fun e =>
    e.baseAddress ≤ address ∧ address < e.baseAddress + e.length).map fun e =>
      (e.handler, address - e.baseAddress)

/-- The read of a device, or nothing when no window has the address. -/
def handleMmioRead (b : Board η) (address accessWidth : ℕ) :
    Except Panic (Option (BitVec 64 × Board η)) :=
  match deviceAt address with
  | some (handler, offset) => do return some (← handler.read b offset accessWidth)
  | none => .ok none

def handleMmioWrite (vm : Vm.VM) (b : Board η) (address accessWidth : ℕ) (value : BitVec 64) :
    Except Panic (Option (Board η)) :=
  match deviceAt address with
  | some (handler, offset) => do return some (← handler.write vm b offset accessWidth value)
  | none => .ok none

/-! ## The exception -/

/-- The frame: `x0` to `x30` and a word of padding. -/
abbrev Registers := FixedArray (BitVec 64) 32

/-- The registers `x0` to `x30` of the guest. -/
abbrev GuestRegisters := FixedArray (BitVec 64) 31

def advanceElrEl2 (elrEl2 : BitVec 64) : Except Panic (BitVec 64) := do
  return BitVec.ofNat 64 (← Checked.add 64 elrEl2.toNat 4)

def dataAbortHandler (vm : Vm.VM) (s : Syndrome) (registers : Registers) (b : Board η) :
    Except Panic (Registers × BitVec 64 × Board η) :=
  if s.esrEl2 &&& esrEl2IssIsv = 0 then .error .explicit
  else do
    let register ← registers.get s.registerNumber
    if s.isWriteAccess then
      let registerValue := if s.is64bitRegister then register else register &&& 0xFFFFFFFF
      match ← handleMmioWrite vm b s.address s.accessWidth registerValue with
      | none => .error .unwrapNone
      | some b => return (registers, ← advanceElrEl2 s.elrEl2, b)
    else
      match ← handleMmioRead b s.address s.accessWidth with
      | none => .error .unwrapNone
      | some (value, b) =>
        return (← registers.set s.registerNumber value, ← advanceElrEl2 s.elrEl2, b)

def synchronousHandler (vm : Vm.VM) (s : Syndrome) (registers : Registers) (b : Board η) :
    Except Panic (Registers × BitVec 64 × Board η) :=
  if s.esrEl2 &&& esrEl2Ec = esrEl2EcDataAbort then dataAbortHandler vm s registers b
  else .error .explicit

/-- The stores of the entry; the last pair is `x30` and the zero register. -/
def saveRegisters (x : GuestRegisters) : Registers := fun i => x.getD i.val 0

/-- The loads of `exit_exception`; the last word goes to the zero register. -/
def restoreRegisters (registers : Registers) : GuestRegisters := fun i => registers i.castSucc

/-- A synchronous exception of the guest, from its registers to its registers. -/
def synchronousLowerElAarch64 (vm : Vm.VM) (s : Syndrome) (x : GuestRegisters) (b : Board η) :
    Except Panic (GuestRegisters × BitVec 64 × Board η) := do
  let (registers, elrEl2, b) ← synchronousHandler vm s (saveRegisters x) b
  return (restoreRegisters registers, elrEl2, b)

/-! ## Runs of a virtual machine -/

/-- What a virtual machine is created with. -/
structure Platform (η : Type) where
  ram : ℕ
  ram_le : ram + Vm.ramSize ≤ 2 ^ 64
  file : Fat.FileInfo
  fileSize_lt : file.fileSize < 2 ^ 32
  body : FileBody η
  machine : Fat.Fat32.Machine η
  mpidrEl1 : BitVec 64
  cpu : CpuInterface

inductive Event
  | trap (s : Syndrome) (x : GuestRegisters)
  | turn
  | store (address : ℕ) (value : UInt8)
  | push (data : UInt8)
  | interrupts (distributor : GicDistributorMmio) (redistributor : GicRedistributorMmio)
      (cpu : CpuInterface)

/-- The guest runs: no call of the block device's handler is under way. -/
def Board.AtRest (b : Board η) : Prop := b.blk.pc = .ok .returned

instance (b : Board η) : Decidable b.AtRest := inferInstanceAs (Decidable (_ = _))

namespace Platform

def vm (p : Platform η) : Vm.VM := ⟨Vm.ramVirtualBase, p.ram, Vm.ramSize⟩

/-- The devices that `create_vm` makes. -/
def createVm (p : Platform η) : Except Panic (Board η) := do
  let device ← VirtioBlkMmio.new p.file
  return {
    pl011 := .new
    console := []
    redistributor := .new p.mpidrEl1
    blk := .boot ⟨device, p.machine, .new, p.cpu, ⟨[], [], [], 0⟩⟩ device }

/-- A byte from the serial line. -/
def inputUart (b : Board η) (data : UInt8) : Except Panic (Board η) :=
  let (pl011, raises) := b.pl011.push data
  let b := { b with pl011 := pl011 }
  if raises then do
    let (distributor, cpu) ← b.distributor.triggerInterrupt b.cpu pl011IntId none
    return b.setInterrupts distributor b.redistributor cpu
  else .ok b

def step (p : Platform η) (b : Board η) : Event → Except Panic (Board η)
  | .trap s x =>
    if b.AtRest then do
      let (_, _, b) ← synchronousLowerElAarch64 p.vm s x b
      return b
    else .ok b
  | .turn => .ok { b with blk := b.blk.step p.vm p.body }
  | .store address value => do return { b with blk := ← b.blk.guest p.vm p.body (.store address value) }
  | .push data => if b.AtRest then inputUart b data else .ok b
  | .interrupts distributor redistributor cpu => .ok (b.setInterrupts distributor redistributor cpu)

/-- The boards that a run of the machine comes to. -/
def Reachable (p : Platform η) (b : Board η) : Prop :=
  ∃ start events, p.createVm = .ok start ∧ Runs.run p.step start events = .ok b

end Platform

end Min1visor.Exception
