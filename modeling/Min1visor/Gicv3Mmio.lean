import Min1visor.Vgicv3

/-!
# The emulated GICv3 distributor and redistributor

Both are records of registers behind an MMIO window. Offsets and access widths
are naturals, stored values are bit vectors of the register's width, and an
array index outside its bounds or a failed assertion aborts. Triggering an
interrupt also acts on the CPU interface: it fills a list register of this CPU,
or queues the entry and sends a software-generated interrupt to the target.
-/
namespace Min1visor.Gicv3Mmio
open Vgicv3

def gicRevision : ℕ := 3

def gicdCtlr : ℕ := 0x0000
def gicdTyper : ℕ := 0x0004
def gicdIgroupr0 : ℕ := 0x0080
def gicdIgroupr31 : ℕ := 0x00FC
def gicdIsenabler0 : ℕ := 0x0100
def gicdIsenabler31 : ℕ := 0x017C
def gicdIcenabler0 : ℕ := 0x0180
def gicdIcenabler31 : ℕ := 0x01FC
def gicdIspendr0 : ℕ := 0x0200
def gicdIspendr31 : ℕ := 0x027C
def gicdIcpendr0 : ℕ := 0x0280
def gicdIcpendr31 : ℕ := 0x02FC
def gicdIsactiver0 : ℕ := 0x0300
def gicdIsactiver31 : ℕ := 0x037C
def gicdIcactiver0 : ℕ := 0x0380
def gicdIcactiver31 : ℕ := 0x03FC
def gicdIpriorityr0 : ℕ := 0x0400
def gicdIpriorityr254 : ℕ := 0x07F8
def gicdIcfgr0 : ℕ := 0x0C00
def gicdIcfgr63 : ℕ := 0x0CFC
def gicdIgrpmodr0 : ℕ := 0x0D00
def gicdIgrpmodr31 : ℕ := 0x0F7C
def gicdIrouter0 : ℕ := 0x6100
def gicdIrouter1019 : ℕ := 0x7FD8
def gicdPidr2 : ℕ := 0xFFE8

def gicdCtlrAreS : BitVec 32 := 1 <<< 4
def gicdCtlrEnableGrp1ns : BitVec 32 := 1 <<< 1

/-- No1N and the largest SPI number. -/
def gicdTyperValue : BitVec 32 := (1 <<< 25) ||| 31

def injectInterruptIntId : ℕ := 11

structure GicDistributorMmio where
  ctlr : BitVec 32
  group : FixedArray (BitVec 32) 32
  enable : FixedArray (BitVec 32) 32
  pending : FixedArray (BitVec 32) 32
  active : FixedArray (BitVec 32) 32
  priority : FixedArray (BitVec 32) 255
  configuration : FixedArray (BitVec 32) 64
  groupModifier : FixedArray (BitVec 32) 32
  router : FixedArray (BitVec 64) 1020
  toInjectInterrupt : List (BitVec 64)

namespace GicDistributorMmio

def mmioSize : ℕ := 0x10000

def new : GicDistributorMmio where
  ctlr := 0
  group := .fill 32 0
  enable := .fill 32 0
  pending := .fill 32 0
  active := .fill 32 0
  priority := .fill 255 0
  configuration := .fill 64 0
  groupModifier := .fill 32 0
  router := .fill 1020 0
  toInjectInterrupt := []

/-- The bit of an interrupt in one of the banks, shifted down. -/
def bankBit (bank : FixedArray (BitVec 32) 32) (intId : ℕ) : Except Panic (BitVec 32) := do
  return ((← bank.get (intId / 32)) >>> (intId % 32)) &&& 1

def getGroup (d : GicDistributorMmio) (intId : ℕ) : Except Panic ℕ := do
  return (← bankBit d.group intId).toNat

def getEnable (d : GicDistributorMmio) (intId : ℕ) : Except Panic Bool := do
  return (← bankBit d.enable intId) ≠ 0

def getPending (d : GicDistributorMmio) (intId : ℕ) : Except Panic Bool := do
  return (← bankBit d.pending intId) ≠ 0

/-- Set or clear the bit of an interrupt in one of the banks. -/
def changeBank (bank : FixedArray (BitVec 32) 32) (intId : ℕ) (on : Bool) :
    Except Panic (FixedArray (BitVec 32) 32) :=
  if on then bank.modify (intId / 32) (· ||| ((1 : BitVec 32) <<< (intId % 32)))
  else bank.modify (intId / 32) (· &&& ~~~((1 : BitVec 32) <<< (intId % 32)))

def changePendingStatus (d : GicDistributorMmio) (intId : ℕ) (isPending : Bool) :
    Except Panic GicDistributorMmio := do
  return { d with pending := ← changeBank d.pending intId isPending }

def changeActiveStatus (d : GicDistributorMmio) (intId : ℕ) (isActive : Bool) :
    Except Panic GicDistributorMmio := do
  return { d with active := ← changeBank d.active intId isActive }

def getPriority (d : GicDistributorMmio) (intId : ℕ) : Except Panic ℕ := do
  return (((← d.priority.get (intId / 4)) >>> (intId % 4 * 8)) &&& 0xFF).toNat

def getGroupModifier (d : GicDistributorMmio) (intId : ℕ) : Except Panic ℕ := do
  return (← bankBit d.groupModifier intId).toNat

def getRouter (d : GicDistributorMmio) (intId : ℕ) : Except Panic (BitVec 64) :=
  d.router.get intId

end GicDistributorMmio

/-! ## Affinities -/

def aff3 (x : BitVec 64) : BitVec 64 := (x &&& ((1 <<< 40) - 1)) >>> 32
def aff2 (x : BitVec 64) : BitVec 64 := (x &&& ((1 <<< 24) - 1)) >>> 16
def aff1 (x : BitVec 64) : BitVec 64 := (x &&& ((1 <<< 16) - 1)) >>> 8
def aff0 (x : BitVec 64) : BitVec 64 := x &&& ((1 <<< 8) - 1)

/-- The value written to `ICC_SGI1R_EL1` to reach the CPU of an affinity. -/
def iccSgi1rValue (x : BitVec 64) : BitVec 64 :=
  (aff3 x <<< 48) ||| (aff2 x <<< 32) ||| (BitVec.ofNat 64 injectInterruptIntId <<< 24) |||
    (aff1 x <<< 48) ||| (1 <<< (aff0 x).toNat)

def mpidrToAffinity (mpidr : BitVec 64) : BitVec 64 :=
  mpidr &&& ~~~(((1 : BitVec 64) <<< 31) ||| ((1 : BitVec 64) <<< 30))

/-- The kick of another CPU, with its assertion on the target list. -/
def sendSgi (c : CpuInterface) (affinity : BitVec 64) : Except Panic CpuInterface :=
  if aff0 affinity < 16 then .ok { c with iccSgi1r := c.iccSgi1r ++ [iccSgi1rValue affinity] }
  else .error .assertion

namespace GicDistributorMmio

/-- `trigger_interrupt`: record the interrupt as pending and, when it can be
delivered, hand it to the CPU its router names. -/
def triggerInterrupt (d : GicDistributorMmio) (c : CpuInterface) (intId : ℕ)
    (physicalIntId : Option ℕ) : Except Panic (GicDistributorMmio × CpuInterface) := do
  if d.ctlr &&& gicdCtlrEnableGrp1ns = 0 then return (d, c)
  let d ← d.changePendingStatus intId true
  if !(← d.getEnable intId) then return (d, c)
  if (← d.getGroupModifier intId) = 1 then return (d, c)
  let group ← d.getGroup intId
  let priority ← d.getPriority intId
  let router ← d.getRouter intId
  if d.ctlr &&& gicdCtlrAreS = 0 then return (d, c)
  let listEntry := createListRegisterEntry intId group priority physicalIntId
  if aff3 router = aff3 c.mpidrEl1 ∧ aff2 router = aff2 c.mpidrEl1 ∧
      aff1 router = aff1 c.mpidrEl1 ∧ aff0 router = aff0 c.mpidrEl1 then
    return (d, addVirtualInterrupt c listEntry)
  else
    let d := { d with toInjectInterrupt := d.toInjectInterrupt ++ [listEntry] }
    return (d, ← sendSgi c router)

/-- One round of the loop over the bits of a value written: if the lowest bit is
set and its interrupt is `ready`, it is triggered. -/
def triggerBit (ready : GicDistributorMmio → ℕ → Except Panic Bool) (intId : ℕ)
    (value : BitVec 64) (d : GicDistributorMmio) (c : CpuInterface) :
    Except Panic (GicDistributorMmio × CpuInterface) :=
  if value &&& 1 ≠ 0 then do
    if ← ready d intId then d.triggerInterrupt c intId none else return (d, c)
  else .ok (d, c)

/-- The loop of the set-enable and set-pending writes over the bits of the
value written, from interrupt `intId` on. A 64-bit value is exhausted after 64
rounds. -/
def triggerBits (ready : GicDistributorMmio → ℕ → Except Panic Bool) :
    ℕ → ℕ → BitVec 64 → GicDistributorMmio → CpuInterface →
      Except Panic (GicDistributorMmio × CpuInterface)
  | 0, _, _, d, c => .ok (d, c)
  | n + 1, intId, value, d, c =>
    if value = 0 then .ok (d, c)
    else do
      let (d, c) ← triggerBit ready intId value d c
      triggerBits ready n (intId + 1) (value >>> 1) d c

/-- An offset falls into a window of registers given by its first and last. -/
def inWindow (offset first last : ℕ) : Prop := first ≤ offset ∧ offset ≤ last

instance (offset first last : ℕ) : Decidable (inWindow offset first last) :=
  inferInstanceAs (Decidable (_ ∧ _))

/-- A 32-bit register of an array, read through a window of 4-byte steps. -/
def readWord {n : ℕ} (a : FixedArray (BitVec 32) n) (offset first : ℕ) :
    Except Panic (BitVec 64) := do
  return (← a.get ((offset - first) / 4)).setWidth 64

def read (d : GicDistributorMmio) (offset accessWidth : ℕ) : Except Panic (BitVec 64) :=
  if offset = gicdCtlr ∧ accessWidth = 32 then .ok (d.ctlr.setWidth 64)
  else if offset = gicdTyper ∧ accessWidth = 32 then .ok (gicdTyperValue.setWidth 64)
  else if inWindow offset gicdIgroupr0 gicdIgroupr31 ∧ accessWidth = 32 then
    readWord d.group offset gicdIgroupr0
  else if inWindow offset gicdIsenabler0 gicdIsenabler31 ∧ accessWidth = 32 then
    readWord d.enable offset gicdIsenabler0
  else if inWindow offset gicdIcenabler0 gicdIcenabler31 ∧ accessWidth = 32 then
    readWord d.enable offset gicdIcenabler0
  else if inWindow offset gicdIspendr0 gicdIspendr31 ∧ accessWidth = 32 then
    readWord d.pending offset gicdIspendr0
  else if inWindow offset gicdIcpendr0 gicdIcpendr31 ∧ accessWidth = 32 then
    readWord d.pending offset gicdIcpendr0
  else if inWindow offset gicdIsactiver0 gicdIsactiver31 ∧ accessWidth = 32 then
    readWord d.active offset gicdIsactiver0
  else if inWindow offset gicdIcactiver0 gicdIcactiver31 ∧ accessWidth = 32 then
    readWord d.active offset gicdIcactiver0
  else if gicdIpriorityr0 ≤ offset ∧ offset < gicdIpriorityr254 + 4 then
    let registerOffset := (offset - gicdIpriorityr0) / 4
    let byteOffset := (offset - gicdIpriorityr0) - registerOffset * 4
    if accessWidth = 8 then do
      return ((((← d.priority.get registerOffset).setWidth 64) >>> (byteOffset * 8)) &&& 0xff)
    else if byteOffset = 0 ∧ accessWidth = 32 then do
      return (← d.priority.get registerOffset).setWidth 64
    else .ok 0
  else if inWindow offset gicdIcfgr0 gicdIcfgr63 ∧ accessWidth = 32 then
    readWord d.configuration offset gicdIcfgr0
  else if inWindow offset gicdIgrpmodr0 gicdIgrpmodr31 ∧ accessWidth = 32 then
    readWord d.groupModifier offset gicdIgrpmodr0
  else if inWindow offset gicdIrouter0 gicdIrouter1019 ∧ accessWidth = 64 then
    d.router.get ((offset - gicdIrouter0) / 8)
  else if offset = gicdPidr2 ∧ accessWidth = 32 then .ok (BitVec.ofNat 64 (gicRevision <<< 4))
  else .ok 0

/-- Replace the byte at `bitOffset` of a priority word. -/
def setPriorityByte (word : BitVec 32) (bitOffset : ℕ) (value : BitVec 64) : BitVec 32 :=
  (word &&& ~~~((0xFF : BitVec 32) <<< bitOffset)) ||| (value <<< bitOffset).setWidth 32

def write (d : GicDistributorMmio) (c : CpuInterface) (offset accessWidth : ℕ)
    (value : BitVec 64) : Except Panic (GicDistributorMmio × CpuInterface) :=
  let value32 : BitVec 32 := value.setWidth 32
  if offset = gicdCtlr ∧ accessWidth = 32 then .ok ({ d with ctlr := value32 }, c)
  else if inWindow offset gicdIgroupr0 gicdIgroupr31 ∧ accessWidth = 32 then do
    return ({ d with group := ← d.group.set ((offset - gicdIgroupr0) / 4) value32 }, c)
  else if inWindow offset gicdIsenabler0 gicdIsenabler31 ∧ accessWidth = 32 then do
    let registerOffset := (offset - gicdIsenabler0) / 4
    let d := { d with enable := ← d.enable.modify registerOffset (· ||| value32) }
    triggerBits getPending 64 (registerOffset * 32) value d c
  else if inWindow offset gicdIcenabler0 gicdIcenabler31 ∧ accessWidth = 32 then do
    let registerOffset := (offset - gicdIcenabler0) / 4
    return ({ d with enable := ← d.enable.modify registerOffset (· &&& ~~~value32) }, c)
  else if inWindow offset gicdIspendr0 gicdIspendr31 ∧ accessWidth = 32 then do
    let registerOffset := (offset - gicdIspendr0) / 4
    let d := { d with pending := ← d.pending.modify registerOffset (· ||| value32) }
    triggerBits getEnable 64 (registerOffset * 4 * 8) value d c
  else if inWindow offset gicdIcpendr0 gicdIcpendr31 ∧ accessWidth = 32 then do
    let registerOffset := (offset - gicdIcpendr0) / 4
    return ({ d with pending := ← d.pending.modify registerOffset (· &&& ~~~value32) }, c)
  else if inWindow offset gicdIsactiver0 gicdIsactiver31 ∧ accessWidth = 32 then do
    let registerOffset := (offset - gicdIsactiver0) / 4
    return ({ d with active := ← d.active.modify registerOffset (· ||| value32) }, c)
  else if inWindow offset gicdIcactiver0 gicdIcactiver31 ∧ accessWidth = 32 then do
    let registerOffset := (offset - gicdIcactiver0) / 4
    return ({ d with active := ← d.active.modify registerOffset (· &&& ~~~value32) }, c)
  else if gicdIpriorityr0 ≤ offset ∧ offset < gicdIpriorityr254 + 4 then
    let registerOffset := (offset - gicdIpriorityr0) / 4
    let byteOffset := (offset - gicdIpriorityr0) - registerOffset * 4
    let bitOffset := byteOffset * 8
    if accessWidth = 8 then do
      return ({ d with priority :=
        ← d.priority.modify registerOffset (setPriorityByte · bitOffset value) }, c)
    else if byteOffset = 0 ∧ accessWidth = 32 then do
      return ({ d with priority := ← d.priority.set registerOffset value32 }, c)
    else .ok (d, c)
  else if inWindow offset gicdIcfgr0 gicdIcfgr63 ∧ accessWidth = 32 then do
    return ({ d with configuration := ← d.configuration.set ((offset - gicdIcfgr0) / 4) value32 }, c)
  else if inWindow offset gicdIgrpmodr0 gicdIgrpmodr31 ∧ accessWidth = 32 then do
    return ({ d with groupModifier :=
      ← d.groupModifier.set ((offset - gicdIgrpmodr0) / 4) value32 }, c)
  else if inWindow offset gicdIrouter0 gicdIrouter1019 ∧ accessWidth = 64 then do
    return ({ d with router := ← d.router.set ((offset - gicdIrouter0) / 8) value }, c)
  else .ok (d, c)

end GicDistributorMmio

/-! ## The redistributor -/

def gicrCtlr : ℕ := 0x0000
def gicrTyper : ℕ := 0x0008
def gicrWaker : ℕ := 0x0014
def gicrPidr2 : ℕ := 0xFFE8
def gicrVlpiBase : ℕ := 0x10000
def gicrIgroupr0 : ℕ := gicrVlpiBase + 0x0080
def gicrIsenabler0 : ℕ := gicrVlpiBase + 0x0100
def gicrIcenabler0 : ℕ := gicrVlpiBase + 0x0180
def gicrIspendr0 : ℕ := gicrVlpiBase + 0x0200
def gicrIcpendr0 : ℕ := gicrVlpiBase + 0x0280
def gicrIsactiver0 : ℕ := gicrVlpiBase + 0x0300
def gicrIcactiver0 : ℕ := gicrVlpiBase + 0x0380
def gicrIpriorityr0 : ℕ := gicrVlpiBase + 0x0400
def gicrIpriorityr7 : ℕ := gicrVlpiBase + 0x041C
def gicrIcfgr0 : ℕ := gicrVlpiBase + 0x0C00
def gicrIcfgr1 : ℕ := gicrVlpiBase + 0x0C04
def gicrIgrpmodr0 : ℕ := gicrVlpiBase + 0x0D00

def gicrTyperLast : BitVec 32 := 1 <<< 4
def gicrWakerChildrenAsleep : BitVec 32 := 1 <<< 2
def gicrWakerProcessorSleep : BitVec 32 := 1 <<< 1

structure GicRedistributorMmio where
  affinity : BitVec 64
  ctlr : BitVec 32
  waker : BitVec 32
  group : BitVec 32
  enable : BitVec 32
  pending : BitVec 32
  active : BitVec 32
  priority : FixedArray (BitVec 32) 8
  configuration : FixedArray (BitVec 32) 2
  groupModifier : BitVec 32
  toInjectInterrupt : List (BitVec 64)

namespace GicRedistributorMmio

def mmioSize : ℕ := 0x10000 * 2

def new (mpidrEl1 : BitVec 64) : GicRedistributorMmio where
  affinity := mpidrToAffinity mpidrEl1
  ctlr := 0
  waker := gicrWakerChildrenAsleep
  group := 0
  enable := 0
  pending := 0
  active := 0
  priority := .fill 8 0
  configuration := .fill 2 0
  groupModifier := 0
  toInjectInterrupt := []

def generateTyper (r : GicRedistributorMmio) : BitVec 64 :=
  gicrTyperLast.setWidth 64 ||| (aff0 r.affinity <<< 32) ||| (aff1 r.affinity <<< 40) |||
    (aff2 r.affinity <<< 48) ||| (aff3 r.affinity <<< 56)

/-- A shift by 32 or more aborts. -/
def checkedShift (intId : ℕ) : Except Panic ℕ :=
  if intId < 32 then .ok intId else .error .overflow

/-- One bit of a 32-bit register, shifted down. -/
def registerBit (register : BitVec 32) (intId : ℕ) : Except Panic (BitVec 32) := do
  return (register >>> (← checkedShift intId)) &&& 1

def getGroup (r : GicRedistributorMmio) (intId : ℕ) : Except Panic ℕ := do
  return (← registerBit r.group intId).toNat

def getEnable (r : GicRedistributorMmio) (intId : ℕ) : Except Panic Bool := do
  return (← registerBit r.enable intId) ≠ 0

def getPending (r : GicRedistributorMmio) (intId : ℕ) : Except Panic Bool := do
  return (← registerBit r.pending intId) ≠ 0

def changeRegister (register : BitVec 32) (intId : ℕ) (on : Bool) : Except Panic (BitVec 32) := do
  let shift ← checkedShift intId
  if on then return register ||| ((1 : BitVec 32) <<< shift)
  else return register &&& ~~~((1 : BitVec 32) <<< shift)

def changePendingStatus (r : GicRedistributorMmio) (intId : ℕ) (isPending : Bool) :
    Except Panic GicRedistributorMmio := do
  return { r with pending := ← changeRegister r.pending intId isPending }

def changeActiveStatus (r : GicRedistributorMmio) (intId : ℕ) (isActive : Bool) :
    Except Panic GicRedistributorMmio := do
  return { r with active := ← changeRegister r.active intId isActive }

def getPriority (r : GicRedistributorMmio) (intId : ℕ) : Except Panic ℕ := do
  return (((← r.priority.get (intId / 4)) >>> (intId % 4 * 8)) &&& 0xFF).toNat

def getGroupModifier (r : GicRedistributorMmio) (intId : ℕ) : Except Panic ℕ := do
  return (← registerBit r.groupModifier intId).toNat

def triggerInterrupt (r : GicRedistributorMmio) (c : CpuInterface) (intId : ℕ)
    (physicalIntId : Option ℕ) : Except Panic (GicRedistributorMmio × CpuInterface) := do
  if r.waker &&& gicrWakerChildrenAsleep ≠ 0 then return (r, c)
  let r ← r.changePendingStatus intId true
  if !(← r.getEnable intId) then return (r, c)
  if (← r.getGroupModifier intId) = 1 then return (r, c)
  let group ← r.getGroup intId
  let priority ← r.getPriority intId
  let listEntry := createListRegisterEntry intId group priority physicalIntId
  if r.affinity = mpidrToAffinity c.mpidrEl1 then
    return (r, addVirtualInterrupt c listEntry)
  else
    let r := { r with toInjectInterrupt := r.toInjectInterrupt ++ [listEntry] }
    return (r, ← sendSgi c r.affinity)

/-- One round of the loop over the bits of a value written: if the lowest bit is
set and its interrupt is `ready`, it is triggered. -/
def triggerBit (ready : GicRedistributorMmio → ℕ → Except Panic Bool) (intId : ℕ)
    (value : BitVec 64) (r : GicRedistributorMmio) (c : CpuInterface) :
    Except Panic (GicRedistributorMmio × CpuInterface) :=
  if value &&& 1 ≠ 0 then do
    if ← ready r intId then r.triggerInterrupt c intId none else return (r, c)
  else .ok (r, c)

/-- The loop over the bits of the value written, at most 32 of them. -/
def triggerBits (ready : GicRedistributorMmio → ℕ → Except Panic Bool) :
    ℕ → ℕ → BitVec 64 → GicRedistributorMmio → CpuInterface →
      Except Panic (GicRedistributorMmio × CpuInterface)
  | 0, _, _, r, c => .ok (r, c)
  | n + 1, intId, value, r, c =>
    if value = 0 then .ok (r, c)
    else do
      let (r, c) ← triggerBit ready intId value r c
      triggerBits ready n (intId + 1) (value >>> 1) r c

def read (r : GicRedistributorMmio) (offset accessWidth : ℕ) : Except Panic (BitVec 64) :=
  if offset = gicrCtlr ∧ accessWidth = 32 then .ok (r.ctlr.setWidth 64)
  else if offset = gicrTyper ∧ (accessWidth = 32 ∨ accessWidth = 64) then .ok r.generateTyper
  else if offset = gicrTyper + 4 ∧ accessWidth = 32 then .ok (r.generateTyper >>> 32)
  else if offset = gicrWaker ∧ accessWidth = 32 then .ok (r.waker.setWidth 64)
  else if offset = gicrPidr2 ∧ accessWidth = 32 then .ok (BitVec.ofNat 64 (gicRevision <<< 4))
  else if offset = gicrIgroupr0 ∧ accessWidth = 32 then .ok (r.group.setWidth 64)
  else if (offset = gicrIsenabler0 ∨ offset = gicrIcenabler0) ∧ accessWidth = 32 then
    .ok (r.enable.setWidth 64)
  else if (offset = gicrIspendr0 ∨ offset = gicrIcpendr0) ∧ accessWidth = 32 then
    .ok (r.pending.setWidth 64)
  else if (offset = gicrIsactiver0 ∨ offset = gicrIcactiver0) ∧ accessWidth = 32 then
    .ok (r.active.setWidth 64)
  else if GicDistributorMmio.inWindow offset gicrIpriorityr0 gicrIpriorityr7 ∧ accessWidth = 32 then
    GicDistributorMmio.readWord r.priority offset gicrIpriorityr0
  else if GicDistributorMmio.inWindow offset gicrIcfgr0 gicrIcfgr1 ∧ accessWidth = 32 then
    GicDistributorMmio.readWord r.configuration offset gicrIcfgr0
  else if offset = gicrIgrpmodr0 ∧ accessWidth = 32 then .ok (r.groupModifier.setWidth 64)
  else .ok 0

def write (r : GicRedistributorMmio) (c : CpuInterface) (offset accessWidth : ℕ)
    (value : BitVec 64) : Except Panic (GicRedistributorMmio × CpuInterface) :=
  let value32 : BitVec 32 := value.setWidth 32
  -- `GICR_CTLR` is tested on its own, before the chain of the other registers.
  let r := if offset = gicrCtlr ∧ accessWidth = 32 then { r with ctlr := value32 } else r
  if offset = gicrWaker ∧ accessWidth = 32 then
    if value32 &&& gicrWakerProcessorSleep = 0 then .ok ({ r with waker := 0 }, c)
    else .ok ({ r with waker := gicrWakerChildrenAsleep ||| gicrWakerProcessorSleep }, c)
  else if offset = gicrIgroupr0 ∧ accessWidth = 32 then .ok ({ r with group := value32 }, c)
  else if offset = gicrIsenabler0 ∧ accessWidth = 32 then
    triggerBits getPending 32 0 value { r with enable := r.enable ||| value32 } c
  else if offset = gicrIcenabler0 ∧ accessWidth = 32 then
    .ok ({ r with enable := r.enable &&& ~~~value32 }, c)
  else if offset = gicrIspendr0 ∧ accessWidth = 32 then
    triggerBits getEnable 32 0 value { r with pending := r.pending ||| value32 } c
  else if offset = gicrIcpendr0 ∧ accessWidth = 32 then
    .ok ({ r with pending := r.pending &&& ~~~value32 }, c)
  else if offset = gicrIsactiver0 ∧ accessWidth = 32 then
    .ok ({ r with active := r.active ||| value32 }, c)
  else if offset = gicrIcactiver0 ∧ accessWidth = 32 then
    .ok ({ r with active := r.active &&& ~~~value32 }, c)
  else if gicrIpriorityr0 ≤ offset ∧ offset < gicrIpriorityr7 + 4 then
    let registerOffset := (offset - gicrIpriorityr0) / 4
    let byteOffset := (offset - gicrIpriorityr0) - registerOffset * 4
    let bitOffset := byteOffset * 8
    if accessWidth = 8 then do
      let priority ← r.priority.modify registerOffset
        fun word => GicDistributorMmio.setPriorityByte word bitOffset value
      return ({ r with priority := priority }, c)
    else if byteOffset = 0 ∧ accessWidth = 32 then do
      return ({ r with priority := ← r.priority.set registerOffset value32 }, c)
    else .ok (r, c)
  else if GicDistributorMmio.inWindow offset gicrIcfgr0 gicrIcfgr1 ∧ accessWidth = 32 then do
    return ({ r with configuration := ← r.configuration.set ((offset - gicrIcfgr0) / 4) value32 }, c)
  else if offset = gicrIgrpmodr0 ∧ accessWidth = 32 then
    .ok ({ r with groupModifier := value32 }, c)
  else .ok (r, c)

end GicRedistributorMmio

end Min1visor.Gicv3Mmio
