import Min1visor.Library.Checked
import Min1visor.Library.TranslationTable

/-!
# Stage 2 translation tables

The tables live in a memory of 64-bit words. The page allocator is a parameter:
a function that takes its state, a number of pages and the order of the
alignment. The mapper keeps its three cursors (physical address, intermediate
physical address, remaining size) in its state, as the source passes them by
mutable reference, and stops on an underflow of the remaining size. A failed
allocation returns `Err` with everything written so far.
-/
namespace Min1visor.Paging
open TranslationTable

def pageShift : ℕ := 12
def pageSize : ℕ := 1 <<< pageShift

/-! ## Descriptors -/

def addressMask : BitVec 64 := (((1 : BitVec 64) <<< 50) - 1) &&& ~~~(0x1000 - 1 : BitVec 64)
def tableAddressMask : BitVec 64 := addressMask
def outputAddressMask : BitVec 64 := addressMask
def af : BitVec 64 := 1 <<< 10
def sh : BitVec 64 := 0b11 <<< 8
def s2ap : BitVec 64 := 0b11 <<< 6
def attrIndex : BitVec 64 := 0b1111 <<< 2
def attrWriteBack : BitVec 64 := 0b1111 <<< 2

inductive Shareability
  | nonShareable
  | outerShareable
  | innerShareable

def Shareability.bits : Shareability → BitVec 64
  | nonShareable => 0b00
  | outerShareable => 0b10
  | innerShareable => 0b11

abbrev Descriptor := BitVec 64

namespace Descriptor

def new : Descriptor := 0

def validateAsPageDescriptor (d : Descriptor) : Descriptor := d ||| 0b11

def validateAsTableDescriptor (d : Descriptor) : Descriptor := d ||| 0b11

def validateAsBlockDescriptor (d : Descriptor) : Descriptor := d ||| 0b01

def isTableDescriptor (d : Descriptor) : Bool := d &&& 0b11 == 0b11

def getNextLevelTableAddress (d : Descriptor) : ℕ := (d &&& tableAddressMask).toNat

def setOutputAddress (d : Descriptor) (outputAddress : ℕ) : Descriptor :=
  (d &&& ~~~outputAddressMask) ||| BitVec.ofNat 64 outputAddress ||| af

def setShareability (d : Descriptor) (shareability : Shareability) : Descriptor :=
  (d &&& ~~~sh) ||| (shareability.bits <<< 8)

def setPermission (d : Descriptor) (permission : BitVec 64) : Descriptor :=
  (d &&& ~~~s2ap) ||| (permission <<< 6)

def setMemoryAttributeWriteBack (d : Descriptor) : Descriptor :=
  (d &&& ~~~attrIndex) ||| attrWriteBack

/-- What the mapper makes of a fresh descriptor before it validates it. -/
def output (physicalAddress : ℕ) (permission : BitVec 64) : Descriptor :=
  setShareability (setMemoryAttributeWriteBack
    (setPermission (setOutputAddress new physicalAddress) permission)) .innerShareable

def page (physicalAddress : ℕ) (permission : BitVec 64) : Descriptor :=
  validateAsPageDescriptor (output physicalAddress permission)

def block (physicalAddress : ℕ) (permission : BitVec 64) : Descriptor :=
  validateAsBlockDescriptor (output physicalAddress permission)

def table (nextLevelTableAddress : ℕ) : Descriptor :=
  validateAsTableDescriptor (setOutputAddress new nextLevelTableAddress)

end Descriptor

/-! ## Mapping -/

/-- `allocate_pages`, with the allocator's state passed through. -/
abbrev AllocatePages (η : Type) := η → ℕ → ℕ → Except Panic (Option ℕ × η)

/-- What the mapper works on. -/
structure Cursor (η : Type) where
  mem : Memory
  heap : η
  physicalAddress : ℕ
  intermediatePhysicalAddress : ℕ
  remainingSize : ℕ

variable {η : Type}

/-- A descriptor is written and the cursors move on by what it maps. -/
def Cursor.advance (s : Cursor η) (address : ℕ) (d : Descriptor) (size : ℕ) :
    Except Panic (Cursor η) := do
  return { s with
    mem := Function.update s.mem address d
    physicalAddress := ← Checked.add 64 s.physicalAddress size
    intermediatePhysicalAddress := ← Checked.add 64 s.intermediatePhysicalAddress size
    remainingSize := ← Checked.sub s.remainingSize size }

/-- The loop over the page descriptors of a last-level table, from descriptor
`index` with `n` left. -/
def mapPages (tableAddress : ℕ) (permission : BitVec 64) :
    ℕ → ℕ → Cursor η → Except Panic (Cursor η)
  | 0, _, s => .ok s
  | n + 1, index, s => do
    let s ← s.advance (tableAddress + 8 * index) (Descriptor.page s.physicalAddress permission) pageSize
    if s.remainingSize = 0 then return s
    else mapPages tableAddress permission n (index + 1) s

/-- The table a descriptor leads to, after creating it where there is none. -/
def nextLevelTable (allocatePages : AllocatePages η) (address : ℕ) (s : Cursor η) :
    Except Panic (Option ℕ × Cursor η) := do
  if Descriptor.isTableDescriptor (s.mem address) then
    return (some (Descriptor.getNextLevelTableAddress (s.mem address)), s)
  else
    match ← allocatePages s.heap 1 12 with
    | (none, heap) => return (none, { s with heap := heap })
    | (some next, heap) =>
      return (some next, { s with
        heap := heap
        mem := Function.update (zeroTable s.mem next 512) address (Descriptor.table next) })

/-- The condition for a block descriptor at depth `k`. -/
def blockFits (k : ℕ) (s : Cursor η) : Prop :=
  k ≤ 2 ∧ 1 <<< (12 + 9 * k) ≤ s.remainingSize ∧
    s.physicalAddress &&& (1 <<< (12 + 9 * k) - 1) = 0 ∧
    s.intermediatePhysicalAddress &&& (1 <<< (12 + 9 * k) - 1) = 0

instance (k : ℕ) (s : Cursor η) : Decidable (blockFits k s) :=
  inferInstanceAs (Decidable (_ ∧ _ ∧ _ ∧ _))

/-- The loop over the descriptors of a table at depth `k + 1`, from descriptor
`index` with `n` left; `lower` maps into a table of depth `k`. -/
def mapDescriptors (allocatePages : AllocatePages η) (tableAddress : ℕ) (permission : BitVec 64)
    (k : ℕ) (lower : ℕ → Cursor η → Except Panic (Except Unit Unit × Cursor η)) :
    ℕ → ℕ → Cursor η → Except Panic (Except Unit Unit × Cursor η)
  | 0, _, s => .ok (.ok (), s)
  | n + 1, index, s =>
    if blockFits (k + 1) s then do
      let s ← s.advance (tableAddress + 8 * index) (Descriptor.block s.physicalAddress permission)
        (1 <<< (12 + 9 * (k + 1)))
      if s.remainingSize = 0 then return (.ok (), s)
      else mapDescriptors allocatePages tableAddress permission k lower n (index + 1) s
    else do
      match ← nextLevelTable allocatePages (tableAddress + 8 * index) s with
      | (none, s) => return (.error (), s)
      | (some next, s) =>
        match ← lower next s with
        | (.error (), s) => return (.error (), s)
        | (.ok (), s) =>
          if s.remainingSize = 0 then return (.ok (), s)
          else mapDescriptors allocatePages tableAddress permission k lower n (index + 1) s

/-- `_map_address_stage2` at depth `3 - level`. -/
def mapAddressStage2From (allocatePages : AllocatePages η) (permission : BitVec 64) :
    ℕ → ℕ → ℕ → Cursor η → Except Panic (Except Unit Unit × Cursor η)
  | 0, numOfDescriptors, tableAddress, s => do
    let index := (s.intermediatePhysicalAddress >>> 12) &&& (numOfDescriptors - 1)
    return (.ok (), ← mapPages tableAddress permission (numOfDescriptors - index) index s)
  | k + 1, numOfDescriptors, tableAddress, s =>
    let index := (s.intermediatePhysicalAddress >>> (12 + 9 * (k + 1))) &&& (numOfDescriptors - 1)
    mapDescriptors allocatePages tableAddress permission k
      (mapAddressStage2From allocatePages permission k 512) (numOfDescriptors - index) index s

/-! ## Registers and entry points -/

def vttbrBaddr : BitVec 64 := (((1 : BitVec 64) <<< 47) - 1) &&& ~~~(1 : BitVec 64)
def vtcrEl2Res1 : BitVec 64 := 1 <<< 31
def vtcrEl2PsBitsOffset : ℕ := 16
def vtcrEl2Tg0BitsOffset : ℕ := 14
def vtcrEl2Sh0BitsOffset : ℕ := 12
def vtcrEl2Orgn0BitsOffset : ℕ := 10
def vtcrEl2Irgn0BitsOffset : ℕ := 8
def vtcrEl2Sl0BitsOffset : ℕ := 6
def vtcrEl2Sl0 : BitVec 64 := 0b11 <<< vtcrEl2Sl0BitsOffset
def vtcrEl2T0szBitsOffset : ℕ := 0
def vtcrEl2T0sz : BitVec 64 := 0b111111 <<< vtcrEl2T0szBitsOffset
def idAa64mmfr0El1Parange : BitVec 64 := 0b1111

/-- The memory, the allocator and the two registers of stage 2 translation. -/
structure Stage2 (η : Type) where
  mem : Memory
  heap : η
  vtcrEl2 : BitVec 64
  vttbrEl2 : BitVec 64

def numberOfConcatenatedPageTables (t0sz firstLevel : ℕ) : ℕ :=
  if t0sz > 43 - (3 - firstLevel) * 9 then 1 else 2 ^ (43 - (3 - firstLevel) * 9 - t0sz)

/-- Size offset and initial lookup level for a physical address range. -/
def lookupParameters (ps : BitVec 64) : ℕ × ℕ :=
  if ps = 0b000 then (32, 1)
  else if ps = 0b001 then (28, 1)
  else if ps = 0b010 then (24, 1)
  else if ps = 0b011 then (22, 1)
  else if ps = 0b100 then (20, 0)
  else if ps = 0b101 then (16, 0)
  else (16, 0)

def vtcrEl2Value (ps : BitVec 64) (t0sz initialLookupLevel : ℕ) : BitVec 64 :=
  let sl0 : BitVec 64 := if initialLookupLevel = 1 then 0b01 else 0b10
  vtcrEl2Res1 ||| (ps <<< vtcrEl2PsBitsOffset) ||| ((0 : BitVec 64) <<< vtcrEl2Tg0BitsOffset) |||
    ((0b11 : BitVec 64) <<< vtcrEl2Sh0BitsOffset) |||
    ((0b11 : BitVec 64) <<< vtcrEl2Orgn0BitsOffset) |||
    ((0b11 : BitVec 64) <<< vtcrEl2Irgn0BitsOffset) ||| (sl0 <<< vtcrEl2Sl0BitsOffset) |||
    (BitVec.ofNat 64 t0sz <<< vtcrEl2T0szBitsOffset)

def initStage2TranslationTable (allocatePages : AllocatePages η) (idAa64mmfr0El1 : BitVec 64)
    (s : Stage2 η) : Except Panic (Stage2 η) := do
  let ps := idAa64mmfr0El1 &&& idAa64mmfr0El1Parange
  let (t0sz, initialLookupLevel) := lookupParameters ps
  let numberOfTables := numberOfConcatenatedPageTables t0sz initialLookupLevel
  match ← allocatePages s.heap numberOfTables (12 + numberOfTables - 1) with
  | (none, _) => throw .unwrapNone
  | (some table, heap) =>
    return { s with
      mem := zeroTable s.mem table (numberOfTables * 512)
      heap := heap
      vtcrEl2 := vtcrEl2Value ps t0sz initialLookupLevel
      vttbrEl2 := BitVec.ofNat 64 table }

/-- The initial lookup level that the start level field stands for. -/
def initialLookupLevel (sl0 : BitVec 64) : ℕ :=
  if sl0 = 0b00 then 2 else if sl0 = 0b01 then 1 else if sl0 = 0b10 then 0 else 3

def permission (isReadable isWritable : Bool) : BitVec 64 :=
  ((if isWritable then 1 else 0) <<< 1) ||| (if isReadable then 1 else 0)

def mapAddressStage2 (allocatePages : AllocatePages η) (s : Stage2 η)
    (physicalAddress intermediatePhysicalAddress mapSize : ℕ) (isReadable isWritable : Bool) :
    Except Panic (Except Unit Unit × Stage2 η) := do
  if mapSize &&& ((1 <<< pageShift) - 1) ≠ 0 then return (.error (), s)
  let tableAddress := (s.vttbrEl2 &&& vttbrBaddr).toNat
  let sl0 := (s.vtcrEl2 &&& vtcrEl2Sl0) >>> vtcrEl2Sl0BitsOffset
  let t0sz := ((s.vtcrEl2 &&& vtcrEl2T0sz) >>> vtcrEl2T0szBitsOffset).toNat
  let level := initialLookupLevel sl0
  let numOfDescriptors := numberOfConcatenatedPageTables t0sz level * 512
  let (result, c) ← mapAddressStage2From allocatePages (permission isReadable isWritable)
    (3 - level) numOfDescriptors tableAddress
    ⟨s.mem, s.heap, physicalAddress, intermediatePhysicalAddress, mapSize⟩
  return (result, { s with mem := c.mem, heap := c.heap })

end Min1visor.Paging
