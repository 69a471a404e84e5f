import Min1visor.Library.Checked
import Min1visor.Library.Extents

/-!
# The linked-list allocator

The free list is threaded through the free memory: a node sits at the first
bytes of the region it describes, so its own address is the region's start. The
model keeps the regions in list order. Sizes and addresses are 64-bit; the
arithmetic aborts on overflow, and the two assertions of `addFreeRegion` are
part of it.
-/
namespace Min1visor.LinkedList

/-- One free region; `start_addr` is the address of the node itself. -/
abbrev ListNode := Extent

/-- `size_of::<ListNode>()`: a size and an optional reference. -/
def listNodeSize : ℕ := 16

/-- `align_of::<ListNode>()`. -/
def listNodeAlign : ℕ := 8

/-- The regions reached from `head.next`, in that order. -/
structure LinkedListAllocator where
  head : List ListNode
  deriving DecidableEq, Repr

def alignUp (addr align : ℕ) : Except Panic ℕ := Checked.nextMultipleOf 64 addr align

/-- Push a node at the head of the free list, after the two assertions. -/
def addFreeRegion (a : LinkedListAllocator) (addr size : ℕ) :
    Except Panic LinkedListAllocator := do
  if (← alignUp addr listNodeAlign) ≠ addr then throw .assertion
  if size < listNodeSize then throw .assertion
  return ⟨⟨addr, size⟩ :: a.head⟩

def init (heapStart heapSize : ℕ) : Except Panic LinkedListAllocator :=
  addFreeRegion ⟨[]⟩ heapStart heapSize

/-- Where an allocation would start in the region, or `none` when it does not
fit or would leave a tail too small to hold a node. -/
def validateRegion (region : ListNode) (size align : ℕ) : Except Panic (Option ℕ) := do
  let allocStart ← alignUp region.start align
  match Checked.checkedAdd 64 allocStart size with
  | none => return none
  | some allocEnd =>
    let endAddr ← Checked.add 64 region.start region.size
    if allocEnd > endAddr then return none
    let excessSize ← Checked.sub endAddr allocEnd
    if excessSize > 0 ∧ excessSize < listNodeSize then return none
    return some allocStart

/-- First fit: the region taken, the start of the allocation in it, and the
list without that region. -/
def findAndTakeRegion (size align : ℕ) :
    List ListNode → Except Panic (Option (ListNode × ℕ × List ListNode))
  | [] => return none
  | region :: next => do
    match ← validateRegion region size align with
    | some allocStart => return some (region, allocStart, next)
    | none =>
      match ← findAndTakeRegion size align next with
      | some (taken, allocStart, rest) => return some (taken, allocStart, region :: rest)
      | none => return none

/-- The size and alignment an allocation really gets. -/
def sizeAlign (size align : ℕ) : Except Panic (ℕ × ℕ) := do
  let align := max align listNodeAlign
  let size ← alignUp (max size listNodeSize) listNodeAlign
  return (size, align)

/-- The address of the block, or 0 for the null pointer. -/
def alloc (a : LinkedListAllocator) (size align : ℕ) :
    Except Panic (ℕ × LinkedListAllocator) := do
  let (size, align) ← sizeAlign size align
  match ← findAndTakeRegion size align a.head with
  | some (region, allocStart, rest) =>
    match Checked.checkedAdd 64 allocStart size with
    | none => throw .unwrapNone
    | some allocEnd =>
      let endAddr ← Checked.add 64 region.start region.size
      let excessSize ← Checked.sub endAddr allocEnd
      if excessSize > 0 then
        return (allocStart, ← addFreeRegion ⟨rest⟩ allocEnd excessSize)
      else return (allocStart, ⟨rest⟩)
  | none => return (0, a)

def deallocAligned (a : LinkedListAllocator) (ptr size align : ℕ) :
    Except Panic LinkedListAllocator := do
  let (size, _) ← sizeAlign size align
  addFreeRegion a ptr size

def dealloc (a : LinkedListAllocator) (ptr size : ℕ) : Except Panic LinkedListAllocator :=
  deallocAligned a ptr size 1

def pageShift : ℕ := 12
def pageSize : ℕ := 1 <<< pageShift

/-- `Err` is `none`; the allocator is returned in both cases. -/
def allocatePages (a : LinkedListAllocator) (numberOfPages alignOrder : ℕ) :
    Except Panic (Option ℕ × LinkedListAllocator) := do
  let (ptr, a) ← alloc a (numberOfPages <<< pageShift) (1 <<< alignOrder)
  if ptr = 0 then return (none, a) else return (some ptr, a)

def freePages (a : LinkedListAllocator) (address numberOfPages : ℕ) :
    Except Panic LinkedListAllocator :=
  deallocAligned a address (numberOfPages <<< pageShift) pageSize

end Min1visor.LinkedList
