import Min1visor.Library.Checked
import Min1visor.Library.FlattenedTree
import Min1visor.Library.Mapped

/-!
# The device tree reader

The reader walks a flattened device tree in place, with a pointer into its structure
block. Every read goes to memory, so it can fault; the pointer arithmetic is 64-bit and
aborts on overflow. The loops of the walk run on a fuel, and running out of it is an
outcome of its own.
-/
namespace Min1visor

/-- The pointer to the header, in the memory it points into. -/
structure Dtb where
  mem : Mapped
  header : ℕ

structure DtbNode where
  address : ℕ
  addressCells : ℕ
  sizeCells : ℕ
  deriving DecidableEq, Repr

structure DtbProperty where
  address : ℕ
  addressCells : ℕ
  sizeCells : ℕ
  len : ℕ
  deriving DecidableEq, Repr

namespace Dtb

/-- Why a function does not return a value: `Err(())`, an abort, an access to an unmapped
address, or a loop that is cut off. -/
inductive Stop
  | err
  | panic (p : Panic)
  | fault
  | fuel
  deriving DecidableEq, Repr

def magic : ℕ := 0xd00dfeed
def version : ℕ := 17
def fdtTokenByte : ℕ := 4
def fdtBeginNode : List UInt8 := [0x00, 0x00, 0x00, 0x01]
def fdtEndNode : List UInt8 := [0x00, 0x00, 0x00, 0x02]
def fdtProp : List UInt8 := [0x00, 0x00, 0x00, 0x03]
def fdtNop : List UInt8 := [0x00, 0x00, 0x00, 0x04]
def fdtEnd : List UInt8 := [0x00, 0x00, 0x00, 0x09]

/-- `b"#address-cells"`. -/
def propAddressCells : List UInt8 :=
  [0x23, 0x61, 0x64, 0x64, 0x72, 0x65, 0x73, 0x73, 0x2d, 0x63, 0x65, 0x6c, 0x6c, 0x73]

/-- `b"#size-cells"`. -/
def propSizeCells : List UInt8 :=
  [0x23, 0x73, 0x69, 0x7a, 0x65, 0x2d, 0x63, 0x65, 0x6c, 0x6c, 0x73]

/-- `b"reg"`. -/
def propReg : List UInt8 := [0x72, 0x65, 0x67]

/-- `b"status"`. -/
def propStatus : List UInt8 := [0x73, 0x74, 0x61, 0x74, 0x75, 0x73]

/-- `b"okay\0"`. -/
def propStatusOkay : List UInt8 := [0x6f, 0x6b, 0x61, 0x79, 0x00]

/-- `b"compatible"`. -/
def propCompatible : List UInt8 := [0x63, 0x6f, 0x6d, 0x70, 0x61, 0x74, 0x69, 0x62, 0x6c, 0x65]

/-- `b"@"`. -/
def unitDelimiter : List UInt8 := [0x40]

def defaultAddressCells : ℕ := 2
def defaultSizeCells : ℕ := 1

/-- An arithmetic operation of the reader. -/
def checked (x : Except Panic ℕ) : Except Stop ℕ := x.mapError .panic

/-- `Result` as a value: `Err(())` is `none`, whatever else stops the function goes on. -/
def attempt {α : Type} (x : Except Stop α) : Except Stop (Option α) :=
  match x with
  | .ok a => .ok (some a)
  | .error .err => .ok none
  | .error e => .error e

/-- A read through a raw pointer. -/
def readBytes (d : Dtb) (address n : ℕ) : Except Stop (List UInt8) :=
  match d.mem.bytesAt address n with
  | some bs => .ok bs
  | none => .error .fault

def readU8 (d : Dtb) (address : ℕ) : Except Stop UInt8 :=
  match d.mem address with
  | some b => .ok b
  | none => .error .fault

/-- `u32::from_be` of the field of the header at an offset. -/
def headerField (d : Dtb) (offset : ℕ) : Except Stop ℕ := do
  return FlattenedTree.ofBytes (← d.readBytes (d.header + offset) 4)

/-- `Dtb::new`. -/
def new (mem : Mapped) (dtbAddress : ℕ) : Except Stop Dtb := do
  if (← headerField ⟨mem, dtbAddress⟩ 0) ≠ magic then throw .err
  if (← headerField ⟨mem, dtbAddress⟩ 20) > version then throw .err
  return ⟨mem, dtbAddress⟩

def getTotalSize (d : Dtb) : Except Stop ℕ := d.headerField 4

def getStructOffset (d : Dtb) : Except Stop ℕ := do
  checked (Checked.add 64 d.header (← d.headerField 8))

def getStructSize (d : Dtb) : Except Stop ℕ := d.headerField 36

def getStringOffset (d : Dtb) : Except Stop ℕ := do
  checked (Checked.add 64 d.header (← d.headerField 12))

def getStringSize (d : Dtb) : Except Stop ℕ := d.headerField 32

/-- The bounds check of `read_node`. -/
def checkNode (d : Dtb) (address : ℕ) : Except Stop Unit := do
  let stop ← checked (Checked.add 64 (← d.getStructOffset) (← d.getStructSize))
  if address ≥ stop then throw .err

def readNode (d : Dtb) (address : ℕ) : Except Stop (List UInt8) := do
  d.checkNode address
  d.readBytes address fdtTokenByte

def readBeU32Node (d : Dtb) (address : ℕ) : Except Stop ℕ := do
  return FlattenedTree.ofBytes (← d.readNode address)

/-- Step a cursor of width `w` over the bytes as long as they are the ones expected;
`false` leaves it at the first that is not. -/
def matchBytes (read : ℕ → Except Stop UInt8) (w : ℕ) :
    List UInt8 → ℕ → Except Stop (Bool × ℕ)
  | [], p => return (true, p)
  | c :: cs, p => do
    if c ≠ (← read p) then return (false, p)
    matchBytes read w cs (← checked (Checked.add w p 1))

def compareNameSegment (d : Dtb) (nameOffset : ℕ) (name delimiter : List UInt8) :
    Except Stop Bool := do
  if nameOffset ≥ (← d.getStringSize) then throw .err
  let p ← checked (Checked.add 64 (← d.getStringOffset) nameOffset)
  let (same, p) ← matchBytes d.readU8 64 name p
  if ¬ same then return false
  let l ← d.readU8 p
  return l ∈ delimiter ++ [0]

def skipPadding (p : ℕ) : Except Stop ℕ := checked (Checked.nextMultipleOf 64 p fdtTokenByte)

/-- `while self.read_u8(*pointer) != b'\0' { *pointer += 1; }`. -/
def skipToNul (d : Dtb) : ℕ → ℕ → Except Stop ℕ
  | 0, _ => throw .fuel
  | fuel + 1, p => do
    if (← d.readU8 p) = 0 then return p
    d.skipToNul fuel (← checked (Checked.add 64 p 1))

/-- Behind the rest of a string and its padding. -/
def skipString (d : Dtb) (fuel p : ℕ) : Except Stop ℕ := do
  let p ← d.skipToNul fuel p
  skipPadding (← checked (Checked.add 64 p 1))

def compareString (d : Dtb) (fuel p : ℕ) (name delimiter : List UInt8) :
    Except Stop (Bool × ℕ) := do
  let (same, p) ← matchBytes d.readU8 64 name p
  if ¬ same then return (false, ← d.skipString fuel p)
  let l ← d.readU8 p
  return (l ∈ delimiter ++ [0], ← d.skipString fuel p)

def skipNop (d : Dtb) : ℕ → ℕ → Except Stop ℕ
  | 0, _ => throw .fuel
  | fuel + 1, p => do
    if (← d.readNode p) ≠ fdtNop then return p
    d.skipNop fuel (← checked (Checked.add 64 p fdtTokenByte))

/-- `_skip_to_next_node`; the names of subnodes are read as tokens. -/
def skipToNextNode (d : Dtb) : ℕ → ℕ → Except Stop ℕ
  | 0, _ => throw .fuel
  | fuel + 1, p => do
    let p ← skipPadding p
    let p ← d.skipNop fuel p
    let token ← d.readNode p
    if token = fdtBeginNode then
      let p ← checked (Checked.add 64 p fdtTokenByte)
      let p ← d.skipToNextNode fuel p
      d.skipToNextNode fuel p
    else if token = fdtEnd then throw .err
    else if token = fdtEndNode then checked (Checked.add 64 p fdtTokenByte)
    else if token = fdtProp then
      let p ← checked (Checked.add 64 p fdtTokenByte)
      let len ← d.readBeU32Node p
      let p ← checked (Checked.add 64 p 4)
      let p ← checked (Checked.add 64 p 4)
      d.skipToNextNode fuel (← checked (Checked.add 64 p len))
    else throw .err

/-- The cell counts, after the property at `pointer` is taken into account. -/
def checkAddressAndSizeCells (d : Dtb) (nameSegment pointer addressCells sizeCells : ℕ) :
    Except Stop (ℕ × ℕ) := do
  if ← d.compareNameSegment nameSegment propAddressCells [] then
    return (← d.readBeU32Node pointer, sizeCells)
  else if ← d.compareNameSegment nameSegment propSizeCells [] then
    return (addressCells, ← d.readBeU32Node pointer)
  else return (addressCells, sizeCells)

/-- The length and the name of the property at a token, and where its value starts. -/
def propertyHeader (d : Dtb) (p : ℕ) : Except Stop (ℕ × ℕ × ℕ) := do
  let p ← checked (Checked.add 64 p fdtTokenByte)
  let len ← d.readBeU32Node p
  let p ← checked (Checked.add 64 p 4)
  let nameSegment ← d.readBeU32Node p
  let p ← checked (Checked.add 64 p 4)
  return (len, nameSegment, p)

/-! ## Properties -/

/-- The byte at an offset of a value. -/
def readValue (d : Dtb) (info : DtbProperty) (p : ℕ) : Except Stop UInt8 := do
  d.readU8 (← checked (Checked.add 64 info.address p))

/-- The loop of `_is_device_compatible`, from an offset of the value on. -/
def isDeviceCompatibleFrom (d : Dtb) (info : DtbProperty) (compatible : List UInt8) :
    ℕ → ℕ → Bool → Except Stop Bool
  | 0, _, _ => throw .fuel
  | fuel + 1, p, skip => do
    if p ≥ info.len then return false
    if skip then
      let b ← d.readValue info p
      let p ← checked (Checked.add 32 p 1)
      d.isDeviceCompatibleFrom info compatible fuel p (b ≠ 0)
    else
      let (same, p) ← matchBytes (d.readValue info) 32 (compatible ++ [0]) p
      if same then return true
      d.isDeviceCompatibleFrom info compatible fuel p true

/-- `_is_device_compatible`: of two turns, one steps over a byte. -/
def isDeviceCompatible (d : Dtb) (info : DtbProperty) (compatible : List UInt8) :
    Except Stop Bool :=
  d.isDeviceCompatibleFrom info compatible (2 * info.len + 1) 0 false

/-- The loop of `get_property`, where every `Err(())` ends in `None`. -/
def getPropertyFrom (d : Dtb) (propertyName : List UInt8) :
    ℕ → ℕ → ℕ → ℕ → Except Stop DtbProperty
  | 0, _, _, _ => throw .fuel
  | fuel + 1, p, addressCells, sizeCells => do
    let p ← skipPadding p
    let p ← d.skipNop fuel p
    let token ← d.readNode p
    if token = fdtProp then
      let (len, nameSegment, p) ← d.propertyHeader p
      let (addressCells, sizeCells) ←
        d.checkAddressAndSizeCells nameSegment p addressCells sizeCells
      if ← d.compareNameSegment nameSegment propertyName [] then
        return ⟨p, addressCells, sizeCells, len⟩
      d.getPropertyFrom propertyName fuel (← checked (Checked.add 64 p len)) addressCells sizeCells
    else throw .err

def getProperty (d : Dtb) (fuel : ℕ) (node : DtbNode) (propertyName : List UInt8) :
    Except Stop (Option DtbProperty) :=
  attempt (d.getPropertyFrom propertyName fuel node.address node.addressCells node.sizeCells)

/-- A node without a status is operational. -/
def isNodeOperational (d : Dtb) (fuel : ℕ) (node : DtbNode) : Except Stop Bool := do
  let some p ← d.getProperty fuel node propStatus | return true
  let bytes ← (List.range 5).mapM fun i => do
    d.readU8 (← checked (Checked.add 64 p.address i))
  return bytes == propStatusOkay

/-- `value <<= 8; value |= byte` over `n` bytes, from the index `first` of an entry on. -/
def readCells (d : Dtb) (address offset first n : ℕ) : Except Stop ℕ :=
  (List.range n).foldlM (fun value i => do
    let i ← checked (Checked.add 32 first i)
    let start ← checked (Checked.add 64 address offset)
    let b ← d.readU8 (← checked (Checked.add 64 start i))
    return (value * 256 + b.toNat) % 2 ^ 64) 0

def readRegProperty (d : Dtb) (fuel : ℕ) (node : DtbNode) (index : ℕ) :
    Except Stop (Option (ℕ × ℕ)) := do
  let some info ← d.getProperty fuel node propReg | return none
  let cells ← checked (Checked.add 32 info.addressCells info.sizeCells)
  let width ← checked (Checked.mul 64 cells 4)
  let offset ← checked (Checked.mul 64 width index)
  if (← checked (Checked.add 64 offset width)) > info.len then return none
  let addressBytes ← checked (Checked.mul 32 info.addressCells 4)
  let address ← d.readCells info.address offset 0 addressBytes
  let sizeBytes ← checked (Checked.mul 32 info.sizeCells 4)
  let size ← d.readCells info.address offset addressBytes sizeBytes
  return some (address, size)

/-! ## The two searches

`_search_node` and `_search_node_by_compatible` descend alike. The one decides at the name
of a node, the other at a property. -/

/-- What a search does at a name, which it steps over, and at a property. -/
structure Criterion where
  name : Dtb → ℕ → ℕ → Except Stop (Bool × ℕ)
  property : Dtb → DtbProperty → ℕ → Except Stop Bool

mutual

/-- From the token of a node: the node, or the pointer behind it. -/
def Criterion.search (c : Criterion) (d : Dtb) :
    ℕ → ℕ → ℕ → ℕ → Except Stop (Option DtbNode × ℕ)
  | 0, _, _, _ => throw .fuel
  | fuel + 1, p, addressCells, sizeCells => do
    let p ← d.skipNop fuel p
    if (← d.readNode p) ≠ fdtBeginNode then throw .err
    let p ← checked (Checked.add 64 p fdtTokenByte)
    let (found, p) ← c.name d fuel p
    if found then return (some ⟨p, addressCells, sizeCells⟩, p)
    c.searchLoop d fuel p p addressCells sizeCells
termination_by structural fuel => fuel

/-- The loop over the properties and subnodes of the node whose content starts at
`temporaryPointer`. -/
def Criterion.searchLoop (c : Criterion) (d : Dtb) :
    ℕ → ℕ → ℕ → ℕ → ℕ → Except Stop (Option DtbNode × ℕ)
  | 0, _, _, _, _ => throw .fuel
  | fuel + 1, temporaryPointer, p, addressCells, sizeCells => do
    let p ← skipPadding p
    let p ← d.skipNop fuel p
    let token ← d.readNode p
    if token = fdtBeginNode then
      match ← c.search d fuel p addressCells sizeCells with
      | (some n, p) => return (some n, p)
      | (none, p) => c.searchLoop d fuel temporaryPointer p addressCells sizeCells
    else if token = fdtEnd then throw .err
    else if token = fdtEndNode then return (none, ← checked (Checked.add 64 p fdtTokenByte))
    else if token = fdtProp then
      let (len, nameSegment, p) ← d.propertyHeader p
      let (addressCells, sizeCells) ←
        d.checkAddressAndSizeCells nameSegment p addressCells sizeCells
      if ← c.property d ⟨p, addressCells, sizeCells, len⟩ nameSegment then
        return (some ⟨temporaryPointer, addressCells, sizeCells⟩, p)
      c.searchLoop d fuel temporaryPointer (← checked (Checked.add 64 p len)) addressCells
        sizeCells
    else throw .err
termination_by structural fuel => fuel

end

/-- The loop around a search: one node after another, with a step of one token between. -/
def Criterion.searchFrom (c : Criterion) (d : Dtb) :
    ℕ → ℕ → ℕ → ℕ → Except Stop (Option DtbNode)
  | 0, _, _, _ => throw .fuel
  | fuel + 1, p, addressCells, sizeCells => do
    if (← attempt (d.checkNode p)).isNone then return none
    match ← attempt (c.search d fuel p addressCells sizeCells) with
    | some (some n, _) => return some n
    | some (none, p) =>
      c.searchFrom d fuel (← checked (Checked.add 64 p fdtTokenByte)) addressCells sizeCells
    | none => return none

/-- A search from the start of the tree, or from behind a node. -/
def Criterion.searchNode (c : Criterion) (d : Dtb) (fuel : ℕ) (currentNode : Option DtbNode) :
    Except Stop (Option DtbNode) := do
  match currentNode with
  | some n =>
    match ← attempt (d.skipToNextNode fuel n.address) with
    | none => return none
    | some p => c.searchFrom d fuel p n.addressCells n.sizeCells
  | none => c.searchFrom d fuel (← d.getStructOffset) defaultAddressCells defaultSizeCells

/-- The decisions of `_search_node`. -/
def byName (nodeName : List UInt8) : Criterion where
  name d fuel p := d.compareString fuel p nodeName unitDelimiter
  property _ _ _ := return false

/-- The decisions of `_search_node_by_compatible`. -/
def byCompatible (compatible : List UInt8) : Criterion where
  name d fuel p := return (false, ← d.skipString fuel p)
  property d info nameSegment := do
    if ← d.compareNameSegment nameSegment propCompatible [] then
      d.isDeviceCompatible info compatible
    else return false

def searchNode (d : Dtb) (fuel : ℕ) (nodeName : List UInt8) (currentNode : Option DtbNode) :
    Except Stop (Option DtbNode) :=
  (byName nodeName).searchNode d fuel currentNode

def searchNodeByCompatible (d : Dtb) (fuel : ℕ) (compatible : List UInt8)
    (currentNode : Option DtbNode) : Except Stop (Option DtbNode) :=
  (byCompatible compatible).searchNode d fuel currentNode

end Dtb
end Min1visor
