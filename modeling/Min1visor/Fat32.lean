import Min1visor.Library.Bytes
import Min1visor.Library.Checked

/-!
# The FAT32 reader and writer

The file allocation table is the copy that was loaded when the volume was
opened. A call stops with `Err`, with a panic, or, where its outer loop follows a
chain that never ends, not at all: the loop takes fuel and reports when it is
used up. Disk and memory are kept as they are when a call stops. The page
allocator is a parameter.
-/
namespace Min1visor.Fat

/-- How a call stops without returning `Ok`. -/
inductive Stop
  | err
  | panic (p : Panic)
  | running
  deriving DecidableEq

instance : MonadLift (Except Panic) (Except Stop) where
  monadLift
    | .ok a => .ok a
    | .error p => .error (.panic p)

@[simp] theorem lift_ok {α : Type} (a : α) :
    (liftM (Except.ok a : Except Panic α) : Except Stop α) = .ok a := rfl

@[simp] theorem lift_error {α : Type} (p : Panic) :
    (liftM (Except.error p : Except Panic α) : Except Stop α) = .error (.panic p) := rfl

/-! ## The block device -/

structure VirtioBlk where
  disk : Bytes
  /-- How many bytes of a request the device moves before it reports. -/
  transferred : ℕ → ℕ → ℕ

/-- The number of bytes that a request moves and whether it succeeds. The length
field of the data descriptor has 32 bits. -/
def VirtioBlk.operationSync (blk : VirtioBlk) (blockAddress length : ℕ) : ℕ × Bool :=
  if blockAddress &&& (1 <<< 9 - 1) ≠ 0 ∨ length &&& (1 <<< 9 - 1) ≠ 0 then (0, false)
  else
    let count := min (blk.transferred blockAddress (length % 2 ^ 32)) (length % 2 ^ 32)
    (count, count == length % 2 ^ 32)

def VirtioBlk.read (blk : VirtioBlk) (mem : Bytes) (bufferAddress blockAddress length : ℕ) :
    Bool × Bytes :=
  let (count, success) := blk.operationSync blockAddress length
  (success, Bytes.copy mem blk.disk bufferAddress blockAddress count)

def VirtioBlk.write (blk : VirtioBlk) (mem : Bytes) (bufferAddress blockAddress length : ℕ) :
    Bool × VirtioBlk :=
  let (count, success) := blk.operationSync blockAddress length
  (success, { blk with disk := Bytes.copy blk.disk mem blockAddress bufferAddress count })

/-! ## The volume -/

structure Fat32 where
  baseLba : ℕ
  lbaSize : ℕ
  bytesPerSector : ℕ
  sectorsPerCluster : ℕ
  reservedSectors : ℕ
  fatSectors : ℕ
  numberOfFats : ℕ
  fat : ℕ → ℕ

structure FileInfo where
  entryCluster : ℕ
  fileSize : ℕ
  deriving DecidableEq

namespace Fat32

def bytesPerCluster (fs : Fat32) : ℕ := fs.sectorsPerCluster * fs.bytesPerSector

def clusterToSector (fs : Fat32) (cluster : ℕ) : Except Panic ℕ := do
  let start ← Checked.add 32 fs.reservedSectors (← Checked.mul 32 fs.numberOfFats fs.fatSectors)
  Checked.add 32 start (← Checked.mul 32 (← Checked.sub cluster 2) fs.sectorsPerCluster)

/-- Address and length, in bytes, of a request for sectors. -/
def byteRange (fs : Fat32) (baseSector sectors : ℕ) : Except Panic (ℕ × ℕ) := do
  let base ← Checked.mul 64 fs.baseLba fs.lbaSize
  let blockAddress ← Checked.add 64 base (← Checked.mul 64 baseSector fs.bytesPerSector)
  return (blockAddress, ← Checked.mul 64 sectors fs.bytesPerSector)

def getNextCluster (fs : Fat32) (cluster : ℕ) : Option ℕ :=
  if cluster < fs.fatSectors * fs.bytesPerSector / 4 then
    if 2 ≤ fs.fat cluster ∧ fs.fat cluster < 0x0FFFFFF8 then some (fs.fat cluster) else none
  else none

/-- `next_cluster!` returns `Err` at the end of the chain. -/
def nextCluster (fs : Fat32) (cluster : ℕ) : Except Stop ℕ :=
  match fs.getNextCluster cluster with
  | some next => .ok next
  | none => .error .err

def skipClusters (fs : Fat32) : ℕ → ℕ → Except Stop ℕ
  | 0, cluster => .ok cluster
  | n + 1, cluster => do fs.skipClusters n (← fs.nextCluster cluster)

/-- The length cut at the end of the file, or `none` behind it. -/
def clamp (file : FileInfo) (offset length : ℕ) : Except Panic (Option ℕ) := do
  if (← Checked.add 64 offset length) > file.fileSize then
    if offset ≥ file.fileSize then return none
    else return some (file.fileSize - offset)
  else return some length

/-- The cluster that holds an offset and the offset in it. -/
def locate (fs : Fat32) (file : FileInfo) (offset : ℕ) : Except Stop (ℕ × ℕ) := do
  if fs.bytesPerCluster = 0 then throw (.panic .divideByZero)
  else
    let clustersToSkip := offset / fs.bytesPerCluster
    let cluster ← fs.skipClusters clustersToSkip file.entryCluster
    return (cluster, offset - clustersToSkip * fs.bytesPerCluster)

/-! ## Merging clusters -/

/-- The variables of the loop that merges consecutive clusters. -/
structure Span where
  sectors : ℕ
  bytes : ℕ
  sectorOffset : ℕ
  dataOffset : ℕ
  dataOffsetBackup : ℕ
  cluster : ℕ

/-- Whole sectors of the data offset are turned into a sector offset. -/
def skipSectors (fs : Fat32) (s : Span) : Span :=
  if s.dataOffset > fs.bytesPerSector then
    let rest := s.dataOffset - s.dataOffset / fs.bytesPerSector * fs.bytesPerSector
    { s with
      sectorOffset := s.dataOffset / fs.bytesPerSector
      dataOffset := rest
      dataOffsetBackup := rest }
  else s

/-- The inner loop of reader and writer. The writer returns `Err` where less than
`least` bytes remain; for the reader `least` is 0. -/
def coalesce (fs : Fat32) (least length : ℕ) : ℕ → Span → Except Stop Span
  | 0, _ => .error .running
  | fuel + 1, s => do
    let left ← Checked.sub length s.bytes
    if left < least then throw .err
    else
      let s := fs.skipSectors s
      let rest ← Checked.add 64 left s.dataOffset
      if rest ≤ fs.bytesPerCluster then
        let sectors ← Checked.add 32 s.sectors ((1 + (max rest 1 - 1) / fs.bytesPerSector) % 2 ^ 32)
        return { s with sectors := sectors, bytes := s.bytes + left }
      else
        let sectors ← Checked.add 32 s.sectors fs.sectorsPerCluster
        let bytes ← Checked.add 64 s.bytes (← Checked.sub fs.bytesPerCluster s.dataOffset)
        let next ← fs.nextCluster s.cluster
        if next ≠ (← Checked.add 32 s.cluster 1) then
          return { s with sectors := sectors, bytes := bytes }
        else
          fs.coalesce least length fuel
            { s with sectors := sectors, bytes := bytes, dataOffset := 0, cluster := next }

/-- The merged clusters from a cluster on. Every turn of the loop moves on by at
least one byte. -/
def span (fs : Fat32) (least length cluster dataOffset : ℕ) : Except Stop Span :=
  fs.coalesce least length (length + 1) ⟨0, 0, 0, dataOffset, dataOffset, cluster⟩

def readSpan (fs : Fat32) (length cluster dataOffset : ℕ) : Except Stop Span :=
  fs.span 0 length cluster dataOffset

def writeSpan (fs : Fat32) (length cluster dataOffset : ℕ) : Except Stop Span :=
  fs.span fs.bytesPerSector length cluster dataOffset

/-- The bytes of the disk that a span covers. -/
def spanRange (fs : Fat32) (firstCluster : ℕ) (s : Span) : Except Panic (ℕ × ℕ) := do
  let sector ← Checked.add 32 (← fs.clusterToSector firstCluster) s.sectorOffset
  fs.byteRange sector s.sectors

/-! ## Writing -/

/-- The end of an outer turn: the count so far, or where the next turn starts. -/
def turn (fs : Fat32) (length bufferPointer : ℕ) (s : Span) : Except Stop (ℕ × Option ℕ) := do
  let bufferPointer ← Checked.add 64 bufferPointer s.bytes
  if length = bufferPointer then return (bufferPointer, none)
  else return (bufferPointer, some (← fs.nextCluster s.cluster))

/-- What a turn of the writer hands to the block device. -/
def writeRequest (fs : Fat32) (bufferAddress length cluster dataOffset bufferPointer : ℕ) :
    Except Stop (Span × ℕ × ℕ × ℕ) := do
  let s ← fs.writeSpan length cluster dataOffset
  if s.dataOffsetBackup ≠ 0 then throw .err
  else
    let buffer ← Checked.add 64 bufferAddress bufferPointer
    let (blockAddress, size) ← fs.spanRange cluster s
    return (s, buffer, blockAddress, size)

/-- The outer loop of the writer. Its length is the same in every turn. -/
def writeFrom (fs : Fat32) (mem : Bytes) (bufferAddress length : ℕ) :
    ℕ → ℕ → ℕ → ℕ → VirtioBlk → Except Stop ℕ × VirtioBlk
  | 0, _, _, _, blk => (.error .running, blk)
  | fuel + 1, cluster, dataOffset, bufferPointer, blk =>
    match fs.writeRequest bufferAddress length cluster dataOffset bufferPointer with
    | .error stop => (.error stop, blk)
    | .ok (s, buffer, blockAddress, size) =>
      match blk.write mem buffer blockAddress size with
      | (false, blk) => (.error .err, blk)
      | (true, blk) =>
        match fs.turn length bufferPointer s with
        | .error stop => (.error stop, blk)
        | .ok (bufferPointer, none) => (.ok bufferPointer, blk)
        | .ok (bufferPointer, some next) =>
          fs.writeFrom mem bufferAddress length fuel next 0 bufferPointer blk

def write (fs : Fat32) (fuel : ℕ) (file : FileInfo) (mem : Bytes)
    (bufferAddress offset length : ℕ) (blk : VirtioBlk) : Except Stop ℕ × VirtioBlk :=
  match clamp file offset length with
  | .error p => (.error (.panic p), blk)
  | .ok none => (.ok 0, blk)
  | .ok (some length) =>
    match fs.locate file offset with
    | .error stop => (.error stop, blk)
    | .ok (cluster, dataOffset) =>
      fs.writeFrom mem bufferAddress length fuel cluster dataOffset 0 blk

/-! ## Reading -/

/-- Memory, page allocator and device. -/
structure Machine (η : Type) where
  mem : Bytes
  heap : η
  blk : VirtioBlk

/-- `allocate_pages` and `free_pages`, with the allocator's state passed through. -/
structure Pages (η : Type) where
  allocatePages : η → ℕ → ℕ → Except Panic (Option ℕ × η)
  freePages : η → ℕ → ℕ → Except Panic η

variable {η : Type}

/-- The number of pages of a bounce buffer. -/
def bufferPages (fs : Fat32) (s : Span) : Except Panic ℕ := do
  let mask ← Checked.sub fs.lbaSize 1
  let size ← Checked.mul 64 s.sectors fs.bytesPerSector
  let aligned ← Checked.add 64 (size &&& (2 ^ 64 - 1 - mask)) fs.lbaSize
  Checked.add 64 (aligned >>> 12) 1

/-- A span is read straight to its place in the buffer. -/
def readDirect (fs : Fat32) (bufferAddress cluster bufferPointer : ℕ) (s : Span)
    (m : Machine η) : Except Stop Unit × Machine η :=
  match (do return (← Checked.add 64 bufferAddress bufferPointer, ← fs.spanRange cluster s) :
      Except Panic (ℕ × ℕ × ℕ)) with
  | .error p => (.error (.panic p), m)
  | .ok (buffer, blockAddress, size) =>
    match m.blk.read m.mem buffer blockAddress size with
    | (false, mem) => (.error .err, { m with mem := mem })
    | (true, mem) => (.ok (), { m with mem := mem })

/-- A span that starts within a sector is read to fresh pages first. -/
def readBounced (fs : Fat32) (pages : Pages η) (bufferAddress cluster bufferPointer : ℕ) (s : Span)
    (count : ℕ) (m : Machine η) : Except Stop Unit × Machine η :=
  match pages.allocatePages m.heap count 0 with
  | .error p => (.error (.panic p), m)
  | .ok (none, heap) => (.error .err, { m with heap := heap })
  | .ok (some buffer, heap) =>
    match fs.spanRange cluster s with
    | .error p => (.error (.panic p), { m with heap := heap })
    | .ok (blockAddress, size) =>
      let (success, mem) := m.blk.read m.mem buffer blockAddress size
      if success = false then
        match pages.freePages heap buffer count with
        | .error p => (.error (.panic p), { m with mem := mem, heap := heap })
        | .ok heap => (.error .err, { m with mem := mem, heap := heap })
      else if bufferPointer ≠ 0 then
        (.error (.panic .assertion), { m with mem := mem, heap := heap })
      else
        let mem := Bytes.copy mem mem bufferAddress (buffer + s.dataOffsetBackup) s.bytes
        match pages.freePages heap buffer count with
        | .error p => (.error (.panic p), { m with mem := mem, heap := heap })
        | .ok heap => (.ok (), { m with mem := mem, heap := heap })

/-- The outer loop of the reader. Its length is the same in every turn. -/
def readFrom (fs : Fat32) (pages : Pages η) (bufferAddress length : ℕ) :
    ℕ → ℕ → ℕ → ℕ → Machine η → Except Stop ℕ × Machine η
  | 0, _, _, _, m => (.error .running, m)
  | fuel + 1, cluster, dataOffset, bufferPointer, m =>
    match (do let s ← fs.readSpan length cluster dataOffset; return (s, ← fs.bufferPages s) :
        Except Stop (Span × ℕ)) with
    | .error stop => (.error stop, m)
    | .ok (s, count) =>
      match
        if s.dataOffsetBackup ≠ 0 then
          fs.readBounced pages bufferAddress cluster bufferPointer s count m
        else fs.readDirect bufferAddress cluster bufferPointer s m with
      | (.error stop, m) => (.error stop, m)
      | (.ok (), m) =>
        match fs.turn length bufferPointer s with
        | .error stop => (.error stop, m)
        | .ok (bufferPointer, none) => (.ok bufferPointer, m)
        | .ok (bufferPointer, some next) =>
          fs.readFrom pages bufferAddress length fuel next 0 bufferPointer m

def read (fs : Fat32) (pages : Pages η) (fuel : ℕ) (file : FileInfo)
    (bufferAddress offset length : ℕ) (m : Machine η) : Except Stop ℕ × Machine η :=
  match clamp file offset length with
  | .error p => (.error (.panic p), m)
  | .ok none => (.ok 0, m)
  | .ok (some length) =>
    match fs.locate file offset with
    | .error stop => (.error stop, m)
    | .ok (cluster, dataOffset) =>
      fs.readFrom pages bufferAddress length fuel cluster dataOffset 0 m

end Fat32

end Min1visor.Fat
