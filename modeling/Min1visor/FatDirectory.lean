import Min1visor.Fat32

/-!
# Opening a volume and its root directory

The parameters of a volume are read from its first sector, then the file allocation table
and the first cluster of the root directory are copied to memory. A search goes through the
entries of that copy.
-/
namespace Min1visor.Fat

/-- `b"FAT32   "`. -/
def fat32Signature : List UInt8 := [0x46, 0x41, 0x54, 0x33, 0x32, 0x20, 0x20, 0x20]

def bytesPerSectorOffset : ℕ := 11
def sectorsPerClusterOffset : ℕ := 13
def numOfReservedClusterOffset : ℕ := 14
def numOfFatsOffset : ℕ := 16
def fatSizeOffset : ℕ := 36
def rootClusterOffset : ℕ := 44
def fat32SignatureOffset : ℕ := 82
def fat32AttributeDirectory : UInt8 := 0x10
def fat32AttributeLongFileName : UInt8 := 0x0F

/-! ## Entries -/

/-- The fields of an entry that the driver reads. -/
structure DirectoryEntry where
  name : Vector UInt8 8
  nameExtension : Vector UInt8 3
  attributes : UInt8
  startingClusterNumberHigh : ℕ
  startingClusterNumber : ℕ
  fileLength : ℕ
  deriving DecidableEq

namespace DirectoryEntry

/-- The entry in the 32 bytes from an address on. -/
def load (mem : Bytes) (a : ℕ) : DirectoryEntry where
  name := Vector.ofFn fun i => mem (a + i)
  nameExtension := Vector.ofFn fun i => mem (a + 8 + i)
  attributes := mem (a + 11)
  startingClusterNumberHigh := mem.load (a + 20) 2
  startingClusterNumber := mem.load (a + 26) 2
  fileLength := mem.load (a + 28) 4

def info (e : DirectoryEntry) : FileInfo where
  entryCluster := e.startingClusterNumberHigh <<< 16 ||| e.startingClusterNumber
  fileSize := e.fileLength

/-- The first byte of a name; `0xE5`, which marks a deleted entry, is written as `0x05`. -/
def initial (e : DirectoryEntry) : UInt8 := if e.name[0] = 0x05 then 0xE5 else e.name[0]

/-- `get_file_name`: the bytes that the buffer holds up to its cursor, if they are UTF-8. -/
def getFileName (e : DirectoryEntry) : Option String :=
  let name := e.initial :: e.name.toList.tail.filter (· ≠ 0x20)
  let buffer := name ++ [0x2E] ++ e.nameExtension.toList.filter (· ≠ 0x20)
  let fileName := if buffer.getLast? = some 0x2E then buffer.dropLast else buffer
  String.fromUTF8? ⟨fileName.toArray⟩

end DirectoryEntry

/-- `make_ascii_lowercase`. -/
def makeAsciiLowercase (s : String) : String := String.ofList (s.toList.map Char.toLower)

/-- The loop of `search_file`. -/
def searchEntries (targetName : String) : List DirectoryEntry → Option FileInfo
  | [] => none
  | e :: es =>
    if e.attributes &&& 0x3F = fat32AttributeLongFileName then searchEntries targetName es
    else if e.attributes &&& fat32AttributeDirectory ≠ 0 then searchEntries targetName es
    else if e.name[0] = 0 then none
    else if e.name[0] = 0xE5 then searchEntries targetName es
    else
      match e.getFileName with
      | none => searchEntries targetName es
      | some fileName =>
        if fileName = targetName ∨ makeAsciiLowercase fileName = targetName then some e.info
        else searchEntries targetName es

/-! ## What a search looks for -/

namespace DirectoryEntry

/-- Neither a directory nor a volume label; the entries of long names have both bits of a
label. -/
def isRegular (e : DirectoryEntry) : Bool := e.attributes &&& 0x18 = 0

/-- The 8.3 name, with the padding cut off. -/
def render (e : DirectoryEntry) : Option String :=
  let stem := e.initial :: e.name.toList.tail.takeWhile (· ≠ 0x20)
  let extension := e.nameExtension.toList.takeWhile (· ≠ 0x20)
  String.fromUTF8? ⟨(if extension = [] then stem else stem ++ [0x2E] ++ extension).toArray⟩

/-- A file that is not deleted and whose name is the target, in any mix of cases. -/
def isTarget (target : String) (e : DirectoryEntry) : Bool :=
  e.name[0] ≠ 0xE5 && e.isRegular &&
    e.render.any fun s => makeAsciiLowercase s = makeAsciiLowercase target

/-- The entry is passed over for its attributes. -/
def isSkipped (e : DirectoryEntry) : Bool :=
  e.attributes &&& 0x3F = fat32AttributeLongFileName || e.attributes &&& fat32AttributeDirectory ≠ 0

/-- The target is the name as it is written, or in lower case. -/
def isSpelled (target : String) (e : DirectoryEntry) : Bool :=
  e.getFileName.any fun s => s = target || makeAsciiLowercase s = target

/-- The search stops at this entry. -/
def stops (e : DirectoryEntry) : Bool := !e.isSkipped && e.name[0] = 0

/-- The search returns this entry if it comes to it. -/
def passes (target : String) (e : DirectoryEntry) : Bool :=
  !e.isSkipped && e.name[0] ≠ 0 && e.name[0] ≠ 0xE5 && e.isSpelled target

end DirectoryEntry

/-- An entry in front of the end of a directory. -/
def Volume.notEnd (e : DirectoryEntry) : Bool := e.name[0] ≠ 0

namespace Fat32

/-- The entries of a cluster that lies in memory or on a disk. -/
def entriesAt (fs : Fat32) (mem : Bytes) (a : ℕ) : List DirectoryEntry :=
  (List.range (fs.bytesPerSector * fs.sectorsPerCluster / 32)).map fun i =>
    DirectoryEntry.load mem (a + 32 * i)

/-- `search_file`, for a directory list at an address. -/
def searchFile (fs : Fat32) (mem : Bytes) (rootDirectoryList : ℕ) (targetName : String) :
    Option FileInfo :=
  searchEntries targetName (fs.entriesAt mem rootDirectoryList)

/-! ## Opening a volume -/

/-- The parameters in the sector at an address, with the cluster of the root directory. -/
def parameters (mem : Bytes) (a baseLba lbaSize : ℕ) (fat : ℕ → ℕ) : Fat32 × ℕ where
  fst :=
    { baseLba := baseLba
      lbaSize := lbaSize
      bytesPerSector := mem.load (a + bytesPerSectorOffset) 2
      sectorsPerCluster := (mem (a + sectorsPerClusterOffset)).toNat
      reservedSectors := mem.load (a + numOfReservedClusterOffset) 2
      fatSectors := mem.load (a + fatSizeOffset) 4
      numberOfFats := mem.load (a + numOfFatsOffset) 2
      fat := fat }
  snd := mem.load (a + rootClusterOffset) 4

/-- Size in bytes and in pages of the buffer for the table. -/
def tableBuffer (fs : Fat32) : Except Panic (ℕ × ℕ) := do
  let fatSize ← Checked.mul 64 fs.fatSectors fs.bytesPerSector
  let last ← Checked.sub fatSize 1
  let mask ← Checked.sub fs.lbaSize 1
  let aligned ← Checked.add 64 (last &&& (2 ^ 64 - 1 - mask)) fs.lbaSize
  return (aligned, ← Checked.add 64 (aligned >>> 12) 1)

/-- Where the table starts on the disk. -/
def tableAddress (fs : Fat32) : Except Panic ℕ := do
  let base ← Checked.mul 64 fs.baseLba fs.lbaSize
  Checked.add 64 base (← Checked.mul 64 fs.reservedSectors fs.bytesPerSector)

variable {η : Type}

/-- Give pages back and return `Err`. -/
def release {α : Type} (pages : Pages η) (m : Machine η) :
    List (ℕ × ℕ) → Except Stop α × Machine η
  | [] => (.error .err, m)
  | (a, n) :: rest =>
    match pages.freePages m.heap a n with
    | .error p => (.error (.panic p), m)
    | .ok heap => release pages { m with heap := heap } rest

/-- The directory list of a volume whose table has been copied to `fat`. -/
def loadRoot (fs : Fat32) (rootCluster fat fatPages : ℕ) (pages : Pages η) (m : Machine η) :
    Except Stop ℕ × Machine η :=
  match (do Checked.add 64 ((← Checked.mul 64 fs.sectorsPerCluster fs.bytesPerSector) >>> 12) 1 :
      Except Panic ℕ) with
  | .error p => (.error (.panic p), m)
  | .ok rootDirectoryPages =>
    match pages.allocatePages m.heap rootDirectoryPages (Nat.log2 fs.lbaSize) with
    | .error p => (.error (.panic p), m)
    | .ok (none, heap) => release pages { m with heap := heap } [(fat, fatPages)]
    | .ok (some rootDirectoryList, heap) =>
      match (do fs.byteRange (← fs.clusterToSector rootCluster) fs.sectorsPerCluster :
          Except Panic (ℕ × ℕ)) with
      | .error p => (.error (.panic p), { m with heap := heap })
      | .ok (blockAddress, size) =>
        match m.blk.read m.mem rootDirectoryList blockAddress size with
        | (false, mem) =>
          release pages { m with mem := mem, heap := heap }
            [(rootDirectoryList, rootDirectoryPages), (fat, fatPages)]
        | (true, mem) => (.ok rootDirectoryList, { m with mem := mem, heap := heap })

/-- `Fat32::new`, with its buffer for the first sector at `bpbAddress`: the volume and the
address of the directory list. -/
def new (pages : Pages η) (bpbAddress baseLba lbaSize : ℕ) (m : Machine η) :
    Except Stop (Fat32 × ℕ) × Machine η :=
  let m := { m with mem := Bytes.copy m.mem (fun _ => 0) bpbAddress 0 512 }
  match Checked.mul 64 baseLba lbaSize with
  | .error p => (.error (.panic p), m)
  | .ok base =>
    match m.blk.read m.mem bpbAddress base 512 with
    | (false, mem) => (.error .err, { m with mem := mem })
    | (true, mem) =>
      let m := { m with mem := mem }
      let bpb := mem
      if (List.range 8).map (fun i => bpb (bpbAddress + fat32SignatureOffset + i)) ≠ fat32Signature
      then (.error .err, m)
      else
        let (fs, rootCluster) := parameters bpb bpbAddress baseLba lbaSize fun _ => 0
        match fs.tableBuffer with
        | .error p => (.error (.panic p), m)
        | .ok (aligned, fatPages) =>
          match pages.allocatePages m.heap fatPages (Nat.log2 lbaSize) with
          | .error p => (.error (.panic p), m)
          | .ok (none, heap) => (.error (.panic .unwrapNone), { m with heap := heap })
          | .ok (some fat, heap) =>
            match fs.tableAddress with
            | .error p => (.error (.panic p), { m with heap := heap })
            | .ok fatAddress =>
              match m.blk.read m.mem fat fatAddress aligned with
              | (false, mem) => release pages { m with mem := mem, heap := heap } [(fat, fatPages)]
              | (true, mem) =>
                match fs.loadRoot rootCluster fat fatPages pages
                    { m with mem := mem, heap := heap } with
                | (.error stop, m) => (.error stop, m)
                | (.ok rootDirectoryList, m) =>
                  (.ok ({ fs with fat := fun c => m.mem.load (fat + 4 * c) 4 }, rootDirectoryList),
                    m)

/-! ## What an opened volume holds -/

/-- A request that succeeds copies all of its bytes. -/
theorem read_true {blk : VirtioBlk} {mem mem' : Bytes} {bufferAddress blockAddress length : ℕ}
    (hlength : length < 2 ^ 32)
    (h : blk.read mem bufferAddress blockAddress length = (true, mem')) :
    mem' = Bytes.copy mem blk.disk bufferAddress blockAddress length := by
  rw [VirtioBlk.read, VirtioBlk.operationSync, Nat.mod_eq_of_lt hlength] at h
  split_ifs at h
  · cases h
  · obtain ⟨hcount, rfl⟩ := Prod.mk.inj h
    rw [beq_iff_eq] at hcount
    rw [hcount]

theorem load_entry_copy (dst src : Bytes) (target source : ℕ) {len i : ℕ} (h : i + 32 ≤ len) :
    DirectoryEntry.load (Bytes.copy dst src target source len) (target + i) =
      DirectoryEntry.load src (source + i) := by
  have hbyte : ∀ j, j < 32 →
      Bytes.copy dst src target source len (target + i + j) = src (source + i + j) := by
    intro j hj
    rw [Nat.add_assoc, Bytes.copy_inside dst src target source (show i + j < len by omega),
      Nat.add_assoc]
  have hload : ∀ j n, j + n ≤ 32 →
      (Bytes.copy dst src target source len).load (target + i + j) n =
        src.load (source + i + j) n := by
    intro j n hj
    rw [Nat.add_assoc, Bytes.load_copy dst src target source (show i + j + n ≤ len by omega),
      Nat.add_assoc]
  have hname : (Vector.ofFn fun j : Fin 8 => Bytes.copy dst src target source len (target + i + j)) =
      Vector.ofFn fun j : Fin 8 => src (source + i + j) := by
    congr 1
    ext j
    rw [hbyte j (by omega)]
  have hextension : (Vector.ofFn fun j : Fin 3 =>
      Bytes.copy dst src target source len (target + i + 8 + j)) =
        Vector.ofFn fun j : Fin 3 => src (source + i + 8 + j) := by
    congr 1
    ext j
    rw [Nat.add_assoc (target + i), hbyte (8 + j) (by omega), Nat.add_assoc (source + i)]
  rw [DirectoryEntry.load, DirectoryEntry.load, hname, hextension, hbyte 11 (by omega),
    hload 20 2 (by omega), hload 26 2 (by omega), hload 28 4 (by omega)]

theorem entriesAt_copy (fs : Fat32) (dst src : Bytes) (target source : ℕ) {len : ℕ}
    (h : fs.bytesPerSector * fs.sectorsPerCluster ≤ len) :
    fs.entriesAt (Bytes.copy dst src target source len) target = fs.entriesAt src source := by
  rw [entriesAt, entriesAt]
  refine List.map_congr_left fun i hi => ?_
  rw [List.mem_range] at hi
  have hle := Nat.div_mul_le_self (fs.bytesPerSector * fs.sectorsPerCluster) 32
  exact load_entry_copy dst src target source (by omega)

/-- The volume has the parameters of its first sector on the disk. -/
theorem parameters_copy (dst src : Bytes) (a base baseLba lbaSize : ℕ) (fat : ℕ → ℕ) :
    parameters (Bytes.copy dst src a base 512) a baseLba lbaSize fat =
      parameters src base baseLba lbaSize fat := by
  rw [parameters, parameters, Bytes.load_copy _ _ _ _ (by decide), Bytes.load_copy _ _ _ _ (by decide),
    Bytes.load_copy _ _ _ _ (by decide), Bytes.load_copy _ _ _ _ (by decide),
    Bytes.load_copy _ _ _ _ (by decide), Bytes.copy_inside _ _ _ _ (by decide)]

/-- The parameters of a first sector, whatever it holds. -/
theorem parameters_lt (disk : Bytes) (a baseLba lbaSize : ℕ) (fat : ℕ → ℕ) :
    let fs := (parameters disk a baseLba lbaSize fat).1
    fs.bytesPerSector < 2 ^ 16 ∧ fs.sectorsPerCluster < 2 ^ 8 ∧ fs.reservedSectors < 2 ^ 16 ∧
      fs.numberOfFats < 2 ^ 16 ∧ fs.fatSectors < 2 ^ 32 :=
  ⟨Bytes.load_lt _ _ 2, UInt8.toNat_lt _, Bytes.load_lt _ _ 2, Bytes.load_lt _ _ 2,
    Bytes.load_lt _ _ 4⟩

/-- Where a cluster lies on the disk. -/
def clusterAddress (fs : Fat32) (cluster : ℕ) : ℕ :=
  fs.baseLba * fs.lbaSize + (fs.reservedSectors + fs.numberOfFats * fs.fatSectors +
    (cluster - 2) * fs.sectorsPerCluster) * fs.bytesPerSector

theorem clusterToSector_eq_ok {fs : Fat32} {cluster sector : ℕ}
    (h : fs.clusterToSector cluster = .ok sector) :
    sector = fs.reservedSectors + fs.numberOfFats * fs.fatSectors +
      (cluster - 2) * fs.sectorsPerCluster := by
  simp only [clusterToSector, Checked.bind_eq_ok, Checked.mul_eq_ok, Checked.add_eq_ok,
    Checked.sub_eq_ok] at h
  obtain ⟨_, ⟨-, rfl⟩, _, ⟨-, rfl⟩, _, ⟨-, rfl⟩, _, ⟨-, rfl⟩, -, rfl⟩ := h
  rfl

theorem byteRange_eq_ok {fs : Fat32} {sector sectors blockAddress size : ℕ}
    (h : fs.byteRange sector sectors = .ok (blockAddress, size)) :
    blockAddress = fs.baseLba * fs.lbaSize + sector * fs.bytesPerSector ∧
      size = sectors * fs.bytesPerSector := by
  simp only [byteRange, Checked.bind_eq_ok, Checked.mul_eq_ok, Checked.add_eq_ok, Checked.pure_eq_ok,
    Except.ok.injEq, Prod.mk.injEq] at h
  obtain ⟨_, ⟨-, rfl⟩, _, ⟨-, rfl⟩, _, ⟨-, rfl⟩, _, ⟨-, rfl⟩, rfl, rfl⟩ := h
  exact ⟨rfl, rfl⟩

theorem release_ne {α : Type} (pages : Pages η) (m m' : Machine η) (held : List (ℕ × ℕ)) (a : α) :
    release pages m held ≠ (.ok a, m') := by
  induction held generalizing m with
  | nil => exact nofun
  | cons e held ih =>
    rw [release]
    split
    · exact nofun
    · exact ih _

/-- The directory list has been read from the first cluster of the root directory. -/
theorem loadRoot_ok {fs : Fat32} {rootCluster fat fatPages rootDirectoryList : ℕ}
    {pages : Pages η} {m m' : Machine η}
    (h : fs.loadRoot rootCluster fat fatPages pages m = (.ok rootDirectoryList, m')) :
    m.blk.read m.mem rootDirectoryList (fs.clusterAddress rootCluster)
      (fs.sectorsPerCluster * fs.bytesPerSector) = (true, m'.mem) := by
  rw [loadRoot] at h
  split at h
  · cases h
  split at h
  · cases h
  · exact absurd h (release_ne _ _ _ _ _)
  split at h
  · cases h
  next blockAddress size hrange =>
    obtain ⟨sector, hsector, hbytes⟩ := Checked.bind_eq_ok.mp hrange
    obtain ⟨rfl, rfl⟩ := byteRange_eq_ok hbytes
    obtain rfl := clusterToSector_eq_ok hsector
    split at h
    · exact absurd h (release_ne _ _ _ _ _)
    next mem hread =>
      cases h
      exact hread

/-- What is known of a volume once it is open. -/
theorem new_ok {pages : Pages η} {bpbAddress baseLba lbaSize rootDirectoryList : ℕ}
    {m m' : Machine η} {fs : Fat32}
    (h : new pages bpbAddress baseLba lbaSize m = (.ok (fs, rootDirectoryList), m')) :
    baseLba * lbaSize < 2 ^ 64 ∧
      fs = (parameters m.blk.disk (baseLba * lbaSize) baseLba lbaSize fs.fat).1 ∧
      ∃ mem, m.blk.read mem rootDirectoryList (fs.clusterAddress
          (parameters m.blk.disk (baseLba * lbaSize) baseLba lbaSize fs.fat).2)
        (fs.sectorsPerCluster * fs.bytesPerSector) = (true, m'.mem) := by
  rw [new] at h
  split at h
  · cases h
  next base hbase =>
  obtain ⟨hplace, rfl⟩ := Checked.mul_eq_ok.mp hbase
  split at h
  · cases h
  next mem hread =>
  rw [read_true (by decide) hread] at h
  dsimp only at h
  split_ifs at h
  · cases h
  rw [parameters_copy] at h
  split at h
  · cases h
  split at h
  · cases h
  · cases h
  split at h
  · cases h
  split at h
  · exact absurd h (release_ne _ _ _ _ _)
  split at h
  · cases h
  next rootDirectoryList m₂ hroot =>
    cases h
    have hread := loadRoot_ok hroot
    exact ⟨hplace, rfl, _, hread⟩

/-- An opened volume has the parameters of the disk, and its directory list is the first
cluster of the root directory. -/
theorem new_eq_ok {pages : Pages η} {bpbAddress baseLba lbaSize rootDirectoryList : ℕ}
    {m m' : Machine η} {fs : Fat32}
    (h : new pages bpbAddress baseLba lbaSize m = (.ok (fs, rootDirectoryList), m')) :
    fs = (parameters m.blk.disk (baseLba * lbaSize) baseLba lbaSize fs.fat).1 ∧
      fs.entriesAt m'.mem rootDirectoryList = fs.entriesAt m.blk.disk (fs.clusterAddress
        (parameters m.blk.disk (baseLba * lbaSize) baseLba lbaSize fs.fat).2) := by
  obtain ⟨-, hfs, mem, hread⟩ := new_ok h
  obtain ⟨hsector, hcluster, -⟩ :=
    parameters_lt m.blk.disk (baseLba * lbaSize) baseLba lbaSize fs.fat
  rw [← hfs] at hsector hcluster
  have hsize : fs.sectorsPerCluster * fs.bytesPerSector < 2 ^ 8 * 2 ^ 16 :=
    Nat.mul_lt_mul'' hcluster hsector
  refine ⟨hfs, ?_⟩
  rw [read_true (hsize.trans (by norm_num)) hread]
  exact entriesAt_copy fs _ _ _ _ (by rw [Nat.mul_comm])

end Fat32

end Min1visor.Fat
