import Min1visor.FatFaults
import Min1visor.FatSearch

/-!
# Faults on the way to a file

`Fat32::new` forms the size of the table, its address and the address of the root directory
from the parameters of the first sector. Once it has returned, the parameters fit their
types, and a file that the search finds is read and written without a fault exactly where
the turns of the call are in order.
-/
namespace Min1visor.Fat
open Relation

namespace Fat32

variable {η : Type} {allocate : η → ℕ → ℕ → Option ℕ × η} {free : η → ℕ → ℕ → η}

/-! ## Opening -/

/-- The bytes of the table, in whole blocks. -/
def tableSize (fs : Fat32) : ℕ :=
  ((fs.fatSectors * fs.bytesPerSector - 1) &&& (2 ^ 64 - 1 - (fs.lbaSize - 1))) + fs.lbaSize

/-- The pages of its buffer. -/
def tablePages (fs : Fat32) : ℕ := fs.tableSize / 2 ^ 12 + 1

/-- The address of its first byte. -/
def tableStart (fs : Fat32) : ℕ :=
  fs.baseLba * fs.lbaSize + fs.reservedSectors * fs.bytesPerSector

/-- The pages of the buffer for the root directory. -/
def rootPages (fs : Fat32) : ℕ := fs.sectorsPerCluster * fs.bytesPerSector / 2 ^ 12 + 1

/-- The first sector can be read and carries the signature. -/
def Signed (blk : VirtioBlk) (base : ℕ) : Prop :=
  (blk.operationSync base 512).2 = true ∧
    (List.range 8).map (fun i => blk.disk (base + fat32SignatureOffset + i)) = fat32Signature

/-- The numbers that are formed from the parameters, as far as the steps come to them: the
last byte of the table, its address once it has a buffer, and the sector and the address of
the root directory once the table has been read and the directory has a buffer. -/
structure OpensInOrder (allocate : η → ℕ → ℕ → Option ℕ × η) (fs : Fat32) (rootCluster : ℕ)
    (heap : η) (blk : VirtioBlk) : Prop where
  table : 0 < fs.fatSectors * fs.bytesPerSector
  address : ∀ fat heap', allocate heap fs.tablePages (Nat.log2 fs.lbaSize) = (some fat, heap') →
    fs.tableStart < 2 ^ 64
  root : ∀ fat heap' list heap'',
    allocate heap fs.tablePages (Nat.log2 fs.lbaSize) = (some fat, heap') →
    (blk.operationSync fs.tableStart fs.tableSize).2 = true →
    allocate heap' fs.rootPages (Nat.log2 fs.lbaSize) = (some list, heap'') →
    fs.OnDisk rootCluster 0

theorem release_answering {α : Type} (m : Machine η) (held : List (ℕ × ℕ)) :
    (release (.answering allocate free) m held : Except Stop α × Machine η).1 = .error .err := by
  induction held generalizing m with
  | nil => rfl
  | cons e held ih => exact ih _

theorem allocatePages_answering (heap : η) (count align : ℕ) :
    (Pages.answering allocate free).allocatePages heap count align =
      .ok (allocate heap count align) := rfl

theorem rootRange_iff {fs : Fat32} (hbps : fs.bytesPerSector < 2 ^ 16)
    (hbase : fs.baseLba * fs.lbaSize < 2 ^ 64) (c : ℕ) {sectors : ℕ} (hsectors : sectors < 2 ^ 32)
    (range : ℕ × ℕ) : (do fs.byteRange (← fs.clusterToSector c) sectors) = .ok range ↔
      fs.OnDisk c 0 ∧ (fs.clusterStart c, sectors * fs.bytesPerSector) = range := by
  simp only [Checked.bind_eq_ok, clusterToSector_iff, and_assoc, exists_and_left, exists_eq_left']
  have hbytes {sector : ℕ} (hsector : sector < 2 ^ 32) :=
    byteRange_iff hbps hbase hsector hsectors range
  have hstart : fs.clusterStart c + 0 * fs.bytesPerSector = _ := clusterStart_skip c 0
  rw [Nat.zero_mul, Nat.add_zero, Nat.add_zero] at hstart
  rw [OnDisk, Nat.zero_mul, Nat.add_zero, Nat.add_zero, hstart]
  constructor
  · rintro ⟨hlow, hsector, hrange⟩
    obtain ⟨haddress, heq⟩ := (hbytes hsector).mp hrange
    exact ⟨⟨hlow, hsector, haddress⟩, heq⟩
  · rintro ⟨⟨hlow, hsector, haddress⟩, hrange⟩
    exact ⟨hlow, hsector, (hbytes hsector).mpr ⟨haddress, hrange⟩⟩

theorem tableBuffer_cases {fs : Fat32} (hfats : fs.fatSectors < 2 ^ 32)
    (hbps : fs.bytesPerSector < 2 ^ 16) (hblock : 0 < fs.lbaSize ∧ fs.lbaSize < 2 ^ 32) :
    (0 < fs.fatSectors * fs.bytesPerSector ∧ fs.tableBuffer = .ok (fs.tableSize, fs.tablePages)) ∨
      (¬ 0 < fs.fatSectors * fs.bytesPerSector ∧ fs.tableBuffer = .error .overflow) := by
  have hsize : fs.fatSectors * fs.bytesPerSector < 2 ^ 32 * 2 ^ 16 := Nat.mul_lt_mul'' hfats hbps
  have hand : (fs.fatSectors * fs.bytesPerSector - 1) &&& (2 ^ 64 - 1 - (fs.lbaSize - 1)) ≤
      fs.fatSectors * fs.bytesPerSector - 1 := Nat.and_le_left
  by_cases hpos : 0 < fs.fatSectors * fs.bytesPerSector
  · refine .inl ⟨hpos, ?_⟩
    rw [tableBuffer, tablePages, tableSize, Checked.mul_ok (by omega), Checked.ok_bind,
      Checked.sub_ok (by omega), Checked.ok_bind, Checked.sub_ok (by omega), Checked.ok_bind,
      Checked.add_ok (by omega), Checked.ok_bind, Nat.shiftRight_eq_div_pow,
      Checked.add_ok (by omega)]
    rfl
  · refine .inr ⟨hpos, ?_⟩
    rw [tableBuffer, Checked.mul_ok (by omega), Checked.ok_bind, Checked.sub, if_neg (by omega)]
    rfl

theorem tableAddress_cases {fs : Fat32} (hreserved : fs.reservedSectors < 2 ^ 16)
    (hbps : fs.bytesPerSector < 2 ^ 16) (hbase : fs.baseLba * fs.lbaSize < 2 ^ 64) :
    (fs.tableStart < 2 ^ 64 ∧ fs.tableAddress = .ok fs.tableStart) ∨
      (¬ fs.tableStart < 2 ^ 64 ∧ fs.tableAddress = .error .overflow) := by
  have hsize : fs.reservedSectors * fs.bytesPerSector < 2 ^ 16 * 2 ^ 16 :=
    Nat.mul_lt_mul'' hreserved hbps
  rw [tableAddress, Checked.mul_ok hbase, Checked.ok_bind, Checked.mul_ok (by omega), Checked.ok_bind]
  rcases Checked.add_cases 64 (fs.baseLba * fs.lbaSize) (fs.reservedSectors * fs.bytesPerSector) with
    hadd | ⟨hover, hadd⟩
  · exact .inl ⟨(Checked.add_eq_ok.mp hadd).1, hadd⟩
  · exact .inr ⟨not_lt.mpr hover, hadd⟩

theorem loadRoot_faultless_iff {fs : Fat32} (hbps : fs.bytesPerSector < 2 ^ 16)
    (hspc : fs.sectorsPerCluster < 2 ^ 8) (hbase : fs.baseLba * fs.lbaSize < 2 ^ 64)
    (rootCluster fat fatPages : ℕ) (m : Machine η) :
    Faultless (fs.loadRoot rootCluster fat fatPages (.answering allocate free) m).1 ↔
      ∀ list heap, allocate m.heap fs.rootPages (Nat.log2 fs.lbaSize) = (some list, heap) →
        fs.OnDisk rootCluster 0 := by
  have hsize : fs.sectorsPerCluster * fs.bytesPerSector < 2 ^ 8 * 2 ^ 16 :=
    Nat.mul_lt_mul'' hspc hbps
  have hcount : (do
      Checked.add 64 ((← Checked.mul 64 fs.sectorsPerCluster fs.bytesPerSector) >>> 12) 1 :
        Except Panic ℕ) = .ok fs.rootPages := by
    rw [Checked.mul_ok (by omega), Checked.ok_bind, Nat.shiftRight_eq_div_pow,
      Checked.add_ok (by omega), rootPages]
  have hrange := rootRange_iff hbps hbase rootCluster (show fs.sectorsPerCluster < 2 ^ 32 by omega)
  have hover : Overflows (do fs.byteRange (← fs.clusterToSector rootCluster) fs.sectorsPerCluster) :=
    (clusterToSector_overflows rootCluster).bind fun _ => byteRange_overflows _ _
  rw [loadRoot, hcount]
  dsimp only
  cases halloc : allocate m.heap fs.rootPages (Nat.log2 fs.lbaSize) with
  | mk found heap =>
    rw [allocatePages_answering, halloc]
    cases found with
    | none =>
      dsimp only
      rw [release_answering]
      exact iff_of_true faultless_err (by simp)
    | some list =>
      by_cases hdisk : fs.OnDisk rootCluster 0
      · rw [(hrange _).mpr ⟨hdisk, rfl⟩]
        refine ⟨fun _ _ _ _ => hdisk, fun _ => ?_⟩
        dsimp only
        split
        · rw [release_answering]
          exact faultless_err
        · exact faultless_ok list
      · rw [hover.eq_error fun range heq => hdisk ((hrange range).mp heq).1]
        exact ⟨fun h => absurd h not_faultless, fun h => absurd (h list heap rfl) hdisk⟩

/-- What is left once the table has been read. -/
theorem opensInOrder_of_read {fs : Fat32} {rootCluster fat : ℕ} {heap heap' : η} {blk : VirtioBlk}
    (htable : 0 < fs.fatSectors * fs.bytesPerSector) (haddress : fs.tableStart < 2 ^ 64)
    (hfat : allocate heap fs.tablePages (Nat.log2 fs.lbaSize) = (some fat, heap'))
    (hread : (blk.operationSync fs.tableStart fs.tableSize).2 = true) :
    OpensInOrder allocate fs rootCluster heap blk ↔ ∀ list heap'',
      allocate heap' fs.rootPages (Nat.log2 fs.lbaSize) = (some list, heap'') →
        fs.OnDisk rootCluster 0 := by
  constructor
  · exact fun h list heap'' hlist => h.root fat heap' list heap'' hfat hread hlist
  · refine fun h => ⟨htable, fun _ _ _ => haddress, fun fat₁ heap₁ list heap₂ hfat₁ _ hlist => ?_⟩
    rw [hfat] at hfat₁
    cases hfat₁
    exact h list heap₂ hlist

/-- The volume and the root cluster that `Fat32::new` takes from the first sector. -/
abbrev header (blk : VirtioBlk) (baseLba lbaSize : ℕ) : Fat32 × ℕ :=
  parameters blk.disk (baseLba * lbaSize) baseLba lbaSize fun _ => 0

theorem signature_copy (dst src : Bytes) (target source : ℕ) :
    (List.range 8).map (fun i => Bytes.copy dst src target source 512
        (target + fat32SignatureOffset + i)) =
      (List.range 8).map fun i => src (source + fat32SignatureOffset + i) := by
  refine List.map_congr_left fun i hi => ?_
  have hinside : fat32SignatureOffset + i < 512 := by
    rw [List.mem_range] at hi
    rw [fat32SignatureOffset]
    omega
  rw [Nat.add_assoc, Bytes.copy_inside _ _ _ _ hinside, Nat.add_assoc]

/-- A volume is opened without a fault exactly where its parameters are in order. -/
theorem new_faultless_iff {lbaSize : ℕ} (hblock : 0 < lbaSize ∧ lbaSize < 2 ^ 32)
    (allocate : η → ℕ → ℕ → Option ℕ × η) (free : η → ℕ → ℕ → η) (bpbAddress baseLba : ℕ)
    (m : Machine η) :
    Faultless (new (.answering allocate free) bpbAddress baseLba lbaSize m).1 ↔
      baseLba * lbaSize < 2 ^ 64 ∧
        (Signed m.blk (baseLba * lbaSize) → OpensInOrder allocate
          (header m.blk baseLba lbaSize).1 (header m.blk baseLba lbaSize).2 m.heap m.blk) := by
  by_cases hbase : baseLba * lbaSize < 2 ^ 64
  swap
  · rw [new, show Checked.mul 64 baseLba lbaSize = .error .overflow from if_neg hbase]
    exact iff_of_false not_faultless fun h => hbase h.1
  simp only [hbase, true_and, new, Checked.mul_ok hbase]
  cases hread : m.blk.read (Bytes.copy m.mem (fun _ => 0) bpbAddress 0 512) bpbAddress
      (baseLba * lbaSize) 512 with
  | mk success mem =>
    have hsent : (m.blk.operationSync (baseLba * lbaSize) 512).2 = success :=
      congrArg Prod.fst hread
    cases success with
    | false => exact iff_of_true faultless_err fun h => absurd (hsent.symm.trans h.1) Bool.false_ne_true
    | true =>
      obtain rfl := read_true (by decide) hread
      dsimp only
      rw [signature_copy, parameters_copy]
      by_cases hsigned : (List.range 8).map (fun i =>
          m.blk.disk (baseLba * lbaSize + fat32SignatureOffset + i)) = fat32Signature
      swap
      · rw [if_pos hsigned]
        exact iff_of_true faultless_err fun h => absurd h.2 hsigned
      rw [if_neg (not_not.mpr hsigned), forall_prop_of_true ⟨hsent, hsigned⟩]
      obtain ⟨hbps, hspc, hreserved, -, hfats⟩ :=
        parameters_lt m.blk.disk (baseLba * lbaSize) baseLba lbaSize fun _ => 0
      have hplace : (header m.blk baseLba lbaSize).1.baseLba = baseLba ∧
          (header m.blk baseLba lbaSize).1.lbaSize = lbaSize := ⟨rfl, rfl⟩
      rw [header] at hplace ⊢
      generalize parameters m.blk.disk (baseLba * lbaSize) baseLba lbaSize (fun _ => 0) = params at *
      obtain ⟨fs, rootCluster⟩ := params
      obtain ⟨rfl, rfl⟩ := hplace
      dsimp only at *
      rcases tableBuffer_cases hfats hbps hblock with ⟨htable, hbuffer⟩ | ⟨htable, hbuffer⟩
      swap
      · rw [hbuffer]
        exact iff_of_false not_faultless fun h => htable h.table
      rw [hbuffer]
      dsimp only
      rw [allocatePages_answering]
      cases hfirst : allocate m.heap fs.tablePages (Nat.log2 fs.lbaSize) with
      | mk found heap =>
        cases found with
        | none =>
          refine iff_of_true (faultless_error_iff.mpr (by simp [Stop.Fault])) ⟨htable, ?_, ?_⟩
          · simp [hfirst]
          · simp [hfirst]
        | some fat =>
          dsimp only
          rcases tableAddress_cases hreserved hbps hbase with ⟨haddress, hstart⟩ | ⟨haddress, hstart⟩
          swap
          · rw [hstart]
            exact iff_of_false not_faultless fun h => haddress (h.address fat heap hfirst)
          rw [hstart]
          dsimp only
          cases htransfer : m.blk.read _ fat fs.tableStart fs.tableSize with
          | mk success mem =>
            have hdone : (m.blk.operationSync fs.tableStart fs.tableSize).2 = success :=
              congrArg Prod.fst htransfer
            cases success with
            | false =>
              dsimp only
              rw [release_answering]
              refine iff_of_true faultless_err ⟨htable, fun _ _ _ => haddress, ?_⟩
              simp [hdone]
            | true =>
              dsimp only
              rw [opensInOrder_of_read htable haddress hfirst hdone, ← loadRoot_faultless_iff hbps hspc
                hbase rootCluster fat fs.tablePages ⟨mem, heap, m.blk⟩]
              cases fs.loadRoot rootCluster fat fs.tablePages (.answering allocate free)
                  ⟨mem, heap, m.blk⟩ with
              | mk result m' =>
                cases result with
                | error stop => exact faultless_error_iff.trans faultless_error_iff.symm
                | ok list => exact iff_of_true (faultless_ok _) (faultless_ok list)

/-! ## Opened volumes -/

/-- Only whole blocks are transferred. -/
theorem operationSync_dvd {blk : VirtioBlk} {blockAddress length : ℕ}
    (h : (blk.operationSync blockAddress length).2 = true) : 512 ∣ length := by
  rw [VirtioBlk.operationSync] at h
  split_ifs at h with hblocks
  have hlength : length % 512 = 0 := by
    rw [← VirtioBlk.and_511]
    exact not_not.mp fun hne => hblocks (.inr hne)
  exact Nat.dvd_of_mod_eq_zero hlength

/-- A file that is found is the cluster and the size of an entry. -/
theorem searchEntries_mem {name : String} {es : List DirectoryEntry} {file : FileInfo}
    (h : searchEntries name es = some file) : ∃ e ∈ es, e.info = file := by
  rw [searchEntries_eq, Option.map_eq_some_iff] at h
  obtain ⟨e, he, rfl⟩ := h
  exact ⟨e, (List.takeWhile_prefix _).subset (List.mem_of_find?_eq_some he), rfl⟩

theorem info_lt (mem : Bytes) (a : ℕ) : (DirectoryEntry.load mem a).info.entryCluster < 2 ^ 32 ∧
    (DirectoryEntry.load mem a).info.fileSize < 2 ^ 32 := by
  have hhigh : mem.load (a + 20) 2 < 2 ^ 16 := Bytes.load_lt mem (a + 20) 2
  have hlow : mem.load (a + 26) 2 < 2 ^ 16 := Bytes.load_lt mem (a + 26) 2
  refine ⟨?_, Bytes.load_lt mem (a + 28) 4⟩
  dsimp only [DirectoryEntry.load, DirectoryEntry.info]
  refine Nat.or_lt_two_pow ?_ (by omega)
  rw [Nat.shiftLeft_eq]
  omega

/-- A volume that has been opened has its parameters in their types, if its clusters are not
empty. -/
theorem new_opened {pages : Pages η} {bpbAddress baseLba lbaSize rootDirectoryList : ℕ}
    {m m' : Machine η} {fs : Fat32} (hblock : 0 < lbaSize ∧ lbaSize < 2 ^ 32)
    (hnew : new pages bpbAddress baseLba lbaSize m = (.ok (fs, rootDirectoryList), m'))
    (hpos : 0 < fs.bytesPerCluster) : fs.Opened := by
  obtain ⟨hbase, hparameters, _, hread⟩ := new_ok hnew
  have hdvd := operationSync_dvd (congrArg Prod.fst hread)
  obtain ⟨hbps, hspc, -⟩ := parameters_lt m.blk.disk (baseLba * lbaSize) baseLba lbaSize fs.fat
  rw [← hparameters] at hbps hspc
  -- The root directory is read in whole blocks.
  have hwhole : 512 ≤ fs.bytesPerCluster := Nat.le_of_dvd hpos hdvd
  have hsector : 2 ≤ fs.bytesPerSector := by
    by_contra hfew
    have hle : fs.sectorsPerCluster * fs.bytesPerSector ≤ (2 ^ 8 - 1) * 1 :=
      Nat.mul_le_mul (by omega) (by omega)
    rw [bytesPerCluster] at hwhole
    omega
  have hplace : fs.baseLba = baseLba ∧ fs.lbaSize = lbaSize := by
    rw [hparameters]
    exact ⟨rfl, rfl⟩
  refine ⟨⟨by omega, hbps, Nat.pos_of_mul_pos_right hpos, hspc⟩, hsector, ?_, ?_⟩
  · rwa [hplace.2]
  · rwa [hplace.1, hplace.2]

/-- So has a volume in whose directory a file has been found, and the file as well. -/
theorem opened_of_found {pages : Pages η} {bpbAddress baseLba lbaSize rootDirectoryList : ℕ}
    {m m' : Machine η} {fs : Fat32} {mem : Bytes} {name : String} {file : FileInfo}
    (hblock : 0 < lbaSize ∧ lbaSize < 2 ^ 32)
    (hnew : new pages bpbAddress baseLba lbaSize m = (.ok (fs, rootDirectoryList), m'))
    (hfound : fs.searchFile mem rootDirectoryList name = some file) :
    fs.Opened ∧ file.entryCluster < 2 ^ 32 ∧ file.fileSize < 2 ^ 32 := by
  obtain ⟨e, he, rfl⟩ := searchEntries_mem hfound
  rw [entriesAt, List.mem_map] at he
  obtain ⟨i, hi, rfl⟩ := he
  refine ⟨new_opened hblock hnew ?_, info_lt mem _⟩
  rw [List.mem_range] at hi
  rw [bytesPerCluster, Nat.mul_comm]
  omega

/-- Exactly when no call faults, for every disk and every allocator that returns: a volume is
opened without a fault where its parameters are in order, and every file that is then found
is read and written without one where the turns of the call are. -/
theorem calls_faultless_iff {lbaSize : ℕ} (hblock : 0 < lbaSize ∧ lbaSize < 2 ^ 32)
    (allocate : η → ℕ → ℕ → Option ℕ × η) (free : η → ℕ → ℕ → η) (bpbAddress baseLba : ℕ)
    (m : Machine η) :
    (Faultless (new (.answering allocate free) bpbAddress baseLba lbaSize m).1 ↔
      baseLba * lbaSize < 2 ^ 64 ∧
        (Signed m.blk (baseLba * lbaSize) → OpensInOrder allocate
          (header m.blk baseLba lbaSize).1 (header m.blk baseLba lbaSize).2 m.heap m.blk)) ∧
    ∀ fs rootDirectoryList m',
      new (.answering allocate free) bpbAddress baseLba lbaSize m =
        (.ok (fs, rootDirectoryList), m') →
      ∀ mem name file, fs.searchFile mem rootDirectoryList name = some file →
      ∀ bufferAddress offset length, offset + length < 2 ^ 64 →
        (∀ m : Machine η,
          (∀ fuel, Faultless
            (fs.read (.answering allocate free) fuel file bufferAddress offset length m).1) ↔
          fs.TurnsInOrder (fs.readSetting allocate m.heap m.blk bufferAddress
            (count file offset length)) file offset length) ∧
        ∀ mem blk,
          (∀ fuel, Faultless (fs.write fuel file mem bufferAddress offset length blk).1) ↔
          fs.TurnsInOrder (fs.writeSetting blk bufferAddress (count file offset length)) file
            offset length := by
  refine ⟨new_faultless_iff hblock allocate free bpbAddress baseLba m, ?_⟩
  intro fs rootDirectoryList m' hnew mem name file hfound bufferAddress offset length hsum
  obtain ⟨hfs, hcluster, hsize⟩ := opened_of_found hblock hnew hfound
  constructor
  · exact read_faultless_iff hfs hcluster hsize allocate free bufferAddress hsum
  · exact fun mem => write_faultless_iff hfs hcluster hsize mem bufferAddress hsum

theorem minVolume_parameters (fat : ℕ → ℕ) :
    (parameters minVolume.disk (0 * 512) 0 512 fat).1 = ⟨0, 512, 512, 1, 1, 1, 1, fat⟩ := rfl

theorem minVolume_found : ∃ fs rootDirectoryList m',
    new pagesInARow 0x40001000 0 512 minMachine = (.ok (fs, rootDirectoryList), m') ∧
      fs.searchFile m'.mem rootDirectoryList "min1.elf" = some ⟨3, 0x2500⟩ :=
  ⟨_, _, _, rfl, by decide +kernel⟩

/-- The first sector of the file of the small volume is read without a fault. -/
theorem calls_faultless_iff_min : ∃ fs rootDirectoryList m',
    new pagesInARow 0x40001000 0 512 minMachine = (.ok (fs, rootDirectoryList), m') ∧
      fs.searchFile m'.mem rootDirectoryList "min1.elf" = some ⟨3, 0x2500⟩ ∧
      ∀ fuel, Faultless (fs.read pagesInARow fuel ⟨3, 0x2500⟩ 0x41000000 0 512 m').1 := by
  obtain ⟨fs, rootDirectoryList, m', hnew, hfound⟩ := minVolume_found
  have hcalls := calls_faultless_iff (show 0 < 512 ∧ 512 < 2 ^ 32 by decide)
    (fun heap n _ => (some heap, heap + 4096 * n)) (fun heap _ _ => heap) 0x40001000 0 minMachine
  refine ⟨fs, rootDirectoryList, m', hnew, hfound, ?_⟩
  refine ((hcalls.2 fs rootDirectoryList m' hnew m'.mem "min1.elf" ⟨3, 0x2500⟩ hfound 0x41000000 0 512
    (by decide)).1 m').mpr ?_
  obtain ⟨fat, rfl⟩ : ∃ fat, fs = ⟨0, 512, 512, 1, 1, 1, 1, fat⟩ :=
    ⟨fs.fat, (new_eq_ok hnew).1.trans (minVolume_parameters fs.fat)⟩
  have hgeometry := (opened_of_found (by decide) hnew hfound).1.geometry
  intro _ c hc
  rw [Nat.zero_div] at hc
  obtain rfl : 3 = c := Option.some.inj hc
  intro j hj
  rcases hj.cases_head with rfl | ⟨i, hmove, -⟩
  swap
  · refine absurd hmove (not_moves_of_covers hgeometry.bytesPerCluster_pos ?_ rfl)
    intro e he
    simp [bytesPerCluster, readSetting, count] at he
  refine ⟨fun hwraps => absurd hwraps.1 (by norm_num), fun _ _ _ => ?_, fun _ _ => ?_,
    fun p hp _ => ?_⟩
  · norm_num [readSetting]
  · norm_num [OnDisk, clusterStart, dataSector, skipped]
  · have hbytes := (linkedPiece_le hgeometry hp.1).1
    norm_num [readSetting, count] at hbytes ⊢
    omega

/-- The first sector of the small disk without its parameters. -/
def signedDisk : Bytes := fun a => if 82 ≤ a ∧ a < 90 then minVolume.disk a else 0

/-- The small disk with an entry of no cluster and no bytes. -/
def emptyFileDisk : Bytes := fun a => if a < 1050 then minVolume.disk a else 0

/-- A first sector with a signature and no sectors of the table stops with an overflow. So does
a read of no bytes from an empty file of a volume that opens. -/
theorem malformed_overflows :
    Signed ⟨signedDisk, fun _ n => n⟩ 0 ∧
    (new pagesInARow 0x40001000 0 512 ⟨fun _ => 0, 0x48000000, ⟨signedDisk, fun _ n => n⟩⟩).1 =
      .error (.panic .overflow) ∧
    ∃ fs rootDirectoryList m',
      new pagesInARow 0x40001000 0 512
        ⟨fun _ => 0, 0x48000000, ⟨emptyFileDisk, fun _ n => n⟩⟩ = (.ok (fs, rootDirectoryList), m') ∧
      fs.searchFile m'.mem rootDirectoryList "MIN1.ELF" = some ⟨0, 0⟩ ∧
      (fs.read pagesInARow 1 ⟨0, 0⟩ 0x41000000 0 0 m').1 = .error (.panic .overflow) := by
  refine ⟨⟨rfl, by decide +kernel⟩, rfl, _, _, _, rfl, ?_, ?_⟩
  · decide +kernel
  · decide +kernel

end Fat32

end Min1visor.Fat
