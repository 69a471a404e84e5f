import Min1visor.FatWriteFrame
import Min1visor.FatReadContiguous

/-!
# Writing a contiguous file

A file in consecutive clusters is written in one turn, and read back in one. Both ask the
block device for whole sectors. The writer takes an offset of exactly one sector into a
cluster for an offset within a sector and refuses it. A request of 4 GiB moves nothing,
and neither call notices.
-/
namespace Min1visor.Fat.Fat32
open Fragments

variable {η : Type} {fs : Fat32} {file : FileInfo} {chain : List ℕ} {offset length : ℕ}

/-! ## One turn -/

theorem Holds.write_eq (h : fs.Holds file chain) (hsum : offset + length < 2 ^ 64)
    (hlt : offset < file.fileSize) :
    ∃ c cs, chain.drop (offset / fs.bytesPerCluster) = c :: cs ∧ fs.Linked (c :: cs) ∧
      ∀ fuel mem bufferAddress blk,
        fs.write fuel file mem bufferAddress offset length blk =
          fs.writeFrom mem bufferAddress (count file offset length) fuel c
            (offset % fs.bytesPerCluster) 0 blk := by
  obtain ⟨c, cs, hdrop, hlinked, hlocate⟩ := h.locate_ok hlt
  refine ⟨c, cs, hdrop, hlinked, ?_⟩
  intro fuel mem bufferAddress blk
  rw [write, clamp_inside hsum hlt, hlocate]

/-- The bytes of a range of a contiguous file lie one behind the other. -/
theorem Holds.location_contiguous (h : fs.Holds file chain) (hrun : runLength chain = chain.length)
    (hlt : offset < file.fileSize) {c : ℕ} {cs : List ℕ}
    (hdrop : chain.drop (offset / fs.bytesPerCluster) = c :: cs) {i : ℕ}
    (hi : i < count file offset length) :
    fs.location chain (offset + i) = fs.clusterStart c + offset % fs.bytesPerCluster + i := by
  have hrange := h.range_in_run hrun length hlt
  have hc : 2 ≤ c := (h.clusters c (List.mem_of_mem_drop (hdrop ▸ List.mem_cons_self))).low
  rw [hdrop] at hrange
  have hlocation : fs.location (c :: cs) (0 * fs.bytesPerCluster +
      (offset % fs.bytesPerCluster + i)) = fs.clusterStart c + (offset % fs.bytesPerCluster + i) :=
    location_run h.volume rfl hc (by omega)
  rw [Nat.zero_mul, Nat.zero_add] at hlocation
  rw [location_drop h.volume, hdrop, hlocation, Nat.add_assoc]

theorem Holds.location_add (h : fs.Holds file chain) (hrun : runLength chain = chain.length)
    {i : ℕ} (hi : i < count file offset length) :
    fs.location chain (offset + i) = fs.location chain offset + i := by
  have hcount : count file offset length = min length (file.fileSize - offset) := rfl
  have hlt : offset < file.fileSize := by omega
  obtain ⟨c, cs, hdrop, -, -⟩ := h.locate_ok hlt
  have hstart := h.location_contiguous hrun hlt hdrop (show 0 < count file offset length by omega)
  rw [Nat.add_zero, Nat.add_zero] at hstart
  rw [h.location_contiguous hrun hlt hdrop hi, hstart]

/-- A turn that starts at a sector starts at the offset itself. -/
theorem skipped_of_residue {dataOffset : ℕ} (hresidue : fs.residue dataOffset = 0) :
    fs.skipped dataOffset * fs.bytesPerSector = dataOffset := by
  have hsum : fs.skipped dataOffset * fs.bytesPerSector + fs.residue dataOffset = dataOffset :=
    skipped_add_residue dataOffset
  rwa [hresidue, Nat.add_zero] at hsum

section Direct
variable {bufferAddress fuel : ℕ}

/-- A write that starts at a sector stores the bytes of its transfer, in one turn. -/
theorem Holds.write_contiguous (h : fs.Holds file chain) (hrun : runLength chain = chain.length)
    (hsum : offset + length < 2 ^ 64) (hpos : 0 < count file offset length)
    (hresidue : fs.residue (offset % fs.bytesPerCluster) = 0) (hbuffer : bufferAddress < 2 ^ 64)
    (mem : Bytes) {blk : VirtioBlk} (hblk : blk.Completes) :
    fs.write (fuel + 1) file mem bufferAddress offset length blk =
      if fs.Ragged (count file offset length) then (.error .err, blk)
      else (.ok (count file offset length), { blk with
        disk := Bytes.copy blk.disk mem (fs.location chain offset) bufferAddress
          (fs.moved (count file offset length)) }) := by
  have hcount : count file offset length = min length (file.fileSize - offset) := rfl
  have hlt : offset < file.fileSize := by omega
  have hsize := h.size
  obtain ⟨c, cs, hdrop, hlinked, hwrite⟩ := h.write_eq hsum hlt
  have hrange := h.range_in_run hrun length hlt
  rw [hdrop] at hrange
  have hstart := h.location_contiguous hrun hlt hdrop hpos
  rw [Nat.add_zero, Nat.add_zero] at hstart
  rw [hwrite, writeFrom_turn h.volume mem bufferAddress (by omega) hpos hlinked
    (Nat.mod_lt _ h.volume.bytesPerCluster_pos) hresidue (by norm_num), piece_write cs hresidue,
    if_pos (show count file offset length ≤ runLength (c :: cs) * fs.bytesPerCluster by omega)]
  by_cases hragged : fs.Ragged (count file offset length)
  · rw [if_pos hragged, if_pos hragged]
  · have haddress : 512 ∣ fs.clusterStart c + offset % fs.bytesPerCluster := by
      rw [← skipped_of_residue hresidue]
      exact dvd_add (clusterStart_dvd h.volume c) (dvd_mul_of_dvd_right h.volume.sector _)
    rw [if_neg hragged, if_neg hragged]
    simp only [Nat.add_zero, Nat.zero_add, if_neg (not_le.mpr hbuffer), VirtioBlk.write,
      VirtioBlk.operationSync_completes hblk haddress
        (dvd_mul_of_dvd_right h.volume.sector (fs.sectorCount (count file offset length))),
      if_true, hstart, moved]

/-- A read that starts at a sector fetches the bytes of its transfer, in one turn. -/
theorem Holds.read_contiguous (h : fs.Holds file chain) (hrun : runLength chain = chain.length)
    (hsum : offset + length < 2 ^ 64) (hpos : 0 < count file offset length)
    (hresidue : fs.residue (offset % fs.bytesPerCluster) = 0) (hbuffer : bufferAddress < 2 ^ 64)
    (pages : Pages η) {m : Machine η} (hblk : m.blk.Completes) :
    fs.read pages (fuel + 1) file bufferAddress offset length m =
      (.ok (count file offset length), { m with
        mem := Bytes.copy m.mem m.blk.disk bufferAddress (fs.location chain offset)
          (fs.moved (count file offset length)) }) := by
  have hcount : count file offset length = min length (file.fileSize - offset) := rfl
  have hlt : offset < file.fileSize := by omega
  have hsize := h.size
  obtain ⟨c, cs, hdrop, hlinked, hread⟩ := h.read_eq (η := η) hsum hlt
  have hrange := h.range_in_run hrun length hlt
  rw [hdrop] at hrange
  have hstart := h.location_contiguous hrun hlt hdrop hpos
  rw [Nat.add_zero, Nat.add_zero] at hstart
  rw [hread, readFrom_direct h.volume pages (by omega) hpos hlinked
    (Nat.mod_lt _ h.volume.bytesPerCluster_pos) hresidue (by norm_num) fuel hblk, piece, hresidue,
    Nat.add_zero, if_pos (by omega), if_neg (Nat.not_lt_zero _), skipped_of_residue hresidue,
    ← hstart]
  simp only [Nat.add_zero, Nat.zero_add, if_neg (not_le.mpr hbuffer), resume, if_true, moved]

end Direct

theorem sector_dvd_cluster : fs.bytesPerSector ∣ fs.bytesPerCluster :=
  Dvd.intro_left fs.sectorsPerCluster rfl

/-- Whole sectors are moved as they are. -/
theorem moved_sectors (hfs : fs.WellFormed) {n : ℕ} (hpos : 0 < n) (hlt : n < 2 ^ 32)
    (hdvd : fs.bytesPerSector ∣ n) : fs.moved n = n := by
  rw [moved, sectors_of_dvd hfs.sectorPos hpos hdvd, Nat.mod_eq_of_lt hlt]

theorem not_ragged_sectors (hfs : fs.WellFormed) {n : ℕ} (hpos : 0 < n)
    (hdvd : fs.bytesPerSector ∣ n) : ¬ fs.Ragged n := by
  have hsector := hfs.sectorPos
  obtain ⟨k, hpred, -⟩ := pred_sectors hsector hpos hdvd
  have hle := Nat.mod_le ((n - 1) % fs.bytesPerCluster) fs.bytesPerSector
  rw [Nat.mod_mod_of_dvd _ sector_dvd_cluster, hpred, Nat.mul_add_mod,
    Nat.mod_eq_of_lt (by omega), ← hpred] at hle
  rw [Ragged]
  omega

/-! ## Aligned writes -/

/-- Whatever is on the disk, the call returns `Ok` with the length and the range of the
file holds the bytes of the buffer. -/
def WritesExactly (fs : Fat32) (file : FileInfo) (chain : List ℕ) (mem : Bytes)
    (bufferAddress offset length : ℕ) : Prop :=
  ∀ blk : VirtioBlk, blk.Completes → ∀ fuel, 0 < fuel →
    (fs.write fuel file mem bufferAddress offset length blk).1 = .ok length ∧
      ∀ i, i < length →
        (fs.write fuel file mem bufferAddress offset length blk).2.disk
          (fs.location chain (offset + i)) = mem (bufferAddress + i)

/-- Whole sectors in the file, from memory that ends in the address space. -/
structure Aligned (fs : Fat32) (file : FileInfo) (bufferAddress offset length : ℕ) : Prop where
  start : fs.bytesPerSector ∣ offset
  whole : fs.bytesPerSector ∣ length
  positive : 0 < length
  inside : offset + length ≤ file.fileSize
  buffer : bufferAddress + length ≤ 2 ^ 64

/-- Of whole sectors only a single one is not skipped. -/
theorem residue_sectors (hfs : fs.WellFormed) {dataOffset : ℕ}
    (hdvd : fs.bytesPerSector ∣ dataOffset) :
    fs.residue dataOffset = 0 ↔ dataOffset ≠ fs.bytesPerSector := by
  have hsector := hfs.sectorPos
  rw [residue, skipped]
  split_ifs with hgt
  · rw [Nat.div_mul_cancel hdvd]
    omega
  · constructor
    · omega
    · intro hne
      have hzero := Nat.eq_zero_of_dvd_of_lt hdvd (by omega)
      omega

theorem Aligned.sectors {bufferAddress : ℕ} (hcall : Aligned fs file bufferAddress offset length) :
    fs.bytesPerSector ∣ offset % fs.bytesPerCluster :=
  (Nat.dvd_mod_iff sector_dvd_cluster).mpr hcall.start

/-- Whole sectors of a contiguous file are written exactly unless they start one sector
into a cluster. -/
theorem writesExactly_iff (fs : Fat32) (file : FileInfo) (chain : List ℕ)
    (h : fs.Holds file chain) (hrun : runLength chain = chain.length) (mem : Bytes)
    (bufferAddress offset length : ℕ) (hcall : Aligned fs file bufferAddress offset length) :
    WritesExactly fs file chain mem bufferAddress offset length ↔
      offset % fs.bytesPerCluster ≠ fs.bytesPerSector := by
  have hsize := h.size
  have hpositive := hcall.positive
  have hinside := hcall.inside
  have hbuffer := hcall.buffer
  have hlt : offset < file.fileSize := by omega
  have hcount : count file offset length = length := Nat.min_eq_left (by omega)
  rw [← residue_sectors h.volume hcall.sectors]
  constructor
  · intro hwrites
    by_contra hresidue
    obtain ⟨c, cs, -, -, hwrite⟩ := h.write_eq (show offset + length < 2 ^ 64 by omega) hlt
    obtain ⟨stop, hrequest, -⟩ := writeRequest_unaligned
      (Nat.mod_lt offset h.volume.bytesPerCluster_pos) hresidue bufferAddress
      (count file offset length) c 0
    have hok := (hwrites _ (plain_completes 0) 1 Nat.one_pos).1
    rw [hwrite, writeFrom, hrequest] at hok
    cases hok
  · intro hresidue blk hblk fuel hfuel
    obtain ⟨fuel, rfl⟩ : ∃ f, fuel = f + 1 := ⟨fuel - 1, by omega⟩
    rw [h.write_contiguous hrun (by omega) (by omega) hresidue (by omega) mem hblk, hcount,
      if_neg (not_ragged_sectors h.volume hpositive hcall.whole),
      moved_sectors h.volume hpositive (by omega) hcall.whole]
    refine ⟨rfl, fun i hi => ?_⟩
    rw [h.location_add hrun (show i < count file offset length by omega)]
    exact Bytes.copy_inside _ _ _ _ hi

/-- The third sector of a cluster can be written. -/
theorem writesExactly_third_sector :
    WritesExactly (sampleVolume 6) ⟨5, 4096⟩ [5, 6] (fun _ => 1) 0x48000000 1024 2048 := by
  refine (writesExactly_iff (sampleVolume 6) ⟨5, 4096⟩ [5, 6]
    (sampleVolume_holds (by decide) (by decide)) rfl (fun _ => 1) 0x48000000 1024 2048 ?_).mpr
    (by decide)
  exact ⟨by decide, by decide, by decide, by decide, by decide⟩

/-- The second one cannot: the sector is not skipped, and the offset of 512 bytes counts
as one within a sector. -/
theorem second_sector_refused :
    (sampleVolume 6).Holds ⟨5, 4096⟩ [5, 6] ∧ runLength [5, 6] = [5, 6].length ∧
      Aligned (sampleVolume 6) ⟨5, 4096⟩ 0x48000000 512 512 ∧
      ¬ WritesExactly (sampleVolume 6) ⟨5, 4096⟩ [5, 6] (fun _ => 1) 0x48000000 512 512 := by
  refine ⟨sampleVolume_holds (by decide) (by decide), rfl,
    ⟨by decide, by decide, by decide, by decide, by decide⟩, ?_⟩
  intro hwrites
  have hok := (hwrites _ (plain_completes 0) 1 Nat.one_pos).1
  have herr : ((sampleVolume 6).write 1 ⟨5, 4096⟩ (fun _ => 1) 0x48000000 512 512 (plain 0)).1 =
      .error .err := by decide
  rw [herr] at hok
  cases hok

/-! ## Read after write -/

/-- Bytes that a write reports are what the next read of this range returns, whatever
was on the disk and in memory. -/
def ReadsBack (fs : Fat32) (file : FileInfo) (pages : Pages η) (heap : η) (offset length : ℕ) :
    Prop :=
  ∀ (mem : Bytes) (source target n fuel : ℕ) (blk : VirtioBlk), blk.Completes → 0 < fuel →
    source + n ≤ 2 ^ 64 → target + n ≤ 2 ^ 64 →
    (fs.write fuel file mem source offset length blk).1 = .ok n → 1 ≤ n →
      (fs.read pages fuel file target offset n
          ⟨mem, heap, (fs.write fuel file mem source offset length blk).2⟩).1 = .ok n ∧
        ∀ i, i < n →
          (fs.read pages fuel file target offset n
              ⟨mem, heap, (fs.write fuel file mem source offset length blk).2⟩).2.mem (target + i) =
            mem (source + i)

/-- What a write has that reports bytes. -/
theorem Holds.write_ok (h : fs.Holds file chain) {mem : Bytes} {source n fuel : ℕ} {blk : VirtioBlk}
    (hok : (fs.write (fuel + 1) file mem source offset length blk).1 = .ok n) (hn : 1 ≤ n) :
    offset + length < 2 ^ 64 ∧ 0 < count file offset length ∧
      fs.residue (offset % fs.bytesPerCluster) = 0 := by
  have hsum : offset + length < 2 ^ 64 := by
    by_contra hover
    rw [write, clamp, Checked.add, if_neg hover] at hok
    cases hok
  rw [write] at hok
  rcases clamp_cases hsum with hclamp | hclamp
  · rw [hclamp] at hok
    obtain rfl := Except.ok.inj hok
    omega
  rw [hclamp] at hok
  dsimp only at hok
  rcases locate_cases h.volume.bytesPerCluster_pos file offset with hlocate | ⟨c, hlocate⟩
  · rw [hlocate] at hok
    cases hok
  rw [hlocate] at hok
  dsimp only at hok
  rw [writeFrom] at hok
  refine ⟨hsum, ?_, ?_⟩
  · by_contra hzero
    rw [writeRequest_small (show count file offset length < fs.bytesPerSector from
      (Nat.eq_zero_of_not_pos hzero).trans_lt h.volume.sectorPos)] at hok
    cases hok
  · by_contra hresidue
    obtain ⟨stop, hrequest, -⟩ := writeRequest_unaligned
      (Nat.mod_lt offset h.volume.bytesPerCluster_pos) hresidue source (count file offset length) c 0
    rw [hrequest] at hok
    cases hok

/-- A range behind the first sector of the file is moved as a whole. -/
theorem Holds.sectors_lt_of_offset (h : fs.Holds file chain)
    (hpos : 0 < count file offset length) (hresidue : fs.residue (offset % fs.bytesPerCluster) = 0)
    (hoffset : offset ≠ 0) :
    fs.sectorCount (count file offset length) * fs.bytesPerSector < 2 ^ 32 := by
  have hsize := h.size
  have hcount : count file offset length = min length (file.fileSize - offset) := rfl
  have hround := fs.sectors_lt hpos
  have hsector : fs.bytesPerSector ≤ offset := by
    by_contra hlt
    have hle := h.volume.sector_le
    rw [Nat.mod_eq_of_lt (by omega), residue, skipped, if_neg (by omega)] at hresidue
    omega
  omega

theorem count_count (file : FileInfo) (offset length : ℕ) :
    count file offset (count file offset length) = count file offset length := by
  simp only [count]
  omega

/-- The last byte of a request that wraps is neither written nor read. -/
theorem Holds.not_readsBack (h : fs.Holds file chain) (hrun : runLength chain = chain.length)
    (pages : Pages η) (heap : η) (hlength : length < 2 ^ 64)
    (hragged : ¬ fs.Ragged (count file 0 length))
    (hwraps : 2 ^ 32 ≤ fs.sectorCount (count file 0 length) * fs.bytesPerSector) :
    ¬ ReadsBack fs file pages heap 0 length := by
  intro hback
  have hsize := h.size
  have hsector := h.volume.sectorLt
  have hcount : count file 0 length = min length (file.fileSize - 0) := rfl
  have hsame := count_count file 0 length
  have hresidue : fs.residue (0 % fs.bytesPerCluster) = 0 := by
    rw [Nat.zero_mod]
    simp [residue]
  have hpos : 0 < count file 0 length := by
    by_contra hzero
    rw [Nat.eq_zero_of_not_pos hzero, sectorCount, Nat.zero_sub, Nat.zero_div, Nat.zero_add,
      Nat.one_mul] at hwraps
    omega
  have hround := fs.sectors_lt hpos
  have hmoved : fs.moved (count file 0 length) < count file 0 length := by
    rw [moved]
    omega
  -- Zeros are written, and ones are where they are read to.
  let mem : Bytes := fun a => if a < 2 ^ 34 then 0 else 1
  have hwrite : ∀ {fuel}, fs.write (fuel + 1) file mem (2 ^ 33) 0 length (plain 0) = _ :=
    h.write_contiguous hrun (show 0 + length < 2 ^ 64 by omega) hpos hresidue (by norm_num) mem
      (plain_completes 0)
  simp only [if_neg hragged] at hwrite
  obtain ⟨-, hbytes⟩ := hback mem (2 ^ 33) (2 ^ 34) (count file 0 length) 1 (plain 0)
    (plain_completes 0) Nat.one_pos (by omega) (by omega) (by rw [hwrite]) hpos
  have hbyte := hbytes (count file 0 length - 1) (by omega)
  rw [hwrite, h.read_contiguous hrun (by omega) (by omega) hresidue (by norm_num) pages
    (by exact plain_completes 0), hsame] at hbyte
  dsimp only at hbyte
  rw [Bytes.copy_outside _ _ _ (by omega)] at hbyte
  simp only [mem] at hbyte
  rw [if_neg (by omega), if_pos (by omega)] at hbyte
  cases hbyte

/-- The writer's bytes are read back unless the call asks, from the start of the file on,
for sectors of 4 GiB or more and the writer accepts that. -/
theorem readsBack_iff (fs : Fat32) (file : FileInfo) (chain : List ℕ) (h : fs.Holds file chain)
    (hrun : runLength chain = chain.length) (pages : Pages η) (heap : η) (offset length : ℕ)
    (hlength : length < 2 ^ 64) :
    ReadsBack fs file pages heap offset length ↔
      offset ≠ 0 ∨ fs.Ragged (count file offset length) ∨
        fs.sectorCount (count file offset length) * fs.bytesPerSector < 2 ^ 32 := by
  constructor
  · intro hback
    by_contra hnot
    simp only [not_or, not_not, not_lt] at hnot
    obtain ⟨rfl, hragged, hwraps⟩ := hnot
    exact h.not_readsBack hrun pages heap hlength hragged hwraps hback
  · intro hcond mem source target n fuel blk hblk hfuel hsource htarget hok hn
    obtain ⟨fuel, rfl⟩ : ∃ f, fuel = f + 1 := ⟨fuel - 1, by omega⟩
    obtain ⟨hsum, hpos, hresidue⟩ := h.write_ok hok hn
    rw [h.write_contiguous hrun hsum hpos hresidue (by omega) mem hblk] at hok ⊢
    have hragged : ¬ fs.Ragged (count file offset length) := by
      intro hragged
      rw [if_pos hragged] at hok
      cases hok
    rw [if_neg hragged] at hok ⊢
    obtain rfl : count file offset length = n := Except.ok.inj hok
    have hfits : fs.sectorCount (count file offset length) * fs.bytesPerSector < 2 ^ 32 := by
      rcases hcond with hoffset | hragged' | hfits
      · exact h.sectors_lt_of_offset hpos hresidue hoffset
      · exact absurd hragged' hragged
      · exact hfits
    have hsame := count_count file offset length
    have hle : count file offset length ≤ length := Nat.min_le_left _ _
    have hmoved : count file offset length ≤ fs.moved (count file offset length) := by
      rw [moved, Nat.mod_eq_of_lt hfits]
      exact le_sectors h.volume.sectorPos _
    dsimp only
    rw [h.read_contiguous hrun (by omega) (by omega) hresidue (by omega) pages hblk, hsame]
    refine ⟨rfl, fun i hi => ?_⟩
    dsimp only
    rw [Bytes.copy_inside _ _ _ _ (show i < fs.moved (count file offset length) by omega)]
    exact Bytes.copy_inside _ _ _ _ (by omega)

/-- Of the last bytes of a file only whole sectors are asked for. -/
theorem readsBack_last_sectors :
    ReadsBack (sampleVolume 6) ⟨5, 4000⟩ onePage () 2048 4000 := by
  have hsample : (sampleVolume 6).Holds ⟨5, 4096⟩ [5, 6] :=
    sampleVolume_holds (by decide) (by decide)
  have hholds : (sampleVolume 6).Holds ⟨5, 4000⟩ [5, 6] :=
    { hsample with
      size := by decide
      covers := by decide }
  exact (readsBack_iff (sampleVolume 6) ⟨5, 4000⟩ [5, 6] hholds rfl onePage () 2048 4000
    (by decide)).mpr (.inl (by decide))

/-- A file of 4 GiB less one byte: the writer reports all of it and moves nothing. -/
theorem large_file_not_read_back :
    largeVolume.Holds ⟨2, 2 ^ 32 - 1⟩ (List.range' 2 65536) ∧
      runLength (List.range' 2 65536) = (List.range' 2 65536).length ∧
      ¬ ReadsBack largeVolume ⟨2, 2 ^ 32 - 1⟩ onePage () 0 (2 ^ 32 - 1) := by
  have hrun : runLength (List.range' 2 65536) = (List.range' 2 65536).length := by
    rw [runLength_range', List.length_range']
  exact ⟨largeVolume_holds, hrun, largeVolume_holds.not_readsBack hrun onePage () (by decide)
    (by decide) (by decide)⟩

end Min1visor.Fat.Fat32
