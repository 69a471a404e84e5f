import Min1visor.FatReadLayout

/-!
# Reading a contiguous file

A file in consecutive clusters is read in one turn, through a bounce buffer where the
offset lies within a sector. The turn asks the block device for whole sectors with one
request, whose length has 32 bits in the descriptor: a request of 4 GiB or more moves its
length modulo 4 GiB, and the reader reports the whole length.
-/
namespace Min1visor.Fat.Fat32
open Fragments

variable {η : Type} {fs : Fat32} {file : FileInfo} {chain : List ℕ} {pages : Pages η} {heap : η}
  {bufferAddress offset length : ℕ}

/-- The number of bytes that the reader asks the block device for. -/
def transferSize (fs : Fat32) (offset n : ℕ) : ℕ :=
  fs.sectorCount (n + fs.residue (offset % fs.bytesPerCluster)) * fs.bytesPerSector

/-- Whatever is on the disk, the call returns `Ok` with the number of bytes of the range
that lie in the file, and the buffer starts with these bytes. -/
def ReadsExactly (fs : Fat32) (file : FileInfo) (chain : List ℕ) (pages : Pages η) (mem : Bytes)
    (heap : η) (bufferAddress offset length : ℕ) : Prop :=
  ∀ blk : VirtioBlk, blk.Completes → ∀ fuel, 0 < fuel →
    (fs.read pages fuel file bufferAddress offset length ⟨mem, heap, blk⟩).1 =
        .ok (count file offset length) ∧
      ∀ i, i < count file offset length →
        (fs.read pages fuel file bufferAddress offset length ⟨mem, heap, blk⟩).2.mem
            (bufferAddress + i) =
          blk.disk (fs.location chain (offset + i))

theorem readsExactly_behind (hcall : Call fs file pages heap bufferAddress offset length)
    (hle : file.fileSize ≤ offset) (mem : Bytes) :
    ReadsExactly fs file chain pages mem heap bufferAddress offset length := by
  intro blk _ fuel _
  have hpositive := hcall.positive
  have hcount : count file offset length = 0 := by
    unfold count
    omega
  have hclamp : clamp file offset length = .ok none := by
    rw [clamp, Checked.add_ok hcall.sum, Checked.ok_bind, if_pos (by omega), if_pos hle]
    rfl
  rw [hcount]
  refine ⟨?_, fun i hi => absurd hi (Nat.not_lt_zero i)⟩
  rw [read, hclamp]

/-- A disk that is the same byte everywhere. -/
def plain (byte : UInt8) : VirtioBlk := ⟨fun _ => byte, fun _ n => n⟩

theorem plain_completes (byte : UInt8) : (plain byte).Completes := fun _ _ => le_rfl

/-- The last byte of a request whose transfer wraps is not fetched. -/
theorem wholeByte_wraps (h : fs.WellFormed) (pages : Pages η) (heap : η) (bufferAddress : ℕ)
    {n dataOffset : ℕ} (hn : 0 < n) (hlt : n < 2 ^ 32)
    (hwraps : 2 ^ 32 ≤ fs.sectorCount (n + fs.residue dataOffset) * fs.bytesPerSector)
    (mem : Bytes) : ∃ old, ∀ content : ℕ → UInt8,
      fs.wholeByte pages bufferAddress dataOffset n mem heap content (n - 1) = old := by
  have hresidue : fs.residue dataOffset ≤ fs.bytesPerSector := residue_le h.geometry dataOffset
  have hsector := h.sectorLt
  have hround := Nat.div_mul_le_self (n + fs.residue dataOffset - 1) fs.bytesPerSector
  have hsize : fs.sectorCount (n + fs.residue dataOffset) * fs.bytesPerSector <
      n + fs.residue dataOffset + fs.bytesPerSector := by
    rw [sectorCount, Nat.add_mul, Nat.one_mul]
    omega
  have hmod : fs.sectorCount (n + fs.residue dataOffset) * fs.bytesPerSector % 2 ^ 32 =
      fs.sectorCount (n + fs.residue dataOffset) * fs.bytesPerSector - 2 ^ 32 := by
    omega
  have hnot : ¬ fs.residue dataOffset + (n - 1) <
      fs.sectorCount (n + fs.residue dataOffset) * fs.bytesPerSector % 2 ^ 32 := by
    rw [hmod]
    omega
  refine ⟨fs.wholeByte pages bufferAddress dataOffset n mem heap (fun _ => 0) (n - 1),
    fun content => ?_⟩
  simp only [wholeByte, if_neg hnot]

/-- A request whose transfer wraps leaves a byte of the buffer as it was. -/
theorem Holds.not_readsExactly (h : fs.Holds file chain) (hrun : runLength chain = chain.length)
    (hcall : Call fs file pages heap bufferAddress offset length) (hlt : offset < file.fileSize)
    (hwraps : 2 ^ 32 ≤ fs.transferSize offset (count file offset length)) (mem : Bytes) :
    ¬ ReadsExactly fs file chain pages mem heap bufferAddress offset length := by
  intro hreads
  have hpositive := hcall.positive
  have hsize := h.size
  have hcount : count file offset length = min length (file.fileSize - offset) := rfl
  obtain ⟨old, hold⟩ := wholeByte_wraps h.volume pages heap bufferAddress
    (show 0 < count file offset length by omega) (by omega) hwraps mem
  -- A disk of other bytes than the one that is left.
  have hread := h.read_whole hrun hcall hlt mem (plain_completes (old + 1)) Nat.one_pos
  have hbyte := (hreads _ (plain_completes (old + 1)) 1 Nat.one_pos).2
    (count file offset length - 1) (by omega)
  rw [hread.2 _ (by omega), hold] at hbyte
  simp [plain] at hbyte

/-- A contiguous file is read exactly if and only if the range lies behind it or the
request for its sectors is below 4 GiB. -/
theorem readsExactly_iff (fs : Fat32) (file : FileInfo) (chain : List ℕ)
    (h : fs.Holds file chain) (hrun : runLength chain = chain.length) (pages : Pages η)
    (mem : Bytes) (heap : η) (bufferAddress offset length : ℕ)
    (hcall : Call fs file pages heap bufferAddress offset length) :
    ReadsExactly fs file chain pages mem heap bufferAddress offset length ↔
      file.fileSize ≤ offset ∨ fs.transferSize offset (count file offset length) < 2 ^ 32 := by
  by_cases hle : file.fileSize ≤ offset
  · exact iff_of_true (readsExactly_behind hcall hle mem) (.inl hle)
  have hlt := not_le.mp hle
  rw [or_iff_right hle]
  constructor
  · intro hreads
    by_contra hwraps
    exact h.not_readsExactly hrun hcall hlt (not_lt.mp hwraps) mem hreads
  · intro hfits blk hblk fuel hfuel
    obtain ⟨hok, hmem⟩ := h.read_whole hrun hcall hlt mem hblk hfuel
    refine ⟨hok, fun i hi => ?_⟩
    rw [hmem i hi]
    exact wholeByte_content h.volume pages bufferAddress mem heap _ hfits hi

/-- A contiguous file, its first cluster and a second one, is read from within a sector. -/
theorem readsExactly_iff_two_clusters :
    ReadsExactly (sampleVolume 6) ⟨5, 4096⟩ [5, 6] linkedListPages (fun _ => 0) sampleHeap 0x48000000
        600 3000 ↔
      4096 ≤ 600 ∨ (sampleVolume 6).transferSize 600 (count ⟨5, 4096⟩ 600 3000) < 2 ^ 32 :=
  readsExactly_iff (sampleVolume 6) ⟨5, 4096⟩ [5, 6]
    (sampleVolume_holds (by decide) (by decide)) rfl linkedListPages (fun _ => 0) sampleHeap
    0x48000000 600 3000 ⟨by decide, by decide, by decide, fun count hcount =>
      sampleHeap_provides count (hcount.trans (by decide))⟩

/-! ## A file of almost 4 GiB -/

/-- A volume with clusters of 64 KiB, whose table links every cluster to its successor up
to cluster 65537. -/
def largeVolume : Fat32 :=
  ⟨2048, 512, 512, 128, 32, 1024, 2, fun c => if c < 65537 then c + 1 else 0x0FFFFFFF⟩

theorem largeVolume_chain (n c : ℕ) (hlow : 2 ≤ c) (hend : c + n = 65537) :
    largeVolume.Chain (List.range' c (n + 1)) := by
  have hindex : c < largeVolume.fatSectors * largeVolume.bytesPerSector / 4 := by
    simp only [largeVolume]
    omega
  induction n generalizing c with
  | zero =>
    refine .last ?_
    have hc : c = 65537 := by omega
    simp [getNextCluster, largeVolume, hc]
  | succ n ih =>
    refine .link ?_ (ih (c + 1) (by omega) (by omega) ?_)
    · have hlt : c < 65537 := by omega
      have hrange : 2 ≤ c + 1 ∧ c + 1 < 0x0FFFFFF8 := by omega
      rw [getNextCluster, if_pos hindex]
      simp only [largeVolume, if_pos hlt, if_pos hrange]
    · simp only [largeVolume]
      omega

theorem runLength_range' (n c : ℕ) : runLength (List.range' c n) = n := by
  induction n generalizing c with
  | zero => rfl
  | succ n ih =>
    cases n with
    | zero => rfl
    | succ n =>
      have htail := ih (c + 1)
      rw [List.range'_succ] at htail ⊢
      rw [List.range'_succ, runLength, if_pos rfl]
      omega

theorem largeVolume_holds :
    largeVolume.Holds ⟨2, 2 ^ 32 - 1⟩ (List.range' 2 65536) where
  volume := by constructor <;> norm_num [largeVolume]
  entry c hc := by
    rw [List.head?_range'] at hc
    simpa using hc.symm
  linked := .inr (largeVolume_chain 65535 2 (by decide) (by decide))
  nodup := List.nodup_range'
  clusters c hc := by
    obtain ⟨i, hi, rfl⟩ := List.mem_range'.mp hc
    refine ⟨by omega, by omega, ?_⟩
    simp only [dataSector, largeVolume]
    omega
  size := by norm_num
  covers := by
    rw [List.length_range']
    norm_num [bytesPerCluster, largeVolume]

/-- Pages at one address, which a read from the start of a sector does not use. -/
def onePage : Pages Unit := ⟨fun h _ _ => .ok (some 0x50000000, h), fun h _ _ => .ok h⟩

/-- The whole file is asked for with one request of 4 GiB, which the descriptor cuts to
nothing: the reader reports the whole length and the buffer is as it was. -/
theorem large_file_unread :
    largeVolume.Holds ⟨2, 2 ^ 32 - 1⟩ (List.range' 2 65536) ∧
      runLength (List.range' 2 65536) = (List.range' 2 65536).length ∧
      Call largeVolume ⟨2, 2 ^ 32 - 1⟩ onePage () 0x48000000 0 (2 ^ 32 - 1) ∧
      ¬ ReadsExactly largeVolume ⟨2, 2 ^ 32 - 1⟩ (List.range' 2 65536) onePage (fun _ => 0) ()
        0x48000000 0 (2 ^ 32 - 1) := by
  have hrun : runLength (List.range' 2 65536) = (List.range' 2 65536).length := by
    rw [runLength_range', List.length_range']
  have hcall : Call largeVolume ⟨2, 2 ^ 32 - 1⟩ onePage () 0x48000000 0 (2 ^ 32 - 1) :=
    ⟨by decide, by decide, by decide, fun count _ => ⟨_, _, _, rfl, rfl⟩⟩
  refine ⟨largeVolume_holds, hrun, hcall, ?_⟩
  exact largeVolume_holds.not_readsExactly hrun hcall (by decide) (by decide) _

end Min1visor.Fat.Fat32
