import Min1visor.FatRead
import Min1visor.LinkedList

/-!
# Reading and the layout of a file

The result of a read depends on the layout of the file as soon as the request
crosses into a second run of clusters, unless it ends exactly where a run ends and
the chain goes on.
-/
namespace Min1visor.Fat
open Fragments

namespace Fat32

variable {fs : Fat32} {η : Type} {file : FileInfo} {chain : List ℕ}

/-! ## Positions -/

theorem location_drop (hfs : fs.WellFormed) (chain : List ℕ) (offset i : ℕ) :
    fs.location chain (offset + i) =
      fs.location (chain.drop (offset / fs.bytesPerCluster)) (offset % fs.bytesPerCluster + i) := by
  have hpos := hfs.bytesPerCluster_pos
  have hsplit := Nat.div_add_mod offset fs.bytesPerCluster
  have hsum : offset + i = fs.bytesPerCluster * (offset / fs.bytesPerCluster) +
      (offset % fs.bytesPerCluster + i) := by omega
  have hdiv : (offset + i) / fs.bytesPerCluster = offset / fs.bytesPerCluster +
      (offset % fs.bytesPerCluster + i) / fs.bytesPerCluster := by
    rw [hsum, Nat.mul_add_div hpos]
  have hmod : (offset + i) % fs.bytesPerCluster =
      (offset % fs.bytesPerCluster + i) % fs.bytesPerCluster := by
    rw [hsum, Nat.mul_add_mod]
  rw [location, location, hdiv, hmod, List.getD_eq_getElem?_getD, List.getD_eq_getElem?_getD,
    List.getElem?_drop]

/-- Different bytes of a file lie at different places. -/
theorem Holds.location_inj (h : fs.Holds file chain) {i j : ℕ} (hi : i < file.fileSize)
    (hj : j < file.fileSize) (heq : fs.location chain i = fs.location chain j) : i = j := by
  have hpos := h.volume.bytesPerCluster_pos
  have hcovers := h.covers
  have hindex : ∀ {k}, k < file.fileSize → k / fs.bytesPerCluster < chain.length := fun hk =>
    (Nat.div_lt_iff_lt_mul hpos).mpr (by omega)
  have hget : ∀ {k} (hk : k < file.fileSize),
      chain.getD (k / fs.bytesPerCluster) 0 = chain.get ⟨_, hindex hk⟩ := by
    intro k hk
    rw [List.getD_eq_getElem?_getD, List.getElem?_eq_getElem (hindex hk)]
    rfl
  rw [location, location, hget hi, hget hj] at heq
  obtain ⟨hcluster, hrest⟩ := clusterStart_inj (h.clusters _ (List.get_mem _ _)).low
    (h.clusters _ (List.get_mem _ _)).low (Nat.mod_lt _ hpos) (Nat.mod_lt _ hpos) heq
  have hquot := (List.Nodup.get_inj_iff h.nodup).mp hcluster
  have hdiv : i / fs.bytesPerCluster = j / fs.bytesPerCluster := congrArg Fin.val hquot
  rw [← Nat.div_add_mod i fs.bytesPerCluster, ← Nat.div_add_mod j fs.bytesPerCluster, hdiv, hrest]

theorem ends_drop {offset length : ℕ} (hlength : 0 < length) :
    fs.Ends (chain.drop (offset / fs.bytesPerCluster)) (offset % fs.bytesPerCluster + length) ↔
      fs.Ends chain (offset + length) := by
  have hsplit := Nat.div_add_mod offset fs.bytesPerCluster
  rw [Nat.mul_comm] at hsplit
  constructor
  · rintro ⟨e, x, y, htotal, hx, hy, hne⟩
    rw [List.getElem?_drop] at hx hy
    refine ⟨offset / fs.bytesPerCluster + e, x, y, ?_, hx, hy, hne⟩
    rw [Nat.add_assoc, Nat.add_mul]
    omega
  · rintro ⟨e, x, y, htotal, hx, hy, hne⟩
    have hle : offset / fs.bytesPerCluster ≤ e := by
      have hlt : offset / fs.bytesPerCluster * fs.bytesPerCluster < (e + 1) * fs.bytesPerCluster := by
        omega
      exact Nat.lt_succ_iff.mp (Nat.lt_of_mul_lt_mul_right hlt)
    obtain ⟨k, rfl⟩ := Nat.exists_eq_add_of_le hle
    refine ⟨k, x, y, ?_, by rw [List.getElem?_drop]; exact hx,
      by rw [List.getElem?_drop]; exact hy, hne⟩
    rw [Nat.add_assoc, Nat.add_mul] at htotal
    omega

/-! ## The call -/

theorem Holds.read_eq (h : fs.Holds file chain) {offset length : ℕ} (hsum : offset + length < 2 ^ 64)
    (hlt : offset < file.fileSize) :
    ∃ c cs, chain.drop (offset / fs.bytesPerCluster) = c :: cs ∧ fs.Linked (c :: cs) ∧
      ∀ (pages : Pages η) fuel bufferAddress m,
        fs.read pages fuel file bufferAddress offset length m =
          fs.readFrom pages bufferAddress (count file offset length) fuel c
            (offset % fs.bytesPerCluster) 0 m := by
  obtain ⟨c, cs, hdrop, hlinked, hlocate⟩ := h.locate_ok hlt
  refine ⟨c, cs, hdrop, hlinked, ?_⟩
  intro pages fuel bufferAddress m
  rw [read, clamp_inside hsum hlt, hlocate]

/-- A byte of the buffer after a request that one turn handles. -/
def wholeByte (fs : Fat32) (pages : Pages η) (bufferAddress dataOffset length : ℕ) (mem : Bytes)
    (heap : η) (content : ℕ → UInt8) (i : ℕ) : UInt8 :=
  let residue := fs.residue dataOffset
  let size := fs.sectorCount (length + residue) * fs.bytesPerSector
  if residue + i < size % 2 ^ 32 then content i
  else if residue = 0 then mem (bufferAddress + i)
  else mem (page pages heap (pageCount fs.lbaSize size) + residue + i)

/-- The byte is the content unless the length of the transfer wraps. -/
theorem wholeByte_content (hfs : fs.WellFormed) (pages : Pages η) (bufferAddress : ℕ) (mem : Bytes)
    (heap : η) (content : ℕ → UInt8) {dataOffset length i : ℕ}
    (hsize : fs.sectorCount (length + fs.residue dataOffset) * fs.bytesPerSector < 2 ^ 32)
    (hi : i < length) :
    fs.wholeByte pages bufferAddress dataOffset length mem heap content i = content i := by
  have hle := le_sectors hfs.sectorPos (length + fs.residue dataOffset)
  rw [wholeByte, if_pos]
  rw [Nat.mod_eq_of_lt hsize]
  omega

section First
variable {bufferAddress length c dataOffset : ℕ} {cs : List ℕ} {m : Machine η}

/-- The reader handles a request in one turn as soon as its length, without the
sectors that are skipped, fits the first run. -/
theorem readFrom_one (hfs : fs.WellFormed) (pages : Pages η) (hlength : length < 2 ^ 32)
    (hpos : 0 < length) (hlinked : fs.Linked (c :: cs)) (hoffset : dataOffset < fs.bytesPerCluster)
    (hbuffer : bufferAddress < 2 ^ 64) (fuel : ℕ) (hblk : m.blk.Completes)
    (hprovides : Provides pages m.heap (length + 2 * fs.bytesPerSector + fs.lbaSize + 4096))
    (hin : length + fs.residue dataOffset ≤ runLength (c :: cs) * fs.bytesPerCluster) :
    (fs.readFrom pages bufferAddress length (fuel + 1) c dataOffset 0 m).1 = .ok length ∧
      ∀ i, i < length →
        (fs.readFrom pages bufferAddress length (fuel + 1) c dataOffset 0 m).2.mem
            (bufferAddress + i) =
          fs.wholeByte pages bufferAddress dataOffset length m.mem m.heap
            (fun i => m.blk.disk (fs.clusterStart c + dataOffset + i)) i := by
  have hskipped : fs.skipped dataOffset * fs.bytesPerSector + fs.residue dataOffset = dataOffset :=
    skipped_add_residue dataOffset
  obtain ⟨p, hpiece, haddress, hsize, hbytes⟩ : ∃ p, fs.piece 0 length c cs dataOffset = some p ∧
      p.address = fs.clusterStart c + fs.skipped dataOffset * fs.bytesPerSector ∧
      p.size = fs.sectorCount (length + fs.residue dataOffset) * fs.bytesPerSector ∧
      p.bytes = length := by
    rw [piece, if_pos hin, if_neg (Nat.not_lt_zero _)]
    exact ⟨_, rfl, rfl, rfl, rfl⟩
  obtain ⟨m', -, hmem, hread⟩ := readFrom_first hfs pages hlength hpos hlinked hoffset hbuffer fuel
    hblk hprovides hpiece
  rw [hread, resume.eq_def, if_pos hbytes.symm, hbytes]
  refine ⟨rfl, ?_⟩
  intro i hi
  dsimp only
  rw [hmem i (by omega), fetched, wholeByte, hsize, haddress,
    show fs.clusterStart c + fs.skipped dataOffset * fs.bytesPerSector + fs.residue dataOffset + i =
      fs.clusterStart c + dataOffset + i by omega]

/-- Otherwise its first turn handles the first run. -/
theorem readFrom_two (hfs : fs.WellFormed) (pages : Pages η) (hlength : dataOffset + length < 2 ^ 32)
    (hpos : 0 < length) (hlinked : fs.Linked (c :: cs)) (hoffset : dataOffset < fs.bytesPerCluster)
    (hbuffer : bufferAddress < 2 ^ 64) (fuel : ℕ) (hblk : m.blk.Completes)
    (hprovides : Provides pages m.heap (length + 2 * fs.bytesPerSector + fs.lbaSize + 4096))
    (hout : runLength (c :: cs) * fs.bytesPerCluster < length + fs.residue dataOffset)
    (hmore : runLength (c :: cs) < (c :: cs).length) :
    ∃ d ds m', (c :: cs).drop (runLength (c :: cs)) = d :: ds ∧ m'.blk = m.blk ∧
      (∀ i, i < runLength (c :: cs) * fs.bytesPerCluster - fs.residue dataOffset →
        m'.mem (bufferAddress + i) = m.blk.disk (fs.clusterStart c + dataOffset + i)) ∧
      fs.readFrom pages bufferAddress length (fuel + 1) c dataOffset 0 m =
        fs.readFrom pages bufferAddress length fuel d 0
          (runLength (c :: cs) * fs.bytesPerCluster - fs.residue dataOffset) m' := by
  have hskipped : fs.skipped dataOffset * fs.bytesPerSector + fs.residue dataOffset = dataOffset :=
    skipped_add_residue dataOffset
  have hrun := Nat.le_mul_of_pos_left fs.bytesPerCluster (runLength_pos c cs)
  have hpiece : fs.piece 0 length c cs dataOffset =
      some ⟨fs.clusterStart c + fs.skipped dataOffset * fs.bytesPerSector,
        runLength (c :: cs) * fs.bytesPerCluster,
        runLength (c :: cs) * fs.bytesPerCluster - fs.residue dataOffset, runLength (c :: cs)⟩ := by
    rw [piece, if_neg (not_le.mpr hout), if_neg hmore.ne]
  obtain ⟨m', hblk', hmem, hread⟩ := readFrom_first hfs pages (show length < 2 ^ 32 by omega) hpos
    hlinked hoffset hbuffer fuel hblk hprovides hpiece
  cases hdrop : (c :: cs).drop (runLength (c :: cs)) with
  | nil =>
    have hlen := congrArg List.length hdrop
    rw [List.length_drop, List.length_nil] at hlen
    omega
  | cons d ds =>
    refine ⟨d, ds, m', rfl, hblk', ?_, ?_⟩
    · intro i hi
      rw [hmem i hi, fetched]
      dsimp only
      rw [if_pos (by rw [Nat.mod_eq_of_lt (by omega)]; omega),
        show fs.clusterStart c + fs.skipped dataOffset * fs.bytesPerSector + fs.residue dataOffset +
          i = fs.clusterStart c + dataOffset + i by omega]
    · rw [hread, resume.eq_def, hdrop]
      dsimp only
      rw [if_neg (by omega)]

/-- A sector that is skipped leaves room for the rounding of a transfer. -/
theorem sectors_lt_of_skipped (hfs : fs.WellFormed) (hlength : dataOffset + length < 2 ^ 32)
    (hpos : 0 < length) (hskip : fs.bytesPerSector < dataOffset) :
    fs.residue dataOffset + fs.bytesPerSector ≤ dataOffset ∧
      fs.sectorCount (length + fs.residue dataOffset) * fs.bytesPerSector < 2 ^ 32 := by
  have hskipped : fs.skipped dataOffset * fs.bytesPerSector + fs.residue dataOffset = dataOffset :=
    skipped_add_residue dataOffset
  have hone : fs.bytesPerSector ≤ fs.skipped dataOffset * fs.bytesPerSector := by
    apply Nat.le_mul_of_pos_left
    rw [skipped, if_pos hskip]
    exact Nat.div_pos hskip.le hfs.sectorPos
  have hdiv := Nat.div_mul_le_self (length + fs.residue dataOffset - 1) fs.bytesPerSector
  refine ⟨by omega, ?_⟩
  rw [sectorCount, Nat.add_mul, Nat.one_mul]
  omega

/-- Where sectors are skipped, the first byte that belongs to the next run is taken from
behind this one. -/
theorem readFrom_behind (hfs : fs.WellFormed) (pages : Pages η)
    (hlength : dataOffset + length < 2 ^ 32) (hlinked : fs.Linked (c :: cs))
    (hoffset : dataOffset < fs.bytesPerCluster) (hbuffer : bufferAddress + length ≤ 2 ^ 64)
    (fuel : ℕ) (hblk : m.blk.Completes)
    (hprovides : Provides pages m.heap (length + 2 * fs.bytesPerSector + fs.lbaSize + 4096))
    (hskip : fs.bytesPerSector < dataOffset) (hmore : runLength (c :: cs) < (c :: cs).length)
    (hchain : (c :: cs).length < 2 ^ 28) {k : ℕ}
    (hk : runLength (c :: cs) * fs.bytesPerCluster = dataOffset + k) (hlt : k < length) :
    (fs.readFrom pages bufferAddress length (fuel + 1) c dataOffset 0 m).2.mem (bufferAddress + k) =
      m.blk.disk (fs.clusterStart c + dataOffset + k) := by
  obtain ⟨hresidue, hround⟩ := sectors_lt_of_skipped hfs hlength (by omega) hskip
  have hsector := hfs.sectorPos
  by_cases hin : length + fs.residue dataOffset ≤ runLength (c :: cs) * fs.bytesPerCluster
  · obtain ⟨-, hmem⟩ := readFrom_one hfs pages (by omega) (by omega) hlinked hoffset
      (show bufferAddress < 2 ^ 64 by omega) fuel hblk hprovides hin
    rw [hmem k hlt, wholeByte_content hfs pages bufferAddress m.mem m.heap _ hround hlt]
  · obtain ⟨d, ds, m', htail, hblk', hmem', hturn⟩ := readFrom_two hfs pages hlength (by omega)
      hlinked hoffset (show bufferAddress < 2 ^ 64 by omega) fuel hblk hprovides (by omega) hmore
    have hds := congrArg List.length htail
    rw [List.length_drop, List.length_cons, List.length_cons] at hds
    rw [List.length_cons] at hchain
    rw [hturn, readFrom_keeps hfs pages (by omega) (by omega) fuel d _ ds (hlinked.drop htail)
      (by omega) m' (hblk' ▸ hblk) _ (by omega), hmem' k (by omega)]

end First

/-- A request whose clusters are consecutive is read as it lies in the file. -/
theorem Holds.read_run (h : fs.Holds file chain) (pages : Pages η)
    (offset length fuel bufferAddress : ℕ) (m : Machine η) (hsum : offset + length < 2 ^ 64)
    (hlt : offset < file.fileSize) (hpos : 0 < count file offset length) (hfuel : 0 < fuel)
    (hbuffer : bufferAddress < 2 ^ 64) (hblk : m.blk.Completes)
    (hprovides : Provides pages m.heap
      (count file offset length + 2 * fs.bytesPerSector + fs.lbaSize + 4096))
    (hrun : offset % fs.bytesPerCluster + count file offset length ≤
      runLength (chain.drop (offset / fs.bytesPerCluster)) * fs.bytesPerCluster) :
    (fs.read pages fuel file bufferAddress offset length m).1 = .ok (count file offset length) ∧
      ∀ i, i < count file offset length →
        (fs.read pages fuel file bufferAddress offset length m).2.mem (bufferAddress + i) =
          fs.wholeByte pages bufferAddress (offset % fs.bytesPerCluster) (count file offset length)
            m.mem m.heap (fun i => m.blk.disk (fs.location chain (offset + i))) i := by
  have hfs := h.volume
  have hsize := h.size
  have hcount : count file offset length ≤ file.fileSize - offset := Nat.min_le_right _ _
  have hoffset := Nat.mod_lt offset hfs.bytesPerCluster_pos
  obtain ⟨c, cs, hdrop, hlinked, hread⟩ := h.read_eq (η := η) hsum hlt
  obtain ⟨fuel, rfl⟩ : ∃ f, fuel = f + 1 := ⟨fuel - 1, by omega⟩
  rw [hdrop] at hrun
  have hskipped : fs.skipped (offset % fs.bytesPerCluster) * fs.bytesPerSector +
      fs.residue (offset % fs.bytesPerCluster) = offset % fs.bytesPerCluster := skipped_add_residue _
  obtain ⟨hok, hmem⟩ := readFrom_one hfs pages (show count file offset length < 2 ^ 32 by omega) hpos
    hlinked hoffset hbuffer fuel hblk hprovides (by omega)
  rw [hread]
  refine ⟨hok, ?_⟩
  intro i hi
  have hlocation := location_run hfs (show (c :: cs).drop 0 = c :: cs from rfl)
    (hlinked.clusters c List.mem_cons_self).low
    (show offset % fs.bytesPerCluster + i < runLength (c :: cs) * fs.bytesPerCluster by omega)
  rw [Nat.zero_mul, Nat.zero_add, ← hdrop, ← location_drop hfs] at hlocation
  simp only [hmem i hi, wholeByte, hlocation, Nat.add_assoc]

/-! ## Two layouts -/

structure SameGeometry (fs₀ fs : Fat32) : Prop where
  bytesPerSector : fs₀.bytesPerSector = fs.bytesPerSector
  sectorsPerCluster : fs₀.sectorsPerCluster = fs.sectorsPerCluster
  lbaSize : fs₀.lbaSize = fs.lbaSize

/-- Both reads return the same `Ok` and leave the same bytes in the buffer. -/
def Alike (bufferAddress : ℕ) (r₀ r : Except Stop ℕ × Machine η) : Prop :=
  ∃ n, r₀.1 = .ok n ∧ r.1 = .ok n ∧
    ∀ i, i < n → r₀.2.mem (bufferAddress + i) = r.2.mem (bufferAddress + i)

/-- Whatever the content of the file, it is read alike from both layouts. -/
def ReadsAlike (fs₀ : Fat32) (file₀ : FileInfo) (chain₀ : List ℕ) (fs : Fat32) (file : FileInfo)
    (chain : List ℕ) (pages : Pages η) (mem : Bytes) (heap : η)
    (bufferAddress offset length : ℕ) : Prop :=
  ∀ blk₀ blk : VirtioBlk, blk₀.Completes → blk.Completes →
    (∀ i, i < file.fileSize →
      blk₀.disk (fs₀.location chain₀ i) = blk.disk (fs.location chain i)) →
    ∀ fuel₀ fuel, chain₀.length < fuel₀ → chain.length < fuel →
      Alike bufferAddress (fs₀.read pages fuel₀ file₀ bufferAddress offset length ⟨mem, heap, blk₀⟩)
        (fs.read pages fuel file bufferAddress offset length ⟨mem, heap, blk⟩)

/-- The request lies behind the file, its clusters are consecutive, or it starts in
the first sector of a cluster and ends where a run ends before the end of the chain. -/
def LayoutFits (fs : Fat32) (file : FileInfo) (chain : List ℕ) (offset length : ℕ) : Prop :=
  file.fileSize ≤ offset ∨
    offset % fs.bytesPerCluster + count file offset length ≤
      runLength (chain.drop (offset / fs.bytesPerCluster)) * fs.bytesPerCluster ∨
    (offset % fs.bytesPerCluster ≤ fs.bytesPerSector ∧
      fs.Ends chain (offset + count file offset length))

/-- A file that is stored in consecutive clusters on one volume and in any chain on
another. -/
structure Pair (fs₀ : Fat32) (file₀ : FileInfo) (chain₀ : List ℕ) (fs : Fat32) (file : FileInfo)
    (chain : List ℕ) : Prop where
  contiguous : fs₀.Holds file₀ chain₀
  consecutive : runLength chain₀ = chain₀.length
  scattered : fs.Holds file chain
  geometry : SameGeometry fs₀ fs
  size : file₀.fileSize = file.fileSize

/-- A call with room for its result and pages for a bounce buffer. -/
structure Call (fs : Fat32) (file : FileInfo) (pages : Pages η) (heap : η)
    (bufferAddress offset length : ℕ) : Prop where
  positive : 1 ≤ length
  sum : offset + length < 2 ^ 64
  buffer : bufferAddress + count file offset length ≤ 2 ^ 64
  provides : Provides pages heap
    (count file offset length + 2 * fs.bytesPerSector + fs.lbaSize + 4096)

section Contiguous
variable {pages : Pages η} {heap : η} {bufferAddress offset length : ℕ}

/-- The clusters of a range of a contiguous file are consecutive. -/
theorem Holds.range_in_run (h : fs.Holds file chain) (hrun : runLength chain = chain.length)
    (length : ℕ) (hlt : offset < file.fileSize) :
    offset % fs.bytesPerCluster + count file offset length ≤
      runLength (chain.drop (offset / fs.bytesPerCluster)) * fs.bytesPerCluster := by
  have hcovers := h.covers
  have hcount : count file offset length = min length (file.fileSize - offset) := rfl
  have hsplit := Nat.div_add_mod offset fs.bytesPerCluster
  rw [Nat.mul_comm] at hsplit
  rw [runLength_drop chain hrun, List.length_drop, Nat.sub_mul]
  omega

/-- What a read of a contiguous file leaves, up to the length of the transfer. -/
theorem Holds.read_whole (h : fs.Holds file chain) (hrun : runLength chain = chain.length)
    (hcall : Call fs file pages heap bufferAddress offset length) (hlt : offset < file.fileSize)
    (mem : Bytes) {blk : VirtioBlk} (hblk : blk.Completes) {fuel : ℕ} (hfuel : 0 < fuel) :
    (fs.read pages fuel file bufferAddress offset length ⟨mem, heap, blk⟩).1 =
        .ok (count file offset length) ∧
      ∀ i, i < count file offset length →
        (fs.read pages fuel file bufferAddress offset length ⟨mem, heap, blk⟩).2.mem
            (bufferAddress + i) =
          fs.wholeByte pages bufferAddress (offset % fs.bytesPerCluster) (count file offset length)
            mem heap (fun i => blk.disk (fs.location chain (offset + i))) i := by
  have hpositive := hcall.positive
  have hbuffer := hcall.buffer
  have hcount : count file offset length = min length (file.fileSize - offset) := rfl
  exact h.read_run pages offset length fuel bufferAddress ⟨mem, heap, blk⟩ hcall.sum hlt
    (by omega) hfuel (by omega) hblk hcall.provides (h.range_in_run hrun length hlt)

end Contiguous

section Pair
variable {fs₀ : Fat32} {file₀ : FileInfo} {chain₀ : List ℕ} {pages : Pages η} {heap : η}
  {bufferAddress offset length : ℕ}

theorem Pair.count (h : Pair fs₀ file₀ chain₀ fs file chain) :
    Fat32.count file₀ offset length = Fat32.count file offset length := by
  rw [Fat32.count, Fat32.count, h.size]

theorem Pair.bytesPerCluster (h : Pair fs₀ file₀ chain₀ fs file chain) :
    fs₀.bytesPerCluster = fs.bytesPerCluster := by
  rw [Fat32.bytesPerCluster, Fat32.bytesPerCluster, h.geometry.bytesPerSector,
    h.geometry.sectorsPerCluster]

theorem SameGeometry.wholeByte (h : SameGeometry fs₀ fs) (dataOffset n : ℕ) (mem : Bytes)
    (content : ℕ → UInt8) (i : ℕ) :
    fs₀.wholeByte pages bufferAddress dataOffset n mem heap content i =
      fs.wholeByte pages bufferAddress dataOffset n mem heap content i := by
  unfold Fat32.wholeByte residue skipped sectorCount
  rw [h.bytesPerSector, h.lbaSize]

/-- A call fits both volumes alike. -/
theorem Pair.call (h : Pair fs₀ file₀ chain₀ fs file chain)
    (hcall : Call fs file pages heap bufferAddress offset length) :
    Call fs₀ file₀ pages heap bufferAddress offset length where
  positive := hcall.positive
  sum := hcall.sum
  buffer := by
    rw [h.count]
    exact hcall.buffer
  provides := by
    rw [h.count, h.geometry.bytesPerSector, h.geometry.lbaSize]
    exact hcall.provides

/-- The contiguous file is always read in one turn. -/
theorem Pair.read_contiguous (h : Pair fs₀ file₀ chain₀ fs file chain)
    (hcall : Call fs file pages heap bufferAddress offset length) (hlt : offset < file.fileSize)
    (mem : Bytes) {blk₀ : VirtioBlk} (hblk₀ : blk₀.Completes) {fuel₀ : ℕ} (hfuel₀ : 0 < fuel₀) :
    (fs₀.read pages fuel₀ file₀ bufferAddress offset length ⟨mem, heap, blk₀⟩).1 =
        .ok (Fat32.count file offset length) ∧
      ∀ i, i < Fat32.count file offset length →
        (fs₀.read pages fuel₀ file₀ bufferAddress offset length ⟨mem, heap, blk₀⟩).2.mem
            (bufferAddress + i) =
          fs.wholeByte pages bufferAddress (offset % fs.bytesPerCluster)
            (Fat32.count file offset length) mem heap
            (fun i => blk₀.disk (fs₀.location chain₀ (offset + i))) i := by
  have hread := h.contiguous.read_whole h.consecutive (h.call hcall) (by rw [h.size]; exact hlt)
    mem hblk₀ hfuel₀
  rw [h.count, h.bytesPerCluster] at hread
  refine ⟨hread.1, ?_⟩
  intro i hi
  rw [hread.2 i hi, h.geometry.wholeByte]

theorem Pair.readsAlike_behind (h : Pair fs₀ file₀ chain₀ fs file chain)
    (hcall : Call fs file pages heap bufferAddress offset length) (hle : file.fileSize ≤ offset)
    (mem : Bytes) :
    ReadsAlike fs₀ file₀ chain₀ fs file chain pages mem heap bufferAddress offset length := by
  intro blk₀ blk _ _ _ fuel₀ fuel _ _
  have hpos := hcall.positive
  have hclamp : ∀ f : FileInfo, f.fileSize = file.fileSize → clamp f offset length = .ok none := by
    intro f hf
    rw [clamp, Checked.add_ok hcall.sum, Checked.ok_bind, hf, if_pos (by omega), if_pos hle]
    rfl
  refine ⟨0, ?_, ?_, fun i hi => absurd hi (Nat.not_lt_zero i)⟩
  · rw [read, hclamp file₀ h.size]
  · rw [read, hclamp file rfl]

theorem Pair.readsAlike_run (h : Pair fs₀ file₀ chain₀ fs file chain)
    (hcall : Call fs file pages heap bufferAddress offset length) (hlt : offset < file.fileSize)
    (hrun : offset % fs.bytesPerCluster + Fat32.count file offset length ≤
      runLength (chain.drop (offset / fs.bytesPerCluster)) * fs.bytesPerCluster) (mem : Bytes) :
    ReadsAlike fs₀ file₀ chain₀ fs file chain pages mem heap bufferAddress offset length := by
  intro blk₀ blk hblk₀ hblk hcontent fuel₀ fuel hfuel₀ hfuel
  have hpos := hcall.positive
  have hbuffer := hcall.buffer
  have hcount : Fat32.count file offset length = min length (file.fileSize - offset) := rfl
  obtain ⟨hok₀, hmem₀⟩ := h.read_contiguous hcall hlt mem hblk₀ (show 0 < fuel₀ by omega)
  obtain ⟨hok, hmem⟩ := h.scattered.read_run pages offset length fuel bufferAddress
    ⟨mem, heap, blk⟩ hcall.sum hlt (by omega) (by omega) (by omega) hblk hcall.provides hrun
  refine ⟨_, hok₀, hok, ?_⟩
  intro i hi
  rw [hmem₀ i hi, hmem i hi]
  simp only [wholeByte, hcontent (offset + i) (by omega)]

/-- The suffix of the chain that a call starts with. -/
theorem Pair.suffix (h : Pair fs₀ file₀ chain₀ fs file chain) (length : ℕ)
    (hlt : offset < file.fileSize) :
    offset % fs.bytesPerCluster + Fat32.count file offset length ≤
        (chain.drop (offset / fs.bytesPerCluster)).length * fs.bytesPerCluster ∧
      offset % fs.bytesPerCluster + Fat32.count file offset length < 2 ^ 32 := by
  have hcovers := h.scattered.covers
  have hsize := h.scattered.size
  have hcount : Fat32.count file offset length = min length (file.fileSize - offset) := rfl
  have hsplit := Nat.div_add_mod offset fs.bytesPerCluster
  have hle := Nat.mod_le offset fs.bytesPerCluster
  rw [Nat.mul_comm] at hsplit
  rw [List.length_drop, Nat.sub_mul]
  constructor <;> omega

/-- A request that does not fit the run it starts in begins in a chain that goes on behind
this run. -/
theorem Pair.leaves_run (h : Pair fs₀ file₀ chain₀ fs file chain) (hsum : offset + length < 2 ^ 64)
    (hlt : offset < file.fileSize)
    (hrun : ¬ offset % fs.bytesPerCluster + Fat32.count file offset length ≤
      runLength (chain.drop (offset / fs.bytesPerCluster)) * fs.bytesPerCluster) :
    ∃ c cs, chain.drop (offset / fs.bytesPerCluster) = c :: cs ∧ fs.Linked (c :: cs) ∧
      runLength (c :: cs) < (c :: cs).length ∧ cs.length + 1 ≤ chain.length ∧
      ∀ (pages : Pages η) fuel bufferAddress m,
        fs.read pages fuel file bufferAddress offset length m =
          fs.readFrom pages bufferAddress (Fat32.count file offset length) fuel c
            (offset % fs.bytesPerCluster) 0 m := by
  obtain ⟨c, cs, hdrop, hlinked, hread⟩ := h.scattered.read_eq (η := η) hsum hlt
  have hsuffix := (h.suffix length hlt).1
  rw [hdrop] at hrun hsuffix
  refine ⟨c, cs, hdrop, hlinked, ?_, ?_, hread⟩
  · apply (runLength_le (c :: cs)).lt_of_ne
    intro heq
    rw [heq] at hrun
    exact hrun hsuffix
  · have hlen := congrArg List.length hdrop
    rw [List.length_drop, List.length_cons] at hlen
    exact hlen ▸ Nat.sub_le _ _

theorem Pair.readsAlike_ends (h : Pair fs₀ file₀ chain₀ fs file chain)
    (hcall : Call fs file pages heap bufferAddress offset length) (hlt : offset < file.fileSize)
    (hrun : ¬ offset % fs.bytesPerCluster + Fat32.count file offset length ≤
      runLength (chain.drop (offset / fs.bytesPerCluster)) * fs.bytesPerCluster)
    (hfirst : offset % fs.bytesPerCluster ≤ fs.bytesPerSector)
    (hends : fs.Ends chain (offset + Fat32.count file offset length)) (mem : Bytes) :
    ReadsAlike fs₀ file₀ chain₀ fs file chain pages mem heap bufferAddress offset length := by
  intro blk₀ blk hblk₀ hblk hcontent fuel₀ fuel hfuel₀ hfuel
  have hfs := h.scattered.volume
  have hcount : Fat32.count file offset length = min length (file.fileSize - offset) := rfl
  have hpos : 0 < Fat32.count file offset length := by
    have hpositive := hcall.positive
    omega
  have hbuffer := hcall.buffer
  obtain ⟨hok₀, hmem₀⟩ := h.read_contiguous hcall hlt mem hblk₀ (show 0 < fuel₀ by omega)
  obtain ⟨c, cs, hdrop, hlinked, hmore, hcs, hread⟩ := h.leaves_run (η := η) hcall.sum hlt hrun
  have hsize := (h.suffix length hlt).2
  rw [← ends_drop hpos, hdrop] at hends
  rw [hdrop] at hrun
  have hoffset := Nat.mod_lt offset hfs.bytesPerCluster_pos
  have hskipped : fs.skipped (offset % fs.bytesPerCluster) = 0 := if_neg (by omega)
  have hresidue : fs.residue (offset % fs.bytesPerCluster) = offset % fs.bytesPerCluster := by
    rw [residue, hskipped]
    omega
  have hchain := h.scattered.length_lt
  obtain ⟨fuel, rfl⟩ : ∃ f, fuel = f + 1 := ⟨fuel - 1, by omega⟩
  -- The first run, and then the turns behind it.
  obtain ⟨d, ds, m', htail, hblk', hmem', hturn⟩ := readFrom_two hfs pages
    (show offset % fs.bytesPerCluster + Fat32.count file offset length < 2 ^ 32 from hsize) hpos
    hlinked hoffset (show bufferAddress < 2 ^ 64 by omega) fuel
    (show (⟨mem, heap, blk⟩ : Machine η).blk.Completes from hblk) hcall.provides
    (by rw [hresidue]; omega) hmore
  rw [hresidue] at hmem' hturn
  have hds := congrArg List.length htail
  rw [List.length_drop, List.length_cons, List.length_cons] at hds
  have hwhole := Nat.le_mul_of_pos_left fs.bytesPerCluster (runLength_pos c cs)
  have hrunPos := runLength_pos c cs
  obtain ⟨hok, hmem⟩ := readFrom_ends hfs pages (show Fat32.count file offset length < 2 ^ 32
    by omega) hpos hbuffer hends hoffset fuel d (runLength (c :: cs))
    (runLength (c :: cs) * fs.bytesPerCluster - offset % fs.bytesPerCluster) ds htail
    (hlinked.drop htail) (by omega) (by omega) hrunPos (by omega) (by omega) m' (hblk' ▸ hblk)
  rw [hread, hturn]
  refine ⟨_, hok₀, hok, ?_⟩
  intro i hi
  have hlocation := location_drop hfs chain offset i
  rw [hdrop] at hlocation
  rw [hmem₀ i hi, wholeByte_content hfs pages bufferAddress mem heap _ ?_ hi,
    hcontent (offset + i) (by omega), hlocation]
  · by_cases hin : i < runLength (c :: cs) * fs.bytesPerCluster - offset % fs.bytesPerCluster
    · rw [readFrom_keeps hfs pages (by omega) hpos fuel d _ ds (hlinked.drop htail) (by omega) m'
        (hblk' ▸ hblk) _ (by omega), hmem' i hin, Nat.add_assoc]
      have hposition := location_run hfs (show (c :: cs).drop 0 = c :: cs from rfl)
        (hlinked.clusters c List.mem_cons_self).low (show offset % fs.bytesPerCluster + i <
          runLength (c :: cs) * fs.bytesPerCluster by omega)
      rw [Nat.zero_mul, Nat.zero_add] at hposition
      rw [hposition]
    · rw [hmem i (by omega) hi, hblk']
  · obtain ⟨e, x, y, htotal, -⟩ := hends
    rw [hresidue, Nat.add_comm, ← htotal]
    have hround := sectors_le hfs (show 0 < (e + 1) * fs.bytesPerCluster by omega) le_rfl
    omega

/-- A disk of zeros with a one at a single address. -/
def spike (address : ℕ) : VirtioBlk := ⟨fun a => if a = address then 1 else 0, fun _ n => n⟩

theorem spike_completes (address : ℕ) : (spike address).Completes := fun _ _ => le_rfl

/-- A single one at a byte of the file is the same content in both layouts. -/
theorem Pair.spike_content (h : Pair fs₀ file₀ chain₀ fs file chain) {k : ℕ}
    (hk : k < file.fileSize) (i : ℕ) (hi : i < file.fileSize) :
    (spike (fs₀.location chain₀ k)).disk (fs₀.location chain₀ i) =
      (spike (fs.location chain k)).disk (fs.location chain i) := by
  dsimp only [spike]
  by_cases heq : i = k
  · rw [if_pos (by rw [heq]), if_pos (by rw [heq])]
  · have hne₀ : fs₀.location chain₀ i ≠ fs₀.location chain₀ k := fun hloc =>
      heq (h.contiguous.location_inj (h.size ▸ hi) (h.size ▸ hk) hloc)
    have hne : fs.location chain i ≠ fs.location chain k := fun hloc =>
      heq (h.scattered.location_inj hi hk hloc)
    rw [if_neg hne₀, if_neg hne]

/-- The byte behind a run is not the next byte of the file. -/
theorem location_behind (hfs : fs.WellFormed) {c : ℕ} {cs : List ℕ} (hlinked : fs.Linked (c :: cs))
    (hmore : runLength (c :: cs) < (c :: cs).length) :
    fs.clusterStart c + runLength (c :: cs) * fs.bytesPerCluster ≠
      fs.location (c :: cs) (runLength (c :: cs) * fs.bytesPerCluster) := by
  have hpos := hfs.bytesPerCluster_pos
  obtain ⟨y, hy⟩ : ∃ y, (c :: cs)[runLength (c :: cs)]? = some y :=
    ⟨_, List.getElem?_eq_getElem hmore⟩
  have hlow := (hlinked.clusters c List.mem_cons_self).low
  rw [location, Nat.mul_div_cancel _ hpos, Nat.mul_mod_left, List.getD_eq_getElem?_getD, hy,
    Option.getD_some, ← clusterStart_add hlow]
  intro heq
  exact getElem_break c cs y hy (clusterStart_inj (by omega)
    (hlinked.clusters y (List.mem_of_getElem? hy)).low hpos hpos heq).1.symm

theorem Pair.not_readsAlike (h : Pair fs₀ file₀ chain₀ fs file chain)
    (hcall : Call fs file pages heap bufferAddress offset length) (hlt : offset < file.fileSize)
    (hrun : ¬ offset % fs.bytesPerCluster + Fat32.count file offset length ≤
      runLength (chain.drop (offset / fs.bytesPerCluster)) * fs.bytesPerCluster)
    (hends : ¬ (offset % fs.bytesPerCluster ≤ fs.bytesPerSector ∧
      fs.Ends chain (offset + Fat32.count file offset length))) (mem : Bytes) :
    ¬ ReadsAlike fs₀ file₀ chain₀ fs file chain pages mem heap bufferAddress offset length := by
  intro halike
  have hfs := h.scattered.volume
  have hcount : Fat32.count file offset length = min length (file.fileSize - offset) := rfl
  have hpos : 0 < Fat32.count file offset length := by
    have hpositive := hcall.positive
    omega
  have hbuffer := hcall.buffer
  obtain ⟨c, cs, hdrop, hlinked, hmore, hcs, hread⟩ := h.leaves_run (η := η) hcall.sum hlt hrun
  have hsize := (h.suffix length hlt).2
  rw [← ends_drop hpos, hdrop] at hends
  rw [hdrop] at hrun
  have hoffset := Nat.mod_lt offset hfs.bytesPerCluster_pos
  have hwhole := Nat.le_mul_of_pos_left fs.bytesPerCluster (runLength_pos c cs)
  -- The first byte behind the run is marked.
  obtain ⟨k, hk⟩ := Nat.exists_eq_add_of_le (hoffset.le.trans hwhole)
  have hlocation := location_drop hfs chain offset k
  rw [hdrop, ← hk] at hlocation
  obtain ⟨hok₀, hmem₀⟩ := h.read_contiguous hcall hlt mem
    (spike_completes (fs₀.location chain₀ (offset + k))) (Nat.succ_pos chain₀.length)
  obtain ⟨n, hn₀, hn, hbytes⟩ := halike _ _ (spike_completes (fs₀.location chain₀ (offset + k)))
    (spike_completes (fs.location chain (offset + k))) (h.spike_content (by omega))
    (chain₀.length + 1) (chain.length + 1) (by omega) (by omega)
  rw [hok₀] at hn₀
  obtain rfl := Except.ok.inj hn₀
  have hbyte := hbytes k (by omega)
  rw [hmem₀ k (by omega)] at hbyte
  rw [hread] at hn hbyte
  have hblk : (⟨mem, heap, spike (fs.location chain (offset + k))⟩ : Machine η).blk.Completes :=
    spike_completes _
  have hchain := h.scattered.length_lt
  by_cases hfirst : offset % fs.bytesPerCluster ≤ fs.bytesPerSector
  · -- Nothing is skipped, and the reader does not return `Ok`.
    have hskipped : fs.skipped (offset % fs.bytesPerCluster) * fs.bytesPerSector +
        fs.residue (offset % fs.bytesPerCluster) = offset % fs.bytesPerCluster :=
      skipped_add_residue _
    have hzero : fs.skipped (offset % fs.bytesPerCluster) = 0 := if_neg (by omega)
    rw [hzero] at hskipped
    obtain ⟨d, ds, m', htail, hblk', -, hturn⟩ := readFrom_two hfs pages hsize hpos hlinked hoffset
      (show bufferAddress < 2 ^ 64 by omega) chain.length
      hblk hcall.provides (by omega) hmore
    have hds := congrArg List.length htail
    rw [List.length_drop, List.length_cons, List.length_cons] at hds
    rw [hturn] at hn
    exact readFrom_not_ends hfs pages (by omega) hpos (fun hend => hends ⟨hfirst, hend⟩) hoffset
      chain.length d (runLength (c :: cs)) _ ds htail (hlinked.drop htail) (by omega)
      (runLength_pos c cs) (by omega) (by omega) m'
      (by rw [hblk']; exact spike_completes _) _ hn
  · -- Sectors are skipped, and the marked byte is taken from behind the run.
    obtain ⟨-, hround⟩ := sectors_lt_of_skipped hfs hsize hpos (show fs.bytesPerSector <
      offset % fs.bytesPerCluster by omega)
    have hbehind := readFrom_behind hfs pages hsize hlinked hoffset hbuffer chain.length hblk
      hcall.provides (by omega) hmore (hcs.trans_lt hchain) hk (by omega)
    have hzero : (spike (fs.location chain (offset + k))).disk
        (fs.clusterStart c + offset % fs.bytesPerCluster + k) = 0 := by
      rw [Nat.add_assoc, ← hk, hlocation]
      exact if_neg (location_behind hfs hlinked hmore)
    rw [wholeByte_content hfs pages bufferAddress mem heap _ hround (by omega), hbehind, hzero] at hbyte
    simp [spike] at hbyte

/-- Whatever the content of the file, the two layouts are read alike exactly when
the request fits the scattered one. -/
theorem readsAlike_iff (fs₀ : Fat32) (file₀ : FileInfo) (chain₀ : List ℕ) (fs : Fat32)
    (file : FileInfo) (chain : List ℕ) (h : Pair fs₀ file₀ chain₀ fs file chain)
    (pages : Pages η) (mem : Bytes) (heap : η) (bufferAddress offset length : ℕ)
    (hcall : Call fs file pages heap bufferAddress offset length) :
    ReadsAlike fs₀ file₀ chain₀ fs file chain pages mem heap bufferAddress offset length ↔
      fs.LayoutFits file chain offset length := by
  by_cases hle : file.fileSize ≤ offset
  · exact iff_of_true (h.readsAlike_behind hcall hle mem) (.inl hle)
  · have hlt := not_le.mp hle
    constructor
    · intro halike
      by_contra hnot
      simp only [LayoutFits, not_or] at hnot
      exact h.not_readsAlike hcall hlt hnot.2.1 hnot.2.2 mem halike
    · intro hfits
      by_cases hrun : offset % fs.bytesPerCluster + Fat32.count file offset length ≤
          runLength (chain.drop (offset / fs.bytesPerCluster)) * fs.bytesPerCluster
      · exact h.readsAlike_run hcall hlt hrun mem
      · obtain ⟨hfirst, hends⟩ := (hfits.resolve_left hle).resolve_left hrun
        exact h.readsAlike_ends hcall hlt hrun hfirst hends mem

end Pair

/-- The page allocator of the hypervisor. -/
def linkedListPages : Pages LinkedList.LinkedListAllocator :=
  ⟨LinkedList.allocatePages, LinkedList.freePages⟩

def sampleHeap : LinkedList.LinkedListAllocator := ⟨[⟨0x50000000, 0x10000⟩]⟩

theorem samplePair :
    Pair (sampleVolume 6) ⟨5, 4096⟩ [5, 6] (sampleVolume 9) ⟨5, 4096⟩ [5, 9] where
  contiguous := sampleVolume_holds (by decide) (by decide)
  consecutive := rfl
  scattered := sampleVolume_holds (by decide) (by decide)
  geometry := ⟨rfl, rfl, rfl⟩
  size := rfl

theorem sampleHeap_provides : Provides linkedListPages sampleHeap 12000 := by
  intro count hcount
  have hle : count ≤ 2 := by omega
  interval_cases count
  · exact ⟨_, _, _, rfl, rfl⟩
  · exact ⟨_, _, _, rfl, rfl⟩
  · exact ⟨_, _, _, rfl, rfl⟩

/-- Within a cluster both files are read alike, also through a bounce buffer. -/
theorem readsAlike_within_cluster :
    ReadsAlike (sampleVolume 6) ⟨5, 4096⟩ [5, 6] (sampleVolume 9) ⟨5, 4096⟩ [5, 9] linkedListPages
      (fun _ => 0) sampleHeap 0x48000000 100 1000 := by
  apply (readsAlike_iff _ _ _ _ _ _ samplePair linkedListPages (fun _ => 0) sampleHeap 0x48000000 100
    1000 ⟨by decide, by decide, by decide, fun count hcount => sampleHeap_provides count
      (hcount.trans (by decide))⟩).mpr
  exact .inr (.inl (by decide))

/-- Of the scattered file both clusters cannot be read in one call: after the first
one the reader asks for the whole length again and comes to the end of the chain. -/
theorem scattered_file_unreadable :
    Pair (sampleVolume 6) ⟨5, 4096⟩ [5, 6] (sampleVolume 9) ⟨5, 4096⟩ [5, 9] ∧
    Call (sampleVolume 9) ⟨5, 4096⟩ linkedListPages sampleHeap 0x48000000 0 4096 ∧
    ¬ ReadsAlike (sampleVolume 6) ⟨5, 4096⟩ [5, 6] (sampleVolume 9) ⟨5, 4096⟩ [5, 9] linkedListPages
      (fun _ => 0) sampleHeap 0x48000000 0 4096 := by
  refine ⟨samplePair, ⟨by decide, by decide, by decide, fun count hcount =>
    sampleHeap_provides count (hcount.trans (by decide))⟩, ?_⟩
  intro halike
  obtain ⟨n, -, hok, -⟩ := halike (spike 0) (spike 0) (spike_completes 0) (spike_completes 0) (by
    intro i hi
    have hne : ∀ fs : Fat32, fs.baseLba * fs.lbaSize = 0x100000 → ∀ chain : List ℕ,
        fs.location chain i ≠ 0 := by
      intro fs hbase chain
      rw [location, clusterStart, hbase]
      omega
    exact (if_neg (hne _ rfl _)).trans (if_neg (hne _ rfl _)).symm) 3 3 (by decide) (by decide)
  have herr : ((sampleVolume 9).read linkedListPages 3 ⟨5, 4096⟩ 0x48000000 0 4096
      ⟨fun _ => 0, sampleHeap, spike 0⟩).1 = .error .err := rfl
  rw [herr] at hok
  cases hok

end Fat32

end Min1visor.Fat
