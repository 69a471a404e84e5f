import Min1visor.FatChain

/-!
# What the reader fetches

A turn of the reader brings one piece of the request to the caller's buffer,
through fresh pages where the piece starts within a sector. Later turns start at a
sector and leave what is already in the buffer.
-/
namespace Min1visor.Fat
open Fragments

theorem VirtioBlk.read_completes {blk : VirtioBlk} (hblk : blk.Completes) (mem : Bytes)
    (bufferAddress : ℕ) {blockAddress length : ℕ} (haddress : 512 ∣ blockAddress)
    (hlength : 512 ∣ length) :
    blk.read mem bufferAddress blockAddress length =
      (true, Bytes.copy mem blk.disk bufferAddress blockAddress (length % 2 ^ 32)) := by
  simp only [VirtioBlk.read, operationSync_completes hblk haddress hlength]

namespace Fat32

variable {fs : Fat32} {η : Type}

/-! ## Turns -/

/-- The number of pages for a bounce buffer of a size. -/
def pageCount (lbaSize size : ℕ) : ℕ := ((size &&& (2 ^ 64 - 1 - (lbaSize - 1))) + lbaSize) >>> 12 + 1

theorem bufferPages_ok (hfs : fs.Geometry) (hblock : 0 < fs.lbaSize ∧ fs.lbaSize < 2 ^ 32)
    {s : Span} (hsectors : s.sectors < 2 ^ 32) :
    fs.bufferPages s = .ok (pageCount fs.lbaSize (s.sectors * fs.bytesPerSector)) := by
  obtain ⟨hpos, hlt⟩ := hblock
  have hsize : s.sectors * fs.bytesPerSector < 2 ^ 32 * 2 ^ 16 :=
    Nat.mul_lt_mul'' hsectors hfs.sectorLt
  have hand : s.sectors * fs.bytesPerSector &&& (2 ^ 64 - 1 - (fs.lbaSize - 1)) ≤
      s.sectors * fs.bytesPerSector := Nat.and_le_left
  have hshift : ((s.sectors * fs.bytesPerSector &&& (2 ^ 64 - 1 - (fs.lbaSize - 1))) + fs.lbaSize)
      >>> 12 ≤ (s.sectors * fs.bytesPerSector &&& (2 ^ 64 - 1 - (fs.lbaSize - 1))) + fs.lbaSize :=
    Nat.shiftRight_le _ _
  simp only [bufferPages, Checked.sub_ok (show 1 ≤ fs.lbaSize from hpos), Checked.ok_bind,
    Checked.mul_ok (hsize.trans (by norm_num : 2 ^ 32 * 2 ^ 16 < 2 ^ 64)),
    Checked.add_ok (show (s.sectors * fs.bytesPerSector &&& (2 ^ 64 - 1 - (fs.lbaSize - 1))) +
      fs.lbaSize < 2 ^ 64 by omega)]
  exact Checked.add_ok (by omega)

/-- The page allocator hands out any number of pages up to a size, and takes them
back. -/
def Provides (pages : Pages η) (heap : η) (size : ℕ) : Prop :=
  ∀ count, count * 4096 ≤ size → ∃ p heap₁ heap₂,
    pages.allocatePages heap count 0 = .ok (some p, heap₁) ∧
    pages.freePages heap₁ p count = .ok heap₂

/-- The address of the pages that the allocator hands out. -/
def page (pages : Pages η) (heap : η) (count : ℕ) : ℕ :=
  match pages.allocatePages heap count 0 with
  | .ok (some p, _) => p
  | _ => 0

/-- The byte of the buffer at index `i` after the turn for a piece. Where the
request is longer than the transfer, the old content remains. -/
def fetched (pages : Pages η) (lbaSize bufferAddress residue : ℕ) (p : Piece) (m : Machine η)
    (i : ℕ) : UInt8 :=
  if residue + i < p.size % 2 ^ 32 then m.blk.disk (p.address + residue + i)
  else if residue = 0 then m.mem (bufferAddress + i)
  else m.mem (page pages m.heap (pageCount lbaSize p.size) + residue + i)

theorem pageCount_le (lbaSize size : ℕ) : pageCount lbaSize size * 4096 ≤ size + lbaSize + 4096 := by
  have hand : size &&& (2 ^ 64 - 1 - (lbaSize - 1)) ≤ size := Nat.and_le_left
  unfold pageCount
  rw [Nat.shiftRight_eq_div_pow]
  omega

/-- What the reader does after a turn. -/
def resume (fs : Fat32) (pages : Pages η) (bufferAddress length fuel : ℕ) (rest : List ℕ)
    (bufferPointer : ℕ) (m : Machine η) : Except Stop ℕ × Machine η :=
  if length = bufferPointer then (.ok bufferPointer, m)
  else
    match rest with
    | [] => (.error .err, m)
    | d :: _ => fs.readFrom pages bufferAddress length fuel d 0 bufferPointer m

/-- A turn that starts at a sector. -/
theorem readFrom_direct (hfs : fs.WellFormed) (pages : Pages η) {bufferAddress length c dataOffset
    bufferPointer : ℕ} {cs : List ℕ} (hlength : length < 2 ^ 32) (hpos : 0 < length)
    (hlinked : fs.Linked (c :: cs)) (hoffset : dataOffset < fs.bytesPerCluster)
    (hresidue : fs.residue dataOffset = 0) (hbound : bufferPointer + 2 ^ 32 < 2 ^ 64) (fuel : ℕ)
    {m : Machine η} (hblk : m.blk.Completes) :
    fs.readFrom pages bufferAddress length (fuel + 1) c dataOffset bufferPointer m =
      match fs.piece 0 length c cs dataOffset with
      | none => (.error .err, m)
      | some p =>
        if 2 ^ 64 ≤ bufferAddress + bufferPointer then (.error (.panic .overflow), m)
        else
          fs.resume pages bufferAddress length fuel ((c :: cs).drop p.clusters)
            (bufferPointer + p.bytes) ⟨Bytes.copy m.mem m.blk.disk (bufferAddress + bufferPointer)
              p.address (p.size % 2 ^ 32), m.heap, m.blk⟩ := by
  have hspan := span_piece hfs (Nat.zero_le _) hlength hpos hlinked hoffset (.inl rfl)
  rw [readFrom, readSpan]
  cases hpiece : fs.piece 0 length c cs dataOffset with
  | none =>
    rw [hpiece] at hspan
    rw [hspan]
    rfl
  | some p =>
    rw [hpiece] at hspan
    obtain ⟨s, hok, hs⟩ := hspan
    obtain ⟨haddress, hsize⟩ := piece_aligned hfs hpiece
    have hbytes := piece_bytes hpiece
    simp only [hok, Checked.ok_bind, bufferPages_ok hfs.geometry hfs.block hs.sectors, lift_ok,
      Checked.pure_eq_ok, hs.dataOffsetBackup, hresidue, ne_eq, not_true_eq_false, if_false, readDirect, hs.range]
    by_cases hover : 2 ^ 64 ≤ bufferAddress + bufferPointer
    · rw [if_pos hover, Checked.add, if_neg (by omega)]
      rfl
    · simp only [if_neg hover, Checked.add_ok (not_le.mp hover), Checked.ok_bind,
        VirtioBlk.read_completes hblk m.mem _ haddress hsize,
        turn_piece hpos hlinked.chain hpiece hs (show bufferPointer + p.bytes < 2 ^ 64 by omega),
        resume]
      split_ifs
      · rfl
      · cases (c :: cs).drop p.clusters with
        | nil => rfl
        | cons d ds => rfl

/-- The first turn, through a bounce buffer where it starts within a sector. -/
theorem readFrom_first (hfs : fs.WellFormed) (pages : Pages η) {bufferAddress length c dataOffset : ℕ}
    {cs : List ℕ} (hlength : length < 2 ^ 32) (hpos : 0 < length) (hlinked : fs.Linked (c :: cs))
    (hoffset : dataOffset < fs.bytesPerCluster) (hbuffer : bufferAddress < 2 ^ 64) (fuel : ℕ)
    {m : Machine η} (hblk : m.blk.Completes)
    (hprovides : Provides pages m.heap (length + 2 * fs.bytesPerSector + fs.lbaSize + 4096))
    {p : Piece} (hpiece : fs.piece 0 length c cs dataOffset = some p) :
    ∃ m', m'.blk = m.blk ∧
      (∀ i, i < p.bytes → m'.mem (bufferAddress + i) =
        fetched pages fs.lbaSize bufferAddress (fs.residue dataOffset) p m i) ∧
      fs.readFrom pages bufferAddress length (fuel + 1) c dataOffset 0 m =
        fs.resume pages bufferAddress length fuel ((c :: cs).drop p.clusters) p.bytes m' := by
  by_cases hresidue : fs.residue dataOffset = 0
  · refine ⟨⟨Bytes.copy m.mem m.blk.disk bufferAddress p.address (p.size % 2 ^ 32), m.heap, m.blk⟩,
      rfl, ?_, ?_⟩
    · intro i _
      rw [fetched, hresidue, if_pos rfl, Nat.zero_add, Nat.add_zero]
      by_cases hi : i < p.size % 2 ^ 32
      · rw [if_pos hi]
        exact Bytes.copy_inside _ _ _ _ hi
      · rw [if_neg hi]
        exact Bytes.copy_outside _ _ _ (by omega)
    · rw [readFrom_direct hfs pages hlength hpos hlinked hoffset hresidue (by norm_num) fuel hblk,
        hpiece]
      simp only [Nat.zero_add, Nat.add_zero, if_neg (not_le.mpr hbuffer)]
  · have hspan := span_piece hfs (Nat.zero_le _) hlength hpos hlinked hoffset (.inl rfl)
    rw [hpiece] at hspan
    obtain ⟨s, hok, hs⟩ := hspan
    obtain ⟨haddress, hsize⟩ := piece_aligned hfs hpiece
    have hbytes := piece_bytes hpiece
    have hle := piece_size_le hfs hpos hpiece
    obtain ⟨address, heap₁, heap₂, halloc, hfree⟩ := hprovides (pageCount fs.lbaSize p.size)
      ((pageCount_le _ _).trans (by omega))
    have hpage : page pages m.heap (pageCount fs.lbaSize p.size) = address := by
      rw [page, halloc]
    rw [hs.size] at halloc hfree
    refine ⟨⟨Bytes.copy (Bytes.copy m.mem m.blk.disk address p.address (p.size % 2 ^ 32))
      (Bytes.copy m.mem m.blk.disk address p.address (p.size % 2 ^ 32)) bufferAddress
      (address + fs.residue dataOffset) p.bytes, heap₂, m.blk⟩, rfl, ?_, ?_⟩
    · intro i hi
      dsimp only
      rw [Bytes.copy_inside _ _ _ _ hi, fetched, if_neg hresidue, hpage]
      by_cases hin : fs.residue dataOffset + i < p.size % 2 ^ 32
      · rw [if_pos hin, Nat.add_assoc, Bytes.copy_inside _ _ _ _ hin, Nat.add_assoc]
      · rw [if_neg hin]
        exact Bytes.copy_outside _ _ _ (by omega)
    · simp only [readFrom, readSpan, hok, Checked.ok_bind,
        bufferPages_ok hfs.geometry hfs.block hs.sectors, lift_ok, Checked.pure_eq_ok, hs.dataOffsetBackup, hresidue, ne_eq, not_false_eq_true, if_true,
        readBounced, halloc, hs.range, VirtioBlk.read_completes hblk m.mem _ haddress hsize,
        Bool.true_eq_false, if_false, not_true_eq_false, hfree, hs.bytes,
        turn_piece hpos hlinked.chain hpiece hs (show 0 + p.bytes < 2 ^ 64 by omega), resume,
        Nat.zero_add]
      split_ifs
      · rfl
      · cases (c :: cs).drop p.clusters with
        | nil => rfl
        | cons d ds => rfl

/-! ## Later turns -/

/-- Later turns leave what is in the buffer already. -/
theorem readFrom_keeps (hfs : fs.WellFormed) (pages : Pages η) {bufferAddress length : ℕ}
    (hlength : length < 2 ^ 32) (hpos : 0 < length) (fuel c bufferPointer : ℕ) (cs : List ℕ)
    (hlinked : fs.Linked (c :: cs)) (hbound : bufferPointer + (cs.length + 1) * 2 ^ 32 < 2 ^ 64)
    (m : Machine η) (hblk : m.blk.Completes) (a : ℕ) (ha : a < bufferAddress + bufferPointer) :
    (fs.readFrom pages bufferAddress length fuel c 0 bufferPointer m).2.mem a = m.mem a := by
  induction fuel generalizing c bufferPointer cs m with
  | zero => rfl
  | succ fuel ih =>
    rw [readFrom_direct hfs pages hlength hpos hlinked hfs.bytesPerCluster_pos (by simp [residue])
      (by omega) fuel hblk]
    cases hpiece : fs.piece 0 length c cs 0 with
    | none => rfl
    | some p =>
      obtain ⟨hk, -⟩ := piece_clusters hpos hpiece
      have hbytes := piece_bytes hpiece
      have hcopy : Bytes.copy m.mem m.blk.disk (bufferAddress + bufferPointer) p.address
          (p.size % 2 ^ 32) a = m.mem a := Bytes.copy_outside _ _ _ (by omega)
      dsimp only [resume]
      split_ifs
      · rfl
      · exact hcopy
      · cases hdrop : (c :: cs).drop p.clusters with
        | nil => exact hcopy
        | cons d ds =>
          have hlen := congrArg List.length hdrop
          rw [List.length_drop, List.length_cons, List.length_cons] at hlen
          refine Eq.trans (ih d (bufferPointer + p.bytes) ds (hlinked.drop hdrop) (by omega) _ ?_
            (by omega)) hcopy
          exact hblk

/-- Once the pointer is past the length, the reader does not return `Ok` any more. -/
theorem readFrom_past (hfs : fs.WellFormed) (pages : Pages η) {bufferAddress length : ℕ}
    (hlength : length < 2 ^ 32) (hpos : 0 < length) (fuel c bufferPointer : ℕ) (cs : List ℕ)
    (hlinked : fs.Linked (c :: cs)) (hbound : bufferPointer + (cs.length + 1) * 2 ^ 32 < 2 ^ 64)
    (m : Machine η) (hblk : m.blk.Completes) (hpast : length < bufferPointer) (n : ℕ) :
    (fs.readFrom pages bufferAddress length fuel c 0 bufferPointer m).1 ≠ .ok n := by
  induction fuel generalizing c bufferPointer cs m with
  | zero => simp [readFrom]
  | succ fuel ih =>
    rw [readFrom_direct hfs pages hlength hpos hlinked hfs.bytesPerCluster_pos (by simp [residue])
      (by omega) fuel hblk]
    cases hpiece : fs.piece 0 length c cs 0 with
    | none => simp
    | some p =>
      obtain ⟨hk, -⟩ := piece_clusters hpos hpiece
      have hbytes := piece_bytes hpiece
      dsimp only [resume]
      rw [if_neg (show ¬ length = bufferPointer + p.bytes by omega)]
      split_ifs
      · simp
      · cases hdrop : (c :: cs).drop p.clusters with
        | nil => simp
        | cons d ds =>
          have hlen := congrArg List.length hdrop
          rw [List.length_drop, List.length_cons, List.length_cons] at hlen
          exact ih d (bufferPointer + p.bytes) ds (hlinked.drop hdrop) (by omega) _ hblk (by omega)

/-- A run of the chain ends after `total` bytes, and the chain goes on. -/
def Ends (fs : Fat32) (cs : List ℕ) (total : ℕ) : Prop :=
  ∃ e x y, (e + 1) * fs.bytesPerCluster = total ∧ cs[e]? = some x ∧ cs[e + 1]? = some y ∧ y ≠ x + 1

section Run
variable {base : List ℕ} {taken c total : ℕ} {cs : List ℕ}

/-- No run ends within a run. -/
theorem not_ends_within (hdrop : base.drop taken = c :: cs) (hlo : taken * fs.bytesPerCluster < total)
    (hhi : total < (taken + runLength (c :: cs)) * fs.bytesPerCluster) : ¬ fs.Ends base total := by
  rintro ⟨e, x, y, rfl, hx, hy, hne⟩
  have hlow := Nat.lt_of_mul_lt_mul_right hlo
  have hhigh := Nat.lt_of_mul_lt_mul_right hhi
  obtain ⟨j, rfl⟩ := Nat.exists_eq_add_of_le (show taken ≤ e by omega)
  have hxj := getElem_run c cs j (by omega)
  have hyj := getElem_run c cs (j + 1) (by omega)
  rw [← hdrop, List.getElem?_drop] at hxj hyj
  rw [hxj] at hx
  rw [← Nat.add_assoc, hy] at hyj
  obtain rfl := Option.some.inj hx
  obtain rfl := Option.some.inj hyj
  exact hne rfl

/-- Nothing ends at or behind the end of the chain. -/
theorem not_ends_last (hdrop : base.drop taken = c :: cs)
    (hrun : runLength (c :: cs) = (c :: cs).length) (hlo : taken * fs.bytesPerCluster < total) :
    ¬ fs.Ends base total := by
  intro hends
  obtain ⟨e, x, y, htotal, -, hy, -⟩ := id hends
  have hlen := congrArg List.length hdrop
  rw [List.length_drop] at hlen
  obtain ⟨hlt, -⟩ := List.getElem?_eq_some_iff.mp hy
  refine not_ends_within hdrop hlo ?_ hends
  rw [← htotal, hrun]
  apply Nat.mul_lt_mul_of_pos_right (show e + 1 < taken + (c :: cs).length by omega)
  by_contra hzero
  rw [Nat.eq_zero_of_not_pos hzero] at hlo htotal
  omega

/-- A run that is not the last ends where it ends. -/
theorem ends_run (hdrop : base.drop taken = c :: cs)
    (hrun : runLength (c :: cs) ≠ (c :: cs).length)
    (htotal : (taken + runLength (c :: cs)) * fs.bytesPerCluster = total) : fs.Ends base total := by
  have hpos := runLength_pos c cs
  have hle := runLength_le (c :: cs)
  have hlt : runLength (c :: cs) < (c :: cs).length := by omega
  have hx := getElem_run c cs (runLength (c :: cs) - 1) (by omega)
  obtain ⟨y, hy⟩ : ∃ y, (c :: cs)[runLength (c :: cs)]? = some y :=
    ⟨_, List.getElem?_eq_getElem hlt⟩
  have hbreak := getElem_break c cs _ hy
  have hget : ∀ j, base[taken + j]? = (c :: cs)[j]? := by
    intro j
    rw [← List.getElem?_drop, hdrop]
  refine ⟨taken + (runLength (c :: cs) - 1), _, y, ?_, (hget _).trans hx, ?_, ?_⟩
  · rw [Nat.add_assoc, Nat.sub_add_cancel hpos, htotal]
  · rw [Nat.add_assoc, Nat.sub_add_cancel hpos]
    exact (hget _).trans hy
  · rw [Nat.add_assoc, Nat.sub_add_cancel hpos]
    exact hbreak

/-- The bytes of a run of the chain. -/
theorem location_run (hfs : fs.WellFormed) (hdrop : base.drop taken = c :: cs) (hc : 2 ≤ c) {k : ℕ}
    (hk : k < runLength (c :: cs) * fs.bytesPerCluster) :
    fs.location base (taken * fs.bytesPerCluster + k) = fs.clusterStart c + k := by
  have hpos := hfs.bytesPerCluster_pos
  have hj : k / fs.bytesPerCluster < runLength (c :: cs) := (Nat.div_lt_iff_lt_mul hpos).mpr hk
  have hx := getElem_run c cs _ hj
  rw [← hdrop, List.getElem?_drop] at hx
  have hsplit := Nat.div_add_mod k fs.bytesPerCluster
  rw [Nat.mul_comm] at hsplit
  rw [location, Nat.mul_comm, Nat.mul_add_div hpos, Nat.mul_add_mod, List.getD_eq_getElem?_getD, hx,
    Option.getD_some, clusterStart_add hc]
  omega

end Run

/-- The piece of a turn of the reader that starts at a sector. -/
theorem piece_read {length c : ℕ} (cs : List ℕ) :
    fs.piece 0 length c cs 0 =
      if length ≤ runLength (c :: cs) * fs.bytesPerCluster then
        some ⟨fs.clusterStart c, fs.sectorCount length * fs.bytesPerSector, length,
          (length - 1) / fs.bytesPerCluster + 1⟩
      else if runLength (c :: cs) = (c :: cs).length then none
      else some ⟨fs.clusterStart c, runLength (c :: cs) * fs.bytesPerCluster,
        runLength (c :: cs) * fs.bytesPerCluster, runLength (c :: cs)⟩ := by
  simp [piece, residue, skipped]

/-- Later turns bring the rest of a request that ends where a run ends. -/
theorem readFrom_ends (hfs : fs.WellFormed) (pages : Pages η) {bufferAddress length start : ℕ}
    (hlength : length < 2 ^ 32) (hpos : 0 < length) (hbuffer : bufferAddress + length ≤ 2 ^ 64)
    {base : List ℕ} (hends : fs.Ends base (start + length)) (hstart : start < fs.bytesPerCluster)
    (fuel c taken bufferPointer : ℕ) (cs : List ℕ) (hdrop : base.drop taken = c :: cs)
    (hlinked : fs.Linked (c :: cs)) (hfuel : cs.length < fuel)
    (hpointer : start + bufferPointer = taken * fs.bytesPerCluster) (htaken : 0 < taken)
    (hlt : bufferPointer < length) (hbound : bufferPointer + (cs.length + 1) * 2 ^ 32 < 2 ^ 64)
    (m : Machine η) (hblk : m.blk.Completes) :
    (fs.readFrom pages bufferAddress length fuel c 0 bufferPointer m).1 = .ok length ∧
      ∀ i, bufferPointer ≤ i → i < length →
        (fs.readFrom pages bufferAddress length fuel c 0 bufferPointer m).2.mem (bufferAddress + i) =
          m.blk.disk (fs.location base (start + i)) := by
  induction fuel generalizing c taken bufferPointer cs m with
  | zero => omega
  | succ fuel ih =>
    have hwhole := Nat.le_mul_of_pos_left fs.bytesPerCluster htaken
    have hrun := runLength_pos c cs
    have hmul := Nat.add_mul taken (runLength (c :: cs)) fs.bytesPerCluster
    -- The request does not end within the run.
    have hreach : (taken + runLength (c :: cs)) * fs.bytesPerCluster ≤ start + length := by
      by_contra hin
      exact not_ends_within hdrop (by omega) (by omega) hends
    have hlast : runLength (c :: cs) ≠ (c :: cs).length := by
      intro hrun
      exact not_ends_last hdrop hrun (by omega) hends
    rw [readFrom_direct hfs pages hlength hpos hlinked hfs.bytesPerCluster_pos (by simp [residue])
      (by omega) fuel hblk, piece_read, if_neg (by omega), if_neg hlast]
    dsimp only [resume]
    rw [if_neg (by omega), Nat.mod_eq_of_lt (show runLength (c :: cs) * fs.bytesPerCluster < 2 ^ 32
      by omega)]
    -- What this turn brings.
    have hcopy : ∀ i, bufferPointer ≤ i →
        i < bufferPointer + runLength (c :: cs) * fs.bytesPerCluster →
        Bytes.copy m.mem m.blk.disk (bufferAddress + bufferPointer) (fs.clusterStart c)
          (runLength (c :: cs) * fs.bytesPerCluster) (bufferAddress + i) =
            m.blk.disk (fs.location base (start + i)) := by
      intro i hlo hhi
      obtain ⟨k, rfl⟩ := Nat.exists_eq_add_of_le hlo
      have hk : k < runLength (c :: cs) * fs.bytesPerCluster := by omega
      rw [← Nat.add_assoc, Bytes.copy_inside _ _ _ _ hk, ← Nat.add_assoc, hpointer,
        location_run hfs hdrop (hlinked.clusters c List.mem_cons_self).low hk]
    by_cases hdone : length = bufferPointer + runLength (c :: cs) * fs.bytesPerCluster
    · rw [if_pos hdone]
      exact ⟨by rw [← hdone], fun i hlo hhi => hcopy i hlo (by omega)⟩
    · rw [if_neg hdone]
      cases hnext : (c :: cs).drop (runLength (c :: cs)) with
      | nil =>
        have hlen := congrArg List.length hnext
        have hle := runLength_le (c :: cs)
        rw [List.length_drop, List.length_nil] at hlen
        omega
      | cons d ds =>
        have hlen := congrArg List.length hnext
        rw [List.length_drop, List.length_cons, List.length_cons] at hlen
        have htail : base.drop (taken + runLength (c :: cs)) = d :: ds := by
          rw [← List.drop_drop, hdrop, hnext]
        obtain ⟨hok, hmem⟩ := ih d (taken + runLength (c :: cs))
          (bufferPointer + runLength (c :: cs) * fs.bytesPerCluster) ds htail (hlinked.drop hnext)
          (by omega) (by omega) (by omega) (by omega) (by omega) ⟨Bytes.copy m.mem m.blk.disk
            (bufferAddress + bufferPointer) (fs.clusterStart c)
            (runLength (c :: cs) * fs.bytesPerCluster), m.heap, m.blk⟩ hblk
        refine ⟨hok, ?_⟩
        intro i hlo hhi
        by_cases hi : i < bufferPointer + runLength (c :: cs) * fs.bytesPerCluster
        · refine Eq.trans (readFrom_keeps hfs pages hlength hpos fuel d _ ds (hlinked.drop hnext)
            (by omega) _ ?_ _ (by omega)) (hcopy i hlo hi)
          exact hblk
        · exact hmem i (by omega) hhi

/-- Where the request ends elsewhere, the reader does not return `Ok`. -/
theorem readFrom_not_ends (hfs : fs.WellFormed) (pages : Pages η) {bufferAddress length start : ℕ}
    (hlength : length < 2 ^ 32) (hpos : 0 < length) {base : List ℕ}
    (hends : ¬ fs.Ends base (start + length)) (hstart : start < fs.bytesPerCluster)
    (fuel c taken bufferPointer : ℕ) (cs : List ℕ) (hdrop : base.drop taken = c :: cs)
    (hlinked : fs.Linked (c :: cs))
    (hpointer : start + bufferPointer = taken * fs.bytesPerCluster) (htaken : 0 < taken)
    (hlt : bufferPointer < length) (hbound : bufferPointer + (cs.length + 1) * 2 ^ 32 < 2 ^ 64)
    (m : Machine η) (hblk : m.blk.Completes) (n : ℕ) :
    (fs.readFrom pages bufferAddress length fuel c 0 bufferPointer m).1 ≠ .ok n := by
  induction fuel generalizing c taken bufferPointer cs m with
  | zero => simp [readFrom]
  | succ fuel ih =>
    have hwhole := Nat.le_mul_of_pos_left fs.bytesPerCluster htaken
    rw [readFrom_direct hfs pages hlength hpos hlinked hfs.bytesPerCluster_pos (by simp [residue])
      (by omega) fuel hblk]
    cases hpiece : fs.piece 0 length c cs 0 with
    | none => simp
    | some p =>
      obtain ⟨hk, hrun⟩ := piece_clusters hpos hpiece
      have hbytes := piece_bytes hpiece
      -- Either the pointer moves past the length or the whole run is read.
      have hnext : length < bufferPointer + p.bytes ∨ (start + (bufferPointer + p.bytes) =
          (taken + p.clusters) * fs.bytesPerCluster ∧ bufferPointer + p.bytes ≠ length) := by
        rw [piece_read] at hpiece
        split_ifs at hpiece with hin hlast
        · obtain rfl := Option.some.inj hpiece
          exact .inl (by dsimp only; omega)
        · obtain rfl := Option.some.inj hpiece
          have hmul := Nat.add_mul taken (runLength (c :: cs)) fs.bytesPerCluster
          refine .inr ⟨by dsimp only; omega, ?_⟩
          intro hdone
          exact hends (ends_run hdrop hlast (by dsimp only at hdone; omega))
      dsimp only [resume]
      split_ifs with hover hdone
      · simp
      · omega
      · cases hdrop' : (c :: cs).drop p.clusters with
        | nil => simp
        | cons d ds =>
          have hlen := congrArg List.length hdrop'
          rw [List.length_drop, List.length_cons, List.length_cons] at hlen
          have htail : base.drop (taken + p.clusters) = d :: ds := by
            rw [← List.drop_drop, hdrop, hdrop']
          by_cases hpast : length < bufferPointer + p.bytes
          · apply readFrom_past hfs pages hlength hpos fuel d _ ds (hlinked.drop hdrop') (by omega)
            · exact hblk
            · exact hpast
          · exact ih d (taken + p.clusters) (bufferPointer + p.bytes) ds htail (hlinked.drop hdrop')
              (by omega) (by omega) (by omega) (by omega) _ hblk

end Fat32

end Min1visor.Fat
