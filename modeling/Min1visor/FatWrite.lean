import Min1visor.FatChain
import Min1visor.Library.Extents

/-!
# What the writer changes

The extents of the disk that a call writes to follow from the runs of the file's
chain. A call changes no byte outside them, and with a device that completes
every request it changes each byte inside.
-/
namespace Min1visor.Fat
open Fragments

namespace Fat32

variable {fs : Fat32}

/-! ## Turns -/

/-- One turn of the writer from a cluster of the chain. -/
theorem writeFrom_turn (hfs : fs.WellFormed) (mem : Bytes) (bufferAddress : ℕ)
    {length c dataOffset bufferPointer : ℕ} {cs : List ℕ} (hlength : length < 2 ^ 32)
    (hpos : 0 < length) (hlinked : fs.Linked (c :: cs))
    (hoffset : dataOffset < fs.bytesPerCluster) (hresidue : fs.residue dataOffset = 0)
    (hbound : bufferPointer + 2 ^ 32 < 2 ^ 64) (fuel : ℕ) (blk : VirtioBlk) :
    fs.writeFrom mem bufferAddress length (fuel + 1) c dataOffset bufferPointer blk =
      match fs.piece fs.bytesPerSector length c cs dataOffset with
      | none => (.error .err, blk)
      | some p =>
        if 2 ^ 64 ≤ bufferAddress + bufferPointer then (.error (.panic .overflow), blk)
        else
          match blk.write mem (bufferAddress + bufferPointer) p.address p.size with
          | (false, blk) => (.error .err, blk)
          | (true, blk) =>
            if length = bufferPointer + p.bytes then (.ok (bufferPointer + p.bytes), blk)
            else
              match (c :: cs).drop p.clusters with
              | [] => (.error .err, blk)
              | d :: _ =>
                fs.writeFrom mem bufferAddress length fuel d 0 (bufferPointer + p.bytes) blk := by
  have hspan := span_piece hfs hfs.sector_le hlength hpos hlinked hoffset (.inr hresidue)
  rw [writeFrom, writeRequest, writeSpan]
  cases hpiece : fs.piece fs.bytesPerSector length c cs dataOffset with
  | none =>
    rw [hpiece] at hspan
    rw [hspan]
    rfl
  | some p =>
    rw [hpiece] at hspan
    obtain ⟨s, hok, hs⟩ := hspan
    have hbytes := piece_bytes hpiece
    rw [hok]
    simp only [Checked.ok_bind, hs.dataOffsetBackup, hresidue, ne_eq, not_true_eq_false, if_false,
      hs.range, lift_ok, Checked.pure_eq_ok]
    by_cases hover : 2 ^ 64 ≤ bufferAddress + bufferPointer
    · rw [if_pos hover, Checked.add, if_neg (by omega)]
      rfl
    · rw [if_neg hover, Checked.add_ok (not_le.mp hover)]
      simp only [lift_ok, Checked.ok_bind,
        turn_piece hpos hlinked.chain hpiece hs (show bufferPointer + p.bytes < 2 ^ 64 by omega)]
      cases hwrite : blk.write mem (bufferAddress + bufferPointer) p.address p.size with
      | mk success blk' =>
        cases success with
        | false => rfl
        | true =>
          dsimp only
          split_ifs
          · rfl
          · cases (c :: cs).drop p.clusters with
            | nil => rfl
            | cons d ds => rfl

/-- The extents that the turns from a cluster of the chain on write to. -/
def writes (fs : Fat32) (length : ℕ) : List ℕ → ℕ → ℕ → List Extent
  | [], _, _ => []
  | c :: cs, dataOffset, bufferPointer =>
    match fs.piece fs.bytesPerSector length c cs dataOffset with
    | none => []
    | some p =>
      ⟨p.address, p.size % 2 ^ 32⟩ ::
        if length = bufferPointer + p.bytes then []
        else fs.writes length (cs.drop (p.clusters - 1)) 0 (bufferPointer + p.bytes)
  termination_by cs => cs.length
  decreasing_by
    simp only [List.length_drop, List.length_cons]
    omega

/-- A byte that one of the extents contains. -/
def Touched (extents : List Extent) (a : ℕ) : Prop :=
  ∃ e ∈ extents, e.start ≤ a ∧ a < e.stop

theorem touched_cons {e : Extent} {extents : List Extent} {a : ℕ} :
    Touched (e :: extents) a ↔ (e.start ≤ a ∧ a < e.stop) ∨ Touched extents a := by
  simp [Touched]

theorem drop_clusters {c : ℕ} {cs : List ℕ} {k : ℕ} (hk : 0 < k) :
    (c :: cs).drop k = cs.drop (k - 1) := by
  obtain ⟨k, rfl⟩ : ∃ j, k = j + 1 := ⟨k - 1, by omega⟩
  rfl

/-- The writer returns after at most one turn for each cluster, and changes no
byte outside its extents. -/
theorem writeFrom_frame (hfs : fs.WellFormed) (mem : Bytes) (bufferAddress : ℕ) {length : ℕ}
    (hlength : length < 2 ^ 32) (hpos : 0 < length) (fuel c dataOffset bufferPointer : ℕ)
    (cs : List ℕ) (hlinked : fs.Linked (c :: cs)) (hoffset : dataOffset < fs.bytesPerCluster)
    (hresidue : fs.residue dataOffset = 0) (hfuel : cs.length < fuel)
    (hbound : bufferPointer + (cs.length + 1) * 2 ^ 32 < 2 ^ 64) (blk : VirtioBlk) :
    (fs.writeFrom mem bufferAddress length fuel c dataOffset bufferPointer blk).1 ≠
        .error .running ∧
      ∀ a, ¬ Touched (fs.writes length (c :: cs) dataOffset bufferPointer) a →
        (fs.writeFrom mem bufferAddress length fuel c dataOffset bufferPointer blk).2.disk a =
          blk.disk a := by
  induction fuel generalizing c dataOffset bufferPointer cs blk with
  | zero => omega
  | succ fuel ih =>
    rw [writeFrom_turn hfs mem bufferAddress hlength hpos hlinked hoffset hresidue (by omega),
      writes]
    cases hpiece : fs.piece fs.bytesPerSector length c cs dataOffset with
    | none => simp
    | some p =>
      obtain ⟨hk, -⟩ := piece_clusters hpos hpiece
      have hbytes := piece_bytes hpiece
      dsimp only
      rw [drop_clusters hk]
      by_cases hover : 2 ^ 64 ≤ bufferAddress + bufferPointer
      · rw [if_pos hover]
        simp
      rw [if_neg hover]
      have hframe : ∀ a, ¬ (p.address ≤ a ∧ a < p.address + p.size % 2 ^ 32) →
          (blk.write mem (bufferAddress + bufferPointer) p.address p.size).2.disk a = blk.disk a :=
        fun a => blk.write_outside mem _
      cases hwrite : blk.write mem (bufferAddress + bufferPointer) p.address p.size with
      | mk success blk' =>
        rw [hwrite] at hframe
        simp only [touched_cons, Extent.stop, not_or] at hframe ⊢
        cases success with
        | false => exact ⟨by simp, fun a ha => hframe a ha.1⟩
        | true =>
          dsimp only
          by_cases hend : length = bufferPointer + p.bytes
          · rw [if_pos hend]
            exact ⟨by simp, fun a ha => hframe a ha.1⟩
          · rw [if_neg hend, if_neg hend]
            cases hdrop : cs.drop (p.clusters - 1) with
            | nil => exact ⟨by simp, fun a ha => hframe a ha.1⟩
            | cons d ds =>
              have hlen := congrArg List.length hdrop
              rw [List.length_drop, List.length_cons] at hlen
              have hlinked' := hlinked.drop ((drop_clusters hk).trans hdrop)
              obtain ⟨hreturns, htail⟩ := ih d 0 (bufferPointer + p.bytes) ds hlinked'
                hfs.bytesPerCluster_pos (by simp [residue]) (by omega) (by omega) blk'
              exact ⟨hreturns, fun a ha => (htail a ha.2).trans (hframe a ha.1)⟩

/-- Memory that holds nothing but the byte 1. -/
def ones : Bytes := fun _ => 1

/-- With a device that completes every request, ones are written to all extents. -/
theorem writeFrom_marks (hfs : fs.WellFormed) {length : ℕ} (hlength : length < 2 ^ 32)
    (hpos : 0 < length) (fuel c dataOffset bufferPointer : ℕ) (cs : List ℕ)
    (hlinked : fs.Linked (c :: cs)) (hoffset : dataOffset < fs.bytesPerCluster)
    (hresidue : fs.residue dataOffset = 0) (hfuel : cs.length < fuel)
    (hbound : bufferPointer + (cs.length + 1) * 2 ^ 32 < 2 ^ 64) (blk : VirtioBlk)
    (hblk : blk.Completes) (a : ℕ)
    (ha : blk.disk a = 1 ∨ Touched (fs.writes length (c :: cs) dataOffset bufferPointer) a) :
    (fs.writeFrom ones 0 length fuel c dataOffset bufferPointer blk).2.disk a = 1 := by
  induction fuel generalizing c dataOffset bufferPointer cs blk with
  | zero => omega
  | succ fuel ih =>
    rw [writes] at ha
    rw [writeFrom_turn hfs ones 0 hlength hpos hlinked hoffset hresidue (by omega)]
    cases hpiece : fs.piece fs.bytesPerSector length c cs dataOffset with
    | none =>
      rw [hpiece] at ha
      rcases ha with ha | ⟨e, he, -⟩
      · exact ha
      · cases he
    | some p =>
      obtain ⟨hk, -⟩ := piece_clusters hpos hpiece
      have hbytes := piece_bytes hpiece
      obtain ⟨haddress, hsize⟩ := piece_aligned hfs hpiece
      rw [hpiece] at ha
      dsimp only at ha ⊢
      rw [if_neg (by omega), VirtioBlk.write,
        VirtioBlk.operationSync_completes hblk haddress hsize, drop_clusters hk]
      dsimp only
      -- What was written stays, since only ones are written.
      have hdisk : blk.disk a = 1 ∨ (p.address ≤ a ∧ a < p.address + p.size % 2 ^ 32) →
          Bytes.copy blk.disk ones p.address (0 + bufferPointer) (p.size % 2 ^ 32) a = 1 := by
        intro h
        unfold Bytes.copy
        split_ifs with hin
        · rfl
        · exact h.resolve_right hin
      rw [touched_cons, ← or_assoc] at ha
      by_cases hend : length = bufferPointer + p.bytes
      · rw [if_pos hend] at ha ⊢
        exact hdisk (ha.resolve_right (by simp [Touched]))
      · rw [if_neg hend] at ha ⊢
        cases hdrop : cs.drop (p.clusters - 1) with
        | nil =>
          rw [hdrop, writes] at ha
          exact hdisk (ha.resolve_right (by simp [Touched]))
        | cons d ds =>
          rw [hdrop] at ha
          have hlen := congrArg List.length hdrop
          rw [List.length_drop, List.length_cons] at hlen
          exact ih d 0 (bufferPointer + p.bytes) ds
            (hlinked.drop ((drop_clusters hk).trans hdrop)) hfs.bytesPerCluster_pos
            (by simp [residue]) (by omega) (by omega) _ hblk (ha.imp_left hdisk)

/-! ## Refused requests -/

/-- The merging loop stops, and keeps the offset in the first sector. -/
theorem coalesce_returns (fs : Fat32) (least length fuel : ℕ) (s : Span)
    (hoffset : s.dataOffset < fs.bytesPerCluster) (hfuel : length - s.bytes < fuel) :
    match fs.coalesce least length fuel s with
    | .ok s' => s'.dataOffsetBackup = (fs.skipSectors s).dataOffsetBackup
    | .error stop => stop ≠ .running := by
  induction fuel generalizing s with
  | zero => omega
  | succ fuel ih =>
    have hskip : (fs.skipSectors s).dataOffset ≤ s.dataOffset := by
      unfold skipSectors
      split_ifs
      · exact Nat.sub_le _ _
      · exact le_rfl
    have hbytes : (fs.skipSectors s).bytes = s.bytes := by
      unfold skipSectors
      split_ifs <;> rfl
    rw [coalesce]
    generalize fs.skipSectors s = s₁ at *
    cases hleft : Checked.sub length s.bytes with
    | error p => simp
    | ok left =>
      simp only [lift_ok, Checked.ok_bind]
      split_ifs with hleast
      · simp
      cases hrest : Checked.add 64 left s₁.dataOffset with
      | error p => simp
      | ok rest =>
        simp only [lift_ok, Checked.ok_bind]
        split_ifs with hle
        · cases Checked.add 32 s₁.sectors ((1 + (max rest 1 - 1) / fs.bytesPerSector) % 2 ^ 32) with
          | error p => simp
          | ok sectors => rfl
        · have hpos : s.bytes < length := by
            by_contra hdone
            unfold Checked.sub at hleft
            unfold Checked.add at hrest
            split_ifs at hleft hrest
            cases hleft
            cases hrest
            omega
          cases Checked.add 32 s₁.sectors fs.sectorsPerCluster with
          | error p => simp
          | ok sectors =>
            simp only [lift_ok, Checked.ok_bind,
              Checked.sub_ok (show s₁.dataOffset ≤ fs.bytesPerCluster by omega), nextCluster]
            cases hadd : Checked.add 64 s₁.bytes (fs.bytesPerCluster - s₁.dataOffset) with
            | error p => simp
            | ok bytes =>
              cases fs.getNextCluster s₁.cluster with
              | none => simp
              | some next =>
                cases Checked.add 32 s₁.cluster 1 with
                | error p => simp
                | ok following =>
                  simp only [lift_ok, Checked.ok_bind]
                  split_ifs
                  · rfl
                  · unfold Checked.add at hadd
                    split_ifs at hadd
                    cases hadd
                    have hnext := ih { s₁ with
                      sectors := sectors
                      bytes := s₁.bytes + (fs.bytesPerCluster - s₁.dataOffset)
                      dataOffset := 0
                      cluster := next } (by dsimp only; omega) (by dsimp only; omega)
                    rw [skipSectors_of_le (Nat.zero_le _)] at hnext
                    exact hnext

/-- A request of less than a sector is refused. -/
theorem writeRequest_small {length : ℕ} (h : length < fs.bytesPerSector)
    (bufferAddress c dataOffset bufferPointer : ℕ) :
    fs.writeRequest bufferAddress length c dataOffset bufferPointer = .error .err := by
  simp [writeRequest, writeSpan, span, coalesce, Checked.sub, h]

/-- A request that starts within a sector, or exactly one sector into a cluster, is
refused. -/
theorem writeRequest_unaligned {dataOffset : ℕ} (hoffset : dataOffset < fs.bytesPerCluster)
    (hresidue : fs.residue dataOffset ≠ 0) (bufferAddress length c bufferPointer : ℕ) :
    ∃ stop, fs.writeRequest bufferAddress length c dataOffset bufferPointer = .error stop ∧
      stop ≠ .running := by
  have hspan := coalesce_returns fs fs.bytesPerSector length (length + 1)
    ⟨0, 0, 0, dataOffset, dataOffset, c⟩ hoffset (by dsimp only; omega)
  rw [skipSectors_first] at hspan
  rw [writeRequest, writeSpan, span]
  generalize fs.coalesce fs.bytesPerSector length (length + 1)
    ⟨0, 0, 0, dataOffset, dataOffset, c⟩ = result at *
  cases result with
  | error stop => exact ⟨stop, rfl, hspan⟩
  | ok s =>
    refine ⟨.err, ?_, by simp⟩
    simp only [Checked.ok_bind]
    rw [if_pos (by rw [hspan]; exact hresidue)]
    rfl

end Fat32

end Min1visor.Fat
