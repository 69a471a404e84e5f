import Min1visor.FatWrite

/-!
# When the writer stays within the request

The writer keeps the length of the whole request in every turn and does not count
skipped sectors, so on a fragmented file it can leave the requested bytes. The
condition under which it does not is a condition on the runs of the chain.
-/
namespace Min1visor.Fat
open Fragments

namespace Fat32

variable {fs : Fat32}

/-! ## Positions in a chain -/

/-- A byte of the disk that holds a byte of the request. -/
def Requested (fs : Fat32) (chain : List ℕ) (offset length a : ℕ) : Prop :=
  ∃ i, offset ≤ i ∧ i < offset + length ∧ a = fs.location chain i

/-- A byte of the disk at a position of the chain between two bounds. -/
def Between (fs : Fat32) (cs : List ℕ) (lo hi a : ℕ) : Prop :=
  ∃ j x o, cs[j]? = some x ∧ o < fs.bytesPerCluster ∧ a = fs.clusterStart x + o ∧
    lo ≤ j * fs.bytesPerCluster + o ∧ j * fs.bytesPerCluster + o < hi

/-- The request, seen from its first cluster on. -/
theorem requested_iff (hfs : fs.WellFormed) {chain : List ℕ} {offset length : ℕ}
    (hcovers : offset + length ≤ chain.length * fs.bytesPerCluster) (a : ℕ) :
    fs.Requested chain offset length a ↔
      fs.Between (chain.drop (offset / fs.bytesPerCluster)) (offset % fs.bytesPerCluster)
        (offset % fs.bytesPerCluster + length) a := by
  have hpos := hfs.bytesPerCluster_pos
  have hdiv := Nat.div_add_mod offset fs.bytesPerCluster
  rw [Nat.mul_comm] at hdiv
  constructor
  · rintro ⟨i, hlo, hhi, rfl⟩
    have hle : offset / fs.bytesPerCluster ≤ i / fs.bytesPerCluster := Nat.div_le_div_right hlo
    have hi := Nat.div_add_mod i fs.bytesPerCluster
    rw [Nat.mul_comm] at hi
    have hlt : i / fs.bytesPerCluster < chain.length :=
      (Nat.div_lt_iff_lt_mul hpos).mpr (by omega)
    refine ⟨i / fs.bytesPerCluster - offset / fs.bytesPerCluster, _, i % fs.bytesPerCluster, ?_,
      Nat.mod_lt _ hpos, rfl, ?_, ?_⟩
    · rw [List.getElem?_drop, Nat.add_sub_cancel' hle, List.getD_eq_getElem?_getD,
        List.getElem?_eq_getElem hlt]
      rfl
    · rw [Nat.sub_mul]
      omega
    · rw [Nat.sub_mul]
      have hmul := Nat.mul_le_mul_right fs.bytesPerCluster hle
      omega
  · rintro ⟨j, x, o, hx, ho, rfl, hlo, hhi⟩
    rw [List.getElem?_drop] at hx
    have hindex : ((offset / fs.bytesPerCluster + j) * fs.bytesPerCluster + o) / fs.bytesPerCluster =
        offset / fs.bytesPerCluster + j := by
      rw [Nat.mul_comm, Nat.mul_add_div hpos, Nat.div_eq_of_lt ho, Nat.add_zero]
    have hrest : ((offset / fs.bytesPerCluster + j) * fs.bytesPerCluster + o) % fs.bytesPerCluster =
        o := by
      rw [Nat.mul_comm, Nat.mul_add_mod, Nat.mod_eq_of_lt ho]
    refine ⟨(offset / fs.bytesPerCluster + j) * fs.bytesPerCluster + o, ?_, ?_, ?_⟩
    · rw [Nat.add_mul]
      omega
    · rw [Nat.add_mul]
      omega
    · rw [location, hindex, hrest, List.getD_eq_getElem?_getD, hx]
      rfl

/-- A chain without repetitions has every cluster at one position. -/
theorem between_iff {cs : List ℕ} (hnodup : cs.Nodup) (hlow : ∀ c ∈ cs, 2 ≤ c) {lo hi j x o : ℕ}
    (hx : cs[j]? = some x) (ho : o < fs.bytesPerCluster) :
    fs.Between cs lo hi (fs.clusterStart x + o) ↔
      lo ≤ j * fs.bytesPerCluster + o ∧ j * fs.bytesPerCluster + o < hi := by
  constructor
  · rintro ⟨j', x', o', hx', ho', heq, hlo, hhi⟩
    obtain ⟨rfl, rfl⟩ := clusterStart_inj (hlow x (List.mem_of_getElem? hx))
      (hlow x' (List.mem_of_getElem? hx')) ho ho' heq
    obtain ⟨hj, -⟩ := List.getElem?_eq_some_iff.mp hx
    obtain rfl : j = j' := (List.getElem?_inj hj hnodup).mp (hx.trans hx'.symm)
    exact ⟨hlo, hhi⟩
  · intro h
    exact ⟨j, x, o, hx, ho, rfl, h⟩

/-- A byte `k` bytes into the run that starts at position `i` of the chain. -/
theorem between_run (hfs : fs.WellFormed) {cs : List ℕ} (hnodup : cs.Nodup)
    (hlow : ∀ c ∈ cs, 2 ≤ c) {lo hi i c k : ℕ} {ds : List ℕ} (hdrop : cs.drop i = c :: ds)
    (hk : k < runLength (c :: ds) * fs.bytesPerCluster) :
    fs.Between cs lo hi (fs.clusterStart c + k) ↔
      lo ≤ i * fs.bytesPerCluster + k ∧ i * fs.bytesPerCluster + k < hi := by
  have hpos := hfs.bytesPerCluster_pos
  have hj : k / fs.bytesPerCluster < runLength (c :: ds) := (Nat.div_lt_iff_lt_mul hpos).mpr hk
  have hx := getElem_run c ds _ hj
  rw [← hdrop, List.getElem?_drop] at hx
  have hc : 2 ≤ c := by
    apply hlow
    exact List.mem_of_mem_drop (hdrop ▸ List.mem_cons_self)
  have hsplit := Nat.div_add_mod k fs.bytesPerCluster
  rw [Nat.mul_comm] at hsplit
  have haddress : fs.clusterStart c + k =
      fs.clusterStart (c + k / fs.bytesPerCluster) + k % fs.bytesPerCluster := by
    rw [clusterStart_add hc]
    omega
  rw [haddress, between_iff hnodup hlow hx (Nat.mod_lt _ hpos), Nat.add_mul, Nat.add_assoc, hsplit]

/-- A byte of the cluster behind the run at the head of the chain. -/
theorem between_behind {cs : List ℕ} (hlow : ∀ c ∈ cs, 2 ≤ c) {lo hi c o run : ℕ} (hc : 2 ≤ c)
    (ho : o < fs.bytesPerCluster) :
    fs.Between cs lo hi (fs.clusterStart c + run * fs.bytesPerCluster + o) ↔
      ∃ j, cs[j]? = some (c + run) ∧ lo ≤ j * fs.bytesPerCluster + o ∧
        j * fs.bytesPerCluster + o < hi := by
  rw [← clusterStart_add hc]
  constructor
  · rintro ⟨j, x, p, hx, hp, heq, hbetween⟩
    obtain ⟨rfl, rfl⟩ := clusterStart_inj (show 2 ≤ c + run by omega)
      (hlow x (List.mem_of_getElem? hx)) ho hp heq
    exact ⟨j, hx, hbetween⟩
  · rintro ⟨j, hx, hbetween⟩
    exact ⟨j, _, o, hx, ho, rfl, hbetween⟩

/-! ## The condition -/

/-- The bytes that the request for a length moves: whole sectors, with a length of
32 bits. -/
def moved (fs : Fat32) (length : ℕ) : ℕ := fs.sectorCount length * fs.bytesPerSector % 2 ^ 32

/-- The bytes of the last cluster that a length takes up are less than a sector. -/
def Ragged (fs : Fat32) (length : ℕ) : Prop :=
  (length - 1) % fs.bytesPerCluster + 1 < fs.bytesPerSector

instance (fs : Fat32) (length : ℕ) : Decidable (fs.Ragged length) :=
  inferInstanceAs (Decidable (_ < _))

/-- The turns after the first stay below `stop`. They start `done` clusters into
the chain, and each takes the whole length again. -/
def StaysBelow (fs : Fat32) (length stop : ℕ) : List ℕ → ℕ → Prop
  | [], _ => True
  | c :: cs, done =>
    if length ≤ runLength (c :: cs) * fs.bytesPerCluster then
      fs.Ragged length ∨ ((fs.moved length = 0 ∨ done * fs.bytesPerCluster + fs.moved length ≤ stop) ∧
        fs.StaysBelow length stop (cs.drop ((length - 1) / fs.bytesPerCluster))
          (done + ((length - 1) / fs.bytesPerCluster + 1)))
    else
      runLength (c :: cs) = (c :: cs).length ∨
        ((done + runLength (c :: cs)) * fs.bytesPerCluster ≤ stop ∧
          ((done + runLength (c :: cs)) * fs.bytesPerCluster = length ∨
            fs.StaysBelow length stop (cs.drop (runLength (c :: cs) - 1))
              (done + runLength (c :: cs))))
  termination_by cs => cs.length
  decreasing_by
    all_goals
      rw [List.length_drop, List.length_cons]
      exact Nat.lt_succ_of_le (Nat.sub_le _ _)

/-- All turns stay within the `length` bytes from `dataOffset` on. The first turn
starts behind `dataOffset` bytes that it does not count. -/
def Confined (fs : Fat32) (length dataOffset : ℕ) : List ℕ → Prop
  | [] => True
  | c :: cs =>
    if length ≤ runLength (c :: cs) * fs.bytesPerCluster then
      fs.Ragged length ∨ (fs.moved length ≤ length ∧
        dataOffset + fs.moved length ≤ runLength (c :: cs) * fs.bytesPerCluster)
    else
      (dataOffset = 0 ∨ ∃ j, (c :: cs)[j]? = some (c + runLength (c :: cs)) ∧
        j * fs.bytesPerCluster ≤ length) ∧
      fs.StaysBelow length (dataOffset + length) (cs.drop (runLength (c :: cs) - 1))
        (runLength (c :: cs))

/-- The piece of a turn that starts at a sector. -/
theorem piece_write {length c dataOffset : ℕ} (cs : List ℕ) (hresidue : fs.residue dataOffset = 0) :
    fs.piece fs.bytesPerSector length c cs dataOffset =
      if length ≤ runLength (c :: cs) * fs.bytesPerCluster then
        if fs.Ragged length then none
        else some ⟨fs.clusterStart c + dataOffset, fs.sectorCount length * fs.bytesPerSector, length,
          (length - 1) / fs.bytesPerCluster + 1⟩
      else if runLength (c :: cs) = (c :: cs).length then none
      else some ⟨fs.clusterStart c + dataOffset, runLength (c :: cs) * fs.bytesPerCluster,
        runLength (c :: cs) * fs.bytesPerCluster, runLength (c :: cs)⟩ := by
  have hskipped : fs.skipped dataOffset * fs.bytesPerSector + fs.residue dataOffset = dataOffset :=
    skipped_add_residue dataOffset
  rw [hresidue, Nat.add_zero] at hskipped
  simp only [piece, hresidue, Nat.add_zero, Nat.sub_zero, hskipped, Ragged]
  rfl

/-- The start of a run behind the first cluster, within the request. -/
theorem extent_below (hfs : fs.WellFormed) {base : List ℕ} (hnodup : base.Nodup)
    (hlow : ∀ c ∈ base, 2 ≤ c) {c taken lo size : ℕ} (hi : ℕ) {cs : List ℕ}
    (hdrop : base.drop taken = c :: cs) (hlo : lo ≤ taken * fs.bytesPerCluster)
    (hsize : size ≤ runLength (c :: cs) * fs.bytesPerCluster) :
    (∀ a, fs.clusterStart c ≤ a ∧ a < fs.clusterStart c + size → fs.Between base lo hi a) ↔
      size = 0 ∨ taken * fs.bytesPerCluster + size ≤ hi := by
  constructor
  · intro h
    by_contra hne
    rw [not_or] at hne
    have hlast := h (fs.clusterStart c + (size - 1)) ⟨by omega, by omega⟩
    rw [between_run hfs hnodup hlow hdrop (by omega)] at hlast
    omega
  · intro h a ha
    obtain ⟨k, rfl⟩ := Nat.exists_eq_add_of_le ha.1
    rw [between_run hfs hnodup hlow hdrop (by omega)]
    omega

theorem touched_cons_imp {e : Extent} {extents : List Extent} {P : ℕ → Prop} :
    (∀ a, Touched (e :: extents) a → P a) ↔
      (∀ a, e.start ≤ a ∧ a < e.stop → P a) ∧ ∀ a, Touched extents a → P a := by
  simp only [touched_cons, or_imp, forall_and]

/-- What the later turns write lies below the end of the request exactly when they
stay there. -/
theorem writes_staysBelow (hfs : fs.WellFormed) {base : List ℕ} (hnodup : base.Nodup)
    (hlow : ∀ c ∈ base, 2 ≤ c) {length dataOffset : ℕ} (hpos : 0 < length)
    (hlength : length < 2 ^ 32) (hoffset : dataOffset < fs.bytesPerCluster) (cs : List ℕ)
    (taken bufferPointer : ℕ) (hdrop : base.drop taken = cs) (htaken : 0 < taken)
    (hpointer : bufferPointer = taken * fs.bytesPerCluster ∨
      (length < bufferPointer ∧ length < taken * fs.bytesPerCluster)) :
    (∀ a, Touched (fs.writes length cs 0 bufferPointer) a →
        fs.Between base dataOffset (dataOffset + length) a) ↔
      fs.StaysBelow length (dataOffset + length) cs taken := by
  induction hn : cs.length using Nat.strong_induction_on generalizing cs taken bufferPointer with
  | h n ih =>
    cases cs with
    | nil => simp [writes, StaysBelow, Touched]
    | cons c cs =>
      have hbpc := hfs.bytesPerCluster_pos
      have hstart : fs.bytesPerCluster ≤ taken * fs.bytesPerCluster :=
        Nat.le_mul_of_pos_left _ htaken
      have htail : ∀ k, base.drop (taken + (k + 1)) = cs.drop k := by
        intro k
        rw [← List.drop_drop, hdrop]
        rfl
      rw [List.length_cons] at hn
      rw [writes, piece_write cs (by simp [residue]), StaysBelow]
      by_cases hin : length ≤ runLength (c :: cs) * fs.bytesPerCluster
      · rw [if_pos hin, if_pos hin]
        by_cases hragged : fs.Ragged length
        · simp [hragged, Touched]
        · have hsize : fs.moved length ≤ runLength (c :: cs) * fs.bytesPerCluster :=
            (Nat.mod_le _ _).trans (sectors_le hfs hpos hin)
          have hmul : length - 1 < (length - 1) / fs.bytesPerCluster * fs.bytesPerCluster +
              fs.bytesPerCluster := Nat.lt_div_mul_add hbpc
          have hextent := extent_below hfs hnodup hlow (dataOffset + length) hdrop
            (hoffset.le.trans hstart) hsize
          rw [if_neg hragged, or_iff_right hragged]
          dsimp only
          generalize (length - 1) / fs.bytesPerCluster = k at *
          have hrest := ih (cs.drop k).length (by rw [List.length_drop]; omega) (cs.drop k)
            (taken + (k + 1)) (bufferPointer + length) (htail k) (by omega)
            (.inr ⟨by omega, by rw [Nat.add_mul, Nat.add_mul]; omega⟩) rfl
          rw [if_neg (by omega), touched_cons_imp, Nat.add_sub_cancel, hrest, ← hextent]
          rfl
      · rw [if_neg hin, if_neg hin]
        by_cases hend : runLength (c :: cs) = (c :: cs).length
        · simp [hend, Touched]
        · have hrun := runLength_pos c cs
          have hextent := extent_below hfs hnodup hlow (dataOffset + length) hdrop
            (hoffset.le.trans hstart) le_rfl
          rw [if_neg hend, or_iff_right hend]
          dsimp only
          generalize runLength (c :: cs) = run at *
          obtain ⟨k, rfl⟩ : ∃ k, run = k + 1 := ⟨run - 1, by omega⟩
          have hmul := Nat.add_mul taken (k + 1) fs.bytesPerCluster
          have hsize : (k + 1) * fs.bytesPerCluster % 2 ^ 32 = (k + 1) * fs.bytesPerCluster :=
            Nat.mod_eq_of_lt (by omega)
          have hne : (k + 1) * fs.bytesPerCluster ≠ 0 := (Nat.mul_pos hrun hbpc).ne'
          rw [or_iff_right hne, ← hmul] at hextent
          rw [touched_cons_imp, Nat.add_sub_cancel, hsize, Nat.add_zero]
          apply and_congr hextent
          by_cases hstop : length = bufferPointer + (k + 1) * fs.bytesPerCluster
          · rw [if_pos hstop]
            exact iff_of_true (by simp [Touched]) (.inl (by omega))
          · rw [if_neg hstop, or_iff_right (by omega)]
            exact ih (cs.drop k).length (by rw [List.length_drop]; omega) (cs.drop k)
              (taken + (k + 1)) (bufferPointer + (k + 1) * fs.bytesPerCluster) (htail k) (by omega)
              (by omega) rfl

/-- A first turn that ends in the run at the head. -/
theorem first_extent_whole (hfs : fs.WellFormed) {c : ℕ} {cs : List ℕ} (hnodup : (c :: cs).Nodup)
    (hlow : ∀ d ∈ c :: cs, 2 ≤ d) {length dataOffset size : ℕ}
    (hoffset : dataOffset < fs.bytesPerCluster)
    (hin : length ≤ runLength (c :: cs) * fs.bytesPerCluster) :
    (∀ a, fs.clusterStart c + dataOffset ≤ a ∧ a < fs.clusterStart c + dataOffset + size →
        fs.Between (c :: cs) dataOffset (dataOffset + length) a) ↔
      size ≤ length ∧ dataOffset + size ≤ runLength (c :: cs) * fs.bytesPerCluster := by
  have hbpc := hfs.bytesPerCluster_pos
  have hrun : fs.bytesPerCluster ≤ runLength (c :: cs) * fs.bytesPerCluster :=
    Nat.le_mul_of_pos_left _ (runLength_pos c cs)
  constructor
  · intro h
    by_cases hzero : size = 0
    · omega
    · have hbehind : dataOffset + size ≤ runLength (c :: cs) * fs.bytesPerCluster := by
        by_contra hspill
        -- The first byte behind the run is in a cluster that the request does not reach.
        have hbyte := h (fs.clusterStart c + runLength (c :: cs) * fs.bytesPerCluster + 0)
          ⟨by omega, by omega⟩
        rw [between_behind hlow (hlow c List.mem_cons_self) hbpc] at hbyte
        obtain ⟨j, hj, -, hhi⟩ := hbyte
        have hle : j < runLength (c :: cs) + 1 := by
          apply Nat.lt_of_mul_lt_mul_right (a := fs.bytesPerCluster)
          rw [Nat.add_mul, Nat.one_mul]
          omega
        rcases Nat.lt_succ_iff_lt_or_eq.mp hle with hlt | rfl
        · rw [getElem_run c cs j hlt] at hj
          have heq := Option.some.inj hj
          omega
        · exact getElem_break c cs _ hj rfl
      refine ⟨?_, hbehind⟩
      have hlast := h (fs.clusterStart c + (dataOffset + size - 1)) ⟨by omega, by omega⟩
      rw [between_run hfs hnodup hlow List.drop_zero (by omega)] at hlast
      omega
  · rintro ⟨hle, hbehind⟩ a ⟨hlo, hhi⟩
    obtain ⟨k, rfl⟩ := Nat.exists_eq_add_of_le (show fs.clusterStart c ≤ a by omega)
    rw [between_run hfs hnodup hlow List.drop_zero (by omega)]
    omega

/-- A first turn that takes a whole run, and as many bytes behind it as it skipped. -/
theorem first_extent_run (hfs : fs.WellFormed) {c : ℕ} {cs : List ℕ} (hnodup : (c :: cs).Nodup)
    (hlow : ∀ d ∈ c :: cs, 2 ≤ d) {length dataOffset : ℕ} (hoffset : dataOffset < fs.bytesPerCluster)
    (hout : runLength (c :: cs) * fs.bytesPerCluster < length) :
    (∀ a, fs.clusterStart c + dataOffset ≤ a ∧
          a < fs.clusterStart c + dataOffset + runLength (c :: cs) * fs.bytesPerCluster →
        fs.Between (c :: cs) dataOffset (dataOffset + length) a) ↔
      dataOffset = 0 ∨ ∃ j, (c :: cs)[j]? = some (c + runLength (c :: cs)) ∧
        j * fs.bytesPerCluster ≤ length := by
  have hrun := runLength_pos c cs
  have hwhole := Nat.le_mul_of_pos_left fs.bytesPerCluster hrun
  constructor
  · intro h
    by_cases hzero : dataOffset = 0
    · exact .inl hzero
    · have hbyte := h (fs.clusterStart c + runLength (c :: cs) * fs.bytesPerCluster +
        (dataOffset - 1)) ⟨by omega, by omega⟩
      rw [between_behind hlow (hlow c List.mem_cons_self) (by omega)] at hbyte
      obtain ⟨j, hj, -, hhi⟩ := hbyte
      exact .inr ⟨j, hj, by omega⟩
  · intro h a ha
    by_cases hin : a < fs.clusterStart c + runLength (c :: cs) * fs.bytesPerCluster
    · obtain ⟨k, rfl⟩ := Nat.exists_eq_add_of_le (show fs.clusterStart c ≤ a by omega)
      rw [between_run hfs hnodup hlow List.drop_zero (by omega)]
      omega
    · obtain ⟨o, rfl⟩ := Nat.exists_eq_add_of_le (not_lt.mp hin)
      rw [between_behind hlow (hlow c List.mem_cons_self) (by omega)]
      obtain ⟨j, hj, hle⟩ := h.resolve_left (by omega)
      have hpos : 0 < j := by
        by_contra hzero
        obtain rfl : j = 0 := by omega
        have heq : c = c + runLength (c :: cs) := by simpa using hj
        omega
      have hmul := Nat.le_mul_of_pos_left fs.bytesPerCluster hpos
      exact ⟨j, hj, by omega, by omega⟩

theorem writes_confined (hfs : fs.WellFormed) {c : ℕ} {cs : List ℕ} (hnodup : (c :: cs).Nodup)
    (hlow : ∀ d ∈ c :: cs, 2 ≤ d) {length dataOffset : ℕ} (hpos : 0 < length)
    (hlength : length < 2 ^ 32) (hoffset : dataOffset < fs.bytesPerCluster)
    (hresidue : fs.residue dataOffset = 0)
    (hcovers : dataOffset + length ≤ (c :: cs).length * fs.bytesPerCluster) :
    (∀ a, Touched (fs.writes length (c :: cs) dataOffset 0) a →
        fs.Between (c :: cs) dataOffset (dataOffset + length) a) ↔
      fs.Confined length dataOffset (c :: cs) := by
  rw [writes, piece_write cs hresidue, Confined]
  by_cases hin : length ≤ runLength (c :: cs) * fs.bytesPerCluster
  · rw [if_pos hin, if_pos hin]
    by_cases hragged : fs.Ragged length
    · simp [hragged, Touched]
    · rw [if_neg hragged, or_iff_right hragged, ← first_extent_whole hfs hnodup hlow hoffset hin]
      dsimp only
      rw [if_pos (Nat.zero_add _).symm, touched_cons_imp]
      exact and_iff_left (by simp [Touched])
  · rw [if_neg hin, if_neg hin]
    have hout := not_le.mp hin
    have hend : runLength (c :: cs) ≠ (c :: cs).length := by
      intro h
      rw [h] at hout
      omega
    have hrun := runLength_pos c cs
    have htail : (c :: cs).drop (runLength (c :: cs)) = cs.drop (runLength (c :: cs) - 1) :=
      drop_clusters hrun
    rw [if_neg hend, ← first_extent_run hfs hnodup hlow hoffset hout,
      ← writes_staysBelow hfs hnodup hlow hpos hlength hoffset _ _ _ htail hrun (.inl rfl)]
    dsimp only
    rw [if_neg (by omega), touched_cons_imp, Nat.zero_add, Nat.mod_eq_of_lt (hout.trans hlength)]
    rfl

/-! ## Whole calls -/

/-- Whatever the call returns, it returns, and the disk differs at most in the
requested bytes. -/
def WritesWithin (fs : Fat32) (file : FileInfo) (chain : List ℕ) (offset length : ℕ) : Prop :=
  ∀ (mem : Bytes) (bufferAddress : ℕ) (blk : VirtioBlk) (fuel : ℕ), chain.length < fuel →
    (fs.write fuel file mem bufferAddress offset length blk).1 ≠ .error .running ∧
    ∀ a, ¬ fs.Requested chain offset (count file offset length) a →
      (fs.write fuel file mem bufferAddress offset length blk).2.disk a = blk.disk a

/-- The call is refused before its first request. -/
def Refused (fs : Fat32) (file : FileInfo) (offset length : ℕ) : Prop :=
  2 ^ 64 ≤ offset + length ∨ count file offset length < fs.bytesPerSector ∨
    fs.residue (offset % fs.bytesPerCluster) ≠ 0

variable {file : FileInfo} {chain : List ℕ}

theorem write_refused (h : fs.Holds file chain) {offset length : ℕ}
    (hrefused : fs.Refused file offset length) : fs.WritesWithin file chain offset length := by
  intro mem bufferAddress blk fuel hfuel
  obtain ⟨fuel, rfl⟩ : ∃ f, fuel = f + 1 := ⟨fuel - 1, by omega⟩
  have hpos := h.volume.bytesPerCluster_pos
  suffices hkeeps : ∃ result, result ≠ .error .running ∧
      fs.write (fuel + 1) file mem bufferAddress offset length blk = (result, blk) by
    obtain ⟨result, hreturns, hwrite⟩ := hkeeps
    rw [hwrite]
    exact ⟨hreturns, fun _ _ => rfl⟩
  by_cases hsum : offset + length < 2 ^ 64
  · rw [write]
    rcases clamp_cases hsum with hclamp | hclamp
    · exact ⟨.ok 0, by simp, by rw [hclamp]⟩
    · rw [hclamp]
      dsimp only
      rcases locate_cases hpos file offset with hlocate | ⟨c, hlocate⟩
      · exact ⟨.error .err, by simp, by rw [hlocate]⟩
      · rw [hlocate]
        dsimp only
        rw [writeFrom]
        obtain ⟨stop, hrequest, hstop⟩ : ∃ stop, fs.writeRequest bufferAddress
            (count file offset length) c (offset % fs.bytesPerCluster) 0 = .error stop ∧
            stop ≠ .running := by
          rcases hrefused with hover | hsmall | hresidue
          · omega
          · exact ⟨.err, writeRequest_small hsmall _ _ _ _, by simp⟩
          · exact writeRequest_unaligned (Nat.mod_lt _ hpos) hresidue _ _ _ _
        exact ⟨.error stop, by simpa using hstop, by rw [hrequest]⟩
  · refine ⟨.error (.panic .overflow), by simp, ?_⟩
    rw [write, clamp, Checked.add, if_neg hsum]
    rfl

/-- The writer changes nothing but the requested bytes exactly when it refuses the
request or the runs of the chain confine it. -/
theorem writesWithin_iff (fs : Fat32) (file : FileInfo) (chain : List ℕ) (h : fs.Holds file chain)
    (offset length : ℕ) :
    fs.WritesWithin file chain offset length ↔
      fs.Refused file offset length ∨
        fs.Confined (count file offset length) (offset % fs.bytesPerCluster)
          (chain.drop (offset / fs.bytesPerCluster)) := by
  by_cases hrefused : fs.Refused file offset length
  · exact iff_of_true (write_refused h hrefused) (.inl hrefused)
  · rw [or_iff_right hrefused]
    simp only [Refused, not_or, not_le, not_lt, not_not] at hrefused
    obtain ⟨hsum, hsector, hresidue⟩ := hrefused
    have hfs := h.volume
    have hsize := h.size
    have hcovers := h.covers
    have hpos : 0 < count file offset length := hfs.sectorPos.trans_le hsector
    have hcount : count file offset length ≤ file.fileSize - offset := Nat.min_le_right _ _
    have hlt : offset < file.fileSize := by omega
    obtain ⟨c, cs, hdrop, hlinked, hlocate⟩ := h.locate_ok hlt
    have hoffset := Nat.mod_lt offset hfs.bytesPerCluster_pos
    have hnodup : (c :: cs).Nodup := hdrop ▸ h.nodup.sublist (List.drop_sublist _ _)
    have hlow : ∀ d ∈ c :: cs, 2 ≤ d := fun d hd => (hlinked.clusters d hd).low
    have hlen := congrArg List.length hdrop
    rw [List.length_drop, List.length_cons] at hlen
    have hchain := h.length_lt
    have hle : cs.length + 1 ≤ chain.length := hlen ▸ Nat.sub_le _ _
    have hrequested := requested_iff hfs (show offset + count file offset length ≤
      chain.length * fs.bytesPerCluster by omega)
    rw [hdrop] at hrequested
    have hconfined := writes_confined hfs hnodup hlow hpos (show count file offset length < 2 ^ 32
      by omega) hoffset hresidue (by
        rw [List.length_cons, ← hlen, Nat.sub_mul]
        have hdiv := Nat.div_add_mod offset fs.bytesPerCluster
        rw [Nat.mul_comm] at hdiv
        omega)
    have hwrite : ∀ mem bufferAddress blk fuel,
        fs.write fuel file mem bufferAddress offset length blk =
          fs.writeFrom mem bufferAddress (count file offset length) fuel c
            (offset % fs.bytesPerCluster) 0 blk := by
      intro mem bufferAddress blk fuel
      rw [write, clamp_inside hsum hlt, hlocate]
    rw [hdrop, ← hconfined]
    constructor
    · intro hwithin a ha
      by_contra hout
      -- Ones are written over a disk of zeros.
      have hkeeps := (hwithin ones 0 ⟨fun _ => 0, fun _ n => n⟩ (chain.length + 1) (by omega)).2 a
        (mt (hrequested a).mp hout)
      have hmarks := writeFrom_marks hfs (by omega) hpos (chain.length + 1) c
        (offset % fs.bytesPerCluster) 0 cs hlinked hoffset hresidue (by omega) (by omega)
        ⟨fun _ => 0, fun _ n => n⟩ (fun _ n => le_rfl) a (.inr ha)
      rw [hwrite, hmarks] at hkeeps
      cases hkeeps
    · intro hinside mem bufferAddress blk fuel hfuel
      obtain ⟨hreturns, hframe⟩ := writeFrom_frame hfs mem bufferAddress
        (show count file offset length < 2 ^ 32 by omega) hpos fuel c (offset % fs.bytesPerCluster) 0
        cs hlinked hoffset hresidue (by omega) (by omega) blk
      rw [hwrite]
      exact ⟨hreturns, fun a ha => hframe a fun htouched =>
        ha ((hrequested a).mpr (hinside a htouched))⟩

/-- On a contiguous file whole sectors are written in place. -/
theorem writesWithin_contiguous :
    (sampleVolume 6).WritesWithin ⟨5, 4096⟩ [5, 6] 1024 2048 := by
  apply (writesWithin_iff (sampleVolume 6) ⟨5, 4096⟩ [5, 6] (sampleVolume_holds (by decide)
    (by decide)) 1024 2048).mpr
  right
  simp [Confined, runLength, moved, sectorCount, count, bytesPerCluster, sampleVolume]

/-- On a fragmented file the two sectors that are skipped in cluster 5 are written
to cluster 6, which is not part of the file. -/
theorem write_spills : (sampleVolume 9).Holds ⟨5, 4096⟩ [5, 9] ∧
    ¬ (sampleVolume 9).WritesWithin ⟨5, 4096⟩ [5, 9] 1024 2048 := by
  refine ⟨sampleVolume_holds (by decide) (by decide), ?_⟩
  intro hwithin
  have hkeeps := (hwithin ones 0 ⟨fun _ => 0, fun _ n => n⟩ 3 (by decide)).2
    ((sampleVolume 9).clusterStart 6) (by
      rintro ⟨i, hlo, hhi, heq⟩
      have hindex : i / 2048 = 0 ∨ i / 2048 = 1 := by
        simp [count] at hhi
        omega
      rcases hindex with hindex | hindex <;>
        simp [location, clusterStart, dataSector, bytesPerCluster, sampleVolume, hindex] at heq <;>
        omega)
  revert hkeeps
  decide

end Fat32

end Min1visor.Fat
