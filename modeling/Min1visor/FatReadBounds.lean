import Min1visor.FatLinks
import Min1visor.FatReadContiguous

/-!
# Where the reader writes

The block device fills whole sectors. A turn that starts at a sector has it write straight
to the caller's buffer, so a length that is not a number of whole sectors runs over its
end. Every turn takes the whole length for what is left, so a later turn runs over the end
as soon as its run of clusters does.
-/
namespace Min1visor.Fat

theorem VirtioBlk.read_outside (blk : VirtioBlk) (mem : Bytes) {bufferAddress length a : ℕ}
    (blockAddress : ℕ) (h : ¬ (bufferAddress ≤ a ∧ a < bufferAddress + length % 2 ^ 32)) :
    (blk.read mem bufferAddress blockAddress length).2 a = mem a := by
  have hcount := blk.operationSync_le blockAddress length
  change Bytes.copy mem blk.disk bufferAddress blockAddress
    (blk.operationSync blockAddress length).1 a = mem a
  exact Bytes.copy_outside _ _ _ (by omega)

namespace Fat32

variable {η : Type} {fs : Fat32}

/-! ## The bounce buffer -/

theorem le_mask_add {x m : ℕ} (hx : x < 2 ^ 64) (hm : m < 2 ^ 64) :
    x ≤ (x &&& (2 ^ 64 - 1 - m)) + m := by
  have hsplit : ∀ y k : BitVec 64, y = (y &&& k) + (y &&& ~~~k) := by
    intro y k
    rw [BitVec.add_eq_or_of_and_eq_zero]
    · ext i hi
      cases hy : y[i] <;> cases hk : k[i] <;> simp [hy, hk]
    · ext i hi
      cases hy : y[i] <;> cases hk : k[i] <;> simp [hy, hk]
  have hsum := congrArg BitVec.toNat (hsplit (BitVec.ofNat 64 x) (BitVec.ofNat 64 m))
  rw [BitVec.toNat_add, BitVec.toNat_and, BitVec.toNat_and, BitVec.toNat_not, BitVec.toNat_ofNat,
    BitVec.toNat_ofNat, Nat.mod_eq_of_lt hx, Nat.mod_eq_of_lt hm] at hsum
  have hmod := Nat.mod_le ((x &&& m) + (x &&& (2 ^ 64 - 1 - m))) (2 ^ 64)
  have hand : x &&& m ≤ m := Nat.and_le_right
  omega

/-- The sectors of a span fit the pages for them. -/
theorem bufferPages_covers {s : Span} {count : ℕ} (h : fs.bufferPages s = .ok count) :
    s.sectors * fs.bytesPerSector ≤ count * 4096 := by
  simp only [bufferPages, Checked.bind_eq_ok, Checked.add_eq_ok, Checked.sub_eq_ok,
    Checked.mul_eq_ok] at h
  obtain ⟨mask, ⟨hblock, rfl⟩, size, ⟨hsize, rfl⟩, aligned, ⟨haligned, rfl⟩, hcount, rfl⟩ := h
  have hmask := le_mask_add hsize (show fs.lbaSize - 1 < 2 ^ 64 by omega)
  rw [Nat.shiftRight_eq_div_pow]
  omega

/-- The pages that a turn takes for its bounce buffer. -/
def Bounced (fs : Fat32) (pages : Pages η) (heap : η) (length c dataOffset a : ℕ) : Prop :=
  ∃ s count p heap', fs.readSpan length c dataOffset = .ok s ∧ s.dataOffsetBackup ≠ 0 ∧
    fs.bufferPages s = .ok count ∧ pages.allocatePages heap count 0 = .ok (some p, heap') ∧
    p ≤ a ∧ a < p + count * 4096

/-! ## Turns -/

/-- A byte that the turn for a piece may write. -/
def Filled (fs : Fat32) (pages : Pages η) (heap : η) (bufferAddress length c dataOffset
    bufferPointer : ℕ) (p : Piece) (a : ℕ) : Prop :=
  if fs.residue dataOffset = 0 then
    bufferAddress + bufferPointer ≤ a ∧ a < bufferAddress + bufferPointer + p.size % 2 ^ 32
  else (bufferAddress ≤ a ∧ a < bufferAddress + p.bytes) ∨
    fs.Bounced pages heap length c dataOffset a

theorem spanRange_size {c blockAddress size : ℕ} {s : Span}
    (h : fs.spanRange c s = .ok (blockAddress, size)) : size = s.sectors * fs.bytesPerSector := by
  simp only [spanRange, byteRange, Checked.bind_eq_ok, Checked.pure_eq_ok, Except.ok.injEq,
    Prod.mk.injEq, Checked.mul_eq_ok] at h
  obtain ⟨_, -, _, -, _, -, _, -, _, -, n, ⟨-, hn⟩, -, hsize⟩ := h
  rw [← hsize, ← hn]

theorem readDirect_outside {bufferAddress c dataOffset bufferPointer : ℕ} {p : Piece} {s : Span}
    (hs : fs.Joins c dataOffset p s) (m : Machine η) {a : ℕ}
    (ha : ¬ (bufferAddress + bufferPointer ≤ a ∧
      a < bufferAddress + bufferPointer + p.size % 2 ^ 32)) :
    (fs.readDirect bufferAddress c bufferPointer s m).2.mem a = m.mem a := by
  rw [readDirect]
  split
  · rfl
  · rename_i buffer blockAddress size hrange
    obtain ⟨hbuffer, hsize⟩ : buffer = bufferAddress + bufferPointer ∧ size = p.size := by
      simp only [Checked.bind_eq_ok, Checked.add_eq_ok, Checked.pure_eq_ok, Except.ok.injEq,
        Prod.mk.injEq] at hrange
      obtain ⟨sum, ⟨-, hsum⟩, range, hspan, hbuffer, hpair⟩ := hrange
      rw [hpair] at hspan
      exact ⟨by rw [← hbuffer, ← hsum], by rw [spanRange_size hspan, hs.size]⟩
    have houtside := m.blk.read_outside m.mem blockAddress (hbuffer ▸ hsize ▸ ha)
    generalize m.blk.read m.mem buffer blockAddress size = outcome at houtside
    obtain ⟨success, mem⟩ := outcome
    cases success with
    | false => exact houtside
    | true => exact houtside

theorem readBounced_outside (pages : Pages η) {bufferAddress length c dataOffset bufferPointer count : ℕ}
    {p : Piece} {s : Span} (hspan : fs.readSpan length c dataOffset = .ok s)
    (hs : fs.Joins c dataOffset p s) (hbackup : s.dataOffsetBackup ≠ 0)
    (hcount : fs.bufferPages s = .ok count) (m : Machine η) {a : ℕ}
    (ha : ¬ (bufferAddress ≤ a ∧ a < bufferAddress + p.bytes))
    (hb : ¬ fs.Bounced pages m.heap length c dataOffset a) :
    (fs.readBounced pages bufferAddress c bufferPointer s count m).2.mem a = m.mem a := by
  rw [readBounced]
  split
  · rfl
  · rfl
  · rename_i buffer heap halloc
    split
    · rfl
    · rename_i blockAddress size hrange
      have hsize := spanRange_size hrange
      have hcovers := bufferPages_covers hcount
      have hpage : ¬ (buffer ≤ a ∧ a < buffer + size % 2 ^ 32) := by
        rintro ⟨hlow, hhigh⟩
        have hmod := Nat.mod_le size (2 ^ 32)
        exact hb ⟨s, count, buffer, heap, hspan, hbackup, hcount, halloc, hlow, by omega⟩
      have houtside := m.blk.read_outside m.mem blockAddress hpage
      generalize m.blk.read m.mem buffer blockAddress size = outcome at houtside
      obtain ⟨success, mem⟩ := outcome
      dsimp only at houtside ⊢
      have hcopy : Bytes.copy mem mem bufferAddress (buffer + s.dataOffsetBackup) s.bytes a =
          m.mem a := by
        rw [Bytes.copy_outside _ _ _ (by rw [hs.bytes]; exact ha), houtside]
      split_ifs
      · split <;> exact houtside
      · exact houtside
      · split <;> exact hcopy

theorem turn_some {length bufferPointer bufferPointer' next : ℕ} {s : Span}
    (h : fs.turn length bufferPointer s = .ok (bufferPointer', some next)) :
    bufferPointer' = bufferPointer + s.bytes ∧ length ≠ bufferPointer + s.bytes ∧
      fs.getNextCluster s.cluster = some next := by
  rw [turn] at h
  rcases Checked.add_cases 64 bufferPointer s.bytes with hadd | ⟨-, hadd⟩
  · rw [hadd] at h
    simp only [lift_ok, Checked.ok_bind] at h
    split_ifs at h with hend
    · cases h
    · rw [nextCluster] at h
      cases hnext : fs.getNextCluster s.cluster with
      | none =>
        rw [hnext] at h
        cases h
      | some d =>
        rw [hnext] at h
        cases h
        exact ⟨rfl, hend, rfl⟩
  · rw [hadd] at h
    cases h

theorem readSpan_plan {length c dataOffset count : ℕ} {s : Span}
    (h : (do let s ← fs.readSpan length c dataOffset; return (s, ← fs.bufferPages s) :
      Except Stop (Span × ℕ)) = .ok (s, count)) :
    fs.readSpan length c dataOffset = .ok s ∧ fs.bufferPages s = .ok count := by
  obtain ⟨s', hok, hrest⟩ := Checked.bind_eq_ok.mp h
  cases hcount : fs.bufferPages s' with
  | error p =>
    rw [hcount] at hrest
    cases hrest
  | ok n =>
    rw [hcount] at hrest
    cases hrest
    exact ⟨hok, hcount⟩

theorem readSpan_joins (hfs : fs.Geometry) {length c dataOffset : ℕ} {s : Span}
    (hoffset : dataOffset < fs.bytesPerCluster) (h : fs.readSpan length c dataOffset = .ok s) :
    ∃ p, fs.linkedPiece 0 length c dataOffset = some p ∧ fs.Joins c dataOffset p s := by
  rw [readSpan] at h
  rcases span_joins hfs (Nat.zero_le _) hoffset (.inl rfl) with ⟨-, p, habort⟩ | hjoins
  · rw [h] at habort
    cases habort
  · cases hpiece : fs.linkedPiece 0 length c dataOffset with
    | none =>
      rw [hpiece, h] at hjoins
      cases hjoins
    | some p =>
      rw [hpiece] at hjoins
      obtain ⟨s', hok, hs⟩ := hjoins
      rw [h] at hok
      cases hok
      exact ⟨p, rfl, hs⟩

/-- A turn of the reader writes the bytes of its piece at most, and the next one starts
behind them. -/
theorem readFrom_outside_turn (hfs : fs.Geometry) (pages : Pages η) {bufferAddress length c
    dataOffset bufferPointer : ℕ} (hoffset : dataOffset < fs.bytesPerCluster) (fuel : ℕ)
    (m : Machine η) :
    (fs.readFrom pages bufferAddress length (fuel + 1) c dataOffset bufferPointer m).2.mem = m.mem ∨
      ∃ p m₁, fs.linkedPiece 0 length c dataOffset = some p ∧
        (∀ a, ¬ fs.Filled pages m.heap bufferAddress length c dataOffset bufferPointer p a →
          m₁.mem a = m.mem a) ∧
        ((fs.readFrom pages bufferAddress length (fuel + 1) c dataOffset bufferPointer m).2 = m₁ ∨
          ∃ next, fs.getNextCluster (c + p.clusters - 1) = some next ∧
            length ≠ bufferPointer + p.bytes ∧
            fs.readFrom pages bufferAddress length (fuel + 1) c dataOffset bufferPointer m =
              fs.readFrom pages bufferAddress length fuel next 0 (bufferPointer + p.bytes) m₁) := by
  rw [readFrom]
  split
  · exact .inl rfl
  rename_i s count hplan
  obtain ⟨hok, hcount⟩ := readSpan_plan hplan
  obtain ⟨p, hpiece, hs⟩ := readSpan_joins hfs hoffset hok
  right
  -- What the device and the copy write.
  have hfilled : ∀ a, ¬ fs.Filled pages m.heap bufferAddress length c dataOffset bufferPointer p a →
      (if s.dataOffsetBackup ≠ 0 then
        fs.readBounced pages bufferAddress c bufferPointer s count m
      else fs.readDirect bufferAddress c bufferPointer s m).2.mem a = m.mem a := by
    intro a ha
    rw [Filled, ← hs.dataOffsetBackup] at ha
    by_cases hbackup : s.dataOffsetBackup = 0
    · rw [if_pos hbackup] at ha
      rw [if_neg (not_not.mpr hbackup)]
      exact readDirect_outside hs m ha
    · rw [if_neg hbackup, not_or] at ha
      rw [if_pos hbackup]
      exact readBounced_outside pages hok hs hbackup hcount m ha.1 ha.2
  generalize (if s.dataOffsetBackup ≠ 0 then
      fs.readBounced pages bufferAddress c bufferPointer s count m
    else fs.readDirect bufferAddress c bufferPointer s m) = outcome at hfilled ⊢
  obtain ⟨result, m₁⟩ := outcome
  refine ⟨p, m₁, hpiece, hfilled, ?_⟩
  cases result with
  | error stop => exact .inl rfl
  | ok u =>
    dsimp only
    split
    · exact .inl rfl
    · exact .inl rfl
    · rename_i next hturn
      obtain ⟨hpointer, hmore, hnext⟩ := turn_some hturn
      rw [hs.bytes] at hpointer hmore
      rw [hs.cluster] at hnext
      exact .inr ⟨next, hnext, hmore, by rw [hpointer]⟩

/-! ## Turns that do not abort -/

/-- The page allocator returns, with pages or without. -/
def Allocates (pages : Pages η) (heap : η) : Prop :=
  ∀ count, (∃ heap₁, pages.allocatePages heap count 0 = .ok (none, heap₁)) ∨
    ∃ p heap₁ heap₂, pages.allocatePages heap count 0 = .ok (some p, heap₁) ∧
      pages.freePages heap₁ p count = .ok heap₂

/-- The block device completes every request, and none is unaligned. -/
structure Smooth (fs : Fat32) (blk : VirtioBlk) : Prop where
  volume : fs.WellFormed
  device : blk.Completes

/-- What the reader does after the turn for a piece. -/
def proceed (fs : Fat32) (pages : Pages η) (bufferAddress length fuel c bufferPointer : ℕ) (p : Piece)
    (m : Machine η) : Except Stop ℕ × Machine η :=
  if length = bufferPointer + p.bytes then (.ok (bufferPointer + p.bytes), m)
  else
    match fs.getNextCluster (c + p.clusters - 1) with
    | none => (.error .err, m)
    | some next =>
      fs.readFrom pages bufferAddress length fuel next 0 (bufferPointer + p.bytes) m

theorem turn_joins {length c dataOffset bufferPointer : ℕ} {p : Piece} {s : Span}
    (hs : fs.Joins c dataOffset p s) (hlt : bufferPointer + p.bytes < 2 ^ 64) :
    fs.turn length bufferPointer s =
      if length = bufferPointer + p.bytes then .ok (bufferPointer + p.bytes, none)
      else
        match fs.getNextCluster (c + p.clusters - 1) with
        | none => .error .err
        | some next => .ok (bufferPointer + p.bytes, some next) := by
  simp only [turn, hs.bytes, Checked.add_ok hlt, lift_ok, Checked.ok_bind, hs.cluster, nextCluster,
    Checked.pure_eq_ok]
  split_ifs
  · rfl
  · cases fs.getNextCluster (c + p.clusters - 1) with
    | none => rfl
    | some next => rfl

theorem linkedPiece_aligned (hfs : fs.WellFormed) {least length c dataOffset : ℕ} {p : Piece} {s : Span}
    (hpiece : fs.linkedPiece least length c dataOffset = some p) (hs : fs.Joins c dataOffset p s) :
    512 ∣ p.address ∧ 512 ∣ p.size := by
  rw [linkedPiece_address hpiece, hs.size]
  exact ⟨dvd_add (clusterStart_dvd hfs c) (dvd_mul_of_dvd_right hfs.sector _),
    dvd_mul_of_dvd_right hfs.sector _⟩

section Linked
variable {bufferAddress length c dataOffset : ℕ} {p : Piece} {m : Machine η}

/-- A turn that starts at a sector. -/
theorem Bounded.readFrom_direct (h : fs.Bounded length) (pages : Pages η)
    (bufferAddress bufferPointer : ℕ) (hoffset : dataOffset < fs.bytesPerCluster) (hc : fs.HasCluster c)
    (hresidue : fs.residue dataOffset = 0) (fuel : ℕ)
    (hpiece : fs.linkedPiece 0 length c dataOffset = some p) :
    ((2 ^ 64 ≤ bufferAddress + bufferPointer ∨ 2 ^ 64 ≤ bufferPointer + length) ∧ ∃ stop m₁,
        fs.readFrom pages bufferAddress length (fuel + 1) c dataOffset bufferPointer m =
          (.error (.panic stop), m₁)) ∨
      (¬ fs.Smooth m.blk ∧ ∃ m₁,
        fs.readFrom pages bufferAddress length (fuel + 1) c dataOffset bufferPointer m =
          (.error .err, m₁)) ∨
      fs.readFrom pages bufferAddress length (fuel + 1) c dataOffset bufferPointer m =
        fs.proceed pages bufferAddress length fuel c bufferPointer p { m with
          mem := (m.blk.read m.mem (bufferAddress + bufferPointer) p.address p.size).2 } := by
  have hspan := h.span_joins (Nat.zero_le _) hoffset (.inl rfl) hc
  rw [hpiece] at hspan
  obtain ⟨s, hok, hs, hsectors, hrange⟩ := hspan
  have hbytes := (linkedPiece_le h.geometry hpiece).1
  simp only [readFrom, readSpan, hok, Checked.ok_bind, bufferPages_ok h.geometry h.block hsectors,
    lift_ok, Checked.pure_eq_ok, hs.dataOffsetBackup, hresidue, ne_eq, not_true_eq_false, if_false,
    readDirect, hrange]
  rcases Checked.add_cases 64 bufferAddress bufferPointer with hbuffer | ⟨hover, hbuffer⟩
  swap
  · rw [hbuffer]
    exact .inl ⟨.inl hover, _, _, rfl⟩
  rw [hbuffer]
  simp only [Checked.ok_bind]
  cases hread : m.blk.read m.mem (bufferAddress + bufferPointer) p.address p.size with
  | mk success mem =>
    cases success with
    | false =>
      refine .inr (.inl ⟨fun hsmooth => ?_, _, rfl⟩)
      obtain ⟨haddress, hlength⟩ := linkedPiece_aligned hsmooth.volume hpiece hs
      rw [VirtioBlk.read_completes hsmooth.device _ _ haddress hlength] at hread
      cases hread
    | true =>
      by_cases hpointer : bufferPointer + p.bytes < 2 ^ 64
      · refine .inr (.inr ?_)
        simp only [turn_joins hs hpointer, proceed]
        split_ifs
        · rfl
        · cases fs.getNextCluster (c + p.clusters - 1) with
          | none => rfl
          | some next => rfl
      · refine .inl ⟨.inr (by omega), .overflow, { m with mem := mem }, ?_⟩
        rw [turn, hs.bytes, Checked.add, if_neg hpointer]
        rfl

/-- A first turn that starts within a sector. -/
theorem Bounded.readFrom_bounced (h : fs.Bounded length) (pages : Pages η)
    (hoffset : dataOffset < fs.bytesPerCluster) (hc : fs.HasCluster c)
    (hresidue : fs.residue dataOffset ≠ 0) (hallocates : Allocates pages m.heap) (fuel : ℕ)
    (hpiece : fs.linkedPiece 0 length c dataOffset = some p) :
    (¬ (fs.Smooth m.blk ∧ Provides pages m.heap
          (length + 2 * fs.bytesPerSector + fs.lbaSize + 4096)) ∧ ∃ m₁,
        fs.readFrom pages bufferAddress length (fuel + 1) c dataOffset 0 m = (.error .err, m₁)) ∨
      ∃ m₁, m₁.blk = m.blk ∧
        fs.readFrom pages bufferAddress length (fuel + 1) c dataOffset 0 m =
          fs.proceed pages bufferAddress length fuel c 0 p m₁ := by
  have hspan := h.span_joins (Nat.zero_le _) hoffset (.inl rfl) hc
  rw [hpiece] at hspan
  obtain ⟨s, hok, hs, hsectors, hrange⟩ := hspan
  obtain ⟨hbytes, hle⟩ := linkedPiece_le h.geometry hpiece
  have hsize := h.size
  have hcount := bufferPages_ok h.geometry h.block hsectors
  simp only [readFrom, readSpan, hok, Checked.ok_bind, hcount, lift_ok, Checked.pure_eq_ok,
    hs.dataOffsetBackup, hresidue, ne_eq, not_false_eq_true, if_true, readBounced, hrange,
    turn_joins hs (show 0 + p.bytes < 2 ^ 64 by omega)]
  rcases hallocates (pageCount fs.lbaSize (s.sectors * fs.bytesPerSector)) with
    ⟨heap₁, halloc⟩ | ⟨address, heap₁, heap₂, halloc, hfree⟩
  · rw [halloc]
    refine .inl ⟨fun hsmooth => ?_, _, rfl⟩
    have hpages := pageCount_le fs.lbaSize (s.sectors * fs.bytesPerSector)
    rw [hs.size] at hle
    obtain ⟨_, _, _, hsome, -⟩ := hsmooth.2 _ (hpages.trans (by omega))
    rw [halloc] at hsome
    cases hsome
  · rw [halloc]
    cases hread : m.blk.read m.mem address p.address p.size with
    | mk success mem =>
      cases success with
      | false =>
        simp only [hread, hfree, if_true]
        refine .inl ⟨fun hsmooth => ?_, _, rfl⟩
        obtain ⟨haddress, hlength⟩ := linkedPiece_aligned hsmooth.1.volume hpiece hs
        rw [VirtioBlk.read_completes hsmooth.1.device _ _ haddress hlength] at hread
        cases hread
      | true =>
        simp only [hread, Bool.true_eq_false, if_false, not_true_eq_false, hfree]
        refine .inr ⟨⟨Bytes.copy mem mem bufferAddress (address + fs.residue dataOffset) s.bytes,
          heap₂, m.blk⟩, rfl, ?_⟩
        simp only [proceed]
        split_ifs
        · rfl
        · cases fs.getNextCluster (c + p.clusters - 1) with
          | none => rfl
          | some next => rfl

/-- The first turn of a call. -/
theorem Bounded.readFrom_first (h : fs.Bounded length) (pages : Pages η)
    (hoffset : dataOffset < fs.bytesPerCluster) (hc : fs.HasCluster c)
    (hbuffer : bufferAddress + length < 2 ^ 64) (hallocates : Allocates pages m.heap) (fuel : ℕ)
    (hpiece : fs.linkedPiece 0 length c dataOffset = some p) :
    (¬ (fs.Smooth m.blk ∧ Provides pages m.heap
          (length + 2 * fs.bytesPerSector + fs.lbaSize + 4096)) ∧ ∃ m₁,
        fs.readFrom pages bufferAddress length (fuel + 1) c dataOffset 0 m = (.error .err, m₁)) ∨
      ∃ m₁, m₁.blk = m.blk ∧
        fs.readFrom pages bufferAddress length (fuel + 1) c dataOffset 0 m =
          fs.proceed pages bufferAddress length fuel c 0 p m₁ := by
  by_cases hresidue : fs.residue dataOffset = 0
  · rcases h.readFrom_direct pages bufferAddress 0 hoffset hc hresidue fuel hpiece with
      ⟨hover, -⟩ | ⟨hrough, herr⟩ | hturn
    · omega
    · exact .inl ⟨fun hsmooth => hrough hsmooth.1, herr⟩
    · refine .inr ⟨_, ?_, hturn⟩
      rfl
  · exact h.readFrom_bounced pages hoffset hc hresidue hallocates fuel hpiece

theorem proceed_last (pages : Pages η) (c bufferPointer : ℕ) (p : Piece) :
    (fs.proceed pages bufferAddress length 0 c bufferPointer p m).2 = m := by
  rw [proceed]
  split_ifs
  · rfl
  · cases fs.getNextCluster (c + p.clusters - 1) with
    | none => rfl
    | some next => rfl

/-- A turn that starts at a sector fills the extent of its piece. -/
theorem Bounded.readFrom_fills (h : fs.Bounded length) (pages : Pages η)
    (hsmooth : fs.Smooth m.blk) (hoffset : dataOffset < fs.bytesPerCluster) (hc : fs.HasCluster c)
    (hresidue : fs.residue dataOffset = 0) {bufferPointer : ℕ}
    (hbuffer : bufferAddress + bufferPointer < 2 ^ 64) (hpointer : bufferPointer + length < 2 ^ 64)
    (hpiece : fs.linkedPiece 0 length c dataOffset = some p) {i : ℕ} (hi : i < p.size % 2 ^ 32) :
    (fs.readFrom pages bufferAddress length 1 c dataOffset bufferPointer m).2.mem
      (bufferAddress + bufferPointer + i) = m.blk.disk (p.address + i) := by
  have hspan := h.span_joins (Nat.zero_le _) hoffset (.inl rfl) hc
  rw [hpiece] at hspan
  obtain ⟨s, -, hs, -⟩ := hspan
  obtain ⟨haddress, hsize⟩ := linkedPiece_aligned hsmooth.volume hpiece hs
  rcases h.readFrom_direct pages bufferAddress bufferPointer hoffset hc hresidue 0 hpiece with
    ⟨hover, -⟩ | ⟨hrough, -⟩ | hturn
  · omega
  · exact absurd hsmooth hrough
  · rw [hturn, proceed_last, VirtioBlk.read_completes hsmooth.device _ _ haddress hsize]
    exact Bytes.copy_inside _ _ _ _ hi

end Linked

/-! ## Runs within the buffer -/

/-- The run behind the break at cluster `e` is the last one of the chain, and shorter than
a number of bytes. -/
def RunsOut (fs : Fat32) (c e n : ℕ) : Prop :=
  ∃ e', e < e' ∧ fs.Stops c e' ∧ (e' - e) * fs.bytesPerCluster < n ∧
    ∀ j, e < j → j < e' → ¬ fs.Breaks c j

/-- Behind every break of the chain within the request, the next run ends with a break
within the request, or it is the last one and shorter than the request. -/
def Confines (fs : Fat32) (c n residue : ℕ) : Prop :=
  ∀ e, fs.Breaks c e → (e + 1) * fs.bytesPerCluster < n + residue →
    (∃ e', e < e' ∧ fs.Breaks c e' ∧ (e' + 1) * fs.bytesPerCluster ≤ n + residue) ∨
      fs.RunsOut c e n

@[simp] theorem residue_zero : fs.residue 0 = 0 := by simp [residue]

/-- The piece from a cluster on whose run ends soon. -/
theorem linkedPiece_soon (hpos : 0 < fs.bytesPerCluster) {n x k : ℕ}
    (hends : fs.Breaks x k ∨ fs.Stops x k) (hshort : (k + 1) * fs.bytesPerCluster < n) {p : Piece}
    (hpiece : fs.linkedPiece 0 n x 0 = some p) :
    ∃ l, l ≤ k ∧ fs.Breaks x l ∧ (∀ j, j < l → ¬ fs.Breaks x j ∧ ¬ fs.Stops x j) ∧
      p.size = (l + 1) * fs.bytesPerCluster ∧ p.bytes = (l + 1) * fs.bytesPerCluster ∧
      p.clusters = l + 1 := by
  have hcovers : ¬ fs.Covers x (n + fs.residue 0) := by
    intro hcovers
    rw [residue_zero, Nat.add_zero] at hcovers
    obtain ⟨hnb, hns⟩ := hcovers k hshort
    exact hends.elim hnb hns
  obtain ⟨l, -, hrun, hcases⟩ := linkedPiece_short hpos 0 hcovers
  have hlk : l ≤ k := by
    by_contra hlt
    obtain ⟨hnb, hns⟩ := hrun k (by omega)
    exact hends.elim hnb hns
  rcases hcases with ⟨-, hnone⟩ | ⟨hbreaks, hsome⟩
  · rw [hnone] at hpiece
    cases hpiece
  · rw [hsome] at hpiece
    obtain rfl := Option.some.inj hpiece
    exact ⟨l, hlk, hbreaks, hrun, rfl, by simp, rfl⟩

/-- The piece behind a break within a confined request ends within the request. -/
theorem Confines.piece (hpos : 0 < fs.bytesPerCluster) {c n r e x : ℕ} (h : fs.Confines c n r)
    (hr : r < fs.bytesPerCluster) (hbreak : fs.Breaks c e) (hx : fs.follow c (e + 1) = some x)
    (hin : (e + 1) * fs.bytesPerCluster < n + r) {p : Piece}
    (hpiece : fs.linkedPiece 0 n x 0 = some p) :
    ∃ l, fs.Breaks c (e + 1 + l) ∧ (∀ j, j < l → ¬ fs.Breaks x j ∧ ¬ fs.Stops x j) ∧
      (e + 1 + l + 1) * fs.bytesPerCluster ≤ n + r ∧ p.size = (l + 1) * fs.bytesPerCluster ∧
      p.bytes = (l + 1) * fs.bytesPerCluster ∧ p.clusters = l + 1 := by
  have hfirst := fs.bytesPerCluster_le_mul e
  rcases h e hbreak hin with ⟨e', hlt, hbreak', hend⟩ | ⟨e', hlt, hstops, hshort, hnone⟩
  · obtain ⟨k, rfl⟩ := Nat.exists_eq_add_of_lt hlt
    rw [show e + k + 1 = e + 1 + k by omega] at hbreak' hend
    have hsplit := Nat.add_mul (e + 1) (k + 1) fs.bytesPerCluster
    rw [← Nat.add_assoc] at hsplit
    obtain ⟨l, hlk, hbreaks, hrun, hp⟩ := linkedPiece_soon hpos
      (.inl ((breaks_add hx k).mp hbreak')) (by omega) hpiece
    have hmono := Nat.mul_le_mul_right fs.bytesPerCluster (show e + 1 + l + 1 ≤ e + 1 + k + 1 by omega)
    exact ⟨l, (breaks_add hx l).mpr hbreaks, hrun, hmono.trans hend, hp⟩
  · -- The last run has no piece.
    obtain ⟨k, rfl⟩ := Nat.exists_eq_add_of_lt hlt
    rw [show e + k + 1 - e = k + 1 by omega] at hshort
    rw [show e + k + 1 = e + 1 + k by omega] at hstops hnone
    obtain ⟨l, hlk, hbreaks, -⟩ := linkedPiece_soon hpos
      (.inr ((stops_add hx k).mp hstops)) hshort hpiece
    have hbreak' := (breaks_add hx l).mpr hbreaks
    rcases hlk.eq_or_lt with rfl | hlk
    · exact absurd hbreak' (not_breaks_of_stops hstops le_rfl)
    · exact absurd hbreak' (hnone (e + 1 + l) (by omega) (by omega))

/-- Later turns of a confined request stay within the caller's buffer. -/
theorem readFrom_confined (hfs : fs.Geometry) (pages : Pages η) {bufferAddress n c r : ℕ}
    (hr : r < fs.bytesPerCluster) (h : fs.Confines c n r) (fuel e x bufferPointer : ℕ)
    (m : Machine η) (hbreak : fs.Breaks c e) (hx : fs.follow c (e + 1) = some x)
    (hpointer : bufferPointer + r = (e + 1) * fs.bytesPerCluster)
    (hin : (e + 1) * fs.bytesPerCluster < n + r) {a : ℕ}
    (ha : ¬ (bufferAddress ≤ a ∧ a < bufferAddress + n)) :
    (fs.readFrom pages bufferAddress n fuel x 0 bufferPointer m).2.mem a = m.mem a := by
  induction fuel generalizing e x bufferPointer m with
  | zero => rfl
  | succ fuel ih =>
    have hpos := hfs.bytesPerCluster_pos
    rcases readFrom_outside_turn hfs pages hpos fuel m with hkeeps | ⟨p, m₁, hpiece, hfilled, hrest⟩
    · rw [hkeeps]
    obtain ⟨l, hbreak', hrun, hend, hsize, hbytes, hclusters⟩ := h.piece hpos hr hbreak hx hin hpiece
    have hsplit := Nat.add_mul (e + 1) (l + 1) fs.bytesPerCluster
    rw [← Nat.add_assoc] at hsplit
    have hturn : m₁.mem a = m.mem a := by
      apply hfilled
      rw [Filled, residue_zero, if_pos rfl, hsize]
      have hmod := Nat.mod_le ((l + 1) * fs.bytesPerCluster) (2 ^ 32)
      omega
    rcases hrest with hlast | ⟨next, hnext, hmore, hrest⟩
    · rw [hlast, hturn]
    · rw [hclusters, ← Nat.add_assoc, Nat.add_sub_cancel] at hnext
      rw [hbytes] at hmore hrest
      have hfollow : fs.follow c (e + 1 + l + 1) = some next := by
        rw [Nat.add_assoc, follow_of_some hx]
        exact follow_run hrun hnext
      rw [hrest, ih (e + 1 + l) next _ m₁ hbreak' hfollow (by omega) (by omega), hturn]

/-! ## Whole calls -/

/-- The pages that a call takes for its bounce buffer. -/
def BouncePages (fs : Fat32) (pages : Pages η) (heap : η) (file : FileInfo) (offset length a : ℕ) :
    Prop :=
  ∃ c dataOffset, fs.locate file offset = .ok (c, dataOffset) ∧
    fs.Bounced pages heap (count file offset length) c dataOffset a

/-- Whatever the call returns, outside of its bounce buffer it changes at most the bytes
of the caller's buffer that the file has. -/
def ReadsInside (fs : Fat32) (file : FileInfo) (pages : Pages η) (heap : η)
    (bufferAddress offset length : ℕ) : Prop :=
  ∀ (mem : Bytes) (blk : VirtioBlk) (fuel a : ℕ),
    ¬ (bufferAddress ≤ a ∧ a < bufferAddress + count file offset length) →
    ¬ fs.BouncePages pages heap file offset length a →
      (fs.read pages fuel file bufferAddress offset length ⟨mem, heap, blk⟩).2.mem a = mem a

/-- The request overflows or lies behind the file, or its sectors and runs end within the
length. -/
def FitsBuffer (fs : Fat32) (file : FileInfo) (offset length : ℕ) : Prop :=
  2 ^ 64 ≤ offset + length ∨ (file.fileSize < offset + length ∧ file.fileSize ≤ offset) ∨
    ∀ c, fs.follow file.entryCluster (offset / fs.bytesPerCluster) = some c →
      (fs.residue (offset % fs.bytesPerCluster) = 0 → fs.Covers c (count file offset length) →
        0 < count file offset length ∧ fs.bytesPerSector ∣ count file offset length) ∧
      fs.Confines c (count file offset length) (fs.residue (offset % fs.bytesPerCluster))

section Call
variable {file : FileInfo} {bufferAddress offset length : ℕ}

theorem readFrom_inside (hfs : fs.Geometry) (pages : Pages η) {n c dataOffset : ℕ}
    (hoffset : dataOffset < fs.bytesPerCluster)
    (hwhole : fs.residue dataOffset = 0 → fs.Covers c n → 0 < n ∧ fs.bytesPerSector ∣ n)
    (hconfines : fs.Confines c n (fs.residue dataOffset)) (fuel : ℕ) (m : Machine η) {a : ℕ}
    (ha : ¬ (bufferAddress ≤ a ∧ a < bufferAddress + n))
    (hb : ¬ fs.Bounced pages m.heap n c dataOffset a) :
    (fs.readFrom pages bufferAddress n fuel c dataOffset 0 m).2.mem a = m.mem a := by
  cases fuel with
  | zero => rfl
  | succ fuel =>
    have hpos := hfs.bytesPerCluster_pos
    have hr : fs.residue dataOffset < fs.bytesPerCluster := (Nat.sub_le _ _).trans_lt hoffset
    rcases readFrom_outside_turn hfs pages hoffset fuel m with hkeeps | ⟨p, m₁, hpiece, hfilled, hrest⟩
    · rw [hkeeps]
    by_cases hcovers : fs.Covers c (n + fs.residue dataOffset)
    · rw [linkedPiece_covers hpos 0 hcovers, if_neg (Nat.not_lt_zero _)] at hpiece
      obtain rfl := Option.some.inj hpiece
      have hturn : m₁.mem a = m.mem a := by
        apply hfilled
        by_cases hresidue : fs.residue dataOffset = 0
        · rw [hresidue, Nat.add_zero] at hcovers
          obtain ⟨hn, hdvd⟩ := hwhole hresidue hcovers
          have hmod := Nat.mod_le n (2 ^ 32)
          rw [Filled, if_pos hresidue, hresidue, Nat.add_zero, Nat.add_zero,
            sectors_of_dvd hfs.sectorPos hn hdvd]
          dsimp only
          omega
        · rw [Filled, if_neg hresidue]
          exact not_or.mpr ⟨ha, hb⟩
      rcases hrest with hlast | ⟨next, -, hmore, -⟩
      · rw [hlast, hturn]
      · exact absurd (Nat.zero_add n).symm hmore
    · obtain ⟨l, hwithin, hrun, ⟨-, hnone⟩ | ⟨hbreaks, hsome⟩⟩ := linkedPiece_short hpos 0 hcovers
      · rw [hnone] at hpiece
        cases hpiece
      rw [hsome] at hpiece
      obtain rfl := Option.some.inj hpiece
      have hfirst := fs.bytesPerCluster_le_mul l
      have hturn : m₁.mem a = m.mem a := by
        apply hfilled
        by_cases hresidue : fs.residue dataOffset = 0
        · have hmod := Nat.mod_le ((l + 1) * fs.bytesPerCluster) (2 ^ 32)
          rw [Filled, if_pos hresidue]
          dsimp only
          omega
        · rw [Filled, if_neg hresidue]
          refine not_or.mpr ⟨?_, hb⟩
          dsimp only
          omega
      rcases hrest with hlast | ⟨next, hnext, -, hrest⟩
      · rw [hlast, hturn]
      · dsimp only at hnext hrest
        rw [← Nat.add_assoc, Nat.add_sub_cancel] at hnext
        rw [hrest, readFrom_confined hfs pages hr hconfines fuel l next _ m₁ hbreaks
          (follow_run hrun hnext) (by omega) hwithin ha, hturn]

/-- The condition is enough for every volume, whatever its table holds. -/
theorem readsInside_of_fits (hsector : fs.bytesPerSector < 2 ^ 16)
    (hcluster : fs.sectorsPerCluster < 2 ^ 8) (pages : Pages η) (heap : η) (bufferAddress : ℕ)
    (h : fs.FitsBuffer file offset length) :
    fs.ReadsInside file pages heap bufferAddress offset length := by
  intro mem blk fuel a ha hb
  rw [read]
  by_cases hsum : offset + length < 2 ^ 64
  swap
  · rw [clamp, Checked.add, if_neg hsum]
    rfl
  by_cases hpos : 0 < fs.bytesPerCluster
  swap
  · have hlocate : fs.locate file offset = .error (.panic .divideByZero) :=
      if_pos (Nat.eq_zero_of_not_pos hpos)
    rw [hlocate]
    rcases clamp_cases hsum with hclamp | hclamp
    · rw [hclamp]
    · rw [hclamp]
  have hfs : fs.Geometry :=
    ⟨Nat.pos_of_mul_pos_left hpos, hsector, Nat.pos_of_mul_pos_right hpos, hcluster⟩
  have hlocate := locate_follow hpos file offset
  rw [clamp_eq hsum]
  by_cases hbehind : file.fileSize < offset + length ∧ file.fileSize ≤ offset
  · rw [if_pos hbehind]
  rw [if_neg hbehind]
  cases hfollow : fs.follow file.entryCluster (offset / fs.bytesPerCluster) with
  | none =>
    rw [hfollow] at hlocate
    rw [hlocate]
  | some c =>
    rw [hfollow] at hlocate
    rw [hlocate]
    obtain ⟨hwhole, hconfines⟩ := ((h.resolve_left (not_le.mpr hsum)).resolve_left hbehind) c hfollow
    exact readFrom_inside hfs pages (Nat.mod_lt _ hpos) hwhole hconfines fuel _ ha fun hbounced =>
      hb ⟨c, _, hlocate, hbounced⟩

/-! ## Requests that leave the buffer -/

/-- A call in which no number overflows, every request is accepted and its bounce buffer
does not lie behind the caller's buffer. -/
structure Ordinary (fs : Fat32) (file : FileInfo) (pages : Pages η) (heap : η)
    (bufferAddress offset length : ℕ) : Prop where
  volume : fs.WellFormed
  size : file.fileSize < 2 ^ 32
  clusters : ∀ i x, fs.follow file.entryCluster i = some x → fs.HasCluster x
  transfer : fs.sectorCount (count file offset length) * fs.bytesPerSector < 2 ^ 32
  buffer : bufferAddress + count file offset length < 2 ^ 64
  allocates : Allocates pages heap
  provides : Provides pages heap
    (count file offset length + 2 * fs.bytesPerSector + fs.lbaSize + 4096)
  apart : ∀ n p heap', pages.allocatePages heap n 0 = .ok (some p, heap') →
    ¬ (p ≤ bufferAddress + count file offset length ∧
      bufferAddress + count file offset length < p + n * 4096)

/-- Behind a break the reader comes to every later break within the request. -/
theorem Bounded.reaches {n c r : ℕ} (h : fs.Bounded n) (pages : Pages η) {blk : VirtioBlk}
    (hsmooth : fs.Smooth blk) (hclusters : ∀ i x, fs.follow c i = some x → fs.HasCluster x)
    (hbuffer : bufferAddress + n < 2 ^ 64) {e y : ℕ} (hbreak : fs.Breaks c e)
    (hy : fs.follow c (e + 1) = some y) (hin : (e + 1) * fs.bytesPerCluster < n + r) (left e₁ x bufferPointer : ℕ)
    (hleft : e₁ + left = e) (hx : fs.follow c (e₁ + 1) = some x)
    (hpointer : bufferPointer + r = (e₁ + 1) * fs.bytesPerCluster) :
    ∃ turns, ∀ (m : Machine η) fuel, m.blk = blk → ∃ m', m'.blk = blk ∧
      fs.readFrom pages bufferAddress n (fuel + turns) x 0 bufferPointer m =
        fs.readFrom pages bufferAddress n fuel y 0 ((e + 1) * fs.bytesPerCluster - r) m' := by
  induction left using Nat.strong_induction_on generalizing e₁ x bufferPointer with
  | _ left ih =>
    have hpos := h.geometry.bytesPerCluster_pos
    have hsize := h.size
    have hfirst := fs.bytesPerCluster_le_mul e₁
    rcases Nat.eq_zero_or_pos left with rfl | hmore
    · subst hleft
      rw [hx] at hy
      obtain rfl := Option.some.inj hy
      refine ⟨0, fun m fuel hblk => ⟨m, hblk, ?_⟩⟩
      rw [← hpointer, Nat.add_sub_cancel, Nat.add_zero]
    obtain ⟨k, rfl⟩ : ∃ k, left = k + 1 := ⟨left - 1, by omega⟩
    obtain rfl : e₁ + 1 + k = e := by omega
    have hsplit := Nat.add_mul (e₁ + 1) (k + 1) fs.bytesPerCluster
    rw [← Nat.add_assoc] at hsplit
    rw [breaks_add hx] at hbreak
    have hcovers : ¬ fs.Covers x (n + fs.residue 0) := by
      rw [residue_zero]
      exact fun hcovers => (hcovers k (by omega)).1 hbreak
    obtain ⟨l, -, hrun, hcases⟩ := linkedPiece_short hpos 0 hcovers
    have hlk : l ≤ k := by
      by_contra hlt
      exact (hrun k (by omega)).1 hbreak
    obtain ⟨hstops, -⟩ | ⟨hbreaks, hpiece⟩ := hcases
    · exact absurd hbreak (not_breaks_of_stops hstops hlk)
    obtain ⟨w, z, hw, hz, hne⟩ := hbreaks
    rw [follow_last hrun] at hw
    obtain rfl := Option.some.inj hw
    have hfollow : fs.follow c (e₁ + 1 + l + 1) = some z := by
      rw [Nat.add_assoc, follow_of_some hx]
      exact follow_run hrun hz
    have hstep := Nat.add_mul (e₁ + 1) (l + 1) fs.bytesPerCluster
    rw [← Nat.add_assoc] at hstep
    have hmono := Nat.mul_le_mul_right fs.bytesPerCluster
      (show e₁ + 1 + l + 1 ≤ e₁ + 1 + k + 1 by omega)
    obtain ⟨turns, hturns⟩ := ih (k - l) (by omega) (e₁ + 1 + l) z
      (bufferPointer + (l + 1) * fs.bytesPerCluster) (by omega) hfollow (by omega)
    refine ⟨turns + 1, fun m fuel hblk => ?_⟩
    rcases h.readFrom_direct pages bufferAddress bufferPointer hpos (hclusters _ _ hx) residue_zero
      (fuel + turns) hpiece with ⟨hover, -⟩ | ⟨hrough, -⟩ | hturn
    · omega
    · exact absurd (hblk ▸ hsmooth) hrough
    · rw [← Nat.add_assoc, hturn, proceed]
      dsimp only
      rw [residue_zero, Nat.sub_zero, if_neg (by omega), ← Nat.add_assoc, Nat.add_sub_cancel, hz]
      exact hturns _ fuel hblk

/-- A disk of ones. -/
def onesDisk : VirtioBlk := ⟨fun _ => 1, fun _ n => n⟩

theorem onesDisk_smooth (h : fs.WellFormed) : fs.Smooth onesDisk := ⟨h, fun _ _ => le_rfl⟩

/-- The turn behind the last break within the request leaves the buffer, unless it comes
to the end of the chain. -/
theorem Bounded.leaves {n c r : ℕ} (h : fs.Bounded n) (pages : Pages η)
    (hfs : fs.WellFormed) (hclusters : ∀ i x, fs.follow c i = some x → fs.HasCluster x)
    (htransfer : fs.sectorCount n * fs.bytesPerSector < 2 ^ 32)
    (hbuffer : bufferAddress + n < 2 ^ 64) (hr : r < fs.bytesPerCluster) {e x : ℕ}
    (hx : fs.follow c (e + 1) = some x) (hin : (e + 1) * fs.bytesPerCluster < n + r)
    (hlast : ∀ e', e < e' → fs.Breaks c e' → n + r < (e' + 1) * fs.bytesPerCluster)
    (hruns : ¬ fs.RunsOut c e n) {m : Machine η} (hblk : m.blk = onesDisk) :
    (fs.readFrom pages bufferAddress n 1 x 0 ((e + 1) * fs.bytesPerCluster - r) m).2.mem
      (bufferAddress + n) = 1 := by
  have hpos := hfs.bytesPerCluster_pos
  have hsize := h.size
  have hfirst := fs.bytesPerCluster_le_mul e
  have hsmooth : fs.Smooth m.blk := hblk ▸ onesDisk_smooth hfs
  -- Whatever the piece, it reaches past the length.
  have hreach : ∃ p, fs.linkedPiece 0 n x 0 = some p ∧ p.size < 2 ^ 32 ∧
      n + r < (e + 1) * fs.bytesPerCluster + p.size := by
    by_cases hcovers : fs.Covers x (n + fs.residue 0)
    · refine ⟨_, (linkedPiece_covers hpos 0 hcovers).trans (if_neg (Nat.not_lt_zero _)), ?_⟩
      rw [residue_zero, Nat.add_zero]
      have hle := le_sectors hfs.sectorPos n
      exact ⟨htransfer, by dsimp only; omega⟩
    · obtain ⟨l, hwithin, hrun, ⟨hstops, -⟩ | ⟨hbreaks, hpiece⟩⟩ := linkedPiece_short hpos 0 hcovers
      · rw [residue_zero, Nat.add_zero] at hwithin
        refine absurd ⟨e + 1 + l, by omega, (stops_add hx l).mpr hstops, ?_, ?_⟩ hruns
        · rwa [show e + 1 + l - e = l + 1 by omega]
        · intro j hlow hhigh
          obtain ⟨i, rfl⟩ := Nat.exists_eq_add_of_le (show e + 1 ≤ j from hlow)
          rw [breaks_add hx]
          exact (hrun i (by omega)).1
      · rw [residue_zero, Nat.add_zero] at hwithin
        have hbeyond := hlast (e + 1 + l) (by omega) ((breaks_add hx l).mpr hbreaks)
        have hsplit := Nat.add_mul (e + 1) (l + 1) fs.bytesPerCluster
        rw [← Nat.add_assoc] at hsplit
        exact ⟨_, hpiece, by dsimp only; omega, by dsimp only; omega⟩
  obtain ⟨p, hpiece, hlt, hbeyond⟩ := hreach
  obtain ⟨i, hi⟩ : ∃ i, (e + 1) * fs.bytesPerCluster - r + i = n :=
    ⟨n - ((e + 1) * fs.bytesPerCluster - r), by omega⟩
  have hfills : (fs.readFrom pages bufferAddress n 1 x 0 ((e + 1) * fs.bytesPerCluster - r) m).2.mem
      (bufferAddress + ((e + 1) * fs.bytesPerCluster - r) + i) = m.blk.disk (p.address + i) :=
    h.readFrom_fills pages hsmooth hpos (hclusters _ _ hx) residue_zero (by omega) (by omega) hpiece
      (by rw [Nat.mod_eq_of_lt hlt]; omega)
  rw [Nat.add_assoc, hi] at hfills
  rw [hfills, hblk]
  rfl

/-- A request with a break that it does not end behind leaves the buffer. -/
theorem Bounded.not_confined {n c dataOffset : ℕ} (h : fs.Bounded n) (pages : Pages η)
    (hfs : fs.WellFormed) (hclusters : ∀ i x, fs.follow c i = some x → fs.HasCluster x)
    (htransfer : fs.sectorCount n * fs.bytesPerSector < 2 ^ 32)
    (hbuffer : bufferAddress + n < 2 ^ 64) (hoffset : dataOffset < fs.bytesPerCluster)
    {m : Machine η} (hallocates : Allocates pages m.heap)
    (hprovides : Provides pages m.heap (n + 2 * fs.bytesPerSector + fs.lbaSize + 4096))
    (hblk : m.blk = onesDisk) (hnot : ¬ fs.Confines c n (fs.residue dataOffset)) :
    ∃ fuel, (fs.readFrom pages bufferAddress n fuel c dataOffset 0 m).2.mem (bufferAddress + n) = 1 := by
  have hpos := hfs.bytesPerCluster_pos
  have hr : fs.residue dataOffset < fs.bytesPerCluster := (Nat.sub_le _ _).trans_lt hoffset
  simp only [Confines, not_forall, not_or, not_exists, not_and, not_le] at hnot
  obtain ⟨e, hbreak, hin, hlast, hruns⟩ := hnot
  obtain ⟨w, y, hw, hy, -⟩ := id hbreak
  have hfollow : fs.follow c (e + 1) = some y := by
    rw [follow, hw]
    exact hy
  have hcovers : ¬ fs.Covers c (n + fs.residue dataOffset) :=
    fun hcovers => (hcovers e hin).1 hbreak
  obtain ⟨l, hwithin, hrun, hcases⟩ := linkedPiece_short hpos 0 hcovers
  have hle : l ≤ e := by
    by_contra hlt
    exact (hrun e (by omega)).1 hbreak
  obtain ⟨hstops, -⟩ | ⟨⟨v, z, hv, hz, hne⟩, hpiece⟩ := hcases
  · exact absurd hbreak (not_breaks_of_stops hstops hle)
  rw [follow_last hrun] at hv
  obtain rfl := Option.some.inj hv
  have hfirst := fs.bytesPerCluster_le_mul l
  obtain ⟨turns, hturns⟩ := h.reaches pages (onesDisk_smooth hfs) hclusters hbuffer hbreak hfollow hin
    (e - l) l z ((l + 1) * fs.bytesPerCluster - fs.residue dataOffset) (by omega)
    (follow_run hrun hz) (by omega)
  refine ⟨1 + turns + 1, ?_⟩
  rcases h.readFrom_first pages hoffset (hclusters 0 c rfl) hbuffer
    hallocates (1 + turns) hpiece with ⟨hrough, -⟩ | ⟨m₁, hblk₁, hturn⟩
  · exact absurd ⟨hblk ▸ onesDisk_smooth hfs, hprovides⟩ hrough
  · rw [hturn, proceed]
    dsimp only
    rw [if_neg (by omega), ← Nat.add_assoc, Nat.add_sub_cancel, hz]
    dsimp only
    rw [Nat.zero_add]
    obtain ⟨m', hblk', hrest⟩ := hturns m₁ 1 (hblk₁.trans hblk)
    rw [hrest]
    exact h.leaves pages hfs hclusters htransfer hbuffer hr hfollow hin
      (fun e' hlt hbreak' => hlast e' hlt hbreak') hruns hblk'

theorem Ordinary.fitsBuffer {pages : Pages η} {heap : η}
    (h : fs.Ordinary file pages heap bufferAddress offset length)
    (hinside : fs.ReadsInside file pages heap bufferAddress offset length) :
    fs.FitsBuffer file offset length := by
  have hfs := h.volume
  have hpos := hfs.bytesPerCluster_pos
  have hsize := h.size
  have hbuffer := h.buffer
  have hcount : count file offset length = min length (file.fileSize - offset) := rfl
  have hbounded : fs.Bounded (count file offset length) := hfs.bounded (by omega)
  by_cases hsum : offset + length < 2 ^ 64
  swap
  · exact .inl (not_lt.mp hsum)
  by_cases hbehind : file.fileSize < offset + length ∧ file.fileSize ≤ offset
  · exact .inr (.inl hbehind)
  refine .inr (.inr fun c hfollow => ?_)
  have hoffset := Nat.mod_lt offset hpos
  have hclusters : ∀ i x, fs.follow c i = some x → fs.HasCluster x := by
    intro i x hx
    rw [← follow_of_some hfollow] at hx
    exact h.clusters _ x hx
  -- The byte behind the buffer stays zero.
  have hkeeps : ∀ fuel, (fs.readFrom pages bufferAddress (count file offset length) fuel c
      (offset % fs.bytesPerCluster) 0 ⟨fun _ => 0, heap, onesDisk⟩).2.mem
        (bufferAddress + count file offset length) = 0 := by
    intro fuel
    have hlocate := locate_follow hpos file offset
    rw [hfollow] at hlocate
    have hread := hinside (fun _ => 0) onesDisk fuel (bufferAddress + count file offset length)
      (by omega) (by
        rintro ⟨-, -, -, s, n, p, heap', -, -, -, halloc, hin⟩
        exact h.apart n p heap' halloc hin)
    rw [read, clamp_eq hsum, if_neg hbehind, hlocate] at hread
    exact hread
  constructor
  · intro hresidue hcovers
    by_contra hnot
    rw [← sectors_le_iff hfs.sectorPos, not_le] at hnot
    have hcovers' : fs.Covers c (count file offset length +
        fs.residue (offset % fs.bytesPerCluster)) := by rwa [hresidue]
    have htransfer := h.transfer
    have hpiece := linkedPiece_covers hpos 0 hcovers'
    rw [if_neg (Nat.not_lt_zero _), hresidue, Nat.add_zero] at hpiece
    have hfills := hbounded.readFrom_fills (m := ⟨fun _ => 0, heap, onesDisk⟩) pages
      (onesDisk_smooth hfs) hoffset (hclusters 0 c rfl) hresidue
      (show bufferAddress + 0 < 2 ^ 64 by omega) (by omega) hpiece
      (show count file offset length < _ by
        dsimp only
        rwa [Nat.mod_eq_of_lt htransfer])
    rw [Nat.add_zero, hkeeps] at hfills
    cases hfills
  · by_contra hnot
    obtain ⟨fuel, hone⟩ := hbounded.not_confined pages hfs hclusters h.transfer hbuffer hoffset
      (m := ⟨fun _ => 0, heap, onesDisk⟩) h.allocates h.provides rfl hnot
    rw [hkeeps] at hone
    cases hone

/-- For every volume and every table, the reader stays within the caller's buffer if the
sectors and the runs of the request end within its length. Where nothing overflows and
every request is accepted, it does so only then. -/
theorem readsInside_iff (fs : Fat32) (hsector : fs.bytesPerSector < 2 ^ 16)
    (hcluster : fs.sectorsPerCluster < 2 ^ 8) (file : FileInfo) (pages : Pages η) (heap : η)
    (bufferAddress offset length : ℕ) :
    (fs.FitsBuffer file offset length →
      fs.ReadsInside file pages heap bufferAddress offset length) ∧
    (fs.Ordinary file pages heap bufferAddress offset length →
      (fs.ReadsInside file pages heap bufferAddress offset length ↔
        fs.FitsBuffer file offset length)) := by
  have hfits : fs.FitsBuffer file offset length →
      fs.ReadsInside file pages heap bufferAddress offset length :=
    readsInside_of_fits hsector hcluster pages heap bufferAddress
  exact ⟨hfits, fun h => ⟨h.fitsBuffer, hfits⟩⟩

end Call

/-- The two clusters of a file are read to a buffer of their size. -/
theorem readsInside_two_clusters :
    (sampleVolume 6).ReadsInside ⟨5, 4096⟩ onePage () 0x48000000 0 4096 := by
  apply (readsInside_iff (sampleVolume 6) (by decide) (by decide) ⟨5, 4096⟩ onePage () 0x48000000 0
    4096).1
  refine .inr (.inr fun c hc => ⟨fun _ _ => by decide, ?_⟩)
  rintro e ⟨x, y, hx, hy, hne⟩ hin
  obtain rfl : 5 = c := Option.some.inj hc
  have he : e = 0 := by
    simp only [bytesPerCluster, sampleVolume, count, residue] at hin
    omega
  subst he
  obtain rfl : 5 = x := Option.some.inj hx
  obtain rfl : 6 = y := Option.some.inj hy
  exact absurd rfl hne

/-- A read of 100 bytes fills a sector: the byte behind the buffer is overwritten. -/
theorem short_read_overruns : (sampleVolume 6).Holds ⟨5, 4096⟩ [5, 6] ∧
    ¬ (sampleVolume 6).ReadsInside ⟨5, 4096⟩ onePage () 0x48000000 0 100 := by
  refine ⟨sampleVolume_holds (by decide) (by decide), ?_⟩
  intro hinside
  have hkeeps := hinside (fun _ => 0) onesDisk 1 (0x48000000 + 100) (by decide) (by
    rintro ⟨-, -, -, s, n, p, heap, -, -, -, halloc, hlow, -⟩
    obtain rfl : 0x50000000 = p := by
      simp only [onePage, Except.ok.injEq, Prod.mk.injEq, Option.some.injEq] at halloc
      exact halloc.1
    omega)
  revert hkeeps
  decide

end Fat32

end Min1visor.Fat
