import Min1visor.Fat32
import Min1visor.Library.Fragments
import Mathlib.Data.Finset.Card

/-!
# Cluster chains

A well-formed volume and a file on it, where the logical bytes of the file lie
on the disk, and what the merging loop makes of the chain from a cluster on.
-/
namespace Min1visor.Fat
open Fragments

/-! ## Well-formed volumes -/

/-- Sectors are multiples of 512 bytes and the volume starts at such a multiple. -/
structure Fat32.WellFormed (fs : Fat32) : Prop where
  sector : 512 ∣ fs.bytesPerSector
  sectorPos : 0 < fs.bytesPerSector
  sectorLt : fs.bytesPerSector < 2 ^ 16
  clusterPos : 0 < fs.sectorsPerCluster
  clusterLt : fs.sectorsPerCluster < 2 ^ 8
  block : 0 < fs.lbaSize ∧ fs.lbaSize < 2 ^ 32
  base : 512 ∣ fs.baseLba * fs.lbaSize
  baseLt : fs.baseLba * fs.lbaSize < 2 ^ 63

/-- Numbers of a geometry in their types, with at least one byte for each cluster. -/
structure Fat32.Geometry (fs : Fat32) : Prop where
  sectorPos : 0 < fs.bytesPerSector
  sectorLt : fs.bytesPerSector < 2 ^ 16
  clusterPos : 0 < fs.sectorsPerCluster
  clusterLt : fs.sectorsPerCluster < 2 ^ 8

namespace Fat32

def dataSector (fs : Fat32) : ℕ := fs.reservedSectors + fs.numberOfFats * fs.fatSectors

/-- A cluster number whose sectors have 32-bit numbers. -/
structure HasCluster (fs : Fat32) (cluster : ℕ) : Prop where
  low : 2 ≤ cluster
  high : cluster < 0x0FFFFFF8
  sectors : fs.dataSector + (cluster - 1) * fs.sectorsPerCluster ≤ 2 ^ 32

/-- The links of a chain in the table, up to the end mark. -/
inductive Chain (fs : Fat32) : List ℕ → Prop
  | last {c : ℕ} (h : fs.getNextCluster c = none) : Chain fs [c]
  | link {c d : ℕ} {cs : List ℕ} (h : fs.getNextCluster c = some d) (t : Chain fs (d :: cs)) :
      Chain fs (c :: d :: cs)

/-- A file whose acyclic chain is long enough for its size. -/
structure Holds (fs : Fat32) (file : FileInfo) (chain : List ℕ) : Prop where
  volume : fs.WellFormed
  entry : ∀ c ∈ chain.head?, c = file.entryCluster
  linked : chain = [] ∨ fs.Chain chain
  nodup : chain.Nodup
  clusters : ∀ c ∈ chain, fs.HasCluster c
  size : file.fileSize < 2 ^ 32
  covers : file.fileSize ≤ chain.length * fs.bytesPerCluster

/-- The address of the first byte of a cluster. -/
def clusterStart (fs : Fat32) (cluster : ℕ) : ℕ :=
  fs.baseLba * fs.lbaSize +
    (fs.dataSector + (cluster - 2) * fs.sectorsPerCluster) * fs.bytesPerSector

/-- Where the byte of the file at an offset lies on the disk. -/
def location (fs : Fat32) (chain : List ℕ) (offset : ℕ) : ℕ :=
  fs.clusterStart (chain.getD (offset / fs.bytesPerCluster) 0) + offset % fs.bytesPerCluster

/-- The number of sectors that a positive number of bytes takes. -/
def sectorCount (fs : Fat32) (n : ℕ) : ℕ := (n - 1) / fs.bytesPerSector + 1

variable {fs : Fat32}

theorem WellFormed.bytesPerCluster_pos (h : fs.WellFormed) : 0 < fs.bytesPerCluster :=
  Nat.mul_pos h.clusterPos h.sectorPos

theorem WellFormed.sector_le (h : fs.WellFormed) : fs.bytesPerSector ≤ fs.bytesPerCluster :=
  Nat.le_mul_of_pos_left _ h.clusterPos

theorem WellFormed.sector_ge (h : fs.WellFormed) : 512 ≤ fs.bytesPerSector :=
  Nat.le_of_dvd h.sectorPos h.sector

theorem WellFormed.geometry (h : fs.WellFormed) : fs.Geometry :=
  ⟨h.sectorPos, h.sectorLt, h.clusterPos, h.clusterLt⟩

theorem Geometry.bytesPerCluster_pos (h : fs.Geometry) : 0 < fs.bytesPerCluster :=
  Nat.mul_pos h.clusterPos h.sectorPos

/-- Any number of clusters holds at least one. -/
theorem bytesPerCluster_le_mul (fs : Fat32) (e : ℕ) :
    fs.bytesPerCluster ≤ (e + 1) * fs.bytesPerCluster :=
  Nat.le_mul_of_pos_left _ (Nat.succ_pos e)

theorem Geometry.sector_le (h : fs.Geometry) : fs.bytesPerSector ≤ fs.bytesPerCluster :=
  Nat.le_mul_of_pos_left _ h.clusterPos

/-- Consecutive clusters lie one behind the other. -/
theorem clusterStart_add {c : ℕ} (hc : 2 ≤ c) (j : ℕ) :
    fs.clusterStart (c + j) = fs.clusterStart c + j * fs.bytesPerCluster := by
  have hj : c + j - 2 = (c - 2) + j := by omega
  simp only [clusterStart, bytesPerCluster, hj]
  ring

/-- Different clusters share no byte. -/
theorem clusterStart_inj {c d o p : ℕ} (hc : 2 ≤ c) (hd : 2 ≤ d) (ho : o < fs.bytesPerCluster)
    (hp : p < fs.bytesPerCluster) (h : fs.clusterStart c + o = fs.clusterStart d + p) :
    c = d ∧ o = p := by
  have key : ∀ c d o p : ℕ, 2 ≤ c → c ≤ d → o < fs.bytesPerCluster →
      fs.clusterStart c + o = fs.clusterStart d + p → c = d := by
    intro c d o p hc hcd ho h
    obtain ⟨j, rfl⟩ := Nat.exists_eq_add_of_le hcd
    rw [clusterStart_add hc] at h
    by_contra hne
    have hj : 1 ≤ j := by omega
    have hmul := Nat.le_mul_of_pos_left fs.bytesPerCluster hj
    omega
  have hcd : c = d := by
    rcases Nat.le_total c d with hle | hle
    · exact key c d o p hc hle ho h
    · exact (key d c p o hd hle hp h.symm).symm
  subst hcd
  exact ⟨rfl, by omega⟩

/-! ## Requests -/

theorem clusterToSector_ok {c : ℕ} (hc : fs.HasCluster c) (hpos : 0 < fs.sectorsPerCluster) :
    fs.clusterToSector c = .ok (fs.dataSector + (c - 2) * fs.sectorsPerCluster) := by
  have hsectors := hc.sectors
  have hlow := hc.low
  have hstep : (c - 1) * fs.sectorsPerCluster =
      (c - 2) * fs.sectorsPerCluster + fs.sectorsPerCluster := by
    rw [show c - 1 = (c - 2) + 1 by omega, Nat.add_mul, Nat.one_mul]
  unfold dataSector at hsectors
  simp only [clusterToSector, Checked.mul_ok (show fs.numberOfFats * fs.fatSectors < 2 ^ 32 by omega),
    Checked.ok_bind, Checked.add_ok (show fs.reservedSectors + fs.numberOfFats * fs.fatSectors <
      2 ^ 32 by omega), Checked.sub_ok hlow,
    Checked.mul_ok (show (c - 2) * fs.sectorsPerCluster < 2 ^ 32 by omega)]
  exact Checked.add_ok (by omega)

/-- The bytes of a span that starts in a cluster of the volume. -/
theorem spanRange_ok (hfs : fs.Geometry) (hbase : fs.baseLba * fs.lbaSize < 2 ^ 63) {c : ℕ}
    (hc : fs.HasCluster c) {s : Span}
    (hoffset : s.sectorOffset < fs.sectorsPerCluster) (hsectors : s.sectors < 2 ^ 32) :
    fs.spanRange c s = .ok (fs.clusterStart c + s.sectorOffset * fs.bytesPerSector,
      s.sectors * fs.bytesPerSector) := by
  have hlow := hc.low
  have hhigh := hc.sectors
  have hstep : (c - 1) * fs.sectorsPerCluster =
      (c - 2) * fs.sectorsPerCluster + fs.sectorsPerCluster := by
    rw [show c - 1 = (c - 2) + 1 by omega, Nat.add_mul, Nat.one_mul]
  have hsector : fs.dataSector + (c - 2) * fs.sectorsPerCluster + s.sectorOffset < 2 ^ 32 := by
    omega
  have hbytes : (fs.dataSector + (c - 2) * fs.sectorsPerCluster + s.sectorOffset) *
      fs.bytesPerSector < 2 ^ 32 * 2 ^ 16 := Nat.mul_lt_mul'' hsector hfs.sectorLt
  have hlength : s.sectors * fs.bytesPerSector < 2 ^ 32 * 2 ^ 16 :=
    Nat.mul_lt_mul'' hsectors hfs.sectorLt
  simp only [spanRange, clusterToSector_ok hc hfs.clusterPos, Checked.ok_bind,
    Checked.add_ok hsector, byteRange,
    Checked.mul_ok (show fs.baseLba * fs.lbaSize < 2 ^ 64 by omega),
    Checked.mul_ok (hbytes.trans (by norm_num : 2 ^ 32 * 2 ^ 16 < 2 ^ 64)),
    Checked.mul_ok (hlength.trans (by norm_num : 2 ^ 32 * 2 ^ 16 < 2 ^ 64)),
    Checked.add_ok (show fs.baseLba * fs.lbaSize +
      (fs.dataSector + (c - 2) * fs.sectorsPerCluster + s.sectorOffset) * fs.bytesPerSector <
        2 ^ 64 by omega), Checked.pure_eq_ok, Except.ok.injEq, Prod.mk.injEq, and_true]
  unfold clusterStart
  ring

/-! ## Merging -/

/-- What the merging loop adds to its variables. -/
structure Grown (s s' : Span) (sectors bytes cluster : ℕ) : Prop where
  sectors : s'.sectors = s.sectors + sectors
  bytes : s'.bytes = s.bytes + bytes
  cluster : s'.cluster = cluster
  sectorOffset : s'.sectorOffset = s.sectorOffset
  dataOffsetBackup : s'.dataOffsetBackup = s.dataOffsetBackup

/-- Growth that follows on growth. -/
theorem Grown.after {s s₁ s' : Span} {sectors bytes sectors' bytes' cluster : ℕ}
    (h : Grown s₁ s' sectors' bytes' cluster) (hsectors : s₁.sectors = s.sectors + sectors)
    (hbytes : s₁.bytes = s.bytes + bytes) (hoffset : s₁.sectorOffset = s.sectorOffset)
    (hbackup : s₁.dataOffsetBackup = s.dataOffsetBackup) :
    Grown s s' (sectors + sectors') (bytes + bytes') cluster := by
  refine ⟨?_, ?_, h.cluster, h.sectorOffset.trans hoffset, h.dataOffsetBackup.trans hbackup⟩
  · rw [h.sectors, hsectors, Nat.add_assoc]
  · rw [h.bytes, hbytes, Nat.add_assoc]

/-- The outcome of the merging loop on a chain, with `rest` bytes to go from the
start of its first cluster on. -/
def Merged (fs : Fat32) (least rest : ℕ) (c : ℕ) (cs : List ℕ) (s : Span) (result : Except Stop Span) :
    Prop :=
  if rest ≤ runLength (c :: cs) * fs.bytesPerCluster then
    if (rest - 1) % fs.bytesPerCluster + 1 < least then result = .error .err
    else ∃ s', result = .ok s' ∧ Grown s s' (fs.sectorCount rest) (rest - s.dataOffset)
      (c + (rest - 1) / fs.bytesPerCluster)
  else if runLength (c :: cs) = (c :: cs).length then result = .error .err
  else ∃ s', result = .ok s' ∧ Grown s s' (runLength (c :: cs) * fs.sectorsPerCluster)
    (runLength (c :: cs) * fs.bytesPerCluster - s.dataOffset) (c + runLength (c :: cs) - 1)

theorem skipSectors_of_le {s : Span} (h : s.dataOffset ≤ fs.bytesPerSector) :
    fs.skipSectors s = s := if_neg (by omega)

/-- Sectors of one cluster and of what is left behind it. -/
theorem sectorCount_add (hsector : 0 < fs.bytesPerSector) {rest : ℕ} (h : 0 < rest) :
    fs.sectorCount (rest + fs.bytesPerCluster) = fs.sectorsPerCluster + fs.sectorCount rest := by
  unfold sectorCount bytesPerCluster
  rw [show rest + fs.sectorsPerCluster * fs.bytesPerSector - 1 =
      rest - 1 + fs.bytesPerSector * fs.sectorsPerCluster by rw [Nat.mul_comm]; omega,
    Nat.add_mul_div_left _ _ hsector]
  omega

theorem sectorCount_mul_le (hfs : fs.WellFormed) (n : ℕ) : fs.sectorCount n * 512 ≤ n + 512 := by
  have hdiv : (n - 1) / fs.bytesPerSector ≤ (n - 1) / 512 :=
    Nat.div_le_div_left hfs.sector_ge (by decide)
  unfold sectorCount
  omega

theorem le_sectors (hsector : 0 < fs.bytesPerSector) (length : ℕ) :
    length ≤ fs.sectorCount length * fs.bytesPerSector := by
  have hlt : length - 1 < (length - 1) / fs.bytesPerSector * fs.bytesPerSector + fs.bytesPerSector :=
    Nat.lt_div_mul_add hsector
  rw [sectorCount, Nat.add_mul, Nat.one_mul]
  omega

/-- Less than a sector is added when whole sectors are moved. -/
theorem sectors_lt (fs : Fat32) {n : ℕ} (hpos : 0 < n) :
    fs.sectorCount n * fs.bytesPerSector < n + fs.bytesPerSector := by
  have hround := Nat.div_mul_le_self (n - 1) fs.bytesPerSector
  rw [sectorCount, Nat.add_mul, Nat.one_mul]
  omega

/-- The last byte of whole sectors is the last one of a sector. -/
theorem pred_sectors (hsector : 0 < fs.bytesPerSector) {n : ℕ} (hpos : 0 < n)
    (hdvd : fs.bytesPerSector ∣ n) :
    ∃ k, n - 1 = fs.bytesPerSector * k + (fs.bytesPerSector - 1) ∧
      n = (k + 1) * fs.bytesPerSector := by
  obtain ⟨k, rfl⟩ := hdvd
  have hk : 0 < k := Nat.pos_of_mul_pos_left hpos
  obtain ⟨j, rfl⟩ : ∃ j, k = j + 1 := ⟨k - 1, by omega⟩
  refine ⟨j, ?_, Nat.mul_comm _ _⟩
  rw [Nat.mul_succ]
  omega

/-- A number of whole sectors is not rounded. -/
theorem sectors_of_dvd (hsector : 0 < fs.bytesPerSector) {n : ℕ} (hpos : 0 < n)
    (hdvd : fs.bytesPerSector ∣ n) : fs.sectorCount n * fs.bytesPerSector = n := by
  obtain ⟨k, hpred, hn⟩ := pred_sectors hsector hpos hdvd
  have hcount : fs.sectorCount n = k + 1 := by
    rw [sectorCount, hpred, Nat.mul_add_div hsector, Nat.div_eq_of_lt (by omega), Nat.add_zero]
  rw [hcount, ← hn]

/-- Any other number is rounded up. -/
theorem sectors_le_iff (hsector : 0 < fs.bytesPerSector) (n : ℕ) :
    fs.sectorCount n * fs.bytesPerSector ≤ n ↔ 0 < n ∧ fs.bytesPerSector ∣ n := by
  constructor
  · intro hle
    have hwhole : fs.sectorCount n * fs.bytesPerSector = n := hle.antisymm (le_sectors hsector n)
    have hone : fs.bytesPerSector ≤ fs.sectorCount n * fs.bytesPerSector :=
      Nat.le_mul_of_pos_left _ (Nat.succ_pos _)
    exact ⟨by omega, Dvd.intro_left _ hwhole⟩
  · rintro ⟨hpos, hdvd⟩
    exact (sectors_of_dvd hsector hpos hdvd).le

/-- Rounding up to sectors does not leave the clusters. -/
theorem sectors_le (hfs : fs.WellFormed) {length k : ℕ} (hpos : 0 < length)
    (h : length ≤ k * fs.bytesPerCluster) :
    fs.sectorCount length * fs.bytesPerSector ≤ k * fs.bytesPerCluster := by
  unfold bytesPerCluster at h ⊢
  rw [← Nat.mul_assoc] at h ⊢
  apply Nat.mul_le_mul_right
  rw [sectorCount, Nat.succ_le_iff, Nat.div_lt_iff_lt_mul hfs.sectorPos]
  omega

/-- One turn of the merging loop, without the checks of the arithmetic. -/
def mergeTurn (fs : Fat32) (least length fuel : ℕ) (s : Span) : Except Stop Span :=
  if length - s.bytes < least then .error .err
  else if length - s.bytes + s.dataOffset ≤ fs.bytesPerCluster then
    .ok { s with
      sectors := s.sectors + fs.sectorCount (length - s.bytes + s.dataOffset)
      bytes := s.bytes + (length - s.bytes) }
  else
    match fs.getNextCluster s.cluster with
    | none => .error .err
    | some next =>
      if next ≠ s.cluster + 1 then
        .ok { s with
          sectors := s.sectors + fs.sectorsPerCluster
          bytes := s.bytes + (fs.bytesPerCluster - s.dataOffset) }
      else
        fs.coalesce least length fuel { s with
          sectors := s.sectors + fs.sectorsPerCluster
          bytes := s.bytes + (fs.bytesPerCluster - s.dataOffset)
          dataOffset := 0
          cluster := next }

theorem coalesce_turn (hfs : fs.WellFormed) {least length fuel : ℕ} {s : Span}
    (hcluster : s.cluster < 0x0FFFFFF8) (hoffset : s.dataOffset ≤ fs.bytesPerSector)
    (hbytes : s.bytes < length) (hlength : length < 2 ^ 32)
    (hsectors : s.sectors * 512 + s.dataOffset ≤ s.bytes + 2 ^ 16) :
    fs.coalesce least length (fuel + 1) s = fs.mergeTurn least length fuel s := by
  have hsector := hfs.sectorLt
  have hcount := sectorCount_mul_le hfs (length - s.bytes + s.dataOffset)
  have hspc := hfs.clusterLt
  have hbpc : fs.bytesPerCluster < 2 ^ 8 * 2 ^ 16 := Nat.mul_lt_mul'' hfs.clusterLt hfs.sectorLt
  have hmax : 1 + (max (length - s.bytes + s.dataOffset) 1 - 1) / fs.bytesPerSector =
      fs.sectorCount (length - s.bytes + s.dataOffset) := by
    rw [Nat.max_eq_left (by omega), sectorCount, Nat.add_comm]
  simp only [coalesce, mergeTurn, Checked.sub_ok hbytes.le, lift_ok, Checked.ok_bind,
    skipSectors_of_le hoffset,
    Checked.add_ok (show length - s.bytes + s.dataOffset < 2 ^ 64 by omega), hmax,
    Checked.pure_eq_ok, Checked.throw_eq_error]
  rw [Nat.mod_eq_of_lt (show fs.sectorCount (length - s.bytes + s.dataOffset) < 2 ^ 32 by omega),
    Checked.add_ok (show s.sectors + fs.sectorCount (length - s.bytes + s.dataOffset) < 2 ^ 32
      by omega)]
  split_ifs with hleft hrest
  · rfl
  · rfl
  · have hle : s.dataOffset ≤ fs.bytesPerCluster := hoffset.trans hfs.sector_le
    rw [Checked.add_ok (show s.sectors + fs.sectorsPerCluster < 2 ^ 32 by omega),
      Checked.sub_ok hle, Checked.add_ok (show s.cluster + 1 < 2 ^ 32 by omega)]
    simp only [lift_ok, Checked.ok_bind,
      Checked.add_ok (show s.bytes + (fs.bytesPerCluster - s.dataOffset) < 2 ^ 64 by omega),
      nextCluster]
    cases fs.getNextCluster s.cluster with
    | none => rfl
    | some next => rfl

/-- The last turn: what is left ends in the first cluster. -/
theorem merged_of_le {least left c : ℕ} (cs : List ℕ) {s : Span}
    (hc : s.cluster = c) (hzero : least = 0 ∨ s.dataOffset = 0) (hleft : 0 < left)
    (hrest : left + s.dataOffset ≤ fs.bytesPerCluster) :
    fs.Merged least (left + s.dataOffset) c cs s (if left < least then .error .err
      else .ok { s with
        sectors := s.sectors + fs.sectorCount (left + s.dataOffset)
        bytes := s.bytes + left }) := by
  have hrun : left + s.dataOffset ≤ runLength (c :: cs) * fs.bytesPerCluster :=
    hrest.trans (Nat.le_mul_of_pos_left _ (runLength_pos c cs))
  have hpred : left + s.dataOffset - 1 < fs.bytesPerCluster := by omega
  rw [Merged, if_pos hrun, Nat.mod_eq_of_lt hpred, Nat.div_eq_of_lt hpred]
  by_cases hleast : left < least
  · rw [if_pos hleast, if_pos (by omega)]
  · rw [if_neg hleast, if_neg (by omega)]
    exact ⟨_, rfl, rfl, by dsimp only; omega, hc, rfl, rfl⟩

/-- A turn that ends at the end of the chain. -/
theorem merged_of_end {least rest c : ℕ} {s : Span} (hrest : fs.bytesPerCluster < rest) :
    fs.Merged least rest c [] s (.error .err) := by
  rw [Merged, if_neg (by simp only [runLength]; omega),
    if_pos (show runLength [c] = [c].length from rfl)]

/-- A turn that ends where the next cluster is another one. -/
theorem merged_of_break {least rest c d : ℕ} {cs : List ℕ} {s : Span} (hc : s.cluster = c)
    (hd : d ≠ c + 1) (hrest : fs.bytesPerCluster < rest) :
    fs.Merged least rest c (d :: cs) s (.ok { s with
      sectors := s.sectors + fs.sectorsPerCluster
      bytes := s.bytes + (fs.bytesPerCluster - s.dataOffset) }) := by
  have hrun : runLength (c :: d :: cs) = 1 := if_neg hd
  rw [Merged, hrun, Nat.one_mul, Nat.one_mul, if_neg (by omega), if_neg (by simp)]
  exact ⟨_, rfl, rfl, rfl, by simpa using hc, rfl, rfl⟩

/-- A turn that goes on with the next cluster. -/
theorem merged_of_next (hfs : fs.WellFormed) {least rest c : ℕ} {cs : List ℕ} {s s₁ : Span}
    {result : Except Stop Span} (h : fs.Merged least rest (c + 1) cs s₁ result) (hrest : 0 < rest)
    (hlt : s.dataOffset < fs.bytesPerCluster)
    (hsectors : s₁.sectors = s.sectors + fs.sectorsPerCluster)
    (hbytes : s₁.bytes = s.bytes + (fs.bytesPerCluster - s.dataOffset))
    (hsame : s₁.dataOffset = 0 ∧ s₁.sectorOffset = s.sectorOffset ∧
      s₁.dataOffsetBackup = s.dataOffsetBackup) :
    fs.Merged least (rest + fs.bytesPerCluster) c ((c + 1) :: cs) s result := by
  have hrun : runLength (c :: (c + 1) :: cs) = runLength ((c + 1) :: cs) + 1 := if_pos rfl
  have hpos := hfs.bytesPerCluster_pos
  have hpred : rest + fs.bytesPerCluster - 1 = rest - 1 + fs.bytesPerCluster := by omega
  obtain ⟨hzero, hoffset, hbackup⟩ := hsame
  unfold Merged at h ⊢
  rw [hrun, Nat.add_mul, Nat.one_mul, hpred, Nat.add_mod_right, Nat.add_div_right _ hpos,
    sectorCount_add hfs.sectorPos hrest, List.length_cons]
  by_cases hin : rest ≤ runLength ((c + 1) :: cs) * fs.bytesPerCluster
  · rw [if_pos hin] at h
    rw [if_pos (by omega)]
    split_ifs at h ⊢ with hleast
    · exact h
    · obtain ⟨s', hok, hg⟩ := h
      refine ⟨s', hok, ?_⟩
      convert hg.after hsectors hbytes hoffset hbackup using 1
      · omega
      · omega
  · rw [if_neg hin] at h
    rw [if_neg (by omega)]
    split_ifs at h ⊢ with hend hend' hend'
    · exact h
    · omega
    · omega
    · obtain ⟨s', hok, hg⟩ := h
      refine ⟨s', hok, ?_⟩
      convert hg.after hsectors hbytes hoffset hbackup using 1
      · rw [Nat.add_mul]
        omega
      · omega
      · omega

/-- The merging loop follows the run of consecutive clusters at the head of the
chain, as far as bytes are left. -/
theorem coalesce_merged (hfs : fs.WellFormed) {least : ℕ} (hleast : least ≤ fs.bytesPerCluster)
    (length : ℕ) (hlength : length < 2 ^ 32) (cs : List ℕ) (c fuel : ℕ) (s : Span)
    (hchain : fs.Chain (c :: cs)) (hhigh : ∀ d ∈ c :: cs, d < 0x0FFFFFF8) (hc : s.cluster = c)
    (hoffset : s.dataOffset ≤ fs.bytesPerSector) (hlt : s.dataOffset < fs.bytesPerCluster)
    (hzero : least = 0 ∨ s.dataOffset = 0) (hbytes : s.bytes < length)
    (hsectors : s.sectors * 512 + s.dataOffset ≤ s.bytes + 2 ^ 16)
    (hfuel : length - s.bytes < fuel) :
    fs.Merged least (length - s.bytes + s.dataOffset) c cs s (fs.coalesce least length fuel s) := by
  induction cs generalizing c fuel s with
  | nil =>
    obtain ⟨fuel, rfl⟩ : ∃ f, fuel = f + 1 := ⟨fuel - 1, by omega⟩
    subst hc
    cases hchain with
    | last hnext =>
    rw [coalesce_turn hfs (hhigh _ List.mem_cons_self) hoffset hbytes hlength hsectors, mergeTurn,
      hnext]
    by_cases hrest : length - s.bytes + s.dataOffset ≤ fs.bytesPerCluster
    · rw [if_pos hrest]
      exact merged_of_le [] rfl hzero (by omega) hrest
    · rw [if_neg (by omega), if_neg hrest]
      exact merged_of_end (by omega)
  | cons d cs ih =>
    obtain ⟨fuel, rfl⟩ : ∃ f, fuel = f + 1 := ⟨fuel - 1, by omega⟩
    subst hc
    cases hchain with
    | link hnext htail =>
    rw [coalesce_turn hfs (hhigh _ List.mem_cons_self) hoffset hbytes hlength hsectors, mergeTurn,
      hnext]
    by_cases hrest : length - s.bytes + s.dataOffset ≤ fs.bytesPerCluster
    · rw [if_pos hrest]
      exact merged_of_le _ rfl hzero (by omega) hrest
    · rw [if_neg (by omega), if_neg hrest]
      dsimp only
      by_cases hd : d = s.cluster + 1
      · subst hd
        rw [if_neg (not_not.mpr rfl)]
        have hsector : fs.sectorsPerCluster * 512 ≤ fs.bytesPerCluster :=
          Nat.mul_le_mul_left _ hfs.sector_ge
        have hsectors' : (s.sectors + fs.sectorsPerCluster) * 512 + 0 ≤
            s.bytes + (fs.bytesPerCluster - s.dataOffset) + 2 ^ 16 := by
          have hadd := Nat.sub_add_cancel hlt.le
          linarith
        have hmerged := ih (s.cluster + 1) fuel ⟨s.sectors + fs.sectorsPerCluster,
          s.bytes + (fs.bytesPerCluster - s.dataOffset), s.sectorOffset, 0, s.dataOffsetBackup,
          s.cluster + 1⟩ htail (fun e he => hhigh e (List.mem_cons_of_mem _ he)) rfl (Nat.zero_le _)
          hfs.bytesPerCluster_pos (.inr rfl) (by dsimp only; omega) hsectors' (by dsimp only; omega)
        dsimp only at hmerged
        have hleft : 0 < length - (s.bytes + (fs.bytesPerCluster - s.dataOffset)) + 0 := by omega
        have hstep := merged_of_next hfs hmerged hleft hlt rfl rfl ⟨rfl, rfl, rfl⟩
        convert hstep using 1
        omega
      · rw [if_pos hd]
        exact merged_of_break rfl hd (by omega)

/-! ## The span of a turn -/

/-- The sectors that are skipped for an offset in a cluster. An offset of exactly
one sector is not. -/
def skipped (fs : Fat32) (dataOffset : ℕ) : ℕ :=
  if dataOffset > fs.bytesPerSector then dataOffset / fs.bytesPerSector else 0

/-- The offset that is left in the first sector. -/
def residue (fs : Fat32) (dataOffset : ℕ) : ℕ :=
  dataOffset - fs.skipped dataOffset * fs.bytesPerSector

theorem skipped_add_residue (dataOffset : ℕ) :
    fs.skipped dataOffset * fs.bytesPerSector + fs.residue dataOffset = dataOffset := by
  have hle : fs.skipped dataOffset * fs.bytesPerSector ≤ dataOffset := by
    unfold skipped
    split_ifs
    · exact Nat.div_mul_le_self _ _
    · omega
  unfold residue
  omega

theorem residue_le (hfs : fs.Geometry) (dataOffset : ℕ) :
    fs.residue dataOffset ≤ fs.bytesPerSector := by
  unfold residue skipped
  split_ifs with h
  · have hmod := Nat.mod_lt dataOffset hfs.sectorPos
    have hdiv := Nat.div_add_mod dataOffset fs.bytesPerSector
    rw [Nat.mul_comm] at hdiv
    omega
  · omega

theorem skipped_lt (hfs : fs.Geometry) {dataOffset : ℕ} (h : dataOffset < fs.bytesPerCluster) :
    fs.skipped dataOffset < fs.sectorsPerCluster := by
  unfold skipped
  split_ifs
  · exact (Nat.div_lt_iff_lt_mul hfs.sectorPos).mpr h
  · exact hfs.clusterPos

theorem coalesce_skipSectors (hfs : fs.Geometry) (least length fuel : ℕ) (s : Span) :
    fs.coalesce least length fuel (fs.skipSectors s) = fs.coalesce least length fuel s := by
  have htwice : fs.skipSectors (fs.skipSectors s) = fs.skipSectors s := by
    apply skipSectors_of_le
    have hle := residue_le hfs s.dataOffset
    unfold skipSectors
    split_ifs with h
    · simpa [residue, skipped, h] using hle
    · omega
  have hbytes : (fs.skipSectors s).bytes = s.bytes := by
    unfold skipSectors
    split_ifs <;> rfl
  cases fuel with
  | zero => rfl
  | succ fuel => simp only [coalesce, htwice, hbytes]

/-- The variables with which the first turn of the merging loop works. -/
def firstSpan (fs : Fat32) (cluster dataOffset : ℕ) : Span :=
  ⟨0, 0, fs.skipped dataOffset, fs.residue dataOffset, fs.residue dataOffset, cluster⟩

theorem skipSectors_first (cluster dataOffset : ℕ) :
    fs.skipSectors ⟨0, 0, 0, dataOffset, dataOffset, cluster⟩ = fs.firstSpan cluster dataOffset := by
  simp only [skipSectors, firstSpan, residue, skipped]
  split_ifs <;> simp

theorem span_merged (hfs : fs.WellFormed) {least length c dataOffset : ℕ} {cs : List ℕ}
    (hleast : least ≤ fs.bytesPerCluster) (hlength : length < 2 ^ 32) (hpos : 0 < length)
    (hchain : fs.Chain (c :: cs)) (hhigh : ∀ d ∈ c :: cs, d < 0x0FFFFFF8)
    (hoffset : dataOffset < fs.bytesPerCluster) (hzero : least = 0 ∨ fs.residue dataOffset = 0) :
    fs.Merged least (length + fs.residue dataOffset) c cs (fs.firstSpan c dataOffset)
      (fs.span least length c dataOffset) := by
  have hle := residue_le hfs.geometry dataOffset
  have hsum : fs.skipped dataOffset * fs.bytesPerSector + fs.residue dataOffset = dataOffset :=
    skipped_add_residue dataOffset
  have hsector := hfs.sectorLt
  rw [span, ← coalesce_skipSectors hfs.geometry, skipSectors_first]
  exact coalesce_merged hfs hleast length hlength cs c (length + 1) (fs.firstSpan c dataOffset)
    hchain hhigh rfl hle (by dsimp only [firstSpan]; omega) hzero hpos
    (by dsimp only [firstSpan]; omega) (by dsimp only [firstSpan]; omega)

/-! ## Moving along the chain -/

theorem Chain.next {c : ℕ} {cs : List ℕ} (h : fs.Chain (c :: cs)) {i x : ℕ}
    (hx : (c :: cs)[i]? = some x) : fs.getNextCluster x = (c :: cs)[i + 1]? := by
  induction cs generalizing c i with
  | nil =>
    cases h with
    | last hnext =>
    cases i with
    | zero =>
      obtain rfl : c = x := by simpa using hx
      simpa using hnext
    | succ i => simp at hx
  | cons d cs ih =>
    cases h with
    | link hnext htail =>
    cases i with
    | zero =>
      obtain rfl : c = x := by simpa using hx
      simpa using hnext
    | succ i => exact ih htail hx

theorem Chain.drop {cs : List ℕ} (h : fs.Chain cs) {i d : ℕ} {ds : List ℕ}
    (hd : cs.drop i = d :: ds) : fs.Chain (d :: ds) := by
  induction h generalizing i with
  | last hnext =>
    cases i with
    | zero =>
      rw [List.drop_zero] at hd
      exact hd ▸ .last hnext
    | succ i => simp at hd
  | link hnext htail ih =>
    cases i with
    | zero =>
      rw [List.drop_zero] at hd
      exact hd ▸ .link hnext htail
    | succ i => exact ih hd

theorem skipClusters_chain {c : ℕ} {cs : List ℕ} (h : fs.Chain (c :: cs)) {i d : ℕ} {ds : List ℕ}
    (hd : (c :: cs).drop i = d :: ds) : fs.skipClusters i c = .ok d := by
  induction i generalizing c cs with
  | zero =>
    obtain ⟨rfl, -⟩ : c = d ∧ cs = ds := by simpa using hd
    rfl
  | succ i ih =>
    cases h with
    | last hnext => simp at hd
    | link hnext htail =>
      simp only [skipClusters, nextCluster, hnext, Checked.ok_bind]
      exact ih htail hd

/-- The cluster behind the first `k` clusters of a run. -/
theorem Chain.nextCluster_run {c : ℕ} {cs : List ℕ} (h : fs.Chain (c :: cs)) {k : ℕ} (hk : 0 < k)
    (hrun : k ≤ runLength (c :: cs)) :
    fs.nextCluster (c + k - 1) =
      match (c :: cs).drop k with
      | [] => .error .err
      | d :: _ => .ok d := by
  have hx := getElem_run c cs (k - 1) (by omega)
  have hnext := h.next hx
  rw [Nat.sub_add_cancel hk, ← Nat.add_sub_assoc hk] at hnext
  rw [nextCluster, hnext, ← List.head?_drop]
  cases (c :: cs).drop k with
  | nil => rfl
  | cons d ds => rfl

/-- A chain within the volume. -/
structure Linked (fs : Fat32) (cs : List ℕ) : Prop where
  chain : fs.Chain cs
  clusters : ∀ c ∈ cs, fs.HasCluster c

theorem Linked.drop {cs : List ℕ} (h : fs.Linked cs) {i d : ℕ} {ds : List ℕ}
    (hd : cs.drop i = d :: ds) : fs.Linked (d :: ds) := by
  refine ⟨h.chain.drop hd, ?_⟩
  intro c hc
  exact h.clusters c (List.mem_of_mem_drop (hd ▸ hc))

/-! ## Pieces -/

/-- The part of a request that one turn handles: an extent of the disk, the bytes
of the request in it and the clusters it uses up. -/
structure Piece where
  address : ℕ
  size : ℕ
  bytes : ℕ
  clusters : ℕ

/-- The piece at the head of a chain, or `none` where the turn returns `Err`. -/
def piece (fs : Fat32) (least length c : ℕ) (cs : List ℕ) (dataOffset : ℕ) : Option Piece :=
  if length + fs.residue dataOffset ≤ runLength (c :: cs) * fs.bytesPerCluster then
    if (length + fs.residue dataOffset - 1) % fs.bytesPerCluster + 1 < least then none
    else some ⟨fs.clusterStart c + fs.skipped dataOffset * fs.bytesPerSector,
      fs.sectorCount (length + fs.residue dataOffset) * fs.bytesPerSector, length,
      (length + fs.residue dataOffset - 1) / fs.bytesPerCluster + 1⟩
  else if runLength (c :: cs) = (c :: cs).length then none
  else some ⟨fs.clusterStart c + fs.skipped dataOffset * fs.bytesPerSector,
    runLength (c :: cs) * fs.bytesPerCluster,
    runLength (c :: cs) * fs.bytesPerCluster - fs.residue dataOffset, runLength (c :: cs)⟩

/-- A span that is a piece. -/
structure Spans (fs : Fat32) (c dataOffset : ℕ) (p : Piece) (s : Span) : Prop where
  bytes : s.bytes = p.bytes
  cluster : s.cluster = c + p.clusters - 1
  dataOffsetBackup : s.dataOffsetBackup = fs.residue dataOffset
  range : fs.spanRange c s = .ok (p.address, p.size)
  sectors : s.sectors < 2 ^ 32
  size : p.size = s.sectors * fs.bytesPerSector

theorem piece_clusters {least length c : ℕ} {cs : List ℕ} {dataOffset : ℕ} {p : Piece}
    (hpos : 0 < length) (h : fs.piece least length c cs dataOffset = some p) :
    0 < p.clusters ∧ p.clusters ≤ runLength (c :: cs) := by
  have hrun := runLength_pos c cs
  unfold piece at h
  split_ifs at h with hin
  · obtain rfl := Option.some.inj h
    have hbpc : 0 < fs.bytesPerCluster := by
      by_contra hzero
      rw [Nat.eq_zero_of_not_pos hzero] at hin
      omega
    refine ⟨Nat.succ_pos _, ?_⟩
    rw [Nat.succ_le_iff, Nat.div_lt_iff_lt_mul hbpc]
    omega
  · obtain rfl := Option.some.inj h
    exact ⟨hrun, le_rfl⟩

theorem piece_bytes {least length c : ℕ} {cs : List ℕ} {dataOffset : ℕ} {p : Piece}
    (h : fs.piece least length c cs dataOffset = some p) : p.bytes ≤ length := by
  unfold piece at h
  split_ifs at h with hin
  · obtain rfl := Option.some.inj h
    exact le_rfl
  · obtain rfl := Option.some.inj h
    dsimp only
    omega

/-- A piece is longer than its part of the request by less than two sectors. -/
theorem piece_size_le (hfs : fs.WellFormed) {least length c : ℕ} {cs : List ℕ} {dataOffset : ℕ}
    {p : Piece} (hpos : 0 < length) (h : fs.piece least length c cs dataOffset = some p) :
    p.size ≤ length + 2 * fs.bytesPerSector := by
  have hresidue := residue_le hfs.geometry dataOffset
  unfold piece at h
  split_ifs at h with hin
  · obtain rfl := Option.some.inj h
    have hdiv := Nat.div_mul_le_self (length + fs.residue dataOffset - 1) fs.bytesPerSector
    simp only [sectorCount, Nat.add_mul, Nat.one_mul]
    omega
  · obtain rfl := Option.some.inj h
    dsimp only
    omega

theorem clusterStart_dvd (hfs : fs.WellFormed) (c : ℕ) : 512 ∣ fs.clusterStart c :=
  dvd_add hfs.base (dvd_mul_of_dvd_right hfs.sector _)

theorem piece_aligned (hfs : fs.WellFormed) {least length c : ℕ} {cs : List ℕ} {dataOffset : ℕ}
    {p : Piece} (h : fs.piece least length c cs dataOffset = some p) :
    512 ∣ p.address ∧ 512 ∣ p.size := by
  have haddress : 512 ∣ fs.clusterStart c + fs.skipped dataOffset * fs.bytesPerSector :=
    dvd_add (clusterStart_dvd hfs c) (dvd_mul_of_dvd_right hfs.sector _)
  unfold piece at h
  split_ifs at h
  · obtain rfl := Option.some.inj h
    exact ⟨haddress, dvd_mul_of_dvd_right hfs.sector _⟩
  · obtain rfl := Option.some.inj h
    exact ⟨haddress, dvd_mul_of_dvd_right (dvd_mul_of_dvd_right hfs.sector _) _⟩

/-- Each turn handles the piece at the head of its chain. -/
theorem span_piece (hfs : fs.WellFormed) {least length c dataOffset : ℕ} {cs : List ℕ}
    (hleast : least ≤ fs.bytesPerCluster) (hlength : length < 2 ^ 32) (hpos : 0 < length)
    (hlinked : fs.Linked (c :: cs)) (hoffset : dataOffset < fs.bytesPerCluster)
    (hzero : least = 0 ∨ fs.residue dataOffset = 0) :
    match fs.piece least length c cs dataOffset with
    | none => fs.span least length c dataOffset = .error .err
    | some p => ∃ s, fs.span least length c dataOffset = .ok s ∧ fs.Spans c dataOffset p s := by
  have hmerged := span_merged hfs hleast hlength hpos hlinked.chain
    (fun d hd => (hlinked.clusters d hd).high) hoffset hzero
  have hcluster := hlinked.clusters c List.mem_cons_self
  have hskip := skipped_lt hfs.geometry hoffset
  have hresidue := residue_le hfs.geometry dataOffset
  have hsector := hfs.sectorLt
  unfold Merged at hmerged
  unfold piece
  split_ifs at hmerged ⊢ with hin hleft hend
  · exact hmerged
  · obtain ⟨s, hok, hg⟩ := hmerged
    have hsectors : s.sectors = fs.sectorCount (length + fs.residue dataOffset) := by
      rw [hg.sectors]
      exact Nat.zero_add _
    have hlt : s.sectors < 2 ^ 32 := by
      have hcount := sectorCount_mul_le hfs (length + fs.residue dataOffset)
      omega
    refine ⟨s, hok, ?_, hg.cluster, hg.dataOffsetBackup, ?_, hlt, by rw [hsectors]⟩
    · rw [hg.bytes]
      dsimp only [firstSpan]
      omega
    · rw [spanRange_ok hfs.geometry hfs.baseLt hcluster (by rw [hg.sectorOffset]; exact hskip) hlt,
        hg.sectorOffset, hsectors]
      rfl
  · exact hmerged
  · obtain ⟨s, hok, hg⟩ := hmerged
    have hsectors : s.sectors = runLength (c :: cs) * fs.sectorsPerCluster := by
      rw [hg.sectors]
      exact Nat.zero_add _
    have hlt : s.sectors < 2 ^ 32 := by
      have hmul : runLength (c :: cs) * fs.sectorsPerCluster * 512 ≤
          runLength (c :: cs) * fs.bytesPerCluster := by
        rw [Nat.mul_assoc]
        exact Nat.mul_le_mul_left _ (Nat.mul_le_mul_left _ hfs.sector_ge)
      omega
    refine ⟨s, hok, ?_, hg.cluster, hg.dataOffsetBackup, ?_, hlt, by
      rw [hsectors, Nat.mul_assoc]
      rfl⟩
    · rw [hg.bytes]
      dsimp only [firstSpan]
      omega
    · rw [spanRange_ok hfs.geometry hfs.baseLt hcluster (by rw [hg.sectorOffset]; exact hskip) hlt,
        hg.sectorOffset, hsectors, Nat.mul_assoc]
      rfl

theorem turn_piece {least length c bufferPointer dataOffset : ℕ} {cs : List ℕ} {p : Piece} {s : Span}
    (hpos : 0 < length) (hchain : fs.Chain (c :: cs))
    (hpiece : fs.piece least length c cs dataOffset = some p) (hs : fs.Spans c dataOffset p s)
    (hlt : bufferPointer + p.bytes < 2 ^ 64) :
    fs.turn length bufferPointer s =
      if length = bufferPointer + p.bytes then .ok (bufferPointer + p.bytes, none)
      else
        match (c :: cs).drop p.clusters with
        | [] => .error .err
        | d :: _ => .ok (bufferPointer + p.bytes, some d) := by
  obtain ⟨hk, hrun⟩ := piece_clusters hpos hpiece
  simp only [turn, hs.bytes, Checked.add_ok hlt, lift_ok, Checked.ok_bind, hs.cluster,
    hchain.nextCluster_run hk hrun, Checked.pure_eq_ok]
  split_ifs
  · rfl
  · cases (c :: cs).drop p.clusters with
    | nil => rfl
    | cons d ds => rfl

/-! ## Requests for a file -/

/-- The bytes of a request that the file has. -/
def count (file : FileInfo) (offset length : ℕ) : ℕ := min length (file.fileSize - offset)

theorem clamp_eq {file : FileInfo} {offset length : ℕ} (hsum : offset + length < 2 ^ 64) :
    clamp file offset length =
      .ok (if file.fileSize < offset + length ∧ file.fileSize ≤ offset then none
        else some (count file offset length)) := by
  simp only [clamp, Checked.add_ok hsum, Checked.ok_bind, Checked.pure_eq_ok, count]
  split_ifs with hgt hge hboth hboth hboth
  · rfl
  · exact absurd ⟨hgt, hge⟩ hboth
  · exact absurd hboth.2 hge
  · rw [Nat.min_eq_right (by omega)]
  · exact absurd hboth.1 hgt
  · rw [Nat.min_eq_left (by omega)]

theorem clamp_cases {file : FileInfo} {offset length : ℕ} (hsum : offset + length < 2 ^ 64) :
    clamp file offset length = .ok none ∨
      clamp file offset length = .ok (some (count file offset length)) := by
  rw [clamp_eq hsum]
  split_ifs
  · exact .inl rfl
  · exact .inr rfl

theorem clamp_inside {file : FileInfo} {offset length : ℕ} (hsum : offset + length < 2 ^ 64)
    (hlt : offset < file.fileSize) :
    clamp file offset length = .ok (some (count file offset length)) := by
  rw [clamp_eq hsum, if_neg (by omega)]

variable {file : FileInfo} {chain : List ℕ}

/-- A search along the chain finds a cluster or its end. -/
theorem locate_cases (hpos : 0 < fs.bytesPerCluster) (file : FileInfo) (offset : ℕ) :
    fs.locate file offset = .error .err ∨
      ∃ c, fs.locate file offset = .ok (c, offset % fs.bytesPerCluster) := by
  have hskip : ∀ n c, fs.skipClusters n c = .error .err ∨ ∃ d, fs.skipClusters n c = .ok d := by
    intro n
    induction n with
    | zero => exact fun c => .inr ⟨c, rfl⟩
    | succ n ih =>
      intro c
      simp only [skipClusters, nextCluster]
      cases fs.getNextCluster c with
      | none => exact .inl rfl
      | some next => exact ih next
  have hoffset := (Nat.mod_eq_sub_div_mul (x := offset) (k := fs.bytesPerCluster)).symm
  simp only [locate, if_neg hpos.ne', hoffset]
  rcases hskip (offset / fs.bytesPerCluster) file.entryCluster with herr | ⟨c, hok⟩
  · rw [herr]
    exact .inl rfl
  · rw [hok]
    exact .inr ⟨c, rfl⟩

/-- The cluster of an offset in the file. -/
theorem Holds.locate_ok (h : fs.Holds file chain) {offset : ℕ} (hlt : offset < file.fileSize) :
    ∃ c cs, chain.drop (offset / fs.bytesPerCluster) = c :: cs ∧ fs.Linked (c :: cs) ∧
      fs.locate file offset = .ok (c, offset % fs.bytesPerCluster) := by
  have hpos := h.volume.bytesPerCluster_pos
  have hcovers := h.covers
  have hindex : offset / fs.bytesPerCluster < chain.length :=
    (Nat.div_lt_iff_lt_mul hpos).mpr (by omega)
  cases hdrop : chain.drop (offset / fs.bytesPerCluster) with
  | nil =>
    have hlen := congrArg List.length hdrop
    rw [List.length_drop, List.length_nil] at hlen
    omega
  | cons c cs =>
    cases chain with
    | nil => simp at hindex
    | cons e es =>
      have hlinked : fs.Linked (e :: es) := ⟨h.linked.resolve_left (by simp), h.clusters⟩
      obtain rfl : e = file.entryCluster := h.entry e rfl
      have hoffset := (Nat.mod_eq_sub_div_mul (x := offset) (k := fs.bytesPerCluster)).symm
      refine ⟨c, cs, rfl, hlinked.drop hdrop, ?_⟩
      simp only [locate, if_neg hpos.ne', skipClusters_chain hlinked.chain hdrop, hoffset,
        Checked.ok_bind, Checked.pure_eq_ok]

/-- There are less than `2 ^ 28` clusters. -/
theorem Holds.length_lt (h : fs.Holds file chain) : chain.length < 2 ^ 28 := by
  have hsub : chain.toFinset ⊆ Finset.range 0x0FFFFFF8 := by
    intro c hc
    exact Finset.mem_range.mpr (h.clusters c (List.mem_toFinset.mp hc)).high
  have hcard := Finset.card_le_card hsub
  rw [List.toFinset_card_of_nodup h.nodup, Finset.card_range] at hcard
  omega

/-- A volume with clusters of four sectors, on which a file has cluster 5 and a
second one. -/
def sampleVolume (second : ℕ) : Fat32 :=
  ⟨2048, 512, 512, 4, 32, 1, 2, fun c => if c = 5 then second else 0x0FFFFFFF⟩

theorem sampleVolume_holds {second : ℕ} (hlow : 5 < second) (hhigh : second < 100) :
    (sampleVolume second).Holds ⟨5, 4096⟩ [5, second] where
  volume := by constructor <;> norm_num [sampleVolume]
  entry := by simp
  linked := by
    refine .inr (.link ?_ (.last ?_))
    · have hrange : 2 ≤ second ∧ second < 268435448 := by omega
      simp [getNextCluster, sampleVolume, hrange]
    · have hne : second ≠ 5 := by omega
      simp [getNextCluster, sampleVolume, hne]
  nodup := by
    have hne : 5 ≠ second := by omega
    simp [hne]
  clusters := by
    intro c hc
    simp only [List.mem_cons, List.not_mem_nil, or_false] at hc
    refine ⟨by omega, by omega, ?_⟩
    simp only [dataSector, sampleVolume]
    omega
  size := by norm_num
  covers := by norm_num [bytesPerCluster, sampleVolume]

end Fat32

/-! ## The device -/

namespace VirtioBlk

theorem and_511 (n : ℕ) : n &&& (1 <<< 9 - 1) = n % 512 := Nat.and_two_pow_sub_one_eq_mod n 9

theorem operationSync_le (blk : VirtioBlk) (blockAddress length : ℕ) :
    (blk.operationSync blockAddress length).1 ≤ length % 2 ^ 32 := by
  unfold operationSync
  split_ifs
  · exact Nat.zero_le _
  · exact Nat.min_le_right _ _

theorem write_outside (blk : VirtioBlk) (mem : Bytes) (bufferAddress : ℕ)
    {blockAddress length a : ℕ}
    (h : ¬ (blockAddress ≤ a ∧ a < blockAddress + length % 2 ^ 32)) :
    (blk.write mem bufferAddress blockAddress length).2.disk a = blk.disk a := by
  have hcount := blk.operationSync_le blockAddress length
  change Bytes.copy blk.disk mem blockAddress bufferAddress
    (blk.operationSync blockAddress length).1 a = blk.disk a
  exact Bytes.copy_outside _ _ _ (by omega)

/-- A device that completes every request. -/
def Completes (blk : VirtioBlk) : Prop :=
  ∀ blockAddress length, length ≤ blk.transferred blockAddress length

theorem operationSync_completes {blk : VirtioBlk} (hblk : blk.Completes) {blockAddress length : ℕ}
    (haddress : 512 ∣ blockAddress) (hlength : 512 ∣ length) :
    blk.operationSync blockAddress length = (length % 2 ^ 32, true) := by
  have hmin := Nat.min_eq_right (hblk blockAddress (length % 2 ^ 32))
  rw [operationSync, and_511, and_511, Nat.mod_eq_zero_of_dvd haddress,
    Nat.mod_eq_zero_of_dvd hlength, if_neg (by simp)]
  dsimp only
  rw [hmin, beq_self_eq_true]

end VirtioBlk

end Min1visor.Fat
