import Min1visor.Library.LoopRuns
import Min1visor.FatDirectory
import Min1visor.FatReadBounds
import Min1visor.FatWrite

/-!
# Arithmetic faults on malformed disks

The parameters of a volume, the links of its table and the entries of its directory are used
as they are read. The sums and products that are formed from them overflow on some disks.
A call stops with such a fault exactly when a turn that it comes to is out of order: the
cluster of the turn has no sector or no address, or the buffer ends above the address space.
What the turns do is stated for any question about runs that allows results and errors but no
overflow.
-/
namespace Min1visor.Fat
open Relation LoopRuns

/-- An overflow or a division by zero. -/
def Stop.Fault (s : Stop) : Prop := s = .panic .overflow ∨ s = .panic .divideByZero

/-- A call that does not stop with a fault. -/
def Faultless {α : Type} (r : Except Stop α) : Prop := ∀ s, r = .error s → ¬ s.Fault

theorem faultless_ok {α : Type} (a : α) : Faultless (.ok a) := nofun

theorem faultless_error_iff {α : Type} {s : Stop} :
    Faultless (.error s : Except Stop α) ↔ ¬ s.Fault := by
  constructor
  · exact fun h => h s rfl
  · intro h t ht
    rwa [← Except.error.inj ht]

theorem faultless_err {α : Type} : Faultless (.error .err : Except Stop α) :=
  faultless_error_iff.mpr (by simp [Stop.Fault])

theorem faultless_running {α : Type} : Faultless (.error .running : Except Stop α) :=
  faultless_error_iff.mpr (by simp [Stop.Fault])

theorem not_faultless {α : Type} : ¬ Faultless (.error (.panic .overflow) : Except Stop α) :=
  fun h => h _ rfl (.inl rfl)

namespace Fat32

variable {η : Type} {fs : Fat32}

/-! ## Arithmetic that overflows -/

/-- A computation that fails only with an overflow. -/
def Overflows {α : Type} (x : Except Panic α) : Prop := ∀ p, x = .error p → p = .overflow

namespace Overflows

variable {α β : Type}

theorem ok (a : α) : Overflows (.ok a) := nofun

theorem add (w a b : ℕ) : Overflows (Checked.add w a b) := by
  intro p h
  unfold Checked.add at h
  split_ifs at h
  exact (Except.error.inj h).symm

theorem sub (a b : ℕ) : Overflows (Checked.sub a b) := by
  intro p h
  unfold Checked.sub at h
  split_ifs at h
  exact (Except.error.inj h).symm

theorem mul (w a b : ℕ) : Overflows (Checked.mul w a b) := by
  intro p h
  unfold Checked.mul at h
  split_ifs at h
  exact (Except.error.inj h).symm

theorem bind {x : Except Panic α} {f : α → Except Panic β} (hx : Overflows x)
    (hf : ∀ a, Overflows (f a)) : Overflows (x >>= f) := by
  cases x with
  | error p =>
    intro q hq
    exact hx q (congrArg Except.error (Except.error.inj hq))
  | ok a => exact hf a

/-- A computation that returns no value. -/
theorem eq_error {x : Except Panic α} (hx : Overflows x) (hnone : ∀ a, x ≠ .ok a) :
    x = .error .overflow := by
  cases x with
  | error p => rw [hx p rfl]
  | ok a => exact absurd rfl (hnone a)

end Overflows

theorem clusterToSector_overflows (c : ℕ) : Overflows (fs.clusterToSector c) :=
  (Overflows.mul _ _ _).bind fun _ => (Overflows.add _ _ _).bind fun _ =>
    (Overflows.sub _ _).bind fun _ => (Overflows.mul _ _ _).bind fun _ => .add _ _ _

theorem byteRange_overflows (sector sectors : ℕ) : Overflows (fs.byteRange sector sectors) :=
  (Overflows.mul _ _ _).bind fun _ => (Overflows.mul _ _ _).bind fun _ =>
    (Overflows.add _ _ _).bind fun _ => (Overflows.mul _ _ _).bind fun _ => .ok _

theorem spanRange_overflows (c : ℕ) (s : Span) : Overflows (fs.spanRange c s) :=
  (clusterToSector_overflows c).bind fun _ => (Overflows.add _ _ _).bind fun _ =>
    byteRange_overflows _ _

/-! ## Clusters on the disk -/

/-- The parameters of an open volume, in their types. -/
structure Opened (fs : Fat32) : Prop where
  geometry : fs.Geometry
  sector : 2 ≤ fs.bytesPerSector
  block : 0 < fs.lbaSize ∧ fs.lbaSize < 2 ^ 32
  base : fs.baseLba * fs.lbaSize < 2 ^ 64

/-- The sector some way into a cluster has a 32-bit number and a 64-bit address. -/
def OnDisk (fs : Fat32) (c skip : ℕ) : Prop :=
  2 ≤ c ∧ fs.dataSector + (c - 2) * fs.sectorsPerCluster + skip < 2 ^ 32 ∧
    fs.clusterStart c + skip * fs.bytesPerSector < 2 ^ 64

theorem clusterStart_skip (c skip : ℕ) : fs.clusterStart c + skip * fs.bytesPerSector =
    fs.baseLba * fs.lbaSize +
      (fs.dataSector + (c - 2) * fs.sectorsPerCluster + skip) * fs.bytesPerSector := by
  rw [clusterStart]
  ring

theorem clusterToSector_iff (c sector : ℕ) : fs.clusterToSector c = .ok sector ↔
    2 ≤ c ∧ fs.dataSector + (c - 2) * fs.sectorsPerCluster < 2 ^ 32 ∧
      fs.dataSector + (c - 2) * fs.sectorsPerCluster = sector := by
  simp only [clusterToSector, Checked.bind_eq_ok, Checked.mul_eq_ok, Checked.add_eq_ok,
    Checked.sub_eq_ok, and_assoc, exists_and_left, exists_eq_left']
  unfold dataSector
  omega

theorem byteRange_iff (hbps : fs.bytesPerSector < 2 ^ 16) (hbase : fs.baseLba * fs.lbaSize < 2 ^ 64)
    {sector sectors : ℕ} (hsector : sector < 2 ^ 32) (hsectors : sectors < 2 ^ 32)
    (range : ℕ × ℕ) : fs.byteRange sector sectors = .ok range ↔
      fs.baseLba * fs.lbaSize + sector * fs.bytesPerSector < 2 ^ 64 ∧
        (fs.baseLba * fs.lbaSize + sector * fs.bytesPerSector, sectors * fs.bytesPerSector) =
          range := by
  have hstart : sector * fs.bytesPerSector < 2 ^ 32 * 2 ^ 16 :=
    Nat.mul_lt_mul'' hsector hbps
  have hlength : sectors * fs.bytesPerSector < 2 ^ 32 * 2 ^ 16 :=
    Nat.mul_lt_mul'' hsectors hbps
  simp only [byteRange, Checked.bind_eq_ok, Checked.mul_eq_ok, Checked.add_eq_ok,
    Checked.pure_eq_ok, Except.ok.injEq, and_assoc, exists_and_left, exists_eq_left']
  constructor
  · rintro ⟨-, -, hsum, -, hrange⟩
    exact ⟨hsum, hrange⟩
  · rintro ⟨hsum, hrange⟩
    exact ⟨hbase, by omega, hsum, by omega, hrange⟩

/-- The bytes that a span covers, if its first cluster is on the disk. -/
theorem spanRange_iff (hfs : fs.Opened) {c : ℕ} {s : Span} (hsectors : s.sectors < 2 ^ 32)
    (range : ℕ × ℕ) : fs.spanRange c s = .ok range ↔ fs.OnDisk c s.sectorOffset ∧
      (fs.clusterStart c + s.sectorOffset * fs.bytesPerSector,
        s.sectors * fs.bytesPerSector) = range := by
  simp only [spanRange, Checked.bind_eq_ok, Checked.add_eq_ok, clusterToSector_iff, and_assoc,
    exists_and_left, exists_eq_left']
  rw [OnDisk, clusterStart_skip]
  have hbytes {sector : ℕ} (hsector : sector < 2 ^ 32) :=
    byteRange_iff hfs.geometry.sectorLt hfs.base hsector hsectors range
  constructor
  · rintro ⟨hlow, -, hsector, hrange⟩
    obtain ⟨haddress, heq⟩ := (hbytes hsector).mp hrange
    exact ⟨⟨hlow, hsector, haddress⟩, heq⟩
  · rintro ⟨⟨hlow, hsector, haddress⟩, hrange⟩
    exact ⟨hlow, by omega, hsector, (hbytes hsector).mpr ⟨haddress, hrange⟩⟩

/-! ## Spans -/

/-- The merging loop goes on from the last 32-bit cluster number. -/
def Wraps (fs : Fat32) (least n c dataOffset : ℕ) : Prop :=
  c + 1 = 2 ^ 32 ∧ least ≤ n ∧ fs.bytesPerCluster < n + fs.residue dataOffset ∧
    fs.getNextCluster c ≠ none

theorem Opened.total (hfs : fs.Opened) {n : ℕ} (hn : n < 2 ^ 32) :
    n + 2 * fs.bytesPerSector < 2 ^ 32 * fs.bytesPerSector := by
  have hsector := hfs.sector
  omega

/-- The first turn of the merging loop, from the last cluster number there is. -/
theorem span_last (hfs : fs.Opened) {least n c dataOffset : ℕ} (hn : n < 2 ^ 32)
    (hc : c + 1 = 2 ^ 32) :
    fs.span least n c dataOffset =
      if n < least then .error .err
      else if n + fs.residue dataOffset ≤ fs.bytesPerCluster then
        .ok { fs.firstSpan c dataOffset with
          sectors := fs.sectorCount (n + fs.residue dataOffset) % 2 ^ 32
          bytes := n }
      else if fs.getNextCluster c = none then .error .err
      else .error (.panic .overflow) := by
  have hresidue := residue_le hfs.geometry dataOffset
  have hsector := hfs.geometry.sectorLt
  have hspc := hfs.geometry.clusterLt
  have hle := hfs.geometry.sector_le
  have hbpc : fs.bytesPerCluster < 2 ^ 8 * 2 ^ 16 := Nat.mul_lt_mul'' hspc hsector
  have hskip : fs.skipSectors (fs.firstSpan c dataOffset) = fs.firstSpan c dataOffset :=
    skipSectors_of_le hresidue
  have hmax : 1 + (max (n + fs.residue dataOffset) 1 - 1) / fs.bytesPerSector =
      fs.sectorCount (n + fs.residue dataOffset) := by
    rw [sectorCount, Nat.add_comm]
    congr 2
    omega
  have hcount := Nat.mod_lt (fs.sectorCount (n + fs.residue dataOffset)) (show 0 < 2 ^ 32 by decide)
  rw [span, ← coalesce_skipSectors hfs.geometry, skipSectors_first, coalesce, hskip]
  simp only [firstSpan, Nat.sub_zero, Nat.zero_add, Checked.sub_ok (Nat.zero_le n), lift_ok,
    Checked.ok_bind, Checked.throw_eq_error, Checked.pure_eq_ok,
    Checked.add_ok (show n + fs.residue dataOffset < 2 ^ 64 by omega), hmax,
    Checked.add_ok (show 0 + fs.sectorCount (n + fs.residue dataOffset) % 2 ^ 32 < 2 ^ 32 by omega),
    Checked.add_ok (show 0 + fs.sectorsPerCluster < 2 ^ 32 by omega),
    Checked.sub_ok (hresidue.trans hle),
    Checked.add_ok (show 0 + (fs.bytesPerCluster - fs.residue dataOffset) < 2 ^ 64 by omega),
    nextCluster]
  split_ifs with hleast hrest hnone
  · rfl
  · rfl
  · rw [hnone]
    rfl
  · cases hnext : fs.getNextCluster c with
    | none => exact absurd hnext hnone
    | some next =>
      have hover : Checked.add 32 c 1 = .error .overflow := if_neg (by omega)
      simp only [Checked.ok_bind, hover, lift_error, Checked.error_bind]

theorem span_wraps (hfs : fs.Opened) {least n c dataOffset : ℕ} (hn : n < 2 ^ 32)
    (h : fs.Wraps least n c dataOffset) :
    fs.span least n c dataOffset = .error (.panic .overflow) := by
  obtain ⟨hc, hleast, hmore, hnext⟩ := h
  rw [span_last hfs hn hc, if_neg (by omega), if_neg (by omega), if_neg hnext]

theorem span_not_panic (hfs : fs.Opened) {least n c dataOffset : ℕ} (hn : n < 2 ^ 32)
    (hc : c < 2 ^ 32) (hoffset : dataOffset < fs.bytesPerCluster)
    (h : ¬ fs.Wraps least n c dataOffset) (p : Panic) :
    fs.span least n c dataOffset ≠ .error (.panic p) := by
  by_cases hlast : c + 1 = 2 ^ 32
  · rw [span_last hfs hn hlast]
    split_ifs with hleast hrest hnone
    · simp
    · simp
    · simp
    · exact absurd ⟨hlast, not_lt.mp hleast, not_le.mp hrest, hnone⟩ h
  · have hresidue := residue_le hfs.geometry dataOffset
    have hlt : fs.residue dataOffset < fs.bytesPerCluster := (Nat.sub_le _ _).trans_lt hoffset
    rw [span, ← coalesce_skipSectors hfs.geometry, skipSectors_first]
    refine coalesce_not_panic hfs.geometry least n (n + 1) _ hresidue hlt (Nat.zero_le _) ?_ p
    exact ⟨hn, hfs.total hn, by dsimp only [firstSpan]; omega, by dsimp only [firstSpan]; omega⟩

/-- A span is a piece of the chain. -/
theorem span_joins_of_not_wraps (hfs : fs.Opened) {least n c dataOffset : ℕ} (hn : n < 2 ^ 32)
    (hc : c < 2 ^ 32) (hoffset : dataOffset < fs.bytesPerCluster)
    (hleast : least ≤ fs.bytesPerCluster)
    (hzero : least = 0 ∨ (fs.residue dataOffset = 0 ∧ 0 < n))
    (h : ¬ fs.Wraps least n c dataOffset) :
    match fs.linkedPiece least n c dataOffset with
    | none => fs.span least n c dataOffset = .error .err
    | some p => ∃ s, fs.span least n c dataOffset = .ok s ∧ fs.Joins c dataOffset p s ∧
      s.sectors < 2 ^ 32 := by
  have hspan := (span_joins hfs.geometry hleast hoffset hzero).resolve_left fun habort =>
    habort.2.elim fun p => span_not_panic hfs hn hc hoffset h p
  cases hpiece : fs.linkedPiece least n c dataOffset with
  | none =>
    rw [hpiece] at hspan
    exact hspan
  | some p =>
    rw [hpiece] at hspan
    obtain ⟨s, hok, hs⟩ := hspan
    have hsize := (linkedPiece_le hfs.geometry hpiece).2
    rw [hs.size] at hsize
    exact ⟨s, hok, hs, Nat.lt_of_mul_lt_mul_right (hsize.trans_lt (hfs.total hn))⟩

/-- Where a span that is a piece lies. -/
theorem Joins.spanRange_cases (hfs : fs.Opened) {c dataOffset least n : ℕ} {p : Piece} {s : Span}
    (hs : fs.Joins c dataOffset p s) (hpiece : fs.linkedPiece least n c dataOffset = some p)
    (hsectors : s.sectors < 2 ^ 32) :
    (fs.OnDisk c (fs.skipped dataOffset) ∧ fs.spanRange c s = .ok (p.address, p.size)) ∨
      (¬ fs.OnDisk c (fs.skipped dataOffset) ∧ fs.spanRange c s = .error .overflow) := by
  by_cases hdisk : fs.OnDisk c (fs.skipped dataOffset)
  · refine .inl ⟨hdisk, (spanRange_iff hfs hsectors _).mpr ?_⟩
    rw [hs.sectorOffset, linkedPiece_address hpiece, hs.size]
    exact ⟨hdisk, rfl⟩
  · refine .inr ⟨hdisk, (spanRange_overflows c s).eq_error fun range hrange => hdisk ?_⟩
    rw [← hs.sectorOffset]
    exact ((spanRange_iff hfs hsectors range).mp hrange).1

/-! ## Turns -/

/-- A page allocator that returns, whatever it answers. -/
def Pages.answering (allocate : η → ℕ → ℕ → Option ℕ × η) (free : η → ℕ → ℕ → η) : Pages η where
  allocatePages heap count align := .ok (allocate heap count align)
  freePages heap a count := .ok (free heap a count)

/-- Where a turn starts. -/
structure Position where
  cluster : ℕ
  dataOffset : ℕ
  bufferPointer : ℕ

/-- What the turns of a call for `length` bytes depend on beside the volume: the least rest, the
buffer, the sizes that bounce pages are granted for and the transfers that succeed. -/
structure Setting where
  least : ℕ
  length : ℕ
  bufferAddress : ℕ
  granted : ℕ → Prop
  transfers : ℕ → ℕ → Prop

/-- A turn hands its piece to the device. -/
def Requests (fs : Fat32) (q : Setting) (i : Position) (p : Piece) : Prop :=
  fs.linkedPiece q.least q.length i.cluster i.dataOffset = some p ∧
    (fs.residue i.dataOffset = 0 ∨ q.granted p.size)

/-- One turn follows another. -/
def Moves (fs : Fat32) (q : Setting) (i j : Position) : Prop :=
  ∃ p next, fs.Requests q i p ∧ q.transfers p.address p.size ∧
    q.length ≠ i.bufferPointer + p.bytes ∧
    fs.getNextCluster (i.cluster + p.clusters - 1) = some next ∧
    j = ⟨next, 0, i.bufferPointer + p.bytes⟩

/-- The numbers of a turn fit their types. -/
structure InOrder (fs : Fat32) (q : Setting) (i : Position) : Prop where
  last : ¬ fs.Wraps q.least q.length i.cluster i.dataOffset
  buffer : fs.residue i.dataOffset = 0 → ∀ p, fs.Requests q i p →
    q.bufferAddress + i.bufferPointer < 2 ^ 64
  disk : ∀ p, fs.Requests q i p → fs.OnDisk i.cluster (fs.skipped i.dataOffset)
  pointer : ∀ p, fs.Requests q i p → q.transfers p.address p.size →
    i.bufferPointer + p.bytes < 2 ^ 64

theorem Requests.unique {q : Setting} {i : Position} {p p' : Piece} (h : fs.Requests q i p)
    (h' : fs.Requests q i p') : p' = p :=
  Option.some.inj (h'.1.symm.trans h.1)

theorem Moves.unique {q : Setting} {i j j' : Position} (h : fs.Moves q i j) (h' : fs.Moves q i j') :
    j' = j := by
  obtain ⟨p, next, hp, -, -, hnext, rfl⟩ := h
  obtain ⟨p', next', hp', -, -, hnext', rfl⟩ := h'
  obtain rfl := hp.unique hp'
  rw [hnext] at hnext'
  rw [Option.some.inj hnext']

/-- A call for bytes of one run of clusters is over after its first turn. -/
theorem not_moves_of_covers (hpos : 0 < fs.bytesPerCluster) {q : Setting} {i j : Position}
    (hcovers : fs.Covers i.cluster (q.length + fs.residue i.dataOffset))
    (hfirst : i.bufferPointer = 0) :
    ¬ fs.Moves q i j := by
  rintro ⟨p, next, hp, -, hmore, -⟩
  have hpiece := hp.1
  rw [linkedPiece_covers hpos q.least hcovers] at hpiece
  split_ifs at hpiece
  obtain rfl := Option.some.inj hpiece
  rw [hfirst, Nat.zero_add] at hmore
  exact hmore rfl

/-- The end of a turn that has moved its piece. -/
inductive Finishes (fs : Fat32) (q : Setting) (i : Position) (p : Piece) (s : Span) : Prop
  | fault (hover : ¬ i.bufferPointer + p.bytes < 2 ^ 64)
      (h : fs.turn q.length i.bufferPointer s = .error (.panic .overflow))
  | last (hfits : i.bufferPointer + p.bytes < 2 ^ 64) (hend : q.length = i.bufferPointer + p.bytes)
      (h : fs.turn q.length i.bufferPointer s = .ok (i.bufferPointer + p.bytes, none))
  | cut (hfits : i.bufferPointer + p.bytes < 2 ^ 64)
      (hnone : fs.getNextCluster (i.cluster + p.clusters - 1) = none)
      (h : fs.turn q.length i.bufferPointer s = .error .err)
  | next (hfits : i.bufferPointer + p.bytes < 2 ^ 64) (next : ℕ)
      (hmore : q.length ≠ i.bufferPointer + p.bytes)
      (hnext : fs.getNextCluster (i.cluster + p.clusters - 1) = some next)
      (h : fs.turn q.length i.bufferPointer s = .ok (i.bufferPointer + p.bytes, some next))

theorem Joins.finishes (q : Setting) {i : Position} {p : Piece} {s : Span}
    (hs : fs.Joins i.cluster i.dataOffset p s) : fs.Finishes q i p s := by
  by_cases hfits : i.bufferPointer + p.bytes < 2 ^ 64
  · have hturn : fs.turn q.length i.bufferPointer s = _ := turn_joins hs hfits
    by_cases hend : q.length = i.bufferPointer + p.bytes
    · rw [if_pos hend] at hturn
      exact .last hfits hend hturn
    · rw [if_neg hend] at hturn
      cases hnext : fs.getNextCluster (i.cluster + p.clusters - 1) with
      | none =>
        rw [hnext] at hturn
        exact .cut hfits hnext hturn
      | some next =>
        rw [hnext] at hturn
        exact .next hfits next hend hnext hturn
  · refine .fault hfits ?_
    have hover : Checked.add 64 i.bufferPointer p.bytes = .error .overflow := if_neg hfits
    rw [turn, hs.bytes, hover]
    rfl

/-- The place of a piece fits its types. -/
def Placeable (fs : Fat32) (q : Setting) (i : Position) : Prop :=
  (fs.residue i.dataOffset = 0 → q.bufferAddress + i.bufferPointer < 2 ^ 64) ∧
    fs.OnDisk i.cluster (fs.skipped i.dataOffset)

/-- What moving a piece comes to: a fault, if its place does not fit, or an error, unless the
device moves it all. -/
inductive Fetches {κ : Type} (good sent : Prop) (kept : κ → Prop) (r : Except Stop Unit × κ) : Prop
  | fault (hgood : ¬ good) (h : r.1 = .error (.panic .overflow))
  | refused (hgood : good) (hsent : ¬ sent) (h : r.1 = .error .err)
  | done (hgood : good) (hsent : sent) (h : r.1 = .ok ()) (hkept : kept r.2)

theorem inOrder_iff {q : Setting} {i : Position} {p : Piece} (hp : fs.Requests q i p)
    (hlast : ¬ fs.Wraps q.least q.length i.cluster i.dataOffset) : fs.InOrder q i ↔
      fs.Placeable q i ∧ (q.transfers p.address p.size → i.bufferPointer + p.bytes < 2 ^ 64) := by
  constructor
  · intro h
    exact ⟨⟨fun hzero => h.buffer hzero p hp, h.disk p hp⟩, h.pointer p hp⟩
  · rintro ⟨⟨hbuffer, hdisk⟩, hpointer⟩
    refine ⟨hlast, fun hzero _ _ => hbuffer hzero, fun _ _ => hdisk, fun p' hp' => ?_⟩
    obtain rfl := hp.unique hp'
    exact hpointer

/-- What a loop does with a piece that has been moved or not: the end of the turn, and the next
turn. -/
def carryOn {κ : Type} (fs : Fat32) (length bufferPointer : ℕ) (s : Span)
    (loop : ℕ → ℕ → κ → Except Stop ℕ × κ) : Except Stop Unit × κ → Except Stop ℕ × κ
  | (.error stop, k) => (.error stop, k)
  | (.ok (), k) =>
    match fs.turn length bufferPointer s with
    | .error stop => (.error stop, k)
    | .ok (bufferPointer, none) => (.ok bufferPointer, k)
    | .ok (bufferPointer, some next) => loop next bufferPointer k

section Judging
variable {κ : Type} {loop : ℕ → Position → κ → Except Stop ℕ × κ} {inv : Position → κ → Prop}
  {q : Setting} {i : Position} {k : κ} {allows : Except Stop ℕ → Prop}

/-- What may be asked of a run: its results and errors are allowed, and an overflow is not. -/
structure Judges (allows : Except Stop ℕ → Prop) : Prop where
  ok : ∀ n, allows (.ok n)
  err : allows (.error .err)
  overflow : ¬ allows (.error (.panic .overflow))

theorem faultless_judges : Judges Faultless := ⟨faultless_ok, faultless_err, not_faultless⟩

/-- The allowed runs of a loop, judged by its turns. -/
abbrev TurnOf (fs : Fat32) (allows : Except Stop ℕ → Prop) (q : Setting)
    (loop : ℕ → Position → κ → Except Stop ℕ × κ) (inv : Position → κ → Prop) (i : Position)
    (k : κ) : Prop :=
  LoopRuns.Turn (fun fuel i k => allows (loop fuel i k).1) inv (fs.Moves q) (fs.InOrder q) i k

/-- A turn that adds to the last cluster number. -/
theorem turn_wraps (hallows : Judges allows) (h : fs.Wraps q.least q.length i.cluster i.dataOffset)
    (hloop : ∀ fuel, (loop (fuel + 1) i k).1 = .error (.panic .overflow)) :
    fs.TurnOf allows q loop inv i k := by
  refine .bad (fun hgood => hgood.last h) fun fuel => ?_
  rw [hloop]
  exact hallows.overflow

/-- A turn that hands nothing to the device. -/
theorem turn_idle (hallows : Judges allows)
    (hlast : ¬ fs.Wraps q.least q.length i.cluster i.dataOffset)
    (hidle : ∀ p, ¬ fs.Requests q i p) (hloop : ∀ fuel, (loop (fuel + 1) i k).1 = .error .err) :
    fs.TurnOf allows q loop inv i k := by
  refine .last ⟨hlast, fun _ p hp => absurd hp (hidle p), fun p hp => absurd hp (hidle p),
    fun p hp => absurd hp (hidle p)⟩ ?_ fun fuel => ?_
  · rintro j ⟨p, -, hp, -⟩
    exact hidle p hp
  · rw [hloop]
    exact hallows.err

/-- A turn that hands its piece to the device. -/
theorem turn_requests (hallows : Judges allows) {p : Piece} {s : Span} (hp : fs.Requests q i p)
    (hlast : ¬ fs.Wraps q.least q.length i.cluster i.dataOffset)
    (hs : fs.Joins i.cluster i.dataOffset p s) {kept : κ → Prop} {r : Except Stop Unit × κ}
    (hfetch : Fetches (fs.Placeable q i) (q.transfers p.address p.size) kept r)
    (hkept : ∀ next, next < 2 ^ 32 → kept r.2 → inv ⟨next, 0, i.bufferPointer + p.bytes⟩ r.2)
    (hloop : ∀ fuel, loop (fuel + 1) i k = fs.carryOn q.length i.bufferPointer s
      (fun next bufferPointer k => loop fuel ⟨next, 0, bufferPointer⟩ k) r) :
    fs.TurnOf allows q loop inv i k := by
  obtain ⟨result, k'⟩ := r
  have hiff := inOrder_iff hp hlast
  cases hfetch with
  | fault hgood h =>
    obtain rfl : result = _ := h
    refine .bad (fun horder => hgood (hiff.mp horder).1) fun fuel => ?_
    rw [hloop]
    exact hallows.overflow
  | refused hgood hsent h =>
    obtain rfl : result = _ := h
    refine .last (hiff.mpr ⟨hgood, fun hsent' => absurd hsent' hsent⟩) ?_ fun fuel => ?_
    · rintro j ⟨p', -, hp', hsent', -⟩
      obtain rfl := hp.unique hp'
      exact hsent hsent'
    · rw [hloop]
      exact hallows.err
  | done hgood hsent h hk =>
    obtain rfl : result = _ := h
    cases hs.finishes q with
    | fault hover h =>
      refine .bad (fun horder => hover ((hiff.mp horder).2 hsent)) fun fuel => ?_
      simp only [hloop, carryOn, h]
      exact hallows.overflow
    | last hfits hend h =>
      refine .last (hiff.mpr ⟨hgood, fun _ => hfits⟩) ?_ fun fuel => ?_
      · rintro j ⟨p', -, hp', -, hmore, -⟩
        obtain rfl := hp.unique hp'
        exact hmore hend
      · simp only [hloop, carryOn, h]
        exact hallows.ok _
    | cut hfits hnone h =>
      refine .last (hiff.mpr ⟨hgood, fun _ => hfits⟩) ?_ fun fuel => ?_
      · rintro j ⟨p', next, hp', -, -, hnext, -⟩
        obtain rfl := hp.unique hp'
        rw [hnone] at hnext
        cases hnext
      · simp only [hloop, carryOn, h]
        exact hallows.err
    | next hfits next hmore hnext h =>
      have hmove : fs.Moves q i ⟨next, 0, i.bufferPointer + p.bytes⟩ :=
        ⟨p, next, hp, hsent, hmore, hnext, rfl⟩
      have hlt : next < 2 ^ 32 := (getNextCluster_lt hnext).2.trans (by norm_num)
      refine .next (hiff.mpr ⟨hgood, fun _ => hfits⟩) _ k' hmove (fun l hl => hmove.unique hl)
        (hkept next hlt hk) fun fuel => ?_
      simp only [hloop, carryOn, h]

end Judging

/-! ## The reader -/

section Reader
variable {allocate : η → ℕ → ℕ → Option ℕ × η} {free : η → ℕ → ℕ → η} {heap : η} {blk : VirtioBlk}
  {bufferAddress n : ℕ} {i : Position} {m : Machine η} {p : Piece} {s : Span}

/-- The setting of the reader. -/
def readSetting (fs : Fat32) (allocate : η → ℕ → ℕ → Option ℕ × η) (heap : η) (blk : VirtioBlk)
    (bufferAddress n : ℕ) : Setting where
  least := 0
  length := n
  bufferAddress := bufferAddress
  granted size := (allocate heap (pageCount fs.lbaSize size) 0).1 ≠ none
  transfers a size := (blk.operationSync a size).2 = true

/-- The device and, for a span that starts within a sector, the heap are those of the call. -/
structure ReadState (fs : Fat32) (heap : η) (blk : VirtioBlk) (i : Position) (m : Machine η) :
    Prop where
  cluster : i.cluster < 2 ^ 32
  dataOffset : i.dataOffset < fs.bytesPerCluster
  blk : m.blk = blk
  first : fs.residue i.dataOffset ≠ 0 → i.bufferPointer = 0 ∧ m.heap = heap

theorem readDirect_fetches (allocate : η → ℕ → ℕ → Option ℕ × η) (heap : η) (bufferAddress : ℕ)
    (hfs : fs.Opened)
    (hpiece : fs.linkedPiece 0 n i.cluster i.dataOffset = some p)
    (hs : fs.Joins i.cluster i.dataOffset p s) (hsectors : s.sectors < 2 ^ 32)
    (hzero : fs.residue i.dataOffset = 0) (hblk : m.blk = blk) :
    Fetches (fs.Placeable (fs.readSetting allocate heap blk bufferAddress n) i)
      ((blk.operationSync p.address p.size).2 = true) (fun m' => m'.blk = blk)
      (fs.readDirect bufferAddress i.cluster i.bufferPointer s m) := by
  rw [readDirect]
  rcases Checked.add_cases 64 bufferAddress i.bufferPointer with hadd | ⟨hover, hadd⟩
  · rcases hs.spanRange_cases hfs hpiece hsectors with ⟨hdisk, hrange⟩ | ⟨hdisk, hrange⟩
    · have hgood : fs.Placeable (fs.readSetting allocate heap blk bufferAddress n) i :=
        ⟨fun _ => (Checked.add_eq_ok.mp hadd).1, hdisk⟩
      simp only [hadd, hrange, Checked.ok_bind, Checked.pure_eq_ok, VirtioBlk.read, hblk]
      cases hsent : (blk.operationSync p.address p.size).2 with
      | false => exact .refused hgood (by simp) rfl
      | true => exact .done hgood rfl rfl rfl
    · simp only [hadd, hrange, Checked.ok_bind, Checked.error_bind]
      exact .fault (fun hgood => hdisk hgood.2) rfl
  · simp only [hadd, Checked.error_bind]
    exact .fault (fun hgood => absurd (hgood.1 hzero) (not_lt.mpr hover)) rfl

theorem readBounced_fetches (free : η → ℕ → ℕ → η) (bufferAddress : ℕ) (hfs : fs.Opened)
    (hpiece : fs.linkedPiece 0 n i.cluster i.dataOffset = some p)
    (hs : fs.Joins i.cluster i.dataOffset p s) (hsectors : s.sectors < 2 ^ 32)
    (hne : fs.residue i.dataOffset ≠ 0) (hstate : fs.ReadState heap blk i m) {buffer count : ℕ}
    {heap' : η} (halloc : allocate heap count 0 = (some buffer, heap')) :
    Fetches (fs.Placeable (fs.readSetting allocate heap blk bufferAddress n) i)
      ((blk.operationSync p.address p.size).2 = true) (fun m' => m'.blk = blk)
      (fs.readBounced (.answering allocate free) bufferAddress i.cluster i.bufferPointer s count
        m) := by
  obtain ⟨hpointer, hheap⟩ := hstate.first hne
  simp only [readBounced, Pages.answering, hheap, halloc]
  rcases hs.spanRange_cases hfs hpiece hsectors with ⟨hdisk, hrange⟩ | ⟨hdisk, hrange⟩
  · have hgood : fs.Placeable (fs.readSetting allocate heap blk bufferAddress n) i :=
      ⟨fun hzero => absurd hzero hne, hdisk⟩
    simp only [hrange, VirtioBlk.read, hstate.blk]
    cases hsent : (blk.operationSync p.address p.size).2 with
    | false => exact .refused hgood (by simp) rfl
    | true =>
      simp only [hpointer, ne_eq, not_true_eq_false, if_false, reduceCtorEq]
      exact .done hgood trivial rfl rfl
  · simp only [hrange]
    exact .fault (fun hgood => hdisk hgood.2) rfl

theorem readFrom_fetched {pages : Pages η} {count : ℕ} {r : Except Stop Unit × Machine η}
    (hspan : fs.span 0 n i.cluster i.dataOffset = .ok s) (hcount : fs.bufferPages s = .ok count)
    (hr : (if s.dataOffsetBackup ≠ 0 then
        fs.readBounced pages bufferAddress i.cluster i.bufferPointer s count m
      else fs.readDirect bufferAddress i.cluster i.bufferPointer s m) = r) (fuel : ℕ) :
    fs.readFrom pages bufferAddress n (fuel + 1) i.cluster i.dataOffset i.bufferPointer m =
      fs.carryOn n i.bufferPointer s (fun next bufferPointer m =>
        fs.readFrom pages bufferAddress n fuel next 0 bufferPointer m) r := by
  rw [readFrom, readSpan, hspan, Checked.ok_bind, hcount, lift_ok, Checked.ok_bind,
    Checked.pure_eq_ok]
  dsimp only
  rw [hr]
  obtain ⟨result, m'⟩ := r
  cases result with
  | error stop => rfl
  | ok _ => rfl

theorem reader_turn {allows : Except Stop ℕ → Prop} (hallows : Judges allows) (hfs : fs.Opened)
    (hn : n < 2 ^ 32) (hstate : fs.ReadState heap blk i m) :
    fs.TurnOf allows (fs.readSetting allocate heap blk bufferAddress n)
      (fun fuel i m => fs.readFrom (.answering allocate free) bufferAddress n fuel i.cluster
        i.dataOffset i.bufferPointer m)
      (fs.ReadState heap blk) i m := by
  have hpos := hfs.geometry.bytesPerCluster_pos
  by_cases hwraps : fs.Wraps 0 n i.cluster i.dataOffset
  · refine turn_wraps hallows hwraps fun fuel => ?_
    rw [readFrom, readSpan, span_wraps hfs hn hwraps]
    rfl
  have hspan := span_joins_of_not_wraps hfs hn hstate.cluster hstate.dataOffset (Nat.zero_le _)
    (.inl rfl) hwraps
  cases hpiece : fs.linkedPiece 0 n i.cluster i.dataOffset with
  | none =>
    rw [hpiece] at hspan
    refine turn_idle hallows hwraps (fun p hp => ?_) fun fuel => ?_
    · cases hpiece.symm.trans hp.1
    · simp only [readFrom, readSpan, hspan]
      rfl
  | some p =>
    rw [hpiece] at hspan
    obtain ⟨s, hok, hs, hsectors⟩ := hspan
    have hcount := bufferPages_ok hfs.geometry hfs.block hsectors
    rw [← hs.size] at hcount
    have hkept : ∀ next m', next < 2 ^ 32 → m'.blk = blk →
        fs.ReadState heap blk ⟨next, 0, i.bufferPointer + p.bytes⟩ m' := fun next m' hlt hblk =>
      ⟨hlt, hpos, hblk, fun hne => absurd residue_zero hne⟩
    by_cases hzero : fs.residue i.dataOffset = 0
    · have hfetch := readDirect_fetches allocate heap bufferAddress hfs hpiece hs hsectors hzero
        hstate.blk
      exact turn_requests hallows ⟨hpiece, .inl hzero⟩ hwraps hs hfetch (hkept · _)
        (readFrom_fetched hok hcount (by rw [hs.dataOffsetBackup, if_neg (not_not.mpr hzero)]))
    · cases halloc : allocate heap (pageCount fs.lbaSize p.size) 0 with
      | mk found heap' =>
        cases found with
        | none =>
          refine turn_idle hallows hwraps (fun p' hp' => ?_) fun fuel => ?_
          · cases hpiece.symm.trans hp'.1
            exact hp'.2.elim hzero fun hgranted => hgranted (congrArg Prod.fst halloc)
          · have hheap := (hstate.first hzero).2
            rw [readFrom_fetched hok hcount rfl, hs.dataOffsetBackup, if_pos hzero, readBounced,
              Pages.answering, hheap]
            simp only [halloc, carryOn]
        | some buffer =>
          have hgranted : (fs.readSetting allocate heap blk bufferAddress n).granted p.size := by
            simp [readSetting, halloc]
          have hfetch := readBounced_fetches free bufferAddress hfs hpiece hs hsectors hzero hstate
            halloc
          exact turn_requests hallows ⟨hpiece, .inr hgranted⟩ hwraps hs hfetch (hkept · _)
            (readFrom_fetched hok hcount (by rw [hs.dataOffsetBackup, if_pos hzero]))

end Reader

/-! ## The writer -/

section Writer
variable {blk k : VirtioBlk} {mem : Bytes} {bufferAddress n : ℕ} {i : Position} {p : Piece} {s : Span}

/-- The setting of the writer, which has no bounce pages. -/
def writeSetting (fs : Fat32) (blk : VirtioBlk) (bufferAddress n : ℕ) : Setting where
  least := fs.bytesPerSector
  length := n
  bufferAddress := bufferAddress
  granted _ := False
  transfers a size := (blk.operationSync a size).2 = true

/-- The device moves as much as that of the call. -/
structure WriteState (fs : Fat32) (blk : VirtioBlk) (i : Position) (k : VirtioBlk) : Prop where
  cluster : i.cluster < 2 ^ 32
  dataOffset : i.dataOffset < fs.bytesPerCluster
  transferred : k.transferred = blk.transferred

theorem writeRequest_refused (hfs : fs.Opened) (hn : n < 2 ^ 32) {c dataOffset : ℕ} (hc : c < 2 ^ 32)
    (hoffset : dataOffset < fs.bytesPerCluster) (hne : fs.residue dataOffset ≠ 0)
    (hwraps : ¬ fs.Wraps fs.bytesPerSector n c dataOffset) (bufferAddress bufferPointer : ℕ) :
    fs.writeRequest bufferAddress n c dataOffset bufferPointer = .error .err := by
  have hpanic := span_not_panic hfs hn hc hoffset hwraps
  have hspan := coalesce_returns fs fs.bytesPerSector n (n + 1)
    ⟨0, 0, 0, dataOffset, dataOffset, c⟩ hoffset (by dsimp only; omega)
  rw [skipSectors_first] at hspan
  rw [span] at hpanic
  rw [writeRequest, writeSpan, span]
  generalize fs.coalesce fs.bytesPerSector n (n + 1) ⟨0, 0, 0, dataOffset, dataOffset, c⟩ = result at *
  cases result with
  | error stop =>
    cases stop with
    | err => rfl
    | panic p => exact absurd rfl (hpanic p)
    | running => exact absurd rfl hspan
  | ok s =>
    rw [Checked.ok_bind, if_pos (by rw [hspan]; exact hne), Checked.throw_eq_error]

theorem span_short {least n c dataOffset : ℕ} (h : n < least) :
    fs.span least n c dataOffset = .error .err := by
  rw [span, coalesce, Checked.sub_ok (Nat.zero_le n), lift_ok, Checked.ok_bind,
    if_pos (by simpa using h)]
  rfl

theorem linkedPiece_empty (hfs : fs.Opened) (c : ℕ) {dataOffset : ℕ}
    (hzero : fs.residue dataOffset = 0) : fs.linkedPiece fs.bytesPerSector 0 c dataOffset = none := by
  have hsector := hfs.sector
  simp only [linkedPiece, hzero, Nat.zero_add, Nat.zero_sub, Nat.zero_div, Nat.zero_mod, straight,
    if_true]
  rw [if_pos (by omega)]

/-- What the writer does with a piece. -/
theorem writeFrom_fetched (mem : Bytes) (bufferAddress : ℕ) (hfs : fs.Opened)
    (hstate : fs.WriteState blk i k)
    (hpiece : fs.linkedPiece fs.bytesPerSector n i.cluster i.dataOffset = some p)
    (hspan : fs.span fs.bytesPerSector n i.cluster i.dataOffset = .ok s)
    (hs : fs.Joins i.cluster i.dataOffset p s) (hsectors : s.sectors < 2 ^ 32)
    (hzero : fs.residue i.dataOffset = 0) :
    ∃ r, Fetches (fs.Placeable (fs.writeSetting blk bufferAddress n) i)
        ((blk.operationSync p.address p.size).2 = true)
        (fun k' : VirtioBlk => k'.transferred = blk.transferred) r ∧
      ∀ fuel, fs.writeFrom mem bufferAddress n (fuel + 1) i.cluster i.dataOffset i.bufferPointer k =
        fs.carryOn n i.bufferPointer s (fun next bufferPointer k =>
          fs.writeFrom mem bufferAddress n fuel next 0 bufferPointer k) r := by
  have hback : ¬ s.dataOffsetBackup ≠ 0 := by
    rw [hs.dataOffsetBackup]
    exact not_not.mpr hzero
  simp only [writeFrom, writeRequest, writeSpan, hspan, Checked.ok_bind, if_neg hback]
  rcases Checked.add_cases 64 bufferAddress i.bufferPointer with hadd | ⟨hover, hadd⟩
  · simp only [hadd, lift_ok, Checked.ok_bind]
    rcases hs.spanRange_cases hfs hpiece hsectors with ⟨hdisk, hrange⟩ | ⟨hdisk, hrange⟩
    · have hgood : fs.Placeable (fs.writeSetting blk bufferAddress n) i :=
        ⟨fun _ => (Checked.add_eq_ok.mp hadd).1, hdisk⟩
      have hsync : k.operationSync p.address p.size = blk.operationSync p.address p.size := by
        rw [VirtioBlk.operationSync, hstate.transferred, ← VirtioBlk.operationSync]
      simp only [hrange, lift_ok, Checked.ok_bind, Checked.pure_eq_ok, VirtioBlk.write, hsync]
      let k' : VirtioBlk := { k with
        disk := Bytes.copy k.disk mem p.address (bufferAddress + i.bufferPointer)
          (blk.operationSync p.address p.size).1 }
      cases hsent : (blk.operationSync p.address p.size).2 with
      | false => exact ⟨(.error .err, k'), .refused hgood (by simp) rfl, fun _ => rfl⟩
      | true => exact ⟨(.ok (), k'), .done hgood rfl rfl hstate.transferred, fun _ => rfl⟩
    · simp only [hrange, lift_error, Checked.error_bind]
      exact ⟨(.error (.panic .overflow), k), .fault (fun hgood => hdisk hgood.2) rfl, fun _ => rfl⟩
  · simp only [hadd, lift_error, Checked.error_bind]
    exact ⟨(.error (.panic .overflow), k),
      .fault (fun hgood => absurd (hgood.1 hzero) (not_lt.mpr hover)) rfl, fun _ => rfl⟩

theorem writer_turn {allows : Except Stop ℕ → Prop} (hallows : Judges allows) (hfs : fs.Opened)
    (hn : n < 2 ^ 32) (hstate : fs.WriteState blk i k) :
    fs.TurnOf allows (fs.writeSetting blk bufferAddress n)
      (fun fuel i k => fs.writeFrom mem bufferAddress n fuel i.cluster i.dataOffset i.bufferPointer k)
      (fs.WriteState blk) i k := by
  have hpos := hfs.geometry.bytesPerCluster_pos
  by_cases hwraps : fs.Wraps fs.bytesPerSector n i.cluster i.dataOffset
  · refine turn_wraps hallows hwraps fun fuel => ?_
    rw [writeFrom, writeRequest, writeSpan, span_wraps hfs hn hwraps]
    rfl
  by_cases hzero : fs.residue i.dataOffset = 0
  swap
  · refine turn_idle hallows hwraps (fun p hp => hp.2.elim hzero id) fun fuel => ?_
    rw [writeFrom, writeRequest_refused hfs hn hstate.cluster hstate.dataOffset hzero hwraps]
  rcases Nat.eq_zero_or_pos n with rfl | hmore
  · refine turn_idle hallows hwraps (fun p hp => ?_) fun fuel => ?_
    · cases (linkedPiece_empty hfs i.cluster hzero).symm.trans hp.1
    · rw [writeFrom, writeRequest, writeSpan, span_short hfs.geometry.sectorPos]
      rfl
  have hspan := span_joins_of_not_wraps hfs hn hstate.cluster hstate.dataOffset
    hfs.geometry.sector_le (.inr ⟨hzero, hmore⟩) hwraps
  cases hpiece : fs.linkedPiece fs.bytesPerSector n i.cluster i.dataOffset with
  | none =>
    rw [hpiece] at hspan
    refine turn_idle hallows hwraps (fun p hp => ?_) fun fuel => ?_
    · cases hpiece.symm.trans hp.1
    · simp only [writeFrom, writeRequest, writeSpan, hspan]
      rfl
  | some p =>
    rw [hpiece] at hspan
    obtain ⟨s, hok, hs, hsectors⟩ := hspan
    obtain ⟨r, hfetch, hrun⟩ := writeFrom_fetched mem bufferAddress hfs hstate hpiece hok hs hsectors
      hzero
    exact turn_requests hallows ⟨hpiece, .inl hzero⟩ hwraps hs hfetch
      (fun next hlt hkept => ⟨hlt, hpos, hkept⟩) hrun

end Writer

/-- Every turn that a call comes to is in order; a call beside the file comes to none. -/
def TurnsInOrder (fs : Fat32) (q : Setting) (file : FileInfo) (offset length : ℕ) : Prop :=
  offset < file.fileSize ∨ offset + length ≤ file.fileSize →
    ∀ c, fs.follow file.entryCluster (offset / fs.bytesPerCluster) = some c →
      ∀ j, ReflTransGen (fs.Moves q) ⟨c, offset % fs.bytesPerCluster, 0⟩ j → fs.InOrder q j

/-- A call of the reader or of the writer, in terms of its outer loop. -/
def located {κ : Type} (fs : Fat32) (file : FileInfo) (offset length : ℕ)
    (loop : ℕ → Position → κ → Except Stop ℕ × κ) (k : κ) : Except Stop ℕ × κ :=
  match clamp file offset length with
  | .error p => (.error (.panic p), k)
  | .ok none => (.ok 0, k)
  | .ok (some length) =>
    match fs.locate file offset with
    | .error stop => (.error stop, k)
    | .ok (cluster, dataOffset) => loop length ⟨cluster, dataOffset, 0⟩ k

theorem read_eq_located {η : Type} (fs : Fat32) (pages : Pages η) (fuel : ℕ) (file : FileInfo)
    (bufferAddress offset length : ℕ) (m : Machine η) :
    fs.read pages fuel file bufferAddress offset length m =
      fs.located file offset length (fun n i m =>
        fs.readFrom pages bufferAddress n fuel i.cluster i.dataOffset i.bufferPointer m) m := rfl

theorem write_eq_located (fs : Fat32) (fuel : ℕ) (file : FileInfo) (mem : Bytes)
    (bufferAddress offset length : ℕ) (blk : VirtioBlk) :
    fs.write fuel file mem bufferAddress offset length blk =
      fs.located file offset length (fun n i blk =>
        fs.writeFrom mem bufferAddress n fuel i.cluster i.dataOffset i.bufferPointer blk) blk := rfl

theorem count_lt {file : FileInfo} {offset length : ℕ} (hsize : file.fileSize < 2 ^ 32) :
    count file offset length < 2 ^ 32 :=
  (Nat.min_le_right _ _).trans_lt ((Nat.sub_le _ _).trans_lt hsize)

theorem follow_lt {c d : ℕ} (hc : c < 2 ^ 32) (k : ℕ) (h : fs.follow c k = some d) : d < 2 ^ 32 := by
  cases k with
  | zero =>
    obtain rfl := Option.some.inj h
    exact hc
  | succ k =>
    rw [follow] at h
    obtain ⟨x, -, hnext⟩ := Option.bind_eq_some_iff.mp h
    exact (getNextCluster_lt hnext).2.trans (by norm_num)

/-- A call does not fault exactly where the turns it comes to are in order, if each turn of its
loop is judged. -/
theorem located_faultless_iff (hpos : 0 < fs.bytesPerCluster) {file : FileInfo}
    (hcluster : file.entryCluster < 2 ^ 32) {offset length : ℕ} (hsum : offset + length < 2 ^ 64)
    {q : Setting} {κ : Type} {loop : ℕ → ℕ → Position → κ → Except Stop ℕ × κ}
    {inv : Position → κ → Prop} {k : κ}
    (hcut : ∀ n i k, (loop n 0 i k).1 = .error .running)
    (hturn : ∀ i k, inv i k → fs.TurnOf Faultless q (loop (count file offset length)) inv i k)
    (hstart : ∀ c, c < 2 ^ 32 → inv ⟨c, offset % fs.bytesPerCluster, 0⟩ k) :
    (∀ fuel, Faultless (fs.located file offset length (fun n => loop n fuel) k).1) ↔
      fs.TurnsInOrder q file offset length := by
  simp only [located, clamp_eq hsum, locate_follow hpos, TurnsInOrder]
  by_cases hbeside : file.fileSize < offset + length ∧ file.fileSize ≤ offset
  · rw [if_pos hbeside]
    exact ⟨fun _ hinside => absurd hinside (by omega), fun _ _ => faultless_ok 0⟩
  rw [if_neg hbeside, forall_prop_of_true (by omega)]
  cases hfollow : fs.follow file.entryCluster (offset / fs.bytesPerCluster) with
  | none => exact iff_of_true (fun _ => faultless_err) (by simp)
  | some c =>
    have hjudged : Judged (fun fuel i k => Faultless (loop (count file offset length) fuel i k).1)
        inv (fs.Moves q) (fs.InOrder q) := by
      refine ⟨fun i k => ?_, hturn⟩
      rw [hcut]
      exact faultless_running
    have hiff := hjudged.forall_iff (hstart c (follow_lt hcluster _ hfollow))
    simp only [Option.some.injEq, forall_eq']
    exact hiff

/-- The reader does not fault exactly where the turns it comes to are in order. -/
theorem read_faultless_iff (hfs : fs.Opened) {file : FileInfo}
    (hcluster : file.entryCluster < 2 ^ 32) (hsize : file.fileSize < 2 ^ 32)
    (allocate : η → ℕ → ℕ → Option ℕ × η) (free : η → ℕ → ℕ → η) (bufferAddress : ℕ)
    {offset length : ℕ} (hsum : offset + length < 2 ^ 64) (m : Machine η) :
    (∀ fuel, Faultless
      (fs.read (.answering allocate free) fuel file bufferAddress offset length m).1) ↔
      fs.TurnsInOrder (fs.readSetting allocate m.heap m.blk bufferAddress (count file offset length))
        file offset length := by
  have hpos := hfs.geometry.bytesPerCluster_pos
  simp only [read_eq_located]
  refine located_faultless_iff hpos hcluster hsum (fun _ _ _ => rfl)
    (fun _ _ hstate => reader_turn faultless_judges hfs (count_lt hsize) hstate) fun c hc => ?_
  exact ⟨hc, Nat.mod_lt _ hpos, rfl, fun _ => ⟨rfl, rfl⟩⟩

/-- The writer, too, faults exactly where a turn it comes to is out of order. -/
theorem write_faultless_iff (hfs : fs.Opened) {file : FileInfo}
    (hcluster : file.entryCluster < 2 ^ 32) (hsize : file.fileSize < 2 ^ 32) (mem : Bytes)
    (bufferAddress : ℕ) {offset length : ℕ} (hsum : offset + length < 2 ^ 64) (blk : VirtioBlk) :
    (∀ fuel, Faultless (fs.write fuel file mem bufferAddress offset length blk).1) ↔
      fs.TurnsInOrder (fs.writeSetting blk bufferAddress (count file offset length)) file offset
        length := by
  have hpos := hfs.geometry.bytesPerCluster_pos
  simp only [write_eq_located]
  refine located_faultless_iff hpos hcluster hsum (fun _ _ _ => rfl)
    (fun _ _ hstate => writer_turn faultless_judges hfs (count_lt hsize) hstate) fun c hc => ?_
  exact ⟨hc, Nat.mod_lt _ hpos, rfl⟩

end Fat32

end Min1visor.Fat
