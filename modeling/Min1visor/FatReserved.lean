import Min1visor.FatLinks
import Min1visor.FatRead

/-!
# The reserved bits of the table

An entry of the table has 28 bits and 4 more that are reserved. The driver compares all 32
of them, so that a reserved bit that is set ends the chain. Two volumes with the same
clusters, whose entries differ in their reserved bits, are compared by what the reader and
the writer do on both.
-/
namespace Min1visor.Fat.Fat32

variable {fs : Fat32} {fat : ℕ → ℕ}

/-- The same volume with another table. -/
def withFat (fs : Fat32) (fat : ℕ → ℕ) : Fat32 := { fs with fat }

theorem getNextCluster_withFat (fs : Fat32) (fat : ℕ → ℕ) (c : ℕ) :
    (fs.withFat fat).getNextCluster c = if c < fs.fatSectors * fs.bytesPerSector / 4 then
      if 2 ≤ fat c ∧ fat c < 0x0FFFFFF8 then some (fat c) else none
    else none := rfl

/-- The address of the first data cluster. -/
def dataStart (fs : Fat32) : ℕ := fs.baseLba * fs.lbaSize + fs.dataSector * fs.bytesPerSector

/-- The devices hold the same clusters, and move as much of every request. -/
structure SameData (fs : Fat32) (blk blk' : VirtioBlk) : Prop where
  disk : ∀ a, fs.dataStart ≤ a → blk'.disk a = blk.disk a
  transferred : blk'.transferred = blk.transferred

/-- The table has the same entries, up to the reserved bits. -/
structure Twin (fs : Fat32) (fat : ℕ → ℕ) : Prop where
  entry : ∀ c, fs.fat c < 2 ^ 32
  entry' : ∀ c, fat c < 2 ^ 32
  low : ∀ c, fat c % 2 ^ 28 = fs.fat c % 2 ^ 28

/-- The reader returns the same and leaves the same memory. -/
def SameReads (fs : Fat32) (fat : ℕ → ℕ) : Prop :=
  ∀ (η : Type) (pages : Pages η) (fuel : ℕ) (file : FileInfo) (bufferAddress offset length : ℕ)
    (m : Machine η) (blk' : VirtioBlk), file.entryCluster < 2 ^ 32 → file.fileSize < 2 ^ 32 →
    fs.SameData m.blk blk' →
      let run := fs.read pages fuel file bufferAddress offset length m
      (fs.withFat fat).read pages fuel file bufferAddress offset length { m with blk := blk' } =
        (run.1, { run.2 with blk := blk' })

/-- The writer returns the same and leaves the same clusters. -/
def SameWrites (fs : Fat32) (fat : ℕ → ℕ) : Prop :=
  ∀ (fuel : ℕ) (file : FileInfo) (mem : Bytes) (bufferAddress offset length : ℕ)
    (blk blk' : VirtioBlk), file.entryCluster < 2 ^ 32 → file.fileSize < 2 ^ 32 →
    fs.SameData blk blk' →
      let run := fs.write fuel file mem bufferAddress offset length blk
      let run' := (fs.withFat fat).write fuel file mem bufferAddress offset length blk'
      run'.1 = run.1 ∧ fs.SameData run.2 run'.2

/-- Every entry that names a next cluster has reserved bits on both volumes or on none. -/
def SameReserved (fs : Fat32) (fat : ℕ → ℕ) : Prop :=
  ∀ c, c < 2 ^ 32 → c < fs.fatSectors * fs.bytesPerSector / 4 →
    2 ≤ fs.fat c % 2 ^ 28 → fs.fat c % 2 ^ 28 < 0x0FFFFFF8 → (fat c < 2 ^ 28 ↔ fs.fat c < 2 ^ 28)

/-- The tables lead to the same clusters. -/
def SameLinks (fs : Fat32) (fat : ℕ → ℕ) : Prop :=
  ∀ c, c < 2 ^ 32 → (fs.withFat fat).getNextCluster c = fs.getNextCluster c

theorem Twin.sameLinks_iff (h : fs.Twin fat) : fs.SameLinks fat ↔ fs.SameReserved fat := by
  have hentry (c : ℕ) (hin : c < fs.fatSectors * fs.bytesPerSector / 4) :
      (fs.withFat fat).getNextCluster c = fs.getNextCluster c ↔
        (2 ≤ fs.fat c % 2 ^ 28 → fs.fat c % 2 ^ 28 < 0x0FFFFFF8 →
          (fat c < 2 ^ 28 ↔ fs.fat c < 2 ^ 28)) := by
    have hlow := h.low c
    have hlt := h.entry c
    have hlt' := h.entry' c
    rw [getNextCluster_withFat, getNextCluster, if_pos hin, if_pos hin]
    split_ifs with hlinks hlinks' hlinks'
    · rw [Option.some.injEq]
      constructor
      · intro heq _ _
        rw [heq]
      · intro halike
        omega
    · simp only [false_iff]
      omega
    · simp only [false_iff]
      omega
    · simp only [true_iff]
      omega
  constructor
  · intro hsame c hc hin
    exact (hentry c hin).mp (hsame c hc)
  · intro halike c hc
    by_cases hin : c < fs.fatSectors * fs.bytesPerSector / 4
    · exact (hentry c hin).mpr (halike c hc hin)
    · rw [getNextCluster_withFat, getNextCluster, if_neg hin, if_neg hin]

/-! ## The same walk -/

/-- Two computations return the same, and what they return has a property. -/
def Agree {ε α : Type} (p : α → Prop) (x y : Except ε α) : Prop := x = y ∧ ∀ a, y = .ok a → p a

theorem Agree.ok {ε α : Type} {p : α → Prop} {a : α} (h : p a) :
    Agree p (.ok a : Except ε α) (.ok a) :=
  ⟨rfl, fun b hb => by cases hb; exact h⟩

theorem Agree.error {ε α : Type} {p : α → Prop} (e : ε) : Agree p (.error e) (.error e) :=
  ⟨rfl, fun b hb => by cases hb⟩

theorem Agree.refl {ε α : Type} (x : Except ε α) : Agree (fun _ => True) x x :=
  ⟨rfl, fun _ _ => trivial⟩

theorem Agree.bind {ε α β : Type} {p : α → Prop} {q : β → Prop} {x y : Except ε α}
    {f g : α → Except ε β} (h : Agree p x y) (hfg : ∀ a, p a → Agree q (f a) (g a)) :
    Agree q (x >>= f) (y >>= g) := by
  obtain ⟨rfl, hp⟩ := h
  cases x with
  | error e => exact .error e
  | ok a => exact hfg a (hp a rfl)

theorem Agree.ite {ε α : Type} {p : α → Prop} {c : Prop} [Decidable c] {x x' y y' : Except ε α}
    (hx : c → Agree p x y) (hy : ¬ c → Agree p x' y') :
    Agree p (if c then x else x') (if c then y else y') := by
  by_cases hc : c
  · rw [if_pos hc, if_pos hc]
    exact hx hc
  · rw [if_neg hc, if_neg hc]
    exact hy hc

/-- A cluster number of the table is a word. -/
def Word (c : ℕ) : Prop := c < 2 ^ 32

theorem getNextCluster_word {c next : ℕ} (h : fs.getNextCluster c = some next) : Word next :=
  (getNextCluster_lt h).2.trans (by decide)

theorem SameLinks.nextCluster (h : fs.SameLinks fat) {c : ℕ} (hc : Word c) :
    Agree Word ((fs.withFat fat).nextCluster c) (fs.nextCluster c) := by
  rw [Fat32.nextCluster, h c hc, Fat32.nextCluster]
  cases hnext : fs.getNextCluster c with
  | none => exact .error _
  | some next => exact .ok (getNextCluster_word hnext)

theorem SameLinks.skipClusters (h : fs.SameLinks fat) (n : ℕ) {c : ℕ} (hc : Word c) :
    Agree Word ((fs.withFat fat).skipClusters n c) (fs.skipClusters n c) := by
  induction n generalizing c with
  | zero => exact .ok hc
  | succ n ih => exact (h.nextCluster hc).bind fun next hnext => ih hnext

theorem SameLinks.locate (h : fs.SameLinks fat) {file : FileInfo} (hfile : Word file.entryCluster)
    (offset : ℕ) :
    Agree (fun found => Word found.1) ((fs.withFat fat).locate file offset)
      (fs.locate file offset) := by
  refine Agree.ite (fun _ => .error _) fun _ => ?_
  exact (h.skipClusters _ hfile).bind fun c hc => .ok hc

theorem skipSectors_cluster (s : Span) : (fs.skipSectors s).cluster = s.cluster := by
  unfold skipSectors
  split_ifs <;> rfl

theorem SameLinks.coalesce (h : fs.SameLinks fat) (least length fuel : ℕ) {s : Span}
    (hs : Word s.cluster) :
    Agree (fun s' => Word s'.cluster) ((fs.withFat fat).coalesce least length fuel s)
      (fs.coalesce least length fuel s) := by
  induction fuel generalizing s with
  | zero => exact .error _
  | succ fuel ih =>
    have hskip : Word (fs.skipSectors s).cluster := by
      rw [skipSectors_cluster]
      exact hs
    refine (Agree.refl _).bind fun left _ => Agree.ite (fun _ => .error _) fun _ => ?_
    refine (Agree.refl _).bind fun rest _ => Agree.ite (fun _ => ?_) fun _ => ?_
    · exact (Agree.refl _).bind fun sectors _ => .ok hskip
    · refine (Agree.refl _).bind fun sectors _ => ?_
      refine (Agree.refl _).bind fun left' _ => ?_
      refine (Agree.refl _).bind fun bytes _ => ?_
      refine (h.nextCluster hskip).bind fun next hnext => ?_
      refine (Agree.refl _).bind fun following _ => ?_
      exact Agree.ite (fun _ => .ok hskip) fun _ => ih hnext

theorem SameLinks.span (h : fs.SameLinks fat) (least length dataOffset : ℕ) {c : ℕ} (hc : Word c) :
    Agree (fun s => Word s.cluster) ((fs.withFat fat).span least length c dataOffset)
      (fs.span least length c dataOffset) :=
  h.coalesce least length (length + 1) hc

theorem SameLinks.turn (h : fs.SameLinks fat) (length bufferPointer : ℕ) {s : Span}
    (hs : Word s.cluster) :
    Agree (fun p => ∀ next, p.2 = some next → Word next)
      ((fs.withFat fat).turn length bufferPointer s)
      (fs.turn length bufferPointer s) := by
  refine (Agree.refl _).bind fun pointer _ => Agree.ite (fun _ => .ok (by simp)) fun _ => ?_
  refine (h.nextCluster hs).bind fun next hnext => .ok fun d hd => ?_
  obtain rfl := Option.some.inj hd
  exact hnext

/-! ## The same requests -/

theorem spanRange_ge {c blockAddress size : ℕ} {s : Span}
    (h : fs.spanRange c s = .ok (blockAddress, size)) : fs.dataStart ≤ blockAddress := by
  simp only [spanRange, clusterToSector, byteRange, Checked.bind_eq_ok, Checked.pure_eq_ok,
    Except.ok.injEq, Prod.mk.injEq, Checked.mul_eq_ok, Checked.add_eq_ok, Checked.sub_eq_ok] at h
  obtain ⟨first, ⟨fats, ⟨-, hfats⟩, start, ⟨-, hstart⟩, above, -, skipped,
    ⟨-, -⟩, -, hfirst⟩, sector, ⟨-, hsector⟩, base, ⟨-, hbase⟩, bytes,
    ⟨-, hbytes⟩, _, ⟨-, rfl⟩, _, -, haddress, -⟩ := h
  have hle : fs.dataSector ≤ sector := by
    unfold dataSector
    omega
  rw [← haddress, dataStart, ← hbase, ← hbytes]
  exact Nat.add_le_add_left (Nat.mul_le_mul_right _ hle) _

theorem SameData.operationSync {blk blk' : VirtioBlk} (h : fs.SameData blk blk')
    (blockAddress size : ℕ) :
    blk'.operationSync blockAddress size = blk.operationSync blockAddress size := by
  rw [VirtioBlk.operationSync, h.transferred, ← VirtioBlk.operationSync]

theorem SameData.read {blk blk' : VirtioBlk} (h : fs.SameData blk blk') (mem : Bytes) (buffer : ℕ)
    {blockAddress : ℕ} (hstart : fs.dataStart ≤ blockAddress) (size : ℕ) :
    blk'.read mem buffer blockAddress size = blk.read mem buffer blockAddress size := by
  rw [VirtioBlk.read, h.operationSync, VirtioBlk.read]
  refine Prod.ext rfl ?_
  ext a
  simp only [Bytes.copy, h.disk _ (hstart.trans (Nat.le_add_right _ _))]

theorem SameData.write {blk blk' : VirtioBlk} (h : fs.SameData blk blk') (mem : Bytes)
    (buffer blockAddress size : ℕ) :
    (blk'.write mem buffer blockAddress size).1 = (blk.write mem buffer blockAddress size).1 ∧
      fs.SameData (blk.write mem buffer blockAddress size).2
        (blk'.write mem buffer blockAddress size).2 := by
  rw [VirtioBlk.write, h.operationSync, VirtioBlk.write]
  refine ⟨rfl, fun a ha => ?_, h.transferred⟩
  simp only [Bytes.copy, h.disk a ha]

/-! ## The same runs -/

section Reader
variable {η : Type}

/-- The run of a reader on the other device: its memory and its pages, and that device. -/
def Echoes {α : Type} (m : Machine η) (blk' : VirtioBlk) (run run' : α × Machine η) : Prop :=
  run.2.blk = m.blk ∧ run' = (run.1, { run.2 with blk := blk' })

theorem SameData.readDirect {m : Machine η} {blk' : VirtioBlk} (h : fs.SameData m.blk blk')
    (bufferAddress c bufferPointer : ℕ) (s : Span) :
    Echoes m blk' (fs.readDirect bufferAddress c bufferPointer s m)
      (fs.readDirect bufferAddress c bufferPointer s { m with blk := blk' }) := by
  simp only [Fat32.readDirect]
  split
  · exact ⟨rfl, rfl⟩
  · rename_i buffer blockAddress size hrange
    simp only [Checked.bind_eq_ok, Checked.pure_eq_ok, Except.ok.injEq, Prod.mk.injEq] at hrange
    obtain ⟨sum, -, range, hrange, -, rfl⟩ := hrange
    rw [h.read m.mem buffer (spanRange_ge hrange)]
    split <;> exact ⟨rfl, rfl⟩

theorem SameData.readBounced {m : Machine η} {blk' : VirtioBlk} (h : fs.SameData m.blk blk')
    (pages : Pages η) (bufferAddress c bufferPointer : ℕ) (s : Span) (count : ℕ) :
    Echoes m blk' (fs.readBounced pages bufferAddress c bufferPointer s count m)
      (fs.readBounced pages bufferAddress c bufferPointer s count { m with blk := blk' }) := by
  simp only [Fat32.readBounced]
  split
  · exact ⟨rfl, rfl⟩
  · exact ⟨rfl, rfl⟩
  · split
    · exact ⟨rfl, rfl⟩
    · rename_i hrange
      rw [h.read m.mem _ (spanRange_ge hrange)]
      split_ifs
      · split <;> exact ⟨rfl, rfl⟩
      · exact ⟨rfl, rfl⟩
      · split <;> exact ⟨rfl, rfl⟩

/-- The read of a span, with or without the fresh pages. -/
def readRun (fs : Fat32) (pages : Pages η) (bufferAddress c bufferPointer : ℕ) (s : Span)
    (count : ℕ) (m : Machine η) : Except Stop Unit × Machine η :=
  if s.dataOffsetBackup ≠ 0 then fs.readBounced pages bufferAddress c bufferPointer s count m
  else fs.readDirect bufferAddress c bufferPointer s m

theorem SameData.readRun {m : Machine η} {blk' : VirtioBlk} (h : fs.SameData m.blk blk')
    (pages : Pages η) (bufferAddress c bufferPointer : ℕ) (s : Span) (count : ℕ) :
    Echoes m blk' (fs.readRun pages bufferAddress c bufferPointer s count m)
      (fs.readRun pages bufferAddress c bufferPointer s count { m with blk := blk' }) := by
  unfold Fat32.readRun
  split_ifs
  · exact h.readBounced pages bufferAddress c bufferPointer s count
  · exact h.readDirect bufferAddress c bufferPointer s

theorem SameLinks.readTurn (h : fs.SameLinks fat) (length dataOffset : ℕ) {c : ℕ} (hc : Word c) :
    Agree (fun turn => Word turn.1.cluster)
      (do let s ← (fs.withFat fat).readSpan length c dataOffset
          return (s, ← (fs.withFat fat).bufferPages s) : Except Stop (Span × ℕ))
      (do let s ← fs.readSpan length c dataOffset; return (s, ← fs.bufferPages s)) :=
  (h.span 0 length dataOffset hc).bind fun s hs =>
    (Agree.refl (liftM (fs.bufferPages s))).bind fun _ _ => .ok hs

theorem SameLinks.readFrom (h : fs.SameLinks fat) (pages : Pages η) (bufferAddress length fuel : ℕ)
    {c : ℕ} (hc : Word c) (dataOffset bufferPointer : ℕ) {m : Machine η} {blk' : VirtioBlk}
    (hdata : fs.SameData m.blk blk') :
    Echoes m blk' (fs.readFrom pages bufferAddress length fuel c dataOffset bufferPointer m)
      ((fs.withFat fat).readFrom pages bufferAddress length fuel c dataOffset bufferPointer
        { m with blk := blk' }) := by
  induction fuel generalizing c dataOffset bufferPointer m with
  | zero => exact ⟨rfl, rfl⟩
  | succ fuel ih =>
    obtain ⟨hspan, hword⟩ := h.readTurn length dataOffset hc
    rw [Fat32.readFrom, Fat32.readFrom, hspan]
    split
    · exact ⟨rfl, rfl⟩
    · rename_i s count hturn
      have hs : Word s.cluster := hword _ hturn
      obtain ⟨hblk, hrun⟩ := hdata.readRun pages bufferAddress c bufferPointer s count
      have hleft : (if s.dataOffsetBackup ≠ 0 then
            fs.readBounced pages bufferAddress c bufferPointer s count m
          else fs.readDirect bufferAddress c bufferPointer s m) =
          fs.readRun pages bufferAddress c bufferPointer s count m := rfl
      have hright : (if s.dataOffsetBackup ≠ 0 then
            (fs.withFat fat).readBounced pages bufferAddress c bufferPointer s count
              { m with blk := blk' }
          else (fs.withFat fat).readDirect bufferAddress c bufferPointer s { m with blk := blk' }) =
          fs.readRun pages bufferAddress c bufferPointer s count { m with blk := blk' } := rfl
      rw [hleft, hright, hrun]
      generalize fs.readRun pages bufferAddress c bufferPointer s count m = run at hblk
      obtain ⟨result, m₁⟩ := run
      cases result with
      | error stop => exact ⟨hblk, rfl⟩
      | ok _ =>
        obtain ⟨hnext, hword⟩ := h.turn length bufferPointer hs
        dsimp only
        rw [hnext]
        cases hend : fs.turn length bufferPointer s with
        | error stop => exact ⟨hblk, rfl⟩
        | ok turn =>
          obtain ⟨pointer, next⟩ := turn
          cases next with
          | none => exact ⟨hblk, rfl⟩
          | some next =>
            have hdata₁ : fs.SameData m₁.blk blk' := by
              rw [show m₁.blk = m.blk from hblk]
              exact hdata
            obtain ⟨hblk₁, hrest⟩ := ih (hword _ hend next rfl) 0 pointer hdata₁
            exact ⟨hblk₁.trans hblk, hrest⟩

theorem SameLinks.sameReads (h : fs.SameLinks fat) : fs.SameReads fat := by
  intro η pages fuel file bufferAddress offset length m blk' hentry _ hdata
  have hlocate := h.locate hentry offset
  dsimp only
  rw [Fat32.read, Fat32.read, hlocate.1]
  cases clamp file offset length with
  | error p => rfl
  | ok within =>
    cases within with
    | none => rfl
    | some length =>
      cases hfound : fs.locate file offset with
      | error stop => rfl
      | ok found =>
        have hentry : Word found.1 := hlocate.2 found hfound
        exact (h.readFrom pages bufferAddress length fuel hentry found.2 0 hdata).2

end Reader

theorem SameLinks.writeRequest (h : fs.SameLinks fat)
    (bufferAddress length dataOffset bufferPointer : ℕ) {c : ℕ} (hc : Word c) :
    Agree (fun request => Word request.1.cluster)
      ((fs.withFat fat).writeRequest bufferAddress length c dataOffset bufferPointer)
      (fs.writeRequest bufferAddress length c dataOffset bufferPointer) :=
  (h.span fs.bytesPerSector length dataOffset hc).bind fun s hs =>
    .ite (fun _ => .error _) fun _ =>
      (Agree.refl _).bind fun _ _ => (Agree.refl (liftM (fs.spanRange c s))).bind fun _ _ => .ok hs

theorem SameLinks.writeFrom (h : fs.SameLinks fat) (mem : Bytes) (bufferAddress length fuel : ℕ)
    {c : ℕ} (hc : Word c) (dataOffset bufferPointer : ℕ) {blk blk' : VirtioBlk}
    (hdata : fs.SameData blk blk') :
    ((fs.withFat fat).writeFrom mem bufferAddress length fuel c dataOffset bufferPointer blk').1 =
        (fs.writeFrom mem bufferAddress length fuel c dataOffset bufferPointer blk).1 ∧
      fs.SameData (fs.writeFrom mem bufferAddress length fuel c dataOffset bufferPointer blk).2
        ((fs.withFat fat).writeFrom mem bufferAddress length fuel c dataOffset bufferPointer
          blk').2 := by
  induction fuel generalizing c dataOffset bufferPointer blk blk' with
  | zero => exact ⟨rfl, hdata⟩
  | succ fuel ih =>
    obtain ⟨hrequest, hword⟩ := h.writeRequest bufferAddress length dataOffset bufferPointer hc
    rw [Fat32.writeFrom, Fat32.writeFrom, hrequest]
    cases hmade : fs.writeRequest bufferAddress length c dataOffset bufferPointer with
    | error stop => exact ⟨rfl, hdata⟩
    | ok request =>
      obtain ⟨s, buffer, blockAddress, size⟩ := request
      obtain ⟨hsuccess, hdata₁⟩ := hdata.write mem buffer blockAddress size
      dsimp only
      generalize blk.write mem buffer blockAddress size = run at hsuccess hdata₁
      generalize blk'.write mem buffer blockAddress size = run' at hsuccess hdata₁
      obtain ⟨success, blk₁⟩ := run
      obtain ⟨success', blk₁'⟩ := run'
      obtain rfl : success' = success := hsuccess
      cases success' with
      | false => exact ⟨rfl, hdata₁⟩
      | true =>
        obtain ⟨hnext, hword'⟩ := h.turn length bufferPointer (hword _ hmade)
        dsimp only
        rw [hnext]
        cases hend : fs.turn length bufferPointer s with
        | error stop => exact ⟨rfl, hdata₁⟩
        | ok turn =>
          obtain ⟨pointer, next⟩ := turn
          cases next with
          | none => exact ⟨rfl, hdata₁⟩
          | some next => exact ih (hword' _ hend next rfl) 0 pointer hdata₁

theorem SameLinks.sameWrites (h : fs.SameLinks fat) : fs.SameWrites fat := by
  intro fuel file mem bufferAddress offset length blk blk' hentry _ hdata
  have hlocate := h.locate hentry offset
  dsimp only
  rw [Fat32.write, Fat32.write, hlocate.1]
  cases clamp file offset length with
  | error p => exact ⟨rfl, hdata⟩
  | ok within =>
    cases within with
    | none => exact ⟨rfl, hdata⟩
    | some length =>
      cases hfound : fs.locate file offset with
      | error stop => exact ⟨rfl, hdata⟩
      | ok found =>
        exact h.writeFrom mem bufferAddress length fuel (hlocate.2 found hfound) found.2 0 hdata

/-! ## A byte behind the entry -/

theorem spanRange_aligned (hfs : fs.WellFormed) {c blockAddress size : ℕ} {s : Span}
    (h : fs.spanRange c s = .ok (blockAddress, size)) : 512 ∣ blockAddress ∧ 512 ∣ size := by
  simp only [spanRange, byteRange, Checked.bind_eq_ok, Checked.pure_eq_ok, Except.ok.injEq,
    Prod.mk.injEq, Checked.mul_eq_ok, Checked.add_eq_ok] at h
  obtain ⟨_, -, sector, -, base, ⟨-, hbase⟩, bytes, ⟨-, hbytes⟩, _, ⟨-, rfl⟩, _, ⟨-, hsize⟩,
    haddress, rfl⟩ := h
  rw [← haddress, ← hbase, ← hbytes, ← hsize]
  exact ⟨Nat.dvd_add hfs.base (hfs.sector.mul_left _), hfs.sector.mul_left _⟩

/-- The first byte of the cluster that the entry of a cluster names. -/
def readBehind {η : Type} (fs : Fat32) (pages : Pages η) (c : ℕ) (m : Machine η) :
    Except Stop ℕ × Machine η :=
  fs.read pages 1 ⟨c, fs.bytesPerCluster + 1⟩ 0 fs.bytesPerCluster 1 m

theorem readBehind_eq {η : Type} (hfs : fs.WellFormed) (pages : Pages η) (c : ℕ) (m : Machine η) :
    fs.readBehind pages c m = match fs.nextCluster c with
      | .error stop => (.error stop, m)
      | .ok next => fs.readFrom pages 0 1 1 next 0 0 m := by
  have hlt : fs.bytesPerCluster < 2 ^ 8 * 2 ^ 16 := Nat.mul_lt_mul'' hfs.clusterLt hfs.sectorLt
  have hpos := hfs.bytesPerCluster_pos
  have hclamp : clamp ⟨c, fs.bytesPerCluster + 1⟩ fs.bytesPerCluster 1 = .ok (some 1) := by
    rw [clamp, Checked.add_ok (by omega), Checked.ok_bind, if_neg (lt_irrefl _), Checked.pure_eq_ok]
  have hlocate : fs.locate ⟨c, fs.bytesPerCluster + 1⟩ fs.bytesPerCluster =
      (fs.nextCluster c >>= fun next => .ok (next, 0)) := by
    simp only [locate, if_neg hpos.ne', Nat.div_self hpos, Nat.one_mul, Nat.sub_self, skipClusters]
    cases fs.nextCluster c <;> rfl
  rw [readBehind, Fat32.read, hclamp, hlocate]
  cases fs.nextCluster c <;> rfl

theorem readSpan_byte (hfs : fs.WellFormed) (c : ℕ) :
    fs.readSpan 1 c 0 = .ok ⟨1, 1, 0, 0, 0, c⟩ := by
  have hpos := hfs.bytesPerCluster_pos
  have hle : 1 ≤ fs.bytesPerCluster := hpos
  simp [readSpan, span, coalesce, skipSectors, Checked.sub, Checked.add, hle]

theorem readDirect_completes {η : Type} (hfs : fs.WellFormed) (bufferAddress c bufferPointer : ℕ)
    (s : Span) {m : Machine η} (hblk : m.blk.Completes) :
    (fs.readDirect bufferAddress c bufferPointer s m).1 ≠ .error .err := by
  rw [Fat32.readDirect]
  split
  · simp
  · rename_i buffer blockAddress size hrange
    simp only [Checked.bind_eq_ok, Checked.pure_eq_ok, Except.ok.injEq, Prod.mk.injEq] at hrange
    obtain ⟨sum, -, range, hrange, -, rfl⟩ := hrange
    obtain ⟨haddress, hsize⟩ := spanRange_aligned hfs hrange
    rw [VirtioBlk.read_completes hblk _ _ haddress hsize]
    simp

theorem readFrom_byte {η : Type} (hfs : fs.WellFormed) (pages : Pages η) (c : ℕ) {m : Machine η}
    (hblk : m.blk.Completes) : (fs.readFrom pages 0 1 1 c 0 0 m).1 ≠ .error .err := by
  have hdirect := readDirect_completes hfs 0 c 0 ⟨1, 1, 0, 0, 0, c⟩ hblk
  have hturn : fs.turn 1 0 ⟨1, 1, 0, 0, 0, c⟩ = .ok (1, none) := by
    rw [Fat32.turn, Checked.add_ok (by norm_num)]
    rfl
  rw [Fat32.readFrom, readSpan_byte hfs, Checked.ok_bind]
  cases hpages : fs.bufferPages ⟨1, 1, 0, 0, 0, c⟩ with
  | error p => simp
  | ok count =>
    rw [lift_ok, Checked.ok_bind, Checked.pure_eq_ok]
    dsimp only
    rw [if_neg (by simp)]
    generalize fs.readDirect 0 c 0 ⟨1, 1, 0, 0, 0, c⟩ m = run at hdirect
    obtain ⟨result, m₁⟩ := run
    cases result with
    | error stop => simpa using hdirect
    | ok _ =>
      dsimp only
      rw [hturn]
      simp

theorem readBehind_none {η : Type} (hfs : fs.WellFormed) (pages : Pages η) {c : ℕ}
    (h : fs.getNextCluster c = none) (m : Machine η) :
    fs.readBehind pages c m = (.error .err, m) := by
  rw [readBehind_eq hfs, nextCluster, h]

theorem readBehind_some {η : Type} (hfs : fs.WellFormed) (pages : Pages η) {c next : ℕ}
    (h : fs.getNextCluster c = some next) {m : Machine η} (hblk : m.blk.Completes) :
    (fs.readBehind pages c m).1 ≠ .error .err := by
  rw [readBehind_eq hfs, nextCluster, h]
  exact readFrom_byte hfs pages next hblk

/-- Volumes that are read alike have the same links: of two that differ, the first byte
behind the entry is an error on one volume only. -/
theorem SameReads.sameLinks (h : fs.SameReads fat) (htwin : fs.Twin fat) (hfs : fs.WellFormed) :
    fs.SameLinks fat := by
  intro c hc
  have hlt : fs.bytesPerCluster < 2 ^ 8 * 2 ^ 16 := Nat.mul_lt_mul'' hfs.clusterLt hfs.sectorLt
  have hfs' : (fs.withFat fat).WellFormed := ⟨hfs.sector, hfs.sectorPos, hfs.sectorLt,
    hfs.clusterPos, hfs.clusterLt, hfs.block, hfs.base, hfs.baseLt⟩
  let pages : Pages Unit := ⟨fun _ _ _ => .ok (none, ()), fun _ _ _ => .ok ()⟩
  let m : Machine Unit := ⟨fun _ => 0, (), ⟨fun _ => 0, fun _ length => length⟩⟩
  have hblk : m.blk.Completes := fun _ _ => le_rfl
  have hread : ((fs.withFat fat).readBehind pages c m).1 = (fs.readBehind pages c m).1 :=
    (Prod.mk.inj (h Unit pages 1 ⟨c, fs.bytesPerCluster + 1⟩ 0 fs.bytesPerCluster 1 m m.blk hc
      (by dsimp only; omega) ⟨fun _ _ => rfl, rfl⟩)).1
  cases hnext : fs.getNextCluster c with
  | none =>
    cases hnext' : (fs.withFat fat).getNextCluster c with
    | none => rfl
    | some next =>
      refine absurd ?_ (readBehind_some hfs' pages hnext' hblk)
      rw [hread, readBehind_none hfs pages hnext]
  | some next =>
    cases hnext' : (fs.withFat fat).getNextCluster c with
    | none =>
      refine absurd ?_ (readBehind_some hfs pages hnext hblk)
      rw [← hread, readBehind_none hfs' pages hnext']
    | some next' =>
      have hlow := htwin.low c
      rw [getNextCluster_withFat] at hnext'
      rw [getNextCluster] at hnext
      split_ifs at hnext hnext' with hin hlinks hlinks'
      obtain rfl := Option.some.inj hnext
      obtain rfl := Option.some.inj hnext'
      congr 1
      omega

/-- Two volumes whose tables differ only in reserved bits are read and written alike if
every entry that names a next cluster has reserved bits on both or on none, and for
volumes of whole blocks only then. -/
theorem twins_alike_iff (htwin : fs.Twin fat) :
    (fs.SameReserved fat → fs.SameReads fat ∧ fs.SameWrites fat) ∧
      (fs.WellFormed → (fs.SameReads fat ∧ fs.SameWrites fat ↔ fs.SameReserved fat)) := by
  have hsufficient (h : fs.SameReserved fat) : fs.SameReads fat ∧ fs.SameWrites fat :=
    have hsame := htwin.sameLinks_iff.mpr h
    ⟨hsame.sameReads, hsame.sameWrites⟩
  refine ⟨hsufficient, fun hfs => ⟨fun h => ?_, hsufficient⟩⟩
  exact htwin.sameLinks_iff.mp (h.1.sameLinks htwin hfs)

/-- The chain of clusters 5 and 6, with an end mark. -/
def markedTable (link mark : ℕ) (c : ℕ) : ℕ := if c = 5 then link else mark

theorem markedTable_twin {link mark : ℕ} (hlink : link < 2 ^ 32) (hmark : mark < 2 ^ 32)
    (hlow : link % 2 ^ 28 = 6) (hlow' : mark % 2 ^ 28 = 0x0FFFFFFF) :
    (sampleVolume 6).Twin (markedTable link mark) := by
  constructor <;> intro c <;> simp only [markedTable, sampleVolume] <;> split_ifs <;> omega

/-- Reserved bits of an end mark are not seen. -/
theorem twins_alike_mark : (sampleVolume 6).SameReads (markedTable 6 0xFFFFFFFF) ∧
    (sampleVolume 6).SameWrites (markedTable 6 0xFFFFFFFF) := by
  refine (twins_alike_iff (markedTable_twin (by decide) (by decide) (by decide) (by decide))).1 ?_
  intro c _ _ _ hhigh
  by_cases hc : c = 5
  · simp [hc, markedTable, sampleVolume]
  · simp [hc, sampleVolume] at hhigh

/-- Reserved bits of a link cut the chain behind it. -/
theorem link_cut : (sampleVolume 6).Twin (markedTable 0xF0000006 0x0FFFFFFF) ∧
    (let pages : Pages Unit := ⟨fun _ _ _ => .ok (none, ()), fun _ _ _ => .ok ()⟩
     let m : Machine Unit := ⟨fun _ => 0, (), ⟨fun _ => 0, fun _ length => length⟩⟩
     ((sampleVolume 6).read pages 2 ⟨5, 4096⟩ 0x50000000 2048 512 m).1 = .ok 512 ∧
      (((sampleVolume 6).withFat (markedTable 0xF0000006 0x0FFFFFFF)).read pages 2 ⟨5, 4096⟩
        0x50000000 2048 512 m).1 = .error .err) ∧
    ¬ (sampleVolume 6).SameReads (markedTable 0xF0000006 0x0FFFFFFF) := by
  have htwin : (sampleVolume 6).Twin (markedTable 0xF0000006 0x0FFFFFFF) :=
    markedTable_twin (by decide) (by decide) (by decide) (by decide)
  refine ⟨htwin, ⟨rfl, rfl⟩, fun h => ?_⟩
  have hlink := h.sameLinks htwin (sampleVolume_holds (by decide) (by decide)).volume 5 (by decide)
  exact absurd hlink (by decide)

end Min1visor.Fat.Fat32
