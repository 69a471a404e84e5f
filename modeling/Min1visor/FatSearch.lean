import Min1visor.FatDirectory
import Mathlib.Data.List.TakeWhile

/-!
# Searching the root directory

The root directory of a volume is a chain of clusters, and its entries end at the first one
whose name starts with a zero. A file is looked up by its 8.3 name in any mix of cases. The
driver has the first cluster only, compares with the name as it is written and in lower case,
takes a volume label for a file, and passes over an end that carries the attributes of a long
name or of a directory.
-/
namespace Min1visor.Fat

namespace DirectoryEntry

/-- A name whose spaces are at its end, without periods. -/
structure WellNamed (e : DirectoryEntry) : Prop where
  name : ∀ b ∈ e.name.toList.tail.dropWhile (· ≠ 0x20), b = 0x20
  nameExtension : ∀ b ∈ e.nameExtension.toList.dropWhile (· ≠ 0x20), b = 0x20
  period : 0x2E ∉ e.nameExtension.toList

end DirectoryEntry

open DirectoryEntry

/-- The loop as a search in the entries up to the one that stops it. -/
theorem searchEntries_eq (target : String) (es : List DirectoryEntry) :
    searchEntries target es =
      ((es.takeWhile fun e => !e.stops).find? (passes target)).map info := by
  induction es with
  | nil => rfl
  | cons e es ih =>
    rw [searchEntries]
    by_cases hlong : e.attributes &&& 0x3F = fat32AttributeLongFileName
    · have hskipped : e.isSkipped = true := by simp [isSkipped, hlong]
      rw [if_pos hlong, ih]
      simp [stops, passes, hskipped]
    by_cases hdirectory : e.attributes &&& fat32AttributeDirectory ≠ 0
    · have hskipped : e.isSkipped = true := by simp [isSkipped, hdirectory]
      rw [if_neg hlong, if_pos hdirectory, ih]
      simp [stops, passes, hskipped]
    have hskipped : e.isSkipped = false := by simp [isSkipped, hlong, not_not.mp hdirectory]
    rw [if_neg hlong, if_neg hdirectory]
    by_cases hzero : e.name[0] = 0
    · rw [if_pos hzero]
      simp [stops, hskipped, hzero]
    have hgoes : e.stops = false := by simp [stops, hzero]
    rw [if_neg hzero, List.takeWhile_cons, hgoes, Bool.not_false, if_pos rfl, List.find?_cons]
    by_cases hdeleted : e.name[0] = 0xE5
    · rw [if_pos hdeleted, ih]
      simp [passes, hdeleted]
    rw [if_neg hdeleted]
    have hpasses : e.passes target = e.isSpelled target := by
      simp [passes, hskipped, hzero, hdeleted]
    rw [hpasses, isSpelled]
    cases e.getFileName with
    | none => simpa using ih
    | some fileName =>
      by_cases hsame : fileName = target ∨ makeAsciiLowercase fileName = target
      · simp only [Option.any_some, ← Bool.decide_or, hsame, decide_true, if_true]
        rfl
      · simp only [Option.any_some, ← Bool.decide_or, hsame, decide_false, if_false]
        exact ih

/-! ## The two tests -/

theorem toLower_idem (c : Char) : c.toLower.toLower = c.toLower := by
  by_cases hupper : c.val ≥ 'A'.val ∧ c.val ≤ 'Z'.val
  · have hlower : ¬ (c.val + ('a'.val - 'A'.val) ≥ 'A'.val ∧
        c.val + ('a'.val - 'A'.val) ≤ 'Z'.val) := by
      intro hagain
      have hle := UInt32.le_iff_toNat_le.mp hupper.1
      have hge := UInt32.le_iff_toNat_le.mp hupper.2
      have hlast := UInt32.le_iff_toNat_le.mp hagain.2
      simp at hle hge hlast
      omega
    unfold Char.toLower
    simp only [dif_pos hupper, dif_neg hlower]
  · unfold Char.toLower
    simp only [dif_neg hupper]

theorem makeAsciiLowercase_idem (s : String) :
    makeAsciiLowercase (makeAsciiLowercase s) = makeAsciiLowercase s := by
  rw [makeAsciiLowercase, makeAsciiLowercase, String.toList_ofList, List.map_map]
  congr 1
  refine List.map_congr_left fun c _ => ?_
  exact toLower_idem c

theorem filter_eq_takeWhile {xs : List UInt8} (h : ∀ b ∈ xs.dropWhile (· ≠ 0x20), b = 0x20) :
    xs.filter (· ≠ 0x20) = xs.takeWhile (· ≠ 0x20) := by
  have hleft : (xs.takeWhile (· ≠ 0x20)).filter (· ≠ 0x20) = xs.takeWhile (· ≠ 0x20) :=
    List.filter_eq_self.mpr fun b hb => by simpa using List.mem_takeWhile_imp hb
  have hright : (xs.dropWhile (· ≠ 0x20)).filter (· ≠ 0x20) = [] :=
    List.filter_eq_nil_iff.mpr fun b hb => by simp [h b hb]
  calc xs.filter (· ≠ 0x20)
      = (xs.takeWhile (· ≠ 0x20) ++ xs.dropWhile (· ≠ 0x20)).filter (· ≠ 0x20) := by
        rw [List.takeWhile_append_dropWhile]
    _ = xs.takeWhile (· ≠ 0x20) := by rw [List.filter_append, hleft, hright, List.append_nil]

/-- The driver renders such a name as it should. -/
theorem DirectoryEntry.WellNamed.getFileName_eq {e : DirectoryEntry} (h : e.WellNamed) :
    e.getFileName = e.render := by
  simp only [getFileName, render, filter_eq_takeWhile h.name, filter_eq_takeWhile h.nameExtension]
  generalize hextension : e.nameExtension.toList.takeWhile (· ≠ 0x20) = extension
  have hperiod : 0x2E ∉ extension := by
    intro hmem
    rw [← hextension] at hmem
    exact h.period ((List.takeWhile_prefix _).subset hmem)
  generalize e.initial :: e.name.toList.tail.takeWhile (· ≠ 0x20) = stem
  rcases List.eq_nil_or_concat extension with rfl | ⟨bs, b, rfl⟩
  · rw [List.append_nil, if_pos List.getLast?_concat, List.dropLast_concat, if_pos rfl]
  · have hb : b ≠ 0x2E := by
      rintro rfl
      simp at hperiod
    have hlast : (stem ++ [0x2E] ++ (bs ++ [b])).getLast? = some b := by
      rw [← List.append_assoc, List.getLast?_concat]
    rw [List.concat_eq_append, hlast, if_neg (by simpa using hb), if_neg (by simp)]

theorem isSkipped_of_isRegular {e : DirectoryEntry} (h : e.isRegular = true) :
    e.isSkipped = false := by
  have hbits : e.attributes &&& 0x18 = 0 := by simpa [isRegular] using h
  have hlong : e.attributes &&& 0x3F ≠ fat32AttributeLongFileName := by
    intro heq
    have hcut : e.attributes &&& 0x18 = (e.attributes &&& 0x3F) &&& 0x18 := by
      rw [UInt8.and_assoc]
      rfl
    rw [hcut, heq] at hbits
    exact absurd hbits (by decide)
  have hdirectory : e.attributes &&& fat32AttributeDirectory = 0 := by
    have hcut : e.attributes &&& fat32AttributeDirectory =
        (e.attributes &&& 0x18) &&& fat32AttributeDirectory := by
      rw [UInt8.and_assoc]
      rfl
    rw [hcut, hbits]
    decide
  simp [isSkipped, hlong, hdirectory]

variable {target : String} {e : DirectoryEntry}

/-- A file that the driver takes for the target is the target. -/
theorem isTarget_of_passes (hname : e.WellNamed) (hregular : e.isRegular = true)
    (h : e.passes target = true) : e.isTarget target = true := by
  simp only [passes, isSpelled, Bool.and_eq_true, Bool.not_eq_true', decide_eq_true_eq] at h
  obtain ⟨⟨⟨-, -⟩, hlive⟩, hspelled⟩ := h
  rw [hname.getFileName_eq] at hspelled
  simp only [isTarget, Bool.and_eq_true, decide_eq_true_eq]
  refine ⟨⟨hlive, hregular⟩, ?_⟩
  cases hrender : e.render with
  | none =>
    rw [hrender] at hspelled
    exact hspelled
  | some s =>
    rw [hrender] at hspelled
    simp only [Option.any_some, Bool.or_eq_true, decide_eq_true_eq] at hspelled ⊢
    rcases hspelled with rfl | rfl
    · rfl
    · exact (makeAsciiLowercase_idem s).symm

/-- The target is taken for it if it is spelled in one of the two ways. -/
theorem passes_of_isTarget (hnotEnd : Volume.notEnd e = true) (h : e.isTarget target = true)
    (hspelled : e.isSpelled target = true) : e.passes target = true := by
  simp only [Volume.notEnd, decide_eq_true_eq] at hnotEnd
  simp only [isTarget, Bool.and_eq_true, decide_eq_true_eq] at h
  obtain ⟨⟨hlive, hregular⟩, -⟩ := h
  simp [passes, isSkipped_of_isRegular hregular, hnotEnd, hlive, hspelled]

/-! ## Volumes -/

/-- A volume from an address of a disk on, with the parameters of its first sector and the
clusters of its root directory. -/
structure Volume where
  disk : Bytes
  base : ℕ
  bytesPerSector : ℕ
  sectorsPerCluster : ℕ
  reservedSectors : ℕ
  numberOfFats : ℕ
  fatSectors : ℕ
  rootCluster : ℕ
  clusters : List ℕ

namespace Volume

/-- The file allocation table; the upper four bits of an entry are reserved. -/
def table (v : Volume) (c : ℕ) : ℕ :=
  v.disk.load (v.base + v.reservedSectors * v.bytesPerSector + 4 * c) 4 % 2 ^ 28

/-- The entries of a cluster. -/
def entriesOf (v : Volume) (c : ℕ) : List DirectoryEntry :=
  (List.range (v.bytesPerSector * v.sectorsPerCluster / 32)).map fun i =>
    DirectoryEntry.load v.disk (v.base + (v.reservedSectors + v.numberOfFats * v.fatSectors +
      (c - 2) * v.sectorsPerCluster) * v.bytesPerSector + 32 * i)

/-- The entries of the root directory, up to the first whose name starts with a zero. -/
def listed (v : Volume) : List DirectoryEntry := (v.clusters.flatMap v.entriesOf).takeWhile notEnd

/-- The file of that name in the root directory. -/
def lookup (v : Volume) (target : String) : Option FileInfo :=
  (v.listed.find? (isTarget target)).map info

/-- The parameters are those of the first sector, which has no count of root entries. The
clusters of the root directory are linked in the table up to a mark for the end of a chain. -/
structure WellFormed (v : Volume) : Prop where
  bytesPerSector : v.disk.load (v.base + 11) 2 = v.bytesPerSector
  sectorsPerCluster : (v.disk (v.base + 13)).toNat = v.sectorsPerCluster
  reservedSectors : v.disk.load (v.base + 14) 2 = v.reservedSectors
  numberOfFats : (v.disk (v.base + 16)).toNat = v.numberOfFats
  rootEntryCount : v.disk.load (v.base + 17) 2 = 0
  fatSectors : v.disk.load (v.base + 36) 4 = v.fatSectors
  rootCluster : v.disk.load (v.base + 44) 4 = v.rootCluster
  sector : 512 ∣ v.bytesPerSector ∧ 0 < v.bytesPerSector
  cluster : 0 < v.sectorsPerCluster
  first : v.clusters.head? = some v.rootCluster
  linked : v.clusters.IsChain fun c c' => v.table c = c'
  last : ∀ c ∈ v.clusters.getLast?, 0x0FFFFFF8 ≤ v.table c
  names : ∀ e ∈ v.listed, e.isRegular = true → e.WellNamed

/-- The entries of the first cluster before the end of the directory. -/
def front (v : Volume) : List DirectoryEntry := (v.entriesOf v.rootCluster).takeWhile notEnd

/-- What the driver looks at behind the end, if the end is in the first cluster and is passed
over for its attributes. -/
def stale (v : Volume) : List DirectoryEntry :=
  ((v.entriesOf v.rootCluster).dropWhile notEnd).takeWhile fun e => !e.stops

/-- A volume label that is taken for the target. -/
def isDecoy (target : String) (e : DirectoryEntry) : Bool := !e.isRegular && e.passes target

/-- Where there is no such file, no label of the first cluster and nothing behind a skipped
end is taken for it. Otherwise the file is in the first cluster with no such label before it,
and the target is spelled as its name or in lower case. -/
def Searchable (v : Volume) (target : String) : Prop :=
  match v.listed.find? (isTarget target) with
  | none => (∀ e ∈ v.front, isDecoy target e = false) ∧ ∀ e ∈ v.stale, e.passes target = false
  | some m => v.front.find? (fun e => e.isTarget target || isDecoy target e) = some m ∧
      m.isSpelled target = true

/-- Another entry that is taken for the file has the cluster and the size of it. -/
def Aliased (v : Volume) (target : String) : Prop :=
  ∃ m, v.listed.find? (isTarget target) = some m ∧
    ∃ e ∈ v.entriesOf v.rootCluster, e ≠ m ∧ e.passes target = true ∧ e.info = m.info

variable {v : Volume}

theorem takeWhile_append_of_imp {α : Type} {p q : α → Bool} (h : ∀ a, p a = true → q a = true)
    (xs : List α) : xs.takeWhile p ++ (xs.dropWhile p).takeWhile q = xs.takeWhile q := by
  induction xs with
  | nil => rfl
  | cons x xs ih =>
    by_cases hp : p x = true
    · rw [List.takeWhile_cons_of_pos hp, List.dropWhile_cons_of_pos hp,
        List.takeWhile_cons_of_pos (h x hp), List.cons_append, ih]
    · rw [List.takeWhile_cons_of_neg hp, List.dropWhile_cons_of_neg hp, List.nil_append]

/-- The entries that the driver looks at. -/
theorem front_append_stale (v : Volume) :
    v.front ++ v.stale = (v.entriesOf v.rootCluster).takeWhile fun e => !e.stops := by
  refine takeWhile_append_of_imp (fun e he => ?_) _
  simp only [notEnd, decide_eq_true_eq] at he
  simp [stops, he]

/-- The first cluster comes first, and what is behind an end in it is not listed. -/
theorem WellFormed.listed_eq (hv : v.WellFormed) :
    ∃ more, v.listed = v.front ++ more ∧ (v.stale ≠ [] → more = []) := by
  obtain ⟨rest, hrest⟩ : ∃ rest, v.clusters = v.rootCluster :: rest := by
    cases hclusters : v.clusters with
    | nil =>
      have hfirst := hv.first
      rw [hclusters] at hfirst
      cases hfirst
    | cons c rest =>
      have hfirst := hv.first
      rw [hclusters] at hfirst
      exact ⟨rest, by rw [Option.some.inj hfirst]⟩
  rw [listed, hrest, List.flatMap_cons, List.takeWhile_append]
  split_ifs with hwhole
  · have hfront : v.front = v.entriesOf v.rootCluster :=
      (List.takeWhile_prefix _).eq_of_length hwhole
    refine ⟨_, by rw [hfront], fun hstale => absurd ?_ hstale⟩
    have hbehind := List.takeWhile_append_dropWhile (p := notEnd) (l := v.entriesOf v.rootCluster)
    change v.front ++ (v.entriesOf v.rootCluster).dropWhile notEnd = _ at hbehind
    rw [hfront, List.append_right_eq_self] at hbehind
    rw [stale, hbehind, List.takeWhile_nil]
  · exact ⟨[], (List.append_nil _).symm, fun _ => rfl⟩

theorem WellFormed.mem_listed (hv : v.WellFormed) {e : DirectoryEntry} (he : e ∈ v.front) :
    e ∈ v.listed := by
  obtain ⟨more, hmore, -⟩ := hv.listed_eq
  rw [hmore]
  exact List.mem_append_left more he

/-- In front of the end the driver takes for the target what is the target, or a label. -/
theorem WellFormed.passes_front (hv : v.WellFormed) {target : String} {e : DirectoryEntry}
    (he : e ∈ v.front) (hpasses : e.passes target = true) :
    e.isTarget target = true ∨ isDecoy target e = true := by
  cases hregular : e.isRegular with
  | true => exact .inl (isTarget_of_passes (hv.names e (hv.mem_listed he) hregular) hregular hpasses)
  | false => exact .inr (by simp [isDecoy, hregular, hpasses])

theorem WellFormed.finds_target (hv : v.WellFormed) {target : String} {m : DirectoryEntry}
    (hfind : v.front.find? (fun e => e.isTarget target || isDecoy target e) = some m)
    (htarget : m.isTarget target = true) (hspelled : m.isSpelled target = true) :
    v.front.find? (passes target) = some m := by
  have hmem := List.mem_of_find?_eq_some hfind
  have hnotEnd : notEnd m = true := List.mem_takeWhile_imp hmem
  obtain ⟨-, before, behind, hfront, hbefore⟩ := List.find?_eq_some_iff_append.mp hfind
  refine List.find?_eq_some_iff_append.mpr
    ⟨passes_of_isTarget hnotEnd htarget hspelled, before, behind, hfront, fun e he => ?_⟩
  have hneither := hbefore e he
  have hin : e ∈ v.front := by
    rw [hfront]
    exact List.mem_append_left _ he
  rw [Bool.not_eq_true', ← Bool.not_eq_true]
  intro hpasses
  rcases hv.passes_front hin hpasses with h | h
  · simp [h] at hneither
  · simp [h] at hneither

/-- A file that the driver comes to first is in front of the end. -/
theorem WellFormed.front_finds (hv : v.WellFormed) {target : String} {m : DirectoryEntry}
    (hfind : v.listed.find? (isTarget target) = some m)
    (hpasses : (v.front ++ v.stale).find? (passes target) = some m) :
    v.front.find? (passes target) = some m := by
  rw [List.find?_append] at hpasses
  cases hfront : v.front.find? (passes target) with
  | some e => simpa [hfront] using hpasses
  | none =>
    rw [hfront, Option.none_or] at hpasses
    obtain ⟨more, hmore, hends⟩ := hv.listed_eq
    have hlisted : v.listed = v.front := by
      rw [hmore, hends (List.ne_nil_of_mem (List.mem_of_find?_eq_some hpasses)), List.append_nil]
    have hmem := List.mem_of_find?_eq_some hfind
    rw [hlisted] at hmem
    exact absurd (List.find?_some hpasses) (List.find?_eq_none.mp hfront m hmem)

/-- What the driver comes to first is the first target or label, if it is the target. -/
theorem WellFormed.find_of_passes (hv : v.WellFormed) {target : String} {m : DirectoryEntry}
    (hfind : v.listed.find? (isTarget target) = some m)
    (hpasses : v.front.find? (passes target) = some m) :
    v.front.find? (fun e => e.isTarget target || isDecoy target e) = some m := by
  obtain ⟨hm, before, behind, hfront, hbefore⟩ := List.find?_eq_some_iff_append.mp hpasses
  have htarget : m.isTarget target = true := List.find?_some hfind
  refine List.find?_eq_some_iff_append.mpr ⟨by simp [htarget], before, behind, hfront, ?_⟩
  intro e he
  have hnot : e.passes target = false := by simpa using hbefore e he
  obtain ⟨more, hmore, -⟩ := hv.listed_eq
  -- A target before `m` would have been found in its place, and `m` passes.
  have hno : e.isTarget target = false := by
    by_contra htrue
    rw [hmore, hfront, List.append_assoc, List.find?_append] at hfind
    cases hearlier : before.find? (isTarget target) with
    | none => exact List.find?_eq_none.mp hearlier e he (by simpa using htrue)
    | some x =>
      rw [hearlier, Option.some_or] at hfind
      cases hfind
      have hx := hbefore m (List.mem_of_find?_eq_some hearlier)
      simp [hm] at hx
  simp [hno, isDecoy, hnot]

/-- Without such a file, the search finds nothing exactly under the condition. -/
theorem WellFormed.finds_none_iff (hv : v.WellFormed) {target : String}
    (hfind : v.listed.find? (isTarget target) = none) :
    (v.front ++ v.stale).find? (passes target) = none ↔
      (∀ e ∈ v.front, isDecoy target e = false) ∧ ∀ e ∈ v.stale, e.passes target = false := by
  rw [List.find?_eq_none]
  constructor
  · intro hnone
    refine ⟨fun e he => ?_, fun e he => ?_⟩
    · have hnot := hnone e (List.mem_append_left _ he)
      simp [isDecoy, hnot]
    · exact Bool.eq_false_iff.mpr (hnone e (List.mem_append_right _ he))
  · rintro ⟨hfront, hstale⟩ e he hpasses
    rcases List.mem_append.mp he with he | he
    · rcases hv.passes_front he hpasses with h | h
      · exact List.find?_eq_none.mp hfind e (hv.mem_listed he) h
      · exact Bool.false_ne_true ((hfront e he).symm.trans h)
    · exact Bool.false_ne_true ((hstale e he).symm.trans hpasses)

/-- The search in the first cluster agrees with the directory. -/
theorem WellFormed.search_agrees (hv : v.WellFormed) (target : String) :
    (v.Searchable target →
      searchEntries target (v.entriesOf v.rootCluster) = v.lookup target) ∧
    (searchEntries target (v.entriesOf v.rootCluster) = v.lookup target →
      v.Searchable target ∨ v.Aliased target) := by
  rw [searchEntries_eq, ← front_append_stale, lookup, Searchable, Aliased]
  cases hfind : v.listed.find? (isTarget target) with
  | none =>
    have hiff := hv.finds_none_iff hfind
    rw [Option.map_none, Option.map_eq_none_iff]
    exact ⟨hiff.mpr, fun hnone => .inl (hiff.mp hnone)⟩
  | some m =>
    rw [Option.map_some, Option.map_eq_some_iff]
    constructor
    · rintro ⟨hfront, hspelled⟩
      refine ⟨m, ?_, rfl⟩
      rw [List.find?_append, hv.finds_target hfront (List.find?_some hfind) hspelled, Option.some_or]
    · rintro ⟨e, hpasses, hinfo⟩
      have hpass : e.passes target = true := List.find?_some hpasses
      by_cases hsame : e = m
      · subst hsame
        refine .inl ⟨hv.find_of_passes hfind (hv.front_finds hfind hpasses), ?_⟩
        simp only [passes, Bool.and_eq_true] at hpass
        exact hpass.2
      · have hmem := List.mem_of_find?_eq_some hpasses
        rw [front_append_stale] at hmem
        exact .inr ⟨m, rfl, e, (List.takeWhile_prefix _).subset hmem, hsame, hpass, hinfo⟩

/-- The volume that the driver opens is this one. -/
theorem WellFormed.entriesAt_eq (hv : v.WellFormed) {baseLba lbaSize : ℕ} (fat : ℕ → ℕ)
    (hbase : v.base = baseLba * lbaSize) :
    ((Fat32.parameters v.disk (baseLba * lbaSize) baseLba lbaSize fat).1).entriesAt v.disk
      ((Fat32.parameters v.disk (baseLba * lbaSize) baseLba lbaSize fat).1.clusterAddress
        (Fat32.parameters v.disk (baseLba * lbaSize) baseLba lbaSize fat).2) =
      v.entriesOf v.rootCluster := by
  have hfats : v.disk.load (v.base + 16) 2 = v.numberOfFats := by
    have hcount := hv.rootEntryCount
    have hnext : v.base + 17 = v.base + 16 + 1 := rfl
    rw [← hv.numberOfFats]
    rw [hnext] at hcount
    simp only [Bytes.load] at hcount ⊢
    omega
  simp only [Fat32.parameters, Fat32.entriesAt, Fat32.clusterAddress, bytesPerSectorOffset,
    sectorsPerClusterOffset, numOfReservedClusterOffset, numOfFatsOffset, fatSizeOffset,
    rootClusterOffset]
  simp only [← hbase, hv.bytesPerSector, hv.sectorsPerCluster, hv.reservedSectors, hfats,
    hv.fatSectors, hv.rootCluster, entriesOf]

/-- The search in an opened volume goes through the first cluster of the root directory. -/
theorem WellFormed.searchFile_eq {η : Type} (hv : v.WellFormed) {pages : Fat32.Pages η}
    {bpbAddress baseLba lbaSize rootDirectoryList : ℕ} {m m' : Fat32.Machine η} {fs : Fat32}
    (hdisk : m.blk.disk = v.disk) (hbase : v.base = baseLba * lbaSize)
    (hnew : Fat32.new pages bpbAddress baseLba lbaSize m = (.ok (fs, rootDirectoryList), m'))
    (target : String) : fs.searchFile m'.mem rootDirectoryList target =
      searchEntries target (v.entriesOf v.rootCluster) := by
  obtain ⟨hfs, hlist⟩ := Fat32.new_eq_ok hnew
  rw [hdisk] at hfs hlist
  have hentries : fs.entriesAt m'.mem rootDirectoryList = v.entriesOf v.rootCluster := by
    rw [hlist]
    nth_rewrite 1 2 [hfs]
    exact hv.entriesAt_eq fs.fat hbase
  rw [Fat32.searchFile, hentries]

end Volume

/-- For every well-formed volume that opens and every target, the search returns cluster and
size of the file of that name, and nothing if there is none, under this condition; and
otherwise at most where another entry that it takes for the file has both as well. -/
theorem search_file_agrees {η : Type} (v : Volume) (hv : v.WellFormed) (pages : Fat32.Pages η)
    (bpbAddress baseLba lbaSize rootDirectoryList : ℕ) (m m' : Fat32.Machine η) (fs : Fat32)
    (hdisk : m.blk.disk = v.disk) (hbase : v.base = baseLba * lbaSize)
    (hnew : Fat32.new pages bpbAddress baseLba lbaSize m = (.ok (fs, rootDirectoryList), m'))
    (target : String) :
    (v.Searchable target →
      fs.searchFile m'.mem rootDirectoryList target = v.lookup target) ∧
    (fs.searchFile m'.mem rootDirectoryList target = v.lookup target →
      v.Searchable target ∨ v.Aliased target) := by
  rw [hv.searchFile_eq hdisk hbase hnew]
  exact hv.search_agrees target

/-- The bytes of a small disk that are not zero: the parameters and the signature in the
first sector, the ends of two chains in the second, and an entry in the third. -/
def minBytes : List (ℕ × UInt8) :=
  [(12, 2), (13, 1), (14, 1), (16, 1), (36, 1), (44, 2), (82, 0x46), (83, 0x41), (84, 0x54),
    (85, 0x33), (86, 0x32), (87, 0x20), (88, 0x20), (89, 0x20), (520, 0xFF), (521, 0xFF),
    (522, 0xFF), (523, 0x0F), (524, 0xFF), (525, 0xFF), (526, 0xFF), (527, 0x0F), (1024, 0x4D),
    (1025, 0x49), (1026, 0x4E), (1027, 0x31), (1028, 0x20), (1029, 0x20), (1030, 0x20),
    (1031, 0x20), (1032, 0x45), (1033, 0x4C), (1034, 0x46), (1035, 0x20), (1050, 3), (1053, 0x25)]

/-- A volume of one file, `MIN1.ELF`. -/
def minVolume : Volume where
  disk a := (minBytes.lookup a).getD 0
  base := 0
  bytesPerSector := 512
  sectorsPerCluster := 1
  reservedSectors := 1
  numberOfFats := 1
  fatSectors := 1
  rootCluster := 2
  clusters := [2]

def minEntry : DirectoryEntry where
  name := #v[0x4D, 0x49, 0x4E, 0x31, 0x20, 0x20, 0x20, 0x20]
  nameExtension := #v[0x45, 0x4C, 0x46]
  attributes := 0x20
  startingClusterNumberHigh := 0
  startingClusterNumber := 3
  fileLength := 0x2500

theorem minVolume_front : minVolume.front = [minEntry] := by decide +kernel

theorem minVolume_listed : minVolume.listed = [minEntry] := by decide +kernel

theorem minVolume_wellFormed : minVolume.WellFormed where
  bytesPerSector := by decide +kernel
  sectorsPerCluster := by decide +kernel
  reservedSectors := by decide +kernel
  numberOfFats := by decide +kernel
  rootEntryCount := by decide +kernel
  fatSectors := by decide +kernel
  rootCluster := by decide +kernel
  sector := by decide
  cluster := by decide
  first := rfl
  linked := List.isChain_singleton 2
  last := by
    intro c hc
    obtain rfl : 2 = c := by simpa [minVolume] using hc
    decide +kernel
  names := by
    intro e he _
    rw [minVolume_listed, List.mem_singleton] at he
    subst he
    exact ⟨by simp [minEntry], by simp [minEntry], by simp [minEntry]⟩

/-- A heap that hands out one page after another. -/
def pagesInARow : Fat32.Pages ℕ where
  allocatePages heap n _ := .ok (some heap, heap + 4096 * n)
  freePages heap _ _ := .ok heap

/-- The machine before the volume is opened. -/
def minMachine : Fat32.Machine ℕ := ⟨fun _ => 0, 0x48000000, ⟨minVolume.disk, fun _ n => n⟩⟩

theorem minVolume_opens : ∃ fs rootDirectoryList m',
    Fat32.new pagesInARow 0x40001000 0 512 minMachine = (.ok (fs, rootDirectoryList), m') :=
  ⟨_, _, _, rfl⟩

/-- The file is found by its name in lower case. -/
theorem search_file_min : ∃ fs rootDirectoryList m',
    Fat32.new pagesInARow 0x40001000 0 512 minMachine = (.ok (fs, rootDirectoryList), m') ∧
      fs.searchFile m'.mem rootDirectoryList "min1.elf" = some ⟨3, 0x2500⟩ := by
  obtain ⟨fs, rootDirectoryList, m', hnew⟩ := minVolume_opens
  have hfind : minVolume.listed.find? (isTarget "min1.elf") = some minEntry := by
    rw [minVolume_listed]
    decide +kernel
  have hsearchable : minVolume.Searchable "min1.elf" := by
    rw [Volume.Searchable, hfind, minVolume_front]
    decide +kernel
  refine ⟨fs, rootDirectoryList, m', hnew, ?_⟩
  rw [(search_file_agrees minVolume minVolume_wellFormed pagesInARow 0x40001000 0 512 _ minMachine m'
    fs rfl rfl hnew "min1.elf").1 hsearchable, Volume.lookup, hfind]
  rfl

/-- By its name in another mix of cases it is not. -/
theorem mixed_case_missed : minVolume.WellFormed ∧ minMachine.blk.disk = minVolume.disk ∧
    ∃ fs rootDirectoryList m',
      Fat32.new pagesInARow 0x40001000 0 512 minMachine = (.ok (fs, rootDirectoryList), m') ∧
        minVolume.lookup "Min1.elf" = some ⟨3, 0x2500⟩ ∧
        fs.searchFile m'.mem rootDirectoryList "Min1.elf" = none := by
  obtain ⟨fs, rootDirectoryList, m', hnew⟩ := minVolume_opens
  refine ⟨minVolume_wellFormed, rfl, fs, rootDirectoryList, m', hnew, ?_, ?_⟩
  · rw [Volume.lookup, minVolume_listed]
    decide +kernel
  · rw [minVolume_wellFormed.searchFile_eq rfl rfl hnew]
    decide +kernel

end Min1visor.Fat
