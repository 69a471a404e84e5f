import Min1visor.LinkedListSafety
import Min1visor.PagingMap

/-!
# Runs of mappings

The walk that the two registers configure, and what a freshly initialised table
translates after any number of disjoint mappings.
-/
namespace Min1visor.Paging
open TranslationTable

variable {η : Type}

/-! ## The configured walk -/

/-- The depth of the root table that the start level field selects. -/
def startDepth (vtcrEl2 : BitVec 64) : ℕ :=
  if (vtcrEl2 >>> 6) &&& 0b11 = 0b00 then 1
  else if (vtcrEl2 >>> 6) &&& 0b11 = 0b01 then 2
  else if (vtcrEl2 >>> 6) &&& 0b11 = 0b10 then 3
  else 0

/-- The number of bits of an input address. -/
def inputBits (vtcrEl2 : BitVec 64) : ℕ := 64 - (vtcrEl2 &&& 0b111111).toNat

/-- The translation of an intermediate physical address as the architecture has it
for a 4 KiB granule: the root is at bits 47 to 1 of the base register, and the
first index takes all input bits from the start level up. -/
def stage2Walk (s : Stage2 η) (x : ℕ) : Option (ℕ × ℕ) :=
  if x < 2 ^ inputBits s.vtcrEl2 then
    walk s.mem (startDepth s.vtcrEl2) (2 ^ (inputBits s.vtcrEl2 - (12 + 9 * startDepth s.vtcrEl2)))
      (s.vttbrEl2 &&& 0x0000FFFFFFFFFFFE).toNat x
  else none

/-- The descriptor that ends this walk, with its depth. -/
def stage2Ending (s : Stage2 η) (x : ℕ) : ℕ × BitVec 64 :=
  ending s.mem (startDepth s.vtcrEl2) (2 ^ (inputBits s.vtcrEl2 - (12 + 9 * startDepth s.vtcrEl2)))
    (s.vttbrEl2 &&& 0x0000FFFFFFFFFFFE).toNat x

/-! ## A fresh table -/

/-- The shape of the tables for a physical address range. -/
structure Shape where
  t0sz : ℕ
  level : ℕ
  tables : ℕ

def shape (ps : BitVec 64) : Shape :=
  ⟨(lookupParameters ps).1, (lookupParameters ps).2,
    numberOfConcatenatedPageTables (lookupParameters ps).1 (lookupParameters ps).2⟩

def Shape.depth (g : Shape) : ℕ := 3 - g.level
def Shape.entries (g : Shape) : ℕ := g.tables * 512

/-- What holds of every shape: the input range fits the root, and both readers of
the control register recover the shape from it. -/
structure Shape.Sound (g : Shape) (vtcrEl2 : BitVec 64) : Prop where
  tables : 0 < g.tables ∧ g.tables ≤ 8
  concatenated : g.tables = numberOfConcatenatedPageTables g.t0sz g.level
  power : ∃ j, j < 13 ∧ g.entries = 2 ^ j
  input : inputBits vtcrEl2 = 64 - g.t0sz
  start : startDepth vtcrEl2 = g.depth
  fits : 12 + 9 * g.depth ≤ 64 - g.t0sz ∧ 64 - g.t0sz ≤ 48 ∧
    2 ^ (64 - g.t0sz) ≤ g.entries * span g.depth
  large : 32 ≤ 64 - g.t0sz
  t0sz : ((vtcrEl2 &&& vtcrEl2T0sz) >>> vtcrEl2T0szBitsOffset).toNat = g.t0sz
  level : initialLookupLevel ((vtcrEl2 &&& vtcrEl2Sl0) >>> vtcrEl2Sl0BitsOffset) = g.level

/-- The control register that the initialisation writes. -/
def freshVtcr (ps : BitVec 64) : BitVec 64 := vtcrEl2Value ps (shape ps).t0sz (shape ps).level

/-- The address range field has sixteen values, each of which is fine. -/
theorem shape_sound (idAa64mmfr0El1 : BitVec 64) :
    (shape (idAa64mmfr0El1 &&& idAa64mmfr0El1Parange)).Sound
      (freshVtcr (idAa64mmfr0El1 &&& idAa64mmfr0El1Parange)) := by
  have hlt : (idAa64mmfr0El1 &&& idAa64mmfr0El1Parange).toNat < 16 := by
    rw [BitVec.toNat_and]
    exact Nat.and_lt_two_pow _ (show idAa64mmfr0El1Parange.toNat < 2 ^ 4 by decide)
  generalize idAa64mmfr0El1 &&& idAa64mmfr0El1Parange = ps at hlt
  have hps : ps = BitVec.ofNat 64 ps.toNat := by simp
  generalize ps.toNat = i at hlt hps
  subst hps
  have htables : ∀ i, i < 16 → 0 < (shape (BitVec.ofNat 64 i)).tables ∧
      (shape (BitVec.ofNat 64 i)).tables ≤ 8 := by decide
  have hpower : ∀ i, i < 16 → ∃ j, j < 13 ∧ (shape (BitVec.ofNat 64 i)).entries = 2 ^ j := by
    decide
  have hregister : ∀ i, i < 16 →
      inputBits (freshVtcr (BitVec.ofNat 64 i)) = 64 - (shape (BitVec.ofNat 64 i)).t0sz ∧
      startDepth (freshVtcr (BitVec.ofNat 64 i)) = (shape (BitVec.ofNat 64 i)).depth ∧
      ((freshVtcr (BitVec.ofNat 64 i) &&& vtcrEl2T0sz) >>> vtcrEl2T0szBitsOffset).toNat =
        (shape (BitVec.ofNat 64 i)).t0sz ∧
      initialLookupLevel ((freshVtcr (BitVec.ofNat 64 i) &&& vtcrEl2Sl0) >>>
        vtcrEl2Sl0BitsOffset) = (shape (BitVec.ofNat 64 i)).level := by decide
  have hfits : ∀ i, i < 16 →
      12 + 9 * (shape (BitVec.ofNat 64 i)).depth ≤ 64 - (shape (BitVec.ofNat 64 i)).t0sz ∧
      64 - (shape (BitVec.ofNat 64 i)).t0sz ≤ 48 ∧
      2 ^ (64 - (shape (BitVec.ofNat 64 i)).t0sz) ≤
        (shape (BitVec.ofNat 64 i)).entries * span (shape (BitVec.ofNat 64 i)).depth := by decide
  have hlarge : ∀ i, i < 16 → 32 ≤ 64 - (shape (BitVec.ofNat 64 i)).t0sz := by decide
  obtain ⟨h1, h2, h3, h4⟩ := hregister i hlt
  exact ⟨htables i hlt, rfl, hpower i hlt, h1, h2, hfits i hlt, hlarge i hlt, h3, h4⟩

theorem Shape.Sound.width_le {g : Shape} {vtcrEl2 : BitVec 64} (h : g.Sound vtcrEl2) (k : ℕ) :
    width g.depth g.entries k ≤ 4096 := by
  have hle := h.tables.2
  unfold width Shape.entries
  split_ifs <;> omega

/-- Reading a root by any index range that contains the entry gives the same walk. -/
theorem ending_entries {mem : Memory} {k n n' t x : ℕ} (h : slot k x < n) (h' : slot k x < n') :
    ending mem k n t x = ending mem k n' t x := by
  have hmod : slot k x % n = slot k x % n' := by
    rw [Nat.mod_eq_of_lt h, Nat.mod_eq_of_lt h']
  cases k with
  | zero => simp only [ending, hmod]
  | succ k => simp only [ending, hmod]

/-- A root table with whatever was mapped into it so far. -/
structure Built (owns : η → List Extent → Prop) (g : Shape) (root : ℕ) (s : Stage2 η) :
    Prop where
  sound : g.Sound s.vtcrEl2
  base : s.vttbrEl2 = BitVec.ofNat 64 root
  aligned : 4096 ∣ root
  low : root < 2 ^ 47
  owned : ∃ label, Owned owns g.depth g.entries root label s.mem s.heap

variable {owns : η → List Extent → Prop} {g : Shape} {root : ℕ}

theorem slot_lt_entries {s : Stage2 η} (h : Built owns g root s) {x : ℕ}
    (hx : x < 2 ^ inputBits s.vtcrEl2) : slot g.depth x < g.entries := by
  rw [slot, Nat.div_lt_iff_lt_mul (span_pos _)]
  rw [h.sound.input] at hx
  exact hx.trans_le h.sound.fits.2.2

/-- Both readers of the base register find the root that was built. -/
theorem Built.root_eq {s : Stage2 η} (h : Built owns g root s) :
    (s.vttbrEl2 &&& 0x0000FFFFFFFFFFFE).toNat = root ∧
      (s.vttbrEl2 &&& vttbrBaddr).toNat = root := by
  have hroot : (BitVec.ofNat 64 root).toNat = root := by
    rw [BitVec.toNat_ofNat]
    exact Nat.mod_eq_of_lt (h.low.trans (by norm_num))
  constructor
  · rw [h.base, and_mask_page h.aligned h.low (by decide), hroot]
  · rw [h.base, and_mask_page h.aligned h.low (by decide), hroot]

/-- Within the input range the configured walk starts at the root that was built. -/
theorem Built.stage2Ending_eq {s : Stage2 η} (h : Built owns g root s) {x : ℕ}
    (hx : x < 2 ^ inputBits s.vtcrEl2) :
    stage2Ending s x = ending s.mem g.depth g.entries root x := by
  have hslot : slot g.depth x < 2 ^ (inputBits s.vtcrEl2 - (12 + 9 * g.depth)) := by
    rw [slot, span, Nat.div_lt_iff_lt_mul (Nat.two_pow_pos _), ← pow_add,
      Nat.sub_add_cancel (by rw [h.sound.input]; exact h.sound.fits.1)]
    exact hx
  rw [stage2Ending, h.root_eq.1, h.sound.start]
  exact ending_entries hslot (slot_lt_entries h hx)

theorem stage2Walk_eq_leaf {s : Stage2 η} {x : ℕ} (hx : x < 2 ^ inputBits s.vtcrEl2) :
    stage2Walk s x = leaf (stage2Ending s x).1 (stage2Ending s x).2 x := by
  rw [stage2Walk, if_pos hx, walk_eq_leaf, stage2Ending]

theorem Built.stage2Walk_eq {s : Stage2 η} (h : Built owns g root s) {x : ℕ}
    (hx : x < 2 ^ inputBits s.vtcrEl2) :
    stage2Walk s x = walk s.mem g.depth g.entries root x := by
  rw [stage2Walk_eq_leaf hx, h.stage2Ending_eq hx, walk_eq_leaf]

theorem stage2Walk_of_le {s : Stage2 η} {x : ℕ} (hx : 2 ^ inputBits s.vtcrEl2 ≤ x) :
    stage2Walk s x = none := if_neg (by omega)

/-! ## One mapping -/

/-- The arguments of a mapping. -/
structure Call where
  physicalAddress : ℕ
  intermediatePhysicalAddress : ℕ
  mapSize : ℕ
  isReadable : Bool
  isWritable : Bool

def Call.Covers (c : Call) (x : ℕ) : Prop :=
  c.intermediatePhysicalAddress ≤ x ∧ x < c.intermediatePhysicalAddress + c.mapSize

instance (c : Call) (x : ℕ) : Decidable (c.Covers x) := inferInstanceAs (Decidable (_ ∧ _))

/-- Where the call maps an address, and with which permissions. -/
def Call.target (c : Call) (x : ℕ) : ℕ × ℕ :=
  Paging.target c.physicalAddress c.intermediatePhysicalAddress c.isReadable c.isWritable x

/-- The call meets the entry that ends the walk of an address. -/
def Call.Meets (c : Call) (s : Stage2 η) (x : ℕ) : Prop :=
  ∃ y, c.Covers y ∧ slot (stage2Ending s x).1 y = slot (stage2Ending s x).1 x

/-- Page-aligned, not empty, within the input range and the output range. -/
structure Call.Valid (c : Call) (inputSize : ℕ) : Prop where
  paAligned : 4096 ∣ c.physicalAddress
  ipaAligned : 4096 ∣ c.intermediatePhysicalAddress
  sizeAligned : 4096 ∣ c.mapSize
  nonempty : 0 < c.mapSize
  input : c.intermediatePhysicalAddress + c.mapSize ≤ inputSize
  output : c.physicalAddress + c.mapSize ≤ 2 ^ 48

/-- Page-aligned, not empty and within the input range, with any output range. -/
structure Call.InRange (c : Call) (inputSize : ℕ) : Prop where
  paAligned : 4096 ∣ c.physicalAddress
  ipaAligned : 4096 ∣ c.intermediatePhysicalAddress
  sizeAligned : 4096 ∣ c.mapSize
  nonempty : 0 < c.mapSize
  input : c.intermediatePhysicalAddress + c.mapSize ≤ inputSize

theorem Call.Valid.inRange {c : Call} {inputSize : ℕ} (h : c.Valid inputSize) :
    c.InRange inputSize :=
  ⟨h.paAligned, h.ipaAligned, h.sizeAligned, h.nonempty, h.input⟩

/-- Where a walk ends up for an address of the call. -/
def Call.reached (c : Call) (x : ℕ) : ℕ × ℕ :=
  Paging.reached c.physicalAddress c.intermediatePhysicalAddress c.isReadable c.isWritable x

/-- Within 48 bits this is where the call maps it. -/
theorem Call.reached_eq_target {c : Call} (hc : c.physicalAddress + c.mapSize ≤ 2 ^ 48) {x : ℕ}
    (hx : c.Covers x) : c.reached x = c.target x := by
  obtain ⟨hlo, hhi⟩ := hx
  rw [Call.reached, Call.target, Paging.reached, Paging.target, Nat.mod_eq_of_lt (by omega)]

/-- A call that has to return `Ok`. -/
def mapStep (allocatePages : AllocatePages η) (s : Stage2 η) (c : Call) :
    Except (Option Panic) (Stage2 η) :=
  match mapAddressStage2 allocatePages s c.physicalAddress c.intermediatePhysicalAddress c.mapSize
    c.isReadable c.isWritable with
  | .ok (.ok (), s') => .ok s'
  | .ok (.error (), _) => .error none
  | .error p => .error (some p)

theorem and_page_sub_one (n : ℕ) : n &&& (1 <<< pageShift - 1) = n % 4096 :=
  Nat.and_two_pow_sub_one_eq_mod n 12

/-- A call with an aligned size maps into the table that the mapper reads off the
base register. -/
theorem mapAddressStage2_eq (allocatePages : AllocatePages η) {s : Stage2 η} {c : Call}
    (h : g.Sound s.vtcrEl2) (hsize : 4096 ∣ c.mapSize) :
    mapAddressStage2 allocatePages s c.physicalAddress c.intermediatePhysicalAddress c.mapSize
        c.isReadable c.isWritable =
      (do
        let (result, cursor) ← mapAddressStage2From allocatePages
          (permission c.isReadable c.isWritable) g.depth g.entries
          (s.vttbrEl2 &&& vttbrBaddr).toNat
          ⟨s.mem, s.heap, c.physicalAddress, c.intermediatePhysicalAddress, c.mapSize⟩
        return (result, { s with mem := cursor.mem, heap := cursor.heap })) := by
  have hdepth : 3 - g.level = g.depth := rfl
  have hentries : g.tables * 512 = g.entries := rfl
  simp only [mapAddressStage2, and_page_sub_one, Nat.mod_eq_zero_of_dvd hsize, ne_eq,
    not_true_eq_false, if_false, h.t0sz, h.level, ← h.concatenated, hdepth, hentries]

theorem mapStep_eq_ok {allocatePages : AllocatePages η} {s s' : Stage2 η} {c : Call} :
    mapStep allocatePages s c = .ok s' ↔
      mapAddressStage2 allocatePages s c.physicalAddress c.intermediatePhysicalAddress c.mapSize
        c.isReadable c.isWritable = .ok (.ok (), s') := by
  unfold mapStep
  cases mapAddressStage2 allocatePages s c.physicalAddress c.intermediatePhysicalAddress
      c.mapSize c.isReadable c.isWritable with
  | error p => simp
  | ok result =>
    obtain ⟨result, s₁⟩ := result
    cases result with
    | error e => simp
    | ok u => simp

/-- Mapping leaves the registers alone. -/
theorem mapStep_registers {allocatePages : AllocatePages η} {s s' : Stage2 η} {c : Call}
    (hmap : mapStep allocatePages s c = .ok s') :
    s'.vtcrEl2 = s.vtcrEl2 ∧ s'.vttbrEl2 = s.vttbrEl2 := by
  rw [mapStep_eq_ok] at hmap
  unfold mapAddressStage2 at hmap
  rcases Checked.ite_eq_ok hmap with hcall | hcall
  · cases hcall
  · obtain ⟨⟨result, cursor⟩, -, hcall⟩ := Checked.bind_eq_ok.mp hcall
    cases hcall
    exact ⟨rfl, rfl⟩

/-- A call that returns `Ok` did so from this table. -/
theorem mapStep_ok {allocatePages : AllocatePages η} {s s' : Stage2 η} {c : Call}
    (h : g.Sound s.vtcrEl2) (hsize : 4096 ∣ c.mapSize)
    (hmap : mapStep allocatePages s c = .ok s') :
    ∃ cursor, mapAddressStage2From allocatePages (permission c.isReadable c.isWritable) g.depth
        g.entries (s.vttbrEl2 &&& vttbrBaddr).toNat
        ⟨s.mem, s.heap, c.physicalAddress, c.intermediatePhysicalAddress, c.mapSize⟩ =
          .ok (.ok (), cursor) ∧
      s' = { s with mem := cursor.mem, heap := cursor.heap } := by
  rw [mapStep_eq_ok, mapAddressStage2_eq allocatePages h hsize] at hmap
  obtain ⟨⟨result, cursor⟩, hfrom, hmap⟩ := Checked.bind_eq_ok.mp hmap
  cases hmap
  exact ⟨cursor, hfrom, rfl⟩

/-- A call maps its range. An address whose entry it does not meet translates as
before, and the rest of an entry that it meets faults. -/
theorem mapStep_overlay {allocatePages : AllocatePages η} (hsource : PageSource allocatePages owns)
    {s s' : Stage2 η} {c : Call} (h : Built owns g root s)
    (hc : c.InRange (2 ^ inputBits s.vtcrEl2)) (hmap : mapStep allocatePages s c = .ok s') :
    Built owns g root s' ∧ s'.vtcrEl2 = s.vtcrEl2 ∧
      (∀ x, c.Covers x → stage2Walk s' x = some (c.reached x)) ∧
      (∀ x, ¬ c.Meets s x → stage2Walk s' x = stage2Walk s x) ∧
      ∀ x, ¬ c.Covers x → c.Meets s x → stage2Walk s' x = none := by
  obtain ⟨label, howned⟩ := h.owned
  obtain ⟨j, -, hj⟩ := h.sound.power
  obtain ⟨cursor, hfrom, rfl⟩ := mapStep_ok h.sound hc.sizeAligned hmap
  rw [h.root_eq.2] at hfrom
  have hwidth : width g.depth g.entries g.depth = g.entries := if_pos rfl
  have hzero : ∀ x, x < 2 ^ inputBits s.vtcrEl2 → slot g.depth x / g.entries = 0 :=
    fun x hx => Nat.div_eq_of_lt (slot_lt_entries h hx)
  have hinput := hc.input
  have hmapsTable := mapAddressStage2From_mapsTable hsource g.depth root c.physicalAddress
    c.intermediatePhysicalAddress c.isReadable c.isWritable hj g.depth
  rw [hwidth] at hmapsTable
  obtain ⟨label', hprogress, hreach⟩ := hmapsTable root 0 label _ _ howned.labelled.root howned
    ⟨hc.ipaAligned, hc.paAligned, hc.sizeAligned, le_rfl, rfl⟩ hc.nonempty
    (by rw [hwidth]; exact hzero _ (by have := hc.nonempty; dsimp only; omega)) hfrom
  have hbuilt : Built owns g root { s with mem := cursor.mem, heap := cursor.heap } :=
    ⟨h.sound, h.base, h.aligned, h.low, label', hprogress.owned⟩
  -- The region of the root contains the whole range.
  have hend : cursor.intermediatePhysicalAddress = c.intermediatePhysicalAddress + c.mapSize := by
    have hfits := h.sound.fits.2.2
    rw [h.sound.input] at hinput
    rw [hreach, regionEnd, hwidth, Nat.zero_add, Nat.one_mul]
    exact min_eq_right (hinput.trans hfits)
  have hmaps := hprogress.maps
  rw [hend] at hmaps
  have hmeets : ∀ x, x < 2 ^ inputBits s.vtcrEl2 → (c.Meets s x ↔
      Meets s.mem g.depth (width g.depth g.entries g.depth) root c.intermediatePhysicalAddress
        (c.intermediatePhysicalAddress + c.mapSize) x) := by
    intro x hx
    simp only [Call.Meets, Meets, h.stage2Ending_eq hx, Call.Covers, and_assoc, hwidth]
  refine ⟨hbuilt, rfl, ?_, ?_, ?_⟩
  · intro x hx
    have hlt : x < 2 ^ inputBits s.vtcrEl2 := hx.2.trans_le hinput
    have hwalk := (hmaps.inside x (by rw [hwidth]; exact hzero x hlt) hx.1 hx.2).1
    rw [hbuilt.stage2Walk_eq hlt]
    rwa [hwidth] at hwalk
  · intro x hx
    by_cases hlt : x < 2 ^ inputBits s.vtcrEl2
    · have hkept := hmaps.kept x (by rw [hwidth]; exact hzero x hlt) (by rwa [← hmeets x hlt])
      rw [hwidth] at hkept
      rw [hbuilt.stage2Walk_eq hlt, h.stage2Walk_eq hlt, walk_eq_leaf, hkept, ← walk_eq_leaf]
    · rw [stage2Walk_of_le (s := s) (not_lt.mp hlt)]
      exact stage2Walk_of_le (not_lt.mp hlt)
  · intro x hout hx
    by_cases hlt : x < 2 ^ inputBits s.vtcrEl2
    · have hsplit := hmaps.split x (by rw [hwidth]; exact hzero x hlt) hout ((hmeets x hlt).mp hx)
      rw [hbuilt.stage2Walk_eq hlt]
      rwa [hwidth] at hsplit
    · exact stage2Walk_of_le (not_lt.mp hlt)

/-- What one address of an entry translates to decides whether the others fault. -/
theorem Call.Meets.exists_walk {s : Stage2 η} {c : Call} (h : Built owns g root s)
    (hc : c.intermediatePhysicalAddress + c.mapSize ≤ 2 ^ inputBits s.vtcrEl2) {x : ℕ}
    (hx : c.Meets s x) :
    ∃ y, c.Covers y ∧ (stage2Walk s y = none → stage2Walk s x = none) := by
  obtain ⟨y, hy, hslot⟩ := hx
  refine ⟨y, hy, ?_⟩
  intro hnone
  by_cases hlt : x < 2 ^ inputBits s.vtcrEl2
  · rw [h.stage2Walk_eq (hy.2.trans_le hc)] at hnone
    rw [h.stage2Ending_eq hlt] at hslot
    rw [h.stage2Walk_eq hlt]
    exact walk_eq_none_of_slot hslot hnone
  · exact stage2Walk_of_le (not_lt.mp hlt)

/-- Mapping a range that faults so far changes the walk on this range only. -/
theorem mapStep_spec {allocatePages : AllocatePages η} (hsource : PageSource allocatePages owns)
    {s s' : Stage2 η} {c : Call} (h : Built owns g root s)
    (hc : c.Valid (2 ^ inputBits s.vtcrEl2)) (hfault : ∀ x, c.Covers x → stage2Walk s x = none)
    (hmap : mapStep allocatePages s c = .ok s') :
    Built owns g root s' ∧ s'.vtcrEl2 = s.vtcrEl2 ∧
      ∀ x, stage2Walk s' x = if c.Covers x then some (c.target x) else stage2Walk s x := by
  obtain ⟨hbuilt, hvtcr, hin, hkept, hsplit⟩ := mapStep_overlay hsource h hc.inRange hmap
  refine ⟨hbuilt, hvtcr, ?_⟩
  intro x
  by_cases hx : c.Covers x
  · rw [if_pos hx, hin x hx, c.reached_eq_target hc.output hx]
  · rw [if_neg hx]
    by_cases hmeets : c.Meets s x
    · -- The entry maps nothing, as it maps nothing where the range meets it.
      obtain ⟨y, hy, hnone⟩ := hmeets.exists_walk h hc.input
      rw [hsplit x hx hmeets, hnone (hfault y hy)]
    · exact hkept x hmeets

/-! ## The allocator -/

/-- The live blocks of a heap between two addresses. -/
def HeapOwns (lo hi : ℕ) (a : LinkedList.LinkedListAllocator) (live : List Extent) : Prop :=
  ∃ answers, LinkedList.Heap.Inv lo hi ⟨a, live, answers⟩

/-- What the linked-list allocator answers: no page and nothing new in use, or pages
that are in use from now on. -/
theorem allocatePages_inv {lo hi : ℕ} (hhi : hi ≤ 2 ^ 48) {a a' : LinkedList.LinkedListAllocator}
    {live : List Extent} {answers : List (ℕ × ℕ)} {n k : ℕ} {found : Option ℕ} (hn : n < 2 ^ 50)
    (hk : k < 62) (hinv : LinkedList.Heap.Inv lo hi ⟨a, live, answers⟩)
    (h : LinkedList.allocatePages a n k = .ok (found, a')) :
    (found = none ∧ LinkedList.Heap.Inv lo hi ⟨a', live, (2 ^ k, 0) :: answers⟩) ∨
      ∃ p, p ≠ 0 ∧ found = some p ∧
        LinkedList.Heap.Inv lo hi ⟨a', ⟨p, n * 4096⟩ :: live, (2 ^ k, p) :: answers⟩ := by
  have hsize : n <<< LinkedList.pageShift = n * 4096 := Nat.shiftLeft_eq n 12
  unfold LinkedList.allocatePages at h
  rw [hsize, Nat.one_shiftLeft] at h
  obtain ⟨⟨ptr, a₁⟩, hstep, h⟩ := Checked.bind_eq_ok.mp h
  obtain ⟨h', hh', hinv'⟩ := LinkedList.Heap.step_alloc hhi hinv hk
    (show n * 4096 < 2 ^ 63 by omega)
  by_cases hz : ptr = 0
  · subst hz
    simp only [LinkedList.Heap.step, hstep, Checked.ok_bind, Checked.pure_eq_ok, if_true] at hh' h
    cases hh'
    cases h
    exact .inl ⟨rfl, hinv'⟩
  · simp only [LinkedList.Heap.step, hstep, Checked.ok_bind, Checked.pure_eq_ok, if_neg hz] at hh' h
    cases hh'
    cases h
    exact .inr ⟨ptr, hz, rfl, hinv'⟩

/-- The linked-list allocator is a source of pages. -/
theorem linkedList_pageSource {lo hi : ℕ} (hhi : hi ≤ 2 ^ 48) :
    PageSource LinkedList.allocatePages (HeapOwns lo hi) where
  fresh {a live n k p a'} hn hn' hk howns halloc := by
    obtain ⟨answers, hinv⟩ := howns
    obtain ⟨hnone, -⟩ | ⟨ptr, hz, hptr, hinv'⟩ := allocatePages_inv hhi hn' hk hinv halloc
    · cases hnone
    cases hptr
    have hround := LinkedList.le_roundedSize (n * 4096)
    have hmem : LinkedList.rounded ⟨p, n * 4096⟩ ∈
        (⟨a', ⟨p, n * 4096⟩ :: live, (2 ^ k, p) :: answers⟩ : LinkedList.Heap).extents := by
      simp [LinkedList.Heap.extents]
    have hwithin : p + LinkedList.roundedSize (n * 4096) ≤ hi := (hinv'.within _ hmem).2
    refine ⟨hinv'.answers (2 ^ k, p) List.mem_cons_self hz, by omega, ?_, _, hinv'⟩
    intro e he
    obtain ⟨-, hlive, -⟩ := List.pairwise_append.mp hinv'.separated
    have hapart := (List.pairwise_cons.mp hlive).1 (LinkedList.rounded e) (List.mem_map_of_mem he)
    have hround' := LinkedList.le_roundedSize e.size
    simp only [Extent.Apart, Extent.stop, LinkedList.rounded] at hapart ⊢
    omega

/-- A machine before any table is built, with zeroed memory and one free region. -/
def machineAt (heapStart heapSize : ℕ) : Stage2 LinkedList.LinkedListAllocator :=
  ⟨fun _ => 0, ⟨[⟨heapStart, heapSize⟩]⟩, 0, 0⟩

theorem machineAt_owns {heapStart heapSize : ℕ} (ha : 8 ∣ heapStart) (hs : 16 ≤ heapSize) :
    HeapOwns heapStart (heapStart + heapSize) (machineAt heapStart heapSize).heap [] := by
  obtain ⟨h, hstart, hinv⟩ := LinkedList.Heap.start_inv ha hs
  simp only [LinkedList.Heap.start, LinkedList.init, LinkedList.addFreeRegion_ok _ ha hs,
    Checked.ok_bind, Checked.pure_eq_ok] at hstart
  cases hstart
  exact ⟨[], hinv⟩

/-! ## Runs -/

/-- The root table that the initialisation allocates. -/
def rootTable (s : Stage2 η) : ℕ := s.vttbrEl2.toNat

/-- The labels of a table with nothing mapped. -/
def rootLabel (root depth : ℕ) : Labels := fun t => if t = root then some (depth, 0) else none

/-- A zeroed root is a labelled tree on its own. -/
theorem zeroTable_labelled (mem : Memory) (root depth : ℕ) {entries : ℕ} (he : 0 < entries) :
    Labelled depth entries WellFormed root (zeroTable mem root entries)
      (rootLabel root depth) := by
  have hlabel : ∀ {t k p}, rootLabel root depth t = some (k, p) → t = root ∧ k = depth := by
    intro t k p h
    unfold rootLabel at h
    split_ifs at h with ht
    exact ⟨ht, (Prod.mk.inj (Option.some.inj h)).1.symm⟩
  constructor
  · exact if_pos rfl
  · intro t k p h
    exact (hlabel h).2.le
  · intro t k p q h hq htable
    obtain ⟨rfl, hk⟩ := hlabel h
    have hwidth : width depth entries (k + 1) = entries := if_pos hk
    have hlt := Nat.mod_lt q he
    rw [word, hwidth, zeroTable, if_pos ⟨by omega, by omega⟩] at htable
    simp [isTable] at htable
  · intro t k p t' k' p' h h' hne
    exact absurd ((hlabel h).1.trans (hlabel h').1.symm) hne

/-- What the initialisation leaves behind: a zeroed root, handed out by the
allocator, and the two registers. -/
theorem initStage2TranslationTable_ok {allocatePages : AllocatePages η}
    (hsource : PageSource allocatePages owns) {idAa64mmfr0El1 ps : BitVec 64}
    (hps : idAa64mmfr0El1 &&& idAa64mmfr0El1Parange = ps) {s s' : Stage2 η} {live : List Extent}
    (howns : owns s.heap live)
    (h : initStage2TranslationTable allocatePages idAa64mmfr0El1 s = .ok s') :
    s'.mem = zeroTable s.mem (rootTable s') (shape ps).entries ∧ s'.vtcrEl2 = freshVtcr ps ∧
      s'.vttbrEl2 = BitVec.ofNat 64 (rootTable s') ∧ 4096 ∣ rootTable s' ∧
      rootTable s' + 8 * (shape ps).entries ≤ 2 ^ 48 ∧
      owns s'.heap (⟨rootTable s', 8 * (shape ps).entries⟩ :: live) := by
  have hsound := shape_sound idAa64mmfr0El1
  unfold initStage2TranslationTable at h
  rw [hps] at h hsound
  obtain ⟨⟨found, heap⟩, halloc, h⟩ := Checked.bind_eq_ok.mp h
  change allocatePages s.heap (shape ps).tables (12 + (shape ps).tables - 1) = _ at halloc
  have hpos := hsound.tables.1
  have hle := hsound.tables.2
  cases found with
  | none => cases h
  | some table =>
    cases h
    obtain ⟨hdvd, hbound, -, howns'⟩ := hsource.fresh hpos (by omega) (by omega) howns halloc
    have hroot : (BitVec.ofNat 64 table).toNat = table := by
      rw [BitVec.toNat_ofNat]
      exact Nat.mod_eq_of_lt (by omega)
    have hsize : 8 * (shape ps).entries = (shape ps).tables * 4096 := by
      unfold Shape.entries
      ring
    have halign : 4096 ∣ table :=
      (pow_dvd_pow 2 (show 12 ≤ 12 + (shape ps).tables - 1 by omega)).trans hdvd
    rw [rootTable, hroot, hsize]
    exact ⟨rfl, rfl, rfl, halign, hbound, howns'⟩

/-- A fresh table is built and translates nothing. -/
theorem initStage2TranslationTable_spec {allocatePages : AllocatePages η}
    (hsource : PageSource allocatePages owns) {idAa64mmfr0El1 : BitVec 64} {s s' : Stage2 η}
    {live : List Extent} (howns : owns s.heap live)
    (h : initStage2TranslationTable allocatePages idAa64mmfr0El1 s = .ok s')
    (hlow : rootTable s' < 2 ^ 47) :
    Built owns (shape (idAa64mmfr0El1 &&& idAa64mmfr0El1Parange)) (rootTable s') s' ∧
      ∀ x, stage2Walk s' x = none := by
  obtain ⟨hmem, hvtcr, hvttbr, halign, -, howns'⟩ := initStage2TranslationTable_ok hsource rfl howns h
  have hsound := shape_sound idAa64mmfr0El1
  generalize idAa64mmfr0El1 &&& idAa64mmfr0El1Parange = ps at *
  have hentries : 0 < (shape ps).entries := by
    have := hsound.tables.1
    unfold Shape.entries
    omega
  have hbuilt : Built owns (shape ps) (rootTable s') s' := by
    refine ⟨hvtcr ▸ hsound, hvttbr, halign, hlow, rootLabel (rootTable s') (shape ps).depth,
      hmem ▸ zeroTable_labelled s.mem _ _ hentries, _, howns', ?_⟩
    intro t k p ht
    unfold rootLabel at ht
    split_ifs at ht with htt
    obtain ⟨hk, -⟩ := Prod.mk.inj (Option.some.inj ht)
    rw [htt, ← hk, width, if_pos rfl]
    exact List.mem_cons_self
  refine ⟨hbuilt, ?_⟩
  intro x
  by_cases hx : x < 2 ^ inputBits s'.vtcrEl2
  · refine (hbuilt.stage2Walk_eq hx).trans (walk_zero hentries ?_)
    intro i hi
    rw [hmem]
    exact if_pos ⟨by omega, by omega⟩
  · exact stage2Walk_of_le (not_lt.mp hx)

/-- The calls as a map: the one that covers the address decides. -/
def translate (calls : List Call) (x : ℕ) : Option (ℕ × ℕ) :=
  (calls.find? fun c => c.Covers x).map fun c => c.target x

/-- No address is covered by both calls. -/
def Call.Disjoint (c c' : Call) : Prop := ∀ x, c.Covers x → ¬ c'.Covers x

/-- A run of disjoint mappings of faulting ranges. -/
theorem mapRun_spec {allocatePages : AllocatePages η} (hsource : PageSource allocatePages owns) :
    ∀ (calls : List Call) (s s' : Stage2 η), Built owns g root s →
      (∀ c ∈ calls, c.Valid (2 ^ inputBits s.vtcrEl2)) → calls.Pairwise Call.Disjoint →
      (∀ c ∈ calls, ∀ x, c.Covers x → stage2Walk s x = none) →
      Runs.run (mapStep allocatePages) s calls = .ok s' →
      ∀ x, stage2Walk s' x = (translate calls x).or (stage2Walk s x) := by
  intro calls
  induction calls with
  | nil =>
    intro s s' _ _ _ _ hrun x
    cases hrun
    rfl
  | cons c calls ih =>
    intro s s' hbuilt hvalid hdisjoint hfault hrun x
    obtain ⟨hfirst, hrest⟩ := List.pairwise_cons.mp hdisjoint
    cases hmap : mapStep allocatePages s c with
    | error p => simp [Runs.run, hmap] at hrun
    | ok s₁ =>
      rw [Runs.run_cons_ok calls hmap] at hrun
      obtain ⟨hbuilt₁, hvtcr, hwalk⟩ := mapStep_spec hsource hbuilt
        (hvalid c List.mem_cons_self) (hfault c List.mem_cons_self) hmap
      rw [ih s₁ s' hbuilt₁
        (fun d hd => by rw [hvtcr]; exact hvalid d (List.mem_cons_of_mem _ hd)) hrest (by
          intro d hd y hy
          rw [hwalk y, if_neg fun hc => hfirst d hd y hc hy]
          exact hfault d (List.mem_cons_of_mem _ hd) y hy) hrun x, hwalk x]
      by_cases hc : c.Covers x
      · -- No later call covers the address.
        have hnone : translate calls x = none := by
          rw [translate, Option.map_eq_none_iff, List.find?_eq_none]
          intro d hd
          simpa using hfirst d hd x hc
        rw [hnone]
        simp [translate, hc]
      · simp [translate, hc]

theorem translate_of_mem {calls : List Call} (hdisjoint : calls.Pairwise Call.Disjoint) {c : Call}
    (hc : c ∈ calls) {x : ℕ} (hx : c.Covers x) : translate calls x = some (c.target x) := by
  induction calls with
  | nil => cases hc
  | cons d calls ih =>
    obtain ⟨hfirst, hrest⟩ := List.pairwise_cons.mp hdisjoint
    rcases List.mem_cons.mp hc with rfl | hc
    · simp [translate, hx]
    · have hd : ¬ d.Covers x := fun hd => hfirst c hc x hd hx
      have htail := ih hrest hc
      simpa [translate, hd] using htail

theorem translate_of_not_covered {calls : List Call} {x : ℕ}
    (h : ∀ c ∈ calls, ¬ c.Covers x) : translate calls x = none := by
  rw [translate, Option.map_eq_none_iff, List.find?_eq_none]
  intro c hc
  simpa using h c hc

/-- Disjoint mappings into a fresh table whose root lies below `2 ^ 47` translate
each range as its call says and nothing else, in whichever order they are made. -/
theorem mappings_translate {allocatePages : AllocatePages η}
    (hsource : PageSource allocatePages owns) (idAa64mmfr0El1 : BitVec 64) (s₀ s₁ : Stage2 η)
    (live : List Extent) (howns : owns s₀.heap live)
    (hinit : initStage2TranslationTable allocatePages idAa64mmfr0El1 s₀ = .ok s₁)
    (hroot : rootTable s₁ < 2 ^ 47) (calls : List Call)
    (hvalid : ∀ c ∈ calls, c.Valid (2 ^ inputBits s₁.vtcrEl2))
    (hdisjoint : calls.Pairwise Call.Disjoint) (s₂ : Stage2 η)
    (hrun : Runs.run (mapStep allocatePages) s₁ calls = .ok s₂) :
    (∀ c ∈ calls, ∀ x, c.Covers x → stage2Walk s₂ x = some (c.target x)) ∧
      (∀ x, (∀ c ∈ calls, ¬ c.Covers x) → stage2Walk s₂ x = none) ∧
      ∀ calls' s₃, calls'.Perm calls → Runs.run (mapStep allocatePages) s₁ calls' = .ok s₃ →
        ∀ x, stage2Walk s₃ x = stage2Walk s₂ x := by
  obtain ⟨hbuilt, hnone⟩ := initStage2TranslationTable_spec hsource howns hinit hroot
  have hall : ∀ calls' s₃, calls'.Perm calls →
      Runs.run (mapStep allocatePages) s₁ calls' = .ok s₃ →
      calls'.Pairwise Call.Disjoint ∧ ∀ x, stage2Walk s₃ x = translate calls' x := by
    intro calls' s₃ hperm hrun'
    have hdisjoint' : calls'.Pairwise Call.Disjoint :=
      (hperm.pairwise_iff fun h x hd hc => h x hc hd).mpr hdisjoint
    refine ⟨hdisjoint', ?_⟩
    intro x
    rw [mapRun_spec hsource calls' s₁ s₃ hbuilt (fun c hc => hvalid c (hperm.mem_iff.mp hc))
      hdisjoint' (fun c _ y _ => hnone y) hrun', hnone, Option.or_none]
  have hwalk := (hall calls s₂ (List.Perm.refl _) hrun).2
  refine ⟨?_, ?_, ?_⟩
  · intro c hc x hx
    rw [hwalk, translate_of_mem hdisjoint hc hx]
  · intro x hx
    rw [hwalk, translate_of_not_covered hx]
  · intro calls' s₃ hperm hrun' x
    obtain ⟨hdisjoint', hwalk'⟩ := hall calls' s₃ hperm hrun'
    rw [hwalk, hwalk']
    by_cases hx : ∃ c ∈ calls, c.Covers x
    · obtain ⟨c, hc, hcx⟩ := hx
      rw [translate_of_mem hdisjoint hc hcx,
        translate_of_mem hdisjoint' (hperm.mem_iff.mpr hc) hcx]
    · have hout : ∀ c ∈ calls, ¬ c.Covers x := fun c hc hcx => hx ⟨c, hc, hcx⟩
      rw [translate_of_not_covered hout,
        translate_of_not_covered fun c hc => hout c (hperm.mem_iff.mp hc)]

/-- A read-only range that ends one page into a second block, and one page elsewhere. -/
def sampleCalls : List Call :=
  [⟨0x200000, 0x400000, 0x201000, true, false⟩, ⟨0x1000, 0, 0x1000, true, true⟩]

theorem mappings_translate_sample :
    ∃ s₁ s₂, initStage2TranslationTable LinkedList.allocatePages 0 (machineAt 0x50000000 0x100000) =
        .ok s₁ ∧
      Runs.run (mapStep LinkedList.allocatePages) s₁ sampleCalls = .ok s₂ ∧
      stage2Walk s₂ 0x600123 = some (0x400123, 1) ∧ stage2Walk s₂ 0x601000 = none := by
  obtain ⟨s₁, s₂, hinit, hbits, hroot, hrun⟩ : ∃ s₁ s₂,
      initStage2TranslationTable LinkedList.allocatePages 0 (machineAt 0x50000000 0x100000) =
        .ok s₁ ∧ inputBits s₁.vtcrEl2 = 32 ∧ rootTable s₁ = 0x50000000 ∧
      Runs.run (mapStep LinkedList.allocatePages) s₁ sampleCalls = .ok s₂ :=
    ⟨_, _, rfl, rfl, rfl, rfl⟩
  refine ⟨s₁, s₂, hinit, hrun, ?_⟩
  obtain ⟨hin, hout, -⟩ := mappings_translate (linkedList_pageSource (by decide)) 0
    (machineAt 0x50000000 0x100000) s₁ [] (machineAt_owns (by decide) (by decide)) hinit
    (by rw [hroot]; decide) sampleCalls (by
      intro c hc
      rw [hbits]
      simp only [sampleCalls, List.mem_cons, List.not_mem_nil, or_false] at hc
      rcases hc with rfl | rfl
      · exact ⟨by decide, by decide, by decide, by decide, by decide, by decide⟩
      · exact ⟨by decide, by decide, by decide, by decide, by decide, by decide⟩) (by
      simp only [sampleCalls, List.pairwise_cons, List.mem_cons, List.not_mem_nil, or_false,
        forall_eq, List.Pairwise.nil, and_true, false_implies, implies_true]
      intro x hx hx'
      simp only [Call.Covers] at hx hx'
      omega) s₂ hrun
  constructor
  · exact hin ⟨0x200000, 0x400000, 0x201000, true, false⟩ List.mem_cons_self 0x600123 (by decide)
  · apply hout
    decide

/-- With a heap that starts at `2 ^ 47` the root table is there too. The mapper
masks that bit away and maps into address 0, so the page still faults. -/
theorem mapping_lost :
    HeapOwns (2 ^ 47) (2 ^ 47 + 0x100000) (machineAt (2 ^ 47) 0x100000).heap [] ∧
    ∃ s₁ s₂, initStage2TranslationTable LinkedList.allocatePages 5 (machineAt (2 ^ 47) 0x100000) =
        .ok s₁ ∧
      (⟨0x1000, 0, 0x1000, true, true⟩ : Call).Valid (2 ^ inputBits s₁.vtcrEl2) ∧
      Runs.run (mapStep LinkedList.allocatePages) s₁ [⟨0x1000, 0, 0x1000, true, true⟩] = .ok s₂ ∧
      stage2Walk s₂ 0 ≠ some ((⟨0x1000, 0, 0x1000, true, true⟩ : Call).target 0) := by
  obtain ⟨s₁, s₂, hinit, hbits, hrun, hwalk⟩ : ∃ s₁ s₂,
      initStage2TranslationTable LinkedList.allocatePages 5 (machineAt (2 ^ 47) 0x100000) =
        .ok s₁ ∧ inputBits s₁.vtcrEl2 = 48 ∧
      Runs.run (mapStep LinkedList.allocatePages) s₁ [⟨0x1000, 0, 0x1000, true, true⟩] = .ok s₂ ∧
      stage2Walk s₂ 0 = none := ⟨_, _, rfl, rfl, rfl, by decide⟩
  refine ⟨machineAt_owns (by decide) (by decide), s₁, s₂, hinit, ?_, hrun, by simp [hwalk]⟩
  rw [hbits]
  exact ⟨by decide, by decide, by decide, by decide, by decide, by decide⟩

end Min1visor.Paging
