import Min1visor.PagingRemap

/-!
# What a successful mapping means

The mapper subtracts before it tests what remains, and it masks its indices. A
size of zero goes down to the page loop and underflows there; a range that leaves
the input range of the table, or the 48 bits of an output address, is reported as
mapped although it is not.
-/
namespace Min1visor.Paging
open TranslationTable

variable {η : Type} {owns : η → List Extent → Prop}

/-! ## The subtraction of the remaining size -/

/-- Moving on gets to the subtraction, both additions being in range, and there is
not enough left. -/
def Cursor.Underflows (s : Cursor η) (size : ℕ) : Prop :=
  s.physicalAddress + size < 2 ^ 64 ∧ s.intermediatePhysicalAddress + size < 2 ^ 64 ∧
    s.remainingSize < size

/-- The subtraction underflows in the loop over page descriptors. -/
def pagesUnderflow (tableAddress : ℕ) (permission : BitVec 64) : ℕ → ℕ → Cursor η → Prop
  | 0, _, _ => False
  | n + 1, index, s =>
    s.Underflows pageSize ∨
      ∃ s', s.advance (tableAddress + 8 * index) (Descriptor.page s.physicalAddress permission)
          pageSize = .ok s' ∧
        s'.remainingSize ≠ 0 ∧ pagesUnderflow tableAddress permission n (index + 1) s'

/-- The subtraction underflows in the loop over the descriptors of a table at depth
`k + 1`, or in a table below. -/
def descriptorsUnderflow (allocatePages : AllocatePages η) (tableAddress : ℕ)
    (permission : BitVec 64) (k : ℕ)
    (lower : ℕ → Cursor η → Except Panic (Except Unit Unit × Cursor η))
    (lowerUnderflows : ℕ → Cursor η → Prop) : ℕ → ℕ → Cursor η → Prop
  | 0, _, _ => False
  | n + 1, index, s =>
    if blockFits (k + 1) s then
      s.Underflows (1 <<< (12 + 9 * (k + 1))) ∨
        ∃ s', s.advance (tableAddress + 8 * index) (Descriptor.block s.physicalAddress permission)
            (1 <<< (12 + 9 * (k + 1))) = .ok s' ∧
          s'.remainingSize ≠ 0 ∧ descriptorsUnderflow allocatePages tableAddress permission k lower
            lowerUnderflows n (index + 1) s'
    else
      ∃ next s₁, nextLevelTable allocatePages (tableAddress + 8 * index) s = .ok (some next, s₁) ∧
        (lowerUnderflows next s₁ ∨
          ∃ s₂, lower next s₁ = .ok (.ok (), s₂) ∧ s₂.remainingSize ≠ 0 ∧
            descriptorsUnderflow allocatePages tableAddress permission k lower lowerUnderflows n
              (index + 1) s₂)

/-- The subtraction underflows in a run of `mapAddressStage2From`. -/
def underflowsFrom (allocatePages : AllocatePages η) (permission : BitVec 64) :
    ℕ → ℕ → ℕ → Cursor η → Prop
  | 0, numOfDescriptors, tableAddress, s =>
    let index := (s.intermediatePhysicalAddress >>> 12) &&& (numOfDescriptors - 1)
    pagesUnderflow tableAddress permission (numOfDescriptors - index) index s
  | k + 1, numOfDescriptors, tableAddress, s =>
    let index := (s.intermediatePhysicalAddress >>> (12 + 9 * (k + 1))) &&& (numOfDescriptors - 1)
    descriptorsUnderflow allocatePages tableAddress permission k
      (mapAddressStage2From allocatePages permission k 512)
      (underflowsFrom allocatePages permission k 512) (numOfDescriptors - index) index s

/-- The subtraction underflows in a call of `mapAddressStage2`. -/
def Call.Underflows (c : Call) (allocatePages : AllocatePages η) (s : Stage2 η) : Prop :=
  let tableAddress := (s.vttbrEl2 &&& vttbrBaddr).toNat
  let sl0 := (s.vtcrEl2 &&& vtcrEl2Sl0) >>> vtcrEl2Sl0BitsOffset
  let t0sz := ((s.vtcrEl2 &&& vtcrEl2T0sz) >>> vtcrEl2T0szBitsOffset).toNat
  let level := initialLookupLevel sl0
  let numOfDescriptors := numberOfConcatenatedPageTables t0sz level * 512
  c.mapSize &&& ((1 <<< pageShift) - 1) = 0 ∧
    underflowsFrom allocatePages (permission c.isReadable c.isWritable) (3 - level)
      numOfDescriptors tableAddress
      ⟨s.mem, s.heap, c.physicalAddress, c.intermediatePhysicalAddress, c.mapSize⟩

/-! ## Sizes above zero -/

section Positive
variable {allocatePages : AllocatePages η}

/-- Pages to map are left, and whole ones. -/
def Cursor.Pending (s : Cursor η) : Prop := 4096 ∣ s.remainingSize ∧ 0 < s.remainingSize

theorem Cursor.Pending.page_le {s : Cursor η} (h : s.Pending) : 4096 ≤ s.remainingSize :=
  Nat.le_of_dvd h.2 h.1

theorem Cursor.Pending.advance {s s' : Cursor η} (h : s.Pending) {a size : ℕ} {d : Descriptor}
    (hsize : 4096 ∣ size) (hadvance : s.advance a d size = .ok s') : 4096 ∣ s'.remainingSize := by
  obtain ⟨-, rfl⟩ := advance_ok hadvance
  exact Nat.dvd_sub h.1 hsize

/-- Mapping with pages left does not underflow and leaves whole pages. -/
def StaysWhole (map : ℕ → Cursor η → Except Panic (Except Unit Unit × Cursor η))
    (underflows : ℕ → Cursor η → Prop) : Prop :=
  ∀ (t : ℕ) (s : Cursor η), s.Pending →
    ¬ underflows t s ∧ ∀ s', map t s = .ok (.ok (), s') → 4096 ∣ s'.remainingSize

theorem mapPages_staysWhole (t : ℕ) (permission : BitVec 64) :
    ∀ (n i : ℕ) (s : Cursor η), s.Pending →
      ¬ pagesUnderflow t permission n i s ∧
        ∀ s', mapPages t permission n i s = .ok s' → 4096 ∣ s'.remainingSize := by
  intro n
  induction n with
  | zero =>
    intro i s hs
    refine ⟨fun h => h, ?_⟩
    intro s' h
    cases h
    exact hs.1
  | succ n ih =>
    intro i s hs
    have hsize : 4096 ∣ pageSize := by decide
    constructor
    · rintro (⟨-, -, hlt⟩ | ⟨s₁, hadvance, hne, hlater⟩)
      · exact absurd hs.page_le (not_le.mpr hlt)
      · exact (ih (i + 1) s₁ ⟨hs.advance hsize hadvance, Nat.pos_of_ne_zero hne⟩).1 hlater
    · intro s' h
      obtain ⟨s₁, hadvance, hrest⟩ := mapPages_succ_ok h
      have hwhole := hs.advance hsize hadvance
      rcases hrest with ⟨-, rfl⟩ | ⟨hne, hrest⟩
      · exact hwhole
      · exact (ih (i + 1) s₁ ⟨hwhole, Nat.pos_of_ne_zero hne⟩).2 s' hrest

/-- Opening a table leaves the cursors alone. -/
theorem nextLevelTable_cursors {a : ℕ} {found : Option ℕ} {s s₁ : Cursor η}
    (h : nextLevelTable allocatePages a s = .ok (found, s₁)) :
    s₁.physicalAddress = s.physicalAddress ∧
      s₁.intermediatePhysicalAddress = s.intermediatePhysicalAddress ∧
      s₁.remainingSize = s.remainingSize := by
  unfold nextLevelTable at h
  rcases Checked.ite_eq_ok h with h | h
  · cases h
    exact ⟨rfl, rfl, rfl⟩
  · obtain ⟨⟨answer, heap⟩, -, h⟩ := Checked.bind_eq_ok.mp h
    cases answer with
    | none =>
      cases h
      exact ⟨rfl, rfl, rfl⟩
    | some next =>
      cases h
      exact ⟨rfl, rfl, rfl⟩

theorem mapDescriptors_staysWhole (t : ℕ) (permission : BitVec 64) (k : ℕ)
    {lower : ℕ → Cursor η → Except Panic (Except Unit Unit × Cursor η)}
    {lowerUnderflows : ℕ → Cursor η → Prop} (hlower : StaysWhole lower lowerUnderflows) :
    ∀ (n i : ℕ) (s : Cursor η), s.Pending →
      ¬ descriptorsUnderflow allocatePages t permission k lower lowerUnderflows n i s ∧
        ∀ s', mapDescriptors allocatePages t permission k lower n i s = .ok (.ok (), s') →
          4096 ∣ s'.remainingSize := by
  intro n
  induction n with
  | zero =>
    intro i s hs
    refine ⟨fun h => h, ?_⟩
    intro s' h
    cases h
    exact hs.1
  | succ n ih =>
    intro i s hs
    have hsize : 4096 ∣ 1 <<< (12 + 9 * (k + 1)) := by
      rw [Nat.one_shiftLeft]
      exact pow_dvd_pow 2 (show 12 ≤ 12 + 9 * (k + 1) by omega)
    have hopened : ∀ next s₀, nextLevelTable allocatePages (t + 8 * i) s = .ok (some next, s₀) →
        s₀.Pending := by
      intro next s₀ hopen
      rw [Cursor.Pending, (nextLevelTable_cursors hopen).2.2]
      exact hs
    constructor
    · intro h
      rw [descriptorsUnderflow] at h
      split_ifs at h with hfits
      · obtain ⟨-, -, hlt⟩ | ⟨s₁, hadvance, hne, hlater⟩ := h
        · exact absurd hfits.2.1 (not_le.mpr hlt)
        · exact (ih (i + 1) s₁ ⟨hs.advance hsize hadvance, Nat.pos_of_ne_zero hne⟩).1 hlater
      · obtain ⟨next, s₀, hopen, hbelow | ⟨s₁, hmap, hne, hlater⟩⟩ := h
        · exact (hlower next s₀ (hopened next s₀ hopen)).1 hbelow
        · have hwhole := (hlower next s₀ (hopened next s₀ hopen)).2 s₁ hmap
          exact (ih (i + 1) s₁ ⟨hwhole, Nat.pos_of_ne_zero hne⟩).1 hlater
    · intro s' h
      obtain ⟨s₁, hone, hrest⟩ := mapDescriptors_succ_ok h
      have hwhole : 4096 ∣ s₁.remainingSize := by
        rcases hone with ⟨-, hadvance⟩ | ⟨-, next, s₀, hopen, hmap⟩
        · rw [← show 1 <<< (12 + 9 * (k + 1)) = span (k + 1) from Nat.one_shiftLeft _] at hadvance
          exact hs.advance hsize hadvance
        · exact (hlower next s₀ (hopened next s₀ hopen)).2 s₁ hmap
      rcases hrest with ⟨-, rfl⟩ | ⟨hne, hrest⟩
      · exact hwhole
      · exact (ih (i + 1) s₁ ⟨hwhole, Nat.pos_of_ne_zero hne⟩).2 s' hrest

/-- By induction on the depth of the table, wherever the table and the range lie. -/
theorem mapAddressStage2From_staysWhole (allocatePages : AllocatePages η) (permission : BitVec 64)
    (k num : ℕ) :
    StaysWhole (mapAddressStage2From allocatePages permission k num)
      (underflowsFrom allocatePages permission k num) := by
  induction k generalizing num with
  | zero =>
    intro t s hs
    obtain ⟨hno, hwhole⟩ := mapPages_staysWhole t permission
      (num - (s.intermediatePhysicalAddress >>> 12 &&& (num - 1)))
      (s.intermediatePhysicalAddress >>> 12 &&& (num - 1)) s hs
    refine ⟨hno, ?_⟩
    intro s' h
    obtain ⟨s₁, hpages, h⟩ := Checked.bind_eq_ok.mp h
    cases h
    exact hwhole s' hpages
  | succ k ih =>
    intro t s hs
    exact mapDescriptors_staysWhole t permission k (ih 512) _ _ s hs

end Positive

/-! ## The size zero -/

/-- The number of tables that are missing on the way to an address. -/
def missing (mem : Memory) : ℕ → ℕ → ℕ → ℕ → ℕ
  | 0, _, _, _ => 0
  | k + 1, n, t, x =>
    if Descriptor.isTableDescriptor (mem (t + 8 * (slot (k + 1) x % n))) then
      missing mem k 512
        (Descriptor.getNextLevelTableAddress (mem (t + 8 * (slot (k + 1) x % n)))) x
    else k + 1

/-- The allocator hands out this many tables in a row. -/
def Supplies (allocatePages : AllocatePages η) : ℕ → η → Prop
  | 0, _ => True
  | n + 1, heap => ∃ a heap', allocatePages heap 1 12 = .ok (some a, heap') ∧
    Supplies allocatePages n heap'

/-- Below an empty table everything is missing. -/
theorem missing_zero {mem : Memory} {k t : ℕ} (x : ℕ)
    (hz : ∀ i, i < 512 → mem (t + 8 * i) = 0) : missing mem k 512 t x = k := by
  cases k with
  | zero => rfl
  | succ k =>
    rw [missing, hz _ (Nat.mod_lt _ (by decide))]
    simp [Descriptor.isTableDescriptor]

section Zero
variable {depth entries top : ℕ} {allocatePages : AllocatePages η} {r w : Bool}

theorem advance_zero {s s' : Cursor η} (hs : s.remainingSize = 0) {a size : ℕ} {d : Descriptor}
    (hsize : 0 < size) : s.advance a d size ≠ .ok s' := by
  intro h
  have hle := (advance_ok h).1
  omega

theorem not_blockFits_zero {s : Cursor η} (hs : s.remainingSize = 0) (k : ℕ) :
    ¬ blockFits k s := by
  rintro ⟨-, hle, -⟩
  rw [hs, Nat.one_shiftLeft] at hle
  exact absurd hle (not_le.mpr (Nat.two_pow_pos _))

/-- With nothing to map, the mapper goes down to the pages and underflows there, as
far as it gets the tables on the way. It never returns `Ok`. -/
def FailsOnZero (allocatePages : AllocatePages η) (owns : η → List Extent → Prop)
    (depth entries top k : ℕ) (map : ℕ → Cursor η → Except Panic (Except Unit Unit × Cursor η))
    (underflows : ℕ → Cursor η → Prop) : Prop :=
  ∀ (t p : ℕ) (label : Labels) (s : Cursor η), label t = some (k, p) →
    Owned owns depth entries top label s.mem s.heap → s.remainingSize = 0 →
    (underflows t s ↔ s.physicalAddress + 4096 < 2 ^ 64 ∧
      s.intermediatePhysicalAddress + 4096 < 2 ^ 64 ∧
      Supplies allocatePages
        (missing s.mem k (width depth entries k) t s.intermediatePhysicalAddress) s.heap) ∧
    ∀ s', map t s ≠ .ok (.ok (), s')

/-- What a freshly opened table lacks is what was missing before, less the table. -/
theorem nextLevelTable_supplies (hsource : PageSource allocatePages owns) (he : 0 < entries)
    {k t p i n x : ℕ} {label : Labels} {s : Cursor η} (ht : label t = some (k + 1, p))
    (howned : Owned owns depth entries top label s.mem s.heap)
    (hi : i + (n + 1) = width depth entries (k + 1))
    (hx : slot (k + 1) x % width depth entries (k + 1) = i) :
    Supplies allocatePages (missing s.mem (k + 1) (width depth entries (k + 1)) t x) s.heap ↔
      ∃ next s₁, nextLevelTable allocatePages (t + 8 * i) s = .ok (some next, s₁) ∧
        Supplies allocatePages (missing s₁.mem k 512 next x) s₁.heap := by
  rw [missing, hx]
  unfold nextLevelTable
  by_cases htable : Descriptor.isTableDescriptor (s.mem (t + 8 * i)) = true
  · rw [if_pos htable, if_pos htable]
    constructor
    · intro h
      exact ⟨_, s, rfl, h⟩
    · rintro ⟨next, s₁, hopen, h⟩
      cases hopen
      exact h
  · rw [if_neg htable, if_neg htable]
    -- The new table is all zero, so that everything below it is missing.
    have hlinked : ∀ next heap', allocatePages s.heap 1 12 = .ok (some next, heap') →
        missing (Function.update (zeroTable s.mem next 512) (t + 8 * i) (Descriptor.table next)) k
          512 next x = k := by
      intro next heap' halloc
      obtain ⟨-, -, hfresh, -⟩ := howned.fresh hsource halloc
      apply missing_zero
      intro j hj
      have hzero : linked depth entries s.mem k t (p * width depth entries (k + 1) + i) next
          (Descriptor.table next) (next + 8 * j) = 0 := hfresh.linked_zero he ht hj
      rwa [linked, word_entry hi] at hzero
    constructor
    · rintro ⟨next, heap', halloc, h⟩
      refine ⟨next, ⟨_, heap', _, _, _⟩, by rw [halloc]; rfl, ?_⟩
      rwa [hlinked next heap' halloc]
    · rintro ⟨next, s₁, hopen, h⟩
      obtain ⟨⟨found, heap'⟩, halloc, hopen⟩ := Checked.bind_eq_ok.mp hopen
      cases found with
      | none => cases hopen
      | some next' =>
        cases hopen
        rw [hlinked next heap' halloc] at h
        exact ⟨next, heap', halloc, h⟩

/-- By induction on the depth of the table. -/
theorem mapAddressStage2From_failsOnZero (hsource : PageSource allocatePages owns)
    (depth top : ℕ) (r w : Bool) {j : ℕ} (hj : entries = 2 ^ j) (k : ℕ) :
    FailsOnZero allocatePages owns depth entries top k
      (mapAddressStage2From allocatePages (permission r w) k (width depth entries k))
      (underflowsFrom allocatePages (permission r w) k (width depth entries k)) := by
  have he : 0 < entries := hj ▸ Nat.two_pow_pos j
  have hindex : ∀ k x, ∃ n, x >>> (12 + 9 * k) &&& (width depth entries k - 1) =
        slot k x % width depth entries k ∧
      width depth entries k - slot k x % width depth entries k = n + 1 := by
    intro k x
    obtain ⟨m, hm⟩ : ∃ m, width depth entries k = 2 ^ m := by
      unfold width
      split_ifs
      · exact ⟨j, hj⟩
      · exact ⟨9, rfl⟩
    have hlt := Nat.mod_lt (slot k x) (width_pos depth he k)
    refine ⟨width depth entries k - slot k x % width depth entries k - 1, ?_, by omega⟩
    rw [hm]
    exact index_eq k
  induction k with
  | zero =>
    intro t p label s ht howned hs
    obtain ⟨n, hslot, hn⟩ := hindex 0 s.intermediatePhysicalAddress
    constructor
    · rw [underflowsFrom, hslot, hn, pagesUnderflow, missing]
      constructor
      · rintro (⟨hpa, hipa, -⟩ | ⟨s₁, hadvance, -⟩)
        · exact ⟨hpa, hipa, trivial⟩
        · exact absurd hadvance (advance_zero hs (by decide))
      · rintro ⟨hpa, hipa, -⟩
        exact .inl ⟨hpa, hipa, by rw [hs]; decide⟩
    · intro s' h
      rw [mapAddressStage2From, hslot, hn] at h
      obtain ⟨s₁, hpages, -⟩ := Checked.bind_eq_ok.mp h
      obtain ⟨s₂, hadvance, -⟩ := mapPages_succ_ok hpages
      exact advance_zero hs (span_pos 0) hadvance
  | succ k ih =>
    intro t p label s ht howned hs
    obtain ⟨n, hslot, hn⟩ := hindex (k + 1) s.intermediatePhysicalAddress
    generalize hi : slot (k + 1) s.intermediatePhysicalAddress % width depth entries (k + 1) = i
      at hslot hn
    have hfull : i + (n + 1) = width depth entries (k + 1) := by omega
    have hwidth := width_of_lt entries (howned.labelled.below ht)
    rw [hwidth] at ih
    -- What happens in the table below the first descriptor.
    have hbelow : ∀ next s₁, nextLevelTable allocatePages (t + 8 * i) s = .ok (some next, s₁) →
        (underflowsFrom allocatePages (permission r w) k 512 next s₁ ↔
          s.physicalAddress + 4096 < 2 ^ 64 ∧ s.intermediatePhysicalAddress + 4096 < 2 ^ 64 ∧
          Supplies allocatePages (missing s₁.mem k 512 next s.intermediatePhysicalAddress)
            s₁.heap) ∧
        ∀ s', mapAddressStage2From allocatePages (permission r w) k 512 next s₁ ≠
          .ok (.ok (), s') := by
      intro next s₁ hopen
      obtain ⟨hpa, hipa, hsize⟩ := nextLevelTable_cursors hopen
      rw [← word_entry (t := t) (p := p) hfull] at hopen
      obtain ⟨label₁, hopened⟩ := nextLevelTable_opened hsource he howned ht (entry_div hfull) hopen
      have hlower := ih next _ label₁ s₁ hopened.child hopened.owned (hsize.trans hs)
      rwa [hpa, hipa, hwidth] at hlower
    constructor
    · rw [underflowsFrom, hslot, hn, descriptorsUnderflow, if_neg (not_blockFits_zero hs _),
        nextLevelTable_supplies hsource he ht howned hfull hi]
      constructor
      · rintro ⟨next, s₁, hopen, hunder | ⟨s₂, hmap, -⟩⟩
        · obtain ⟨hpa, hipa, hsupplies⟩ := (hbelow next s₁ hopen).1.mp hunder
          exact ⟨hpa, hipa, next, s₁, hopen, hsupplies⟩
        · exact absurd hmap ((hbelow next s₁ hopen).2 s₂)
      · rintro ⟨hpa, hipa, next, s₁, hopen, hsupplies⟩
        exact ⟨next, s₁, hopen, .inl ((hbelow next s₁ hopen).1.mpr ⟨hpa, hipa, hsupplies⟩)⟩
    · intro s' h
      rw [mapAddressStage2From, hslot, hn] at h
      obtain ⟨s₁, ⟨hfits, -⟩ | ⟨-, next, s₀, hopen, hmap⟩, -⟩ := mapDescriptors_succ_ok h
      · exact not_blockFits_zero hs _ hfits
      · exact (hbelow next s₀ hopen).2 s₁ hmap

end Zero

/-! ## Whole calls -/

variable {g : Shape} {root : ℕ}

/-- The number of tables missing on the way from the root to an address. -/
def missingTables (s : Stage2 η) (x : ℕ) : ℕ :=
  let level := initialLookupLevel ((s.vtcrEl2 &&& vtcrEl2Sl0) >>> vtcrEl2Sl0BitsOffset)
  let t0sz := ((s.vtcrEl2 &&& vtcrEl2T0sz) >>> vtcrEl2T0szBitsOffset).toNat
  missing s.mem (3 - level) (numberOfConcatenatedPageTables t0sz level * 512)
    (s.vttbrEl2 &&& vttbrBaddr).toNat x

/-- The range of the call translates as the call says, and nothing outside it
translates to anything new. -/
def Call.MapsExactly (c : Call) (s s' : Stage2 η) : Prop :=
  (∀ x, c.Covers x → stage2Walk s' x = some (c.target x)) ∧
    ∀ x, ¬ c.Covers x → stage2Walk s' x = stage2Walk s x ∨ stage2Walk s' x = none

/-- A call of size zero, on a table that was built. -/
theorem Built.zero_fails {allocatePages : AllocatePages η} {s : Stage2 η}
    (h : Built owns g root s) (hsource : PageSource allocatePages owns) {c : Call}
    (hzero : c.mapSize = 0) :
    (c.Underflows allocatePages s ↔ c.physicalAddress + 4096 < 2 ^ 64 ∧
      c.intermediatePhysicalAddress + 4096 < 2 ^ 64 ∧
      Supplies allocatePages (missingTables s c.intermediatePhysicalAddress) s.heap) ∧
    ∀ s', mapStep allocatePages s c ≠ .ok s' := by
  obtain ⟨label, howned⟩ := h.owned
  obtain ⟨j, -, hj⟩ := h.sound.power
  have hdepth : 3 - g.level = g.depth := rfl
  have hentries : g.tables * 512 = g.entries := rfl
  have hfails := mapAddressStage2From_failsOnZero hsource g.depth root c.isReadable c.isWritable hj
    g.depth root 0 label
    ⟨s.mem, s.heap, c.physicalAddress, c.intermediatePhysicalAddress, c.mapSize⟩
    howned.labelled.root howned hzero
  rw [show width g.depth g.entries g.depth = g.entries from if_pos rfl] at hfails
  constructor
  · simp only [Call.Underflows, missingTables, and_page_sub_one, h.sound.t0sz, h.sound.level,
      ← h.sound.concatenated, hdepth, hentries, h.root_eq.2]
    rw [← hfails.1, hzero]
    exact and_iff_right (Nat.zero_mod 4096)
  · intro s' hmap
    obtain ⟨cursor, hfrom, -⟩ := mapStep_ok h.sound (hzero ▸ dvd_zero 4096) hmap
    rw [h.root_eq.2] at hfrom
    exact hfails.2 cursor hfrom

/-- A call with whole pages to map does not underflow, on any table. -/
theorem not_underflows_of_pos (allocatePages : AllocatePages η) (s : Stage2 η) {c : Call}
    (hsize : 4096 ∣ c.mapSize) (hpos : 0 < c.mapSize) : ¬ c.Underflows allocatePages s := by
  rintro ⟨-, hunder⟩
  exact (mapAddressStage2From_staysWhole allocatePages _ _ _ _ _ ⟨hsize, hpos⟩).1 hunder

/-- A call that returns `Ok` mapped its range, and nothing else, when the range is
within the input range and the 48 bits of an output address, and only then. -/
theorem Built.mapsExactly_iff {allocatePages : AllocatePages η} {s s' : Stage2 η}
    (h : Built owns g root s) (hsource : PageSource allocatePages owns) {c : Call}
    (hpa : 4096 ∣ c.physicalAddress) (hipa : 4096 ∣ c.intermediatePhysicalAddress)
    (hsize : 4096 ∣ c.mapSize) (hmap : mapStep allocatePages s c = .ok s') :
    c.MapsExactly s s' ↔ c.intermediatePhysicalAddress + c.mapSize ≤ 2 ^ inputBits s.vtcrEl2 ∧
      c.physicalAddress + c.mapSize ≤ 2 ^ 48 := by
  have hpos : 0 < c.mapSize := by
    apply Nat.pos_of_ne_zero
    intro hzero
    exact (h.zero_fails hsource hzero).2 s' hmap
  constructor
  · -- The last address of the range tells.
    rintro ⟨hin, -⟩
    have hlast := hin (c.intermediatePhysicalAddress + c.mapSize - 1) ⟨by omega, by omega⟩
    have hinput : c.intermediatePhysicalAddress + c.mapSize - 1 < 2 ^ inputBits s'.vtcrEl2 := by
      by_contra hlt
      rw [stage2Walk_of_le (not_lt.mp hlt)] at hlast
      cases hlast
    rw [stage2Walk, if_pos hinput] at hlast
    have houtput := walk_lt hlast
    rw [(mapStep_registers hmap).1] at hinput
    simp only [Call.target, target] at houtput
    constructor
    · omega
    · omega
  · rintro ⟨hinput, houtput⟩
    obtain ⟨-, -, hin, hkept, hsplit⟩ := mapStep_overlay hsource h
      ⟨hpa, hipa, hsize, hpos, hinput⟩ hmap
    constructor
    · intro x hx
      rw [hin x hx, c.reached_eq_target houtput hx]
    · intro x hx
      by_cases hmeets : c.Meets s x
      · exact .inr (hsplit x hx hmeets)
      · exact .inl (hkept x hmeets)

/-- For every page-aligned call on a table made by any calls: the subtraction
underflows exactly when the size is zero and the page loop is reached, and `Ok`
means that exactly the range was mapped when the range is one that can be. -/
theorem success_iff {allocatePages : AllocatePages η} (hpages : PageAllocator allocatePages owns)
    (idAa64mmfr0El1 : BitVec 64) (s₀ s₁ : Stage2 η) (live : List Extent)
    (howns : owns s₀.heap live)
    (hinit : initStage2TranslationTable allocatePages idAa64mmfr0El1 s₀ = .ok s₁)
    (hroot : rootTable s₁ < 2 ^ 47) (earlier : List Call) (s₂ : Stage2 η)
    (hrun : Runs.run (request allocatePages) s₁ earlier = .ok s₂) (c : Call)
    (hpa : 4096 ∣ c.physicalAddress) (hipa : 4096 ∣ c.intermediatePhysicalAddress)
    (hsize : 4096 ∣ c.mapSize) :
    (¬ c.Underflows allocatePages s₂ ↔ ¬ (c.mapSize = 0 ∧ c.physicalAddress + 4096 < 2 ^ 64 ∧
      c.intermediatePhysicalAddress + 4096 < 2 ^ 64 ∧
      Supplies allocatePages (missingTables s₂ c.intermediatePhysicalAddress) s₂.heap)) ∧
    ∀ s₃, mapStep allocatePages s₂ c = .ok s₃ → (c.MapsExactly s₂ s₃ ↔
      c.intermediatePhysicalAddress + c.mapSize ≤ 2 ^ inputBits s₂.vtcrEl2 ∧
        c.physicalAddress + c.mapSize ≤ 2 ^ 48) := by
  have hbuilt := requests_built hpages howns hinit hroot hrun
  constructor
  · apply not_congr
    by_cases hzero : c.mapSize = 0
    · rw [(hbuilt.zero_fails hpages.toPageSource hzero).1]
      exact (and_iff_right hzero).symm
    · constructor
      · intro hunder
        exact absurd hunder
          (not_underflows_of_pos allocatePages s₂ hsize (Nat.pos_of_ne_zero hzero))
      · intro hcond
        exact absurd hcond.1 hzero
  · intro s₃ hmap
    exact hbuilt.mapsExactly_iff hpages.toPageSource hpa hipa hsize hmap

/-- A block and a page behind it, over a part of what is mapped already. -/
def overlapCall : Call := ⟨0x600000, 0x400000, 0x201000, true, false⟩

theorem success_overlap :
    ∃ s₁ s₂ s₃, initStage2TranslationTable LinkedList.allocatePages 0
        (machineAt 0x50000000 0x100000) = .ok s₁ ∧
      Runs.run (request LinkedList.allocatePages) s₁ [blockCall] = .ok s₂ ∧
      ¬ overlapCall.Underflows LinkedList.allocatePages s₂ ∧
      mapStep LinkedList.allocatePages s₂ overlapCall = .ok s₃ ∧ overlapCall.MapsExactly s₂ s₃ := by
  obtain ⟨s₁, s₂, s₃, hinit, hroot, hrun, hbits, hmap⟩ : ∃ s₁ s₂ s₃,
      initStage2TranslationTable LinkedList.allocatePages 0 (machineAt 0x50000000 0x100000) =
        .ok s₁ ∧ rootTable s₁ = 0x50000000 ∧
      Runs.run (request LinkedList.allocatePages) s₁ [blockCall] = .ok s₂ ∧
      inputBits s₂.vtcrEl2 = 32 ∧ mapStep LinkedList.allocatePages s₂ overlapCall = .ok s₃ :=
    ⟨_, _, _, rfl, rfl, rfl, rfl, rfl⟩
  obtain ⟨hunder, hexact⟩ := success_iff (linkedList_pageAllocator (by decide)) 0
    (machineAt 0x50000000 0x100000) s₁ [] (machineAt_owns (by decide) (by decide)) hinit
    (by rw [hroot]; decide) [blockCall] s₂ hrun overlapCall (by decide) (by decide) (by decide)
  refine ⟨s₁, s₂, s₃, hinit, hrun, hunder.mpr ?_, hmap, (hexact s₃ hmap).mpr ?_⟩
  · rintro ⟨hzero, -⟩
    exact absurd hzero (by decide)
  · rw [hbits]
    exact ⟨by decide, by decide⟩

/-- Nothing at all. -/
def emptyCall : Call := ⟨0x1000, 0, 0, true, true⟩

/-- A page at 512 GiB, where the index into the root comes round to 0. -/
def beyondCall : Call := ⟨0x7000, 0x8000000000, 0x1000, true, true⟩

/-- On a fresh table with an input range of 4 GiB, the empty call underflows and
aborts, and the call beyond the range returns `Ok` and maps address 0. -/
theorem success_misreported :
    ∃ s₁ s₂, initStage2TranslationTable LinkedList.allocatePages 0
        (machineAt 0x50000000 0x100000) = .ok s₁ ∧
      emptyCall.Underflows LinkedList.allocatePages s₁ ∧
      request LinkedList.allocatePages s₁ emptyCall = .error .overflow ∧
      mapStep LinkedList.allocatePages s₁ beyondCall = .ok s₂ ∧
      stage2Walk s₂ 0 = some (0x7000, 3) ∧ stage2Walk s₂ 0x8000000000 = none ∧
      ¬ beyondCall.MapsExactly s₁ s₂ := by
  obtain ⟨s₁, s₂, hinit, hroot, hmissing, hheap, hpanic, hmap, hfirst, hnone⟩ : ∃ s₁ s₂,
      initStage2TranslationTable LinkedList.allocatePages 0 (machineAt 0x50000000 0x100000) =
        .ok s₁ ∧ rootTable s₁ = 0x50000000 ∧
      missingTables s₁ 0 = 2 ∧ s₁.heap = ⟨[⟨0x50001000, 0xff000⟩]⟩ ∧
      request LinkedList.allocatePages s₁ emptyCall = .error .overflow ∧
      mapStep LinkedList.allocatePages s₁ beyondCall = .ok s₂ ∧
      stage2Walk s₂ 0 = some (0x7000, 3) ∧ stage2Walk s₂ 0x8000000000 = none :=
    ⟨_, _, rfl, rfl, by decide, by decide, rfl, rfl, by decide, by decide⟩
  have hsupplies : Supplies LinkedList.allocatePages (missingTables s₁ 0) s₁.heap := by
    rw [hmissing, hheap]
    exact ⟨0x50001000, ⟨[⟨0x50002000, 0xfe000⟩]⟩, rfl, 0x50002000, ⟨[⟨0x50003000, 0xfd000⟩]⟩, rfl,
      trivial⟩
  obtain ⟨hbuilt, -⟩ := initStage2TranslationTable_spec (linkedList_pageSource (by decide))
    (machineAt_owns (by decide) (by decide)) hinit (by rw [hroot]; decide)
  refine ⟨s₁, s₂, hinit, ?_, hpanic, hmap, hfirst, hnone, ?_⟩
  · apply (hbuilt.zero_fails (linkedList_pageSource (by decide)) rfl).1.mpr
    exact ⟨by decide, by decide, hsupplies⟩
  · rintro ⟨hin, -⟩
    have hwalk := hin 0x8000000000 (by decide)
    rw [hnone] at hwalk
    cases hwalk

end Min1visor.Paging
