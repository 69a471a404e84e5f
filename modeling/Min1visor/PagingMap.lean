import Min1visor.Paging

/-!
# What the stage 2 mapper builds

The descriptors the mapper writes are decoded by a walk to what was put into
them. Mapping a range into a labelled tree of tables sends this range where the
call says; elsewhere a walk ends as before, or faults where the range meets the
entry that ended it.
-/
namespace Min1visor.Paging
open TranslationTable

/-! ## Descriptors -/

/-- An address on a page boundary below `2 ^ n` only has bits from 12 to `n`. -/
theorem testBit_page {a n i : ℕ} (ha : 4096 ∣ a) (hn : a < 2 ^ n) (h : a.testBit i = true) :
    12 ≤ i ∧ i < n := by
  constructor
  · by_contra hi
    obtain ⟨b, rfl⟩ := ha
    rw [show 4096 * b = 2 ^ 12 * b by norm_num, Nat.testBit_two_pow_mul] at h
    simp [hi] at h
  · by_contra hi
    have hlt : a < 2 ^ i := hn.trans_le (Nat.pow_le_pow_right (by decide) (by omega))
    rw [Nat.testBit_lt_two_pow hlt] at h
    cases h

/-- A mask that covers the bits from 12 to `n` keeps such an address. -/
theorem and_mask_page {a n : ℕ} (ha : 4096 ∣ a) (hn : a < 2 ^ n) {m : BitVec 64}
    (hm : ∀ i, 12 ≤ i → i < n → m.getLsbD i = true) :
    BitVec.ofNat 64 a &&& m = BitVec.ofNat 64 a := by
  apply BitVec.eq_of_getLsbD_eq
  intro i _
  rw [BitVec.getLsbD_and, BitVec.getLsbD_ofNat]
  cases hb : a.testBit i with
  | false => simp
  | true =>
    obtain ⟨h1, h2⟩ := testBit_page ha hn hb
    simp [hm i h1 h2]

/-- A mask within the low 12 bits clears such an address. -/
theorem and_low_page {a n : ℕ} (ha : 4096 ∣ a) (hn : a < 2 ^ n) {m : BitVec 64}
    (hm : ∀ i, i < 64 → 12 ≤ i → m.getLsbD i = false) : BitVec.ofNat 64 a &&& m = 0#64 := by
  apply BitVec.eq_of_getLsbD_eq
  intro i hi
  rw [BitVec.getLsbD_and, BitVec.getLsbD_ofNat]
  cases hb : a.testBit i with
  | false => simp
  | true => simp [hm i hi (testBit_page ha hn hb).1]

theorem or_and_not {a c m : BitVec 64} (h : a &&& m = 0#64) :
    (a ||| c) &&& ~~~m = a ||| (c &&& ~~~m) := by
  apply BitVec.eq_of_getLsbD_eq
  intro i hi
  have hbit : (a &&& m).getLsbD i = false := by
    rw [h]
    simp
  rw [BitVec.getLsbD_and] at hbit
  simp only [BitVec.getLsbD_and, BitVec.getLsbD_or, BitVec.getLsbD_not, hi, decide_true,
    Bool.true_and]
  revert hbit
  cases a.getLsbD i <;> cases c.getLsbD i <;> cases m.getLsbD i <;> simp

theorem or_and (a c m : BitVec 64) : (a ||| c) &&& m = (a &&& m) ||| (c &&& m) := by
  apply BitVec.eq_of_getLsbD_eq
  intro i _
  simp only [BitVec.getLsbD_and, BitVec.getLsbD_or, Bool.and_or_distrib_right]

/-- The attributes are set below the address. -/
theorem output_eq {a n : ℕ} (ha : 4096 ∣ a) (hn : a < 2 ^ n) (permission : BitVec 64) :
    Descriptor.output a permission = BitVec.ofNat 64 a ||| Descriptor.output 0 permission := by
  have hs2ap : BitVec.ofNat 64 a &&& s2ap = 0#64 := and_low_page ha hn (by decide)
  have hattr : BitVec.ofNat 64 a &&& attrIndex = 0#64 := and_low_page ha hn (by decide)
  have hsh : BitVec.ofNat 64 a &&& sh = 0#64 := and_low_page ha hn (by decide)
  have hzero : ∀ b : ℕ, Descriptor.setOutputAddress Descriptor.new b =
      BitVec.ofNat 64 b ||| af := by
    intro b
    simp [Descriptor.setOutputAddress, Descriptor.new]
  simp only [Descriptor.output, hzero, Descriptor.setPermission,
    Descriptor.setMemoryAttributeWriteBack, Descriptor.setShareability]
  rw [or_and_not hs2ap, BitVec.or_assoc, or_and_not hattr, BitVec.or_assoc, or_and_not hsh,
    BitVec.or_assoc]
  simp

/-- The address bits of a descriptor keep the low 48 bits of a page address. -/
theorem and_address_page {a : ℕ} (ha : 4096 ∣ a) :
    BitVec.ofNat 64 a &&& 0x0000FFFFFFFFF000 = BitVec.ofNat 64 (a % 2 ^ 48) := by
  have hmask : ∀ i, i < 64 → (0x0000FFFFFFFFF000 : BitVec 64).getLsbD i =
      (decide (12 ≤ i) && decide (i < 48)) := by decide
  apply BitVec.eq_of_getLsbD_eq
  intro i hi
  rw [BitVec.getLsbD_and, BitVec.getLsbD_ofNat, BitVec.getLsbD_ofNat, hmask i hi,
    Nat.testBit_mod_two_pow]
  cases hb : a.testBit i with
  | false => simp
  | true =>
    have hlow := (testBit_page ha Nat.lt_two_pow_self hb).1
    simp [hi, hlow]

/-- How a walk reads a descriptor with attributes below a page address. -/
theorem decode_or {a : ℕ} (ha : 4096 ∣ a) {c : BitVec 64}
    (hc : c &&& 0x0000FFFFFFFFF000 = 0#64) :
    address (BitVec.ofNat 64 a ||| c) = a % 2 ^ 48 ∧
      (BitVec.ofNat 64 a ||| c) &&& 0b11 = c &&& 0b11 ∧
      (BitVec.ofNat 64 a ||| c).getLsbD 10 = c.getLsbD 10 ∧
      permissions (BitVec.ofNat 64 a ||| c) = permissions c := by
  have hn : a < 2 ^ a := Nat.lt_two_pow_self
  have hlow : BitVec.ofNat 64 a &&& 0b11 = 0#64 := and_low_page ha hn (by decide)
  have h10 : a.testBit 10 = false := by
    by_contra hb
    have := testBit_page ha hn (by simpa using hb)
    omega
  refine ⟨?_, ?_, ?_, ?_⟩
  · rw [address, or_and, hc, and_address_page ha, BitVec.or_zero, BitVec.toNat_ofNat]
    exact Nat.mod_eq_of_lt ((Nat.mod_lt a (by norm_num)).trans (by norm_num))
  · rw [or_and, hlow, BitVec.zero_or]
  · rw [BitVec.getLsbD_or, BitVec.getLsbD_ofNat, h10]
    simp
  · have hshift : (BitVec.ofNat 64 a >>> 6) &&& 0b11 = 0#64 := by
      apply BitVec.eq_of_getLsbD_eq
      intro i hi
      rw [BitVec.getLsbD_and, BitVec.getLsbD_ushiftRight, BitVec.getLsbD_ofNat]
      cases hb : a.testBit (6 + i) with
      | false => simp
      | true =>
        have hmask : ∀ j, j < 64 → 6 ≤ j → (0b11 : BitVec 64).getLsbD j = false := by decide
        have hge := (testBit_page ha hn hb).1
        rw [hmask i hi (by omega)]
        simp
    rw [permissions, BitVec.ushiftRight_or_distrib, or_and, hshift, BitVec.zero_or]
    rfl

/-- The four permissions as numbers. -/
def permissionNumber (isReadable isWritable : Bool) : ℕ := isWritable.toNat * 2 + isReadable.toNat

/-- The attributes of the four permissions. -/
theorem output_zero (r w : Bool) (v : BitVec 64) (hv : v = 0b11 ∨ v = 0b01) :
    (Descriptor.output 0 (permission r w) ||| v) &&& 0x0000FFFFFFFFF000 = 0#64 ∧
      (Descriptor.output 0 (permission r w) ||| v) &&& 0b11 = v ∧
      (Descriptor.output 0 (permission r w) ||| v).getLsbD 10 = true ∧
      permissions (Descriptor.output 0 (permission r w) ||| v) = permissionNumber r w := by
  rcases hv with rfl | rfl
  · cases r <;> cases w <;> decide
  · cases r <;> cases w <;> decide

theorem dvd_of_span_dvd {a k : ℕ} (ha : span k ∣ a) : 4096 ∣ a :=
  (pow_dvd_pow 2 (show 12 ≤ 12 + 9 * k by omega)).trans ha

/-- The output address of a descriptor with the start of its entry in it, as far as
48 bits hold it. -/
theorem output_mod {a k : ℕ} (hk : k ≤ 2) (ha : span k ∣ a) (x : ℕ) :
    a % 2 ^ 48 / span k * span k + x % span k = (a + x % span k) % 2 ^ 48 := by
  have hspan : span k ∣ 2 ^ 48 := pow_dvd_pow 2 (show 12 + 9 * k ≤ 48 by omega)
  have hmod : span k ∣ a % 2 ^ 48 := (Nat.dvd_mod_iff hspan).mpr ha
  have hlt := Nat.mod_lt x (span_pos k)
  have hsum : a % 2 ^ 48 + x % span k < 2 ^ 48 := by
    obtain ⟨b, hb⟩ := hspan
    obtain ⟨c, hc⟩ := hmod
    have hbound : a % 2 ^ 48 < 2 ^ 48 := Nat.mod_lt a (by norm_num)
    have hle : c + 1 ≤ b := by
      rw [hc, hb] at hbound
      exact Nat.lt_of_mul_lt_mul_left hbound
    have hmul := Nat.mul_le_mul_left (span k) hle
    rw [Nat.mul_add, Nat.mul_one, ← hb, ← hc] at hmul
    omega
  rw [Nat.div_mul_cancel hmod, Nat.add_mod, Nat.mod_eq_of_lt (a := x % span k) (by omega),
    Nat.mod_eq_of_lt hsum]

/-- A page descriptor is a leaf of the last level. -/
theorem leaf_page {a : ℕ} (ha : 4096 ∣ a) (r w : Bool) (x : ℕ) :
    leaf 0 (Descriptor.page a (permission r w)) x =
      some ((a + x % span 0) % 2 ^ 48, permissionNumber r w) := by
  obtain ⟨hc, hlow, h10, hperm⟩ := output_zero r w 0b11 (.inl rfl)
  obtain ⟨h1, h2, h3, h4⟩ := decode_or ha hc
  have heq : Descriptor.page a (permission r w) =
      BitVec.ofNat 64 a ||| (Descriptor.output 0 (permission r w) ||| 0b11) := by
    rw [Descriptor.page, output_eq ha Nat.lt_two_pow_self, Descriptor.validateAsPageDescriptor,
      BitVec.or_assoc]
  have hleaf : isLeaf 0 (Descriptor.page a (permission r w)) = true := by
    rw [isLeaf, heq, h2, h3, hlow, h10]
    rfl
  rw [leaf, if_pos hleaf, heq, h1, h4, hperm, output_mod (Nat.zero_le 2) ha]

/-- A block descriptor is a leaf of the levels in the middle. -/
theorem leaf_block {a k : ℕ} (hk : k + 1 ≤ 2) (ha : span (k + 1) ∣ a) (r w : Bool) (x : ℕ) :
    leaf (k + 1) (Descriptor.block a (permission r w)) x =
        some ((a + x % span (k + 1)) % 2 ^ 48, permissionNumber r w) ∧
      isTable (Descriptor.block a (permission r w)) = false := by
  have ha' := dvd_of_span_dvd ha
  obtain ⟨hc, hlow, h10, hperm⟩ := output_zero r w 0b01 (.inr rfl)
  obtain ⟨h1, h2, h3, h4⟩ := decode_or ha' hc
  have heq : Descriptor.block a (permission r w) =
      BitVec.ofNat 64 a ||| (Descriptor.output 0 (permission r w) ||| 0b01) := by
    rw [Descriptor.block, output_eq ha' Nat.lt_two_pow_self, Descriptor.validateAsBlockDescriptor,
      BitVec.or_assoc]
  have hleaf : isLeaf (k + 1) (Descriptor.block a (permission r w)) = true := by
    rw [isLeaf, heq, h2, h3, hlow, h10]
    simp [hk]
  constructor
  · rw [leaf, if_pos hleaf, heq, h1, h4, hperm, output_mod hk ha]
  · rw [isTable, heq, h2, hlow]
    rfl

/-- A table descriptor leads to its table, for a walk and for the mapper. -/
theorem table_spec {a : ℕ} (ha : 4096 ∣ a) (hn : a < 2 ^ 48) :
    isTable (Descriptor.table a) = true ∧ address (Descriptor.table a) = a ∧
      Descriptor.getNextLevelTableAddress (Descriptor.table a) = a := by
  have heq : Descriptor.table a = BitVec.ofNat 64 a ||| (af ||| 0b11) := by
    simp [Descriptor.table, Descriptor.validateAsTableDescriptor, Descriptor.setOutputAddress,
      Descriptor.new, BitVec.or_assoc]
  obtain ⟨h1, h2, -, -⟩ := decode_or ha (c := af ||| 0b11) (by decide)
  have hmask : (af ||| 0b11) &&& tableAddressMask = 0#64 := by decide
  refine ⟨?_, ?_, ?_⟩
  · rw [isTable, heq, h2]
    rfl
  · rw [heq, h1, Nat.mod_eq_of_lt hn]
  · rw [Descriptor.getNextLevelTableAddress, heq, or_and, hmask, and_mask_page ha hn (by decide),
      BitVec.or_zero, BitVec.toNat_ofNat]
    exact Nat.mod_eq_of_lt (hn.trans (by norm_num))

/-! ## Progress of the mapper -/

variable {η : Type}

/-- What the mapper relies on: pages come aligned, within the physical address
space, and apart from everything handed out before. -/
structure PageSource (allocatePages : AllocatePages η) (owns : η → List Extent → Prop) :
    Prop where
  fresh : ∀ {h live n k a h'}, 0 < n → n < 2 ^ 50 → k < 62 → owns h live →
    allocatePages h n k = .ok (some a, h') →
    2 ^ k ∣ a ∧ a + n * 4096 ≤ 2 ^ 48 ∧ (∀ e ∈ live, Extent.Apart ⟨a, n * 4096⟩ e) ∧
      owns h' (⟨a, n * 4096⟩ :: live)

/-- The mapper finds the next table where a walk does. -/
def WellFormed (d : BitVec 64) : Prop := Descriptor.getNextLevelTableAddress d = address d

/-- The tables form a labelled tree and are all handed out by the allocator. -/
structure Owned (owns : η → List Extent → Prop) (depth entries top : ℕ) (label : Labels)
    (mem : Memory) (heap : η) : Prop where
  labelled : Labelled depth entries WellFormed top mem label
  live : ∃ live, owns heap live ∧
    ∀ t k p, label t = some (k, p) → ⟨t, 8 * width depth entries k⟩ ∈ live

/-- Where a call maps an address. -/
def target (pa ipa : ℕ) (r w : Bool) (x : ℕ) : ℕ × ℕ := (pa + (x - ipa), permissionNumber r w)

/-- Where a walk ends up for such an address: descriptors hold 48 bits. -/
def reached (pa ipa : ℕ) (r w : Bool) (x : ℕ) : ℕ × ℕ :=
  ((pa + (x - ipa)) % 2 ^ 48, permissionNumber r w)

/-- The cursors are on page boundaries and in step with the start of the call. -/
structure InStep (pa ipa : ℕ) (s : Cursor η) : Prop where
  ipaAligned : 4096 ∣ s.intermediatePhysicalAddress
  paAligned : 4096 ∣ s.physicalAddress
  sizeAligned : 4096 ∣ s.remainingSize
  base : ipa ≤ s.intermediatePhysicalAddress
  offset : s.physicalAddress + ipa = pa + s.intermediatePhysicalAddress

section Progress
variable (owns : η → List Extent → Prop) (depth entries top pa ipa : ℕ) (r w : Bool)

/-- A stretch of mapping in a table at depth `k`: everything between the two
positions of the cursor is mapped. -/
structure Progress (k t p : ℕ) (label : Labels) (s : Cursor η) (label' : Labels)
    (s' : Cursor η) : Prop where
  keeps : Keeps label label'
  owned : Owned owns depth entries top label' s'.mem s'.heap
  inStep : InStep pa ipa s'
  le : s.intermediatePhysicalAddress ≤ s'.intermediatePhysicalAddress
  total : s'.intermediatePhysicalAddress + s'.remainingSize =
    s.intermediatePhysicalAddress + s.remainingSize
  maps : Maps depth entries label k t p (reached pa ipa r w) s.intermediatePhysicalAddress
    s'.intermediatePhysicalAddress s.mem s'.mem

end Progress

variable {owns : η → List Extent → Prop} {depth entries top pa ipa : ℕ} {r w : Bool}

theorem Progress.trans {k t p : ℕ} {label₁ label₂ label₃ : Labels} {s₁ s₂ s₃ : Cursor η}
    (h : Progress owns depth entries top pa ipa r w k t p label₁ s₁ label₂ s₂)
    (h' : Progress owns depth entries top pa ipa r w k t p label₂ s₂ label₃ s₃) :
    Progress owns depth entries top pa ipa r w k t p label₁ s₁ label₃ s₃ where
  keeps := h.keeps.trans h'.keeps
  owned := h'.owned
  inStep := h'.inStep
  le := h.le.trans h'.le
  total := h'.total.trans h.total
  maps := h.maps.trans h.le h'.le h.keeps h'.maps

theorem advance_ok {s s' : Cursor η} {a size : ℕ} {d : Descriptor}
    (h : s.advance a d size = .ok s') :
    size ≤ s.remainingSize ∧ s' = ⟨Function.update s.mem a d, s.heap, s.physicalAddress + size,
      s.intermediatePhysicalAddress + size, s.remainingSize - size⟩ := by
  obtain ⟨p, hp, h⟩ := Checked.bind_eq_ok.mp h
  obtain ⟨i, hi, h⟩ := Checked.bind_eq_ok.mp h
  obtain ⟨n, hn, h⟩ := Checked.bind_eq_ok.mp h
  cases h
  unfold Checked.add at hp hi
  unfold Checked.sub at hn
  split_ifs at hp hi hn with h1 h2 h3
  cases hp
  cases hi
  cases hn
  exact ⟨h3, rfl⟩

/-- Writing a leaf descriptor for a whole entry is a stretch of mapping. -/
theorem advance_progress {k t p q : ℕ} {label : Labels} {s s' : Cursor η} {d : Descriptor}
    (he : 0 < entries) (howned : Owned owns depth entries top label s.mem s.heap)
    (hstep : InStep pa ipa s) (ht : label t = some (k, p))
    (hq : q / width depth entries k = p)
    (hipa : s.intermediatePhysicalAddress = q * span k) (hd : k = 0 ∨ isTable d = false)
    (hleaf : ∀ x, leaf k d x =
      some ((s.physicalAddress + x % span k) % 2 ^ 48, permissionNumber r w))
    (h : s.advance (word depth entries k t q) d (span k) = .ok s') :
    Progress owns depth entries top pa ipa r w k t p label s label s' ∧
      s'.intermediatePhysicalAddress = (q + 1) * span k := by
  obtain ⟨hle, rfl⟩ := advance_ok h
  have hspan : 4096 ∣ span k := pow_dvd_pow 2 (show 12 ≤ 12 + 9 * k by omega)
  have hbase := hstep.base
  have hoffset := hstep.offset
  have hnext : s.intermediatePhysicalAddress + span k = (q + 1) * span k := by
    rw [hipa, Nat.add_mul, Nat.one_mul]
  refine ⟨⟨fun _ _ h => h, ⟨howned.labelled.write_leaf he ht hq hd, howned.live⟩, ?_, ?_, ?_, ?_⟩,
    hnext⟩
  · constructor
    · exact (hstep.ipaAligned).add hspan
    · exact (hstep.paAligned).add hspan
    · exact Nat.dvd_sub hstep.sizeAligned hspan
    · dsimp only
      omega
    · dsimp only
      omega
  · exact Nat.le_add_right _ _
  · dsimp only
    omega
  · have hmaps := howned.labelled.maps_leaf he ht hq hd (f := reached pa ipa r w) (by
      intro x hx
      rw [hleaf x, reached]
      obtain ⟨h1, h2⟩ := slot_eq_iff.mp hx
      have hmod : x % span k = x - q * span k := by
        have hdiv := Nat.div_add_mod x (span k)
        rw [show x / span k = q from hx, Nat.mul_comm] at hdiv
        omega
      rw [hmod]
      congr 3
      omega)
    rw [← hipa, ← hnext] at hmaps
    exact hmaps

/-! ## One descriptor of a loop -/

/-- A loop that has mapped something goes on while something remains. -/
theorem continue_ok {α : Type} {s s' : Cursor η} {result result' : α}
    {rest : Except Panic (α × Cursor η)}
    (h : (if s.remainingSize = 0 then pure (result, s) else rest) = .ok (result', s')) :
    (s.remainingSize = 0 ∧ s' = s) ∨ (s.remainingSize ≠ 0 ∧ rest = .ok (result', s')) := by
  split_ifs at h with hzero
  · cases h
    exact .inl ⟨hzero, rfl⟩
  · exact .inr ⟨hzero, h⟩

/-- A page descriptor is written, and the loop is done or goes on. -/
theorem mapPages_succ_ok {t n i : ℕ} {permission : BitVec 64} {s s' : Cursor η}
    (h : mapPages t permission (n + 1) i s = .ok s') :
    ∃ s₁, s.advance (t + 8 * i) (Descriptor.page s.physicalAddress permission) (span 0) = .ok s₁ ∧
      ((s₁.remainingSize = 0 ∧ s' = s₁) ∨
        (s₁.remainingSize ≠ 0 ∧ mapPages t permission n (i + 1) s₁ = .ok s')) := by
  obtain ⟨s₁, hadvance, h⟩ := Checked.bind_eq_ok.mp h
  refine ⟨s₁, hadvance, ?_⟩
  split_ifs at h with hzero
  · cases h
    exact .inl ⟨hzero, rfl⟩
  · exact .inr ⟨hzero, h⟩

/-- A block descriptor is written or the table below is filled, and the loop is done
or goes on. -/
theorem mapDescriptors_succ_ok {allocatePages : AllocatePages η} {t k n i : ℕ}
    {permission : BitVec 64} {lower : ℕ → Cursor η → Except Panic (Except Unit Unit × Cursor η)}
    {s s' : Cursor η}
    (h : mapDescriptors allocatePages t permission k lower (n + 1) i s = .ok (.ok (), s')) :
    ∃ s₁, ((blockFits (k + 1) s ∧
        s.advance (t + 8 * i) (Descriptor.block s.physicalAddress permission) (span (k + 1)) =
          .ok s₁) ∨
      (¬ blockFits (k + 1) s ∧ ∃ next s₀,
        nextLevelTable allocatePages (t + 8 * i) s = .ok (some next, s₀) ∧
        lower next s₀ = .ok (.ok (), s₁))) ∧
      ((s₁.remainingSize = 0 ∧ s' = s₁) ∨ (s₁.remainingSize ≠ 0 ∧
        mapDescriptors allocatePages t permission k lower n (i + 1) s₁ = .ok (.ok (), s'))) := by
  rw [mapDescriptors] at h
  by_cases hfits : blockFits (k + 1) s
  · rw [if_pos hfits] at h
    obtain ⟨s₁, hadvance, h⟩ := Checked.bind_eq_ok.mp h
    rw [show 1 <<< (12 + 9 * (k + 1)) = span (k + 1) from Nat.one_shiftLeft _] at hadvance
    exact ⟨s₁, .inl ⟨hfits, hadvance⟩, continue_ok h⟩
  · rw [if_neg hfits] at h
    obtain ⟨⟨found, s₀⟩, hopen, h⟩ := Checked.bind_eq_ok.mp h
    cases found with
    | none => cases h
    | some next =>
      obtain ⟨⟨result, s₁⟩, hmap, h⟩ := Checked.bind_eq_ok.mp h
      cases result with
      | error e => cases h
      | ok u => exact ⟨s₁, .inr ⟨hfits, next, s₀, hopen, hmap⟩, continue_ok h⟩

/-! ## The regions of the tables -/

/-- Where the region of a table at depth `k` ends. -/
def regionEnd (depth entries k p : ℕ) : ℕ := (p + 1) * width depth entries k * span k

/-- The loop over the last entry of a table ends at the end of its region. -/
theorem regionEnd_eq {k p i n : ℕ} (hi : i + n = width depth entries k) (hn : n = 0) :
    (p * width depth entries k + i) * span k = regionEnd depth entries k p := by
  rw [regionEnd, Nat.succ_mul p, show i = width depth entries k by omega]

/-- An entry of a table ends within the region of the table. -/
theorem entry_le_regionEnd {k p i n : ℕ} (hi : i + (n + 1) = width depth entries k) :
    (p * width depth entries k + i + 1) * span k ≤ regionEnd depth entries k p := by
  apply Nat.mul_le_mul_right
  rw [Nat.add_mul, Nat.one_mul]
  omega

theorem entry_div {k p i n : ℕ} (hi : i + (n + 1) = width depth entries k) :
    (p * width depth entries k + i) / width depth entries k = p := by
  rw [Nat.mul_comm, Nat.mul_add_div (by omega), Nat.div_eq_of_lt (by omega), Nat.add_zero]

theorem word_entry {k t p i n : ℕ} (hi : i + (n + 1) = width depth entries k) :
    word depth entries k t (p * width depth entries k + i) = t + 8 * i := by
  rw [word, Nat.mul_comm p, Nat.mul_add_mod, Nat.mod_eq_of_lt (by omega)]

/-- A cursor at a page boundary of the last level is at the start of its entry. -/
theorem eq_of_slot_zero {x q : ℕ} (hx : 4096 ∣ x) (h : slot 0 x = q) : x = q * span 0 := by
  rw [← h, slot, Nat.div_mul_cancel (show span 0 ∣ x from hx)]

/-- The loop over page descriptors maps up to the end of its table or of the range. -/
theorem mapPages_progress (he : 0 < entries) {t p : ℕ} {label : Labels}
    (ht : label t = some (0, p)) :
    ∀ (n i : ℕ) (s s' : Cursor η), i + n = width depth entries 0 →
      Owned owns depth entries top label s.mem s.heap → InStep pa ipa s → 0 < s.remainingSize →
      (n ≠ 0 → slot 0 s.intermediatePhysicalAddress = p * width depth entries 0 + i) →
      (n = 0 → s.intermediatePhysicalAddress = regionEnd depth entries 0 p) →
      mapPages t (permission r w) n i s = .ok s' →
      Progress owns depth entries top pa ipa r w 0 t p label s label s' ∧
        s'.intermediatePhysicalAddress = min (regionEnd depth entries 0 p)
          (s.intermediatePhysicalAddress + s.remainingSize) := by
  intro n
  induction n with
  | zero =>
    intro i s s' _ howned hstep _ _ hend h
    cases h
    refine ⟨⟨fun _ _ h => h, howned, hstep, le_rfl, rfl, Maps.refl _ _ _ _ _ _⟩, ?_⟩
    rw [hend rfl]
    omega
  | succ n ih =>
    intro i s s' hi howned hstep hrem hslot _ h
    obtain ⟨s₁, hadvance, hrest⟩ := mapPages_succ_ok h
    have hipa := eq_of_slot_zero hstep.ipaAligned (hslot (Nat.succ_ne_zero n))
    rw [← word_entry (t := t) (p := p) hi] at hadvance
    obtain ⟨hprogress, hnext⟩ := advance_progress (r := r) (w := w) he howned hstep ht
      (entry_div hi) hipa (.inl rfl) (leaf_page hstep.paAligned r w) hadvance
    have hentry := entry_le_regionEnd (p := p) hi
    have htotal := hprogress.total
    rcases hrest with ⟨hzero, rfl⟩ | ⟨hne, hrest⟩
    · refine ⟨hprogress, ?_⟩
      omega
    · obtain ⟨hlater, hreach⟩ := ih (i + 1) s₁ s' (by omega) hprogress.owned hprogress.inStep
        (by omega) (fun _ => by rw [hnext]; exact slot_lo 0 _)
        (fun hn => by rw [hnext]; exact regionEnd_eq (i := i + 1) (by omega) hn) hrest
      refine ⟨hprogress.trans hlater, ?_⟩
      rw [hreach, htotal]

/-- A table was found below an entry, or an empty one was made there in place of
whatever the entry was. -/
structure Opened (owns : η → List Extent → Prop) (depth entries top k t p q next : ℕ)
    (label : Labels) (s : Cursor η) (label₁ : Labels) (s₁ : Cursor η) : Prop where
  keeps : Keeps label label₁
  owned : Owned owns depth entries top label₁ s₁.mem s₁.heap
  child : label₁ next = some (k, q)
  entry : isTable (s₁.mem (word depth entries (k + 1) t q)) = true ∧
    address (s₁.mem (word depth entries (k + 1) t q)) = next
  other : ∀ t' k' p' q', label t' = some (k', p') → q' / width depth entries k' = p' →
    (k' = k + 1 → q' ≠ q) →
    s₁.mem (word depth entries k' t' q') = s.mem (word depth entries k' t' q')
  below : ∀ x, slot (k + 1) x = q →
    ending s₁.mem (k + 1) (width depth entries (k + 1)) t x =
        ending s.mem (k + 1) (width depth entries (k + 1)) t x ∨
      (ending s.mem (k + 1) (width depth entries (k + 1)) t x).1 = k + 1 ∧
        walk s₁.mem (k + 1) (width depth entries (k + 1)) t x = none
  cursors : s₁.physicalAddress = s.physicalAddress ∧
    s₁.intermediatePhysicalAddress = s.intermediatePhysicalAddress ∧
    s₁.remainingSize = s.remainingSize

/-- The pages of the allocator are free of labelled tables. -/
theorem Owned.fresh {allocatePages : AllocatePages η} (hsource : PageSource allocatePages owns)
    {label : Labels} {mem : Memory} {heap heap' : η} {next : ℕ}
    (h : Owned owns depth entries top label mem heap)
    (halloc : allocatePages heap 1 12 = .ok (some next, heap')) :
    4096 ∣ next ∧ next < 2 ^ 48 ∧ Fresh depth entries label next ∧
      ∃ live, owns heap' (⟨next, 8 * 512⟩ :: live) ∧
        ∀ t k p, label t = some (k, p) → ⟨t, 8 * width depth entries k⟩ ∈ live := by
  obtain ⟨live, howns, hlive⟩ := h.live
  obtain ⟨hdvd, hbound, hapart, howns'⟩ := hsource.fresh (by decide) (by decide) (by decide) howns halloc
  exact ⟨hdvd, by omega, fun t k p ht => hapart _ (hlive t k p ht), live, howns', hlive⟩

theorem nextLevelTable_opened {allocatePages : AllocatePages η}
    (hsource : PageSource allocatePages owns) (he : 0 < entries) {k t p q next : ℕ}
    {label : Labels} {s s₁ : Cursor η} (howned : Owned owns depth entries top label s.mem s.heap)
    (ht : label t = some (k + 1, p)) (hq : q / width depth entries (k + 1) = p)
    (h : nextLevelTable allocatePages (word depth entries (k + 1) t q) s = .ok (some next, s₁)) :
    ∃ label₁, Opened owns depth entries top k t p q next label s label₁ s₁ := by
  unfold nextLevelTable at h
  by_cases htable : Descriptor.isTableDescriptor (s.mem (word depth entries (k + 1) t q)) = true
  · rw [if_pos htable] at h
    obtain ⟨hnext, rfl⟩ := Prod.mk.inj (Except.ok.inj h)
    have hchild := howned.labelled.child ht hq htable
    have hsame : address (s.mem (word depth entries (k + 1) t q)) = next := by
      rw [← Option.some.inj hnext]
      exact hchild.2.symm
    exact ⟨label, fun _ _ h => h, howned, hsame ▸ hchild.1, ⟨htable, hsame⟩,
      fun _ _ _ _ _ _ _ => rfl, fun _ _ => .inl rfl, rfl, rfl, rfl⟩
  · rw [if_neg htable] at h
    obtain ⟨⟨found, heap'⟩, halloc, h⟩ := Checked.bind_eq_ok.mp h
    cases found with
    | none => cases h
    | some next' =>
      cases h
      obtain ⟨hdvd, hbound, hfresh, live, howns', hlive⟩ := howned.fresh hsource halloc
      obtain ⟨hd1, hd2, hd3⟩ := table_spec hdvd hbound
      have hgood : WellFormed (Descriptor.table next) := hd3.trans hd2.symm
      have hlink := howned.labelled.link he ht hq hfresh hd2 hgood
      have hkeep : Keeps label (addLabel label next k q) := hfresh.keeps he
      have hdepth : k < depth := howned.labelled.below ht
      refine ⟨addLabel label next k q, hkeep, ⟨hlink, _, howns', ?_⟩, Function.update_self _ _ _,
        ?_, ?_, ?_, rfl, rfl, rfl⟩
      · intro t' k' p' ht'
        by_cases hc : t' = next
        · subst hc
          rw [addLabel, Function.update_self] at ht'
          obtain ⟨rfl, -⟩ := Prod.mk.inj (Option.some.inj ht')
          rw [width_of_lt entries hdepth]
          exact List.mem_cons_self
        · rw [addLabel, Function.update_of_ne hc] at ht'
          exact List.mem_cons_of_mem _ (hlive t' k' p' ht')
      · dsimp only
        rw [Function.update_self]
        exact ⟨hd1, hd2⟩
      · intro t' k' p' q' ht' hq' hne
        apply hfresh.linked_other howned.labelled he ht hq ht' hq'
        rintro rfl
        rw [ht] at ht'
        obtain ⟨rfl, -⟩ := Prod.mk.inj (Option.some.inj ht')
        exact hne rfl
      · intro x hx
        have hnone : isTable (s.mem (word depth entries (k + 1) t q)) = false :=
          Bool.eq_false_iff.mpr htable
        refine .inr ⟨?_, Labelled.walk_link he ht hfresh hd2 hd1 hx⟩
        rw [ending, hx, ← word, hnone]
        rfl

theorem and_span_sub_one (a k : ℕ) : a &&& (1 <<< (12 + 9 * k) - 1) = a % span k := by
  rw [Nat.one_shiftLeft, Nat.and_two_pow_sub_one_eq_mod]
  rfl

/-- What mapping a range into a table does, whichever the depth: it maps up to the
end of the table's region or of the range. -/
def MapsTable (owns : η → List Extent → Prop) (depth entries top pa ipa : ℕ) (r w : Bool) (k : ℕ)
    (map : ℕ → Cursor η → Except Panic (Except Unit Unit × Cursor η)) : Prop :=
  ∀ (t p : ℕ) (label : Labels) (s s' : Cursor η), label t = some (k, p) →
    Owned owns depth entries top label s.mem s.heap → InStep pa ipa s → 0 < s.remainingSize →
    slot k s.intermediatePhysicalAddress / width depth entries k = p →
    map t s = .ok (.ok (), s') →
    ∃ label', Progress owns depth entries top pa ipa r w k t p label s label' s' ∧
      s'.intermediatePhysicalAddress = min (regionEnd depth entries k p)
        (s.intermediatePhysicalAddress + s.remainingSize)

/-- One descriptor of a table above the last level, when it becomes a block. -/
theorem block_progress (he : 0 < entries) {k t p q : ℕ} {label : Labels} {s s' : Cursor η}
    (howned : Owned owns depth entries top label s.mem s.heap) (hstep : InStep pa ipa s)
    (ht : label t = some (k + 1, p)) (hq : q / width depth entries (k + 1) = p)
    (hslot : slot (k + 1) s.intermediatePhysicalAddress = q) (hfits : blockFits (k + 1) s)
    (h : s.advance (word depth entries (k + 1) t q)
      (Descriptor.block s.physicalAddress (permission r w)) (span (k + 1)) = .ok s') :
    Progress owns depth entries top pa ipa r w (k + 1) t p label s label s' ∧
      s'.intermediatePhysicalAddress = (q + 1) * span (k + 1) := by
  obtain ⟨hk, -, hpa, hipa⟩ := hfits
  rw [and_span_sub_one] at hpa hipa
  have hleaf := leaf_block hk (Nat.dvd_of_mod_eq_zero hpa) r w
  have hstart : s.intermediatePhysicalAddress = q * span (k + 1) := by
    rw [← hslot, slot, Nat.div_mul_cancel (Nat.dvd_of_mod_eq_zero hipa)]
  exact advance_progress he howned hstep ht hq hstart (.inr (hleaf 0).2)
    (fun x => (hleaf x).1) h

/-- One descriptor of a table above the last level, when the mapping goes on below it. -/
theorem table_progress {allocatePages : AllocatePages η} (hsource : PageSource allocatePages owns)
    (he : 0 < entries) {k t p q next : ℕ} {label : Labels} {s s₁ s₂ : Cursor η}
    {lower : ℕ → Cursor η → Except Panic (Except Unit Unit × Cursor η)}
    (hlower : MapsTable owns depth entries top pa ipa r w k lower)
    (howned : Owned owns depth entries top label s.mem s.heap) (hstep : InStep pa ipa s)
    (hrem : 0 < s.remainingSize) (ht : label t = some (k + 1, p))
    (hq : q / width depth entries (k + 1) = p)
    (hslot : slot (k + 1) s.intermediatePhysicalAddress = q)
    (hnext : nextLevelTable allocatePages (word depth entries (k + 1) t q) s = .ok (some next, s₁))
    (h : lower next s₁ = .ok (.ok (), s₂)) :
    ∃ label₂, Progress owns depth entries top pa ipa r w (k + 1) t p label s label₂ s₂ ∧
      s₂.intermediatePhysicalAddress = min ((q + 1) * span (k + 1))
        (s.intermediatePhysicalAddress + s.remainingSize) := by
  have hdepth : k < depth := howned.labelled.below ht
  obtain ⟨label₁, hopen⟩ := nextLevelTable_opened hsource he howned ht hq hnext
  obtain ⟨hpa, hipa, hsize⟩ := hopen.cursors
  have hstep₁ : InStep pa ipa s₁ := by
    constructor
    · rw [hipa]
      exact hstep.ipaAligned
    · rw [hpa]
      exact hstep.paAligned
    · rw [hsize]
      exact hstep.sizeAligned
    · rw [hipa]
      exact hstep.base
    · rw [hpa, hipa]
      exact hstep.offset
  have hregion : regionEnd depth entries k q = (q + 1) * span (k + 1) := by
    rw [regionEnd, width_of_lt entries hdepth, span_succ, Nat.mul_assoc, Nat.mul_comm 512]
  obtain ⟨label₂, hprogress, hreach⟩ := hlower next q label₁ s₁ s₂ hopen.child hopen.owned hstep₁
    (by omega) (by rw [hipa, slot_div_width hdepth, hslot]) h
  rw [hregion, hipa, hsize] at hreach
  have hcell := (slot_eq_iff.mp hslot)
  refine ⟨label₂, ⟨hopen.keeps.trans hprogress.keeps, hprogress.owned, hprogress.inStep, ?_, ?_, ?_⟩,
    hreach⟩
  · rw [← hipa]
    exact hprogress.le
  · rw [hprogress.total, hipa, hsize]
  · have hmaps := hprogress.maps
    rw [hipa] at hmaps
    refine Maps.descend howned.labelled hopen.owned.labelled hopen.keeps ht hq hopen.entry
      hopen.other hopen.below ?_ ?_ hmaps
    · omega
    · intro x hlo hhi
      rw [slot_eq_iff]
      omega

/-- The loop over the descriptors of a table above the last level. -/
theorem mapDescriptors_progress {allocatePages : AllocatePages η}
    (hsource : PageSource allocatePages owns) (he : 0 < entries) {k t p : ℕ}
    {lower : ℕ → Cursor η → Except Panic (Except Unit Unit × Cursor η)}
    (hlower : MapsTable owns depth entries top pa ipa r w k lower) :
    ∀ (n i : ℕ) (label : Labels) (s s' : Cursor η), i + n = width depth entries (k + 1) →
      label t = some (k + 1, p) → Owned owns depth entries top label s.mem s.heap →
      InStep pa ipa s → 0 < s.remainingSize →
      (n ≠ 0 → slot (k + 1) s.intermediatePhysicalAddress =
        p * width depth entries (k + 1) + i) →
      (n = 0 → s.intermediatePhysicalAddress = regionEnd depth entries (k + 1) p) →
      mapDescriptors allocatePages t (permission r w) k lower n i s = .ok (.ok (), s') →
      ∃ label', Progress owns depth entries top pa ipa r w (k + 1) t p label s label' s' ∧
        s'.intermediatePhysicalAddress = min (regionEnd depth entries (k + 1) p)
          (s.intermediatePhysicalAddress + s.remainingSize) := by
  intro n
  induction n with
  | zero =>
    intro i label s s' _ _ howned hstep _ _ hend h
    obtain ⟨-, rfl⟩ := Prod.mk.inj (Except.ok.inj h)
    refine ⟨label, ⟨fun _ _ h => h, howned, hstep, le_rfl, rfl, Maps.refl _ _ _ _ _ _⟩, ?_⟩
    rw [hend rfl]
    omega
  | succ n ih =>
    intro i label s s' hi ht howned hstep hrem hslot _ h
    have hcell := hslot (Nat.succ_ne_zero n)
    have hq := entry_div (p := p) hi
    have hentry := entry_le_regionEnd (p := p) hi
    obtain ⟨s₁, hone, hrest⟩ := mapDescriptors_succ_ok h
    rw [← word_entry (t := t) (p := p) hi] at hone
    have hfirst : ∃ label₁,
        Progress owns depth entries top pa ipa r w (k + 1) t p label s label₁ s₁ ∧
        s₁.intermediatePhysicalAddress =
          min ((p * width depth entries (k + 1) + i + 1) * span (k + 1))
            (s.intermediatePhysicalAddress + s.remainingSize) := by
      rcases hone with ⟨hfits, hadvance⟩ | ⟨-, next, s₀, hopen, hmap⟩
      · obtain ⟨hprogress, hnext⟩ := block_progress he howned hstep ht hq hcell hfits hadvance
        have htotal := hprogress.total
        exact ⟨label, hprogress, by omega⟩
      · exact table_progress hsource he hlower howned hstep hrem ht hq hcell hopen hmap
    obtain ⟨label₁, hprogress, hreach⟩ := hfirst
    have htotal := hprogress.total
    rcases hrest with ⟨hzero, rfl⟩ | ⟨hne, hrest⟩
    · exact ⟨label₁, hprogress, by omega⟩
    · have hnext : s₁.intermediatePhysicalAddress =
          (p * width depth entries (k + 1) + i + 1) * span (k + 1) := by omega
      obtain ⟨label₂, hlater, hreach₂⟩ := ih (i + 1) label₁ s₁ s' (by omega)
        (hprogress.keeps _ _ ht) hprogress.owned hprogress.inStep (by omega)
        (fun _ => by rw [hnext]; exact slot_lo (k + 1) _)
        (fun hn => by rw [hnext]; exact regionEnd_eq (i := i + 1) (by omega) hn) hrest
      exact ⟨label₂, hprogress.trans hlater, by rw [hreach₂, htotal]⟩

/-- The index that the mapper computes is the entry of the cursor. -/
theorem index_eq {j x : ℕ} (k : ℕ) :
    (x >>> (12 + 9 * k)) &&& (2 ^ j - 1) = slot k x % 2 ^ j := by
  rw [Nat.and_two_pow_sub_one_eq_mod, Nat.shiftRight_eq_div_pow]
  rfl

/-- Mapping into a table, by induction on its depth. -/
theorem mapAddressStage2From_mapsTable {allocatePages : AllocatePages η}
    (hsource : PageSource allocatePages owns) (depth top pa ipa : ℕ) (r w : Bool) {j : ℕ}
    (hj : entries = 2 ^ j) (k : ℕ) :
    MapsTable owns depth entries top pa ipa r w k
      (mapAddressStage2From allocatePages (permission r w) k (width depth entries k)) := by
  have he : 0 < entries := hj ▸ Nat.two_pow_pos j
  have hwidth : ∀ k, ∃ j, width depth entries k = 2 ^ j := by
    intro k
    unfold width
    split_ifs
    · exact ⟨j, hj⟩
    · exact ⟨9, rfl⟩
  induction k with
  | zero =>
    intro t p label s s' ht howned hstep hrem hp h
    obtain ⟨m, hm⟩ := hwidth 0
    obtain ⟨s₁, hpages, h⟩ := Checked.bind_eq_ok.mp h
    obtain ⟨-, rfl⟩ := Prod.mk.inj (Except.ok.inj h)
    have hindex : s.intermediatePhysicalAddress >>> 12 &&& (width depth entries 0 - 1) =
        slot 0 s.intermediatePhysicalAddress % width depth entries 0 := by
      rw [hm]
      exact index_eq 0
    have hlt := Nat.mod_lt (slot 0 s.intermediatePhysicalAddress) (width_pos depth he 0)
    have hdiv := Nat.div_add_mod (slot 0 s.intermediatePhysicalAddress) (width depth entries 0)
    rw [hp, Nat.mul_comm] at hdiv
    rw [hindex] at hpages
    obtain ⟨hprogress, hreach⟩ := mapPages_progress he ht _ _ s s₁ (by omega) howned hstep hrem
      (fun _ => hdiv.symm) (fun hn => by omega) hpages
    exact ⟨label, hprogress, hreach⟩
  | succ k ih =>
    intro t p label s s' ht howned hstep hrem hp h
    obtain ⟨m, hm⟩ := hwidth (k + 1)
    have hdepth : k < depth := howned.labelled.below ht
    have hindex : s.intermediatePhysicalAddress >>> (12 + 9 * (k + 1)) &&&
        (width depth entries (k + 1) - 1) =
          slot (k + 1) s.intermediatePhysicalAddress % width depth entries (k + 1) := by
      rw [hm]
      exact index_eq (k + 1)
    have hlt := Nat.mod_lt (slot (k + 1) s.intermediatePhysicalAddress)
      (width_pos depth he (k + 1))
    have hdiv := Nat.div_add_mod (slot (k + 1) s.intermediatePhysicalAddress)
      (width depth entries (k + 1))
    rw [hp, Nat.mul_comm] at hdiv
    rw [width_of_lt entries hdepth] at ih
    rw [mapAddressStage2From, hindex] at h
    exact mapDescriptors_progress hsource he ih _ _ label s s' (by omega) ht howned hstep hrem
      (fun _ => hdiv.symm) (fun hn => by omega) h

end Min1visor.Paging
