import Min1visor.Gicv3Trigger

/-!
# The register windows of the emulated distributor

What an access does in each window, as one equation each, and the cases of an
access at an arbitrary offset. The windows are far enough apart that the window
of an offset decides every test before it. Writes of the distributor and of the
redistributor that trigger no interrupt are described together at the end.
-/
namespace Min1visor.Gicv3Mmio
open Vgicv3

namespace GicDistributorMmio

variable {offset : ℕ}

theorem outside {lo hi first last : ℕ} {p : Prop} (h : inWindow offset lo hi)
    (hapart : hi < first ∨ last < lo) : ¬ (inWindow offset first last ∧ p) := by
  obtain ⟨hlo, hhi⟩ := h
  rintro ⟨⟨hfirst, hlast⟩, -⟩
  omega

theorem outside_priority {lo hi : ℕ} (h : inWindow offset lo hi)
    (hapart : hi < gicdIpriorityr0 ∨ gicdIpriorityr254 + 4 ≤ lo) :
    ¬ (gicdIpriorityr0 ≤ offset ∧ offset < gicdIpriorityr254 + 4) := by
  obtain ⟨hlo, hhi⟩ := h
  rintro ⟨hfirst, hlast⟩
  omega

theorem not_register {lo hi register : ℕ} {p : Prop} (h : inWindow offset lo hi)
    (hbelow : register < lo) : ¬ (offset = register ∧ p) := by
  obtain ⟨hlo, hhi⟩ := h
  rintro ⟨heq, -⟩
  omega

/-- The register of an offset, `size` bytes each, when the window holds `n` of them. -/
theorem index_lt {first last size n : ℕ} (h : inWindow offset first last) (hsize : 0 < size)
    (hn : last < first + size * n) : (offset - first) / size < n := by
  rw [Nat.div_lt_iff_lt_mul hsize, Nat.mul_comm]
  obtain ⟨hfirst, hlast⟩ := h
  omega

section Writes
variable (d : GicDistributorMmio) (c : CpuInterface) (value : BitVec 64)

/-- What a write does to the first array of one-bit registers, and so on for
each window; the value is cut to the width of the register. -/
theorem write_ctlr : d.write c gicdCtlr 32 value = .ok ({ d with ctlr := value.setWidth 32 }, c) := by
  unfold write
  rw [if_pos ⟨rfl, rfl⟩]

theorem write_igroupr (h : inWindow offset gicdIgroupr0 gicdIgroupr31) :
    d.write c offset 32 value = .ok
      ({ d with group := d.group.put ((offset - gicdIgroupr0) / 4) (value.setWidth 32) }, c) := by
  unfold write
  dsimp only
  rw [if_neg (not_register h (by decide)), if_pos ⟨h, rfl⟩,
    d.group.set_ok _ (index_lt h (by decide) (by decide))]
  rfl

/-- The distributor with the bits of a value set in an enable register. -/
def enableBits (i : ℕ) : GicDistributorMmio :=
  { d with enable := d.enable.put i (d.enable.getD i 0 ||| value.setWidth 32) }

/-- The distributor with the bits of a value set in a pending register. -/
def pendBits (i : ℕ) : GicDistributorMmio :=
  { d with pending := d.pending.put i (d.pending.getD i 0 ||| value.setWidth 32) }

theorem write_isenabler (h : inWindow offset gicdIsenabler0 gicdIsenabler31) :
    d.write c offset 32 value =
      triggerBits getPending 64 ((offset - gicdIsenabler0) / 4 * 32) value
        (d.enableBits value ((offset - gicdIsenabler0) / 4)) c := by
  unfold write
  dsimp only
  rw [if_neg (not_register h (by decide))]
  repeat rw [if_neg (outside h (by decide))]
  rw [if_pos ⟨h, rfl⟩, d.enable.modify_ok _ 0 (index_lt h (by decide) (by decide))]
  rfl

theorem write_icenabler (h : inWindow offset gicdIcenabler0 gicdIcenabler31) :
    d.write c offset 32 value = .ok ({ d with
      enable := d.enable.put ((offset - gicdIcenabler0) / 4)
        (d.enable.getD ((offset - gicdIcenabler0) / 4) 0 &&& ~~~value.setWidth 32) }, c) := by
  unfold write
  dsimp only
  rw [if_neg (not_register h (by decide))]
  repeat rw [if_neg (outside h (by decide))]
  rw [if_pos ⟨h, rfl⟩, d.enable.modify_ok _ 0 (index_lt h (by decide) (by decide))]
  rfl

theorem write_ispendr (h : inWindow offset gicdIspendr0 gicdIspendr31) :
    d.write c offset 32 value =
      triggerBits getEnable 64 ((offset - gicdIspendr0) / 4 * 32) value
        (d.pendBits value ((offset - gicdIspendr0) / 4)) c := by
  unfold write
  dsimp only
  rw [if_neg (not_register h (by decide))]
  repeat rw [if_neg (outside h (by decide))]
  rw [if_pos ⟨h, rfl⟩, d.pending.modify_ok _ 0 (index_lt h (by decide) (by decide)),
    show (offset - gicdIspendr0) / 4 * 4 * 8 = (offset - gicdIspendr0) / 4 * 32 by omega]
  rfl

theorem write_icpendr (h : inWindow offset gicdIcpendr0 gicdIcpendr31) :
    d.write c offset 32 value = .ok ({ d with
      pending := d.pending.put ((offset - gicdIcpendr0) / 4)
        (d.pending.getD ((offset - gicdIcpendr0) / 4) 0 &&& ~~~value.setWidth 32) }, c) := by
  unfold write
  dsimp only
  rw [if_neg (not_register h (by decide))]
  repeat rw [if_neg (outside h (by decide))]
  rw [if_pos ⟨h, rfl⟩, d.pending.modify_ok _ 0 (index_lt h (by decide) (by decide))]
  rfl

theorem write_isactiver (h : inWindow offset gicdIsactiver0 gicdIsactiver31) :
    d.write c offset 32 value = .ok ({ d with
      active := d.active.put ((offset - gicdIsactiver0) / 4)
        (d.active.getD ((offset - gicdIsactiver0) / 4) 0 ||| value.setWidth 32) }, c) := by
  unfold write
  dsimp only
  rw [if_neg (not_register h (by decide))]
  repeat rw [if_neg (outside h (by decide))]
  rw [if_pos ⟨h, rfl⟩, d.active.modify_ok _ 0 (index_lt h (by decide) (by decide))]
  rfl

theorem write_icactiver (h : inWindow offset gicdIcactiver0 gicdIcactiver31) :
    d.write c offset 32 value = .ok ({ d with
      active := d.active.put ((offset - gicdIcactiver0) / 4)
        (d.active.getD ((offset - gicdIcactiver0) / 4) 0 &&& ~~~value.setWidth 32) }, c) := by
  unfold write
  dsimp only
  rw [if_neg (not_register h (by decide))]
  repeat rw [if_neg (outside h (by decide))]
  rw [if_pos ⟨h, rfl⟩, d.active.modify_ok _ 0 (index_lt h (by decide) (by decide))]
  rfl

/-- The three kinds of accesses of the window of priorities. -/
theorem write_ipriorityr (accessWidth : ℕ)
    (h : inWindow offset gicdIpriorityr0 (gicdIpriorityr254 + 3)) :
    d.write c offset accessWidth value =
      if accessWidth = 8 then .ok ({ d with
        priority := d.priority.put ((offset - gicdIpriorityr0) / 4) (setPriorityByte
          (d.priority.getD ((offset - gicdIpriorityr0) / 4) 0)
          ((offset - gicdIpriorityr0) % 4 * 8) value) }, c)
      else if (offset - gicdIpriorityr0) % 4 = 0 ∧ accessWidth = 32 then .ok ({ d with
        priority := d.priority.put ((offset - gicdIpriorityr0) / 4) (value.setWidth 32) }, c)
      else .ok (d, c) := by
  have hi : (offset - gicdIpriorityr0) / 4 < 255 := index_lt h (by decide) (by decide)
  have hmod : (offset - gicdIpriorityr0) - (offset - gicdIpriorityr0) / 4 * 4 =
      (offset - gicdIpriorityr0) % 4 := by omega
  unfold write
  dsimp only
  rw [if_neg (not_register h (by decide))]
  repeat rw [if_neg (outside h (by decide))]
  rw [if_pos ⟨h.1, Nat.lt_succ_of_le h.2⟩, hmod, d.priority.modify_ok _ 0 hi, d.priority.set_ok _ hi]
  rfl

theorem write_icfgr (h : inWindow offset gicdIcfgr0 gicdIcfgr63) :
    d.write c offset 32 value = .ok ({ d with
      configuration := d.configuration.put ((offset - gicdIcfgr0) / 4) (value.setWidth 32) }, c) := by
  unfold write
  dsimp only
  rw [if_neg (not_register h (by decide))]
  repeat rw [if_neg (outside h (by decide))]
  rw [if_neg (outside_priority h (by decide)), if_pos ⟨h, rfl⟩,
    d.configuration.set_ok _ (index_lt h (by decide) (by decide))]
  rfl

/-- The window of group modifiers is longer than their array. -/
theorem write_igrpmodr (h : inWindow offset gicdIgrpmodr0 gicdIgrpmodr31) :
    d.write c offset 32 value = if (offset - gicdIgrpmodr0) / 4 < 32 then .ok ({ d with
        groupModifier := d.groupModifier.put ((offset - gicdIgrpmodr0) / 4) (value.setWidth 32) }, c)
      else .error .indexOutOfRange := by
  unfold write
  dsimp only
  rw [if_neg (not_register h (by decide))]
  repeat rw [if_neg (outside h (by decide))]
  rw [if_neg (outside_priority h (by decide)), if_pos ⟨h, rfl⟩, FixedArray.set]
  by_cases hi : (offset - gicdIgrpmodr0) / 4 < 32
  · rw [if_pos hi, if_pos hi]
    rfl
  · rw [if_neg hi, if_neg hi]
    rfl

theorem write_irouter (h : inWindow offset gicdIrouter0 gicdIrouter1019) :
    d.write c offset 64 value = .ok
      ({ d with router := d.router.put ((offset - gicdIrouter0) / 8) value }, c) := by
  unfold write
  dsimp only
  rw [if_neg (not_register h (by decide))]
  repeat rw [if_neg (outside h (by decide))]
  rw [if_neg (outside_priority h (by decide)), if_pos ⟨h, rfl⟩,
    d.router.set_ok _ (index_lt h (by decide) (by decide))]
  rfl

end Writes

section Reads
variable (d : GicDistributorMmio)

theorem readWord_ok {n : ℕ} (a : FixedArray (BitVec 32) n) {first : ℕ}
    (h : (offset - first) / 4 < n) :
    readWord a offset first = .ok ((a.getD ((offset - first) / 4) 0).setWidth 64) := by
  rw [readWord, a.get_ok 0 h]
  rfl

theorem read_igroupr (h : inWindow offset gicdIgroupr0 gicdIgroupr31) :
    d.read offset 32 = .ok ((d.group.getD ((offset - gicdIgroupr0) / 4) 0).setWidth 64) := by
  unfold read
  rw [if_neg (not_register h (by decide)), if_neg (not_register h (by decide))]
  rw [if_pos ⟨h, rfl⟩, readWord_ok _ (index_lt h (by decide) (by decide))]

theorem read_isenabler (h : inWindow offset gicdIsenabler0 gicdIsenabler31) :
    d.read offset 32 = .ok ((d.enable.getD ((offset - gicdIsenabler0) / 4) 0).setWidth 64) := by
  unfold read
  rw [if_neg (not_register h (by decide)), if_neg (not_register h (by decide))]
  repeat rw [if_neg (outside h (by decide))]
  rw [if_pos ⟨h, rfl⟩, readWord_ok _ (index_lt h (by decide) (by decide))]

theorem read_icenabler (h : inWindow offset gicdIcenabler0 gicdIcenabler31) :
    d.read offset 32 = .ok ((d.enable.getD ((offset - gicdIcenabler0) / 4) 0).setWidth 64) := by
  unfold read
  rw [if_neg (not_register h (by decide)), if_neg (not_register h (by decide))]
  repeat rw [if_neg (outside h (by decide))]
  rw [if_pos ⟨h, rfl⟩, readWord_ok _ (index_lt h (by decide) (by decide))]

theorem read_ispendr (h : inWindow offset gicdIspendr0 gicdIspendr31) :
    d.read offset 32 = .ok ((d.pending.getD ((offset - gicdIspendr0) / 4) 0).setWidth 64) := by
  unfold read
  rw [if_neg (not_register h (by decide)), if_neg (not_register h (by decide))]
  repeat rw [if_neg (outside h (by decide))]
  rw [if_pos ⟨h, rfl⟩, readWord_ok _ (index_lt h (by decide) (by decide))]

theorem read_icpendr (h : inWindow offset gicdIcpendr0 gicdIcpendr31) :
    d.read offset 32 = .ok ((d.pending.getD ((offset - gicdIcpendr0) / 4) 0).setWidth 64) := by
  unfold read
  rw [if_neg (not_register h (by decide)), if_neg (not_register h (by decide))]
  repeat rw [if_neg (outside h (by decide))]
  rw [if_pos ⟨h, rfl⟩, readWord_ok _ (index_lt h (by decide) (by decide))]

theorem read_isactiver (h : inWindow offset gicdIsactiver0 gicdIsactiver31) :
    d.read offset 32 = .ok ((d.active.getD ((offset - gicdIsactiver0) / 4) 0).setWidth 64) := by
  unfold read
  rw [if_neg (not_register h (by decide)), if_neg (not_register h (by decide))]
  repeat rw [if_neg (outside h (by decide))]
  rw [if_pos ⟨h, rfl⟩, readWord_ok _ (index_lt h (by decide) (by decide))]

theorem read_icactiver (h : inWindow offset gicdIcactiver0 gicdIcactiver31) :
    d.read offset 32 = .ok ((d.active.getD ((offset - gicdIcactiver0) / 4) 0).setWidth 64) := by
  unfold read
  rw [if_neg (not_register h (by decide)), if_neg (not_register h (by decide))]
  repeat rw [if_neg (outside h (by decide))]
  rw [if_pos ⟨h, rfl⟩, readWord_ok _ (index_lt h (by decide) (by decide))]

/-- A whole word of the window of priorities. -/
theorem read_ipriorityr (h : inWindow offset gicdIpriorityr0 gicdIpriorityr254)
    (haligned : (offset - gicdIpriorityr0) % 4 = 0) :
    d.read offset 32 = .ok ((d.priority.getD ((offset - gicdIpriorityr0) / 4) 0).setWidth 64) := by
  have hmod : (offset - gicdIpriorityr0) - (offset - gicdIpriorityr0) / 4 * 4 = 0 := by omega
  unfold read
  dsimp only
  rw [if_neg (not_register h (by decide)), if_neg (not_register h (by decide))]
  repeat rw [if_neg (outside h (by decide))]
  rw [if_pos ⟨h.1, Nat.lt_add_right 3 (Nat.lt_succ_of_le h.2)⟩, hmod, if_neg (by decide),
    if_pos ⟨rfl, rfl⟩, d.priority.get_ok 0 (index_lt h (by decide) (by decide))]
  rfl

theorem read_icfgr (h : inWindow offset gicdIcfgr0 gicdIcfgr63) :
    d.read offset 32 = .ok ((d.configuration.getD ((offset - gicdIcfgr0) / 4) 0).setWidth 64) := by
  unfold read
  dsimp only
  rw [if_neg (not_register h (by decide)), if_neg (not_register h (by decide))]
  repeat rw [if_neg (outside h (by decide))]
  rw [if_neg (outside_priority h (by decide)), if_pos ⟨h, rfl⟩,
    readWord_ok _ (index_lt h (by decide) (by decide))]

theorem read_igrpmodr (h : inWindow offset gicdIgrpmodr0 gicdIgrpmodr31) :
    d.read offset 32 = readWord d.groupModifier offset gicdIgrpmodr0 := by
  unfold read
  dsimp only
  rw [if_neg (not_register h (by decide)), if_neg (not_register h (by decide))]
  repeat rw [if_neg (outside h (by decide))]
  rw [if_neg (outside_priority h (by decide)), if_pos ⟨h, rfl⟩]

/-- Every other read returns. -/
theorem read_total {accessWidth : ℕ}
    (hmod : ¬ (inWindow offset gicdIgrpmodr0 gicdIgrpmodr31 ∧ accessWidth = 32)) :
    ∃ v, d.read offset accessWidth = .ok v := by
  unfold read
  dsimp only
  refine Checked.exists_ite (fun _ => ⟨_, rfl⟩) fun _ => ?_
  refine Checked.exists_ite (fun _ => ⟨_, rfl⟩) fun _ => ?_
  refine Checked.exists_ite (fun h => ⟨_, readWord_ok _ (index_lt h.1 (by decide) (by decide))⟩) fun _ => ?_
  refine Checked.exists_ite (fun h => ⟨_, readWord_ok _ (index_lt h.1 (by decide) (by decide))⟩) fun _ => ?_
  refine Checked.exists_ite (fun h => ⟨_, readWord_ok _ (index_lt h.1 (by decide) (by decide))⟩) fun _ => ?_
  refine Checked.exists_ite (fun h => ⟨_, readWord_ok _ (index_lt h.1 (by decide) (by decide))⟩) fun _ => ?_
  refine Checked.exists_ite (fun h => ⟨_, readWord_ok _ (index_lt h.1 (by decide) (by decide))⟩) fun _ => ?_
  refine Checked.exists_ite (fun h => ⟨_, readWord_ok _ (index_lt h.1 (by decide) (by decide))⟩) fun _ => ?_
  refine Checked.exists_ite (fun h => ⟨_, readWord_ok _ (index_lt h.1 (by decide) (by decide))⟩) fun _ => ?_
  refine Checked.exists_ite (fun h => ?_) fun _ => ?_
  · have hi : (offset - gicdIpriorityr0) / 4 < 255 := by
      have hlast := h.2
      simp only [gicdIpriorityr0, gicdIpriorityr254] at hlast ⊢
      omega
    rw [d.priority.get_ok 0 hi]
    exact Checked.exists_ite (fun _ => ⟨_, rfl⟩) fun _ =>
      Checked.exists_ite (fun _ => ⟨_, rfl⟩) fun _ => ⟨_, rfl⟩
  refine Checked.exists_ite (fun h => ⟨_, readWord_ok _ (index_lt h.1 (by decide) (by decide))⟩) fun _ => ?_
  rw [if_neg hmod]
  refine Checked.exists_ite (fun h => ⟨_, d.router.get_ok 0 (index_lt h.1 (by decide) (by decide))⟩) fun _ => ?_
  exact Checked.exists_ite (fun _ => ⟨_, rfl⟩) fun _ => ⟨_, rfl⟩

end Reads

/-- The windows a write may hit. -/
inductive Window (offset accessWidth : ℕ) : Prop
  | ctlr (hoffset : offset = gicdCtlr) (hwidth : accessWidth = 32)
  | igroupr (h : inWindow offset gicdIgroupr0 gicdIgroupr31) (hwidth : accessWidth = 32)
  | isenabler (h : inWindow offset gicdIsenabler0 gicdIsenabler31) (hwidth : accessWidth = 32)
  | icenabler (h : inWindow offset gicdIcenabler0 gicdIcenabler31) (hwidth : accessWidth = 32)
  | ispendr (h : inWindow offset gicdIspendr0 gicdIspendr31) (hwidth : accessWidth = 32)
  | icpendr (h : inWindow offset gicdIcpendr0 gicdIcpendr31) (hwidth : accessWidth = 32)
  | isactiver (h : inWindow offset gicdIsactiver0 gicdIsactiver31) (hwidth : accessWidth = 32)
  | icactiver (h : inWindow offset gicdIcactiver0 gicdIcactiver31) (hwidth : accessWidth = 32)
  | ipriorityr (h : inWindow offset gicdIpriorityr0 (gicdIpriorityr254 + 3))
  | icfgr (h : inWindow offset gicdIcfgr0 gicdIcfgr63) (hwidth : accessWidth = 32)
  | igrpmodr (h : inWindow offset gicdIgrpmodr0 gicdIgrpmodr31) (hwidth : accessWidth = 32)
  | irouter (h : inWindow offset gicdIrouter0 gicdIrouter1019) (hwidth : accessWidth = 64)
  | ignored (h : ∀ (d : GicDistributorMmio) (c : CpuInterface) (value : BitVec 64),
      d.write c offset accessWidth value = .ok (d, c))

theorem window (offset accessWidth : ℕ) : Window offset accessWidth := by
  by_cases hctlr : offset = gicdCtlr ∧ accessWidth = 32
  · exact .ctlr hctlr.1 hctlr.2
  by_cases higroupr : inWindow offset gicdIgroupr0 gicdIgroupr31 ∧ accessWidth = 32
  · exact .igroupr higroupr.1 higroupr.2
  by_cases hisenabler : inWindow offset gicdIsenabler0 gicdIsenabler31 ∧ accessWidth = 32
  · exact .isenabler hisenabler.1 hisenabler.2
  by_cases hicenabler : inWindow offset gicdIcenabler0 gicdIcenabler31 ∧ accessWidth = 32
  · exact .icenabler hicenabler.1 hicenabler.2
  by_cases hispendr : inWindow offset gicdIspendr0 gicdIspendr31 ∧ accessWidth = 32
  · exact .ispendr hispendr.1 hispendr.2
  by_cases hicpendr : inWindow offset gicdIcpendr0 gicdIcpendr31 ∧ accessWidth = 32
  · exact .icpendr hicpendr.1 hicpendr.2
  by_cases hisactiver : inWindow offset gicdIsactiver0 gicdIsactiver31 ∧ accessWidth = 32
  · exact .isactiver hisactiver.1 hisactiver.2
  by_cases hicactiver : inWindow offset gicdIcactiver0 gicdIcactiver31 ∧ accessWidth = 32
  · exact .icactiver hicactiver.1 hicactiver.2
  by_cases hipriorityr : gicdIpriorityr0 ≤ offset ∧ offset < gicdIpriorityr254 + 4
  · exact .ipriorityr ⟨hipriorityr.1, Nat.le_of_lt_succ hipriorityr.2⟩
  by_cases hicfgr : inWindow offset gicdIcfgr0 gicdIcfgr63 ∧ accessWidth = 32
  · exact .icfgr hicfgr.1 hicfgr.2
  by_cases higrpmodr : inWindow offset gicdIgrpmodr0 gicdIgrpmodr31 ∧ accessWidth = 32
  · exact .igrpmodr higrpmodr.1 higrpmodr.2
  by_cases hirouter : inWindow offset gicdIrouter0 gicdIrouter1019 ∧ accessWidth = 64
  · exact .irouter hirouter.1 hirouter.2
  refine .ignored fun d c value => ?_
  unfold write
  dsimp only
  rw [if_neg hctlr, if_neg higroupr, if_neg hisenabler, if_neg hicenabler, if_neg hispendr,
    if_neg hicpendr, if_neg hisactiver, if_neg hicactiver, if_neg hipriorityr, if_neg hicfgr,
    if_neg higrpmodr, if_neg hirouter]

/-- Behind the last router there is no register of 64 bits. -/
theorem write_beyond_irouter (d : GicDistributorMmio) (c : CpuInterface) (value : BitVec 64)
    (h : gicdIrouter1019 < offset) : d.write c offset 64 value = .ok (d, c) := by
  cases window offset 64 with
  | ipriorityr hw =>
    have hlast := hw.2
    have hlt : gicdIpriorityr254 + 3 < gicdIrouter1019 := by decide
    omega
  | irouter hw _ => exact absurd hw.2 (Nat.not_le_of_lt h)
  | ignored hw => exact hw d c value
  | _ _ hwidth => exact absurd hwidth (by decide)

/-! ## Writes that trigger no interrupt -/

/-- The bits a value adds to a bank. -/
theorem bit_or (bank : FixedArray (BitVec 32) 32) (value : BitVec 64) {i : ℕ} (hi : i < 32) (n : ℕ) :
    (bank.put i (bank.getD i 0 ||| value.setWidth 32)).bit n =
      (bank.bit n || (decide (n / 32 = i) && value.getLsbD (n % 32))) := by
  rw [bank.bit_put _ hi]
  by_cases hn : n / 32 = i
  · rw [if_pos hn, BitVec.getLsbD_or, BitVec.getLsbD_setWidth]
    simp [FixedArray.bit, hn, Nat.mod_lt n (show 0 < 32 by decide)]
  · simp [hn]

/-- The bits a value clears in a bank. -/
theorem bit_and_not (bank : FixedArray (BitVec 32) 32) (value : BitVec 64) {i : ℕ} (hi : i < 32)
    (n : ℕ) : (bank.put i (bank.getD i 0 &&& ~~~value.setWidth 32)).bit n =
      (bank.bit n && !(decide (n / 32 = i) && value.getLsbD (n % 32))) := by
  rw [bank.bit_put _ hi]
  by_cases hn : n / 32 = i
  · rw [if_pos hn, BitVec.getLsbD_and, BitVec.getLsbD_not, BitVec.getLsbD_setWidth]
    simp [FixedArray.bit, hn, Nat.mod_lt n (show 0 < 32 by decide)]
  · simp [hn]

/-- What such a write leaves. It records and enables nothing; the control register and the
group modifiers are changed through their own windows only. -/
structure Withdraws (offset accessWidth : ℕ) (d d' : GicDistributorMmio) : Prop where
  pending : ∀ n, d'.pending.bit n = true → d.pending.bit n = true
  enable : ∀ n, d'.enable.bit n = true → d.enable.bit n = true
  queue : d'.toInjectInterrupt = d.toInjectInterrupt
  ctlr : ¬ (offset = gicdCtlr ∧ accessWidth = 32) → d'.ctlr = d.ctlr
  groupModifier : ¬ (inWindow offset gicdIgrpmodr0 gicdIgrpmodr31 ∧ accessWidth = 32) →
    d'.groupModifier = d.groupModifier

theorem Withdraws.refl (offset accessWidth : ℕ) (d : GicDistributorMmio) :
    Withdraws offset accessWidth d d :=
  ⟨fun _ hn => hn, fun _ hn => hn, rfl, fun _ => rfl, fun _ => rfl⟩

theorem write_withdraws {d d' : GicDistributorMmio} {c c' : CpuInterface} {accessWidth : ℕ}
    {value : BitVec 64}
    (henable : ¬ (inWindow offset gicdIsenabler0 gicdIsenabler31 ∧ accessWidth = 32))
    (hpend : ¬ (inWindow offset gicdIspendr0 gicdIspendr31 ∧ accessWidth = 32))
    (h : d.write c offset accessWidth value = .ok (d', c')) :
    c' = c ∧ Withdraws offset accessWidth d d' := by
  have hsame := Withdraws.refl offset accessWidth d
  cases window offset accessWidth with
  | ctlr hoffset hwidth =>
    subst hoffset hwidth
    cases (write_ctlr d c value).symm.trans h
    exact ⟨rfl, hsame.pending, hsame.enable, rfl, fun hno => absurd ⟨rfl, rfl⟩ hno,
      hsame.groupModifier⟩
  | igroupr hw hwidth =>
    subst hwidth
    cases (write_igroupr d c value hw).symm.trans h
    exact ⟨rfl, hsame.pending, hsame.enable, rfl, hsame.ctlr, hsame.groupModifier⟩
  | isenabler hw hwidth => exact absurd ⟨hw, hwidth⟩ henable
  | icenabler hw hwidth =>
    subst hwidth
    cases (write_icenabler d c value hw).symm.trans h
    refine ⟨rfl, hsame.pending, fun n hn => ?_, rfl, hsame.ctlr, hsame.groupModifier⟩
    rw [bit_and_not d.enable value (index_lt hw (by decide) (by decide)), Bool.and_eq_true] at hn
    exact hn.1
  | ispendr hw hwidth => exact absurd ⟨hw, hwidth⟩ hpend
  | icpendr hw hwidth =>
    subst hwidth
    cases (write_icpendr d c value hw).symm.trans h
    refine ⟨rfl, fun n hn => ?_, hsame.enable, rfl, hsame.ctlr, hsame.groupModifier⟩
    rw [bit_and_not d.pending value (index_lt hw (by decide) (by decide)), Bool.and_eq_true] at hn
    exact hn.1
  | isactiver hw hwidth =>
    subst hwidth
    cases (write_isactiver d c value hw).symm.trans h
    exact ⟨rfl, hsame.pending, hsame.enable, rfl, hsame.ctlr, hsame.groupModifier⟩
  | icactiver hw hwidth =>
    subst hwidth
    cases (write_icactiver d c value hw).symm.trans h
    exact ⟨rfl, hsame.pending, hsame.enable, rfl, hsame.ctlr, hsame.groupModifier⟩
  | ipriorityr hw =>
    rw [write_ipriorityr d c value accessWidth hw] at h
    split_ifs at h
    all_goals
      cases h
      exact ⟨rfl, hsame.pending, hsame.enable, rfl, hsame.ctlr, hsame.groupModifier⟩
  | icfgr hw hwidth =>
    subst hwidth
    cases (write_icfgr d c value hw).symm.trans h
    exact ⟨rfl, hsame.pending, hsame.enable, rfl, hsame.ctlr, hsame.groupModifier⟩
  | igrpmodr hw hwidth =>
    subst hwidth
    rw [write_igrpmodr d c value hw] at h
    split_ifs at h
    cases h
    exact ⟨rfl, hsame.pending, hsame.enable, rfl, hsame.ctlr, fun hno => absurd ⟨hw, rfl⟩ hno⟩
  | irouter hw hwidth =>
    subst hwidth
    cases (write_irouter d c value hw).symm.trans h
    exact ⟨rfl, hsame.pending, hsame.enable, rfl, hsame.ctlr, hsame.groupModifier⟩
  | ignored hw =>
    cases (hw d c value).symm.trans h
    exact ⟨rfl, hsame⟩

end GicDistributorMmio

namespace GicRedistributorMmio

theorem write_isenabler (r : GicRedistributorMmio) (c : CpuInterface) (value : BitVec 64) :
    r.write c gicrIsenabler0 32 value =
      triggerBits getPending 32 0 value { r with enable := r.enable ||| value.setWidth 32 } c := by
  have hctlr : ¬ (gicrIsenabler0 = gicrCtlr ∧ 32 = 32) := by decide
  unfold write
  dsimp only
  rw [if_neg hctlr, if_neg (by decide), if_neg (by decide), if_pos ⟨rfl, rfl⟩]

theorem write_ispendr (r : GicRedistributorMmio) (c : CpuInterface) (value : BitVec 64) :
    r.write c gicrIspendr0 32 value =
      triggerBits getEnable 32 0 value { r with pending := r.pending ||| value.setWidth 32 } c := by
  have hctlr : ¬ (gicrIspendr0 = gicrCtlr ∧ 32 = 32) := by decide
  unfold write
  dsimp only
  rw [if_neg hctlr, if_neg (by decide), if_neg (by decide), if_neg (by decide),
    if_neg (by decide), if_pos ⟨rfl, rfl⟩]

/-- A write to the redistributor that triggers no interrupt records none. -/
theorem write_withdraws {r r' : GicRedistributorMmio} {c c' : CpuInterface}
    {offset accessWidth : ℕ} {value : BitVec 64}
    (henable : ¬ (offset = gicrIsenabler0 ∧ accessWidth = 32))
    (hpend : ¬ (offset = gicrIspendr0 ∧ accessWidth = 32))
    (h : r.write c offset accessWidth value = .ok (r', c')) :
    c' = c ∧ r'.toInjectInterrupt = r.toInjectInterrupt ∧
      ∀ n, r'.pending.getLsbD n = true → r.pending.getLsbD n = true := by
  unfold write at h
  extract_lets value32 r₀ at h
  -- A write of `GICR_CTLR` changes no record.
  have hpending₀ : r₀.pending = r.pending := by
    simp only [r₀]
    split_ifs <;> rfl
  have hqueue₀ : r₀.toInjectInterrupt = r.toInjectInterrupt := by
    simp only [r₀]
    split_ifs <;> rfl
  clear_value r₀
  have hstored {r₁ : GicRedistributorMmio}
      (he : (Except.ok (r₁, c) : Except Panic _) = .ok (r', c'))
      (hpending : ∀ n, r₁.pending.getLsbD n = true → r₀.pending.getLsbD n = true)
      (hqueue : r₁.toInjectInterrupt = r₀.toInjectInterrupt) :
      c' = c ∧ r'.toInjectInterrupt = r.toInjectInterrupt ∧
        ∀ n, r'.pending.getLsbD n = true → r.pending.getLsbD n = true := by
    cases he
    exact ⟨rfl, hqueue.trans hqueue₀, fun n hn => hpending₀ ▸ hpending n hn⟩
  have hbound {α : Type} {x : Except Panic α} {f : α → GicRedistributorMmio}
      (he : (do return (f (← x), c)) = Except.ok (r', c'))
      (hpending : ∀ a n, (f a).pending.getLsbD n = true → r₀.pending.getLsbD n = true)
      (hqueue : ∀ a, (f a).toInjectInterrupt = r₀.toInjectInterrupt) :
      c' = c ∧ r'.toInjectInterrupt = r.toInjectInterrupt ∧
        ∀ n, r'.pending.getLsbD n = true → r.pending.getLsbD n = true := by
    obtain ⟨a, -, he⟩ := Checked.bind_eq_ok.mp he
    exact hstored he (hpending a) (hqueue a)
  rcases Checked.ite_eq_ok h with h | h
  · rcases Checked.ite_eq_ok h with h | h
    · exact hstored h (fun _ hn => hn) rfl
    · exact hstored h (fun _ hn => hn) rfl
  rcases Checked.ite_eq_ok h with h | h
  · exact hstored h (fun _ hn => hn) rfl
  rw [if_neg henable] at h
  rcases Checked.ite_eq_ok h with h | h
  · exact hstored h (fun _ hn => hn) rfl
  rw [if_neg hpend] at h
  rcases Checked.ite_eq_ok h with h | h
  · refine hstored h (fun n hn => ?_) rfl
    rw [BitVec.getLsbD_and, Bool.and_eq_true] at hn
    exact hn.1
  rcases Checked.ite_eq_ok h with h | h
  · exact hstored h (fun _ hn => hn) rfl
  rcases Checked.ite_eq_ok h with h | h
  · exact hstored h (fun _ hn => hn) rfl
  rcases Checked.ite_eq_ok h with h | h
  · rcases Checked.ite_eq_ok h with h | h
    · exact hbound h (fun _ _ hn => hn) fun _ => rfl
    rcases Checked.ite_eq_ok h with h | h
    · exact hbound h (fun _ _ hn => hn) fun _ => rfl
    · exact hstored h (fun _ hn => hn) rfl
  rcases Checked.ite_eq_ok h with h | h
  · exact hbound h (fun _ _ hn => hn) fun _ => rfl
  rcases Checked.ite_eq_ok h with h | h
  · exact hstored h (fun _ hn => hn) rfl
  · exact hstored h (fun _ hn => hn) rfl

end GicRedistributorMmio

end Min1visor.Gicv3Mmio
