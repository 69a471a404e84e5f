import Min1visor.Gicv3Windows
import Min1visor.Vgic

/-!
# Accesses of the emulated GICv3 that abort

Which guest accesses of the distributor and of the redistributor return, as a
condition on the registers before the access. Three things abort: most of the
window of group modifiers has no registers behind it, an interrupt without a
priority register may be handed over, and so may one whose target CPU no target
list can name.
-/
namespace Min1visor.Gicv3Mmio
open Vgicv3

theorem lt_of_getLsbD {value : BitVec 64} {i w : ℕ} (h : value.getLsbD i = true)
    (hvalue : value.toNat < 2 ^ w) : i < w := by
  by_contra hi
  have hle : 2 ^ w ≤ 2 ^ i := Nat.pow_le_pow_right (by decide) (by omega)
  rw [BitVec.getLsbD, Nat.testBit_lt_two_pow (lt_of_lt_of_le hvalue hle)] at h
  cases h

theorem toNat_setWidth_lt (word : BitVec 32) : (word.setWidth 64).toNat < 2 ^ 32 := by
  rw [BitVec.toNat_setWidth_of_le (by decide)]
  exact word.isLt

namespace GicDistributorMmio

/-- The part of the window of group modifiers that lies behind their array. -/
def BeyondGroupModifier (offset accessWidth : ℕ) : Prop :=
  accessWidth = 32 ∧ inWindow offset (gicdIgrpmodr0 + 4 * 32) gicdIgrpmodr31

instance (offset accessWidth : ℕ) : Decidable (BeyondGroupModifier offset accessWidth) :=
  inferInstanceAs (Decidable (_ ∧ _))

/-- The write stays inside the arrays, and every interrupt it hands over can be. -/
structure WriteSafe (d : GicDistributorMmio) (c : CpuInterface) (offset accessWidth : ℕ)
    (value : BitVec 64) : Prop where
  inside : ¬ BeyondGroupModifier offset accessWidth
  enable : accessWidth = 32 → inWindow offset gicdIsenabler0 gicdIsenabler31 →
    ∀ i, value.getLsbD i = true → d.pending.bit ((offset - gicdIsenabler0) / 4 * 32 + i) = true →
      d.DeliverySafe c ((offset - gicdIsenabler0) / 4 * 32 + i)
  pending : accessWidth = 32 → inWindow offset gicdIspendr0 gicdIspendr31 →
    ∀ i, value.getLsbD i = true → d.enable.bit ((offset - gicdIspendr0) / 4 * 32 + i) = true →
      d.DeliverySafe c ((offset - gicdIspendr0) / 4 * 32 + i)

theorem beyond_iff {offset : ℕ} (h : inWindow offset gicdIgrpmodr0 gicdIgrpmodr31) :
    BeyondGroupModifier offset 32 ↔ ¬ (offset - gicdIgrpmodr0) / 4 < 32 := by
  rw [Nat.not_lt, Nat.le_div_iff_mul_le (by decide), Nat.le_sub_iff_add_le h.1]
  exact ⟨fun hbeyond => Nat.add_comm _ _ ▸ hbeyond.2.1, fun hle => ⟨rfl, Nat.add_comm _ _ ▸ hle, h.2⟩⟩

theorem read_ok_iff (d : GicDistributorMmio) (offset accessWidth : ℕ) :
    (∃ v, d.read offset accessWidth = .ok v) ↔ ¬ BeyondGroupModifier offset accessWidth := by
  by_cases hmod : inWindow offset gicdIgrpmodr0 gicdIgrpmodr31 ∧ accessWidth = 32
  · obtain ⟨hwindow, rfl⟩ := hmod
    rw [read_igrpmodr d hwindow, beyond_iff hwindow, not_not]
    by_cases hi : (offset - gicdIgrpmodr0) / 4 < 32
    · exact ⟨fun _ => hi, fun _ => ⟨_, readWord_ok _ hi⟩⟩
    · simp [readWord, FixedArray.get, hi]
  · refine ⟨fun _ hbeyond => hmod ?_, fun _ => read_total d hmod⟩
    obtain ⟨hwidth, hfirst, hlast⟩ := hbeyond
    exact ⟨⟨by omega, hlast⟩, hwidth⟩

/-! ## Writes of the set-enable and set-pending registers -/

/-- A bit of the value written is set afterwards. -/
theorem bit_or_self (bank : FixedArray (BitVec 32) 32) {value : BitVec 64} {i k : ℕ} (hi : i < 32)
    (hk : k < 32) (h : value.getLsbD k = true) :
    (bank.put i (bank.getD i 0 ||| value.setWidth 32)).bit (i * 32 + k) = true := by
  have hdiv : (i * 32 + k) / 32 = i := by omega
  have hmod : (i * 32 + k) % 32 = k := by omega
  rw [bit_or bank value hi, hdiv, hmod, h]
  simp

theorem recorded_enable (d : GicDistributorMmio) {value : BitVec 64} (hvalue : value.toNat < 2 ^ 32)
    {i : ℕ} (hi : i < 32) :
    Recorded (fun d n => d.pending.bit n) (d.enableBits value i) (i * 32) value := by
  intro k hk
  have hlt := lt_of_getLsbD hk hvalue
  exact ⟨by omega, id⟩

theorem recorded_pending (d : GicDistributorMmio) {value : BitVec 64} (hvalue : value.toNat < 2 ^ 32)
    {i : ℕ} (hi : i < 32) :
    Recorded (fun d n => d.enable.bit n) (d.pendBits value i) (i * 32) value := by
  intro k hk
  have hlt := lt_of_getLsbD hk hvalue
  exact ⟨by omega, fun _ => bit_or_self d.pending hi hlt hk⟩

theorem write_isenabler_ok_iff (d : GicDistributorMmio) (c : CpuInterface) {offset : ℕ}
    {value : BitVec 64} (hvalue : value.toNat < 2 ^ 32)
    (h : inWindow offset gicdIsenabler0 gicdIsenabler31) :
    (∃ x, d.write c offset 32 value = .ok x) ↔ ∀ i, value.getLsbD i = true →
      d.pending.bit ((offset - gicdIsenabler0) / 4 * 32 + i) = true →
        d.DeliverySafe c ((offset - gicdIsenabler0) / 4 * 32 + i) := by
  have hi : (offset - gicdIsenabler0) / 4 < 32 := index_lt h (by decide) (by decide)
  rw [write_isenabler d c value h, triggerBits_ok_iff tests_getPending (recorded_enable d hvalue hi)
    fun i hbit => lt_of_getLsbD hbit value.isLt]
  refine forall_congr' fun k => forall_congr' fun hk => forall_congr' fun _ => ?_
  have hset := bit_or_self d.enable hi (lt_of_getLsbD hk hvalue) hk
  exact ⟨fun hsafe => hsafe hset, fun hsafe _ => hsafe⟩

theorem write_ispendr_ok_iff (d : GicDistributorMmio) (c : CpuInterface) {offset : ℕ}
    {value : BitVec 64} (hvalue : value.toNat < 2 ^ 32)
    (h : inWindow offset gicdIspendr0 gicdIspendr31) :
    (∃ x, d.write c offset 32 value = .ok x) ↔ ∀ i, value.getLsbD i = true →
      d.enable.bit ((offset - gicdIspendr0) / 4 * 32 + i) = true →
        d.DeliverySafe c ((offset - gicdIspendr0) / 4 * 32 + i) := by
  have hi : (offset - gicdIspendr0) / 4 < 32 := index_lt h (by decide) (by decide)
  rw [write_ispendr d c value h, triggerBits_ok_iff tests_getEnable (recorded_pending d hvalue hi)
    fun i hbit => lt_of_getLsbD hbit value.isLt]
  refine forall_congr' fun k => forall_congr' fun _ => forall_congr' fun henable => ?_
  exact ⟨fun hsafe => hsafe henable, fun hsafe _ => hsafe⟩

/-- A set-enable write that returns sets the bits of the value and hands over. -/
theorem write_isenabler_requeued {d d' : GicDistributorMmio} {c c' : CpuInterface} {offset : ℕ}
    {value : BitVec 64} (hvalue : value.toNat < 2 ^ 32)
    (h : inWindow offset gicdIsenabler0 gicdIsenabler31)
    (hwrite : d.write c offset 32 value = .ok (d', c')) :
    Requeued (d.enableBits value ((offset - gicdIsenabler0) / 4)) c d' c' := by
  rw [write_isenabler d c value h] at hwrite
  exact triggerBits_requeued tests_getPending
    (recorded_enable d hvalue (index_lt h (by decide) (by decide))) hwrite

/-- A set-pending write that returns sets the bits of the value and hands over. -/
theorem write_ispendr_requeued {d d' : GicDistributorMmio} {c c' : CpuInterface} {offset : ℕ}
    {value : BitVec 64} (hvalue : value.toNat < 2 ^ 32)
    (h : inWindow offset gicdIspendr0 gicdIspendr31)
    (hwrite : d.write c offset 32 value = .ok (d', c')) :
    Requeued (d.pendBits value ((offset - gicdIspendr0) / 4)) c d' c' := by
  rw [write_ispendr d c value h] at hwrite
  exact triggerBits_requeued tests_getEnable
    (recorded_pending d hvalue (index_lt h (by decide) (by decide))) hwrite

/-- A write of no register of interest returns. -/
theorem write_total (d : GicDistributorMmio) (c : CpuInterface) {offset accessWidth : ℕ}
    (value : BitVec 64)
    (henable : ¬ (inWindow offset gicdIsenabler0 gicdIsenabler31 ∧ accessWidth = 32))
    (hpending : ¬ (inWindow offset gicdIspendr0 gicdIspendr31 ∧ accessWidth = 32))
    (hbeyond : ¬ BeyondGroupModifier offset accessWidth) :
    ∃ x, d.write c offset accessWidth value = .ok x := by
  cases window offset accessWidth with
  | ctlr hoffset hwidth =>
    subst hoffset hwidth
    exact ⟨_, write_ctlr d c value⟩
  | igroupr h hwidth =>
    subst hwidth
    exact ⟨_, write_igroupr d c value h⟩
  | isenabler h hwidth => exact absurd ⟨h, hwidth⟩ henable
  | icenabler h hwidth =>
    subst hwidth
    exact ⟨_, write_icenabler d c value h⟩
  | ispendr h hwidth => exact absurd ⟨h, hwidth⟩ hpending
  | icpendr h hwidth =>
    subst hwidth
    exact ⟨_, write_icpendr d c value h⟩
  | isactiver h hwidth =>
    subst hwidth
    exact ⟨_, write_isactiver d c value h⟩
  | icactiver h hwidth =>
    subst hwidth
    exact ⟨_, write_icactiver d c value h⟩
  | ipriorityr h =>
    rw [write_ipriorityr d c value accessWidth h]
    exact Checked.exists_ite (fun _ => ⟨_, rfl⟩) fun _ =>
      Checked.exists_ite (fun _ => ⟨_, rfl⟩) fun _ => ⟨_, rfl⟩
  | icfgr h hwidth =>
    subst hwidth
    exact ⟨_, write_icfgr d c value h⟩
  | igrpmodr h hwidth =>
    subst hwidth
    rw [beyond_iff h, not_not] at hbeyond
    rw [write_igrpmodr d c value h, if_pos hbeyond]
    exact ⟨_, rfl⟩
  | irouter h hwidth =>
    subst hwidth
    exact ⟨_, write_irouter d c value h⟩
  | ignored h => exact ⟨_, h d c value⟩

theorem write_ok_iff (d : GicDistributorMmio) (c : CpuInterface) {offset accessWidth : ℕ}
    {value : BitVec 64} (hvalue : value.toNat < 2 ^ accessWidth) :
    (∃ x, d.write c offset accessWidth value = .ok x) ↔ d.WriteSafe c offset accessWidth value := by
  by_cases henable : inWindow offset gicdIsenabler0 gicdIsenabler31 ∧ accessWidth = 32
  · obtain ⟨h, rfl⟩ := henable
    rw [write_isenabler_ok_iff d c hvalue h]
    refine ⟨fun hsafe => ⟨fun hbeyond => ?_, fun _ _ => hsafe, fun _ hother => ?_⟩,
      fun hsafe => hsafe.enable rfl h⟩
    · exact outside h (by decide) ⟨hbeyond.2, trivial⟩
    · exact absurd ⟨hother, trivial⟩ (outside h (by decide))
  by_cases hpending : inWindow offset gicdIspendr0 gicdIspendr31 ∧ accessWidth = 32
  · obtain ⟨h, rfl⟩ := hpending
    rw [write_ispendr_ok_iff d c hvalue h]
    refine ⟨fun hsafe => ⟨fun hbeyond => ?_, fun _ hother => ?_, fun _ _ => hsafe⟩,
      fun hsafe => hsafe.pending rfl h⟩
    · exact outside h (by decide) ⟨hbeyond.2, trivial⟩
    · exact absurd ⟨hother, trivial⟩ (outside h (by decide))
  refine ⟨fun hok => ⟨?_, fun hwidth h => absurd ⟨h, hwidth⟩ henable,
    fun hwidth h => absurd ⟨h, hwidth⟩ hpending⟩,
    fun hsafe => write_total d c value henable hpending hsafe.inside⟩
  rintro ⟨rfl, hfirst, hlast⟩
  have hwindow : inWindow offset gicdIgrpmodr0 gicdIgrpmodr31 := ⟨by omega, hlast⟩
  have hi := (beyond_iff hwindow).mp ⟨rfl, hfirst, hlast⟩
  rw [write_igrpmodr d c value hwindow, if_neg hi] at hok
  obtain ⟨x, hx⟩ := hok
  cases hx

end GicDistributorMmio

/-! ## The redistributor -/

namespace GicRedistributorMmio

/-- Handing a private interrupt to the CPU of the redistributor does not abort. -/
def DeliverySafe (r : GicRedistributorMmio) (c : CpuInterface) (n : ℕ) : Prop :=
  r.waker &&& gicrWakerChildrenAsleep = 0 → r.groupModifier.getLsbD n = false →
    r.affinity = mpidrToAffinity c.mpidrEl1 ∨ aff0 r.affinity < 16

theorem registerBit_eq (register : BitVec 32) {n : ℕ} (hn : n < 32) :
    registerBit register n = .ok (if register.getLsbD n then 1 else 0) := by
  rw [registerBit, checkedShift, if_pos hn]
  simp only [Checked.ok_bind, FixedArray.shiftRight_and_one]
  rfl

theorem getEnable_eq (r : GicRedistributorMmio) {n : ℕ} (hn : n < 32) :
    r.getEnable n = .ok (r.enable.getLsbD n) := by
  rw [getEnable, registerBit_eq _ hn]
  cases r.enable.getLsbD n <;> rfl

theorem getPending_eq (r : GicRedistributorMmio) {n : ℕ} (hn : n < 32) :
    r.getPending n = .ok (r.pending.getLsbD n) := by
  rw [getPending, registerBit_eq _ hn]
  cases r.pending.getLsbD n <;> rfl

theorem getGroup_eq (r : GicRedistributorMmio) {n : ℕ} (hn : n < 32) :
    r.getGroup n = .ok (r.group.getLsbD n).toNat := by
  rw [getGroup, registerBit_eq _ hn]
  cases r.group.getLsbD n <;> rfl

theorem getGroupModifier_eq (r : GicRedistributorMmio) {n : ℕ} (hn : n < 32) :
    r.getGroupModifier n = .ok (r.groupModifier.getLsbD n).toNat := by
  rw [getGroupModifier, registerBit_eq _ hn]
  cases r.groupModifier.getLsbD n <;> rfl

theorem getPriority_eq (r : GicRedistributorMmio) {n : ℕ} (hn : n < 32) :
    r.getPriority n =
      .ok (((r.priority.getD (n / 4) 0) >>> (n % 4 * 8)) &&& 0xFF).toNat := by
  rw [getPriority, r.priority.get_ok 0 (by omega)]
  rfl

/-- Nothing but the queue of the redistributor and the registers of the CPU it
runs on may differ. -/
structure Requeued (r : GicRedistributorMmio) (c : CpuInterface) (r' : GicRedistributorMmio)
    (c' : CpuInterface) : Prop where
  registers : r' = { r with toInjectInterrupt := r'.toInjectInterrupt }
  mpidr : c'.mpidrEl1 = c.mpidrEl1

theorem Requeued.refl (r : GicRedistributorMmio) (c : CpuInterface) : Requeued r c r c := ⟨rfl, rfl⟩

theorem Requeued.trans {r₁ r₂ r₃ : GicRedistributorMmio} {c₁ c₂ c₃ : CpuInterface}
    (h : Requeued r₁ c₁ r₂ c₂) (h' : Requeued r₂ c₂ r₃ c₃) : Requeued r₁ c₁ r₃ c₃ := by
  refine ⟨?_, h'.mpidr.trans h.mpidr⟩
  rw [h'.registers, h.registers]

theorem Requeued.deliverySafe {r r' : GicRedistributorMmio} {c c' : CpuInterface}
    (h : Requeued r c r' c') (n : ℕ) : r'.DeliverySafe c' n ↔ r.DeliverySafe c n := by
  rw [h.registers, DeliverySafe, DeliverySafe, h.mpidr]

/-- Recording a private interrupt that is recorded already changes nothing. -/
theorem changePendingStatus_of_pending (r : GicRedistributorMmio) {n : ℕ} (hn : n < 32)
    (h : r.pending.getLsbD n = true) : r.changePendingStatus n true = .ok r := by
  have hword : r.pending ||| (1 : BitVec 32) <<< n = r.pending := by
    apply BitVec.eq_of_getLsbD_eq
    intro i _
    rw [BitVec.getLsbD_or, FixedArray.getLsbD_one_shiftLeft _ _ hn]
    by_cases hi : i = n
    · rw [hi, h, Bool.true_or]
    · simp [hi]
  simp only [changePendingStatus, changeRegister, checkedShift, if_pos hn, Checked.ok_bind, if_true,
    Checked.pure_eq_ok, hword]

/-- `trigger_interrupt` on a private interrupt that is pending already. -/
theorem triggerInterrupt_of_pending (r : GicRedistributorMmio) (c : CpuInterface) {n : ℕ}
    (hn : n < 32) (hpending : r.pending.getLsbD n = true) (physicalIntId : Option ℕ) :
    ((∃ x, r.triggerInterrupt c n physicalIntId = .ok x) ↔
        (r.enable.getLsbD n = true → r.DeliverySafe c n)) ∧
      ∀ r' c', r.triggerInterrupt c n physicalIntId = .ok (r', c') → Requeued r c r' c' := by
  unfold triggerInterrupt
  rw [changePendingStatus_of_pending r hn hpending]
  simp only [Checked.ok_bind, getEnable_eq r hn, getGroupModifier_eq r hn, getGroup_eq r hn,
    getPriority_eq r hn]
  by_cases hasleep : r.waker &&& gicrWakerChildrenAsleep ≠ 0
  · rw [if_pos hasleep]
    refine ⟨⟨fun _ _ hawake => absurd hawake hasleep, fun _ => ⟨_, rfl⟩⟩, fun r' c' h => ?_⟩
    cases h
    exact Requeued.refl r c
  rw [if_neg hasleep]
  have hawake : r.waker &&& gicrWakerChildrenAsleep = 0 := not_not.mp hasleep
  cases henable : r.enable.getLsbD n with
  | false =>
    refine ⟨⟨fun _ h => absurd h (by decide), fun _ => ⟨_, rfl⟩⟩, fun r' c' h => ?_⟩
    cases h
    exact Requeued.refl r c
  | true =>
    cases hmod : r.groupModifier.getLsbD n with
    | true =>
      refine ⟨⟨fun _ _ _ hclear => absurd (hmod.symm.trans hclear) (by decide), fun _ => ⟨_, rfl⟩⟩,
        fun r' c' h => ?_⟩
      cases h
      exact Requeued.refl r c
    | false =>
      simp only [Bool.not_true, Bool.toNat_false, zero_ne_one, if_false, Bool.false_eq_true]
      by_cases hsame : r.affinity = mpidrToAffinity c.mpidrEl1
      · rw [if_pos hsame]
        refine ⟨⟨fun _ _ _ _ => .inl hsame, fun _ => ⟨_, rfl⟩⟩, fun r' c' h => ?_⟩
        cases h
        exact ⟨rfl, GicDistributorMmio.addVirtualInterrupt_mpidr c _⟩
      rw [if_neg hsame]
      by_cases haff : aff0 r.affinity < 16
      · rw [sendSgi, if_pos haff]
        refine ⟨⟨fun _ _ _ _ => .inr haff, fun _ => ⟨_, rfl⟩⟩, fun r' c' h => ?_⟩
        cases h
        exact ⟨rfl, rfl⟩
      · rw [sendSgi, if_neg haff]
        refine ⟨⟨fun h => ?_, fun h => ((h trivial hawake hmod).elim hsame haff).elim⟩,
          fun r' c' h => by cases h⟩
        obtain ⟨x, hx⟩ := h
        cases hx

/-- A test of the loop that reads one bit of the registers. -/
structure Tests (ready : GicRedistributorMmio → ℕ → Except Panic Bool)
    (bit : GicRedistributorMmio → ℕ → Bool) : Prop where
  eq : ∀ r n, n < 32 → ready r n = .ok (bit r n)
  queue : ∀ r q n, bit { r with toInjectInterrupt := q } n = bit r n

/-- The interrupts that the loop triggers are pending. -/
def Recorded (bit : GicRedistributorMmio → ℕ → Bool) (r : GicRedistributorMmio) (intId : ℕ)
    (value : BitVec 64) : Prop :=
  ∀ i, value.getLsbD i = true → intId + i < 32 → bit r (intId + i) = true →
    r.pending.getLsbD (intId + i) = true

/-- One round of the loop. -/
theorem triggerBit_spec {ready : GicRedistributorMmio → ℕ → Except Panic Bool}
    {bit : GicRedistributorMmio → ℕ → Bool} (htest : Tests ready bit) {intId : ℕ}
    (hn : intId < 32) {value : BitVec 64} {r : GicRedistributorMmio} (c : CpuInterface)
    (hrec : Recorded bit r intId value) :
    ((∃ x, triggerBit ready intId value r c = .ok x) ↔
        (value.getLsbD 0 = true → bit r intId = true → r.enable.getLsbD intId = true →
          r.DeliverySafe c intId)) ∧
      ∀ r' c', triggerBit ready intId value r c = .ok (r', c') → Requeued r c r' c' := by
  unfold triggerBit
  by_cases hlow : value &&& 1 ≠ 0
  · have hset : value.getLsbD 0 = true := (FixedArray.and_one_ne_zero value).mp hlow
    rw [if_pos hlow, htest.eq r intId hn]
    cases hbit : bit r intId with
    | false =>
      refine ⟨⟨fun _ _ h => absurd h (by decide), fun _ => ⟨_, rfl⟩⟩, fun r' c' h => ?_⟩
      cases h
      exact Requeued.refl r c
    | true =>
      simp only [Checked.ok_bind, if_true, hset, forall_const]
      exact triggerInterrupt_of_pending r c hn (hrec 0 hset hn hbit) none
  · rw [if_neg hlow]
    refine ⟨⟨fun _ hset => absurd ((FixedArray.and_one_ne_zero value).mpr hset) hlow,
      fun _ => ⟨_, rfl⟩⟩, fun r' c' h => ?_⟩
    cases h
    exact Requeued.refl r c

/-- The loop returns exactly when every interrupt that it hands over can be. -/
theorem triggerBits_ok_iff {ready : GicRedistributorMmio → ℕ → Except Panic Bool}
    {bit : GicRedistributorMmio → ℕ → Bool} (htest : Tests ready bit) {k intId : ℕ}
    (hk : intId + k = 32) {value : BitVec 64} {r : GicRedistributorMmio} {c : CpuInterface}
    (hrec : Recorded bit r intId value) :
    (∃ x, triggerBits ready k intId value r c = .ok x) ↔
      ∀ i, i < k → value.getLsbD i = true → bit r (intId + i) = true →
        r.enable.getLsbD (intId + i) = true → r.DeliverySafe c (intId + i) := by
  induction k generalizing intId value r c with
  | zero => exact ⟨fun _ i hi => absurd hi (Nat.not_lt_zero i), fun _ => ⟨_, rfl⟩⟩
  | succ k ih =>
    rw [triggerBits]
    split_ifs with hzero
    · subst hzero
      simp
    obtain ⟨hround, hsame⟩ := triggerBit_spec htest (by omega) c hrec
    have hshift : ∀ r₁ c₁, triggerBit ready intId value r c = .ok (r₁, c₁) →
        Recorded bit r₁ (intId + 1) (value >>> 1) := by
      intro r₁ c₁ hfirst i hi hlt
      rw [BitVec.getLsbD_ushiftRight] at hi
      rw [(hsame r₁ c₁ hfirst).registers, htest.queue,
        show intId + 1 + i = intId + (1 + i) by omega]
      exact hrec (1 + i) hi (by omega)
    constructor
    · rintro ⟨x, hx⟩ i hi hbit
      obtain ⟨⟨r₁, c₁⟩, hfirst, hrest⟩ := Checked.bind_eq_ok.mp hx
      have hre := hsame r₁ c₁ hfirst
      have hlater := (ih (by omega) (hshift r₁ c₁ hfirst)).mp ⟨x, hrest⟩
      cases i with
      | zero => exact hround.mp ⟨_, hfirst⟩ hbit
      | succ i =>
        have hdone := hlater i (by omega)
          (by rw [BitVec.getLsbD_ushiftRight, Nat.add_comm]; exact hbit)
        rw [hre.deliverySafe, hre.registers, htest.queue,
          show intId + 1 + i = intId + (i + 1) by omega] at hdone
        exact hdone
    · intro hall
      obtain ⟨⟨r₁, c₁⟩, hfirst⟩ := hround.mpr (hall 0 (by omega))
      have hre := hsame r₁ c₁ hfirst
      rw [hfirst]
      refine (ih (by omega) (hshift r₁ c₁ hfirst)).mpr fun i hi hbit => ?_
      rw [BitVec.getLsbD_ushiftRight, Nat.add_comm] at hbit
      rw [hre.deliverySafe, hre.registers, htest.queue,
        show intId + 1 + i = intId + (i + 1) by omega]
      exact hall (i + 1) (by omega) hbit

/-- Every private interrupt that the write hands over can be. -/
structure WriteSafe (r : GicRedistributorMmio) (c : CpuInterface) (offset accessWidth : ℕ)
    (value : BitVec 64) : Prop where
  enable : offset = gicrIsenabler0 ∧ accessWidth = 32 →
    ∀ i, i < 32 → value.getLsbD i = true → r.pending.getLsbD i = true → r.DeliverySafe c i
  pending : offset = gicrIspendr0 ∧ accessWidth = 32 →
    ∀ i, i < 32 → value.getLsbD i = true → r.enable.getLsbD i = true → r.DeliverySafe c i

theorem write_isenabler_ok_iff (r : GicRedistributorMmio) (c : CpuInterface) (value : BitVec 64) :
    (∃ x, r.write c gicrIsenabler0 32 value = .ok x) ↔ ∀ i, i < 32 → value.getLsbD i = true →
      r.pending.getLsbD i = true → r.DeliverySafe c i := by
  have htest : Tests getPending fun r n => r.pending.getLsbD n :=
    ⟨fun r _ hn => getPending_eq r hn, fun _ _ _ => rfl⟩
  rw [write_isenabler, triggerBits_ok_iff htest (by decide) fun _ _ _ => id]
  simp only [Nat.zero_add]
  refine forall_congr' fun i => forall_congr' fun hi => forall_congr' fun hbit =>
    forall_congr' fun _ => ?_
  have hset : (r.enable ||| value.setWidth 32).getLsbD i = true := by
    rw [BitVec.getLsbD_or, BitVec.getLsbD_setWidth, hbit]
    simp [hi]
  exact ⟨fun hsafe => hsafe hset, fun hsafe _ => hsafe⟩

theorem write_ispendr_ok_iff (r : GicRedistributorMmio) (c : CpuInterface) (value : BitVec 64) :
    (∃ x, r.write c gicrIspendr0 32 value = .ok x) ↔ ∀ i, i < 32 → value.getLsbD i = true →
      r.enable.getLsbD i = true → r.DeliverySafe c i := by
  have htest : Tests getEnable fun r n => r.enable.getLsbD n :=
    ⟨fun r _ hn => getEnable_eq r hn, fun _ _ _ => rfl⟩
  have hrec : Recorded (fun r n => r.enable.getLsbD n)
      { r with pending := r.pending ||| value.setWidth 32 } 0 value := by
    intro i hbit hi _
    rw [Nat.zero_add] at hi ⊢
    rw [BitVec.getLsbD_or, BitVec.getLsbD_setWidth, hbit]
    simp [hi]
  rw [write_ispendr, triggerBits_ok_iff htest (by decide) hrec]
  simp only [Nat.zero_add]
  refine forall_congr' fun i => forall_congr' fun _ => forall_congr' fun _ =>
    forall_congr' fun henable => ?_
  exact ⟨fun hsafe => hsafe henable, fun hsafe _ => hsafe⟩

/-- A write of no register of interest returns. -/
theorem write_total (r : GicRedistributorMmio) (c : CpuInterface) {offset accessWidth : ℕ}
    (value : BitVec 64) (henable : ¬ (offset = gicrIsenabler0 ∧ accessWidth = 32))
    (hpending : ¬ (offset = gicrIspendr0 ∧ accessWidth = 32)) :
    ∃ x, r.write c offset accessWidth value = .ok x := by
  unfold write
  dsimp only
  generalize (if offset = gicrCtlr ∧ accessWidth = 32 then _ else r) = r
  refine Checked.exists_ite (fun _ => ?_) fun _ => ?_
  · exact Checked.exists_ite (fun _ => ⟨_, rfl⟩) fun _ => ⟨_, rfl⟩
  refine Checked.exists_ite (fun _ => ⟨_, rfl⟩) fun _ => ?_
  rw [if_neg henable]
  refine Checked.exists_ite (fun _ => ⟨_, rfl⟩) fun _ => ?_
  rw [if_neg hpending]
  refine Checked.exists_ite (fun _ => ⟨_, rfl⟩) fun _ => ?_
  refine Checked.exists_ite (fun _ => ⟨_, rfl⟩) fun _ => ?_
  refine Checked.exists_ite (fun _ => ⟨_, rfl⟩) fun _ => ?_
  refine Checked.exists_ite (fun hwindow => ?_) fun _ => ?_
  · have hin : GicDistributorMmio.inWindow offset gicrIpriorityr0 (gicrIpriorityr7 + 3) :=
      ⟨hwindow.1, Nat.le_of_lt_succ hwindow.2⟩
    have hi : (offset - gicrIpriorityr0) / 4 < 8 :=
      GicDistributorMmio.index_lt hin (by decide) (by decide)
    rw [r.priority.modify_ok _ 0 hi, r.priority.set_ok _ hi]
    exact Checked.exists_ite (fun _ => ⟨_, rfl⟩) fun _ =>
      Checked.exists_ite (fun _ => ⟨_, rfl⟩) fun _ => ⟨_, rfl⟩
  refine Checked.exists_ite (fun hwindow => ?_) fun _ => ?_
  · rw [r.configuration.set_ok _ (GicDistributorMmio.index_lt hwindow.1 (by decide) (by decide))]
    exact ⟨_, rfl⟩
  exact Checked.exists_ite (fun _ => ⟨_, rfl⟩) fun _ => ⟨_, rfl⟩

theorem write_ok_iff (r : GicRedistributorMmio) (c : CpuInterface) (offset accessWidth : ℕ)
    (value : BitVec 64) :
    (∃ x, r.write c offset accessWidth value = .ok x) ↔ r.WriteSafe c offset accessWidth value := by
  by_cases henable : offset = gicrIsenabler0 ∧ accessWidth = 32
  · obtain ⟨rfl, rfl⟩ := henable
    rw [write_isenabler_ok_iff]
    exact ⟨fun h => ⟨fun _ => h, fun hother => absurd hother (by decide)⟩,
      fun h => h.enable ⟨rfl, rfl⟩⟩
  by_cases hpending : offset = gicrIspendr0 ∧ accessWidth = 32
  · obtain ⟨rfl, rfl⟩ := hpending
    rw [write_ispendr_ok_iff]
    exact ⟨fun h => ⟨fun hother => absurd hother (by decide), fun _ => h⟩,
      fun h => h.pending ⟨rfl, rfl⟩⟩
  exact ⟨fun _ => ⟨fun h => absurd h henable, fun h => absurd h hpending⟩,
    fun _ => write_total r c value henable hpending⟩

theorem read_total (r : GicRedistributorMmio) (offset accessWidth : ℕ) :
    ∃ v, r.read offset accessWidth = .ok v := by
  unfold read
  refine Checked.exists_ite (fun _ => ⟨_, rfl⟩) fun _ => ?_
  refine Checked.exists_ite (fun _ => ⟨_, rfl⟩) fun _ => ?_
  refine Checked.exists_ite (fun _ => ⟨_, rfl⟩) fun _ => ?_
  refine Checked.exists_ite (fun _ => ⟨_, rfl⟩) fun _ => ?_
  refine Checked.exists_ite (fun _ => ⟨_, rfl⟩) fun _ => ?_
  refine Checked.exists_ite (fun _ => ⟨_, rfl⟩) fun _ => ?_
  refine Checked.exists_ite (fun _ => ⟨_, rfl⟩) fun _ => ?_
  refine Checked.exists_ite (fun _ => ⟨_, rfl⟩) fun _ => ?_
  refine Checked.exists_ite (fun _ => ⟨_, rfl⟩) fun _ => ?_
  refine Checked.exists_ite (fun h => ⟨_, GicDistributorMmio.readWord_ok _
    (GicDistributorMmio.index_lt h.1 (by decide) (by decide))⟩) fun _ => ?_
  refine Checked.exists_ite (fun h => ⟨_, GicDistributorMmio.readWord_ok _
    (GicDistributorMmio.index_lt h.1 (by decide) (by decide))⟩) fun _ => ?_
  exact Checked.exists_ite (fun _ => ⟨_, rfl⟩) fun _ => ⟨_, rfl⟩

end GicRedistributorMmio

/-! ## Guest accesses -/

/-- A trapped access of one of the two devices. -/
inductive Access
  | readDistributor (offset accessWidth : ℕ)
  | writeDistributor (offset accessWidth : ℕ) (value : BitVec 64)
  | readRedistributor (offset accessWidth : ℕ)
  | writeRedistributor (offset accessWidth : ℕ) (value : BitVec 64)

namespace Access

/-- The access lies in the device's window, and a value is as wide as the access. -/
def WellFormed : Access → Prop
  | readDistributor offset accessWidth =>
    offset < GicDistributorMmio.mmioSize ∧ accessWidth ∈ [8, 16, 32, 64]
  | writeDistributor offset accessWidth value =>
    offset < GicDistributorMmio.mmioSize ∧ accessWidth ∈ [8, 16, 32, 64] ∧
      value.toNat < 2 ^ accessWidth
  | readRedistributor offset accessWidth =>
    offset < GicRedistributorMmio.mmioSize ∧ accessWidth ∈ [8, 16, 32, 64]
  | writeRedistributor offset accessWidth value =>
    offset < GicRedistributorMmio.mmioSize ∧ accessWidth ∈ [8, 16, 32, 64] ∧
      value.toNat < 2 ^ accessWidth

instance : (a : Access) → Decidable a.WellFormed
  | readDistributor _ _ => inferInstanceAs (Decidable (_ ∧ _))
  | writeDistributor _ _ _ => inferInstanceAs (Decidable (_ ∧ _ ∧ _))
  | readRedistributor _ _ => inferInstanceAs (Decidable (_ ∧ _))
  | writeRedistributor _ _ _ => inferInstanceAs (Decidable (_ ∧ _ ∧ _))

/-- The handler of the access does not abort. -/
def Returns (d : GicDistributorMmio) (r : GicRedistributorMmio) (c : CpuInterface) : Access → Prop
  | readDistributor offset accessWidth => ∃ v, d.read offset accessWidth = .ok v
  | writeDistributor offset accessWidth value => ∃ x, d.write c offset accessWidth value = .ok x
  | readRedistributor offset accessWidth => ∃ v, r.read offset accessWidth = .ok v
  | writeRedistributor offset accessWidth value => ∃ x, r.write c offset accessWidth value = .ok x

/-- The registers before the access allow it. -/
def Safe (d : GicDistributorMmio) (r : GicRedistributorMmio) (c : CpuInterface) : Access → Prop
  | readDistributor offset accessWidth =>
    ¬ GicDistributorMmio.BeyondGroupModifier offset accessWidth
  | writeDistributor offset accessWidth value => d.WriteSafe c offset accessWidth value
  | readRedistributor _ _ => True
  | writeRedistributor offset accessWidth value => r.WriteSafe c offset accessWidth value

end Access

/-- In every state of the two devices and on every CPU, an access returns exactly
when the registers before it allow it. -/
theorem access_returns_iff (d : GicDistributorMmio) (r : GicRedistributorMmio) (c : CpuInterface)
    (a : Access) (ha : a.WellFormed) : a.Returns d r c ↔ a.Safe d r c := by
  cases a with
  | readDistributor offset accessWidth => exact d.read_ok_iff offset accessWidth
  | writeDistributor offset accessWidth value => exact d.write_ok_iff c ha.2.2
  | readRedistributor offset accessWidth =>
    exact ⟨fun _ => trivial, fun _ => r.read_total offset accessWidth⟩
  | writeRedistributor offset accessWidth value =>
    exact r.write_ok_iff c offset accessWidth value

theorem access_returns_last_modifier :
    (Access.readDistributor 0xD7C 32).WellFormed ∧
      (Access.readDistributor 0xD7C 32).Returns .new (.new 0) (.reset 0 3) :=
  ⟨by decide, (access_returns_iff _ _ _ _ (by decide)).mpr
    (show ¬ GicDistributorMmio.BeyondGroupModifier 0xD7C 32 by decide)⟩

/-- A freshly created machine already aborts on a read of the word behind the
last group modifier. -/
theorem access_aborts :
    ¬ ∀ (mpidrEl1 : Unit → BitVec 64) (ichVtrEl2 : BitVec 64) (events : List (Unit × Vgic.Event))
        (s : Vgic.State Unit), Runs.run Vgic.step (Vgic.new mpidrEl1 ichVtrEl2 ()) events = .ok s →
      ∀ (k : Unit) (a : Access), a.WellFormed → a.Returns s.distributor s.redistributor (s.cpu k) := by
  intro h
  obtain ⟨v, hv⟩ := h (fun _ => 0) 3 [] _ rfl () (.readDistributor 0xD80 32) (by decide)
  cases hv

end Min1visor.Gicv3Mmio
