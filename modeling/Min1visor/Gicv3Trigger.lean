import Min1visor.Gicv3Mmio
import Min1visor.Library.PackedFields

/-!
# What triggering an interrupt computes

The getters of the distributor in terms of the bits of its banks, the one
equation of `triggerInterrupt` on the identifiers a bank has room for, and what
the loop over the bits of a written value leaves unchanged. An interrupt that is
triggered in this loop is already recorded as pending, so that the loop touches
nothing but the queue of the distributor and the CPU it runs on.
-/
namespace Min1visor.Gicv3Mmio
open Vgicv3

/-- Two affinities name the same CPU. -/
def SameAffinity (x y : BitVec 64) : Prop :=
  aff3 x = aff3 y ∧ aff2 x = aff2 y ∧ aff1 x = aff1 y ∧ aff0 x = aff0 y

instance (x y : BitVec 64) : Decidable (SameAffinity x y) :=
  inferInstanceAs (Decidable (_ ∧ _ ∧ _ ∧ _))

namespace GicDistributorMmio

section Getters
variable (d : GicDistributorMmio) {n : ℕ}

theorem bankBit_eq (bank : FixedArray (BitVec 32) 32) (hn : n < 1024) :
    bankBit bank n = .ok (if bank.bit n then 1 else 0) := by
  rw [bankBit, bank.get_ok 0 (by omega)]
  simp only [Checked.ok_bind, FixedArray.shiftRight_and_one]
  rfl

theorem getGroup_eq (hn : n < 1024) : d.getGroup n = .ok (d.group.bit n).toNat := by
  rw [getGroup, bankBit_eq _ hn]
  cases d.group.bit n <;> rfl

theorem getEnable_eq (hn : n < 1024) : d.getEnable n = .ok (d.enable.bit n) := by
  rw [getEnable, bankBit_eq _ hn]
  cases d.enable.bit n <;> rfl

theorem getPending_eq (hn : n < 1024) : d.getPending n = .ok (d.pending.bit n) := by
  rw [getPending, bankBit_eq _ hn]
  cases d.pending.bit n <;> rfl

theorem getGroupModifier_eq (hn : n < 1024) :
    d.getGroupModifier n = .ok (d.groupModifier.bit n).toNat := by
  rw [getGroupModifier, bankBit_eq _ hn]
  cases d.groupModifier.bit n <;> rfl

/-- The priority byte of an interrupt. -/
def priorityOf (d : GicDistributorMmio) (n : ℕ) : ℕ :=
  (((d.priority.getD (n / 4) 0) >>> (n % 4 * 8)) &&& 0xFF).toNat

theorem getPriority_eq (hn : n < 1020) : d.getPriority n = .ok (d.priorityOf n) := by
  rw [getPriority, d.priority.get_ok 0 (by omega)]
  rfl

theorem priorityOf_eq_field (m : ℕ) : d.priorityOf m =
    (PackedFields.field 8 (d.priority.getD (m / 4) 0) (m % 4)).toNat := by
  have hmask := PackedFields.shiftRight_and_mask (w := 8) (d.priority.getD (m / 4) 0) (m % 4)
  have hnat := congrArg BitVec.toNat hmask
  rw [BitVec.toNat_setWidth_of_le (by decide)] at hnat
  exact hnat

theorem getPriority_out (hn : ¬ n < 1020) : d.getPriority n = .error .indexOutOfRange := by
  have hword : ¬ n / 4 < 255 := by omega
  simp [getPriority, FixedArray.get, hword]

theorem getRouter_eq (hn : n < 1020) : d.getRouter n = .ok (d.router.getD n 0) :=
  d.router.get_ok 0 hn

end Getters

/-- The distributor with one more interrupt recorded as pending. -/
def record (d : GicDistributorMmio) (n : ℕ) : GicDistributorMmio :=
  { d with pending :=
      d.pending.put (n / 32) (d.pending.getD (n / 32) 0 ||| (1 : BitVec 32) <<< (n % 32)) }

theorem changePendingStatus_true (d : GicDistributorMmio) {n : ℕ} (hn : n < 1024) :
    d.changePendingStatus n true = .ok (d.record n) := by
  simp only [changePendingStatus, changeBank, if_true]
  rw [d.pending.modify_ok _ 0 (by omega)]
  rfl

theorem record_pending (d : GicDistributorMmio) {n : ℕ} (hn : n < 1024) (m : ℕ) :
    (d.record n).pending.bit m = (d.pending.bit m || decide (m = n)) :=
  d.pending.bit_set (by omega) m

/-- Recording an interrupt that is recorded already changes nothing. -/
theorem record_of_pending (d : GicDistributorMmio) {n : ℕ} (h : d.pending.bit n = true) :
    d.record n = d := by
  have hword : d.pending.getD (n / 32) 0 ||| (1 : BitVec 32) <<< (n % 32) =
      d.pending.getD (n / 32) 0 := by
    apply BitVec.eq_of_getLsbD_eq
    intro i _
    rw [BitVec.getLsbD_or, FixedArray.getLsbD_one_shiftLeft _ _ (Nat.mod_lt _ (by decide))]
    by_cases hi : i = n % 32
    · have hset : (d.pending.getD (n / 32) 0).getLsbD i = true := hi ▸ h
      rw [hset, Bool.true_or]
    · simp [hi]
  rw [record, hword, FixedArray.put_getD]

/-- The last part of `trigger_interrupt`: a list register entry is handed to the
CPU that the router names. -/
def deliver (d : GicDistributorMmio) (c : CpuInterface) (n : ℕ) (physicalIntId : Option ℕ) :
    Except Panic (GicDistributorMmio × CpuInterface) :=
  let entry := createListRegisterEntry n (d.group.bit n).toNat (d.priorityOf n) physicalIntId
  if d.ctlr &&& gicdCtlrAreS = 0 then .ok (d, c)
  else if SameAffinity (d.router.getD n 0) c.mpidrEl1 then .ok (d, addVirtualInterrupt c entry)
  else do
    return ({ d with toInjectInterrupt := d.toInjectInterrupt ++ [entry] },
      ← sendSgi c (d.router.getD n 0))

/-- `trigger_interrupt`, read through the banks. -/
theorem triggerInterrupt_eq (d : GicDistributorMmio) (c : CpuInterface) {n : ℕ} (hn : n < 1024)
    (physicalIntId : Option ℕ) :
    d.triggerInterrupt c n physicalIntId =
      if d.ctlr &&& gicdCtlrEnableGrp1ns = 0 then .ok (d, c)
      else if d.enable.bit n = false ∨ d.groupModifier.bit n = true then .ok (d.record n, c)
      else if n < 1020 then (d.record n).deliver c n physicalIntId
      else .error .indexOutOfRange := by
  unfold triggerInterrupt
  by_cases hctlr : d.ctlr &&& gicdCtlrEnableGrp1ns = 0
  · rw [if_pos hctlr, if_pos hctlr]
    rfl
  rw [if_neg hctlr, if_neg hctlr, changePendingStatus_true d hn]
  simp only [Checked.ok_bind, getEnable_eq _ hn, getGroupModifier_eq _ hn, getGroup_eq _ hn]
  simp only [record]
  by_cases hoff : d.enable.bit n = false
  · simp [hoff]
  by_cases hmod : d.groupModifier.bit n = true
  · simp [hoff, hmod]
  have hidle : ¬ (d.enable.bit n = false ∨ d.groupModifier.bit n = true) := by simp [hoff, hmod]
  rw [if_neg hidle]
  by_cases hid : n < 1020
  · rw [getPriority_eq _ hid, getRouter_eq _ hid, if_pos hid]
    simp [hoff, hmod]
    rfl
  · simp [hoff, hmod, hid, getPriority_out _ hid]

/-! ## When triggering aborts, and what it leaves -/

/-- Handing the interrupt to the CPU its router names does not abort: it has a
priority and a router, and another CPU is reached by a target list. -/
def DeliverySafe (d : GicDistributorMmio) (c : CpuInterface) (n : ℕ) : Prop :=
  d.ctlr &&& gicdCtlrEnableGrp1ns ≠ 0 → d.groupModifier.bit n = false →
    n < 1020 ∧ (d.ctlr &&& gicdCtlrAreS ≠ 0 →
      SameAffinity (d.router.getD n 0) c.mpidrEl1 ∨ aff0 (d.router.getD n 0) < 16)

instance (d : GicDistributorMmio) (c : CpuInterface) (n : ℕ) : Decidable (DeliverySafe d c n) :=
  inferInstanceAs (Decidable (_ → _ → _ ∧ (_ → _ ∨ _)))

theorem deliver_ok_iff (d : GicDistributorMmio) (c : CpuInterface) (n : ℕ)
    (physicalIntId : Option ℕ) :
    (∃ x, d.deliver c n physicalIntId = .ok x) ↔ (d.ctlr &&& gicdCtlrAreS ≠ 0 →
      SameAffinity (d.router.getD n 0) c.mpidrEl1 ∨ aff0 (d.router.getD n 0) < 16) := by
  simp only [deliver]
  by_cases hare : d.ctlr &&& gicdCtlrAreS = 0
  · rw [if_pos hare]
    exact ⟨fun _ hne => absurd hare hne, fun _ => ⟨_, rfl⟩⟩
  rw [if_neg hare]
  by_cases hsame : SameAffinity (d.router.getD n 0) c.mpidrEl1
  · rw [if_pos hsame]
    exact ⟨fun _ _ => .inl hsame, fun _ => ⟨_, rfl⟩⟩
  rw [if_neg hsame]
  by_cases haff : aff0 (d.router.getD n 0) < 16
  · rw [sendSgi, if_pos haff]
    exact ⟨fun _ _ => .inr haff, fun _ => ⟨_, rfl⟩⟩
  · rw [sendSgi, if_neg haff]
    refine ⟨fun h => ?_, fun h => ((h hare).elim hsame haff).elim⟩
    obtain ⟨x, hx⟩ := h
    cases hx

theorem triggerInterrupt_ok_iff (d : GicDistributorMmio) (c : CpuInterface) {n : ℕ}
    (hn : n < 1024) (physicalIntId : Option ℕ) :
    (∃ x, d.triggerInterrupt c n physicalIntId = .ok x) ↔
      (d.enable.bit n = true → d.DeliverySafe c n) := by
  rw [triggerInterrupt_eq d c hn]
  by_cases hctlr : d.ctlr &&& gicdCtlrEnableGrp1ns = 0
  · simp [hctlr, DeliverySafe]
  by_cases hidle : d.enable.bit n = false ∨ d.groupModifier.bit n = true
  · rw [if_neg hctlr, if_pos hidle]
    refine ⟨fun _ henable _ hmod => ?_, fun _ => ⟨_, rfl⟩⟩
    simp [henable, hmod] at hidle
  rw [if_neg hctlr, if_neg hidle]
  obtain ⟨henable, hmod⟩ : d.enable.bit n = true ∧ d.groupModifier.bit n = false := by
    simpa using hidle
  by_cases hid : n < 1020
  · rw [if_pos hid, deliver_ok_iff]
    simp only [DeliverySafe, henable, hmod, hid, true_and, forall_const, ne_eq, hctlr,
      not_false_eq_true]
    rfl
  · rw [if_neg hid]
    refine ⟨fun h => ?_, fun h => absurd (h henable hctlr hmod).1 hid⟩
    obtain ⟨x, hx⟩ := h
    cases hx

/-- Nothing but the queue of the distributor and the registers of the CPU it
runs on may differ. -/
structure Requeued (d : GicDistributorMmio) (c : CpuInterface) (d' : GicDistributorMmio)
    (c' : CpuInterface) : Prop where
  registers : d' = { d with toInjectInterrupt := d'.toInjectInterrupt }
  mpidr : c'.mpidrEl1 = c.mpidrEl1

theorem Requeued.refl (d : GicDistributorMmio) (c : CpuInterface) : Requeued d c d c := ⟨rfl, rfl⟩

theorem Requeued.trans {d₁ d₂ d₃ : GicDistributorMmio} {c₁ c₂ c₃ : CpuInterface}
    (h : Requeued d₁ c₁ d₂ c₂) (h' : Requeued d₂ c₂ d₃ c₃) : Requeued d₁ c₁ d₃ c₃ := by
  refine ⟨?_, h'.mpidr.trans h.mpidr⟩
  rw [h'.registers, h.registers]

/-- The conditions of a delivery are about registers, not about the queue. -/
theorem Requeued.deliverySafe {d d' : GicDistributorMmio} {c c' : CpuInterface}
    (h : Requeued d c d' c') (n : ℕ) : d'.DeliverySafe c' n ↔ d.DeliverySafe c n := by
  rw [h.registers, DeliverySafe, DeliverySafe, h.mpidr]

theorem addVirtualInterrupt_mpidr (c : CpuInterface) (entry : BitVec 64) :
    (addVirtualInterrupt c entry).mpidrEl1 = c.mpidrEl1 := by
  have hadd := addVirtualInterrupt_spec c entry
  generalize addVirtualInterrupt c entry = c' at hadd
  cases hadd <;> rfl

theorem deliver_requeued {d d' : GicDistributorMmio} {c c' : CpuInterface} {n : ℕ}
    {physicalIntId : Option ℕ} (h : d.deliver c n physicalIntId = .ok (d', c')) :
    Requeued d c d' c' := by
  simp only [deliver] at h
  split_ifs at h with hare hsame
  · cases h
    exact Requeued.refl d c
  · cases h
    exact ⟨rfl, addVirtualInterrupt_mpidr c _⟩
  · obtain ⟨c₁, hsgi, hpair⟩ := Checked.bind_eq_ok.mp h
    cases hpair
    unfold sendSgi at hsgi
    split_ifs at hsgi
    cases hsgi
    exact ⟨rfl, rfl⟩

/-- A trigger records the interrupt, if the distributor is enabled, and hands it over. -/
theorem triggerInterrupt_requeued {d d' : GicDistributorMmio} {c c' : CpuInterface} {n : ℕ}
    (hn : n < 1024) {physicalIntId : Option ℕ}
    (h : d.triggerInterrupt c n physicalIntId = .ok (d', c')) :
    Requeued (if d.ctlr &&& gicdCtlrEnableGrp1ns = 0 then d else d.record n) c d' c' := by
  rw [triggerInterrupt_eq d c hn] at h
  split_ifs at h ⊢ with hctlr hidle hid
  · cases h
    exact Requeued.refl d c
  · cases h
    exact Requeued.refl _ c
  · exact deliver_requeued h

/-- An interrupt that is pending already is only handed over. -/
theorem triggerInterrupt_of_pending {d d' : GicDistributorMmio} {c c' : CpuInterface} {n : ℕ}
    (hn : n < 1024) (hpending : d.pending.bit n = true) {physicalIntId : Option ℕ}
    (h : d.triggerInterrupt c n physicalIntId = .ok (d', c')) : Requeued d c d' c' := by
  have hre := triggerInterrupt_requeued hn h
  rwa [record_of_pending d hpending, ite_self] at hre

/-! ## The loop over the bits of a value -/

/-- A test of the loop that reads one bit of the registers. -/
structure Tests (ready : GicDistributorMmio → ℕ → Except Panic Bool)
    (bit : GicDistributorMmio → ℕ → Bool) : Prop where
  eq : ∀ d n, n < 1024 → ready d n = .ok (bit d n)
  queue : ∀ d q n, bit { d with toInjectInterrupt := q } n = bit d n

theorem tests_getPending : Tests getPending fun d n => d.pending.bit n :=
  ⟨fun d _ hn => getPending_eq d hn, fun _ _ _ => rfl⟩

theorem tests_getEnable : Tests getEnable fun d n => d.enable.bit n :=
  ⟨fun d _ hn => getEnable_eq d hn, fun _ _ _ => rfl⟩

/-- The interrupts of the bits of a value, from an identifier on, exist, and
those that the loop triggers are pending. -/
def Recorded (bit : GicDistributorMmio → ℕ → Bool) (d : GicDistributorMmio) (intId : ℕ)
    (value : BitVec 64) : Prop :=
  ∀ i, value.getLsbD i = true →
    intId + i < 1024 ∧ (bit d (intId + i) = true → d.pending.bit (intId + i) = true)

theorem Recorded.shift {bit : GicDistributorMmio → ℕ → Bool} {d d' : GicDistributorMmio}
    {c c' : CpuInterface} {ready : GicDistributorMmio → ℕ → Except Panic Bool} {intId : ℕ}
    {value : BitVec 64} (h : Recorded bit d intId value) (htest : Tests ready bit)
    (hre : Requeued d c d' c') : Recorded bit d' (intId + 1) (value >>> 1) := by
  intro i hi
  rw [BitVec.getLsbD_ushiftRight] at hi
  have hbit := h (1 + i) hi
  rw [show intId + 1 + i = intId + (1 + i) by omega, hre.registers, htest.queue]
  exact hbit

/-- One round: what is tested is triggered, or nothing happens. -/
theorem triggerBit_requeued {ready : GicDistributorMmio → ℕ → Except Panic Bool}
    {bit : GicDistributorMmio → ℕ → Bool} (htest : Tests ready bit) {intId : ℕ}
    {value : BitVec 64} {d d' : GicDistributorMmio} {c c' : CpuInterface}
    (hrec : Recorded bit d intId value)
    (h : triggerBit ready intId value d c = .ok (d', c')) : Requeued d c d' c' := by
  unfold triggerBit at h
  split_ifs at h with hlow
  · have hset : value.getLsbD 0 = true := (FixedArray.and_one_ne_zero value).mp hlow
    obtain ⟨hn, hpending⟩ := hrec 0 hset
    rw [Nat.add_zero] at hn hpending
    rw [htest.eq d intId hn] at h
    cases hbit : bit d intId with
    | false =>
      rw [hbit] at h
      cases h
      exact Requeued.refl d c
    | true =>
      rw [hbit] at h
      exact triggerInterrupt_of_pending hn (hpending hbit) h
  · cases h
    exact Requeued.refl d c

theorem triggerBit_ok_iff {ready : GicDistributorMmio → ℕ → Except Panic Bool}
    {bit : GicDistributorMmio → ℕ → Bool} (htest : Tests ready bit) {intId : ℕ}
    {value : BitVec 64} {d : GicDistributorMmio} (c : CpuInterface)
    (hrec : Recorded bit d intId value) :
    (∃ x, triggerBit ready intId value d c = .ok x) ↔
      (value.getLsbD 0 = true → bit d intId = true → d.enable.bit intId = true →
        d.DeliverySafe c intId) := by
  unfold triggerBit
  by_cases hlow : value &&& 1 ≠ 0
  · have hset : value.getLsbD 0 = true := (FixedArray.and_one_ne_zero value).mp hlow
    have hn : intId < 1024 := (hrec 0 hset).1
    rw [if_pos hlow, htest.eq d intId hn]
    cases hbit : bit d intId with
    | false => simp
    | true =>
      simp only [Checked.ok_bind, if_true, hset, forall_const]
      exact triggerInterrupt_ok_iff d c hn none
  · have hset : value.getLsbD 0 = false := by
      rw [← Bool.not_eq_true]
      exact fun h => hlow ((FixedArray.and_one_ne_zero value).mpr h)
    rw [if_neg hlow, hset]
    simp

/-- The loop hands interrupts over and changes nothing else. -/
theorem triggerBits_requeued {ready : GicDistributorMmio → ℕ → Except Panic Bool}
    {bit : GicDistributorMmio → ℕ → Bool} (htest : Tests ready bit) {k intId : ℕ}
    {value : BitVec 64} {d d' : GicDistributorMmio} {c c' : CpuInterface}
    (hrec : Recorded bit d intId value)
    (h : triggerBits ready k intId value d c = .ok (d', c')) : Requeued d c d' c' := by
  induction k generalizing intId value d c with
  | zero =>
    cases h
    exact Requeued.refl _ _
  | succ k ih =>
    rw [triggerBits] at h
    split_ifs at h with hzero
    · cases h
      exact Requeued.refl _ _
    · obtain ⟨⟨d₁, c₁⟩, hfirst, hrest⟩ := Checked.bind_eq_ok.mp h
      have hre := triggerBit_requeued htest hrec hfirst
      exact hre.trans (ih (hrec.shift htest hre) hrest)

/-- The loop returns exactly when every interrupt that it hands over can be. -/
theorem triggerBits_ok_iff {ready : GicDistributorMmio → ℕ → Except Panic Bool}
    {bit : GicDistributorMmio → ℕ → Bool} (htest : Tests ready bit) {k intId : ℕ}
    {value : BitVec 64} {d : GicDistributorMmio} {c : CpuInterface}
    (hrec : Recorded bit d intId value) (hfuel : ∀ i, value.getLsbD i = true → i < k) :
    (∃ x, triggerBits ready k intId value d c = .ok x) ↔
      ∀ i, value.getLsbD i = true → bit d (intId + i) = true →
        d.enable.bit (intId + i) = true → d.DeliverySafe c (intId + i) := by
  induction k generalizing intId value d c with
  | zero =>
    refine ⟨fun _ i hi => absurd (hfuel i hi) (Nat.not_lt_zero i), fun _ => ⟨_, rfl⟩⟩
  | succ k ih =>
    rw [triggerBits]
    split_ifs with hzero
    · subst hzero
      simp
    have hround := triggerBit_ok_iff htest c hrec
    -- The first round decides bit 0, the induction hypothesis the bits above it.
    constructor
    · rintro ⟨x, hx⟩ i hi
      obtain ⟨⟨d₁, c₁⟩, hfirst, hrest⟩ := Checked.bind_eq_ok.mp hx
      have hre := triggerBit_requeued htest hrec hfirst
      have hlater := (ih (hrec.shift htest hre) (fun j hj => by
        rw [BitVec.getLsbD_ushiftRight] at hj
        have := hfuel _ hj
        omega)).mp ⟨x, hrest⟩
      cases i with
      | zero => exact hround.mp ⟨_, hfirst⟩ hi
      | succ i =>
        have hshift := hlater i (by rw [BitVec.getLsbD_ushiftRight, Nat.add_comm]; exact hi)
        rw [hre.deliverySafe, hre.registers, htest.queue,
          show intId + 1 + i = intId + (i + 1) by omega] at hshift
        exact hshift
    · intro hall
      obtain ⟨⟨d₁, c₁⟩, hfirst⟩ := hround.mpr (hall 0)
      have hre := triggerBit_requeued htest hrec hfirst
      rw [hfirst]
      refine (ih (hrec.shift htest hre) (fun j hj => ?_)).mpr fun i hi => ?_
      · rw [BitVec.getLsbD_ushiftRight] at hj
        have := hfuel _ hj
        omega
      · rw [BitVec.getLsbD_ushiftRight, Nat.add_comm] at hi
        rw [hre.deliverySafe, hre.registers, htest.queue,
          show intId + 1 + i = intId + (i + 1) by omega]
        exact hall (i + 1) hi

end GicDistributorMmio

end Min1visor.Gicv3Mmio
