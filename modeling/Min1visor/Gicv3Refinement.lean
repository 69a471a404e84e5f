import Min1visor.Gicv3Safety
import Min1visor.VgicHandover

/-!
# The distributor as one state machine for each interrupt

What the distributor is for: every interrupt has its own enable, pending, active,
group, priority and configuration, and an operation changes these only for the
interrupts it names. The banks and packings of the emulator, the two aliases of a
bank and the triggers inside its loops refine this machine.
-/
namespace Min1visor.Gicv3Refinement
open Vgicv3 Gicv3Mmio

/-- The state of one interrupt. -/
@[ext] structure Interrupt where
  enable : Bool
  pending : Bool
  active : Bool
  group : Bool
  priority : BitVec 8
  configuration : BitVec 2

/-- The abstract distributor. -/
@[ext] structure Machine where
  enabled : Bool
  interrupt : ℕ → Interrupt

/-- The operations: writes of a register by its index, a byte write of the priority
of one interrupt, and the calls from inside the hypervisor. -/
inductive Op
  | ctlr (value : BitVec 32)
  | igroupr (i : Fin 32) (value : BitVec 32)
  | isenabler (i : Fin 32) (value : BitVec 32)
  | icenabler (i : Fin 32) (value : BitVec 32)
  | ispendr (i : Fin 32) (value : BitVec 32)
  | icpendr (i : Fin 32) (value : BitVec 32)
  | isactiver (i : Fin 32) (value : BitVec 32)
  | icactiver (i : Fin 32) (value : BitVec 32)
  | ipriorityr (i : Fin 255) (value : BitVec 32)
  | ipriorityrByte (n : Fin 1020) (value : BitVec 8)
  | icfgr (i : Fin 64) (value : BitVec 32)
  | trigger (n : Fin 1020) (physicalIntId : Option ℕ)
  | changePending (n : Fin 1020) (isPending : Bool)
  | changeActive (n : Fin 1020) (isActive : Bool)

/-! ## The abstract machine -/

namespace Machine

def initial : Machine := ⟨false, fun _ => ⟨false, false, false, false, 0, 0⟩⟩

/-- Change the interrupts that are named. -/
def update (a : Machine) (named : ℕ → Prop) [DecidablePred named]
    (f : ℕ → Interrupt → Interrupt) : Machine :=
  { a with interrupt := fun n => if named n then f n (a.interrupt n) else a.interrupt n }

/-- The interrupts of the bits of a one-bit register. -/
def Named (i : ℕ) (value : BitVec 32) (n : ℕ) : Prop :=
  n / 32 = i ∧ value.getLsbD (n % 32) = true

instance (i : ℕ) (value : BitVec 32) : DecidablePred (Named i value) := fun _ =>
  inferInstanceAs (Decidable (_ ∧ _))

def step (a : Machine) : Op → Machine
  | .ctlr value => { a with enabled := value.getLsbD 1 }
  | .igroupr i value => a.update (fun n => n / 32 = i)
      fun n irq => { irq with group := value.getLsbD (n % 32) }
  | .isenabler i value => a.update (Named i value) fun _ irq => { irq with enable := true }
  | .icenabler i value => a.update (Named i value) fun _ irq => { irq with enable := false }
  | .ispendr i value => a.update (Named i value) fun _ irq => { irq with pending := true }
  | .icpendr i value => a.update (Named i value) fun _ irq => { irq with pending := false }
  | .isactiver i value => a.update (Named i value) fun _ irq => { irq with active := true }
  | .icactiver i value => a.update (Named i value) fun _ irq => { irq with active := false }
  | .ipriorityr i value => a.update (fun n => n / 4 = i)
      fun n irq => { irq with priority := PackedFields.field 8 value (n % 4) }
  | .ipriorityrByte m value => a.update (· = m) fun _ irq => { irq with priority := value }
  | .icfgr i value => a.update (fun n => n / 16 = i)
      fun n irq => { irq with configuration := PackedFields.field 2 value (n % 16) }
  | .trigger m _ => a.update (fun n => a.enabled = true ∧ n = m)
      fun _ irq => { irq with pending := true }
  | .changePending m isPending => a.update (· = m) fun _ irq => { irq with pending := isPending }
  | .changeActive m isActive => a.update (· = m) fun _ irq => { irq with active := isActive }

end Machine

/-! ## The distributor of the source -/

/-- One operation on the emulated distributor, on some CPU. -/
def exec (d : GicDistributorMmio) (c : CpuInterface) :
    Op → Except Panic (GicDistributorMmio × CpuInterface)
  | .ctlr value => d.write c gicdCtlr 32 (value.setWidth 64)
  | .igroupr i value => d.write c (gicdIgroupr0 + 4 * i) 32 (value.setWidth 64)
  | .isenabler i value => d.write c (gicdIsenabler0 + 4 * i) 32 (value.setWidth 64)
  | .icenabler i value => d.write c (gicdIcenabler0 + 4 * i) 32 (value.setWidth 64)
  | .ispendr i value => d.write c (gicdIspendr0 + 4 * i) 32 (value.setWidth 64)
  | .icpendr i value => d.write c (gicdIcpendr0 + 4 * i) 32 (value.setWidth 64)
  | .isactiver i value => d.write c (gicdIsactiver0 + 4 * i) 32 (value.setWidth 64)
  | .icactiver i value => d.write c (gicdIcactiver0 + 4 * i) 32 (value.setWidth 64)
  | .ipriorityr i value => d.write c (gicdIpriorityr0 + 4 * i) 32 (value.setWidth 64)
  | .ipriorityrByte n value => d.write c (gicdIpriorityr0 + n) 8 (value.setWidth 64)
  | .icfgr i value => d.write c (gicdIcfgr0 + 4 * i) 32 (value.setWidth 64)
  | .trigger n physicalIntId => d.triggerInterrupt c n physicalIntId
  | .changePending n isPending => do return (← d.changePendingStatus n isPending, c)
  | .changeActive n isActive => do return (← d.changeActiveStatus n isActive, c)

/-- A step of a run; the CPU the operation runs on is part of the event. -/
def step (d : GicDistributorMmio) (event : CpuInterface × Op) : Except Panic GicDistributorMmio :=
  do return (← exec d event.1 event.2).1

/-- The abstract machine that a distributor stands for. -/
def abstract (d : GicDistributorMmio) : Machine where
  enabled := d.ctlr.getLsbD 1
  interrupt n :=
    { enable := d.enable.bit n
      pending := d.pending.bit n
      active := d.active.bit n
      group := d.group.bit n
      priority := PackedFields.field 8 (d.priority.getD (n / 4) 0) (n % 4)
      configuration := PackedFields.field 2 (d.configuration.getD (n / 16) 0) (n % 16) }

/-! ## The simulation -/

theorem window_register {first last size i : ℕ} (hlast : first + 4 * size ≤ last + 4) (hi : i < size) :
    GicDistributorMmio.inWindow (first + 4 * i) first last ∧
      (first + 4 * i - first) / 4 = i := by
  constructor
  · constructor <;> omega
  · omega

theorem getLsbD_value (value : BitVec 32) (n : ℕ) :
    (value.setWidth 64).getLsbD (n % 32) = value.getLsbD (n % 32) := by
  have hlt : n % 32 < 64 := by omega
  rw [BitVec.getLsbD_setWidth]
  simp [hlt]

theorem enabled_iff (ctlr : BitVec 32) :
    ctlr &&& gicdCtlrEnableGrp1ns = 0 ↔ ctlr.getLsbD 1 = false := by
  have hmask : gicdCtlrEnableGrp1ns = (1 : BitVec 32) <<< 1 := by decide
  rw [hmask]
  constructor
  · intro h
    have hbit := congrArg (fun x => x.getLsbD 1) h
    simpa using hbit
  · intro h
    apply BitVec.eq_of_getLsbD_eq
    intro i _
    rw [BitVec.getLsbD_and, FixedArray.getLsbD_one_shiftLeft 1 i (by decide)]
    by_cases hone : i = 1
    · rw [hone, h, Bool.false_and]
      rfl
    · simp [hone]

/-- The bits of a bank after those of a register were set. -/
theorem bit_set_named (bank : FixedArray (BitVec 32) 32) (i : Fin 32) (value : BitVec 32) (n : ℕ) :
    (bank.put i (bank.getD i 0 ||| (value.setWidth 64).setWidth 32)).bit n =
      if Machine.Named i value n then true else bank.bit n := by
  rw [GicDistributorMmio.bit_or bank _ i.isLt, getLsbD_value]
  by_cases hname : Machine.Named i value n
  · simp [hname.1, hname.2, if_pos hname]
  · rw [if_neg hname]
    by_cases hword : n / 32 = i
    · have hclear : value.getLsbD (n % 32) = false := by simpa [Machine.Named, hword] using hname
      simp [hclear]
    · simp [hword]

theorem bit_clear_named (bank : FixedArray (BitVec 32) 32) (i : Fin 32) (value : BitVec 32) (n : ℕ) :
    (bank.put i (bank.getD i 0 &&& ~~~(value.setWidth 64).setWidth 32)).bit n =
      if Machine.Named i value n then false else bank.bit n := by
  rw [GicDistributorMmio.bit_and_not bank _ i.isLt, getLsbD_value]
  by_cases hname : Machine.Named i value n
  · simp [hname.1, hname.2, if_pos hname]
  · rw [if_neg hname]
    by_cases hword : n / 32 = i
    · have hclear : value.getLsbD (n % 32) = false := by simpa [Machine.Named, hword] using hname
      simp [hclear]
    · simp [hword]

/-- A field after its whole word was rewritten. -/
theorem field_word {w size per : ℕ} (a : FixedArray (BitVec 32) size) (i : Fin size)
    (value : BitVec 32) (n : ℕ) :
    PackedFields.field w ((a.put i value).getD (n / per) 0) (n % per) =
      if n / per = i then PackedFields.field w value (n % per)
      else PackedFields.field w (a.getD (n / per) 0) (n % per) := by
  rw [FixedArray.getD_put a _ _ _ _ i.isLt]
  split_ifs <;> rfl

/-- The byte write of the source is the replacement of a packed field. -/
theorem setPriorityByte_eq (word : BitVec 32) {k : ℕ} (value : BitVec 8) :
    GicDistributorMmio.setPriorityByte word (k * 8) (value.setWidth 64) =
      PackedFields.replace word k value := by
  have hshift : ((value.setWidth 64) <<< (k * 8)).setWidth 32 = value.setWidth 32 <<< (k * 8) := by
    apply BitVec.eq_of_getLsbD_eq
    intro i hi
    simp [hi]
  rw [GicDistributorMmio.setPriorityByte, hshift]
  rfl

/-- A step that changes the interrupts it names, and not whether the distributor
is enabled. -/
theorem abstract_update {d d' : GicDistributorMmio} {named : ℕ → Prop} [DecidablePred named]
    {f : ℕ → Interrupt → Interrupt} (hctlr : d'.ctlr = d.ctlr)
    (hnamed : ∀ n, named n → (abstract d').interrupt n = f n ((abstract d).interrupt n))
    (hother : ∀ n, ¬ named n → (abstract d').interrupt n = (abstract d).interrupt n) :
    abstract d' = (abstract d).update named f := by
  apply Machine.ext
  · simp only [abstract, Machine.update, hctlr]
  · funext n
    simp only [Machine.update]
    by_cases hname : named n
    · rw [if_pos hname]
      exact hnamed n hname
    · rw [if_neg hname]
      exact hother n hname

section Steps
variable {d d' : GicDistributorMmio} {c c' : CpuInterface} {i : Fin 32} {value : BitVec 32}

theorem abstract_ctlr (h : exec d c (.ctlr value) = .ok (d', c')) :
    abstract d' = (abstract d).step (.ctlr value) := by
  cases (d.write_ctlr c _).symm.trans h
  simp [abstract, Machine.step]

theorem abstract_igroupr (h : exec d c (.igroupr i value) = .ok (d', c')) :
    abstract d' = (abstract d).step (.igroupr i value) := by
  obtain ⟨hw, hi⟩ := window_register (show gicdIgroupr0 + 4 * 32 ≤ gicdIgroupr31 + 4 by decide) i.isLt
  have hwrite := d.write_igroupr c (value.setWidth 64) hw
  rw [hi] at hwrite
  cases hwrite.symm.trans h
  rw [Machine.step]
  apply abstract_update
  · rfl
  · intro n hname
    simp [abstract, FixedArray.bit_put _ _ i.isLt, hname]
  · intro n hname
    simp [abstract, FixedArray.bit_put _ _ i.isLt, hname]

theorem abstract_isenabler (h : exec d c (.isenabler i value) = .ok (d', c')) :
    abstract d' = (abstract d).step (.isenabler i value) := by
  obtain ⟨hw, hi⟩ :=
    window_register (show gicdIsenabler0 + 4 * 32 ≤ gicdIsenabler31 + 4 by decide) i.isLt
  have hre := GicDistributorMmio.write_isenabler_requeued (toNat_setWidth_lt value) hw h
  rw [hi] at hre
  rw [hre.registers]
  rw [Machine.step]
  apply abstract_update
  · rfl
  · intro n hname
    simp only [abstract, GicDistributorMmio.enableBits, bit_set_named, if_pos hname]
  · intro n hname
    simp only [abstract, GicDistributorMmio.enableBits, bit_set_named, if_neg hname]

theorem abstract_icenabler (h : exec d c (.icenabler i value) = .ok (d', c')) :
    abstract d' = (abstract d).step (.icenabler i value) := by
  obtain ⟨hw, hi⟩ :=
    window_register (show gicdIcenabler0 + 4 * 32 ≤ gicdIcenabler31 + 4 by decide) i.isLt
  have hwrite := d.write_icenabler c (value.setWidth 64) hw
  rw [hi] at hwrite
  cases hwrite.symm.trans h
  rw [Machine.step]
  apply abstract_update
  · rfl
  · intro n hname
    simp only [abstract, bit_clear_named, if_pos hname]
  · intro n hname
    simp only [abstract, bit_clear_named, if_neg hname]

theorem abstract_ispendr (h : exec d c (.ispendr i value) = .ok (d', c')) :
    abstract d' = (abstract d).step (.ispendr i value) := by
  obtain ⟨hw, hi⟩ :=
    window_register (show gicdIspendr0 + 4 * 32 ≤ gicdIspendr31 + 4 by decide) i.isLt
  have hre := GicDistributorMmio.write_ispendr_requeued (toNat_setWidth_lt value) hw h
  rw [hi] at hre
  rw [hre.registers]
  rw [Machine.step]
  apply abstract_update
  · rfl
  · intro n hname
    simp only [abstract, GicDistributorMmio.pendBits, bit_set_named, if_pos hname]
  · intro n hname
    simp only [abstract, GicDistributorMmio.pendBits, bit_set_named, if_neg hname]

theorem abstract_icpendr (h : exec d c (.icpendr i value) = .ok (d', c')) :
    abstract d' = (abstract d).step (.icpendr i value) := by
  obtain ⟨hw, hi⟩ :=
    window_register (show gicdIcpendr0 + 4 * 32 ≤ gicdIcpendr31 + 4 by decide) i.isLt
  have hwrite := d.write_icpendr c (value.setWidth 64) hw
  rw [hi] at hwrite
  cases hwrite.symm.trans h
  rw [Machine.step]
  apply abstract_update
  · rfl
  · intro n hname
    simp only [abstract, bit_clear_named, if_pos hname]
  · intro n hname
    simp only [abstract, bit_clear_named, if_neg hname]

theorem abstract_isactiver (h : exec d c (.isactiver i value) = .ok (d', c')) :
    abstract d' = (abstract d).step (.isactiver i value) := by
  obtain ⟨hw, hi⟩ :=
    window_register (show gicdIsactiver0 + 4 * 32 ≤ gicdIsactiver31 + 4 by decide) i.isLt
  have hwrite := d.write_isactiver c (value.setWidth 64) hw
  rw [hi] at hwrite
  cases hwrite.symm.trans h
  rw [Machine.step]
  apply abstract_update
  · rfl
  · intro n hname
    simp only [abstract, bit_set_named, if_pos hname]
  · intro n hname
    simp only [abstract, bit_set_named, if_neg hname]

theorem abstract_icactiver (h : exec d c (.icactiver i value) = .ok (d', c')) :
    abstract d' = (abstract d).step (.icactiver i value) := by
  obtain ⟨hw, hi⟩ :=
    window_register (show gicdIcactiver0 + 4 * 32 ≤ gicdIcactiver31 + 4 by decide) i.isLt
  have hwrite := d.write_icactiver c (value.setWidth 64) hw
  rw [hi] at hwrite
  cases hwrite.symm.trans h
  rw [Machine.step]
  apply abstract_update
  · rfl
  · intro n hname
    simp only [abstract, bit_clear_named, if_pos hname]
  · intro n hname
    simp only [abstract, bit_clear_named, if_neg hname]

theorem abstract_ipriorityr {i : Fin 255} (h : exec d c (.ipriorityr i value) = .ok (d', c')) :
    abstract d' = (abstract d).step (.ipriorityr i value) := by
  have hw : GicDistributorMmio.inWindow (gicdIpriorityr0 + 4 * i) gicdIpriorityr0
      (gicdIpriorityr254 + 3) := by
    have hlt := i.isLt
    simp only [GicDistributorMmio.inWindow, gicdIpriorityr0, gicdIpriorityr254]
    omega
  have hwrite := d.write_ipriorityr c (value.setWidth 64) 32 hw
  rw [Nat.add_sub_cancel_left, Nat.mul_mod_right, Nat.mul_div_cancel_left _ (by decide),
    if_neg (by decide), if_pos ⟨rfl, rfl⟩] at hwrite
  cases hwrite.symm.trans h
  rw [Machine.step]
  apply abstract_update
  · rfl
  · intro n hname
    simp only [abstract, field_word, if_pos hname]
    simp
  · intro n hname
    simp only [abstract, field_word, if_neg hname]

theorem abstract_ipriorityrByte {m : Fin 1020} {value : BitVec 8}
    (h : exec d c (.ipriorityrByte m value) = .ok (d', c')) :
    abstract d' = (abstract d).step (.ipriorityrByte m value) := by
  have hw : GicDistributorMmio.inWindow (gicdIpriorityr0 + m) gicdIpriorityr0
      (gicdIpriorityr254 + 3) := by
    have hlt := m.isLt
    simp only [GicDistributorMmio.inWindow, gicdIpriorityr0, gicdIpriorityr254]
    omega
  have hwrite := d.write_ipriorityr c (value.setWidth 64) 8 hw
  rw [Nat.add_sub_cancel_left, if_pos rfl, setPriorityByte_eq] at hwrite
  cases hwrite.symm.trans h
  have hlt : (m : ℕ) / 4 < 255 := by
    have := m.isLt
    omega
  have hfield := PackedFields.field_put d.priority (by decide) (by decide) hlt value
  rw [Machine.step]
  apply abstract_update
  · rfl
  · intro n hname
    simp only [abstract, hfield, if_pos hname]
  · intro n hname
    simp only [abstract, hfield, if_neg hname]

theorem abstract_icfgr {i : Fin 64} (h : exec d c (.icfgr i value) = .ok (d', c')) :
    abstract d' = (abstract d).step (.icfgr i value) := by
  obtain ⟨hw, hi⟩ := window_register (show gicdIcfgr0 + 4 * 64 ≤ gicdIcfgr63 + 4 by decide) i.isLt
  have hwrite := d.write_icfgr c (value.setWidth 64) hw
  rw [hi] at hwrite
  cases hwrite.symm.trans h
  rw [Machine.step]
  apply abstract_update
  · rfl
  · intro n hname
    simp only [abstract, field_word, if_pos hname]
    simp
  · intro n hname
    simp only [abstract, field_word, if_neg hname]

theorem abstract_trigger {m : Fin 1020} {physicalIntId : Option ℕ}
    (h : exec d c (.trigger m physicalIntId) = .ok (d', c')) :
    abstract d' = (abstract d).step (.trigger m physicalIntId) := by
  have hm : (m : ℕ) < 1024 := by
    have hlt := m.isLt
    omega
  have hre := GicDistributorMmio.triggerInterrupt_requeued hm h
  rw [hre.registers]
  have henabled : (abstract d).enabled = true ↔ ¬ d.ctlr &&& gicdCtlrEnableGrp1ns = 0 := by
    rw [enabled_iff]
    simp [abstract]
  rw [Machine.step]
  apply abstract_update
  · split_ifs <;> rfl
  · intro n hname
    rw [if_neg (henabled.mp hname.1)]
    simp only [abstract, GicDistributorMmio.record_pending d hm, hname.2]
    simp [GicDistributorMmio.record]
  · intro n hname
    by_cases hctlr : d.ctlr &&& gicdCtlrEnableGrp1ns = 0
    · rw [if_pos hctlr]
      rfl
    · have hne : n ≠ m := fun hn => hname ⟨henabled.mpr hctlr, hn⟩
      rw [if_neg hctlr]
      simp only [abstract, GicDistributorMmio.record_pending d hm]
      simp [GicDistributorMmio.record, hne]

theorem abstract_changePending {m : Fin 1020} {isPending : Bool}
    (h : exec d c (.changePending m isPending) = .ok (d', c')) :
    abstract d' = (abstract d).step (.changePending m isPending) := by
  obtain ⟨d₁, hchange, hpair⟩ := Checked.bind_eq_ok.mp h
  cases hpair
  obtain ⟨bank, hbank, hd⟩ := Checked.bind_eq_ok.mp hchange
  cases hd
  rw [Machine.step]
  apply abstract_update
  · rfl
  · intro n hname
    simp only [abstract, Vgic.changeBank_bit hbank, if_pos hname]
  · intro n hname
    simp only [abstract, Vgic.changeBank_bit hbank, if_neg hname]

theorem abstract_changeActive {m : Fin 1020} {isActive : Bool}
    (h : exec d c (.changeActive m isActive) = .ok (d', c')) :
    abstract d' = (abstract d).step (.changeActive m isActive) := by
  obtain ⟨d₁, hchange, hpair⟩ := Checked.bind_eq_ok.mp h
  cases hpair
  obtain ⟨bank, hbank, hd⟩ := Checked.bind_eq_ok.mp hchange
  cases hd
  rw [Machine.step]
  apply abstract_update
  · rfl
  · intro n hname
    simp only [abstract, Vgic.changeBank_bit hbank, if_pos hname]
  · intro n hname
    simp only [abstract, Vgic.changeBank_bit hbank, if_neg hname]

/-- One step of the simulation: an operation that returns does what the abstract
machine does. -/
theorem exec_abstract {op : Op} (h : exec d c op = .ok (d', c')) :
    abstract d' = (abstract d).step op := by
  cases op with
  | ctlr value => exact abstract_ctlr h
  | igroupr i value => exact abstract_igroupr h
  | isenabler i value => exact abstract_isenabler h
  | icenabler i value => exact abstract_icenabler h
  | ispendr i value => exact abstract_ispendr h
  | icpendr i value => exact abstract_icpendr h
  | isactiver i value => exact abstract_isactiver h
  | icactiver i value => exact abstract_icactiver h
  | ipriorityr i value => exact abstract_ipriorityr h
  | ipriorityrByte m value => exact abstract_ipriorityrByte h
  | icfgr i value => exact abstract_icfgr h
  | trigger m physicalIntId => exact abstract_trigger h
  | changePending m isPending => exact abstract_changePending h
  | changeActive m isActive => exact abstract_changeActive h

end Steps

/-- A 32-bit read returns the given bits. -/
def ReadsBits (d : GicDistributorMmio) (offset : ℕ) (bits : ℕ → Bool) : Prop :=
  ∃ word : BitVec 32, d.read offset 32 = .ok (word.setWidth 64) ∧
    ∀ k, k < 32 → word.getLsbD k = bits k

/-- What the emulator's getters and registers show of each interrupt is the state
of the abstract machine; both aliases of a bank show the same bits. -/
structure Refines (d : GicDistributorMmio) (a : Machine) : Prop where
  enable : ∀ n, n < 1020 → d.getEnable n = .ok (a.interrupt n).enable
  pending : ∀ n, n < 1020 → d.getPending n = .ok (a.interrupt n).pending
  group : ∀ n, n < 1020 → d.getGroup n = .ok (a.interrupt n).group.toNat
  priority : ∀ n, n < 1020 → d.getPriority n = .ok (a.interrupt n).priority.toNat
  active : ∀ n, n < 1020 → d.active.bit n = (a.interrupt n).active
  configuration : ∀ n, n < 1020 →
    PackedFields.field 2 (d.configuration.getD (n / 16) 0) (n % 16) = (a.interrupt n).configuration
  enableAliases : ∀ i : Fin 32,
    ReadsBits d (gicdIsenabler0 + 4 * i) (fun k => (a.interrupt (32 * i + k)).enable) ∧
      ReadsBits d (gicdIcenabler0 + 4 * i) (fun k => (a.interrupt (32 * i + k)).enable)
  pendingAliases : ∀ i : Fin 32,
    ReadsBits d (gicdIspendr0 + 4 * i) (fun k => (a.interrupt (32 * i + k)).pending) ∧
      ReadsBits d (gicdIcpendr0 + 4 * i) (fun k => (a.interrupt (32 * i + k)).pending)
  activeAliases : ∀ i : Fin 32,
    ReadsBits d (gicdIsactiver0 + 4 * i) (fun k => (a.interrupt (32 * i + k)).active) ∧
      ReadsBits d (gicdIcactiver0 + 4 * i) (fun k => (a.interrupt (32 * i + k)).active)

/-- A word of a bank, read at the offset of its register. -/
theorem readsBits_bank {d : GicDistributorMmio} (bank : FixedArray (BitVec 32) 32) {offset : ℕ}
    (i : Fin 32) (hread : d.read offset 32 = .ok ((bank.getD i 0).setWidth 64)) :
    ReadsBits d offset fun k => bank.bit (32 * i + k) := by
  refine ⟨_, hread, ?_⟩
  intro k hk
  have hdiv : (32 * (i : ℕ) + k) / 32 = i := by omega
  have hmod : (32 * (i : ℕ) + k) % 32 = k := by omega
  simp only [FixedArray.bit, hdiv, hmod]

/-- A distributor refines the machine it stands for. -/
theorem refines_abstract (d : GicDistributorMmio) : Refines d (abstract d) where
  enable n hn := d.getEnable_eq (by omega)
  pending n hn := d.getPending_eq (by omega)
  group n hn := d.getGroup_eq (by omega)
  priority n hn := by
    rw [d.getPriority_eq hn, GicDistributorMmio.priorityOf_eq_field]
    rfl
  active n hn := rfl
  configuration n hn := rfl
  enableAliases i := by
    obtain ⟨hset, hseti⟩ :=
      window_register (show gicdIsenabler0 + 4 * 32 ≤ gicdIsenabler31 + 4 by decide) i.isLt
    obtain ⟨hclear, hcleari⟩ :=
      window_register (show gicdIcenabler0 + 4 * 32 ≤ gicdIcenabler31 + 4 by decide) i.isLt
    have hsetRead := d.read_isenabler hset
    have hclearRead := d.read_icenabler hclear
    rw [hseti] at hsetRead
    rw [hcleari] at hclearRead
    exact ⟨readsBits_bank d.enable i hsetRead, readsBits_bank d.enable i hclearRead⟩
  pendingAliases i := by
    obtain ⟨hset, hseti⟩ :=
      window_register (show gicdIspendr0 + 4 * 32 ≤ gicdIspendr31 + 4 by decide) i.isLt
    obtain ⟨hclear, hcleari⟩ :=
      window_register (show gicdIcpendr0 + 4 * 32 ≤ gicdIcpendr31 + 4 by decide) i.isLt
    have hsetRead := d.read_ispendr hset
    have hclearRead := d.read_icpendr hclear
    rw [hseti] at hsetRead
    rw [hcleari] at hclearRead
    exact ⟨readsBits_bank d.pending i hsetRead, readsBits_bank d.pending i hclearRead⟩
  activeAliases i := by
    obtain ⟨hset, hseti⟩ :=
      window_register (show gicdIsactiver0 + 4 * 32 ≤ gicdIsactiver31 + 4 by decide) i.isLt
    obtain ⟨hclear, hcleari⟩ :=
      window_register (show gicdIcactiver0 + 4 * 32 ≤ gicdIcactiver31 + 4 by decide) i.isLt
    have hsetRead := d.read_isactiver hset
    have hclearRead := d.read_icactiver hclear
    rw [hseti] at hsetRead
    rw [hcleari] at hclearRead
    exact ⟨readsBits_bank d.active i hsetRead, readsBits_bank d.active i hclearRead⟩

theorem abstract_new : abstract .new = Machine.initial := by
  apply Machine.ext
  · rfl
  · funext n
    simp only [abstract, GicDistributorMmio.new, Machine.initial, FixedArray.bit_fill_zero,
      FixedArray.getD_fill, ite_self]
    apply Interrupt.ext <;> first | rfl | simp [PackedFields.field]

/-- The simulation over a whole run. -/
theorem run_abstract {events : List (CpuInterface × Op)} {d d' : GicDistributorMmio}
    (hrun : Runs.run step d events = .ok d') :
    abstract d' = events.foldl (fun a event => a.step event.2) (abstract d) := by
  induction events generalizing d with
  | nil =>
    cases hrun
    rfl
  | cons event events ih =>
    cases hstep : step d event with
    | error p => simp [Runs.run, hstep] at hrun
    | ok d₁ =>
      rw [Runs.run_cons_ok events hstep] at hrun
      obtain ⟨⟨d₂, c₂⟩, hexec, hpair⟩ := Checked.bind_eq_ok.mp hstep
      cases hpair
      rw [ih hrun, exec_abstract hexec, List.foldl_cons]

/-- After every sequence of operations that return, on any CPUs, the distributor
shows for each interrupt what the abstract machine holds after the same sequence. -/
theorem distributor_refines (events : List (CpuInterface × Op)) (d : GicDistributorMmio)
    (hrun : Runs.run step .new events = .ok d) :
    Refines d (events.foldl (fun a event => a.step event.2) Machine.initial) := by
  have habstract := run_abstract hrun
  rw [abstract_new] at habstract
  rw [← habstract]
  exact refines_abstract d

/-- The guest turns delivery on, enables interrupts 40 and 41, gives 40 a priority
and the hypervisor triggers it. -/
def sample : List (CpuInterface × Op) :=
  [(.reset 0 3, .ctlr 0x12), (.reset 0 3, .isenabler 1 0x300),
    (.reset 0 3, .ipriorityrByte 40 0xA0), (.reset 0 3, .trigger 40 none)]

theorem distributor_refines_sample :
    ∃ d, Runs.run step .new sample = .ok d ∧
      Refines d (sample.foldl (fun a event => a.step event.2) Machine.initial) := by
  obtain ⟨d, hrun⟩ : ∃ d, Runs.run step .new sample = .ok d := ⟨_, rfl⟩
  exact ⟨d, hrun, distributor_refines sample d hrun⟩

end Min1visor.Gicv3Refinement
