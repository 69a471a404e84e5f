import Min1visor.Gicv3Safety

/-!
# The driver of the GICv3 distributor on the emulated distributor

The driver computes register offsets and masks on its own, by shifts, and reaches
the device by volatile accesses of 32 and 64 bits. Here these accesses are served
by the emulated distributor, and the fields the driver sets are compared with the
fields that the emulator reads.
-/
namespace Min1visor.Gicv3Driver
open Vgicv3 Gicv3Mmio

/-- The registers of a device, as volatile accesses relative to its base. -/
structure Bus (σ : Type) where
  readRegister : σ → ℕ → Except Panic (BitVec 32)
  writeRegister : σ → ℕ → BitVec 32 → Except Panic σ
  writeRegister64 : σ → ℕ → BitVec 64 → Except Panic σ

/-- The only group the driver knows. -/
inductive GicGroup
  | nonSecureGroup1
  deriving DecidableEq

namespace GicDistributor

def gicdIgroupr : ℕ := 0x0080
def gicdIsenabler : ℕ := 0x0100
def gicdIcenabler : ℕ := 0x0180
def gicdIspendr : ℕ := 0x0200
def gicdIcpendr : ℕ := 0x0280
def gicdIpriorityr : ℕ := 0x0400
def gicdIcfgr : ℕ := 0x0C00
def gicdIgrpmodr : ℕ := 0x0D00
def gicdIrouter : ℕ := 0x6100

variable {σ : Type} (bus : Bus σ) (s : σ) (intId : ℕ)

def setPriority (priority : BitVec 8) : Except Panic σ := do
  let registerIndex := (intId >>> 2) * 4
  let registerOffset := (intId &&& 0b11) <<< 3
  let old ← bus.readRegister s (gicdIpriorityr + registerIndex)
  bus.writeRegister s (gicdIpriorityr + registerIndex)
    ((old &&& ~~~((0xFF : BitVec 32) <<< registerOffset)) |||
      (priority.setWidth 32 <<< registerOffset))

def setGroup (group : GicGroup) : Except Panic σ := do
  let registerIndex := (intId / 32) * 4
  let registerOffset := intId &&& 31
  let data : BitVec 32 := match group with
    | .nonSecureGroup1 => 1
  let old ← bus.readRegister s (gicdIgroupr + registerIndex)
  let s ← bus.writeRegister s (gicdIgroupr + registerIndex)
    ((old &&& ~~~((1 : BitVec 32) <<< registerOffset)) ||| (data <<< registerOffset))
  let data : BitVec 32 := match group with
    | .nonSecureGroup1 => 0
  let old ← bus.readRegister s (gicdIgrpmodr + registerIndex)
  bus.writeRegister s (gicdIgrpmodr + registerIndex)
    ((old &&& ~~~((1 : BitVec 32) <<< registerOffset)) ||| (data <<< registerOffset))

def setEnable (enable : Bool) : Except Panic σ :=
  let registerIndex := (intId / 32) * 4
  let registerOffset := intId &&& 31
  let register := if enable then gicdIsenabler else gicdIcenabler
  bus.writeRegister s (register + registerIndex) ((1 : BitVec 32) <<< registerOffset)

/-- Both aliases of a pending register are read, changed and written back. -/
def setPending (pending : Bool) : Except Panic σ := do
  let registerIndex := (intId / 32) * 4
  let registerOffset := intId &&& 31
  let register := if pending then gicdIspendr else gicdIcpendr
  let old ← bus.readRegister s (register + registerIndex)
  bus.writeRegister s (register + registerIndex) (old ||| ((1 : BitVec 32) <<< registerOffset))

def setTriggerMode (isLevelTrigger : Bool) : Except Panic σ := do
  let registerIndex := (intId / 16) * 4
  let registerOffset := (intId &&& 15) * 2
  let data : BitVec 32 := if isLevelTrigger then 0 else 1
  let old ← bus.readRegister s (gicdIcfgr + registerIndex)
  bus.writeRegister s (gicdIcfgr + registerIndex)
    ((old &&& ~~~((0x03 : BitVec 32) <<< registerOffset)) ||| ((data <<< 1) <<< registerOffset))

/-- Routing to any CPU is not implemented and aborts. -/
def setRouting (isRoutingMode : Bool) (mpidr : BitVec 64) : Except Panic σ :=
  if isRoutingMode then .error .explicit
  else bus.writeRegister64 s (gicdIrouter + intId * 8) (mpidrToAffinity mpidr)

end GicDistributor

/-- The volatile accesses of a driver that runs as a guest, on one CPU. -/
def emulated : Bus (GicDistributorMmio × CpuInterface) where
  readRegister s offset := do return (← s.1.read offset 32).setWidth 32
  writeRegister s offset data := s.1.write s.2 offset 32 (data.setWidth 64)
  writeRegister64 s offset data := s.1.write s.2 offset 64 data

/-! ## Calls of the driver and what they ask for -/

/-- A call of one of the setters, for some interrupt. -/
inductive Call
  | priority (priority : BitVec 8)
  | group (group : GicGroup)
  | enable (enable : Bool)
  | pending (pending : Bool)
  | triggerMode (isLevelTrigger : Bool)
  | routing (isRoutingMode : Bool) (mpidr : BitVec 64)

/-- What the emulator keeps about one interrupt. -/
inductive Field
  | priority (priority : ℕ)
  | group (group groupModifier : ℕ)
  | enable (enable : Bool)
  | pending (pending : Bool)
  | configuration (bits : BitVec 2)
  | router (affinity : BitVec 64)
  deriving DecidableEq

namespace Call

def exec {σ : Type} (bus : Bus σ) (s : σ) (n : ℕ) : Call → Except Panic σ
  | priority p => GicDistributor.setPriority bus s n p
  | group g => GicDistributor.setGroup bus s n g
  | enable on => GicDistributor.setEnable bus s n on
  | pending on => GicDistributor.setPending bus s n on
  | triggerMode isLevel => GicDistributor.setTriggerMode bus s n isLevel
  | routing isRoutingMode mpidr => GicDistributor.setRouting bus s n isRoutingMode mpidr

/-- The field of an interrupt that the call is about, by the emulator's getters. -/
def field (d : GicDistributorMmio) (n : ℕ) : Call → Except Panic Field
  | priority _ => do return .priority (← d.getPriority n)
  | group _ => do return .group (← d.getGroup n) (← d.getGroupModifier n)
  | enable _ => do return .enable (← d.getEnable n)
  | pending _ => do return .pending (← d.getPending n)
  | triggerMode _ => do
    return .configuration (PackedFields.field 2 (← d.configuration.get (n / 16)) (n % 16))
  | routing _ _ => do return .router (← d.getRouter n)

/-- The value the caller asks for. -/
def requested : Call → Field
  | priority p => .priority p.toNat
  | group .nonSecureGroup1 => .group 1 0
  | enable on => .enable on
  | pending on => .pending on
  | triggerMode isLevel => .configuration (if isLevel then 0b00 else 0b10)
  | routing _ mpidr => .router (mpidrToAffinity mpidr)

end Call

/-- The call returns, sets the field of its interrupt as asked and leaves the
field of every other interrupt. -/
def Agrees (d : GicDistributorMmio) (c : CpuInterface) (n : ℕ) (call : Call) : Prop :=
  ∃ d' c', call.exec emulated (d, c) n = .ok (d', c') ∧ call.field d' n = .ok call.requested ∧
    ∀ m, m < 1020 → m ≠ n → call.field d' m = call.field d m

/-- The state before the call allows it: what it hands over can be handed over,
clearing a pending bit finds no other one in the register, and the router is
inside the window of the emulator or holds the value already. -/
def Fits (d : GicDistributorMmio) (c : CpuInterface) (n : ℕ) : Call → Prop
  | .priority _ => True
  | .group _ => True
  | .enable on => on = true → d.pending.bit n = true → d.DeliverySafe c n
  | .pending true => ∀ m, m / 32 = n / 32 → m = n ∨ d.pending.bit m = true →
      d.enable.bit m = true → d.DeliverySafe c m
  | .pending false => ∀ m, m < 1020 → m ≠ n → m / 32 = n / 32 → d.pending.bit m = false
  | .triggerMode _ => True
  | .routing isRoutingMode mpidr => isRoutingMode = false ∧
      (n < 988 ∨ d.router.getD n 0 = mpidrToAffinity mpidr)

/-! ## The setters on the emulated registers -/

section Setters
variable (d : GicDistributorMmio) (c : CpuInterface) {n : ℕ}

@[simp] theorem setWidth_64_32 (word : BitVec 32) : (word.setWidth 64).setWidth 32 = word := by
  rw [BitVec.setWidth_setWidth_of_le _ (by decide), BitVec.setWidth_eq]

theorem readRegister_eq {offset : ℕ} {word : BitVec 32}
    (h : d.read offset 32 = .ok (word.setWidth 64)) :
    emulated.readRegister (d, c) offset = .ok word := by
  simp only [emulated, h, Checked.ok_bind, Checked.pure_eq_ok, setWidth_64_32]

theorem writeRegister_eq (offset : ℕ) (data : BitVec 32) :
    emulated.writeRegister (d, c) offset data = d.write c offset 32 (data.setWidth 64) := rfl

theorem and_31 (n : ℕ) : n &&& 31 = n % 32 := Nat.and_two_pow_sub_one_eq_mod n 5

/-- The register of an interrupt in a window of one-bit registers. -/
theorem window_word (hn : n < 1024) (register first last : ℕ) (hregister : register = first)
    (hlast : first + 124 ≤ last) :
    GicDistributorMmio.inWindow (register + n / 32 * 4) first last ∧
      (register + n / 32 * 4 - first) / 4 = n / 32 := by
  subst hregister
  constructor
  · constructor <;> omega
  · omega

theorem setPriority_eq (hn : n < 1020) (p : BitVec 8) :
    GicDistributor.setPriority emulated (d, c) n p = .ok ({ d with
      priority := d.priority.put (n / 4)
        (PackedFields.replace (d.priority.getD (n / 4) 0) (n % 4) p) }, c) := by
  have hindex : n >>> 2 = n / 4 := Nat.shiftRight_eq_div_pow n 2
  have hoffset : (n &&& 3) <<< 3 = n % 4 * 8 := by
    rw [Nat.shiftLeft_eq, show n &&& 3 = n % 4 from Nat.and_two_pow_sub_one_eq_mod n 2]
  have hwindow : GicDistributorMmio.inWindow (GicDistributor.gicdIpriorityr + n / 4 * 4)
      gicdIpriorityr0 gicdIpriorityr254 := by
    simp only [GicDistributorMmio.inWindow, GicDistributor.gicdIpriorityr, gicdIpriorityr0,
      gicdIpriorityr254]
    omega
  have hregister : (GicDistributor.gicdIpriorityr + n / 4 * 4 - gicdIpriorityr0) = n / 4 * 4 := by
    simp only [GicDistributor.gicdIpriorityr, gicdIpriorityr0]
    omega
  have hread := d.read_ipriorityr hwindow (by rw [hregister]; exact Nat.mul_mod_left _ _)
  rw [hregister, Nat.mul_div_cancel _ (by decide)] at hread
  unfold GicDistributor.setPriority
  simp only [hindex, hoffset, readRegister_eq d c hread, Checked.ok_bind, writeRegister_eq]
  rw [d.write_ipriorityr c _ 32 ⟨hwindow.1, hwindow.2.trans (Nat.le_add_right _ 3)⟩, hregister,
    Nat.mul_mod_left, Nat.mul_div_cancel _ (by decide), if_neg (by decide), if_pos ⟨rfl, rfl⟩,
    setWidth_64_32]
  rfl

theorem setTriggerMode_eq (hn : n < 1024) (isLevel : Bool) :
    GicDistributor.setTriggerMode emulated (d, c) n isLevel = .ok ({ d with
      configuration := d.configuration.put (n / 16) (PackedFields.replace
        (d.configuration.getD (n / 16) 0) (n % 16) (if isLevel then 0b00#2 else 0b10#2)) }, c) := by
  have hoffset : n &&& 15 = n % 16 := Nat.and_two_pow_sub_one_eq_mod n 4
  have hwindow : GicDistributorMmio.inWindow (GicDistributor.gicdIcfgr + n / 16 * 4)
      gicdIcfgr0 gicdIcfgr63 := by
    simp only [GicDistributorMmio.inWindow, GicDistributor.gicdIcfgr, gicdIcfgr0, gicdIcfgr63]
    omega
  have hregister : (GicDistributor.gicdIcfgr + n / 16 * 4 - gicdIcfgr0) / 4 = n / 16 := by
    simp only [GicDistributor.gicdIcfgr, gicdIcfgr0]
    omega
  have hread := d.read_icfgr hwindow
  rw [hregister] at hread
  unfold GicDistributor.setTriggerMode
  simp only [hoffset, readRegister_eq d c hread, Checked.ok_bind, writeRegister_eq]
  rw [d.write_icfgr c _ hwindow, hregister, setWidth_64_32]
  cases isLevel <;> rfl

theorem setGroup_eq (hn : n < 1024) (g : GicGroup) :
    GicDistributor.setGroup emulated (d, c) n g = .ok ({ d with
      group := d.group.put (n / 32)
        (d.group.getD (n / 32) 0 &&& ~~~((1 : BitVec 32) <<< (n % 32)) |||
          (1 : BitVec 32) <<< (n % 32))
      groupModifier := d.groupModifier.put (n / 32)
        (d.groupModifier.getD (n / 32) 0 &&& ~~~((1 : BitVec 32) <<< (n % 32))) }, c) := by
  have hi : n / 32 < 32 := by omega
  obtain ⟨hgroup, hgindex⟩ :=
    window_word hn GicDistributor.gicdIgroupr gicdIgroupr0 gicdIgroupr31 rfl (by decide)
  obtain ⟨hmod, hmindex⟩ :=
    window_word hn GicDistributor.gicdIgrpmodr gicdIgrpmodr0 gicdIgrpmodr31 rfl (by decide)
  have hread := d.read_igroupr hgroup
  rw [hgindex] at hread
  -- The second half runs on the distributor with its group already changed.
  have hreadMod : ∀ d : GicDistributorMmio,
      d.read (GicDistributor.gicdIgrpmodr + n / 32 * 4) 32 =
        .ok ((d.groupModifier.getD (n / 32) 0).setWidth 64) := by
    intro d
    rw [d.read_igrpmodr hmod, GicDistributorMmio.readWord_ok _ (by rw [hmindex]; exact hi), hmindex]
  cases g
  unfold GicDistributor.setGroup
  simp only [and_31, readRegister_eq d c hread, Checked.ok_bind, writeRegister_eq]
  rw [d.write_igroupr c _ hgroup, hgindex, setWidth_64_32]
  simp only [Checked.ok_bind, readRegister_eq _ c (hreadMod _), writeRegister_eq]
  rw [GicDistributorMmio.write_igrpmodr _ c _ hmod, hmindex, if_pos hi, setWidth_64_32]
  simp

theorem getLsbD_bit (n i : ℕ) :
    (((1 : BitVec 32) <<< (n % 32)).setWidth 64).getLsbD i = decide (i = n % 32) := by
  rw [BitVec.getLsbD_setWidth, FixedArray.getLsbD_one_shiftLeft _ _ (Nat.mod_lt n (by decide))]
  by_cases hi : i = n % 32
  · have hlt : n % 32 < 64 := by omega
    simp [hi, hlt]
  · simp [hi]

end Setters

/-! ## Agreement, call by call -/

section Agreement
variable (d : GicDistributorMmio) (c : CpuInterface) {n : ℕ}

theorem agrees_priority (hn : n < 1020) (p : BitVec 8) : Agrees d c n (.priority p) := by
  refine ⟨_, _, setPriority_eq d c hn p, ?_, fun m hm hne => ?_⟩
  · simp only [Call.field, GicDistributorMmio.getPriority_eq _ hn, GicDistributorMmio.priorityOf_eq_field]
    rw [PackedFields.field_put _ (by decide) (by decide) (by omega), if_pos rfl]
    rfl
  · simp only [Call.field, GicDistributorMmio.getPriority_eq _ hm, GicDistributorMmio.priorityOf_eq_field]
    rw [PackedFields.field_put _ (by decide) (by decide) (by omega), if_neg hne]

theorem agrees_triggerMode (hn : n < 1020) (isLevel : Bool) :
    Agrees d c n (.triggerMode isLevel) := by
  refine ⟨_, _, setTriggerMode_eq d c (by omega) isLevel, ?_, fun m hm hne => ?_⟩
  · simp only [Call.field]
    rw [FixedArray.get_ok _ 0 (show n / 16 < 64 by omega)]
    simp only [Checked.ok_bind]
    rw [PackedFields.field_put _ (by decide) (by decide) (by omega), if_pos rfl]
    rfl
  · simp only [Call.field]
    rw [FixedArray.get_ok _ 0 (show m / 16 < 64 by omega),
      FixedArray.get_ok d.configuration 0 (show m / 16 < 64 by omega)]
    simp only [Checked.ok_bind]
    rw [PackedFields.field_put _ (by decide) (by decide) (by omega), if_neg hne]

theorem agrees_group (hn : n < 1020) (g : GicGroup) : Agrees d c n (.group g) := by
  have hi : n / 32 < 32 := by omega
  have hword : d.group.getD (n / 32) 0 &&& ~~~((1 : BitVec 32) <<< (n % 32)) |||
      (1 : BitVec 32) <<< (n % 32) =
        d.group.getD (n / 32) 0 ||| (1 : BitVec 32) <<< (n % 32) := by
    apply BitVec.eq_of_getLsbD_eq
    intro i hlt
    simp only [BitVec.getLsbD_or, BitVec.getLsbD_and, BitVec.getLsbD_not, hlt, decide_true,
      Bool.true_and]
    cases ((1 : BitVec 32) <<< (n % 32)).getLsbD i <;> simp
  refine ⟨_, _, setGroup_eq d c (by omega) g, ?_, fun m hm hne => ?_⟩
  · cases g
    simp only [Call.field, GicDistributorMmio.getGroup_eq _ (show n < 1024 by omega),
      GicDistributorMmio.getGroupModifier_eq _ (show n < 1024 by omega), Checked.ok_bind, hword,
      FixedArray.bit_set _ hi, FixedArray.bit_clear _ hi]
    simp [Call.requested]
  · simp only [Call.field, GicDistributorMmio.getGroup_eq _ (show m < 1024 by omega),
      GicDistributorMmio.getGroupModifier_eq _ (show m < 1024 by omega), Checked.ok_bind, hword,
      FixedArray.bit_set _ hi, FixedArray.bit_clear _ hi]
    simp [hne]

theorem agrees_disable (hn : n < 1020) : Agrees d c n (.enable false) := by
  have hi : n / 32 < 32 := by omega
  obtain ⟨hwindow, hindex⟩ := window_word (show n < 1024 by omega)
    GicDistributor.gicdIcenabler gicdIcenabler0 gicdIcenabler31 rfl (by decide)
  have hexec : Call.exec emulated (d, c) n (.enable false) = .ok ({ d with
      enable := d.enable.put (n / 32)
        (d.enable.getD (n / 32) 0 &&& ~~~((1 : BitVec 32) <<< (n % 32))) }, c) := by
    simp only [Call.exec, GicDistributor.setEnable, and_31, Bool.false_eq_true, if_false,
      writeRegister_eq]
    rw [d.write_icenabler c _ hwindow, hindex, setWidth_64_32]
  refine ⟨_, _, hexec, ?_, fun m hm hne => ?_⟩
  · simp only [Call.field, GicDistributorMmio.getEnable_eq _ (show n < 1024 by omega),
      Checked.ok_bind, FixedArray.bit_clear _ hi]
    simp [Call.requested]
  · simp only [Call.field, GicDistributorMmio.getEnable_eq _ (show m < 1024 by omega),
      Checked.ok_bind, FixedArray.bit_clear _ hi]
    simp [hne]

theorem agrees_enable_iff (hn : n < 1020) :
    Agrees d c n (.enable true) ↔ (d.pending.bit n = true → d.DeliverySafe c n) := by
  have hi : n / 32 < 32 := by omega
  obtain ⟨hwindow, hindex⟩ := window_word (show n < 1024 by omega)
    GicDistributor.gicdIsenabler gicdIsenabler0 gicdIsenabler31 rfl (by decide)
  have hexec : Call.exec emulated (d, c) n (.enable true) =
      d.write c (GicDistributor.gicdIsenabler + n / 32 * 4) 32
        (((1 : BitVec 32) <<< (n % 32)).setWidth 64) := by
    simp only [Call.exec, GicDistributor.setEnable, and_31, if_true, writeRegister_eq]
  have hok := d.write_isenabler_ok_iff c (toNat_setWidth_lt ((1 : BitVec 32) <<< (n % 32))) hwindow
  rw [hindex, ← hexec] at hok
  -- The only bit of the value written is the one of the interrupt.
  have hone : (∀ i, (((1 : BitVec 32) <<< (n % 32)).setWidth 64).getLsbD i = true →
      d.pending.bit (n / 32 * 32 + i) = true → d.DeliverySafe c (n / 32 * 32 + i)) ↔
        (d.pending.bit n = true → d.DeliverySafe c n) := by
    have hself : n / 32 * 32 + n % 32 = n := by omega
    constructor
    · intro h
      have hbit := h (n % 32)
      rw [getLsbD_bit, hself] at hbit
      exact hbit (by simp)
    · intro h i hbit
      rw [getLsbD_bit, decide_eq_true_eq] at hbit
      rw [hbit, hself]
      exact h
  rw [hone] at hok
  refine ⟨fun ⟨d', c', hrun, _⟩ => hok.mp ⟨_, hrun⟩, fun hsafe => ?_⟩
  obtain ⟨⟨d', c'⟩, hrun⟩ := hok.mpr hsafe
  have hre := GicDistributorMmio.write_isenabler_requeued (toNat_setWidth_lt _) hwindow
    (hexec.symm.trans hrun)
  have henable : d'.enable = d.enable.put (n / 32)
      (d.enable.getD (n / 32) 0 ||| (1 : BitVec 32) <<< (n % 32)) := by
    rw [hre.registers, hindex]
    simp only [GicDistributorMmio.enableBits, setWidth_64_32]
  refine ⟨d', c', hrun, ?_, fun m hm hne => ?_⟩
  · simp only [Call.field, GicDistributorMmio.getEnable_eq _ (show n < 1024 by omega),
      Checked.ok_bind, henable, FixedArray.bit_set _ hi]
    simp [Call.requested]
  · simp only [Call.field, GicDistributorMmio.getEnable_eq _ (show m < 1024 by omega),
      Checked.ok_bind, henable, FixedArray.bit_set _ hi]
    simp [hne]

/-- The bits of a pending register with the one of the interrupt added. -/
theorem getLsbD_pending_or (m : ℕ) (hword : m / 32 = n / 32) :
    ((d.pending.getD (n / 32) 0 ||| (1 : BitVec 32) <<< (n % 32)).setWidth 64).getLsbD (m % 32) =
      (d.pending.bit m || decide (m = n)) := by
  have hmod : m % 32 < 32 := Nat.mod_lt m (by decide)
  have hlt : m % 32 < 64 := by omega
  have hsame : m % 32 = n % 32 ↔ m = n := by omega
  rw [BitVec.getLsbD_setWidth, BitVec.getLsbD_or,
    FixedArray.getLsbD_one_shiftLeft _ _ (Nat.mod_lt n (by decide))]
  simp [FixedArray.bit, hword, hlt, hsame]

theorem agrees_clear_iff (hn : n < 1020) : Agrees d c n (.pending false) ↔
    ∀ m, m < 1020 → m ≠ n → m / 32 = n / 32 → d.pending.bit m = false := by
  have hi : n / 32 < 32 := by omega
  obtain ⟨hwindow, hindex⟩ := window_word (show n < 1024 by omega)
    GicDistributor.gicdIcpendr gicdIcpendr0 gicdIcpendr31 rfl (by decide)
  have hread := d.read_icpendr hwindow
  rw [hindex] at hread
  obtain ⟨d', hexec, hpending⟩ : ∃ d', Call.exec emulated (d, c) n (.pending false) = .ok (d', c) ∧
      ∀ m, d'.pending.bit m = (d.pending.bit m && !(decide (m / 32 = n / 32))) := by
    have hwrite := d.write_icpendr c
      ((d.pending.getD (n / 32) 0 ||| (1 : BitVec 32) <<< (n % 32)).setWidth 64) hwindow
    rw [hindex] at hwrite
    refine ⟨_, Eq.trans ?_ hwrite, fun m => ?_⟩
    · simp only [Call.exec, GicDistributor.setPending, and_31, Bool.false_eq_true, if_false,
        readRegister_eq d c hread, Checked.ok_bind, writeRegister_eq]
    · rw [GicDistributorMmio.bit_and_not d.pending _ hi]
      by_cases hword : m / 32 = n / 32
      · rw [getLsbD_pending_or d m hword]
        cases hbit : d.pending.bit m <;> simp [hword]
      · simp [hword]
  have hfield : ∀ m, m < 1020 → Call.field d' m (.pending false) =
      .ok (.pending (d.pending.bit m && !(decide (m / 32 = n / 32)))) := by
    intro m hm
    simp only [Call.field, GicDistributorMmio.getPending_eq _ (show m < 1024 by omega),
      Checked.ok_bind, hpending, Checked.pure_eq_ok]
  have hbefore : ∀ m, m < 1020 → Call.field d m (.pending false) = .ok (.pending (d.pending.bit m)) := by
    intro m hm
    simp only [Call.field, GicDistributorMmio.getPending_eq _ (show m < 1024 by omega),
      Checked.ok_bind, Checked.pure_eq_ok]
  constructor
  · rintro ⟨d'', c'', hrun, -, hother⟩ m hm hne hword
    cases hexec.symm.trans hrun
    have hsame := hother m hm hne
    rw [hfield m hm, hbefore m hm] at hsame
    simpa [hword] using hsame.symm
  · intro hclear
    refine ⟨d', c, hexec, ?_, fun m hm hne => ?_⟩
    · rw [hfield n hn]
      simp [Call.requested]
    · rw [hfield m hm, hbefore m hm]
      by_cases hword : m / 32 = n / 32
      · simp [hclear m hm hne hword]
      · simp [hword]

theorem agrees_pend_iff (hn : n < 1020) : Agrees d c n (.pending true) ↔
    ∀ m, m / 32 = n / 32 → m = n ∨ d.pending.bit m = true → d.enable.bit m = true →
      d.DeliverySafe c m := by
  have hi : n / 32 < 32 := by omega
  obtain ⟨hwindow, hindex⟩ := window_word (show n < 1024 by omega)
    GicDistributor.gicdIspendr gicdIspendr0 gicdIspendr31 rfl (by decide)
  have hread := d.read_ispendr hwindow
  rw [hindex] at hread
  have hexec : Call.exec emulated (d, c) n (.pending true) =
      d.write c (GicDistributor.gicdIspendr + n / 32 * 4) 32
        ((d.pending.getD (n / 32) 0 ||| (1 : BitVec 32) <<< (n % 32)).setWidth 64) := by
    simp only [Call.exec, GicDistributor.setPending, and_31, if_true, readRegister_eq d c hread,
      Checked.ok_bind, writeRegister_eq]
  have hvalue := toNat_setWidth_lt (d.pending.getD (n / 32) 0 ||| (1 : BitVec 32) <<< (n % 32))
  have hok := d.write_ispendr_ok_iff c hvalue hwindow
  rw [hindex, ← hexec] at hok
  have hword : (∀ i, ((d.pending.getD (n / 32) 0 ||| (1 : BitVec 32) <<< (n % 32)).setWidth
      64).getLsbD i = true → d.enable.bit (n / 32 * 32 + i) = true →
        d.DeliverySafe c (n / 32 * 32 + i)) ↔
      ∀ m, m / 32 = n / 32 → m = n ∨ d.pending.bit m = true → d.enable.bit m = true →
        d.DeliverySafe c m := by
    constructor
    · intro h m hm hset
      have hself : n / 32 * 32 + m % 32 = m := by omega
      have hbit := h (m % 32)
      rw [getLsbD_pending_or d m hm, hself] at hbit
      exact hbit (by rcases hset with hset | hset <;> simp [hset])
    · intro h i hbit
      have hlt := lt_of_getLsbD hbit hvalue
      have hdiv : (n / 32 * 32 + i) / 32 = n / 32 := by omega
      have hmod : i = (n / 32 * 32 + i) % 32 := by omega
      rw [hmod, getLsbD_pending_or d _ hdiv, Bool.or_eq_true, decide_eq_true_eq] at hbit
      exact h _ hdiv hbit.symm
  rw [hword] at hok
  refine ⟨fun ⟨d', c', hrun, _⟩ => hok.mp ⟨_, hrun⟩, fun hsafe => ?_⟩
  obtain ⟨⟨d', c'⟩, hrun⟩ := hok.mpr hsafe
  have hre := GicDistributorMmio.write_ispendr_requeued hvalue hwindow (hexec.symm.trans hrun)
  have hpending : ∀ m, d'.pending.bit m = (d.pending.bit m || decide (m = n)) := by
    intro m
    rw [hre.registers, hindex]
    simp only [GicDistributorMmio.pendBits]
    rw [GicDistributorMmio.bit_or d.pending _ hi]
    by_cases hm : m / 32 = n / 32
    · rw [getLsbD_pending_or d m hm]
      cases d.pending.bit m <;> simp [hm]
    · have hne : m ≠ n := fun h => hm (by rw [h])
      simp [hm, hne]
  refine ⟨d', c', hrun, ?_, fun m hm hne => ?_⟩
  · simp only [Call.field, GicDistributorMmio.getPending_eq _ (show n < 1024 by omega),
      Checked.ok_bind, hpending]
    simp [Call.requested]
  · simp only [Call.field, GicDistributorMmio.getPending_eq _ (show m < 1024 by omega),
      Checked.ok_bind, hpending]
    simp [hne]

theorem agrees_routing_iff (hn : n < 1020) (isRoutingMode : Bool) (mpidr : BitVec 64) :
    Agrees d c n (.routing isRoutingMode mpidr) ↔ isRoutingMode = false ∧
      (n < 988 ∨ d.router.getD n 0 = mpidrToAffinity mpidr) := by
  have hfield : ∀ (d : GicDistributorMmio) (m : ℕ), m < 1020 →
      Call.field d m (.routing isRoutingMode mpidr) = .ok (.router (d.router.getD m 0)) := by
    intro d m hm
    simp only [Call.field, GicDistributorMmio.getRouter_eq _ hm, Checked.ok_bind,
      Checked.pure_eq_ok]
  cases isRoutingMode with
  | true =>
    refine ⟨fun ⟨d', c', hrun, _⟩ => ?_, fun h => absurd h.1 (by decide)⟩
    cases hrun
  | false =>
    have hexec : Call.exec emulated (d, c) n (.routing false mpidr) =
        d.write c (GicDistributor.gicdIrouter + n * 8) 64 (mpidrToAffinity mpidr) := rfl
    by_cases hwindow : n < 988
    · have hin : GicDistributorMmio.inWindow (GicDistributor.gicdIrouter + n * 8) gicdIrouter0
          gicdIrouter1019 := by
        simp only [GicDistributorMmio.inWindow, GicDistributor.gicdIrouter, gicdIrouter0,
          gicdIrouter1019]
        omega
      have hindex : (GicDistributor.gicdIrouter + n * 8 - gicdIrouter0) / 8 = n := by
        simp only [GicDistributor.gicdIrouter, gicdIrouter0]
        omega
      have hwrite := d.write_irouter c (mpidrToAffinity mpidr) hin
      rw [hindex] at hwrite
      refine ⟨fun _ => ⟨rfl, .inl hwindow⟩, fun _ => ⟨_, _, hexec.trans hwrite, ?_, fun m hm hne => ?_⟩⟩
      · rw [hfield _ n hn, FixedArray.getD_put _ _ _ _ _ hn, if_pos rfl]
        rfl
      · rw [hfield _ m hm, hfield d m hm, FixedArray.getD_put _ _ _ _ _ hn, if_neg hne]
    · -- The register lies behind the window, and the write is dropped.
      have hbeyond : gicdIrouter1019 < GicDistributor.gicdIrouter + n * 8 := by
        simp only [GicDistributor.gicdIrouter, gicdIrouter1019]
        omega
      have hwrite := hexec.trans (d.write_beyond_irouter c (mpidrToAffinity mpidr) hbeyond)
      constructor
      · rintro ⟨d', c', hrun, hself, -⟩
        cases hwrite.symm.trans hrun
        rw [hfield d n hn] at hself
        exact ⟨rfl, .inr (Field.router.inj (Except.ok.inj hself))⟩
      · rintro ⟨-, hlt | hsame⟩
        · exact absurd hlt hwindow
        · refine ⟨d, c, hwrite, ?_, fun _ _ _ => rfl⟩
          rw [hfield d n hn, hsame]
          rfl

end Agreement

/-- In every state of the emulator, a call of the driver sets what it is asked for
and nothing else exactly when the state allows it. -/
theorem driver_agrees_iff (d : GicDistributorMmio) (c : CpuInterface) (n : ℕ)
    (hn : Vgic.IsSpi n) (call : Call) : Agrees d c n call ↔ Fits d c n call := by
  obtain ⟨-, hn⟩ := hn
  cases call with
  | priority p => exact ⟨fun _ => trivial, fun _ => agrees_priority d c hn p⟩
  | group g => exact ⟨fun _ => trivial, fun _ => agrees_group d c hn g⟩
  | enable on =>
    cases on with
    | true =>
      rw [agrees_enable_iff d c hn]
      exact ⟨fun h _ => h, fun h => h rfl⟩
    | false => exact ⟨fun _ h => absurd h (by decide), fun _ => agrees_disable d c hn⟩
  | pending on =>
    cases on with
    | true => exact agrees_pend_iff d c hn
    | false => exact agrees_clear_iff d c hn
  | triggerMode isLevel => exact ⟨fun _ => trivial, fun _ => agrees_triggerMode d c hn isLevel⟩
  | routing isRoutingMode mpidr => exact agrees_routing_iff d c hn isRoutingMode mpidr

/-- A distributor that hands over 40 and 41, which are pending. -/
def busyDistributor : GicDistributorMmio :=
  { GicDistributorMmio.new with
    ctlr := 0x12
    enable := (FixedArray.fill 32 0).put 1 0x700
    pending := (FixedArray.fill 32 0).put 1 0x300 }

theorem busyDistributor_safe {m : ℕ} (hm : m < 1020) :
    busyDistributor.DeliverySafe (.reset 0 3) m := by
  intro _ _
  refine ⟨hm, fun _ => .inl ?_⟩
  have hrouter : busyDistributor.router.getD m 0 = 0 := (FixedArray.getD_fill _ m 0).trans (if_pos hm)
  rw [hrouter]
  decide

theorem driver_agrees_busy :
    Vgic.IsSpi 42 ∧ busyDistributor.pending.bit 40 = true ∧ busyDistributor.enable.bit 40 = true ∧
      Agrees busyDistributor (.reset 0 3) 42 (.pending true) := by
  refine ⟨by decide, by decide, by decide,
    (driver_agrees_iff busyDistributor (.reset 0 3) 42 (by decide) (.pending true)).mpr ?_⟩
  intro m hword _ _
  exact busyDistributor_safe (by omega)

/-- Interrupts 40 and 41 are pending, and clearing 40 clears 41 too. -/
theorem clear_disagrees :
    ¬ ∀ (d : GicDistributorMmio) (c : CpuInterface) (n : ℕ), Vgic.IsSpi n →
      ∀ call : Call, Agrees d c n call := by
  intro h
  obtain ⟨d, hd⟩ : ∃ d : GicDistributorMmio, d.pending = (FixedArray.fill 32 0).put 1 0x300 :=
    ⟨{ GicDistributorMmio.new with pending := (FixedArray.fill 32 0).put 1 0x300 }, rfl⟩
  have hclear := (agrees_clear_iff d (.reset 0 3) (show 40 < 1020 by decide)).mp
    (h d (.reset 0 3) 40 (by decide) (.pending false)) 41 (by decide) (by decide) (by decide)
  rw [hd] at hclear
  exact absurd hclear (by decide)

end Min1visor.Gicv3Driver
