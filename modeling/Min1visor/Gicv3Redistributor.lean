import Min1visor.Gicv3Driver
import Min1visor.Gicv3ReadBack
import Min1visor.ExceptionIrq
import Min1visor.ExceptionLoads
import Min1visor.Library.Runs

/-!
# The driver of the GICv3 redistributor on the emulated redistributor

A CPU looks for its own redistributor among the frames, wakes it and configures its private
interrupts. Here the accesses are served by the emulated redistributor: what any sequence
of setters leaves is the last setting of each interrupt, and that is what a later trigger
hands to the list registers.
-/
namespace Min1visor.Gicv3Driver
open Vgicv3 Gicv3Mmio

/-- The system registers of the CPU interface that the driver uses. -/
structure SystemRegisters (κ : Type) where
  getIccSreEl2 : κ → BitVec 64
  setIccSreEl2 : κ → BitVec 64 → κ
  setIccPmrEl1 : κ → BitVec 64 → κ
  setIccBpr1El1 : κ → BitVec 64 → κ
  setIccIgrpen1El1 : κ → BitVec 64 → κ

namespace GicRedistributor

def mmioSize : ℕ := 0x20000
def defaultPriority : BitVec 8 := 0xff
def defaultBinaryPoint : BitVec 8 := 0x03
def iccSreSre : BitVec 64 := 1
def iccIgrpen1En : BitVec 64 := 1
def ctlrOffset : ℕ := 0x00
def ctlrRwp : BitVec 32 := 1 <<< 3
def wakerOffset : ℕ := 0x0014
def wakerChildrenAsleep : BitVec 32 := 1 <<< 2
def wakerProcessorSleep : BitVec 32 := 1 <<< 1
def igroupr0Offset : ℕ := 0x10000 + 0x0080
def ipriorityrBase : ℕ := 0x10000 + 0x0400
def igrpmodr0Offset : ℕ := 0x10000 + 0x0D00
def isenabler0Offset : ℕ := 0x10000 + 0x0100
def icenabler0Offset : ℕ := 0x10000 + 0x0180
def icfgr0Offset : ℕ := 0x10000 + 0x0C00

variable {σ κ : Type} (bus : Bus σ) (s : σ) (intId : ℕ)

def setPriority (priority : BitVec 8) : Except Panic σ := do
  let registerIndex := (intId >>> 2) * 4
  let registerOffset := (intId &&& 0b11) <<< 3
  let old ← bus.readRegister s (ipriorityrBase + registerIndex)
  bus.writeRegister s (ipriorityrBase + registerIndex)
    ((old &&& ~~~((0xFF : BitVec 32) <<< registerOffset)) |||
      (priority.setWidth 32 <<< registerOffset))

/-- The one register of a kind is shifted by the number of the interrupt as it is. -/
def setGroup (group : GicGroup) : Except Panic σ := do
  let data : BitVec 32 := match group with
    | .nonSecureGroup1 => 1
  let old ← bus.readRegister s igroupr0Offset
  let shift ← GicRedistributorMmio.checkedShift intId
  let s ← bus.writeRegister s igroupr0Offset
    ((old &&& ~~~((1 : BitVec 32) <<< shift)) ||| (data <<< shift))
  let data : BitVec 32 := match group with
    | .nonSecureGroup1 => 0
  let old ← bus.readRegister s igrpmodr0Offset
  bus.writeRegister s igrpmodr0Offset
    ((old &&& ~~~((1 : BitVec 32) <<< shift)) ||| (data <<< shift))

def setEnable (enable : Bool) : Except Panic σ := do
  let register := if enable then isenabler0Offset else icenabler0Offset
  let shift ← GicRedistributorMmio.checkedShift intId
  bus.writeRegister s register ((1 : BitVec 32) <<< shift)

def setTriggerMode (isLevelTrigger : Bool) : Except Panic σ := do
  let registerIndex := (intId / 16) * 4
  let registerOffset := (intId &&& 15) * 2
  let data : BitVec 32 := if isLevelTrigger then 0 else 1
  let old ← bus.readRegister s (icfgr0Offset + registerIndex)
  bus.writeRegister s (icfgr0Offset + registerIndex)
    ((old &&& ~~~((0x03 : BitVec 32) <<< registerOffset)) ||| ((data <<< 1) <<< registerOffset))

/-- A loop that waits until some bits of a register are clear. -/
def waitClear (register : ℕ) (bits : BitVec 32) : ℕ → Except Fat.Stop Unit
  | 0 => .error .running
  | fuel + 1 => do
    if (← bus.readRegister s register) &&& bits ≠ 0 then waitClear register bits fuel else return ()

/-- The redistributor is woken and the CPU interface opened. -/
def init (cpu : SystemRegisters κ) (k : κ) (fuel : ℕ) : Except Fat.Stop (σ × κ) := do
  let k := cpu.setIccSreEl2 k (cpu.getIccSreEl2 k ||| iccSreSre)
  if cpu.getIccSreEl2 k &&& iccSreSre = 0 then throw (.panic .explicit)
  waitClear bus s ctlrOffset ctlrRwp fuel
  let waker ← bus.readRegister s wakerOffset
  let s ← bus.writeRegister s wakerOffset (waker &&& ~~~wakerProcessorSleep)
  waitClear bus s wakerOffset wakerChildrenAsleep fuel
  let k := cpu.setIccPmrEl1 k (defaultPriority.setWidth 64)
  let k := cpu.setIccBpr1El1 k (defaultBinaryPoint.setWidth 64)
  return (s, cpu.setIccIgrpen1El1 k iccIgrpen1En)

/-- The affinity in the upper half of the type register. -/
def getAffinity (typer : BitVec 64) : BitVec 32 := (typer >>> 32).setWidth 32

end GicRedistributor

/-- The affinity of a CPU, packed into 32 bits. -/
def getPackedAffinity (mpidrEl1 : BitVec 64) : BitVec 32 :=
  let mpidr := mpidrToAffinity mpidrEl1
  ((mpidr &&& (((1 : BitVec 64) <<< 24) - 1)) |||
    ((mpidr &&& ((0xff : BitVec 64) <<< 32)) >>> (32 - 24))).setWidth 32

/-- The frames from an address on, up to the one of this CPU. -/
def findRedistributor (typer : ℕ → BitVec 64) (affinity : BitVec 32) (limit baseAddress : ℕ) :
    Except Fat.Stop ℕ :=
  if baseAddress < limit then
    if GicRedistributor.getAffinity (typer baseAddress) = affinity then .ok baseAddress
    else if baseAddress + GicRedistributor.mmioSize < 2 ^ 64 then
      findRedistributor typer affinity limit (baseAddress + GicRedistributor.mmioSize)
    else .error (.panic .overflow)
  else .error .err
termination_by limit - baseAddress
decreasing_by
  have hsize : GicRedistributor.mmioSize = 0x20000 := rfl
  omega

def getSelfRedistributor (typer : ℕ → BitVec 64) (mpidrEl1 : BitVec 64) (baseAddress length : ℕ) :
    Except Fat.Stop ℕ := do
  let limit ← Checked.add 64 baseAddress length
  findRedistributor typer (getPackedAffinity mpidrEl1) limit baseAddress

/-- The volatile accesses of a driver on one CPU, served by the emulated redistributor. -/
def emulatedRedistributor : Bus (GicRedistributorMmio × CpuInterface) where
  readRegister s offset := do return (← s.1.read offset 32).setWidth 32
  writeRegister s offset data := s.1.write s.2 offset 32 (data.setWidth 64)
  writeRegister64 s offset data := s.1.write s.2 offset 64 data

/-! ## Setters and settings -/

/-- A call of one of the setters, for some private interrupt. -/
inductive Setter
  | priority (priority : BitVec 8)
  | group (group : GicGroup)
  | enable (enable : Bool)
  | triggerMode (isLevelTrigger : Bool)

/-- What the redistributor keeps about one interrupt. -/
@[ext]
structure Setting where
  priority : BitVec 8
  group : Bool
  groupModifier : Bool
  enable : Bool
  configuration : BitVec 2
  deriving DecidableEq

namespace Setter

def exec {σ : Type} (bus : Bus σ) (s : σ) (n : ℕ) : Setter → Except Panic σ
  | priority p => GicRedistributor.setPriority bus s n p
  | group g => GicRedistributor.setGroup bus s n g
  | enable on => GicRedistributor.setEnable bus s n on
  | triggerMode isLevel => GicRedistributor.setTriggerMode bus s n isLevel

/-- The setting that the caller asks for. -/
def apply (x : Setting) : Setter → Setting
  | priority p => { x with priority := p }
  | group .nonSecureGroup1 => { x with group := true, groupModifier := false }
  | enable on => { x with enable := on }
  | triggerMode isLevel => { x with configuration := if isLevel then 0b00 else 0b10 }

end Setter

def setting (r : GicRedistributorMmio) (n : ℕ) : Setting where
  priority := PackedFields.field 8 (r.priority.getD (n / 4) 0) (n % 4)
  group := r.group.getLsbD n
  groupModifier := r.groupModifier.getLsbD n
  enable := r.enable.getLsbD n
  configuration := PackedFields.field 2 (r.configuration.getD (n / 16) 0) (n % 16)

/-! ## The setters on the emulated registers -/

section Setters
variable (r : GicRedistributorMmio) (c : CpuInterface) {n : ℕ}

theorem readRedistributor_eq {offset : ℕ} {word : BitVec 32}
    (h : r.read offset 32 = .ok (word.setWidth 64)) :
    emulatedRedistributor.readRegister (r, c) offset = .ok word := by
  simp only [emulatedRedistributor, h, Checked.ok_bind, Checked.pure_eq_ok, setWidth_64_32]

theorem writeRedistributor_eq (offset : ℕ) (data : BitVec 32) :
    emulatedRedistributor.writeRegister (r, c) offset data =
      r.write c offset 32 (data.setWidth 64) := rfl

theorem checkedShift_ok (hn : n < 32) : GicRedistributorMmio.checkedShift n = .ok n := if_pos hn

theorem redistributor_setPriority (hn : n < 32) (p : BitVec 8) :
    GicRedistributor.setPriority emulatedRedistributor (r, c) n p = .ok ({ r with
      priority := r.priority.put (n / 4)
        (PackedFields.replace (r.priority.getD (n / 4) 0) (n % 4) p) }, c) := by
  have hindex : n >>> 2 = n / 4 := Nat.shiftRight_eq_div_pow n 2
  have hoffset : (n &&& 3) <<< 3 = n % 4 * 8 := by
    rw [Nat.shiftLeft_eq, show n &&& 3 = n % 4 from Nat.and_two_pow_sub_one_eq_mod n 2]
  have hbase : GicRedistributor.ipriorityrBase = gicrIpriorityr0 := rfl
  have hlast : gicrIpriorityr7 = gicrIpriorityr0 + 28 := rfl
  have hwindow : GicDistributorMmio.inWindow (gicrIpriorityr0 + n / 4 * 4) gicrIpriorityr0
      gicrIpriorityr7 := ⟨by omega, by omega⟩
  have hregister : gicrIpriorityr0 + n / 4 * 4 - gicrIpriorityr0 = n / 4 * 4 :=
    Nat.add_sub_cancel_left _ _
  have hread := r.read_ipriorityr hwindow
  rw [hregister, Nat.mul_div_cancel _ (by decide)] at hread
  unfold GicRedistributor.setPriority
  simp only [hbase, hindex, hoffset, readRedistributor_eq r c hread, Checked.ok_bind,
    writeRedistributor_eq]
  rw [r.write_ipriorityr c _ 32 ⟨hwindow.1, hwindow.2.trans (Nat.le_add_right _ 3)⟩, hregister,
    Nat.mul_mod_left, Nat.mul_div_cancel _ (by decide), if_neg (by decide), if_pos ⟨rfl, rfl⟩,
    setWidth_64_32]
  rfl

theorem redistributor_setTriggerMode (hn : n < 32) (isLevel : Bool) :
    GicRedistributor.setTriggerMode emulatedRedistributor (r, c) n isLevel = .ok ({ r with
      configuration := r.configuration.put (n / 16) (PackedFields.replace
        (r.configuration.getD (n / 16) 0) (n % 16) (if isLevel then 0b00#2 else 0b10#2)) }, c) := by
  have hoffset : n &&& 15 = n % 16 := Nat.and_two_pow_sub_one_eq_mod n 4
  have hbase : GicRedistributor.icfgr0Offset = gicrIcfgr0 := rfl
  have hlast : gicrIcfgr1 = gicrIcfgr0 + 4 := rfl
  have hwindow : GicDistributorMmio.inWindow (gicrIcfgr0 + n / 16 * 4) gicrIcfgr0 gicrIcfgr1 :=
    ⟨by omega, by omega⟩
  have hregister : (gicrIcfgr0 + n / 16 * 4 - gicrIcfgr0) / 4 = n / 16 := by omega
  have hread := r.read_icfgr hwindow
  rw [hregister] at hread
  unfold GicRedistributor.setTriggerMode
  simp only [hbase, hoffset, readRedistributor_eq r c hread, Checked.ok_bind, writeRedistributor_eq]
  rw [r.write_icfgr c _ hwindow, hregister, setWidth_64_32]
  cases isLevel <;> rfl

theorem redistributor_setGroup (hn : n < 32) (g : GicGroup) :
    GicRedistributor.setGroup emulatedRedistributor (r, c) n g = .ok ({ r with
      group := r.group &&& ~~~((1 : BitVec 32) <<< n) ||| (1 : BitVec 32) <<< n
      groupModifier := r.groupModifier &&& ~~~((1 : BitVec 32) <<< n) }, c) := by
  have hbase : GicRedistributor.igroupr0Offset = gicrIgroupr0 := rfl
  have hmodifier : GicRedistributor.igrpmodr0Offset = gicrIgrpmodr0 := rfl
  have hread : r.read gicrIgroupr0 32 = .ok (r.group.setWidth 64) := rfl
  cases g
  unfold GicRedistributor.setGroup
  simp only [hbase, hmodifier, readRedistributor_eq r c hread, checkedShift_ok hn, Checked.ok_bind,
    writeRedistributor_eq, r.write_igroupr0 c, setWidth_64_32]
  simp only [readRedistributor_eq _ c (GicRedistributorMmio.read_igrpmodr0 _), Checked.ok_bind,
    GicRedistributorMmio.write_igrpmodr0 _ c, setWidth_64_32]
  simp

theorem redistributor_disable (hn : n < 32) :
    GicRedistributor.setEnable emulatedRedistributor (r, c) n false =
      .ok ({ r with enable := r.enable &&& ~~~((1 : BitVec 32) <<< n) }, c) := by
  have hwrite : ∀ value, r.write c GicRedistributor.icenabler0Offset 32 value =
      .ok ({ r with enable := r.enable &&& ~~~value.setWidth 32 }, c) := fun _ => rfl
  unfold GicRedistributor.setEnable
  simp only [Bool.false_eq_true, if_false, checkedShift_ok hn, Checked.ok_bind,
    writeRedistributor_eq, hwrite, setWidth_64_32]

/-- The loop over the bits of a value changes the queue and the list registers only. -/
theorem triggerBits_requeued {ready : GicRedistributorMmio → ℕ → Except Panic Bool}
    {bit : GicRedistributorMmio → ℕ → Bool} (htest : GicRedistributorMmio.Tests ready bit)
    {k intId : ℕ} (hk : intId + k = 32) {value : BitVec 64} {r r' : GicRedistributorMmio}
    {c c' : CpuInterface} (hrecorded : GicRedistributorMmio.Recorded bit r intId value)
    (h : GicRedistributorMmio.triggerBits ready k intId value r c = .ok (r', c')) :
    GicRedistributorMmio.Requeued r c r' c' := by
  induction k generalizing intId value r c with
  | zero =>
    cases h
    exact .refl _ _
  | succ k ih =>
    rw [GicRedistributorMmio.triggerBits] at h
    by_cases hzero : value = 0
    · rw [if_pos hzero] at h
      cases h
      exact .refl _ _
    · rw [if_neg hzero] at h
      obtain ⟨⟨r₁, c₁⟩, hround, hrest⟩ := Checked.bind_eq_ok.mp h
      have hfirst := (GicRedistributorMmio.triggerBit_spec htest (show intId < 32 by omega) c
        hrecorded).2 r₁ c₁ hround
      refine hfirst.trans (ih (by omega) ?_ hrest)
      intro i hset hi hbit
      have hnext : intId + 1 + i = intId + (i + 1) := by omega
      rw [BitVec.getLsbD_ushiftRight, Nat.add_comm] at hset
      rw [hfirst.registers, htest.queue, hnext] at hbit
      rw [hfirst.registers, hnext]
      exact hrecorded (i + 1) hset (by omega) hbit

/-- On the CPU of the redistributor an interrupt that waits for its enabling is handed over. -/
theorem redistributor_enable (hn : n < 32) (hown : r.affinity = mpidrToAffinity c.mpidrEl1) :
    ∃ r' c', GicRedistributor.setEnable emulatedRedistributor (r, c) n true = .ok (r', c') ∧
      GicRedistributorMmio.Requeued { r with enable := r.enable ||| (1 : BitVec 32) <<< n } c
        r' c' := by
  have htest : GicRedistributorMmio.Tests GicRedistributorMmio.getPending
      fun r n => r.pending.getLsbD n :=
    ⟨fun r _ hn => GicRedistributorMmio.getPending_eq r hn, fun _ _ _ => rfl⟩
  have hsafe : ∀ i, i < 32 → (((1 : BitVec 32) <<< n).setWidth 64).getLsbD i = true →
      r.pending.getLsbD i = true → r.DeliverySafe c i := fun _ _ _ _ _ _ => .inl hown
  obtain ⟨⟨r', c'⟩, hwrite⟩ := (r.write_isenabler_ok_iff c _).mpr hsafe
  have hexec : GicRedistributor.setEnable emulatedRedistributor (r, c) n true = .ok (r', c') := by
    unfold GicRedistributor.setEnable
    simp only [if_true, checkedShift_ok hn, Checked.ok_bind, writeRedistributor_eq]
    exact hwrite
  refine ⟨r', c', hexec, ?_⟩
  rw [r.write_isenabler c, setWidth_64_32] at hwrite
  exact triggerBits_requeued htest (by decide) (fun _ _ _ => id) hwrite

end Setters

/-! ## A setter changes the setting of its interrupt -/

/-- The setters leave what they are not about. -/
structure SameFrame (r : GicRedistributorMmio) (c : CpuInterface) (r' : GicRedistributorMmio)
    (c' : CpuInterface) : Prop where
  affinity : r'.affinity = r.affinity
  ctlr : r'.ctlr = r.ctlr
  waker : r'.waker = r.waker
  pending : r'.pending = r.pending
  active : r'.active = r.active
  mpidr : c'.mpidrEl1 = c.mpidrEl1

theorem SameFrame.refl (r : GicRedistributorMmio) (c : CpuInterface) : SameFrame r c r c :=
  ⟨rfl, rfl, rfl, rfl, rfl, rfl⟩

theorem SameFrame.trans {r₁ r₂ r₃ : GicRedistributorMmio} {c₁ c₂ c₃ : CpuInterface}
    (h : SameFrame r₁ c₁ r₂ c₂) (h' : SameFrame r₂ c₂ r₃ c₃) : SameFrame r₁ c₁ r₃ c₃ :=
  ⟨h'.affinity.trans h.affinity, h'.ctlr.trans h.ctlr, h'.waker.trans h.waker,
    h'.pending.trans h.pending, h'.active.trans h.active, h'.mpidr.trans h.mpidr⟩

/-- A bit of a register after one was set, or cleared. -/
theorem getLsbD_set (x : BitVec 32) {n m : ℕ} (hn : n < 32) :
    (x ||| (1 : BitVec 32) <<< n).getLsbD m = if m = n then true else x.getLsbD m := by
  rw [BitVec.getLsbD_or, FixedArray.getLsbD_one_shiftLeft _ _ hn]
  by_cases hm : m = n <;> simp [hm]

theorem getLsbD_clear (x : BitVec 32) {n m : ℕ} (hn : n < 32) :
    (x &&& ~~~((1 : BitVec 32) <<< n)).getLsbD m = if m = n then false else x.getLsbD m := by
  by_cases hm : m < 32
  · rw [BitVec.getLsbD_and, BitVec.getLsbD_not, FixedArray.getLsbD_one_shiftLeft _ _ hn]
    by_cases heq : m = n <;> simp [heq, hn, hm]
  · rw [BitVec.getLsbD_of_ge _ _ (not_lt.mp hm), BitVec.getLsbD_of_ge x _ (not_lt.mp hm), ite_self]

/-- A call on the CPU of the redistributor returns; it gives its interrupt the setting that it
asks for, and no other interrupt a different one. -/
theorem Setter.exec_emulated (call : Setter) {r : GicRedistributorMmio} {c : CpuInterface} {n : ℕ}
    (hn : n < 32) (hown : r.affinity = mpidrToAffinity c.mpidrEl1) :
    ∃ r' c', call.exec emulatedRedistributor (r, c) n = .ok (r', c') ∧ SameFrame r c r' c' ∧
      ∀ m, m < 32 → setting r' m = if m = n then call.apply (setting r m) else setting r m := by
  cases call with
  | priority p =>
    refine ⟨_, _, redistributor_setPriority r c hn p, ⟨rfl, rfl, rfl, rfl, rfl, rfl⟩,
      fun m hm => ?_⟩
    have hfield := PackedFields.field_put r.priority (show 0 < 4 by decide) (by decide)
      (show n / 4 < 8 by omega) p m
    by_cases heq : m = n
    · rw [if_pos heq] at hfield ⊢
      simp only [setting, hfield, Setter.apply]
    · rw [if_neg heq] at hfield ⊢
      simp only [setting, hfield]
  | group g =>
    refine ⟨_, _, redistributor_setGroup r c hn g, ⟨rfl, rfl, rfl, rfl, rfl, rfl⟩, fun m hm => ?_⟩
    cases g
    by_cases heq : m = n
    · simp only [setting, getLsbD_set _ hn, getLsbD_clear _ hn, heq, if_true, Setter.apply]
    · simp only [setting, getLsbD_set _ hn, getLsbD_clear _ hn, heq, if_false]
  | enable on =>
    cases on with
    | false =>
      refine ⟨_, _, redistributor_disable r c hn, ⟨rfl, rfl, rfl, rfl, rfl, rfl⟩, fun m hm => ?_⟩
      by_cases heq : m = n
      · simp only [setting, getLsbD_clear _ hn, heq, if_true, Setter.apply]
      · simp only [setting, getLsbD_clear _ hn, heq, if_false]
    | true =>
      obtain ⟨r', c', hexec, hregisters, hmpidr⟩ := redistributor_enable r c hn hown
      refine ⟨r', c', hexec, ?_, fun m hm => ?_⟩
      · rw [hregisters]
        exact ⟨rfl, rfl, rfl, rfl, rfl, hmpidr⟩
      · rw [hregisters]
        by_cases heq : m = n
        · simp only [setting, getLsbD_set _ hn, heq, if_true, Setter.apply]
        · simp only [setting, getLsbD_set _ hn, heq, if_false]
  | triggerMode isLevel =>
    refine ⟨_, _, redistributor_setTriggerMode r c hn isLevel, ⟨rfl, rfl, rfl, rfl, rfl, rfl⟩,
      fun m hm => ?_⟩
    have hfield := PackedFields.field_put r.configuration (show 0 < 16 by decide) (by decide)
      (show n / 16 < 2 by omega) (if isLevel then 0b00#2 else 0b10#2) m
    by_cases heq : m = n
    · rw [if_pos heq] at hfield ⊢
      simp only [setting, hfield, Setter.apply]
      rfl
    · rw [if_neg heq] at hfield ⊢
      simp only [setting, hfield]

/-! ## Runs of setters -/

/-- One call of a run. -/
def configure {σ : Type} (bus : Bus σ) (s : σ) (call : ℕ × Setter) : Except Panic σ :=
  call.2.exec bus s call.1

/-- The calls for one interrupt, in order. -/
def settingsOf (calls : List (ℕ × Setter)) (n : ℕ) : List Setter :=
  (calls.filter fun call => call.1 = n).map Prod.snd

theorem configure_run (calls : List (ℕ × Setter)) (hcalls : ∀ call ∈ calls, call.1 < 32)
    {r : GicRedistributorMmio} {c : CpuInterface} (hown : r.affinity = mpidrToAffinity c.mpidrEl1) :
    ∃ r' c', Runs.run (configure emulatedRedistributor) (r, c) calls = .ok (r', c') ∧
      SameFrame r c r' c' ∧
      ∀ n, n < 32 → setting r' n = (settingsOf calls n).foldl Setter.apply (setting r n) := by
  induction calls generalizing r c with
  | nil => exact ⟨r, c, rfl, .refl r c, fun _ _ => rfl⟩
  | cons call rest ih =>
    rw [List.forall_mem_cons] at hcalls
    obtain ⟨hn, hrest⟩ := hcalls
    obtain ⟨r₁, c₁, hexec, hframe, hsetting⟩ := call.2.exec_emulated hn hown
    have hown₁ : r₁.affinity = mpidrToAffinity c₁.mpidrEl1 := by
      rw [hframe.affinity, hframe.mpidr, hown]
    obtain ⟨r', c', hrun, hlast, hsettings⟩ := ih hrest hown₁
    refine ⟨r', c', ?_, hframe.trans hlast, fun n hlt => ?_⟩
    · rw [Runs.run_cons_ok rest hexec]
      exact hrun
    · rw [hsettings n hlt, hsetting n hlt]
      by_cases heq : n = call.1
      · have hcalls : settingsOf (call :: rest) n = call.2 :: settingsOf rest n := by
          simp [settingsOf, heq]
        rw [if_pos heq, hcalls, List.foldl_cons]
      · have hcalls : settingsOf (call :: rest) n = settingsOf rest n := by
          simp [settingsOf, Ne.symm heq]
        rw [if_neg heq, hcalls]

/-! ## The start of a CPU -/

/-- A register that does not change is waited for forever or not at all. -/
theorem waitClear_eq {σ : Type} {bus : Bus σ} {s : σ} {register : ℕ} {word : BitVec 32}
    (h : bus.readRegister s register = .ok word) (bits : BitVec 32) {fuel : ℕ} (hfuel : 0 < fuel) :
    GicRedistributor.waitClear bus s register bits fuel =
      if word &&& bits = 0 then .ok () else .error .running := by
  have hturn : ∀ fuel, GicRedistributor.waitClear bus s register bits (fuel + 1) =
      if word &&& bits = 0 then .ok ()
      else GicRedistributor.waitClear bus s register bits fuel := by
    intro fuel
    rw [GicRedistributor.waitClear, h]
    by_cases hbits : word &&& bits = 0
    · rw [if_pos hbits]
      exact if_neg (not_not.mpr hbits)
    · rw [if_neg hbits]
      exact if_pos hbits
  obtain ⟨fuel, rfl⟩ : ∃ n, fuel = n + 1 := ⟨fuel - 1, by omega⟩
  induction fuel with
  | zero => exact hturn 0
  | succ fuel ih =>
    rw [hturn, ih (Nat.succ_pos fuel)]
    by_cases hbits : word &&& bits = 0
    · rw [if_pos hbits, if_pos hbits]
    · rw [if_neg hbits]

section Start
variable {κ : Type} (cpu : SystemRegisters κ) (k : κ)

/-- The control register of the CPU keeps the bit that enables the system registers. -/
def SreSticks : Prop :=
  cpu.getIccSreEl2 (cpu.setIccSreEl2 k (cpu.getIccSreEl2 k ||| GicRedistributor.iccSreSre)) &&&
    GicRedistributor.iccSreSre ≠ 0

/-- The registers of the CPU interface behind `init`. -/
def opened : κ :=
  cpu.setIccIgrpen1El1 (cpu.setIccBpr1El1 (cpu.setIccPmrEl1
    (cpu.setIccSreEl2 k (cpu.getIccSreEl2 k ||| GicRedistributor.iccSreSre)) 0xff) 0x03) 1

theorem init_emulated (hsre : SreSticks cpu k) {fuel : ℕ} (hfuel : 0 < fuel)
    (r : GicRedistributorMmio) (c : CpuInterface) (hrwp : r.ctlr &&& GicRedistributor.ctlrRwp = 0) :
    GicRedistributor.init emulatedRedistributor (r, c) cpu k fuel =
      .ok (({ r with waker := 0 }, c), opened cpu k) := by
  have hctlr : emulatedRedistributor.readRegister (r, c) GicRedistributor.ctlrOffset = .ok r.ctlr :=
    readRedistributor_eq r c rfl
  have hwaker : emulatedRedistributor.readRegister (r, c) GicRedistributor.wakerOffset =
      .ok r.waker := readRedistributor_eq r c rfl
  have hclear : (r.waker &&& ~~~GicRedistributor.wakerProcessorSleep) &&& gicrWakerProcessorSleep =
      0 := by
    rw [BitVec.and_assoc]
    exact BitVec.and_zero
  have hwrite : emulatedRedistributor.writeRegister (r, c) GicRedistributor.wakerOffset
      (r.waker &&& ~~~GicRedistributor.wakerProcessorSleep) = .ok ({ r with waker := 0 }, c) := by
    have hstore : ∀ value, r.write c GicRedistributor.wakerOffset 32 value =
        if value.setWidth 32 &&& gicrWakerProcessorSleep = 0 then .ok ({ r with waker := 0 }, c)
        else .ok ({ r with waker := gicrWakerChildrenAsleep ||| gicrWakerProcessorSleep }, c) :=
      fun _ => rfl
    rw [writeRedistributor_eq, hstore, setWidth_64_32, if_pos hclear]
  have hawake : emulatedRedistributor.readRegister ({ r with waker := 0 }, c)
      GicRedistributor.wakerOffset = .ok 0 := readRedistributor_eq _ c rfl
  have hlift : ∀ {α : Type} (a : α), (liftM (Except.ok a : Except Panic α) : Except Fat.Stop α) =
      .ok a := fun _ => rfl
  have hwait := waitClear_eq hawake GicRedistributor.wakerChildrenAsleep hfuel
  rw [if_pos (by decide)] at hwait
  unfold GicRedistributor.init
  rw [if_neg hsre, waitClear_eq hctlr _ hfuel, if_pos hrwp, hwaker]
  simp only [hlift, Checked.ok_bind, hwrite, hwait]
  rfl

end Start

/-- What a trigger of an interrupt with a setting does to the list registers. -/
def Setting.deliver (x : Setting) (c : CpuInterface) (n : ℕ) (physicalIntId : Option ℕ) :
    CpuInterface :=
  if x.enable ∧ x.groupModifier = false then
    addVirtualInterrupt c (createListRegisterEntry n x.group.toNat x.priority.toNat physicalIntId)
  else c

theorem getPriority_setting (r : GicRedistributorMmio) {n : ℕ} (hn : n < 32) :
    r.getPriority n = .ok (setting r n).priority.toNat := by
  have hmask : (0xFF : BitVec 32) = (BitVec.allOnes 8).setWidth 32 := by decide
  rw [r.getPriority_eq hn, hmask, PackedFields.shiftRight_and_mask, BitVec.toNat_setWidth]
  exact congrArg Except.ok (Nat.mod_eq_of_lt ((setting r n).priority.isLt.trans (by decide)))

/-- On the CPU of a redistributor that is awake, a trigger follows the setting. -/
theorem triggerInterrupt_setting (r : GicRedistributorMmio) (c : CpuInterface) {n : ℕ} (hn : n < 32)
    (hawake : r.waker = 0) (hown : r.affinity = mpidrToAffinity c.mpidrEl1)
    (physicalIntId : Option ℕ) :
    r.triggerInterrupt c n physicalIntId =
      .ok ({ r with pending := r.pending ||| (1 : BitVec 32) <<< n },
        (setting r n).deliver c n physicalIntId) := by
  have hasleep : ¬ r.waker &&& gicrWakerChildrenAsleep ≠ 0 := by
    rw [hawake]
    decide
  have hpending : r.changePendingStatus n true =
      .ok { r with pending := r.pending ||| (1 : BitVec 32) <<< n } := by
    simp only [GicRedistributorMmio.changePendingStatus, GicRedistributorMmio.changeRegister,
      checkedShift_ok hn, Checked.ok_bind, if_true, Checked.pure_eq_ok]
  unfold GicRedistributorMmio.triggerInterrupt
  rw [if_neg hasleep, hpending]
  simp only [Checked.ok_bind, GicRedistributorMmio.getEnable_eq _ hn,
    GicRedistributorMmio.getGroupModifier_eq _ hn, GicRedistributorMmio.getGroup_eq _ hn,
    getPriority_setting _ hn]
  unfold Setting.deliver
  cases henable : r.enable.getLsbD n with
  | false => simp [setting, henable]
  | true =>
    cases hmodifier : r.groupModifier.getLsbD n with
    | true => simp [setting, hmodifier]
    | false => simp [setting, henable, hmodifier, hown]

/-- A CPU wakes its redistributor and makes any calls for private interrupts. Then every
interrupt has the setting last asked for, and a trigger hands it over with that. -/
theorem init_configure {κ : Type} (cpu : SystemRegisters κ) (k : κ) (hsre : SreSticks cpu k)
    (fuel : ℕ) (hfuel : 0 < fuel) (r : GicRedistributorMmio) (c : CpuInterface)
    (hrwp : r.ctlr &&& GicRedistributor.ctlrRwp = 0)
    (hown : r.affinity = mpidrToAffinity c.mpidrEl1) (calls : List (ℕ × Setter))
    (hcalls : ∀ call ∈ calls, call.1 < 32) :
    ∃ s r' c', GicRedistributor.init emulatedRedistributor (r, c) cpu k fuel =
        .ok (s, opened cpu k) ∧
      Runs.run (configure emulatedRedistributor) s calls = .ok (r', c') ∧
      ∀ n, n < 32 →
        setting r' n = (settingsOf calls n).foldl Setter.apply (setting r n) ∧
        ∀ physicalIntId, r'.triggerInterrupt c' n physicalIntId =
          .ok ({ r' with pending := r.pending ||| (1 : BitVec 32) <<< n },
            ((settingsOf calls n).foldl Setter.apply (setting r n)).deliver c' n
              physicalIntId) := by
  obtain ⟨r', c', hrun, hframe, hsettings⟩ :=
    configure_run calls hcalls (r := { r with waker := 0 }) (c := c) hown
  refine ⟨_, r', c', init_emulated cpu k hsre hfuel r c hrwp, hrun, fun n hn => ?_⟩
  have hsetting : setting r' n = (settingsOf calls n).foldl Setter.apply (setting r n) :=
    hsettings n hn
  have hown' : r'.affinity = mpidrToAffinity c'.mpidrEl1 := by
    rw [hframe.affinity, hframe.mpidr]
    exact hown
  refine ⟨hsetting, fun physicalIntId => ?_⟩
  rw [triggerInterrupt_setting r' c' hn hframe.waker hown', hsetting, hframe.pending]

/-- A CPU whose only register is the one that enables the others. -/
def plainRegisters : SystemRegisters (BitVec 64) where
  getIccSreEl2 k := k
  setIccSreEl2 _ word := word
  setIccPmrEl1 k _ := k
  setIccBpr1El1 k _ := k
  setIccIgrpen1El1 k _ := k

/-- A timer that is set up, with another interrupt between. -/
def timerCalls : List (ℕ × Setter) :=
  [(27, .group .nonSecureGroup1), (27, .priority 0x80), (11, .enable true), (27, .enable true),
    (27, .priority 0x00)]

theorem init_configure_timer :
    ∃ s r' c', GicRedistributor.init emulatedRedistributor
        (GicRedistributorMmio.new 0, CpuInterface.reset 0 3) plainRegisters 0 1 =
          .ok (s, opened plainRegisters 0) ∧
      Runs.run (configure emulatedRedistributor) s timerCalls = .ok (r', c') ∧
      (setting r' 27).priority = 0x00 ∧ (setting r' 27).enable = true := by
  obtain ⟨s, r', c', hinit, hrun, hsettings⟩ := init_configure plainRegisters 0
    (by unfold SreSticks; decide) 1 (by decide) (GicRedistributorMmio.new 0)
    (CpuInterface.reset 0 3) (by decide) rfl timerCalls (by decide)
  have htimer := (hsettings 27 (by decide)).1
  refine ⟨s, r', c', hinit, hrun, ?_, ?_⟩
  · rw [htimer]
    rfl
  · rw [htimer]
    rfl

/-! ## The interrupts of the hypervisor -/

/-- The setters of `init_vgic`. -/
def initVgic {σ : Type} (bus : Bus σ) (s : σ) : Except Panic σ := do
  let s ← GicRedistributor.setGroup bus s Exception.maintenanceInterruptIntid .nonSecureGroup1
  let s ← GicRedistributor.setPriority bus s Exception.maintenanceInterruptIntid 0x00
  let s ← GicRedistributor.setTriggerMode bus s Exception.maintenanceInterruptIntid true
  let s ← GicRedistributor.setEnable bus s Exception.maintenanceInterruptIntid true
  let s ← GicRedistributor.setGroup bus s injectInterruptIntId .nonSecureGroup1
  let s ← GicRedistributor.setPriority bus s injectInterruptIntId 0x00
  let s ← GicRedistributor.setTriggerMode bus s injectInterruptIntId false
  GicRedistributor.setEnable bus s injectInterruptIntId true

/-- The setters of `init_generic_timer_local`. -/
def initGenericTimerLocal {σ : Type} (bus : Bus σ) (s : σ) (physicalIntId : ℕ) :
    Except Panic σ := do
  let s ← GicRedistributor.setGroup bus s physicalIntId .nonSecureGroup1
  let s ← GicRedistributor.setPriority bus s physicalIntId 0x00
  let s ← GicRedistributor.setTriggerMode bus s physicalIntId true
  GicRedistributor.setEnable bus s physicalIntId true

/-- The four setters of an interrupt of the hypervisor. -/
def claim (n : ℕ) (isLevel : Bool) : List (ℕ × Setter) :=
  [(n, .group .nonSecureGroup1), (n, .priority 0x00), (n, .triggerMode isLevel), (n, .enable true)]

/-- The setting of an interrupt that was claimed. -/
def claimed (isLevel : Bool) : Setting := ⟨0x00, true, false, true, if isLevel then 0b00 else 0b10⟩

theorem settingsOf_claim (n : ℕ) (isLevel : Bool) (x : Setting) (m : ℕ) :
    (settingsOf (claim n isLevel) m).foldl Setter.apply x =
      if m = n then claimed isLevel else x := by
  by_cases heq : m = n
  · rw [if_pos heq]
    simp [settingsOf, claim, heq, Setter.apply, claimed]
  · have hne : n ≠ m := Ne.symm heq
    simp [settingsOf, claim, heq, hne]

theorem settingsOf_append (calls calls' : List (ℕ × Setter)) (n : ℕ) :
    settingsOf (calls ++ calls') n = settingsOf calls n ++ settingsOf calls' n := by
  simp [settingsOf]

theorem bind_run {σ : Type} {bus : Bus σ} (n : ℕ) (call : Setter) (s : σ)
    (rest : List (ℕ × Setter)) :
    Runs.run (configure bus) s ((n, call) :: rest) =
      call.exec bus s n >>= fun s => Runs.run (configure bus) s rest := by
  rw [Runs.run, configure]
  cases call.exec bus s n <;> rfl

/-- The set-up of a machine is a run of the setters. -/
theorem initVgic_run {σ : Type} (bus : Bus σ) (s : σ) (p : ℕ) :
    (initVgic bus s >>= fun s => initGenericTimerLocal bus s p) =
      Runs.run (configure bus) s (claim Exception.maintenanceInterruptIntid true ++
        claim injectInterruptIntId false ++ claim p true) := by
  have hlast : ∀ x : Except Panic σ, (x >>= fun s => .ok s) = x := fun x => by cases x <;> rfl
  simp only [claim, List.cons_append, List.nil_append, bind_run, Runs.run_nil, Setter.exec,
    initVgic, initGenericTimerLocal, bind_assoc, hlast]

/-- Behind `init_vgic` and `init_generic_timer_local` the maintenance interrupt, the one that
injects and the timer are set up, and every other private interrupt is as before. -/
theorem initVgic_settings (r : GicRedistributorMmio) (c : CpuInterface)
    (hown : r.affinity = mpidrToAffinity c.mpidrEl1) {p : ℕ} (hp : p < 32) :
    ∃ r' c', (initVgic emulatedRedistributor (r, c) >>= fun s =>
        initGenericTimerLocal emulatedRedistributor s p) = .ok (r', c') ∧
      ∀ n, n < 32 → setting r' n =
        if n = p ∨ n = Exception.maintenanceInterruptIntid then claimed true
        else if n = injectInterruptIntId then claimed false else setting r n := by
  have hcalls : ∀ call ∈ claim Exception.maintenanceInterruptIntid true ++
      claim injectInterruptIntId false ++ claim p true, call.1 < 32 := by
    simp [claim, Exception.maintenanceInterruptIntid, injectInterruptIntId, hp]
  obtain ⟨r', c', hrun, -, hsettings⟩ := configure_run _ hcalls hown
  refine ⟨r', c', by rw [initVgic_run, hrun], fun n hn => ?_⟩
  rw [hsettings n hn]
  simp only [settingsOf_append, List.foldl_append, settingsOf_claim]
  by_cases htimer : n = p
  · simp [htimer]
  · by_cases hmaintenance : n = Exception.maintenanceInterruptIntid
    · simp [hmaintenance, Exception.maintenanceInterruptIntid, injectInterruptIntId]
    · simp [htimer, hmaintenance]

/-! ## The frame of a CPU -/

theorem getLsbD_mask {w k i : ℕ} :
    (BitVec.ofNat w (2 ^ k - 1)).getLsbD i = (decide (i < w) && decide (i < k)) := by
  rw [BitVec.getLsbD_ofNat, Nat.testBit_two_pow_sub_one]

/-- The highest byte of an affinity, moved next to the three low ones. -/
theorem byte3_shift (a : BitVec 64) :
    (a &&& ((0xff : BitVec 64) <<< 32)) >>> (32 - 24) = aff3 a <<< 24 := by
  have hmask : ((1 <<< 40) - 1 : BitVec 64) = BitVec.ofNat 64 (2 ^ 40 - 1) := by decide
  have hbyte : (0xff : BitVec 64) = BitVec.ofNat 64 (2 ^ 8 - 1) := by decide
  apply BitVec.eq_of_getLsbD_eq
  intro i hi
  rw [aff3, hmask, hbyte]
  simp only [BitVec.getLsbD_ushiftRight, BitVec.getLsbD_and, BitVec.getLsbD_shiftLeft, getLsbD_mask]
  have hsum : 32 - 24 + i = i + 8 := by omega
  rw [hsum]
  by_cases hlow : i < 24
  · have hbelow : i + 8 < 32 := by omega
    simp [hlow, hbelow]
  have hbelow : ¬ i + 8 < 32 := by omega
  have hbit : i + 8 - 32 = i - 24 := by omega
  have hback : 32 + (i - 24) = i + 8 := by omega
  by_cases hhigh : i < 32
  · have hin : i - 24 < 8 := by omega
    have hin' : i + 8 < 40 := by omega
    have hword : i - 24 < 64 := by omega
    have hword' : i + 8 < 64 := by omega
    simp only [hlow, hbelow, hbit, hback, hin, hin', hword, hword', hi, decide_true, decide_false,
      Bool.not_false, Bool.true_and, Bool.and_true]
  · have hout : ¬ i - 24 < 8 := by omega
    have hout' : ¬ i + 8 < 40 := by omega
    simp only [hbit, hback, hout, hout', decide_false, Bool.and_false]

theorem toNat_mask (a : BitVec 64) {k : ℕ} (hk : k < 64) :
    (a &&& BitVec.ofNat 64 (2 ^ k - 1)).toNat = a.toNat % 2 ^ k := by
  have hlt : 2 ^ k < 2 ^ 64 := Nat.pow_lt_pow_right (by decide) hk
  rw [BitVec.toNat_and, BitVec.toNat_ofNat, Nat.mod_eq_of_lt (by omega),
    Nat.and_two_pow_sub_one_eq_mod]

/-- The bytes of an affinity as numbers. -/
theorem aff_toNat (a : BitVec 64) :
    (aff0 a).toNat = a.toNat % 2 ^ 8 ∧ (aff1 a).toNat = a.toNat % 2 ^ 16 / 2 ^ 8 ∧
      (aff2 a).toNat = a.toNat % 2 ^ 24 / 2 ^ 16 := by
  have h0 : aff0 a = a &&& BitVec.ofNat 64 (2 ^ 8 - 1) := rfl
  have h1 : aff1 a = (a &&& BitVec.ofNat 64 (2 ^ 16 - 1)) >>> 8 := rfl
  have h2 : aff2 a = (a &&& BitVec.ofNat 64 (2 ^ 24 - 1)) >>> 16 := rfl
  rw [h0, h1, h2, BitVec.toNat_ushiftRight, BitVec.toNat_ushiftRight, toNat_mask a (by decide),
    toNat_mask a (by decide), toNat_mask a (by decide), Nat.shiftRight_eq_div_pow,
    Nat.shiftRight_eq_div_pow]
  exact ⟨rfl, rfl, rfl⟩

/-- The type register of the emulated redistributor of a CPU tells the affinity of the CPU. -/
theorem getAffinity_typer {r : GicRedistributorMmio} {mpidrEl1 : BitVec 64}
    (h : r.affinity = mpidrToAffinity mpidrEl1) :
    GicRedistributor.getAffinity r.generateTyper = getPackedAffinity mpidrEl1 := by
  have htyper := Exception.generateTyper_toNat r
  obtain ⟨h0, h1, h2, h3⟩ := Exception.aff_lt r.affinity
  obtain ⟨e0, e1, e2⟩ := aff_toNat r.affinity
  have hlow := toNat_mask r.affinity (show 24 < 64 by decide)
  have hpacked : getPackedAffinity mpidrEl1 =
      ((r.affinity &&& BitVec.ofNat 64 (2 ^ 24 - 1)) ||| aff3 r.affinity <<< 24).setWidth 32 := by
    rw [h, ← byte3_shift]
    rfl
  apply BitVec.eq_of_toNat_eq
  rw [hpacked, GicRedistributor.getAffinity, BitVec.toNat_setWidth, BitVec.toNat_setWidth,
    BitVec.toNat_ushiftRight, Nat.shiftRight_eq_div_pow, htyper,
    Exception.toNat_or_byte 24 (by omega) h3 (by decide), hlow]
  omega

/-- The search over frames one behind the other ends at the first one with the affinity, and
with an error when there is none. -/
theorem findRedistributor_eq {typer : ℕ → BitVec 64} {affinity : BitVec 32} {limit : ℕ}
    (hlimit : limit < 2 ^ 64) (frames : List (BitVec 32)) {baseAddress : ℕ}
    (hend : baseAddress + frames.length * GicRedistributor.mmioSize = limit)
    (htyper : ∀ k x, frames[k]? = some x →
      GicRedistributor.getAffinity (typer (baseAddress + k * GicRedistributor.mmioSize)) = x) :
    findRedistributor typer affinity limit baseAddress =
      ((frames.findIdx? fun x => x = affinity).elim (.error .err) fun k =>
        .ok (baseAddress + k * GicRedistributor.mmioSize)) := by
  induction frames generalizing baseAddress with
  | nil =>
    rw [List.length_nil, Nat.zero_mul, Nat.add_zero] at hend
    rw [findRedistributor, if_neg (by omega)]
    rfl
  | cons x rest ih =>
    rw [List.length_cons, Nat.succ_mul] at hend
    have hsize : GicRedistributor.mmioSize = 0x20000 := rfl
    have hfirst := htyper 0 x rfl
    rw [Nat.zero_mul, Nat.add_zero] at hfirst
    have hshift : ∀ k, baseAddress + GicRedistributor.mmioSize + k * GicRedistributor.mmioSize =
        baseAddress + (k + 1) * GicRedistributor.mmioSize := fun k => by rw [Nat.succ_mul]; omega
    rw [findRedistributor, if_pos (by omega), hfirst, List.findIdx?_cons]
    by_cases hx : x = affinity
    · simp [hx]
    · rw [if_neg hx, if_pos (by omega), ih (by omega) fun k y hy => ?_]
      · simp only [hx, decide_false, Bool.false_eq_true, if_false]
        cases List.findIdx? (fun y => decide (y = affinity)) rest with
        | none => simp
        | some k => simp [hshift]
      · rw [hshift]
        exact htyper (k + 1) y hy

/-- In a list without repetitions an entry is found at its own index. -/
theorem findIdx?_own {affinities : List (BitVec 32)} (hdistinct : affinities.Nodup) {k : ℕ}
    {affinity : BitVec 32} (hk : affinities[k]? = some affinity) :
    (affinities.findIdx? fun x => x = affinity) = some k := by
  obtain ⟨hlt, hget⟩ := List.getElem?_eq_some_iff.mp hk
  rw [List.findIdx?_eq_some_iff_getElem]
  refine ⟨hlt, by simp [hget], fun j hj => ?_⟩
  have hne : affinities[j] ≠ affinity := by
    intro heq
    rw [← hget] at heq
    exact hj.ne (hdistinct.getElem_inj_iff.mp heq)
  simpa using hne

/-- Among the frames of the CPUs of a machine, each CPU finds its own. -/
theorem getSelfRedistributor_own (typer : ℕ → BitVec 64) (baseAddress : ℕ)
    (cpus : List (GicRedistributorMmio × BitVec 64))
    (haffinity : ∀ cpu ∈ cpus, cpu.1.affinity = mpidrToAffinity cpu.2)
    (hdistinct : (cpus.map fun cpu => getPackedAffinity cpu.2).Nodup)
    (hend : baseAddress + cpus.length * GicRedistributor.mmioSize < 2 ^ 64)
    (htyper : ∀ k cpu, cpus[k]? = some cpu →
      typer (baseAddress + k * GicRedistributor.mmioSize) = cpu.1.generateTyper)
    (k : ℕ) (cpu : GicRedistributorMmio × BitVec 64) (hk : cpus[k]? = some cpu) :
    getSelfRedistributor typer cpu.2 baseAddress (cpus.length * GicRedistributor.mmioSize) =
      .ok (baseAddress + k * GicRedistributor.mmioSize) := by
  -- The affinities that the type registers of the frames tell.
  obtain ⟨affinities, haffinities⟩ : ∃ xs, xs = cpus.map fun cpu => getPackedAffinity cpu.2 :=
    ⟨_, rfl⟩
  have hlength : affinities.length = cpus.length := by rw [haffinities, List.length_map]
  have hframes : ∀ (i : ℕ) (x : BitVec 32), affinities[i]? = some x →
      GicRedistributor.getAffinity (typer (baseAddress + i * GicRedistributor.mmioSize)) = x := by
    intro i x hx
    rw [haffinities, List.getElem?_map, Option.map_eq_some_iff] at hx
    obtain ⟨other, hother, rfl⟩ := hx
    rw [htyper i other hother]
    exact getAffinity_typer (haffinity other (List.mem_of_getElem? hother))
  have hget : affinities[k]? = some (getPackedAffinity cpu.2) := by
    rw [haffinities, List.getElem?_map, hk, Option.map_some]
  rw [← haffinities] at hdistinct
  have hindex := findIdx?_own hdistinct hget
  have hfind := @findRedistributor_eq typer (getPackedAffinity cpu.2) _ hend affinities baseAddress
    (by rw [hlength]) hframes
  rw [hindex, Option.elim_some] at hfind
  rw [getSelfRedistributor, Checked.add_ok hend, Fat.lift_ok, Checked.ok_bind, hfind]

/-- Two CPUs of a board with their frames. -/
def twoCpus : List (GicRedistributorMmio × BitVec 64) :=
  [(.new 0x80000000, 0x80000000), (.new 0x80000101, 0x80000101)]

theorem getSelfRedistributor_second :
    getSelfRedistributor (fun address => if address = 0x80a0000 then
        (GicRedistributorMmio.new 0x80000000).generateTyper
      else (GicRedistributorMmio.new 0x80000101).generateTyper)
      0x80000101 0x80a0000 (twoCpus.length * GicRedistributor.mmioSize) =
      .ok (0x80a0000 + 1 * GicRedistributor.mmioSize) := by
  refine getSelfRedistributor_own _ 0x80a0000 twoCpus ?_ (by decide) (by decide) ?_ 1
    (.new 0x80000101, 0x80000101) rfl
  · intro cpu hcpu
    simp only [twoCpus, List.mem_cons, List.not_mem_nil, or_false] at hcpu
    obtain rfl | rfl := hcpu <;> rfl
  · intro k cpu hk
    obtain rfl | rfl | hk' : k = 0 ∨ k = 1 ∨ 2 ≤ k := by omega
    · obtain rfl : (.new 0x80000000, 0x80000000) = cpu := Option.some.inj hk
      rfl
    · obtain rfl : (.new 0x80000101, 0x80000101) = cpu := Option.some.inj hk
      rfl
    · rw [List.getElem?_eq_none (show twoCpus.length ≤ k from hk')] at hk
      cases hk

end Min1visor.Gicv3Driver
