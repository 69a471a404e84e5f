import Min1visor.ExceptionStores
import Min1visor.VgicHandover
import Min1visor.Library.BitSet

/-!
# Physical interrupts under GICv3

The handler of a physical interrupt drops its priority and deactivates it, the timer
interrupt apart: that one is left to the guest, whose end of interrupt deactivates it
through a list register that is tied to it. The handler decides to leave it before the
redistributor has placed it in a list register.
-/
namespace Min1visor.Exception
open Vgicv3 Gicv3Mmio Vgic Virtio

def maintenanceInterruptIntid : ℕ := 25
def genericTimerVirtualIntId : ℕ := 27

variable {η : Type}

/-- What the device tree says about the physical interrupts: `PL011_DEVICE` and
`GENERIC_TIMER_PHYSICAL_INT_ID`. -/
structure InterruptNumbers where
  pl011 : ℕ
  genericTimer : ℕ

/-- What the handler of an interrupt leaves: the board, and what was written to
`ICC_EOIR1_EL1` and to `ICC_DIR_EL1`. -/
structure Handled (η : Type) where
  board : Board η
  iccEoir1 : ℕ
  iccDir : Option ℕ

def Board.maintenanceInterruptHandler (b : Board η) : Except Panic (Board η) := do
  let (d, r, c) ← Vgic.maintenanceInterruptHandler b.distributor b.redistributor b.cpu
  return b.setInterrupts d r c

def Board.injectInterruptHandler (b : Board η) : Board η :=
  let (d, r, c) := Vgic.injectInterruptHandler b.distributor b.redistributor b.cpu
  b.setInterrupts d r c

def Board.genericTimerInterruptHandler (b : Board η) (physicalIntId : ℕ) :
    Except Panic (Board η) := do
  let (r, c) ← b.redistributor.triggerInterrupt b.cpu genericTimerVirtualIntId (some physicalIntId)
  return b.setInterrupts b.distributor r c

/-- The interrupt's own work, and whether it is deactivated afterwards. The bytes are those
that the physical UART has. -/
def dispatch (numbers : InterruptNumbers) (input : List UInt8) (b : Board η)
    (interruptNumber : ℕ) : Except Panic (Board η × Bool) :=
  if interruptNumber = numbers.pl011 then do
    return (← input.foldlM Platform.inputUart b, true)
  else if interruptNumber = maintenanceInterruptIntid then do
    return (← b.maintenanceInterruptHandler, true)
  else if interruptNumber = injectInterruptIntId then .ok (b.injectInterruptHandler, true)
  else if interruptNumber = numbers.genericTimer then do
    return (← b.genericTimerInterruptHandler numbers.genericTimer, false)
  else .ok (b, true)

def irqHandler (numbers : InterruptNumbers) (input : List UInt8) (b : Board η)
    (interruptNumber : ℕ) : Except Panic (Handled η) := do
  let (b, deactivate) ← dispatch numbers input b interruptNumber
  return ⟨b, interruptNumber, if deactivate then some interruptNumber else none⟩

/-! ## Who ends a physical interrupt -/

def ichLrnEl2PIntIdBitsOffset : ℕ := 32

/-- The physical interrupt an entry is about, in 13 bits. -/
def pIntId (entry : BitVec 64) : BitVec 13 := (entry >>> ichLrnEl2PIntIdBitsOffset).setWidth 13

/-- The guest's end of the interrupt in an entry deactivates physical interrupt `p`. -/
def Ends (entry : BitVec 64) (p : ℕ) : Prop :=
  isInactive entry = false ∧ entry &&& ichLrnEl2Hw ≠ 0 ∧ (pIntId entry).toNat = p

instance (entry : BitVec 64) (p : ℕ) : Decidable (Ends entry p) :=
  inferInstanceAs (Decidable (_ ∧ _ ∧ _))

/-- Some list register that is not inactive is tied to physical interrupt `p`. -/
def Linked (c : CpuInterface) (p : ℕ) : Prop := ∃ i, i < 3 ∧ Ends (c.lr i) p

instance (c : CpuInterface) (p : ℕ) : Decidable (Linked c p) :=
  inferInstanceAs (Decidable (∃ i, i < 3 ∧ _))

/-- The interrupt has an owner: it is deactivated, or a list register is tied to it. -/
def Owned (out : Handled η) (p : ℕ) : Prop := out.iccDir = some p ∨ Linked out.board.cpu p

/-- The handler does other work for this number than the timer's. -/
def OtherWork (numbers : InterruptNumbers) (p : ℕ) : Prop :=
  p = numbers.pl011 ∨ p = maintenanceInterruptIntid ∨ p = injectInterruptIntId

/-- The redistributor forwards the virtual timer interrupt to the CPU interface: it is
awake, the interrupt is enabled and not secure, and the redistributor is this CPU's. -/
def Forwards (r : GicRedistributorMmio) (c : CpuInterface) : Prop :=
  r.waker &&& gicrWakerChildrenAsleep = 0 ∧
    r.enable.getLsbD genericTimerVirtualIntId = true ∧
    r.groupModifier.getLsbD genericTimerVirtualIntId = false ∧
    r.affinity = mpidrToAffinity c.mpidrEl1

/-- A free list register comes before any that holds the virtual timer interrupt. -/
def FreeFirst (c : CpuInterface) : Prop :=
  ∃ i, i < c.supportedLrn ∧ isInactive (c.lr i) = true ∧
    ∀ k, k < i → isInactive (c.lr k) = false ∧
      vintid (c.lr k) ≠ BitVec.ofNat 64 genericTimerVirtualIntId

/-! ### Entries -/

theorem hw_iff (entry : BitVec 64) : entry &&& ichLrnEl2Hw ≠ 0 ↔ entry.getLsbD 61 = true :=
  BitSet.and_bit_ne_zero entry (by decide)

theorem getLsbD_pIntId (entry : BitVec 64) {i : ℕ} (hi : i < 13) :
    (pIntId entry).getLsbD i = entry.getLsbD (32 + i) := by
  simp [pIntId, ichLrnEl2PIntIdBitsOffset, hi]

/-- Marking an entry pending leaves it tied to the same physical interrupt. -/
theorem ends_merge {entry : BitVec 64} (hused : isInactive entry = false) (p : ℕ) :
    Ends (entry ||| ichLrnEl2StatusPending) p ↔ Ends entry p := by
  have hp : pIntId (entry ||| ichLrnEl2StatusPending) = pIntId entry := by
    apply BitVec.eq_of_getLsbD_eq
    intro i hi
    rw [getLsbD_pIntId _ hi, getLsbD_pIntId _ hi, BitVec.getLsbD_or,
      (getLsbD_status (show 32 + i < 62 by omega)).2.1, Bool.or_false]
  have hhw : (entry ||| ichLrnEl2StatusPending).getLsbD 61 = entry.getLsbD 61 := by
    rw [BitVec.getLsbD_or, (getLsbD_status (by decide)).2.1, Bool.or_false]
  simp only [Ends, hused, (merge_entry entry).2, hw_iff, hhw, hp]

/-- A timer entry ends the physical timer interrupt, if the number fits. -/
theorem ends_timerEntry (group priority p q : ℕ) :
    Ends (createListRegisterEntry genericTimerVirtualIntId group priority (some p)) q ↔
      p % 2 ^ 13 = q := by
  have hp : pIntId (createListRegisterEntry genericTimerVirtualIntId group priority (some p)) =
      BitVec.ofNat 13 p := by
    have hlow : ∀ i, i < 13 → ichLrnEl2StatusPending.getLsbD (32 + i) = false ∧
        ichLrnEl2Hw.getLsbD (32 + i) = false ∧
        (BitVec.ofNat 64 genericTimerVirtualIntId).getLsbD (32 + i) = false := by decide
    apply BitVec.eq_of_getLsbD_eq
    intro i hi
    obtain ⟨h1, h2, h3⟩ := hlow i hi
    rw [getLsbD_pIntId _ hi]
    simp only [createListRegisterEntry, BitVec.getLsbD_or, BitVec.getLsbD_shiftLeft, h1, h2, h3,
      BitVec.getLsbD_ofNat, show 32 + i < 48 by omega, show 32 + i < 60 by omega,
      show 32 + i < 64 by omega, show i < 64 by omega, hi, show 32 + i - 32 = i by omega,
      show ¬ 32 + i < 32 by omega, decide_true, decide_false, Bool.not_true, Bool.not_false,
      Bool.and_false, Bool.false_and, Bool.true_and, Bool.or_false, Bool.false_or]
  have hhw : (createListRegisterEntry genericTimerVirtualIntId group priority
      (some p)).getLsbD 61 = true := by
    simp [createListRegisterEntry, show ichLrnEl2Hw.getLsbD 61 = true by decide]
  have hused := (createListRegisterEntry_spec (show genericTimerVirtualIntId < 2 ^ 32 by decide)
    group priority (some p)).1
  simp only [Ends, hused, hw_iff, hhw, hp, BitVec.toNat_ofNat, true_and]

/-! ### The timer's way to the list registers -/

/-- The list registers are left as they are. -/
def SameRegisters (c c' : CpuInterface) : Prop := ∀ i, c'.lr i = c.lr i

theorem sendSgi_registers {c c' : CpuInterface} {affinity : BitVec 64}
    (h : sendSgi c affinity = .ok c') : SameRegisters c c' := by
  unfold sendSgi at h
  split_ifs at h
  cases h
  exact fun _ => rfl

/-- The virtual timer interrupt reaches the list registers if it is forwarded, and
otherwise changes none of them. -/
theorem triggerTimer_spec {r r' : GicRedistributorMmio} {c c' : CpuInterface} {p : ℕ}
    (h : r.triggerInterrupt c genericTimerVirtualIntId (some p) = .ok (r', c')) :
    (Forwards r c ∧ ∃ group priority, c' = addVirtualInterrupt c
      (createListRegisterEntry genericTimerVirtualIntId group priority (some p))) ∨
    (¬ Forwards r c ∧ SameRegisters c c') := by
  unfold GicRedistributorMmio.triggerInterrupt at h
  by_cases hasleep : r.waker &&& gicrWakerChildrenAsleep ≠ 0
  · rw [if_pos hasleep] at h
    cases h
    exact .inr ⟨fun hf => hasleep hf.1, fun _ => rfl⟩
  rw [if_neg hasleep] at h
  obtain ⟨r₁, hpending, h⟩ := Checked.bind_eq_ok.mp h
  obtain ⟨pending, -, hr₁⟩ := Checked.bind_eq_ok.mp hpending
  cases hr₁
  obtain ⟨enabled, henabled, h⟩ := Checked.bind_eq_ok.mp h
  have henable := redistributor_getEnable_ok henabled
  by_cases hoff : (!enabled) = true
  · rw [if_pos hoff] at h
    cases h
    refine .inr ⟨fun hf => ?_, fun _ => rfl⟩
    simp [henable, hf.2.1] at hoff
  rw [if_neg hoff] at h
  obtain ⟨modifier, hmodifier, h⟩ := Checked.bind_eq_ok.mp h
  have hsecure := redistributor_getGroupModifier_ok hmodifier
  by_cases hone : modifier = 1
  · rw [if_pos hone] at h
    cases h
    refine .inr ⟨fun hf => ?_, fun _ => rfl⟩
    simp [hf.2.2.1, hone] at hsecure
  rw [if_neg hone] at h
  obtain ⟨group, -, h⟩ := Checked.bind_eq_ok.mp h
  obtain ⟨priority, -, h⟩ := Checked.bind_eq_ok.mp h
  split_ifs at h with hhere
  · cases h
    refine .inl ⟨⟨by simpa using hasleep, ?_, ?_, hhere⟩, group, priority, rfl⟩
    · simpa [henable] using hoff
    · cases hbit : r.groupModifier.getLsbD genericTimerVirtualIntId with
      | false => rfl
      | true => exact absurd (by simpa [hbit] using hsecure) hone
  · obtain ⟨c₁, hsgi, h⟩ := Checked.bind_eq_ok.mp h
    cases h
    exact .inr ⟨fun hf => hhere hf.2.2.2, sendSgi_registers hsgi⟩

theorem Linked.congr {c c' : CpuInterface} (h : SameRegisters c c') (p : ℕ) :
    Linked c' p ↔ Linked c p := by
  simp only [Linked, h _]

/-- Putting an entry in a register whose own entry is not tied to `p`. -/
theorem linked_setLr {c : CpuInterface} {i : ℕ} (hi : i < 3) {entry : BitVec 64} {p : ℕ}
    (hkeep : Ends (c.lr i) p → Ends entry p) :
    Linked (c.setLr i entry) p ↔ Ends entry p ∨ Linked c p := by
  constructor
  · rintro ⟨j, hj, hends⟩
    rw [c.lr_setLr hi] at hends
    by_cases hji : j = i
    · rw [if_pos hji] at hends
      exact .inl hends
    · rw [if_neg hji] at hends
      exact .inr ⟨j, hj, hends⟩
  · rintro (hends | ⟨j, hj, hends⟩)
    · refine ⟨i, hi, ?_⟩
      rwa [c.lr_setLr hi, if_pos rfl]
    · refine ⟨j, hj, ?_⟩
      rw [c.lr_setLr hi]
      by_cases hji : j = i
      · rw [if_pos hji]
        exact hkeep (hji ▸ hends)
      · rwa [if_neg hji]

/-- After the timer entry is added a register is tied to the physical interrupt if one
was before, or if the entry was put in a register of its own. -/
theorem linked_addTimer {c : CpuInterface} {p group priority : ℕ} :
    Linked (addVirtualInterrupt c
        (createListRegisterEntry genericTimerVirtualIntId group priority (some p))) p ↔
      Linked c p ∨ (FreeFirst c ∧ p < 2 ^ 13) := by
  have hsup := supportedLrn_le c
  have hid := (createListRegisterEntry_spec (show genericTimerVirtualIntId < 2 ^ 32 by decide)
    group priority (some p)).2
  have hnew := ends_timerEntry group priority p p
  have hadd := addVirtualInterrupt_spec c
    (createListRegisterEntry genericTimerVirtualIntId group priority (some p))
  generalize createListRegisterEntry genericTimerVirtualIntId group priority (some p) = entry at *
  generalize addVirtualInterrupt c entry = c' at hadd
  -- The scan stops at the first register that is free or holds the timer interrupt.
  have hstop {i : ℕ} (hi : i < c.supportedLrn → isInactive (c.lr i) = false)
      (hsame : i < c.supportedLrn → vintid (c.lr i) = vintid entry)
      (hbelow : ∀ k, k < i → k < c.supportedLrn → Busy c entry k) : ¬ FreeFirst c := by
    rintro ⟨j, hj, hfree, hbefore⟩
    rcases Nat.lt_trichotomy j i with hlt | heq | hgt
    · have hbusy := (hbelow j hlt hj).1
      rw [hfree] at hbusy
      cases hbusy
    · rw [heq, hi (heq ▸ hj)] at hfree
      cases hfree
    · exact (hbefore i hgt).2 ((hsame (hgt.trans hj)).trans hid)
  cases hadd with
  | @taken i hi hbelow hfree =>
    have hff : FreeFirst c :=
      ⟨i, hi, hfree, fun k hk => ⟨(hbelow k hk).1, hid ▸ (hbelow k hk).2⟩⟩
    rw [linked_setLr (by omega), hnew, Nat.mod_eq_iff_lt (by decide), or_comm]
    · simp [hff]
    · intro hends
      rw [hends.1] at hfree
      cases hfree
  | @merged i hi hbelow hused hsame =>
    have hnot := hstop (fun _ => hused) (fun _ => hsame) fun k hk _ => hbelow k hk
    rw [linked_setLr (by omega) (ends_merge hused p).mpr, ends_merge hused]
    have hin : Ends (c.lr i) p → Linked c p := fun hends => ⟨i, by omega, hends⟩
    simp only [hnot, false_and, or_false, or_iff_right_iff_imp]
    exact hin
  | overflow hall =>
    have hnot : ¬ FreeFirst c := hstop (fun h => absurd h (lt_irrefl _))
      (fun h => absurd h (lt_irrefl _)) fun k _ hk => hall k hk
    simp only [hnot, false_and, or_false]
    exact Iff.rfl

/-! ## The owner of the timer interrupt -/

/-- Only the timer's own work keeps the interrupt active. -/
theorem dispatch_otherWork {numbers : InterruptNumbers} {input : List UInt8} {b b' : Board η}
    {p : ℕ} {deactivate : Bool} (hother : OtherWork numbers p)
    (h : dispatch numbers input b p = .ok (b', deactivate)) : deactivate = true := by
  unfold dispatch at h
  by_cases hpl011 : p = numbers.pl011
  · rw [if_pos hpl011] at h
    obtain ⟨_, -, h⟩ := Checked.bind_eq_ok.mp h
    cases h
    rfl
  rw [if_neg hpl011] at h
  by_cases hmaintenance : p = maintenanceInterruptIntid
  · rw [if_pos hmaintenance] at h
    obtain ⟨_, -, h⟩ := Checked.bind_eq_ok.mp h
    cases h
    rfl
  rw [if_neg hmaintenance] at h
  have hinject : p = injectInterruptIntId :=
    (hother.resolve_left hpl011).resolve_left hmaintenance
  rw [if_pos hinject] at h
  cases h
  rfl

theorem dispatch_timer {numbers : InterruptNumbers} {input : List UInt8} {b b' : Board η}
    {deactivate : Bool} (hown : ¬ OtherWork numbers numbers.genericTimer)
    (h : dispatch numbers input b numbers.genericTimer = .ok (b', deactivate)) :
    b.genericTimerInterruptHandler numbers.genericTimer = .ok b' ∧ deactivate = false := by
  obtain ⟨hpl011, hrest⟩ := not_or.mp hown
  obtain ⟨hmaintenance, hinject⟩ := not_or.mp hrest
  unfold dispatch at h
  rw [if_neg hpl011, if_neg hmaintenance, if_neg hinject, if_pos rfl] at h
  obtain ⟨_, hhandler, h⟩ := Checked.bind_eq_ok.mp h
  cases h
  exact ⟨hhandler, rfl⟩

/-- After the handler has processed the timer interrupt, the interrupt is deactivated or a
list register is tied to it exactly when one was before, when the virtual interrupt was
forwarded to a free register, or when the number is that of other work. -/
theorem irqHandler_owned_iff (numbers : InterruptNumbers) (input : List UInt8) (b : Board η)
    (out : Handled η) (h : irqHandler numbers input b numbers.genericTimer = .ok out) :
    Owned out numbers.genericTimer ↔
      OtherWork numbers numbers.genericTimer ∨ Linked b.cpu numbers.genericTimer ∨
        (Forwards b.redistributor b.cpu ∧ FreeFirst b.cpu ∧ numbers.genericTimer < 2 ^ 13) := by
  obtain ⟨⟨b', deactivate⟩, hdispatch, h⟩ := Checked.bind_eq_ok.mp h
  cases h
  by_cases hother : OtherWork numbers numbers.genericTimer
  · simp [Owned, dispatch_otherWork hother hdispatch, hother]
  · obtain ⟨hhandler, rfl⟩ := dispatch_timer hother hdispatch
    obtain ⟨⟨r, c⟩, htrigger, hb'⟩ := Checked.bind_eq_ok.mp hhandler
    cases hb'
    have hlinked : Linked c numbers.genericTimer ↔ Linked b.cpu numbers.genericTimer ∨
        (Forwards b.redistributor b.cpu ∧ FreeFirst b.cpu ∧ numbers.genericTimer < 2 ^ 13) := by
      rcases triggerTimer_spec htrigger with ⟨hforwards, group, priority, rfl⟩ | ⟨hnot, hsame⟩
      · rw [linked_addTimer]
        simp [hforwards]
      · rw [Linked.congr hsame]
        simp [hnot]
    simpa [Owned, hother, Board.setInterrupts, Board.cpu] using hlinked

/-- The numbers of the `virt` machine. -/
def virtNumbers : InterruptNumbers := ⟨33, 27⟩

/-- The sample machine once its guest has woken the redistributor and enabled the timer. -/
def timerBoard : Board Unit :=
  (sampleBoard sampleDevice.reset).setInterrupts .new
    { GicRedistributorMmio.new 0 with
      waker := 0
      enable := (1 : BitVec 32) <<< 27 } (.reset 0 3)

theorem irqHandler_owned_iff_timer :
    ∃ out, irqHandler virtNumbers [] timerBoard virtNumbers.genericTimer = .ok out ∧
      (Owned out virtNumbers.genericTimer ↔
        OtherWork virtNumbers virtNumbers.genericTimer ∨
          Linked timerBoard.cpu virtNumbers.genericTimer ∨
          (Forwards timerBoard.redistributor timerBoard.cpu ∧ FreeFirst timerBoard.cpu ∧
            virtNumbers.genericTimer < 2 ^ 13)) :=
  ⟨_, rfl, irqHandler_owned_iff virtNumbers [] timerBoard _ rfl⟩

/-- On the board as it is created the redistributor is asleep: the timer interrupt is
neither deactivated nor placed. -/
theorem timer_without_owner :
    samplePlatform.Reachable (sampleBoard sampleDevice.reset) ∧
      ∃ out, irqHandler virtNumbers [] (sampleBoard sampleDevice.reset)
          virtNumbers.genericTimer = .ok out ∧ ¬ Owned out virtNumbers.genericTimer := by
  refine ⟨reachable_boot, _, rfl, ?_⟩
  rintro (hdir | hlinked)
  · cases hdir
  · exact absurd hlinked (by decide)

end Min1visor.Exception
