import Min1visor.ExceptionRuns
import Min1visor.Gicv3ReadBack

/-!
# The stored bits of a trapped store

A store of a byte or a halfword has garbage of the source register above the bits
that it stores. The trap handler cuts the register to 32 bits and leaves the rest to
the devices. Two values of the register are compared by what the trap leaves of the
board once every device is at rest again.
-/
namespace Min1visor.Exception
open Vgicv3 Gicv3Mmio Pl011 Virtio

variable {η : Type}

/-- The syndrome of a store: all but the doubleword are stored from a 32-bit register. -/
structure Syndrome.IsStore (s : Syndrome) : Prop extends s.IsAccess where
  write : s.isWriteAccess = true
  size : s.is64bitRegister = true ↔ s.accessWidth = 64

/-- The address of the next instruction is one. -/
def Syndrome.Returns (s : Syndrome) : Prop := s.elrEl2.toNat + 4 < 2 ^ 64

instance (s : Syndrome) : Decidable s.Returns := inferInstanceAs (Decidable (_ < _))

namespace Board

def turns (p : Platform η) (n : ℕ) (b : Board η) : Board η :=
  { b with blk := (Handler.step p.vm p.body)^[n] b.blk }

/-- The handler of the block device is not running. -/
def Done (b : Board η) : Prop := b.AtRest ∨ ∃ f, b.blk.pc = .error f

end Board

namespace Platform

/-- The board after a trap, as far as the start of the block device's handler. -/
def trap (p : Platform η) (s : Syndrome) (x : GuestRegisters) (b : Board η) :
    Except Panic (Board η) :=
  (synchronousLowerElAarch64 p.vm s x b).map fun result => result.2.2

/-- What is left once the handler of the block device has come to its end; an abort of
the hypervisor leaves nothing. -/
def Leaves (p : Platform η) : Except Panic (Board η) → Option (Board η) → Prop
  | .error _, left => left = none
  | .ok b, left => ∃ n, (b.turns p n).Done ∧ left = some (b.turns p n)

end Platform

/-- What the store leaves depends on the stored bits of the source register only. -/
def StoredBitsOnly (s : Syndrome) : Prop :=
  ∀ (η : Type) (p : Platform η) (b : Board η), p.Reachable b → b.AtRest →
    ∀ x y : GuestRegisters,
      (x.getD s.registerNumber 0).toNat % 2 ^ s.accessWidth =
        (y.getD s.registerNumber 0).toNat % 2 ^ s.accessWidth →
      ∀ left, p.Leaves (p.trap s x b) left ↔ p.Leaves (p.trap s y b) left

/-- The priority of one interrupt is the stored byte, the others are as before. -/
def SetsPriority (before after : ℕ → Except Panic ℕ) (intId value : ℕ) : Prop :=
  ∀ n, after n = if n = intId then .ok value else before n

/-- A byte stored to the priorities is the priority of one interrupt. -/
def OnePriorityOnly (s : Syndrome) : Prop :=
  ∀ (η : Type) (p : Platform η) (b b' : Board η), p.Reachable b → b.AtRest → s.accessWidth = 8 →
    ∀ x : GuestRegisters, p.trap s x b = .ok b' →
      (∀ offset, deviceAt s.address = some (.gicDistributor, offset) →
        gicdIpriorityr0 ≤ offset ∧ offset < gicdIpriorityr254 + 4 →
          SetsPriority b.distributor.getPriority b'.distributor.getPriority
            (offset - gicdIpriorityr0) ((x.getD s.registerNumber 0).toNat % 2 ^ 8)) ∧
      ∀ offset, deviceAt s.address = some (.gicRedistributor, offset) →
        gicrIpriorityr0 ≤ offset ∧ offset < gicrIpriorityr7 + 4 →
          SetsPriority b.redistributor.getPriority b'.redistributor.getPriority
            (offset - gicrIpriorityr0) ((x.getD s.registerNumber 0).toNat % 2 ^ 8)

/-- The registers at which a device does not look above the stored bits. -/
def Masks (accessWidth offset : ℕ) : MmioHandler → Prop
  | .pl011 => accessWidth = 8 → offset ≠ uartCr ∧ offset ≠ uartImsc
  | .virtioBlk => accessWidth < 32 →
    offset ∉ [virtioMmioGuestPageSize, virtioMmioQueueNum, virtioMmioQueuePfn,
      virtioMmioQueueNotify, virtioMmioStatus]
  | .gicDistributor => accessWidth = 8 →
    gicdIpriorityr0 ≤ offset ∧ offset < gicdIpriorityr254 + 4 → (offset - gicdIpriorityr0) % 4 = 3
  | .gicRedistributor => accessWidth = 8 →
    gicrIpriorityr0 ≤ offset ∧ offset < gicrIpriorityr7 + 4 → (offset - gicrIpriorityr0) % 4 = 3

/-! ## Values that agree on the stored bits -/

theorem Syndrome.accessWidth_cases (s : Syndrome) :
    s.accessWidth = 8 ∨ s.accessWidth = 16 ∨ s.accessWidth = 32 ∨ s.accessWidth = 64 := by
  unfold accessWidth
  split <;> simp

theorem and_low (x : BitVec 64) : (x &&& 0xFFFFFFFF).toNat = x.toNat % 2 ^ 32 := by
  rw [BitVec.toNat_and]
  exact Nat.and_two_pow_sub_one_eq_mod _ 32

/-- Words and doublewords reach a device as they were stored. -/
theorem storedValue_of_wide {s : Syndrome} (hs : s.IsStore) {x y : GuestRegisters}
    (hwide : ¬ s.accessWidth < 32)
    (h : (x.getD s.registerNumber 0).toNat % 2 ^ s.accessWidth =
      (y.getD s.registerNumber 0).toNat % 2 ^ s.accessWidth) :
    s.storedValue x = s.storedValue y := by
  apply BitVec.eq_of_toNat_eq
  unfold Syndrome.storedValue
  rcases s.accessWidth_cases with hw | hw | hw | hw
  · omega
  · omega
  · rw [if_neg (fun hsize => by have := hs.size.mp hsize; omega),
      if_neg (fun hsize => by have := hs.size.mp hsize; omega), and_low, and_low]
    rwa [hw] at h
  · rw [if_pos (hs.size.mpr hw), if_pos (hs.size.mpr hw)]
    rw [hw] at h
    omega

theorem storedValue_narrow {s : Syndrome} (hs : s.IsStore) (x : GuestRegisters)
    (hnarrow : s.accessWidth < 32) :
    (s.storedValue x).toNat = (x.getD s.registerNumber 0).toNat % 2 ^ 32 := by
  rw [Syndrome.storedValue, if_neg (fun hsize => by have := hs.size.mp hsize; omega), and_low]

theorem storedValue_mod {s : Syndrome} (hs : s.IsStore) (x : GuestRegisters)
    (hnarrow : s.accessWidth < 32) :
    (s.storedValue x).toNat % 2 ^ s.accessWidth =
      (x.getD s.registerNumber 0).toNat % 2 ^ s.accessWidth := by
  rw [storedValue_narrow hs x hnarrow]
  exact Nat.mod_mod_of_dvd _ (pow_dvd_pow 2 (by omega))

/-- The low bits of two values that agree on them. -/
theorem getLsbD_of_mod {x y : BitVec 64} {w : ℕ} (h : x.toNat % 2 ^ w = y.toNat % 2 ^ w) {i : ℕ}
    (hi : i < w) : x.getLsbD i = y.getLsbD i := by
  have hx : x.getLsbD i = (x.toNat % 2 ^ w).testBit i := by
    rw [Nat.testBit_mod_two_pow]
    simp [hi, BitVec.getLsbD]
  have hy : y.getLsbD i = (y.toNat % 2 ^ w).testBit i := by
    rw [Nat.testBit_mod_two_pow]
    simp [hi, BitVec.getLsbD]
  rw [hx, hy, h]

/-- A narrow write outside the priorities does nothing. -/
theorem distributor_write_elsewhere (d : GicDistributorMmio) (c : CpuInterface) {offset accessWidth : ℕ}
    (value : BitVec 64) (h32 : accessWidth ≠ 32) (h64 : accessWidth ≠ 64)
    (hout : accessWidth = 8 → ¬ (gicdIpriorityr0 ≤ offset ∧ offset < gicdIpriorityr254 + 4)) :
    d.write c offset accessWidth value = .ok (d, c) := by
  simp only [GicDistributorMmio.write, h32, h64, and_false, if_false]
  by_cases h8 : accessWidth = 8
  · rw [if_neg (hout h8)]
  · simp [h8]

theorem redistributor_write_elsewhere (r : GicRedistributorMmio) (c : CpuInterface) {offset accessWidth : ℕ}
    (value : BitVec 64) (h32 : accessWidth ≠ 32)
    (hout : accessWidth = 8 → ¬ (gicrIpriorityr0 ≤ offset ∧ offset < gicrIpriorityr7 + 4)) :
    r.write c offset accessWidth value = .ok (r, c) := by
  simp only [GicRedistributorMmio.write, h32, and_false, if_false]
  by_cases h8 : accessWidth = 8
  · rw [if_neg (hout h8)]
  · simp [h8]

theorem redistributor_write_ipriorityr (r : GicRedistributorMmio) (c : CpuInterface) {offset : ℕ}
    (value : BitVec 64) (h : gicrIpriorityr0 ≤ offset ∧ offset < gicrIpriorityr7 + 4) :
    r.write c offset 8 value = .ok ({ r with
      priority := r.priority.put ((offset - gicrIpriorityr0) / 4)
        (GicDistributorMmio.setPriorityByte (r.priority.getD ((offset - gicrIpriorityr0) / 4) 0)
          ((offset - gicrIpriorityr0) % 4 * 8) value) }, c) := by
  rw [r.write_ipriorityr c value 8 ⟨h.1, Nat.le_of_lt_succ h.2⟩, if_pos rfl]

/-- The low byte is all that reaches the top byte of a word. -/
theorem setPriorityByte_top (word : BitVec 32) {x y : BitVec 64}
    (h : x.toNat % 2 ^ 8 = y.toNat % 2 ^ 8) :
    GicDistributorMmio.setPriorityByte word (3 * 8) x =
      GicDistributorMmio.setPriorityByte word (3 * 8) y := by
  have hshift : (x <<< (3 * 8)).setWidth 32 = (y <<< (3 * 8)).setWidth 32 := by
    apply BitVec.eq_of_toNat_eq
    simp only [BitVec.toNat_setWidth, BitVec.toNat_shiftLeft, Nat.shiftLeft_eq]
    omega
  rw [GicDistributorMmio.setPriorityByte, hshift]
  rfl

theorem pl011_write_congr {p : Pl011Mmio} (hp : p.Sound) {w offset : ℕ} {x y : BitVec 64}
    (hw : w = 8 ∨ w = 16) (hmask : Masks w offset .pl011)
    (h : x.toNat % 2 ^ w = y.toNat % 2 ^ w) : p.write offset x.toNat = p.write offset y.toNat := by
  have hbyte : x.toNat % 2 ^ 8 = y.toNat % 2 ^ 8 := by
    rcases hw with rfl | rfl
    · exact h
    · omega
  have hhalf : w = 16 → BitVec.ofNat 16 x.toNat = BitVec.ofNat 16 y.toNat := by
    rintro rfl
    apply BitVec.eq_of_toNat_eq
    rwa [BitVec.toNat_ofNat, BitVec.toNat_ofNat]
  have hwide : offset = uartCr ∨ offset = uartImsc → w = 16 := by
    intro hoffset
    rcases hw with rfl | rfl
    · obtain ⟨hcr, himsc⟩ := hmask rfl
      tauto
    · rfl
  unfold Pl011Mmio.write
  split_ifs with hdr hcr himsc hicr
  · have hsent : UInt8.ofNat x.toNat = UInt8.ofNat y.toNat := by
      apply UInt8.toNat_inj.mp
      simpa using hbyte
    rw [hsent]
  · rw [hhalf (hwide (.inl hcr))]
  · rw [hhalf (hwide (.inr himsc))]
  · have hbit : (~~~(BitVec.ofNat 16 x.toNat)).getLsbD 4 =
        (~~~(BitVec.ofNat 16 y.toNat)).getLsbD 4 := by
      have hlow : x.toNat.testBit 4 = y.toNat.testBit 4 :=
        getLsbD_of_mod hbyte (show 4 < 8 by decide)
      simp only [BitVec.getLsbD_not, BitVec.getLsbD_ofNat, hlow]
    rw [hp.rawInterruptStatus.and_congr hbit]
  · rfl

theorem virtioBlk_write_congr {file : Fat.FileInfo} {v : VirtioBlkMmio} (hv : v.Sound file)
    (vm : Vm.VM) {w offset : ℕ} {x y : BitVec 64} (hw : w = 8 ∨ w = 16)
    (hmask : Masks w offset .virtioBlk) (h : x.toNat % 2 ^ w = y.toNat % 2 ^ w) :
    v.write vm offset x = v.write vm offset y := by
  have hlow : 0 < w ∧ w < 32 := by omega
  have hother := hmask hlow.2
  simp only [List.mem_cons, List.not_mem_nil, or_false, not_or] at hother
  obtain ⟨hpage, hnum, hpfn, hnotify, hstatus⟩ := hother
  simp only [VirtioBlkMmio.write, hpage, hnum, hpfn, hnotify, hstatus, if_false]
  have hbit : (~~~x.setWidth 32).getLsbD 0 = (~~~y.setWidth 32).getLsbD 0 := by
    have hx := getLsbD_of_mod h hlow.1
    simp only [BitVec.getLsbD_not, BitVec.getLsbD_setWidth, hx]
  rw [hv.interruptStatus.and_congr hbit]

/-- Where a device masks its register, narrow values that agree have one effect. -/
theorem write_congr {p : Platform η} {b : Board η} (hb : b.Sound p) {handler : MmioHandler}
    {w offset : ℕ} {x y : BitVec 64} (hw : w = 8 ∨ w = 16) (hmask : Masks w offset handler)
    (h : x.toNat % 2 ^ w = y.toNat % 2 ^ w) :
    handler.write p.vm b offset w x = handler.write p.vm b offset w y := by
  cases handler with
  | pl011 => simp only [MmioHandler.write, pl011_write_congr hb.pl011 hw hmask h]
  | virtioBlk =>
    have hwrite : b.blk.world.device.write p.vm offset x = b.blk.world.device.write p.vm offset y :=
      virtioBlk_write_congr hb.device p.vm hw hmask h
    simp only [MmioHandler.write, Handler.writeRegister, hwrite]
  | gicDistributor =>
    by_cases hin : w = 8 ∧ gicdIpriorityr0 ≤ offset ∧ offset < gicdIpriorityr254 + 4
    · obtain ⟨rfl, hin⟩ := hin
      have htop := hmask rfl hin
      have hwindow : GicDistributorMmio.inWindow offset gicdIpriorityr0 (gicdIpriorityr254 + 3) :=
        ⟨hin.1, Nat.le_of_lt_succ hin.2⟩
      simp only [MmioHandler.write, GicDistributorMmio.write_ipriorityr _ _ _ 8 hwindow, if_true, htop,
        setPriorityByte_top _ h]
    · simp only [MmioHandler.write]
      rw [distributor_write_elsewhere _ _ x (by omega) (by omega) (by tauto),
        distributor_write_elsewhere _ _ y (by omega) (by omega) (by tauto)]
  | gicRedistributor =>
    by_cases hin : w = 8 ∧ gicrIpriorityr0 ≤ offset ∧ offset < gicrIpriorityr7 + 4
    · obtain ⟨rfl, hin⟩ := hin
      have htop := hmask rfl hin
      simp only [MmioHandler.write, redistributor_write_ipriorityr _ _ _ hin, htop,
        setPriorityByte_top _ h]
    · simp only [MmioHandler.write]
      rw [redistributor_write_elsewhere _ _ x (by omega) (by tauto),
        redistributor_write_elsewhere _ _ y (by omega) (by tauto)]

/-! ## Where the stored bits are all that counts -/

/-- The condition: the store is of the zero register, or of the last instruction of the
address space, where the trap aborts, or of a register that its device masks. -/
def Confined (s : Syndrome) (handler : MmioHandler) (offset : ℕ) : Prop :=
  ¬ s.Returns ∨ s.registerNumber = 31 ∨ Masks s.accessWidth offset handler

theorem advanceElrEl2_ok {s : Syndrome} (h : s.Returns) :
    advanceElrEl2 s.elrEl2 = .ok (BitVec.ofNat 64 (s.elrEl2.toNat + 4)) := by
  rw [advanceElrEl2, Checked.add_ok h]
  rfl

theorem advanceElrEl2_error {s : Syndrome} (h : ¬ s.Returns) :
    advanceElrEl2 s.elrEl2 = .error .overflow := by
  rw [advanceElrEl2, Checked.add, if_neg (show ¬ s.elrEl2.toNat + 4 < 2 ^ 64 from h)]
  rfl

section Store
variable {s : Syndrome} {handler : MmioHandler} {offset : ℕ}

/-- A trapped store is the write of its device. -/
theorem trap_returns (hs : s.IsStore) (hat : deviceAt s.address = some (handler, offset))
    (hreturns : s.Returns) (p : Platform η) (x : GuestRegisters) (b : Board η) :
    p.trap s x b = handler.write p.vm b offset s.accessWidth (s.storedValue x) := by
  rw [Platform.trap, trap_store p.vm hs.toIsAccess hs.write hat, advanceElrEl2_ok hreturns]
  cases handler.write p.vm b offset s.accessWidth (s.storedValue x) <;> rfl

theorem trap_aborts (hs : s.IsStore) (hat : deviceAt s.address = some (handler, offset))
    (hreturns : ¬ s.Returns) (p : Platform η) (x : GuestRegisters) (b : Board η) :
    ∃ e, p.trap s x b = .error e := by
  rw [Platform.trap, trap_store p.vm hs.toIsAccess hs.write hat, advanceElrEl2_error hreturns]
  cases handler.write p.vm b offset s.accessWidth (s.storedValue x) with
  | error e => exact ⟨e, rfl⟩
  | ok b => exact ⟨_, rfl⟩

theorem storedValue_zero (hreg : s.registerNumber = 31) (x : GuestRegisters) :
    s.storedValue x = 0 := by
  have hzero : x.getD s.registerNumber 0 = 0 := by
    rw [hreg]
    rfl
  rw [Syndrome.storedValue, hzero]
  split_ifs <;> rfl

theorem storedBitsOnly_of_confined (hs : s.IsStore)
    (hat : deviceAt s.address = some (handler, offset)) (h : Confined s handler offset) :
    StoredBitsOnly s := by
  intro η p b hreach hrest x y hxy left
  by_cases hreturns : s.Returns
  · rw [trap_returns hs hat hreturns, trap_returns hs hat hreturns]
    have hwrite : handler.write p.vm b offset s.accessWidth (s.storedValue x) =
        handler.write p.vm b offset s.accessWidth (s.storedValue y) := by
      by_cases hnarrow : s.accessWidth < 32
      · rcases h with h | h | h
        · exact absurd hreturns h
        · rw [storedValue_zero h x, storedValue_zero h y]
        · refine write_congr hreach.sound ?_ h ?_
          · have := s.accessWidth_cases
            omega
          · rw [storedValue_mod hs x hnarrow, storedValue_mod hs y hnarrow, hxy]
      · rw [storedValue_of_wide hs hnarrow hxy]
    rw [hwrite]
  · obtain ⟨e, he⟩ := trap_aborts hs hat hreturns p x b
    obtain ⟨f, hf⟩ := trap_aborts hs hat hreturns p y b
    rw [he, hf]
    rfl

/-- The priority of an interrupt in an array of words. -/
def priorityByte {size : ℕ} (a : FixedArray (BitVec 32) size) (n : ℕ) : Except Panic ℕ := do
  return (((← a.get (n / 4)) >>> (n % 4 * 8)) &&& 0xFF).toNat

theorem priorityByte_ok {size : ℕ} (a : FixedArray (BitVec 32) size) {n : ℕ} (hn : n / 4 < size) :
    priorityByte a n = .ok (PackedFields.field 8 (a.getD (n / 4) 0) (n % 4)).toNat := by
  have hmask := congrArg BitVec.toNat
    (PackedFields.shiftRight_and_mask (w := 8) (a.getD (n / 4) 0) (n % 4))
  rw [BitVec.toNat_setWidth_of_le (by decide)] at hmask
  rw [priorityByte, a.get_ok 0 hn]
  exact congrArg Except.ok hmask

/-- A byte for one interrupt, in the array. -/
theorem setsPriority_put {size : ℕ} (a : FixedArray (BitVec 32) size) {intId : ℕ}
    (hid : intId / 4 < size) (value : BitVec 8) :
    SetsPriority (priorityByte a) (priorityByte (a.put (intId / 4)
      (PackedFields.replace (a.getD (intId / 4) 0) (intId % 4) value))) intId value.toNat := by
  intro n
  by_cases hn : n / 4 < size
  · rw [priorityByte_ok _ hn, priorityByte_ok _ hn,
      PackedFields.field_put a (by decide) (by decide) hid value n]
    split_ifs <;> rfl
  · have hne : n ≠ intId := fun h => hn (h ▸ hid)
    rw [if_neg hne, priorityByte, priorityByte, FixedArray.get, FixedArray.get, dif_neg hn, dif_neg hn]

/-- The byte write is the replacement of a field when no other bits reach the word. -/
theorem setPriorityByte_replace {w : BitVec 32} {intId : ℕ} {value : BitVec 64}
    (h : intId % 4 = 3 ∨ value = 0) :
    GicDistributorMmio.setPriorityByte w (intId % 4 * 8) value =
      PackedFields.replace w (intId % 4) (value.setWidth 8) := by
  rw [← Gicv3Refinement.setPriorityByte_eq]
  rcases h with h | rfl
  · rw [h]
    apply setPriorityByte_top
    rw [BitVec.toNat_setWidth, BitVec.toNat_setWidth]
    omega
  · rfl

theorem onePriorityOnly_of_confined (hs : s.IsStore)
    (hat : deviceAt s.address = some (handler, offset)) (h : Confined s handler offset) :
    OnePriorityOnly s := by
  intro η p b b' hreach hrest hwidth x htrap
  have hreturns : s.Returns := by
    by_contra hno
    obtain ⟨e, he⟩ := trap_aborts hs hat hno p x b
    rw [he] at htrap
    cases htrap
  rw [trap_returns hs hat hreturns, hwidth] at htrap
  have hvalue : ((s.storedValue x).setWidth 8).toNat =
      (x.getD s.registerNumber 0).toNat % 2 ^ 8 := by
    have hmod := storedValue_mod hs x (by omega)
    rw [hwidth] at hmod
    rw [BitVec.toNat_setWidth, hmod]
  have hfits : ∀ intId, (Masks 8 offset handler → intId % 4 = 3) →
      intId % 4 = 3 ∨ s.storedValue x = 0 := by
    intro intId hmask
    rcases h with h | h | h
    · exact absurd hreturns h
    · exact .inr (storedValue_zero h x)
    · exact .inl (hmask (hwidth ▸ h))
  rw [← hvalue]
  constructor
  · intro offset' hat' hin
    cases hat.symm.trans hat'
    have hwindow : GicDistributorMmio.inWindow offset gicdIpriorityr0 (gicdIpriorityr254 + 3) :=
      ⟨hin.1, Nat.le_of_lt_succ hin.2⟩
    simp only [MmioHandler.write, GicDistributorMmio.write_ipriorityr _ _ _ 8 hwindow,
      if_true] at htrap
    cases htrap
    rw [setPriorityByte_replace (hfits _ fun hmask => hmask rfl hin)]
    exact setsPriority_put _ (GicDistributorMmio.index_lt hwindow (by decide) (by decide)) _
  · intro offset' hat' hin
    cases hat.symm.trans hat'
    simp only [MmioHandler.write, redistributor_write_ipriorityr _ _ _ hin] at htrap
    cases htrap
    rw [setPriorityByte_replace (hfits _ fun hmask => hmask rfl hin)]
    refine setsPriority_put _ ?_ _
    have h1 : gicrIpriorityr0 = 0x10400 := rfl
    have h2 : gicrIpriorityr7 = 0x1041C := rfl
    omega

end Store

/-! ## Where a device looks above the stored bits -/

/-- A machine with the RAM and the file of the sample device. -/
def samplePlatform : Platform Unit where
  ram := 0x50000000
  ram_le := by decide
  file := ⟨2, 512⟩
  fileSize_lt := by decide
  body := sampleBody
  machine := ⟨fun _ => 0, (), ⟨fun _ => 0, fun _ n => n⟩⟩
  mpidrEl1 := 0
  cpu := .reset 0 3

/-- Its board, with the block device in a given state. -/
def sampleBoard (device : VirtioBlkMmio) : Board Unit where
  pl011 := .new
  console := []
  redistributor := .new 0
  blk := .boot (.start device fun _ => 0) device

theorem createVm_sample :
    samplePlatform.createVm = .ok (sampleBoard sampleDevice.reset) := rfl

theorem sampleBoard_atRest (device : VirtioBlkMmio) : (sampleBoard device).AtRest := rfl

theorem reachable_boot : samplePlatform.Reachable (sampleBoard sampleDevice.reset) :=
  ⟨_, [], createVm_sample, rfl⟩

/-- A store of `x0` with a given size field. -/
def storeEsr (size : BitVec 64) : BitVec 64 :=
  esrEl2EcDataAbort ||| esrEl2IssIsv ||| (size <<< esrEl2IssSasBitsOffset) ||| esrEl2IssWnr

def storeX0 (size : BitVec 64) (address : ℕ) : Syndrome where
  esrEl2 := storeEsr size
  hpfarEl2 := BitVec.ofNat 64 (address / 4096 * 16)
  farEl2 := BitVec.ofNat 64 (address % 4096)
  elrEl2 := 0

def byteStore : ℕ → Syndrome := storeX0 0b00

def wordStore : ℕ → Syndrome := storeX0 0b10

theorem storeX0_isStore {size : BitVec 64} (h : size = 0b00 ∨ size = 0b10) (address : ℕ) :
    (storeX0 size address).IsStore := by
  have hesr : (storeX0 size address).esrEl2 = storeEsr size := rfl
  rcases h with rfl | rfl
  · refine ⟨⟨?_, ?_⟩, ?_, ?_⟩ <;>
      simp only [Syndrome.isWriteAccess, Syndrome.is64bitRegister, Syndrome.accessWidth, hesr] <;>
      decide
  · refine ⟨⟨?_, ?_⟩, ?_, ?_⟩ <;>
      simp only [Syndrome.isWriteAccess, Syndrome.is64bitRegister, Syndrome.accessWidth, hesr] <;>
      decide

/-- A write of a register of the block device of the sample. -/
theorem write_sample {v v' : VirtioBlkMmio} {offset : ℕ} {value : BitVec 64}
    (h : v.write samplePlatform.vm offset value = .ok (v', false)) (accessWidth : ℕ) :
    MmioHandler.virtioBlk.write samplePlatform.vm (sampleBoard v) offset accessWidth value =
      .ok (sampleBoard v') := by
  have hv : (sampleBoard v).blk.world.device.write samplePlatform.vm offset value =
      .ok (v', false) := h
  simp only [MmioHandler.write, Handler.writeRegister, hv]
  rfl

theorem step_wordStore {v v' : VirtioBlkMmio} {offset : ℕ} {value : BitVec 64}
    (hat : deviceAt (wordStore (0xa000000 + offset)).address = some (.virtioBlk, offset))
    (hvalue : (wordStore (0xa000000 + offset)).storedValue (.fill 31 value) = value)
    (h : v.write samplePlatform.vm offset value = .ok (v', false)) :
    samplePlatform.step (sampleBoard v) (.trap (wordStore (0xa000000 + offset)) (.fill 31 value)) =
      .ok (sampleBoard v') := by
  have hs : (wordStore (0xa000000 + offset)).IsStore := storeX0_isStore (.inr rfl) _
  simp only [Platform.step, if_pos (sampleBoard_atRest v), trap_store _ hs.toIsAccess hs.write hat,
    hvalue, write_sample h]
  rfl

/-- The board with a queue that is set up. -/
theorem reachable_queue : samplePlatform.Reachable (sampleBoard sampleDevice) := by
  have hpage : samplePlatform.step (sampleBoard sampleDevice.reset)
      (.trap (wordStore (0xa000000 + virtioMmioGuestPageSize)) (.fill 31 4096)) =
      .ok (sampleBoard { sampleDevice.reset with pageSize := 4096 }) :=
    step_wordStore (by decide) (by decide) (by decide)
  have hnum : samplePlatform.step (sampleBoard { sampleDevice.reset with pageSize := 4096 })
      (.trap (wordStore (0xa000000 + virtioMmioQueueNum)) (.fill 31 4)) =
      .ok (sampleBoard sizedDevice) :=
    step_wordStore (by decide) (by decide) (by decide)
  have hpfn : samplePlatform.step (sampleBoard sizedDevice)
      (.trap (wordStore (0xa000000 + virtioMmioQueuePfn)) (.fill 31 0x40000)) =
      .ok (sampleBoard sampleDevice) :=
    step_wordStore (by decide) (by decide) (by decide)
  refine ⟨_, [.trap (wordStore (0xa000000 + virtioMmioGuestPageSize)) (.fill 31 4096),
    .trap (wordStore (0xa000000 + virtioMmioQueueNum)) (.fill 31 4),
    .trap (wordStore (0xa000000 + virtioMmioQueuePfn)) (.fill 31 0x40000)], createVm_sample, ?_⟩
  rw [Runs.run_cons_ok _ hpage, Runs.run_cons_ok _ hnum, Runs.run_cons_ok [] hpfn]
  rfl

theorem turns_of_done {p : Platform η} {b : Board η} (h : b.Done) (n : ℕ) : b.turns p n = b := by
  have hstep : Handler.step p.vm p.body b.blk = b.blk := by
    rcases h with h | ⟨f, h⟩
    · exact Handler.step_returned h
    · exact Handler.step_error h
  rw [Board.turns, Function.iterate_fixed hstep]

theorem leaves_of_done {p : Platform η} {b : Board η} (h : b.Done) (left : Option (Board η)) :
    p.Leaves (.ok b) left ↔ left = some b := by
  constructor
  · rintro ⟨n, -, hleft⟩
    rwa [turns_of_done h] at hleft
  · intro hleft
    exact ⟨0, h, hleft⟩

section Refute
variable {s : Syndrome} {handler : MmioHandler} {offset : ℕ} {b b₁ b₂ : Board Unit} {x y : BitVec 64}

theorem storedValue_fill (hs : s.IsStore) (hnarrow : s.accessWidth < 32)
    (hreg : s.registerNumber ≠ 31) (hx : x.toNat < 2 ^ 32) : s.storedValue (.fill 31 x) = x := by
  apply BitVec.eq_of_toNat_eq
  have hlt : s.registerNumber < 31 := by
    have := s.registerNumber_lt
    omega
  rw [storedValue_narrow hs _ hnarrow, FixedArray.getD_fill, if_pos hlt, Nat.mod_eq_of_lt hx]

variable (hs : s.IsStore) (hat : deviceAt s.address = some (handler, offset))
  (hreturns : s.Returns) (hreg : s.registerNumber ≠ 31)

include hs hat hreturns hreg

/-- Two values that agree on the stored bits and do not leave the same. -/
theorem not_storedBitsOnly (hnarrow : s.accessWidth < 32)
    (hreach : samplePlatform.Reachable b) (hrest : b.AtRest) (hx : x.toNat < 2 ^ 32)
    (hy : y.toNat < 2 ^ 32) (hxy : x.toNat % 2 ^ s.accessWidth = y.toNat % 2 ^ s.accessWidth)
    (hwx : handler.write samplePlatform.vm b offset s.accessWidth x = .ok b₁)
    (hwy : handler.write samplePlatform.vm b offset s.accessWidth y = .ok b₂) (hdone : b₂.Done)
    {left : Board Unit} (hleft : samplePlatform.Leaves (.ok b₁) (some left)) (hne : left ≠ b₂) :
    ¬ StoredBitsOnly s := by
  intro hbits
  have hlt : s.registerNumber < 31 := by
    have := s.registerNumber_lt
    omega
  have hsame := (hbits Unit samplePlatform b hreach hrest (.fill 31 x) (.fill 31 y) (by
    rw [FixedArray.getD_fill, FixedArray.getD_fill, if_pos hlt, if_pos hlt, hxy]) (some left)).mp
  rw [trap_returns hs hat hreturns, trap_returns hs hat hreturns,
    storedValue_fill hs hnarrow hreg hx, storedValue_fill hs hnarrow hreg hy, hwx, hwy] at hsame
  exact hne (Option.some.inj ((leaves_of_done hdone _).mp (hsame hleft)))

/-- A byte store on the new board, with the values 0 and 256. -/
theorem not_storedBitsOnly_byte (hwidth : s.accessWidth = 8)
    (hwx : handler.write samplePlatform.vm (sampleBoard sampleDevice.reset) offset 8 256 = .ok b₁)
    (hwy : handler.write samplePlatform.vm (sampleBoard sampleDevice.reset) offset 8 0 = .ok b₂)
    (hdone₁ : b₁.Done) (hdone : b₂.Done) (hne : b₁ ≠ b₂) : ¬ StoredBitsOnly s := by
  rw [← hwidth] at hwx hwy
  refine not_storedBitsOnly hs hat hreturns hreg (by omega) reachable_boot (sampleBoard_atRest _)
    (by decide) (by decide) ?_ hwx hwy hdone ((leaves_of_done hdone₁ _).mpr rfl) hne
  rw [hwidth]
  rfl

end Refute

/-- A byte below the top one also sets the byte above it. -/
theorem setPriorityByte_spills {k : ℕ} (hk : k < 3) :
    GicDistributorMmio.setPriorityByte 0 (k * 8) 256 ≠
      GicDistributorMmio.setPriorityByte 0 (k * 8) 0 := by
  interval_cases k <;> decide

section Devices
variable {s : Syndrome} {offset : ℕ} (hs : s.IsStore) (hreturns : s.Returns)
  (hreg : s.registerNumber ≠ 31)

include hs hreturns hreg

theorem pl011_looksAbove (hat : deviceAt s.address = some (.pl011, offset))
    (hmask : ¬ Masks s.accessWidth offset .pl011) : ¬ StoredBitsOnly s := by
  obtain ⟨hwidth, hoffset⟩ := Classical.not_imp.mp hmask
  have hcases : offset = uartCr ∨ offset = uartImsc := by tauto
  rcases hcases with rfl | rfl
  · exact not_storedBitsOnly_byte hs hat hreturns hreg hwidth rfl rfl (.inl rfl) (.inl rfl)
      fun h => absurd (congrArg (fun b => b.pl011.control) h) (by decide)
  · exact not_storedBitsOnly_byte hs hat hreturns hreg hwidth rfl rfl (.inl rfl) (.inl rfl)
      fun h => absurd (congrArg (fun b => b.pl011.interruptMask) h) (by decide)

theorem gicDistributor_looksAbove (hat : deviceAt s.address = some (.gicDistributor, offset))
    (hmask : ¬ Masks s.accessWidth offset .gicDistributor) : ¬ StoredBitsOnly s := by
  obtain ⟨hwidth, hmask⟩ := Classical.not_imp.mp hmask
  obtain ⟨hin, htop⟩ := Classical.not_imp.mp hmask
  have hwindow : GicDistributorMmio.inWindow offset gicdIpriorityr0 (gicdIpriorityr254 + 3) :=
    ⟨hin.1, Nat.le_of_lt_succ hin.2⟩
  have hindex : (offset - gicdIpriorityr0) / 4 < 255 :=
    GicDistributorMmio.index_lt hwindow (by decide) (by decide)
  have hdistributor : (sampleBoard sampleDevice.reset).distributor = .new := rfl
  have hzero : GicDistributorMmio.new.priority.getD ((offset - gicdIpriorityr0) / 4) 0 = 0 := by
    rw [GicDistributorMmio.new, FixedArray.getD_fill, if_pos hindex]
  have hwrite : ∀ value, MmioHandler.gicDistributor.write samplePlatform.vm
      (sampleBoard sampleDevice.reset) offset 8 value =
        .ok ((sampleBoard sampleDevice.reset).setInterrupts { GicDistributorMmio.new with
          priority := GicDistributorMmio.new.priority.put ((offset - gicdIpriorityr0) / 4)
            (GicDistributorMmio.setPriorityByte 0 ((offset - gicdIpriorityr0) % 4 * 8) value) }
          (.new 0) (.reset 0 3)) := by
    intro value
    simp only [MmioHandler.write, hdistributor,
      GicDistributorMmio.write_ipriorityr _ _ value 8 hwindow, if_true, hzero]
    rfl
  refine not_storedBitsOnly_byte hs hat hreturns hreg hwidth (hwrite 256) (hwrite 0) (.inl rfl)
    (.inl rfl) fun h => ?_
  have hword := congrArg
    (fun b : Board Unit => b.distributor.priority.getD ((offset - gicdIpriorityr0) / 4) 0) h
  simp only [Board.distributor, Board.setInterrupts, FixedArray.getD_put _ _ _ _ _ hindex,
    if_true] at hword
  exact setPriorityByte_spills (by omega) hword

theorem gicRedistributor_looksAbove (hat : deviceAt s.address = some (.gicRedistributor, offset))
    (hmask : ¬ Masks s.accessWidth offset .gicRedistributor) : ¬ StoredBitsOnly s := by
  obtain ⟨hwidth, hmask⟩ := Classical.not_imp.mp hmask
  obtain ⟨hin, htop⟩ := Classical.not_imp.mp hmask
  have hindex : (offset - gicrIpriorityr0) / 4 < 8 := by
    have h1 : gicrIpriorityr0 = 0x10400 := rfl
    have h2 : gicrIpriorityr7 = 0x1041C := rfl
    omega
  have hredistributor : (sampleBoard sampleDevice.reset).redistributor = .new 0 := rfl
  have hzero : (GicRedistributorMmio.new 0).priority.getD ((offset - gicrIpriorityr0) / 4) 0 = 0 := by
    rw [GicRedistributorMmio.new, FixedArray.getD_fill, if_pos hindex]
  have hwrite : ∀ value, MmioHandler.gicRedistributor.write samplePlatform.vm
      (sampleBoard sampleDevice.reset) offset 8 value =
        .ok ((sampleBoard sampleDevice.reset).setInterrupts .new { GicRedistributorMmio.new 0 with
          priority := (GicRedistributorMmio.new 0).priority.put ((offset - gicrIpriorityr0) / 4)
            (GicDistributorMmio.setPriorityByte 0 ((offset - gicrIpriorityr0) % 4 * 8) value) }
          (.reset 0 3)) := by
    intro value
    simp only [MmioHandler.write, hredistributor, redistributor_write_ipriorityr _ _ value hin, hzero]
    rfl
  refine not_storedBitsOnly_byte hs hat hreturns hreg hwidth (hwrite 256) (hwrite 0) (.inl rfl)
    (.inl rfl) fun h => ?_
  have hword := congrArg
    (fun b : Board Unit => b.redistributor.priority.getD ((offset - gicrIpriorityr0) / 4) 0) h
  simp only [Board.setInterrupts, FixedArray.getD_put _ _ _ _ _ hindex, if_true] at hword
  exact setPriorityByte_spills (by omega) hword

theorem virtioBlk_looksAbove (hat : deviceAt s.address = some (.virtioBlk, offset))
    (hmask : ¬ Masks s.accessWidth offset .virtioBlk) : ¬ StoredBitsOnly s := by
  obtain ⟨hnarrow, hoffset⟩ := Classical.not_imp.mp hmask
  have hmod : ∀ n m : ℕ, n % 2 ^ 16 = m % 2 ^ 16 → n % 2 ^ s.accessWidth = m % 2 ^ s.accessWidth := by
    intro n m h
    rcases s.accessWidth_cases with hw | hw | hw | hw <;> rw [hw] at hnarrow ⊢ <;> omega
  -- A register write of the new device that the two values turn into different devices.
  have hdevices : ∀ {x y : BitVec 64} {v₁ v₂ : VirtioBlkMmio}, x.toNat < 2 ^ 32 → y.toNat < 2 ^ 32 →
      x.toNat % 2 ^ 16 = y.toNat % 2 ^ 16 →
      sampleDevice.reset.write samplePlatform.vm offset x = .ok (v₁, false) →
      sampleDevice.reset.write samplePlatform.vm offset y = .ok (v₂, false) → v₁ ≠ v₂ →
      ¬ StoredBitsOnly s := by
    intro x y v₁ v₂ hx hy hxy hwx hwy hne
    exact not_storedBitsOnly hs hat hreturns hreg hnarrow reachable_boot (sampleBoard_atRest _) hx hy
      (hmod _ _ hxy) (write_sample hwx _) (write_sample hwy _) (.inl (sampleBoard_atRest _))
      ((leaves_of_done (.inl (sampleBoard_atRest _)) _).mpr rfl)
      fun h => hne (congrArg Board.device h)
  simp only [List.mem_cons, List.not_mem_nil, or_false, not_not] at hoffset
  rcases hoffset with rfl | rfl | rfl | rfl | rfl
  · exact hdevices (x := 0) (y := 0x10000) (by decide) (by decide) (by decide) rfl rfl (by decide)
  · exact hdevices (x := 0) (y := 0x10000) (by decide) (by decide) (by decide) rfl rfl (by decide)
  · exact hdevices (x := 0) (y := 0x40000) (by decide) (by decide) (by decide) rfl rfl (by decide)
  · -- With a queue set up, 0 starts the handler, which finds no entry and raises the interrupt.
    refine not_storedBitsOnly hs hat hreturns hreg hnarrow reachable_queue (sampleBoard_atRest _)
      (x := 0) (y := 0x10000) (by decide) (by decide) (hmod _ _ (by decide)) rfl rfl (.inl rfl)
      ⟨1, .inl (by decide), rfl⟩ fun h => ?_
    exact absurd (congrArg (fun b => b.device.interruptStatus) h) (by decide)
  · exact hdevices (x := 1) (y := 0x10001) (by decide) (by decide) (by decide) rfl rfl (by decide)

end Devices

/-- A store reaches its device as the stored bits alone, and a byte stored to the
priorities sets one of them, exactly when the store is confined. -/
theorem store_confined_iff {s : Syndrome} (hs : s.IsStore) {handler : MmioHandler} {offset : ℕ}
    (hat : deviceAt s.address = some (handler, offset)) :
    StoredBitsOnly s ∧ OnePriorityOnly s ↔ Confined s handler offset := by
  constructor
  · rintro ⟨hbits, -⟩
    by_contra hno
    simp only [Confined, not_or, not_not] at hno
    obtain ⟨hreturns, hreg, hmask⟩ := hno
    cases handler with
    | pl011 => exact pl011_looksAbove hs hreturns hreg hat hmask hbits
    | virtioBlk => exact virtioBlk_looksAbove hs hreturns hreg hat hmask hbits
    | gicDistributor => exact gicDistributor_looksAbove hs hreturns hreg hat hmask hbits
    | gicRedistributor => exact gicRedistributor_looksAbove hs hreturns hreg hat hmask hbits
  · intro h
    exact ⟨storedBitsOnly_of_confined hs hat h, onePriorityOnly_of_confined hs hat h⟩

/-- The byte of interrupt 3 is the top byte of its word. -/
theorem store_confined_top_byte :
    deviceAt (byteStore 0x8000403).address = some (.gicDistributor, 0x403) ∧
      StoredBitsOnly (byteStore 0x8000403) ∧ OnePriorityOnly (byteStore 0x8000403) :=
  ⟨by decide, (store_confined_iff (storeX0_isStore (.inl rfl) _)
    (show deviceAt (byteStore 0x8000403).address = some (.gicDistributor, 0x403) by decide)).mpr
    (.inr (.inr fun _ _ => rfl))⟩

/-- A byte store of `0x1234` to the priority of interrupt 0 also sets the one of
interrupt 1. -/
theorem byte_store_spills :
    deviceAt (byteStore 0x8000400).address = some (.gicDistributor, gicdIpriorityr0) ∧
    (byteStore 0x8000400).IsStore ∧ (byteStore 0x8000400).accessWidth = 8 ∧
    (∃ b, samplePlatform.trap (byteStore 0x8000400) (.fill 31 0x1234)
        (sampleBoard sampleDevice.reset) = .ok b ∧
      b.distributor.getPriority 0 = .ok 0x34 ∧ b.distributor.getPriority 1 = .ok 0x12 ∧
      (sampleBoard sampleDevice.reset).distributor.getPriority 1 = .ok 0) ∧
    ¬ StoredBitsOnly (byteStore 0x8000400) ∧ ¬ OnePriorityOnly (byteStore 0x8000400) := by
  have hs : (byteStore 0x8000400).IsStore := storeX0_isStore (.inl rfl) _
  have hat : deviceAt (byteStore 0x8000400).address = some (.gicDistributor, gicdIpriorityr0) := by
    decide
  obtain ⟨b, htrap, h0, h1⟩ : ∃ b, samplePlatform.trap (byteStore 0x8000400) (.fill 31 0x1234)
      (sampleBoard sampleDevice.reset) = .ok b ∧ b.distributor.getPriority 0 = .ok 0x34 ∧
        b.distributor.getPriority 1 = .ok 0x12 := by
    rw [trap_returns hs hat (by decide)]
    exact ⟨_, rfl, rfl, rfl⟩
  refine ⟨hat, hs, by decide, ⟨b, htrap, h0, h1, rfl⟩, ?_, ?_⟩
  · exact gicDistributor_looksAbove hs (by decide) (by decide) hat
      fun hmask => absurd (hmask (by decide) (by decide)) (by decide)
  · intro hone
    have hset := (hone Unit samplePlatform _ b reachable_boot (sampleBoard_atRest _) (by decide) _
      htrap).1 _ hat (by decide) 1
    rw [h1] at hset
    exact absurd hset (by decide)

end Min1visor.Exception
