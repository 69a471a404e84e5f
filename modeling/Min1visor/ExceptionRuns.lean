import Min1visor.Exception

/-!
# Device registers in every run

The flag and status registers of the UART and the interrupt status of the block
device hold at most their one bit, whatever the guest writes. The descriptor table
stays in the RAM of the machine and the file stays the one it was created with.
-/
namespace Min1visor.Pl011

/-- A register that holds nothing but one bit. -/
def OnlyBit {w : ℕ} (k : ℕ) (x : BitVec w) : Prop := x = 0 ∨ x = BitVec.twoPow w k

theorem OnlyBit.and {w k : ℕ} {x : BitVec w} (h : OnlyBit k x) (y : BitVec w) :
    OnlyBit k (x &&& y) := by
  rcases h with rfl | rfl
  · exact .inl (by simp)
  · rw [BitVec.twoPow_and]
    split_ifs
    · exact .inr rfl
    · exact .inl rfl

theorem OnlyBit.and_congr {w k : ℕ} {x y z : BitVec w} (h : OnlyBit k x)
    (hbit : y.getLsbD k = z.getLsbD k) : x &&& y = x &&& z := by
  rcases h with rfl | rfl
  · simp
  · rw [BitVec.twoPow_and, BitVec.twoPow_and, hbit]

theorem OnlyBit.or {w k : ℕ} {x : BitVec w} (h : OnlyBit k x) :
    OnlyBit k (x ||| BitVec.twoPow w k) := by
  rcases h with rfl | rfl
  · exact .inr (by simp)
  · exact .inr (by simp)

theorem OnlyBit.toNat_lt {w k n : ℕ} {x : BitVec w} (h : OnlyBit k x) (hk : k < n) :
    x.toNat < 2 ^ n := by
  rcases h with rfl | rfl
  · simp
  · rw [BitVec.toNat_twoPow]
    exact (Nat.mod_le _ _).trans_lt (Nat.pow_lt_pow_right (by decide) hk)

namespace Pl011Mmio

/-- The registers that only the line sets. -/
structure Sound (p : Pl011Mmio) : Prop where
  flag : OnlyBit 4 p.flag
  rawInterruptStatus : OnlyBit 4 p.rawInterruptStatus

theorem sound_new : Sound .new := ⟨.inl rfl, .inl rfl⟩

theorem Sound.push {p : Pl011Mmio} (h : p.Sound) (data : UInt8) : (p.push data).1.Sound := by
  unfold Pl011Mmio.push
  dsimp only
  split_ifs
  · exact ⟨h.flag.and _, h.rawInterruptStatus.or⟩
  · exact ⟨h.flag.and _, h.rawInterruptStatus⟩

theorem Sound.read {p : Pl011Mmio} (h : p.Sound) (offset : ℕ) : (p.read offset).2.Sound := by
  by_cases hdr : offset = uartDr
  · subst hdr
    change p.readData.2.Sound
    unfold readData
    dsimp only
    split_ifs
    · exact ⟨h.flag.or, h.rawInterruptStatus.and _⟩
    · exact ⟨h.flag, h.rawInterruptStatus⟩
  · rwa [read_other p hdr]

theorem Sound.write {p : Pl011Mmio} (h : p.Sound) (offset value : ℕ) :
    (p.write offset value).1.Sound := by
  unfold Pl011Mmio.write
  split_ifs
  · exact h
  · exact ⟨h.flag, h.rawInterruptStatus⟩
  · exact ⟨h.flag, h.rawInterruptStatus⟩
  · exact ⟨h.flag, h.rawInterruptStatus.and _⟩
  · exact h

end Pl011Mmio

end Min1visor.Pl011

namespace Min1visor.Virtio
open Pl011

variable {η : Type}

/-- The fields of the device that its registers do not fill freely. -/
structure VirtioBlkMmio.Sound (file : Fat.FileInfo) (v : VirtioBlkMmio) : Prop where
  file : v.file = file
  interruptStatus : OnlyBit 0 v.interruptStatus
  descriptor : v.descriptor < 2 ^ 64

theorem VirtioBlkMmio.sound_new {file : Fat.FileInfo} {v : VirtioBlkMmio} (h : new file = .ok v) :
    v.Sound file := by
  unfold new at h
  split_ifs at h
  cases h
  exact ⟨rfl, .inl rfl, Nat.two_pow_pos _⟩

theorem VirtioBlkMmio.placeRings_fields {v v' : VirtioBlkMmio} (h : v.placeRings = .ok v') :
    v'.file = v.file ∧ v'.interruptStatus = v.interruptStatus ∧ v'.descriptor = v.descriptor := by
  obtain ⟨_, -, h⟩ := Checked.bind_eq_ok.mp h
  obtain ⟨_, -, h⟩ := Checked.bind_eq_ok.mp h
  obtain ⟨_, -, h⟩ := Checked.bind_eq_ok.mp h
  obtain ⟨_, -, h⟩ := Checked.bind_eq_ok.mp h
  obtain ⟨_, -, h⟩ := Checked.bind_eq_ok.mp h
  obtain ⟨_, -, h⟩ := Checked.bind_eq_ok.mp h
  obtain ⟨_, -, h⟩ := Checked.bind_eq_ok.mp h
  obtain ⟨_, -, h⟩ := Checked.bind_eq_ok.mp h
  cases h
  exact ⟨rfl, rfl, rfl⟩

theorem VirtioBlkMmio.Sound.write {file : Fat.FileInfo} {v v' : VirtioBlkMmio} {vm : Vm.VM}
    (hvm : vm.ramPhysicalBaseAddress + vm.ramSize ≤ 2 ^ 64) (hv : v.Sound file) {offset : ℕ}
    {value : BitVec 64} {starts : Bool} (h : v.write vm offset value = .ok (v', starts)) :
    v'.Sound file := by
  unfold VirtioBlkMmio.write at h
  split_ifs at h
  · cases h
    exact ⟨hv.file, hv.interruptStatus, hv.descriptor⟩
  · obtain ⟨placed, hplaced, h⟩ := Checked.bind_eq_ok.mp h
    cases h
    obtain ⟨hfile, hstatus, hdescriptor⟩ := placeRings_fields hplaced
    exact ⟨hfile.trans hv.file, hstatus ▸ hv.interruptStatus, hdescriptor ▸ hv.descriptor⟩
  · obtain ⟨x, -, h⟩ := Checked.bind_eq_ok.mp h
    cases ha : vm.getPhysicalAddress x with
    | none =>
      rw [ha] at h
      cases h
      exact hv
    | some a =>
      rw [ha] at h
      obtain ⟨placed, hplaced, h⟩ := Checked.bind_eq_ok.mp h
      cases h
      obtain ⟨hfile, hstatus, hdescriptor⟩ := placeRings_fields hplaced
      exact ⟨hfile.trans hv.file, hstatus ▸ hv.interruptStatus,
        hdescriptor ▸ (Vm.getPhysicalAddress_lt ha).2.trans_le hvm⟩
  · cases h
    exact hv
  · cases h
    exact ⟨hv.file, hv.interruptStatus.and _, hv.descriptor⟩
  · cases h
    exact ⟨hv.file, .inl rfl, Nat.two_pow_pos _⟩
  · cases h
    exact ⟨hv.file, hv.interruptStatus, hv.descriptor⟩
  · cases h
    exact hv

theorem FetchRule.onlyBit {vm : Vm.VM} {w w' : World η} {result : Except Fault Pc}
    (h : FetchRule vm w result w') (hbit : OnlyBit 0 w.device.interruptStatus) :
    OnlyBit 0 w'.device.interruptStatus := by
  cases h with
  | drained => exact hbit.or
  | interruptAborts => exact hbit.or
  | _ => exact hbit

theorem PublishRule.interruptStatus {w w' : World η} {id length : ℕ} {result : Except Fault Unit}
    (h : PublishRule w id length result w') :
    w'.device.interruptStatus = w.device.interruptStatus := by
  cases h <;> rfl

theorem WalkRule.interruptStatus {vm : Vm.VM} {w w' : World η} {r : Request}
    {result : Except Fault Pc} (h : WalkRule vm w r result w') :
    w'.device.interruptStatus = w.device.interruptStatus := by
  cases h with
  | status _ _ _ _ publish => exact publish.interruptStatus
  | noStatus _ _ _ publish => exact publish.interruptStatus
  | stopped _ _ _ _ _ access => rw [access.history.2]; rfl
  | accessed _ _ _ _ _ access => rw [access.history.2]; rfl
  | _ => rfl

/-- A turn of the handler keeps the device sound. -/
theorem Handler.step_sound {file : Fat.FileInfo} {h : Handler η} (vm : Vm.VM) (body : FileBody η)
    (hv : h.world.device.Sound file) : (h.step vm body).world.device.Sound file := by
  have hqueue := step_queue vm body h
  refine ⟨hqueue.file.trans hv.file, ?_, hqueue.descriptor ▸ hv.descriptor⟩
  cases hpc : h.pc with
  | error f =>
    rw [step_error hpc]
    exact hv.interruptStatus
  | ok pc =>
    cases pc with
    | fetch => exact (step_fetch vm body hpc).onlyBit hv.interruptStatus
    | walk r =>
      rw [(step_walk vm body hpc).interruptStatus]
      exact hv.interruptStatus
    | returned =>
      rw [step_returned hpc]
      exact hv.interruptStatus

end Min1visor.Virtio

namespace Min1visor.Exception
open Vgicv3 Gicv3Mmio Pl011 Virtio

variable {η : Type}

/-! ## The decoding of a data abort -/

/-- A data abort of the guest with a valid syndrome. -/
structure Syndrome.IsAccess (s : Syndrome) : Prop where
  dataAbort : s.esrEl2 &&& esrEl2Ec = esrEl2EcDataAbort
  valid : s.esrEl2 &&& esrEl2IssIsv ≠ 0

theorem Syndrome.registerNumber_lt (s : Syndrome) : s.registerNumber < 32 := by
  have h : (s.esrEl2 &&& esrEl2IssSrt).toNat ≤ esrEl2IssSrt.toNat := by
    rw [BitVec.toNat_and]
    exact Nat.and_le_right
  have hmask : esrEl2IssSrt.toNat = 31 * 2 ^ 16 := rfl
  rw [registerNumber, BitVec.toNat_ushiftRight, Nat.shiftRight_eq_div_pow,
    Nat.div_lt_iff_lt_mul (Nat.two_pow_pos _)]
  exact h.trans_lt (by rw [hmask]; decide)

theorem saveRegisters_get (x : GuestRegisters) (s : Syndrome) :
    (saveRegisters x).get s.registerNumber = .ok (x.getD s.registerNumber 0) := by
  rw [FixedArray.get, dif_pos s.registerNumber_lt]
  rfl

@[simp] theorem restore_save (x : GuestRegisters) : restoreRegisters (saveRegisters x) = x := by
  funext i
  simp [restoreRegisters, saveRegisters, FixedArray.getD]

/-- The value that a store passes on. -/
def Syndrome.storedValue (s : Syndrome) (x : GuestRegisters) : BitVec 64 :=
  if s.is64bitRegister then x.getD s.registerNumber 0 else x.getD s.registerNumber 0 &&& 0xFFFFFFFF

/-- A trapped store. -/
theorem trap_store (vm : Vm.VM) {s : Syndrome} (hs : s.IsAccess) (hw : s.isWriteAccess = true)
    {handler : MmioHandler} {offset : ℕ} (hat : deviceAt s.address = some (handler, offset))
    (x : GuestRegisters) (b : Board η) :
    synchronousLowerElAarch64 vm s x b = do
      let b ← handler.write vm b offset s.accessWidth (s.storedValue x)
      return (x, ← advanceElrEl2 s.elrEl2, b) := by
  rw [synchronousLowerElAarch64, synchronousHandler, if_pos hs.dataAbort, dataAbortHandler,
    if_neg hs.valid, saveRegisters_get]
  simp only [hw, handleMmioWrite, hat, Checked.ok_bind, if_true, Syndrome.storedValue]
  generalize hwrite : handler.write vm b offset s.accessWidth _ = written
  cases written with
  | error p => rfl
  | ok b =>
    cases advanceElrEl2 s.elrEl2 with
    | error p => rfl
    | ok elrEl2 => simp

/-- A trapped load. -/
theorem trap_load (vm : Vm.VM) {s : Syndrome} (hs : s.IsAccess) (hw : s.isWriteAccess = false)
    {handler : MmioHandler} {offset : ℕ} (hat : deviceAt s.address = some (handler, offset))
    (x : GuestRegisters) (b : Board η) :
    synchronousLowerElAarch64 vm s x b = do
      let (value, b) ← handler.read b offset s.accessWidth
      return (x.put s.registerNumber value, ← advanceElrEl2 s.elrEl2, b) := by
  rw [synchronousLowerElAarch64, synchronousHandler, if_pos hs.dataAbort, dataAbortHandler,
    if_neg hs.valid, saveRegisters_get]
  simp only [hw, handleMmioRead, hat, Checked.ok_bind, Bool.false_eq_true, if_false]
  cases handler.read b offset s.accessWidth with
  | error p => rfl
  | ok read =>
    obtain ⟨value, b⟩ := read
    simp only [Checked.ok_bind, Checked.pure_eq_ok,
      FixedArray.set_ok (saveRegisters x) value s.registerNumber_lt]
    cases advanceElrEl2 s.elrEl2 with
    | error p => rfl
    | ok elrEl2 =>
      have hput : restoreRegisters ((saveRegisters x).put s.registerNumber value) =
          x.put s.registerNumber value := by
        funext i
        simp [restoreRegisters, FixedArray.put, saveRegisters, FixedArray.getD]
      simp only [Checked.ok_bind, hput]

/-- What a trap that returns has done. -/
theorem trap_cases {vm : Vm.VM} {s : Syndrome} {x x' : GuestRegisters} {b b' : Board η}
    {elrEl2 : BitVec 64} (h : synchronousLowerElAarch64 vm s x b = .ok (x', elrEl2, b')) :
    ∃ handler offset, deviceAt s.address = some (handler, offset) ∧
      (handler.write vm b offset s.accessWidth (s.storedValue x) = .ok b' ∨
        ∃ value, handler.read b offset s.accessWidth = .ok (value, b')) := by
  obtain ⟨⟨registers, elr, b₁⟩, hsync, h'⟩ := Checked.bind_eq_ok.mp h
  cases h'
  by_cases hec : s.esrEl2 &&& esrEl2Ec = esrEl2EcDataAbort
  · rw [synchronousHandler, if_pos hec] at hsync
    by_cases hisv : s.esrEl2 &&& esrEl2IssIsv = 0
    · rw [dataAbortHandler, if_pos hisv] at hsync
      cases hsync
    · cases hat : deviceAt s.address with
      | none =>
        rw [dataAbortHandler, if_neg hisv, saveRegisters_get] at hsync
        simp only [handleMmioWrite, handleMmioRead, hat, Checked.ok_bind] at hsync
        split_ifs at hsync
      | some found =>
        obtain ⟨handler, offset⟩ := found
        refine ⟨handler, offset, rfl, ?_⟩
        cases hw : s.isWriteAccess with
        | true =>
          rw [trap_store vm ⟨hec, hisv⟩ hw hat] at h
          obtain ⟨b₂, hwrite, h⟩ := Checked.bind_eq_ok.mp h
          obtain ⟨_, -, h⟩ := Checked.bind_eq_ok.mp h
          cases h
          exact .inl hwrite
        | false =>
          rw [trap_load vm ⟨hec, hisv⟩ hw hat] at h
          obtain ⟨⟨value, b₂⟩, hread, h⟩ := Checked.bind_eq_ok.mp h
          obtain ⟨_, -, h⟩ := Checked.bind_eq_ok.mp h
          obtain ⟨-, -, rfl⟩ : _ ∧ _ ∧ b₂ = b' := by simpa using h
          exact .inr ⟨value, hread⟩
  · rw [synchronousHandler, if_neg hec] at hsync
    cases hsync

/-! ## The invariant -/

structure Board.Sound (p : Platform η) (b : Board η) : Prop where
  pl011 : b.pl011.Sound
  device : b.device.Sound p.file

theorem MmioHandler.read_sound {p : Platform η} {b b' : Board η} (hb : b.Sound p)
    {handler : MmioHandler} {offset accessWidth : ℕ} {value : BitVec 64}
    (h : handler.read b offset accessWidth = .ok (value, b')) : b'.Sound p := by
  cases handler with
  | pl011 =>
    cases h
    exact ⟨hb.pl011.read offset, hb.device⟩
  | virtioBlk =>
    obtain ⟨_, -, h⟩ := Checked.bind_eq_ok.mp h
    cases h
    exact hb
  | gicDistributor =>
    obtain ⟨_, -, h⟩ := Checked.bind_eq_ok.mp h
    cases h
    exact hb
  | gicRedistributor =>
    obtain ⟨_, -, h⟩ := Checked.bind_eq_ok.mp h
    cases h
    exact hb

theorem MmioHandler.write_sound {p : Platform η} {b b' : Board η} (hb : b.Sound p)
    {handler : MmioHandler} {offset accessWidth : ℕ} {value : BitVec 64}
    (h : handler.write p.vm b offset accessWidth value = .ok b') : b'.Sound p := by
  cases handler with
  | pl011 =>
    cases h
    exact ⟨hb.pl011.write offset _, hb.device⟩
  | virtioBlk =>
    obtain ⟨blk, hblk, h⟩ := Checked.bind_eq_ok.mp h
    obtain ⟨⟨device, starts⟩, hwrite, hblk⟩ := Checked.bind_eq_ok.mp hblk
    cases hblk
    cases h
    exact ⟨hb.pl011, hb.device.write p.ram_le hwrite⟩
  | gicDistributor =>
    obtain ⟨_, -, h⟩ := Checked.bind_eq_ok.mp h
    cases h
    exact ⟨hb.pl011, hb.device⟩
  | gicRedistributor =>
    obtain ⟨_, -, h⟩ := Checked.bind_eq_ok.mp h
    cases h
    exact ⟨hb.pl011, hb.device⟩

theorem Platform.createVm_sound {p : Platform η} {b : Board η} (h : p.createVm = .ok b) :
    b.Sound p := by
  obtain ⟨device, hdevice, h⟩ := Checked.bind_eq_ok.mp h
  cases h
  exact ⟨Pl011Mmio.sound_new, VirtioBlkMmio.sound_new hdevice⟩

theorem Platform.inputUart_sound {p : Platform η} {b b' : Board η} (hb : b.Sound p) {data : UInt8}
    (h : inputUart b data = .ok b') : b'.Sound p := by
  unfold inputUart at h
  dsimp only at h
  split_ifs at h
  · obtain ⟨_, -, h⟩ := Checked.bind_eq_ok.mp h
    cases h
    exact ⟨hb.pl011.push data, hb.device⟩
  · cases h
    exact ⟨hb.pl011.push data, hb.device⟩

theorem Platform.step_sound {p : Platform η} {b b' : Board η} {e : Event} (hb : b.Sound p)
    (h : p.step b e = .ok b') : b'.Sound p := by
  cases e with
  | trap s x =>
    simp only [step] at h
    split_ifs at h
    · obtain ⟨⟨x', elrEl2, b₁⟩, htrap, h⟩ := Checked.bind_eq_ok.mp h
      cases h
      obtain ⟨handler, offset, -, hwrite | ⟨value, hread⟩⟩ := trap_cases htrap
      · exact MmioHandler.write_sound hb hwrite
      · exact MmioHandler.read_sound hb hread
    · cases h
      exact hb
  | turn =>
    cases h
    exact ⟨hb.pl011, Handler.step_sound p.vm p.body hb.device⟩
  | store address value =>
    obtain ⟨blk, hblk, h⟩ := Checked.bind_eq_ok.mp h
    cases h
    simp only [Handler.guest] at hblk
    split at hblk
    · cases hblk
      exact ⟨hb.pl011, hb.device⟩
    · cases hblk
      exact hb
  | push data =>
    simp only [step] at h
    split_ifs at h
    · exact inputUart_sound hb h
    · cases h
      exact hb
  | interrupts distributor redistributor cpu =>
    cases h
    exact ⟨hb.pl011, hb.device⟩

/-- Every board that a run comes to is sound. -/
theorem Platform.Reachable.sound {p : Platform η} {b : Board η} (h : p.Reachable b) : b.Sound p := by
  obtain ⟨start, events, hstart, hrun⟩ := h
  exact Runs.run_preserves (Board.Sound p) (fun _ _ _ hb hstep => step_sound hb hstep) events
    start b (createVm_sound hstart) hrun

end Min1visor.Exception
