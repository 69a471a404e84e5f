import Min1visor.VirtioBlkTurns
import Min1visor.Library.Runs

/-!
# A guest at its virtio device

What can happen around the device, in any order: the guest reads and writes the
registers, it stores to its RAM, also while the handler runs, the interrupt
controller changes in any way, and the handler takes its next turn. A register
access waits for the handler to return. The history is kept from the creation of the
device on.
-/
namespace Min1visor.Virtio
open Vgicv3 Gicv3Mmio

variable {η : Type}

inductive Event
  | read (offset : ℕ)
  | write (offset : ℕ) (value : BitVec 64)
  | store (address : ℕ) (value : UInt8)
  | interrupts (distributor : GicDistributorMmio) (cpu : CpuInterface)
  | turn

namespace Handler

/-- A write of a register, as far as the handler. -/
def writeRegister (vm : Vm.VM) (h : Handler η) (offset : ℕ) (value : BitVec 64) :
    Except Panic (Handler η) := do
  let (device, starts) ← h.world.device.write vm offset value
  return ⟨{ h.world with device := device }, .ok (if starts then .fetch else .returned)⟩

def guest (vm : Vm.VM) (body : FileBody η) (h : Handler η) : Event → Except Panic (Handler η)
  | .read offset =>
    if h.pc = .ok .returned then do
      let _ ← h.world.device.read offset
      return h
    else .ok h
  | .write offset value =>
    if h.pc = .ok .returned then h.writeRegister vm offset value else .ok h
  | .store address value =>
    match vm.getPhysicalAddress address with
    | some a => .ok { h with world := h.world.store a 1 value.toNat }
    | none => .ok h
  | .interrupts distributor cpu =>
    .ok { h with world := { h.world with distributor := distributor, cpu := cpu } }
  | .turn => .ok (h.step vm body)

/-- A machine with a new device. -/
def boot (w : World η) (device : VirtioBlkMmio) : Handler η :=
  ⟨{ w.begin with device := device }, .ok .returned⟩

end Handler

/-- What an event can do to the machine. -/
inductive GuestRule (vm : Vm.VM) (body : FileBody η) (h : Handler η) : Event → Handler η → Prop
  | same {e} : GuestRule vm body h e h
  | wrote {offset value v starts} (idle : h.pc = .ok .returned)
      (write : h.world.device.write vm offset value = .ok (v, starts)) :
      GuestRule vm body h (.write offset value)
        ⟨{ h.world with device := v }, .ok (if starts then .fetch else .returned)⟩
  | stored {address value a} (translated : vm.getPhysicalAddress address = some a) :
      GuestRule vm body h (.store address value) { h with world := h.world.store a 1 value.toNat }
  | interrupts {d c} : GuestRule vm body h (.interrupts d c)
      { h with world := { h.world with distributor := d, cpu := c } }
  | turn : GuestRule vm body h .turn (h.step vm body)

/-- An event that does not abort follows the rules. -/
theorem Handler.guest_rule {vm : Vm.VM} {body : FileBody η} {h h' : Handler η} {e : Event}
    (hstep : h.guest vm body e = .ok h') : GuestRule vm body h e h' := by
  cases e with
  | read offset =>
    simp only [Handler.guest] at hstep
    split_ifs at hstep
    · obtain ⟨value, -, hstep⟩ := Checked.bind_eq_ok.mp hstep
      cases hstep
      exact .same
    · cases hstep
      exact .same
  | write offset value =>
    simp only [Handler.guest] at hstep
    split_ifs at hstep with hidle
    · obtain ⟨⟨v, starts⟩, hwrite, hstep⟩ := Checked.bind_eq_ok.mp hstep
      cases hstep
      exact .wrote hidle hwrite
    · cases hstep
      exact .same
  | store address value =>
    simp only [Handler.guest] at hstep
    cases htranslate : vm.getPhysicalAddress address with
    | none =>
      rw [htranslate] at hstep
      cases hstep
      exact .same
    | some a =>
      rw [htranslate] at hstep
      cases hstep
      exact .stored htranslate
  | interrupts distributor cpu =>
    cases hstep
    exact .interrupts
  | turn =>
    cases hstep
    exact .turn

/-- The fields of a new device. -/
theorem VirtioBlkMmio.new_ok {file : Fat.FileInfo} {v : VirtioBlkMmio} (h : new file = .ok v) :
    v.descriptor = 0 ∧ v.availRing = 0 ∧ v.usedRing = 0 ∧ v.queueSize = 0 := by
  unfold new at h
  split_ifs at h
  cases h
  exact ⟨rfl, rfl, rfl, rfl⟩

/-- The links and heads that the guest writes are 16 bits wide. -/
theorem World.desc_next_lt (w : World η) (id : ℕ) : (w.desc id).next < 2 ^ 16 := Bytes.load_lt _ _ 2

theorem Vm.getPhysicalAddress_lt {vm : Vm.VM} {x a : ℕ} (h : vm.getPhysicalAddress x = some a) :
    vm.ramPhysicalBaseAddress ≤ a ∧ a < vm.ramPhysicalBaseAddress + vm.ramSize := by
  unfold Vm.VM.getPhysicalAddress at h
  split_ifs at h with hin
  cases h
  omega

/-! ## The set-up of the sample -/

/-- The registers that set up the queue of the sample, and a notification. -/
def setUp : List Event :=
  [.write virtioMmioGuestPageSize 4096, .write virtioMmioQueueNum 4,
    .write virtioMmioQueuePfn 0x40000, .write virtioMmioQueueNotify 0]

/-- The device of the sample before it has the address of its queue. -/
def sizedDevice : VirtioBlkMmio :=
  { sampleDevice.reset with
    pageSize := 4096
    queueSize := 4
    availRing := 64
    usedRing := 4096 }

/-- A register write of an idle machine. -/
theorem boot_write {vm : Vm.VM} {body : FileBody η} {w : World η} {v v' : VirtioBlkMmio} {offset : ℕ}
    {value : BitVec 64} (h : v.write vm offset value = .ok (v', false)) :
    Handler.guest vm body (.boot w v) (.write offset value) = .ok (.boot w v') := by
  simp [Handler.guest, Handler.boot, Handler.writeRegister, h]

/-- The steps of the set-up. -/
theorem setUp_steps (w : World Unit) :
    Handler.guest sampleVm sampleBody (.boot w sampleDevice.reset)
        (.write virtioMmioGuestPageSize 4096) =
      .ok (.boot w { sampleDevice.reset with pageSize := 4096 }) ∧
    Handler.guest sampleVm sampleBody (.boot w { sampleDevice.reset with pageSize := 4096 })
        (.write virtioMmioQueueNum 4) = .ok (.boot w sizedDevice) ∧
    Handler.guest sampleVm sampleBody (.boot w sizedDevice) (.write virtioMmioQueuePfn 0x40000) =
      .ok (.boot w sampleDevice) ∧
    Handler.guest sampleVm sampleBody (.boot w sampleDevice) (.write virtioMmioQueueNotify 0) =
      .ok ⟨{ w.begin with device := sampleDevice }, .ok .fetch⟩ :=
  ⟨boot_write rfl, boot_write rfl, boot_write (by decide), rfl⟩

/-- A run that starts with the set-up goes on as the handler does. -/
theorem along_setUp {cond : Handler Unit → Event → Prop} (w : World Unit) (events : List Event)
    (hpage : cond (.boot w sampleDevice.reset) (.write virtioMmioGuestPageSize 4096))
    (hnum : cond (.boot w { sampleDevice.reset with pageSize := 4096 }) (.write virtioMmioQueueNum 4))
    (hpfn : cond (.boot w sizedDevice) (.write virtioMmioQueuePfn 0x40000))
    (hnotify : cond (.boot w sampleDevice) (.write virtioMmioQueueNotify 0))
    (h : Runs.Along (Handler.guest sampleVm sampleBody) cond
      ⟨{ w.begin with device := sampleDevice }, .ok .fetch⟩ events) :
    Runs.Along (Handler.guest sampleVm sampleBody) cond (.boot w sampleDevice.reset)
      (setUp ++ events) := by
  obtain ⟨h1, h2, h3, h4⟩ := setUp_steps w
  exact Runs.along_cons_ok h1 hpage (Runs.along_cons_ok h2 hnum
    (Runs.along_cons_ok h3 hpfn (Runs.along_cons_ok h4 hnotify h)))

theorem run_setUp (w : World Unit) (events : List Event) :
    Runs.run (Handler.guest sampleVm sampleBody) (.boot w sampleDevice.reset) (setUp ++ events) =
      Runs.run (Handler.guest sampleVm sampleBody)
        ⟨{ w.begin with device := sampleDevice }, .ok .fetch⟩ events := by
  obtain ⟨h1, h2, h3, h4⟩ := setUp_steps w
  simp only [setUp, List.cons_append, List.nil_append, Runs.run_cons_ok _ h1, Runs.run_cons_ok _ h2,
    Runs.run_cons_ok _ h3, Runs.run_cons_ok _ h4]

end Min1visor.Virtio
