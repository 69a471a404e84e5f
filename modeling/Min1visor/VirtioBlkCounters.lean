import Min1visor.VirtioBlkCompletion
import Min1visor.VirtioBlkDriver
import Min1visor.VirtioBlkGuest

/-!
# The counters of the rings

Both sides of a virtqueue keep 16-bit counters of the entries that they have handled.
A slot of a ring is the remainder of its counter by the size of the queue. None of the
counters wraps: the entry behind the last value of a counter aborts, on either side.
-/
namespace Min1visor.Virtio
open Vgicv3 Gicv3Mmio

variable {η : Type} {vm : Vm.VM} {body : FileBody η}

/-- The write that resets the device, and its counters with it. -/
def Event.Resets : Event → Prop
  | .write offset value => offset = virtioMmioStatus ∧ value = 0
  | _ => False

/-- A turn took the entry with number `k` out of its slot of the available ring. -/
structure ConsumedAt (n k : ℕ) (h h' : Handler η) : Prop where
  entry : h'.world.history.consumed = h.world.history.consumed ++
    [some (Bytes.load h.world.machine.mem (h.world.device.availRing + 4 + 2 * (k % n)) 2)]
  before : h.world.device.lastAvailId = k % 2 ^ 16
  after : h'.world.device.lastAvailId = (k + 1) % 2 ^ 16

/-- The turn of the inner loop comes to the used ring. -/
structure Completes (vm : Vm.VM) (w : World η) (r : Request) : Prop where
  readable : w.Readable r.descriptor.next
  last : (w.desc r.descriptor.next).flags &&& virtQueueDescFlagsNext = 0
  size : ∀ a, vm.getPhysicalAddress (w.desc r.descriptor.next).address = some a →
    r.totalSize + (w.desc r.descriptor.next).length < 2 ^ 32

/-- A turn put the used element with number `k` into its slot of the used ring. -/
structure CompletedAt (n k : ℕ) (r : Request) (h h' : Handler η) : Prop where
  goesOn : h'.pc = .ok .fetch
  element : Bytes.load h'.world.machine.mem (h.world.device.usedRing + 4 + 8 * (k % n)) 4 =
    r.descriptorId % 2 ^ 32
  idx : Bytes.load h'.world.machine.mem (h.world.device.usedRing + 2) 2 = (k + 1) % 2 ^ 16
  before : h.world.device.usedId = k % 2 ^ 16
  after : h'.world.device.usedId = (k + 1) % 2 ^ 16

/-! ## The counters and the history -/

/-- The counters of the rings have moved on with the history since `w`. -/
structure Counted (w w' : World η) : Prop where
  consumed : w'.device.lastAvailId = w.device.lastAvailId + w'.history.consumed.length
  published : w'.device.usedId = w.device.usedId + w'.history.published.length

theorem Counted.begin (w : World η) : Counted w w.begin := ⟨rfl, rfl⟩

/-- A state in which the counters and the history are the same is counted as well. -/
theorem Counted.congr {w₀ w w' : World η} (hw : Counted w₀ w)
    (hlast : w'.device.lastAvailId = w.device.lastAvailId) (hused : w'.device.usedId = w.device.usedId)
    (hconsumed : w'.history.consumed = w.history.consumed)
    (hpublished : w'.history.published = w.history.published) : Counted w₀ w' := by
  refine ⟨?_, ?_⟩
  · rw [hlast, hconsumed, hw.consumed]
  · rw [hused, hpublished, hw.published]

/-- One more entry is consumed. -/
theorem Counted.consume {w₀ w w' : World η} {head : Option ℕ} (hw : Counted w₀ w)
    (hlast : w'.device.lastAvailId = w.device.lastAvailId + 1)
    (hused : w'.device.usedId = w.device.usedId)
    (hconsumed : w'.history.consumed = w.history.consumed ++ [head])
    (hpublished : w'.history.published = w.history.published) : Counted w₀ w' := by
  refine ⟨?_, ?_⟩
  · rw [hlast, hconsumed, hw.consumed, List.length_append]
    rfl
  · rw [hused, hpublished, hw.published]

theorem FetchRule.counted {w₀ w w' : World η} {pc : Pc} (h : FetchRule vm w (.ok pc) w')
    (hw : Counted w₀ w) : Counted w₀ w' := by
  cases h with
  | drained => exact hw.congr rfl rfl rfl rfl
  | noRing | noTable | badHeader | noNext | started => exact hw.consume rfl rfl rfl rfl

theorem PublishRule.counted {w₀ w w' : World η} {id length : ℕ}
    (h : PublishRule w id length (.ok ()) w') (hw : Counted w₀ w) : Counted w₀ w' := by
  cases h with
  | published =>
    refine ⟨hw.consumed, ?_⟩
    change w.device.usedId + 1 = _ + (w.history.published ++ [id]).length
    rw [hw.published, List.length_append]
    rfl

theorem WalkRule.counted {w₀ w w' : World η} {r : Request} {result : Except Fault Pc} {pc : Pc}
    (h : WalkRule vm w r result w') (hpc : result = .ok pc) (hw : Counted w₀ w) :
    Counted w₀ w' := by
  cases h with
  | noTable => exact hw
  | @status a result w' _ _ _ _ publish =>
    cases result with
    | ok => exact publish.counted (hw.congr rfl rfl rfl rfl)
    | error => cases hpc
  | @noStatus result w' _ _ _ publish =>
    cases result with
    | ok => exact publish.counted (hw.congr rfl rfl rfl rfl)
    | error => cases hpc
  | untranslated => exact hw.congr rfl rfl rfl rfl
  | accessed _ _ _ _ _ access =>
    obtain ⟨hhistory, hdevice⟩ := access.history
    refine hw.congr ?_ ?_ ?_ ?_
    · rw [hdevice]
      rfl
    · rw [hdevice]
      rfl
    · rw [hhistory]
      rfl
    · rw [hhistory]
      rfl
  | _ => cases hpc

/-! ## The registers -/

/-- A queue with slots has its available ring below the top of the address space. -/
def RingPlaced (v : VirtioBlkMmio) : Prop :=
  v.queueSize ≠ 0 → 0 < v.availRing ∧ v.availRing + 2 * (3 + v.queueSize) < 2 ^ 64

theorem RingPlaced.congr {v v' : VirtioBlkMmio} (h : RingPlaced v) (hqueue : SameQueue v v') :
    RingPlaced v' := by
  unfold RingPlaced
  rw [hqueue.queueSize, hqueue.availRing]
  exact h

/-- What `placeRings` leaves. -/
theorem placeRings_ok {v v' : VirtioBlkMmio} (h : v.placeRings = .ok v') :
    RingPlaced v' ∧ v'.lastAvailId = v.lastAvailId ∧ v'.usedId = v.usedId := by
  obtain ⟨table, htable, h⟩ := Checked.bind_eq_ok.mp h
  obtain ⟨availRing, havail, h⟩ := Checked.bind_eq_ok.mp h
  obtain ⟨entries, hentries, h⟩ := Checked.bind_eq_ok.mp h
  obtain ⟨size, hsize, h⟩ := Checked.bind_eq_ok.mp h
  obtain ⟨last, hlast, h⟩ := Checked.bind_eq_ok.mp h
  obtain ⟨before, hbefore, h⟩ := Checked.bind_eq_ok.mp h
  obtain ⟨mask, hmask, h⟩ := Checked.bind_eq_ok.mp h
  obtain ⟨usedRing, hused, h⟩ := Checked.bind_eq_ok.mp h
  cases h
  refine ⟨fun hsome => ?_, rfl, rfl⟩
  obtain ⟨-, rfl⟩ := Checked.mul_eq_ok.mp htable
  obtain ⟨-, rfl⟩ := Checked.add_eq_ok.mp havail
  obtain ⟨-, rfl⟩ := Checked.add_eq_ok.mp hentries
  obtain ⟨-, rfl⟩ := Checked.mul_eq_ok.mp hsize
  obtain ⟨hfits, -⟩ := Checked.add_eq_ok.mp hlast
  have hsize : 0 < sizeOfDesc * v.queueSize := Nat.mul_pos (by decide) (Nat.pos_of_ne_zero hsome)
  exact ⟨by dsimp only; omega, hfits⟩

/-- A write other than a reset keeps the counters. -/
theorem VirtioBlkMmio.write_keeps {v : VirtioBlkMmio} (hring : RingPlaced v) {offset : ℕ}
    {value : BitVec 64} (hreset : ¬ (offset = virtioMmioStatus ∧ value = 0)) :
    ∀ r, v.write vm offset value = .ok r →
      RingPlaced r.1 ∧ r.1.lastAvailId = v.lastAvailId ∧ r.1.usedId = v.usedId := by
  unfold VirtioBlkMmio.write
  refine Checked.forall_ite (fun _ r h => ?_) fun _ => ?_
  · cases h
    exact ⟨hring, rfl, rfl⟩
  refine Checked.forall_ite (fun _ r h => ?_) fun _ => ?_
  · obtain ⟨v', hv', h⟩ := Checked.bind_eq_ok.mp h
    cases h
    obtain ⟨hplaced, hlast, hused⟩ := placeRings_ok hv'
    exact ⟨hplaced, hlast, hused⟩
  refine Checked.forall_ite (fun _ r h => ?_) fun _ => ?_
  · obtain ⟨page, -, h⟩ := Checked.bind_eq_ok.mp h
    cases haddress : vm.getPhysicalAddress page with
    | none =>
      rw [haddress] at h
      cases h
      exact ⟨hring, rfl, rfl⟩
    | some a =>
      rw [haddress] at h
      obtain ⟨v', hv', h⟩ := Checked.bind_eq_ok.mp h
      cases h
      obtain ⟨hplaced, hlast, hused⟩ := placeRings_ok hv'
      exact ⟨hplaced, hlast, hused⟩
  refine Checked.forall_ite (fun _ r h => ?_) fun _ => ?_
  · cases h
    exact ⟨hring, rfl, rfl⟩
  refine Checked.forall_ite (fun _ r h => ?_) fun _ => ?_
  · cases h
    exact ⟨hring, rfl, rfl⟩
  refine Checked.forall_ite (fun hstatus => ?_) fun _ r h => ?_
  · refine Checked.forall_ite (fun hzero => absurd ⟨hstatus, hzero⟩ hreset) fun _ r h => ?_
    cases h
    exact ⟨hring, rfl, rfl⟩
  · cases h
    exact ⟨hring, rfl, rfl⟩

/-! ## Runs without a reset -/

/-- The counters have moved on with the history since `w₀`. -/
structure Counting (w₀ : World η) (h : Handler η) : Prop where
  ring : RingPlaced h.world.device
  counted : ∀ pc, h.pc = .ok pc → Counted w₀ h.world

theorem Counting.boot (w : World η) (v : VirtioBlkMmio) :
    Counting (Handler.boot w v.reset).world (.boot w v.reset) :=
  ⟨fun h => absurd rfl h, fun _ _ => ⟨rfl, rfl⟩⟩

/-- A turn of the handler. -/
theorem Counting.step {w₀ : World η} {h : Handler η} (hc : Counting w₀ h) :
    Counting w₀ (h.step vm body) := by
  refine ⟨hc.ring.congr (Handler.step_queue vm body h), fun after hafter => ?_⟩
  cases hpc : h.pc with
  | error f =>
    rw [Handler.step_error hpc, hpc] at hafter
    cases hafter
  | ok pc =>
    have hcounted := hc.counted pc hpc
    cases pc with
    | fetch =>
      have hrule := Handler.step_fetch vm body hpc
      rw [hafter] at hrule
      exact hrule.counted hcounted
    | walk r => exact (Handler.step_walk vm body hpc).counted hafter hcounted
    | returned =>
      rw [Handler.step_returned hpc]
      exact hcounted

/-- One step of the machine. -/
theorem Counting.guest {w₀ : World η} {h h' : Handler η} {e : Event} (hc : Counting w₀ h)
    (hreset : ¬ e.Resets) (hstep : h.guest vm body e = .ok h') : Counting w₀ h' := by
  cases Handler.guest_rule hstep with
  | same => exact hc
  | wrote idle write =>
    obtain ⟨hring, hlast, hused⟩ := VirtioBlkMmio.write_keeps hc.ring hreset _ write
    exact ⟨hring, fun _ _ => (hc.counted _ idle).congr hlast hused rfl rfl⟩
  | stored => exact ⟨hc.ring, fun pc hpc => (hc.counted pc hpc).congr rfl rfl rfl rfl⟩
  | interrupts => exact ⟨hc.ring, fun pc hpc => (hc.counted pc hpc).congr rfl rfl rfl rfl⟩
  | turn => exact hc.step

theorem Counting.run (w : World η) (v : VirtioBlkMmio) {events : List Event} {h : Handler η}
    (hreset : ∀ e ∈ events, ¬ e.Resets)
    (hrun : Runs.run (Handler.guest vm body) (.boot w v.reset) events = .ok h) :
    Counting (Handler.boot w v.reset).world h :=
  Runs.run_invariant (Counting (Handler.boot w v.reset).world)
    (fun _ _ _ hc hreset hstep => hc.guest hreset hstep) events _ h (.boot w v)
    (Runs.along_of_forall hreset _) hrun

/-! ## A turn with a new entry -/

/-- The counter of the available ring stands at its last value, or the entry is taken. -/
theorem FetchRule.consumes {w w' : World η} {pc : Except Fault Pc} (h : FetchRule vm w pc w')
    (hnew : w.device.lastAvailId ≠ w.availIndex) (hslots : w.slots ≠ 0)
    (hring : w.device.availRing ≠ 0) (hslot : w.availSlot < 2 ^ 64) :
    (¬ w.device.lastAvailId + 1 < 2 ^ 16 ∧ w'.history.consumed = w.history.consumed) ∨
      (w.device.lastAvailId + 1 < 2 ^ 16 ∧
        w'.history.consumed = w.history.consumed ++ [some w.head] ∧
        w'.device.lastAvailId = w.device.lastAvailId + 1) := by
  cases h with
  | drained empty => exact absurd empty hnew
  | interruptAborts empty => exact absurd empty hnew
  | noSlots _ slots => exact absurd slots hslots
  | counter _ _ last => exact .inl ⟨last, rfl⟩
  | noRing _ ring => exact absurd ring hring
  | slotOverflow _ _ slot => exact absurd hslot slot
  | noTable takes | entryOverflow takes | badHeader takes | noNext takes | started takes =>
    exact .inr ⟨takes.counter, rfl, rfl⟩

/-- The turn that starts a request. -/
theorem FetchRule.eq_started {w w' : World η} {pc : Except Fault Pc} {blkReq : ℕ}
    (h : FetchRule vm w pc w') (htakes : w.Takes) (hreadable : w.Readable w.head)
    (hlength : (w.desc w.head).length = sizeOfReq)
    (haddress : vm.getPhysicalAddress (w.desc w.head).address = some blkReq)
    (hnext : (w.desc w.head).flags &&& virtQueueDescFlagsNext ≠ 0) :
    pc = .ok (.walk (w.request blkReq)) ∧
      w' = (w.taken.visited w.head).touch ⟨blkReq, sizeOfReq⟩ := by
  cases h with
  | drained empty | interruptAborts empty => exact absurd empty htakes.new
  | noSlots _ slots => exact absurd slots htakes.slots
  | counter _ _ last => exact absurd htakes.counter last
  | noRing _ ring => exact absurd ring htakes.ring
  | slotOverflow _ _ slot => exact absurd htakes.slot slot
  | noTable _ table => exact absurd table hreadable.table
  | entryOverflow _ _ entry => exact absurd hreadable.entry entry
  | badHeader _ _ bad =>
    rcases bad with bad | bad
    · exact absurd hlength bad
    · rw [haddress] at bad
      cases bad
  | noNext _ _ _ _ next => exact absurd next hnext
  | started _ _ _ address =>
    cases haddress.symm.trans address
    exact ⟨rfl, rfl⟩

/-- The turn that writes the status of a request. -/
theorem WalkRule.eq_status {w w' : World η} {r : Request} {pc : Except Fault Pc} {a : ℕ}
    (h : WalkRule vm w r pc w') (hreadable : w.Readable r.descriptor.next)
    (hlast : (w.desc r.descriptor.next).flags &&& virtQueueDescFlagsNext = 0)
    (haddress : vm.getPhysicalAddress (w.desc r.descriptor.next).address = some a)
    (hlength : r.totalSize + (w.desc r.descriptor.next).length < 2 ^ 32) :
    ∃ result, PublishRule ((w.visited r.descriptor.next).stored a 1 r.status.toNat)
      r.descriptorId (r.totalSize + (w.desc r.descriptor.next).length) result w' ∧
      pc = result.map fun _ => .fetch := by
  cases h with
  | noTable table => exact absurd table hreadable.table
  | entryOverflow _ entry => exact absurd hreadable.entry entry
  | statusOverflow _ _ _ length => exact absurd hlength length
  | status _ _ address _ publish =>
    cases haddress.symm.trans address
    exact ⟨_, publish, rfl⟩
  | noStatus _ _ address => cases haddress.symm.trans address
  | sizeOverflow _ next | untranslated _ next | offsetOverflow _ next | stopped _ next
  | accessed _ next => exact absurd hlast next

/-- The turn that finds no new entry. -/
theorem FetchRule.eq_drained {w w' : World η} {pc : Except Fault Pc} {d : GicDistributorMmio}
    {c : CpuInterface} (h : FetchRule vm w pc w') (hempty : w.device.lastAvailId = w.availIndex)
    (htrigger : w.distributor.triggerInterrupt w.cpu virtioBlkIntId none = .ok (d, c)) :
    pc = .ok .returned ∧ w' = w.polled.triggered d c := by
  cases h with
  | drained _ trigger =>
    cases htrigger.symm.trans trigger
    exact ⟨rfl, rfl⟩
  | interruptAborts _ trigger => cases htrigger.symm.trans trigger
  | noSlots new | counter new => exact absurd hempty new
  | noRing advances | slotOverflow advances => exact absurd hempty advances.new
  | noTable takes | entryOverflow takes | badHeader takes | noNext takes | started takes =>
    exact absurd hempty takes.new

/-- Either counter of a queue with slots, as the fields of the source see it. -/
theorem slots_eq {w : World η} {j : ℕ} (hj : j ≤ 10) (hsize : w.device.queueSize = 2 ^ j) :
    w.slots = 2 ^ j := by
  have hle : 2 ^ j ≤ 2 ^ 10 := Nat.pow_le_pow_right (by decide) hj
  rw [World.slots, hsize]
  exact Nat.mod_eq_of_lt (by omega)

/-- A turn of the outer loop that finds a new entry. -/
theorem Counting.consumedAt_iff {w : World η} {v : VirtioBlkMmio} {h : Handler η}
    (hc : Counting (Handler.boot w v.reset).world h) {j : ℕ} (hj : j ≤ 10)
    (hsize : h.world.device.queueSize = 2 ^ j) (hpc : h.pc = .ok .fetch)
    (hnew : h.world.device.lastAvailId ≠ h.world.availIndex) :
    ConsumedAt (2 ^ j) h.world.history.consumed.length h (h.step vm body) ↔
      h.world.history.consumed.length < 65535 := by
  have hslots := slots_eq hj hsize
  have hpos : 0 < 2 ^ j := Nat.two_pow_pos j
  obtain ⟨hring, htop⟩ := hc.ring (by omega)
  have hlast : h.world.device.lastAvailId = h.world.history.consumed.length := by
    rw [(hc.counted _ hpc).consumed]
    exact Nat.zero_add _
  have hslot : h.world.availSlot = h.world.device.availRing + 4 +
      2 * (h.world.history.consumed.length % 2 ^ j) := by
    rw [World.availSlot, hslots, hlast]
  have hmod := Nat.mod_lt h.world.history.consumed.length hpos
  rcases (Handler.step_fetch vm body hpc).consumes hnew (by omega) (by omega) (by omega) with
    ⟨hover, hsame⟩ | ⟨hfits, htaken, hafter⟩
  · refine iff_of_false (fun h => ?_) (by omega)
    have hlength := congrArg List.length (hsame.symm.trans h.entry)
    simp at hlength
  · refine iff_of_true ⟨?_, ?_, ?_⟩ (by omega)
    · rw [htaken, World.head, hslot]
    · rw [Nat.mod_eq_of_lt (by omega), hlast]
    · rw [hafter, Nat.mod_eq_of_lt (by omega), hlast]

/-! ## A turn that completes a request -/

/-- The used element is published, unless its counter or its address overflows. -/
theorem PublishRule.publishes {w w' : World η} {id length : ℕ} {result : Except Fault Unit}
    (h : PublishRule w id length result w') (hslots : w.slots ≠ 0) :
    (¬ (w.device.usedId + 1 < 2 ^ 16 ∧ w.usedSlot < 2 ^ 64) ∧ result ≠ .ok ()) ∨
      (w.device.usedId + 1 < 2 ^ 16 ∧ w.usedSlot < 2 ^ 64 ∧ result = .ok () ∧
        w' = w.completed id length) := by
  cases h with
  | noSlots slots => exact absurd slots hslots
  | counter _ last => exact .inl ⟨fun h => last h.1, by simp⟩
  | slotOverflow _ _ slot => exact .inl ⟨fun h => slot h.2, by simp⟩
  | published _ counter slot => exact .inr ⟨counter, slot, rfl, rfl⟩

/-- The turn ends with a publication, of a state with the same registers. -/
theorem WalkRule.completes {w w' : World η} {r : Request} {pc : Except Fault Pc}
    (h : WalkRule vm w r pc w') (hends : Completes vm w r) :
    ∃ u length result, PublishRule u r.descriptorId length result w' ∧ u.device = w.device ∧
      pc = result.map fun _ => .fetch := by
  cases h with
  | noTable table => exact absurd table hends.readable.table
  | entryOverflow _ entry => exact absurd hends.readable.entry entry
  | statusOverflow _ _ address length => exact absurd (hends.size _ address) length
  | status _ _ _ _ publish => exact ⟨_, _, _, publish, rfl, rfl⟩
  | noStatus _ _ _ publish => exact ⟨_, _, _, publish, rfl, rfl⟩
  | sizeOverflow _ next | untranslated _ next | offsetOverflow _ next | stopped _ next
  | accessed _ next => exact absurd hends.last next

/-- A turn of the inner loop that completes a request. -/
theorem Counting.completedAt_iff {w : World η} {v : VirtioBlkMmio} {h : Handler η}
    (hc : Counting (Handler.boot w v.reset).world h) {j : ℕ} (hj : j ≤ 10)
    (hsize : h.world.device.queueSize = 2 ^ j) {r : Request} (hpc : h.pc = .ok (.walk r))
    (hends : Completes vm h.world r) :
    CompletedAt (2 ^ j) h.world.history.published.length r h (h.step vm body) ↔
      h.world.history.published.length < 65535 ∧
        h.world.device.usedRing + 4 + 8 * (h.world.history.published.length % 2 ^ j) < 2 ^ 64 := by
  have hpos : 0 < 2 ^ j := Nat.two_pow_pos j
  have hused : h.world.device.usedId = h.world.history.published.length := by
    rw [(hc.counted _ hpc).published]
    exact Nat.zero_add _
  obtain ⟨u, length, result, hpublish, hdevice, hresult⟩ :=
    (Handler.step_walk vm body hpc).completes hends
  have hslots : u.slots = 2 ^ j := slots_eq hj (by rw [hdevice, hsize])
  have hslot : u.usedSlot = h.world.device.usedRing + 4 +
      8 * (h.world.history.published.length % 2 ^ j) := by
    rw [World.usedSlot, hslots, hdevice, hused]
  have hcount : u.device.usedId = h.world.history.published.length := by rw [hdevice, hused]
  rw [← hslot]
  rcases hpublish.publishes (by omega) with ⟨hover, hstops⟩ | ⟨hfits, haddress, rfl, hafter⟩
  · refine iff_of_false (fun hdone => ?_) (by omega)
    have hfetch := hresult.symm.trans hdone.goesOn
    cases result with
    | ok => exact hstops rfl
    | error => cases hfetch
  · have hloads := u.completed_loads r.descriptorId length
    rw [← hafter, hcount, hdevice, hslot] at hloads
    refine iff_of_true ⟨hresult, hloads.1, hloads.2, ?_, ?_⟩ ⟨by omega, haddress⟩
    · rw [Nat.mod_eq_of_lt (by omega), hused]
    · rw [hafter, Nat.mod_eq_of_lt (by omega), ← hcount]
      rfl

/-- The requests of the driver are served as long as there were less than 65535 before
them, and so are the entries that a device consumes and completes since its last reset;
for the latter, the slot of the used ring has to be in the address space as well. -/
theorem ring_counters_iff (k : ℕ) : (VirtioDriver.DriverServes k ↔ k < 65535) ∧
    ∀ (η : Type) (vm : Vm.VM) (body : FileBody η) (w : World η) (v : VirtioBlkMmio)
      (events : List Event) (h : Handler η) (j : ℕ), (∀ e ∈ events, ¬ e.Resets) →
      Runs.run (Handler.guest vm body) (.boot w v.reset) events = .ok h → j ≤ 10 →
      h.world.device.queueSize = 2 ^ j →
      (h.pc = .ok .fetch → h.world.device.lastAvailId ≠ h.world.availIndex →
        (ConsumedAt (2 ^ j) h.world.history.consumed.length h (h.step vm body) ↔
          h.world.history.consumed.length < 65535)) ∧
      ∀ r, h.pc = .ok (.walk r) → Completes vm h.world r →
        (CompletedAt (2 ^ j) h.world.history.published.length r h (h.step vm body) ↔
          h.world.history.published.length < 65535 ∧ h.world.device.usedRing + 4 +
            8 * (h.world.history.published.length % 2 ^ j) < 2 ^ 64) := by
  refine ⟨VirtioDriver.driverServes_iff k, ?_⟩
  intro η vm body w v events h j hreset hrun hj hsize
  have hc := Counting.run w v hreset hrun
  exact ⟨hc.consumedAt_iff hj hsize, fun r => hc.completedAt_iff hj hsize⟩

/-! ## A long run of the sample -/

/-- The guest stores an index of its available ring. -/
def storeIndex (index : ℕ) : List Event :=
  [.store 0x40000042 (.ofNat index), .store 0x40000043 (.ofNat (index / 256)),
    .write virtioMmioQueueNotify 0]

/-- The guest offers its request again and waits for the device to return. -/
def round (k : ℕ) : List Event :=
  storeIndex (k + 1) ++ [.turn, .turn, .interrupts .new (.reset 0 3), .turn]

def rounds : ℕ → List Event
  | 0 => []
  | k + 1 => rounds k ++ round k

/-- The memory of the sample outside the two indices, the used ring and the status. -/
def Undisturbed (mem : Bytes) : Prop :=
  ∀ x, x < 0x50000042 ∨ 0x50000044 ≤ x → x < 0x50001000 ∨ 0x50001024 ≤ x → x ≠ 0x50002010 →
    mem x = guestMemory oneRequest x

namespace Undisturbed

variable {mem : Bytes}

theorem store (hmem : Undisturbed mem) {a n : ℕ} (value : ℕ)
    (h : (0x50000042 ≤ a ∧ a + n ≤ 0x50000044) ∨ (0x50001000 ≤ a ∧ a + n ≤ 0x50001024) ∨
      (a = 0x50002010 ∧ n = 1)) : Undisturbed (Bytes.store mem a n value) := by
  intro x hidx hused hstatus
  rw [Bytes.store_outside mem value (by omega)]
  exact hmem x hidx hused hstatus

theorem load (hmem : Undisturbed mem) {a n : ℕ} (h : 0x50000044 ≤ a ∨ a + n ≤ 0x50000042)
    (hend : a + n ≤ 0x50001000) : Bytes.load mem a n = Bytes.load (guestMemory oneRequest) a n :=
  Bytes.load_congr fun x hx hlt => hmem x (by omega) (by omega) (by omega)

theorem loadDesc (hmem : Undisturbed mem) {a : ℕ} (h : a + 16 ≤ 0x50000042) :
    loadDesc mem a = Virtio.loadDesc (guestMemory oneRequest) a := by
  simp only [Virtio.loadDesc, hmem.load (a := a) (n := 8) (by omega) (by omega),
    hmem.load (a := a + 8) (n := 4) (by omega) (by omega),
    hmem.load (a := a + 12) (n := 2) (by omega) (by omega),
    hmem.load (a := a + 14) (n := 2) (by omega) (by omega)]

end Undisturbed

/-- The sample after some requests. -/
def servedDevice (consumed completed : ℕ) (interruptStatus : BitVec 32) : VirtioBlkMmio :=
  { sampleDevice with
    interruptStatus := interruptStatus
    lastAvailId := consumed
    usedId := completed }

/-- The sample between two turns, with `consumed` and `completed` requests. -/
structure Serving (pc : Pc) (consumed completed index : ℕ) (h : Handler Unit) : Prop where
  pc : h.pc = .ok pc
  device : ∃ s, h.world.device = servedDevice consumed completed s
  memory : Undisturbed h.world.machine.mem
  index : Bytes.load h.world.machine.mem 0x50000042 2 = index

namespace Serving

variable {k index : ℕ} {h : Handler Unit}

/-- The guest announces a request. -/
theorem stored (hs : Serving .returned k k index h) (next : ℕ) :
    ∃ h', Runs.run (Handler.guest sampleVm sampleBody) h (storeIndex next) = .ok h' ∧
      Serving .fetch k k (next % 2 ^ 16) h' := by
  obtain ⟨world, pc⟩ := h
  have hpc : pc = .ok .returned := hs.pc
  subst hpc
  refine ⟨⟨(world.store 0x50000042 1 (UInt8.ofNat next).toNat).store 0x50000043 1
    (UInt8.ofNat (next / 256)).toNat, .ok .fetch⟩, rfl, rfl, hs.device, ?_, ?_⟩
  · exact (hs.memory.store _ (.inl (by omega))).store _ (.inl (by omega))
  · change Bytes.load (Bytes.store (Bytes.store world.machine.mem 0x50000042 1 _) 0x50000043 1 _)
      0x50000042 2 = _
    have hlow : (UInt8.ofNat next).toNat = next % 256 := UInt8.toNat_ofNat'
    have hhigh : (UInt8.ofNat (next / 256)).toNat = next / 256 % 256 := UInt8.toNat_ofNat'
    simp [Bytes.load, Bytes.store, hlow, hhigh]
    omega

/-- The turn that takes the request. -/
theorem fetched (hs : Serving .fetch k k (k + 1) h) (hk : k + 1 < 2 ^ 16) :
    ∃ r, r.descriptor.next = 1 ∧ r.totalSize = 0 ∧
      Serving (.walk r) (k + 1) k (k + 1) (h.step sampleVm sampleBody) := by
  obtain ⟨s, hdevice⟩ := hs.device
  have hlast : h.world.device.lastAvailId = k := by
    rw [hdevice]
    rfl
  have hring : h.world.device.availRing = 0x50000040 := by
    rw [hdevice]
    rfl
  have htable : h.world.device.descriptor = 0x50000000 := by
    rw [hdevice]
    rfl
  have hslots : h.world.slots = 4 := by
    rw [World.slots, hdevice]
    rfl
  have hslot : h.world.availSlot = 0x50000044 + 2 * (k % 4) := by
    rw [World.availSlot, hslots, hlast, hring]
  have hhead : h.world.head = 0 := by
    have hlt := Nat.mod_lt k (show 0 < 4 by decide)
    rw [World.head, hslot, hs.memory.load (.inl (by omega)) (by omega)]
    interval_cases k % 4 <;> decide
  have hentry : h.world.entry 0 = 0x50000000 := by
    rw [World.entry, hdevice]
    rfl
  have hdesc : h.world.desc 0 = ⟨0x40002000, 16, 1, 1⟩ := by
    rw [World.desc, hentry, hs.memory.loadDesc (by decide)]
    decide
  have hindex : h.world.availIndex = k + 1 := by
    rw [World.availIndex, hring]
    exact hs.index
  have htakes : h.world.Takes :=
    { new := by omega
      slots := by omega
      counter := by omega
      ring := by omega
      slot := by omega }
  have hreadable : h.world.Readable h.world.head :=
    ⟨by omega, by rw [hhead, hentry]; decide⟩
  have hheader : h.world.desc h.world.head = ⟨0x40002000, 16, 1, 1⟩ := by rw [hhead, hdesc]
  have haddress : sampleVm.getPhysicalAddress 0x40002000 = some 0x50002000 := by decide
  obtain ⟨hpc, hworld⟩ := (Handler.step_fetch sampleVm sampleBody hs.pc).eq_started htakes hreadable
    (by rw [hheader]; rfl) (by rw [hheader]; exact haddress) (by rw [hheader]; decide)
  refine ⟨h.world.request 0x50002000, ?_, rfl, hpc, ⟨s, ?_⟩, ?_, ?_⟩
  · change (h.world.desc h.world.head).next = 1
    rw [hheader]
  · rw [hworld]
    change { h.world.device with lastAvailId := h.world.device.lastAvailId + 1 } = _
    rw [hdevice]
    rfl
  · rw [hworld]
    exact hs.memory
  · rw [hworld]
    exact hs.index

/-- The status descriptor of the request. -/
theorem status {r : Request} (hs : Serving (.walk r) (k + 1) k (k + 1) h)
    (hnext : r.descriptor.next = 1) : h.world.Readable r.descriptor.next ∧
      h.world.desc r.descriptor.next = ⟨0x40002010, 1, 0, 0⟩ := by
  obtain ⟨s, hdevice⟩ := hs.device
  have htable : h.world.device.descriptor = 0x50000000 := by
    rw [hdevice]
    rfl
  have hentry : h.world.entry 1 = 0x50000010 := by rw [World.entry, htable]
  refine ⟨⟨by omega, by rw [hnext, hentry]; decide⟩, ?_⟩
  rw [hnext, World.desc, hentry, hs.memory.loadDesc (by decide)]
  decide

theorem completes {r : Request} (hs : Serving (.walk r) (k + 1) k (k + 1) h)
    (hnext : r.descriptor.next = 1) (hsize : r.totalSize = 0) :
    Completes sampleVm h.world r := by
  obtain ⟨hreadable, hdesc⟩ := hs.status hnext
  refine ⟨hreadable, ?_, fun a _ => ?_⟩
  · rw [hdesc]
    rfl
  · rw [hdesc, hsize]
    decide

/-- The turn that completes it. -/
theorem walked {r : Request} (hs : Serving (.walk r) (k + 1) k (k + 1) h) (hk : k + 1 < 2 ^ 16)
    (hnext : r.descriptor.next = 1) (hsize : r.totalSize = 0) :
    Serving .fetch (k + 1) (k + 1) (k + 1) (h.step sampleVm sampleBody) := by
  obtain ⟨s, hdevice⟩ := hs.device
  obtain ⟨hreadable, hdesc⟩ := hs.status hnext
  have haddress : sampleVm.getPhysicalAddress 0x40002010 = some 0x50002010 := by decide
  obtain ⟨result, hpublish, hpc⟩ := (Handler.step_walk sampleVm sampleBody hs.pc).eq_status
    hreadable (by rw [hdesc]; rfl) (by rw [hdesc]; exact haddress) (by rw [hdesc, hsize]; decide)
  have hslots : ((h.world.visited r.descriptor.next).stored 0x50002010 1 r.status.toNat).slots = 4 := by
    change h.world.device.queueSize % 2 ^ 16 = 4
    rw [hdevice]
    rfl
  have hslot : ((h.world.visited r.descriptor.next).stored 0x50002010 1 r.status.toNat).usedSlot =
      0x50001004 + 8 * (k % 4) := by
    rw [World.usedSlot, hslots]
    change h.world.device.usedRing + 4 + 8 * (h.world.device.usedId % 4) = _
    rw [hdevice]
    rfl
  have hused : h.world.device.usedRing = 0x50001000 ∧ h.world.device.usedId = k := by
    rw [hdevice]
    exact ⟨rfl, rfl⟩
  have hlt := Nat.mod_lt k (show 0 < 4 by decide)
  obtain ⟨hover, -⟩ | ⟨-, -, rfl, hworld⟩ := hpublish.publishes (by omega)
  · exact absurd ⟨hused.2 ▸ hk, by omega⟩ hover
  · have hmem : (h.step sampleVm sampleBody).world.machine.mem = Bytes.store (Bytes.store
        (Bytes.store h.world.machine.mem 0x50002010 1 r.status.toNat) (0x50001004 + 8 * (k % 4)) 8
        (r.descriptorId + 2 ^ 32 * (r.totalSize + (h.world.desc r.descriptor.next).length)))
        0x50001002 2 (k + 1) := by
      rw [hworld, ← hslot, show 0x50001002 = h.world.device.usedRing + 2 by omega, ← hused.2]
      rfl
    refine ⟨hpc, ⟨s, ?_⟩, ?_, ?_⟩
    · rw [hworld]
      change { h.world.device with usedId := h.world.device.usedId + 1 } = _
      rw [hdevice]
      rfl
    · rw [hmem]
      exact ((hs.memory.store _ (.inr (.inr ⟨rfl, rfl⟩))).store _ (.inr (.inl (by omega)))).store _
        (.inr (.inl (by omega)))
    · rw [hmem, Bytes.load_store_apart _ _ (.inl (by omega)),
        Bytes.load_store_apart _ _ (.inl (by omega)), Bytes.load_store_apart _ _ (.inl (by omega))]
      exact hs.index

/-- The turn that finds no other. -/
theorem drained (hs : Serving .fetch k k k h) :
    Serving .returned k k k (Handler.step sampleVm sampleBody
      { h with world := { h.world with distributor := .new, cpu := .reset 0 3 } }) := by
  obtain ⟨s, hdevice⟩ := hs.device
  obtain ⟨d, c, htrigger⟩ : ∃ d c, GicDistributorMmio.new.triggerInterrupt (.reset 0 3)
      virtioBlkIntId none = .ok (d, c) := ⟨_, _, rfl⟩
  obtain ⟨hpc, hworld⟩ := (Handler.step_fetch sampleVm sampleBody (h := { h with
    world := { h.world with distributor := .new, cpu := .reset 0 3 } }) hs.pc).eq_drained
    (by
      change h.world.device.lastAvailId = Bytes.load h.world.machine.mem (h.world.device.availRing + 2) 2
      rw [hdevice]
      exact hs.index.symm) htrigger
  refine ⟨hpc, ⟨s ||| 1, ?_⟩, ?_, ?_⟩
  · rw [hworld]
    change { h.world.device with interruptStatus := h.world.device.interruptStatus ||| 1 } = _
    rw [hdevice]
    rfl
  · rw [hworld]
    exact hs.memory
  · rw [hworld]
    exact hs.index

/-- A request from its announcement to its interrupt. -/
theorem round (hs : Serving .returned k k index h) (hk : k + 1 < 2 ^ 16) :
    ∃ h', Runs.run (Handler.guest sampleVm sampleBody) h (round k) = .ok h' ∧
      Serving .returned (k + 1) (k + 1) (k + 1) h' := by
  obtain ⟨h', hrun, hstored⟩ := hs.stored (k + 1)
  rw [Nat.mod_eq_of_lt hk] at hstored
  obtain ⟨r, hnext, hsize, hfetched⟩ := hstored.fetched hk
  refine ⟨_, ?_, (hfetched.walked hk hnext hsize).drained⟩
  rw [Virtio.round, Runs.run_append_ok _ hrun]
  rfl

end Serving

def sampleWorld : World Unit := .start sampleDevice.reset (guestMemory oneRequest)

theorem rounds_serve {k : ℕ} (hk : k < 2 ^ 16) : ∃ h index,
    Runs.run (Handler.guest sampleVm sampleBody) (.boot sampleWorld sampleDevice) (rounds k) =
      .ok h ∧ Serving .returned k k index h := by
  induction k with
  | zero =>
    exact ⟨_, 1, rfl, rfl, ⟨0, rfl⟩, fun _ _ _ _ => rfl, by decide⟩
  | succ k ih =>
    obtain ⟨h, index, hrun, hs⟩ := ih (by omega)
    obtain ⟨h', hround, hs'⟩ := hs.round hk
    refine ⟨h', k + 1, ?_, hs'⟩
    rw [rounds, Runs.run_append_ok _ hrun, hround]

theorem rounds_resets (k : ℕ) : ∀ e ∈ rounds k, ¬ e.Resets := by
  induction k with
  | zero => simp [rounds]
  | succ k ih =>
    simp only [rounds, List.forall_mem_append]
    refine ⟨ih, ?_⟩
    simp [round, storeIndex, Event.Resets, virtioMmioQueueNotify, virtioMmioStatus]

/-- From the reset on: the queue is set up, a number of requests served and another offered. -/
def offers (k : ℕ) : List Event := setUp.take 3 ++ rounds k ++ storeIndex (k + 1)

theorem offers_resets (k : ℕ) : ∀ e ∈ offers k, ¬ e.Resets := by
  simp only [offers, List.forall_mem_append]
  refine ⟨⟨?_, rounds_resets k⟩, ?_⟩
  · simp [setUp, Event.Resets, virtioMmioGuestPageSize, virtioMmioQueueNum, virtioMmioQueuePfn,
      virtioMmioStatus]
  · simp [storeIndex, Event.Resets, virtioMmioQueueNotify, virtioMmioStatus]

theorem offers_serve {k : ℕ} (hk : k < 2 ^ 16) : ∃ h,
    Runs.run (Handler.guest sampleVm sampleBody) (.boot sampleWorld sampleDevice.reset) (offers k) =
      .ok h ∧ Serving .fetch k k ((k + 1) % 2 ^ 16) h := by
  obtain ⟨h, index, hrounds, hs⟩ := rounds_serve hk
  obtain ⟨h', hstored, hs'⟩ := hs.stored (k + 1)
  obtain ⟨h1, h2, h3, -⟩ := setUp_steps sampleWorld
  refine ⟨h', ?_, hs'⟩
  rw [offers, List.append_assoc]
  simp only [setUp, List.take, List.cons_append, List.nil_append, Runs.run_cons_ok _ h1,
    Runs.run_cons_ok _ h2, Runs.run_cons_ok _ h3]
  rw [Runs.run_append_ok _ hrounds, hstored]

/-- A run of the sample has consumed and published what the registers count. -/
theorem Serving.lengths {pc : Pc} {consumed completed index : ℕ} {h : Handler Unit}
    (hs : Serving pc consumed completed index h)
    (hc : Counting (Handler.boot sampleWorld sampleDevice.reset).world h) :
    h.world.history.consumed.length = consumed ∧ h.world.history.published.length = completed := by
  obtain ⟨s, hdevice⟩ := hs.device
  have hcounted := hc.counted _ hs.pc
  have hlast : h.world.device.lastAvailId = 0 + h.world.history.consumed.length :=
    hcounted.consumed
  have hused : h.world.device.usedId = 0 + h.world.history.published.length := hcounted.published
  rw [hdevice, Nat.zero_add] at hlast hused
  exact ⟨hlast.symm, hused.symm⟩

/-- The sixth request of the sample, which is the second one in its slot, and of the driver. -/
theorem ring_counters_sixth : VirtioDriver.DriverServes 5 ∧
    ∃ h r, Runs.run (Handler.guest sampleVm sampleBody) (.boot sampleWorld sampleDevice.reset)
        (offers 5) = .ok h ∧
      ConsumedAt 4 5 h (h.step sampleVm sampleBody) ∧
      (h.step sampleVm sampleBody).pc = .ok (.walk r) ∧
      CompletedAt 4 5 r (h.step sampleVm sampleBody)
        ((h.step sampleVm sampleBody).step sampleVm sampleBody) := by
  obtain ⟨h, hrun, hs⟩ := offers_serve (k := 5) (by decide)
  obtain ⟨r, hnext, hsize, hs'⟩ := hs.fetched (by decide)
  have hreset : ∀ e ∈ offers 5 ++ [.turn], ¬ e.Resets := by
    rw [List.forall_mem_append]
    exact ⟨offers_resets 5, by simp [Event.Resets]⟩
  have hrun' : Runs.run (Handler.guest sampleVm sampleBody) (.boot sampleWorld sampleDevice.reset)
      (offers 5 ++ [.turn]) = .ok (h.step sampleVm sampleBody) := by
    rw [Runs.run_append_ok _ hrun]
    rfl
  obtain ⟨hconsumed, -⟩ := hs.lengths (Counting.run sampleWorld sampleDevice (offers_resets 5) hrun)
  obtain ⟨-, hpublished⟩ := hs'.lengths (Counting.run sampleWorld sampleDevice hreset hrun')
  obtain ⟨s, hdevice⟩ := hs.device
  obtain ⟨s', hdevice'⟩ := hs'.device
  have hnew : h.world.device.lastAvailId ≠ h.world.availIndex := by
    rw [World.availIndex, hdevice]
    change 5 ≠ Bytes.load h.world.machine.mem 0x50000042 2
    rw [hs.index]
    decide
  refine ⟨(ring_counters_iff 5).1.mpr (by decide), h, r, hrun, ?_, hs'.pc, ?_⟩
  · have hiff := ((ring_counters_iff 5).2 Unit sampleVm sampleBody sampleWorld sampleDevice _ h 2
      (offers_resets 5) hrun (by decide) (by rw [hdevice]; rfl)).1 hs.pc hnew
    rw [hconsumed] at hiff
    exact hiff.mpr (by decide)
  · have hiff := ((ring_counters_iff 5).2 Unit sampleVm sampleBody sampleWorld sampleDevice _ _ 2
      hreset hrun' (by decide) (by rw [hdevice']; rfl)).2 r hs'.pc (hs'.completes hnext hsize)
    rw [hpublished, hdevice'] at hiff
    exact hiff.mpr ⟨by decide, show 0x50001000 + 4 + 8 * (5 % 2 ^ 2) < 2 ^ 64 by decide⟩

/-- The request behind 65535 others, on either side: the driver aborts, and the device
does not take the entry that its guest offers. -/
theorem request_65535_aborts :
    (∃ d, Runs.run VirtioDriver.VirtioBlk.step .new
        (List.replicate 65535 VirtioDriver.sampleRead) = .ok d ∧
      d.step VirtioDriver.sampleRead = .error .overflow) ∧
    ∃ events h, (∀ e ∈ events, ¬ Event.Resets e) ∧
      Runs.run (Handler.guest sampleVm sampleBody) (.boot sampleWorld sampleDevice.reset) events =
        .ok h ∧ h.world.device.queueSize = 4 ∧ h.pc = .ok .fetch ∧
      h.world.device.lastAvailId ≠ h.world.availIndex ∧ h.world.history.consumed.length = 65535 ∧
      ¬ ConsumedAt 4 65535 h (h.step sampleVm sampleBody) := by
  refine ⟨VirtioDriver.step_65535, ?_⟩
  obtain ⟨h', hrun, hs'⟩ := offers_serve (k := 65535) (by decide)
  obtain ⟨s, hdevice⟩ := hs'.device
  have hc := Counting.run sampleWorld sampleDevice (offers_resets 65535) hrun
  have hlast : h'.world.device.lastAvailId = 65535 := by
    rw [hdevice]
    rfl
  have hsize : h'.world.device.queueSize = 4 := by
    rw [hdevice]
    rfl
  obtain ⟨hconsumed, -⟩ := hs'.lengths hc
  have hring : h'.world.device.availRing = 0x50000040 := by
    rw [hdevice]
    rfl
  have hindex : h'.world.availIndex = 0 := by
    rw [World.availIndex, hring]
    exact hs'.index
  have hnew : h'.world.device.lastAvailId ≠ h'.world.availIndex := by omega
  refine ⟨offers 65535, h', offers_resets 65535, hrun, hsize, hs'.pc, hnew, hconsumed, fun hat => ?_⟩
  have hiff : ConsumedAt (2 ^ 2) h'.world.history.consumed.length h' (h'.step sampleVm sampleBody) ↔
      h'.world.history.consumed.length < 65535 :=
    hc.consumedAt_iff (by decide) hsize hs'.pc hnew
  rw [hconsumed] at hiff
  exact absurd (hiff.mp hat) (by decide)

end Min1visor.Virtio
