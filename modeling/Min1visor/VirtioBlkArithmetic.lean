import Min1visor.VirtioBlkGuest

/-!
# The arithmetic of the virtio device

The guest chooses the page size, the queue size, the page number of the queue and all
lengths, and the device calculates with them. Which of its sums, products, remainders
and quotients can abort, and which of them never do, whatever the guest writes.
-/
namespace Min1visor.Virtio
open Vgicv3 Gicv3Mmio

variable {η : Type} {vm : Vm.VM} {body : FileBody η}

/-! ## What the guest has to keep to -/

/-- The rings behind a descriptor table end below the top of the address space. -/
structure RingsFit (descriptor queueSize pageSize : ℕ) : Prop where
  page : 0 < pageSize
  avail : descriptor + 16 * queueSize + 2 * (3 + queueSize) < 2 ^ 64
  used : ((descriptor + 16 * queueSize + 2 * (3 + queueSize) - 1) &&&
    (2 ^ 64 - 1 - (pageSize - 1))) + pageSize < 2 ^ 64

/-- The register values that a write computes with. -/
def WriteFits (vm : Vm.VM) (v : VirtioBlkMmio) (offset : ℕ) (value : BitVec 64) : Prop :=
  (offset = virtioMmioQueueNum → RingsFit v.descriptor value.toNat v.pageSize) ∧
  (offset = virtioMmioQueuePfn → value.toNat * v.pageSize < 2 ^ 64 ∧
    ∀ a, vm.getPhysicalAddress (value.toNat * v.pageSize) = some a →
      RingsFit a v.queueSize v.pageSize)

/-- The lengths that a turn of the inner loop computes with. -/
structure WalkFits (vm : Vm.VM) (w : World η) (r : Request) : Prop where
  size : (w.desc r.descriptor.next).flags &&& virtQueueDescFlagsNext ≠ 0 ∨
      (vm.getPhysicalAddress (w.desc r.descriptor.next).address).isSome →
    r.totalSize + (w.desc r.descriptor.next).length < 2 ^ 32
  offset : (w.desc r.descriptor.next).flags &&& virtQueueDescFlagsNext ≠ 0 →
    (vm.getPhysicalAddress (w.desc r.descriptor.next).address).isSome →
    r.offset + (w.desc r.descriptor.next).length < 2 ^ 64
  used : (w.desc r.descriptor.next).flags &&& virtQueueDescFlagsNext = 0 → w.usedSlot < 2 ^ 64

/-- The condition on a step of the machine. -/
def Fits (vm : Vm.VM) (h : Handler η) : Event → Prop
  | .read offset => h.pc = .ok .returned → offset = virtioMmioQueuePfn → h.world.device.pageSize ≠ 0
  | .write offset value => h.pc = .ok .returned → WriteFits vm h.world.device offset value
  | .turn => (h.pc = .ok .fetch → h.world.device.lastAvailId ≠ h.world.availIndex → h.world.slots ≠ 0) ∧
      ∀ r, h.pc = .ok (.walk r) → WalkFits vm h.world r
  | _ => True

/-! ## The registers -/

theorem placeRings_fits {v : VirtioBlkMmio} (h : RingsFit v.descriptor v.queueSize v.pageSize) :
    ∃ v', v.placeRings = .ok v' ∧ v'.descriptor = v.descriptor ∧ v'.queueSize = v.queueSize ∧
      v'.availRing + 2 * (3 + v.queueSize) < 2 ^ 64 := by
  obtain ⟨hpage, havail, hused⟩ := h
  refine ⟨{ v with
    availRing := v.descriptor + 16 * v.queueSize
    usedRing := ((v.descriptor + 16 * v.queueSize + 2 * (3 + v.queueSize) - 1) &&&
      (2 ^ 64 - 1 - (v.pageSize - 1))) + v.pageSize }, ?_, rfl, rfl, havail⟩
  simp only [VirtioBlkMmio.placeRings, sizeOfDesc,
    Checked.mul_ok (show 16 * v.queueSize < 2 ^ 64 by omega),
    Checked.add_ok (show v.descriptor + 16 * v.queueSize < 2 ^ 64 by omega),
    Checked.add_ok (show 3 + v.queueSize < 2 ^ 64 by omega),
    Checked.mul_ok (show 2 * (3 + v.queueSize) < 2 ^ 64 by omega), Checked.add_ok havail,
    Checked.sub_ok (show 1 ≤ v.descriptor + 16 * v.queueSize + 2 * (3 + v.queueSize) by omega),
    Checked.sub_ok (show 1 ≤ v.pageSize from hpage), Checked.add_ok hused, Checked.ok_bind,
    Checked.pure_eq_ok]

/-- The table is in the lower half of the address space and the available ring ends
in it. -/
structure Placed (v : VirtioBlkMmio) : Prop where
  table : v.descriptor < 2 ^ 63
  avail : v.availRing + 2 * (3 + v.queueSize) < 2 ^ 64

theorem Placed.congr {v v' : VirtioBlkMmio} (h : Placed v) (hqueue : SameQueue v v') : Placed v' := by
  refine ⟨?_, ?_⟩
  · rw [hqueue.descriptor]
    exact h.table
  · rw [hqueue.availRing, hqueue.queueSize]
    exact h.avail

theorem VirtioBlkMmio.read_fits {v : VirtioBlkMmio} {offset : ℕ}
    (h : offset = virtioMmioQueuePfn → v.pageSize ≠ 0) : ∃ value, v.read offset = .ok value := by
  unfold VirtioBlkMmio.read
  iterate 7 refine Checked.exists_ite (fun _ => ⟨_, rfl⟩) fun _ => ?_
  refine Checked.exists_ite (fun hpfn => ?_) fun _ => ?_
  · rw [if_neg (h hpfn)]
    exact ⟨_, rfl⟩
  iterate 2 refine Checked.exists_ite (fun _ => ⟨_, rfl⟩) fun _ => ?_
  refine Checked.exists_ite (fun _ => ?_) fun _ => ⟨_, rfl⟩
  dsimp only
  split_ifs <;> exact ⟨_, rfl⟩

/-- A write with values that fit leaves the queue placed. -/
theorem VirtioBlkMmio.write_fits (hram : vm.ramPhysicalBaseAddress + vm.ramSize ≤ 2 ^ 63)
    {v : VirtioBlkMmio} (hplaced : Placed v) {offset : ℕ} {value : BitVec 64}
    (h : WriteFits vm v offset value) :
    ∃ v' starts, v.write vm offset value = .ok (v', starts) ∧ Placed v' := by
  unfold VirtioBlkMmio.write
  by_cases hpage : offset = virtioMmioGuestPageSize
  · rw [if_pos hpage]
    exact ⟨_, _, rfl, hplaced.table, hplaced.avail⟩
  rw [if_neg hpage]
  by_cases hnum : offset = virtioMmioQueueNum
  · obtain ⟨v', hv', htable, hsize, havail⟩ :=
      placeRings_fits (v := { v with queueSize := value.toNat }) (h.1 hnum)
    rw [if_pos hnum, hv']
    refine ⟨v', false, rfl, ?_, ?_⟩
    · rw [htable]
      exact hplaced.table
    · rw [hsize]
      exact havail
  rw [if_neg hnum]
  by_cases hpfn : offset = virtioMmioQueuePfn
  · obtain ⟨hmul, hfits⟩ := h.2 hpfn
    rw [if_pos hpfn, Checked.mul_ok hmul, Checked.ok_bind]
    cases haddress : vm.getPhysicalAddress (value.toNat * v.pageSize) with
    | none => exact ⟨v, false, rfl, hplaced⟩
    | some a =>
      obtain ⟨v', hv', htable, hsize, havail⟩ :=
        placeRings_fits (v := { v with descriptor := a }) (hfits a haddress)
      have hlt := (Vm.getPhysicalAddress_lt haddress).2
      dsimp only
      rw [hv']
      refine ⟨v', false, rfl, ?_, ?_⟩
      · rw [htable]
        exact hlt.trans_le hram
      · rw [hsize]
        exact havail
  rw [if_neg hpfn]
  by_cases hnotify : offset = virtioMmioQueueNotify
  · rw [if_pos hnotify]
    exact ⟨_, _, rfl, hplaced⟩
  rw [if_neg hnotify]
  by_cases hack : offset = virtioMmioInterruptAck
  · rw [if_pos hack]
    exact ⟨_, _, rfl, hplaced.table, hplaced.avail⟩
  rw [if_neg hack]
  by_cases hstatus : offset = virtioMmioStatus
  · rw [if_pos hstatus]
    by_cases hzero : value = 0
    · rw [if_pos hzero]
      exact ⟨_, _, rfl, Nat.two_pow_pos 63, by simp [VirtioBlkMmio.reset]⟩
    · rw [if_neg hzero]
      exact ⟨_, _, rfl, hplaced.table, hplaced.avail⟩
  rw [if_neg hstatus]
  exact ⟨_, _, rfl, hplaced⟩

/-! ## The handler -/

/-- A slot of the available ring is in it. -/
theorem Placed.availSlot {w : World η} (h : Placed w.device) (hslots : w.slots ≠ 0) :
    w.availSlot < 2 ^ 64 := by
  have hmod : w.device.lastAvailId % w.slots < w.slots := Nat.mod_lt _ (Nat.pos_of_ne_zero hslots)
  have hle : w.slots ≤ w.device.queueSize := Nat.mod_le _ _
  have havail := h.avail
  unfold World.availSlot
  omega

/-- The address of any descriptor that a link can name. -/
theorem Placed.entry {w : World η} (h : Placed w.device) {id : ℕ} (hid : id < 2 ^ 16) :
    w.entry id < 2 ^ 64 := by
  have htable := h.table
  unfold World.entry
  omega

/-- The state of the machine between two steps. -/
structure Sound (h : Handler η) : Prop where
  placed : Placed h.world.device
  fault : ∀ p, h.pc ≠ .error (.arithmetic p)
  walk : ∀ r, h.pc = .ok (.walk r) → h.world.slots ≠ 0 ∧ r.descriptor.next < 2 ^ 16

theorem FetchRule.sound {w w' : World η} {result : Except Fault Pc} (h : FetchRule vm w result w')
    (hplaced : Placed w.device) (hfits : w.device.lastAvailId ≠ w.availIndex → w.slots ≠ 0) :
    Sound ⟨w', result⟩ := by
  refine ⟨hplaced.congr h.queue, ?_, ?_⟩
  · intro p hpc
    cases h with
    | noSlots new slots => exact hfits new slots
    | slotOverflow advances _ slot => exact slot (hplaced.availSlot advances.slots)
    | entryOverflow _ _ entry => exact entry (hplaced.entry w.head_lt)
    | _ => cases hpc
  · intro r hpc
    cases h with
    | started takes =>
      cases hpc
      exact ⟨takes.slots, w.desc_next_lt _⟩
    | _ => cases hpc

theorem PublishRule.no_arithmetic {w w' : World η} {id length : ℕ} {result : Except Fault Unit}
    (h : PublishRule w id length result w') (hslots : w.slots ≠ 0) (hused : w.usedSlot < 2 ^ 64)
    (p : Panic) : result ≠ .error (.arithmetic p) := by
  intro hpc
  cases h with
  | noSlots slots => exact hslots slots
  | slotOverflow _ _ slot => exact slot hused
  | _ => cases hpc

theorem WalkRule.no_arithmetic {w w' : World η} {r : Request} {result : Except Fault Pc}
    (h : WalkRule vm w r result w') (hplaced : Placed w.device) (hslots : w.slots ≠ 0)
    (hnext : r.descriptor.next < 2 ^ 16) (hfits : WalkFits vm w r) (p : Panic) :
    result ≠ .error (.arithmetic p) := by
  intro hpc
  cases h with
  | entryOverflow _ entry => exact entry (hplaced.entry hnext)
  | statusOverflow _ _ address length => exact length (hfits.size (.inr (by rw [address]; rfl)))
  | @status a result w' _ last _ _ publish =>
    cases result with
    | ok => cases hpc
    | error f =>
      cases hpc
      exact publish.no_arithmetic hslots (hfits.used last) p rfl
  | @noStatus result w' _ last _ publish =>
    cases result with
    | ok => cases hpc
    | error f =>
      cases hpc
      exact publish.no_arithmetic hslots (hfits.used last) p rfl
  | sizeOverflow _ next length => exact length (hfits.size (.inl next))
  | offsetOverflow _ next _ address offset =>
    exact offset (hfits.offset next (by rw [address]; rfl))
  | stopped _ _ _ _ _ access =>
    cases hpc
    cases access
  | _ => cases hpc

theorem WalkRule.sound {w w' : World η} {r : Request} {result : Except Fault Pc}
    (h : WalkRule vm w r result w') (hplaced : Placed w.device) (hslots : w.slots ≠ 0)
    (hnext : r.descriptor.next < 2 ^ 16) (hfits : WalkFits vm w r) : Sound ⟨w', result⟩ := by
  refine ⟨hplaced.congr h.queue, h.no_arithmetic hplaced hslots hnext hfits, ?_⟩
  intro r' hpc
  refine ⟨?_, ?_⟩
  · rw [World.slots, h.queue.queueSize]
    exact hslots
  · cases h with
    | status _ _ _ _ publish => cases publish <;> cases hpc
    | noStatus _ _ _ publish => cases publish <;> cases hpc
    | untranslated =>
      cases hpc
      exact w.desc_next_lt _
    | accessed =>
      cases hpc
      exact w.desc_next_lt _
    | _ => cases hpc

/-- One step of the machine. -/
theorem Sound.guest (hram : vm.ramPhysicalBaseAddress + vm.ramSize ≤ 2 ^ 63) (h : Handler η)
    (e : Event) (hs : Sound h) (hfits : Fits vm h e) :
    ∃ h', h.guest vm body e = .ok h' ∧ Sound h' := by
  cases e with
  | read offset =>
    simp only [Handler.guest]
    by_cases hidle : h.pc = .ok .returned
    · obtain ⟨value, hread⟩ := VirtioBlkMmio.read_fits (hfits hidle)
      rw [if_pos hidle, hread]
      exact ⟨h, rfl, hs⟩
    · rw [if_neg hidle]
      exact ⟨h, rfl, hs⟩
  | write offset value =>
    simp only [Handler.guest]
    by_cases hidle : h.pc = .ok .returned
    · obtain ⟨v', starts, hwrite, hplaced⟩ :=
        VirtioBlkMmio.write_fits hram hs.placed (hfits hidle)
      rw [if_pos hidle, Handler.writeRegister, hwrite]
      refine ⟨_, rfl, hplaced, by simp, ?_⟩
      intro r hpc
      cases starts <;> cases hpc
    · rw [if_neg hidle]
      exact ⟨h, rfl, hs⟩
  | store address value =>
    simp only [Handler.guest]
    cases vm.getPhysicalAddress address with
    | none => exact ⟨h, rfl, hs⟩
    | some a => exact ⟨_, rfl, hs.placed, hs.fault, hs.walk⟩
  | interrupts distributor cpu => exact ⟨_, rfl, hs.placed, hs.fault, hs.walk⟩
  | turn =>
    refine ⟨_, rfl, ?_⟩
    cases hpc : h.pc with
    | error f => rwa [Handler.step_error hpc]
    | ok pc =>
      cases pc with
      | fetch => exact (Handler.step_fetch vm body hpc).sound hs.placed (hfits.1 hpc)
      | walk r =>
        obtain ⟨hslots, hnext⟩ := hs.walk r hpc
        exact (Handler.step_walk vm body hpc).sound hs.placed hslots hnext (hfits.2 r hpc)
      | returned => rwa [Handler.step_returned hpc]

/-- With its RAM in the lower half of the address space, a machine whose steps all
fit never aborts on the arithmetic of its virtio device. -/
theorem run_no_overflow (vm : Vm.VM) (hram : vm.ramPhysicalBaseAddress + vm.ramSize ≤ 2 ^ 63)
    (body : FileBody η) (file : Fat.FileInfo) (v : VirtioBlkMmio)
    (hnew : VirtioBlkMmio.new file = .ok v) (w : World η) (events : List Event)
    (hfits : Runs.Along (Handler.guest vm body) (Fits vm) (.boot w v) events) :
    ∃ h, Runs.run (Handler.guest vm body) (.boot w v) events = .ok h ∧
      ∀ p, h.pc ≠ .error (.arithmetic p) := by
  obtain ⟨htable, havail, -, hsize⟩ := VirtioBlkMmio.new_ok hnew
  have hboot : Sound (.boot w v : Handler η) := by
    refine ⟨⟨?_, ?_⟩, by simp [Handler.boot], by simp [Handler.boot]⟩
    · simp [Handler.boot, htable]
    · simp [Handler.boot, havail, hsize]
  obtain ⟨h, hrun, hsound⟩ := Runs.run_total Sound (fun h e => Sound.guest hram h e) events _ hboot
    hfits
  exact ⟨h, hrun, hsound.fault⟩

/-- A driver sets up a queue of four slots and notifies it of one request. -/
theorem run_no_overflow_one_request :
    ∃ h, Runs.run (Handler.guest sampleVm sampleBody)
      (.boot (World.start sampleDevice (guestMemory oneRequest)) sampleDevice.reset)
      (setUp ++ [.turn, .turn]) = .ok h ∧ ∀ p, h.pc ≠ .error (.arithmetic p) := by
  have hfirst : RingsFit 0 4 4096 := ⟨by decide, by decide, by decide⟩
  have hsecond : RingsFit 0x50000000 4 4096 := ⟨by decide, by decide, by decide⟩
  have htranslate : sampleVm.getPhysicalAddress (0x40000 * 4096) = some 0x50000000 := by decide
  refine run_no_overflow sampleVm (by decide) sampleBody ⟨2, 512⟩ _ rfl _ _
    (along_setUp _ _ ?_ ?_ ?_ ?_ ?_)
  · exact fun _ => ⟨fun h => absurd h (by decide), fun h => absurd h (by decide)⟩
  · exact fun _ => ⟨fun _ => hfirst, fun h => absurd h (by decide)⟩
  · refine fun _ => ⟨fun h => absurd h (by decide), fun _ => ⟨show 0x40000 * 4096 < 2 ^ 64 by decide, ?_⟩⟩
    intro a ha
    cases htranslate.symm.trans ha
    exact hsecond
  · exact fun _ => ⟨fun h => absurd h (by decide), fun h => absurd h (by decide)⟩
  obtain ⟨h, hturn, hpc, hflags, haddress, hlength, hused⟩ : ∃ h, Handler.guest sampleVm sampleBody
      ⟨{ (World.start sampleDevice (guestMemory oneRequest)).begin with
        device := sampleDevice }, .ok .fetch⟩ .turn = .ok h ∧
      h.pc = .ok (.walk ⟨0, ⟨0x40002000, 16, 1, 1⟩, false, 0, 0, 0⟩) ∧
      (h.world.desc 1).flags = 0 ∧ (h.world.desc 1).address = 0x40002010 ∧
      (h.world.desc 1).length = 1 ∧ h.world.usedSlot < 2 ^ 64 :=
    ⟨_, rfl, by decide, by decide, by decide, by decide, by decide⟩
  refine Runs.along_cons_ok hturn ⟨fun _ _ => by decide, fun r hr => by cases hr⟩ ⟨⟨?_, ?_⟩, ?_⟩
  · intro hfetch
    rw [hpc] at hfetch
    cases hfetch
  · intro r hr
    rw [hpc] at hr
    cases hr
    refine ⟨fun _ => ?_, fun hnext => ?_, fun _ => hused⟩
    · rw [hlength]
      decide
    · rw [hflags] at hnext
      exact absurd rfl hnext
  · exact fun _ _ => trivial

/-- A guest that sets the page size to 0 and reads back where its queue is. -/
theorem page_size_zero_aborts :
    VirtioBlkMmio.new ⟨2, 512⟩ = .ok sampleDevice.reset ∧
    Runs.run (Handler.guest sampleVm sampleBody)
      (.boot (World.start sampleDevice (guestMemory [])) sampleDevice.reset)
      [.write virtioMmioGuestPageSize 0, .read virtioMmioQueuePfn] = .error .divideByZero :=
  ⟨rfl, rfl⟩

end Min1visor.Virtio
