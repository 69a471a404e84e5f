import Min1visor.VirtioBlkGuest

/-!
# Isolation of the virtio device

The handler follows pointers that the guest has chosen. It translates the first byte
of each buffer and nothing else: the rings and the table are where the registers put
them, entries and links index them without a bound, and a buffer may end behind the
RAM. Where the guest keeps to its RAM in all of this, so does the handler.
-/
namespace Min1visor.Virtio
open Gicv3Mmio

variable {η : Type} {vm : Vm.VM} {body : FileBody η}

/-- The extent is in the RAM of the machine. -/
def InRam (vm : Vm.VM) (e : Extent) : Prop :=
  e.Within vm.ramPhysicalBaseAddress (vm.ramPhysicalBaseAddress + vm.ramSize)

instance (vm : Vm.VM) (e : Extent) : Decidable (InRam vm e) :=
  inferInstanceAs (Decidable (e.Within _ _))

/-! ## What the guest has to keep to -/

/-- The table is in the RAM and has the descriptor. -/
def TableInside (vm : Vm.VM) (w : World η) (id : ℕ) : Prop :=
  w.device.descriptor ≠ 0 → InRam vm ⟨w.device.descriptor, 16 * w.slots⟩ ∧ id < w.slots

/-- The available ring is in the RAM, and a new entry has a head in the table and a
whole header in the RAM. -/
structure FetchInside (vm : Vm.VM) (w : World η) : Prop where
  avail : InRam vm ⟨w.device.availRing, 4 + 2 * w.slots⟩
  table : w.device.lastAvailId ≠ w.availIndex → TableInside vm w w.head
  header : w.device.lastAvailId ≠ w.availIndex → (w.desc w.head).length = sizeOfReq → ∀ a,
    vm.getPhysicalAddress (w.desc w.head).address = some a → InRam vm ⟨a, sizeOfReq⟩

/-- The next link stays in the table, a buffer that starts in the RAM ends there, and
at the end of the chain the used ring is in the RAM. -/
structure WalkInside (vm : Vm.VM) (w : World η) (r : Request) : Prop where
  table : TableInside vm w r.descriptor.next
  buffer : (w.desc r.descriptor.next).flags &&& virtQueueDescFlagsNext ≠ 0 → ∀ a,
    vm.getPhysicalAddress (w.desc r.descriptor.next).address = some a →
      InRam vm ⟨a, (w.desc r.descriptor.next).length⟩
  used : (w.desc r.descriptor.next).flags &&& virtQueueDescFlagsNext = 0 →
    InRam vm ⟨w.device.usedRing, 4 + 8 * w.slots⟩

/-- The condition on a step of the machine. -/
def Inside (vm : Vm.VM) (h : Handler η) : Event → Prop
  | .turn => (h.pc = .ok .fetch → FetchInside vm h.world) ∧
      ∀ r, h.pc = .ok (.walk r) → WalkInside vm h.world r
  | _ => True

/-! ## Accesses -/

/-- All accesses so far were in the RAM. -/
def Isolated (vm : Vm.VM) (w : World η) : Prop := ∀ e ∈ w.history.accesses, InRam vm e

theorem Isolated.touch {w : World η} (h : Isolated vm w) {e : Extent} (he : InRam vm e) :
    Isolated vm (w.touch e) := by
  intro x hx
  rcases List.mem_append.mp hx with hx | hx
  · exact h x hx
  · rw [List.mem_singleton.mp hx]
    exact he

theorem FetchInside.index {w : World η} (h : FetchInside vm w) :
    InRam vm ⟨w.device.availRing + 2, 2⟩ := by
  obtain ⟨hlo, hhi⟩ := h.avail
  simp only [InRam, Extent.Within, Extent.stop] at *
  omega

theorem FetchInside.slot {w : World η} (h : FetchInside vm w) (hslots : w.slots ≠ 0) :
    InRam vm ⟨w.availSlot, 2⟩ := by
  obtain ⟨hlo, hhi⟩ := h.avail
  have hmod : w.device.lastAvailId % w.slots < w.slots := Nat.mod_lt _ (Nat.pos_of_ne_zero hslots)
  simp only [InRam, Extent.Within, Extent.stop, World.availSlot] at *
  omega

theorem TableInside.entry {w : World η} {id : ℕ} (h : TableInside vm w id) (hread : w.Readable id) :
    InRam vm ⟨w.entry id, sizeOfDesc⟩ := by
  obtain ⟨⟨hlo, hhi⟩, hid⟩ := h hread.table
  simp only [InRam, Extent.Within, Extent.stop, World.entry, sizeOfDesc] at *
  omega

/-- A turn of the outer loop. -/
theorem FetchRule.isolated {w w' : World η} {result : Except Fault Pc} (h : FetchRule vm w result w')
    (hw : Isolated vm w) (hinside : FetchInside vm w) : Isolated vm w' := by
  have hpolled : Isolated vm w.polled := hw.touch hinside.index
  have htaken : w.Takes → Isolated vm w.taken := fun takes =>
    (show Isolated vm w.advanced from hpolled).touch (hinside.slot takes.slots)
  have hvisited : w.Takes → w.Readable w.head → Isolated vm (w.taken.visited w.head) :=
    fun takes readable => (htaken takes).touch ((hinside.table takes.new).entry readable)
  cases h with
  | drained | interruptAborts | noSlots | counter | noRing | slotOverflow => exact hpolled
  | noTable takes | entryOverflow takes => exact htaken takes
  | badHeader takes readable => exact hvisited takes readable
  | noNext takes readable length address | started takes readable length address =>
    exact (hvisited takes readable).touch (hinside.header takes.new length _ address)

/-- The publication of a used element. -/
theorem PublishRule.isolated {w w' : World η} {id length : ℕ} {result : Except Fault Unit}
    (h : PublishRule w id length result w') (hw : Isolated vm w)
    (hused : InRam vm ⟨w.device.usedRing, 4 + 8 * w.slots⟩) : Isolated vm w' := by
  cases h with
  | noSlots | counter | slotOverflow => exact hw
  | published slots =>
    obtain ⟨hlo, hhi⟩ := hused
    have hmod : w.device.usedId % w.slots < w.slots := Nat.mod_lt _ (Nat.pos_of_ne_zero slots)
    have helement : InRam vm ⟨w.usedSlot, sizeOfUsedElement⟩ := by
      simp only [InRam, Extent.Within, Extent.stop, World.usedSlot, sizeOfUsedElement] at *
      omega
    have hindex : InRam vm ⟨w.device.usedRing + 2, 2⟩ := by
      simp only [InRam, Extent.Within, Extent.stop] at *
      omega
    exact ((show Isolated vm w.counted from hw).touch helement).touch hindex

/-- A byte at a translated address is in the RAM. -/
theorem inRam_byte {x a : ℕ} (h : vm.getPhysicalAddress x = some a) : InRam vm ⟨a, 1⟩ := by
  obtain ⟨hlo, hhi⟩ := Vm.getPhysicalAddress_lt h
  exact ⟨hlo, hhi⟩

/-- A turn of the inner loop. -/
theorem WalkRule.isolated {w w' : World η} {r : Request} {result : Except Fault Pc}
    (h : WalkRule vm w r result w') (hw : Isolated vm w) (hinside : WalkInside vm w r) :
    Isolated vm w' := by
  have hvisited : w.Readable r.descriptor.next → Isolated vm (w.visited r.descriptor.next) :=
    fun readable => hw.touch (hinside.table.entry readable)
  cases h with
  | noTable | entryOverflow => exact hw
  | statusOverflow readable _ address => exact (hvisited readable).touch (inRam_byte address)
  | status readable last address _ publish =>
    refine publish.isolated ?_ (hinside.used last)
    exact (hvisited readable).touch (inRam_byte address)
  | noStatus readable last _ publish => exact publish.isolated (hvisited readable) (hinside.used last)
  | sizeOverflow readable | untranslated readable => exact hvisited readable
  | offsetOverflow readable next _ address =>
    exact (hvisited readable).touch (hinside.buffer next _ address)
  | stopped readable next _ address _ access | accessed readable next _ address _ access =>
    intro e he
    rw [access.history.1] at he
    exact (hvisited readable).touch (hinside.buffer next _ address) e he

/-- One step of the machine. -/
theorem Isolated.guest {h h' : Handler η} {e : Event} (hw : Isolated vm h.world)
    (hinside : Inside vm h e) (hstep : h.guest vm body e = .ok h') : Isolated vm h'.world := by
  cases Handler.guest_rule hstep with
  | same => exact hw
  | wrote => exact hw
  | stored => exact hw
  | interrupts => exact hw
  | turn =>
    cases hpc : h.pc with
    | error f => rwa [Handler.step_error hpc]
    | ok pc =>
      cases pc with
      | fetch => exact (Handler.step_fetch vm body hpc).isolated hw (hinside.1 hpc)
      | walk r => exact (Handler.step_walk vm body hpc).isolated hw (hinside.2 r hpc)
      | returned => rwa [Handler.step_returned hpc]

/-- In every run of a machine with a new device whose turns all stay inside, the
handler has accessed nothing but the RAM of the machine. -/
theorem run_isolated (vm : Vm.VM) (body : FileBody η) (v : VirtioBlkMmio) (w : World η)
    (events : List Event)
    (hinside : Runs.Along (Handler.guest vm body) (Inside vm) (.boot w v) events) (h : Handler η)
    (hrun : Runs.run (Handler.guest vm body) (.boot w v) events = .ok h) :
    ∀ e ∈ h.world.history.accesses, InRam vm e := by
  refine Runs.run_invariant (fun h => Isolated vm h.world) ?_ events _ h ?_ hinside hrun
  · exact fun h e h' hw hcond hstep => hw.guest hcond hstep
  · exact fun e he => absurd he (List.not_mem_nil)

theorem run_isolated_one_request :
    ∃ h, Runs.run (Handler.guest sampleVm sampleBody)
        (.boot (World.start sampleDevice (guestMemory oneRequest)) sampleDevice.reset)
        (setUp ++ [.turn, .turn]) = .ok h ∧
      h.world.history.accesses.length = 8 ∧ ∀ e ∈ h.world.history.accesses, InRam sampleVm e := by
  obtain ⟨h₀, hstart, htable₀, hheader⟩ : ∃ h₀ : Handler Unit,
      h₀ = ⟨{ (World.start sampleDevice (guestMemory oneRequest)).begin with
        device := sampleDevice }, .ok .fetch⟩ ∧
      (InRam sampleVm ⟨h₀.world.device.availRing, 4 + 2 * h₀.world.slots⟩ ∧
        InRam sampleVm ⟨h₀.world.device.descriptor, 16 * h₀.world.slots⟩ ∧
        h₀.world.head < h₀.world.slots) ∧
      sampleVm.getPhysicalAddress (h₀.world.desc h₀.world.head).address = some 0x50002000 :=
    ⟨_, rfl, by decide +kernel, by decide +kernel⟩
  obtain ⟨h₁, hfirst, hpc, htable₁, hused, hflags⟩ : ∃ h₁,
      Handler.guest sampleVm sampleBody h₀ .turn = .ok h₁ ∧
      h₁.pc = .ok (.walk ⟨0, ⟨0x40002000, 16, 1, 1⟩, false, 0, 0, 0⟩) ∧
      (InRam sampleVm ⟨h₁.world.device.descriptor, 16 * h₁.world.slots⟩ ∧ 1 < h₁.world.slots) ∧
      InRam sampleVm ⟨h₁.world.device.usedRing, 4 + 8 * h₁.world.slots⟩ ∧
      (h₁.world.desc 1).flags = 0 := by
    subst hstart
    exact ⟨_, rfl, by decide +kernel, by decide +kernel, by decide +kernel, by decide +kernel⟩
  obtain ⟨h₂, hsecond, hcount⟩ : ∃ h₂, Handler.guest sampleVm sampleBody h₁ .turn = .ok h₂ ∧
      h₂.world.history.accesses.length = 8 := by
    subst hstart
    cases hfirst
    exact ⟨_, rfl, by decide +kernel⟩
  have hrun : Runs.run (Handler.guest sampleVm sampleBody)
      (.boot (World.start sampleDevice (guestMemory oneRequest)) sampleDevice.reset)
      (setUp ++ [.turn, .turn]) = .ok h₂ := by
    rw [run_setUp, ← hstart, Runs.run_cons_ok _ hfirst, Runs.run_cons_ok _ hsecond, Runs.run_nil]
  refine ⟨h₂, hrun, hcount, run_isolated _ _ _ _ _ (along_setUp _ _ trivial trivial trivial trivial ?_)
    h₂ hrun⟩
  rw [← hstart]
  refine Runs.along_cons_ok hfirst ⟨fun _ => ⟨htable₀.1, fun _ _ => htable₀.2, ?_⟩, ?_⟩
    (Runs.along_cons_ok hsecond ⟨?_, ?_⟩ (show Runs.Along _ _ _ [] from trivial))
  · intro _ _ a ha
    cases hheader.symm.trans ha
    decide +kernel
  · intro r hr
    rw [hstart] at hr
    cases hr
  · intro hfetch
    rw [hpc] at hfetch
    cases hfetch
  · intro r hr
    rw [hpc] at hr
    cases hr
    refine ⟨fun _ => htable₁, fun hnext => ?_, fun _ => hused⟩
    rw [hflags] at hnext
    exact absurd rfl hnext

/-- A read into a buffer that starts at the last byte of the RAM. -/
def lastByte : List (ℕ × ℕ × ℕ) :=
  [(0x50000000, 8, 0x40002000), (0x50000008, 4, 16), (0x5000000c, 2, 1), (0x5000000e, 2, 1),
    (0x50000010, 8, 0x4fffffff), (0x50000018, 4, 512), (0x5000001c, 2, 3), (0x5000001e, 2, 2),
    (0x50000042, 2, 1)]

/-- The file is read to the bytes behind the RAM of the machine. -/
theorem buffer_leaves_ram :
    ∃ h, Runs.run (Handler.guest sampleVm sampleBody)
        (.boot (World.start sampleDevice (guestMemory lastByte)) sampleDevice.reset)
        (setUp ++ [.turn, .turn]) = .ok h ∧
      ⟨0x5fffffff, 512⟩ ∈ h.world.history.accesses ∧ ¬ InRam sampleVm ⟨0x5fffffff, 512⟩ := by
  obtain ⟨h₁, h₂, hfirst, hsecond, haccess⟩ : ∃ h₁ h₂, Handler.guest sampleVm sampleBody
      ⟨{ (World.start sampleDevice (guestMemory lastByte)).begin with
        device := sampleDevice }, .ok .fetch⟩ .turn = .ok h₁ ∧
      Handler.guest sampleVm sampleBody h₁ .turn = .ok h₂ ∧
      ⟨0x5fffffff, 512⟩ ∈ h₂.world.history.accesses := ⟨_, _, rfl, rfl, by decide +kernel⟩
  refine ⟨h₂, ?_, haccess, by decide +kernel⟩
  rw [run_setUp, Runs.run_cons_ok _ hfirst, Runs.run_cons_ok _ hsecond, Runs.run_nil]

end Min1visor.Virtio
