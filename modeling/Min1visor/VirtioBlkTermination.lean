import Min1visor.VirtioBlkTurns

/-!
# Termination of the virtio handler

A call ends when it returns: an abort leads to the panic handler, which never gets back to
the guest. The counter of the available ring bounds the outer loop. The inner loop follows
the links of a chain of descriptors without counting them, so it goes on for ever on a chain
that never comes to a descriptor without the `NEXT` flag, unless a turn aborts.
-/
namespace Min1visor.Virtio
open Vgicv3 Gicv3Mmio Fat Fat.Fat32 VirtioBlkMmio Device

variable {η : Type} {vm : Vm.VM} {body : FileBody η}

/-! ## Turns that do not abort -/

/-- A turn of the outer loop from here does not abort. -/
structure FetchSound (w : World η) : Prop where
  interrupt : w.device.lastAvailId = w.availIndex →
    ∃ next, w.distributor.triggerInterrupt w.cpu virtioBlkIntId none = .ok next
  counter : w.device.lastAvailId ≠ w.availIndex →
    w.slots ≠ 0 ∧ w.device.lastAvailId + 1 < 2 ^ 16
  slot : w.device.lastAvailId ≠ w.availIndex → w.device.availRing ≠ 0 → w.availSlot < 2 ^ 64
  entry : w.device.lastAvailId ≠ w.availIndex → w.device.availRing ≠ 0 →
    w.device.descriptor ≠ 0 → w.entry w.head < 2 ^ 64

/-- The publication of a used element from here does not abort. -/
structure PublishSound (w : World η) : Prop where
  slots : w.slots ≠ 0
  counter : w.device.usedId + 1 < 2 ^ 16
  slot : w.usedSlot < 2 ^ 64

/-- The end of a request does not abort. -/
structure StatusSound (vm : Vm.VM) (w : World η) (r : Request) : Prop where
  size : vm.getPhysicalAddress (w.nextDesc r).address ≠ none →
    r.totalSize + (w.nextDesc r).length < 2 ^ 32
  publish : PublishSound w

/-- A data descriptor does not abort: its length can be added up, and the file system,
called for it, returns `Ok` or `Err`. -/
structure DataSound (vm : Vm.VM) (body : FileBody η) (w : World η) (r : Request) : Prop where
  size : r.totalSize + (w.nextDesc r).length < 2 ^ 32
  offset : vm.getPhysicalAddress (w.nextDesc r).address ≠ none →
    r.offset + (w.nextDesc r).length < 2 ^ 64
  file : ∀ a n stop, vm.getPhysicalAddress (w.nextDesc r).address = some a →
    clamp w.device.file r.offset (w.nextDesc r).length = .ok (some n) →
    (body.call r.isWrite w.device.file a r.offset n w.machine).1 = .error stop → stop = .err

/-- A turn of the inner loop from here does not abort. -/
structure WalkSound (vm : Vm.VM) (body : FileBody η) (w : World η) (r : Request) : Prop where
  entry : w.device.descriptor ≠ 0 → w.entry r.descriptor.next < 2 ^ 64
  status : w.device.descriptor ≠ 0 → (w.nextDesc r).flags &&& virtQueueDescFlagsNext = 0 →
    StatusSound vm w r
  data : w.device.descriptor ≠ 0 → (w.nextDesc r).flags &&& virtQueueDescFlagsNext ≠ 0 →
    DataSound vm body w r

/-- The next turn does not abort. -/
def Handler.Sound (vm : Vm.VM) (body : FileBody η) (h : Handler η) : Prop :=
  match h.pc with
  | .ok .fetch => FetchSound h.world
  | .ok (.walk r) => WalkSound vm body h.world r
  | _ => True

theorem FetchRule.sound_iff {w w' : World η} {pc : Except Fault Pc} (h : FetchRule vm w pc w') :
    FetchSound w ↔ ∀ f, pc ≠ .error f := by
  cases h with
  | drained empty trigger =>
    refine iff_of_true ⟨fun _ => ⟨_, trigger⟩, fun new => ?_, fun new => ?_, fun new => ?_⟩ (by simp)
    all_goals exact absurd empty new
  | interruptAborts empty trigger =>
    refine iff_of_false (fun hs => ?_) (by simp)
    obtain ⟨next, hnext⟩ := hs.interrupt empty
    rw [trigger] at hnext
    cases hnext
  | noSlots new slots => exact iff_of_false (fun hs => (hs.counter new).1 slots) (by simp)
  | counter new _ last => exact iff_of_false (fun hs => last (hs.counter new).2) (by simp)
  | noRing advances ring =>
    exact iff_of_true ⟨fun empty => absurd empty advances.new,
      fun _ => ⟨advances.slots, advances.counter⟩, fun _ h => absurd ring h,
      fun _ h => absurd ring h⟩ (by simp)
  | slotOverflow advances ring slot =>
    exact iff_of_false (fun hs => slot (hs.slot advances.new ring)) (by simp)
  | noTable takes table =>
    exact iff_of_true ⟨fun empty => absurd empty takes.new,
      fun _ => ⟨takes.slots, takes.counter⟩, fun _ _ => takes.slot,
      fun _ _ h => absurd table h⟩ (by simp)
  | entryOverflow takes table entry =>
    exact iff_of_false (fun hs => entry (hs.entry takes.new takes.ring table)) (by simp)
  | badHeader takes readable | noNext takes readable | started takes readable =>
    exact iff_of_true ⟨fun empty => absurd empty takes.new,
      fun _ => ⟨takes.slots, takes.counter⟩, fun _ _ => takes.slot,
      fun _ _ _ => readable.entry⟩ (by simp)

theorem PublishRule.sound_iff {w w' : World η} {id length : ℕ} {result : Except Fault Unit}
    (h : PublishRule w id length result w') : PublishSound w ↔ ∀ f, result ≠ .error f := by
  cases h with
  | noSlots slots => exact iff_of_false (fun hs => hs.slots slots) (by simp)
  | counter _ last => exact iff_of_false (fun hs => last hs.counter) (by simp)
  | slotOverflow _ _ slot => exact iff_of_false (fun hs => slot hs.slot) (by simp)
  | published slots counter slot => exact iff_of_true ⟨slots, counter, slot⟩ (by simp)

theorem PublishSound.congr {u w : World η} (h : u.device = w.device) :
    PublishSound u ↔ PublishSound w := by
  have hslots : u.slots = w.slots := by rw [World.slots, h, World.slots]
  have hslot : u.usedSlot = w.usedSlot := by rw [World.usedSlot, h, hslots, World.usedSlot]
  constructor
  · intro hs
    exact ⟨hslots ▸ hs.slots, h ▸ hs.counter, hslot ▸ hs.slot⟩
  · intro hs
    exact ⟨hslots ▸ hs.slots, h ▸ hs.counter, hslot ▸ hs.slot⟩

/-- The end of a request aborts, or it goes back to the outer loop. -/
theorem complete_sound (vm : Vm.VM) {w u : World η} {r : Request} (hdevice : u.device = w.device) :
    Prog.Yields (fun pc _ => StatusSound vm w r ↔ ∀ f, pc ≠ .error f)
      (complete vm r (w.nextDesc r)) u := by
  unfold complete
  cases haddress : vm.getPhysicalAddress (w.nextDesc r).address with
  | none =>
    have hsound : StatusSound vm w r ↔ PublishSound w :=
      ⟨fun hs => hs.publish, fun hs => ⟨fun h => absurd haddress h, hs⟩⟩
    refine .bind (writeUsed_rule _ _ _) (fun b u' h => .pure ?_) fun f u' h => ?_
    · rw [hsound, ← PublishSound.congr hdevice, h.sound_iff]
      simp
    · rw [hsound, ← PublishSound.congr hdevice, h.sound_iff]
      simp
  | some a =>
    refine .bind_ok (storeBytes_apply _ _ _ _) (arithmetic_add (fun hsize => ?_) fun hsize => ?_)
    · exact iff_of_false (fun hs => hsize (hs.size (by simp [haddress]))) (by simp)
    have hsound : StatusSound vm w r ↔ PublishSound w :=
      ⟨fun hs => hs.publish, fun hs => ⟨fun _ => hsize, hs⟩⟩
    refine .bind (writeUsed_rule _ _ _) (fun b u' h => .pure ?_) fun f u' h => ?_
    · rw [hsound, ← PublishSound.congr (u := u.stored a 1 r.status.toNat) hdevice, h.sound_iff]
      simp
    · rw [hsound, ← PublishSound.congr (u := u.stored a 1 r.status.toNat) hdevice, h.sound_iff]
      simp

/-- At a descriptor in the RAM whose numbers fit, soundness is about the file access. -/
theorem dataSound_iff {w : World η} {r : Request} {a : ℕ}
    (haddress : vm.getPhysicalAddress (w.nextDesc r).address = some a)
    (hsize : r.totalSize + (w.nextDesc r).length < 2 ^ 32)
    (hoffset : r.offset + (w.nextDesc r).length < 2 ^ 64) :
    DataSound vm body w r ↔ ∀ n,
      clamp w.device.file r.offset (w.nextDesc r).length = .ok (some n) → ∀ stop,
      (body.call r.isWrite w.device.file a r.offset n w.machine).1 = .error stop → stop = .err := by
  constructor
  · intro hs n hclamp stop
    exact hs.file a n stop haddress hclamp
  · intro h
    refine ⟨hsize, fun _ => hoffset, fun b n stop hb hclamp => ?_⟩
    obtain rfl : a = b := Option.some.inj (haddress.symm.trans hb)
    exact h n hclamp stop

/-- The file access of a data descriptor aborts, or the inner loop goes on. -/
theorem access_sound {w u : World η} {r : Request} {a : ℕ} {g : Bool → ℕ → Request}
    (hdevice : u.device = w.device) (hmachine : u.machine = w.machine)
    (haddress : vm.getPhysicalAddress (w.nextDesc r).address = some a)
    (hsize : r.totalSize + (w.nextDesc r).length < 2 ^ 32) :
    Prog.Yields (fun pc _ => DataSound vm body w r ↔ ∀ f, pc ≠ .error f)
      (do
        let success ← accessFile body r.isWrite a r.offset (w.nextDesc r).length
        let offset ← arithmetic (Checked.add 64 r.offset (w.nextDesc r).length)
        return (Pc.walk (g success offset))) u := by
  by_cases hoffset : r.offset + (w.nextDesc r).length < 2 ^ 64
  swap
  · refine .bind_error (accessFile_overflow _ _ _ _ hoffset) ?_
    exact iff_of_false (fun hs => hoffset (hs.offset (by simp [haddress]))) (by simp)
  have hiff : DataSound vm body w r ↔ _ := dataSound_iff haddress hsize hoffset
  refine .bind (accessFile_yields hoffset
    (R := fun result _ => DataSound vm body w r ↔ ∀ f, result ≠ .error f) ?_ ?_)
    (fun success u' h => ?_) fun f _ h => ?_
  · intro hpast
    rw [hdevice] at hpast
    rw [hiff, hpast]
    simp
  · intro n hclamp
    rw [hdevice] at hclamp
    rw [hdevice, hmachine, hiff, hclamp]
    simp only [Except.ok.injEq, Option.some.injEq, forall_eq']
    cases (body.call r.isWrite w.device.file a r.offset n w.machine).1 with
    | ok m => simp [report]
    | error stop => cases stop <;> simp [report]
  · refine .bind_ok (by rw [Checked.add_ok hoffset]; rfl) (.pure ?_)
    rw [h]
    simp
  · rw [h]
    simp

/-- A turn of the inner loop aborts exactly from a state that is not sound. -/
theorem walk_sound (vm : Vm.VM) (body : FileBody η) (w : World η) (r : Request) :
    Prog.Yields (fun pc _ => WalkSound vm body w r ↔ ∀ f, pc ≠ .error f) (walk vm body r) w := by
  refine .bind (getDescriptor_yields w r.descriptor.next
    (R := fun result w' => match result with
      | .ok none => w.device.descriptor = 0
      | .ok (some d) => w.Readable r.descriptor.next ∧ d = w.nextDesc r ∧
          w' = w.visited r.descriptor.next
      | .error _ => ¬ WalkSound vm body w r)
    id (fun htable hentry hs => hentry (hs.entry htable)) fun h => ⟨h, rfl, rfl⟩) ?_
    fun f _ h => iff_of_false h (by simp)
  intro d w' hread
  cases d with
  | none =>
    exact .pure (iff_of_true ⟨fun h => absurd hread h, fun h => absurd hread h,
      fun h => absurd hread h⟩ (by simp))
  | some d =>
    obtain ⟨hreadable, rfl, rfl⟩ := hread
    by_cases hnext : (w.nextDesc r).flags &&& virtQueueDescFlagsNext = 0
    · have hsound : WalkSound vm body w r ↔ StatusSound vm w r :=
        ⟨fun hs => hs.status hreadable.table hnext,
          fun hs => ⟨fun _ => hreadable.entry, fun _ _ => hs, fun _ h => absurd hnext h⟩⟩
      refine .ite_pos hnext ?_
      rw [hsound]
      exact complete_sound vm rfl
    · have hsound : WalkSound vm body w r ↔ DataSound vm body w r :=
        ⟨fun hs => hs.data hreadable.table hnext,
          fun hs => ⟨fun _ => hreadable.entry, fun _ h => absurd h hnext, fun _ _ => hs⟩⟩
      rw [hsound]
      refine .ite_neg hnext (arithmetic_add (fun hsize => ?_) fun hsize => ?_)
      · exact iff_of_false (fun hs => hsize hs.size) (by simp)
      cases haddress : vm.getPhysicalAddress (w.nextDesc r).address with
      | none =>
        refine .pure (iff_of_true ⟨hsize, fun h => absurd haddress h, ?_⟩ (by simp))
        intro a n stop h
        rw [haddress] at h
        cases h
      | some a => exact .bind_ok (touch_apply _ _ _) (access_sound rfl rfl haddress hsize)

/-- A turn aborts exactly from a state that is not sound. -/
theorem Handler.sound_iff {h : Handler η} {pc : Pc} (hpc : h.pc = .ok pc) :
    h.Sound vm body ↔ ∀ f, (h.step vm body).pc ≠ .error f := by
  obtain ⟨w, pc'⟩ := h
  dsimp only at hpc
  subst hpc
  cases pc with
  | fetch => exact (step_fetch vm body (h := ⟨w, .ok .fetch⟩) rfl).sound_iff
  | walk r => exact walk_sound vm body w r
  | returned => exact iff_of_true trivial (by simp [step])

/-! ## Chains of descriptors -/

/-- The descriptor that `k` links lead to. -/
def link (table : ℕ → VirtQueueDesc) (id k : ℕ) : ℕ := (fun i => (table i).next)^[k] id

theorem link_succ (table : ℕ → VirtQueueDesc) (id k : ℕ) :
    link table id (k + 1) = (table (link table id k)).next := Function.iterate_succ_apply' _ _ _

theorem link_add (table : ℕ → VirtQueueDesc) (id j k : ℕ) :
    link table id (k + j) = link table (link table id k) j := by
  rw [Nat.add_comm]
  exact Function.iterate_add_apply _ _ _ _

/-- A table that has the same descriptors along a chain has the same chain. -/
theorem link_congr {table table' : ℕ → VirtQueueDesc} {id : ℕ}
    (h : ∀ j, table' (link table id j) = table (link table id j)) (k : ℕ) :
    link table' id k = link table id k := by
  induction k with
  | zero => rfl
  | succ k ih => rw [link_succ, link_succ, ih, h]

/-- The chain from a descriptor on comes to one without the `NEXT` flag. -/
def ChainEnds (table : ℕ → VirtQueueDesc) (id : ℕ) : Prop :=
  ∃ k, (table (link table id k)).flags &&& virtQueueDescFlagsNext = 0

/-- There is a new entry, with the header of a request. -/
structure StartsRequest (vm : Vm.VM) (w : World η) : Prop where
  new : w.device.lastAvailId ≠ w.availIndex
  ring : w.device.availRing ≠ 0
  table : w.device.descriptor ≠ 0
  length : (w.desc w.head).length = sizeOfReq
  address : vm.getPhysicalAddress (w.desc w.head).address ≠ none
  next : (w.desc w.head).flags &&& virtQueueDescFlagsNext ≠ 0

/-! ## The end of a call -/

/-- The call returns to the guest. -/
def Terminates (vm : Vm.VM) (body : FileBody η) (w : World η) : Prop :=
  ∃ turns, (Handler.operation vm body turns w).pc = .ok .returned

/-- The rest of the chain in work stays as it is, also where the handler reads the
file to a buffer of the guest. -/
def Steady (vm : Vm.VM) (body : FileBody η) (w : World η) : Prop :=
  ∀ turns r r', (Handler.operation vm body turns w).pc = .ok (.walk r) →
    (Handler.operation vm body (turns + 1) w).pc = .ok (.walk r') → ∀ k,
      let table := (Handler.operation vm body turns w).world.desc
      (Handler.operation vm body (turns + 1) w).world.desc (link table r.descriptor.next k) =
        table (link table r.descriptor.next k)

section Run
variable {w v : World η} {turns id k : ℕ} {r : Request}

/-- A call that returns never aborts on the way. -/
theorem Terminates.not_error (h : Terminates vm body w) (turns : ℕ) (f : Fault) :
    (Handler.operation vm body turns w).pc ≠ .error f := by
  intro herror
  obtain ⟨m, hreturned⟩ := h
  have hsame := (Handler.operation_stays (Handler.step_error herror)
    (Nat.le_max_left turns m)).symm.trans
    (Handler.operation_stays (Handler.step_returned hreturned) (Nat.le_max_right turns m))
  rw [hsame, hreturned] at herror
  cases herror

theorem Terminates.sound (h : Terminates vm body w) (turns : ℕ) :
    (Handler.operation vm body turns w).Sound vm body := by
  cases hpc : (Handler.operation vm body turns w).pc with
  | error f => exact absurd hpc (h.not_error turns f)
  | ok pc =>
    rw [Handler.sound_iff hpc, ← Handler.operation_succ]
    exact h.not_error (turns + 1)

/-! ## Along a chain -/

/-- What a turn of the inner loop can lead to, if it does not abort. -/
theorem WalkRule.outcomes {w' : World η} {pc : Except Fault Pc} (h : WalkRule vm w r pc w')
    (hsound : ∀ f, pc ≠ .error f) :
    (∃ r', pc = .ok (.walk r') ∧ r'.descriptor = w.desc r.descriptor.next ∧
      (w.desc r.descriptor.next).flags &&& virtQueueDescFlagsNext ≠ 0) ∨
    (pc = .ok .fetch ∧ (w.desc r.descriptor.next).flags &&& virtQueueDescFlagsNext = 0) ∨
    (pc = .ok .returned ∧ w.device.descriptor = 0) := by
  cases h with
  | noTable table => exact .inr (.inr ⟨rfl, table⟩)
  | @status a result w' _ last _ _ _ =>
    cases result with
    | ok => exact .inr (.inl ⟨rfl, last⟩)
    | error f => exact absurd rfl (hsound f)
  | @noStatus result w' _ last _ _ =>
    cases result with
    | ok => exact .inr (.inl ⟨rfl, last⟩)
    | error f => exact absurd rfl (hsound f)
  | untranslated _ next | accessed _ next => exact .inl ⟨_, rfl, rfl, next⟩
  | _ => exact absurd rfl (hsound _)

/-- After `k` descriptors of the chain from `id` on, as it was in the state `v`, the
inner loop is still going. -/
structure Walking (v : World η) (h : Handler η) (id k : ℕ) (r : Request) : Prop where
  pc : h.pc = .ok (.walk r)
  place : r.descriptor.next = link v.desc id k
  table : h.world.device.descriptor ≠ 0
  rest : ∀ j, k ≤ j → h.world.desc (link v.desc id j) = v.desc (link v.desc id j)

/-- The next descriptor is the one of the chain. -/
theorem Walking.desc {h : Handler η} (hw : Walking v h id k r) :
    h.world.desc r.descriptor.next = v.desc (link v.desc id k) := by
  rw [hw.place, hw.rest k le_rfl]

/-- A further descriptor of the chain. -/
theorem Walking.succ (hsteady : Steady vm body w) {r' : Request}
    (hw : Walking v (Handler.operation vm body turns w) id k r)
    (hnext : (Handler.operation vm body (turns + 1) w).pc = .ok (.walk r'))
    (hdescriptor : r'.descriptor =
      (Handler.operation vm body turns w).world.desc r.descriptor.next) :
    Walking v (Handler.operation vm body (turns + 1) w) id (k + 1) r' := by
  have hqueue := Handler.step_queue vm body (Handler.operation vm body turns w)
  rw [← Handler.operation_succ] at hqueue
  refine ⟨hnext, ?_, ?_, ?_⟩
  · rw [hdescriptor, hw.desc, link_succ]
  · rw [hqueue.descriptor]
    exact hw.table
  · intro j hj
    obtain ⟨i, rfl⟩ := Nat.exists_eq_add_of_le ((Nat.le_succ k).trans hj)
    -- The links of the state before the turn are those of `v` from here on.
    have hlink : link (Handler.operation vm body turns w).world.desc r.descriptor.next i =
        link v.desc id (k + i) := by
      rw [hw.place, link_add]
      apply link_congr
      intro j
      rw [← link_add]
      exact hw.rest (k + j) (Nat.le_add_right k j)
    have hsame := hsteady turns r r' hw.pc hnext i
    dsimp only at hsame
    rw [hlink] at hsame
    rw [hsame, hw.rest (k + i) (Nat.le_add_right k i)]

/-- A turn along the chain that does not abort goes on to the next descriptor, or the chain
ends here and the turn goes back to the outer loop. -/
theorem Walking.turn (hsteady : Steady vm body w)
    (hw : Walking v (Handler.operation vm body turns w) id k r)
    (hsound : ∀ f, (Handler.operation vm body (turns + 1) w).pc ≠ .error f) :
    (∃ r', Walking v (Handler.operation vm body (turns + 1) w) id (k + 1) r' ∧
      (v.desc (link v.desc id k)).flags &&& virtQueueDescFlagsNext ≠ 0) ∨
    ((Handler.operation vm body (turns + 1) w).pc = .ok .fetch ∧
      (v.desc (link v.desc id k)).flags &&& virtQueueDescFlagsNext = 0) := by
  have hrule := Handler.step_walk vm body hw.pc
  rw [← Handler.operation_succ] at hrule
  have hdesc := hw.desc
  rcases hrule.outcomes hsound with ⟨r', hpc, hdescriptor, hnext⟩ | ⟨hpc, hlast⟩ | ⟨-, htable⟩
  · exact .inl ⟨r', hw.succ hsteady hpc hdescriptor, hdesc ▸ hnext⟩
  · exact .inr ⟨hpc, hdesc ▸ hlast⟩
  · exact absurd htable hw.table

/-- A turn that starts a request writes no memory. -/
theorem FetchRule.walking {w' : World η} (h : FetchRule vm v (.ok (.walk r)) w') :
    Walking v ⟨w', .ok (.walk r)⟩ (v.desc v.head).next 0 r := by
  cases h with
  | started _ readable => exact ⟨rfl, rfl, readable.table, fun _ _ => rfl⟩

/-- A turn of the outer loop that does not abort starts a request or returns. -/
theorem FetchRule.outcomes {w' : World η} {pc : Except Fault Pc} (h : FetchRule vm v pc w')
    (hsound : ∀ f, pc ≠ .error f) :
    (StartsRequest vm v ∧ ∃ r, pc = .ok (.walk r) ∧
      v.device.lastAvailId + 1 < 2 ^ 16 ∧ w'.device.lastAvailId = v.device.lastAvailId + 1) ∨
    (¬ StartsRequest vm v ∧ pc = .ok .returned) := by
  cases h with
  | started takes readable length address next =>
    exact .inl ⟨⟨takes.new, takes.ring, readable.table, length, by simp [address], next⟩, _, rfl,
      takes.counter, rfl⟩
  | drained empty => exact .inr ⟨fun hs => hs.new empty, rfl⟩
  | noRing _ ring => exact .inr ⟨fun hs => hs.ring ring, rfl⟩
  | noTable _ table => exact .inr ⟨fun hs => hs.table table, rfl⟩
  | badHeader _ _ bad => exact .inr ⟨fun hs => bad.elim (· hs.length) hs.address, rfl⟩
  | noNext _ _ _ _ next => exact .inr ⟨fun hs => hs.next next, rfl⟩
  | interruptAborts | noSlots | counter | slotOverflow | entryOverflow =>
    exact absurd rfl (hsound _)

/-! ## The whole call -/

/-- The request of a call that returns has a chain that ends. -/
theorem Terminates.chainEnds (h : Terminates vm body w) (hsteady : Steady vm body w)
    (hfetch : (Handler.operation vm body turns w).pc = .ok .fetch)
    (hstarts : StartsRequest vm (Handler.operation vm body turns w).world) :
    ChainEnds (Handler.operation vm body turns w).world.desc
      ((Handler.operation vm body turns w).world.desc
        (Handler.operation vm body turns w).world.head).next := by
  by_contra hendless
  have hrule := Handler.step_fetch vm body hfetch
  rw [← Handler.operation_succ] at hrule
  obtain ⟨-, r, hpc, -⟩ | ⟨hnot, -⟩ := hrule.outcomes (h.not_error (turns + 1))
  swap
  · exact absurd hstarts hnot
  rw [hpc] at hrule
  have hstarted := hrule.walking
  rw [← hpc] at hstarted
  generalize (Handler.operation vm body turns w).world = v at *
  have hall : ∀ k, ∃ r, Walking v (Handler.operation vm body (turns + 1 + k) w)
      (v.desc v.head).next k r := by
    intro k
    induction k with
    | zero => exact ⟨_, hstarted⟩
    | succ k ih =>
      obtain ⟨r, hwalking⟩ := ih
      obtain ⟨r', hnext, -⟩ | ⟨-, hlast⟩ := hwalking.turn hsteady (h.not_error _)
      · exact ⟨r', hnext⟩
      · exact absurd ⟨k, hlast⟩ hendless
  obtain ⟨m, hreturned⟩ := h
  obtain ⟨r, hwalking⟩ := hall m
  have hwalk := hwalking.pc
  rw [Handler.operation_stays (Handler.step_returned hreturned) (by omega), hreturned] at hwalk
  cases hwalk

/-- Along a chain that ends, turns that do not abort lead back to the outer loop. -/
theorem Walking.leaves (hsteady : Steady vm body w)
    (hsound : ∀ turns f, (Handler.operation vm body turns w).pc ≠ .error f) (left : ℕ)
    (hw : Walking v (Handler.operation vm body turns w) id k r)
    (hlast : (v.desc (link v.desc id (k + left))).flags &&& virtQueueDescFlagsNext = 0) :
    ∃ m, (Handler.operation vm body m w).pc = .ok .fetch ∧
      (Handler.operation vm body m w).world.device.lastAvailId =
        (Handler.operation vm body turns w).world.device.lastAvailId := by
  have hrule := Handler.step_walk vm body hw.pc
  rw [← Handler.operation_succ] at hrule
  induction left generalizing turns k r with
  | zero =>
    obtain ⟨r', -, hnext⟩ | ⟨hfetch, -⟩ := hw.turn hsteady (hsound _)
    · exact absurd hlast hnext
    · exact ⟨turns + 1, hfetch, hrule.last⟩
  | succ left ih =>
    obtain ⟨r', hnext, -⟩ | ⟨hfetch, -⟩ := hw.turn hsteady (hsound _)
    · have hrule' := Handler.step_walk vm body hnext.pc
      rw [← Handler.operation_succ] at hrule'
      rw [← hrule.last]
      exact ih hnext (by rwa [Nat.add_right_comm, Nat.add_assoc]) hrule'
    · exact ⟨turns + 1, hfetch, hrule.last⟩

end Run

end Min1visor.Virtio
