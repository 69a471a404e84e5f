import Min1visor.VirtioBlkTurns

/-!
# Completion of the requests of a queue

A call of the handler consumes entries of the available ring one after another.
Every entry that leads to a chain of descriptors ends with a used element in the
memory of the guest, and the interrupt is raised behind the last of them. A malformed
entry ends the call at once: it was consumed and gets no used element, and the elements
published before it stay without an interrupt.
-/
namespace Min1visor.Virtio
open Vgicv3 Gicv3Mmio Fat Fat.Fat32

variable {η : Type} {vm : Vm.VM} {body : FileBody η}

/-- A turn between two states of a call from `w` consumes the entry number `i` of the call. -/
structure Consumes (w u u' : World η) (i : ℕ) : Prop where
  counter : u.device.lastAvailId = w.device.lastAvailId + i
  advanced : u'.device.lastAvailId = w.device.lastAvailId + (i + 1)

/-- A turn between two states of a call from `w` publishes the used element number `i`
of the call: behind it, the memory holds the element in its slot, and the new index. -/
structure Publishes (w u u' : World η) (i id : ℕ) : Prop where
  counter : u.device.usedId = w.device.usedId + i
  advanced : u'.device.usedId = w.device.usedId + (i + 1)
  element : Bytes.load u'.machine.mem
    (w.device.usedRing + 4 + 8 * ((w.device.usedId + i) % w.slots)) 4 = id
  idx : Bytes.load u'.machine.mem (w.device.usedRing + 2) 2 = w.device.usedId + (i + 1)

/-- In the first `turns` turns of a call from `w`, every consumed entry gets exactly one
used element with its head, in order, and if there are any, the interrupt is raised. -/
structure Delivered (vm : Vm.VM) (body : FileBody η) (w : World η) (turns : ℕ) : Prop where
  answered : ∀ i t, t < turns →
    Consumes w (Handler.before vm body w t) (Handler.before vm body w (t + 1)) i →
    ∃! u, (t < u ∧ u < turns) ∧
      Publishes w (Handler.before vm body w u) (Handler.before vm body w (u + 1)) i
        (Handler.before vm body w t).head
  only : (Handler.before vm body w turns).device.usedId + w.device.lastAvailId =
    w.device.usedId + (Handler.before vm body w turns).device.lastAvailId
  signalled : (Handler.before vm body w turns).device.usedId ≠ w.device.usedId →
    (Handler.before vm body w turns).device.interruptStatus.getLsbD 0 = true ∧
      w.distributor.triggerInterrupt w.cpu virtioBlkIntId none =
        .ok ((Handler.before vm body w turns).distributor, (Handler.before vm body w turns).cpu)

/-- There is a new entry, and it has no ring, no table, or a header that is not
one of a request. -/
def Malformed (vm : Vm.VM) (w : World η) : Prop :=
  w.device.lastAvailId ≠ w.availIndex ∧
    (w.device.availRing = 0 ∨ w.device.descriptor = 0 ∨
      (w.desc w.head).length ≠ sizeOfReq ∨
      vm.getPhysicalAddress (w.desc w.head).address = none ∨
      (w.desc w.head).flags &&& virtQueueDescFlagsNext = 0)

instance (vm : Vm.VM) (w : World η) : Decidable (Malformed vm w) :=
  inferInstanceAs (Decidable (_ ∧ _))

/-! ## The turns of a request -/

/-- The element and the index of the used ring after a publication. -/
theorem World.completed_loads (w : World η) (id length : ℕ) :
    Bytes.load (w.completed id length).machine.mem w.usedSlot 4 = id % 2 ^ 32 ∧
      Bytes.load (w.completed id length).machine.mem (w.device.usedRing + 2) 2 =
        (w.device.usedId + 1) % 2 ^ 16 := by
  have hmem : (w.completed id length).machine.mem = Bytes.store (Bytes.store w.machine.mem
      w.usedSlot 8 (id + 2 ^ 32 * length)) (w.device.usedRing + 2) 2 (w.device.usedId + 1) := rfl
  have hslot : w.device.usedRing + 4 ≤ w.usedSlot := by
    rw [World.usedSlot]
    omega
  rw [hmem, Bytes.load_store_apart _ _ (.inr (by omega)), Bytes.load_store]
  have helement := Bytes.load_store_from w.machine.mem w.usedSlot (id + 2 ^ 32 * length)
    (show 0 + 4 ≤ 8 by decide)
  rw [Nat.add_zero, pow_zero, Nat.div_one] at helement
  rw [helement]
  exact ⟨Nat.add_mul_mod_self_left id (2 ^ 32) length, rfl⟩

theorem PublishRule.eq_completed {w w' : World η} {id length : ℕ}
    (h : PublishRule w id length (.ok ()) w') :
    w.device.usedId + 1 < 2 ^ 16 ∧ w' = w.completed id length := by
  cases h with
  | published _ counter => exact ⟨counter, rfl⟩

/-- What the turns of a request leave alone. -/
structure SameQuiet (w w' : World η) : Prop where
  device : w'.device = w.device
  distributor : w'.distributor = w.distributor
  cpu : w'.cpu = w.cpu

theorem AccessRule.quiet {w w' : World η} {result : Except Fault Bool}
    (h : AccessRule w result w') : SameQuiet w w' := by
  cases h <;> exact ⟨rfl, rfl, rfl⟩

/-- The turn that starts a request. -/
theorem FetchRule.starts {w w' : World η} {r : Request} {pc : Except Fault Pc}
    (h : FetchRule vm w pc w') (hpc : pc = .ok (.walk r)) :
    r.descriptorId = w.head ∧ w.device.descriptor ≠ 0 ∧
      w'.device = { w.device with lastAvailId := w.device.lastAvailId + 1 } ∧
      w'.distributor = w.distributor ∧ w'.cpu = w.cpu := by
  cases h with
  | started _ readable =>
    cases hpc
    exact ⟨rfl, readable.table, rfl, rfl, rfl⟩
  | _ => cases hpc

/-- A turn of the inner loop that goes on with the request. -/
theorem WalkRule.goes_on {w w' : World η} {r r' : Request} {pc : Except Fault Pc}
    (h : WalkRule vm w r pc w') (hpc : pc = .ok (.walk r')) :
    r'.descriptorId = r.descriptorId ∧ SameQuiet w w' := by
  cases h with
  | noTable => cases hpc
  | status _ _ _ _ publish => cases publish <;> cases hpc
  | noStatus _ _ _ publish => cases publish <;> cases hpc
  | untranslated =>
    cases hpc
    exact ⟨rfl, rfl, rfl, rfl⟩
  | accessed _ _ _ _ _ access =>
    cases hpc
    obtain ⟨hdevice, hdistributor, hcpu⟩ := access.quiet
    exact ⟨rfl, hdevice, hdistributor, hcpu⟩
  | _ => cases hpc

/-- A turn of the inner loop that ends the request. -/
theorem WalkRule.answers {w w' : World η} {r : Request} {pc : Except Fault Pc}
    (h : WalkRule vm w r pc w') (hpc : pc = .ok .fetch) :
    ∃ u length, SameQuiet w u ∧ PublishRule u r.descriptorId length (.ok ()) w' := by
  cases h with
  | noTable => cases hpc
  | @status a result w' _ _ _ _ publish =>
    cases result with
    | ok =>
      exact ⟨(w.visited r.descriptor.next).stored a 1 r.status.toNat, _, ⟨rfl, rfl, rfl⟩, publish⟩
    | error => cases hpc
  | @noStatus result w' _ _ _ publish =>
    cases result with
    | ok => exact ⟨w.visited r.descriptor.next, _, ⟨rfl, rfl, rfl⟩, publish⟩
    | error => cases hpc
  | _ => cases hpc

/-- The inner loop does not return, as there is a table. -/
theorem WalkRule.returned {w w' : World η} {r : Request} {pc : Except Fault Pc}
    (h : WalkRule vm w r pc w') (hpc : pc = .ok .returned) : w.device.descriptor = 0 := by
  cases h with
  | noTable table => exact table
  | status _ _ _ _ publish => cases publish <;> cases hpc
  | noStatus _ _ _ publish => cases publish <;> cases hpc
  | _ => cases hpc

/-- A turn of the outer loop that returns consumes a malformed entry or finds no new one. -/
theorem FetchRule.ends {w w' : World η} {pc : Except Fault Pc} (h : FetchRule vm w pc w')
    (hpc : pc = .ok .returned) :
    (Malformed vm w ∧ w'.device = { w.device with lastAvailId := w.device.lastAvailId + 1 }) ∨
      (¬ Malformed vm w ∧ ∃ d c,
        w.distributor.triggerInterrupt w.cpu virtioBlkIntId none = .ok (d, c) ∧
        w' = w.polled.triggered d c) := by
  cases h with
  | drained empty trigger => exact .inr ⟨fun hbad => hbad.1 empty, _, _, trigger, rfl⟩
  | noRing advances ring => exact .inl ⟨⟨advances.new, .inl ring⟩, rfl⟩
  | noTable takes table => exact .inl ⟨⟨takes.new, .inr (.inl table)⟩, rfl⟩
  | badHeader takes _ bad =>
    exact .inl ⟨⟨takes.new, .inr (.inr (bad.imp id Or.inl))⟩, rfl⟩
  | noNext takes _ _ _ next => exact .inl ⟨⟨takes.new, .inr (.inr (.inr (.inr next)))⟩, rfl⟩
  | _ => cases hpc

/-- A malformed entry ends the call. -/
theorem FetchRule.malformed_stops {w w' : World η} {pc : Except Fault Pc}
    (h : FetchRule vm w pc w') (hbad : Malformed vm w) :
    pc = .ok .returned ∨ ∃ f, pc = .error f := by
  cases h with
  | started takes readable length address next =>
    obtain ⟨-, h | h | h | h | h⟩ := hbad
    · exact absurd h takes.ring
    · exact absurd h readable.table
    · exact absurd length h
    · rw [address] at h
      cases h
    · exact absurd h next
  | interruptAborts | noSlots | counter | slotOverflow | entryOverflow => exact .inr ⟨_, rfl⟩
  | drained | noRing | noTable | badHeader | noNext => exact .inl rfl

/-! ## Between the turns -/

/-- Before a turn of a call from `w`, `n` entries are consumed, and the first `m` of them
have their used elements. -/
structure Progress (vm : Vm.VM) (body : FileBody η) (w : World η) (turn n m : ℕ) : Prop where
  consumed : (Handler.before vm body w turn).device.lastAvailId = w.device.lastAvailId + n
  published : (Handler.before vm body w turn).device.usedId = w.device.usedId + m
  distributor : (Handler.before vm body w turn).distributor = w.distributor
  cpu : (Handler.before vm body w turn).cpu = w.cpu
  answered : ∀ i < m, ∃ t u, t < u ∧ u < turn ∧
    Consumes w (Handler.before vm body w t) (Handler.before vm body w (t + 1)) i ∧
    Publishes w (Handler.before vm body w u) (Handler.before vm body w (u + 1)) i
      (Handler.before vm body w t).head

/-- All consumed entries but the one in work are answered. -/
def Accounted (vm : Vm.VM) (body : FileBody η) (w : World η) (turn : ℕ) : Except Fault Pc → Prop
  | .ok .fetch => ∃ n, Progress vm body w turn n n
  | .ok (.walk r) => (Handler.before vm body w turn).device.descriptor ≠ 0 ∧
      ∃ n, Progress vm body w turn (n + 1) n ∧ ∃ t < turn,
        Consumes w (Handler.before vm body w t) (Handler.before vm body w (t + 1)) n ∧
        (Handler.before vm body w t).head = r.descriptorId
  | _ => True

section Turns
variable {w : World η} {turn n m : ℕ}

/-- The turn of the outer loop that starts a request. -/
theorem Progress.starts (hp : Progress vm body w turn n n) {r : Request}
    (hrule : FetchRule vm (Handler.before vm body w turn) (.ok (.walk r))
      (Handler.before vm body w (turn + 1))) :
    Accounted vm body w (turn + 1) (.ok (.walk r)) := by
  obtain ⟨hid, htable, hdevice, hdistributor, hcpu⟩ := hrule.starts rfl
  have hlast : (Handler.before vm body w (turn + 1)).device.lastAvailId =
      w.device.lastAvailId + (n + 1) := by
    rw [hdevice, ← Nat.add_assoc, ← hp.consumed]
  refine ⟨?_, n, ⟨hlast, ?_, hdistributor.trans hp.distributor, hcpu.trans hp.cpu, ?_⟩, turn,
    turn.lt_succ_self, ⟨hp.consumed, hlast⟩, hid.symm⟩
  · rw [hdevice]
    exact htable
  · rw [hdevice, ← hp.published]
  · intro i hi
    obtain ⟨t, u, htu, hu, hanswered⟩ := hp.answered i hi
    exact ⟨t, u, htu, hu.trans turn.lt_succ_self, hanswered⟩

/-- A turn of the inner loop that goes on with the request. -/
theorem Progress.goes_on (hp : Progress vm body w turn n m)
    (hquiet : SameQuiet (Handler.before vm body w turn) (Handler.before vm body w (turn + 1))) :
    Progress vm body w (turn + 1) n m where
  consumed := by rw [hquiet.device, hp.consumed]
  published := by rw [hquiet.device, hp.published]
  distributor := hquiet.distributor.trans hp.distributor
  cpu := hquiet.cpu.trans hp.cpu
  answered i hi := by
    obtain ⟨t, u, htu, hu, hanswered⟩ := hp.answered i hi
    exact ⟨t, u, htu, hu.trans turn.lt_succ_self, hanswered⟩

/-- The publication that ends the request in work. -/
theorem Progress.answers (hp : Progress vm body w turn (n + 1) n) {t id length : ℕ} {u : World η}
    (ht : t < turn)
    (hconsumes : Consumes w (Handler.before vm body w t) (Handler.before vm body w (t + 1)) n)
    (hid : (Handler.before vm body w t).head = id)
    (hquiet : SameQuiet (Handler.before vm body w turn) u)
    (hpublish : PublishRule u id length (.ok ()) (Handler.before vm body w (turn + 1))) :
    Progress vm body w (turn + 1) (n + 1) (n + 1) := by
  obtain ⟨hcounter, hworld⟩ := hpublish.eq_completed
  have hqueue := Handler.before_queue vm body w turn
  have hused : u.device.usedId = w.device.usedId + n := by rw [hquiet.device, hp.published]
  have hring : u.device.usedRing = w.device.usedRing := by rw [hquiet.device, hqueue.usedRing]
  have hslot : u.usedSlot =
      w.device.usedRing + 4 + 8 * ((w.device.usedId + n) % w.slots) := by
    rw [World.usedSlot, World.slots, hring, hused, hquiet.device, hqueue.queueSize, World.slots]
  have hafter : (Handler.before vm body w (turn + 1)).device.usedId =
      w.device.usedId + (n + 1) := by
    rw [hworld, ← Nat.add_assoc, ← hused]
    rfl
  have hpublishes : Publishes w (Handler.before vm body w turn)
      (Handler.before vm body w (turn + 1)) n (Handler.before vm body w t).head := by
    obtain ⟨helement, hidx⟩ := u.completed_loads id length
    rw [hused] at hcounter
    refine ⟨hp.published, hafter, ?_, ?_⟩
    · rw [hworld, ← hslot, helement, ← hid]
      exact Nat.mod_eq_of_lt ((World.head_lt _).trans (by decide))
    · rw [hworld, ← hring, hidx, hused, Nat.mod_eq_of_lt hcounter, Nat.add_assoc]
  refine ⟨?_, hafter, ?_, ?_, fun i hi => ?_⟩
  · rw [hworld, ← hp.consumed, ← hquiet.device]
    rfl
  · rw [hworld, ← hp.distributor, ← hquiet.distributor]
    rfl
  · rw [hworld, ← hp.cpu, ← hquiet.cpu]
    rfl
  · rcases Nat.lt_succ_iff_lt_or_eq.mp hi with hlt | rfl
    · obtain ⟨t', u', htu, hu, hanswered⟩ := hp.answered i hlt
      exact ⟨t', u', htu, hu.trans turn.lt_succ_self, hanswered⟩
    · exact ⟨t, turn, ht, turn.lt_succ_self, hconsumes, hpublishes⟩

/-- A turn of either loop. -/
theorem accounted_step (vm : Vm.VM) (body : FileBody η) (w : World η) (turn : ℕ)
    (hacc : Accounted vm body w turn (Handler.operation vm body turn w).pc) :
    Accounted vm body w (turn + 1) (Handler.operation vm body (turn + 1) w).pc := by
  cases hpc : (Handler.operation vm body turn w).pc with
  | error f =>
    rw [Handler.operation_succ, Handler.step_error hpc, hpc]
    trivial
  | ok pc =>
    rw [hpc] at hacc
    cases pc with
    | fetch =>
      obtain ⟨n, hp⟩ := hacc
      have hrule := Handler.step_fetch vm body hpc
      rw [← Handler.operation_succ] at hrule
      cases hafter : (Handler.operation vm body (turn + 1) w).pc with
      | error f => trivial
      | ok after =>
        rw [hafter] at hrule
        cases after with
        | fetch => cases hrule
        | returned => trivial
        | walk r => exact hp.starts hrule
    | walk r =>
      obtain ⟨htable, n, hp, t, ht, hconsumes, hhead⟩ := hacc
      have hrule := Handler.step_walk vm body hpc
      rw [← Handler.operation_succ] at hrule
      cases hafter : (Handler.operation vm body (turn + 1) w).pc with
      | error f => trivial
      | ok after =>
        rw [hafter] at hrule
        cases after with
        | fetch =>
          obtain ⟨u, length, hquiet, hpublish⟩ := hrule.answers rfl
          exact ⟨n + 1, hp.answers ht hconsumes hhead hquiet hpublish⟩
        | returned => trivial
        | walk r' =>
          obtain ⟨hid, hquiet⟩ := hrule.goes_on rfl
          refine ⟨?_, n, hp.goes_on hquiet, t, ht.trans turn.lt_succ_self, hconsumes, ?_⟩
          · exact hquiet.device ▸ htable
          · rw [hhead, hid]
    | returned =>
      rw [Handler.operation_succ, Handler.step_returned hpc, hpc]
      trivial

/-- The whole call. -/
theorem accounted_operation (vm : Vm.VM) (body : FileBody η) (w : World η) (turn : ℕ) :
    Accounted vm body w turn (Handler.operation vm body turn w).pc := by
  induction turn with
  | zero => exact ⟨0, rfl, rfl, rfl, rfl, fun i hi => absurd hi i.not_lt_zero⟩
  | succ turn ih => exact accounted_step vm body w turn ih

end Turns

/-! ## The counters only grow -/

theorem FetchRule.counters {w w' : World η} {pc : Except Fault Pc} (h : FetchRule vm w pc w') :
    w.device.lastAvailId ≤ w'.device.lastAvailId ∧ w.device.usedId ≤ w'.device.usedId := by
  cases h with
  | drained | interruptAborts | noSlots | counter => exact ⟨le_rfl, le_rfl⟩
  | _ => exact ⟨Nat.le_succ _, le_rfl⟩

theorem PublishRule.usedId_le {w w' : World η} {id length : ℕ} {result : Except Fault Unit}
    (h : PublishRule w id length result w') : w.device.usedId ≤ w'.device.usedId := by
  cases h with
  | noSlots | counter => exact le_rfl
  | slotOverflow | published => exact Nat.le_succ _

theorem WalkRule.usedId_le {w w' : World η} {r : Request} {pc : Except Fault Pc}
    (h : WalkRule vm w r pc w') : w.device.usedId ≤ w'.device.usedId := by
  cases h with
  | status _ _ _ _ publish => exact publish.usedId_le
  | noStatus _ _ _ publish => exact publish.usedId_le
  | stopped _ _ _ _ _ access | accessed _ _ _ _ _ access => exact access.quiet.device ▸ le_rfl
  | _ => exact le_rfl

/-- Neither counter goes back in a turn. -/
theorem Handler.step_counters (vm : Vm.VM) (body : FileBody η) (h : Handler η) :
    h.world.device.lastAvailId ≤ (h.step vm body).world.device.lastAvailId ∧
      h.world.device.usedId ≤ (h.step vm body).world.device.usedId := by
  cases hpc : h.pc with
  | error f =>
    rw [step_error hpc]
    exact ⟨le_rfl, le_rfl⟩
  | ok pc =>
    cases pc with
    | fetch => exact (step_fetch vm body hpc).counters
    | walk r => exact ⟨(step_walk vm body hpc).last.ge, (step_walk vm body hpc).usedId_le⟩
    | returned =>
      rw [step_returned hpc]
      exact ⟨le_rfl, le_rfl⟩

theorem before_lastAvailId_mono (vm : Vm.VM) (body : FileBody η) (w : World η) :
    Monotone fun turn => (Handler.before vm body w turn).device.lastAvailId := by
  refine monotone_nat_of_le_succ fun turn => ?_
  simp only [Handler.before, Handler.operation_succ]
  exact (Handler.step_counters vm body _).1

theorem before_usedId_mono (vm : Vm.VM) (body : FileBody η) (w : World η) :
    Monotone fun turn => (Handler.before vm body w turn).device.usedId := by
  refine monotone_nat_of_le_succ fun turn => ?_
  simp only [Handler.before, Handler.operation_succ]
  exact (Handler.step_counters vm body _).2

/-- A monotone counter takes each of its steps once. -/
theorem step_unique {f : ℕ → ℕ} (hf : Monotone f) {t u c : ℕ} (ht : f t = c)
    (ht' : f (t + 1) = c + 1) (hu : f u = c) (hu' : f (u + 1) = c + 1) : t = u := by
  rcases lt_trichotomy t u with hlt | heq | hgt
  · have := hf (show t + 1 ≤ u from hlt)
    omega
  · exact heq
  · have := hf (show u + 1 ≤ t from hgt)
    omega

/-! ## The last turn -/

section Returned
variable {w : World η} {turns m n : ℕ}

/-- The state of a call that returns is the one its last turn of the outer loop leaves. -/
theorem last_fetch (hreturned : (Handler.operation vm body turns w).pc = .ok .returned) :
    ∃ m < turns, (Handler.operation vm body m w).pc = .ok .fetch ∧
      ∀ k, m < k → Handler.operation vm body k w = Handler.operation vm body (m + 1) w := by
  obtain ⟨m, hm, hgoing, hdone⟩ := Loop.last_turn (f := Handler.step vm body)
    (s := ⟨w, .ok .fetch⟩) (P := fun h => h.pc = .ok .returned) (by simp) hreturned
  refine ⟨m, hm, ?_, fun k hk => Handler.operation_stays (Handler.step_returned hdone) hk⟩
  change (Handler.operation vm body (m + 1) w).pc = .ok .returned at hdone
  rw [Handler.operation_succ] at hdone
  have hacc := accounted_operation vm body w m
  cases hpc : (Handler.operation vm body m w).pc with
  | error f =>
    rw [Handler.step_error hpc, hpc] at hdone
    cases hdone
  | ok pc =>
    cases pc with
    | fetch => rfl
    | returned => exact absurd hpc hgoing
    | walk r =>
      rw [hpc] at hacc
      exact absurd ((Handler.step_walk vm body hpc).returned hdone) hacc.1

/-- The entries consumed before the last turn are answered in it or before. -/
theorem Progress.delivered (hp : Progress vm body w m n n) (hm : m < turns)
    (hlast : (Handler.before vm body w turns).device.lastAvailId = w.device.lastAvailId + n)
    {i t : ℕ} (ht : t < turns)
    (hconsumes : Consumes w (Handler.before vm body w t) (Handler.before vm body w (t + 1)) i) :
    ∃! u, (t < u ∧ u < turns) ∧
      Publishes w (Handler.before vm body w u) (Handler.before vm body w (u + 1)) i
        (Handler.before vm body w t).head := by
  have hi : i < n := by
    have hle := before_lastAvailId_mono vm body w (show t + 1 ≤ turns from ht)
    have hadvanced := hconsumes.advanced
    dsimp only at hle
    omega
  obtain ⟨t', u, htu, hu, hconsumes', hpublishes⟩ := hp.answered i hi
  have hsame : t' = t := step_unique (before_lastAvailId_mono vm body w) hconsumes'.counter
    hconsumes'.advanced hconsumes.counter hconsumes.advanced
  subst hsame
  refine ⟨u, ⟨⟨htu, hu.trans hm⟩, hpublishes⟩, fun v hv => ?_⟩
  exact step_unique (before_usedId_mono vm body w) hv.2.counter hv.2.advanced hpublishes.counter
    hpublishes.advanced

/-- A call that finds no new entry in its last turn. -/
theorem Progress.drained (hp : Progress vm body w m n n) (hm : m < turns)
    {d : GicDistributorMmio} {c : CpuInterface}
    (htrigger : (Handler.before vm body w m).distributor.triggerInterrupt
      (Handler.before vm body w m).cpu virtioBlkIntId none = .ok (d, c))
    (hworld : Handler.before vm body w turns =
      (Handler.before vm body w m).polled.triggered d c) : Delivered vm body w turns := by
  have hlast : (Handler.before vm body w turns).device.lastAvailId = w.device.lastAvailId + n := by
    rw [hworld, ← hp.consumed]
    rfl
  have hused : (Handler.before vm body w turns).device.usedId = w.device.usedId + n := by
    rw [hworld, ← hp.published]
    rfl
  refine ⟨fun i t ht hconsumes => hp.delivered hm hlast ht hconsumes, by omega, fun _ => ⟨?_, ?_⟩⟩
  · rw [hworld]
    change ((Handler.before vm body w m).device.interruptStatus ||| 1).getLsbD 0 = true
    simp
  · rw [← hp.distributor, ← hp.cpu, htrigger, hworld]
    rfl

end Returned

/-- A call that returns has answered and signalled all that it consumed exactly when no
entry that it came to was malformed. -/
theorem delivered_iff (vm : Vm.VM) (body : FileBody η) (w : World η) (turns : ℕ)
    (hreturned : (Handler.operation vm body turns w).pc = .ok .returned) :
    Delivered vm body w turns ↔ ∀ k, (Handler.operation vm body k w).pc = .ok .fetch →
      ¬ Malformed vm (Handler.before vm body w k) := by
  obtain ⟨m, hm, hfetch, hstays⟩ := last_fetch hreturned
  have hlast : Handler.before vm body w turns = Handler.before vm body w (m + 1) := by
    rw [Handler.before, hstays turns hm, Handler.before]
  have hacc := accounted_operation vm body w m
  rw [hfetch] at hacc
  obtain ⟨n, hp⟩ := hacc
  have hrule := Handler.step_fetch vm body hfetch
  rw [← Handler.operation_succ, ← hstays turns hm] at hrule
  obtain ⟨hbad, hdevice⟩ | ⟨hgood, d, c, htrigger, hworld⟩ := hrule.ends hreturned
  · -- the last entry was consumed and has no used element
    refine iff_of_false (fun h => ?_) (fun h => h m hfetch hbad)
    have honly := h.only
    have hconsumed := hp.consumed
    have hpublished := hp.published
    simp only [Handler.before] at honly hconsumed hpublished
    rw [hdevice] at honly
    dsimp only at honly
    omega
  · refine iff_of_true (hp.drained hm htrigger hworld) fun k hk hbad => ?_
    rcases lt_trichotomy k m with hlt | rfl | hgt
    · have hstops := (Handler.step_fetch vm body hk).malformed_stops hbad
      rw [← Handler.operation_succ] at hstops
      have hdone : Handler.step vm body (Handler.operation vm body (k + 1) w) =
          Handler.operation vm body (k + 1) w := by
        rcases hstops with hpc | ⟨f, hpc⟩
        · exact Handler.step_returned hpc
        · exact Handler.step_error hpc
      rw [← Handler.operation_stays hdone hlt, hfetch] at hstops
      simp at hstops
    · exact hgood hbad
    · rw [hstays k hgt, ← hstays turns hm, hreturned] at hk
      cases hk

theorem delivered_one_request :
    Delivered sampleVm sampleBody (World.start sampleDevice (guestMemory oneRequest)) 3 := by
  have hreturned : (Handler.operation sampleVm sampleBody 3
      (World.start sampleDevice (guestMemory oneRequest))).pc = .ok .returned := rfl
  refine (delivered_iff _ _ _ 3 hreturned).mpr fun k hk => ?_
  match k with
  | 0 => decide
  | 1 => cases hk
  | 2 => decide
  | k + 3 =>
    have hsame := Handler.operation_stays (Handler.step_returned hreturned) (Nat.le_add_left 3 k)
    rw [hsame, hreturned] at hk
    cases hk

/-- Behind the request there is an entry with an empty descriptor. It is consumed
without a used element, and the request before it stays without an interrupt. -/
theorem request_dropped :
    (Handler.operation sampleVm sampleBody 3 (World.start sampleDevice
      (guestMemory (oneRequest ++ [(0x50000042, 2, 2), (0x50000046, 2, 2)])))).pc =
        .ok .returned ∧
    ¬ Delivered sampleVm sampleBody (World.start sampleDevice
      (guestMemory (oneRequest ++ [(0x50000042, 2, 2), (0x50000046, 2, 2)]))) 3 :=
  ⟨rfl, fun h => absurd h.only (by decide)⟩

end Min1visor.Virtio
