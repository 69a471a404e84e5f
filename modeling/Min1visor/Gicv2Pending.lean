import Min1visor.Gicv2
import Min1visor.Library.BitSet

/-!
# The pending set of the GICv2

The virtual IRQ line follows the pending set, and every interrupt that becomes pending
is returned once before it can be returned again.
-/
namespace Min1visor.Gicv2

/-- Whether an interrupt is owed to the guest after one more event, unless the event
returns one that is not owed or injects one that is. -/
def owes (id : ℕ) (owed : Bool) : Mark → Option Bool
  | .injected i => if i = id then (if owed then none else some true) else some owed
  | .returned i => if i = id then (if owed then some false else none) else some owed
  | .ended _ => some owed

/-- The injections and the returns of an interrupt take turns, and the last injection is
not returned exactly when it is pending. -/
def TakesTurns (m : Machine) (id : ℕ) : Prop :=
  m.trace.foldlM (owes id) false = some (m.pending.getLsbD id)

/-- What the guest and the processor see of the pending set. -/
structure InStep (m : Machine) : Prop where
  line : m.hcrEl2 &&& hcrEl2Vi ≠ 0 ↔ m.pending ≠ 0
  others : m.hcrEl2 &&& ~~~hcrEl2Vi = Machine.setupHcrEl2 &&& ~~~hcrEl2Vi
  spurious : (m.readGicc giccIar).1 = giccIarSpuriousInterruptId ↔ m.pending = 0
  lowest : m.pending ≠ 0 → m.pending.getLsbD (m.readGicc giccIar).1 = true ∧
    ∀ i < (m.readGicc giccIar).1, m.pending.getLsbD i = false
  turns : ∀ id, TakesTurns m id

/-- The part of it that the steps keep. -/
structure Kept (m : Machine) : Prop where
  hcrEl2 : m.hcrEl2 = if m.pending = 0 then Machine.setupHcrEl2 else Machine.setupHcrEl2 ||| hcrEl2Vi
  turns : ∀ id, TakesTurns m id

theorem Kept.inStep {m : Machine} (h : Kept m) : InStep m := by
  have hread : m.readGicc giccIar = m.acknowledgeInterrupt := rfl
  by_cases hnone : m.pending = 0
  · have hack : m.acknowledgeInterrupt = (giccIarSpuriousInterruptId, m) := if_pos hnone
    refine ⟨?_, ?_, ?_, fun hsome => absurd hnone hsome, h.turns⟩
    · rw [h.hcrEl2, if_pos hnone]
      exact iff_of_false (by decide) (not_not.mpr hnone)
    · rw [h.hcrEl2, if_pos hnone]
    · rw [hread, hack]
      exact iff_of_true rfl hnone
  · obtain ⟨hlt, hbit, hleast⟩ := BitSet.ctz_least hnone
    have hack : m.acknowledgeInterrupt.1 = m.pending.ctz.toNat := by
      rw [Machine.acknowledgeInterrupt, if_neg hnone]
    refine ⟨?_, ?_, ?_, ?_, h.turns⟩
    · rw [h.hcrEl2, if_neg hnone]
      exact iff_of_true (by decide) hnone
    · rw [h.hcrEl2, if_neg hnone]
      decide
    · rw [hread, hack]
      refine iff_of_false ?_ hnone
      rw [giccIarSpuriousInterruptId]
      omega
    · rw [hread, hack]
      exact fun _ => ⟨hbit, hleast⟩

/-! ## The moves -/

theorem TakesTurns.mark {m : Machine} {id : ℕ} (h : TakesTurns m id) (event : Mark) :
    (m.mark event).trace.foldlM (owes id) false = owes id (m.pending.getLsbD id) event := by
  rw [Machine.mark, List.foldlM_append, h]
  simp

theorem Kept.inject {m m' : Machine} {intId : ℕ} (h : Kept m)
    (hok : m.injectInterrupt intId = .ok m') : Kept m' := by
  obtain ⟨hlt, hpending, hhcr, htrace, -, -⟩ := Machine.injectInterrupt_ok hok
  have hsome : m.pending ||| (1 : BitVec 64) <<< intId ≠ 0 := BitSet.insert_ne_zero m.pending hlt
  refine ⟨?_, fun id => ?_⟩
  · rw [hhcr, hpending, if_neg hsome, h.hcrEl2]
    split_ifs <;> decide
  · rw [TakesTurns, htrace, hpending, BitSet.getLsbD_insert _ hlt]
    split_ifs with hset
    · rw [h.turns id]
      by_cases hid : intId = id
      · rw [← hid, hset]
        rfl
      · simp [hid]
    · rw [(h.turns id).mark, owes]
      split_ifs with hid hpending
      · rw [hid] at hset
        exact absurd hpending hset
      · simp [hid]
      · simp [hid]

theorem Kept.acknowledge {m : Machine} (h : Kept m) : Kept m.acknowledgeInterrupt.2 := by
  unfold Machine.acknowledgeInterrupt
  split_ifs with hnone
  · exact h
  have hcr : m.hcrEl2 = Machine.setupHcrEl2 ||| hcrEl2Vi := by rw [h.hcrEl2, if_neg hnone]
  obtain ⟨-, hbit, -⟩ := BitSet.ctz_least hnone
  refine ⟨?_, fun id => ?_⟩
  · dsimp only
    rw [hcr]
    split_ifs
    · decide
    · rfl
  · change (m.mark (.returned m.pending.ctz.toNat)).trace.foldlM (owes id) false = some
      ((m.pending &&& ~~~((1 : BitVec 64) <<< m.pending.ctz.toNat)).getLsbD id)
    rw [(h.turns id).mark, BitSet.getLsbD_erase, owes]
    split_ifs with hid hpending
    · simp [hid]
    · rw [hid] at hbit
      exact absurd hbit hpending
    · simp [hid]

theorem Kept.ended {m m' : Machine} (h : Kept m) {id : ℕ} (hpending : m'.pending = m.pending)
    (hhcr : m'.hcrEl2 = m.hcrEl2) (htrace : m'.trace = (m.mark (.ended id)).trace) : Kept m' := by
  refine ⟨?_, fun i => ?_⟩
  · rw [hhcr, hpending, h.hcrEl2]
  · rw [TakesTurns, htrace, (h.turns i).mark, hpending]
    rfl

theorem Kept.move {m m' : Machine} (h : Kept m) (hmove : Move m m') : Kept m' := by
  cases hmove with
  | registers pending hcrEl2 _ _ trace =>
    refine ⟨?_, fun id => ?_⟩
    · rw [hcrEl2, pending, h.hcrEl2]
    · rw [TakesTurns, trace, pending]
      exact h.turns id
  | inject ok => exact h.inject ok
  | acknowledge => exact h.acknowledge
  | timer ok => exact Kept.inject (m := m.disableInterrupt m.genericTimerIntId) ⟨h.hcrEl2, h.turns⟩ ok
  | ended => exact h.ended rfl rfl rfl
  | timerEnded ok =>
    unfold Machine.enablePpi at ok
    split_ifs at ok
    cases ok
    exact h.ended rfl rfl rfl

/-- In every state that is reached after `create_vm`, the virtual IRQ line stands for
the pending set, and the set for what is owed to the guest. -/
theorem run_inStep (enabled : ℕ → Bool) (genericTimerIntId uartInterruptNumber : ℕ)
    (events : List Event) (m : Machine)
    (hrun : Runs.run Machine.step (.createVm enabled genericTimerIntId uartInterruptNumber) events =
      .ok m) : InStep m := by
  have hstart : Kept (.createVm enabled genericTimerIntId uartInterruptNumber) :=
    ⟨rfl, fun id => by simp [TakesTurns, Machine.createVm]⟩
  exact (Machine.run_keeps (fun _ _ => Kept.move) hstart hrun).inStep

/-- The UART and the timer, and the end of the former. -/
theorem run_inStep_uart_timer : ∃ m, Runs.run Machine.step (.createVm (fun _ => true) 27 153)
    [.writeUart 0x38 0x10, .irq 153 [65, 66], .irq 27 [], .writeGicc giccEoir 33] = .ok m ∧
      InStep m := by
  obtain ⟨m, hrun⟩ : ∃ m, Runs.run Machine.step (.createVm (fun _ => true) 27 153)
      [.writeUart 0x38 0x10, .irq 153 [65, 66], .irq 27 [], .writeGicc giccEoir 33] = .ok m := ⟨_, rfl⟩
  exact ⟨m, hrun, run_inStep _ _ _ _ m hrun⟩

end Min1visor.Gicv2
