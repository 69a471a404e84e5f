import Min1visor.Gicv2
import Min1visor.Library.BitSet

/-!
# The hand-off of the timer

The physical timer interrupt is disabled when it is handed to the guest. As long as it
is, the guest has still to read it or has still to end it, and its end enables the timer.
-/
namespace Min1visor.Gicv2

/-- Whether the guest has read an interrupt that it has not ended since. -/
def inService (id : ℕ) (served : Bool) : Mark → Bool
  | .injected _ => served
  | .returned i => if i = id then true else served
  | .ended i => if i = id then false else served

def InService (m : Machine) (id : ℕ) : Prop := m.trace.foldl (inService id) false = true

/-- A timer that is disabled is pending or in service. -/
def Owned (m : Machine) : Prop := m.enabled m.genericTimerIntId = false →
  m.pending.getLsbD m.genericTimerIntId = true ∨ InService m m.genericTimerIntId

/-- The end of the timer interrupt enables it. -/
def EndEnables (m : Machine) : Prop :=
  ∀ value : BitVec 64, (value &&& 0x3ff).toNat = m.genericTimerIntId →
    ∃ m', m.writeGicc giccEoir value = .ok m' ∧ m'.enabled m.genericTimerIntId = true

/-- What the steps keep. -/
structure HandedOver (m : Machine) : Prop where
  ppi : m.genericTimerIntId < 32
  owned : Owned m

theorem InService.mark_iff (m : Machine) (id : ℕ) (event : Mark) :
    InService (m.mark event) id ↔ inService id (m.trace.foldl (inService id) false) event = true := by
  rw [InService, Machine.mark, List.foldl_append]
  rfl

theorem writeEnabler_bit (m : Machine) {intId : ℕ} (enable : Bool) :
    (m.writeEnabler (intId / 32) ((1 : BitVec 32) <<< (intId % 32)) enable).enabled intId = enable := by
  have hbit := BitSet.getLsbD_insert (0 : BitVec 32) (Nat.mod_lt intId (show 0 < 32 by decide))
    (intId % 32)
  have hset : ((1 : BitVec 32) <<< (intId % 32)).getLsbD (intId % 32) = true := by simpa using hbit
  exact if_pos ⟨rfl, hset⟩

/-! ## The moves -/

theorem Owned.inject {m m' : Machine} {intId : ℕ} (h : Owned m)
    (hok : m.injectInterrupt intId = .ok m') : Owned m' := by
  obtain ⟨hlt, hpending, -, htrace, henabled, htimer⟩ := Machine.injectInterrupt_ok hok
  unfold Owned
  rw [henabled, htimer, hpending, BitSet.getLsbD_insert _ hlt]
  intro hdisabled
  rcases h hdisabled with hset | hserved
  · exact .inl (by rw [hset, Bool.true_or])
  · refine .inr ?_
    rw [InService, htrace]
    split_ifs
    · exact hserved
    · exact (InService.mark_iff m _ _).mpr hserved

theorem Owned.acknowledge {m : Machine} (h : Owned m) : Owned m.acknowledgeInterrupt.2 := by
  unfold Machine.acknowledgeInterrupt
  split_ifs with hnone
  · exact h
  intro hdisabled
  have hmark := InService.mark_iff m m.genericTimerIntId (.returned m.pending.ctz.toNat)
  by_cases hid : m.pending.ctz.toNat = m.genericTimerIntId
  · exact .inr (hmark.mpr (by rw [inService, if_pos hid]))
  · rcases h hdisabled with hset | hserved
    · refine .inl ?_
      change (m.pending &&& _).getLsbD m.genericTimerIntId = true
      rw [BitSet.getLsbD_erase, hset]
      simp [hid]
    · exact .inr (hmark.mpr (by rw [inService, if_neg hid]; exact hserved))

theorem enablePpi_enables {m m' : Machine} {intId : ℕ} (h : m.enablePpi intId = .ok m') :
    intId < 32 ∧ m'.enabled intId = true ∧ m'.genericTimerIntId = m.genericTimerIntId := by
  unfold Machine.enablePpi at h
  split_ifs at h with hlt
  cases h
  exact ⟨hlt, writeEnabler_bit m true, rfl⟩

theorem HandedOver.enabled {m m' : Machine} (h : m.enablePpi m.genericTimerIntId = .ok m') :
    HandedOver m' := by
  obtain ⟨hlt, henabled, htimer⟩ := enablePpi_enables h
  refine ⟨by rwa [htimer], fun hdisabled => ?_⟩
  rw [htimer, henabled] at hdisabled
  cases hdisabled

theorem HandedOver.move {m m' : Machine} (h : HandedOver m) (hmove : Move m m') : HandedOver m' := by
  cases hmove with
  | registers pending _ enabled timer trace =>
    refine ⟨by rw [timer]; exact h.ppi, ?_⟩
    rw [Owned, InService, enabled, timer, pending, trace]
    exact h.owned
  | inject ok =>
    obtain ⟨-, -, -, -, -, htimer⟩ := Machine.injectInterrupt_ok ok
    exact ⟨by rw [htimer]; exact h.ppi, h.owned.inject ok⟩
  | acknowledge =>
    refine ⟨?_, h.owned.acknowledge⟩
    unfold Machine.acknowledgeInterrupt
    split_ifs
    · exact h.ppi
    · exact h.ppi
  | timer ok =>
    -- The interrupt is pending from now on, whether it was enabled before or not.
    obtain ⟨hlt, hpending, -, -, -, htimer⟩ := Machine.injectInterrupt_ok ok
    refine ⟨by rw [htimer]; exact h.ppi, fun _ => .inl ?_⟩
    rw [htimer, hpending, BitSet.getLsbD_insert _ hlt]
    simp [Machine.disableInterrupt, Machine.writeEnabler]
  | ended other =>
    refine ⟨h.ppi, fun hdisabled => (h.owned hdisabled).imp id fun hserved => ?_⟩
    refine (InService.mark_iff m _ _).mpr ?_
    rw [inService]
    exact (if_neg other).trans hserved
  | timerEnded ok => exact .enabled ok

theorem HandedOver.endEnables {m : Machine} (h : HandedOver m) : EndEnables m := by
  intro value hvalue
  obtain ⟨m₁, hppi⟩ : ∃ m₁, (m.mark (.ended m.genericTimerIntId)).enablePpi m.genericTimerIntId =
      .ok m₁ := ⟨_, if_pos h.ppi⟩
  obtain ⟨hlt, henabled, htimer⟩ := enablePpi_enables hppi
  have hother : m.genericTimerIntId ≠ pl011IntId := by
    rw [pl011IntId]
    omega
  refine ⟨m₁, ?_, henabled⟩
  change m.endInterrupt value = .ok m₁
  have hend : (m.mark (.ended m.genericTimerIntId)).endTimer m.genericTimerIntId = .ok m₁ :=
    (if_pos rfl).trans hppi
  rw [Machine.endInterrupt, hvalue]
  simp only [hend, Checked.ok_bind]
  exact if_neg hother

/-- Once the timer interrupt is enabled, in every state that is reached a disabled timer
is pending or in service, and the end of its interrupt enables it. -/
theorem run_owned (m₀ m m' : Machine) (events : List Event)
    (hboot : m₀.enablePpi m₀.genericTimerIntId = .ok m)
    (hrun : Runs.run Machine.step m events = .ok m') : Owned m' ∧ EndEnables m' := by
  have hkept := Machine.run_keeps (fun _ _ => HandedOver.move) (.enabled hboot) hrun
  exact ⟨hkept.owned, hkept.endEnables⟩

/-- A timer interrupt behind one of the UART. -/
theorem run_owned_timer : ∃ m m', (Machine.createVm (fun _ => false) 27 153).enablePpi 27 = .ok m ∧
    Runs.run Machine.step m [.irq 153 [65], .irq 27 [], .writeGicc giccEoir 33] = .ok m' ∧
      Owned m' ∧ EndEnables m' := by
  obtain ⟨m, hboot⟩ : ∃ m, (Machine.createVm (fun _ => false) 27 153).enablePpi 27 = .ok m := ⟨_, rfl⟩
  obtain ⟨m', hrun⟩ : ∃ m', Runs.run Machine.step m
      [.irq 153 [65], .irq 27 [], .writeGicc giccEoir 33] = .ok m' := by
    cases hboot
    exact ⟨_, rfl⟩
  exact ⟨m, m', hboot, hrun, run_owned _ m m' _ hboot hrun⟩

end Min1visor.Gicv2
