import Min1visor.Gicv2Pending
import Min1visor.Gicv2Timer
import Min1visor.Pl011Receive
import Min1visor.Library.Answers

/-!
# No byte waits in silence

A byte that arrives under the mask raises nothing, and a status that the guest clears is
not raised again by the bytes that are left. Apart from these two steps every byte that
waits unmasked is announced: its interrupt is pending, so that the line is up and the guest
reads it before it reads the spurious number, or the guest has read it and not ended it.
-/
namespace Min1visor.Gicv2
open Pl011

/-! ## The interrupts that are read -/

/-- The answers to a number of reads of `IAR`. -/
def readIar (m : Machine) (reads : ℕ) : List ℕ × Machine :=
  Answers.serve (fun m offset => m.readGicc offset) m (List.replicate reads giccIar)

theorem readIar_succ (m : Machine) (n : ℕ) :
    readIar m (n + 1) = (m.acknowledgeInterrupt.1 :: (readIar m.acknowledgeInterrupt.2 n).1,
      (readIar m.acknowledgeInterrupt.2 n).2) := rfl

theorem acknowledgeInterrupt_none {m : Machine} (h : m.pending = 0) :
    m.acknowledgeInterrupt = (giccIarSpuriousInterruptId, m) := if_pos h

theorem acknowledgeInterrupt_some {m : Machine} (h : m.pending ≠ 0) :
    m.acknowledgeInterrupt.1 = m.pending.ctz.toNat ∧
      m.acknowledgeInterrupt.2.pending =
        m.pending &&& ~~~((1 : BitVec 64) <<< m.pending.ctz.toNat) := by
  rw [Machine.acknowledgeInterrupt, if_neg h]
  exact ⟨rfl, rfl⟩

/-- The guest reads the pending interrupts in ascending order, and then the spurious number. -/
theorem readIar_drains (m : Machine) (n : ℕ) :
    (readIar m ((BitSet.members m.pending).length + n)).1 =
        BitSet.members m.pending ++ List.replicate n giccIarSpuriousInterruptId ∧
      (readIar m ((BitSet.members m.pending).length + n)).2.pending = 0 := by
  generalize hids : BitSet.members m.pending = ids
  induction ids generalizing m with
  | nil =>
    have hnone := BitSet.members_eq_nil.mp hids
    rw [List.length_nil, Nat.zero_add, List.nil_append]
    induction n with
    | zero => exact ⟨rfl, hnone⟩
    | succ n ih =>
      obtain ⟨hanswers, hlast⟩ := ih
      rw [readIar_succ, acknowledgeInterrupt_none hnone, hanswers]
      exact ⟨rfl, hlast⟩
  | cons id ids ih =>
    have hsome : m.pending ≠ 0 := by
      intro hnone
      rw [BitSet.members_eq_nil.mpr hnone] at hids
      cases hids
    obtain ⟨hread, hrest⟩ := acknowledgeInterrupt_some hsome
    rw [BitSet.members_eq_cons hsome, ← hrest, List.cons.injEq] at hids
    obtain ⟨hanswers, hlast⟩ := ih m.acknowledgeInterrupt.2 hids.2
    rw [List.length_cons, Nat.succ_add, readIar_succ, hanswers, hread, hids.1]
    exact ⟨rfl, hlast⟩

/-! ## Announced interrupts -/

/-- The guest has still to read an interrupt, or still to end it. -/
def Announced (m : Machine) (id : ℕ) : Prop := m.pending.getLsbD id = true ∨ InService m id

variable {m m' : Machine} {id : ℕ}

theorem Announced.congr (h : Announced m id) (hpending : m'.pending = m.pending)
    (htrace : m'.trace = m.trace) : Announced m' id := by
  rwa [Announced, InService, hpending, htrace]

theorem Announced.inject {intId : ℕ} (h : Announced m id) (hok : m.injectInterrupt intId = .ok m') :
    Announced m' id := by
  obtain ⟨hlt, hpending, -, htrace, -, -⟩ := Machine.injectInterrupt_ok hok
  rcases h with hset | hserved
  · left
    rw [hpending, BitSet.getLsbD_insert _ hlt, hset, Bool.true_or]
  · right
    rw [InService, htrace]
    split_ifs
    · exact hserved
    · exact (InService.mark_iff m _ _).mpr hserved

theorem announced_of_inject (hok : m.injectInterrupt id = .ok m') : Announced m' id := by
  obtain ⟨hlt, hpending, -⟩ := Machine.injectInterrupt_ok hok
  left
  rw [hpending, BitSet.getLsbD_insert _ hlt]
  simp

theorem Announced.acknowledge (h : Announced m id) : Announced m.acknowledgeInterrupt.2 id := by
  unfold Machine.acknowledgeInterrupt
  split_ifs with hnone
  · exact h
  have hmark := InService.mark_iff m id (.returned m.pending.ctz.toNat)
  by_cases hid : m.pending.ctz.toNat = id
  · exact .inr (hmark.mpr (by simp [inService, hid]))
  · rcases h with hset | hserved
    · left
      change (m.pending &&& _).getLsbD id = true
      rw [BitSet.getLsbD_erase, hset]
      simp [hid]
    · exact .inr (hmark.mpr (by simpa [inService, hid, InService] using hserved))

theorem Announced.readGicc (h : Announced m id) (offset : ℕ) :
    Announced (m.readGicc offset).2 id := by
  unfold Machine.readGicc
  split_ifs
  iterate 3 exact h
  · exact h.acknowledge
  · exact h
  · exact h

theorem Announced.ended (h : Announced m id) {other : ℕ} (hne : other ≠ id) :
    Announced (m.mark (.ended other)) id := by
  rcases h with hset | hserved
  · exact .inl hset
  · exact .inr ((InService.mark_iff m id _).mpr (by simpa [inService, hne, InService] using hserved))

/-! ## The steps of the board -/

/-- A byte that waits unmasked has raised the receive interrupt and is announced. -/
structure Receiving (m : Machine) : Prop where
  raises : Raises m.pl011
  announced : Waits m.pl011 → m.pl011.Unmasked → Announced m pl011IntId

theorem Receiving.congr (h : Receiving m) (hpl011 : m'.pl011 = m.pl011)
    (hpending : m'.pending = m.pending) (htrace : m'.trace = m.trace) : Receiving m' := by
  refine ⟨by rw [hpl011]; exact h.raises, fun hwaits hunmasked => ?_⟩
  rw [hpl011] at hwaits hunmasked
  exact (h.announced hwaits hunmasked).congr hpending htrace

theorem injectInterrupt_pl011 {intId : ℕ} (h : m.injectInterrupt intId = .ok m') :
    m'.pl011 = m.pl011 := by
  unfold Machine.injectInterrupt at h
  split_ifs at h
  · cases h
    rfl
  · cases h
    rfl

theorem Receiving.inject {intId : ℕ} (h : Receiving m) (hok : m.injectInterrupt intId = .ok m') :
    Receiving m' := by
  have hpl011 := injectInterrupt_pl011 hok
  refine ⟨by rw [hpl011]; exact h.raises, fun hwaits hunmasked => ?_⟩
  rw [hpl011] at hwaits hunmasked
  exact (h.announced hwaits hunmasked).inject hok

theorem Receiving.push (h : Receiving m) {data : UInt8} (hok : m.push data = .ok m') :
    Receiving m' := by
  obtain ⟨hmask, hasked, -⟩ := push_raised m.pl011 data
  have hraises := h.raises.push data
  simp only [Machine.push] at hok
  split_ifs at hok with hraised
  · have hpl011 := injectInterrupt_pl011 hok
    exact ⟨by rw [hpl011]; exact hraises, fun _ _ => announced_of_inject hok⟩
  · cases hok
    refine ⟨hraises, fun _ hunmasked => absurd (hasked.mpr ?_) hraised⟩
    rwa [Pl011Mmio.Unmasked, hmask] at hunmasked

theorem Receiving.inputUart {input : List UInt8} (h : Receiving m)
    (hok : m.inputUart input = .ok m') : Receiving m' := by
  induction input generalizing m with
  | nil =>
    cases hok
    exact h
  | cons data rest ih =>
    obtain ⟨next, hpush, hrest⟩ := Checked.bind_eq_ok.mp hok
    exact ih (h.push hpush) hrest

theorem Receiving.readGicc (h : Receiving m) (offset : ℕ) : Receiving (m.readGicc offset).2 := by
  have hpl011 : (m.readGicc offset).2.pl011 = m.pl011 := by
    unfold Machine.readGicc Machine.acknowledgeInterrupt
    split_ifs <;> rfl
  refine ⟨by rw [hpl011]; exact h.raises, fun hwaits hunmasked => ?_⟩
  rw [hpl011] at hwaits hunmasked
  exact (h.announced hwaits hunmasked).readGicc offset

/-- The end of the timer interrupt has no part in the UART. -/
theorem endTimer_frame {intId : ℕ} (h : m.endTimer intId = .ok m') :
    m'.pl011 = m.pl011 ∧ m'.pending = m.pending ∧ m'.trace = m.trace := by
  unfold Machine.endTimer Machine.enablePpi at h
  split_ifs at h
  · cases h
    exact ⟨rfl, rfl, rfl⟩
  · cases h
    exact ⟨rfl, rfl, rfl⟩

/-- The end of the UART interrupt announces it again while a byte waits. -/
theorem Receiving.endInterrupt {value : BitVec 64} (h : Receiving m)
    (hok : m.endInterrupt value = .ok m') : Receiving m' := by
  obtain ⟨next, htimer, huart⟩ := Checked.bind_eq_ok.mp hok
  obtain ⟨hpl011, hpending, htrace⟩ := endTimer_frame htimer
  have hpl011 : next.pl011 = m.pl011 := hpl011
  unfold Machine.endUart at huart
  split_ifs at huart with hid hrx
  · have hlast := injectInterrupt_pl011 huart
    exact ⟨by rw [hlast, hpl011]; exact h.raises, fun _ _ => announced_of_inject huart⟩
  · cases huart
    rw [hpl011] at hrx
    refine ⟨by rw [hpl011]; exact h.raises, fun hwaits hunmasked => absurd ?_ hrx⟩
    rw [hpl011] at hwaits hunmasked
    exact isRxPending_of_raised (h.raises.raised hwaits hunmasked) hunmasked
  · cases huart
    refine ⟨by rw [hpl011]; exact h.raises, fun hwaits hunmasked => ?_⟩
    rw [hpl011] at hwaits hunmasked
    exact ((h.announced hwaits hunmasked).ended hid).congr hpending htrace

theorem Receiving.writeGicc {offset : ℕ} {value : BitVec 64} (h : Receiving m)
    (hok : m.writeGicc offset value = .ok m') : Receiving m' := by
  unfold Machine.writeGicc at hok
  split_ifs at hok
  iterate 3
    · cases hok
      exact h.congr rfl rfl rfl
  · exact h.endInterrupt hok
  · cases hok
    exact h

/-- The guest does not leave bytes that wait without their interrupt. -/
def AttentiveStep (m : Machine) : Event → Prop
  | .writeUart offset value => Attentive m.pl011 offset value
  | _ => True

theorem Receiving.step {e : Event} (h : Receiving m) (hstep : AttentiveStep m e)
    (hok : m.step e = .ok m') : Receiving m' := by
  cases e with
  | irq iar input =>
    simp only [Machine.step, Machine.irqHandler] at hok
    split_ifs at hok
    · exact h.inputUart hok
    · have hdisabled : Receiving (m.disableInterrupt m.genericTimerIntId) := h.congr rfl rfl rfl
      exact hdisabled.inject hok
    · cases hok
      exact h
  | inject intId => exact h.inject hok
  | readGicd offset =>
    cases hok
    exact h
  | writeGicd offset value =>
    cases hok
    unfold Machine.writeGicd
    split_ifs
    · exact h.congr rfl rfl rfl
    · exact h
  | readGicc offset =>
    cases hok
    exact h.readGicc offset
  | writeGicc offset value => exact h.writeGicc hok
  | readUart offset =>
    cases hok
    obtain ⟨hraises, hmask, hwaits⟩ := h.raises.read offset
    refine ⟨hraises, fun hwait hunmasked => ?_⟩
    change (m.pl011.read offset).2.Unmasked at hunmasked
    rw [Pl011Mmio.Unmasked, hmask] at hunmasked
    exact h.announced (hwaits hwait) hunmasked
  | writeUart offset value =>
    cases hok
    obtain ⟨hraises, hkeeps⟩ := h.raises.write hstep
    refine ⟨hraises, fun hwait hunmasked => ?_⟩
    obtain ⟨hwaits, hunmasked⟩ := hkeeps hwait hunmasked
    exact h.announced hwaits hunmasked

/-! ## Runs -/

/-- While a byte waits unmasked, the guest sees the receive interrupt raised, and either it has
read the interrupt and not ended it, or the line is up and it reads the interrupt before it
reads the spurious number. -/
def Noticed (m : Machine) : Prop :=
  Waits m.pl011 → m.pl011.Unmasked →
    m.pl011.rxris = true ∧ (InService m pl011IntId ∨ m.hcrEl2 &&& hcrEl2Vi ≠ 0 ∧
      pl011IntId ∈ (readIar m (BitSet.members m.pending).length).1)

theorem Receiving.noticed (h : Receiving m) (hline : m.hcrEl2 &&& hcrEl2Vi ≠ 0 ↔ m.pending ≠ 0) :
    Noticed m := by
  intro hwaits hunmasked
  refine ⟨h.raises.raised hwaits hunmasked, ?_⟩
  rcases h.announced hwaits hunmasked with hset | hserved
  · right
    constructor
    · rw [hline]
      rintro hnone
      simp [hnone] at hset
    · obtain ⟨hanswers, -⟩ := readIar_drains m 0
      rw [Nat.add_zero] at hanswers
      simpa [hanswers] using hset
  · exact .inl hserved

theorem createVm_receiving (enabled : ℕ → Bool) (genericTimerIntId uartInterruptNumber : ℕ) :
    Receiving (.createVm enabled genericTimerIntId uartInterruptNumber) where
  raises := by
    refine ⟨⟨[], by simp [Holds, Machine.createVm, Pl011Mmio.new]⟩, fun hwaits => ?_⟩
    simp [Waits, Machine.createVm, Pl011Mmio.new] at hwaits
  announced hwaits := by simp [Waits, Machine.createVm, Pl011Mmio.new] at hwaits

/-- In every state that is reached while the guest is attentive, no byte waits unnoticed. -/
theorem run_noticed (enabled : ℕ → Bool) (genericTimerIntId uartInterruptNumber : ℕ)
    (events : List Event) (m : Machine)
    (hattentive : Runs.Along Machine.step AttentiveStep
      (.createVm enabled genericTimerIntId uartInterruptNumber) events)
    (hrun : Runs.run Machine.step (.createVm enabled genericTimerIntId uartInterruptNumber) events =
      .ok m) : Noticed m := by
  have hreceiving : Receiving m := Runs.run_invariant Receiving (fun _ _ _ => Receiving.step)
    events _ m (createVm_receiving _ _ _) hattentive hrun
  have hstart : Kept (.createVm enabled genericTimerIntId uartInterruptNumber) :=
    ⟨rfl, fun id => by simp [TakesTurns, Machine.createVm]⟩
  exact hreceiving.noticed (Machine.run_keeps (fun _ _ => Kept.move) hstart hrun).inStep.line

/-- Two bytes behind the timer; the guest takes one of them and ends the interrupt. -/
def twoBytes : List Event :=
  [.writeUart uartImsc 0x10, .irq 27 [], .irq 153 [65, 66], .readGicc giccIar, .readGicc giccIar,
    .readUart uartDr, .writeGicc giccEoir 33]

set_option maxRecDepth 4000 in
theorem run_noticed_two_bytes :
    ∃ m, Runs.run Machine.step (.createVm (fun _ => true) 27 153) twoBytes = .ok m ∧
      Waits m.pl011 ∧ m.pl011.Unmasked ∧ m.pl011.rxris = true := by
  obtain ⟨m, hrun, hwaits, hunmasked⟩ : ∃ m, Runs.run Machine.step
      (.createVm (fun _ => true) 27 153) twoBytes = .ok m ∧ Waits m.pl011 ∧ m.pl011.Unmasked :=
    ⟨_, rfl, by decide, by decide⟩
  have hattentive : Runs.Along Machine.step AttentiveStep (.createVm (fun _ => true) 27 153)
      twoBytes := by
    refine ⟨fun hwait => absurd rfl hwait, fun m₁ _ => ?_⟩
    exact ⟨trivial, fun _ _ => ⟨trivial, fun _ _ => ⟨trivial, fun _ _ => ⟨trivial, fun _ _ =>
      ⟨trivial, fun _ _ => ⟨trivial, fun _ _ => trivial⟩⟩⟩⟩⟩⟩
  exact ⟨m, hrun, hwaits, hunmasked,
    (run_noticed _ _ _ twoBytes m hattentive hrun hwaits hunmasked).1⟩

end Min1visor.Gicv2
