import Min1visor.VgicPending

/-!
# The pending record after a delivery

A triggered interrupt is recorded as pending in its bank and the record is cleared by
the maintenance handler. The hardware asks for maintenance when the guest ends an entry
that is not tied to a physical interrupt, so that the record of a tied one outlives its
delivery. The same holds for a private interrupt that was set pending through the
distributor, whose record the handler looks for in the redistributor.
-/
namespace Min1visor.Vgic
open Vgicv3 Gicv3Mmio

variable {ι : Type} [DecidableEq ι]

/-- Some list register ended and asks for maintenance. -/
def maintenanceRaised (c : CpuInterface) : Bool := (List.range 3).any c.ichEisr

/-- The virtual GIC and, for each interrupt, whether it was neither triggered nor set
pending since the guest last completed it. -/
structure Watched (ι : Type) where
  gic : State ι
  quiet : ℕ → Bool

namespace Watched

def new (mpidrEl1 : ι → BitVec 64) (ichVtrEl2 : BitVec 64) (boot : ι) : Watched ι :=
  ⟨Vgic.new mpidrEl1 ichVtrEl2 boot, fun _ => true⟩

def quietAfter (w : Watched ι) (k : ι) (e : Event) (n : ℕ) : Bool :=
  match e with
  | .endOfInterrupt i => w.quiet n || finishes (w.gic.cpu k) i n
  | _ => w.quiet n && !e.sets n

end Watched

/-- One event; the maintenance handler runs as soon as the hardware asks for it. -/
def stepMaintained (s : State ι) (k : ι) (e : Event) : Except Panic (State ι) := do
  let s ← Vgic.step s (k, e)
  if maintenanceRaised (s.cpu k) then Vgic.step s (k, .maintenance) else return s

def Watched.step (w : Watched ι) : ι × Event → Except Panic (Watched ι)
  | (k, e) => do return ⟨← stepMaintained w.gic k e, w.quietAfter k e⟩

/-- Interrupt `n` is recorded as pending, in either bank. -/
def recorded (s : State ι) (n : ℕ) : Bool :=
  s.redistributor.pending.getLsbD n || s.distributor.pending.bit n

/-- The guest does not end an entry whose record the maintenance handler will not clear:
one that is tied to a physical interrupt and recorded, or a private one that is recorded
in the distributor. -/
def NoStaleEnd (w : Watched ι) : ι × Event → Prop
  | (k, .endOfInterrupt i) => ∀ n, finishes (w.gic.cpu k) i n = true →
      ((w.gic.cpu k).lr i &&& ichLrnEl2Hw ≠ 0 → recorded w.gic n = false) ∧
        (n < 32 → w.gic.distributor.pending.bit n = false)
  | _ => True

/-- A write of a set-enable register of either bank. -/
def Event.Enables : Event → Prop
  | .writeDistributor offset accessWidth _ =>
    GicDistributorMmio.inWindow offset gicdIsenabler0 gicdIsenabler31 ∧ accessWidth = 32
  | .writeRedistributor offset accessWidth _ => offset = gicrIsenabler0 ∧ accessWidth = 32
  | _ => False

/-- Interrupt `n` is not placed in a list register and not queued. -/
structure NotInjected (s s' : State ι) (n : ℕ) : Prop where
  registers : ∀ k, Held (s'.cpu k) n → Held (s.cpu k) n
  distributorQueue : ∀ entry ∈ s'.distributor.toInjectInterrupt, vintid entry = BitVec.ofNat 64 n →
    entry ∈ s.distributor.toInjectInterrupt
  redistributorQueue : ∀ entry ∈ s'.redistributor.toInjectInterrupt,
    vintid entry = BitVec.ofNat 64 n → entry ∈ s.redistributor.toInjectInterrupt

/-! ## The maintenance handler -/

/-- Nothing is recorded, queued or placed; list registers are only emptied. -/
structure Clears (d : GicDistributorMmio) (r : GicRedistributorMmio) (c : CpuInterface)
    (d' : GicDistributorMmio) (r' : GicRedistributorMmio) (c' : CpuInterface) : Prop where
  distributor : ∀ m, d'.pending.bit m = true → d.pending.bit m = true
  redistributor : ∀ m, r'.pending.getLsbD m = true → r.pending.getLsbD m = true
  distributorQueue : d'.toInjectInterrupt = d.toInjectInterrupt
  redistributorQueue : r'.toInjectInterrupt = r.toInjectInterrupt
  supported : c'.supportedLrn = c.supportedLrn
  lr : ∀ i, c'.lr i = 0 ∨ c'.lr i = c.lr i

theorem Clears.refl (d : GicDistributorMmio) (r : GicRedistributorMmio) (c : CpuInterface) :
    Clears d r c d r c :=
  ⟨fun _ h => h, fun _ h => h, rfl, rfl, rfl, fun _ => .inr rfl⟩

theorem Clears.trans {d₁ d₂ d₃ : GicDistributorMmio} {r₁ r₂ r₃ : GicRedistributorMmio}
    {c₁ c₂ c₃ : CpuInterface} (h : Clears d₁ r₁ c₁ d₂ r₂ c₂) (h' : Clears d₂ r₂ c₂ d₃ r₃ c₃) :
    Clears d₁ r₁ c₁ d₃ r₃ c₃ where
  distributor m hm := h.distributor m (h'.distributor m hm)
  redistributor m hm := h.redistributor m (h'.redistributor m hm)
  distributorQueue := h'.distributorQueue.trans h.distributorQueue
  redistributorQueue := h'.redistributorQueue.trans h.redistributorQueue
  supported := h'.supported.trans h.supported
  lr i := (h'.lr i).elim .inl fun heq => heq ▸ h.lr i

/-- The record that the handler clears for an interrupt. -/
def homeRecord (d : GicDistributorMmio) (r : GicRedistributorMmio) (n : ℕ) : Bool :=
  if 32 ≤ n then d.pending.bit n else r.pending.getLsbD n

theorem Clears.homeRecord {d d' : GicDistributorMmio} {r r' : GicRedistributorMmio}
    {c c' : CpuInterface} (h : Clears d r c d' r' c') {n : ℕ}
    (hclear : homeRecord d r n = false) : homeRecord d' r' n = false := by
  unfold Vgic.homeRecord at hclear ⊢
  by_cases hn : 32 ≤ n
  · rw [if_pos hn] at hclear ⊢
    exact Bool.eq_false_iff.mpr fun hm => Bool.eq_false_iff.mp hclear (h.distributor n hm)
  · rw [if_neg hn] at hclear ⊢
    exact Bool.eq_false_iff.mpr fun hm => Bool.eq_false_iff.mp hclear (h.redistributor n hm)

theorem recycle_clears {d d' : GicDistributorMmio} {r r' : GicRedistributorMmio}
    {c c' : CpuInterface} {i : ℕ} (hi : i < 3) (h : recycle d r c i = .ok (d', r', c')) :
    Clears d r c d' r' c' ∧ c' = c.setLr i 0 ∧
      homeRecord d' r' (vintid (c.lr i)).toNat = false := by
  have hlr : ∀ j, (c.setLr i 0).lr j = 0 ∨ (c.setLr i 0).lr j = c.lr j := by
    intro j
    rw [c.lr_setLr hi]
    by_cases hj : j = i
    · exact .inl (if_pos hj)
    · exact .inr (if_neg hj)
  unfold recycle at h
  extract_lets intId at h
  split_ifs at h with hspi
  · obtain ⟨d₁, hpending, h⟩ := Checked.bind_eq_ok.mp h
    obtain ⟨d₂, hactive, h⟩ := Checked.bind_eq_ok.mp h
    cases h
    obtain ⟨pending, hbank, hd₁⟩ := Checked.bind_eq_ok.mp hpending
    cases hd₁
    obtain ⟨active, -, hd₂⟩ := Checked.bind_eq_ok.mp hactive
    cases hd₂
    have hbit := changeBank_bit hbank
    refine ⟨⟨fun m hm => ?_, fun _ hm => hm, rfl, rfl, rfl, hlr⟩, rfl, ?_⟩
    · dsimp only at hm
      rw [hbit] at hm
      split_ifs at hm
      exact hm
    · unfold homeRecord
      rw [if_pos (show 32 ≤ (vintid (c.lr i)).toNat from hspi)]
      dsimp only
      rw [hbit, if_pos rfl]
  · obtain ⟨r₁, hpending, h⟩ := Checked.bind_eq_ok.mp h
    obtain ⟨r₂, hactive, h⟩ := Checked.bind_eq_ok.mp h
    cases h
    obtain ⟨pending, hregister, hr₁⟩ := Checked.bind_eq_ok.mp hpending
    cases hr₁
    obtain ⟨active, -, hr₂⟩ := Checked.bind_eq_ok.mp hactive
    cases hr₂
    have hbit := (changeRegister_bit hregister).2
    refine ⟨⟨fun _ hm => hm, fun m hm => ?_, rfl, rfl, rfl, hlr⟩, rfl, ?_⟩
    · dsimp only at hm
      rw [hbit] at hm
      split_ifs at hm
      exact hm
    · unfold homeRecord
      rw [if_neg (show ¬ 32 ≤ (vintid (c.lr i)).toNat from hspi)]
      dsimp only
      rw [hbit, if_pos rfl]

theorem maintenanceFrom_clears {eoiBits : ℕ → Bool} :
    ∀ (n i : ℕ) (d d' : GicDistributorMmio) (r r' : GicRedistributorMmio) (c c' : CpuInterface),
      i + n ≤ 3 → maintenanceFrom eoiBits n i d r c = .ok (d', r', c') →
      Clears d r c d' r' c' ∧ ∀ j, i ≤ j → j < i + n → eoiBits j = true →
        homeRecord d' r' (vintid (c.lr j)).toNat = false := by
  intro n
  induction n with
  | zero =>
    intro i d d' r r' c c' _ h
    cases h
    exact ⟨.refl d r c, fun j h1 h2 => absurd h2 (by omega)⟩
  | succ n ih =>
    intro i d d' r r' c c' hi h
    rw [maintenanceFrom] at h
    split_ifs at h with hbit
    · obtain ⟨⟨d₁, r₁, c₁⟩, hrecycle, h⟩ := Checked.bind_eq_ok.mp h
      obtain ⟨hfirst, rfl, hclear⟩ := recycle_clears (by omega) hrecycle
      obtain ⟨hrest, hlater⟩ := ih (i + 1) _ _ _ _ _ _ (by omega) h
      refine ⟨hfirst.trans hrest, fun j h1 h2 hj => ?_⟩
      by_cases hji : j = i
      · rw [hji]
        exact hrest.homeRecord hclear
      · have hdone := hlater j (by omega) (by omega) hj
        rwa [c.lr_setLr (by omega), if_neg hji] at hdone
    · obtain ⟨hrest, hlater⟩ := ih (i + 1) _ _ _ _ _ _ (by omega) h
      refine ⟨hrest, fun j h1 h2 hj => ?_⟩
      have hji : j ≠ i := fun he => hbit (he ▸ hj)
      exact hlater j (by omega) (by omega) hj

theorem maintenanceInterruptHandler_clears {d d' : GicDistributorMmio}
    {r r' : GicRedistributorMmio} {c c' : CpuInterface}
    (h : maintenanceInterruptHandler d r c = .ok (d', r', c')) :
    Clears d r c d' r' c' ∧ ∀ j, j < c.supportedLrn → c.ichEisr j = true →
      homeRecord d' r' (vintid (c.lr j)).toNat = false := by
  have hsup := supportedLrn_le c
  obtain ⟨hclears, hdone⟩ := maintenanceFrom_clears _ _ _ _ _ _ _ _ (by omega) h
  exact ⟨hclears, fun j hj => hdone j (Nat.zero_le j) (by omega)⟩

/-! ## The invariant over runs -/

/-- No quiet interrupt is recorded, and every entry in use announces its end to a part of
the hypervisor that hears it. -/
structure Settled (s : State ι) (quiet : ℕ → Bool) : Prop where
  clear : ∀ n, quiet n = true → recorded s n = false
  registers : ∀ k i, isInactive ((s.cpu k).lr i) = false →
    i < (s.cpu k).supportedLrn ∧ Tells ((s.cpu k).lr i)
  distributorQueue : ∀ entry ∈ s.distributor.toInjectInterrupt, Tells entry
  redistributorQueue : ∀ entry ∈ s.redistributor.toInjectInterrupt, Tells entry

omit [DecidableEq ι] in
theorem recorded_eq_false {s : State ι} {n : ℕ} : recorded s n = false ↔
    s.redistributor.pending.getLsbD n = false ∧ s.distributor.pending.bit n = false := by
  simp [recorded]

/-- A step on one CPU. -/
theorem Settled.advance {s : State ι} {quiet quiet' : ℕ → Bool} (h : Settled s quiet) {k : ι}
    {raised : Set ℕ} {d : GicDistributorMmio} {r : GicRedistributorMmio} {c : CpuInterface}
    {ended : ℕ → Bool} (hfills : Fills raised (s.cpu k) c)
    (hdqueue : ∀ entry ∈ d.toInjectInterrupt,
      entry ∈ s.distributor.toInjectInterrupt ∨ Fresh raised entry)
    (hrqueue : ∀ entry ∈ r.toInjectInterrupt,
      entry ∈ s.redistributor.toInjectInterrupt ∨ Fresh raised entry)
    (hclear : ∀ n, quiet' n = true →
      r.pending.getLsbD n = false ∧ d.pending.bit n = false) :
    Settled ⟨d, r, Function.update s.cpu k c, ended⟩ quiet' where
  clear n hn := recorded_eq_false.mpr (hclear n hn)
  registers l i hused := by
    dsimp only at hused ⊢
    by_cases hl : l = k
    · subst hl
      rw [Function.update_self] at hused ⊢
      rcases hfills.lr i hused with ⟨hold, -, htells⟩ | ⟨hlt, hfresh⟩
      · have hkept := h.registers l i hold
        exact ⟨hfills.supported ▸ hkept.1, htells hkept.2⟩
      · exact ⟨hfills.supported ▸ hlt, hfresh.1⟩
    · rw [Function.update_of_ne hl] at hused ⊢
      exact h.registers l i hused
  distributorQueue entry he :=
    (hdqueue entry he).elim (h.distributorQueue entry) fun hfresh => hfresh.1
  redistributorQueue entry he :=
    (hrqueue entry he).elim (h.redistributorQueue entry) fun hfresh => hfresh.1

/-- An operation of the distributor that raises only what the event sets and what is
recorded already. -/
theorem Settled.distributor {s : State ι} {quiet : ℕ → Bool} (h : Settled s quiet) {k : ι}
    {e : Event} {d : GicDistributorMmio} {c : CpuInterface} {ended : ℕ → Bool}
    (hraises : Raises (mayRaise s.distributor.pending.bit e)
      (distributorView s.distributor (s.cpu k)) (distributorView d c)) :
    Settled ⟨d, s.redistributor, Function.update s.cpu k c, ended⟩
      (fun n => quiet n && !e.sets n) := by
  refine h.advance hraises.fills hraises.queue (fun _ he => .inl he) fun n hn => ?_
  rw [Bool.and_eq_true, Bool.not_eq_true'] at hn
  obtain ⟨hr, hd⟩ := recorded_eq_false.mp (h.clear n hn.1)
  refine ⟨hr, Bool.eq_false_iff.mpr fun hbit => ?_⟩
  rcases hraises.pending n hbit with hold | hold | hsets
  · exact Bool.eq_false_iff.mp hd hold
  · exact Bool.eq_false_iff.mp hd hold
  · exact Bool.eq_false_iff.mp hn.2 hsets

theorem Settled.redistributor {s : State ι} {quiet : ℕ → Bool} (h : Settled s quiet) {k : ι}
    {e : Event} {r : GicRedistributorMmio} {c : CpuInterface} {ended : ℕ → Bool}
    (hraises : Raises (mayRaise s.redistributor.pending.getLsbD e)
      (redistributorView s.redistributor (s.cpu k)) (redistributorView r c)) :
    Settled ⟨s.distributor, r, Function.update s.cpu k c, ended⟩
      (fun n => quiet n && !e.sets n) := by
  refine h.advance hraises.fills (fun _ he => .inl he) hraises.queue fun n hn => ?_
  rw [Bool.and_eq_true, Bool.not_eq_true'] at hn
  obtain ⟨hr, hd⟩ := recorded_eq_false.mp (h.clear n hn.1)
  refine ⟨Bool.eq_false_iff.mpr fun hbit => ?_, hd⟩
  rcases hraises.pending n hbit with hold | hold | hsets
  · exact Bool.eq_false_iff.mp hr hold
  · exact Bool.eq_false_iff.mp hr hold
  · exact Bool.eq_false_iff.mp hn.2 hsets

/-- A step that changes the list registers of one CPU alone. -/
theorem Settled.cpu {s : State ι} {quiet : ℕ → Bool} (h : Settled s quiet) {k : ι}
    {raised : Set ℕ} {c : CpuInterface} {ended : ℕ → Bool} (hfills : Fills raised (s.cpu k) c) :
    Settled ⟨s.distributor, s.redistributor, Function.update s.cpu k c, ended⟩ quiet :=
  h.advance hfills (fun _ he => .inl he) (fun _ he => .inl he)
    fun n hn => recorded_eq_false.mp (h.clear n hn)

theorem Clears.fills {d d' : GicDistributorMmio} {r r' : GicRedistributorMmio}
    {c c' : CpuInterface} (h : Clears d r c d' r' c') (raised : Set ℕ) : Fills raised c c' := by
  refine ⟨h.supported, fun i hused => .inl ?_⟩
  rcases h.lr i with hzero | hsame
  · rw [hzero] at hused
    cases hused
  · rw [hsame] at hused ⊢
    exact ⟨hused, rfl, id⟩

omit [DecidableEq ι] in
theorem Clears.recorded {s s' : State ι} {c c' : CpuInterface}
    (h : Clears s.distributor s.redistributor c s'.distributor s'.redistributor c') {n : ℕ}
    (hn : recorded s n = false) : recorded s' n = false := by
  obtain ⟨hr, hd⟩ := recorded_eq_false.mp hn
  refine recorded_eq_false.mpr ⟨Bool.eq_false_iff.mpr fun hm => ?_, Bool.eq_false_iff.mpr fun hm => ?_⟩
  · exact Bool.eq_false_iff.mp hr (h.redistributor n hm)
  · exact Bool.eq_false_iff.mp hd (h.distributor n hm)

/-- The maintenance handler keeps the invariant, and clears the record of each register
that ended. -/
theorem Settled.maintenance {s s' : State ι} {quiet : ℕ → Bool} (h : Settled s quiet) {k : ι}
    (hstep : step s (k, .maintenance) = .ok s') :
    Settled s' quiet ∧
      Clears s.distributor s.redistributor (s.cpu k) s'.distributor s'.redistributor (s'.cpu k) ∧
      ∀ j, j < (s.cpu k).supportedLrn → (s.cpu k).ichEisr j = true →
        homeRecord s'.distributor s'.redistributor (vintid ((s.cpu k).lr j)).toNat = false := by
  obtain ⟨⟨d, r, c⟩, hhandler, hs'⟩ := Checked.bind_eq_ok.mp hstep
  cases hs'
  obtain ⟨hclears, hdone⟩ := maintenanceInterruptHandler_clears hhandler
  refine ⟨?_, by simpa using hclears, hdone⟩
  refine h.advance (hclears.fills ∅) (fun _ he => .inl (hclears.distributorQueue ▸ he))
    (fun _ he => .inl (hclears.redistributorQueue ▸ he)) fun n hn => ?_
  have hrecorded : recorded ⟨d, r, s.cpu, s.ended⟩ n = false :=
    Clears.recorded hclears (h.clear n hn)
  exact recorded_eq_false.mp hrecorded

theorem fresh_univ {entry : BitVec 64} (h : Tells entry) : Fresh Set.univ entry := by
  refine ⟨h, (vintid entry).toNat, trivial, ?_, by simp⟩
  have hle : (vintid entry).toNat ≤ ichLrnEl2Vintid.toNat := by
    rw [vintid, BitVec.toNat_and]
    exact Nat.and_le_right
  exact hle.trans_lt (by decide)

theorem Settled.inject {s s' : State ι} {quiet : ℕ → Bool} (h : Settled s quiet) {k : ι}
    (hstep : step s (k, .inject) = .ok s') : Settled s' quiet := by
  cases hstep
  have hfirst := Fills.addAll s.distributor.toInjectInterrupt (s.cpu k)
    fun entry he => fresh_univ (h.distributorQueue entry he)
  have hsecond := Fills.addAll s.redistributor.toInjectInterrupt
    (s.distributor.toInjectInterrupt.foldl addVirtualInterrupt (s.cpu k))
    fun entry he => fresh_univ (h.redistributorQueue entry he)
  exact h.advance (hfirst.trans hsecond) (fun _ he => absurd he (List.not_mem_nil))
    (fun _ he => absurd he (List.not_mem_nil)) fun n hn => recorded_eq_false.mp (h.clear n hn)

/-- Every event other than the end of an interrupt keeps the invariant. -/
theorem Settled.step {s s' : State ι} {quiet : ℕ → Bool} (h : Settled s quiet) {k : ι} {e : Event}
    (hother : ∀ i, e ≠ .endOfInterrupt i) (hstep : step s (k, e) = .ok s') :
    Settled s' (fun n => quiet n && !e.sets n) := by
  -- An event that sets nothing leaves the quiet interrupts as they are.
  have hsame : (∀ n, e.sets n = false) → (fun n => quiet n && !e.sets n) = quiet := by
    intro hsets
    funext n
    rw [hsets n]
    simp
  cases e with
  | trigger intId physicalIntId =>
    obtain ⟨⟨d, c⟩, htrigger, hs'⟩ := Checked.bind_eq_ok.mp hstep
    cases hs'
    exact h.distributor (distributor_trigger_raises (.inr (by simp [Event.sets])) htrigger)
  | triggerPrivate intId physicalIntId =>
    obtain ⟨⟨r, c⟩, htrigger, hs'⟩ := Checked.bind_eq_ok.mp hstep
    cases hs'
    exact h.redistributor (redistributor_trigger_raises (.inr (by simp [Event.sets])) htrigger)
  | writeDistributor offset accessWidth value =>
    obtain ⟨⟨d, c⟩, hwrite, hs'⟩ := Checked.bind_eq_ok.mp hstep
    cases hs'
    exact h.distributor (distributor_write_raises hwrite)
  | writeRedistributor offset accessWidth value =>
    obtain ⟨⟨r, c⟩, hwrite, hs'⟩ := Checked.bind_eq_ok.mp hstep
    cases hs'
    exact h.redistributor (redistributor_write_raises hwrite)
  | acknowledge i =>
    cases hstep
    rw [hsame fun _ => rfl]
    exact h.cpu (.acknowledge ∅ _ i)
  | endOfInterrupt i => exact absurd rfl (hother i)
  | maintenance =>
    rw [hsame fun _ => rfl]
    exact (h.maintenance hstep).1
  | inject =>
    rw [hsame fun _ => rfl]
    exact h.inject hstep

theorem ichEisr_iff (c : CpuInterface) (i : ℕ) : c.ichEisr i = true ↔
    isInactive (c.lr i) = true ∧ (c.lr i).getLsbD 61 = false ∧ (c.lr i).getLsbD 41 = true := by
  have hhw : c.lr i &&& ichLrnEl2Hw ≠ 0 ↔ (c.lr i).getLsbD 61 = true :=
    BitSet.and_bit_ne_zero _ (by decide)
  have heoi : c.lr i &&& ichLrnEl2Eoi ≠ 0 ↔ (c.lr i).getLsbD 41 = true :=
    BitSet.and_bit_ne_zero _ (by decide)
  rw [CpuInterface.ichEisr, Bool.and_eq_true, Bool.and_eq_true, beq_iff_eq, bne_iff_ne, heoi,
    and_assoc, ← Bool.not_eq_true ((c.lr i).getLsbD 61), ← hhw, not_not]

/-- The guest's end of an entry that is not tied to a physical interrupt raises the
maintenance interrupt for its register. -/
theorem ichEisr_endOfInterrupt {c : CpuInterface} {i n : ℕ} (htells : Tells (c.lr i))
    (hhw : (c.lr i).getLsbD 61 = false) (hfinish : finishes c i n = true) :
    (c.endOfInterrupt i).ichEisr i = true ∧
      vintid ((c.endOfInterrupt i).lr i) = BitVec.ofNat 64 n := by
  simp only [finishes, Bool.and_eq_true, Bool.not_eq_true', beq_iff_eq] at hfinish
  obtain ⟨⟨hused, hended⟩, hid⟩ := hfinish
  have hlr : (c.endOfInterrupt i).lr i = c.lr i &&& ~~~ichLrnEl2StatusActive := by
    unfold CpuInterface.endOfInterrupt at hended ⊢
    split_ifs at hended ⊢ with hactive
    · have hi : i < 3 := by
        by_contra hi
        rw [c.lr_of_le (by omega)] at hactive
        exact hactive (by decide)
      rw [c.lr_setLr hi, if_pos rfl]
    · rw [hused] at hended
      cases hended
  refine ⟨(ichEisr_iff _ _).mpr ⟨hended, ?_⟩, ?_⟩
  · rw [hlr, endOfInterrupt_low _ 61 (by decide), endOfInterrupt_low _ 41 (by decide)]
    exact ⟨hhw, htells.resolve_left (Bool.eq_false_iff.mp hhw)⟩
  · rw [hlr, endOfInterrupt_entry, hid]

omit [DecidableEq ι] in
theorem Settled.of_clear {s : State ι} {quiet quiet' : ℕ → Bool} (h : Settled s quiet)
    (hclear : ∀ n, quiet' n = true → recorded s n = false) : Settled s quiet' :=
  ⟨hclear, h.registers, h.distributorQueue, h.redistributorQueue⟩

omit [DecidableEq ι] in
/-- Above its bank an interrupt has no record. -/
theorem recorded_of_le {s : State ι} {n : ℕ} (hn : 1024 ≤ n) : recorded s n = false := by
  rw [recorded_eq_false]
  refine ⟨BitVec.getLsbD_of_ge _ _ (by omega), ?_⟩
  simp [FixedArray.bit, FixedArray.getD, show ¬ n / 32 < 32 by omega]

omit [DecidableEq ι] in
/-- The handler clears the whole record of an interrupt that is recorded at home only. -/
theorem recorded_of_home {s : State ι} {n : ℕ}
    (hhome : homeRecord s.distributor s.redistributor n = false)
    (hprivate : n < 32 → s.distributor.pending.bit n = false) : recorded s n = false := by
  rw [recorded_eq_false]
  unfold homeRecord at hhome
  by_cases hn : 32 ≤ n
  · rw [if_pos hn] at hhome
    exact ⟨BitVec.getLsbD_of_ge _ _ hn, hhome⟩
  · rw [if_neg hn] at hhome
    exact ⟨hhome, hprivate (by omega)⟩

/-- The guest's end of an interrupt, with the maintenance handler after it, leaves the
interrupt without a record, unless the record is one that the handler does not clear. -/
theorem Settled.endOfInterrupt {s s' : State ι} {quiet : ℕ → Bool} (h : Settled s quiet) {k : ι}
    {i : ℕ} (hclean : NoStaleEnd ⟨s, quiet⟩ (k, .endOfInterrupt i))
    (hstep : stepMaintained s k (.endOfInterrupt i) = .ok s') :
    Settled s' (fun n => quiet n || finishes (s.cpu k) i n) := by
  obtain ⟨s₁, hend, hstep⟩ := Checked.bind_eq_ok.mp hstep
  cases hend
  set s₁ : State ι := ⟨s.distributor, s.redistributor,
    Function.update s.cpu k ((s.cpu k).endOfInterrupt i), endedAfter s k (.endOfInterrupt i)⟩
    with hs₁
  have hsettled : Settled s₁ quiet := h.cpu (.endOfInterrupt ∅ _ i)
  have hcpu : s₁.cpu k = (s.cpu k).endOfInterrupt i := Function.update_self _ _ _
  have hused {n : ℕ} (hfinish : finishes (s.cpu k) i n = true) :
      isInactive ((s.cpu k).lr i) = false := by
    simp only [finishes, Bool.and_eq_true, Bool.not_eq_true'] at hfinish
    exact hfinish.1.1
  have htied {n : ℕ} (hfinish : finishes (s.cpu k) i n = true)
      (hhw : ((s.cpu k).lr i).getLsbD 61 = true) : recorded s n = false :=
    (hclean n hfinish).1 ((BitSet.and_bit_ne_zero _ (by decide)).mpr hhw)
  split_ifs at hstep with hraised
  · obtain ⟨hmaintained, hclears, hdone⟩ := hsettled.maintenance hstep
    refine hmaintained.of_clear fun n hn => ?_
    rcases (Bool.or_eq_true _ _).mp hn with hquiet | hfinish
    · exact hmaintained.clear n hquiet
    cases hhw : ((s.cpu k).lr i).getLsbD 61 with
    | true => exact hclears.recorded (s := s₁) (htied hfinish hhw)
    | false =>
      obtain ⟨hlt, htells⟩ := h.registers k i (hused hfinish)
      obtain ⟨heisr, hid⟩ := ichEisr_endOfInterrupt htells hhw hfinish
      by_cases hn : 1024 ≤ n
      · exact recorded_of_le hn
      have hhome := hdone i (by
        rw [hcpu, (Fills.endOfInterrupt ∅ (s.cpu k) i).supported]
        exact hlt) (by rwa [hcpu])
      rw [hcpu, hid, BitVec.toNat_ofNat, Nat.mod_eq_of_lt (by omega)] at hhome
      refine recorded_of_home hhome fun hprivate => ?_
      have hclear := (hclean n hfinish).2 hprivate
      exact Bool.eq_false_iff.mpr fun hm => Bool.eq_false_iff.mp hclear (hclears.distributor n hm)
  · rw [← Except.ok.inj hstep]
    refine hsettled.of_clear fun n hn => ?_
    rcases (Bool.or_eq_true _ _).mp hn with hquiet | hfinish
    · exact hsettled.clear n hquiet
    cases hhw : ((s.cpu k).lr i).getLsbD 61 with
    | true => exact htied hfinish hhw
    | false =>
      obtain ⟨hlt, htells⟩ := h.registers k i (hused hfinish)
      have hsup := supportedLrn_le (s.cpu k)
      refine absurd ?_ hraised
      rw [maintenanceRaised, hcpu, List.any_eq_true]
      exact ⟨i, List.mem_range.mpr (by omega), (ichEisr_endOfInterrupt htells hhw hfinish).1⟩

theorem Watched.step_settled (w : Watched ι) (e : ι × Event) (w' : Watched ι)
    (h : Settled w.gic w.quiet) (hclean : NoStaleEnd w e) (hstep : w.step e = .ok w') :
    Settled w'.gic w'.quiet := by
  obtain ⟨k, e⟩ := e
  obtain ⟨s, hs, hw'⟩ := Checked.bind_eq_ok.mp hstep
  cases hw'
  by_cases hend : ∃ i, e = .endOfInterrupt i
  · obtain ⟨i, rfl⟩ := hend
    exact h.endOfInterrupt hclean hs
  · have hother : ∀ i, e ≠ .endOfInterrupt i := fun i he => hend ⟨i, he⟩
    have hquiet : w.quietAfter k e = fun n => w.quiet n && !e.sets n := by
      cases e with
      | endOfInterrupt i => exact absurd rfl (hother i)
      | _ => rfl
    obtain ⟨s₁, hs₁, hs⟩ := Checked.bind_eq_ok.mp hs
    have hsettled := h.step hother hs₁
    rw [hquiet]
    split_ifs at hs
    · exact (hsettled.maintenance hs).1
    · cases hs
      exact hsettled

omit [DecidableEq ι] in
theorem new_settled (mpidrEl1 : ι → BitVec 64) (ichVtrEl2 : BitVec 64) (boot : ι) :
    Settled (Vgic.new mpidrEl1 ichVtrEl2 boot) fun _ => true where
  clear n _ := recorded_eq_false.mpr ⟨by simp [Vgic.new, GicRedistributorMmio.new],
    FixedArray.bit_fill_zero n⟩
  registers k i hused := by
    simp [Vgic.new, CpuInterface.reset, CpuInterface.lr] at hused
  distributorQueue entry he := absurd he List.not_mem_nil
  redistributorQueue entry he := absurd he List.not_mem_nil

/-! ## What an enable write injects -/

theorem Fresh.mem {raised : Set ℕ} {entry : BitVec 64} {n : ℕ} (hn : n < 2 ^ 32)
    (h : Fresh raised entry) (hid : vintid entry = BitVec.ofNat 64 n) : n ∈ raised := by
  obtain ⟨-, m, hm, hlt, hentry⟩ := h
  have heq := congrArg BitVec.toNat (hentry.symm.trans hid)
  rw [BitVec.toNat_ofNat, BitVec.toNat_ofNat, Nat.mod_eq_of_lt (by omega),
    Nat.mod_eq_of_lt (by omega)] at heq
  exact heq ▸ hm

theorem Fills.held {raised : Set ℕ} {c c' : CpuInterface} {n : ℕ} (hn : n < 2 ^ 32)
    (h : Fills raised c c') (hnot : n ∉ raised) (hheld : Held c' n) : Held c n := by
  obtain ⟨i, hi, hused, hid⟩ := hheld
  rcases h.lr i hused with ⟨hold, hsame, -⟩ | ⟨-, hfresh⟩
  · exact ⟨i, hi, hold, hsame.symm.trans hid⟩
  · exact absurd (hfresh.mem hn hid) hnot

theorem NotInjected.of_fills {s : State ι} {k : ι} {n : ℕ} (hn : n < 2 ^ 32) {raised : Set ℕ}
    (hnot : n ∉ raised) {d : GicDistributorMmio} {r : GicRedistributorMmio} {c : CpuInterface}
    {ended : ℕ → Bool} (hfills : Fills raised (s.cpu k) c)
    (hd : ∀ entry ∈ d.toInjectInterrupt,
      entry ∈ s.distributor.toInjectInterrupt ∨ Fresh raised entry)
    (hr : ∀ entry ∈ r.toInjectInterrupt,
      entry ∈ s.redistributor.toInjectInterrupt ∨ Fresh raised entry) :
    NotInjected s ⟨d, r, Function.update s.cpu k c, ended⟩ n where
  registers l hheld := by
    dsimp only at hheld
    by_cases hl : l = k
    · subst hl
      rw [Function.update_self] at hheld
      exact hfills.held hn hnot hheld
    · rwa [Function.update_of_ne hl] at hheld
  distributorQueue entry he hid :=
    (hd entry he).resolve_right fun hfresh => hnot (hfresh.mem hn hid)
  redistributorQueue entry he hid :=
    (hr entry he).resolve_right fun hfresh => hnot (hfresh.mem hn hid)

omit [DecidableEq ι] in
theorem NotInjected.trans {a b c : State ι} {n : ℕ} (h : NotInjected a b n)
    (h' : NotInjected b c n) : NotInjected a c n where
  registers k hheld := h.registers k (h'.registers k hheld)
  distributorQueue entry he hid := h.distributorQueue entry (h'.distributorQueue entry he hid) hid
  redistributorQueue entry he hid :=
    h.redistributorQueue entry (h'.redistributorQueue entry he hid) hid

/-- An enable write does not inject an interrupt without a record. -/
theorem notInjected_of_enables {s s' : State ι} {k : ι} {e : Event} {n : ℕ} (hn : n < 2 ^ 32)
    (henables : e.Enables) (hclear : recorded s n = false)
    (hstep : stepMaintained s k e = .ok s') : NotInjected s s' n := by
  obtain ⟨hr, hd⟩ := recorded_eq_false.mp hclear
  obtain ⟨s₁, hs₁, hstep⟩ := Checked.bind_eq_ok.mp hstep
  have hsets : e.sets n = false := by
    cases e with
    | writeDistributor offset accessWidth value =>
      have hout : ¬ GicDistributorMmio.inWindow offset gicdIspendr0 gicdIspendr31 := by
        intro hin
        have h1 : offset ≤ 0x17C := henables.1.2
        have h2 : 0x200 ≤ offset := hin.1
        omega
      simp [Event.sets, hout]
    | writeRedistributor offset accessWidth value =>
      have hout : offset ≠ gicrIspendr0 := by
        rw [henables.1]
        decide
      simp [Event.sets, hout]
    | _ => exact henables.elim
  have hwrite : NotInjected s s₁ n := by
    cases e with
    | writeDistributor offset accessWidth value =>
      obtain ⟨⟨d, c⟩, hw, hs'⟩ := Checked.bind_eq_ok.mp hs₁
      cases hs'
      have hraises := distributor_write_raises hw
      refine .of_fills hn ?_ hraises.fills hraises.queue fun _ he => .inl he
      exact not_or.mpr ⟨Bool.eq_false_iff.mp hd, Bool.eq_false_iff.mp hsets⟩
    | writeRedistributor offset accessWidth value =>
      obtain ⟨⟨r, c⟩, hw, hs'⟩ := Checked.bind_eq_ok.mp hs₁
      cases hs'
      have hraises := redistributor_write_raises hw
      refine .of_fills hn ?_ hraises.fills (fun _ he => .inl he) hraises.queue
      exact not_or.mpr ⟨Bool.eq_false_iff.mp hr, Bool.eq_false_iff.mp hsets⟩
    | _ => exact henables.elim
  split_ifs at hstep
  · obtain ⟨⟨d, r, c⟩, hhandler, hs'⟩ := Checked.bind_eq_ok.mp hstep
    cases hs'
    have hclears := (maintenanceInterruptHandler_clears hhandler).1
    exact hwrite.trans (.of_fills hn (Set.notMem_empty n) (hclears.fills ∅)
      (fun _ he => .inl (hclears.distributorQueue ▸ he))
      fun _ he => .inl (hclears.redistributorQueue ▸ he))
  · cases hstep
    exact hwrite

/-- In every run in which the guest ends no entry whose record the maintenance handler does
not clear, an interrupt that no list register holds and that was neither triggered nor set
pending since its last delivery was completed is not recorded as pending, and a write of a
set-enable register does not inject it. -/
theorem run_completed_clear (mpidrEl1 : ι → BitVec 64) (ichVtrEl2 : BitVec 64) (boot : ι)
    (events : List (ι × Event)) (w : Watched ι)
    (hrun : Runs.run Watched.step (Watched.new mpidrEl1 ichVtrEl2 boot) events = .ok w)
    (hclean : Runs.Along Watched.step NoStaleEnd (Watched.new mpidrEl1 ichVtrEl2 boot) events)
    (n : ℕ) (hn : n < 2 ^ 32) (hheld : ∀ k, ¬ Held (w.gic.cpu k) n) (hquiet : w.quiet n = true) :
    recorded w.gic n = false ∧ ∀ k e w', Event.Enables e → w.step (k, e) = .ok w' →
      NotInjected w.gic w'.gic n ∧ ∀ l, ¬ Held (w'.gic.cpu l) n := by
  have hsettled : Settled w.gic w.quiet := Runs.run_invariant
    (fun w : Watched ι => Settled w.gic w.quiet) Watched.step_settled events _ w
    (new_settled mpidrEl1 ichVtrEl2 boot) hclean hrun
  refine ⟨hsettled.clear n hquiet, fun k e w' henables hstep => ?_⟩
  obtain ⟨s, hs, hw'⟩ := Checked.bind_eq_ok.mp hstep
  cases hw'
  have hnot := notInjected_of_enables hn henables (hsettled.clear n hquiet) hs
  exact ⟨hnot, fun l hl => hheld l (hnot.registers l hl)⟩

/-- The guest wakes the redistributor and enables the timer. -/
def wake : List (Unit × Event) :=
  [((), .writeRedistributor gicrWaker 32 0), ((), .writeRedistributor gicrIsenabler0 32 0x8000000)]

/-- The timer interrupt is delivered and ended. -/
def deliver (physicalIntId : Option ℕ) : List (Unit × Event) :=
  [((), .triggerPrivate 27 physicalIntId), ((), .acknowledge 0), ((), .endOfInterrupt 0)]

theorem run_completed_clear_timer :
    ∃ w, Runs.run Watched.step (Watched.new (fun _ : Unit => 0) 3 ()) (wake ++ deliver none) =
        .ok w ∧ w.quiet 27 = true ∧ recorded w.gic 27 = false ∧
      ∀ k e w', Event.Enables e → w.step (k, e) = .ok w' →
        NotInjected w.gic w'.gic 27 ∧ ∀ l, ¬ Held (w'.gic.cpu l) 27 := by
  refine ⟨_, rfl, by decide, run_completed_clear (fun _ : Unit => 0) 3 () (wake ++ deliver none) _
    rfl ?_ 27 (by decide) (by decide) (by decide)⟩
  apply Runs.along_cons_ok rfl trivial
  apply Runs.along_cons_ok rfl trivial
  apply Runs.along_cons_ok rfl trivial
  apply Runs.along_cons_ok rfl trivial
  refine Runs.along_cons_ok rfl (fun n _ => ⟨fun hhw => absurd hhw (by decide), fun _ => ?_⟩) trivial
  exact FixedArray.bit_fill_zero n

/-- The timer interrupt is tied to a physical one: after its delivery the record is left,
and the next enable write injects it once more. A private interrupt that is set pending
through the distributor is left there as well. -/
theorem completed_stays_recorded :
    (∃ w, Runs.run Watched.step (Watched.new (fun _ : Unit => 0) 3 ()) (wake ++ deliver (some 27)) =
        .ok w ∧ (∀ k, ¬ Held (w.gic.cpu k) 27) ∧ w.quiet 27 = true ∧ recorded w.gic 27 = true ∧
      ∃ w', w.step ((), .writeRedistributor gicrIsenabler0 32 0x8000000) = .ok w' ∧
        Held (w'.gic.cpu ()) 27) ∧
    ∃ w, Runs.run Watched.step (Watched.new (fun _ : Unit => 0) 3 ())
        [((), .writeDistributor gicdCtlr 32 0x12), ((), .writeDistributor gicdIsenabler0 32 0x100),
          ((), .writeDistributor gicdIspendr0 32 0x100), ((), .acknowledge 0),
          ((), .endOfInterrupt 0)] = .ok w ∧
      (∀ k, ¬ Held (w.gic.cpu k) 8) ∧ w.quiet 8 = true ∧ recorded w.gic 8 = true := by
  refine ⟨⟨_, rfl, by decide, by decide, by decide, _, rfl, by decide⟩, _, rfl, by decide, by decide,
    by decide⟩

end Min1visor.Vgic
