import Min1visor.VgicHandover

/-!
# No deliverable interrupt is lost

In a run in which the list registers do not overflow and delivery is not turned
on after the fact, a deliverable interrupt stays in a list register or in the
queue until the guest has ended it.
-/
namespace Min1visor.Vgic
open Vgicv3 Gicv3Mmio

variable {ι : Type} [DecidableEq ι]

/-! ## The guest's steps on the list registers -/

theorem Grows.acknowledge (c : CpuInterface) (i : ℕ) : Grows c (c.acknowledge i) := by
  unfold CpuInterface.acknowledge
  split_ifs with hpending
  · by_cases hi : i < 3
    · apply Grows.setLr hi
      intro _
      refine ⟨?_, acknowledge_entry _⟩
      rw [isInactive_eq_false, BitVec.getLsbD_or, BitVec.getLsbD_or]
      exact .inr (by simp [show ichLrnEl2StatusActive.getLsbD 63 = true by decide])
    · rw [c.lr_of_le (by omega)] at hpending
      exact absurd hpending (by decide)
  · exact .refl c

/-- Ending a register gives up what it holds only by finishing it. -/
theorem held_endOfInterrupt {c : CpuInterface} {n : ℕ} (i : ℕ) (h : Held c n) :
    Held (c.endOfInterrupt i) n ∨ finishes c i n = true := by
  obtain ⟨j, hj, hused, hid⟩ := h
  by_cases hactive : c.lr i &&& ichLrnEl2StatusActive ≠ 0
  · have hi : i < 3 := by
      by_contra hi
      rw [c.lr_of_le (by omega)] at hactive
      exact hactive (by decide)
    have hlr : ∀ m, (c.endOfInterrupt i).lr m =
        if m = i then c.lr i &&& ~~~ichLrnEl2StatusActive else c.lr m := by
      intro m
      rw [CpuInterface.endOfInterrupt, if_pos hactive, c.lr_setLr hi]
    by_cases hji : j = i
    · subst hji
      cases hfinal : isInactive ((c.endOfInterrupt j).lr j) with
      | true =>
        right
        simp [finishes, hused, hfinal, hid]
      | false =>
        left
        refine ⟨j, hj, hfinal, ?_⟩
        rw [hlr, if_pos rfl, endOfInterrupt_entry, hid]
    · left
      refine ⟨j, hj, ?_⟩
      rw [hlr, if_neg hji]
      exact ⟨hused, hid⟩
  · left
    rw [CpuInterface.endOfInterrupt, if_neg hactive]
    exact ⟨j, hj, hused, hid⟩

theorem overflows_endOfInterrupt (c : CpuInterface) (i : ℕ) :
    (c.endOfInterrupt i).overflows = c.overflows := by
  unfold CpuInterface.endOfInterrupt
  split_ifs <;> rfl

/-! ## The invariant over runs -/

/-- Without an overflow so far, every deliverable interrupt is carried. -/
def Inv (s : State ι) : Prop :=
  (∀ k, (s.cpu k).overflows = 0) → ∀ n, IsSpi n → Deliverable s.distributor n → Carried s n

/-- A step on one CPU keeps the invariant if, unless it overflows, what is
deliverable after it is carried after it. -/
theorem Inv.advance {s : State ι} (hinv : Inv s) {k : ι} {d : GicDistributorMmio}
    {r : GicRedistributorMmio} {c : CpuInterface} {ended : ℕ → Bool}
    (hle : (s.cpu k).overflows ≤ c.overflows)
    (h : c.overflows = (s.cpu k).overflows →
      (∀ n, IsSpi n → Deliverable s.distributor n → Carried s n) →
      ∀ n, IsSpi n → Deliverable d n → Carried ⟨d, r, Function.update s.cpu k c, ended⟩ n) :
    Inv ⟨d, r, Function.update s.cpu k c, ended⟩ := by
  intro hover
  have hk : c.overflows = 0 := by simpa using hover k
  apply h (by omega)
  apply hinv
  intro l
  by_cases hl : l = k
  · rw [hl]
    omega
  · simpa [hl] using hover l

/-- Where an interrupt can move in a step on one CPU. -/
theorem Carried.move {s : State ι} {n : ℕ} (hn : Carried s n) {k : ι} {d : GicDistributorMmio}
    {r : GicRedistributorMmio} {c : CpuInterface} {ended : ℕ → Bool}
    (hheld : Held (s.cpu k) n → Held c n ∨ ended n = true)
    (hqueued : Queued s.distributor n → Queued d n ∨ Held c n)
    (hended : s.ended n = true → ended n = true) :
    Carried ⟨d, r, Function.update s.cpu k c, ended⟩ n := by
  have hhere : Held c n → Carried ⟨d, r, Function.update s.cpu k c, ended⟩ n :=
    fun h => .inl ⟨k, by simpa using h⟩
  rcases hn with ⟨l, hl⟩ | hq | he
  · by_cases hlk : l = k
    · subst hlk
      exact (hheld hl).elim hhere fun h => .inr (.inr h)
    · exact .inl ⟨l, by simpa [hlk] using hl⟩
  · exact (hqueued hq).elim (fun h => .inr (.inl h)) hhere
  · exact .inr (.inr (hended he))

theorem Carried.of_delivered {s : State ι} {n : ℕ} {k : ι} {d : GicDistributorMmio}
    {r : GicRedistributorMmio} {c : CpuInterface} {ended : ℕ → Bool}
    (h : Held c n ∨ Queued d n) : Carried ⟨d, r, Function.update s.cpu k c, ended⟩ n :=
  h.elim (fun h => .inl ⟨k, by simpa using h⟩) fun h => .inr (.inl h)

omit [DecidableEq ι] in
theorem endedAfter_of_not_raises {s : State ι} {k : ι} {e : Event} {n : ℕ}
    (hr : e.raises n = false) (h : s.ended n = true) : endedAfter s k e n = true := by
  cases e <;> simp [endedAfter, h, hr]

/-- A step that only fills list registers and touches the redistributor. -/
theorem Inv.grow {s : State ι} (hinv : Inv s) {k : ι} (e : Event) (he : ∀ n, e.raises n = false)
    {r : GicRedistributorMmio} {c : CpuInterface} (hgrows : Grows (s.cpu k) c) :
    Inv ⟨s.distributor, r, Function.update s.cpu k c, endedAfter s k e⟩ := by
  apply hinv.advance hgrows.overflows
  intro _ hcarried n hn hd
  exact (hcarried n hn hd).move (fun h => .inl (hgrows.held n h)) .inl
    (endedAfter_of_not_raises (he n))

theorem step_trigger {s s' : State ι} {k : ι} {intId : ℕ} {physicalIntId : Option ℕ}
    (hinv : Inv s) (h : step s (k, .trigger intId physicalIntId) = .ok s') : Inv s' := by
  obtain ⟨⟨d, c⟩, htrigger, h⟩ := Checked.bind_eq_ok.mp h
  cases h
  obtain ⟨hgrows, hqueue, hother, hself⟩ := triggerInterrupt_spec htrigger
  apply hinv.advance hgrows.overflows
  intro hover hcarried n hn hd
  by_cases hne : n = intId
  · subst hne
    exact .of_delivered (hself hover hn.2 hd)
  · apply (hcarried n hn (hother n hne hd)).move (fun h => .inl (hgrows.held n h))
      fun h => .inl (hqueue n h)
    exact endedAfter_of_not_raises (by simp [Event.raises, hne])

theorem step_writeDistributor {s s' : State ι} {k : ι} {offset accessWidth : ℕ}
    {value : BitVec 64} (hinv : Inv s)
    (hlate : NoLateEnable s (k, .writeDistributor offset accessWidth value))
    (h : step s (k, .writeDistributor offset accessWidth value) = .ok s') : Inv s' := by
  obtain ⟨⟨d, c⟩, hwrite, h⟩ := Checked.bind_eq_ok.mp h
  cases h
  have hnot : ∀ n, ¬ (GicDistributorMmio.inWindow offset gicdIspendr0 gicdIspendr31 ∧
      accessWidth = 32) → (Event.writeDistributor offset accessWidth value).raises n = false := by
    intro n hout
    rw [Bool.eq_false_iff]
    exact fun hr => hout (raises_write hr).1
  rcases write_handsOver hwrite with ⟨hoff, hwidth, rfl, rfl⟩ | ⟨hoff, hwidth, rfl, rfl⟩ | hhands
  · have hout := fun n => hnot n (by simp [hoff, GicDistributorMmio.inWindow, gicdCtlr, gicdIspendr0])
    apply hinv.advance le_rfl
    intro _ _ n hn hd
    exact (hlate.1 ⟨hoff, hwidth⟩ n hn hd).move .inl .inl (endedAfter_of_not_raises (hout n))
  · have hout := fun n => hnot n (by
      simp only [GicDistributorMmio.inWindow, gicdIgrpmodr0, gicdIgrpmodr31, gicdIspendr0,
        gicdIspendr31] at hoff ⊢
      omega)
    apply hinv.advance le_rfl
    intro _ _ n hn hd
    exact (hlate.2 ⟨hoff, hwidth⟩ n hn hd).move .inl .inl (endedAfter_of_not_raises (hout n))
  · apply hinv.advance hhands.grows.overflows
    intro hover hcarried n hn hd
    cases hr : (Event.writeDistributor offset accessWidth value).raises n with
    | true =>
      obtain ⟨hpend, hword, hbit⟩ := raises_write hr
      exact .of_delivered ((write_ispendr hpend hwrite).2 hover n hn.2 hword hbit hd)
    | false =>
      rcases hhands.deliver hover n hn.2 hd with hold | hdone
      · exact (hcarried n hn hold).move (fun h => .inl (hhands.grows.held n h))
          (fun h => .inl (hhands.queue n h)) (endedAfter_of_not_raises hr)
      · exact .of_delivered hdone

theorem step_endOfInterrupt {s s' : State ι} {k : ι} {i : ℕ} (hinv : Inv s)
    (h : step s (k, .endOfInterrupt i) = .ok s') : Inv s' := by
  cases h
  apply hinv.advance (overflows_endOfInterrupt _ i).ge
  intro _ hcarried n hn hd
  apply (hcarried n hn hd).move _ .inl
  · intro he
    simp [endedAfter, he]
  · intro hheld
    rcases held_endOfInterrupt i hheld with hheld | hfinish
    · exact .inl hheld
    · exact .inr (by simp [endedAfter, hfinish])

theorem step_maintenance {s s' : State ι} {k : ι} (hinv : Inv s)
    (h : step s (k, .maintenance) = .ok s') : Inv s' := by
  obtain ⟨⟨d, r, c⟩, hmaintenance, h⟩ := Checked.bind_eq_ok.mp h
  cases h
  obtain ⟨hgrows, hqueue, hdeliver⟩ := maintenanceInterruptHandler_spec hmaintenance
  apply hinv.advance hgrows.overflows
  intro _ hcarried n hn hd
  apply (hcarried n hn (hdeliver n hd)).move (fun h => .inl (hgrows.held n h)) _
    (endedAfter_of_not_raises rfl)
  intro hq
  left
  unfold Queued at hq ⊢
  rwa [hqueue]

theorem step_inject {s s' : State ι} {k : ι} (hinv : Inv s) (h : step s (k, .inject) = .ok s') :
    Inv s' := by
  cases h
  have hfirst := Grows.addAll s.distributor.toInjectInterrupt (s.cpu k)
  have hsecond := Grows.addAll s.redistributor.toInjectInterrupt
    (s.distributor.toInjectInterrupt.foldl addVirtualInterrupt (s.cpu k))
  apply hinv.advance (hfirst.trans hsecond).overflows
  intro hover hcarried n hn hd
  apply (hcarried n hn hd).move (fun h => .inl ((hfirst.trans hsecond).held n h)) _
    (endedAfter_of_not_raises rfl)
  rintro ⟨entry, hmem, hused, hid⟩
  have h1 := hfirst.overflows
  have h2 := hsecond.overflows
  exact .inr (hsecond.held n (held_addAll hmem hused hid (by omega)))

theorem step_inv (s : State ι) (e : ι × Event) (s' : State ι) (hinv : Inv s)
    (hlate : NoLateEnable s e) (h : step s e = .ok s') : Inv s' := by
  obtain ⟨k, e⟩ := e
  cases e with
  | trigger intId physicalIntId => exact step_trigger hinv h
  | triggerPrivate intId physicalIntId =>
    obtain ⟨⟨r, c⟩, htrigger, h⟩ := Checked.bind_eq_ok.mp h
    cases h
    exact hinv.grow _ (fun _ => rfl) (redistributor_triggerInterrupt_grows htrigger)
  | writeDistributor offset accessWidth value => exact step_writeDistributor hinv hlate h
  | writeRedistributor offset accessWidth value =>
    obtain ⟨⟨r, c⟩, hwrite, h⟩ := Checked.bind_eq_ok.mp h
    cases h
    exact hinv.grow _ (fun _ => rfl) (redistributor_write_grows hwrite)
  | acknowledge i =>
    cases h
    exact hinv.grow _ (fun _ => rfl) (.acknowledge _ i)
  | endOfInterrupt i => exact step_endOfInterrupt hinv h
  | maintenance => exact step_maintenance hinv h
  | inject => exact step_inject hinv h

omit [DecidableEq ι] in
theorem new_inv (mpidrEl1 : ι → BitVec 64) (ichVtrEl2 : BitVec 64) (boot : ι) :
    Inv (new mpidrEl1 ichVtrEl2 boot) := by
  intro _ n _ hd
  have hctlr := hd.1
  simp [new, GicDistributorMmio.new] at hctlr

/-- In every run in which no list register overflows and delivery is not turned
on late, a deliverable interrupt is in a list register, queued, or ended by the
guest. -/
theorem run_carried (mpidrEl1 : ι → BitVec 64) (ichVtrEl2 : BitVec 64) (boot : ι)
    (events : List (ι × Event)) (s : State ι)
    (hrun : Runs.run step (new mpidrEl1 ichVtrEl2 boot) events = .ok s)
    (hlate : Runs.Along step NoLateEnable (new mpidrEl1 ichVtrEl2 boot) events)
    (hover : ∀ k, (s.cpu k).overflows = 0) (n : ℕ) (hn : IsSpi n)
    (hd : Deliverable s.distributor n) :
    (∃ k, Held (s.cpu k) n) ∨ Queued s.distributor n ∨ s.ended n = true :=
  Runs.run_invariant Inv step_inv events _ s (new_inv _ _ _) hlate hrun hover n hn hd

/-- A machine with one CPU and one list register, whose distributor has delivery
turned on and interrupts 40 and 41 enabled. -/
def machine (pending : FixedArray (BitVec 32) 32) (c : CpuInterface) : State Unit where
  distributor :=
    { GicDistributorMmio.new with
      ctlr := 0x12, enable := (FixedArray.fill 32 0).put 1 0x300, pending := pending }
  redistributor := .new 0
  cpu _ := c
  ended _ := false

/-- The one list register holds interrupt 40. -/
def holding40 : CpuInterface :=
  (CpuInterface.reset 0 0).setLr 0 (createListRegisterEntry 40 0 0 none)

theorem run_machine (events : List (Unit × Event)) :
    Runs.run step (new (fun _ : Unit => 0) 0 ()) (((), .writeDistributor 0 32 0x12) ::
        ((), .writeDistributor 0x104 32 0x300) :: ((), .trigger 40 none) :: events) =
      Runs.run step (machine ((FixedArray.fill 32 0).put 1 0x100) holding40) events := rfl

/-- The control register is written first, then interrupt 40 is enabled and triggered. -/
theorem run_carried_one_interrupt :
    ∃ s, Runs.run step (new (fun _ : Unit => 0) 0 ())
        [((), .writeDistributor 0 32 0x12), ((), .writeDistributor 0x104 32 0x300),
          ((), .trigger 40 none)] = .ok s ∧ Deliverable s.distributor 40 ∧
      ((∃ k, Held (s.cpu k) 40) ∨ Queued s.distributor 40 ∨ s.ended 40 = true) := by
  refine ⟨machine ((FixedArray.fill 32 0).put 1 0x100) holding40, rfl, by decide, ?_⟩
  refine run_carried (fun _ : Unit => 0) 0 ()
    [((), .writeDistributor 0 32 0x12), ((), .writeDistributor 0x104 32 0x300),
      ((), .trigger 40 none)] _ rfl ?_ (by decide) 40 (by decide) (by decide)
  have hnone : ∀ n, ¬ Deliverable { GicDistributorMmio.new with ctlr := 0x12 } n := by
    intro n hd
    have hpending : (FixedArray.fill 32 (0 : BitVec 32)).bit n = true := hd.2.2.1
    rw [FixedArray.bit_fill_zero] at hpending
    cases hpending
  apply Runs.along_cons_ok rfl ⟨fun _ n _ hd => absurd hd (hnone n), fun h => absurd h.1 (by decide)⟩
  apply Runs.along_cons_ok rfl ⟨fun h => absurd h.1 (by decide), fun h => absurd h.1 (by decide)⟩
  exact Runs.along_cons_ok rfl trivial trivial

/-- An interrupt that the guest has ended is still recorded as pending until the
maintenance handler runs; one more interrupt than there are list registers finds
none; and enabling the distributor last delivers nothing. -/
theorem delivery_gaps :
    (∃ s, Runs.run step (new (fun _ : Unit => 0) 0 ())
        [((), .writeDistributor 0 32 0x12), ((), .writeDistributor 0x104 32 0x300),
          ((), .trigger 40 none), ((), .acknowledge 0), ((), .endOfInterrupt 0)] = .ok s ∧
      Missing s 40) ∧
    (∃ s, Runs.run step (new (fun _ : Unit => 0) 0 ())
        [((), .writeDistributor 0 32 0x12), ((), .writeDistributor 0x104 32 0x300),
          ((), .trigger 40 none), ((), .trigger 41 none)] = .ok s ∧ Missing s 41) ∧
    (∃ s, Runs.run step (new (fun _ : Unit => 0) 0 ())
        [((), .writeDistributor 0x104 32 0x100), ((), .writeDistributor 0x204 32 0x100),
          ((), .writeDistributor 0 32 0x12)] = .ok s ∧ Missing s 40) := by
  have hended : Missing { machine ((FixedArray.fill 32 0).put 1 0x100)
      ((holding40.acknowledge 0).endOfInterrupt 0) with
        ended := endedAfter (machine ((FixedArray.fill 32 0).put 1 0x100)
          (holding40.acknowledge 0)) () (.endOfInterrupt 0) } 40 := by
    exact ⟨by decide, by decide, by decide, fun ⟨_, hmem, _⟩ => List.not_mem_nil hmem⟩
  have hfull : Missing (machine (((FixedArray.fill 32 0).put 1 0x100).put 1 0x300)
      { holding40 with overflows := 1 }) 41 := by
    exact ⟨by decide, by decide, by decide, fun ⟨_, hmem, _⟩ => List.not_mem_nil hmem⟩
  refine ⟨⟨_, ?_, hended⟩, ⟨_, ?_, hfull⟩, ⟨_, rfl, ?_⟩⟩
  · rw [run_machine]
    rfl
  · rw [run_machine]
    rfl
  · exact ⟨by decide, by decide, by decide, fun ⟨_, hmem, _⟩ => List.not_mem_nil hmem⟩

end Min1visor.Vgic
