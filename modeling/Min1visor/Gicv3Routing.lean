import Min1visor.Gicv3Safety

/-!
# Routing of shared interrupts

The distributor keeps one router for each identifier, but the window of routers
begins at the register of interrupt 32 while the array begins at interrupt 0. A
write of `GICD_IROUTER<n>` is therefore stored 32 entries below the one that
triggering interrupt `n` reads, and what interrupt `n` follows is the register of
interrupt `n + 32`.
-/
namespace Min1visor.Gicv3Mmio
open Vgicv3

/-- The architectural offset of `GICD_IROUTER<n>`. -/
def irouter (n : ℕ) : ℕ := 0x6000 + 8 * n

example : irouter 1019 = gicdIrouter1019 := rfl

/-! ## Which operations change a router -/

namespace GicDistributorMmio

theorem triggerInterrupt_router {d d' : GicDistributorMmio} {c c' : CpuInterface} {n : ℕ}
    {physicalIntId : Option ℕ} (h : d.triggerInterrupt c n physicalIntId = .ok (d', c')) :
    d'.router = d.router := by
  by_cases hn : n < 1024
  · rw [(triggerInterrupt_requeued hn h).registers]
    split_ifs <;> rfl
  · -- Without a pending bit only a disabled distributor returns.
    have hword : ¬ n / 32 < 32 := by omega
    unfold triggerInterrupt at h
    split_ifs at h
    · cases h
      rfl
    · simp [changePendingStatus, changeBank, FixedArray.modify, FixedArray.get, hword] at h

theorem triggerBits_router {ready : GicDistributorMmio → ℕ → Except Panic Bool} {k n : ℕ}
    {value : BitVec 64} {d d' : GicDistributorMmio} {c c' : CpuInterface}
    (h : triggerBits ready k n value d c = .ok (d', c')) : d'.router = d.router := by
  induction k generalizing n value d c with
  | zero =>
    cases h
    rfl
  | succ k ih =>
    rw [triggerBits] at h
    split_ifs at h with hzero
    · cases h
      rfl
    obtain ⟨⟨d₁, c₁⟩, hround, hrest⟩ := Checked.bind_eq_ok.mp h
    rw [ih hrest]
    unfold triggerBit at hround
    split_ifs at hround with hlow
    · obtain ⟨b, -, hround⟩ := Checked.bind_eq_ok.mp hround
      cases b with
      | true => exact triggerInterrupt_router hround
      | false =>
        cases hround
        rfl
    · cases hround
      rfl

/-- The routers after a write that returns. -/
theorem write_router {d d' : GicDistributorMmio} {c c' : CpuInterface} {offset accessWidth : ℕ}
    {value : BitVec 64} (h : d.write c offset accessWidth value = .ok (d', c')) :
    d'.router = if inWindow offset gicdIrouter0 gicdIrouter1019 ∧ accessWidth = 64 then
      d.router.put ((offset - gicdIrouter0) / 8) value else d.router := by
  by_cases hrouter : inWindow offset gicdIrouter0 gicdIrouter1019 ∧ accessWidth = 64
  · obtain ⟨hwindow, rfl⟩ := hrouter
    rw [write_irouter d c value hwindow] at h
    cases h
    rw [if_pos ⟨hwindow, rfl⟩]
  rw [if_neg hrouter]
  cases window offset accessWidth with
  | ctlr hoffset hwidth =>
    subst hoffset hwidth
    cases (write_ctlr d c value).symm.trans h
    rfl
  | igroupr hw hwidth =>
    subst hwidth
    cases (write_igroupr d c value hw).symm.trans h
    rfl
  | isenabler hw hwidth =>
    subst hwidth
    have hloop := triggerBits_router ((write_isenabler d c value hw).symm.trans h)
    exact hloop
  | icenabler hw hwidth =>
    subst hwidth
    cases (write_icenabler d c value hw).symm.trans h
    rfl
  | ispendr hw hwidth =>
    subst hwidth
    have hloop := triggerBits_router ((write_ispendr d c value hw).symm.trans h)
    exact hloop
  | icpendr hw hwidth =>
    subst hwidth
    cases (write_icpendr d c value hw).symm.trans h
    rfl
  | isactiver hw hwidth =>
    subst hwidth
    cases (write_isactiver d c value hw).symm.trans h
    rfl
  | icactiver hw hwidth =>
    subst hwidth
    cases (write_icactiver d c value hw).symm.trans h
    rfl
  | ipriorityr hw =>
    rw [write_ipriorityr d c value accessWidth hw] at h
    split_ifs at h
    all_goals
      cases h
      rfl
  | icfgr hw hwidth =>
    subst hwidth
    cases (write_icfgr d c value hw).symm.trans h
    rfl
  | igrpmodr hw hwidth =>
    subst hwidth
    rw [write_igrpmodr d c value hw] at h
    split_ifs at h
    cases h
    rfl
  | irouter hw hwidth => exact absurd ⟨hw, hwidth⟩ hrouter
  | ignored hw =>
    cases (hw d c value).symm.trans h
    rfl

theorem changePendingStatus_router {d d' : GicDistributorMmio} {n : ℕ} {on : Bool}
    (h : d.changePendingStatus n on = .ok d') : d'.router = d.router := by
  obtain ⟨bank, -, hd⟩ := Checked.bind_eq_ok.mp h
  cases hd
  rfl

theorem changeActiveStatus_router {d d' : GicDistributorMmio} {n : ℕ} {on : Bool}
    (h : d.changeActiveStatus n on = .ok d') : d'.router = d.router := by
  obtain ⟨bank, -, hd⟩ := Checked.bind_eq_ok.mp h
  cases hd
  rfl

end GicDistributorMmio

end Min1visor.Gicv3Mmio

namespace Min1visor.Vgic
open Vgicv3 Gicv3Mmio

variable {ι : Type} [DecidableEq ι]

theorem recycle_router {d d' : GicDistributorMmio} {r r' : GicRedistributorMmio}
    {c c' : CpuInterface} {i : ℕ} (h : recycle d r c i = .ok (d', r', c')) :
    d'.router = d.router := by
  unfold recycle at h
  dsimp only at h
  split_ifs at h with hspi
  · obtain ⟨d₁, hpending, h⟩ := Checked.bind_eq_ok.mp h
    obtain ⟨d₂, hactive, h⟩ := Checked.bind_eq_ok.mp h
    cases h
    exact (GicDistributorMmio.changeActiveStatus_router hactive).trans
      (GicDistributorMmio.changePendingStatus_router hpending)
  · obtain ⟨r₁, -, h⟩ := Checked.bind_eq_ok.mp h
    obtain ⟨r₂, -, h⟩ := Checked.bind_eq_ok.mp h
    cases h
    rfl

theorem maintenanceFrom_router {eoiBits : ℕ → Bool} {k i : ℕ} {d d' : GicDistributorMmio}
    {r r' : GicRedistributorMmio} {c c' : CpuInterface}
    (h : maintenanceFrom eoiBits k i d r c = .ok (d', r', c')) : d'.router = d.router := by
  induction k generalizing i d r c with
  | zero =>
    cases h
    rfl
  | succ k ih =>
    rw [maintenanceFrom] at h
    split_ifs at h with heoi
    · obtain ⟨⟨d₁, r₁, c₁⟩, hfirst, hrest⟩ := Checked.bind_eq_ok.mp h
      exact (ih hrest).trans (recycle_router hfirst)
    · exact ih h

/-- Where the decoder stores a 64-bit write, if in a router. -/
def stored (n : ℕ) : Event → Option (BitVec 64)
  | .writeDistributor offset accessWidth value =>
    if (GicDistributorMmio.inWindow offset gicdIrouter0 gicdIrouter1019 ∧ accessWidth = 64) ∧
        (offset - gicdIrouter0) / 8 = n then some value else none
  | _ => none

/-- One event changes a router only by storing a value in it. -/
theorem step_router {s s' : State ι} {e : ι × Event} (h : step s e = .ok s') (n : ℕ) :
    s'.distributor.router.getD n 0 = (stored n e.2).getD (s.distributor.router.getD n 0) := by
  obtain ⟨k, e⟩ := e
  cases e with
  | trigger intId physicalIntId =>
    obtain ⟨⟨d, c⟩, htrigger, hs⟩ := Checked.bind_eq_ok.mp h
    cases hs
    simp only [stored, Option.getD_none, GicDistributorMmio.triggerInterrupt_router htrigger]
  | triggerPrivate intId physicalIntId =>
    obtain ⟨⟨r, c⟩, -, hs⟩ := Checked.bind_eq_ok.mp h
    cases hs
    rfl
  | writeDistributor offset accessWidth value =>
    obtain ⟨⟨d, c⟩, hwrite, hs⟩ := Checked.bind_eq_ok.mp h
    cases hs
    simp only [stored, GicDistributorMmio.write_router hwrite]
    by_cases hin : GicDistributorMmio.inWindow offset gicdIrouter0 gicdIrouter1019 ∧ accessWidth = 64
    · have hi : (offset - gicdIrouter0) / 8 < 1020 :=
        GicDistributorMmio.index_lt hin.1 (by decide) (by decide)
      rw [if_pos hin, FixedArray.getD_put _ _ _ _ _ hi]
      by_cases heq : (offset - gicdIrouter0) / 8 = n
      · rw [if_pos heq.symm, if_pos ⟨hin, heq⟩, Option.getD_some]
      · rw [if_neg (Ne.symm heq), if_neg fun hboth => heq hboth.2, Option.getD_none]
    · rw [if_neg hin, if_neg fun hboth => hin hboth.1, Option.getD_none]
  | writeRedistributor offset accessWidth value =>
    obtain ⟨⟨r, c⟩, -, hs⟩ := Checked.bind_eq_ok.mp h
    cases hs
    rfl
  | acknowledge i =>
    cases h
    rfl
  | endOfInterrupt i =>
    cases h
    rfl
  | maintenance =>
    obtain ⟨⟨d, r, c⟩, hmaintenance, hs⟩ := Checked.bind_eq_ok.mp h
    cases hs
    simp only [stored, Option.getD_none, maintenanceFrom_router hmaintenance]
  | inject =>
    cases h
    rfl

/-! ## Honouring the guest's routing -/

/-- The value that an event writes to `GICD_IROUTER<n>`. -/
def written (n : ℕ) : Event → Option (BitVec 64)
  | .writeDistributor offset accessWidth value =>
    if offset = irouter n ∧ accessWidth = 64 then some value else none
  | _ => none

/-- The last value that the guest wrote to `GICD_IROUTER<n>`. -/
def lastWritten (n : ℕ) (events : List (ι × Event)) : Option (BitVec 64) :=
  (events.filterMap fun e => written n e.2).getLast?

/-- The event is a 64-bit write that begins inside another router register. -/
def WritesOther (n : ℕ) : Event → Prop
  | .writeDistributor offset accessWidth _ =>
    ∃ m, m ≠ n ∧ irouter m ≤ offset ∧ offset < irouter m + 8 ∧ accessWidth = 64
  | _ => False

/-- The fields of `ICC_SGI1R_EL1` select the CPU of an affinity: `Aff3`, `Aff2`
and `Aff1`, a range of sixteen CPUs and one bit of the target list, and not all
CPUs but this one. -/
structure SgiTargets (sgi affinity : BitVec 64) : Prop where
  aff3 : sgi.extractLsb' 48 8 = affinity.extractLsb' 32 8
  aff2 : sgi.extractLsb' 32 8 = affinity.extractLsb' 16 8
  aff1 : sgi.extractLsb' 16 8 = affinity.extractLsb' 8 8
  range : sgi.extractLsb' 44 4 = affinity.extractLsb' 4 4
  targetList : sgi.extractLsb' 0 16 = BitVec.twoPow 16 (affinity.extractLsb' 0 4).toNat
  one : sgi.getLsbD 40 = false

/-- On every CPU, triggering the interrupt hands it to this CPU when its affinity
is the given one, and otherwise queues it and signals the CPU that has it. -/
def Honours (d : GicDistributorMmio) (n : ℕ) (affinity : BitVec 64) : Prop :=
  ∀ (c : CpuInterface) (physicalIntId : Option ℕ),
    let entry := createListRegisterEntry n (d.group.bit n).toNat (d.priorityOf n) physicalIntId
    if SameAffinity affinity c.mpidrEl1 then
      d.triggerInterrupt c n physicalIntId = .ok (d.record n, addVirtualInterrupt c entry)
    else ∃ sgi, SgiTargets sgi affinity ∧ d.triggerInterrupt c n physicalIntId =
      .ok ({ d.record n with toInjectInterrupt := d.toInjectInterrupt ++ [entry] },
        { c with iccSgi1r := c.iccSgi1r ++ [sgi] })

/-- A step that writes another router register leaves the affinity of this one. -/
def Uninfluenced (n : ℕ) (s : State ι) (e : ι × Event) : Prop :=
  WritesOther n e.2 → ∀ s', step s e = .ok s' →
    SameAffinity (s'.distributor.router.getD n 0) (s.distributor.router.getD n 0)

/-- The affinity last written to the interrupt's register is the one it follows,
and no other router register had a part in it. -/
structure RoutingHonoured (start s : State ι) (events : List (ι × Event)) (n : ℕ) : Prop where
  honours : ∀ affinity, lastWritten n events = some affinity → Honours s.distributor n affinity
  uninfluenced : Runs.Along step (Uninfluenced n) start events

/-- The guest only uses affinity zero, for the interrupt and for the one 32 above it. -/
structure ZeroRouted (events : List (ι × Event)) (n : ℕ) : Prop where
  own : ∀ affinity, lastWritten n events = some affinity → SameAffinity affinity 0
  next : ∀ e ∈ events, ∀ offset value, e.2 = .writeDistributor offset 64 value →
    irouter (n + 32) ≤ offset → offset < irouter (n + 32) + 8 → offset ≤ irouter 1019 →
      SameAffinity value 0

theorem sameAffinity_refl (x : BitVec 64) : SameAffinity x x := ⟨rfl, rfl, rfl, rfl⟩

theorem sameAffinity_symm {x y : BitVec 64} (h : SameAffinity x y) : SameAffinity y x :=
  ⟨h.1.symm, h.2.1.symm, h.2.2.1.symm, h.2.2.2.symm⟩

theorem sameAffinity_trans {x y z : BitVec 64} (h : SameAffinity x y) (h' : SameAffinity y z) :
    SameAffinity x z :=
  ⟨h.1.trans h'.1, h.2.1.trans h'.2.1, h.2.2.1.trans h'.2.2.1, h.2.2.2.trans h'.2.2.2⟩

/-- What is stored in the router of an interrupt was written to the register of
the interrupt 32 above it. -/
theorem stored_eq_some {n : ℕ} {e : Event} {value : BitVec 64} :
    stored n e = some value ↔ ∃ offset, e = .writeDistributor offset 64 value ∧
      irouter (n + 32) ≤ offset ∧ offset < irouter (n + 32) + 8 ∧ offset ≤ irouter 1019 := by
  cases e with
  | writeDistributor offset accessWidth written =>
    have hindex : (GicDistributorMmio.inWindow offset gicdIrouter0 gicdIrouter1019 ∧
        (offset - gicdIrouter0) / 8 = n) ↔ irouter (n + 32) ≤ offset ∧
          offset < irouter (n + 32) + 8 ∧ offset ≤ irouter 1019 := by
      simp only [GicDistributorMmio.inWindow, gicdIrouter0, gicdIrouter1019, irouter]
      omega
    simp only [stored]
    constructor
    · intro h
      split_ifs at h with hin
      obtain ⟨⟨hwindow, rfl⟩, hn⟩ := hin
      cases h
      exact ⟨offset, rfl, hindex.mp ⟨hwindow, hn⟩⟩
    · rintro ⟨offset', heq, hrange⟩
      cases heq
      obtain ⟨hwindow, hn⟩ := hindex.mpr hrange
      rw [if_pos ⟨⟨hwindow, rfl⟩, hn⟩]
  | _ => simp [stored]

theorem writesOther_of_stored {n : ℕ} {e : Event} {value : BitVec 64}
    (h : stored n e = some value) : WritesOther n e := by
  obtain ⟨offset, rfl, hfirst, hlast, -⟩ := stored_eq_some.mp h
  exact ⟨n + 32, by omega, hfirst, hlast, rfl⟩

/-- While an interrupt follows affinity zero, a step is without influence exactly
when it stores no other affinity for it. -/
theorem uninfluenced_iff {s t : State ι} {e : ι × Event} {n : ℕ} (hstep : step s e = .ok t)
    (hzero : SameAffinity (s.distributor.router.getD n 0) 0) :
    Uninfluenced n s e ↔ ∀ value, stored n e.2 = some value → SameAffinity value 0 := by
  have hrouter := step_router hstep n
  constructor
  · intro h value hvalue
    have hsame := h (writesOther_of_stored hvalue) t hstep
    rw [hrouter, hvalue, Option.getD_some] at hsame
    exact sameAffinity_trans hsame hzero
  · intro h _ t' ht'
    cases hstep.symm.trans ht'
    rw [hrouter]
    cases hvalue : stored n e.2 with
    | none => exact sameAffinity_refl _
    | some value => exact sameAffinity_trans (h value hvalue) (sameAffinity_symm hzero)

/-- Over a whole run: no write to another router register has an influence exactly
when none stores an affinity other than zero, and then zero it stays. -/
theorem along_uninfluenced_iff {s s' : State ι} {events : List (ι × Event)} {n : ℕ}
    (hrun : Runs.run step s events = .ok s')
    (hzero : SameAffinity (s.distributor.router.getD n 0) 0) :
    (Runs.Along step (Uninfluenced n) s events ↔
        ∀ e ∈ events, ∀ value, stored n e.2 = some value → SameAffinity value 0) ∧
      (Runs.Along step (Uninfluenced n) s events →
        SameAffinity (s'.distributor.router.getD n 0) 0) := by
  induction events generalizing s with
  | nil =>
    cases hrun
    exact ⟨⟨fun _ e he => absurd he List.not_mem_nil, fun _ => trivial⟩, fun _ => hzero⟩
  | cons e events ih =>
    cases hstep : step s e with
    | error p => simp [Runs.run, hstep] at hrun
    | ok t =>
      rw [Runs.run_cons_ok events hstep] at hrun
      have hfirst := uninfluenced_iff hstep hzero
      have hnext : Uninfluenced n s e → SameAffinity (t.distributor.router.getD n 0) 0 := by
        intro h
        rw [step_router hstep n]
        cases hvalue : stored n e.2 with
        | none => exact hzero
        | some value => exact hfirst.mp h value hvalue
      constructor
      · constructor
        · rintro ⟨hone, hrest⟩ e' he'
          rcases List.mem_cons.mp he' with rfl | he'
          · exact hfirst.mp hone
          · exact (ih hrun (hnext hone)).1.mp (hrest t hstep) e' he'
        · intro hall
          have hone := hfirst.mpr (hall e List.mem_cons_self)
          exact Runs.along_cons_ok hstep hone
            ((ih hrun (hnext hone)).1.mpr fun e' he' => hall e' (List.mem_cons_of_mem e he'))
      · rintro ⟨hone, hrest⟩
        exact (ih hrun (hnext hone)).2 (hrest t hstep)

/-! ## What triggering a deliverable interrupt does -/

/-- A deliverable interrupt reaches the last part of `trigger_interrupt`. -/
theorem trigger_deliverable {d : GicDistributorMmio} {n : ℕ} (hn : n < 1020)
    (hd : Deliverable (d.record n) n) (c : CpuInterface) (physicalIntId : Option ℕ) :
    d.triggerInterrupt c n physicalIntId =
      if SameAffinity (d.router.getD n 0) c.mpidrEl1 then
        .ok (d.record n, addVirtualInterrupt c
          (createListRegisterEntry n (d.group.bit n).toNat (d.priorityOf n) physicalIntId))
      else do
        let c' ← sendSgi c (d.router.getD n 0)
        return ({ d.record n with toInjectInterrupt := d.toInjectInterrupt ++
          [createListRegisterEntry n (d.group.bit n).toNat (d.priorityOf n) physicalIntId] }, c') := by
  obtain ⟨hgroup, hare, -, henable, hmod⟩ := hd
  have hon : ¬ d.ctlr &&& gicdCtlrEnableGrp1ns = 0 := hgroup
  have hare' : ¬ (d.record n).ctlr &&& gicdCtlrAreS = 0 := hare
  have hidle : ¬ (d.enable.bit n = false ∨ d.groupModifier.bit n = true) := by
    rintro (h | h)
    · exact absurd (h.symm.trans henable) (by decide)
    · exact absurd (h.symm.trans hmod) (by decide)
  rw [GicDistributorMmio.triggerInterrupt_eq d c (by omega), if_neg hon, if_neg hidle, if_pos hn,
    GicDistributorMmio.deliver, if_neg hare']
  rfl

/-- The affinity that is honoured can only be the one of the router. -/
theorem honours_router {d : GicDistributorMmio} {n : ℕ} (hn : n < 1020)
    (hd : Deliverable (d.record n) n) {affinity : BitVec 64} (h : Honours d n affinity) :
    SameAffinity (d.router.getD n 0) affinity := by
  -- The CPU that has this affinity must get the interrupt itself.
  by_contra hne
  obtain ⟨c, hc⟩ : ∃ c : CpuInterface, c.mpidrEl1 = affinity := ⟨.reset affinity 0, rfl⟩
  have hlocal := h c none
  dsimp only at hlocal
  rw [hc, if_pos (sameAffinity_refl affinity), trigger_deliverable hn hd, hc,
    if_neg hne] at hlocal
  obtain ⟨c', -, hpair⟩ := Checked.bind_eq_ok.mp hlocal
  have hqueue := congrArg (fun x => x.1.toInjectInterrupt) (Except.ok.inj hpair)
  simp [GicDistributorMmio.record] at hqueue

theorem iccSgi1rValue_of_zero {x : BitVec 64} (h : SameAffinity x 0) :
    iccSgi1rValue x = iccSgi1rValue 0 := by
  rw [iccSgi1rValue, h.1, h.2.1, h.2.2.1, h.2.2.2]
  rfl

/-- The fields of an affinity, as the masks and shifts of the source cut them out. -/
theorem extract_of_zero {x : BitVec 64} (h : SameAffinity x 0) :
    x.extractLsb' 32 8 = 0 ∧ x.extractLsb' 16 8 = 0 ∧ x.extractLsb' 8 8 = 0 ∧
      x.extractLsb' 4 4 = 0 ∧ x.extractLsb' 0 4 = 0 := by
  have hfield : ∀ (mask : BitVec 64) (lo len : ℕ) (shift : ℕ),
      (∀ i, i < len → mask.getLsbD (lo + i) = true) → shift ≤ lo →
      (x &&& mask) >>> shift = 0 → x.extractLsb' lo len = 0 := by
    intro mask lo len shift hmask hle hx
    apply BitVec.eq_of_getLsbD_eq
    intro i hi
    have hbit := congrArg (fun y => y.getLsbD (lo - shift + i)) hx
    simp only [BitVec.getLsbD_ushiftRight, BitVec.getLsbD_and] at hbit
    rw [show shift + (lo - shift + i) = lo + i by omega, hmask i hi, Bool.and_true] at hbit
    simpa [hi] using hbit
  obtain ⟨h3, h2, h1, h0⟩ := h
  have h0' : (x &&& ((1 <<< 8) - 1)) >>> 0 = 0 := by
    rw [BitVec.ushiftRight_zero]
    exact h0
  exact ⟨hfield _ 32 8 32 (by decide) le_rfl h3, hfield _ 16 8 16 (by decide) le_rfl h2,
    hfield _ 8 8 8 (by decide) le_rfl h1, hfield _ 4 4 0 (by decide) (by decide) h0',
    hfield _ 0 4 0 (by decide) le_rfl h0'⟩

theorem sgiTargets_zero {x affinity : BitVec 64} (hx : SameAffinity x 0)
    (haffinity : SameAffinity affinity 0) : SgiTargets (iccSgi1rValue x) affinity := by
  rw [iccSgi1rValue_of_zero hx]
  obtain ⟨h3, h2, h1, hr, h0⟩ := extract_of_zero haffinity
  constructor
  · rw [h3]
    decide
  · rw [h2]
    decide
  · rw [h1]
    decide
  · rw [hr]
    decide
  · rw [h0]
    decide
  · decide

theorem honours_zero {d : GicDistributorMmio} {n : ℕ} (hn : n < 1020)
    (hd : Deliverable (d.record n) n) (hrouter : SameAffinity (d.router.getD n 0) 0)
    {affinity : BitVec 64} (haffinity : SameAffinity affinity 0) : Honours d n affinity := by
  intro c physicalIntId
  dsimp only
  rw [trigger_deliverable hn hd]
  have hsame := sameAffinity_trans hrouter (sameAffinity_symm haffinity)
  by_cases hlocal : SameAffinity affinity c.mpidrEl1
  · rw [if_pos hlocal, if_pos (sameAffinity_trans hsame hlocal)]
  · have hremote : ¬ SameAffinity (d.router.getD n 0) c.mpidrEl1 := fun h =>
      hlocal (sameAffinity_trans (sameAffinity_symm hsame) h)
    have haff : aff0 (d.router.getD n 0) < 16 := by
      rw [hrouter.2.2.2]
      decide
    rw [if_neg hlocal, if_neg hremote, sendSgi, if_pos haff]
    exact ⟨_, sgiTargets_zero hrouter haffinity, rfl⟩

/-- In every run, a deliverable shared interrupt is routed as the guest wrote it,
by its own register alone, exactly when only affinity zero is written. -/
theorem routing_honoured_iff (mpidrEl1 : ι → BitVec 64) (ichVtrEl2 : BitVec 64) (boot : ι)
    (events : List (ι × Event)) (s : State ι) (n : ℕ) (hn : IsSpi n)
    (hrun : Runs.run step (new mpidrEl1 ichVtrEl2 boot) events = .ok s)
    (hd : Deliverable (s.distributor.record n) n) :
    RoutingHonoured (new mpidrEl1 ichVtrEl2 boot) s events n ↔ ZeroRouted events n := by
  have hinit : SameAffinity ((new mpidrEl1 ichVtrEl2 boot).distributor.router.getD n 0) 0 := by
    simp only [new, GicDistributorMmio.new, FixedArray.getD_fill, ite_self]
    exact sameAffinity_refl 0
  obtain ⟨hiff, hzero⟩ := along_uninfluenced_iff hrun hinit
  have hnext : (∀ e ∈ events, ∀ value, stored n e.2 = some value → SameAffinity value 0) ↔
      ∀ e ∈ events, ∀ offset value, e.2 = .writeDistributor offset 64 value →
        irouter (n + 32) ≤ offset → offset < irouter (n + 32) + 8 → offset ≤ irouter 1019 →
          SameAffinity value 0 := by
    refine forall_congr' fun e => forall_congr' fun _ => ⟨fun h offset value he h1 h2 h3 =>
      h value (stored_eq_some.mpr ⟨offset, he, h1, h2, h3⟩), fun h value hvalue => ?_⟩
    obtain ⟨offset, he, h1, h2, h3⟩ := stored_eq_some.mp hvalue
    exact h offset value he h1 h2 h3
  constructor
  · rintro ⟨hhonours, hun⟩
    refine ⟨fun affinity hlast => ?_, hnext.mp (hiff.mp hun)⟩
    have hrouter := honours_router hn.2 hd (hhonours affinity hlast)
    exact sameAffinity_trans (sameAffinity_symm hrouter) (hzero hun)
  · rintro ⟨hown, hother⟩
    have hun := hiff.mpr (hnext.mpr hother)
    exact ⟨fun affinity hlast => honours_zero hn.2 hd (hzero hun) (hown affinity hlast), hun⟩

/-- The guest enables delivery, enables interrupt 40 and routes it. -/
def routeTo (affinity : BitVec 64) : List (Unit × Event) :=
  [((), .writeDistributor gicdCtlr 32 0x12), ((), .writeDistributor 0x104 32 0x100),
    ((), .writeDistributor (irouter 40) 64 affinity)]

theorem routing_honoured_zero :
    ∃ s, Runs.run step (new (fun _ => 0) 3 ()) (routeTo 0) = .ok s ∧
      Deliverable (s.distributor.record 40) 40 ∧
      RoutingHonoured (new (fun _ => 0) 3 ()) s (routeTo 0) 40 := by
  obtain ⟨s, hrun, hd⟩ : ∃ s, Runs.run step (new (fun _ => 0) 3 ()) (routeTo 0) = .ok s ∧
      Deliverable (s.distributor.record 40) 40 := ⟨_, rfl, by decide⟩
  refine ⟨s, hrun, hd, (routing_honoured_iff _ _ _ _ s 40 (by decide) hrun hd).mpr ⟨?_, ?_⟩⟩
  · intro affinity hlast
    cases hlast
    exact sameAffinity_refl 0
  · intro e he offset value heq hfirst
    simp only [routeTo, List.mem_cons, List.not_mem_nil, or_false] at he
    rcases he with rfl | rfl | rfl
    · cases heq
    · cases heq
    · cases heq
      exact absurd hfirst (by decide)

/-- Interrupt 40 is routed to the CPU of affinity 1 but follows affinity 0. -/
theorem routing_ignored :
    ¬ ∀ (mpidrEl1 : Unit → BitVec 64) (ichVtrEl2 : BitVec 64) (events : List (Unit × Event))
        (s : State Unit) (n : ℕ), IsSpi n →
      Runs.run step (new mpidrEl1 ichVtrEl2 ()) events = .ok s →
      Deliverable (s.distributor.record n) n →
      RoutingHonoured (new mpidrEl1 ichVtrEl2 ()) s events n := by
  intro h
  obtain ⟨s, hrun, hd, hrouter⟩ : ∃ s, Runs.run step (new (fun _ => 0) 3 ()) (routeTo 1) = .ok s ∧
      Deliverable (s.distributor.record 40) 40 ∧ s.distributor.router.getD 40 0 = 0 :=
    ⟨_, rfl, by decide, by decide⟩
  have hhonours := (h _ _ _ s 40 (by decide) hrun hd).honours 1 (by decide)
  have hsame := honours_router (by decide) hd hhonours
  rw [hrouter] at hsame
  exact absurd hsame (by decide)

end Min1visor.Vgic
