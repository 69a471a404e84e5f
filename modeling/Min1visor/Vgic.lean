import Min1visor.Gicv3Mmio

/-!
# Delivery of virtual interrupts

The virtual GIC of one machine: its distributor, its redistributor and the CPU
interfaces it runs on. Any of its operations may run on any of the CPUs. What is
followed through a run is where a deliverable interrupt is: in a list register,
in the queue of the distributor, or already ended by the guest.
-/
namespace Min1visor.Vgic
open Vgicv3 Gicv3Mmio

variable {ι : Type} [DecidableEq ι]

/-- The virtual GIC. The last field is history: the interrupts the guest has
ended since the distributor last recorded them as pending. -/
structure State (ι : Type) where
  distributor : GicDistributorMmio
  redistributor : GicRedistributorMmio
  cpu : ι → CpuInterface
  ended : ℕ → Bool

def new (mpidrEl1 : ι → BitVec 64) (ichVtrEl2 : BitVec 64) (boot : ι) : State ι where
  distributor := .new
  redistributor := .new (mpidrEl1 boot)
  cpu k := .reset (mpidrEl1 k) ichVtrEl2
  ended _ := false

/-- What the maintenance handler does with one ended list register: the record of
its interrupt is cleared and the register emptied. -/
def recycle (d : GicDistributorMmio) (r : GicRedistributorMmio) (c : CpuInterface) (i : ℕ) :
    Except Panic (GicDistributorMmio × GicRedistributorMmio × CpuInterface) := do
  let intId := (vintid (c.lr i)).toNat
  if intId ≥ 32 then
    let d ← d.changePendingStatus intId false
    let d ← d.changeActiveStatus intId false
    return (d, r, c.setLr i 0)
  else
    let r ← r.changePendingStatus intId false
    let r ← r.changeActiveStatus intId false
    return (d, r, c.setLr i 0)

/-- The loop of the maintenance handler, from register `i` with `n` left. The
ended registers were read into `eoiBits` before the loop. -/
def maintenanceFrom (eoiBits : ℕ → Bool) : ℕ → ℕ → GicDistributorMmio → GicRedistributorMmio →
    CpuInterface → Except Panic (GicDistributorMmio × GicRedistributorMmio × CpuInterface)
  | 0, _, d, r, c => .ok (d, r, c)
  | n + 1, i, d, r, c =>
    if eoiBits i then do
      let (d, r, c) ← recycle d r c i
      maintenanceFrom eoiBits n (i + 1) d r c
    else maintenanceFrom eoiBits n (i + 1) d r c

def maintenanceInterruptHandler (d : GicDistributorMmio) (r : GicRedistributorMmio)
    (c : CpuInterface) : Except Panic (GicDistributorMmio × GicRedistributorMmio × CpuInterface) :=
  maintenanceFrom c.ichEisr c.supportedLrn 0 d r c

/-- Both queues are emptied into the list registers, in order. -/
def injectInterruptHandler (d : GicDistributorMmio) (r : GicRedistributorMmio) (c : CpuInterface) :
    GicDistributorMmio × GicRedistributorMmio × CpuInterface :=
  let c := d.toInjectInterrupt.foldl addVirtualInterrupt c
  let c := r.toInjectInterrupt.foldl addVirtualInterrupt c
  ({ d with toInjectInterrupt := [] }, { r with toInjectInterrupt := [] }, c)

inductive Event
  | trigger (intId : ℕ) (physicalIntId : Option ℕ)
  | triggerPrivate (intId : ℕ) (physicalIntId : Option ℕ)
  | writeDistributor (offset accessWidth : ℕ) (value : BitVec 64)
  | writeRedistributor (offset accessWidth : ℕ) (value : BitVec 64)
  | acknowledge (i : ℕ)
  | endOfInterrupt (i : ℕ)
  | maintenance
  | inject

/-- The event records interrupt `n` as pending in the distributor. -/
def Event.raises (n : ℕ) : Event → Bool
  | .trigger intId _ => n = intId
  | .writeDistributor offset accessWidth value =>
    decide (GicDistributorMmio.inWindow offset gicdIspendr0 gicdIspendr31) &&
      accessWidth == 32 && n / 32 == (offset - gicdIspendr0) / 4 && value.getLsbD (n % 32)
  | _ => false

/-- Ending list register `i` leaves it inactive, so that interrupt `n` is done. -/
def finishes (c : CpuInterface) (i n : ℕ) : Bool :=
  !isInactive (c.lr i) && isInactive ((c.endOfInterrupt i).lr i) &&
    vintid (c.lr i) == BitVec.ofNat 64 n

/-- The history after an event on a CPU. -/
def endedAfter (s : State ι) (k : ι) (e : Event) (n : ℕ) : Bool :=
  match e with
  | .endOfInterrupt i => s.ended n || finishes (s.cpu k) i n
  | _ => s.ended n && !e.raises n

/-- One event, on CPU `k`. -/
def step (s : State ι) : ι × Event → Except Panic (State ι)
  | (k, e) => do
    let ended := endedAfter s k e
    match e with
    | .trigger intId physicalIntId =>
      let (d, c) ← s.distributor.triggerInterrupt (s.cpu k) intId physicalIntId
      return ⟨d, s.redistributor, Function.update s.cpu k c, ended⟩
    | .triggerPrivate intId physicalIntId =>
      let (r, c) ← s.redistributor.triggerInterrupt (s.cpu k) intId physicalIntId
      return ⟨s.distributor, r, Function.update s.cpu k c, ended⟩
    | .writeDistributor offset accessWidth value =>
      let (d, c) ← s.distributor.write (s.cpu k) offset accessWidth value
      return ⟨d, s.redistributor, Function.update s.cpu k c, ended⟩
    | .writeRedistributor offset accessWidth value =>
      let (r, c) ← s.redistributor.write (s.cpu k) offset accessWidth value
      return ⟨s.distributor, r, Function.update s.cpu k c, ended⟩
    | .acknowledge i =>
      return ⟨s.distributor, s.redistributor,
        Function.update s.cpu k ((s.cpu k).acknowledge i), ended⟩
    | .endOfInterrupt i =>
      return ⟨s.distributor, s.redistributor,
        Function.update s.cpu k ((s.cpu k).endOfInterrupt i), ended⟩
    | .maintenance =>
      let (d, r, c) ← maintenanceInterruptHandler s.distributor s.redistributor (s.cpu k)
      return ⟨d, r, Function.update s.cpu k c, ended⟩
    | .inject =>
      let (d, r, c) := injectInterruptHandler s.distributor s.redistributor (s.cpu k)
      return ⟨d, r, Function.update s.cpu k c, ended⟩

/-! ## Where an interrupt is -/

/-- The distributor is enabled for it and records it as pending and enabled. -/
def Deliverable (d : GicDistributorMmio) (n : ℕ) : Prop :=
  d.ctlr &&& gicdCtlrEnableGrp1ns ≠ 0 ∧ d.ctlr &&& gicdCtlrAreS ≠ 0 ∧ d.pending.bit n = true ∧
    d.enable.bit n = true ∧ d.groupModifier.bit n = false

instance (d : GicDistributorMmio) (n : ℕ) : Decidable (Deliverable d n) :=
  inferInstanceAs (Decidable (_ ∧ _ ∧ _ ∧ _ ∧ _))

/-- A list register that is not inactive holds it. -/
def Held (c : CpuInterface) (n : ℕ) : Prop :=
  ∃ i, i < 3 ∧ isInactive (c.lr i) = false ∧ vintid (c.lr i) = BitVec.ofNat 64 n

instance (c : CpuInterface) (n : ℕ) : Decidable (Held c n) :=
  inferInstanceAs (Decidable (∃ i, i < 3 ∧ _ ∧ _))

/-- A pending entry for it waits in the distributor. -/
def Queued (d : GicDistributorMmio) (n : ℕ) : Prop :=
  ∃ entry ∈ d.toInjectInterrupt, isInactive entry = false ∧ vintid entry = BitVec.ofNat 64 n

/-- It is in a list register, queued, or done by the guest. -/
def Carried (s : State ι) (n : ℕ) : Prop :=
  (∃ k, Held (s.cpu k) n) ∨ Queued s.distributor n ∨ s.ended n = true

/-- The shared peripheral interrupts. -/
def IsSpi (n : ℕ) : Prop := 32 ≤ n ∧ n < 1020

instance (n : ℕ) : Decidable (IsSpi n) := inferInstanceAs (Decidable (_ ∧ _))

/-- It is deliverable, yet neither in a list register nor queued. -/
def Missing (s : State ι) (n : ℕ) : Prop :=
  IsSpi n ∧ Deliverable s.distributor n ∧ (∀ k, ¬ Held (s.cpu k) n) ∧ ¬ Queued s.distributor n

def putGroupModifier (d : GicDistributorMmio) (i : ℕ) (value : BitVec 32) : GicDistributorMmio :=
  { d with groupModifier := d.groupModifier.put i value }

/-- Rewriting the control register or the group modifiers does not turn on the
delivery of an interrupt that is not carried yet. -/
def NoLateEnable (s : State ι) : ι × Event → Prop
  | (_, .writeDistributor offset accessWidth value) =>
    (offset = gicdCtlr ∧ accessWidth = 32 → ∀ n, IsSpi n →
      Deliverable { s.distributor with ctlr := value.setWidth 32 } n → Carried s n) ∧
    (GicDistributorMmio.inWindow offset gicdIgrpmodr0 gicdIgrpmodr31 ∧ accessWidth = 32 →
      ∀ n, IsSpi n →
        Deliverable (putGroupModifier s.distributor ((offset - gicdIgrpmodr0) / 4) (value.setWidth 32)) n → Carried s n)
  | _ => True

end Min1visor.Vgic
