import Min1visor.Library.FixedArray
import Min1visor.Library.Runs

/-!
# List registers of the virtual GICv3

The hypervisor places virtual interrupts in at most three list registers of the
CPU interface. The hardware moves an entry from pending to active when the guest
acknowledges it and from active to inactive when the guest ends it; an ended
entry with the EOI bit raises the maintenance interrupt, whose handler empties
the register.
-/
namespace Min1visor.Vgicv3

def ichVtrEl2ListRegs : BitVec 64 := 0b11111
def ichLrnEl2Status : BitVec 64 := 0b11 <<< 62
def ichLrnEl2StatusInactive : BitVec 64 := 0b00 <<< 62
def ichLrnEl2StatusPending : BitVec 64 := 0b01 <<< 62
/-- The active state of the architecture, which the code never writes itself. -/
def ichLrnEl2StatusActive : BitVec 64 := 0b10 <<< 62
def ichLrnEl2Hw : BitVec 64 := 1 <<< 61
def ichLrnEl2Eoi : BitVec 64 := 1 <<< 41
def ichLrnEl2Vintid : BitVec 64 := (1 <<< 32) - 1

/-- The system registers of the executing CPU that the virtual GIC uses. The
writes of `ICC_SGI1R_EL1` and the overflow warnings are kept as they happen. -/
structure CpuInterface where
  mpidrEl1 : BitVec 64
  ichVtrEl2 : BitVec 64
  ichLr : FixedArray (BitVec 64) 3
  iccSgi1r : List (BitVec 64)
  overflows : ℕ

/-- Number of list registers that are both implemented and supported. -/
def CpuInterface.supportedLrn (c : CpuInterface) : ℕ :=
  min ((c.ichVtrEl2 &&& ichVtrEl2ListRegs).toNat + 1) 3

def CpuInterface.lr (c : CpuInterface) (i : ℕ) : BitVec 64 := c.ichLr.getD i 0

def CpuInterface.setLr (c : CpuInterface) (i : ℕ) (entry : BitVec 64) : CpuInterface :=
  { c with ichLr := c.ichLr.put i entry }

def createListRegisterEntry (intId group priority : ℕ) (physicalIntId : Option ℕ) : BitVec 64 :=
  let entry := ichLrnEl2StatusPending ||| (BitVec.ofNat 64 group <<< 60) |||
    (BitVec.ofNat 64 priority <<< 48) ||| BitVec.ofNat 64 intId
  match physicalIntId with
  | some pIntId => entry ||| (ichLrnEl2Hw ||| (BitVec.ofNat 64 pIntId <<< 32))
  | none => entry ||| ichLrnEl2Eoi

/-- The entry's state is inactive. -/
def isInactive (entry : BitVec 64) : Bool := entry &&& ichLrnEl2Status = ichLrnEl2StatusInactive

/-- The virtual interrupt an entry is about. -/
def vintid (entry : BitVec 64) : BitVec 64 := entry &&& ichLrnEl2Vintid

/-- The scan over the list registers, from register `i` with `n` left: the first
one that is inactive is taken, the first one with the same interrupt is merged,
whichever comes first. -/
def addVirtualInterruptFrom (entry : BitVec 64) : ℕ → ℕ → CpuInterface → CpuInterface
  | 0, _, c => { c with overflows := c.overflows + 1 }
  | n + 1, i, c =>
    if isInactive (c.lr i) then c.setLr i entry
    else if vintid (c.lr i) = vintid entry then c.setLr i (c.lr i ||| ichLrnEl2StatusPending)
    else addVirtualInterruptFrom entry n (i + 1) c

def addVirtualInterrupt (c : CpuInterface) (entry : BitVec 64) : CpuInterface :=
  addVirtualInterruptFrom entry c.supportedLrn 0 c

/-! ## Hardware steps -/

/-- `ICH_EISR_EL2`: the register ended, is not tied to a physical interrupt and
asks for maintenance. -/
def CpuInterface.ichEisr (c : CpuInterface) (i : ℕ) : Bool :=
  isInactive (c.lr i) && (c.lr i &&& ichLrnEl2Hw == 0) && (c.lr i &&& ichLrnEl2Eoi != 0)

/-- The guest acknowledges the entry: pending becomes active. -/
def CpuInterface.acknowledge (c : CpuInterface) (i : ℕ) : CpuInterface :=
  if c.lr i &&& ichLrnEl2Status = ichLrnEl2StatusPending then
    c.setLr i ((c.lr i &&& ~~~ichLrnEl2Status) ||| ichLrnEl2StatusActive)
  else c

/-- The guest ends the entry: active becomes inactive, and active-and-pending
becomes pending. -/
def CpuInterface.endOfInterrupt (c : CpuInterface) (i : ℕ) : CpuInterface :=
  if c.lr i &&& ichLrnEl2StatusActive ≠ 0 then
    c.setLr i (c.lr i &&& ~~~ichLrnEl2StatusActive)
  else c

/-- What the maintenance handler does to the list registers, from register `i`
with `n` left: each one that `eisr` names is emptied. -/
def clearEnded (eisr : ℕ → Bool) : ℕ → ℕ → CpuInterface → CpuInterface
  | 0, _, c => c
  | n + 1, i, c => clearEnded eisr n (i + 1) (if eisr i then c.setLr i 0 else c)

/-! ## Uniqueness of the interrupts held -/

inductive LrEvent
  | add (entry : BitVec 64)
  | acknowledge (i : ℕ)
  | endOfInterrupt (i : ℕ)
  | maintenance

def lrStep (c : CpuInterface) : LrEvent → Except Panic CpuInterface
  | .add entry => .ok (addVirtualInterrupt c entry)
  | .acknowledge i => .ok (c.acknowledge i)
  | .endOfInterrupt i => .ok (c.endOfInterrupt i)
  | .maintenance => .ok (clearEnded c.ichEisr c.supportedLrn 0 c)

/-- No two list registers that are not inactive hold the same interrupt. -/
def Unique (c : CpuInterface) : Prop :=
  ∀ i j, i < 3 → j < 3 → i ≠ j → isInactive (c.lr i) = false → isInactive (c.lr j) = false →
    vintid (c.lr i) ≠ vintid (c.lr j)

/-- The interrupt added is not held behind a free register: below a supported
register that holds it, every register is in use. -/
def NoGap (c : CpuInterface) : LrEvent → Prop
  | .add entry => ∀ j, j < c.supportedLrn → isInactive (c.lr j) = false →
      vintid (c.lr j) = vintid entry → ∀ i, i < j → isInactive (c.lr i) = false
  | _ => True

/-! ### Entries bit by bit -/

theorem getLsbD_vintid (entry : BitVec 64) (i : ℕ) :
    (vintid entry).getLsbD i = (entry.getLsbD i && decide (i < 32)) := by
  have hmask : ichLrnEl2Vintid = (BitVec.allOnes 32).setWidth 64 := by decide
  rw [vintid, BitVec.getLsbD_and, hmask, BitVec.getLsbD_setWidth, BitVec.getLsbD_allOnes]
  by_cases h : i < 32
  · simp [h, show i < 64 by omega]
  · simp [h]

theorem vintid_congr {e f : BitVec 64} (h : ∀ i, i < 32 → e.getLsbD i = f.getLsbD i) :
    vintid e = vintid f := by
  apply BitVec.eq_of_getLsbD_eq
  intro i _
  rw [getLsbD_vintid, getLsbD_vintid]
  by_cases hi : i < 32
  · rw [h i hi]
  · simp [hi]

/-- Only the two state bits decide whether an entry is inactive. -/
theorem isInactive_iff (entry : BitVec 64) :
    isInactive entry = true ↔ entry.getLsbD 62 = false ∧ entry.getLsbD 63 = false := by
  have hmask : ∀ i, i < 64 → ichLrnEl2Status.getLsbD i = (decide (i = 62) || decide (i = 63)) := by
    decide
  simp only [isInactive, decide_eq_true_eq]
  constructor
  · intro h
    have hbit (i : ℕ) : (entry &&& ichLrnEl2Status).getLsbD i = false := by
      rw [h]
      simp [ichLrnEl2StatusInactive]
    have h62 := hbit 62
    have h63 := hbit 63
    rw [BitVec.getLsbD_and, hmask _ (by decide)] at h62 h63
    simpa using And.intro h62 h63
  · rintro ⟨h62, h63⟩
    apply BitVec.eq_of_getLsbD_eq
    intro i hi
    rw [BitVec.getLsbD_and, hmask i hi]
    by_cases h1 : i = 62
    · rw [h1, h62]
      rfl
    · by_cases h2 : i = 63
      · rw [h2, h63]
        rfl
      · simp [h1, h2, ichLrnEl2StatusInactive]

theorem isInactive_eq_false {entry : BitVec 64} :
    isInactive entry = false ↔ entry.getLsbD 62 = true ∨ entry.getLsbD 63 = true := by
  rw [← Bool.not_eq_true, isInactive_iff]
  cases entry.getLsbD 62 <;> cases entry.getLsbD 63 <;> simp

theorem getLsbD_status {i : ℕ} (hi : i < 62) :
    ichLrnEl2Status.getLsbD i = false ∧ ichLrnEl2StatusPending.getLsbD i = false ∧
      ichLrnEl2StatusActive.getLsbD i = false := by
  have h : ∀ i, i < 62 → ichLrnEl2Status.getLsbD i = false ∧
      ichLrnEl2StatusPending.getLsbD i = false ∧
      ichLrnEl2StatusActive.getLsbD i = false := by decide
  exact h i hi

/-- Marking an entry pending leaves it about the same interrupt, and not inactive. -/
theorem merge_entry (entry : BitVec 64) :
    vintid (entry ||| ichLrnEl2StatusPending) = vintid entry ∧
      isInactive (entry ||| ichLrnEl2StatusPending) = false := by
  constructor
  · apply vintid_congr
    intro i hi
    simp [(getLsbD_status (show i < 62 by omega)).2.1]
  · rw [isInactive_eq_false]
    left
    rw [BitVec.getLsbD_or, show ichLrnEl2StatusPending.getLsbD 62 = true by decide, Bool.or_true]

theorem acknowledge_entry (entry : BitVec 64) :
    vintid ((entry &&& ~~~ichLrnEl2Status) ||| ichLrnEl2StatusActive) = vintid entry := by
  apply vintid_congr
  intro i hi
  obtain ⟨h1, _, h2⟩ := getLsbD_status (show i < 62 by omega)
  rw [BitVec.getLsbD_or, BitVec.getLsbD_and, BitVec.getLsbD_not, h1, h2]
  simp [show i < 64 by omega]

theorem endOfInterrupt_entry (entry : BitVec 64) :
    vintid (entry &&& ~~~ichLrnEl2StatusActive) = vintid entry := by
  apply vintid_congr
  intro i hi
  rw [BitVec.getLsbD_and, BitVec.getLsbD_not, (getLsbD_status (show i < 62 by omega)).2.2]
  simp [show i < 64 by omega]

@[simp] theorem isInactive_zero : isInactive 0#64 = true := by decide

/-! ### Single registers -/

theorem CpuInterface.lr_setLr (c : CpuInterface) {i : ℕ} (hi : i < 3) (entry : BitVec 64) (j : ℕ) :
    (c.setLr i entry).lr j = if j = i then entry else c.lr j :=
  FixedArray.getD_put c.ichLr i j entry 0 hi

theorem CpuInterface.lr_of_le (c : CpuInterface) {i : ℕ} (hi : 3 ≤ i) : c.lr i = 0 := by
  simp [CpuInterface.lr, FixedArray.getD, show ¬ i < 3 by omega]

@[simp] theorem supportedLrn_setLr (c : CpuInterface) (i : ℕ) (entry : BitVec 64) :
    (c.setLr i entry).supportedLrn = c.supportedLrn := rfl

theorem supportedLrn_le (c : CpuInterface) : c.supportedLrn ≤ 3 := min_le_right _ _

/-- The register is in use by another interrupt than the entry's. -/
def Busy (c : CpuInterface) (entry : BitVec 64) (i : ℕ) : Prop :=
  isInactive (c.lr i) = false ∧ vintid (c.lr i) ≠ vintid entry

/-- The three ways the scan ends. -/
inductive Added (c : CpuInterface) (entry : BitVec 64) : CpuInterface → Prop
  | taken {i : ℕ} (hi : i < c.supportedLrn) (hbelow : ∀ k, k < i → Busy c entry k)
      (hfree : isInactive (c.lr i) = true) : Added c entry (c.setLr i entry)
  | merged {i : ℕ} (hi : i < c.supportedLrn) (hbelow : ∀ k, k < i → Busy c entry k)
      (hused : isInactive (c.lr i) = false) (hsame : vintid (c.lr i) = vintid entry) :
      Added c entry (c.setLr i (c.lr i ||| ichLrnEl2StatusPending))
  | overflow (hall : ∀ k, k < c.supportedLrn → Busy c entry k) :
      Added c entry { c with overflows := c.overflows + 1 }

theorem addVirtualInterruptFrom_spec (c : CpuInterface) (entry : BitVec 64) (n i : ℕ)
    (hn : i + n = c.supportedLrn) (hbelow : ∀ k, k < i → Busy c entry k) :
    Added c entry (addVirtualInterruptFrom entry n i c) := by
  induction n generalizing i with
  | zero => exact .overflow fun k hk => hbelow k (by omega)
  | succ n ih =>
    simp only [addVirtualInterruptFrom]
    by_cases hfree : isInactive (c.lr i) = true
    · rw [if_pos hfree]
      exact .taken (by omega) hbelow hfree
    · rw [if_neg hfree]
      have hused : isInactive (c.lr i) = false := by simpa using hfree
      by_cases hsame : vintid (c.lr i) = vintid entry
      · rw [if_pos hsame]
        exact .merged (by omega) hbelow hused hsame
      · rw [if_neg hsame]
        apply ih (i + 1) (by omega)
        intro k hk
        by_cases hki : k = i
        · exact hki ▸ ⟨hused, hsame⟩
        · exact hbelow k (by omega)

theorem addVirtualInterrupt_spec (c : CpuInterface) (entry : BitVec 64) :
    Added c entry (addVirtualInterrupt c entry) :=
  addVirtualInterruptFrom_spec c entry c.supportedLrn 0 (Nat.zero_add _) (by simp)

theorem clearEnded_lr (eisr : ℕ → Bool) (n i : ℕ) (c : CpuInterface) (hn : i + n ≤ 3) (j : ℕ) :
    (clearEnded eisr n i c).lr j =
      if i ≤ j ∧ j < i + n ∧ eisr j = true then 0 else c.lr j := by
  induction n generalizing i c with
  | zero => simp [clearEnded, show ¬ (i ≤ j ∧ j < i ∧ eisr j = true) by omega]
  | succ n ih =>
    simp only [clearEnded]
    rw [ih (i + 1) _ (by omega)]
    by_cases he : eisr i = true
    · rw [if_pos he, c.lr_setLr (by omega)]
      by_cases hj : j = i
      · subst hj
        simp [he]
      · have h1 : i + 1 ≤ j ↔ i ≤ j := by omega
        have h2 : j < i + 1 + n ↔ j < i + (n + 1) := by omega
        simp only [if_neg hj, h1, h2]
    · rw [if_neg he]
      by_cases hj : j = i
      · subst hj
        simp [he]
      · have h1 : i + 1 ≤ j ↔ i ≤ j := by omega
        have h2 : j < i + 1 + n ↔ j < i + (n + 1) := by omega
        simp only [h1, h2]

@[simp] theorem supportedLrn_clearEnded (eisr : ℕ → Bool) (n i : ℕ) (c : CpuInterface) :
    (clearEnded eisr n i c).supportedLrn = c.supportedLrn := by
  induction n generalizing i c with
  | zero => rfl
  | succ n ih =>
    simp only [clearEnded]
    rw [ih]
    split_ifs <;> rfl

/-! ### The invariant over runs -/

/-- Uniqueness, with the registers the hardware does not implement unused. -/
structure UniqueInv (c : CpuInterface) : Prop where
  unique : Unique c
  unsupported : ∀ i, c.supportedLrn ≤ i → isInactive (c.lr i) = true

/-- A step after which every register in use was in use before, by the same
interrupt, keeps the invariant. -/
theorem UniqueInv.shrink {c c' : CpuInterface} (h : UniqueInv c)
    (hsup : c'.supportedLrn = c.supportedLrn)
    (hlr : ∀ i, isInactive (c'.lr i) = false →
      isInactive (c.lr i) = false ∧ vintid (c'.lr i) = vintid (c.lr i)) : UniqueInv c' where
  unique i j hi hj hne hai haj := by
    obtain ⟨hci, hvi⟩ := hlr i hai
    obtain ⟨hcj, hvj⟩ := hlr j haj
    rw [hvi, hvj]
    exact h.unique i j hi hj hne hci hcj
  unsupported i hi := by
    by_contra hc
    have hold := (hlr i (by simpa using hc)).1
    rw [h.unsupported i (hsup ▸ hi)] at hold
    cases hold

/-- Rewriting one register in place, about the same interrupt. -/
theorem UniqueInv.setLr {c : CpuInterface} (h : UniqueInv c) {i : ℕ} (hi : i < 3)
    {entry : BitVec 64} (hentry : isInactive entry = false →
      isInactive (c.lr i) = false ∧ vintid entry = vintid (c.lr i)) :
    UniqueInv (c.setLr i entry) := by
  refine h.shrink (supportedLrn_setLr c i entry) ?_
  intro j hj
  rw [c.lr_setLr hi] at hj ⊢
  by_cases hji : j = i
  · subst hji
    rw [if_pos rfl] at hj ⊢
    exact hentry hj
  · rw [if_neg hji] at hj ⊢
    exact ⟨hj, rfl⟩

theorem UniqueInv.add {c : CpuInterface} (h : UniqueInv c) (entry : BitVec 64)
    (hgap : NoGap c (.add entry)) : UniqueInv (addVirtualInterrupt c entry) := by
  have hsup3 := supportedLrn_le c
  have hadd := addVirtualInterrupt_spec c entry
  generalize addVirtualInterrupt c entry = c' at hadd
  cases hadd with
  | @taken i hi hbelow hfree =>
    -- Nothing else in use holds the entry's interrupt.
    have hother : ∀ j, j ≠ i → isInactive (c.lr j) = false → vintid (c.lr j) ≠ vintid entry := by
      intro j hj hused hsame
      have hjs : j < c.supportedLrn := by
        by_contra hc
        rw [h.unsupported j (by omega)] at hused
        cases hused
      rcases Nat.lt_or_gt_of_ne hj with hlt | hgt
      · exact (hbelow j hlt).2 hsame
      · have hbusy := hgap j hjs hused hsame i hgt
        rw [hfree] at hbusy
        cases hbusy
    constructor
    · intro a b _ _ hab hua hub
      rw [c.lr_setLr (by omega)] at hua hub ⊢
      rw [c.lr_setLr (by omega)]
      by_cases ha : a = i
      · have hb : b ≠ i := fun hb => hab (ha.trans hb.symm)
        rw [if_neg hb] at hub ⊢
        rw [if_pos ha]
        exact Ne.symm (hother b hb hub)
      · rw [if_neg ha] at hua ⊢
        by_cases hb : b = i
        · rw [if_pos hb]
          exact hother a ha hua
        · rw [if_neg hb] at hub ⊢
          exact h.unique a b ‹_› ‹_› hab hua hub
    · intro j hj
      rw [c.lr_setLr (by omega), if_neg (by simp at hj; omega)]
      exact h.unsupported j hj
  | @merged i hi hbelow hused hsame =>
    exact h.setLr (by omega) fun _ => ⟨hused, (merge_entry _).1⟩
  | overflow hall => exact ⟨h.unique, h.unsupported⟩

theorem UniqueInv.acknowledge {c : CpuInterface} (h : UniqueInv c) (i : ℕ) :
    UniqueInv (c.acknowledge i) := by
  unfold CpuInterface.acknowledge
  split_ifs with hp
  · by_cases hi : i < 3
    · have hused : isInactive (c.lr i) = false := by
        simp only [isInactive, hp]
        decide
      exact h.setLr hi fun _ => ⟨hused, acknowledge_entry _⟩
    · rw [c.lr_of_le (by omega)] at hp
      exact absurd hp (by decide)
  · exact h

theorem UniqueInv.endOfInterrupt {c : CpuInterface} (h : UniqueInv c) (i : ℕ) :
    UniqueInv (c.endOfInterrupt i) := by
  unfold CpuInterface.endOfInterrupt
  split_ifs with hp
  · by_cases hi : i < 3
    · refine h.setLr hi fun hj => ⟨?_, endOfInterrupt_entry _⟩
      rw [isInactive_eq_false, BitVec.getLsbD_and, BitVec.getLsbD_and] at hj
      rw [isInactive_eq_false]
      exact hj.imp (fun h => (Bool.and_eq_true_iff.mp h).1) fun h => (Bool.and_eq_true_iff.mp h).1
    · rw [c.lr_of_le (by omega)] at hp
      exact absurd hp (by decide)
  · exact h

theorem UniqueInv.maintenance {c : CpuInterface} (h : UniqueInv c) :
    UniqueInv (clearEnded c.ichEisr c.supportedLrn 0 c) := by
  apply h.shrink (supportedLrn_clearEnded _ _ _ _)
  intro j hj
  rw [clearEnded_lr _ _ _ _ (by have := supportedLrn_le c; omega)] at hj ⊢
  split_ifs at hj ⊢ with hc
  · simp at hj
  · exact ⟨hj, rfl⟩

/-- The CPU interface before any virtual interrupt. -/
def CpuInterface.reset (mpidrEl1 ichVtrEl2 : BitVec 64) : CpuInterface :=
  ⟨mpidrEl1, ichVtrEl2, FixedArray.fill 3 0, [], 0⟩

theorem UniqueInv.reset (mpidrEl1 ichVtrEl2 : BitVec 64) :
    UniqueInv (CpuInterface.reset mpidrEl1 ichVtrEl2) := by
  have hlr : ∀ i, (CpuInterface.reset mpidrEl1 ichVtrEl2).lr i = 0 := by
    intro i
    simp [CpuInterface.lr, CpuInterface.reset]
  constructor
  · intro i j _ _ _ hi
    simp [hlr i] at hi
  · intro i _
    simp [hlr i]

/-- In every run in which no interrupt is added while it is held behind a free
register, the list registers in use hold distinct interrupts. -/
theorem run_unique (mpidrEl1 ichVtrEl2 : BitVec 64) (events : List LrEvent)
    (h : Runs.Along lrStep NoGap (CpuInterface.reset mpidrEl1 ichVtrEl2) events) :
    ∃ c, Runs.run lrStep (CpuInterface.reset mpidrEl1 ichVtrEl2) events = .ok c ∧ Unique c := by
  have hstep : ∀ c e, UniqueInv c → NoGap c e → ∃ c', lrStep c e = .ok c' ∧ UniqueInv c' := by
    intro c e hinv hgap
    cases e with
    | add entry => exact ⟨_, rfl, hinv.add entry hgap⟩
    | acknowledge i => exact ⟨_, rfl, hinv.acknowledge i⟩
    | endOfInterrupt i => exact ⟨_, rfl, hinv.endOfInterrupt i⟩
    | maintenance => exact ⟨_, rfl, hinv.maintenance⟩
  obtain ⟨c, hrun, hinv⟩ := Runs.run_total UniqueInv hstep events _ (.reset _ _) h
  exact ⟨c, hrun, hinv.unique⟩

theorem run_unique_two_interrupts :
    ∃ c, Runs.run lrStep (CpuInterface.reset 0 3)
        [.add (createListRegisterEntry 40 1 0 none), .add (createListRegisterEntry 41 1 0 none),
          .acknowledge 1, .add (createListRegisterEntry 41 1 0 none), .endOfInterrupt 1,
          .maintenance] = .ok c ∧ Unique c :=
  run_unique 0 3 _ (by
    simp only [Runs.Along, lrStep, NoGap, Except.ok.injEq, forall_eq', true_and, and_true]
    decide)

/-- Interrupt 41 sits in register 1 when register 0 is freed; raising it again
fills register 0 and leaves it in both. -/
theorem unique_breaks :
    ∃ c, Runs.run lrStep (CpuInterface.reset 0 3)
        [.add (createListRegisterEntry 40 1 0 none), .add (createListRegisterEntry 41 1 0 none),
          .acknowledge 0, .endOfInterrupt 0, .maintenance,
          .add (createListRegisterEntry 41 1 0 none)] = .ok c ∧ ¬ Unique c :=
  ⟨_, rfl, fun h => h 0 1 (by decide) (by decide) (by decide) (by decide) (by decide)
    (by decide)⟩

end Min1visor.Vgicv3
