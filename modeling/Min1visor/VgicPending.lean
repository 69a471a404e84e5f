import Min1visor.VgicHandover
import Min1visor.Library.BitSet

/-!
# What the operations of the virtual GIC record as pending

Each operation newly records, queues or places only the interrupts that it triggers. An
entry that it makes is either tied to a physical interrupt or asks for maintenance at
its end.
-/
namespace Min1visor.Vgic
open Vgicv3 Gicv3Mmio

/-- The event triggers interrupt `n` or sets it pending. -/
def Event.sets (n : ℕ) : Event → Bool
  | .trigger intId _ => n = intId
  | .triggerPrivate intId _ => n = intId
  | .writeDistributor offset accessWidth value =>
    let first := (offset - gicdIspendr0) / 4 * 32
    decide (GicDistributorMmio.inWindow offset gicdIspendr0 gicdIspendr31) && accessWidth == 32 &&
      decide (first ≤ n ∧ n < first + 64) && value.getLsbD (n - first)
  | .writeRedistributor offset accessWidth value =>
    offset == gicrIspendr0 && accessWidth == 32 && decide (n < 32) && value.getLsbD n
  | _ => false

/-! ## Entries that announce their end -/

/-- The end of the entry reaches the physical interrupt or the maintenance handler. -/
def Tells (entry : BitVec 64) : Prop := entry.getLsbD 61 = true ∨ entry.getLsbD 41 = true

/-- An entry made for an interrupt of a set. -/
def Fresh (raised : Set ℕ) (entry : BitVec 64) : Prop :=
  Tells entry ∧ ∃ m ∈ raised, m < 2 ^ 32 ∧ vintid entry = BitVec.ofNat 64 m

theorem Tells.of_low {entry entry' : BitVec 64}
    (h : ∀ i, i < 62 → entry'.getLsbD i = entry.getLsbD i) (ht : Tells entry) : Tells entry' :=
  ht.imp (fun hb => (h 61 (by decide)).trans hb) fun hb => (h 41 (by decide)).trans hb

theorem tells_create (intId group priority : ℕ) (physicalIntId : Option ℕ) :
    Tells (createListRegisterEntry intId group priority physicalIntId) := by
  cases physicalIntId with
  | some p =>
    left
    simp [createListRegisterEntry, show ichLrnEl2Hw.getLsbD 61 = true by decide]
  | none =>
    right
    simp [createListRegisterEntry, show ichLrnEl2Eoi.getLsbD 41 = true by decide]

theorem fresh_create {raised : Set ℕ} {intId : ℕ} (hid : intId < 2 ^ 32) (hraised : intId ∈ raised)
    (group priority : ℕ) (physicalIntId : Option ℕ) :
    Fresh raised (createListRegisterEntry intId group priority physicalIntId) :=
  ⟨tells_create _ _ _ _, intId, hraised, hid, (createListRegisterEntry_spec hid _ _ _).2⟩

theorem merge_low (entry : BitVec 64) (i : ℕ) (hi : i < 62) :
    (entry ||| ichLrnEl2StatusPending).getLsbD i = entry.getLsbD i := by
  rw [BitVec.getLsbD_or, (getLsbD_status hi).2.1, Bool.or_false]

theorem acknowledge_low (entry : BitVec 64) (i : ℕ) (hi : i < 62) :
    ((entry &&& ~~~ichLrnEl2Status) ||| ichLrnEl2StatusActive).getLsbD i = entry.getLsbD i := by
  obtain ⟨h1, _, h2⟩ := getLsbD_status hi
  rw [BitVec.getLsbD_or, BitVec.getLsbD_and, BitVec.getLsbD_not, h1, h2]
  simp [show i < 64 by omega]

theorem endOfInterrupt_low (entry : BitVec 64) (i : ℕ) (hi : i < 62) :
    (entry &&& ~~~ichLrnEl2StatusActive).getLsbD i = entry.getLsbD i := by
  rw [BitVec.getLsbD_and, BitVec.getLsbD_not, (getLsbD_status hi).2.2]
  simp [show i < 64 by omega]

/-! ## Operations on one bank -/

/-- The list registers in use afterwards were in use by the same interrupt before, or
hold a new entry. -/
structure Fills (raised : Set ℕ) (c c' : CpuInterface) : Prop where
  supported : c'.supportedLrn = c.supportedLrn
  lr : ∀ i, isInactive (c'.lr i) = false →
    (isInactive (c.lr i) = false ∧ vintid (c'.lr i) = vintid (c.lr i) ∧
      (Tells (c.lr i) → Tells (c'.lr i))) ∨
    (i < c.supportedLrn ∧ Fresh raised (c'.lr i))

theorem Fills.of_registers {raised : Set ℕ} {c c' : CpuInterface}
    (hsup : c'.supportedLrn = c.supportedLrn) (h : ∀ i, c'.lr i = c.lr i) : Fills raised c c' := by
  refine ⟨hsup, fun i hi => .inl ?_⟩
  rw [h i] at hi ⊢
  exact ⟨hi, rfl, id⟩

theorem Fills.refl (raised : Set ℕ) (c : CpuInterface) : Fills raised c c :=
  .of_registers rfl fun _ => rfl

theorem Fresh.of_same {raised : Set ℕ} {entry entry' : BitVec 64}
    (hid : vintid entry' = vintid entry) (ht : Tells entry → Tells entry')
    (h : Fresh raised entry) : Fresh raised entry' := by
  obtain ⟨htells, m, hm, hlt, hv⟩ := h
  exact ⟨ht htells, m, hm, hlt, hid.trans hv⟩

theorem Fills.trans {raised : Set ℕ} {a b c : CpuInterface} (h : Fills raised a b)
    (h' : Fills raised b c) : Fills raised a c := by
  refine ⟨h'.supported.trans h.supported, fun i hi => ?_⟩
  rcases h'.lr i hi with ⟨hused, hid, ht⟩ | ⟨hlt, hfresh⟩
  · rcases h.lr i hused with ⟨hused', hid', ht'⟩ | ⟨hlt, hfresh⟩
    · exact .inl ⟨hused', hid.trans hid', fun htells => ht (ht' htells)⟩
    · exact .inr ⟨hlt, hfresh.of_same hid ht⟩
  · exact .inr ⟨h.supported ▸ hlt, hfresh⟩

/-- Rewriting one register. -/
theorem Fills.setLr {raised : Set ℕ} {c : CpuInterface} {i : ℕ} (hi : i < 3) {entry : BitVec 64}
    (h : isInactive entry = false →
      (isInactive (c.lr i) = false ∧ vintid entry = vintid (c.lr i) ∧
        (Tells (c.lr i) → Tells entry)) ∨ (i < c.supportedLrn ∧ Fresh raised entry)) :
    Fills raised c (c.setLr i entry) := by
  refine ⟨rfl, fun j hj => ?_⟩
  rw [c.lr_setLr hi] at hj ⊢
  by_cases hji : j = i
  · subst hji
    rw [if_pos rfl] at hj ⊢
    exact h hj
  · rw [if_neg hji] at hj ⊢
    exact .inl ⟨hj, rfl, id⟩

theorem Fills.add {raised : Set ℕ} (c : CpuInterface) {entry : BitVec 64}
    (hfresh : Fresh raised entry) : Fills raised c (addVirtualInterrupt c entry) := by
  have hsup := supportedLrn_le c
  have hadd := addVirtualInterrupt_spec c entry
  generalize addVirtualInterrupt c entry = c' at hadd
  cases hadd with
  | taken hi _ _ => exact .setLr (by omega) fun _ => .inr ⟨hi, hfresh⟩
  | merged hi _ hused _ =>
    exact .setLr (by omega) fun _ => .inl ⟨hused, (merge_entry _).1, .of_low (merge_low _)⟩
  | overflow _ => exact .of_registers rfl fun _ => rfl

theorem Fills.addAll {raised : Set ℕ} (entries : List (BitVec 64)) (c : CpuInterface)
    (h : ∀ entry ∈ entries, Fresh raised entry) :
    Fills raised c (entries.foldl addVirtualInterrupt c) := by
  induction entries generalizing c with
  | nil => exact .refl raised c
  | cons entry entries ih =>
    rw [List.forall_mem_cons] at h
    exact (Fills.add c h.1).trans (ih _ h.2)

theorem Fills.acknowledge (raised : Set ℕ) (c : CpuInterface) (i : ℕ) :
    Fills raised c (c.acknowledge i) := by
  unfold CpuInterface.acknowledge
  split_ifs with hpending
  · by_cases hi : i < 3
    · have hused : isInactive (c.lr i) = false := by
        simp only [isInactive, hpending]
        decide
      exact .setLr hi fun _ => .inl ⟨hused, acknowledge_entry _, .of_low (acknowledge_low _)⟩
    · rw [c.lr_of_le (by omega)] at hpending
      exact absurd hpending (by decide)
  · exact .refl raised c

theorem Fills.endOfInterrupt (raised : Set ℕ) (c : CpuInterface) (i : ℕ) :
    Fills raised c (c.endOfInterrupt i) := by
  unfold CpuInterface.endOfInterrupt
  split_ifs with hactive
  · by_cases hi : i < 3
    · refine .setLr hi fun hj => .inl ⟨?_, endOfInterrupt_entry _, .of_low (endOfInterrupt_low _)⟩
      rw [isInactive_eq_false, BitVec.getLsbD_and, BitVec.getLsbD_and] at hj
      rw [isInactive_eq_false]
      exact hj.imp (fun h => (Bool.and_eq_true_iff.mp h).1) fun h => (Bool.and_eq_true_iff.mp h).1
    · rw [c.lr_of_le (by omega)] at hactive
      exact absurd hactive (by decide)
  · exact .refl raised c

/-- What the law is about in one bank, with the CPU that works on it. -/
structure View where
  pending : ℕ → Bool
  queue : List (BitVec 64)
  cpu : CpuInterface

def distributorView (d : GicDistributorMmio) (c : CpuInterface) : View :=
  ⟨d.pending.bit, d.toInjectInterrupt, c⟩

def redistributorView (r : GicRedistributorMmio) (c : CpuInterface) : View :=
  ⟨r.pending.getLsbD, r.toInjectInterrupt, c⟩

/-- Only the interrupts of a set are newly recorded, queued or placed in a register. -/
structure Raises (raised : Set ℕ) (v v' : View) : Prop where
  pending : ∀ m, v'.pending m = true → v.pending m = true ∨ m ∈ raised
  queue : ∀ entry ∈ v'.queue, entry ∈ v.queue ∨ Fresh raised entry
  fills : Fills raised v.cpu v'.cpu

/-- A change of the bank alone that records nothing new. -/
theorem Raises.of_le {raised : Set ℕ} {v v' : View}
    (hpending : ∀ m, v'.pending m = true → v.pending m = true) (hqueue : v'.queue = v.queue)
    (hcpu : v'.cpu = v.cpu) : Raises raised v v' where
  pending m h := .inl (hpending m h)
  queue _ h := .inl (hqueue ▸ h)
  fills := hcpu ▸ .refl raised v.cpu

theorem Raises.refl (raised : Set ℕ) (v : View) : Raises raised v v :=
  .of_le (fun _ h => h) rfl rfl

theorem Raises.trans {raised : Set ℕ} {a b c : View} (h : Raises raised a b)
    (h' : Raises raised b c) : Raises raised a c where
  pending m hm := (h'.pending m hm).elim (h.pending m) .inr
  queue entry he := (h'.queue entry he).elim (h.queue entry) .inr
  fills := h.fills.trans h'.fills

/-- The three ways a recorded interrupt goes on: nowhere, to a list register of this CPU,
or to the queue of another one. -/
theorem Raises.record {raised : Set ℕ} {v v' : View} {entry : BitVec 64}
    (hfresh : Fresh raised entry)
    (hpending : ∀ m, v'.pending m = true → v.pending m = true ∨ m ∈ raised)
    (h : (v'.queue = v.queue ∧ v'.cpu = v.cpu) ∨
      (v'.queue = v.queue ∧ v'.cpu = addVirtualInterrupt v.cpu entry) ∨
      (v'.queue = v.queue ++ [entry] ∧ ∃ affinity, sendSgi v.cpu affinity = .ok v'.cpu)) :
    Raises raised v v' := by
  rcases h with ⟨hqueue, hcpu⟩ | ⟨hqueue, hcpu⟩ | ⟨hqueue, affinity, hsgi⟩
  · exact ⟨hpending, fun e he => .inl (hqueue ▸ he), hcpu ▸ .refl raised v.cpu⟩
  · exact ⟨hpending, fun e he => .inl (hqueue ▸ he), hcpu ▸ .add v.cpu hfresh⟩
  · refine ⟨hpending, fun e he => ?_, ?_⟩
    · rw [hqueue, List.mem_append, List.mem_singleton] at he
      exact he.imp_right fun (hnew : e = entry) => hnew ▸ hfresh
    · unfold sendSgi at hsgi
      split_ifs at hsgi
      have hcpu := Except.ok.inj hsgi
      exact hcpu ▸ .of_registers rfl fun _ => rfl

/-- The loop over the bits of a value written, the same in both banks. -/
structure IsLoop {δ : Type} (round : ℕ → BitVec 64 → δ → CpuInterface → Except Panic (δ × CpuInterface))
    (loop : ℕ → ℕ → BitVec 64 → δ → CpuInterface → Except Panic (δ × CpuInterface)) : Prop where
  zero : ∀ intId value x c, loop 0 intId value x c = .ok (x, c)
  succ : ∀ n intId value x c, loop (n + 1) intId value x c =
    if value = 0 then .ok (x, c)
    else round intId value x c >>= fun y => loop n (intId + 1) (value >>> 1) y.1 y.2

/-- A loop raises what its rounds raise. Each round may use that the bank records nothing
outside `known`. -/
theorem IsLoop.raises {δ : Type} {view : δ → CpuInterface → View}
    {round : ℕ → BitVec 64 → δ → CpuInterface → Except Panic (δ × CpuInterface)}
    {loop : ℕ → ℕ → BitVec 64 → δ → CpuInterface → Except Panic (δ × CpuInterface)}
    (hloop : IsLoop round loop) {raised known : Set ℕ} (hknown : raised ⊆ known) :
    ∀ (n intId : ℕ) (value : BitVec 64) (x x' : δ) (c c' : CpuInterface),
      (∀ j, j < n → value.getLsbD j = true → ∀ y y' b b',
        (∀ m, (view y b).pending m = true → m ∈ known) →
        (∀ v : BitVec 64, v.getLsbD 0 = true → round (intId + j) v y b = .ok (y', b') →
          Raises raised (view y b) (view y' b'))) →
      (∀ i v y b y' b', v.getLsbD 0 = false → round i v y b = .ok (y', b') → y' = y ∧ b' = b) →
      (∀ m, (view x c).pending m = true → m ∈ known) →
      loop n intId value x c = .ok (x', c') → Raises raised (view x c) (view x' c') := by
  intro n
  induction n with
  | zero =>
    intro intId value x x' c c' _ _ _ h
    rw [hloop.zero] at h
    cases h
    exact .refl raised _
  | succ n ih =>
    intro intId value x x' c c' hround hskip hstart h
    rw [hloop.succ] at h
    split_ifs at h with hzero
    · cases h
      exact .refl raised _
    · obtain ⟨⟨x₁, c₁⟩, hfirst, h⟩ := Checked.bind_eq_ok.mp h
      have hone : Raises raised (view x c) (view x₁ c₁) := by
        cases hbit : value.getLsbD 0 with
        | true => exact hround 0 (Nat.succ_pos n) hbit x x₁ c c₁ hstart value hbit hfirst
        | false =>
          obtain ⟨rfl, rfl⟩ := hskip _ _ _ _ _ _ hbit hfirst
          exact .refl raised _
      apply hone.trans
      refine ih (intId + 1) (value >>> 1) x₁ x' c₁ c' ?_ hskip ?_ h
      · intro j hj hbit
        rw [BitVec.getLsbD_ushiftRight, Nat.add_comm 1 j] at hbit
        rw [show intId + 1 + j = intId + (j + 1) by omega]
        exact hround (j + 1) (by omega) hbit
      · intro m hm
        exact (hone.pending m hm).elim (hstart m) fun hr => hknown hr

/-! ## The distributor -/

theorem distributor_trigger_raises {raised : Set ℕ} {d d' : GicDistributorMmio}
    {c c' : CpuInterface} {intId : ℕ} {physicalIntId : Option ℕ} (hraised : intId ∈ raised)
    (h : d.triggerInterrupt c intId physicalIntId = .ok (d', c')) :
    Raises raised (distributorView d c) (distributorView d' c') := by
  unfold GicDistributorMmio.triggerInterrupt at h
  by_cases hctlr : d.ctlr &&& gicdCtlrEnableGrp1ns = 0
  · rw [if_pos hctlr] at h
    cases h
    exact .refl raised _
  rw [if_neg hctlr] at h
  obtain ⟨d₁, hd₁, h⟩ := Checked.bind_eq_ok.mp h
  obtain ⟨pending, hbank, hd₁⟩ := Checked.bind_eq_ok.mp hd₁
  cases hd₁
  have hlt : intId < 2 ^ 32 := by
    have hword := (FixedArray.lt_of_modify 0 hbank).1
    omega
  have hpending : ∀ m, pending.bit m = true → d.pending.bit m = true ∨ m ∈ raised := by
    intro m hm
    rw [changeBank_bit hbank] at hm
    by_cases hid : m = intId
    · exact .inr (hid ▸ hraised)
    · exact .inl (by rwa [if_neg hid] at hm)
  have hfresh := fun group priority => fresh_create hlt hraised group priority physicalIntId
  -- The early returns leave the record alone.
  have hearly : (Except.ok ({ d with pending := pending }, c) : Except Panic _) = .ok (d', c') →
      Raises raised (distributorView d c) (distributorView d' c') := by
    intro he
    cases he
    exact .record (hfresh 0 0) hpending (.inl ⟨rfl, rfl⟩)
  obtain ⟨enabled, -, h⟩ := Checked.bind_eq_ok.mp h
  by_cases hoff : (!enabled) = true
  · rw [if_pos hoff] at h
    exact hearly h
  rw [if_neg hoff] at h
  obtain ⟨modifier, -, h⟩ := Checked.bind_eq_ok.mp h
  by_cases hone : modifier = 1
  · rw [if_pos hone] at h
    exact hearly h
  rw [if_neg hone] at h
  obtain ⟨group, -, h⟩ := Checked.bind_eq_ok.mp h
  obtain ⟨priority, -, h⟩ := Checked.bind_eq_ok.mp h
  obtain ⟨router, -, h⟩ := Checked.bind_eq_ok.mp h
  split_ifs at h
  · exact hearly h
  · cases h
    exact .record (hfresh group priority) hpending (.inr (.inl ⟨rfl, rfl⟩))
  · obtain ⟨c₁, hsgi, h⟩ := Checked.bind_eq_ok.mp h
    cases h
    exact .record (hfresh group priority) hpending (.inr (.inr ⟨rfl, _, hsgi⟩))

theorem distributor_isLoop (ready : GicDistributorMmio → ℕ → Except Panic Bool) :
    IsLoop (GicDistributorMmio.triggerBit ready) (GicDistributorMmio.triggerBits ready) :=
  ⟨fun _ _ _ _ => rfl, fun _ _ _ _ _ => rfl⟩

/-- The loop of a write raises the interrupts of the bits written that are ready. -/
theorem distributor_triggerBits_raises {ready : GicDistributorMmio → ℕ → Except Panic Bool}
    {raised known : Set ℕ} (hknown : raised ⊆ known) {n intId : ℕ} {value : BitVec 64}
    {d d' : GicDistributorMmio} {c c' : CpuInterface}
    (hready : ∀ j, j < n → value.getLsbD j = true → ∀ d₁ : GicDistributorMmio,
      (∀ m, d₁.pending.bit m = true → m ∈ known) → ready d₁ (intId + j) = .ok true →
      intId + j ∈ raised)
    (hstart : ∀ m, d.pending.bit m = true → m ∈ known)
    (h : GicDistributorMmio.triggerBits ready n intId value d c = .ok (d', c')) :
    Raises raised (distributorView d c) (distributorView d' c') := by
  refine (distributor_isLoop ready).raises hknown n intId value d d' c c' ?_ ?_ hstart h
  · intro j hj hbit y y' b b' hy v hv hround
    rw [GicDistributorMmio.triggerBit, if_pos ((FixedArray.and_one_ne_zero v).mpr hv)] at hround
    obtain ⟨isReady, hr, hround⟩ := Checked.bind_eq_ok.mp hround
    cases isReady with
    | true => exact distributor_trigger_raises (hready j hj hbit y hy hr) hround
    | false =>
      cases hround
      exact .refl raised _
  · intro i v y b y' b' hv hround
    have hclear : ¬ v &&& 1 ≠ 0 := by
      rw [FixedArray.and_one_ne_zero, hv]
      decide
    rw [GicDistributorMmio.triggerBit, if_neg hclear] at hround
    cases hround
    exact ⟨rfl, rfl⟩

/-- The interrupts a write may raise: those recorded already and those it sets pending. -/
def mayRaise (pending : ℕ → Bool) (e : Event) : Set ℕ :=
  {m | pending m = true ∨ e.sets m = true}

theorem sets_writeDistributor {offset accessWidth n : ℕ} {value : BitVec 64}
    (hpend : GicDistributorMmio.inWindow offset gicdIspendr0 gicdIspendr31 ∧ accessWidth = 32)
    {j : ℕ} (hj : j < 64) (hn : n = (offset - gicdIspendr0) / 4 * 32 + j)
    (hbit : value.getLsbD j = true) :
    (Event.writeDistributor offset accessWidth value).sets n = true := by
  subst hn
  simp only [Event.sets, hpend.1, hpend.2, Nat.add_sub_cancel_left, hbit]
  simp [hj]

theorem distributor_write_raises {d d' : GicDistributorMmio} {c c' : CpuInterface}
    {offset accessWidth : ℕ} {value : BitVec 64}
    (h : d.write c offset accessWidth value = .ok (d', c')) :
    Raises (mayRaise d.pending.bit (.writeDistributor offset accessWidth value))
      (distributorView d c) (distributorView d' c') := by
  set raised := mayRaise d.pending.bit (.writeDistributor offset accessWidth value)
  have hold : ∀ m, d.pending.bit m = true → m ∈ raised := fun _ hm => .inl hm
  by_cases hset : GicDistributorMmio.inWindow offset gicdIsenabler0 gicdIsenabler31 ∧
      accessWidth = 32
  · -- Set-enable: only what is recorded is triggered.
    obtain ⟨hwindow, rfl⟩ := hset
    rw [GicDistributorMmio.write_isenabler d c value hwindow] at h
    refine distributor_triggerBits_raises (d := d.enableBits value _) subset_rfl ?_ hold h
    intro j _ _ d₁ hd₁ hready
    exact hd₁ _ (getPending_ok hready).symm
  by_cases hpend : GicDistributorMmio.inWindow offset gicdIspendr0 gicdIspendr31 ∧ accessWidth = 32
  · have hsets {m j : ℕ} (hj : j < 64) (hm : m = (offset - gicdIspendr0) / 4 * 32 + j)
        (hbit : value.getLsbD j = true) : m ∈ raised :=
      .inr (sets_writeDistributor hpend hj hm hbit)
    obtain ⟨hwindow, rfl⟩ := hpend
    rw [GicDistributorMmio.write_ispendr d c value hwindow] at h
    have hrecorded : ∀ m, (d.pendBits value ((offset - gicdIspendr0) / 4)).pending.bit m = true →
        d.pending.bit m = true ∨ m ∈ raised := by
      intro m hm
      rw [GicDistributorMmio.pendBits, GicDistributorMmio.bit_or d.pending value
        (GicDistributorMmio.index_lt hwindow (by decide) (by decide)), Bool.or_eq_true,
        Bool.and_eq_true, decide_eq_true_eq] at hm
      exact hm.imp id fun hnew => hsets (j := m % 32) (by omega) (by omega) hnew.2
    refine Raises.trans (b := distributorView (d.pendBits value _) c)
      ⟨hrecorded, fun e he => .inl he, .refl raised c⟩ ?_
    refine distributor_triggerBits_raises (Set.subset_univ _) ?_ (fun _ _ => trivial) h
    intro j hj hbit _ _ _
    exact hsets hj rfl hbit
  -- The remaining registers take no part in the record.
  obtain ⟨rfl, hkept⟩ := GicDistributorMmio.write_withdraws hset hpend h
  exact .of_le hkept.pending hkept.queue rfl

/-! ## The redistributor -/

theorem changeRegister_bit {register register' : BitVec 32} {intId : ℕ} {on : Bool}
    (h : GicRedistributorMmio.changeRegister register intId on = .ok register') :
    intId < 32 ∧ ∀ m, register'.getLsbD m = if m = intId then on else register.getLsbD m := by
  obtain ⟨shift, hshift, h⟩ := Checked.bind_eq_ok.mp h
  unfold GicRedistributorMmio.checkedShift at hshift
  split_ifs at hshift with hlt
  cases hshift
  refine ⟨hlt, fun m => ?_⟩
  cases on with
  | true =>
    cases h
    rw [BitSet.getLsbD_insert _ hlt]
    by_cases hm : m = intId
    · simp [hm]
    · simp [hm, Ne.symm hm]
  | false =>
    cases h
    rw [BitSet.getLsbD_erase]
    by_cases hm : m = intId
    · simp [hm]
    · simp [hm, Ne.symm hm]

theorem redistributor_trigger_raises {raised : Set ℕ} {r r' : GicRedistributorMmio}
    {c c' : CpuInterface} {intId : ℕ} {physicalIntId : Option ℕ} (hraised : intId ∈ raised)
    (h : r.triggerInterrupt c intId physicalIntId = .ok (r', c')) :
    Raises raised (redistributorView r c) (redistributorView r' c') := by
  unfold GicRedistributorMmio.triggerInterrupt at h
  by_cases hasleep : r.waker &&& gicrWakerChildrenAsleep ≠ 0
  · rw [if_pos hasleep] at h
    cases h
    exact .refl raised _
  rw [if_neg hasleep] at h
  obtain ⟨r₁, hr₁, h⟩ := Checked.bind_eq_ok.mp h
  obtain ⟨pending, hregister, hr₁⟩ := Checked.bind_eq_ok.mp hr₁
  cases hr₁
  obtain ⟨hlt, hbit⟩ := changeRegister_bit hregister
  have hpending : ∀ m, pending.getLsbD m = true → r.pending.getLsbD m = true ∨ m ∈ raised := by
    intro m hm
    rw [hbit] at hm
    by_cases hid : m = intId
    · exact .inr (hid ▸ hraised)
    · exact .inl (by rwa [if_neg hid] at hm)
  have hfresh := fun group priority =>
    fresh_create (show intId < 2 ^ 32 by omega) hraised group priority physicalIntId
  have hearly : (Except.ok ({ r with pending := pending }, c) : Except Panic _) = .ok (r', c') →
      Raises raised (redistributorView r c) (redistributorView r' c') := by
    intro he
    cases he
    exact .record (hfresh 0 0) hpending (.inl ⟨rfl, rfl⟩)
  obtain ⟨enabled, -, h⟩ := Checked.bind_eq_ok.mp h
  by_cases hoff : (!enabled) = true
  · rw [if_pos hoff] at h
    exact hearly h
  rw [if_neg hoff] at h
  obtain ⟨modifier, -, h⟩ := Checked.bind_eq_ok.mp h
  by_cases hone : modifier = 1
  · rw [if_pos hone] at h
    exact hearly h
  rw [if_neg hone] at h
  obtain ⟨group, -, h⟩ := Checked.bind_eq_ok.mp h
  obtain ⟨priority, -, h⟩ := Checked.bind_eq_ok.mp h
  split_ifs at h
  · cases h
    exact .record (hfresh group priority) hpending (.inr (.inl ⟨rfl, rfl⟩))
  · obtain ⟨c₁, hsgi, h⟩ := Checked.bind_eq_ok.mp h
    cases h
    exact .record (hfresh group priority) hpending (.inr (.inr ⟨rfl, _, hsgi⟩))

theorem redistributor_isLoop (ready : GicRedistributorMmio → ℕ → Except Panic Bool) :
    IsLoop (GicRedistributorMmio.triggerBit ready) (GicRedistributorMmio.triggerBits ready) :=
  ⟨fun _ _ _ _ => rfl, fun _ _ _ _ _ => rfl⟩

theorem redistributor_triggerBits_raises {ready : GicRedistributorMmio → ℕ → Except Panic Bool}
    {raised known : Set ℕ} (hknown : raised ⊆ known) {n intId : ℕ} {value : BitVec 64}
    {r r' : GicRedistributorMmio} {c c' : CpuInterface}
    (hready : ∀ j, j < n → value.getLsbD j = true → ∀ r₁ : GicRedistributorMmio,
      (∀ m, r₁.pending.getLsbD m = true → m ∈ known) → ready r₁ (intId + j) = .ok true →
      intId + j ∈ raised)
    (hstart : ∀ m, r.pending.getLsbD m = true → m ∈ known)
    (h : GicRedistributorMmio.triggerBits ready n intId value r c = .ok (r', c')) :
    Raises raised (redistributorView r c) (redistributorView r' c') := by
  refine (redistributor_isLoop ready).raises hknown n intId value r r' c c' ?_ ?_ hstart h
  · intro j hj hbit y y' b b' hy v hv hround
    rw [GicRedistributorMmio.triggerBit, if_pos ((FixedArray.and_one_ne_zero v).mpr hv)] at hround
    obtain ⟨isReady, hr, hround⟩ := Checked.bind_eq_ok.mp hround
    cases isReady with
    | true => exact redistributor_trigger_raises (hready j hj hbit y hy hr) hround
    | false =>
      cases hround
      exact .refl raised _
  · intro i v y b y' b' hv hround
    have hclear : ¬ v &&& 1 ≠ 0 := by
      rw [FixedArray.and_one_ne_zero, hv]
      decide
    rw [GicRedistributorMmio.triggerBit, if_neg hclear] at hround
    cases hround
    exact ⟨rfl, rfl⟩

theorem redistributor_getPending_ok {r : GicRedistributorMmio} {intId : ℕ} {on : Bool}
    (h : r.getPending intId = .ok on) : on = r.pending.getLsbD intId := by
  obtain ⟨x, hx, h⟩ := Checked.bind_eq_ok.mp h
  cases h
  rw [registerBit_ok hx]
  cases r.pending.getLsbD intId <;> simp

theorem redistributor_write_raises {r r' : GicRedistributorMmio} {c c' : CpuInterface}
    {offset accessWidth : ℕ} {value : BitVec 64}
    (h : r.write c offset accessWidth value = .ok (r', c')) :
    Raises (mayRaise r.pending.getLsbD (.writeRedistributor offset accessWidth value))
      (redistributorView r c) (redistributorView r' c') := by
  set raised := mayRaise r.pending.getLsbD (.writeRedistributor offset accessWidth value)
  have hold : ∀ m, r.pending.getLsbD m = true → m ∈ raised := fun _ hm => .inl hm
  by_cases hset : offset = gicrIsenabler0 ∧ accessWidth = 32
  · obtain ⟨rfl, rfl⟩ := hset
    rw [GicRedistributorMmio.write_isenabler] at h
    refine redistributor_triggerBits_raises (r := { r with enable := r.enable ||| value.setWidth 32 })
      subset_rfl ?_ hold h
    intro j _ _ r₁ hr₁ hready
    exact hr₁ _ (redistributor_getPending_ok hready).symm
  by_cases hpend : offset = gicrIspendr0 ∧ accessWidth = 32
  · obtain ⟨rfl, rfl⟩ := hpend
    rw [GicRedistributorMmio.write_ispendr] at h
    have hsets : ∀ m, m < 32 → value.getLsbD m = true → m ∈ raised := by
      intro m hm hbit
      right
      simp [Event.sets, hm, hbit]
    have hrecorded : ∀ m, (r.pending ||| value.setWidth 32).getLsbD m = true →
        r.pending.getLsbD m = true ∨ m ∈ raised := by
      intro m hm
      rw [BitVec.getLsbD_or, Bool.or_eq_true] at hm
      refine hm.imp id fun hnew => ?_
      rw [BitVec.getLsbD_setWidth, Bool.and_eq_true, decide_eq_true_eq] at hnew
      exact hsets m hnew.1 hnew.2
    refine Raises.trans
      (b := redistributorView { r with pending := r.pending ||| value.setWidth 32 } c)
      ⟨hrecorded, fun e he => .inl he, .refl raised c⟩ ?_
    refine redistributor_triggerBits_raises (Set.subset_univ _) ?_ (fun _ _ => trivial) h
    intro j hj hbit _ _ _
    rw [Nat.zero_add]
    exact hsets j hj hbit
  obtain ⟨rfl, hqueue, hpending⟩ := GicRedistributorMmio.write_withdraws hset hpend h
  exact .of_le hpending hqueue rfl

end Min1visor.Vgic
