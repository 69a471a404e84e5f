import Min1visor.Gicv3Windows
import Min1visor.Vgic

/-!
# What the operations of the virtual GIC hand over

Every operation is described by what it does to deliverable interrupts: it
leaves those in list registers and in the queue where they are, and what it
makes deliverable it hands over, unless a list register overflows.
-/
namespace Min1visor.Vgic
open Vgicv3 Gicv3Mmio

/-! ## List registers -/

/-- No register in use is given up, and overflows are only added. -/
structure Grows (c c' : CpuInterface) : Prop where
  held : ∀ n, Held c n → Held c' n
  overflows : c.overflows ≤ c'.overflows

theorem Grows.refl (c : CpuInterface) : Grows c c := ⟨fun _ h => h, le_rfl⟩

theorem Grows.trans {a b c : CpuInterface} (h : Grows a b) (h' : Grows b c) : Grows a c :=
  ⟨fun n hn => h'.held n (h.held n hn), h.overflows.trans h'.overflows⟩

/-- Rewriting a register, keeping what it holds if it is in use. -/
theorem Grows.setLr {c : CpuInterface} {i : ℕ} (hi : i < 3) {entry : BitVec 64}
    (hentry : isInactive (c.lr i) = false →
      isInactive entry = false ∧ vintid entry = vintid (c.lr i)) : Grows c (c.setLr i entry) := by
  constructor
  · rintro n ⟨j, hj, hused, hid⟩
    refine ⟨j, hj, ?_⟩
    rw [c.lr_setLr hi]
    by_cases hji : j = i
    · subst hji
      rw [if_pos rfl]
      exact ⟨(hentry hused).1, (hentry hused).2.trans hid⟩
    · rw [if_neg hji]
      exact ⟨hused, hid⟩
  · exact le_rfl

theorem Grows.add (c : CpuInterface) (entry : BitVec 64) :
    Grows c (addVirtualInterrupt c entry) := by
  have hsup := supportedLrn_le c
  have hadd := addVirtualInterrupt_spec c entry
  generalize addVirtualInterrupt c entry = c' at hadd
  cases hadd with
  | taken hi _ hfree =>
    apply Grows.setLr (by omega)
    intro hused
    rw [hfree] at hused
    cases hused
  | merged hi _ _ _ => exact Grows.setLr (by omega) fun _ => ⟨(merge_entry _).2, (merge_entry _).1⟩
  | overflow _ => exact ⟨fun _ h => h, Nat.le_succ _⟩

/-- An entry that is added without an overflow is held afterwards. -/
theorem held_add {c : CpuInterface} {entry : BitVec 64} {n : ℕ}
    (hused : isInactive entry = false) (hid : vintid entry = BitVec.ofNat 64 n)
    (hover : (addVirtualInterrupt c entry).overflows = c.overflows) :
    Held (addVirtualInterrupt c entry) n := by
  have hsup := supportedLrn_le c
  have hadd := addVirtualInterrupt_spec c entry
  generalize addVirtualInterrupt c entry = c' at hadd hover
  cases hadd with
  | @taken i hi _ _ =>
    refine ⟨i, by omega, ?_⟩
    rw [c.lr_setLr (by omega), if_pos rfl]
    exact ⟨hused, hid⟩
  | @merged i hi _ _ hsame =>
    refine ⟨i, by omega, ?_⟩
    rw [c.lr_setLr (by omega), if_pos rfl]
    exact ⟨(merge_entry _).2, (merge_entry _).1.trans (hsame.trans hid)⟩
  | overflow _ => simp at hover

theorem Grows.addAll (entries : List (BitVec 64)) (c : CpuInterface) :
    Grows c (entries.foldl addVirtualInterrupt c) := by
  induction entries generalizing c with
  | nil => exact Grows.refl c
  | cons entry entries ih => exact (Grows.add c entry).trans (ih _)

theorem held_addAll {entries : List (BitVec 64)} {entry : BitVec 64} {n : ℕ} {c : CpuInterface}
    (hmem : entry ∈ entries) (hused : isInactive entry = false)
    (hid : vintid entry = BitVec.ofNat 64 n)
    (hover : (entries.foldl addVirtualInterrupt c).overflows = c.overflows) :
    Held (entries.foldl addVirtualInterrupt c) n := by
  induction entries generalizing c with
  | nil => cases hmem
  | cons first entries ih =>
    rw [List.foldl_cons] at hover ⊢
    have h1 := (Grows.add c first).overflows
    have hrest := Grows.addAll entries (addVirtualInterrupt c first)
    have h2 := hrest.overflows
    rcases List.mem_cons.mp hmem with rfl | hmem
    · exact hrest.held n (held_add hused hid (by omega))
    · exact ih hmem (by omega)

/-- A new entry is pending and about its interrupt. -/
theorem createListRegisterEntry_spec {intId : ℕ} (hid : intId < 2 ^ 32) (group priority : ℕ)
    (physicalIntId : Option ℕ) :
    isInactive (createListRegisterEntry intId group priority physicalIntId) = false ∧
      vintid (createListRegisterEntry intId group priority physicalIntId) =
        BitVec.ofNat 64 intId := by
  have hpending : ichLrnEl2StatusPending.getLsbD 62 = true := by decide
  have hlow : ∀ i, i < 32 → ichLrnEl2StatusPending.getLsbD i = false ∧
      ichLrnEl2Hw.getLsbD i = false ∧ ichLrnEl2Eoi.getLsbD i = false := by decide
  have hvintid : vintid (createListRegisterEntry intId group priority physicalIntId) =
      vintid (BitVec.ofNat 64 intId) := by
    apply vintid_congr
    intro i hi
    obtain ⟨h1, h2, h3⟩ := hlow i hi
    cases physicalIntId <;>
      simp [createListRegisterEntry, h1, h2, h3, show i < 48 by omega, show i < 60 by omega, hi]
  constructor
  · rw [isInactive_eq_false]
    left
    cases physicalIntId <;> simp [createListRegisterEntry, hpending]
  · rw [hvintid]
    apply BitVec.eq_of_getLsbD_eq
    intro i _
    rw [getLsbD_vintid, BitVec.getLsbD_ofNat]
    by_cases hi : i < 32
    · simp [hi]
    · have hbit : intId.testBit i = false :=
        Nat.testBit_lt_two_pow (hid.trans_le (Nat.pow_le_pow_right (by decide) (by omega)))
      simp [hi, hbit]

/-! ## Banks of the distributor -/

theorem bankBit_ok {bank : FixedArray (BitVec 32) 32} {n : ℕ} {x : BitVec 32}
    (h : GicDistributorMmio.bankBit bank n = .ok x) : x = if bank.bit n then 1 else 0 := by
  unfold GicDistributorMmio.bankBit at h
  obtain ⟨word, hget, hx⟩ := Checked.bind_eq_ok.mp h
  have hn : n / 32 < 32 := by
    by_contra hc
    simp [FixedArray.get, hc] at hget
  rw [FixedArray.get_ok bank 0 hn] at hget
  cases hget
  cases hx
  exact FixedArray.shiftRight_and_one _ _

theorem changeBank_bit {bank bank' : FixedArray (BitVec 32) 32} {n : ℕ} {on : Bool}
    (h : GicDistributorMmio.changeBank bank n on = .ok bank') (m : ℕ) :
    bank'.bit m = if m = n then on else bank.bit m := by
  unfold GicDistributorMmio.changeBank at h
  cases on with
  | true =>
    obtain ⟨hn, rfl⟩ := FixedArray.lt_of_modify 0 h
    rw [FixedArray.bit_set bank hn]
    by_cases hm : m = n <;> simp [hm]
  | false =>
    obtain ⟨hn, rfl⟩ := FixedArray.lt_of_modify 0 h
    rw [FixedArray.bit_clear bank hn]
    by_cases hm : m = n <;> simp [hm]

theorem getEnable_ok {d : GicDistributorMmio} {n : ℕ} {b : Bool} (h : d.getEnable n = .ok b) :
    b = d.enable.bit n := by
  obtain ⟨x, hx, hb⟩ := Checked.bind_eq_ok.mp h
  cases hb
  rw [bankBit_ok hx]
  cases d.enable.bit n <;> simp

theorem getPending_ok {d : GicDistributorMmio} {n : ℕ} {b : Bool} (h : d.getPending n = .ok b) :
    b = d.pending.bit n := by
  obtain ⟨x, hx, hb⟩ := Checked.bind_eq_ok.mp h
  cases hb
  rw [bankBit_ok hx]
  cases d.pending.bit n <;> simp

theorem getGroupModifier_ok {d : GicDistributorMmio} {n g : ℕ} (h : d.getGroupModifier n = .ok g) :
    g = if d.groupModifier.bit n then 1 else 0 := by
  obtain ⟨x, hx, hg⟩ := Checked.bind_eq_ok.mp h
  cases hg
  rw [bankBit_ok hx]
  cases d.groupModifier.bit n <;> rfl

/-! ## The distributor -/

/-- What a distributor operation may do to a distributor and the CPU it runs on:
whatever becomes deliverable is handed over unless a list register overflows. -/
structure HandsOver (d : GicDistributorMmio) (c : CpuInterface) (d' : GicDistributorMmio)
    (c' : CpuInterface) : Prop where
  grows : Grows c c'
  queue : ∀ n, Queued d n → Queued d' n
  deliver : c'.overflows = c.overflows → ∀ n, n < 1020 → Deliverable d' n →
    Deliverable d n ∨ Held c' n ∨ Queued d' n

theorem HandsOver.refl (d : GicDistributorMmio) (c : CpuInterface) : HandsOver d c d c :=
  ⟨.refl c, fun _ h => h, fun _ _ _ h => .inl h⟩

theorem HandsOver.trans {d₁ d₂ d₃ : GicDistributorMmio} {c₁ c₂ c₃ : CpuInterface}
    (h : HandsOver d₁ c₁ d₂ c₂) (h' : HandsOver d₂ c₂ d₃ c₃) : HandsOver d₁ c₁ d₃ c₃ := by
  refine ⟨h.grows.trans h'.grows, fun n hn => h'.queue n (h.queue n hn), ?_⟩
  intro hover n hn hd
  have hle := h.grows.overflows
  have hle' := h'.grows.overflows
  rcases h'.deliver (by omega) n hn hd with hd | hheld
  · rcases h.deliver (by omega) n hn hd with hd | hheld | hqueued
    · exact .inl hd
    · exact .inr (.inl (h'.grows.held n hheld))
    · exact .inr (.inr (h'.queue n hqueued))
  · exact .inr hheld

/-- A change of the distributor alone that makes nothing deliverable. -/
theorem HandsOver.of_le {d d' : GicDistributorMmio} (c : CpuInterface)
    (hqueue : d'.toInjectInterrupt = d.toInjectInterrupt)
    (hd : ∀ n, Deliverable d' n → Deliverable d n) : HandsOver d c d' c where
  grows := .refl c
  queue n := by
    unfold Queued
    rw [hqueue]
    exact id
  deliver _ n _ h := .inl (hd n h)

theorem sendSgi_ok {c c' : CpuInterface} {affinity : BitVec 64} (h : sendSgi c affinity = .ok c') :
    Grows c c' := by
  unfold sendSgi at h
  split_ifs at h
  cases h
  exact ⟨fun _ h => h, le_rfl⟩

/-- Marking an interrupt pending makes no other interrupt deliverable. -/
theorem changePendingStatus_other {d d' : GicDistributorMmio} {intId n : ℕ} {isPending : Bool}
    (h : d.changePendingStatus intId isPending = .ok d') (hn : n ≠ intId)
    (hd : Deliverable d' n) : Deliverable d n := by
  obtain ⟨pending, hp, hd'⟩ := Checked.bind_eq_ok.mp h
  cases hd'
  obtain ⟨h1, h2, h3, h4, h5⟩ := hd
  refine ⟨h1, h2, ?_, h4, h5⟩
  rwa [changeBank_bit hp, if_neg hn] at h3

theorem changePendingStatus_queue {d d' : GicDistributorMmio} {intId : ℕ} {isPending : Bool}
    (h : d.changePendingStatus intId isPending = .ok d') :
    d'.toInjectInterrupt = d.toInjectInterrupt ∧ d'.ctlr = d.ctlr := by
  obtain ⟨pending, hp, hd'⟩ := Checked.bind_eq_ok.mp h
  cases hd'
  exact ⟨rfl, rfl⟩

/-- Triggering an interrupt makes no other one deliverable and keeps what is held
and queued; the interrupt itself is handed over if it is deliverable then. -/
theorem triggerInterrupt_spec {d d' : GicDistributorMmio} {c c' : CpuInterface} {intId : ℕ}
    {physicalIntId : Option ℕ} (h : d.triggerInterrupt c intId physicalIntId = .ok (d', c')) :
    Grows c c' ∧ (∀ n, Queued d n → Queued d' n) ∧
      (∀ n, n ≠ intId → Deliverable d' n → Deliverable d n) ∧
      (c'.overflows = c.overflows → intId < 1020 → Deliverable d' intId →
        Held c' intId ∨ Queued d' intId) := by
  unfold GicDistributorMmio.triggerInterrupt at h
  by_cases hctlr : d.ctlr &&& gicdCtlrEnableGrp1ns = 0
  · simp only [hctlr, if_true] at h
    cases h
    exact ⟨.refl c, fun _ h => h, fun _ _ h => h, fun _ _ h => absurd hctlr h.1⟩
  simp only [hctlr, if_false] at h
  obtain ⟨d₁, hd₁, h⟩ := Checked.bind_eq_ok.mp h
  obtain ⟨hqueue, hsame⟩ := changePendingStatus_queue hd₁
  have hother : ∀ n, n ≠ intId → Deliverable d₁ n → Deliverable d n :=
    fun n hn => changePendingStatus_other hd₁ hn
  have hkeep : ∀ n, Queued d n → Queued d₁ n := by
    intro n
    unfold Queued
    rw [hqueue]
    exact id
  -- An early return leaves the interrupt recorded but not deliverable.
  have hearly : ¬ Deliverable d₁ intId → (d₁, c) = (d', c') →
      Grows c c' ∧ (∀ n, Queued d n → Queued d' n) ∧
        (∀ n, n ≠ intId → Deliverable d' n → Deliverable d n) ∧
        (c'.overflows = c.overflows → intId < 1020 → Deliverable d' intId →
          Held c' intId ∨ Queued d' intId) := by
    intro hnot he
    cases he
    exact ⟨.refl c, hkeep, hother, fun _ _ hd => absurd hd hnot⟩
  obtain ⟨enabled, henabled, h⟩ := Checked.bind_eq_ok.mp h
  cases enabled with
  | false =>
    apply hearly _ (Except.ok.inj h)
    intro hd
    have hbit := getEnable_ok henabled
    rw [hd.2.2.2.1] at hbit
    cases hbit
  | true =>
    simp only [Bool.not_true, Bool.false_eq_true, if_false] at h
    obtain ⟨modifier, hmodifier, h⟩ := Checked.bind_eq_ok.mp h
    by_cases hone : modifier = 1
    · rw [if_pos hone] at h
      apply hearly _ (Except.ok.inj h)
      intro hd
      have hbit := getGroupModifier_ok hmodifier
      rw [hd.2.2.2.2] at hbit
      simp [hone] at hbit
    · rw [if_neg hone] at h
      obtain ⟨group, -, h⟩ := Checked.bind_eq_ok.mp h
      obtain ⟨priority, -, h⟩ := Checked.bind_eq_ok.mp h
      obtain ⟨router, -, h⟩ := Checked.bind_eq_ok.mp h
      by_cases hare : d₁.ctlr &&& gicdCtlrAreS = 0
      · rw [if_pos hare] at h
        exact hearly (fun hd => hd.2.1 hare) (Except.ok.inj h)
      · rw [if_neg hare] at h
        have hentry := fun hid : intId < 1020 =>
          createListRegisterEntry_spec (show intId < 2 ^ 32 by omega) group priority physicalIntId
        split_ifs at h with hhere
        · cases h
          exact ⟨.add _ _, hkeep, hother,
            fun hover hid _ => .inl (held_add (hentry hid).1 (hentry hid).2 hover)⟩
        · obtain ⟨c₁, hsgi, h⟩ := Checked.bind_eq_ok.mp h
          cases h
          refine ⟨sendSgi_ok hsgi, ?_, fun n hn hd => hother n hn hd, fun _ hid _ => .inr ?_⟩
          · intro n hq
            obtain ⟨entry, hmem, he⟩ := hkeep n hq
            exact ⟨entry, List.mem_append_left _ hmem, he⟩
          · exact ⟨_, List.mem_append_right _ (List.mem_singleton_self _), hentry hid⟩

theorem triggerInterrupt_handsOver {d d' : GicDistributorMmio} {c c' : CpuInterface} {intId : ℕ}
    {physicalIntId : Option ℕ} (h : d.triggerInterrupt c intId physicalIntId = .ok (d', c')) :
    HandsOver d c d' c' := by
  obtain ⟨hgrows, hqueue, hother, hself⟩ := triggerInterrupt_spec h
  refine ⟨hgrows, hqueue, ?_⟩
  intro hover n hn hd
  by_cases hne : n = intId
  · subst hne
    exact .inr (hself hover hn hd)
  · exact .inl (hother n hne hd)

/-- One round of the loop over the bits written. -/
theorem triggerBit_spec {ready : GicDistributorMmio → ℕ → Except Panic Bool} {intId : ℕ}
    {value : BitVec 64} {d d' : GicDistributorMmio} {c c' : CpuInterface}
    (hready : ∀ d n, ready d n = .ok false → ¬ Deliverable d n)
    (h : GicDistributorMmio.triggerBit ready intId value d c = .ok (d', c')) :
    HandsOver d c d' c' ∧ (value.getLsbD 0 = true → c'.overflows = c.overflows →
      intId < 1020 → Deliverable d' intId → Held c' intId ∨ Queued d' intId) := by
  have hbit : value.getLsbD 0 = true → value &&& 1 ≠ 0 := by
    intro hv h0
    have hb : (value &&& 1).getLsbD 0 = true := by simp [hv]
    rw [h0] at hb
    simp at hb
  unfold GicDistributorMmio.triggerBit at h
  split_ifs at h with hv
  · obtain ⟨b, hb, h⟩ := Checked.bind_eq_ok.mp h
    cases b with
    | true => exact ⟨triggerInterrupt_handsOver h, fun _ => (triggerInterrupt_spec h).2.2.2⟩
    | false =>
      cases h
      exact ⟨.refl d c, fun _ _ _ hd => absurd hd (hready d intId hb)⟩
  · cases h
    exact ⟨.refl d c, fun hv' => absurd (hbit hv') hv⟩

/-- The loop hands over each interrupt whose bit is written. -/
theorem triggerBits_spec {ready : GicDistributorMmio → ℕ → Except Panic Bool}
    (hready : ∀ d n, ready d n = .ok false → ¬ Deliverable d n) :
    ∀ (rounds intId : ℕ) (value : BitVec 64) (d d' : GicDistributorMmio) (c c' : CpuInterface),
      GicDistributorMmio.triggerBits ready rounds intId value d c = .ok (d', c') →
      HandsOver d c d' c' ∧ (c'.overflows = c.overflows → ∀ j, j < rounds → intId + j < 1020 →
        value.getLsbD j = true → Deliverable d' (intId + j) →
        Held c' (intId + j) ∨ Queued d' (intId + j)) := by
  intro rounds
  induction rounds with
  | zero =>
    intro intId value d d' c c' h
    cases h
    exact ⟨.refl d c, fun _ j hj => absurd hj (Nat.not_lt_zero j)⟩
  | succ rounds ih =>
    intro intId value d d' c c' h
    rw [GicDistributorMmio.triggerBits] at h
    split_ifs at h with hzero
    · cases h
      refine ⟨.refl d c, ?_⟩
      intro _ j _ _ hbit
      simp [hzero] at hbit
    · obtain ⟨⟨d₁, c₁⟩, hround, h⟩ := Checked.bind_eq_ok.mp h
      obtain ⟨hfirst, hself⟩ := triggerBit_spec hready hround
      obtain ⟨hrest, hlater⟩ := ih (intId + 1) (value >>> 1) d₁ d' c₁ c' h
      refine ⟨hfirst.trans hrest, ?_⟩
      intro hover j hj hlt hbit hd
      have hle₁ := hfirst.grows.overflows
      have hle₂ := hrest.grows.overflows
      cases j with
      | zero =>
        rcases hrest.deliver (by omega) _ hlt hd with hd₁ | hdone
        · rcases hself hbit (by omega) hlt hd₁ with hheld | hqueued
          · exact .inl (hrest.grows.held _ hheld)
          · exact .inr (hrest.queue _ hqueued)
        · exact hdone
      | succ j =>
        have hidx : intId + (j + 1) = intId + 1 + j := by omega
        rw [hidx] at hlt hd ⊢
        apply hlater (by omega) j (by omega) hlt _ hd
        rw [BitVec.getLsbD_ushiftRight, Nat.add_comm 1 j]
        exact hbit

/-- A bank is extended by the bits of a value and the interrupts of these bits
are triggered: nothing is lost, and each interrupt of a bit written is handed over. -/
theorem triggerBits_written {ready : GicDistributorMmio → ℕ → Except Panic Bool}
    (hready : ∀ d n, ready d n = .ok false → ¬ Deliverable d n) {i : ℕ} {value : BitVec 64}
    (d d₁ : GicDistributorMmio) {d' : GicDistributorMmio} {c c' : CpuInterface}
    (hqueue : d₁.toInjectInterrupt = d.toInjectInterrupt)
    (hnew : ∀ n, Deliverable d₁ n →
      Deliverable d n ∨ (n / 32 = i ∧ value.getLsbD (n % 32) = true))
    (h : GicDistributorMmio.triggerBits ready 64 (i * 32) value d₁ c = .ok (d', c')) :
    HandsOver d c d' c' ∧ (c'.overflows = c.overflows → ∀ n, n < 1020 → n / 32 = i →
      value.getLsbD (n % 32) = true → Deliverable d' n → Held c' n ∨ Queued d' n) := by
  obtain ⟨hover, hbits⟩ := triggerBits_spec hready _ _ _ _ _ _ _ h
  have hwritten : c'.overflows = c.overflows → ∀ n, n < 1020 → n / 32 = i →
      value.getLsbD (n % 32) = true → Deliverable d' n → Held c' n ∨ Queued d' n := by
    intro hno n hn hi hbit hd
    have hidx : i * 32 + n % 32 = n := by omega
    have hdone := hbits hno (n % 32) (by omega) (by omega) hbit
    rw [hidx] at hdone
    exact hdone hd
  refine ⟨⟨hover.grows, ?_, ?_⟩, hwritten⟩
  · intro n hq
    apply hover.queue
    unfold Queued at hq ⊢
    rwa [hqueue]
  · intro hno n hn hd
    rcases hover.deliver hno n hn hd with hd₁ | hdone
    · rcases hnew n hd₁ with hold | ⟨hi, hbit⟩
      · exact .inl hold
      · exact .inr (hwritten hno n hn hi hbit hd)
    · exact .inr hdone

theorem getPending_ready (d : GicDistributorMmio) (n : ℕ) (h : d.getPending n = .ok false) :
    ¬ Deliverable d n := by
  intro hd
  have hbit := getPending_ok h
  rw [hd.2.2.1] at hbit
  cases hbit

theorem getEnable_ready (d : GicDistributorMmio) (n : ℕ) (h : d.getEnable n = .ok false) :
    ¬ Deliverable d n := by
  intro hd
  have hbit := getEnable_ok h
  rw [hd.2.2.2.1] at hbit
  cases hbit

theorem raises_write {offset accessWidth n : ℕ} {value : BitVec 64}
    (h : (Event.writeDistributor offset accessWidth value).raises n = true) :
    (GicDistributorMmio.inWindow offset gicdIspendr0 gicdIspendr31 ∧ accessWidth = 32) ∧
      n / 32 = (offset - gicdIspendr0) / 4 ∧ value.getLsbD (n % 32) = true := by
  simp only [Event.raises, Bool.and_eq_true, decide_eq_true_eq, beq_iff_eq] at h
  exact ⟨⟨h.1.1.1, h.1.1.2⟩, h.1.2, h.2⟩

theorem deliverable_enableBits {d : GicDistributorMmio} {value : BitVec 64} {i n : ℕ} (hi : i < 32)
    (h : Deliverable (d.enableBits value i) n) :
    Deliverable d n ∨ (n / 32 = i ∧ value.getLsbD (n % 32) = true) := by
  obtain ⟨h1, h2, h3, h4, h5⟩ := h
  rw [GicDistributorMmio.enableBits, GicDistributorMmio.bit_or d.enable value hi, Bool.or_eq_true,
    Bool.and_eq_true, decide_eq_true_eq] at h4
  exact h4.imp (fun hold => ⟨h1, h2, h3, hold, h5⟩) id

theorem deliverable_pendBits {d : GicDistributorMmio} {value : BitVec 64} {i n : ℕ} (hi : i < 32)
    (h : Deliverable (d.pendBits value i) n) :
    Deliverable d n ∨ (n / 32 = i ∧ value.getLsbD (n % 32) = true) := by
  obtain ⟨h1, h2, h3, h4, h5⟩ := h
  rw [GicDistributorMmio.pendBits, GicDistributorMmio.bit_or d.pending value hi, Bool.or_eq_true,
    Bool.and_eq_true, decide_eq_true_eq] at h3
  exact h3.imp (fun hold => ⟨h1, h2, hold, h4, h5⟩) id

/-- A set-pending write hands over every interrupt it raises. -/
theorem write_ispendr {d d' : GicDistributorMmio} {c c' : CpuInterface} {offset accessWidth : ℕ}
    {value : BitVec 64}
    (hpend : GicDistributorMmio.inWindow offset gicdIspendr0 gicdIspendr31 ∧ accessWidth = 32)
    (h : d.write c offset accessWidth value = .ok (d', c')) :
    HandsOver d c d' c' ∧ (c'.overflows = c.overflows → ∀ n, n < 1020 →
      n / 32 = (offset - gicdIspendr0) / 4 → value.getLsbD (n % 32) = true → Deliverable d' n →
      Held c' n ∨ Queued d' n) := by
  obtain ⟨hwindow, rfl⟩ := hpend
  have hi : (offset - gicdIspendr0) / 4 < 32 :=
    GicDistributorMmio.index_lt hwindow (by decide) (by decide)
  rw [GicDistributorMmio.write_ispendr d c value hwindow] at h
  exact triggerBits_written getEnable_ready d (d.pendBits value _) rfl
    (fun _ => deliverable_pendBits hi) h

/-- A set-enable write hands over what it makes deliverable. -/
theorem write_isenabler {d d' : GicDistributorMmio} {c c' : CpuInterface} {offset : ℕ}
    {value : BitVec 64} (hwindow : GicDistributorMmio.inWindow offset gicdIsenabler0 gicdIsenabler31)
    (h : d.write c offset 32 value = .ok (d', c')) : HandsOver d c d' c' := by
  have hi : (offset - gicdIsenabler0) / 4 < 32 :=
    GicDistributorMmio.index_lt hwindow (by decide) (by decide)
  rw [GicDistributorMmio.write_isenabler d c value hwindow] at h
  exact (triggerBits_written getPending_ready d (d.enableBits value _) rfl
    (fun _ => deliverable_enableBits hi) h).1

/-- What a write to the distributor does: it replaces the control register or a
group modifier, or it hands over what it makes deliverable. -/
theorem write_handsOver {d d' : GicDistributorMmio} {c c' : CpuInterface}
    {offset accessWidth : ℕ} {value : BitVec 64}
    (h : d.write c offset accessWidth value = .ok (d', c')) :
    (offset = gicdCtlr ∧ accessWidth = 32 ∧ c' = c ∧
      d' = { d with ctlr := value.setWidth 32 }) ∨
    (GicDistributorMmio.inWindow offset gicdIgrpmodr0 gicdIgrpmodr31 ∧ accessWidth = 32 ∧
      c' = c ∧ d' = putGroupModifier d ((offset - gicdIgrpmodr0) / 4) (value.setWidth 32)) ∨
    HandsOver d c d' c' := by
  by_cases hset : GicDistributorMmio.inWindow offset gicdIsenabler0 gicdIsenabler31 ∧
      accessWidth = 32
  · obtain ⟨hwindow, rfl⟩ := hset
    exact .inr (.inr (write_isenabler hwindow h))
  by_cases hpend : GicDistributorMmio.inWindow offset gicdIspendr0 gicdIspendr31 ∧ accessWidth = 32
  · exact .inr (.inr (write_ispendr hpend h).1)
  by_cases hctlr : offset = gicdCtlr ∧ accessWidth = 32
  · obtain ⟨rfl, rfl⟩ := hctlr
    cases (GicDistributorMmio.write_ctlr d c value).symm.trans h
    exact .inl ⟨rfl, rfl, rfl, rfl⟩
  by_cases hmodifier : GicDistributorMmio.inWindow offset gicdIgrpmodr0 gicdIgrpmodr31 ∧
      accessWidth = 32
  · obtain ⟨hwindow, rfl⟩ := hmodifier
    rw [GicDistributorMmio.write_igrpmodr d c value hwindow] at h
    split_ifs at h
    cases h
    exact .inr (.inl ⟨hwindow, rfl, rfl, rfl⟩)
  -- The remaining registers make nothing deliverable.
  obtain ⟨rfl, hkept⟩ := GicDistributorMmio.write_withdraws hset hpend h
  refine .inr (.inr (.of_le _ hkept.queue ?_))
  rintro n ⟨h1, h2, h3, h4, h5⟩
  rw [hkept.ctlr hctlr] at h1 h2
  rw [hkept.groupModifier hmodifier] at h5
  exact ⟨h1, h2, hkept.pending n h3, hkept.enable n h4, h5⟩

/-! ## The redistributor -/

theorem registerBit_ok {register x : BitVec 32} {intId : ℕ}
    (h : GicRedistributorMmio.registerBit register intId = .ok x) :
    x = if register.getLsbD intId then 1 else 0 := by
  obtain ⟨shift, hshift, h⟩ := Checked.bind_eq_ok.mp h
  unfold GicRedistributorMmio.checkedShift at hshift
  split_ifs at hshift
  cases hshift
  cases h
  exact FixedArray.shiftRight_and_one _ _

theorem redistributor_getEnable_ok {r : GicRedistributorMmio} {intId : ℕ} {on : Bool}
    (h : r.getEnable intId = .ok on) : on = r.enable.getLsbD intId := by
  obtain ⟨x, hx, h⟩ := Checked.bind_eq_ok.mp h
  cases h
  rw [registerBit_ok hx]
  cases r.enable.getLsbD intId <;> simp

theorem redistributor_getGroupModifier_ok {r : GicRedistributorMmio} {intId g : ℕ}
    (h : r.getGroupModifier intId = .ok g) :
    g = if r.groupModifier.getLsbD intId then 1 else 0 := by
  obtain ⟨x, hx, h⟩ := Checked.bind_eq_ok.mp h
  cases h
  rw [registerBit_ok hx]
  cases r.groupModifier.getLsbD intId <;> rfl

theorem redistributor_triggerInterrupt_grows {r r' : GicRedistributorMmio} {c c' : CpuInterface}
    {intId : ℕ} {physicalIntId : Option ℕ}
    (h : r.triggerInterrupt c intId physicalIntId = .ok (r', c')) : Grows c c' := by
  unfold GicRedistributorMmio.triggerInterrupt at h
  by_cases hasleep : r.waker &&& gicrWakerChildrenAsleep ≠ 0
  · rw [if_pos hasleep] at h
    cases h
    exact .refl c
  rw [if_neg hasleep] at h
  obtain ⟨r₁, -, h⟩ := Checked.bind_eq_ok.mp h
  obtain ⟨enabled, -, h⟩ := Checked.bind_eq_ok.mp h
  by_cases henabled : (!enabled) = true
  · rw [if_pos henabled] at h
    cases h
    exact .refl c
  rw [if_neg henabled] at h
  obtain ⟨modifier, -, h⟩ := Checked.bind_eq_ok.mp h
  by_cases hmodifier : modifier = 1
  · rw [if_pos hmodifier] at h
    cases h
    exact .refl c
  rw [if_neg hmodifier] at h
  obtain ⟨group, -, h⟩ := Checked.bind_eq_ok.mp h
  obtain ⟨priority, -, h⟩ := Checked.bind_eq_ok.mp h
  split_ifs at h
  · cases h
    exact .add _ _
  · obtain ⟨c₁, hsgi, h⟩ := Checked.bind_eq_ok.mp h
    cases h
    exact sendSgi_ok hsgi

theorem redistributor_triggerBits_grows {ready : GicRedistributorMmio → ℕ → Except Panic Bool} :
    ∀ (rounds intId : ℕ) (value : BitVec 64) (r r' : GicRedistributorMmio) (c c' : CpuInterface),
      GicRedistributorMmio.triggerBits ready rounds intId value r c = .ok (r', c') →
      Grows c c' := by
  intro rounds
  induction rounds with
  | zero =>
    intro intId value r r' c c' h
    cases h
    exact .refl c
  | succ rounds ih =>
    intro intId value r r' c c' h
    rw [GicRedistributorMmio.triggerBits] at h
    split_ifs at h
    · cases h
      exact .refl c
    · obtain ⟨⟨r₁, c₁⟩, hround, h⟩ := Checked.bind_eq_ok.mp h
      apply Grows.trans _ (ih _ _ _ _ _ _ h)
      unfold GicRedistributorMmio.triggerBit at hround
      split_ifs at hround
      · obtain ⟨b, -, hround⟩ := Checked.bind_eq_ok.mp hround
        split_ifs at hround
        · exact redistributor_triggerInterrupt_grows hround
        · cases hround
          exact .refl c
      · cases hround
        exact .refl c

theorem redistributor_write_grows {r r' : GicRedistributorMmio} {c c' : CpuInterface}
    {offset accessWidth : ℕ} {value : BitVec 64}
    (h : r.write c offset accessWidth value = .ok (r', c')) : Grows c c' := by
  by_cases hset : offset = gicrIsenabler0 ∧ accessWidth = 32
  · obtain ⟨rfl, rfl⟩ := hset
    rw [GicRedistributorMmio.write_isenabler] at h
    exact redistributor_triggerBits_grows _ _ _ _ _ _ _ h
  by_cases hpend : offset = gicrIspendr0 ∧ accessWidth = 32
  · obtain ⟨rfl, rfl⟩ := hpend
    rw [GicRedistributorMmio.write_ispendr] at h
    exact redistributor_triggerBits_grows _ _ _ _ _ _ _ h
  rw [(GicRedistributorMmio.write_withdraws hset hpend h).1]
  exact .refl c

/-! ## The handlers -/

theorem recycle_spec {d d' : GicDistributorMmio} {r r' : GicRedistributorMmio}
    {c c' : CpuInterface} {i : ℕ} (h : recycle d r c i = .ok (d', r', c')) :
    c' = c.setLr i 0 ∧ d'.toInjectInterrupt = d.toInjectInterrupt ∧
      ∀ n, Deliverable d' n → Deliverable d n := by
  unfold recycle at h
  extract_lets intId at h
  split_ifs at h with hspi
  · obtain ⟨d₁, hpending, h⟩ := Checked.bind_eq_ok.mp h
    obtain ⟨d₂, hactive, h⟩ := Checked.bind_eq_ok.mp h
    cases h
    obtain ⟨active, -, hd₂⟩ := Checked.bind_eq_ok.mp hactive
    cases hd₂
    refine ⟨rfl, (changePendingStatus_queue hpending).1, ?_⟩
    intro n hd
    by_cases hn : n = intId
    · obtain ⟨pending, hbank, hd₁⟩ := Checked.bind_eq_ok.mp hpending
      cases hd₁
      have hbit := hd.2.2.1
      dsimp only at hbit
      rw [changeBank_bit hbank, if_pos hn] at hbit
      cases hbit
    · exact changePendingStatus_other hpending hn hd
  · obtain ⟨r₁, -, h⟩ := Checked.bind_eq_ok.mp h
    obtain ⟨r₂, -, h⟩ := Checked.bind_eq_ok.mp h
    cases h
    exact ⟨rfl, rfl, fun _ hd => hd⟩

/-- The maintenance handler empties inactive registers only and makes nothing
deliverable. -/
theorem maintenanceFrom_spec {eoiBits : ℕ → Bool} :
    ∀ (n i : ℕ) (d d' : GicDistributorMmio) (r r' : GicRedistributorMmio) (c c' : CpuInterface),
      i + n ≤ 3 → (∀ j, eoiBits j = true → isInactive (c.lr j) = true) →
      maintenanceFrom eoiBits n i d r c = .ok (d', r', c') →
      Grows c c' ∧ d'.toInjectInterrupt = d.toInjectInterrupt ∧
        ∀ m, Deliverable d' m → Deliverable d m := by
  intro n
  induction n with
  | zero =>
    intro i d d' r r' c c' _ _ h
    cases h
    exact ⟨.refl c, rfl, fun _ hd => hd⟩
  | succ n ih =>
    intro i d d' r r' c c' hi hended h
    rw [maintenanceFrom] at h
    split_ifs at h with hbit
    · obtain ⟨⟨d₁, r₁, c₁⟩, hrecycle, h⟩ := Checked.bind_eq_ok.mp h
      obtain ⟨rfl, hqueue, hdeliver⟩ := recycle_spec hrecycle
      have hended₁ : ∀ j, eoiBits j = true → isInactive ((c.setLr i 0).lr j) = true := by
        intro j hj
        rw [c.lr_setLr (by omega)]
        split_ifs
        · exact isInactive_zero
        · exact hended j hj
      obtain ⟨hgrows, hqueue', hdeliver'⟩ := ih (i + 1) _ _ _ _ _ _ (by omega) hended₁ h
      refine ⟨Grows.trans (Grows.setLr (by omega) ?_) hgrows, hqueue'.trans hqueue,
        fun m hd => hdeliver m (hdeliver' m hd)⟩
      intro hused
      rw [hended i hbit] at hused
      cases hused
    · exact ih (i + 1) _ _ _ _ _ _ (by omega) hended h

theorem maintenanceInterruptHandler_spec {d d' : GicDistributorMmio}
    {r r' : GicRedistributorMmio} {c c' : CpuInterface}
    (h : maintenanceInterruptHandler d r c = .ok (d', r', c')) :
    Grows c c' ∧ d'.toInjectInterrupt = d.toInjectInterrupt ∧
      ∀ m, Deliverable d' m → Deliverable d m := by
  apply maintenanceFrom_spec _ _ _ _ _ _ _ _ _ _ h
  · have := supportedLrn_le c
    omega
  · intro j hj
    simp only [CpuInterface.ichEisr, Bool.and_eq_true] at hj
    exact hj.1.1

end Min1visor.Vgic
