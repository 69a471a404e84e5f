import Min1visor.Library.PackedFields
import Min1visor.Gicv3Routing

/-!
# Packed values of the virtual GIC

The code writes two kinds of packed values to the CPU interface: the entries of the list
registers and the value that signals another CPU. Both are joined from shifted numbers
without masks, so that a number that is too large, or shifted to the wrong place, spoils a
field of another.
-/
namespace Min1visor.Vgicv3
open PackedFields

/-! ## Entries of the list registers -/

/-- The fields of an entry, as the architecture lays them out. Without a physical interrupt,
bit 9 of its number asks for maintenance at the end of the interrupt. -/
structure ListRegister where
  state : ℕ
  hw : ℕ
  group : ℕ
  reservedHigh : ℕ
  priority : ℕ
  reservedLow : ℕ
  pIntId : ℕ
  vIntId : ℕ
  deriving DecidableEq

def ListRegister.of (entry : BitVec 64) : ListRegister where
  state := (entry.extractLsb' 62 2).toNat
  hw := (entry.extractLsb' 61 1).toNat
  group := (entry.extractLsb' 60 1).toNat
  reservedHigh := (entry.extractLsb' 56 4).toNat
  priority := (entry.extractLsb' 48 8).toNat
  reservedLow := (entry.extractLsb' 45 3).toNat
  pIntId := (entry.extractLsb' 32 13).toNat
  vIntId := (entry.extractLsb' 0 32).toNat

/-- The entries have the same fields, up to their states. -/
def SameButState (e f : BitVec 64) : Prop :=
  { ListRegister.of e with state := (ListRegister.of f).state } = ListRegister.of f

/-- The fields take up all bits of an entry. -/
theorem ListRegister.of_injective : Function.Injective ListRegister.of := by
  have hbit : ∀ {e f : BitVec 64} {lo len i : ℕ},
      (e.extractLsb' lo len).toNat = (f.extractLsb' lo len).toNat → lo ≤ i → i < lo + len →
        e.getLsbD i = f.getLsbD i := by
    intro e f lo len i h hlo hhi
    have hfield := congrArg (fun x => x.getLsbD (i - lo)) (BitVec.eq_of_toNat_eq h)
    simpa [BitVec.getLsbD_extractLsb', show i - lo < len by omega,
      show lo + (i - lo) = i by omega] using hfield
  intro e f h
  simp only [ListRegister.of, ListRegister.mk.injEq] at h
  obtain ⟨hstate, hhw, hgroup, hhigh, hpriority, hlow, hphysical, hvirtual⟩ := h
  apply BitVec.eq_of_getLsbD_eq
  intro i hi
  rcases Nat.lt_or_ge i 32 with h32 | h32
  · exact hbit hvirtual (by omega) (by omega)
  rcases Nat.lt_or_ge i 45 with h45 | h45
  · exact hbit hphysical (by omega) (by omega)
  rcases Nat.lt_or_ge i 48 with h48 | h48
  · exact hbit hlow (by omega) (by omega)
  rcases Nat.lt_or_ge i 56 with h56 | h56
  · exact hbit hpriority (by omega) (by omega)
  rcases Nat.lt_or_ge i 60 with h60 | h60
  · exact hbit hhigh (by omega) (by omega)
  rcases Nat.lt_or_ge i 61 with h61 | h61
  · exact hbit hgroup (by omega) (by omega)
  rcases Nat.lt_or_ge i 62 with h62 | h62
  · exact hbit hhw (by omega) (by omega)
  · exact hbit hstate (by omega) (by omega)

/-- The field for the physical interrupt, with the bit in front of it. -/
def physicalFields : Option ℕ → ℕ × ℕ
  | some pIntId => (1, pIntId)
  | none => (0, 2 ^ 9)

/-- The numbers that a new entry is joined from. -/
def entryFields (intId group priority : ℕ) (physicalIntId : Option ℕ) : List Placed :=
  [⟨62, 2, 1⟩, ⟨60, 1, group⟩, ⟨48, 8, priority⟩, ⟨0, 32, intId⟩,
    ⟨61, 1, (physicalFields physicalIntId).1⟩, ⟨32, 13, (physicalFields physicalIntId).2⟩]

theorem createListRegisterEntry_eq (intId group priority : ℕ) (physicalIntId : Option ℕ) :
    createListRegisterEntry intId group priority physicalIntId =
      join 64 (entryFields intId group priority physicalIntId) := by
  have hpending : ichLrnEl2StatusPending = BitVec.ofNat 64 1 <<< 62 := by decide
  have hhw : ichLrnEl2Hw = BitVec.ofNat 64 1 <<< 61 := by decide
  have heoi : ichLrnEl2Eoi = BitVec.ofNat 64 (2 ^ 9) <<< 32 := by decide
  cases physicalIntId with
  | some pIntId =>
    simp only [createListRegisterEntry, entryFields, physicalFields, join, hpending, hhw]
    simp [BitVec.or_assoc]
  | none =>
    simp only [createListRegisterEntry, entryFields, physicalFields, join, hpending, heoi]
    simp [BitVec.or_assoc]

/-- Every field of a new entry holds its argument. -/
theorem of_createListRegisterEntry {intId group priority : ℕ} {physicalIntId : Option ℕ}
    (hid : intId < 2 ^ 32) (hgroup : group < 2 ^ 1) (hpriority : priority < 2 ^ 8)
    (hphysical : ∀ p, physicalIntId = some p → p < 2 ^ 13) :
    ListRegister.of (createListRegisterEntry intId group priority physicalIntId) =
      ⟨1, (physicalFields physicalIntId).1, group, 0, priority, 0, (physicalFields physicalIntId).2,
        intId⟩ := by
  obtain ⟨hhw, hp⟩ : (physicalFields physicalIntId).1 < 2 ^ 1 ∧
      (physicalFields physicalIntId).2 < 2 ^ 13 := by
    cases physicalIntId with
    | some pIntId => exact ⟨show 1 < 2 ^ 1 by decide, hphysical pIntId rfl⟩
    | none => exact ⟨show 0 < 2 ^ 1 by decide, show 2 ^ 9 < 2 ^ 13 by decide⟩
  have hfits : ∀ f ∈ entryFields intId group priority physicalIntId, f.Fits := by
    simp only [entryFields, List.forall_mem_cons, Placed.Fits]
    exact ⟨by decide, hgroup, hpriority, hid, hhw, hp, by simp⟩
  simp only [ListRegister.of, createListRegisterEntry_eq, ListRegister.mk.injEq]
  refine ⟨?_, ?_, ?_, ?_, ?_, ?_, ?_, ?_⟩
  · exact extract_join_one hfits rfl (by decide)
  · exact extract_join_one hfits rfl (by decide)
  · exact extract_join_one hfits rfl (by decide)
  · exact extract_join_none hfits rfl
  · exact extract_join_one hfits rfl (by decide)
  · exact extract_join_none hfits rfl
  · exact extract_join_one hfits rfl (by decide)
  · exact extract_join_one hfits rfl (by decide)

/-! ### Decoding by the code -/

theorem vintid_toNat (entry : BitVec 64) : (vintid entry).toNat = (ListRegister.of entry).vIntId := by
  have hsame : vintid entry = (entry.extractLsb' 0 32).setWidth 64 := by
    apply BitVec.eq_of_getLsbD_eq
    intro i hi
    rw [getLsbD_vintid]
    simp [BitVec.getLsbD_extractLsb', hi, Bool.and_comm]
  rw [hsame, BitVec.toNat_setWidth_of_le (by decide)]
  rfl

theorem status_toNat (entry : BitVec 64) :
    entry &&& ichLrnEl2Status = BitVec.ofNat 64 (ListRegister.of entry).state <<< 62 := by
  have hmask : ∀ i, i < 64 → ichLrnEl2Status.getLsbD i = decide (62 ≤ i) := by decide
  apply BitVec.eq_of_getLsbD_eq
  intro i hi
  rw [BitVec.getLsbD_and, hmask i hi]
  simp only [ListRegister.of, BitVec.ofNat_toNat, BitVec.getLsbD_shiftLeft, BitVec.getLsbD_setWidth,
    BitVec.getLsbD_extractLsb', hi, decide_true, Bool.true_and]
  by_cases hlow : i < 62
  · simp [hlow, show ¬ 62 ≤ i by omega]
  · simp [hlow, show 62 ≤ i by omega, show i - 62 < 2 by omega, show i - 62 < 64 by omega,
      show 62 + (i - 62) = i by omega]

/-! ### Merging -/

/-- A register in use keeps its entry, or has the pending state merged into it. -/
theorem addVirtualInterrupt_lr {c : CpuInterface} {i : ℕ} (hused : isInactive (c.lr i) = false)
    (entry : BitVec 64) : (addVirtualInterrupt c entry).lr i = c.lr i ∨
      (addVirtualInterrupt c entry).lr i = c.lr i ||| ichLrnEl2StatusPending := by
  have hsupported := supportedLrn_le c
  have hadd := addVirtualInterrupt_spec c entry
  generalize addVirtualInterrupt c entry = c' at hadd
  cases hadd with
  | @taken k hk hbelow hfree =>
    have hne : i ≠ k := by
      rintro rfl
      cases hused.symm.trans hfree
    rw [c.lr_setLr (by omega), if_neg hne]
    exact .inl rfl
  | @merged k hk hbelow hused' hsame =>
    rw [c.lr_setLr (by omega)]
    by_cases hik : i = k
    · subst hik
      rw [if_pos rfl]
      exact .inr rfl
    · rw [if_neg hik]
      exact .inl rfl
  | overflow hall => exact .inl rfl

theorem SameButState.refl (e : BitVec 64) : SameButState e e := rfl

theorem SameButState.trans {e f g : BitVec 64} (h : SameButState e f) (h' : SameButState f g) :
    SameButState e g :=
  Eq.trans (congrArg (fun r : ListRegister => { r with state := (ListRegister.of g).state }) h) h'

theorem sameButState_merge (e : BitVec 64) : SameButState (e ||| ichLrnEl2StatusPending) e := by
  have hpending (lo len : ℕ) (h : lo + len ≤ 62) :
      (e ||| ichLrnEl2StatusPending).extractLsb' lo len = e.extractLsb' lo len := by
    have hplace : ichLrnEl2StatusPending = BitVec.ofNat 64 1 <<< 62 := by decide
    rw [BitVec.extractLsb'_or, hplace,
      extract_apart (m := 1) (by decide) (.inr h)]
    simp
  simp only [SameButState, ListRegister.of, hpending _ _ (show 61 + 1 ≤ 62 by decide),
    hpending _ _ (show 60 + 1 ≤ 62 by decide), hpending _ _ (show 56 + 4 ≤ 62 by decide),
    hpending _ _ (show 48 + 8 ≤ 62 by decide), hpending _ _ (show 45 + 3 ≤ 62 by decide),
    hpending _ _ (show 32 + 13 ≤ 62 by decide), hpending _ _ (show 0 + 32 ≤ 62 by decide)]

/-- Over a whole sequence, a register in use stays in use, with the same fields but the state. -/
theorem addAll_sameButState {c : CpuInterface} {i : ℕ} (entries : List (BitVec 64))
    (hused : isInactive (c.lr i) = false) :
    isInactive ((entries.foldl addVirtualInterrupt c).lr i) = false ∧
      SameButState ((entries.foldl addVirtualInterrupt c).lr i) (c.lr i) := by
  induction entries generalizing c with
  | nil => exact ⟨hused, SameButState.refl _⟩
  | cons entry entries ih =>
    have hstep : isInactive ((addVirtualInterrupt c entry).lr i) = false ∧
        SameButState ((addVirtualInterrupt c entry).lr i) (c.lr i) := by
      rcases addVirtualInterrupt_lr hused entry with h | h
      · rw [h]
        exact ⟨hused, SameButState.refl _⟩
      · rw [h]
        exact ⟨(merge_entry _).2, sameButState_merge _⟩
    obtain ⟨hkept, hfields⟩ := ih hstep.1
    exact ⟨hkept, hfields.trans hstep.2⟩

/-- What the code decodes from a new entry are its arguments, which do not overlap, and an entry
that is merged with others keeps its fields but the state. -/
theorem entry_roundTrip {intId group priority : ℕ} {physicalIntId : Option ℕ} (hid : intId < 1024)
    (hgroup : group < 2) (hpriority : priority < 256)
    (hphysical : ∀ p, physicalIntId = some p → p < 1024) :
    let entry := createListRegisterEntry intId group priority physicalIntId
    (vintid entry).toNat = intId ∧ entry &&& ichLrnEl2Status = ichLrnEl2StatusPending ∧
      ListRegister.of entry = ⟨1, (physicalFields physicalIntId).1, group, 0, priority, 0,
        (physicalFields physicalIntId).2, intId⟩ ∧
      ∀ (c : CpuInterface) (i : ℕ) (entries : List (BitVec 64)), isInactive (c.lr i) = false →
        isInactive ((entries.foldl addVirtualInterrupt c).lr i) = false ∧
          SameButState ((entries.foldl addVirtualInterrupt c).lr i) (c.lr i) := by
  intro entry
  have hof := of_createListRegisterEntry (hid.trans (by decide)) hgroup hpriority
    fun p hp => (hphysical p hp).trans (by decide)
  refine ⟨?_, ?_, hof, fun c i entries hused => addAll_sameButState entries hused⟩
  · rw [vintid_toNat, hof]
  · rw [status_toNat, hof]
    exact show BitVec.ofNat 64 1 <<< 62 = ichLrnEl2StatusPending by decide

theorem entry_roundTrip_timer :
    (vintid (createListRegisterEntry 27 1 0xA0 (some 27))).toNat = 27 ∧
      ListRegister.of (createListRegisterEntry 27 1 0xA0 (some 27)) =
        ⟨1, 1, 1, 0, 0xA0, 0, 27, 27⟩ := by
  have hid : 27 < 1024 := by decide
  have hgroup : 1 < 2 := by decide
  have hpriority : 0xA0 < 256 := by decide
  have hphysical : ∀ p, some 27 = some p → p < 1024 := by
    intro p hp
    cases hp
    decide
  have h := entry_roundTrip hid hgroup hpriority hphysical
  exact ⟨h.1, h.2.2.1⟩

end Min1visor.Vgicv3

namespace Min1visor.Gicv3Mmio
open Vgicv3 PackedFields

/-! ## The signal to another CPU -/

/-- The affinity's fields, as numbers. -/
theorem affinity_eq (x : BitVec 64) :
    aff3 x = BitVec.ofNat 64 (x.extractLsb' 32 8).toNat ∧
      aff2 x = BitVec.ofNat 64 (x.extractLsb' 16 8).toNat ∧
      aff1 x = BitVec.ofNat 64 (x.extractLsb' 8 8).toNat ∧
      aff0 x = BitVec.ofNat 64 (x.extractLsb' 0 8).toNat := by
  have h0 : aff0 x >>> 0 = BitVec.ofNat 64 (x.extractLsb' 0 8).toNat :=
    mask_and_shiftRight (s := 0) (m := 8) x (by decide)
  rw [BitVec.ushiftRight_zero] at h0
  exact ⟨mask_and_shiftRight (s := 32) (m := 8) x (by decide),
    mask_and_shiftRight (s := 16) (m := 8) x (by decide),
    mask_and_shiftRight (s := 8) (m := 8) x (by decide), h0⟩

/-- The numbers that the value of an affinity is joined from. -/
def sgiFields (x : BitVec 64) : List Placed :=
  [⟨48, 8, (x.extractLsb' 32 8).toNat⟩, ⟨32, 8, (x.extractLsb' 16 8).toNat⟩,
    ⟨24, 4, injectInterruptIntId⟩, ⟨48, 8, (x.extractLsb' 8 8).toNat⟩,
    ⟨0, 16, 2 ^ (x.extractLsb' 0 8).toNat⟩]

theorem iccSgi1rValue_eq (x : BitVec 64) : iccSgi1rValue x = join 64 (sgiFields x) := by
  obtain ⟨h3, h2, h1, h0⟩ := affinity_eq x
  have hlt : (x.extractLsb' 0 8).toNat < 2 ^ 64 := (x.extractLsb' 0 8).isLt.trans (by decide)
  have hbit : ((1 <<< (aff0 x).toNat : ℕ) : BitVec 64) =
      BitVec.ofNat 64 (2 ^ (x.extractLsb' 0 8).toNat) := by
    rw [h0, BitVec.toNat_ofNat, Nat.mod_eq_of_lt hlt, Nat.one_shiftLeft, BitVec.natCast_eq_ofNat]
  rw [iccSgi1rValue, hbit, h3, h2, h1]
  simp [sgiFields, join, BitVec.or_assoc]

/-- The target list has sixteen CPUs. -/
theorem aff0_lt_iff (x : BitVec 64) : aff0 x < 16 ↔ (x.extractLsb' 0 8).toNat < 16 := by
  have hlt : (x.extractLsb' 0 8).toNat < 2 ^ 64 := (x.extractLsb' 0 8).isLt.trans (by decide)
  rw [(affinity_eq x).2.2.2, BitVec.lt_def, BitVec.toNat_ofNat, Nat.mod_eq_of_lt hlt]
  rfl

theorem sgiFields_fits {x : BitVec 64} (h : aff0 x < 16) : ∀ f ∈ sgiFields x, f.Fits := by
  have hlist : 2 ^ (x.extractLsb' 0 8).toNat < 2 ^ 16 :=
    Nat.pow_lt_pow_right (by decide) ((aff0_lt_iff x).mp h)
  simp only [sgiFields, List.forall_mem_cons, Placed.Fits]
  exact ⟨BitVec.isLt _, BitVec.isLt _, by decide, BitVec.isLt _, hlist, by simp⟩

/-- The value reaches the CPU of the affinity, with the interrupt that makes it look at its queue. -/
structure Kicks (sgi affinity : BitVec 64) : Prop extends Vgic.SgiTargets sgi affinity where
  intId : (sgi.extractLsb' 24 4).toNat = injectInterruptIntId

/-- Whatever the affinity, `Aff1` of the value is zero. -/
theorem iccSgi1rValue_aff1 {x : BitVec 64} (h : aff0 x < 16) :
    (iccSgi1rValue x).extractLsb' 16 8 = 0 := by
  apply BitVec.eq_of_toNat_eq
  rw [iccSgi1rValue_eq, extract_join_none (sgiFields_fits h) rfl]
  rfl

theorem aff1_eq_zero_iff (x : BitVec 64) : aff1 x = 0 ↔ x.extractLsb' 8 8 = 0 := by
  rw [(affinity_eq x).2.2.1, BitVec.ofNat_toNat]
  constructor
  · intro h
    apply BitVec.eq_of_toNat_eq
    have hnat := congrArg BitVec.toNat h
    rwa [BitVec.toNat_setWidth_of_le (by decide)] at hnat
  · intro h
    rw [h]
    rfl

theorem kicks_iff {x : BitVec 64} (h : aff0 x < 16) : Kicks (iccSgi1rValue x) x ↔ aff1 x = 0 := by
  rw [aff1_eq_zero_iff]
  constructor
  · intro hkicks
    exact hkicks.aff1.symm.trans (iccSgi1rValue_aff1 h)
  · intro haff1
    have hfits := sgiFields_fits h
    have h0 := (aff0_lt_iff x).mp h
    have hlow : (x.extractLsb' 0 4).toNat = (x.extractLsb' 0 8).toNat := by
      have hnat : (x.extractLsb' 0 4).toNat = (x.extractLsb' 0 8).toNat % 16 := by
        simp [BitVec.extractLsb'_toNat, Nat.mod_mod_of_dvd]
      rw [hnat, Nat.mod_eq_of_lt h0]
    have hhigh : x.extractLsb' 4 4 = 0 := by
      apply BitVec.eq_of_toNat_eq
      have hnat : (x.extractLsb' 4 4).toNat = (x.extractLsb' 0 8).toNat / 16 := by
        simp only [BitVec.extractLsb'_toNat, Nat.shiftRight_eq_div_pow]
        omega
      rw [hnat, Nat.div_eq_of_lt h0]
      rfl
    constructor
    · constructor
      · rw [iccSgi1rValue_eq, extract_join hfits]
        have hfilter : (sgiFields x).filter (Placed.meets 48 8) =
            [⟨48, 8, (x.extractLsb' 32 8).toNat⟩, ⟨48, 8, (x.extractLsb' 8 8).toNat⟩] := rfl
        rw [hfilter, haff1, join, BitVec.extractLsb'_or, extract_place (by decide),
          BitVec.ofNat_toNat, BitVec.setWidth_eq]
        simp [join]
      · apply BitVec.eq_of_toNat_eq
        rw [iccSgi1rValue_eq]
        exact extract_join_one hfits rfl (by decide)
      · rw [haff1]
        exact iccSgi1rValue_aff1 h
      · apply BitVec.eq_of_toNat_eq
        rw [hhigh, iccSgi1rValue_eq, extract_join_none hfits rfl]
        rfl
      · apply BitVec.eq_of_toNat_eq
        rw [hlow, BitVec.toNat_twoPow, iccSgi1rValue_eq, Nat.mod_eq_of_lt
          (Nat.pow_lt_pow_right (by decide) h0)]
        exact extract_join_one hfits rfl (by decide)
      · have hnone : ((iccSgi1rValue x).extractLsb' 40 1).toNat = 0 := by
          rw [iccSgi1rValue_eq]
          exact extract_join_none hfits rfl
        have hbit := congrArg (fun y : BitVec 1 => y.getLsbD 0) (BitVec.eq_of_toNat_eq (y := 0) hnone)
        simpa [BitVec.getLsbD_extractLsb'] using hbit
    · rw [iccSgi1rValue_eq]
      exact extract_join_one hfits rfl (by decide)

/-! ## What the devices send -/

/-- A device wrote the value to reach the affinity: the distributor takes it from a router, the
redistributor from itself. -/
inductive Sends (affinity sgi : BitVec 64) : Prop
  | distributor {d d' : GicDistributorMmio} {c c' : CpuInterface} {intId : ℕ}
      {physicalIntId : Option ℕ} (hrouter : d.getRouter intId = .ok affinity)
      (htrigger : d.triggerInterrupt c intId physicalIntId = .ok (d', c'))
      (hsent : c'.iccSgi1r = c.iccSgi1r ++ [sgi])
  | redistributor {r r' : GicRedistributorMmio} {c c' : CpuInterface} {intId : ℕ}
      {physicalIntId : Option ℕ} (haffinity : r.affinity = affinity)
      (htrigger : r.triggerInterrupt c intId physicalIntId = .ok (r', c'))
      (hsent : c'.iccSgi1r = c.iccSgi1r ++ [sgi])

theorem addVirtualInterrupt_iccSgi1r (c : CpuInterface) (entry : BitVec 64) :
    (addVirtualInterrupt c entry).iccSgi1r = c.iccSgi1r := by
  have hadd := addVirtualInterrupt_spec c entry
  generalize addVirtualInterrupt c entry = c' at hadd
  cases hadd <;> rfl

theorem sendSgi_value {c c' : CpuInterface} {affinity sgi : BitVec 64}
    (h : sendSgi c affinity = .ok c') (hsent : c'.iccSgi1r = c.iccSgi1r ++ [sgi]) :
    aff0 affinity < 16 ∧ sgi = iccSgi1rValue affinity := by
  unfold sendSgi at h
  split_ifs at h with haff
  cases h
  exact ⟨haff, by simpa using hsent.symm⟩

/-- Triggering an interrupt sends nothing, or the value for the router's affinity. -/
theorem distributor_sent {d d' : GicDistributorMmio} {c c' : CpuInterface} {intId : ℕ}
    {physicalIntId : Option ℕ} (hid : intId < 1024)
    (h : d.triggerInterrupt c intId physicalIntId = .ok (d', c')) :
    c'.iccSgi1r = c.iccSgi1r ∨ sendSgi c (d.router.getD intId 0) = .ok c' := by
  rw [d.triggerInterrupt_eq c hid] at h
  split_ifs at h
  · cases h
    exact .inl rfl
  · cases h
    exact .inl rfl
  · simp only [GicDistributorMmio.deliver] at h
    split_ifs at h
    · cases h
      exact .inl rfl
    · cases h
      exact .inl (addVirtualInterrupt_iccSgi1r _ _)
    · obtain ⟨c₁, hsgi, hpair⟩ := Checked.bind_eq_ok.mp h
      cases hpair
      exact .inr hsgi

theorem redistributor_sent {r r' : GicRedistributorMmio} {c c' : CpuInterface} {intId : ℕ}
    {physicalIntId : Option ℕ} (h : r.triggerInterrupt c intId physicalIntId = .ok (r', c')) :
    c'.iccSgi1r = c.iccSgi1r ∨ sendSgi c r.affinity = .ok c' := by
  unfold GicRedistributorMmio.triggerInterrupt at h
  by_cases hasleep : r.waker &&& gicrWakerChildrenAsleep ≠ 0
  · rw [if_pos hasleep] at h
    cases h
    exact .inl rfl
  rw [if_neg hasleep] at h
  obtain ⟨r₁, hpending, h⟩ := Checked.bind_eq_ok.mp h
  obtain ⟨pending, -, hr₁⟩ := Checked.bind_eq_ok.mp hpending
  cases hr₁
  obtain ⟨enabled, -, h⟩ := Checked.bind_eq_ok.mp h
  by_cases hoff : (!enabled) = true
  · rw [if_pos hoff] at h
    cases h
    exact .inl rfl
  rw [if_neg hoff] at h
  obtain ⟨modifier, -, h⟩ := Checked.bind_eq_ok.mp h
  by_cases hone : modifier = 1
  · rw [if_pos hone] at h
    cases h
    exact .inl rfl
  rw [if_neg hone] at h
  obtain ⟨group, -, h⟩ := Checked.bind_eq_ok.mp h
  obtain ⟨priority, -, h⟩ := Checked.bind_eq_ok.mp h
  split_ifs at h with hhere
  · cases h
    exact .inl (addVirtualInterrupt_iccSgi1r _ _)
  · obtain ⟨c₁, hsgi, h⟩ := Checked.bind_eq_ok.mp h
    cases h
    exact .inr hsgi

theorem Sends.value {affinity sgi : BitVec 64} (h : Sends affinity sgi) :
    aff0 affinity < 16 ∧ sgi = iccSgi1rValue affinity := by
  have hnone (l : List (BitVec 64)) : l ≠ l ++ [sgi] := by simp
  cases h with
  | @distributor d d' c c' intId physicalIntId hrouter htrigger hsent =>
    have hid : intId < 1020 := by
      by_contra hid
      simp [GicDistributorMmio.getRouter, FixedArray.get, hid] at hrouter
    rw [d.getRouter_eq hid] at hrouter
    cases hrouter
    rcases distributor_sent (by omega) htrigger with hsame | hsgi
    · exact absurd (hsame.symm.trans hsent) (hnone _)
    · exact sendSgi_value hsgi hsent
  | @redistributor r r' c c' intId physicalIntId haffinity htrigger hsent =>
    cases haffinity
    rcases redistributor_sent htrigger with hsame | hsgi
    · exact absurd (hsame.symm.trans hsent) (hnone _)
    · exact sendSgi_value hsgi hsent

/-- The value of a signal gives away the affinity that it reaches. -/
theorem sameAffinity_of_kicks {x y sgi : BitVec 64} (hx : Kicks sgi x) (hy : Kicks sgi y) :
    SameAffinity x y := by
  have h3 := hx.aff3.symm.trans hy.aff3
  have h2 := hx.aff2.symm.trans hy.aff2
  have h1 := hx.aff1.symm.trans hy.aff1
  have hhigh := hx.range.symm.trans hy.range
  have hlow : (x.extractLsb' 0 4).toNat = (y.extractLsb' 0 4).toNat := by
    have hlist := congrArg BitVec.toNat (hx.targetList.symm.trans hy.targetList)
    have hbound (z : BitVec 64) : 2 ^ (z.extractLsb' 0 4).toNat < 2 ^ 16 :=
      Nat.pow_lt_pow_right (by decide) (BitVec.isLt _)
    rw [BitVec.toNat_twoPow, BitVec.toNat_twoPow, Nat.mod_eq_of_lt (hbound x),
      Nat.mod_eq_of_lt (hbound y)] at hlist
    exact Nat.pow_right_injective (by decide) hlist
  have h0 : (x.extractLsb' 0 8).toNat = (y.extractLsb' 0 8).toNat := by
    have hjoin (z : BitVec 64) : (z.extractLsb' 0 8).toNat =
        (z.extractLsb' 4 4).toNat * 16 + (z.extractLsb' 0 4).toNat := by
      simp only [BitVec.extractLsb'_toNat, Nat.shiftRight_eq_div_pow]
      omega
    rw [hjoin x, hjoin y, hhigh, hlow]
  obtain ⟨hx3, hx2, hx1, hx0⟩ := affinity_eq x
  obtain ⟨hy3, hy2, hy1, hy0⟩ := affinity_eq y
  exact ⟨by rw [hx3, hy3, h3], by rw [hx2, hy2, h2], by rw [hx1, hy1, h1], by rw [hx0, hy0, h0]⟩

/-- Signals reach the CPUs they are meant for, and tell them apart, exactly when these have an
`Aff1` of zero. -/
theorem sends_kicks_iff {x y sgi sgi' : BitVec 64} (hx : Sends x sgi) (hy : Sends y sgi') :
    (Kicks sgi x ∧ Kicks sgi' y ∧ (¬ SameAffinity x y → sgi ≠ sgi')) ↔ aff1 x = 0 ∧ aff1 y = 0 := by
  obtain ⟨hx0, rfl⟩ := hx.value
  obtain ⟨hy0, rfl⟩ := hy.value
  rw [kicks_iff hx0, kicks_iff hy0]
  constructor
  · rintro ⟨hx1, hy1, -⟩
    exact ⟨hx1, hy1⟩
  · rintro ⟨hx1, hy1⟩
    refine ⟨hx1, hy1, fun hne heq => hne ?_⟩
    have hkicks := (kicks_iff hy0).mpr hy1
    rw [← heq] at hkicks
    exact sameAffinity_of_kicks ((kicks_iff hx0).mpr hx1) hkicks

/-- A redistributor of an affinity, whose interrupt 27 is ready. -/
def awake (affinity : BitVec 64) : GicRedistributorMmio :=
  { GicRedistributorMmio.new 0 with affinity := affinity, waker := 0, enable := 0x8000000 }

/-- Every CPU that a target list can name is signalled by another one. -/
theorem sends_value {affinity : BitVec 64} (h : aff0 affinity < 16) :
    Sends affinity (iccSgi1rValue affinity) := by
  have hother : affinity ≠ mpidrToAffinity (~~~affinity) := by
    intro heq
    have hbit := congrArg (fun x => x.getLsbD 0) heq
    simp [mpidrToAffinity] at hbit
  have htrigger : ∃ r, (awake affinity).triggerInterrupt (.reset (~~~affinity) 3) 27 none =
      .ok (r, { CpuInterface.reset (~~~affinity) 3 with iccSgi1r := [iccSgi1rValue affinity] }) := by
    simp [GicRedistributorMmio.triggerInterrupt, GicRedistributorMmio.changePendingStatus,
      GicRedistributorMmio.changeRegister, GicRedistributorMmio.checkedShift,
      GicRedistributorMmio.getEnable, GicRedistributorMmio.getGroupModifier,
      GicRedistributorMmio.getGroup, GicRedistributorMmio.getPriority,
      GicRedistributorMmio.registerBit, GicRedistributorMmio.new, awake, FixedArray.get,
      CpuInterface.reset, sendSgi, hother]
    have hlist : aff0 affinity < 16#64 := h
    rw [if_pos hlist]
    exact ⟨_, rfl⟩
  obtain ⟨r, htrigger⟩ := htrigger
  exact .redistributor rfl htrigger rfl

/-- The CPU with affinity 0.0.1.0 is signalled by the value for 1.0.0.0. -/
theorem aff1_misplaced :
    Sends 0x100 0x100000b000001 ∧ Sends 0x100000000 0x100000b000001 ∧
      ¬ SameAffinity 0x100 0x100000000 ∧ ¬ Kicks 0x100000b000001 0x100 :=
  ⟨sends_value (by decide), sends_value (by decide), by decide, fun h => by simpa using h.aff1⟩

theorem sends_kicks_aff0 : Sends 0x2 0xb000004 ∧ Kicks 0xb000004 0x2 := by
  have hsends : Sends 0x2 0xb000004 := sends_value (by decide)
  exact ⟨hsends, ((sends_kicks_iff hsends hsends).mpr (by decide)).1⟩

end Min1visor.Gicv3Mmio
