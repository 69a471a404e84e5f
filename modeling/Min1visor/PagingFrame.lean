import Min1visor.PagingMap

/-!
# What the stage 2 mapper leaves alone

A block of memory that no table descriptor outside it leads to, that no output
address lies in and that the allocator does not hand out again is never written
by a mapping that returns `Ok`, whatever table it starts from.
-/
namespace Min1visor.Paging
open TranslationTable

variable {η : Type} {owns : η → List Extent → Prop} {zone : Extent}

/-- No descriptor outside the zone leads to a table that overlaps it. -/
def Avoids (zone : Extent) (mem : Memory) : Prop :=
  ∀ a, ¬ (zone.start ≤ a ∧ a < zone.stop) → Descriptor.isTableDescriptor (mem a) = true →
    Extent.Apart ⟨Descriptor.getNextLevelTableAddress (mem a), 8 * 512⟩ zone

/-- The mapper cannot come to the zone from here. -/
structure Clear (owns : η → List Extent → Prop) (zone : Extent) (s : Cursor η) : Prop where
  avoids : Avoids zone s.mem
  live : ∃ live, owns s.heap live ∧ zone ∈ live
  aligned : 4096 ∣ s.physicalAddress
  bound : s.physicalAddress + s.remainingSize ≤ 2 ^ 48
  apart : Extent.Apart ⟨s.physicalAddress, s.remainingSize⟩ zone

/-- The zone holds what it held before. -/
def Same (zone : Extent) (mem mem' : Memory) : Prop :=
  ∀ a, zone.start ≤ a → a < zone.stop → mem' a = mem a

theorem Same.trans {mem₁ mem₂ mem₃ : Memory} (h : Same zone mem₁ mem₂)
    (h' : Same zone mem₂ mem₃) : Same zone mem₁ mem₃ :=
  fun a hlo hhi => (h' a hlo hhi).trans (h a hlo hhi)

/-- An entry of a table apart from the zone lies outside the zone. -/
theorem entry_outside {t n i : ℕ} (ht : Extent.Apart ⟨t, 8 * n⟩ zone) (hi : i < n) :
    ¬ (zone.start ≤ t + 8 * i ∧ t + 8 * i < zone.stop) := by
  simp only [Extent.Apart, Extent.stop] at ht ⊢
  omega

theorem Avoids.update {mem : Memory} (h : Avoids zone mem) {a : ℕ} {d : Descriptor}
    (hd : Descriptor.isTableDescriptor d = true →
      Extent.Apart ⟨Descriptor.getNextLevelTableAddress d, 8 * 512⟩ zone) :
    Avoids zone (Function.update mem a d) := by
  intro b hb htable
  by_cases hab : b = a
  · subst hab
    rw [Function.update_self] at htable ⊢
    exact hd htable
  · rw [Function.update_of_ne hab] at htable ⊢
    exact h b hb htable

theorem Same.update {mem : Memory} {a : ℕ} (ha : ¬ (zone.start ≤ a ∧ a < zone.stop))
    (d : Descriptor) : Same zone mem (Function.update mem a d) := by
  intro b hlo hhi
  apply Function.update_of_ne
  rintro rfl
  exact ha ⟨hlo, hhi⟩

/-- A page descriptor looks like a table descriptor for its page. -/
theorem page_next {a : ℕ} (ha : 4096 ∣ a) (hn : a < 2 ^ 48) (r w : Bool) :
    Descriptor.getNextLevelTableAddress (Descriptor.page a (permission r w)) = a := by
  have hmask : (Descriptor.output 0 (permission r w) ||| 0b11) &&& tableAddressMask = 0#64 := by
    cases r <;> cases w <;> decide
  rw [Descriptor.getNextLevelTableAddress, Descriptor.page, output_eq ha hn,
    Descriptor.validateAsPageDescriptor, BitVec.or_assoc, or_and, hmask,
    and_mask_page ha hn (by decide), BitVec.or_zero, BitVec.toNat_ofNat]
  exact Nat.mod_eq_of_lt (hn.trans (by norm_num))

/-- Writing an output descriptor of one entry, for any size up to the rest. -/
theorem advance_clear {s s' : Cursor η} {a size : ℕ} {d : Descriptor} (h : Clear owns zone s)
    (ha : ¬ (zone.start ≤ a ∧ a < zone.stop)) (hsize : 4096 ∣ size) (hpos : 4096 ≤ size)
    (hd : Descriptor.isTableDescriptor d = true →
      Descriptor.getNextLevelTableAddress d = s.physicalAddress)
    (hadvance : s.advance a d size = .ok s') :
    Clear owns zone s' ∧ Same zone s.mem s'.mem := by
  obtain ⟨hle, rfl⟩ := advance_ok hadvance
  have hapart := h.apart
  have hbound := h.bound
  simp only [Extent.Apart, Extent.stop] at hapart
  refine ⟨⟨h.avoids.update ?_, h.live, h.aligned.add hsize, ?_, ?_⟩, Same.update ha d⟩
  · intro htable
    rw [hd htable]
    simp only [Extent.Apart, Extent.stop]
    omega
  · dsimp only
    omega
  · simp only [Extent.Apart, Extent.stop]
    omega

theorem mapPages_clear {t : ℕ} (r w : Bool) {num : ℕ} (ht : Extent.Apart ⟨t, 8 * num⟩ zone) :
    ∀ (n i : ℕ) (s s' : Cursor η), i + n = num → Clear owns zone s → 0 < s.remainingSize →
      mapPages t (permission r w) n i s = .ok s' →
      Clear owns zone s' ∧ Same zone s.mem s'.mem := by
  intro n
  induction n with
  | zero =>
    intro i s s' _ hclear _ h
    cases h
    exact ⟨hclear, fun _ _ _ => rfl⟩
  | succ n ih =>
    intro i s s' hi hclear hrem h
    obtain ⟨s₁, hadvance, hrest⟩ := mapPages_succ_ok h
    have hbound := hclear.bound
    obtain ⟨hclear₁, hsame⟩ := advance_clear hclear (entry_outside ht (by omega))
      (show 4096 ∣ span 0 by decide) (show 4096 ≤ span 0 by decide)
      (fun _ => page_next hclear.aligned (by omega) r w) hadvance
    rcases hrest with ⟨-, rfl⟩ | ⟨hne, hrest⟩
    · exact ⟨hclear₁, hsame⟩
    · obtain ⟨hclear₂, hsame₂⟩ := ih (i + 1) s₁ s' (by omega) hclear₁ (by omega) hrest
      exact ⟨hclear₂, hsame.trans hsame₂⟩

theorem nextLevelTable_clear {allocatePages : AllocatePages η}
    (hsource : PageSource allocatePages owns) {a next : ℕ} {s s' : Cursor η}
    (hclear : Clear owns zone s) (ha : ¬ (zone.start ≤ a ∧ a < zone.stop))
    (h : nextLevelTable allocatePages a s = .ok (some next, s')) :
    Clear owns zone s' ∧ Same zone s.mem s'.mem ∧ Extent.Apart ⟨next, 8 * 512⟩ zone ∧
      s'.remainingSize = s.remainingSize := by
  unfold nextLevelTable at h
  by_cases htable : Descriptor.isTableDescriptor (s.mem a) = true
  · rw [if_pos htable] at h
    obtain ⟨hnext, rfl⟩ := Prod.mk.inj (Except.ok.inj h)
    cases hnext
    exact ⟨hclear, fun _ _ _ => rfl, hclear.avoids a ha htable, rfl⟩
  · rw [if_neg htable] at h
    obtain ⟨⟨found, heap⟩, halloc, h⟩ := Checked.bind_eq_ok.mp h
    cases found with
    | none => cases h
    | some next' =>
      cases h
      obtain ⟨live, howns, hzone⟩ := hclear.live
      obtain ⟨hdvd, hbound, hapart, howns'⟩ := hsource.fresh (by decide) (by decide) (by decide)
        howns halloc
      have hfree := hapart zone hzone
      have hspec := table_spec hdvd (show next < 2 ^ 48 by omega)
      have hzero : Avoids zone (zeroTable s.mem next 512) := by
        intro b hb
        unfold zeroTable
        split_ifs
        · intro htable
          simp [Descriptor.isTableDescriptor] at htable
        · exact hclear.avoids b hb
      refine ⟨⟨hzero.update ?_, ⟨_, howns', List.mem_cons_of_mem _ hzone⟩, hclear.aligned,
        hclear.bound, hclear.apart⟩, ?_, hfree, rfl⟩
      · intro _
        rw [hspec.2.2]
        exact hfree
      · have hzeroed : Same zone s.mem (zeroTable s.mem next 512) := by
          intro b hlo hhi
          apply if_neg
          simp only [Extent.Apart, Extent.stop] at hfree hhi
          omega
        exact hzeroed.trans (Same.update ha _)

/-- Mapping into a table leaves the zone alone. -/
def LeavesAlone (owns : η → List Extent → Prop) (zone : Extent) (num : ℕ)
    (map : ℕ → Cursor η → Except Panic (Except Unit Unit × Cursor η)) : Prop :=
  ∀ (t : ℕ) (s s' : Cursor η), Extent.Apart ⟨t, 8 * num⟩ zone → Clear owns zone s →
    0 < s.remainingSize → map t s = .ok (.ok (), s') →
    Clear owns zone s' ∧ Same zone s.mem s'.mem

theorem mapDescriptors_clear {allocatePages : AllocatePages η}
    (hsource : PageSource allocatePages owns) {k t num : ℕ} {r w : Bool}
    {lower : ℕ → Cursor η → Except Panic (Except Unit Unit × Cursor η)}
    (hlower : LeavesAlone owns zone 512 lower) (ht : Extent.Apart ⟨t, 8 * num⟩ zone) :
    ∀ (n i : ℕ) (s s' : Cursor η), i + n = num → Clear owns zone s → 0 < s.remainingSize →
      mapDescriptors allocatePages t (permission r w) k lower n i s = .ok (.ok (), s') →
      Clear owns zone s' ∧ Same zone s.mem s'.mem := by
  intro n
  induction n with
  | zero =>
    intro i s s' _ hclear _ h
    obtain ⟨-, rfl⟩ := Prod.mk.inj (Except.ok.inj h)
    exact ⟨hclear, fun _ _ _ => rfl⟩
  | succ n ih =>
    intro i s s' hi hclear hrem h
    have houtside := entry_outside ht (show i < num by omega)
    obtain ⟨s₁, hone, hrest⟩ := mapDescriptors_succ_ok h
    have hfirst : Clear owns zone s₁ ∧ Same zone s.mem s₁.mem := by
      rcases hone with ⟨⟨hk, -, hpa, -⟩, hadvance⟩ | ⟨-, next, s₀, hopen, hmap⟩
      · rw [and_span_sub_one] at hpa
        have hblock := (leaf_block hk (Nat.dvd_of_mod_eq_zero hpa) r w 0).2
        exact advance_clear hclear houtside
          (pow_dvd_pow 2 (show 12 ≤ 12 + 9 * (k + 1) by omega))
          (show 2 ^ 12 ≤ 2 ^ (12 + 9 * (k + 1)) from
            Nat.pow_le_pow_right (by decide) (by omega))
          (fun htable => absurd (htable.symm.trans hblock) (by decide)) hadvance
      · obtain ⟨hclear₀, hsame₀, hapart, hsize⟩ := nextLevelTable_clear hsource hclear houtside hopen
        obtain ⟨hclear₁, hsame₁⟩ := hlower next s₀ s₁ hapart hclear₀ (by omega) hmap
        exact ⟨hclear₁, hsame₀.trans hsame₁⟩
    obtain ⟨hclear₁, hsame⟩ := hfirst
    rcases hrest with ⟨-, rfl⟩ | ⟨hne, hrest⟩
    · exact ⟨hclear₁, hsame⟩
    · obtain ⟨hclear₂, hsame₂⟩ := ih (i + 1) s₁ s' (by omega) hclear₁ (by omega) hrest
      exact ⟨hclear₂, hsame.trans hsame₂⟩

/-- The mapper leaves the zone alone, by induction on the depth of the table. -/
theorem mapAddressStage2From_leavesAlone {allocatePages : AllocatePages η}
    (hsource : PageSource allocatePages owns) (zone : Extent) (r w : Bool) (k num : ℕ) :
    LeavesAlone owns zone num (mapAddressStage2From allocatePages (permission r w) k num) := by
  have hindex : ∀ num x : ℕ, x &&& (num - 1) ≤ num := fun num _ =>
    Nat.and_le_right.trans (Nat.sub_le num 1)
  induction k generalizing num with
  | zero =>
    intro t s s' ht hclear hrem h
    obtain ⟨s₁, hpages, h⟩ := Checked.bind_eq_ok.mp h
    obtain ⟨-, rfl⟩ := Prod.mk.inj (Except.ok.inj h)
    exact mapPages_clear r w ht _ _ s s₁ (Nat.add_sub_cancel' (hindex _ _)) hclear hrem hpages
  | succ k ih =>
    intro t s s' ht hclear hrem h
    exact mapDescriptors_clear hsource (ih 512) ht _ _ s s' (Nat.add_sub_cancel' (hindex _ _))
      hclear hrem h

end Min1visor.Paging
