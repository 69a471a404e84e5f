import Min1visor.PagingRuns

/-!
# Mapping over what was mapped before

Whatever calls were made and however they returned, the tables stay a labelled
tree. A further call takes away what it covers only in part: in place of a block
it makes an empty table, and fills in its own part.
-/
namespace Min1visor.Paging
open TranslationTable

variable {η : Type} {owns : η → List Extent → Prop}

/-! ## The tables stay a tree -/

/-- A source of pages that forgets nothing when it has no page left. -/
structure PageAllocator (allocatePages : AllocatePages η) (owns : η → List Extent → Prop) : Prop
    extends PageSource allocatePages owns where
  refuse : ∀ {h live n k h'}, 0 < n → n < 2 ^ 50 → k < 62 → owns h live →
    allocatePages h n k = .ok (none, h') → owns h' live

/-- The linked-list allocator is one. -/
theorem linkedList_pageAllocator {lo hi : ℕ} (hhi : hi ≤ 2 ^ 48) :
    PageAllocator LinkedList.allocatePages (HeapOwns lo hi) where
  toPageSource := linkedList_pageSource hhi
  refuse {a live n k a'} hn hn' hk howns halloc := by
    obtain ⟨answers, hinv⟩ := howns
    obtain ⟨-, hinv'⟩ | ⟨p, -, hptr, -⟩ := allocatePages_inv hhi hn' hk hinv halloc
    · exact ⟨_, hinv'⟩
    · cases hptr

section Tree
variable {depth entries top : ℕ} {allocatePages : AllocatePages η} {r w : Bool}

/-- Mapping into a table keeps the tables a labelled tree, with whatever result. -/
def KeepsTree (owns : η → List Extent → Prop) (depth entries top k : ℕ)
    (map : ℕ → Cursor η → Except Panic (Except Unit Unit × Cursor η)) : Prop :=
  ∀ (t p : ℕ) (label : Labels) (s s' : Cursor η) (result : Except Unit Unit),
    label t = some (k, p) → Owned owns depth entries top label s.mem s.heap →
    map t s = .ok (result, s') →
    ∃ label', Keeps label label' ∧ Owned owns depth entries top label' s'.mem s'.heap

theorem advance_owned (he : 0 < entries) {k t p q size : ℕ} {label : Labels} {s s' : Cursor η}
    {d : Descriptor} (howned : Owned owns depth entries top label s.mem s.heap)
    (ht : label t = some (k, p)) (hq : q / width depth entries k = p)
    (hd : k = 0 ∨ isTable d = false)
    (h : s.advance (word depth entries k t q) d size = .ok s') :
    Owned owns depth entries top label s'.mem s'.heap := by
  obtain ⟨-, rfl⟩ := advance_ok h
  exact ⟨howned.labelled.write_leaf he ht hq hd, howned.live⟩

theorem mapPages_owned (he : 0 < entries) {t p : ℕ} {label : Labels} {permission : BitVec 64}
    (ht : label t = some (0, p)) :
    ∀ (n i : ℕ) (s s' : Cursor η), i + n = width depth entries 0 →
      Owned owns depth entries top label s.mem s.heap → mapPages t permission n i s = .ok s' →
      Owned owns depth entries top label s'.mem s'.heap := by
  intro n
  induction n with
  | zero =>
    intro i s s' _ howned h
    cases h
    exact howned
  | succ n ih =>
    intro i s s' hi howned h
    obtain ⟨s₁, hadvance, hrest⟩ := mapPages_succ_ok h
    rw [← word_entry (t := t) (p := p) hi] at hadvance
    have howned₁ := advance_owned he howned ht (entry_div hi) (.inl rfl) hadvance
    rcases hrest with ⟨-, rfl⟩ | ⟨-, hrest⟩
    · exact howned₁
    · exact ih (i + 1) s₁ s' (by omega) howned₁ hrest

/-- Asking for the table below an entry, with or without getting one. -/
theorem nextLevelTable_owned (hpages : PageAllocator allocatePages owns) (he : 0 < entries)
    {k t p q : ℕ} {found : Option ℕ} {label : Labels} {s s₁ : Cursor η}
    (howned : Owned owns depth entries top label s.mem s.heap) (ht : label t = some (k + 1, p))
    (hq : q / width depth entries (k + 1) = p)
    (h : nextLevelTable allocatePages (word depth entries (k + 1) t q) s = .ok (found, s₁)) :
    ∃ label₁, Keeps label label₁ ∧ Owned owns depth entries top label₁ s₁.mem s₁.heap ∧
      ∀ next, found = some next → label₁ next = some (k, q) := by
  cases found with
  | some next =>
    obtain ⟨label₁, hopen⟩ := nextLevelTable_opened hpages.toPageSource he howned ht hq h
    refine ⟨label₁, hopen.keeps, hopen.owned, ?_⟩
    rintro _ ⟨⟩
    exact hopen.child
  | none =>
    unfold nextLevelTable at h
    rcases Checked.ite_eq_ok h with h | h
    · cases h
    · obtain ⟨⟨found, heap'⟩, halloc, h⟩ := Checked.bind_eq_ok.mp h
      cases found with
      | some next => cases h
      | none =>
        cases h
        obtain ⟨live, howns, hlive⟩ := howned.live
        have howns' := hpages.refuse (by decide) (by decide) (by decide) howns halloc
        refine ⟨label, fun _ _ h => h, ⟨howned.labelled, live, howns', hlive⟩, ?_⟩
        rintro _ ⟨⟩

theorem mapDescriptors_keepsTree (hpages : PageAllocator allocatePages owns) (he : 0 < entries)
    {k t p : ℕ} {lower : ℕ → Cursor η → Except Panic (Except Unit Unit × Cursor η)}
    (hlower : KeepsTree owns depth entries top k lower) :
    ∀ (n i : ℕ) (label : Labels) (s s' : Cursor η) (result : Except Unit Unit),
      i + n = width depth entries (k + 1) → label t = some (k + 1, p) →
      Owned owns depth entries top label s.mem s.heap →
      mapDescriptors allocatePages t (permission r w) k lower n i s = .ok (result, s') →
      ∃ label', Keeps label label' ∧ Owned owns depth entries top label' s'.mem s'.heap := by
  intro n
  induction n with
  | zero =>
    intro i label s s' result _ _ howned h
    obtain ⟨-, rfl⟩ := Prod.mk.inj (Except.ok.inj h)
    exact ⟨label, fun _ _ h => h, howned⟩
  | succ n ih =>
    intro i label s s' result hi ht howned h
    have hq := entry_div (p := p) hi
    have hcontinue : ∀ (label₁ : Labels) (s₁ : Cursor η), Keeps label label₁ →
        Owned owns depth entries top label₁ s₁.mem s₁.heap →
        (if s₁.remainingSize = 0 then pure (.ok (), s₁)
          else mapDescriptors allocatePages t (permission r w) k lower n (i + 1) s₁) =
            Except.ok (result, s') →
        ∃ label', Keeps label label' ∧ Owned owns depth entries top label' s'.mem s'.heap := by
      intro label₁ s₁ hkeep howned₁ hrest
      rcases Checked.ite_eq_ok hrest with hrest | hrest
      · obtain ⟨-, rfl⟩ := Prod.mk.inj (Except.ok.inj hrest)
        exact ⟨label₁, hkeep, howned₁⟩
      · obtain ⟨label₂, hkeep₂, howned₂⟩ := ih (i + 1) label₁ s₁ s' result (by omega)
          (hkeep _ _ ht) howned₁ hrest
        exact ⟨label₂, hkeep.trans hkeep₂, howned₂⟩
    rw [mapDescriptors, ← word_entry (t := t) (p := p) hi] at h
    by_cases hfits : blockFits (k + 1) s
    · rw [if_pos hfits] at h
      obtain ⟨s₁, hadvance, h⟩ := Checked.bind_eq_ok.mp h
      obtain ⟨hk, -, hpa, -⟩ := hfits
      rw [and_span_sub_one] at hpa
      have hblock := (leaf_block hk (Nat.dvd_of_mod_eq_zero hpa) r w 0).2
      exact hcontinue label s₁ (fun _ _ h => h)
        (advance_owned he howned ht hq (.inr hblock) hadvance) h
    · rw [if_neg hfits] at h
      obtain ⟨⟨found, s₁⟩, hopen, h⟩ := Checked.bind_eq_ok.mp h
      obtain ⟨label₁, hkeep₁, howned₁, hchild⟩ := nextLevelTable_owned hpages he howned ht hq hopen
      cases found with
      | none =>
        obtain ⟨-, rfl⟩ := Prod.mk.inj (Except.ok.inj h)
        exact ⟨label₁, hkeep₁, howned₁⟩
      | some next =>
        obtain ⟨⟨below, s₂⟩, hmap, h⟩ := Checked.bind_eq_ok.mp h
        obtain ⟨label₂, hkeep₂, howned₂⟩ := hlower next _ label₁ s₁ s₂ below (hchild next rfl)
          howned₁ hmap
        have hkeep := hkeep₁.trans hkeep₂
        cases below with
        | error e =>
          obtain ⟨-, rfl⟩ := Prod.mk.inj (Except.ok.inj h)
          exact ⟨label₂, hkeep, howned₂⟩
        | ok u => exact hcontinue label₂ s₂ hkeep howned₂ h

/-- The mapper keeps the tables a tree, by induction on the depth of the table. -/
theorem mapAddressStage2From_keepsTree (hpages : PageAllocator allocatePages owns)
    (he : 0 < entries) (depth top : ℕ) (r w : Bool) (k : ℕ) :
    KeepsTree owns depth entries top k
      (mapAddressStage2From allocatePages (permission r w) k (width depth entries k)) := by
  have hindex : ∀ num x : ℕ, x &&& (num - 1) ≤ num := fun num _ =>
    Nat.and_le_right.trans (Nat.sub_le num 1)
  induction k with
  | zero =>
    intro t p label s s' result ht howned h
    obtain ⟨s₁, hpages, h⟩ := Checked.bind_eq_ok.mp h
    obtain ⟨-, rfl⟩ := Prod.mk.inj (Except.ok.inj h)
    exact ⟨label, fun _ _ h => h, mapPages_owned he ht _ _ s s₁
      (Nat.add_sub_cancel' (hindex _ _)) howned hpages⟩
  | succ k ih =>
    intro t p label s s' result ht howned h
    rw [width_of_lt entries (howned.labelled.below ht)] at ih
    exact mapDescriptors_keepsTree hpages he ih _ _ label s s' result
      (Nat.add_sub_cancel' (hindex _ _)) ht howned h

end Tree

variable {g : Shape} {root : ℕ}

/-- A call with any arguments and any result. -/
def request (allocatePages : AllocatePages η) (s : Stage2 η) (c : Call) :
    Except Panic (Stage2 η) := do
  let (_, s) ← mapAddressStage2 allocatePages s c.physicalAddress c.intermediatePhysicalAddress
    c.mapSize c.isReadable c.isWritable
  return s

theorem request_built {allocatePages : AllocatePages η} (hpages : PageAllocator allocatePages owns)
    {s s' : Stage2 η} {c : Call} (h : Built owns g root s)
    (hcall : request allocatePages s c = .ok s') : Built owns g root s' := by
  obtain ⟨⟨result, s₁⟩, hcall, hs⟩ := Checked.bind_eq_ok.mp hcall
  cases hs
  by_cases hsize : 4096 ∣ c.mapSize
  · rw [mapAddressStage2_eq allocatePages h.sound hsize, h.root_eq.2] at hcall
    obtain ⟨⟨result, cursor⟩, hfrom, hcall⟩ := Checked.bind_eq_ok.mp hcall
    cases hcall
    obtain ⟨label, howned⟩ := h.owned
    obtain ⟨j, -, hj⟩ := h.sound.power
    have hkeeps := mapAddressStage2From_keepsTree hpages (hj ▸ Nat.two_pow_pos j) g.depth root
      c.isReadable c.isWritable g.depth
    rw [show width g.depth g.entries g.depth = g.entries from if_pos rfl] at hkeeps
    obtain ⟨label', -, howned'⟩ := hkeeps root 0 label _ cursor result howned.labelled.root howned
      hfrom
    exact ⟨h.sound, h.base, h.aligned, h.low, label', howned'⟩
  · have hmod : c.mapSize % 4096 ≠ 0 := fun hz => hsize (Nat.dvd_of_mod_eq_zero hz)
    rw [mapAddressStage2, and_page_sub_one, if_pos hmod] at hcall
    cases hcall
    exact h

/-- Initialisation and any calls after it build a table. -/
theorem requests_built {allocatePages : AllocatePages η} (hpages : PageAllocator allocatePages owns)
    {idAa64mmfr0El1 : BitVec 64} {s₀ s₁ s₂ : Stage2 η} {live : List Extent}
    (howns : owns s₀.heap live)
    (hinit : initStage2TranslationTable allocatePages idAa64mmfr0El1 s₀ = .ok s₁)
    (hroot : rootTable s₁ < 2 ^ 47) {calls : List Call}
    (hrun : Runs.run (request allocatePages) s₁ calls = .ok s₂) :
    Built owns (shape (idAa64mmfr0El1 &&& idAa64mmfr0El1Parange)) (rootTable s₁) s₂ := by
  obtain ⟨hbuilt, -⟩ := initStage2TranslationTable_spec hpages.toPageSource howns hinit hroot
  exact Runs.run_preserves (Built owns _ _) (fun _ _ _ h => request_built hpages h) calls s₁ s₂
    hbuilt hrun

/-! ## What a further call takes away -/

/-- The call covers a part, and not all, of an entry that maps something. -/
def Call.Splits (c : Call) (s : Stage2 η) : Prop :=
  ∃ x, ¬ c.Covers x ∧ stage2Walk s x ≠ none ∧ c.Meets s x

/-- On a table made by any calls, whatever their arguments and results, a call that
returns `Ok` leaves all other addresses alone exactly when it splits no entry. -/
theorem remap_frame_iff {allocatePages : AllocatePages η}
    (hpages : PageAllocator allocatePages owns) (idAa64mmfr0El1 : BitVec 64) (s₀ s₁ : Stage2 η)
    (live : List Extent) (howns : owns s₀.heap live)
    (hinit : initStage2TranslationTable allocatePages idAa64mmfr0El1 s₀ = .ok s₁)
    (hroot : rootTable s₁ < 2 ^ 47) (earlier : List Call) (s₂ : Stage2 η)
    (hrun : Runs.run (request allocatePages) s₁ earlier = .ok s₂) (c : Call)
    (hc : c.InRange (2 ^ inputBits s₂.vtcrEl2)) (s₃ : Stage2 η)
    (hmap : mapStep allocatePages s₂ c = .ok s₃) :
    (∀ x, ¬ c.Covers x → stage2Walk s₃ x = stage2Walk s₂ x) ↔ ¬ c.Splits s₂ := by
  have hbuilt := requests_built hpages howns hinit hroot hrun
  obtain ⟨-, -, -, hkept, hsplit⟩ := mapStep_overlay hpages.toPageSource hbuilt hc hmap
  constructor
  · rintro hframe ⟨x, hout, hwalk, hmeets⟩
    rw [← hframe x hout] at hwalk
    exact hwalk (hsplit x hout hmeets)
  · intro hwhole x hout
    by_cases hmeets : c.Meets s₂ x
    · -- The entry is not split, so it mapped nothing in the first place.
      have hnone : stage2Walk s₂ x = none := by
        by_contra hwalk
        exact hwhole ⟨x, hout, hwalk, hmeets⟩
      rw [hnone, hsplit x hout hmeets]
    · exact hkept x hmeets

/-- One block of 2 MiB. -/
def blockCall : Call := ⟨0x200000, 0x400000, 0x200000, true, true⟩

/-- The same addresses as the block, elsewhere and read-only. -/
def wholeCall : Call := ⟨0x600000, 0x400000, 0x200000, true, false⟩

theorem remap_frame_whole :
    ∃ s₁ s₂ s₃, initStage2TranslationTable LinkedList.allocatePages 0
        (machineAt 0x50000000 0x100000) = .ok s₁ ∧
      Runs.run (request LinkedList.allocatePages) s₁ [blockCall] = .ok s₂ ∧
      mapStep LinkedList.allocatePages s₂ wholeCall = .ok s₃ ∧
      ∀ x, ¬ wholeCall.Covers x → stage2Walk s₃ x = stage2Walk s₂ x := by
  obtain ⟨s₁, s₂, s₃, hinit, hbits, hroot, hfirst, hrun, hbits₂, hmap⟩ : ∃ s₁ s₂ s₃,
      initStage2TranslationTable LinkedList.allocatePages 0 (machineAt 0x50000000 0x100000) =
        .ok s₁ ∧ inputBits s₁.vtcrEl2 = 32 ∧ rootTable s₁ = 0x50000000 ∧
      mapStep LinkedList.allocatePages s₁ blockCall = .ok s₂ ∧
      Runs.run (request LinkedList.allocatePages) s₁ [blockCall] = .ok s₂ ∧
      inputBits s₂.vtcrEl2 = 32 ∧ mapStep LinkedList.allocatePages s₂ wholeCall = .ok s₃ :=
    ⟨_, _, _, rfl, rfl, rfl, rfl, rfl, rfl, rfl⟩
  have hlow : rootTable s₁ < 2 ^ 47 := by
    rw [hroot]
    decide
  have howns : HeapOwns 0x50000000 (0x50000000 + 0x100000)
      (machineAt 0x50000000 0x100000).heap [] := machineAt_owns (by decide) (by decide)
  refine ⟨s₁, s₂, s₃, hinit, hrun, hmap, ?_⟩
  apply (remap_frame_iff (linkedList_pageAllocator (by decide)) 0 (machineAt 0x50000000 0x100000)
    s₁ [] howns hinit hlow [blockCall] s₂ hrun wholeCall (by
      rw [hbits₂]
      exact ⟨by decide, by decide, by decide, by decide, by decide⟩) s₃ hmap).mpr
  -- Only the block is mapped so far, and the call covers it.
  obtain ⟨hbuilt, hnone⟩ := initStage2TranslationTable_spec (linkedList_pageSource (by decide))
    howns hinit hlow
  obtain ⟨-, -, hwalk⟩ := mapStep_spec (linkedList_pageSource (by decide)) hbuilt (by
    rw [hbits]
    exact ⟨by decide, by decide, by decide, by decide, by decide, by decide⟩)
    (fun x _ => hnone x) hfirst
  rintro ⟨x, hout, hmapped, -⟩
  apply hmapped
  rw [hwalk x, if_neg (show ¬ blockCall.Covers x from hout), hnone]

/-- A page in the middle of the block. -/
def pageCall : Call := ⟨0x10000, 0x500000, 0x1000, true, true⟩

/-- After the page is mapped, the rest of the block faults. -/
theorem remap_takes_block :
    ∃ s₁ s₂ s₃, initStage2TranslationTable LinkedList.allocatePages 0
        (machineAt 0x50000000 0x100000) = .ok s₁ ∧
      Runs.run (request LinkedList.allocatePages) s₁ [blockCall] = .ok s₂ ∧
      pageCall.InRange (2 ^ inputBits s₂.vtcrEl2) ∧
      mapStep LinkedList.allocatePages s₂ pageCall = .ok s₃ ∧
      stage2Walk s₂ 0x400123 = some (0x200123, 3) ∧ stage2Walk s₃ 0x400123 = none ∧
      ¬ ∀ x, ¬ pageCall.Covers x → stage2Walk s₃ x = stage2Walk s₂ x := by
  obtain ⟨s₁, s₂, s₃, hinit, hrun, hbits, hmap, hbefore, hafter⟩ : ∃ s₁ s₂ s₃,
      initStage2TranslationTable LinkedList.allocatePages 0 (machineAt 0x50000000 0x100000) =
        .ok s₁ ∧
      Runs.run (request LinkedList.allocatePages) s₁ [blockCall] = .ok s₂ ∧
      inputBits s₂.vtcrEl2 = 32 ∧ mapStep LinkedList.allocatePages s₂ pageCall = .ok s₃ ∧
      stage2Walk s₂ 0x400123 = some (0x200123, 3) ∧ stage2Walk s₃ 0x400123 = none :=
    ⟨_, _, _, rfl, rfl, rfl, rfl, by decide, by decide⟩
  refine ⟨s₁, s₂, s₃, hinit, hrun, ?_, hmap, hbefore, hafter, ?_⟩
  · rw [hbits]
    exact ⟨by decide, by decide, by decide, by decide, by decide⟩
  · intro hframe
    have hsame := hframe 0x400123 (by decide)
    rw [hbefore, hafter] at hsame
    cases hsame

end Min1visor.Paging
