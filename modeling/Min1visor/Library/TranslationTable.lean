import Min1visor.Library.Extents

/-!
# Multi-level translation tables

Tables of 64-bit descriptors in a word-addressed memory, walked from a root
table of some depth down to pages of 4 KiB. An entry at depth `k` covers
`2 ^ (12 + 9 * k)` bytes; every table but the root has 512 entries.

Who may use which table is kept by labels: a table carries its depth and the
number of the entry one level up that leads to it. As a table has one label, two
paths never share a table, and a changed word concerns one entry only.
-/
namespace TranslationTable

/-- A memory of 64-bit words, by byte address. -/
abbrev Memory := ℕ → BitVec 64

/-- The bytes covered by one entry at depth `k`. -/
def span (k : ℕ) : ℕ := 2 ^ (12 + 9 * k)

theorem span_pos (k : ℕ) : 0 < span k := Nat.two_pow_pos _

theorem span_succ (k : ℕ) : span (k + 1) = span k * 512 := by
  rw [span, span, show 12 + 9 * (k + 1) = 12 + 9 * k + 9 by ring, pow_add]
  norm_num

/-- The number of the entry at depth `k` that an address goes through. -/
def slot (k x : ℕ) : ℕ := x / span k

theorem slot_succ (k x : ℕ) : slot k x / 512 = slot (k + 1) x := by
  rw [slot, slot, span_succ, Nat.div_div_eq_div_mul]

theorem slot_eq_iff {k x q : ℕ} : slot k x = q ↔ q * span k ≤ x ∧ x < (q + 1) * span k := by
  rw [slot, Nat.div_eq_iff (span_pos k)]
  have h := span_pos k
  constructor
  · rintro ⟨h1, h2⟩
    exact ⟨h1, by rw [Nat.add_mul]; omega⟩
  · rintro ⟨h1, h2⟩
    exact ⟨h1, by rw [Nat.add_mul] at h2; omega⟩

/-! ## Descriptors -/

def isTable (d : BitVec 64) : Bool := d &&& 0b11 == 0b11

/-- The address bits of a descriptor, bits 47 down to 12. -/
def address (d : BitVec 64) : ℕ := (d &&& 0x0000FFFFFFFFF000).toNat

/-- A descriptor of the last level is a page, one of the two levels above it may
be a block; both need the access flag. -/
def isLeaf (k : ℕ) (d : BitVec 64) : Bool :=
  (if k = 0 then d &&& 0b11 == 0b11 else decide (k ≤ 2) && d &&& 0b11 == 0b01) && d.getLsbD 10

/-- The access permissions, bits 7 and 6. -/
def permissions (d : BitVec 64) : ℕ := ((d >>> 6) &&& 0b11).toNat

/-- What a descriptor that is no table makes of an address. -/
def leaf (k : ℕ) (d : BitVec 64) (x : ℕ) : Option (ℕ × ℕ) :=
  if isLeaf k d then some (address d / span k * span k + x % span k, permissions d) else none

/-- The walk from a table of `n` entries at depth `k`: the output address and the
permissions, or a fault. -/
def walk (mem : Memory) : ℕ → ℕ → ℕ → ℕ → Option (ℕ × ℕ)
  | 0, n, t, x => leaf 0 (mem (t + 8 * (slot 0 x % n))) x
  | k + 1, n, t, x =>
    if isTable (mem (t + 8 * (slot (k + 1) x % n))) then
      walk mem k 512 (address (mem (t + 8 * (slot (k + 1) x % n)))) x
    else leaf (k + 1) (mem (t + 8 * (slot (k + 1) x % n))) x

/-- A leaf descriptor maps all of its entry or nothing of it. -/
theorem leaf_eq_none_iff {k : ℕ} {d : BitVec 64} {x : ℕ} :
    leaf k d x = none ↔ isLeaf k d = false := by
  unfold leaf
  cases isLeaf k d <;> simp

theorem isLeaf_zero (k : ℕ) : isLeaf k 0 = false := by
  simp [isLeaf]

/-- The descriptor that ends the walk from a table, with its depth. -/
def ending (mem : Memory) : ℕ → ℕ → ℕ → ℕ → ℕ × BitVec 64
  | 0, n, t, x => (0, mem (t + 8 * (slot 0 x % n)))
  | k + 1, n, t, x =>
    if isTable (mem (t + 8 * (slot (k + 1) x % n))) then
      ending mem k 512 (address (mem (t + 8 * (slot (k + 1) x % n)))) x
    else (k + 1, mem (t + 8 * (slot (k + 1) x % n)))

/-- A walk gives what its last descriptor makes of the address. -/
theorem walk_eq_leaf (mem : Memory) (k n t x : ℕ) :
    walk mem k n t x = leaf (ending mem k n t x).1 (ending mem k n t x).2 x := by
  induction k generalizing n t with
  | zero => rfl
  | succ k ih =>
    simp only [walk, ending]
    split_ifs
    · exact ih 512 _
    · rfl

/-- Output addresses have 48 bits. -/
theorem walk_lt {mem : Memory} {k n t x : ℕ} {out : ℕ × ℕ} (h : walk mem k n t x = some out) :
    out.1 < 2 ^ 48 := by
  rw [walk_eq_leaf] at h
  generalize ending mem k n t x = e at h
  unfold leaf at h
  split_ifs at h with hleaf
  cases h
  have hdepth : e.1 ≤ 2 := by
    unfold isLeaf at hleaf
    split_ifs at hleaf with hz
    · omega
    · simp only [Bool.and_eq_true, decide_eq_true_eq] at hleaf
      exact hleaf.1.1
  have hspan : span e.1 ∣ 2 ^ 48 := pow_dvd_pow 2 (show 12 + 9 * e.1 ≤ 48 by omega)
  have haddress : address e.2 < 2 ^ 48 := by
    rw [address, BitVec.toNat_and]
    exact Nat.and_lt_two_pow _ (by decide)
  have hentry : address e.2 / span e.1 + 1 ≤ 2 ^ 48 / span e.1 :=
    Nat.div_lt_div_of_lt_of_dvd hspan haddress
  calc address e.2 / span e.1 * span e.1 + x % span e.1
      < (address e.2 / span e.1 + 1) * span e.1 := by
        rw [Nat.add_mul, Nat.one_mul]
        exact Nat.add_lt_add_left (Nat.mod_lt x (span_pos _)) _
    _ ≤ 2 ^ 48 / span e.1 * span e.1 := Nat.mul_le_mul_right _ hentry
    _ = 2 ^ 48 := Nat.div_mul_cancel hspan

theorem ending_le (mem : Memory) (k n t x : ℕ) : (ending mem k n t x).1 ≤ k := by
  induction k generalizing n t with
  | zero => exact le_rfl
  | succ k ih =>
    simp only [ending]
    split_ifs
    · exact (ih 512 _).trans (Nat.le_succ k)
    · exact le_rfl

/-- The range meets the entry that ends the walk of an address. -/
def Meets (mem : Memory) (k n t lo hi x : ℕ) : Prop :=
  ∃ y, lo ≤ y ∧ y < hi ∧ slot (ending mem k n t x).1 y = slot (ending mem k n t x).1 x

/-! ## Labelled tables -/

/-- The labels of the tables: depth, and number of the entry that leads there. -/
abbrev Labels := ℕ → Option (ℕ × ℕ)

section Labels
variable (depth entries : ℕ)

/-- The number of entries of a table at depth `k` below a root of `entries`. -/
def width (k : ℕ) : ℕ := if k = depth then entries else 512

/-- The word of a table at depth `k` that holds the entry of number `q`. -/
def word (k t q : ℕ) : ℕ := t + 8 * (q % width depth entries k)

/-- Every table descriptor in a labelled table is well formed and leads to the
table labelled with its entry, and labelled tables do not overlap. -/
structure Labelled (good : BitVec 64 → Prop) (top : ℕ) (mem : Memory) (label : Labels) :
    Prop where
  root : label top = some (depth, 0)
  below : ∀ {t k p}, label t = some (k, p) → k ≤ depth
  child : ∀ {t k p q}, label t = some (k + 1, p) → q / width depth entries (k + 1) = p →
    isTable (mem (word depth entries (k + 1) t q)) = true →
    label (address (mem (word depth entries (k + 1) t q))) = some (k, q) ∧
      good (mem (word depth entries (k + 1) t q))
  apart : ∀ {t k p t' k' p'}, label t = some (k, p) → label t' = some (k', p') → t ≠ t' →
    Extent.Apart ⟨t, 8 * width depth entries k⟩ ⟨t', 8 * width depth entries k'⟩

end Labels

variable {depth entries top : ℕ} {mem mem' : Memory} {label : Labels} {good : BitVec 64 → Prop}

theorem width_of_lt (entries : ℕ) {k : ℕ} (h : k < depth) : width depth entries k = 512 :=
  if_neg h.ne

theorem width_pos (depth : ℕ) (he : 0 < entries) (k : ℕ) : 0 < width depth entries k := by
  unfold width
  split_ifs
  · exact he
  · decide

/-- Below the root, the entry taken at one depth is named by the entry above. -/
theorem slot_div_width {k : ℕ} (h : k < depth) (x : ℕ) :
    slot k x / width depth entries k = slot (k + 1) x := by
  rw [width_of_lt entries h, slot_succ]

/-- Addresses that share an entry share every entry above it. -/
theorem slot_eq_of_le {j k x y : ℕ} (hjk : j ≤ k) (h : slot j x = slot j y) :
    slot k x = slot k y := by
  induction hjk with
  | refl => exact h
  | step _ ih => rw [← slot_succ, ← slot_succ, ih]

/-- Two entries in one word are the same entry of the same table. -/
theorem Labelled.word_inj (h : Labelled depth entries good top mem label) (he : 0 < entries)
    {t k p q t' k' p' q' : ℕ} (ht : label t = some (k, p)) (ht' : label t' = some (k', p'))
    (hq : q / width depth entries k = p) (hq' : q' / width depth entries k' = p')
    (hw : word depth entries k t q = word depth entries k' t' q') :
    t = t' ∧ k = k' ∧ q = q' := by
  have hlt := Nat.mod_lt q (width_pos depth he k)
  have hlt' := Nat.mod_lt q' (width_pos depth he k')
  unfold word at hw
  by_cases hne : t = t'
  · subst hne
    rw [ht] at ht'
    obtain ⟨rfl, rfl⟩ := Prod.mk.inj (Option.some.inj ht')
    refine ⟨rfl, rfl, ?_⟩
    have hmod : q % width depth entries k = q' % width depth entries k := by omega
    rw [← Nat.div_add_mod q (width depth entries k), ← Nat.div_add_mod q' (width depth entries k),
      hq, hq', hmod]
  · rcases h.apart ht ht' hne with ha | ha
    · simp only [Extent.stop] at ha
      omega
    · simp only [Extent.stop] at ha
      omega

/-- A walk ends alike for all addresses of the entry that ends it. -/
theorem ending_eq_of_slot {k n t x y : ℕ}
    (h : slot (ending mem k n t x).1 y = slot (ending mem k n t x).1 x) :
    ending mem k n t y = ending mem k n t x := by
  have hslot := slot_eq_of_le (ending_le mem k n t x) h
  induction k generalizing n t with
  | zero => simp only [ending, hslot]
  | succ k ih =>
    simp only [ending, hslot] at h ⊢
    split_ifs at h ⊢ with htable
    · exact ih h (slot_eq_of_le (ending_le _ _ _ _ _) h)
    · rfl

/-- Whether an address faults is decided by the entry that ends its walk. -/
theorem walk_eq_none_of_slot {k n t x y : ℕ}
    (h : slot (ending mem k n t x).1 y = slot (ending mem k n t x).1 x)
    (hy : walk mem k n t y = none) : walk mem k n t x = none := by
  rw [walk_eq_leaf, leaf_eq_none_iff] at hy ⊢
  rwa [ending_eq_of_slot h] at hy

/-- A walk does not see changes away from its own entries. -/
theorem Labelled.ending_congr (h : Labelled depth entries good top mem label) {k t p x : ℕ}
    (ht : label t = some (k, p)) (hx : slot k x / width depth entries k = p)
    (hsame : ∀ t' k' p', label t' = some (k', p') → k' ≤ k →
      slot k' x / width depth entries k' = p' →
      mem' (word depth entries k' t' (slot k' x)) = mem (word depth entries k' t' (slot k' x))) :
    ending mem' k (width depth entries k) t x = ending mem k (width depth entries k) t x := by
  induction k generalizing t p with
  | zero =>
    have hword := hsame t 0 p ht le_rfl hx
    unfold word at hword
    simp only [ending, hword]
  | succ k ih =>
    have hword := hsame t (k + 1) p ht le_rfl hx
    unfold word at hword
    simp only [ending, hword]
    split_ifs with htable
    · have hlt : k < depth := h.below ht
      have hchild := (h.child ht hx htable).1
      rw [← width_of_lt entries hlt]
      exact ih hchild (slot_div_width hlt x) fun t' k' p' ht' hk' => hsame t' k' p' ht' (by omega)
    · rfl

/-! ## Changing a table -/

/-- A table at depth `k` is changed so that the addresses from `lo` to `hi` below
it go where `f` says, through entries within these addresses. An address whose
entry they do not meet ends where it ended before; the rest of an entry they meet
faults. No table above this one and no entry away from these addresses is touched. -/
structure Maps (depth entries : ℕ) (label : Labels) (k t p : ℕ) (f : ℕ → ℕ × ℕ) (lo hi : ℕ)
    (mem mem' : Memory) : Prop where
  inside : ∀ x, slot k x / width depth entries k = p → lo ≤ x → x < hi →
    walk mem' k (width depth entries k) t x = some (f x) ∧
      ∀ y, slot (ending mem' k (width depth entries k) t x).1 y =
        slot (ending mem' k (width depth entries k) t x).1 x → lo ≤ y ∧ y < hi
  kept : ∀ x, slot k x / width depth entries k = p →
    ¬ Meets mem k (width depth entries k) t lo hi x →
    ending mem' k (width depth entries k) t x = ending mem k (width depth entries k) t x
  split : ∀ x, slot k x / width depth entries k = p → ¬ (lo ≤ x ∧ x < hi) →
    Meets mem k (width depth entries k) t lo hi x →
    walk mem' k (width depth entries k) t x = none
  above : ∀ t' k' p' q, label t' = some (k', p') → k < k' → q / width depth entries k' = p' →
    mem' (word depth entries k' t' q) = mem (word depth entries k' t' q)
  outside : ∀ t' k' p' q, label t' = some (k', p') → q / width depth entries k' = p' →
    (∀ x, lo ≤ x → x < hi → slot k' x ≠ q) →
    mem' (word depth entries k' t' q) = mem (word depth entries k' t' q)

/-- Nothing changes on an empty range. -/
theorem Maps.refl (k t p lo : ℕ) (f : ℕ → ℕ × ℕ) (mem : Memory) :
    Maps depth entries label k t p f lo lo mem mem where
  inside x _ hlo hhi := absurd (hlo.trans_lt hhi) (lt_irrefl lo)
  kept _ _ _ := rfl
  split x _ _ hmeets := by
    obtain ⟨y, hlo, hhi, -⟩ := hmeets
    exact absurd (hlo.trans_lt hhi) (lt_irrefl lo)
  above _ _ _ _ _ _ _ := rfl
  outside _ _ _ _ _ _ _ := rfl

/-- An address outside the range that faults still faults. -/
theorem Maps.walk_none {k t p lo hi x : ℕ} {f : ℕ → ℕ × ℕ}
    (h : Maps depth entries label k t p f lo hi mem mem')
    (hx : slot k x / width depth entries k = p) (hout : ¬ (lo ≤ x ∧ x < hi))
    (hnone : walk mem k (width depth entries k) t x = none) :
    walk mem' k (width depth entries k) t x = none := by
  by_cases hmeets : Meets mem k (width depth entries k) t lo hi x
  · exact h.split x hx hout hmeets
  · rw [walk_eq_leaf, h.kept x hx hmeets, ← walk_eq_leaf, hnone]

/-- Labels are only added. -/
def Keeps (label label' : Labels) : Prop := ∀ t l, label t = some l → label' t = some l

theorem Keeps.trans {label₁ label₂ label₃ : Labels} (h : Keeps label₁ label₂)
    (h' : Keeps label₂ label₃) : Keeps label₁ label₃ := fun t l ht => h' t l (h t l ht)

/-- Changes of adjacent ranges add up. -/
theorem Maps.trans {k t p lo mid hi : ℕ} {f : ℕ → ℕ × ℕ} {mem₁ mem₂ mem₃ : Memory}
    {label' : Labels} (hle : lo ≤ mid) (hle' : mid ≤ hi) (hkeep : Keeps label label')
    (h : Maps depth entries label k t p f lo mid mem₁ mem₂)
    (h' : Maps depth entries label' k t p f mid hi mem₂ mem₃) :
    Maps depth entries label k t p f lo hi mem₁ mem₃ where
  inside x hx hlo hhi := by
    by_cases hmid : x < mid
    · -- The entry was written by the first change, and the second does not meet it.
      obtain ⟨hwalk, hentry⟩ := h.inside x hx hlo hmid
      have hkept := h'.kept x hx (by
        rintro ⟨y, hy, -, hslot⟩
        have := hentry y hslot
        omega)
      rw [walk_eq_leaf, hkept, ← walk_eq_leaf]
      refine ⟨hwalk, ?_⟩
      intro y hy
      have := hentry y hy
      omega
    · obtain ⟨hwalk, hentry⟩ := h'.inside x hx (not_lt.mp hmid) hhi
      refine ⟨hwalk, ?_⟩
      intro y hy
      have := hentry y hy
      omega
  kept x hx hmeets := by
    have hfirst := h.kept x hx fun ⟨y, hlo, hhi, hy⟩ => hmeets ⟨y, hlo, by omega, hy⟩
    rw [h'.kept x hx, hfirst]
    rintro ⟨y, hlo, hhi, hy⟩
    rw [hfirst] at hy
    exact hmeets ⟨y, by omega, hhi, hy⟩
  split x hx hout hmeets := by
    by_cases hfirst : Meets mem₁ k (width depth entries k) t lo mid x
    · exact h'.walk_none hx (by omega) (h.split x hx (by omega) hfirst)
    · apply h'.split x hx (by omega)
      obtain ⟨y, hlo, hhi, hy⟩ := hmeets
      refine ⟨y, ?_, hhi, by rw [h.kept x hx hfirst, hy]⟩
      by_contra hlt
      exact hfirst ⟨y, hlo, by omega, hy⟩
  above t' k' p' q ht hk hq := by
    rw [h'.above t' k' p' q (hkeep _ _ ht) hk hq, h.above t' k' p' q ht hk hq]
  outside t' k' p' q ht hq hx := by
    rw [h'.outside t' k' p' q (hkeep _ _ ht) hq fun x hl hh => hx x (by omega) hh,
      h.outside t' k' p' q ht hq fun x hl hh => hx x hl (by omega)]

/-- The whole entry of number `q` at depth `k`, as an address range. -/
theorem slot_lo (k q : ℕ) : slot k (q * span k) = q := Nat.mul_div_cancel q (span_pos k)

/-- Writing a leaf descriptor maps its whole entry. -/
theorem Labelled.maps_leaf (h : Labelled depth entries good top mem label) (he : 0 < entries)
    {k t p q : ℕ} (ht : label t = some (k, p)) (hq : q / width depth entries k = p)
    {d : BitVec 64} (hd : k = 0 ∨ isTable d = false) {f : ℕ → ℕ × ℕ}
    (hleaf : ∀ x, slot k x = q → leaf k d x = some (f x)) :
    Maps depth entries label k t p f (q * span k) ((q + 1) * span k) mem
      (Function.update mem (word depth entries k t q) d) := by
  have hother : ∀ t' k' p' q', label t' = some (k', p') → q' / width depth entries k' = p' →
      (k' = k → q' ≠ q) →
      Function.update mem (word depth entries k t q) d (word depth entries k' t' q') =
        mem (word depth entries k' t' q') := by
    intro t' k' p' q' ht' hq' hne
    apply Function.update_of_ne
    intro hw
    obtain ⟨-, hk, hqq⟩ := h.word_inj he ht' ht hq' hq hw
    exact hne hk hqq
  have hhere : ∀ x, slot k x = q → ending (Function.update mem (word depth entries k t q) d) k
      (width depth entries k) t x = (k, d) := by
    intro x hx
    cases k with
    | zero => simp only [ending, hx, word, Function.update_self]
    | succ k =>
      have htable : isTable d = false := hd.resolve_left (Nat.succ_ne_zero k)
      simp [ending, hx, word, htable]
  -- An address through another entry of the table does not share its last entry.
  have haway : ∀ x, slot k x ≠ q → ¬ Meets mem k (width depth entries k) t (q * span k)
      ((q + 1) * span k) x := by
    rintro x hx ⟨y, hlo, hhi, hy⟩
    apply hx
    rw [← slot_eq_of_le (ending_le _ _ _ _ _) hy]
    exact slot_eq_iff.mpr ⟨hlo, hhi⟩
  constructor
  · intro x _ hlo hhi
    have hs : slot k x = q := slot_eq_iff.mpr ⟨hlo, hhi⟩
    rw [walk_eq_leaf, hhere x hs]
    refine ⟨hleaf x hs, ?_⟩
    intro y hy
    exact slot_eq_iff.mp (hy.trans hs)
  · intro x hx hmeets
    apply h.ending_congr ht hx
    intro t' k' p' ht' hk' hx'
    apply hother t' k' p' _ ht' hx'
    rintro rfl hs
    obtain ⟨hlo, hhi⟩ := slot_eq_iff.mp hs
    exact hmeets ⟨x, hlo, hhi, rfl⟩
  · intro x _ hout hmeets
    exact absurd hmeets (haway x fun hs => hout (slot_eq_iff.mp hs))
  · intro t' k' p' q' ht' hk' hq'
    exact hother t' k' p' q' ht' hq' fun he => absurd he (by omega)
  · intro t' k' p' q' ht' hq' hx
    apply hother t' k' p' q' ht' hq'
    rintro rfl hqq
    apply hx (q * span k') le_rfl
    · exact Nat.mul_lt_mul_of_pos_right (Nat.lt_succ_self q) (span_pos k')
    · rw [slot_lo, hqq]

theorem Labelled.write_leaf (h : Labelled depth entries good top mem label) (he : 0 < entries)
    {k t p q : ℕ} (ht : label t = some (k, p)) (hq : q / width depth entries k = p)
    {d : BitVec 64} (hd : k = 0 ∨ isTable d = false) :
    Labelled depth entries good top (Function.update mem (word depth entries k t q) d) label where
  root := h.root
  below := h.below
  child {t' k' p' q'} ht' hq' htable := by
    by_cases hw : word depth entries (k' + 1) t' q' = word depth entries k t q
    · obtain ⟨-, hk, -⟩ := h.word_inj he ht' ht hq' hq hw
      rw [hw, Function.update_self] at htable
      rcases hd with hk0 | hd
      · omega
      · rw [hd] at htable
        cases htable
    · rw [Function.update_of_ne hw] at htable ⊢
      exact h.child ht' hq' htable
  apart := h.apart

/-- The words of a table of `n` entries set to zero. -/
def zeroTable (mem : Memory) (t n : ℕ) : Memory :=
  fun a => if t ≤ a ∧ a < t + 8 * n then 0 else mem a

theorem walk_zero {k n t x : ℕ} (hn : 0 < n)
    (hz : ∀ i, i < n → mem (t + 8 * i) = 0) : walk mem k n t x = none := by
  have hi := Nat.mod_lt (slot k x) hn
  cases k with
  | zero => simp only [walk, hz _ hi, leaf_eq_none_iff, isLeaf_zero]
  | succ k =>
    have ht : isTable (0 : BitVec 64) = false := by decide
    simp only [walk, hz _ hi, ht, Bool.false_eq_true, if_false, leaf_eq_none_iff, isLeaf_zero]

/-- The labels with a new table below an entry. -/
def addLabel (label : Labels) (t k q : ℕ) : Labels := Function.update label t (some (k, q))

section Link
variable {k t p q tc : ℕ} {d : BitVec 64}

/-- The memory after a zeroed table was linked into an entry. -/
def linked (depth entries : ℕ) (mem : Memory) (k t q tc : ℕ) (d : BitVec 64) : Memory :=
  Function.update (zeroTable mem tc 512) (word depth entries (k + 1) t q) d

/-- The address range of the table is free of labelled tables. -/
def Fresh (depth entries : ℕ) (label : Labels) (tc : ℕ) : Prop :=
  ∀ t k p, label t = some (k, p) → Extent.Apart ⟨tc, 8 * 512⟩ ⟨t, 8 * width depth entries k⟩

theorem Fresh.label_eq_none (hf : Fresh depth entries label tc) (he : 0 < entries) :
    label tc = none := by
  cases hl : label tc with
  | none => rfl
  | some l =>
    have hpos := width_pos depth he l.1
    rcases hf tc l.1 l.2 hl with h | h
    · simp [Extent.stop] at h
    · simp only [Extent.stop] at h
      omega

theorem Fresh.keeps (hf : Fresh depth entries label tc) (he : 0 < entries) :
    Keeps label (addLabel label tc k q) := by
  intro t l ht
  have hne : t ≠ tc := by
    rintro rfl
    rw [hf.label_eq_none he] at ht
    cases ht
  rw [addLabel, Function.update_of_ne hne, ht]

/-- Linking changes no other word of a labelled table. -/
theorem Fresh.linked_other (hf : Fresh depth entries label tc)
    (h : Labelled depth entries good top mem label) (he : 0 < entries)
    (ht : label t = some (k + 1, p)) (hq : q / width depth entries (k + 1) = p)
    {t' k' p' q' : ℕ} (ht' : label t' = some (k', p')) (hq' : q' / width depth entries k' = p')
    (hne : t' = t → q' ≠ q) :
    linked depth entries mem k t q tc d (word depth entries k' t' q') =
      mem (word depth entries k' t' q') := by
  have hw : word depth entries k' t' q' ≠ word depth entries (k + 1) t q := by
    intro hw
    obtain ⟨htt, -, hqq⟩ := h.word_inj he ht' ht hq' hq hw
    exact hne htt hqq
  have hlt := Nat.mod_lt q' (width_pos depth he k')
  rw [linked, Function.update_of_ne hw, zeroTable, if_neg]
  rcases hf t' k' p' ht' with ha | ha
  · simp only [Extent.stop, word] at ha ⊢
    omega
  · simp only [Extent.stop, word] at ha ⊢
    omega

/-- The new table is all zero. -/
theorem Fresh.linked_zero (hf : Fresh depth entries label tc) (he : 0 < entries)
    (ht : label t = some (k + 1, p)) {i : ℕ} (hi : i < 512) :
    linked depth entries mem k t q tc d (tc + 8 * i) = 0 := by
  have hlt := Nat.mod_lt q (width_pos depth he (k + 1))
  have hw : tc + 8 * i ≠ word depth entries (k + 1) t q := by
    unfold word
    rcases hf t (k + 1) p ht with ha | ha
    · simp only [Extent.stop] at ha
      omega
    · simp only [Extent.stop] at ha
      omega
  rw [linked, Function.update_of_ne hw, zeroTable, if_pos ⟨by omega, by omega⟩]

theorem Labelled.link (h : Labelled depth entries good top mem label) (he : 0 < entries)
    (ht : label t = some (k + 1, p)) (hq : q / width depth entries (k + 1) = p)
    (hf : Fresh depth entries label tc) (hd : address d = tc) (hgood : good d) :
    Labelled depth entries good top (linked depth entries mem k t q tc d) (addLabel label tc k q) := by
  have hlt : k < depth := h.below ht
  have hkeep : Keeps label (addLabel label tc k q) := hf.keeps he
  have hnew : addLabel label tc k q tc = some (k, q) := Function.update_self _ _ _
  have hold : ∀ t', t' ≠ tc → addLabel label tc k q t' = label t' := fun t' ht' =>
    Function.update_of_ne ht' _ _
  constructor
  · exact hkeep _ _ h.root
  · intro t' k' p' ht'
    by_cases hc : t' = tc
    · subst hc
      rw [hnew] at ht'
      obtain ⟨rfl, rfl⟩ := Prod.mk.inj (Option.some.inj ht')
      exact hlt.le
    · rw [hold _ hc] at ht'
      exact h.below ht'
  · intro t' k' p' q' ht' hq' htable
    by_cases hc : t' = tc
    · -- The new table holds no descriptor yet.
      subst hc
      rw [hnew] at ht'
      obtain ⟨rfl, rfl⟩ := Prod.mk.inj (Option.some.inj ht')
      have hwidth := width_of_lt entries hlt
      rw [word, hf.linked_zero he ht (by rw [hwidth]; exact Nat.mod_lt _ (by decide))] at htable
      simp [isTable] at htable
    · rw [hold _ hc] at ht'
      by_cases hw : t' = t ∧ q' = q
      · obtain ⟨rfl, rfl⟩ := hw
        rw [ht] at ht'
        obtain ⟨hk, -⟩ := Prod.mk.inj (Option.some.inj ht')
        obtain rfl : k = k' := by omega
        rw [linked, Function.update_self, hd]
        exact ⟨hnew, hgood⟩
      · rw [hf.linked_other h he ht hq ht' hq' fun htt hqq => hw ⟨htt, hqq⟩] at htable ⊢
        exact (h.child ht' hq' htable).imp_left (hkeep _ _)
  · intro t₁ k₁ p₁ t₂ k₂ p₂ h₁ h₂ hne
    by_cases hc₁ : t₁ = tc
    · subst hc₁
      rw [hnew] at h₁
      obtain ⟨rfl, rfl⟩ := Prod.mk.inj (Option.some.inj h₁)
      rw [hold _ (Ne.symm hne)] at h₂
      rw [width_of_lt entries hlt]
      exact hf _ _ _ h₂
    · rw [hold _ hc₁] at h₁
      by_cases hc₂ : t₂ = tc
      · subst hc₂
        rw [hnew] at h₂
        obtain ⟨rfl, rfl⟩ := Prod.mk.inj (Option.some.inj h₂)
        rw [width_of_lt entries hlt]
        exact (hf _ _ _ h₁).symm
      · rw [hold _ hc₂] at h₂
        exact h.apart h₁ h₂ hne

/-- Below a linked table everything faults. -/
theorem Labelled.walk_link (he : 0 < entries) (ht : label t = some (k + 1, p))
    (hf : Fresh depth entries label tc) (hd : address d = tc) (hdt : isTable d = true)
    {x : ℕ} (hx : slot (k + 1) x = q) :
    walk (linked depth entries mem k t q tc d) (k + 1) (width depth entries (k + 1)) t x =
      none := by
  have hword : linked depth entries mem k t q tc d
      (t + 8 * (slot (k + 1) x % width depth entries (k + 1))) = d := by
    rw [hx, linked, word, Function.update_self]
  rw [walk, hword, if_pos hdt, hd]
  exact walk_zero (by decide) fun i hi => hf.linked_zero he ht hi

end Link

/-- A change below an entry, seen from the table of the entry. The entry's table
was there before, or it was linked just now and is empty. -/
theorem Maps.descend {mem₁ mem₂ : Memory} {label₁ : Labels} {k t p q tc lo hi : ℕ}
    {f : ℕ → ℕ × ℕ} (h₀ : Labelled depth entries good top mem label)
    (h₁ : Labelled depth entries good top mem₁ label₁) (hkeep : Keeps label label₁)
    (ht : label t = some (k + 1, p)) (hq : q / width depth entries (k + 1) = p)
    (hentry : isTable (mem₁ (word depth entries (k + 1) t q)) = true ∧
      address (mem₁ (word depth entries (k + 1) t q)) = tc)
    (hother : ∀ t' k' p' q', label t' = some (k', p') → q' / width depth entries k' = p' →
      (k' = k + 1 → q' ≠ q) →
      mem₁ (word depth entries k' t' q') = mem (word depth entries k' t' q'))
    (hopen : ∀ x, slot (k + 1) x = q →
      ending mem₁ (k + 1) (width depth entries (k + 1)) t x =
          ending mem (k + 1) (width depth entries (k + 1)) t x ∨
        (ending mem (k + 1) (width depth entries (k + 1)) t x).1 = k + 1 ∧
          walk mem₁ (k + 1) (width depth entries (k + 1)) t x = none)
    (hlt : lo < hi) (hrange : ∀ x, lo ≤ x → x < hi → slot (k + 1) x = q)
    (h : Maps depth entries label₁ k tc q f lo hi mem₁ mem₂) :
    Maps depth entries label (k + 1) t p f lo hi mem mem₂ := by
  have hdepth : k < depth := h₁.below (hkeep _ _ ht)
  have hhere : mem₂ (word depth entries (k + 1) t q) = mem₁ (word depth entries (k + 1) t q) :=
    h.above t (k + 1) p q (hkeep _ _ ht) (Nat.lt_succ_self k) hq
  have hlo : slot (k + 1) lo = q := hrange lo le_rfl hlt
  have houtside : ∀ t' k' p' q', label t' = some (k', p') → q' / width depth entries k' = p' →
      (∀ x, lo ≤ x → x < hi → slot k' x ≠ q') →
      mem₂ (word depth entries k' t' q') = mem (word depth entries k' t' q') := by
    intro t' k' p' q' ht' hq' hx
    rw [h.outside t' k' p' q' (hkeep _ _ ht') hq' hx]
    apply hother t' k' p' q' ht' hq'
    rintro rfl he
    exact hx lo le_rfl hlt (hlo.trans he.symm)
  -- Through the entry, the walk is the child's.
  have hdown : ∀ (m : Memory) x, m (word depth entries (k + 1) t q) =
      mem₁ (word depth entries (k + 1) t q) → slot (k + 1) x = q →
      ending m (k + 1) (width depth entries (k + 1)) t x =
        ending m k (width depth entries k) tc x := by
    intro m x hm hx
    rw [ending, hx, ← word, hm, if_pos hentry.1, hentry.2, width_of_lt entries hdepth]
  have hwalk : ∀ (m : Memory) x, m (word depth entries (k + 1) t q) =
      mem₁ (word depth entries (k + 1) t q) → slot (k + 1) x = q →
      walk m (k + 1) (width depth entries (k + 1)) t x =
        walk m k (width depth entries k) tc x := by
    intro m x hm hx
    rw [walk_eq_leaf, walk_eq_leaf, hdown m x hm hx]
  have hchild : ∀ x, slot (k + 1) x = q → slot k x / width depth entries k = q := by
    intro x hx
    rw [slot_div_width hdepth, hx]
  constructor
  · intro x _ hx hx'
    have hs := hrange x hx hx'
    rw [hwalk mem₂ x hhere hs, hdown mem₂ x hhere hs]
    exact h.inside x (hchild x hs) hx hx'
  · intro x hx hmeets
    by_cases hs : slot (k + 1) x = q
    · rcases hopen x hs with hsame | ⟨hnew, -⟩
      · rw [hdown mem₂ x hhere hs, h.kept x (hchild x hs), ← hdown mem₁ x rfl hs, hsame]
        unfold Meets
        rwa [← hdown mem₁ x rfl hs, hsame]
      · exact absurd ⟨lo, le_rfl, hlt, by rw [hnew, hs, hlo]⟩ hmeets
    · apply h₀.ending_congr ht hx
      intro t' k' p' ht' hk' hx'
      apply houtside t' k' p' _ ht' hx'
      intro y hy hy' he
      apply hs
      rw [← hrange y hy hy']
      exact slot_eq_of_le hk' he.symm
  · intro x hx hout hmeets
    obtain ⟨y, hy, hy', hslot⟩ := hmeets
    have hs : slot (k + 1) x = q := by
      rw [← hrange y hy hy']
      exact (slot_eq_of_le (ending_le _ _ _ _ _) hslot).symm
    rw [hwalk mem₂ x hhere hs]
    rcases hopen x hs with hsame | ⟨-, hnone⟩
    · apply h.split x (hchild x hs) hout
      rw [← hsame, hdown mem₁ x rfl hs] at hslot
      exact ⟨y, hy, hy', hslot⟩
    · rw [hwalk mem₁ x rfl hs] at hnone
      exact h.walk_none (hchild x hs) hout hnone
  · intro t' k' p' q' ht' hk' hq'
    rw [h.above t' k' p' q' (hkeep _ _ ht') (by omega) hq']
    exact hother t' k' p' q' ht' hq' fun he => absurd he (by omega)
  · exact houtside

end TranslationTable
