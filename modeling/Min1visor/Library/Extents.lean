import Mathlib.Data.List.Pairwise
import Mathlib.Order.Interval.Set.Disjoint
import Mathlib.Order.Interval.Finset.Nat
import Mathlib.Tactic
import Mathlib.Order.CompletePartialOrder

/-!
# Half-open address extents

An extent is a start address and a size. Two extents are apart when one ends
before the other starts, which is disjointness of the address sets they cover
as soon as neither is empty.
-/

/-- The addresses from `start` up to, but not including, `start + size`. -/
structure Extent where
  start : ℕ
  size : ℕ
  deriving DecidableEq, Repr

namespace Extent

def stop (e : Extent) : ℕ := e.start + e.size

/-- The covered addresses. -/
def addresses (e : Extent) : Set ℕ := Set.Ico e.start e.stop

def Apart (e f : Extent) : Prop := e.stop ≤ f.start ∨ f.stop ≤ e.start

def Within (e : Extent) (lo hi : ℕ) : Prop := lo ≤ e.start ∧ e.stop ≤ hi

instance (e f : Extent) : Decidable (Apart e f) :=
  inferInstanceAs (Decidable (_ ∨ _))

instance (e : Extent) (lo hi : ℕ) : Decidable (e.Within lo hi) :=
  inferInstanceAs (Decidable (_ ∧ _))

theorem Apart.symm {e f : Extent} (h : Apart e f) : Apart f e := Or.symm h

/-- Apart extents share no address. -/
theorem Apart.disjoint {e f : Extent} (h : Apart e f) : Disjoint e.addresses f.addresses := by
  rw [Set.disjoint_left]
  intro a he hf
  simp only [addresses, Set.mem_Ico] at he hf
  rcases h with h | h <;> omega

/-- An extent that shrinks stays apart from what it was apart from. -/
theorem Apart.mono {e e' f : Extent} (h : Apart e f) (hs : e.start ≤ e'.start)
    (hp : e'.stop ≤ e.stop) : Apart e' f := by
  rcases h with h | h
  · exact Or.inl (hp.trans h)
  · exact Or.inr (h.trans hs)

theorem Within.mono {e : Extent} {lo hi lo' hi' : ℕ} (h : e.Within lo hi) (hl : lo' ≤ lo)
    (hh : hi ≤ hi') : e.Within lo' hi' := ⟨hl.trans h.1, h.2.trans hh⟩

/-- No two extents of the list overlap. -/
def Separated (l : List Extent) : Prop := l.Pairwise Apart

instance (l : List Extent) : Decidable (Separated l) :=
  inferInstanceAs (Decidable (l.Pairwise Apart))

theorem Separated.perm {l l' : List Extent} (h : Separated l) (hp : l.Perm l') :
    Separated l' := (hp.pairwise_iff fun h => Apart.symm h).mp h

/-- Replacing one extent by separated pieces of it keeps a list separated. -/
theorem Separated.refine {e : Extent} {l pieces : List Extent} (h : Separated (e :: l))
    (hp : Separated pieces) (hin : ∀ p ∈ pieces, p.Within e.start e.stop) :
    Separated (pieces ++ l) := by
  obtain ⟨he, hl⟩ := List.pairwise_cons.mp h
  refine List.pairwise_append.mpr ⟨hp, hl, ?_⟩
  intro p hpm f hf
  exact (he f hf).mono (hin p hpm).1 (hin p hpm).2

/-- All addresses of a list of extents. -/
def covered : List Extent → Finset ℕ
  | [] => ∅
  | e :: l => Finset.Ico e.start e.stop ∪ covered l

theorem mem_covered {l : List Extent} {a : ℕ} : a ∈ covered l ↔ ∃ e ∈ l, a ∈ e.addresses := by
  induction l with
  | nil => simp [covered]
  | cons e l ih => simp [covered, ih, addresses]

theorem Separated.card_covered {l : List Extent} (h : Separated l) :
    (covered l).card = (l.map size).sum := by
  induction l with
  | nil => rfl
  | cons e l ih =>
    obtain ⟨he, hl⟩ := List.pairwise_cons.mp h
    have hdisjoint : Disjoint (Finset.Ico e.start e.stop) (covered l) := by
      rw [Finset.disjoint_left]
      intro a ha hcovered
      obtain ⟨f, hf, haf⟩ := mem_covered.mp hcovered
      exact Set.disjoint_left.mp (he f hf).disjoint (Finset.mem_Ico.mp ha) haf
    rw [covered, Finset.card_union_of_disjoint hdisjoint, ih hl, Nat.card_Ico, List.map_cons,
      List.sum_cons, stop, Nat.add_sub_cancel_left]

/-- Separated extents of a range cover it when their sizes add up to it. -/
theorem Separated.cover {l : List Extent} (h : Separated l) {lo hi : ℕ}
    (hin : ∀ e ∈ l, e.Within lo hi) (hsum : (l.map size).sum = hi - lo) {a : ℕ} (hlo : lo ≤ a)
    (hhi : a < hi) : ∃ e ∈ l, a ∈ e.addresses := by
  have hsub : covered l ⊆ Finset.Ico lo hi := by
    intro b hb
    obtain ⟨e, he, hstart, hstop⟩ := mem_covered.mp hb
    exact Finset.mem_Ico.mpr ⟨(hin e he).1.trans hstart, hstop.trans_le (hin e he).2⟩
  have hcard : (Finset.Ico lo hi).card ≤ (covered l).card := by
    rw [h.card_covered, hsum, Nat.card_Ico]
  have hall := Finset.eq_of_subset_of_card_le hsub hcard
  exact mem_covered.mp (hall ▸ Finset.mem_Ico.mpr ⟨hlo, hhi⟩)

end Extent
