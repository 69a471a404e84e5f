import Mathlib.Data.Nat.Basic
import Mathlib.Logic.Relation
import Mathlib.Tactic

/-!
# Loops judged turn by turn

A loop runs on a fuel. Part of its state, the visible part, decides where it goes; the rest
changes along with it. What holds of a run of any length is then a matter of the turns that
the loop comes to: a bad turn breaks the run, and a good one ends it or hands it on. Where
runs that are cut off do not hold, some run holds only if the turns come to an end.
-/
namespace LoopRuns
open Relation

variable {ι κ : Type*}

/-- What a turn does to a run from a visible and a hidden state. -/
inductive Turn (holds : ℕ → ι → κ → Prop) (inv : ι → κ → Prop) (moves : ι → ι → Prop)
    (good : ι → Prop) (i : ι) (k : κ) : Prop
  | bad (hgood : ¬ good i) (h : ∀ fuel, ¬ holds (fuel + 1) i k)
  | last (hgood : good i) (hlast : ∀ j, ¬ moves i j) (h : ∀ fuel, holds (fuel + 1) i k)
  | next (hgood : good i) (j : ι) (k' : κ) (hmove : moves i j) (honly : ∀ l, moves i l → l = j)
      (hinv : inv j k') (h : ∀ fuel, holds (fuel + 1) i k ↔ holds fuel j k')

/-- Runs that are cut off hold, and the others by their turns. -/
structure Judged (holds : ℕ → ι → κ → Prop) (inv : ι → κ → Prop) (moves : ι → ι → Prop)
    (good : ι → Prop) : Prop where
  cut : ∀ i k, holds 0 i k
  turn : ∀ i k, inv i k → Turn holds inv moves good i k

namespace Judged

variable {holds : ℕ → ι → κ → Prop} {inv : ι → κ → Prop} {moves : ι → ι → Prop} {good : ι → Prop}

theorem good_of_holds (h : Judged holds inv moves good) {i : ι} {k : κ} (hinv : inv i k)
    (hall : ∀ fuel, holds fuel i k) : good i := by
  cases h.turn i k hinv with
  | bad _ hbad => exact absurd (hall 1) (hbad 0)
  | last hgood => exact hgood
  | next hgood => exact hgood

/-- Runs that hold go through turns from which runs hold. -/
theorem along (h : Judged holds inv moves good) {i j : ι} {k : κ} (hreach : ReflTransGen moves i j)
    (hinv : inv i k) (hall : ∀ fuel, holds fuel i k) :
    ∃ k', inv j k' ∧ ∀ fuel, holds fuel j k' := by
  induction hreach with
  | refl => exact ⟨k, hinv, hall⟩
  | tail _ hmove ih =>
    obtain ⟨k₁, hinv₁, hall₁⟩ := ih
    cases h.turn _ k₁ hinv₁ with
    | bad _ hbad => exact absurd (hall₁ 1) (hbad 0)
    | last _ hlast => exact absurd hmove (hlast _)
    | next _ j' k₂ _ honly hinv₂ hnext =>
      rw [honly _ hmove]
      exact ⟨k₂, hinv₂, fun fuel => (hnext fuel).mp (hall₁ (fuel + 1))⟩

theorem holds_of_good (h : Judged holds inv moves good) (fuel : ℕ) {i : ι} {k : κ} (hinv : inv i k)
    (hgood : ∀ j, ReflTransGen moves i j → good j) : holds fuel i k := by
  induction fuel generalizing i k with
  | zero => exact h.cut i k
  | succ fuel ih =>
    cases h.turn i k hinv with
    | bad hbad => exact absurd (hgood i .refl) hbad
    | last _ _ hlast => exact hlast fuel
    | next _ j k' hmove _ hinv' hnext =>
      exact (hnext fuel).mpr (ih hinv' fun l hl => hgood l (.head hmove hl))

/-- The runs of every length hold exactly when every turn that is come to is good. -/
theorem forall_iff (h : Judged holds inv moves good) {i : ι} {k : κ} (hinv : inv i k) :
    (∀ fuel, holds fuel i k) ↔ ∀ j, ReflTransGen moves i j → good j := by
  constructor
  · intro hall j hreach
    obtain ⟨k', hinv', hall'⟩ := h.along hreach hinv hall
    exact h.good_of_holds hinv' hall'
  · exact fun hgood fuel => h.holds_of_good fuel hinv hgood

end Judged

/-- Runs that are cut off do not hold, and the others by their turns. -/
structure Settled (holds : ℕ → ι → κ → Prop) (inv : ι → κ → Prop) (moves : ι → ι → Prop)
    (good : ι → Prop) : Prop where
  cut : ∀ i k, ¬ holds 0 i k
  turn : ∀ i k, inv i k → Turn holds inv moves good i k

namespace Settled

variable {holds : ℕ → ι → κ → Prop} {inv : ι → κ → Prop} {moves : ι → ι → Prop} {good : ι → Prop}

/-- A run that holds comes to finitely many turns, and to no bad one. -/
theorem ends_of_holds (h : Settled holds inv moves good) (fuel : ℕ) {i : ι} {k : κ} (hinv : inv i k)
    (hholds : holds fuel i k) :
    Acc (fun j i => moves i j) i ∧ ∀ j, ReflTransGen moves i j → good j := by
  induction fuel generalizing i k with
  | zero => exact absurd hholds (h.cut i k)
  | succ fuel ih =>
    cases h.turn i k hinv with
    | bad _ hbad => exact absurd hholds (hbad fuel)
    | last hgood hlast =>
      refine ⟨.intro i fun j hmove => absurd hmove (hlast j), fun j hreach => ?_⟩
      rcases hreach.cases_head with rfl | ⟨l, hmove, -⟩
      · exact hgood
      · exact absurd hmove (hlast l)
    | next hgood j k' _ honly hinv' hnext =>
      obtain ⟨hacc, hall⟩ := ih hinv' ((hnext fuel).mp hholds)
      constructor
      · refine .intro i fun l hmove => ?_
        rwa [honly l hmove]
      · intro l hreach
        rcases hreach.cases_head with rfl | ⟨l', hmove, hrest⟩
        · exact hgood
        · rw [honly l' hmove] at hrest
          exact hall l hrest

/-- Finitely many good turns make up a run that holds. -/
theorem exists_of_good (h : Settled holds inv moves good) {i : ι} (hacc : Acc (fun j i => moves i j) i)
    {k : κ} (hinv : inv i k) (hgood : ∀ j, ReflTransGen moves i j → good j) :
    ∃ fuel, holds fuel i k := by
  induction hacc generalizing k with
  | intro i _ ih =>
    cases h.turn i k hinv with
    | bad hbad => exact absurd (hgood i .refl) hbad
    | last _ _ hlast => exact ⟨1, hlast 0⟩
    | next _ j k' hmove _ hinv' hnext =>
      obtain ⟨fuel, hfuel⟩ := ih j hmove hinv' fun l hl => hgood l (.head hmove hl)
      exact ⟨fuel + 1, (hnext fuel).mpr hfuel⟩

/-- A run of some length holds exactly when the turns come to an end and are good. -/
theorem exists_iff (h : Settled holds inv moves good) {i : ι} {k : κ} (hinv : inv i k) :
    (∃ fuel, holds fuel i k) ↔
      Acc (fun j i => moves i j) i ∧ ∀ j, ReflTransGen moves i j → good j :=
  ⟨fun ⟨fuel, hholds⟩ => h.ends_of_holds fuel hinv hholds,
    fun ⟨hacc, hgood⟩ => h.exists_of_good hacc hinv hgood⟩

end Settled

end LoopRuns
