import Mathlib.Data.Finset.Card

/-!
# Counting through a filter

A filter is a sequence of levels.  `registered l` are the participants that have
announced themselves at level `l` and `passed l` those of them that have gone
on.  If somebody other than the last one to announce itself is registered at a
level, the last one is held back there; so every level lets at least one
participant less through than the level before.
-/

namespace OsLabs
namespace Foundation

structure LevelFilter (alpha : Type) where
  registered : Nat -> Finset alpha
  passed : Nat -> Finset alpha
  last : Nat -> alpha

/-- Only those that pass a level register at the next one, and the last one to
register is held back by the others. -/
structure LevelFilter.Holds {alpha : Type} (F : LevelFilter alpha) (all : Finset alpha) : Prop where
  subset_all : F.registered 0 ⊆ all
  passed_subset : forall l, F.passed l ⊆ F.registered l
  registered_subset : forall l, F.registered (l + 1) ⊆ F.passed l
  held : forall l j, j ∈ F.registered l -> j ≠ F.last l ->
    F.last l ∈ F.registered l ∧ F.last l ∉ F.passed l

namespace LevelFilter

variable {alpha : Type} {F : LevelFilter alpha} {all : Finset alpha}

/-- A level that not only one participant has reached holds one back. -/
theorem Holds.card_passed_lt (h : F.Holds all) (l : Nat)
    (hmany : 1 < (F.registered l).card) : (F.passed l).card < (F.registered l).card := by
  rcases Finset.exists_mem_ne hmany (F.last l) with ⟨j, hj, hne⟩
  rcases h.held l j hj hne with ⟨hreg, hpass⟩
  exact Finset.card_lt_card
    (Finset.ssubset_iff_subset_ne.mpr ⟨h.passed_subset l, fun heq => hpass (heq ▸ hreg)⟩)

theorem Holds.card_passed_step (h : F.Holds all) {n l : Nat} (hl : l + 2 ≤ n)
    (hreg : (F.registered l).card + l ≤ n) : (F.passed l).card + l + 1 ≤ n := by
  have hle := Finset.card_le_card (h.passed_subset l)
  by_cases hmany : 1 < (F.registered l).card
  · have hlt := h.card_passed_lt l hmany
    lia
  · lia

theorem Holds.card_passed (h : F.Holds all) {n : Nat} (hcard : all.card ≤ n) (l : Nat)
    (hl : l + 2 ≤ n) : (F.passed l).card + l + 1 ≤ n := by
  induction l with
  | zero =>
      have hall := Finset.card_le_card h.subset_all
      exact h.card_passed_step hl (by lia)
  | succ l ih =>
      have hprev := ih (by lia)
      have hreg := Finset.card_le_card (h.registered_subset l)
      exact h.card_passed_step hl (by lia)

end LevelFilter
end Foundation
end OsLabs
