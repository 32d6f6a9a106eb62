import Mathlib.Data.Finset.Card
import Mathlib.Data.Finset.Filter

/-!
# Counting the keys of a partial map

The number of keys in a finite set that a partial map sends to a given value,
and how it moves when the map changes at one key.
-/

namespace OsLabs
namespace Foundation

variable {key value : Type} [DecidableEq value]

def fiberCard (K : Finset key) (f : key -> Option value) (v : value) : Nat :=
  (K.filter fun k => f k = some v).card

theorem fiberCard_congr {K : Finset key} {f g : key -> Option value}
    (h : forall k, k ∈ K -> f k = g k) (v : value) :
    fiberCard K f v = fiberCard K g v := by
  unfold fiberCard
  congr 1
  apply Finset.filter_congr
  intro k hk
  rw [h k hk]

theorem fiberCard_pos {K : Finset key} {f : key -> Option value} {v : value} :
    0 < fiberCard K f v <-> exists k, k ∈ K ∧ f k = some v := by
  unfold fiberCard
  rw [Finset.card_pos]
  constructor
  · intro h
    rcases h with ⟨k, hk⟩
    exact ⟨k, (Finset.mem_filter.mp hk).left, (Finset.mem_filter.mp hk).right⟩
  · intro h
    rcases h with ⟨k, hk, hv⟩
    exact ⟨k, Finset.mem_filter.mpr ⟨hk, hv⟩⟩

variable [DecidableEq key]

theorem fiberCard_erase {K : Finset key} {f : key -> Option value} {k : key}
    (hk : k ∈ K) (v : value) :
    fiberCard K f v = fiberCard (K.erase k) f v + if f k = some v then 1 else 0 := by
  unfold fiberCard
  rw [Finset.filter_erase]
  by_cases hv : f k = some v
  · have hmem : k ∈ K.filter fun k => f k = some v := Finset.mem_filter.mpr ⟨hk, hv⟩
    rw [if_pos hv, Finset.card_erase_add_one hmem]
  · have hmem : k ∉ K.filter fun k => f k = some v := by
      intro h
      exact hv (Finset.mem_filter.mp h).right
    rw [if_neg hv, Finset.erase_eq_of_notMem hmem, Nat.add_zero]

theorem fiberCard_update {K : Finset key} {f g : key -> Option value} {k : key}
    (hk : k ∈ K) (hoff : forall k', k' ∈ K -> k' ≠ k -> g k' = f k') (v : value) :
    fiberCard K g v + (if f k = some v then 1 else 0) =
      fiberCard K f v + if g k = some v then 1 else 0 := by
  have hrest : fiberCard (K.erase k) g v = fiberCard (K.erase k) f v := by
    apply fiberCard_congr
    intro k' hk'
    rcases Finset.mem_erase.mp hk' with ⟨hne, hmem⟩
    exact hoff k' hmem hne
  rw [fiberCard_erase hk v, fiberCard_erase (f := f) hk v, hrest]
  lia

end Foundation
end OsLabs
