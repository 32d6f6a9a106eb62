import Mathlib.Data.Int.ModEq
import Mathlib.Data.Nat.ModEq
import Mathlib.Logic.Function.Basic

/-!
# Circular buffers

Number `k` of a sequence is kept in cell `k % size`.  The buffer holds the
numbers from `lo` up to `hi` as long as not more than `size` of them are kept.
-/

namespace OsLabs
namespace Foundation

variable {alpha : Type}

/-- The cells hold the items from `lo` up to `hi`. -/
def Buffered (size : Nat) (cells item : Nat -> alpha) (lo hi : Nat) : Prop :=
  forall k, lo ≤ k -> k < hi -> cells (k % size) = item k

theorem mod_ne_mod {size j k : Nat} (hjk : j < k) (hnear : k < j + size) :
    j % size ≠ k % size := by
  intro heq
  have hdvd : size ∣ k - j := (Nat.modEq_iff_dvd' hjk.le).mp heq
  have hle := Nat.le_of_dvd (by lia) hdvd
  lia

theorem Buffered.empty (size : Nat) (cells item : Nat -> alpha) (n : Nat) :
    Buffered size cells item n n := by
  intro k hlo hhi
  lia

theorem Buffered.store {size lo hi : Nat} {cells item : Nat -> alpha}
    (h : Buffered size cells item lo hi) (hroom : hi < lo + size) :
    Buffered size (Function.update cells (hi % size) (item hi)) item lo (hi + 1) := by
  intro k hlo hhi
  rw [Function.update_apply]
  by_cases hk : k = hi
  · rw [hk, if_pos rfl]
  · rw [if_neg (mod_ne_mod (by lia) (by lia))]
    exact h k hlo (by lia)

theorem Buffered.mono {size lo lo' hi hi' : Nat} {cells item : Nat -> alpha}
    (h : Buffered size cells item lo hi) (hlo : lo ≤ lo') (hhi : hi' ≤ hi) :
    Buffered size cells item lo' hi' := by
  intro k hk hk'
  exact h k (hlo.trans hk) (hk'.trans_le hhi)

theorem Buffered.congr {size lo hi : Nat} {cells item item' : Nat -> alpha}
    (h : Buffered size cells item lo hi) (heq : forall k, k < hi -> item' k = item k) :
    Buffered size cells item' lo hi := by
  intro k hlo hhi
  rw [heq k hhi]
  exact h k hlo hhi

theorem exists_mod_eq {size hi j : Nat} (hj : j < size) (hhi : j < hi) :
    exists k, k % size = j ∧ k < hi ∧ hi ≤ k + size := by
  have hbelow := Nat.mul_div_le (hi - 1 - j) size
  have habove := Nat.lt_mul_div_succ (hi - 1 - j) (Nat.zero_lt_of_lt hj)
  rw [Nat.mul_add, Nat.mul_one] at habove
  refine ⟨j + size * ((hi - 1 - j) / size), ?_, by lia, by lia⟩
  rw [Nat.add_mul_mod_self_left, Nat.mod_eq_of_lt hj]

/-!
# Two indices into the same buffer

With one cell left unused, the indices of a full buffer differ from those of an
empty one.
-/

theorem mod_eq_mod_iff {size lo hi : Nat} (hle : lo ≤ hi) (hnear : hi < lo + size) :
    lo % size = hi % size <-> lo = hi := by
  constructor
  · intro heq
    cases Nat.eq_or_lt_of_le hle with
    | inl hsame => exact hsame
    | inr hlt => exact absurd heq (mod_ne_mod hlt hnear)
  · intro heq
    rw [heq]

theorem succ_mod_eq_mod_iff {n lo hi : Nat} (hle : lo ≤ hi) (hroom : hi ≤ lo + n) :
    (hi % (n + 1) + 1) % (n + 1) = lo % (n + 1) <-> hi = lo + n := by
  rw [Nat.mod_add_mod]
  constructor
  · intro heq
    apply Classical.byContradiction
    intro hne
    exact mod_ne_mod (show lo < hi + 1 by lia) (show hi + 1 < lo + (n + 1) by lia) heq.symm
  · intro heq
    have hwrap : lo + n + 1 = lo + (n + 1) := by lia
    rw [heq, hwrap, Nat.add_mod_right]

theorem wrap_succ_mod {size : Nat} (hsize : 0 < size) (k : Nat) :
    (if k % size + 1 = size then 0 else k % size + 1) = (k + 1) % size := by
  have hlt := Nat.mod_lt k hsize
  rw [← Nat.mod_add_mod]
  split
  · rename_i heq
    rw [heq, Nat.mod_self]
  · exact (Nat.mod_eq_of_lt (by lia)).symm

theorem distance_mod {n lo hi : Nat} (hle : lo ≤ hi) (hroom : hi < lo + n) :
    (((hi % (n + 1) : Nat) : Int) + n + 2 - (lo % (n + 1) : Nat)) % (n + 1) = hi + 1 - lo := by
  have hhi : ((hi % (n + 1) : Nat) : Int) ≡ hi [ZMOD (n + 1)] := by
    rw [Int.natCast_mod]
    exact Int.mod_modEq _ _
  have hlo : ((lo % (n + 1) : Nat) : Int) ≡ lo [ZMOD (n + 1)] := by
    rw [Int.natCast_mod]
    exact Int.mod_modEq _ _
  have hsame := ((hhi.add_right (n : Int)).add_right 2).sub hlo
  have hwrap : (hi : Int) + n + 2 - lo = hi + 1 - lo + (n + 1) := by lia
  rw [hwrap] at hsame
  have hall := hsame.trans (Int.add_modEq_right)
  rw [hall.eq]
  exact Int.emod_eq_of_lt (by lia) (by lia)

end Foundation
end OsLabs
