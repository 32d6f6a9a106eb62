import Mathlib.Algebra.BigOperators.Group.Finset.Basic
import Mathlib.Algebra.Order.BigOperators.Group.Finset

/-!
# What a set of threads holds together

A thread at a point of its program holds a number of tokens that depends on the
point alone.  When one thread moves, the total moves by the difference between
its new and its old point.
-/

namespace OsLabs
namespace Foundation

variable {thread point : Type} {T : Finset thread} {w : point -> Nat}
  {q : thread -> point} {i j : thread}

def held (T : Finset thread) (w : point -> Nat) (q : thread -> point) : Nat :=
  ∑ i ∈ T, w (q i)

theorem le_held (hi : i ∈ T) : w (q i) ≤ held T w q :=
  Finset.single_le_sum (f := fun x => w (q x)) (fun _ _ => Nat.zero_le _) hi

theorem held_eq_zero_iff : held T w q = 0 <-> forall i, i ∈ T -> w (q i) = 0 := by
  unfold held
  exact Finset.sum_eq_zero_iff

variable [DecidableEq thread]

theorem held_update (hi : i ∈ T) (w : point -> Nat) (q : thread -> point) (p : point) :
    held T w (Function.update q i p) + w (q i) = held T w q + w p := by
  have hold := Finset.add_sum_erase T (fun x => w (q x)) hi
  have hnew := Finset.add_sum_erase T (fun x => w (Function.update q i p x)) hi
  have hrest : ∑ x ∈ T.erase i, w (Function.update q i p x) = ∑ x ∈ T.erase i, w (q x) := by
    apply Finset.sum_congr rfl
    intro x hx
    rw [Function.update_of_ne (Finset.ne_of_mem_erase hx)]
  rw [hrest, Function.update_self] at hnew
  unfold held
  lia

theorem eq_of_held_le_one (hone : held T w q ≤ 1) (hi : i ∈ T) (hj : j ∈ T)
    (hwi : 0 < w (q i)) (hwj : 0 < w (q j)) : i = j := by
  by_contra hne
  have hsplit := Finset.add_sum_erase T (fun x => w (q x)) hi
  have hle : w (q j) ≤ ∑ x ∈ T.erase i, w (q x) :=
    Finset.single_le_sum (f := fun x => w (q x)) (fun _ _ => Nat.zero_le _)
      (Finset.mem_erase.mpr ⟨fun heq => hne heq.symm, hj⟩)
  unfold held at hone
  lia

end Foundation
end OsLabs
