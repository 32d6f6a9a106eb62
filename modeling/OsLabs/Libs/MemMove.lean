import Mathlib.Logic.Function.Basic

/-!
# Moving memory

`__memcpy` and `__memmove` of `x86.h`: string instructions that copy four bytes or one byte at
a time, upwards or downwards.  Addresses are numbers, so the areas do not wrap around.
-/

namespace OsLabs
namespace Libs

abbrev Memory := Nat -> BitVec 8

/-- The `w` bytes from `dst` on become those from `src` on, all of them read before. -/
def moved (mem : Memory) (dst src w : Nat) : Memory := fun a =>
  if dst ≤ a ∧ a < dst + w then mem (src + (a - dst)) else mem a

/-- `rep; movsl` for a width of 4 and `rep; movsb` for a width of 1; the memory and the two
pointers behind the areas. -/
def repMovs (w : Nat) : Nat -> Memory -> Nat -> Nat -> Memory × Nat × Nat
  | 0, mem, dst, src => (mem, dst, src)
  | cnt + 1, mem, dst, src => repMovs w cnt (moved mem dst src w) (dst + w) (src + w)

/-- `std; rep; movsb`, with the pointers at the last byte; they are `cnt` bytes behind the
areas that are still to be copied. -/
def repMovsbDown : Nat -> Memory -> Nat -> Nat -> Memory
  | 0, mem, _, _ => mem
  | cnt + 1, mem, dst, src => repMovsbDown cnt (moved mem (dst + cnt) (src + cnt) 1) dst src

def memcpy (mem : Memory) (dst src n : Nat) : Memory :=
  let (mem, dst, src) := repMovs 4 (n / 4) mem dst src
  (repMovs 1 (n &&& 3) mem dst src).fst

def memmove (mem : Memory) (dst src n : Nat) : Memory :=
  if dst < src then memcpy mem dst src n else repMovsbDown n mem dst src

/-!
# Both directions
-/

variable {mem : Memory} {dst src w : Nat}

theorem moved_zero (mem : Memory) (dst src : Nat) : moved mem dst src 0 = mem := by
  funext a
  unfold moved
  rw [if_neg (by lia)]

/-- Upwards, what is read later has not been overwritten yet. -/
theorem moved_moved_up {k : Nat} (hapart : dst ≤ src ∨ src + (w + k) ≤ dst) :
    moved (moved mem dst src w) (dst + w) (src + w) k = moved mem dst src (w + k) := by
  funext a
  unfold moved
  by_cases hlater : dst + w ≤ a ∧ a < dst + w + k
  · rw [if_pos hlater, if_neg (by lia), if_pos (by lia)]
    congr 1
    lia
  · rw [if_neg hlater]
    by_cases hfirst : dst ≤ a ∧ a < dst + w
    · rw [if_pos hfirst, if_pos (by lia)]
    · rw [if_neg hfirst, if_neg (by lia)]

theorem moved_moved_down (hup : src ≤ dst) :
    moved (moved mem (dst + w) (src + w) 1) dst src w = moved mem dst src (w + 1) := by
  funext a
  unfold moved
  by_cases hfront : dst ≤ a ∧ a < dst + w
  · rw [if_pos hfront, if_neg (by lia), if_pos (by lia)]
  · rw [if_neg hfront]
    by_cases hlast : dst + w ≤ a ∧ a < dst + w + 1
    · rw [if_pos hlast, if_pos (by lia)]
      congr 1
      lia
    · rw [if_neg hlast, if_neg (by lia)]

theorem repMovs_spec {cnt : Nat} (hapart : dst ≤ src ∨ src + w * cnt ≤ dst) :
    repMovs w cnt mem dst src = (moved mem dst src (w * cnt), dst + w * cnt, src + w * cnt) := by
  induction cnt generalizing mem dst src with
  | zero =>
      rw [Nat.mul_zero, moved_zero]
      rfl
  | succ cnt ih =>
      have hlen : w * (cnt + 1) = w + w * cnt := by rw [Nat.mul_succ, Nat.add_comm]
      rw [hlen] at hapart ⊢
      unfold repMovs
      rw [ih (by lia), moved_moved_up hapart, Nat.add_assoc, Nat.add_assoc]

theorem repMovsbDown_spec {cnt : Nat} (hup : src ≤ dst) :
    repMovsbDown cnt mem dst src = moved mem dst src cnt := by
  induction cnt generalizing mem with
  | zero => exact (moved_zero mem dst src).symm
  | succ cnt ih =>
      unfold repMovsbDown
      rw [ih, moved_moved_down hup]

/-- `memcpy` copies areas that do not overlap, and also to a lower address. -/
theorem memcpy_spec {n : Nat} (hapart : dst ≤ src ∨ src + n ≤ dst) :
    memcpy mem dst src n = moved mem dst src n := by
  have hrest : n &&& 3 = n % 4 := Nat.and_two_pow_sub_one_eq_mod n 2
  have hsum : 4 * (n / 4) + 1 * (n % 4) = n := by lia
  unfold memcpy
  rw [hrest, repMovs_spec (by lia)]
  simp only
  rw [repMovs_spec (by lia), moved_moved_up (by lia), hsum]

/-- However the two areas overlap, `memmove` moves what was there before. -/
theorem memmove_spec (mem : Memory) (dst src n : Nat) :
    memmove mem dst src n = moved mem dst src n := by
  unfold memmove
  split
  · rename_i hdown
    exact memcpy_spec (Or.inl (Nat.le_of_lt hdown))
  · rename_i hup
    exact repMovsbDown_spec (Nat.le_of_not_lt hup)

end Libs
end OsLabs
