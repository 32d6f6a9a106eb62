import Mathlib.Data.List.Dedup
import Mathlib.Data.List.Nodup
import Mathlib.Data.List.Perm.Basic
import Mathlib.Data.List.Sublists

/-!
# Moving an entry to the back

A list without repetition in which an entry may be taken out and put at the
end: the order of the other entries is kept.
-/

namespace OsLabs
namespace Foundation

variable {alpha : Type}

def Before (l : List alpha) (a b : alpha) : Prop := [a, b].Sublist l

theorem Before.irrefl {l : List alpha} (hl : l.Nodup) (a : alpha) : ¬ Before l a a := by
  intro h
  have hpair : [a, a].Nodup := hl.sublist h
  simp at hpair

theorem before_cons_head {l : List alpha} {a b : alpha} (hb : b ∈ l) : Before (a :: l) a b :=
  (List.singleton_sublist.mpr hb).cons_cons a

theorem not_before_head {l : List alpha} {a b : alpha} (hl : (a :: l).Nodup) :
    ¬ Before (a :: l) b a := by
  intro h
  have hnot : a ∉ l := (List.nodup_cons.mp hl).left
  cases h with
  | cons _ htail => exact hnot (htail.subset (by simp))
  | cons_cons _ htail => exact hnot (htail.subset (by simp))

variable [DecidableEq alpha]

def moveToBack (l : List alpha) (x : alpha) : List alpha := l.erase x ++ [x]

theorem moveToBack_split {xs ys : List alpha} {x : alpha} (hx : x ∉ xs) :
    moveToBack (xs ++ x :: ys) x = xs ++ ys ++ [x] := by
  unfold moveToBack
  rw [List.erase_append_right _ hx, List.erase_cons_head]

theorem moveToBack_perm {l : List alpha} {x : alpha} (hx : x ∈ l) :
    (moveToBack l x).Perm l :=
  (List.perm_append_singleton x (l.erase x)).trans (List.perm_cons_erase hx).symm

theorem moveToBack_append {l m : List alpha} {x : alpha} (hx : x ∉ l) :
    moveToBack (l ++ m) x = l ++ moveToBack m x := by
  unfold moveToBack
  rw [List.erase_append_right _ hx, List.append_assoc]

theorem moveToBack_cons (x : alpha) (l : List alpha) : moveToBack (x :: l) x = l ++ [x] := by
  unfold moveToBack
  rw [List.erase_cons_head]

section Order

variable {l : List alpha} {x a b : alpha}

theorem not_before_moved (hl : l.Nodup) : ¬ Before (moveToBack l x) x b := by
  intro h
  unfold Before moveToBack at h
  rw [List.sublist_append_iff] at h
  rcases h with ⟨front, back, hsplit, hfront, hback⟩
  cases front with
  | nil =>
      rw [List.nil_append] at hsplit
      rw [← hsplit] at hback
      have hlen := hback.length_le
      simp at hlen
  | cons c front =>
      have hc : c = x := (List.cons.inj hsplit).left.symm
      rw [hc] at hfront
      exact hl.not_mem_erase (hfront.subset (by simp))

theorem before_moved (ha : a ∈ l) (hax : a ≠ x) : Before (moveToBack l x) a x := by
  have hmem : a ∈ l.erase x := (List.mem_erase_of_ne hax).mpr ha
  exact (List.singleton_sublist.mpr hmem).append (List.Sublist.refl [x])

theorem before_others (hl : l.Nodup) (hax : a ≠ x) (hbx : b ≠ x) :
    Before (moveToBack l x) a b <-> Before l a b := by
  have hpair : [a, b].filter (fun c => c != x) = [a, b] := by
    simp [hax, hbx]
  unfold Before moveToBack
  rw [hl.erase_eq_filter]
  constructor
  · intro h
    have hkept := h.filter fun c => c != x
    rw [hpair, List.filter_append, List.filter_filter] at hkept
    simp only [Bool.and_self, bne_self_eq_false, Bool.false_eq_true, not_false_eq_true,
      List.filter_cons_of_neg, List.filter_nil, List.append_nil] at hkept
    exact hkept.trans List.filter_sublist
  · intro h
    have hkept := h.filter fun c => c != x
    rw [hpair] at hkept
    exact hkept.trans (List.sublist_append_left _ _)

end Order

/-!
# The last entries
-/

def lastOf {alpha : Type} (n : Nat) (l : List alpha) : List alpha := l.drop (l.length - n)

section Last

variable {n : Nat} {l m : List alpha} {x : alpha}

omit [DecidableEq alpha] in
theorem lastOf_append (h : n ≤ m.length) : lastOf n (l ++ m) = lastOf n m := by
  unfold lastOf
  rw [List.length_append, List.drop_append, List.drop_eq_nil_of_le (by lia), List.nil_append]
  congr 1
  lia

omit [DecidableEq alpha] in
theorem lastOf_split (n : Nat) (l : List alpha) :
    exists front, l = front ++ lastOf n l ∧ (n ≤ l.length -> (lastOf n l).length = n) := by
  refine ⟨l.take (l.length - n), (List.take_append_drop _ l).symm, ?_⟩
  intro hle
  unfold lastOf
  rw [List.length_drop]
  lia

omit [DecidableEq alpha] in
theorem lastOf_eq_reverse_take (n : Nat) (l : List alpha) :
    (lastOf n l).reverse = l.reverse.take n := by
  unfold lastOf
  rw [List.take_reverse]

theorem lastOf_moveToBack_of_mem (hx : x ∈ lastOf n l) (hone : l.count x ≤ 1)
    (hle : n ≤ l.length) : lastOf n (moveToBack l x) = moveToBack (lastOf n l) x := by
  rcases lastOf_split n l with ⟨front, hsplit, hlen⟩
  have hfront : x ∉ front := by
    intro hbad
    have htwo : l.count x = front.count x + (lastOf n l).count x := by
      rw [← List.count_append, ← hsplit]
    have h1 := List.count_pos_iff.mpr hbad
    have h2 := List.count_pos_iff.mpr hx
    lia
  have hperm := (moveToBack_perm hx).length_eq
  rw [hlen hle] at hperm
  have hmoved : moveToBack l x = front ++ moveToBack (lastOf n l) x := by
    rw [← moveToBack_append hfront, ← hsplit]
  rw [hmoved, lastOf_append (Nat.le_of_eq hperm.symm)]
  unfold lastOf at hperm ⊢
  rw [hperm, Nat.sub_self, List.drop_zero]

theorem lastOf_moveToBack_of_not_mem (hx : x ∉ lastOf n l) (hn : 0 < n) (hle : n ≤ l.length) :
    lastOf n (moveToBack l x) = (lastOf n l).tail ++ [x] := by
  rcases lastOf_split n l with ⟨front, hsplit, hlen⟩
  have hmoved : moveToBack l x = front.erase x ++ (lastOf n l ++ [x]) := by
    unfold moveToBack
    rw [← List.append_assoc]
    congr 1
    by_cases hfront : x ∈ front
    · rw [← List.erase_append_left _ hfront, ← hsplit]
    · rw [List.erase_of_not_mem hfront, ← hsplit]
      apply List.erase_of_not_mem
      intro hbad
      rw [hsplit] at hbad
      cases List.mem_append.mp hbad with
      | inl h => exact hfront h
      | inr h => exact hx h
  have hsize : (lastOf n l ++ [x]).length = n + 1 := by
    rw [List.length_append, hlen hle, List.length_singleton]
  rw [hmoved, lastOf_append (by lia)]
  generalize hw : lastOf n l = w at hsize
  unfold lastOf
  rw [hsize, Nat.add_sub_cancel_left]
  cases w with
  | nil =>
      rw [List.nil_append, List.length_singleton] at hsize
      lia
  | cons c w => rfl

theorem dedup_concat (l : List alpha) (x : alpha) :
    (l ++ [x]).dedup = moveToBack l.dedup x := by
  induction l with
  | nil => rfl
  | cons c l ih =>
      rw [List.cons_append]
      by_cases hc : c ∈ l
      · rw [List.dedup_cons_of_mem (List.mem_append_left [x] hc), List.dedup_cons_of_mem hc, ih]
      · rw [List.dedup_cons_of_notMem hc]
        by_cases hcx : c = x
        · subst hcx
          rw [List.dedup_cons_of_mem (List.mem_append_right l List.mem_cons_self), ih,
            moveToBack_cons]
          unfold moveToBack
          rw [List.erase_of_not_mem fun hmem => hc (List.mem_dedup.mp hmem)]
        · have hout : c ∉ l ++ [x] := by
            intro hmem
            cases List.mem_append.mp hmem with
            | inl h => exact hc h
            | inr h => exact hcx (List.mem_singleton.mp h)
          rw [List.dedup_cons_of_notMem hout, ih]
          unfold moveToBack
          rw [List.erase_cons_tail (by simpa using hcx), List.cons_append]

end Last

end Foundation
end OsLabs
