import Mathlib.Logic.Equiv.Basic
import Mathlib.Order.Lattice

/-!
# Binary heaps in an array

The order of a binary min-heap whose nodes are the indices below some bound,
with the children of `p` at `2 p + 1` and `2 p + 2`, and what the two repair
walks keep while one entry is out of place.  The contents are a map from indices
to a linear order; an exchange of two entries is that map after a transposition.
-/

namespace OsLabs
namespace Foundation

def IsChild (p c : Int) : Prop := c = 2 * p + 1 ∨ c = 2 * p + 2

theorem isChild_half (c : Int) : IsChild ((c - 1) / 2) c := by
  unfold IsChild
  lia

theorem IsChild.lt {p c : Int} (h : IsChild p c) (hp : 0 ≤ p) : p < c := by
  unfold IsChild at h
  lia

/-!
# Subtrees
-/

inductive InSubtree (root : Int) : Int -> Prop where
  | refl : InSubtree root root
  | child {p c : Int} : InSubtree root p -> IsChild p c -> InSubtree root c

theorem InSubtree.le {root i : Int} (h : InSubtree root i) (hroot : 0 ≤ root) : root ≤ i := by
  induction h with
  | refl => exact Int.le_refl root
  | child _ hchild ih =>
      have hlt := hchild.lt (by lia)
      lia

theorem InSubtree.cases_root {root i : Int} (h : InSubtree root i) :
    i = root ∨ InSubtree (2 * root + 1) i ∨ InSubtree (2 * root + 2) i := by
  induction h with
  | refl => exact Or.inl rfl
  | child _ hchild ih =>
      cases ih with
      | inl heq =>
          subst heq
          cases hchild with
          | inl hleft =>
              rw [hleft]
              exact Or.inr (Or.inl InSubtree.refl)
          | inr hright =>
              rw [hright]
              exact Or.inr (Or.inr InSubtree.refl)
      | inr hbelow =>
          cases hbelow with
          | inl hleft => exact Or.inr (Or.inl (hleft.child hchild))
          | inr hright => exact Or.inr (Or.inr (hright.child hchild))

theorem inSubtree_zero {i : Int} (hi : 0 ≤ i) : InSubtree 0 i := by
  have hall : forall m : Nat, forall i : Int, 0 ≤ i -> i ≤ m -> InSubtree 0 i := by
    intro m
    induction m with
    | zero =>
        intro i hi him
        have hzero : i = 0 := by lia
        rw [hzero]
        exact InSubtree.refl
    | succ m ih =>
        intro i hi him
        by_cases hzero : i = 0
        · rw [hzero]
          exact InSubtree.refl
        · exact (ih ((i - 1) / 2) (by lia) (by lia)).child (isChild_half i)
  exact hall i.toNat i hi (by lia)

/-!
# Exchanges and the order
-/

variable {alpha : Type}

def exchanged (a : Int -> alpha) (p c : Int) : Int -> alpha := fun i => a (Equiv.swap p c i)

theorem exchanged_left (a : Int -> alpha) (p c : Int) : exchanged a p c p = a c := by
  unfold exchanged
  rw [Equiv.swap_apply_left]

theorem exchanged_right (a : Int -> alpha) (p c : Int) : exchanged a p c c = a p := by
  unfold exchanged
  rw [Equiv.swap_apply_right]

theorem exchanged_of_ne (a : Int -> alpha) {p c i : Int} (hp : i ≠ p) (hc : i ≠ c) :
    exchanged a p c i = a i := by
  unfold exchanged
  rw [Equiv.swap_apply_of_ne_of_ne hp hc]

variable [LinearOrder alpha]

def HeapFrom (a : Int -> alpha) (n lo : Int) : Prop :=
  forall p c, lo ≤ p -> IsChild p c -> c < n -> a p ≤ a c

/-!
# Sifting down
-/

/-- The order holds from `lo` on, except perhaps between `k` and its children,
which are in order with the parent of `k`. -/
structure DownOrder (a : Int -> alpha) (n lo k : Int) : Prop where
  off : forall p c, lo ≤ p -> p ≠ k -> IsChild p c -> c < n -> a p ≤ a c
  across : forall p c, lo ≤ p -> IsChild p k -> IsChild k c -> c < n -> a p ≤ a c

theorem HeapFrom.downOrder {a : Int -> alpha} {n k : Int} (hk : 0 ≤ k)
    (h : HeapFrom a n (k + 1)) : DownOrder a n k k := by
  constructor
  · intro p c hp hne hchild hc
    exact h p c (by lia) hchild hc
  · intro p c hp hpk _ _
    unfold IsChild at hpk
    lia

structure LeastChild (a : Int -> alpha) (n k c : Int) : Prop where
  child : IsChild k c
  lt : c < n
  least : forall c', IsChild k c' -> c' < n -> a c ≤ a c'

theorem DownOrder.finish {a : Int -> alpha} {n lo k : Int} (h : DownOrder a n lo k)
    (hk : forall c, IsChild k c -> c < n -> a k ≤ a c) : HeapFrom a n lo := by
  intro p c hp hchild hc
  by_cases hpk : p = k
  · subst hpk
    exact hk c hchild hc
  · exact h.off p c hp hpk hchild hc

theorem DownOrder.stop {a : Int -> alpha} {n lo k c : Int} (h : DownOrder a n lo k)
    (hleast : LeastChild a n k c) (hle : a k ≤ a c) : HeapFrom a n lo := by
  apply h.finish
  intro c' hc' hlt
  exact le_trans hle (hleast.least c' hc' hlt)

/-- Exchanging the entry at `k` with its least child moves the gap there. -/
theorem DownOrder.move {a : Int -> alpha} {n lo k c : Int} (h : DownOrder a n lo k)
    (hlo : lo ≤ k) (hk : 0 ≤ k) (hleast : LeastChild a n k c) (hlt : a c < a k) :
    DownOrder (exchanged a k c) n lo c := by
  have hchild := hleast.child
  have hck : k < c := by
    unfold IsChild at hchild
    lia
  constructor
  · intro p c' hp hpc hpc' hc'
    by_cases hpk : p = k
    · subst hpk
      rw [exchanged_left]
      by_cases hcc : c' = c
      · subst hcc
        rw [exchanged_right]
        exact le_of_lt hlt
      · have hne : c' ≠ p := by
          unfold IsChild at hpc'
          lia
        rw [exchanged_of_ne a hne hcc]
        exact hleast.least c' hpc' hc'
    · rw [exchanged_of_ne a hpk hpc]
      by_cases hck' : c' = k
      · subst hck'
        rw [exchanged_left]
        exact h.across p c hp hpc' hchild hleast.lt
      · have hcc : c' ≠ c := by
          unfold IsChild at hchild hpc'
          lia
        rw [exchanged_of_ne a hck' hcc]
        exact h.off p c' hp hpk hpc' hc'
  · intro p c' hp hpc hcc' hc'
    have hpk : p = k := by
      unfold IsChild at hchild hpc
      lia
    have hne : c' ≠ k ∧ c' ≠ c := by
      unfold IsChild at hcc'
      lia
    subst hpk
    rw [exchanged_left, exchanged_of_ne a hne.left hne.right]
    exact h.off c c' (by lia) (by lia) hcc' hc'

/-!
# Sifting up
-/

/-- The order holds, except perhaps between `k` and its parent, which is in order
with the children of `k`. -/
structure UpOrder (a : Int -> alpha) (n k : Int) : Prop where
  off : forall p c, 0 ≤ p -> c ≠ k -> IsChild p c -> c < n -> a p ≤ a c
  across : forall p c, 0 ≤ p -> IsChild p k -> IsChild k c -> c < n -> a p ≤ a c

/-- A new last entry is the only one that can be out of place. -/
theorem HeapFrom.upOrder {a b : Int -> alpha} {n : Int} (hn : 0 ≤ n) (h : HeapFrom a n 0)
    (hsame : forall i, 0 ≤ i -> i < n -> b i = a i) : UpOrder b (n + 1) n := by
  constructor
  · intro p c hp hne hchild hc
    have hpc : p < c := by
      unfold IsChild at hchild
      lia
    rw [hsame p hp (by lia), hsame c (by lia) (by lia)]
    exact h p c hp hchild (by lia)
  · intro p c hp hpn hnc hc
    unfold IsChild at hnc
    lia

theorem UpOrder.finish {a : Int -> alpha} {n k : Int} (h : UpOrder a n k)
    (hk : forall p, 0 ≤ p -> IsChild p k -> a p ≤ a k) : HeapFrom a n 0 := by
  intro p c hp hchild hc
  by_cases hck : c = k
  · subst hck
    exact hk p hp hchild
  · exact h.off p c hp hck hchild hc

theorem UpOrder.move {a : Int -> alpha} {n p k : Int} (h : UpOrder a n k) (hp : 0 ≤ p)
    (hpk : IsChild p k) (hkn : k < n) (hlt : a k < a p) :
    UpOrder (exchanged a p k) n p := by
  have hlt' : p < k := by
    unfold IsChild at hpk
    lia
  constructor
  · intro q c hq hcp hqc hc
    by_cases hck : c = k
    · subst hck
      have hqp : q = p := by
        unfold IsChild at hpk hqc
        lia
      subst hqp
      rw [exchanged_left, exchanged_right]
      exact le_of_lt hlt
    · rw [exchanged_of_ne a hcp hck]
      by_cases hqk : q = k
      · subst hqk
        rw [exchanged_right]
        exact h.across p c hp hpk hqc hc
      · by_cases hqp : q = p
        · subst hqp
          rw [exchanged_left]
          exact le_trans (le_of_lt hlt) (h.off q c hq hck hqc hc)
        · rw [exchanged_of_ne a hqp hqk]
          exact h.off q c hq hck hqc hc
  · intro q c hq hqp hpc hc
    have hqne : q ≠ p ∧ q ≠ k := by
      unfold IsChild at hqp
      lia
    rw [exchanged_of_ne a hqne.left hqne.right]
    have hqa : a q ≤ a p := h.off q p hq (by lia) hqp (by lia)
    by_cases hck : c = k
    · subst hck
      rw [exchanged_right]
      exact hqa
    · have hcp : c ≠ p := by
        unfold IsChild at hpc
        lia
      rw [exchanged_of_ne a hcp hck]
      exact le_trans hqa (h.off p c hp hck hpc hc)

theorem HeapFrom.root_le {a : Int -> alpha} {n : Int} (h : HeapFrom a n 0) {i : Int}
    (hi : 0 ≤ i) (hin : i < n) : a 0 ≤ a i := by
  have hsub := inSubtree_zero hi
  induction hsub with
  | refl => exact le_refl _
  | child hp hchild ih =>
      have hnonneg := hp.le (Int.le_refl 0)
      have hlt := hchild.lt hnonneg
      exact le_trans (ih hnonneg (by lia)) (h _ _ hnonneg hchild hin)

end Foundation
end OsLabs
