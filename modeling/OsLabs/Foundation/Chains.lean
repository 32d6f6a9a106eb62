import Mathlib.Data.List.Sort
import Mathlib.Logic.Function.Basic

/-!
# Singly linked lists and stable insertion

A path follows one pointer field from node to node.  Linking a node in is
described by what it does to the list of nodes on the path, and inserting an
element behind all that it does not precede keeps a list in order.
-/

namespace OsLabs
namespace Foundation

variable {alpha : Type}

def Path (next : alpha -> alpha) : alpha -> List alpha -> alpha -> Prop
  | a, [], b => a = b
  | a, x :: xs, b => a = x ∧ Path next (next x) xs b

section Paths

variable {next next' : alpha -> alpha} {a b c : alpha} {xs ys : List alpha}

theorem path_append :
    Path next a (xs ++ ys) c <-> exists b, Path next a xs b ∧ Path next b ys c := by
  induction xs generalizing a with
  | nil =>
      constructor
      · intro h
        exact ⟨a, rfl, h⟩
      · rintro ⟨b, hb, h⟩
        cases hb
        exact h
  | cons x xs ih =>
      constructor
      · rintro ⟨hx, h⟩
        rcases ih.mp h with ⟨b, hxs, hys⟩
        exact ⟨b, ⟨hx, hxs⟩, hys⟩
      · rintro ⟨b, ⟨hx, hxs⟩, hys⟩
        exact ⟨hx, ih.mpr ⟨b, hxs, hys⟩⟩

theorem Path.congr (h : Path next a xs b) (hsame : forall x, x ∈ xs -> next' x = next x) :
    Path next' a xs b := by
  induction xs generalizing a with
  | nil => exact h
  | cons x xs ih =>
      refine ⟨h.left, ?_⟩
      rw [hsame x List.mem_cons_self]
      exact ih h.right fun y hy => hsame y (List.mem_cons_of_mem x hy)

theorem Path.unique (hxs : Path next a xs b) (hys : Path next a ys b) (hbx : b ∉ xs)
    (hby : b ∉ ys) : xs = ys := by
  induction xs generalizing a ys with
  | nil =>
      cases hxs
      cases ys with
      | nil => rfl
      | cons y ys =>
          exact absurd (hys.left ▸ List.mem_cons_self) hby
  | cons x xs ih =>
      cases ys with
      | nil =>
          cases hys
          exact absurd (hxs.left ▸ List.mem_cons_self) hbx
      | cons y ys =>
          have hxy : x = y := hxs.left.symm.trans hys.left
          subst hxy
          rw [ih hxs.right hys.right (fun h => hbx (List.mem_cons_of_mem x h))
            (fun h => hby (List.mem_cons_of_mem x h))]

theorem Path.insert_of {x y : alpha} (hxs : Path next a (xs ++ [x]) b) (hys : Path next b ys c)
    (hx : next' x = y) (hy : next' y = b) (hleft : forall z, z ∈ xs -> next' z = next z)
    (hright : forall z, z ∈ ys -> next' z = next z) :
    Path next' a ((xs ++ [x]) ++ y :: ys) c := by
  rcases path_append.mp hxs with ⟨d, hd, hdx⟩
  apply path_append.mpr
  refine ⟨y, path_append.mpr ⟨d, hd.congr hleft, hdx.left, hx⟩, rfl, ?_⟩
  rw [hy]
  exact hys.congr hright

end Paths

theorem orderedInsert_eq_append {r : alpha -> alpha -> Prop} [DecidableRel r] {x : alpha}
    {l : List alpha} (h : forall y, y ∈ l -> ¬ r x y) : l.orderedInsert r x = l ++ [x] := by
  induction l with
  | nil => rfl
  | cons y l ih =>
      rw [List.orderedInsert_of_not_le r l (h y List.mem_cons_self),
        ih fun z hz => h z (List.mem_cons_of_mem y hz), List.cons_append]

theorem pairwise_orderedInsert {r R : alpha -> alpha -> Prop} [DecidableRel r] {x : alpha}
    {l : List alpha} (hl : l.Pairwise R) (htrans : forall a b c, R a b -> R b c -> R a c)
    (hfirst : forall y, y ∈ l -> r x y -> R x y) (hlast : forall y, y ∈ l -> ¬ r x y -> R y x) :
    (l.orderedInsert r x).Pairwise R := by
  induction l with
  | nil => exact List.pairwise_singleton R x
  | cons y l ih =>
      rcases List.pairwise_cons.mp hl with ⟨hy, hrest⟩
      rw [List.orderedInsert_cons]
      by_cases hxy : r x y
      · rw [if_pos hxy]
        have hbefore := hfirst y List.mem_cons_self hxy
        apply List.pairwise_cons.mpr
        refine ⟨?_, hl⟩
        intro z hz
        cases List.mem_cons.mp hz with
        | inl heq => exact heq ▸ hbefore
        | inr hz => exact htrans x y z hbefore (hy z hz)
      · rw [if_neg hxy]
        apply List.pairwise_cons.mpr
        constructor
        · intro z hz
          cases (List.mem_orderedInsert r).mp hz with
          | inl heq => exact heq ▸ hlast y List.mem_cons_self hxy
          | inr hz => exact hy z hz
        · apply ih hrest
          · intro z hz
            exact hfirst z (List.mem_cons_of_mem y hz)
          · intro z hz
            exact hlast z (List.mem_cons_of_mem y hz)

end Foundation
end OsLabs
