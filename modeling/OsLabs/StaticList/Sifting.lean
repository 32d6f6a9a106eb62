import Mathlib.Algebra.Order.Ring.Int
import OsLabs.Foundation.ArrayHeap
import OsLabs.StaticList.Swap

/-!
# The repair loops of the heap

Each of the three loops only exchanges records, so it renames the indices of the
list.  Started with one entry out of place, it ends with the heap order.
-/

namespace OsLabs
namespace StaticList

open Foundation
open Foundation.Links
open StaticLinkList

def ids (heap : StaticLinkList) : Int -> Int := fun i => (heap.list i).id

section Loops

variable {m n : Int} {chain : List Int}

theorem Renamed.ids_eq {heap heap' : StaticLinkList} {f : Equiv.Perm Int}
    (h : Renamed m n chain f heap heap') (x : Int) : ids heap' (f x) = ids heap x :=
  congrArg (fun data => data.2.1) (h.data x)

theorem Renamed.ids_exchanged {heap heap' : StaticLinkList} {p c : Int}
    (h : Renamed m n chain (Equiv.swap p c) heap heap') :
    ids heap' = exchanged (ids heap) p c := by
  funext x
  have hx := h.ids_eq (Equiv.swap p c x)
  rw [Equiv.swap_apply_self] at hx
  exact hx

theorem Threaded.node_eq {heap : StaticLinkList} (h : Threaded heap m chain) {i : Int}
    (hi : 0 ≤ i ∧ i < m) : heap.node i = some (heap.list i) :=
  StaticList.node_eq (h.inBounds ((h.mem_iff i).mpr hi))

/-!
# Downwards
-/

theorem smallerChild_spec {heap : StaticLinkList} (h : Threaded heap m chain) (hnm : n ≤ m)
    {p : Int} (hp : 0 ≤ p) (hchild : 2 * p + 1 < n) :
    exists c, smallerChild heap n (2 * p + 1) = some c ∧ LeastChild (ids heap) n p c := by
  have htwo : 2 * p + 1 + 1 = 2 * p + 2 := by lia
  unfold smallerChild
  by_cases hright : 2 * p + 1 + 1 < n
  · rw [if_pos hright, h.node_eq (by lia), h.node_eq (by lia)]
    refine ⟨_, rfl, ?_⟩
    by_cases hgt : (heap.list (2 * p + 1)).id > (heap.list (2 * p + 1 + 1)).id
    · rw [if_pos hgt]
      constructor
      · exact Or.inr htwo
      · exact hright
      · intro c hc _
        cases hc with
        | inl heq =>
            rw [heq]
            exact le_of_lt hgt
        | inr heq => rw [heq, htwo]
    · rw [if_neg hgt]
      constructor
      · exact Or.inl rfl
      · exact hchild
      · intro c hc _
        cases hc with
        | inl heq => rw [heq]
        | inr heq =>
            rw [heq, ← htwo]
            exact not_lt.mp hgt
  · rw [if_neg hright]
    refine ⟨_, rfl, Or.inl rfl, hchild, ?_⟩
    intro c hc hlt
    cases hc with
    | inl heq => rw [heq]
    | inr heq => lia

theorem initialHeapInner_spec (hnm : n ≤ m) (tempId lo : Int) (fuel : Nat) :
    forall (heap : StaticLinkList) (chain : List Int) (p : Int),
      Threaded heap m chain -> 0 ≤ p -> p < n -> n - p ≤ fuel ->
      exists heap' f, initialHeapInner n tempId fuel heap p (2 * p + 1) = some heap' ∧
        Renamed m n chain f heap heap' ∧
        (lo ≤ p -> ids heap p = tempId -> DownOrder (ids heap) n lo p ->
          HeapFrom (ids heap') n lo) := by
  induction fuel with
  | zero =>
      intro heap chain p _ _ hlt hfuel
      lia
  | succ fuel ih =>
      intro heap chain p h hp hlt hfuel
      unfold initialHeapInner
      by_cases hchild : 2 * p + 1 < n
      · rw [if_pos hchild]
        rcases smallerChild_spec h hnm hp hchild with ⟨c, hc, hleast⟩
        have hpc : p < c := by
          have hcase := hleast.child
          unfold IsChild at hcase
          lia
        have hcn := hleast.lt
        rw [hc, Option.bind_eq_bind, Option.bind_some, h.node_eq (by lia),
          Option.bind_eq_bind, Option.bind_some]
        by_cases hgt : tempId > (heap.list c).id
        · rw [if_pos hgt]
          rcases swapHeapNode_spec h hnm ⟨hp, hlt⟩ ⟨by lia, hcn⟩ (by lia) with
            ⟨heap₁, hswap, hren⟩
          rcases ih heap₁ _ c hren.threaded (by lia) hcn (by lia) with
            ⟨heap₂, f, hrun, hren', horder⟩
          refine ⟨heap₂, _, ?_, hren.trans hren', ?_⟩
          · rw [hswap, Option.bind_eq_bind, Option.bind_some]
            exact hrun
          · intro hlo htemp hdown
            apply horder
            · lia
            · rw [hren.ids_exchanged, exchanged_right]
              exact htemp
            · rw [hren.ids_exchanged]
              apply hdown.move hlo hp hleast
              rw [htemp]
              exact hgt
        · rw [if_neg hgt]
          refine ⟨heap, _, rfl, Renamed.refl h, ?_⟩
          intro hlo htemp hdown
          apply hdown.stop hleast
          rw [htemp]
          exact not_lt.mp hgt
      · rw [if_neg hchild]
        refine ⟨heap, _, rfl, Renamed.refl h, ?_⟩
        intro hlo htemp hdown
        apply hdown.finish
        intro c hc hcn
        unfold IsChild at hc
        lia

/-- `popHeap` repairs the heap in the same way. -/
theorem popHeapLoop_eq (tempId : Int) (fuel : Nat) :
    forall (heap : StaticLinkList) (chain : List Int) (p : Int),
      Threaded heap m chain -> heap.size ≤ m -> 0 ≤ p ->
      popHeapLoop tempId fuel heap p =
        initialHeapInner heap.size tempId fuel heap p (2 * p + 1) := by
  induction fuel with
  | zero =>
      intro heap chain p _ _ _
      rfl
  | succ fuel ih =>
      intro heap chain p h hnm hp
      unfold popHeapLoop initialHeapInner
      rw [mul_comm p 2]
      by_cases hchild : 2 * p + 1 < heap.size
      · rw [if_pos hchild, if_pos hchild]
        have hsmaller : (if 2 * p + 1 ≠ heap.size - 1 then do
              let left <- heap.node (2 * p + 1)
              let right <- heap.node (2 * p + 1 + 1)
              some (if left.id > right.id then 2 * p + 1 + 1 else 2 * p + 1)
            else some (2 * p + 1)) = smallerChild heap heap.size (2 * p + 1) := by
          unfold smallerChild
          have hiff : 2 * p + 1 ≠ heap.size - 1 <-> 2 * p + 1 + 1 < heap.size := by lia
          simp only [hiff]
        rcases smallerChild_spec h hnm hp hchild with ⟨c, hc, hleast⟩
        have hpc : p < c := by
          have hcase := hleast.child
          unfold IsChild at hcase
          lia
        have hcn := hleast.lt
        dsimp only
        rw [hsmaller, hc]
        simp only [Option.bind_eq_bind, Option.bind_some,
          h.node_eq (show 0 ≤ c ∧ c < m by lia)]
        by_cases hgt : (heap.list c).id < tempId
        · rw [if_pos hgt, if_pos hgt]
          rcases swapHeapNode_spec h hnm ⟨hp, by lia⟩ ⟨by lia, hcn⟩ (by lia) with
            ⟨heap₁, hswap, hren⟩
          rw [hswap, Option.bind_some, Option.bind_some, ← hren.size]
          exact ih heap₁ _ c hren.threaded (by rw [hren.size]; exact hnm) (by lia)
        · rw [if_neg hgt, if_neg hgt]
      · rw [if_neg hchild, if_neg hchild]

theorem initialHeapOuter_spec (hnm : n ≤ m) (k : Nat) :
    forall (heap : StaticLinkList) (chain : List Int),
      Threaded heap m chain -> (k : Int) ≤ n ->
      exists heap' f, initialHeapOuter n k heap = some heap' ∧
        Renamed m n chain f heap heap' ∧
        (HeapFrom (ids heap) n k -> HeapFrom (ids heap') n 0) := by
  induction k with
  | zero =>
      intro heap chain h _
      exact ⟨heap, _, rfl, Renamed.refl h, fun horder => horder⟩
  | succ k ih =>
      intro heap chain h hk
      unfold initialHeapOuter
      rcases initialHeapInner_spec hnm (heap.list k).id k (n.toNat + 1) heap chain k h
        (by lia) (by lia) (by lia) with ⟨heap₁, f, hrun, hren, horder⟩
      rcases ih heap₁ _ hren.threaded (by lia) with ⟨heap₂, g, hrun', hren', horder'⟩
      refine ⟨heap₂, _, ?_, hren.trans hren', ?_⟩
      · rw [h.node_eq (by lia), Option.bind_eq_bind, Option.bind_some, hrun,
          Option.bind_eq_bind, Option.bind_some]
        exact hrun'
      · intro hfrom
        apply horder'
        exact horder (le_refl _) rfl (hfrom.downOrder (by lia))

theorem initialHeap_spec {heap : StaticLinkList} (h : Threaded heap heap.size chain)
    (hsize : 0 ≤ heap.size) :
    exists heap' f, initialHeap heap = some heap' ∧
      Renamed heap.size heap.size chain f heap heap' ∧ HeapFrom (ids heap') heap.size 0 := by
  have hhalf : heap.size.tdiv 2 = heap.size / 2 := Int.tdiv_eq_ediv_of_nonneg hsize
  rcases initialHeapOuter_spec (le_refl heap.size) (heap.size.tdiv 2).toNat heap chain h
    (by lia) with ⟨heap', f, hrun, hren, horder⟩
  refine ⟨heap', f, hrun, hren, ?_⟩
  apply horder
  intro p c hp hchild hc
  unfold IsChild at hchild
  lia

/-!
# Upwards
-/

/-- The place of the new student is followed through the loop. -/
theorem pushHeapLoop_spec (id : Int) (fuel : Nat) :
    forall (heap : StaticLinkList) (chain : List Int) (child : Int),
      Threaded heap n chain -> 0 ≤ child -> child < n -> child < fuel ->
      exists heap' f, pushHeapLoop id fuel heap child = some (heap', f child) ∧
        Renamed n n chain f heap heap' ∧
        (ids heap child = id -> UpOrder (ids heap) n child -> HeapFrom (ids heap') n 0) := by
  induction fuel with
  | zero =>
      intro heap chain child _ _ _ hfuel
      lia
  | succ fuel ih =>
      intro heap chain child h hchild hlt hfuel
      unfold pushHeapLoop
      dsimp only
      by_cases hroot : child = 0
      · subst hroot
        refine ⟨heap, _, ?_, Renamed.refl h, ?_⟩
        · have hparent : Int.tdiv (0 - 1) 2 = 0 := rfl
          rw [hparent, h.node_eq ⟨le_refl 0, hlt⟩]
          simp
        · intro _ hup
          apply hup.finish
          intro p hp hpc
          unfold IsChild at hpc
          lia
      · have hparent : (child - 1).tdiv 2 = (child - 1) / 2 :=
          Int.tdiv_eq_ediv_of_nonneg (by lia)
        have hisChild := isChild_half child
        rw [hparent, h.node_eq (by lia), Option.bind_eq_bind, Option.bind_some]
        by_cases hgt : id < (heap.list ((child - 1) / 2)).id ∧ child > 0
        · rw [if_pos hgt]
          have hrange : 0 ≤ (child - 1) / 2 ∧ (child - 1) / 2 < n := by lia
          rcases swapHeapNode_spec h (le_refl n) hrange ⟨hchild, hlt⟩ (by lia) with
            ⟨heap₁, hswap, hren⟩
          rcases ih heap₁ _ ((child - 1) / 2) hren.threaded (by lia) (by lia) (by lia) with
            ⟨heap₂, f, hrun, hren', horder⟩
          refine ⟨heap₂, _, ?_, hren.trans hren', ?_⟩
          · rw [hswap, Option.bind_eq_bind, Option.bind_some, hrun, Equiv.trans_apply,
              Equiv.swap_apply_right]
          · intro hid hup
            apply horder
            · rw [hren.ids_exchanged, exchanged_left]
              exact hid
            · rw [hren.ids_exchanged]
              apply hup.move (by lia) hisChild hlt
              rw [hid]
              exact hgt.left
        · rw [if_neg hgt]
          refine ⟨heap, _, rfl, Renamed.refl h, ?_⟩
          intro hid hup
          apply hup.finish
          intro p hp hpc
          have hsame : p = (child - 1) / 2 := by
            unfold IsChild at hpc
            lia
          rw [hsame, hid]
          exact not_lt.mp fun hbad => hgt ⟨hbad, by lia⟩

end Loops

end StaticList
end OsLabs
