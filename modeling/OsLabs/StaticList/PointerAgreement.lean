import OsLabs.StaticList.PointerModel

/-!
# Where the two lists agree

As long as the arrays have their first length, the list with growing arrays does the same
as the list in fixed arrays: the callers of the exchange set the head as the other exchange
does.  The places where the texts differ are a push, which sets the head once at its end,
and `popHeap`.
-/

namespace OsLabs
namespace StaticList
namespace Pointer

open Foundation
open Foundation.Links
open StaticLinkList

/-!
# The accesses
-/

theorem node_fixed (heap : StaticLinkList) (i : Int) : node MAXSIZE heap i = heap.node i := rfl

theorem modifyNode_fixed (heap : StaticLinkList) (i : Int) (f : Student -> Student) :
    modifyNode MAXSIZE heap i f = heap.modifyNode i f := rfl

/-!
# The exchange
-/

theorem swapHeapNode_eq_exchange (heap : StaticLinkList) (parent child : Int) :
    swapHeapNode MAXSIZE heap parent child = exchangeRecords heap parent child := rfl

theorem fixHead_eq (heap : StaticLinkList) (parent child : Int) :
    fixHead MAXSIZE heap parent child = adjustHead heap parent child := rfl

/-- The exchange together with the lines after it in its callers. -/
theorem swap_fixHead_eq (heap : StaticLinkList) (parent child : Int) :
    (swapHeapNode MAXSIZE heap parent child).bind
        (fun heap => fixHead MAXSIZE heap parent child) =
      StaticList.swapHeapNode heap parent child :=
  (swapHeapNode_eq_bind heap parent child).symm

/-!
# `initialHeap`
-/

theorem smallerChild_eq (heap : StaticLinkList) (n child : Int) :
    smallerChild MAXSIZE heap n child = StaticList.smallerChild heap n child := rfl

theorem initialHeapInner_eq (n tempId : Int) (fuel : Nat) :
    forall (heap : StaticLinkList) (parent child : Int),
      initialHeapInner MAXSIZE n tempId fuel heap parent child =
        StaticList.initialHeapInner n tempId fuel heap parent child := by
  induction fuel with
  | zero =>
      intro heap parent child
      rfl
  | succ fuel ih =>
      intro heap parent child
      unfold initialHeapInner StaticList.initialHeapInner
      simp only [smallerChild_eq, node_fixed, ← swap_fixHead_eq, ih, Option.bind_eq_bind,
        Option.bind_assoc]

theorem initialHeapOuter_eq (n : Int) (k : Nat) :
    forall heap : StaticLinkList,
      initialHeapOuter MAXSIZE n k heap = StaticList.initialHeapOuter n k heap := by
  induction k with
  | zero =>
      intro heap
      rfl
  | succ k ih =>
      intro heap
      unfold initialHeapOuter StaticList.initialHeapOuter
      simp only [node_fixed, initialHeapInner_eq, ih]

theorem initialHeap_eq (heap : StaticLinkList) :
    initialHeap MAXSIZE heap = StaticList.initialHeap heap :=
  initialHeapOuter_eq heap.size _ heap

/-!
# Searching and changing records
-/

theorem findHeapBy_eq (heap : StaticLinkList) (wanted : Student -> Bool) (fuel : Nat) :
    forall cur : Int,
      findHeapBy MAXSIZE heap wanted fuel cur = StaticList.findHeapBy heap wanted fuel cur := by
  induction fuel with
  | zero =>
      intro cur
      rfl
  | succ fuel ih =>
      intro cur
      unfold findHeapBy StaticList.findHeapBy
      simp only [node_fixed, ih]

theorem changeAt_eq (heap : StaticLinkList) (index : Int) (change : Student -> Student)
    (rebuild : Bool) :
    changeAt MAXSIZE heap index change rebuild =
      StaticList.changeAt heap index change rebuild := by
  unfold changeAt StaticList.changeAt
  simp only [modifyNode_fixed, initialHeap_eq]

theorem modifyFound_eq (heap : StaticLinkList) (stu : Student) (change : Student -> Student)
    (rebuild : Bool) :
    modifyFound MAXSIZE heap stu change rebuild =
      StaticList.modifyFound heap stu change rebuild := by
  unfold modifyFound StaticList.modifyFound findHeap StaticList.findHeap
  simp only [findHeapBy_eq, changeAt_eq]

theorem modifyByIndex_eq (heap : StaticLinkList) (index : Int) (change : Student -> Student)
    (rebuild : Bool) :
    modifyByIndex MAXSIZE heap index change rebuild =
      StaticList.modifyByIndex heap index change rebuild := by
  unfold modifyByIndex StaticList.modifyByIndex
  rw [changeAt_eq]

/-!
# The head is not read by the exchange
-/

def withHead (heap : StaticLinkList) (head : Int) : StaticLinkList :=
  { heap with headIndex := head }

theorem withHead_self (heap : StaticLinkList) : withHead heap heap.headIndex = heap := rfl

theorem node_withHead (heap : StaticLinkList) (head i : Int) :
    node MAXSIZE (withHead heap head) i = heap.node i := rfl

theorem threaded_withHead {heap : StaticLinkList} {m : Int} {chain : List Int}
    (h : Threaded heap m chain) (head : Int) : Threaded (withHead heap head) m chain :=
  h.congr (fun _ _ => rfl) (fun _ _ => rfl)

theorem nextIf_withHead (cond : Prop) [Decidable cond] (heap : StaticLinkList)
    (head i value : Int) :
    nextIf cond (withHead heap head) i value = withHead (nextIf cond heap i value) head := by
  unfold nextIf
  split
  · rfl
  · rfl

theorem preIf_withHead (cond : Prop) [Decidable cond] (heap : StaticLinkList)
    (head i value : Int) :
    preIf cond (withHead heap head) i value = withHead (preIf cond heap i value) head := by
  unfold preIf
  split
  · rfl
  · rfl

theorem swappedNodes_withHead (heap : StaticLinkList) (head parent child : Int) :
    swappedNodes (withHead heap head) parent child =
      withHead (swappedNodes heap parent child) head := by
  have hput : forall (heap : StaticLinkList) (i : Int) (stu : Student),
      (withHead heap head).put i stu = withHead (heap.put i stu) head := fun _ _ _ => rfl
  have hlist : forall i, (withHead heap head).list i = heap.list i := fun _ => rfl
  simp only [swappedNodes, hput, hlist, nextIf_withHead, preIf_withHead]

/-- Where the fixed list exchanges two records, this one does the same apart from the
head. -/
theorem swapHeapNode_withHead {heap t : StaticLinkList} {m : Int} {chain : List Int}
    (h : Threaded heap m chain) {parent child : Int} (hp : parent ∈ chain)
    (hc : child ∈ chain) (hrun : StaticList.swapHeapNode heap parent child = some t)
    (head : Int) :
    swapHeapNode MAXSIZE (withHead heap head) parent child = some (withHead t head) := by
  rw [swapHeapNode_eq h.wellLinked hp hc] at hrun
  cases hrun
  rw [swapHeapNode_eq_exchange, exchangeRecords_eq (threaded_withHead h head).wellLinked hp hc,
    swappedNodes_withHead]
  rfl

/-!
# Pushing
-/

theorem pushHeapLoop_withHead {n : Int} (id head : Int) (fuel : Nat) :
    forall (heap : StaticLinkList) (chain : List Int) (child : Int),
      Threaded heap n chain -> 0 ≤ child -> child < n ->
      pushHeapLoop MAXSIZE id fuel (withHead heap head) child =
        (StaticList.pushHeapLoop id fuel heap child).map fun result =>
          (withHead result.1 head, result.2) := by
  induction fuel with
  | zero =>
      intro heap chain child _ _ _
      rfl
  | succ fuel ih =>
      intro heap chain child h hchild hlt
      have hrange : 0 ≤ (child - 1).tdiv 2 ∧ (child - 1).tdiv 2 < n := by
        by_cases hzero : child = 0
        · subst hzero
          exact ⟨le_refl 0, hlt⟩
        · have hhalf : (child - 1).tdiv 2 = (child - 1) / 2 :=
            Int.tdiv_eq_ediv_of_nonneg (by lia)
          lia
      unfold pushHeapLoop StaticList.pushHeapLoop
      simp only [node_withHead, h.node_eq hrange, Option.bind_eq_bind, Option.bind_some]
      by_cases hgt : id < (heap.list ((child - 1).tdiv 2)).id ∧ child > 0
      · have hhalf : (child - 1).tdiv 2 = (child - 1) / 2 :=
          Int.tdiv_eq_ediv_of_nonneg (by lia)
        rw [if_pos hgt, if_pos hgt]
        rcases swapHeapNode_spec h (le_refl n) hrange ⟨hchild, hlt⟩ (by lia) with
          ⟨t, hswap, hren⟩
        have hswap' := swapHeapNode_withHead h ((h.mem_iff _).mpr hrange)
          ((h.mem_iff _).mpr ⟨hchild, hlt⟩) hswap head
        rw [hswap, hswap', Option.bind_some, Option.bind_some]
        exact ih t _ _ hren.threaded hrange.left hrange.right
      · rw [if_neg hgt, if_neg hgt]
        rfl

/-- The link from the old head is written without a check, and there is a head. -/
theorem pushStudent_eq_loop {lists : StaticLinkList} {chain : List Int} (h : ListInv lists chain)
    (hpos : 0 < lists.size) (hfull : lists.size < MAXSIZE) (id : Int) (name : Name) :
    pushStudent MAXSIZE lists id name =
      (pushHeapLoop MAXSIZE id (MAXSIZE.toNat + 1) (addedFront lists lists.size id name)
        lists.size).bind fun (heap, child) => some { heap with headIndex := child } := by
  have hin := h.size_inBounds hfull
  have hne := h.head_ne_size
  have hhead := h.head_ne_header hpos
  have htop : topStack MAXSIZE lists.unusedIndexs = some lists.size := h.topStack_eq hfull
  unfold pushStudent setPreNode setNextNode
  simp only [htop, modifyNode_fixed, modifyNode_eq hin, modifyNode_eq (h.head_inBounds hhead),
    Option.bind_eq_bind, Option.bind_some, put_put, put_self, put_headIndex]
  congr 2
  unfold addedFront preIf
  simp [hhead, put, hne, hne.symm]
  rw [Function.update_comm hne, Function.update_idem]

theorem pushStudent_eq {lists : StaticLinkList} {chain : List Int} (h : ListInv lists chain)
    (hpos : 0 < lists.size) (hfull : lists.size < MAXSIZE) (id : Int) (name : Name) :
    pushStudent MAXSIZE lists id name = StaticList.pushStudent lists id name := by
  have hnonneg := h.size_nonneg
  have hloop := pushHeapLoop_withHead id (addedFront lists lists.size id name).headIndex
    (MAXSIZE.toNat + 1) (addedFront lists lists.size id name) _ lists.size
    (h.threaded_addedFront hfull id name) hnonneg (by lia)
  rw [withHead_self] at hloop
  rw [pushStudent_eq_loop h hpos hfull, h.pushStudent_eq hfull, hloop, Option.bind_map]
  rfl

end Pointer
end StaticList
end OsLabs
