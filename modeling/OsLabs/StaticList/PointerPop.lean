import OsLabs.StaticList.PointerAgreement

/-!
# Popping with a loop that ends too early

The loop of `popHeap` exchanges at most one pair of records, and the head is set after that
exchange only, not after the one of the root with the last record.  A pop does the same as
in the fixed list exactly when one exchange is enough to repair the heap and the head does
not stay behind at the last record.
-/

namespace OsLabs
namespace StaticList
namespace Pointer

open Foundation
open Foundation.Links
open StaticLinkList

/-- The child of `p` among the indices below `n` that a repair loop looks at. -/
def chosenChild (heap : StaticLinkList) (n p : Int) : Int :=
  if 2 * p + 2 < n ∧ (heap.list (2 * p + 1)).id > (heap.list (2 * p + 2)).id then 2 * p + 2
  else 2 * p + 1

/-- The last record, at `n`, is larger than the child of the root it is compared with. -/
def Sinks (heap : StaticLinkList) (n : Int) : Prop :=
  1 < n ∧ (heap.list (chosenChild heap n 0)).id < (heap.list n).id

/-- One exchange takes the last record far enough down, and if there is none, then the head
of the list is not the last record. -/
structure PopSound (heap : StaticLinkList) : Prop where
  enough : Sinks heap (heap.size - 1) ->
    forall g, IsChild (chosenChild heap (heap.size - 1) 0) g -> g < heap.size - 1 ->
      (heap.list (heap.size - 1)).id ≤ (heap.list g).id
  head : ¬ Sinks heap (heap.size - 1) -> heap.headIndex ≠ heap.size - 1

/-!
# The child that is looked at
-/

section Loops

variable {heap t : StaticLinkList} {m n : Int} {chain : List Int}

theorem smallerChild_eq_chosen (h : Threaded heap m chain) (hnm : n ≤ m) {p : Int} (hp : 0 ≤ p) :
    StaticList.smallerChild heap n (2 * p + 1) = some (chosenChild heap n p) := by
  have htwo : 2 * p + 1 + 1 = 2 * p + 2 := by lia
  unfold StaticList.smallerChild chosenChild
  by_cases hright : 2 * p + 2 < n
  · rw [htwo, if_pos hright, h.node_eq (by lia), h.node_eq (by lia)]
    simp only [hright, true_and]
    rfl
  · rw [htwo, if_neg hright, if_neg fun hbad => hright hbad.left]

theorem leastChild_chosen (h : Threaded heap m chain) (hnm : n ≤ m) {p : Int} (hp : 0 ≤ p)
    (hchild : 2 * p + 1 < n) : LeastChild (ids heap) n p (chosenChild heap n p) := by
  rcases smallerChild_spec h hnm hp hchild with ⟨c, hc, hleast⟩
  rw [smallerChild_eq_chosen h hnm hp] at hc
  cases hc
  exact hleast

theorem chosenChild_range (heap : StaticLinkList) {n p : Int} (hchild : 2 * p + 1 < n) :
    IsChild p (chosenChild heap n p) ∧ chosenChild heap n p < n := by
  unfold chosenChild IsChild
  split
  · rename_i hright
    exact ⟨Or.inr rfl, hright.left⟩
  · exact ⟨Or.inl rfl, hchild⟩

theorem pick_eq_chosen (h : Threaded heap m chain) (hnm : heap.size ≤ m) {p : Int} (hp : 0 ≤ p)
    (hchild : p * 2 + 1 < heap.size) :
    (if p * 2 + 1 ≠ heap.size - 1 then do
        let left <- heap.node (p * 2 + 1)
        let right <- heap.node (p * 2 + 1 + 1)
        some (if left.id > right.id then p * 2 + 1 + 1 else p * 2 + 1)
      else
        some (p * 2 + 1)) = some (chosenChild heap heap.size p) := by
  have hiff : p * 2 + 1 ≠ heap.size - 1 <-> 2 * p + 1 + 1 < heap.size := by lia
  rw [← smallerChild_eq_chosen h hnm hp]
  unfold StaticList.smallerChild
  simp only [mul_comm p 2] at hiff ⊢
  simp only [hiff]

theorem fixedLoop_step (h : Threaded heap m chain) (hnm : heap.size ≤ m) (tempId : Int)
    (fuel : Nat) {p : Int} (hp : 0 ≤ p) :
    StaticList.popHeapLoop tempId (fuel + 1) heap p =
      if p * 2 + 1 < heap.size then
        if ids heap (chosenChild heap heap.size p) < tempId then
          (StaticList.swapHeapNode heap p (chosenChild heap heap.size p)).bind fun heap' =>
            StaticList.popHeapLoop tempId fuel heap' (chosenChild heap heap.size p)
        else
          some heap
      else
        some heap := by
  rw [StaticList.popHeapLoop]
  by_cases hchild : p * 2 + 1 < heap.size
  · have hrange := chosenChild_range heap (show 2 * p + 1 < heap.size by lia)
    have hlow := hrange.left.lt hp
    rw [if_pos hchild, if_pos hchild]
    dsimp only
    rw [pick_eq_chosen h hnm hp hchild, Option.bind_eq_bind, Option.bind_some,
      h.node_eq (by lia)]
    rfl
  · rw [if_neg hchild, if_neg hchild]

theorem popHeapLoop_step (h : Threaded heap m chain) (hnm : heap.size ≤ m) (tempId : Int)
    (fuel : Nat) {p : Int} (hp : 0 ≤ p) (head : Int) :
    popHeapLoop MAXSIZE tempId (fuel + 1) (withHead heap head) p =
      if p * 2 + 1 < heap.size then
        if ids heap (chosenChild heap heap.size p) < tempId then
          (swapHeapNode MAXSIZE (withHead heap head) p (chosenChild heap heap.size p)).bind
            fun heap' => fixHead MAXSIZE heap' p (chosenChild heap heap.size p)
        else
          popHeapLoop MAXSIZE tempId fuel (withHead heap head) (chosenChild heap heap.size p)
      else
        some (withHead heap head) := by
  rw [popHeapLoop]
  have hsize : (withHead heap head).size = heap.size := rfl
  by_cases hchild : p * 2 + 1 < heap.size
  · have hrange := chosenChild_range heap (show 2 * p + 1 < heap.size by lia)
    have hlow := hrange.left.lt hp
    rw [hsize, if_pos hchild, if_pos hchild]
    simp only [node_withHead]
    rw [pick_eq_chosen h hnm hp hchild, Option.bind_eq_bind, Option.bind_some,
      h.node_eq (by lia)]
    rfl
  · rw [hsize, if_neg hchild, if_neg hchild]

/-- Where no record is smaller than the last one, the loop only goes down. -/
theorem popHeapLoop_idle (h : Threaded heap m chain) (hnm : heap.size ≤ m) (tempId head : Int)
    (hle : forall i, 0 < i -> i < heap.size -> tempId ≤ ids heap i) (fuel : Nat) :
    forall p : Int, 0 ≤ p -> heap.size - p ≤ fuel -> 0 < fuel ->
      popHeapLoop MAXSIZE tempId fuel (withHead heap head) p = some (withHead heap head) := by
  induction fuel with
  | zero =>
      intro p _ _ hpos
      exact absurd hpos (lt_irrefl 0)
  | succ fuel ih =>
      intro p hp hfuel _
      rw [popHeapLoop_step h hnm tempId fuel hp]
      by_cases hchild : p * 2 + 1 < heap.size
      · have hrange := chosenChild_range heap (show 2 * p + 1 < heap.size by lia)
        have hlow := hrange.left.lt hp
        rw [if_pos hchild, if_neg (not_lt.mpr (hle _ (by lia) hrange.right))]
        exact ih _ (by lia) (by lia) (by lia)
      · rw [if_neg hchild]

end Loops

/-!
# Unlinking under a head that is behind
-/

theorem modifyNode_withHead (heap : StaticLinkList) (head i : Int) (f : Student -> Student) :
    modifyNode MAXSIZE (withHead heap head) i f =
      (heap.modifyNode i f).map fun heap => withHead heap head := by
  change (withHead heap head).modifyNode i f = _
  by_cases hin : InBounds i
  · rw [modifyNode_eq hin, modifyNode_eq hin]
    rfl
  · have hnone : forall heap : StaticLinkList, heap.modifyNode i f = none := fun _ => if_neg hin
    rw [hnone, hnone]
    rfl

theorem unlinkRemoved_withHead (heap : StaticLinkList) (head : Int) :
    unlinkRemoved MAXSIZE (withHead heap head) =
      (StaticList.unlinkRemoved heap).map fun t =>
        if (heap.list heap.size).preNode = -1 then t else withHead t head := by
  have hsize : (withHead heap head).size = heap.size := rfl
  unfold unlinkRemoved StaticList.unlinkRemoved setNextNode setPreNode
    StaticLinkList.setNextNode StaticLinkList.setPreNode
  rw [hsize, node_withHead]
  by_cases hin : InBounds heap.size
  · rw [node_eq hin]
    simp only [Option.bind_eq_bind, Option.bind_some]
    by_cases hpre : (heap.list heap.size).preNode = -1
    · by_cases hnext : (heap.list heap.size).nextNode = -1
      · simp [hpre, hnext, withHead]
      · simp [hpre, hnext, modifyNode_withHead, Option.bind_map]
        rfl
    · by_cases hnext : (heap.list heap.size).nextNode = -1
      · simp [hpre, hnext, modifyNode_withHead]
      · simp [hpre, hnext, modifyNode_withHead, Option.bind_map]
  · have hnone : heap.node heap.size = none := if_neg hin
    rw [hnone]
    rfl

/-- The head does not matter when the last record is first in the list. -/
theorem unlinkRemoved_agrees {heap : StaticLinkList} {m : Int} {chain : List Int}
    (h : Threaded heap m chain) (hlast : heap.size ∈ chain)
    (hhead : heap.headIndex = firstTo chain (-1)) {head : Int}
    (hcase : head = heap.headIndex ∨ heap.headIndex = heap.size) :
    unlinkRemoved MAXSIZE (withHead heap head) = StaticList.unlinkRemoved heap := by
  cases hcase with
  | inl heq =>
      rw [heq]
      rfl
  | inr hfirst =>
      have hpre : (heap.list heap.size).preNode = -1 := by
        rw [h.wellLinked.preNode_header_iff hlast, ← hhead]
        exact hfirst
      rw [unlinkRemoved_withHead]
      simp [hpre]

/-!
# After the first exchange
-/

section Pop

variable {lists : StaticLinkList} {chain : List Int}

/-- The list after the root has been exchanged with the last record, with the head that the
fixed list sets. -/
structure Exchanged (lists : StaticLinkList) (chain : List Int) (stk : Stack)
    (t : StaticLinkList) : Prop where
  push : StaticList.pushStack lists.unusedIndexs (lists.size - 1) = some stk
  swap : StaticList.swapHeapNode (shrunk lists stk) 0 (lists.size - 1) = some t
  renamed : Renamed lists.size lists.size chain (Equiv.swap 0 (lists.size - 1))
    (shrunk lists stk) t

theorem exists_exchanged (h : ListInv lists chain) (hsize : 2 ≤ lists.size) :
    exists stk t, Exchanged lists chain stk t := by
  have hbound := h.threaded.bound
  have hlast : lists.size = lists.size - 1 + 1 := by lia
  have hstack := h.stack
  rw [hlast] at hstack
  rcases hstack.pushStack (by lia) (by lia) with ⟨stk, hpush, _⟩
  rcases swapHeapNode_spec (h.threaded_shrunk stk) (le_refl _) ⟨le_refl 0, by lia⟩
    (show 0 ≤ lists.size - 1 ∧ lists.size - 1 < lists.size by lia) (by lia) with
    ⟨t, hswap, hren⟩
  exact ⟨stk, t, hpush, hswap, hren⟩

variable {stk : Stack} {t : StaticLinkList}

theorem Exchanged.size (he : Exchanged lists chain stk t) : t.size = lists.size - 1 :=
  he.renamed.size

theorem Exchanged.ids_eq (he : Exchanged lists chain stk t) :
    ids t = exchanged (ids lists) 0 (lists.size - 1) := by
  rw [he.renamed.ids_exchanged, shrunk_ids]

theorem Exchanged.ids_root (he : Exchanged lists chain stk t) :
    ids t 0 = ids lists (lists.size - 1) := by
  rw [he.ids_eq, exchanged_left]

theorem Exchanged.ids_inner (he : Exchanged lists chain stk t) {i : Int} (hi : 0 < i)
    (hlt : i < lists.size - 1) : ids t i = ids lists i := by
  rw [he.ids_eq, exchanged_of_ne _ (by lia) (by lia)]

theorem Exchanged.chosen_eq (he : Exchanged lists chain stk t) (hchild : 1 < lists.size - 1) :
    chosenChild t t.size 0 = chosenChild lists (lists.size - 1) 0 := by
  have hone : (t.list 1).id = (lists.list 1).id := he.ids_inner (by lia) hchild
  unfold chosenChild
  rw [he.size]
  by_cases hright : 2 * 0 + 2 < lists.size - 1
  · have htwo : (t.list 2).id = (lists.list 2).id := he.ids_inner (by lia) hright
    have hzero : (2 : Int) * 0 + 1 = 1 := rfl
    have hzero' : (2 : Int) * 0 + 2 = 2 := rfl
    rw [hzero, hzero', hone, htwo]
  · rw [if_neg fun hbad => hright hbad.left, if_neg fun hbad => hright hbad.left]

theorem Exchanged.headIndex_eq (h : ListInv lists chain) (he : Exchanged lists chain stk t) :
    t.headIndex = Equiv.swap 0 (lists.size - 1) lists.headIndex := by
  have hfixed : Equiv.swap 0 (lists.size - 1) (-1) = -1 :=
    he.renamed.fixes (-1) (Or.inl (by lia))
  rw [he.renamed.head h.head, firstTo_map hfixed, ← h.head]

theorem popHeap_eq_loop (h : ListInv lists chain) (hsize : 2 ≤ lists.size)
    (he : Exchanged lists chain stk t) :
    popHeap MAXSIZE lists =
      (popHeapLoop MAXSIZE (ids lists (lists.size - 1)) (t.size.toNat + 1)
        (withHead t lists.headIndex) 0).bind (unlinkRemoved MAXSIZE) := by
  have hbound := h.threaded.bound
  have hlast : InBounds (lists.size - 1) := ⟨by lia, by lia⟩
  have hhead := h.head_inBounds (h.head_ne_header (by lia))
  have hpush : pushStack MAXSIZE lists.unusedIndexs (lists.size - 1) = some stk := he.push
  have hswap := swapHeapNode_withHead (h.threaded_shrunk stk)
    ((h.threaded.mem_iff 0).mpr ⟨le_refl 0, by lia⟩)
    ((h.threaded.mem_iff (lists.size - 1)).mpr (by lia)) he.swap (shrunk lists stk).headIndex
  rw [withHead_self] at hswap
  unfold popHeap
  rw [if_neg (by lia)]
  simp only [node_fixed, node_eq hlast, hpush, modifyNode_fixed, modifyNode_eq hhead,
    Option.bind_eq_bind, Option.bind_some]
  change (if lists.size - 1 = 0 then _
    else (swapHeapNode MAXSIZE (shrunk lists stk) 0 (lists.size - 1)).bind _) = _
  rw [if_neg (by lia), hswap]
  rfl

theorem fixedPop_eq_loop (h : ListInv lists chain) (hsize : 2 ≤ lists.size)
    (he : Exchanged lists chain stk t) :
    StaticList.popHeap lists =
      (StaticList.popHeapLoop (ids lists (lists.size - 1)) (t.size.toNat + 1) t 0).bind
        StaticList.unlinkRemoved := by
  rw [h.popHeap_eq (by lia) he.push, if_neg (by lia), he.swap]
  rfl

/-!
# The pop without an exchange in the loop
-/

theorem Exchanged.all_le (hord : HeapOrdered lists) (hsize : 2 ≤ lists.size)
    (he : Exchanged lists chain stk t) (hnot : ¬ Sinks lists (lists.size - 1)) :
    forall i, 0 < i -> i < t.size -> ids lists (lists.size - 1) ≤ ids t i := by
  have htsize := he.size
  have hdown : DownOrder (ids t) t.size 0 0 := by
    rw [he.ids_eq, htsize]
    apply HeapFrom.downOrder_exchanged
    rw [Int.sub_add_cancel]
    exact hord
  intro i hi hlt
  have hleast := leastChild_chosen he.renamed.threaded (show t.size ≤ lists.size by lia)
    (le_refl 0) (show 2 * 0 + 1 < t.size by lia)
  have hpos := hleast.child.lt (le_refl 0)
  have hchild := hleast.lt
  rw [he.chosen_eq (by lia)] at hleast hpos hchild
  have hle : ids t 0 ≤ ids t (chosenChild lists (lists.size - 1) 0) := by
    rw [he.ids_root, he.ids_inner hpos (by lia)]
    by_contra hgt
    exact hnot ⟨by lia, not_le.mp hgt⟩
  have hordered := hdown.stop hleast hle
  rw [← he.ids_root]
  exact hordered.root_le (by lia) hlt

theorem popHeap_idle (h : ListInv lists chain) (hord : HeapOrdered lists)
    (hsize : 2 ≤ lists.size) (he : Exchanged lists chain stk t)
    (hnot : ¬ Sinks lists (lists.size - 1)) :
    popHeap MAXSIZE lists = unlinkRemoved MAXSIZE (withHead t lists.headIndex) ∧
      StaticList.popHeap lists = StaticList.unlinkRemoved t := by
  have htsize := he.size
  have hle := he.all_le hord hsize hnot
  have hthr := he.renamed.threaded
  constructor
  · rw [popHeap_eq_loop h hsize he, popHeapLoop_idle hthr (by lia) _ _ hle _ 0 (le_refl 0)
      (by lia) (by lia), Option.bind_some]
  · rw [fixedPop_eq_loop h hsize he, fixedLoop_step hthr (by lia) _ _ (le_refl 0)]
    by_cases hchild : 0 * 2 + 1 < t.size
    · have hrange := chosenChild_range t (show 2 * 0 + 1 < t.size by lia)
      have hpos := hrange.left.lt (le_refl 0)
      rw [if_pos hchild, if_neg (not_lt.mpr (hle _ hpos hrange.right)), Option.bind_some]
    · rw [if_neg hchild, Option.bind_some]

/-!
# The pop with one exchange in the loop
-/

/-- The list after the exchange of the root with its child, with the head that the fixed
list sets. -/
structure SunkOnce (lists : StaticLinkList) (chain : List Int) (c : Int)
    (t t' : StaticLinkList) : Prop where
  swap : StaticList.swapHeapNode t 0 c = some t'
  renamed : Renamed lists.size t.size (chain.map (Equiv.swap 0 (lists.size - 1)))
    (Equiv.swap 0 c) t t'
  pos : 0 < c
  lt : c < lists.size - 1

theorem exists_sunkOnce (he : Exchanged lists chain stk t) (hchild : 1 < lists.size - 1) :
    exists t', SunkOnce lists chain (chosenChild lists (lists.size - 1) 0) t t' := by
  have htsize := he.size
  have hrange := chosenChild_range lists (show 2 * 0 + 1 < lists.size - 1 by lia)
  have hpos := hrange.left.lt (le_refl 0)
  have hlt := hrange.right
  rcases swapHeapNode_spec he.renamed.threaded (show t.size ≤ lists.size by lia)
    ⟨le_refl 0, by lia⟩ (show 0 ≤ chosenChild lists (lists.size - 1) 0 ∧
      chosenChild lists (lists.size - 1) 0 < t.size by lia) (by lia) with ⟨t', hswap, hren⟩
  exact ⟨t', hswap, hren, hpos, hlt⟩

variable {t' : StaticLinkList} {c : Int}

theorem SunkOnce.size (hs : SunkOnce lists chain c t t') (he : Exchanged lists chain stk t) :
    t'.size = lists.size - 1 := by
  rw [hs.renamed.size, he.size]

theorem SunkOnce.ids_eq (hs : SunkOnce lists chain c t t') :
    ids t' = exchanged (ids t) 0 c := hs.renamed.ids_exchanged

/-- The last record is now at `c`, and what is below `c` is as it was. -/
theorem SunkOnce.ids_at (hs : SunkOnce lists chain c t t') (he : Exchanged lists chain stk t) :
    ids t' c = ids lists (lists.size - 1) := by
  rw [hs.ids_eq, exchanged_right, he.ids_root]

theorem SunkOnce.ids_below (hs : SunkOnce lists chain c t t') (he : Exchanged lists chain stk t)
    {g : Int} (hg : c < g) (hlt : g < lists.size - 1) : ids t' g = ids lists g := by
  have hpos := hs.pos
  rw [hs.ids_eq, exchanged_of_ne _ (by lia) (by lia), he.ids_inner (by lia) hlt]

theorem SunkOnce.headIndex_eq (h : ListInv lists chain) (he : Exchanged lists chain stk t)
    (hs : SunkOnce lists chain c t t') : t'.headIndex = Equiv.swap 0 c t.headIndex := by
  have hhead := he.renamed.head h.head
  have hfixed : Equiv.swap 0 c (-1) = -1 := hs.renamed.fixes (-1) (Or.inl (by lia))
  rw [hs.renamed.head hhead, firstTo_map hfixed, ← hhead]

/-- The head after the two lines behind the exchange in the loop. -/
def sunkHead (lists t' : StaticLinkList) (c : Int) : Int :=
  swappedHead (withHead t' lists.headIndex) 0 c (t'.list 0).preNode (t'.list c).preNode

theorem popHeap_sunk (h : ListInv lists chain) (hsize : 2 ≤ lists.size)
    (he : Exchanged lists chain stk t) (hsinks : Sinks lists (lists.size - 1))
    (hs : SunkOnce lists chain (chosenChild lists (lists.size - 1) 0) t t') :
    popHeap MAXSIZE lists =
      unlinkRemoved MAXSIZE
        (withHead t' (sunkHead lists t' (chosenChild lists (lists.size - 1) 0))) := by
  have htsize := he.size
  have hthr := he.renamed.threaded
  have hbound := h.threaded.bound
  have hpos := hs.pos
  have hlt := hs.lt
  have hlow : ids t (chosenChild lists (lists.size - 1) 0) < ids lists (lists.size - 1) := by
    rw [he.ids_inner hpos hlt]
    exact hsinks.right
  have hzeroMem : 0 ∈ chain.map (Equiv.swap 0 (lists.size - 1)) :=
    (hthr.mem_iff 0).mpr ⟨le_refl 0, by lia⟩
  have hchildMem : chosenChild lists (lists.size - 1) 0 ∈
      chain.map (Equiv.swap 0 (lists.size - 1)) := (hthr.mem_iff _).mpr (by lia)
  have hswap := swapHeapNode_withHead hthr hzeroMem hchildMem hs.swap lists.headIndex
  rw [popHeap_eq_loop h hsize he, popHeapLoop_step hthr (by lia) _ _ (le_refl 0),
    if_pos (by lia), he.chosen_eq hsinks.left, if_pos hlow, hswap, Option.bind_some,
    fixHead_eq, adjustHead_some _ (hthr.inBounds hzeroMem) (hthr.inBounds hchildMem)]
  rfl

/-- When one exchange is enough, the loop of the fixed list stops after it as well. -/
theorem fixedPop_sunk (h : ListInv lists chain) (hsize : 2 ≤ lists.size)
    (he : Exchanged lists chain stk t) (hsinks : Sinks lists (lists.size - 1))
    (hs : SunkOnce lists chain (chosenChild lists (lists.size - 1) 0) t t')
    (henough : forall g, IsChild (chosenChild lists (lists.size - 1) 0) g ->
      g < lists.size - 1 -> ids lists (lists.size - 1) ≤ ids lists g) :
    StaticList.popHeap lists = StaticList.unlinkRemoved t' := by
  have htsize := he.size
  have hsize' := hs.size he
  have hthr := he.renamed.threaded
  have hpos := hs.pos
  have hlt := hs.lt
  have hlow : ids t (chosenChild lists (lists.size - 1) 0) < ids lists (lists.size - 1) := by
    rw [he.ids_inner hpos hlt]
    exact hsinks.right
  have hfuel : t.size.toNat = (t.size.toNat - 1) + 1 := by lia
  rw [fixedPop_eq_loop h hsize he, fixedLoop_step hthr (by lia) _ _ (le_refl 0),
    if_pos (by lia), he.chosen_eq hsinks.left, if_pos hlow, hs.swap, Option.bind_some, hfuel,
    fixedLoop_step hs.renamed.threaded (by lia) _ _ (by lia)]
  by_cases hchild : chosenChild lists (lists.size - 1) 0 * 2 + 1 < t'.size
  · have hrange := chosenChild_range t'
      (show 2 * chosenChild lists (lists.size - 1) 0 + 1 < t'.size by lia)
    have hbelow := hrange.left.lt (by lia)
    have hle : ids lists (lists.size - 1) ≤
        ids t' (chosenChild t' t'.size (chosenChild lists (lists.size - 1) 0)) := by
      rw [hs.ids_below he hbelow (by lia)]
      exact henough _ hrange.left (by lia)
    rw [if_pos hchild, if_neg (not_lt.mpr hle), Option.bind_some]
  · rw [if_neg hchild, Option.bind_some]

/-!
# When the pop is that of the fixed list
-/

theorem sunkHead_eq (h : ListInv lists chain) (hsize : 2 ≤ lists.size)
    (he : Exchanged lists chain stk t) (hs : SunkOnce lists chain c t t') :
    sunkHead lists t' c = t'.headIndex ∨ t'.headIndex = t'.size := by
  have hsize' := hs.size he
  have htsize := he.size
  have hpos := hs.pos
  have hlt := hs.lt
  have hthr := hs.renamed.threaded
  have hheadt := he.renamed.head h.head
  have hhead := hs.renamed.head hheadt
  have hmoved := hs.headIndex_eq h he
  have hmovedt := he.headIndex_eq h
  have hzero := hthr.wellLinked.preNode_header_iff ((hthr.mem_iff 0).mpr ⟨le_refl 0, by lia⟩)
  have hchild := hthr.wellLinked.preNode_header_iff ((hthr.mem_iff c).mpr ⟨by lia, by lia⟩)
  rw [← hhead] at hzero hchild
  unfold sunkHead swappedHead
  by_cases hc : t'.headIndex = c
  · left
    rw [if_pos (hchild.mpr hc), hc]
  · rw [if_neg fun hbad => hc (hchild.mp hbad)]
    by_cases hroot : t'.headIndex = 0
    · left
      rw [if_pos (hzero.mpr hroot), hroot]
    · rw [if_neg fun hbad => hroot (hzero.mp hbad)]
      change lists.headIndex = t'.headIndex ∨ _
      rw [Equiv.swap_apply_def] at hmoved hmovedt
      grind

/-- A sound pop does what the pop of the fixed list does. -/
theorem popHeap_agrees (h : ListInv lists chain) (hord : HeapOrdered lists)
    (hsize : 2 ≤ lists.size) (hsound : PopSound lists) :
    popHeap MAXSIZE lists = StaticList.popHeap lists := by
  rcases exists_exchanged h hsize with ⟨stk, t, he⟩
  have htsize := he.size
  by_cases hsinks : Sinks lists (lists.size - 1)
  · rcases exists_sunkOnce he hsinks.left with ⟨t', hs⟩
    have hsize' := hs.size he
    rw [popHeap_sunk h hsize he hsinks hs,
      fixedPop_sunk h hsize he hsinks hs (hsound.enough hsinks)]
    exact unlinkRemoved_agrees hs.renamed.threaded
      ((hs.renamed.threaded.mem_iff _).mpr (by lia)) (hs.renamed.head (he.renamed.head h.head))
      (sunkHead_eq h hsize he hs)
  · rcases popHeap_idle h hord hsize he hsinks with ⟨hpop, hfixed⟩
    have hmoved := he.headIndex_eq h
    have hnot := hsound.head hsinks
    rw [hpop, hfixed]
    apply unlinkRemoved_agrees he.renamed.threaded
      ((he.renamed.threaded.mem_iff _).mpr (by lia)) (he.renamed.head h.head)
    rw [Equiv.swap_apply_def] at hmoved
    grind

/-!
# When it is not
-/

theorem unlinkRemoved_result {heap : StaticLinkList} {pre post : List Int}
    (hthr : Threaded heap lists.size (pre ++ (lists.size - 1) :: post))
    (hsize : heap.size = lists.size - 1)
    (hhead : heap.headIndex = firstTo (pre ++ (lists.size - 1) :: post) (-1)) (head : Int) :
    exists v, unlinkRemoved MAXSIZE (withHead heap head) = some v ∧
      v.size = lists.size - 1 ∧ ids v = ids heap ∧
      ((heap.list heap.size).preNode ≠ -1 -> v.headIndex = head) := by
  rcases unlinkRemoved_spec (Int.sub_add_cancel lists.size 1) hthr hsize hhead with
    ⟨w, hrun, _, _, hsizew, _, hdata⟩
  have hids : ids w = ids heap := by
    funext x
    exact congrArg (fun data => data.2.1) (hdata x)
  rw [unlinkRemoved_withHead, hrun]
  refine ⟨_, rfl, ?_, ?_, ?_⟩
  · split
    · exact hsizew
    · exact hsizew
  · split
    · exact hids
    · exact hids
  · intro hpre
    dsimp only
    rw [if_neg hpre]
    rfl

theorem exists_split {heap : StaticLinkList} {chain' : List Int} (hsize : 2 ≤ lists.size)
    (hthr : Threaded heap lists.size chain') :
    exists pre post, chain' = pre ++ (lists.size - 1) :: post :=
  List.append_of_mem ((hthr.mem_iff _).mpr (by lia))

/-- The heap is out of order below the record that was exchanged once. -/
theorem popHeap_out_of_order (h : ListInv lists chain) (hsize : 2 ≤ lists.size)
    (hsinks : Sinks lists (lists.size - 1)) {g : Int}
    (hg : IsChild (chosenChild lists (lists.size - 1) 0) g) (hlt : g < lists.size - 1)
    (hless : ids lists g < ids lists (lists.size - 1)) :
    exists v, popHeap MAXSIZE lists = some v ∧ ¬ HeapOrdered v := by
  rcases exists_exchanged h hsize with ⟨stk, t, he⟩
  rcases exists_sunkOnce he hsinks.left with ⟨t', hs⟩
  have hsize' := hs.size he
  have hthr := hs.renamed.threaded
  have hhead := hs.renamed.head (he.renamed.head h.head)
  have hpos := hs.pos
  have hbelow := hg.lt (by lia)
  rcases exists_split hsize hthr with ⟨pre, post, hsplit⟩
  rw [hsplit] at hthr hhead
  rcases unlinkRemoved_result hthr hsize' hhead
    (sunkHead lists t' (chosenChild lists (lists.size - 1) 0)) with
    ⟨v, hrun, hsizev, hids, _⟩
  refine ⟨v, ?_, ?_⟩
  · rw [popHeap_sunk h hsize he hsinks hs]
    exact hrun
  · intro hord
    have hle := hord _ g (by lia) hg (by lia)
    rw [hids, hs.ids_at he, hs.ids_below he hbelow hlt] at hle
    lia

/-- The head stays behind at the removed record. -/
theorem popHeap_stale_head (h : ListInv lists chain) (hord : HeapOrdered lists)
    (hsize : 2 ≤ lists.size) (hnot : ¬ Sinks lists (lists.size - 1))
    (hhead : lists.headIndex = lists.size - 1) :
    exists v, popHeap MAXSIZE lists = some v ∧ v.headIndex = v.size ∧
      v.size = lists.size - 1 := by
  rcases exists_exchanged h hsize with ⟨stk, t, he⟩
  have htsize := he.size
  have hthr := he.renamed.threaded
  have hheadt := he.renamed.head h.head
  have hlast := hthr.wellLinked.preNode_header_iff ((hthr.mem_iff t.size).mpr (by lia))
  have hzero : t.headIndex = 0 := by
    rw [he.headIndex_eq h, hhead, Equiv.swap_apply_right]
  have hpre : (t.list t.size).preNode ≠ -1 := by
    rw [ne_eq, hlast, ← hheadt, hzero]
    lia
  rcases exists_split hsize hthr with ⟨pre, post, hsplit⟩
  rw [hsplit] at hthr hheadt
  rcases unlinkRemoved_result hthr htsize hheadt lists.headIndex with
    ⟨v, hrun, hsizev, _, hheadv⟩
  refine ⟨v, ?_, ?_, hsizev⟩
  · rw [(popHeap_idle h hord hsize he hnot).left]
    exact hrun
  · rw [hheadv hpre, hhead, hsizev]

end Pop

end Pointer
end StaticList
end OsLabs
