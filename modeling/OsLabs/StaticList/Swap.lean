import OsLabs.StaticList.Threading

/-!
# `swapHeapNode` is a transposition

On a well-formed list the exchange of two records is the renaming of the two
indices in the array, in every link and in the head.
-/

namespace OsLabs
namespace StaticList

open Foundation
open Foundation.Links
open StaticLinkList

/-- The array after the exchange of two records and the repair of the links,
without the adjustment of the head. -/
def swappedNodes (heap : StaticLinkList) (parent child : Int) : StaticLinkList :=
  let p := heap.list parent
  let c := heap.list child
  let heap := (heap.put parent c).put child p
  let heap := nextIf (p.preNode ≠ -1 ∧ p.preNode ≠ child) heap p.preNode child
  let heap := preIf (p.nextNode ≠ -1 ∧ p.nextNode ≠ child) heap p.nextNode child
  let heap := nextIf (c.preNode ≠ -1 ∧ c.preNode ≠ parent) heap c.preNode parent
  let heap := preIf (c.nextNode ≠ -1 ∧ c.nextNode ≠ parent) heap c.nextNode parent
  let heap := nextIf (p.preNode = child) heap parent child
  let heap := preIf (p.preNode = child) heap child parent
  let heap := preIf (p.nextNode = child) heap parent child
  nextIf (p.nextNode = child) heap child parent

def swappedHead (heap : StaticLinkList) (parent child parentPre childPre : Int) : Int :=
  if childPre = -1 then child else if parentPre = -1 then parent else heap.headIndex

section Frame

variable (heap : StaticLinkList) (parent child : Int)

@[simp] theorem nextIf_headIndex (cond : Prop) [Decidable cond] (i value : Int) :
    (nextIf cond heap i value).headIndex = heap.headIndex := by
  unfold nextIf
  split
  · rfl
  · rfl

@[simp] theorem preIf_headIndex (cond : Prop) [Decidable cond] (i value : Int) :
    (preIf cond heap i value).headIndex = heap.headIndex := by
  unfold preIf
  split
  · rfl
  · rfl

@[simp] theorem nextIf_size (cond : Prop) [Decidable cond] (i value : Int) :
    (nextIf cond heap i value).size = heap.size := by
  unfold nextIf
  split
  · rfl
  · rfl

@[simp] theorem preIf_size (cond : Prop) [Decidable cond] (i value : Int) :
    (preIf cond heap i value).size = heap.size := by
  unfold preIf
  split
  · rfl
  · rfl

@[simp] theorem nextIf_unusedIndexs (cond : Prop) [Decidable cond] (i value : Int) :
    (nextIf cond heap i value).unusedIndexs = heap.unusedIndexs := by
  unfold nextIf
  split
  · rfl
  · rfl

@[simp] theorem preIf_unusedIndexs (cond : Prop) [Decidable cond] (i value : Int) :
    (preIf cond heap i value).unusedIndexs = heap.unusedIndexs := by
  unfold preIf
  split
  · rfl
  · rfl

theorem swappedNodes_size : (swappedNodes heap parent child).size = heap.size := by
  simp [swappedNodes, put]

theorem swappedNodes_unusedIndexs :
    (swappedNodes heap parent child).unusedIndexs = heap.unusedIndexs := by
  simp [swappedNodes, put]

theorem swappedNodes_headIndex :
    (swappedNodes heap parent child).headIndex = heap.headIndex := by
  simp [swappedNodes, put]

end Frame

theorem nextIf_preIf_eq (cond : Prop) [Decidable cond] (heap : StaticLinkList)
    {i j v w : Int} (hi : InBounds i) (hj : InBounds j) :
    (if cond then (heap.setNextNode i v).bind fun heap => heap.setPreNode j w
      else some heap) =
      some (preIf cond (nextIf cond heap i v) j w) := by
  unfold nextIf preIf setNextNode setPreNode
  split
  · rw [modifyNode_eq hi, Option.bind_some, modifyNode_eq hj]
  · rfl

theorem preIf_nextIf_eq (cond : Prop) [Decidable cond] (heap : StaticLinkList)
    {i j v w : Int} (hi : InBounds i) (hj : InBounds j) :
    (if cond then (heap.setPreNode i v).bind fun heap => heap.setNextNode j w
      else some heap) =
      some (nextIf cond (preIf cond heap i v) j w) := by
  unfold nextIf preIf setNextNode setPreNode
  split
  · rw [modifyNode_eq hi, Option.bind_some, modifyNode_eq hj]
  · rfl

theorem adjustHead_eq (heap : StaticLinkList) (parent child : Int) :
    (let heap' :=
        if (heap.list parent).preNode = -1 then { heap with headIndex := parent } else heap
      if (heap'.list child).preNode = -1 then { heap' with headIndex := child } else heap') =
      { heap with
        headIndex := swappedHead heap parent child (heap.list parent).preNode
          (heap.list child).preNode } := by
  unfold swappedHead
  by_cases hparent : (heap.list parent).preNode = -1
  · by_cases hchild : (heap.list child).preNode = -1
    · simp [hparent, hchild]
    · simp [hparent, hchild]
  · by_cases hchild : (heap.list child).preNode = -1
    · simp [hparent, hchild]
    · simp [hparent, hchild]

/-- The exchange up to the adjustment of the head. -/
def exchangeRecords (heap : StaticLinkList) (parent child : Int) : Option StaticLinkList := do
  let parentStu <- heap.node parent
  let childStu <- heap.node child
  let heap <- heap.modifyNode parent fun _ => childStu
  let heap <- heap.modifyNode child fun _ => parentStu
  let heap <-
    (if parentStu.preNode ≠ -1 ∧ parentStu.preNode ≠ child then
      heap.setNextNode parentStu.preNode child
    else some heap)
  let heap <-
    (if parentStu.nextNode ≠ -1 ∧ parentStu.nextNode ≠ child then
      heap.setPreNode parentStu.nextNode child
    else some heap)
  let heap <-
    (if childStu.preNode ≠ -1 ∧ childStu.preNode ≠ parent then
      heap.setNextNode childStu.preNode parent
    else some heap)
  let heap <-
    (if childStu.nextNode ≠ -1 ∧ childStu.nextNode ≠ parent then
      heap.setPreNode childStu.nextNode parent
    else some heap)
  let heap <-
    (if parentStu.preNode = child then do
      let heap <- heap.setNextNode parent child
      heap.setPreNode child parent
    else some heap)
  if parentStu.nextNode = child then do
    let heap <- heap.setPreNode parent child
    heap.setNextNode child parent
  else
    some heap

def adjustHead (heap : StaticLinkList) (parent child : Int) : Option StaticLinkList := do
  let newParent <- heap.node parent
  let heap := if newParent.preNode = -1 then { heap with headIndex := parent } else heap
  let newChild <- heap.node child
  some (if newChild.preNode = -1 then { heap with headIndex := child } else heap)

theorem swapHeapNode_eq_bind (heap : StaticLinkList) (parent child : Int) :
    swapHeapNode heap parent child =
      (exchangeRecords heap parent child).bind fun heap => adjustHead heap parent child := by
  unfold swapHeapNode exchangeRecords adjustHead
  simp only [Option.bind_eq_bind, Option.bind_assoc]

/-- No access of the exchange is out of bounds. -/
theorem exchangeRecords_eq {heap : StaticLinkList} {chain : List Int}
    (h : WellLinked heap chain) {parent child : Int} (hp : parent ∈ chain)
    (hc : child ∈ chain) :
    exchangeRecords heap parent child = some (swappedNodes heap parent child) := by
  have hpIn := h.inBounds parent hp
  have hcIn := h.inBounds child hc
  have hlink : forall v, v ∈ -1 :: chain -> forall {q : Prop}, (v ≠ -1 ∧ q -> InBounds v) := by
    intro v hv q hcond
    exact h.link_inBounds hv hcond.left
  unfold exchangeRecords
  simp only [node_eq hpIn, node_eq hcIn, modifyNode_eq hpIn, modifyNode_eq hcIn,
    Option.bind_eq_bind, Option.bind_some]
  rw [nextIf_eq _ _ _ _ (hlink _ (h.preNode_mem hp)), Option.bind_some,
    preIf_eq _ _ _ _ (hlink _ (h.nextNode_mem hp)), Option.bind_some,
    nextIf_eq _ _ _ _ (hlink _ (h.preNode_mem hc)), Option.bind_some,
    preIf_eq _ _ _ _ (hlink _ (h.nextNode_mem hc)), Option.bind_some,
    nextIf_preIf_eq _ _ hpIn hcIn, Option.bind_some, preIf_nextIf_eq _ _ hpIn hcIn]
  rfl

theorem adjustHead_some (heap : StaticLinkList) {parent child : Int} (hp : InBounds parent)
    (hc : InBounds child) :
    adjustHead heap parent child =
      some { heap with
        headIndex := swappedHead heap parent child (heap.list parent).preNode
          (heap.list child).preNode } := by
  unfold adjustHead
  simp only [node_eq hp, node_eq hc, Option.bind_eq_bind, Option.bind_some]
  exact congrArg some (adjustHead_eq heap parent child)

theorem swapHeapNode_eq {heap : StaticLinkList} {chain : List Int}
    (h : WellLinked heap chain) {parent child : Int} (hp : parent ∈ chain)
    (hc : child ∈ chain) :
    swapHeapNode heap parent child =
      some { swappedNodes heap parent child with
        headIndex := swappedHead (swappedNodes heap parent child) parent child
          ((swappedNodes heap parent child).list parent).preNode
          ((swappedNodes heap parent child).list child).preNode } := by
  rw [swapHeapNode_eq_bind, exchangeRecords_eq h hp hc, Option.bind_some]
  exact adjustHead_some _ (h.inBounds parent hp) (h.inBounds child hc)

/-!
# The exchange renames the two indices
-/

section Renaming

variable {heap : StaticLinkList} {chain : List Int} {parent child : Int}

theorem swappedNodes_nextNode (h : WellLinked heap chain) (hp : parent ∈ chain)
    (hc : child ∈ chain) (hne : parent ≠ child) {x : Int} (hx : x ∈ chain) :
    ((swappedNodes heap parent child).list (Equiv.swap parent child x)).nextNode =
      Equiv.swap parent child (heap.list x).nextNode := by
  have hxp := h.nextNode_iff hx hp
  have hxc := h.nextNode_iff hx hc
  have hpc := h.nextNode_iff hp hc
  have hcp := h.nextNode_iff hc hp
  have hpp := h.nextNode_ne hp
  have hcc := h.nextNode_ne hc
  have hpp' := h.preNode_ne hp
  have hcc' := h.preNode_ne hc
  have hxne := h.ne_header hx
  simp only [swappedNodes, nextIf_nextNode, preIf_nextNode, put_list, Equiv.swap_apply_def]
  grind

theorem swappedNodes_preNode (h : WellLinked heap chain) (hp : parent ∈ chain)
    (hc : child ∈ chain) (hne : parent ≠ child) {x : Int} (hx : x ∈ chain) :
    ((swappedNodes heap parent child).list (Equiv.swap parent child x)).preNode =
      Equiv.swap parent child (heap.list x).preNode := by
  have hxp := h.nextNode_iff hp hx
  have hxc := h.nextNode_iff hc hx
  have hpc := h.nextNode_iff hp hc
  have hcp := h.nextNode_iff hc hp
  have hpp := h.nextNode_ne hp
  have hcc := h.nextNode_ne hc
  have hpp' := h.preNode_ne hp
  have hcc' := h.preNode_ne hc
  have hxne := h.ne_header hx
  simp only [swappedNodes, nextIf_preNode, preIf_preNode, put_list, Equiv.swap_apply_def]
  grind

theorem swappedNodes_data (heap : StaticLinkList) (parent child x : Int) :
    ((swappedNodes heap parent child).list x).data =
      (heap.list (Equiv.swap parent child x)).data := by
  simp only [swappedNodes, nextIf_data, preIf_data, put_list, Equiv.swap_apply_def]
  grind

theorem swap_eq_header_iff (h : WellLinked heap chain) (hp : parent ∈ chain)
    (hc : child ∈ chain) (x : Int) : Equiv.swap parent child x = -1 <-> x = -1 := by
  have hfixed : Equiv.swap parent child (-1) = -1 :=
    Equiv.swap_apply_of_ne_of_ne (h.ne_header hp).symm (h.ne_header hc).symm
  rw [← Equiv.apply_eq_iff_eq (Equiv.swap parent child) (x := x), hfixed]

theorem swappedNodes_wellLinked (h : WellLinked heap chain) (hp : parent ∈ chain)
    (hc : child ∈ chain) (hne : parent ≠ child) :
    WellLinked (swappedNodes heap parent child) (chain.map (Equiv.swap parent child)) := by
  have hheader := swap_eq_header_iff h hp hc
  have hfixed := (hheader (-1)).mpr rfl
  constructor
  · intro i hi
    rcases List.mem_map.mp hi with ⟨x, hx, heq⟩
    rw [← heq, Equiv.swap_apply_def]
    split
    · exact h.inBounds child hc
    · split
      · exact h.inBounds parent hp
      · exact h.inBounds x hx
  · apply h.ring.map_of (Equiv.swap parent child).injective hfixed
    · intro c hmem
      unfold heapLinks
      cases List.mem_cons.mp hmem with
      | inl heq => simp [heq, hfixed, firstTo_map hfixed]
      | inr hin =>
          simp only [hheader, h.ne_header hin, if_false]
          exact swappedNodes_nextNode h hp hc hne hin
    · intro c hmem
      unfold heapLinks
      cases List.mem_cons.mp hmem with
      | inl heq => simp [heq, hfixed, lastFrom_map hfixed]
      | inr hin =>
          simp only [hheader, h.ne_header hin, if_false]
          exact swappedNodes_preNode h hp hc hne hin

theorem swappedNodes_threaded {m : Int} (h : Threaded heap m chain) (hp : parent ∈ chain)
    (hc : child ∈ chain) (hne : parent ≠ child) :
    Threaded (swappedNodes heap parent child) m (chain.map (Equiv.swap parent child)) := by
  refine ⟨h.bound, ?_, (swappedNodes_wellLinked h.wellLinked hp hc hne).ring⟩
  intro i
  have hpRange := (h.mem_iff parent).mp hp
  have hcRange := (h.mem_iff child).mp hc
  rw [← Equiv.swap_apply_self parent child i,
    List.mem_map_of_injective (Equiv.swap parent child).injective, h.mem_iff,
    Equiv.swap_apply_self, Equiv.swap_apply_def]
  grind

theorem swappedHead_eq (h : WellLinked heap chain) (hp : parent ∈ chain)
    (hc : child ∈ chain) (hne : parent ≠ child)
    (hhead : heap.headIndex = firstTo chain (-1)) :
    swappedHead (swappedNodes heap parent child) parent child
      ((swappedNodes heap parent child).list parent).preNode
      ((swappedNodes heap parent child).list child).preNode =
      firstTo (chain.map (Equiv.swap parent child)) (-1) := by
  have hfixed := (swap_eq_header_iff h hp hc (-1)).mpr rfl
  have hlinked := swappedNodes_wellLinked h hp hc hne
  have hpMem : parent ∈ chain.map (Equiv.swap parent child) :=
    List.mem_map.mpr ⟨child, hc, Equiv.swap_apply_right parent child⟩
  have hcMem : child ∈ chain.map (Equiv.swap parent child) :=
    List.mem_map.mpr ⟨parent, hp, Equiv.swap_apply_left parent child⟩
  unfold swappedHead
  rw [swappedNodes_headIndex, hhead]
  split
  · rename_i hpre
    exact ((hlinked.preNode_header_iff hcMem).mp hpre).symm
  · rename_i hchild
    split
    · rename_i hpre
      exact ((hlinked.preNode_header_iff hpMem).mp hpre).symm
    · rename_i hparent
      rw [hlinked.preNode_header_iff hcMem, firstTo_map hfixed] at hchild
      rw [hlinked.preNode_header_iff hpMem, firstTo_map hfixed] at hparent
      rw [firstTo_map hfixed]
      symm
      apply Equiv.swap_apply_of_ne_of_ne
      · intro heq
        exact hchild (by rw [heq, Equiv.swap_apply_left])
      · intro heq
        exact hparent (by rw [heq, Equiv.swap_apply_right])

end Renaming

/-!
# What a series of exchanges keeps
-/

/-- The indices below `n` are renamed by `f` in a list over the indices below
`m`. -/
structure Renamed (m n : Int) (chain : List Int) (f : Equiv.Perm Int)
    (heap heap' : StaticLinkList) : Prop where
  threaded : Threaded heap' m (chain.map f)
  data : forall x, (heap'.list (f x)).data = (heap.list x).data
  fixes : forall x, x < 0 ∨ n ≤ x -> f x = x
  size : heap'.size = heap.size
  unusedIndexs : heap'.unusedIndexs = heap.unusedIndexs
  head : heap.headIndex = firstTo chain (-1) -> heap'.headIndex = firstTo (chain.map f) (-1)

section Renamed

variable {heap heap' heap'' : StaticLinkList} {m n : Int} {chain : List Int}

theorem Renamed.refl (h : Threaded heap m chain) :
    Renamed m n chain (Equiv.refl Int) heap heap := by
  constructor
  · simpa using h
  · intro x
    rfl
  · intro x _
    rfl
  · rfl
  · rfl
  · intro hhead
    simpa using hhead

theorem Renamed.trans {f g : Equiv.Perm Int} (h : Renamed m n chain f heap heap')
    (h' : Renamed m n (chain.map f) g heap' heap'') :
    Renamed m n chain (f.trans g) heap heap'' := by
  have hmap : chain.map (f.trans g) = (chain.map f).map g := by
    simp [Equiv.coe_trans]
  constructor
  · rw [hmap]
    exact h'.threaded
  · intro x
    rw [Equiv.trans_apply, h'.data, h.data]
  · intro x hx
    rw [Equiv.trans_apply, h.fixes x hx, h'.fixes x hx]
  · rw [h'.size, h.size]
  · rw [h'.unusedIndexs, h.unusedIndexs]
  · intro hhead
    rw [hmap]
    exact h'.head (h.head hhead)

theorem Renamed.mono {n' : Int} {f : Equiv.Perm Int} (h : Renamed m n chain f heap heap')
    (hn : n ≤ n') : Renamed m n' chain f heap heap' where
  threaded := h.threaded
  data := h.data
  fixes x hx := h.fixes x (by lia)
  size := h.size
  unusedIndexs := h.unusedIndexs
  head := h.head

structure Moved (n : Int) (f : Equiv.Perm Int) (heap heap' : StaticLinkList) : Prop where
  fixes : forall x, x < 0 ∨ n ≤ x -> f x = x
  data : forall x, (heap'.list (f x)).data = (heap.list x).data

theorem Moved.refl (n : Int) {heap heap' : StaticLinkList}
    (h : forall x, (heap'.list x).data = (heap.list x).data) :
    Moved n (Equiv.refl Int) heap heap' := ⟨fun _ _ => rfl, h⟩

theorem Renamed.moved {f : Equiv.Perm Int} (h : Renamed m n chain f heap heap') :
    Moved n f heap heap' := ⟨h.fixes, h.data⟩

theorem swapHeapNode_spec {parent child : Int} (h : Threaded heap m chain) (hnm : n ≤ m)
    (hp : 0 ≤ parent ∧ parent < n) (hc : 0 ≤ child ∧ child < n) (hne : parent ≠ child) :
    exists heap', swapHeapNode heap parent child = some heap' ∧
      Renamed m n chain (Equiv.swap parent child) heap heap' := by
  have hpMem : parent ∈ chain := (h.mem_iff parent).mpr (by lia)
  have hcMem : child ∈ chain := (h.mem_iff child).mpr (by lia)
  refine ⟨_, swapHeapNode_eq h.wellLinked hpMem hcMem, ?_⟩
  constructor
  · exact (swappedNodes_threaded h hpMem hcMem hne).congr (fun _ _ => rfl) (fun _ _ => rfl)
  · intro x
    have hdata := swappedNodes_data heap parent child (Equiv.swap parent child x)
    rw [Equiv.swap_apply_self] at hdata
    exact hdata
  · intro x hx
    exact Equiv.swap_apply_of_ne_of_ne (by lia) (by lia)
  · exact swappedNodes_size heap parent child
  · exact swappedNodes_unusedIndexs heap parent child
  · intro hhead
    exact swappedHead_eq h.wellLinked hpMem hcMem hne hhead

end Renamed

end StaticList
end OsLabs
