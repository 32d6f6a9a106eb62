import OsLabs.StaticList.Swap

/-!
# The state after an exchange

`swapHeapNode` renames two indices in the whole state: in the positions of the records, in
the links of every record on the list and in the head.  Two exchanges of the same records
restore the state.
-/

namespace OsLabs
namespace StaticList

open Foundation
open Foundation.Links
open StaticLinkList

def Student.rename (f : Equiv.Perm Int) (stu : Student) : Student :=
  { stu with preNode := f stu.preNode, nextNode := f stu.nextNode }

/-- The records on the list change places and links as the indices are renamed, and so does
the head. -/
def renamedBy (f : Equiv.Perm Int) (heap : StaticLinkList) (chain : List Int) :
    StaticLinkList :=
  { heap with
    list := fun i => if i ∈ chain then (heap.list (f i)).rename f else heap.list i
    headIndex := f heap.headIndex }

theorem renamedBy_list (f : Equiv.Perm Int) (heap : StaticLinkList) (chain : List Int)
    (i : Int) :
    (renamedBy f heap chain).list i =
      if i ∈ chain then (heap.list (f i)).rename f else heap.list i := rfl

section Transposition

variable {heap : StaticLinkList} {chain : List Int} {parent child : Int}

theorem Student.ext_data {stu stu' : Student} (hdata : stu.data = stu'.data)
    (hpre : stu.preNode = stu'.preNode) (hnext : stu.nextNode = stu'.nextNode) :
    stu = stu' := by
  cases stu
  cases stu'
  simp only [Student.data, Prod.mk.injEq] at hdata
  simp only [Student.mk.injEq]
  exact ⟨hdata.left, hdata.right.left, hdata.right.right, hpre, hnext⟩

theorem ext_fields {lists lists' : StaticLinkList} (hlist : lists.list = lists'.list)
    (hhead : lists.headIndex = lists'.headIndex) (hsize : lists.size = lists'.size)
    (hunused : lists.unusedIndexs = lists'.unusedIndexs) : lists = lists' := by
  cases lists
  cases lists'
  simp only [StaticLinkList.mk.injEq]
  exact ⟨hlist, hhead, hsize, hunused⟩

theorem mem_swap_iff (hp : parent ∈ chain) (hc : child ∈ chain) {i : Int} :
    Equiv.swap parent child i ∈ chain <-> i ∈ chain := by
  rw [Equiv.swap_apply_def]
  split
  · rename_i heq
    exact ⟨fun _ => heq ▸ hp, fun _ => hc⟩
  · split
    · rename_i heq
      exact ⟨fun _ => heq ▸ hc, fun _ => hp⟩
    · exact Iff.rfl

theorem mem_map_swap (hp : parent ∈ chain) (hc : child ∈ chain) {i : Int} :
    i ∈ chain.map (Equiv.swap parent child) <-> i ∈ chain := by
  rw [← Equiv.swap_apply_self parent child i,
    List.mem_map_of_injective (Equiv.swap parent child).injective, Equiv.swap_apply_self]
  exact mem_swap_iff hp hc

theorem swappedNodes_outside (h : WellLinked heap chain) (hp : parent ∈ chain)
    (hc : child ∈ chain) {i : Int} (hi : i ∉ chain) :
    (swappedNodes heap parent child).list i = heap.list i := by
  have hip : i ≠ parent := fun heq => hi (heq ▸ hp)
  have hic : i ≠ child := fun heq => hi (heq ▸ hc)
  have hlink : forall v, v ∈ -1 :: chain -> v ≠ -1 -> i ≠ v := by
    intro v hv hne heq
    cases List.mem_cons.mp hv with
    | inl hbad => exact hne hbad
    | inr hin => exact hi (heq ▸ hin)
  have hppre := hlink _ (h.preNode_mem hp)
  have hpnext := hlink _ (h.nextNode_mem hp)
  have hcpre := hlink _ (h.preNode_mem hc)
  have hcnext := hlink _ (h.nextNode_mem hc)
  apply Student.ext_data
  · rw [swappedNodes_data, Equiv.swap_apply_of_ne_of_ne hip hic]
  · simp only [swappedNodes, nextIf_preNode, preIf_preNode, put_list]
    grind
  · simp only [swappedNodes, nextIf_nextNode, preIf_nextNode, put_list]
    grind

/-- On the list the exchange renames the positions and the links. -/
theorem swappedNodes_inside (h : WellLinked heap chain) (hp : parent ∈ chain)
    (hc : child ∈ chain) (hne : parent ≠ child) {i : Int} (hi : i ∈ chain) :
    (swappedNodes heap parent child).list i =
      (heap.list (Equiv.swap parent child i)).rename (Equiv.swap parent child) := by
  have hin := (mem_swap_iff hp hc).mpr hi
  have hpre := swappedNodes_preNode h hp hc hne hin
  have hnext := swappedNodes_nextNode h hp hc hne hin
  rw [Equiv.swap_apply_self] at hpre hnext
  exact Student.ext_data (swappedNodes_data heap parent child i) hpre hnext

theorem swapHeapNode_eq_renamedBy (h : WellLinked heap chain) (hp : parent ∈ chain)
    (hc : child ∈ chain) (hne : parent ≠ child)
    (hhead : heap.headIndex = firstTo chain (-1)) :
    swapHeapNode heap parent child =
      some (renamedBy (Equiv.swap parent child) heap chain) := by
  have hfixed := (swap_eq_header_iff h hp hc (-1)).mpr rfl
  rw [swapHeapNode_eq h hp hc, swappedHead_eq h hp hc hne hhead, firstTo_map hfixed, ← hhead]
  refine congrArg some (ext_fields ?_ rfl (swappedNodes_size heap parent child)
    (swappedNodes_unusedIndexs heap parent child))
  funext i
  rw [renamedBy_list]
  by_cases hi : i ∈ chain
  · rw [if_pos hi]
    exact swappedNodes_inside h hp hc hne hi
  · rw [if_neg hi]
    exact swappedNodes_outside h hp hc hi

theorem renamedBy_wellLinked (h : WellLinked heap chain) (hp : parent ∈ chain)
    (hc : child ∈ chain) (hne : parent ≠ child) :
    WellLinked (renamedBy (Equiv.swap parent child) heap chain)
      (chain.map (Equiv.swap parent child)) := by
  have hlist : forall i, i ∈ chain.map (Equiv.swap parent child) ->
      (renamedBy (Equiv.swap parent child) heap chain).list i =
        (swappedNodes heap parent child).list i := by
    intro i hi
    have hin := (mem_map_swap hp hc).mp hi
    rw [swappedNodes_inside h hp hc hne hin, renamedBy_list, if_pos hin]
  apply (swappedNodes_wellLinked h hp hc hne).congr
  · intro i hi
    rw [hlist i hi]
  · intro i hi
    rw [hlist i hi]

theorem renamedBy_data (heap : StaticLinkList) (hp : parent ∈ chain) (hc : child ∈ chain) :
    (chain.map (Equiv.swap parent child)).map
        (fun i => ((renamedBy (Equiv.swap parent child) heap chain).list i).data) =
      chain.map fun i => (heap.list i).data := by
  rw [List.map_map]
  apply List.map_congr_left
  intro i hi
  rw [Function.comp_apply, renamedBy_list, if_pos ((mem_swap_iff hp hc).mpr hi),
    Equiv.swap_apply_self]
  rfl

theorem renamedBy_twice (heap : StaticLinkList) (hp : parent ∈ chain) (hc : child ∈ chain) :
    renamedBy (Equiv.swap parent child)
        (renamedBy (Equiv.swap parent child) heap chain)
        (chain.map (Equiv.swap parent child)) = heap := by
  refine ext_fields ?_ (Equiv.swap_apply_self parent child heap.headIndex) rfl rfl
  funext i
  rw [renamedBy_list, renamedBy_list, renamedBy_list]
  by_cases hi : i ∈ chain
  · rw [if_pos ((mem_map_swap hp hc).mpr hi), if_pos ((mem_swap_iff hp hc).mpr hi),
      Equiv.swap_apply_self]
    unfold Student.rename
    simp only [Equiv.swap_apply_self]
  · rw [if_neg fun hin => hi ((mem_map_swap hp hc).mp hin), if_neg hi]

end Transposition

/-- The exchange is the renaming, the list stays well formed with the same records in the same
order, and the second exchange undoes the first. -/
theorem swap_is_transposition {heap : StaticLinkList} {chain : List Int}
    (h : WellLinked heap chain) (hhead : heap.headIndex = firstTo chain (-1))
    {parent child : Int} (hp : parent ∈ chain) (hc : child ∈ chain) (hne : parent ≠ child) :
    exists heap', swapHeapNode heap parent child = some heap' ∧
      heap' = renamedBy (Equiv.swap parent child) heap chain ∧
      WellLinked heap' (chain.map (Equiv.swap parent child)) ∧
      heap'.headIndex = firstTo (chain.map (Equiv.swap parent child)) (-1) ∧
      (chain.map (Equiv.swap parent child)).map (fun i => (heap'.list i).data) =
        (chain.map fun i => (heap.list i).data) ∧
      swapHeapNode heap' parent child = some heap := by
  have hfixed := (swap_eq_header_iff h hp hc (-1)).mpr rfl
  have hlinked := renamedBy_wellLinked h hp hc hne
  have hhead' : (renamedBy (Equiv.swap parent child) heap chain).headIndex =
      firstTo (chain.map (Equiv.swap parent child)) (-1) := by
    rw [firstTo_map hfixed, ← hhead]
    rfl
  refine ⟨_, swapHeapNode_eq_renamedBy h hp hc hne hhead, rfl, hlinked, hhead',
    renamedBy_data heap hp hc, ?_⟩
  rw [swapHeapNode_eq_renamedBy hlinked ((mem_map_swap hp hc).mpr hp)
    ((mem_map_swap hp hc).mpr hc) hne hhead', renamedBy_twice heap hp hc]

def twoRecords : StaticLinkList where
  list := fun i => if i = 7 then Student.mk 1 i ⟨[97], by decide⟩ (-1) 3
    else Student.mk 1 i ⟨[98], by decide⟩ 7 (-1)
  headIndex := 7
  size := 2
  unusedIndexs := ⟨fun _ => 0, 0⟩

theorem twoRecords_wellLinked : WellLinked twoRecords [7, 3] := by
  refine ⟨by decide, by decide, ?_⟩
  refine List.IsChain.cons_cons ⟨rfl, rfl⟩ ?_
  exact List.IsChain.cons_cons ⟨rfl, rfl⟩ (List.IsChain.cons_cons ⟨rfl, rfl⟩
    (List.IsChain.singleton _))

theorem swap_is_transposition_two :
    exists heap', swapHeapNode twoRecords 3 7 = some heap' ∧
      heap' = renamedBy (Equiv.swap 3 7) twoRecords [7, 3] ∧
      WellLinked heap' ([7, 3].map (Equiv.swap 3 7)) ∧
      heap'.headIndex = firstTo ([7, 3].map (Equiv.swap 3 7)) (-1) ∧
      ([7, 3].map (Equiv.swap 3 7)).map (fun i => (heap'.list i).data) =
        ([7, 3].map fun i => (twoRecords.list i).data) ∧
      swapHeapNode heap' 3 7 = some twoRecords :=
  swap_is_transposition twoRecords_wellLinked rfl (by decide) (by decide) (by decide)

end StaticList
end OsLabs
