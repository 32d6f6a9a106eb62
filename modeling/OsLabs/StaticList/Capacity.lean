import OsLabs.StaticList.Flags

/-!
# Insertion at capacity

When all indices are in use, the stack of unused indices answers `-1`, and the three
insertions take this for the index of the new student.  A run stays within the arrays
exactly when nothing is inserted into a full list.
-/

namespace OsLabs
namespace StaticList

open Foundation
open StaticLinkList

namespace ListOp

def Inserts : ListOp -> Prop
  | insertListAtHead _ | pushHeap _ | pushHeapByIdAndName _ _ => True
  | _ => False

def IndexInSize (lists : StaticLinkList) : ListOp -> Prop
  | modifyIdByIndex index _ | modifyNameByIndex index _ | modifyIdAndNameByIndex index _ _ =>
      0 ≤ index ∧ index < lists.size
  | _ => True

/-- The operation stays within the arrays, keeps the size within its bounds, and does
nothing if it inserts into a full list. -/
def Safe (lists : StaticLinkList) (op : ListOp) : Prop :=
  exists t, op.exec lists = some t ∧ 0 ≤ t.size ∧ t.size ≤ MAXSIZE ∧
    (op.Inserts -> lists.size = MAXSIZE -> t = lists)

def HasRoom (lists : StaticLinkList) (op : ListOp) : Prop :=
  op.Inserts -> lists.size < MAXSIZE

theorem allowed_of_room {lists : StaticLinkList} {op : ListOp} (hindex : op.IndexInSize lists)
    (hroom : op.HasRoom lists) : op.Allowed lists := by
  cases op with
  | insertListAtHead stu => exact hroom trivial
  | pushHeap stu => exact hroom trivial
  | pushHeapByIdAndName id name => exact hroom trivial
  | modifyIdByIndex index id => exact hindex
  | modifyNameByIndex index name => exact hindex
  | modifyIdAndNameByIndex index id name => exact hindex
  | _ => exact trivial

end ListOp

def execOp (lists : StaticLinkList) (op : ListOp) : Option StaticLinkList := op.exec lists

section Steps

variable {lists t : StaticLinkList} {chain : List Int} {op : ListOp}

theorem ListInv.room_of_exec (h : ListInv lists chain) (hrun : op.exec lists = some t) :
    op.HasRoom lists := by
  intro hinserts
  cases op with
  | insertListAtHead stu => exact h.insertListAtHead_room hrun
  | pushHeap stu => exact h.pushStudent_room hrun
  | pushHeapByIdAndName id name => exact h.pushStudent_room hrun
  | _ => cases hinserts

theorem ListInv.exec_some (h : ListInv lists chain) (hindex : op.IndexInSize lists)
    (hrun : op.exec lists = some t) : exists chain', ListInv t chain' := by
  rcases h.exec (ListOp.allowed_of_room hindex (h.room_of_exec hrun)) with
    ⟨t', chain', hrun', hinv, _⟩
  rw [hrun] at hrun'
  cases hrun'
  exact ⟨chain', hinv⟩

theorem ListInv.safe_iff (h : ListInv lists chain) (hindex : op.IndexInSize lists) :
    op.Safe lists <-> op.HasRoom lists := by
  constructor
  · rintro ⟨t, hrun, _⟩
    exact h.room_of_exec hrun
  · intro hroom
    rcases h.exec (ListOp.allowed_of_room hindex hroom) with ⟨t, chain', hrun, hinv, _⟩
    refine ⟨t, hrun, hinv.size_nonneg, hinv.threaded.bound, ?_⟩
    intro hinserts hfull
    have hlt := hroom hinserts
    lia

end Steps

/-- A run is safe exactly when every insertion in it is made where there is room. -/
theorem capacity_exact (start : StaticLinkList) (ops : List ListOp) :
    exists lists, initialStaticLinkList start = some lists ∧
      (System.ExecMeets execOp (fun s op => op.IndexInSize s) lists ops ->
        (System.ExecMeets execOp (fun s op => op.Safe s) lists ops <->
          System.ExecMeets execOp (fun s op => op.HasRoom s) lists ops)) := by
  rcases initialStaticLinkList_spec start with ⟨lists, hrun, hinv, _⟩
  refine ⟨lists, hrun, ?_⟩
  intro hindex
  refine System.execMeets_congr (J := fun s => exists chain, ListInv s chain) ?_ ?_
    ⟨[], hinv⟩ hindex
  · rintro s op t ⟨chain, hs⟩ hok hstep
    exact hs.exec_some hok hstep
  · rintro s op ⟨chain, hs⟩ hok
    exact hs.safe_iff hok

/-!
# The first insertion too many
-/

def manyInsertions (k : Nat) : List ListOp :=
  List.replicate k (ListOp.insertListAtHead (blankList.list 0))

theorem manyInsertions_run {lists : StaticLinkList} {chain : List Int} (h : ListInv lists chain)
    {k : Nat} (hroom : lists.size + k ≤ MAXSIZE) : exists t chain',
    System.execAll execOp lists (manyInsertions k) = some t ∧ ListInv t chain' ∧
      t.size = lists.size + k := by
  induction k generalizing lists chain with
  | zero => exact ⟨lists, chain, rfl, h, by simp⟩
  | succ k ih =>
      rcases h.insertListAtHead (by lia) (blankList.list 0) with
        ⟨mid, chain1, hstep, hmid, hsize, _⟩
      rcases ih hmid (by lia) with ⟨t, chain', hrun, ht, hsize'⟩
      refine ⟨t, chain', ?_, ht, by lia⟩
      change ((StaticList.insertListAtHead lists (blankList.list 0)).bind _) = _
      rw [hstep, Option.bind_some]
      exact hrun

theorem manyInsertions_index (lists : StaticLinkList) (k : Nat) :
    System.ExecMeets execOp (fun s op => op.IndexInSize s) lists (manyInsertions k) := by
  induction k generalizing lists with
  | zero => exact trivial
  | succ k ih => exact ⟨trivial, fun t _ => ih t⟩

/-- After 1024 insertions the next one is given the index `-1`. -/
theorem insertion_into_full_list :
    exists lists s, initialStaticLinkList blankList = some lists ∧
      System.execAll execOp lists (manyInsertions 1024) = some s ∧ s.size = MAXSIZE ∧
      topStack s.unusedIndexs = some (-1) ∧
      insertListAtHead s (blankList.list 0) = none ∧
      System.ExecMeets execOp (fun s op => op.IndexInSize s) lists (manyInsertions 1025) ∧
      ¬ System.ExecMeets execOp (fun s op => op.Safe s) lists (manyInsertions 1025) := by
  rcases initialStaticLinkList_spec blankList with ⟨lists, hinit, hinv, hsize⟩
  have hmax : MAXSIZE = 1024 := rfl
  rcases manyInsertions_run (k := 1024) hinv (by lia) with ⟨s, chain, hrun, hs, hfull⟩
  have hnoRoom : ¬ s.size < MAXSIZE := by lia
  have hnone : insertListAtHead s (blankList.list 0) = none := by
    rw [Option.eq_none_iff_forall_ne_some]
    intro t hstep
    exact hnoRoom (hs.insertListAtHead_room hstep)
  refine ⟨lists, s, hinit, hrun, by lia, hs.topStack_full hnoRoom, hnone,
    manyInsertions_index lists 1025, ?_⟩
  intro hsafe
  have hsplit : manyInsertions 1025 = manyInsertions 1024 ++ manyInsertions 1 := by
    unfold manyInsertions
    rw [List.replicate_append_replicate]
  rw [hsplit] at hsafe
  rcases (System.execMeets_append hsafe hrun).left with ⟨t, hstep, _⟩
  change insertListAtHead s (blankList.list 0) = some t at hstep
  rw [hnone] at hstep
  cases hstep

end StaticList
end OsLabs
