import Mathlib.Data.Int.Interval
import OsLabs.Foundation.Transition
import OsLabs.StaticList.Operations

/-!
# The list along every run

From `initialStaticLinkList` on, the indices below the size stay linked into one
list, and every operation acts on the sequence of students as on an abstract
list, whatever it does to the places in the array.
-/

namespace OsLabs
namespace StaticList

open Foundation
open Foundation.Links
open StaticLinkList

/-!
# The operations
-/

inductive ListOp where
  | insertListAtHead (stu : Student)
  | initialHeap
  | pushHeap (stu : Student)
  | pushHeapByIdAndName (id : Int) (name : Name)
  | popHeap
  | modifyId (stu : Student) (id : Int)
  | modifyName (stu : Student) (name : Name)
  | modifyIdAndName (stu : Student) (id : Int) (name : Name)
  | modifyIdByIndex (index id : Int)
  | modifyNameByIndex (index : Int) (name : Name)
  | modifyIdAndNameByIndex (index id : Int) (name : Name)

namespace ListOp

def exec (lists : StaticLinkList) : ListOp -> Option StaticLinkList
  | insertListAtHead stu => StaticList.insertListAtHead lists stu
  | initialHeap => StaticList.initialHeap lists
  | pushHeap stu => StaticList.pushHeap lists stu
  | pushHeapByIdAndName id name => StaticList.pushHeapByIdAndName lists id name
  | popHeap => StaticList.popHeap lists
  | modifyId stu id => (StaticList.modifyId lists stu id).map Prod.fst
  | modifyName stu name => (StaticList.modifyName lists stu name).map Prod.fst
  | modifyIdAndName stu id name => (StaticList.modifyIdAndName lists stu id name).map Prod.fst
  | modifyIdByIndex index id => (StaticList.modifyIdByIndex lists index id).map Prod.fst
  | modifyNameByIndex index name =>
      (StaticList.modifyNameByIndex lists index name).map Prod.fst
  | modifyIdAndNameByIndex index id name =>
      (StaticList.modifyIdAndNameByIndex lists index id name).map Prod.fst

def Allowed (lists : StaticLinkList) : ListOp -> Prop
  | insertListAtHead _ | pushHeap _ | pushHeapByIdAndName _ _ => lists.size < MAXSIZE
  | modifyIdByIndex index _ | modifyNameByIndex index _ | modifyIdAndNameByIndex index _ _ =>
      0 ≤ index ∧ index < lists.size
  | _ => True

end ListOp

def listSystem (lists : StaticLinkList) : System StaticLinkList ListOp where
  init s := initialStaticLinkList lists = some s
  step s op t := op.Allowed s ∧ op.exec s = some t

/-!
# What the operations do to the sequence
-/

def withId (id : Int) (e : Entry) : Entry := (id, e.2)

def withName (name : Name) (e : Entry) : Entry := (e.1, name)

def ChangedEntry (g : Entry -> Entry) (e : Entry) (before after : List Entry) : Prop :=
  (e ∉ before ∧ after = before) ∨
    exists xs ys, before = xs ++ e :: ys ∧ after = xs ++ g e :: ys

def ChangedAt (g : Entry -> Entry) (lists : StaticLinkList) (chain : List Int) (index : Int)
    (after : List Entry) : Prop :=
  exists pre post, chain = pre ++ index :: post ∧
    after = sequence lists pre ++ g (lists.list index).entry :: sequence lists post

def RemovedAt (lists : StaticLinkList) (chain : List Int) (index : Int)
    (after : List Entry) : Prop :=
  exists pre post, chain = pre ++ index :: post ∧
    after = sequence lists pre ++ sequence lists post

def ListOp.Effect (lists : StaticLinkList) (chain : List Int) (after : List Entry) :
    ListOp -> Prop
  | insertListAtHead stu => after = stu.entry :: sequence lists chain
  | initialHeap => after = sequence lists chain
  | pushHeap stu => after = stu.entry :: sequence lists chain
  | pushHeapByIdAndName id name => after = (id, name) :: sequence lists chain
  | popHeap => (lists.size = 0 ∧ after = sequence lists chain) ∨ RemovedAt lists chain 0 after
  | modifyId stu id => ChangedEntry (withId id) stu.entry (sequence lists chain) after
  | modifyName stu name => ChangedEntry (withName name) stu.entry (sequence lists chain) after
  | modifyIdAndName stu id name =>
      ChangedEntry (fun _ => (id, name)) stu.entry (sequence lists chain) after
  | modifyIdByIndex index id => ChangedAt (withId id) lists chain index after
  | modifyNameByIndex index name => ChangedAt (withName name) lists chain index after
  | modifyIdAndNameByIndex index id name =>
      ChangedAt (fun _ => (id, name)) lists chain index after

/-!
# One step
-/

theorem changes_setId (id : Int) : Changes (setId id) (withId id) :=
  ⟨fun _ => rfl, fun _ => rfl, fun _ => rfl⟩

theorem changes_setName (name : Name) : Changes (setName name) (withName name) :=
  ⟨fun _ => rfl, fun _ => rfl, fun _ => rfl⟩

theorem changes_setIdAndName (id : Int) (name : Name) :
    Changes (fun record => setName name (setId id record)) (fun _ => (id, name)) :=
  ⟨fun _ => rfl, fun _ => rfl, fun _ => rfl⟩

section Step

variable {lists : StaticLinkList} {chain : List Int}

def Outcome (lists : StaticLinkList) (result : Option StaticLinkList) (heapOp : Prop)
    (effect : List Entry -> Prop) : Prop :=
  exists lists' chain', result = some lists' ∧ ListInv lists' chain' ∧
    effect (sequence lists' chain') ∧ (heapOp -> HeapOrdered lists -> HeapOrdered lists')

theorem ListInv.modifyFound (h : ListInv lists chain) {change : Student -> Student}
    {g : Entry -> Entry} (hchange : Changes change g) (stu : Student) (rebuild : Bool)
    (hrebuild : rebuild = true ∨ forall stu, (change stu).id = stu.id) :
    Outcome lists ((StaticList.modifyFound lists stu change rebuild).map Prod.fst) True
      (ChangedEntry g stu.entry (sequence lists chain)) := by
  rcases h.findHeap stu with ⟨r, hfind, hcase⟩
  unfold StaticList.modifyFound
  rw [hfind, Option.bind_eq_bind, Option.bind_some]
  cases hcase with
  | inl hnone =>
      rw [if_pos hnone.left]
      exact ⟨lists, chain, rfl, h, Or.inl ⟨hnone.right, rfl⟩, fun _ hord => hord⟩
  | inr hfound =>
      rcases hfound with ⟨hmem, hentry⟩
      have hrange := (h.threaded.mem_iff r).mp hmem
      rcases h.changeAt hchange hrange.left hrange.right rebuild with
        ⟨lists', chain', pre, post, hrun, hinv, _, hsplit, hseq, hord, _⟩
      rw [if_neg (by lia), hrun]
      refine ⟨lists', chain', rfl, hinv, Or.inr ⟨sequence lists pre, sequence lists post, ?_, ?_⟩,
        fun _ => hord hrebuild⟩
      · rw [hsplit, sequence_append, sequence_cons, hentry]
      · rw [hseq, hentry]

theorem ListInv.modifyByIndex (h : ListInv lists chain) {change : Student -> Student}
    {g : Entry -> Entry} (hchange : Changes change g) {index : Int} (rebuild : Bool)
    (hrebuild : rebuild = true ∨ forall stu, (change stu).id = stu.id)
    (hindex : 0 ≤ index ∧ index < lists.size) :
    Outcome lists ((StaticList.modifyByIndex lists index change rebuild).map Prod.fst) True
      (ChangedAt g lists chain index) := by
  rcases h.changeAt hchange hindex.left hindex.right rebuild with
    ⟨lists', chain', pre, post, hrun, hinv, _, hsplit, hseq, hord, _⟩
  unfold StaticList.modifyByIndex
  rw [if_neg (by lia), hrun]
  exact ⟨lists', chain', rfl, hinv, ⟨pre, post, hsplit, hseq⟩, fun _ => hord hrebuild⟩

theorem ListInv.pushOutcome (h : ListInv lists chain) (hfull : lists.size < MAXSIZE)
    (id : Int) (name : Name) :
    Outcome lists (StaticList.pushStudent lists id name) True
      fun after => after = (id, name) :: sequence lists chain := by
  rcases h.pushStudent hfull id name with ⟨lists', chain', hrun, hinv, _, hseq, hord, _⟩
  exact ⟨lists', chain', hrun, hinv, hseq, fun _ => hord⟩

/-- Every operation returns, keeps the list well formed, has its effect on the
sequence, and all but `insertListAtHead` keep the heap order. -/
theorem ListInv.exec (h : ListInv lists chain) {op : ListOp} (hop : op.Allowed lists) :
    Outcome lists (op.exec lists) (forall stu, op ≠ ListOp.insertListAtHead stu)
      (fun after => op.Effect lists chain after) := by
  have hweaken : forall {result effect}, Outcome lists result True effect ->
      Outcome lists result (forall stu, op ≠ ListOp.insertListAtHead stu) effect := by
    intro result effect hout
    rcases hout with ⟨lists', chain', hrun, hinv, heffect, hord⟩
    exact ⟨lists', chain', hrun, hinv, heffect, fun _ => hord trivial⟩
  cases op with
  | insertListAtHead stu =>
      rcases h.insertListAtHead hop stu with ⟨lists', chain', hrun, hinv, _, hseq⟩
      exact ⟨lists', chain', hrun, hinv, hseq, fun hne => absurd rfl (hne stu)⟩
  | initialHeap =>
      rcases h.initialHeap with ⟨lists', chain', hrun, hinv, _, hseq, hord, _⟩
      exact ⟨lists', chain', hrun, hinv, hseq, fun _ _ => hord⟩
  | pushHeap stu => exact hweaken (h.pushOutcome hop stu.id stu.name)
  | pushHeapByIdAndName id name => exact hweaken (h.pushOutcome hop id name)
  | popHeap =>
      by_cases hempty : lists.size = 0
      · refine ⟨lists, chain, ?_, h, Or.inl ⟨hempty, rfl⟩, fun _ hord => hord⟩
        exact if_pos hempty
      · have hnonneg := h.size_nonneg
        rcases h.popHeap (by lia) with
          ⟨lists', chain', pre, post, hrun, hinv, _, hsplit, hseq, hord, _⟩
        rw [sequence_append] at hseq
        exact ⟨lists', chain', hrun, hinv, Or.inr ⟨pre, post, hsplit, hseq⟩, fun _ => hord⟩
  | modifyId stu id => exact hweaken (h.modifyFound (changes_setId id) stu true (Or.inl rfl))
  | modifyName stu name =>
      exact hweaken (h.modifyFound (changes_setName name) stu false (Or.inr fun _ => rfl))
  | modifyIdAndName stu id name =>
      exact hweaken (h.modifyFound (changes_setIdAndName id name) stu true (Or.inl rfl))
  | modifyIdByIndex index id =>
      exact hweaken (h.modifyByIndex (changes_setId id) true (Or.inl rfl) hop)
  | modifyNameByIndex index name =>
      exact hweaken (h.modifyByIndex (changes_setName name) false (Or.inr fun _ => rfl) hop)
  | modifyIdAndNameByIndex index id name =>
      exact hweaken (h.modifyByIndex (changes_setIdAndName id name) true (Or.inl rfl) hop)

end Step

/-!
# Reading the list
-/

def Follows (lists : StaticLinkList) : Int -> List Int -> Prop
  | i, [] => i = -1
  | i, x :: xs => i = x ∧ Follows lists (lists.list x).nextNode xs

/-- The links of a well-formed list, in terms of its fields alone. -/
structure ListShape (lists : StaticLinkList) (chain : List Int) : Prop where
  follows : Follows lists lists.headIndex chain
  visits_once : chain.Nodup
  visits_all : forall i, i ∈ chain <-> 0 ≤ i ∧ i < lists.size
  inverse : forall i j, i ∈ chain -> j ∈ chain ->
    ((lists.list i).nextNode = j <-> (lists.list j).preNode = i)
  first : forall i, i ∈ chain -> ((lists.list i).preNode = -1 <-> lists.headIndex = i)
  top : topStack lists.unusedIndexs =
    some (if lists.size = MAXSIZE then -1 else lists.size)

section Shape

variable {lists : StaticLinkList} {m : Int} {chain : List Int}

theorem Threaded.follows (h : Threaded lists m chain) :
    forall xs ys, chain = xs ++ ys -> Follows lists (firstTo ys (-1)) ys := by
  intro xs ys
  induction ys generalizing xs with
  | nil =>
      intro _
      rfl
  | cons y ys ih =>
      intro hsplit
      refine ⟨rfl, ?_⟩
      rw [h.wellLinked.nextNode_at hsplit]
      exact ih (xs ++ [y]) (by simp [hsplit])

theorem ListInv.shape (h : ListInv lists chain) : ListShape lists chain := by
  constructor
  · rw [h.head]
    exact h.threaded.follows [] chain rfl
  · exact h.threaded.ring.nodes_nodup
  · exact h.threaded.mem_iff
  · intro i j hi hj
    exact h.threaded.wellLinked.nextNode_iff hi hj
  · intro i hi
    rw [h.head]
    exact h.threaded.wellLinked.preNode_header_iff hi
  · exact h.stack.topStack_eq h.size_nonneg h.threaded.bound

theorem Follows.unique {i : Int} {xs ys : List Int} (hx : Follows lists i xs)
    (hy : Follows lists i ys) (hxs : -1 ∉ xs) (hys : -1 ∉ ys) : xs = ys := by
  induction xs generalizing i ys with
  | nil =>
      cases ys with
      | nil => rfl
      | cons y ys =>
          have heq : y = -1 := hy.left.symm.trans hx
          exact absurd (heq ▸ List.mem_cons_self) hys
  | cons x xs ih =>
      cases ys with
      | nil =>
          have heq : x = -1 := hx.left.symm.trans hy
          exact absurd (heq ▸ List.mem_cons_self) hxs
      | cons y ys =>
          have heq : x = y := hx.left.symm.trans hy.left
          subst heq
          congr 1
          exact ih hx.right hy.right (fun hmem => hxs (List.mem_cons_of_mem _ hmem))
            (fun hmem => hys (List.mem_cons_of_mem _ hmem))

theorem ListShape.unique {chain' : List Int} (h : ListShape lists chain)
    (h' : ListShape lists chain') : chain' = chain := by
  apply h'.follows.unique h.follows
  · intro hmem
    have hrange := (h'.visits_all (-1)).mp hmem
    lia
  · intro hmem
    have hrange := (h.visits_all (-1)).mp hmem
    lia

theorem printLoop_spec (h : Threaded lists m chain) (fuel : Nat) :
    forall x xs, (forall i, i ∈ x :: xs -> i ∈ chain) ->
      Follows lists (lists.list x).nextNode xs -> xs.length < fuel ->
      printLoop lists fuel x (lists.list x).nextNode = some ((x :: xs).map lists.list) := by
  induction fuel with
  | zero =>
      intro x xs _ _ hfuel
      exact absurd hfuel (Nat.not_lt_zero _)
  | succ fuel ih =>
      intro x xs hsub hfollows hfuel
      have hx := h.inBounds (hsub x List.mem_cons_self)
      unfold printLoop
      rw [node_eq hx, Option.bind_eq_bind, Option.bind_some]
      cases xs with
      | nil =>
          have hend : (lists.list x).nextNode = -1 := hfollows
          rw [if_pos hend]
          rfl
      | cons y ys =>
          have hy := hsub y (by simp)
          rw [hfollows.left, if_neg (h.wellLinked.ne_header hy), node_eq (h.inBounds hy)]
          have hrest := ih y ys (fun i hi => hsub i (List.mem_cons_of_mem _ hi))
            hfollows.right (by simp at hfuel; lia)
          rw [Option.bind_eq_bind, Option.bind_some, hrest]
          rfl

theorem Threaded.length_eq (h : Threaded lists m chain) : chain.length = m.toNat := by
  have hset : chain.toFinset = Finset.Ico 0 m := by
    ext i
    rw [List.mem_toFinset, h.mem_iff, Finset.mem_Ico]
  rw [← List.toFinset_card_of_nodup h.ring.nodes_nodup, hset, Int.card_Ico, Int.sub_zero]

theorem ListInv.printStaticLinkList (h : ListInv lists chain) :
    StaticList.printStaticLinkList lists = some (chain.map lists.list) := by
  have hlength := h.threaded.length_eq
  have hbound := h.threaded.bound
  have hfollows := h.shape.follows
  unfold StaticList.printStaticLinkList
  cases chain with
  | nil =>
      have hend : lists.headIndex = -1 := hfollows
      rw [if_pos hend]
      rfl
  | cons x xs =>
      have hx : x ∈ x :: xs := List.mem_cons_self
      rw [hfollows.left, if_neg (h.threaded.wellLinked.ne_header hx), node_eq (h.threaded.inBounds hx)]
      apply printLoop_spec h.threaded _ x xs (fun i hi => hi) hfollows.right
      simp at hlength
      lia

end Shape

/-!
# Whole runs
-/

theorem reachable_listInv {start s : StaticLinkList} (hs : (listSystem start).Reachable s) :
    exists chain, ListInv s chain := by
  apply hs.invariant
  · intro s hinit
    rcases initialStaticLinkList_spec start with ⟨s', hrun, hinv, _⟩
    change initialStaticLinkList start = some s at hinit
    rw [hrun] at hinit
    cases hinit
    exact ⟨[], hinv⟩
  · intro s op t hinv hstep
    rcases hinv with ⟨chain, hinv⟩
    rcases hinv.exec hstep.left with ⟨t', chain', hrun, hinv', _⟩
    have hsame := hstep.right
    rw [hrun] at hsame
    cases hsame
    exact ⟨chain', hinv'⟩

/-- The array indices are one doubly linked list in every state of every run, and
the operations act on the sequence of students as on an abstract list. -/
theorem list_order_refinement (start : StaticLinkList) :
    (exists s, (listSystem start).init s) ∧
    forall s, (listSystem start).Reachable s ->
      exists chain, ListShape s chain ∧ (forall other, ListShape s other -> other = chain) ∧
        printStaticLinkList s = some (chain.map s.list) ∧
        forall op : ListOp, op.Allowed s ->
          exists t chain', op.exec s = some t ∧ ListShape t chain' ∧
            op.Effect s chain (sequence t chain') := by
  constructor
  · rcases initialStaticLinkList_spec start with ⟨s, hrun, _⟩
    exact ⟨s, hrun⟩
  · intro s hs
    rcases reachable_listInv hs with ⟨chain, hinv⟩
    refine ⟨chain, hinv.shape, fun _ hother => hinv.shape.unique hother,
      hinv.printStaticLinkList, ?_⟩
    intro op hop
    rcases hinv.exec hop with ⟨t, chain', hrun, hinv', heffect, _⟩
    exact ⟨t, chain', hrun, hinv'.shape, heffect⟩

end StaticList
end OsLabs
