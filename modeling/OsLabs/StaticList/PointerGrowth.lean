import OsLabs.StaticList.HeapRuns
import OsLabs.StaticList.PointerAgreement

/-!
# Growing

`doubleSizeStaticLinkList` copies the records and the stack of unused indices into longer
arrays, and adds none of the new indices to the stack.  So the insertion that finds the list
full is given the index `-1`, as it would be without the longer arrays.
-/

namespace OsLabs
namespace StaticList
namespace Pointer

open Foundation
open Foundation.Links
open StaticLinkList

/-!
# A new list
-/

theorem initiateStackLoop_eq (k : Nat) :
    forall (i : Int) (stk : Stack),
      initiateStackLoop MAXSIZE k i stk = StaticList.initiateStackLoop k i stk := by
  induction k with
  | zero =>
      intro i stk
      rfl
  | succ k ih =>
      intro i stk
      have hset : forall value, setIndex MAXSIZE stk i value = stk.setIndex i value :=
        fun _ => rfl
      unfold initiateStackLoop StaticList.initiateStackLoop
      simp only [hset, ih]

theorem creatStaticLinkList_spec (fresh : Fresh) (stk : Stack) :
    exists s, creatStaticLinkList fresh MAXSIZE stk = some s ∧ s.maxsize = MAXSIZE ∧
      ListInv s.lists [] ∧ s.lists.size = 0 := by
  rcases initiateStack_spec { stk with index := fresh.index MAXSIZE } with ⟨stk', hrun, hinv⟩
  have hrun' : initiateStack fresh MAXSIZE stk = some stk' := by
    unfold initiateStack
    rw [initiateStackLoop_eq]
    exact hrun
  unfold creatStaticLinkList
  rw [hrun']
  exact ⟨_, rfl, rfl, ⟨le_refl 0, threaded_nil _, rfl, hinv⟩, rfl⟩

/-!
# One insertion
-/

section Insertion

variable {fresh : Fresh} {s t : PointerList} {chain : List Int}

theorem insertListAtHead_eq_fixed (fresh : Fresh) (hmax : s.maxsize = MAXSIZE) (hroom : s.lists.size < MAXSIZE)
    (stu : Student) :
    insertListAtHead fresh s stu =
      (StaticList.insertListAtHead s.lists stu).map fun lists => { s with lists := lists } := by
  have hne : ¬ s.lists.size = s.maxsize := by lia
  unfold insertListAtHead
  rw [if_neg hne]
  dsimp only
  rw [hmax]
  rfl

theorem topStack_doubled (h : ListInv s.lists chain)
    (hfull : s.lists.size = MAXSIZE) :
    topStack (doubleSizeStaticLinkList fresh s).maxsize
      (doubleSizeStaticLinkList fresh s).lists.unusedIndexs = some (-1) := by
  have htop := h.stack.top
  have hempty : s.lists.unusedIndexs.top = -1 := by lia
  exact if_pos hempty

theorem insertListAtHead_full (hmax : s.maxsize = MAXSIZE) (h : ListInv s.lists chain)
    (hfull : s.lists.size = MAXSIZE) (stu : Student) : insertListAtHead fresh s stu = none := by
  have heq : s.lists.size = s.maxsize := by lia
  have hmodify : forall (maxsize : Int) (lists : StaticLinkList) (f : Student -> Student),
      modifyNode maxsize lists (-1) f = none := by
    intro maxsize lists f
    exact if_neg (by lia)
  unfold insertListAtHead insertNode
  rw [if_pos heq]
  dsimp only
  rw [topStack_doubled h hfull, Option.bind_eq_bind, Option.bind_some]
  simp only [hmodify]
  rfl

theorem insertListAtHead_room (hmax : s.maxsize = MAXSIZE) (h : ListInv s.lists chain)
    {stu : Student} (hrun : insertListAtHead fresh s stu = some t) : s.lists.size < MAXSIZE := by
  by_contra hroom
  have hbound := h.threaded.bound
  rw [insertListAtHead_full hmax h (by lia)] at hrun
  cases hrun

theorem insertListAtHead_spec (fresh : Fresh) (hmax : s.maxsize = MAXSIZE) (h : ListInv s.lists chain)
    (hroom : s.lists.size < MAXSIZE) (stu : Student) :
    exists t chain', insertListAtHead fresh s stu = some t ∧ t.maxsize = MAXSIZE ∧
      ListInv t.lists chain' ∧ t.lists.size = s.lists.size + 1 ∧
      sequence t.lists chain' = stu.entry :: sequence s.lists chain ∧
      t.lists.headIndex = s.lists.size ∧ (t.lists.list s.lists.size).entry = stu.entry := by
  rcases h.insertListAtHead hroom stu with ⟨lists', chain', hrun, hinv, hsize, hseq⟩
  refine ⟨{ s with lists := lists' }, chain', ?_, hmax, hinv, hsize, hseq, ?_⟩
  · rw [insertListAtHead_eq_fixed fresh hmax hroom, hrun]
    rfl
  · rw [h.insertListAtHead_eq hroom] at hrun
    cases hrun
    exact ⟨rfl, addedFront_new⟩

end Insertion

/-!
# Insertions one after the other
-/

section Insertions

variable {fresh : Fresh} {s t : PointerList} {chain : List Int}

theorem insertAll_spec (fresh : Fresh) (hmax : s.maxsize = MAXSIZE) (h : ListInv s.lists chain)
    (stus : List Student) (hroom : s.lists.size + stus.length ≤ MAXSIZE) :
    exists t chain', insertAll fresh s stus = some t ∧ t.maxsize = MAXSIZE ∧
      ListInv t.lists chain' ∧ t.lists.size = s.lists.size + stus.length ∧
      sequence t.lists chain' = (stus.map Student.entry).reverse ++ sequence s.lists chain := by
  induction stus generalizing s chain with
  | nil => exact ⟨s, chain, rfl, hmax, h, by simp, by simp⟩
  | cons stu stus ih =>
      rw [List.length_cons] at hroom
      rcases insertListAtHead_spec fresh hmax h (by lia) stu with
        ⟨u, chain1, hstep, hmaxu, hu, hsize, hseq, _⟩
      rcases ih hmaxu hu (by lia) with ⟨t, chain', hrun, hmaxt, ht, hsize', hseq'⟩
      refine ⟨t, chain', ?_, hmaxt, ht, ?_, ?_⟩
      · change (insertListAtHead fresh s stu).bind _ = _
        rw [hstep, Option.bind_some]
        exact hrun
      · rw [List.length_cons]
        lia
      · rw [hseq', hseq]
        simp

theorem insertAll_room (hmax : s.maxsize = MAXSIZE) (h : ListInv s.lists chain)
    {stus : List Student} (hrun : insertAll fresh s stus = some t) :
    s.lists.size + stus.length ≤ MAXSIZE := by
  induction stus generalizing s chain with
  | nil =>
      have hbound := h.threaded.bound
      simpa using hbound
  | cons stu stus ih =>
      rcases Option.bind_eq_some_iff.mp hrun with ⟨u, hstep, hrest⟩
      have hroom := insertListAtHead_room hmax h hstep
      rcases insertListAtHead_spec fresh hmax h hroom stu with
        ⟨u', chain1, hstep', hmaxu, hu, hsize, _⟩
      rw [hstep] at hstep'
      cases hstep'
      have hle := ih hmaxu hu hrest
      rw [List.length_cons]
      lia

end Insertions

/-!
# What growing promises
-/

structure Chained (s : PointerList) (chain : List Int) : Prop where
  follows : Follows s.lists s.lists.headIndex chain
  visits_once : chain.Nodup
  inBounds : forall i, i ∈ chain -> 0 ≤ i ∧ i < s.maxsize

def StoresFresh (s : PointerList) (stu : Student) (t : PointerList) : Prop :=
  exists chain index, Chained s chain ∧ index ∉ chain ∧ 0 ≤ index ∧ index < t.maxsize ∧
    t.lists.headIndex = index ∧ (t.lists.list index).entry = stu.entry

/-- The students are inserted one after the other, each at a fresh index, and in the end the
list holds them in reverse order. -/
structure Grows (fresh : Fresh) (s : PointerList) (stus : List Student) : Prop where
  stores : forall pre stu, pre ++ [stu] <+: stus -> exists u t,
    insertAll fresh s pre = some u ∧ insertListAtHead fresh u stu = some t ∧
      StoresFresh u stu t
  holds : exists t chain, insertAll fresh s stus = some t ∧ t.lists.size = stus.length ∧
    Chained t chain ∧ sequence t.lists chain = (stus.map Student.entry).reverse

theorem chained_of_listInv {s : PointerList} {chain : List Int} (hmax : s.maxsize = MAXSIZE)
    (h : ListInv s.lists chain) : Chained s chain := by
  have hshape := h.shape
  have hbound := h.threaded.bound
  refine ⟨hshape.follows, hshape.visits_once, ?_⟩
  intro i hi
  have hrange := (hshape.visits_all i).mp hi
  lia

/-- The list of the source starts with room for 1024 students, and insertions work exactly up
to that number. -/
theorem growth_exact (fresh : Fresh) (stk : Stack) (stus : List Student) :
    exists s, creatStaticLinkList fresh MAXSIZE stk = some s ∧
      (Grows fresh s stus <-> (stus.length : Int) ≤ MAXSIZE) := by
  rcases creatStaticLinkList_spec fresh stk with ⟨s, hrun, hmax, hinv, hsize⟩
  refine ⟨s, hrun, ?_⟩
  constructor
  · intro hgrows
    rcases hgrows.holds with ⟨t, chain, hall, _⟩
    have hroom := insertAll_room hmax hinv hall
    lia
  · intro hroom
    constructor
    · intro pre stu hprefix
      have hlength := hprefix.length_le
      rw [List.length_append, List.length_singleton] at hlength
      rcases insertAll_spec fresh hmax hinv pre (by lia) with
        ⟨u, chain, hall, hmaxu, hu, hsizeu, _⟩
      rcases insertListAtHead_spec fresh hmaxu hu (by lia) stu with
        ⟨t, chain', hstep, hmaxt, _, _, _, hhead, hentry⟩
      have hnonneg := hu.size_nonneg
      exact ⟨u, t, hall, hstep, chain, u.lists.size, chained_of_listInv hmaxu hu,
        hu.size_not_mem, hnonneg, by lia, hhead, hentry⟩
    · rcases insertAll_spec fresh hmax hinv stus (by lia) with
        ⟨t, chain, hall, hmaxt, ht, hsizet, hseq⟩
      refine ⟨t, chain, hall, by lia, chained_of_listInv hmaxt ht, ?_⟩
      rw [hseq]
      exact List.append_nil _

def blankMemory : Fresh where
  list := fun _ => blankList.list
  index := fun _ _ => 0

/-- The insertion after the 1024th doubles the arrays, and is given the index `-1`. -/
theorem insertion_after_doubling :
    exists s u, creatStaticLinkList blankMemory MAXSIZE blankList.unusedIndexs = some s ∧
      insertAll blankMemory s (List.replicate 1024 (numberedStudent 1 0)) = some u ∧
      u.lists.size = u.maxsize ∧ (doubleSizeStaticLinkList blankMemory u).maxsize = 2048 ∧
      topStack (doubleSizeStaticLinkList blankMemory u).maxsize
        (doubleSizeStaticLinkList blankMemory u).lists.unusedIndexs = some (-1) ∧
      insertListAtHead blankMemory u (numberedStudent 1 0) = none ∧
      ¬ Grows blankMemory s (List.replicate 1025 (numberedStudent 1 0)) := by
  have hmax : MAXSIZE = 1024 := rfl
  rcases creatStaticLinkList_spec blankMemory blankList.unusedIndexs with
    ⟨s, hrun, hmaxs, hs, hsize⟩
  have hlength : (List.replicate 1024 (numberedStudent 1 0)).length = 1024 :=
    List.length_replicate
  rcases insertAll_spec blankMemory hmaxs hs
    (List.replicate 1024 (numberedStudent 1 0)) (by lia) with
    ⟨u, chain, hall, hmaxu, hu, hsizeu, _⟩
  have hfull : u.lists.size = MAXSIZE := by lia
  refine ⟨s, u, hrun, hall, by lia, ?_, topStack_doubled hu hfull,
    insertListAtHead_full hmaxu hu hfull _, ?_⟩
  · change u.maxsize * 2 = 2048
    lia
  · intro hgrows
    rcases hgrows.holds with ⟨t, chain', hall', _⟩
    have hroom := insertAll_room hmaxs hs hall'
    rw [List.length_replicate] at hroom
    lia

end Pointer
end StaticList
end OsLabs
