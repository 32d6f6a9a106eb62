import OsLabs.StaticList.Sifting

/-!
# The invariant of the static list, and adding in front

A well-formed list is threaded through all the indices below its size, and the
stack holds the remaining indices in descending order, so that the next unused
index is the size.
-/

namespace OsLabs
namespace StaticList

open Foundation
open Foundation.Links
open StaticLinkList

theorem MAXSIZE_pos : 0 < MAXSIZE := by decide

abbrev Entry := Int × Name

def Student.entry (stu : Student) : Entry := (stu.id, stu.name)

theorem entry_of_data {stu stu' : Student} (h : stu.data = stu'.data) :
    stu.entry = stu'.entry := congrArg Prod.snd h

def sequence (lists : StaticLinkList) (chain : List Int) : List Entry :=
  chain.map fun i => (lists.list i).entry

theorem sequence_append (lists : StaticLinkList) (xs ys : List Int) :
    sequence lists (xs ++ ys) = sequence lists xs ++ sequence lists ys := List.map_append

theorem sequence_cons (lists : StaticLinkList) (x : Int) (xs : List Int) :
    sequence lists (x :: xs) = (lists.list x).entry :: sequence lists xs := rfl

theorem sequence_congr {lists lists' : StaticLinkList} {chain : List Int}
    (h : forall i, i ∈ chain -> (lists'.list i).entry = (lists.list i).entry) :
    sequence lists' chain = sequence lists chain := List.map_congr_left h

/-- The stack holds the indices from `size` on, the lowest on top. -/
structure StackInv (stk : Stack) (size : Int) : Prop where
  top : stk.top = MAXSIZE - 1 - size
  index : forall i, InBounds i -> stk.index i = MAXSIZE - 1 - i

structure ListInv (lists : StaticLinkList) (chain : List Int) : Prop where
  size_nonneg : 0 ≤ lists.size
  threaded : Threaded lists lists.size chain
  head : lists.headIndex = firstTo chain (-1)
  stack : StackInv lists.unusedIndexs lists.size

def HeapOrdered (lists : StaticLinkList) : Prop := HeapFrom (ids lists) lists.size 0

/-!
# The stack
-/

theorem initiateStackLoop_spec (k : Nat) :
    forall (i : Int) (stk : Stack), 0 ≤ i -> i + k = MAXSIZE ->
      (forall j, 0 ≤ j -> j < i -> stk.index j = MAXSIZE - 1 - j) ->
      exists stk', initiateStackLoop k i stk = some stk' ∧ StackInv stk' 0 := by
  induction k with
  | zero =>
      intro i stk _ hi hdone
      refine ⟨_, rfl, ?_, ?_⟩
      · simp
      · intro j hj
        unfold InBounds at hj
        exact hdone j hj.left (by lia)
  | succ k ih =>
      intro i stk hnonneg hi hdone
      have hin : InBounds i := by
        unfold InBounds
        lia
      unfold initiateStackLoop Stack.setIndex
      rw [if_pos hin, Option.bind_eq_bind, Option.bind_some]
      apply ih (i + 1) _ (by lia) (by lia)
      intro j hj hlt
      change Function.update stk.index i (MAXSIZE - i - 1) j = _
      rw [Function.update_apply]
      split
      · lia
      · exact hdone j hj (by lia)

theorem initiateStack_spec (stk : Stack) :
    exists stk', initiateStack stk = some stk' ∧ StackInv stk' 0 := by
  apply initiateStackLoop_spec MAXSIZE.toNat 0 stk (le_refl 0)
  · have hpos := MAXSIZE_pos
    lia
  · intro j hj hlt
    lia

theorem StackInv.topStack_eq {stk : Stack} {size : Int} (h : StackInv stk size)
    (hnonneg : 0 ≤ size) (hsize : size ≤ MAXSIZE) :
    topStack stk = some (if size = MAXSIZE then -1 else size) := by
  unfold topStack Stack.getIndex
  rw [h.top]
  by_cases hfull : size = MAXSIZE
  · rw [if_pos (by lia), if_pos hfull]
  · have hin : InBounds (MAXSIZE - 1 - size) := by
      unfold InBounds
      lia
    rw [if_neg (by lia), if_neg hfull, if_pos hin, h.index _ hin]
    congr 1
    lia

theorem StackInv.popStack {stk : Stack} {size : Int} (h : StackInv stk size)
    (hsize : size < MAXSIZE) : StackInv (StaticList.popStack stk) (size + 1) := by
  unfold StaticList.popStack
  have htop := h.top
  rw [if_neg (by lia)]
  constructor
  · change stk.top - 1 = _
    lia
  · exact h.index

theorem StackInv.pushStack {stk : Stack} {size : Int} (h : StackInv stk (size + 1))
    (hnonneg : 0 ≤ size) (hsize : size < MAXSIZE) :
    exists stk', StaticList.pushStack stk size = some stk' ∧ StackInv stk' size := by
  have htop := h.top
  have hin : InBounds (stk.top + 1) := by
    unfold InBounds
    lia
  unfold StaticList.pushStack Stack.setIndex
  rw [if_pos hin]
  refine ⟨_, rfl, ?_, ?_⟩
  · change stk.top + 1 = _
    lia
  · intro i hi
    change Function.update stk.index (stk.top + 1) size i = _
    rw [Function.update_apply]
    split
    · lia
    · exact h.index i hi

/-!
# The empty list
-/

theorem ring_nil (lists : StaticLinkList) : Ring (heapLinks lists []) (-1) [] := by
  constructor
  · exact List.nodup_singleton (-1)
  · change List.IsChain _ [-1, -1]
    rw [List.isChain_cons_cons]
    exact ⟨⟨rfl, rfl⟩, List.IsChain.singleton (-1)⟩

theorem threaded_nil (lists : StaticLinkList) : Threaded lists 0 [] := by
  constructor
  · exact le_of_lt MAXSIZE_pos
  · intro i
    simp
  · exact ring_nil lists

theorem initialStaticLinkList_spec (lists : StaticLinkList) :
    exists lists', initialStaticLinkList lists = some lists' ∧ ListInv lists' [] ∧
      lists'.size = 0 := by
  rcases initiateStack_spec lists.unusedIndexs with ⟨stk, hstk, hinv⟩
  unfold initialStaticLinkList
  rw [hstk]
  exact ⟨_, rfl, ⟨le_refl 0, threaded_nil _, rfl, hinv⟩, rfl⟩

/-!
# Exchanges keep the invariant
-/

section Exchanges

variable {lists lists' : StaticLinkList} {m n : Int} {chain : List Int} {f : Equiv.Perm Int}

theorem Renamed.entry_eq (h : Renamed m n chain f lists lists') (x : Int) :
    (lists'.list (f x)).entry = (lists.list x).entry :=
  congrArg Prod.snd (h.data x)

theorem Renamed.sequence_map (h : Renamed m n chain f lists lists') (xs : List Int) :
    sequence lists' (xs.map f) = sequence lists xs := by
  unfold sequence
  rw [List.map_map]
  apply List.map_congr_left
  intro x _
  exact h.entry_eq x

theorem ListInv.renamed (h : ListInv lists chain)
    (hren : Renamed lists.size lists.size chain f lists lists') :
    ListInv lists' (chain.map f) := by
  constructor
  · rw [hren.size]
    exact h.size_nonneg
  · rw [hren.size]
    exact hren.threaded
  · exact hren.head h.head
  · rw [hren.size, hren.unusedIndexs]
    exact h.stack

end Exchanges

/-!
# Adding a student in front
-/

def addedFront (lists : StaticLinkList) (index id : Int) (name : Name) : StaticLinkList :=
  let stu := { flag := 1, id := id, name := name, preNode := -1, nextNode := lists.headIndex }
  let lists := preIf (lists.headIndex ≠ -1) (lists.put index stu) lists.headIndex index
  { lists with size := lists.size + 1, unusedIndexs := popStack lists.unusedIndexs }

section AddedFront

variable {lists : StaticLinkList} {chain : List Int} {id : Int} {name : Name}

theorem addedFront_list (index x : Int) :
    (addedFront lists index id name).list x =
      (preIf (lists.headIndex ≠ -1)
        (lists.put index ⟨1, id, name, -1, lists.headIndex⟩) lists.headIndex index).list x :=
  rfl

theorem addedFront_size (index : Int) :
    (addedFront lists index id name).size = lists.size + 1 := by
  simp [addedFront, put]

theorem ListInv.size_not_mem (h : ListInv lists chain) : lists.size ∉ chain := by
  intro hmem
  have hrange := (h.threaded.mem_iff _).mp hmem
  lia

theorem ListInv.head_ne_size (h : ListInv lists chain) : lists.headIndex ≠ lists.size := by
  intro heq
  have hmem := firstTo_mem chain (-1)
  rw [← h.head, heq] at hmem
  cases List.mem_cons.mp hmem with
  | inl hbad =>
      have hnonneg := h.size_nonneg
      lia
  | inr hbad => exact h.size_not_mem hbad

theorem addedFront_data {x : Int} (hne : x ≠ lists.size) :
    ((addedFront lists lists.size id name).list x).data = (lists.list x).data := by
  rw [addedFront_list, preIf_data, put_list, if_neg hne]

theorem addedFront_new_data :
    ((addedFront lists lists.size id name).list lists.size).data = (1, id, name) := by
  rw [addedFront_list, preIf_data, put_list, if_pos rfl]
  rfl

theorem addedFront_entry (h : ListInv lists chain) {x : Int} (hx : x ∈ chain) :
    ((addedFront lists lists.size id name).list x).entry = (lists.list x).entry := by
  apply entry_of_data
  apply addedFront_data
  intro heq
  exact h.size_not_mem (heq ▸ hx)

theorem addedFront_new :
    ((addedFront lists lists.size id name).list lists.size).entry = (id, name) :=
  congrArg Prod.snd addedFront_new_data

theorem addedFront_nextNode (x : Int) :
    ((addedFront lists lists.size id name).list x).nextNode =
      if x = lists.size then lists.headIndex else (lists.list x).nextNode := by
  rw [addedFront_list, preIf_nextNode, put_list]
  split
  · rfl
  · rfl

theorem addedFront_preNode (x : Int) :
    ((addedFront lists lists.size id name).list x).preNode =
      if lists.headIndex ≠ -1 ∧ x = lists.headIndex then lists.size
      else if x = lists.size then -1 else (lists.list x).preNode := by
  rw [addedFront_list, preIf_preNode, put_list]
  split
  · rfl
  · split
    · rfl
    · rfl

theorem ListInv.threaded_addedFront (h : ListInv lists chain) (hfull : lists.size < MAXSIZE)
    (id : Int) (name : Name) :
    Threaded (addedFront lists lists.size id name) (lists.size + 1) (lists.size :: chain) := by
  have hnonneg := h.size_nonneg
  have hnew : lists.size ≠ -1 := by lia
  have hhead := h.head_ne_size
  constructor
  · lia
  · intro i
    rw [List.mem_cons, h.threaded.mem_iff]
    lia
  · have hring : Ring (heapLinks lists chain) (-1) ([] ++ chain) := h.threaded.ring
    have hrest : forall {c}, c ∈ -1 :: ([] ++ chain) -> c ≠ lists.size := by
      intro c hc heq
      cases List.mem_cons.mp hc with
      | inl hbad => exact hnew (heq ▸ hbad)
      | inr hin => exact h.size_not_mem (heq ▸ hin)
    have hfresh : lists.size ∉ -1 :: ([] ++ chain) := fun hmem => hrest hmem rfl
    apply hring.insert_of hfresh
    · constructor
      · rfl
      · simp [heapLinks, hnew, addedFront_preNode, hhead.symm]
    · constructor
      · simp [heapLinks, hnew, addedFront_nextNode, h.head]
      · cases chain with
        | nil => rfl
        | cons first rest =>
            have hfirst := h.threaded.wellLinked.ne_header List.mem_cons_self
            have hindex : lists.headIndex = first := h.head
            simp [heapLinks, hfirst, addedFront_preNode, hindex]
    · intro c hc hne
      have hc1 : c ≠ -1 := hne
      simp [heapLinks, hc1, addedFront_nextNode, hrest hc]
    · intro c hc hne
      by_cases hc1 : c = -1
      · subst hc1
        cases chain with
        | nil => exact absurd rfl hne
        | cons first rest => simp [heapLinks, lastFrom]
      · rw [← h.head] at hne
        simp [heapLinks, hc1, addedFront_preNode, hne, hrest hc]

theorem ListInv.addedFront_stack (h : ListInv lists chain) (hfull : lists.size < MAXSIZE) :
    StackInv (addedFront lists lists.size id name).unusedIndexs (lists.size + 1) := by
  have hstack := h.stack.popStack hfull
  simpa [addedFront, put] using hstack

theorem ListInv.topStack_eq (h : ListInv lists chain) (hfull : lists.size < MAXSIZE) :
    topStack lists.unusedIndexs = some lists.size := by
  rw [h.stack.topStack_eq h.size_nonneg (le_of_lt hfull), if_neg (by lia)]

theorem ListInv.size_inBounds (h : ListInv lists chain) (hfull : lists.size < MAXSIZE) :
    InBounds lists.size := ⟨h.size_nonneg, hfull⟩

theorem ListInv.head_inBounds (h : ListInv lists chain) (hne : lists.headIndex ≠ -1) :
    InBounds lists.headIndex := by
  have hmem := firstTo_mem chain (-1)
  rw [← h.head] at hmem
  exact h.threaded.wellLinked.link_inBounds hmem hne

theorem ListInv.insertListAtHead_eq (h : ListInv lists chain) (hfull : lists.size < MAXSIZE)
    (stu : Student) :
    insertListAtHead lists stu =
      some { addedFront lists lists.size stu.id stu.name with headIndex := lists.size } := by
  have hin := h.size_inBounds hfull
  unfold insertListAtHead
  rw [h.topStack_eq hfull, Option.bind_eq_bind, Option.bind_some]
  simp only [Option.bind_eq_bind, setPreNode_eq hin, setNextNode_eq hin, modifyNode_eq hin,
    Option.bind_some, put_put, put_self, put_headIndex]
  rw [preIf_eq _ _ _ _ h.head_inBounds, Option.bind_some]
  unfold addedFront preIf
  by_cases hempty : lists.headIndex = -1
  · simp [hempty, put]
  · simp [hempty, put]

theorem ListInv.insertListAtHead (h : ListInv lists chain) (hfull : lists.size < MAXSIZE)
    (stu : Student) :
    exists lists' chain', StaticList.insertListAtHead lists stu = some lists' ∧
      ListInv lists' chain' ∧ lists'.size = lists.size + 1 ∧
      sequence lists' chain' = stu.entry :: sequence lists chain := by
  have hsize : (addedFront lists lists.size stu.id stu.name).size = lists.size + 1 :=
    addedFront_size lists.size
  refine ⟨_, lists.size :: chain, h.insertListAtHead_eq hfull stu, ?_, hsize, ?_⟩
  · constructor
    · have hnonneg := h.size_nonneg
      change 0 ≤ (addedFront lists lists.size stu.id stu.name).size
      lia
    · change Threaded _ (addedFront lists lists.size stu.id stu.name).size _
      rw [hsize]
      exact (h.threaded_addedFront hfull _ _).congr (fun _ _ => rfl) (fun _ _ => rfl)
    · rfl
    · change StackInv _ (addedFront lists lists.size stu.id stu.name).size
      rw [hsize]
      exact h.addedFront_stack hfull
  · rw [sequence_cons]
    congr 1
    · exact addedFront_new
    · apply sequence_congr
      intro i hi
      exact addedFront_entry h hi

theorem addedFront_ids (h : ListInv lists chain) {x : Int} (hx : x ∈ chain) :
    ids (addedFront lists lists.size id name) x = ids lists x :=
  congrArg Prod.fst (addedFront_entry h hx)

theorem ListInv.pushStudent_eq (h : ListInv lists chain) (hfull : lists.size < MAXSIZE) :
    pushStudent lists id name =
      (pushHeapLoop id (MAXSIZE.toNat + 1) (addedFront lists lists.size id name)
        lists.size).bind fun (heap, child) => some { heap with headIndex := child } := by
  have hin := h.size_inBounds hfull
  have hne := h.head_ne_size
  unfold pushStudent
  rw [h.topStack_eq hfull, Option.bind_eq_bind, Option.bind_some]
  simp only [Option.bind_eq_bind, setNextNode_eq hin, modifyNode_eq hin,
    Option.bind_some, put_put, put_self, put_headIndex]
  rw [preIf_eq _ _ _ _ h.head_inBounds, Option.bind_some]
  simp only [setPreNode_eq hin, Option.bind_some, put_put, put_self, put_headIndex]
  congr 2
  unfold addedFront preIf
  by_cases hempty : lists.headIndex = -1
  · simp [hempty, put]
  · simp [hempty, put, hne, hne.symm]
    rw [Function.update_comm hne, Function.update_idem]

theorem ListInv.pushStudent (h : ListInv lists chain) (hfull : lists.size < MAXSIZE)
    (id : Int) (name : Name) :
    exists lists' chain', StaticList.pushStudent lists id name = some lists' ∧
      ListInv lists' chain' ∧ lists'.size = lists.size + 1 ∧
      sequence lists' chain' = (id, name) :: sequence lists chain ∧
      (HeapOrdered lists -> HeapOrdered lists') ∧
      exists f, Moved (lists.size + 1) f (addedFront lists lists.size id name) lists' := by
  have hnonneg := h.size_nonneg
  have hthr := h.threaded_addedFront hfull id name
  rcases pushHeapLoop_spec id (MAXSIZE.toNat + 1) _ _ lists.size hthr hnonneg (by lia)
    (by lia) with ⟨heap, f, hrun, hren, horder⟩
  have hsize : heap.size = lists.size + 1 := by
    rw [hren.size]
    exact addedFront_size lists.size
  refine ⟨{ heap with headIndex := f lists.size }, (lists.size :: chain).map f, ?_, ?_, hsize,
    ?_, ?_, f, hren.fixes, hren.data⟩
  · rw [h.pushStudent_eq hfull, hrun]
    rfl
  · constructor
    · change 0 ≤ heap.size
      lia
    · change Threaded _ heap.size _
      rw [hsize]
      exact hren.threaded.congr (fun _ _ => rfl) (fun _ _ => rfl)
    · rfl
    · change StackInv heap.unusedIndexs heap.size
      rw [hsize, hren.unusedIndexs]
      exact h.addedFront_stack hfull
  · change sequence heap _ = _
    rw [hren.sequence_map, sequence_cons, addedFront_new]
    congr 1
    apply sequence_congr
    intro i hi
    exact addedFront_entry h hi
  · intro hordered
    change HeapFrom (ids heap) heap.size 0
    rw [hsize]
    apply horder
    · exact congrArg Prod.fst addedFront_new
    · apply hordered.upOrder hnonneg
      intro i hi hlt
      exact addedFront_ids h ((h.threaded.mem_iff i).mpr ⟨hi, hlt⟩)

end AddedFront

end StaticList
end OsLabs
