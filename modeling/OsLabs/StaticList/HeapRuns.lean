import OsLabs.StaticList.Runs

/-!
# The heap along every run

Students are inserted, `initialHeap` orders them, and from then on every
operation of the heap keeps the order.  So the root is always a least student,
and popping returns the students in order.
-/

namespace OsLabs
namespace StaticList

open Foundation
open Foundation.Links
open StaticLinkList

def contents (heap : StaticLinkList) : List Entry :=
  (List.range heap.size.toNat).map fun k : Nat => (heap.list (k : Int)).entry

section Contents

variable {heap : StaticLinkList} {chain : List Int}

theorem ListInv.contents_perm (h : ListInv heap chain) :
    (contents heap).Perm (sequence heap chain) := by
  have hindices : ((List.range heap.size.toNat).map fun k : Nat => (k : Int)).Perm chain := by
    rw [List.perm_ext_iff_of_nodup _ h.threaded.ring.nodes_nodup]
    · intro i
      rw [h.threaded.mem_iff, List.mem_map]
      constructor
      · intro hmem
        rcases hmem with ⟨k, hk, heq⟩
        have hlt := List.mem_range.mp hk
        subst heq
        exact ⟨Int.natCast_nonneg k, by lia⟩
      · intro hrange
        exact ⟨i.toNat, List.mem_range.mpr (by lia), Int.toNat_of_nonneg hrange.left⟩
    · exact List.nodup_range.map Nat.cast_injective
  have hmap := hindices.map fun i => (heap.list i).entry
  rw [List.map_map] at hmap
  exact hmap

theorem ListInv.root_mem (h : ListInv heap chain) (hsize : 0 < heap.size) :
    (heap.list 0).entry ∈ contents heap := by
  rw [h.contents_perm.mem_iff]
  exact List.mem_map_of_mem ((h.threaded.mem_iff 0).mpr ⟨le_refl 0, hsize⟩)

theorem HeapOrdered.root_le (hord : HeapOrdered heap) {e : Entry} (he : e ∈ contents heap) :
    (heap.list 0).id ≤ e.1 := by
  rcases List.mem_map.mp he with ⟨k, hk, heq⟩
  have hlt := List.mem_range.mp hk
  rw [← heq]
  exact HeapFrom.root_le hord (Int.natCast_nonneg k) (by lia)

end Contents

/-!
# What the operations do to the stored students
-/

/-- One entry `e` is replaced, if there is one. -/
def ReplacedEntry (g : Entry -> Entry) (e : Entry) (before after : List Entry) : Prop :=
  (e ∉ before ∧ after.Perm before) ∨
    exists rest, before.Perm (e :: rest) ∧ after.Perm (g e :: rest)

def ListOp.HeapEffect (heap : StaticLinkList) (after : List Entry) : ListOp -> Prop
  | insertListAtHead stu => after.Perm (stu.entry :: contents heap)
  | initialHeap => after.Perm (contents heap)
  | pushHeap stu => after.Perm (stu.entry :: contents heap)
  | pushHeapByIdAndName id name => after.Perm ((id, name) :: contents heap)
  | popHeap =>
      (heap.size = 0 ∧ after.Perm (contents heap)) ∨
        exists e, (contents heap).Perm (e :: after) ∧ forall e', e' ∈ contents heap -> e.1 ≤ e'.1
  | modifyId stu id => ReplacedEntry (withId id) stu.entry (contents heap) after
  | modifyName stu name => ReplacedEntry (withName name) stu.entry (contents heap) after
  | modifyIdAndName stu id name =>
      ReplacedEntry (fun _ => (id, name)) stu.entry (contents heap) after
  | modifyIdByIndex index id =>
      exists rest, (contents heap).Perm ((heap.list index).entry :: rest) ∧
        after.Perm (withId id (heap.list index).entry :: rest)
  | modifyNameByIndex index name =>
      exists rest, (contents heap).Perm ((heap.list index).entry :: rest) ∧
        after.Perm (withName name (heap.list index).entry :: rest)
  | modifyIdAndNameByIndex index id name =>
      exists rest, (contents heap).Perm ((heap.list index).entry :: rest) ∧
        after.Perm ((id, name) :: rest)

section Effects

variable {heap : StaticLinkList} {chain : List Int} {after after' : List Entry}
  {g : Entry -> Entry}

theorem ChangedEntry.replaced {e : Entry} (h : ListInv heap chain)
    (hchange : ChangedEntry g e (sequence heap chain) after) (hafter : after'.Perm after) :
    ReplacedEntry g e (contents heap) after' := by
  have hperm := h.contents_perm
  cases hchange with
  | inl hnone =>
      refine Or.inl ⟨fun hmem => hnone.left (hperm.mem_iff.mp hmem), ?_⟩
      rw [hnone.right] at hafter
      exact hafter.trans hperm.symm
  | inr hfound =>
      rcases hfound with ⟨xs, ys, hbefore, hchanged⟩
      rw [hbefore] at hperm
      rw [hchanged] at hafter
      exact Or.inr ⟨xs ++ ys, hperm.trans List.perm_middle, hafter.trans List.perm_middle⟩

theorem ChangedAt.replaced {index : Int} (h : ListInv heap chain)
    (hchange : ChangedAt g heap chain index after) (hafter : after'.Perm after) :
    exists rest, (contents heap).Perm ((heap.list index).entry :: rest) ∧
      after'.Perm (g (heap.list index).entry :: rest) := by
  have hperm := h.contents_perm
  rcases hchange with ⟨pre, post, hsplit, hchanged⟩
  rw [hsplit, sequence_append, sequence_cons] at hperm
  rw [hchanged] at hafter
  exact ⟨_, hperm.trans List.perm_middle, hafter.trans List.perm_middle⟩

theorem ListInv.heapEffect (h : ListInv heap chain) (hord : HeapOrdered heap) {op : ListOp}
    (heffect : op.Effect heap chain after) (hafter : after'.Perm after) :
    op.HeapEffect heap after' := by
  have hperm := h.contents_perm
  cases op with
  | insertListAtHead stu =>
      rw [show after = _ from heffect] at hafter
      exact hafter.trans (hperm.symm.cons _)
  | initialHeap =>
      rw [show after = _ from heffect] at hafter
      exact hafter.trans hperm.symm
  | pushHeap stu =>
      rw [show after = _ from heffect] at hafter
      exact hafter.trans (hperm.symm.cons _)
  | pushHeapByIdAndName id name =>
      rw [show after = _ from heffect] at hafter
      exact hafter.trans (hperm.symm.cons _)
  | popHeap =>
      cases heffect with
      | inl hempty =>
          rw [hempty.right] at hafter
          exact Or.inl ⟨hempty.left, hafter.trans hperm.symm⟩
      | inr hremoved =>
          rcases hremoved with ⟨pre, post, hsplit, hseq⟩
          rw [hsplit, sequence_append, sequence_cons] at hperm
          rw [hseq] at hafter
          refine Or.inr ⟨(heap.list 0).entry, ?_, fun e he => hord.root_le he⟩
          exact (hperm.trans List.perm_middle).trans (hafter.symm.cons _)
  | modifyId stu id => exact ChangedEntry.replaced h heffect hafter
  | modifyName stu name => exact ChangedEntry.replaced h heffect hafter
  | modifyIdAndName stu id name =>
      exact ChangedEntry.replaced (g := fun _ => (id, name)) h heffect hafter
  | modifyIdByIndex index id => exact ChangedAt.replaced h heffect hafter
  | modifyNameByIndex index name => exact ChangedAt.replaced h heffect hafter
  | modifyIdAndNameByIndex index id name =>
      exact ChangedAt.replaced (g := fun _ => (id, name)) h heffect hafter

end Effects

/-!
# Popping until the heap is empty
-/

theorem drainHeap_spec (k : Nat) :
    forall (heap : StaticLinkList) (chain : List Int), ListInv heap chain ->
      HeapOrdered heap -> heap.size = k ->
      exists stus, drainHeap k heap = some stus ∧
        (stus.map Student.entry).Perm (contents heap) ∧
        stus.Pairwise fun stu stu' => stu.id ≤ stu'.id := by
  induction k with
  | zero =>
      intro heap chain _ _ hsize
      have hzero : heap.size = 0 := hsize
      refine ⟨[], ?_, ?_, List.Pairwise.nil⟩
      · simp [drainHeap, isEmptyHeap, hzero]
      · simp [contents, hzero]
  | succ k ih =>
      intro heap chain h hord hsize
      have hpos : 0 < heap.size := by lia
      rcases h.popHeap hpos with
        ⟨heap', chain', pre, post, hrun, h', hsize', hsplit, hseq, hord', _⟩
      rcases ih heap' chain' h' (hord' hord) (by lia) with ⟨stus, hdrain, hperm, hsorted⟩
      have hpopped : (contents heap).Perm ((heap.list 0).entry :: contents heap') := by
        have hmoved := h.contents_perm
        rw [hsplit, sequence_append, sequence_cons] at hmoved
        have hrest := h'.contents_perm
        rw [hseq, sequence_append] at hrest
        exact (hmoved.trans List.perm_middle).trans (hrest.symm.cons _)
      refine ⟨heap.list 0 :: stus, ?_, ?_, ?_⟩
      · have hne : isEmptyHeap heap = false := by
          simp [isEmptyHeap]
          lia
        unfold drainHeap topHeap
        rw [hne, h.threaded.node_eq ⟨le_refl 0, hpos⟩, hrun]
        simp [hdrain]
      · exact (hperm.cons _).trans hpopped.symm
      · rw [List.pairwise_cons]
        refine ⟨?_, hsorted⟩
        intro stu hstu
        have hmem : stu.entry ∈ contents heap' :=
          hperm.mem_iff.mp (List.mem_map_of_mem hstu)
        exact hord.root_le (hpopped.mem_iff.mpr (List.mem_cons_of_mem _ hmem))

/-!
# Whole runs
-/

def insertAll : StaticLinkList -> List Student -> Option StaticLinkList
  | lists, [] => some lists
  | lists, stu :: stus => do
      let lists <- insertListAtHead lists stu
      insertAll lists stus

/-- Every run that inserts the given students, builds the heap, and then uses only
the operations of the heap. -/
def heapSystem (start : StaticLinkList) (stus : List Student) :
    System StaticLinkList ListOp where
  init s := exists lists lists', initialStaticLinkList start = some lists ∧
    insertAll lists stus = some lists' ∧ initialHeap lists' = some s
  step s op t := (forall stu, op ≠ ListOp.insertListAtHead stu) ∧ op.Allowed s ∧
    op.exec s = some t

theorem insertAll_spec (stus : List Student) :
    forall (lists : StaticLinkList) (chain : List Int), ListInv lists chain ->
      lists.size + stus.length ≤ MAXSIZE ->
      exists lists' chain', insertAll lists stus = some lists' ∧ ListInv lists' chain' ∧
        sequence lists' chain' = (stus.map Student.entry).reverse ++ sequence lists chain := by
  induction stus with
  | nil =>
      intro lists chain h _
      exact ⟨lists, chain, rfl, h, rfl⟩
  | cons stu stus ih =>
      intro lists chain h hroom
      rw [List.length_cons] at hroom
      rcases h.insertListAtHead (by lia) stu with ⟨lists₁, chain₁, hrun, h₁, hsize, hseq⟩
      rcases ih lists₁ chain₁ h₁ (by lia) with ⟨lists₂, chain₂, hrun₂, h₂, hseq₂⟩
      refine ⟨lists₂, chain₂, ?_, h₂, ?_⟩
      · unfold insertAll
        rw [hrun]
        exact hrun₂
      · rw [hseq₂, hseq]
        simp

theorem heapSystem_starts (start : StaticLinkList) {stus : List Student}
    (hroom : (stus.length : Int) ≤ MAXSIZE) :
    exists s chain, (heapSystem start stus).init s ∧ ListInv s chain ∧ HeapOrdered s ∧
      sequence s chain = (stus.map Student.entry).reverse := by
  rcases initialStaticLinkList_spec start with ⟨lists, hinit, h, hsize⟩
  rcases insertAll_spec stus lists [] h (by lia) with ⟨lists', chain', hrun, h', hseq⟩
  rcases h'.initialHeap with ⟨s, chain, hheap, hs, _, hsame, hord, _⟩
  refine ⟨s, chain, ⟨lists, lists', hinit, hrun, hheap⟩, hs, hord, ?_⟩
  rw [hsame, hseq]
  exact List.append_nil _

theorem reachable_heap {start s : StaticLinkList} {stus : List Student}
    (hroom : (stus.length : Int) ≤ MAXSIZE) (hs : (heapSystem start stus).Reachable s) :
    exists chain, ListInv s chain ∧ HeapOrdered s := by
  apply hs.invariant
  · intro s hinit
    rcases heapSystem_starts start hroom with ⟨s', chain, hinit', h, hord, _⟩
    rcases hinit with ⟨lists, lists', hlists, hinsert, hheap⟩
    rcases hinit' with ⟨lists₁, lists₁', hlists₁, hinsert₁, hheap₁⟩
    rw [hlists] at hlists₁
    cases hlists₁
    rw [hinsert] at hinsert₁
    cases hinsert₁
    rw [hheap] at hheap₁
    cases hheap₁
    exact ⟨chain, h, hord⟩
  · intro s op t hinv hstep
    rcases hinv with ⟨chain, h, hord⟩
    rcases h.exec hstep.right.left with ⟨t', chain', hrun, h', _, hord'⟩
    have hsame := hstep.right.right
    rw [hrun] at hsame
    cases hsame
    exact ⟨chain', h', hord' hstep.left hord⟩

/-- In every state of every run the array is a heap, the operations change the
multiset of students as they should, and popping returns the students in order. -/
theorem heap_correct (start : StaticLinkList) (stus : List Student)
    (hroom : (stus.length : Int) ≤ MAXSIZE) :
    (exists s, (heapSystem start stus).init s ∧
      (contents s).Perm (stus.map Student.entry)) ∧
    forall s, (heapSystem start stus).Reachable s ->
      (forall i, 0 < i -> i < s.size -> (s.list ((i - 1) / 2)).id ≤ (s.list i).id) ∧
      (0 < s.size -> exists stu, topHeap s = some stu ∧ stu.entry ∈ contents s ∧
        forall e, e ∈ contents s -> stu.id ≤ e.1) ∧
      (forall op : ListOp, (forall stu, op ≠ ListOp.insertListAtHead stu) -> op.Allowed s ->
        exists t, op.exec s = some t ∧ op.HeapEffect s (contents t)) ∧
      exists popped, drainHeap s.size.toNat s = some popped ∧
        (popped.map Student.entry).Perm (contents s) ∧
        popped.Pairwise fun stu stu' => stu.id ≤ stu'.id := by
  constructor
  · rcases heapSystem_starts start hroom with ⟨s, chain, hinit, h, _, hseq⟩
    refine ⟨s, hinit, ?_⟩
    have hperm := h.contents_perm
    rw [hseq] at hperm
    exact hperm.trans (List.reverse_perm _)
  · intro s hs
    rcases reachable_heap hroom hs with ⟨chain, h, hord⟩
    have hnonneg := h.size_nonneg
    refine ⟨?_, ?_, ?_, ?_⟩
    · intro i hi hlt
      exact hord _ i (by lia) (isChild_half i) hlt
    · intro hpos
      exact ⟨s.list 0, h.threaded.node_eq ⟨le_refl 0, hpos⟩, h.root_mem hpos,
        fun e he => hord.root_le he⟩
    · intro op _ hop
      rcases h.exec hop with ⟨t, chain', hrun, h', heffect, _⟩
      exact ⟨t, hrun, h.heapEffect hord heffect h'.contents_perm⟩
    · exact drainHeap_spec _ s chain h hord (by lia)

def numberedStudent (id : Int) (digit : Fin 10) : Student where
  flag := 0
  id := id
  name := ⟨[110, 97, 109, 101, 49 + UInt8.ofNat digit], by revert digit; decide⟩
  preNode := 0
  nextNode := 0

/-- The students that `main` inserts before it builds the heap. -/
def mainStudents : List Student :=
  [numberedStudent 30 0, numberedStudent 20 1, numberedStudent 40 2, numberedStudent 50 3,
    numberedStudent 10 4]

def blankList : StaticLinkList where
  list := fun _ => numberedStudent 0 0
  headIndex := 0
  size := 0
  unusedIndexs := ⟨fun _ => 0, 0⟩

theorem heap_correct_main_students :
    (mainStudents.length : Int) ≤ MAXSIZE ∧
    exists s, (heapSystem blankList mainStudents).Reachable s ∧
      (contents s).Perm (mainStudents.map Student.entry) ∧
      exists popped, drainHeap s.size.toNat s = some popped ∧
        (popped.map Student.entry).Perm (mainStudents.map Student.entry) ∧
        popped.Pairwise fun stu stu' => stu.id ≤ stu'.id := by
  have hroom : (mainStudents.length : Int) ≤ MAXSIZE := by decide
  rcases heap_correct blankList mainStudents hroom with ⟨⟨s, hinit, hperm⟩, hruns⟩
  have hreach := System.Reachable.init hinit
  rcases (hruns s hreach).right.right.right with ⟨popped, hdrain, hpopped, hsorted⟩
  exact ⟨hroom, s, hreach, hperm, popped, hdrain, hpopped.trans hperm, hsorted⟩

end StaticList
end OsLabs
