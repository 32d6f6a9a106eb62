import OsLabs.StaticList.PointerGrowth
import OsLabs.StaticList.PointerPop

/-!
# The heap with growing arrays along every run

From a heap that has been built of at least one student, the operations that neither empty
the heap nor fill it beyond its arrays keep the heap order and the list, as long as every pop
is sound; and a pop that is not sound breaks one of the two at once.
-/

namespace OsLabs
namespace StaticList
namespace Pointer

open Foundation
open Foundation.Links
open StaticLinkList

/-- The heap neither becomes empty nor outgrows its arrays. -/
def InDomain (s : PointerList) : ListOp -> Prop
  | .insertListAtHead _ => False
  | .pushHeap _ | .pushHeapByIdAndName _ _ => s.lists.size < s.maxsize
  | .popHeap => 2 ≤ s.lists.size
  | .modifyIdByIndex index _ | .modifyNameByIndex index _
  | .modifyIdAndNameByIndex index _ _ => 0 ≤ index
  | _ => True

def PopsSound (s : PointerList) : ListOp -> Prop
  | .popHeap => PopSound s.lists
  | _ => True

/-- The order of the heap, and a list that visits every index below the size once. -/
structure HeapAndList (s : PointerList) : Prop where
  ordered : forall i, 0 < i -> i < s.lists.size ->
    (s.lists.list ((i - 1) / 2)).id ≤ (s.lists.list i).id
  linked : exists chain, Follows s.lists s.lists.headIndex chain ∧ chain.Nodup ∧
    (forall i, i ∈ chain <-> 0 ≤ i ∧ i < s.lists.size) ∧
    (forall i j, i ∈ chain -> j ∈ chain ->
      ((s.lists.list i).nextNode = j <-> (s.lists.list j).preNode = i)) ∧
    (forall i, i ∈ chain -> ((s.lists.list i).preNode = -1 <-> s.lists.headIndex = i))

/-- Arrays of the first length that hold a heap and a list of at least one student. -/
structure Good (s : PointerList) (chain : List Int) : Prop where
  maxsize_eq : s.maxsize = MAXSIZE
  size_pos : 0 < s.lists.size
  inv : ListInv s.lists chain
  ordered : HeapOrdered s.lists

section Properties

variable {s : PointerList} {chain : List Int}

theorem Good.heapAndList (h : Good s chain) : HeapAndList s := by
  have hshape := h.inv.shape
  constructor
  · intro i hi hlt
    exact h.ordered _ i (by lia) (isChild_half i) hlt
  · exact ⟨chain, hshape.follows, hshape.visits_once, hshape.visits_all, hshape.inverse,
      hshape.first⟩

theorem HeapAndList.heapOrdered (h : HeapAndList s) : HeapOrdered s.lists := by
  intro p c hp hchild hlt
  have hpos := hchild.lt hp
  have hparent : (c - 1) / 2 = p := by
    unfold IsChild at hchild
    lia
  have hle := h.ordered c (by lia) hlt
  rw [hparent] at hle
  exact hle

theorem HeapAndList.head_ne_size (h : HeapAndList s) (hpos : 0 < s.lists.size) :
    s.lists.headIndex ≠ s.lists.size := by
  intro heq
  rcases h.linked with ⟨chain, hfollows, _, hall, _⟩
  cases chain with
  | nil =>
      have hend : s.lists.headIndex = -1 := hfollows
      lia
  | cons first rest =>
      have hfirst : s.lists.headIndex = first := hfollows.left
      have hrange := (hall first).mp List.mem_cons_self
      lia

end Properties

/-!
# One operation
-/

section Steps

variable {fresh : Fresh} {s t : PointerList} {chain : List Int} {op : ListOp}

theorem sequence_ne_nil {lists : StaticLinkList} (h : ListInv lists chain)
    (hpos : 0 < lists.size) : sequence lists chain ≠ [] := by
  have hzero : 0 ∈ chain := (h.threaded.mem_iff 0).mpr ⟨le_refl 0, hpos⟩
  intro hempty
  rw [List.map_eq_nil_iff.mp hempty] at hzero
  cases hzero

theorem size_pos_of_sequence {lists : StaticLinkList} (h : ListInv lists chain)
    (hne : sequence lists chain ≠ []) : 0 < lists.size := by
  rcases List.exists_mem_of_ne_nil _ hne with ⟨e, he⟩
  rcases List.mem_map.mp he with ⟨i, hi, _⟩
  have hrange := (h.threaded.mem_iff i).mp hi
  lia

theorem changedEntry_ne_nil {g : Entry -> Entry} {e : Entry} {before after : List Entry}
    (h : ChangedEntry g e before after) (hne : before ≠ []) : after ≠ [] := by
  cases h with
  | inl hsame =>
      rw [hsame.right]
      exact hne
  | inr hchanged =>
      rcases hchanged with ⟨xs, ys, _, hafter⟩
      rw [hafter]
      simp

theorem changedAt_ne_nil {g : Entry -> Entry} {lists : StaticLinkList} {index : Int}
    {after : List Entry} (h : ChangedAt g lists chain index after) : after ≠ [] := by
  rcases h with ⟨pre, post, _, hafter⟩
  rw [hafter]
  simp

theorem effect_ne_nil (h : Good s chain) (hdomain : InDomain s op) {after : List Entry}
    (heffect : op.Effect s.lists chain after) : after ≠ [] := by
  have hne := sequence_ne_nil h.inv h.size_pos
  cases op with
  | insertListAtHead stu => cases hdomain
  | initialHeap =>
      rw [show after = _ from heffect]
      exact hne
  | pushHeap stu =>
      rw [show after = _ from heffect]
      simp
  | pushHeapByIdAndName id name =>
      rw [show after = _ from heffect]
      simp
  | popHeap =>
      change 2 ≤ s.lists.size at hdomain
      cases heffect with
      | inl hempty => lia
      | inr hremoved =>
          rcases hremoved with ⟨pre, post, hsplit, hafter⟩
          have hone : 1 ∈ chain := (h.inv.threaded.mem_iff 1).mpr (by lia)
          intro hnil
          rw [hafter, ← sequence_append] at hnil
          have hempty := List.append_eq_nil_iff.mp (List.map_eq_nil_iff.mp hnil)
          rw [hsplit, hempty.left, hempty.right] at hone
          simp at hone
  | modifyId stu id => exact changedEntry_ne_nil heffect hne
  | modifyName stu name => exact changedEntry_ne_nil heffect hne
  | modifyIdAndName stu id name =>
      have hchanged : ChangedEntry (fun _ => (id, name)) stu.entry
        (sequence s.lists chain) after := heffect
      exact changedEntry_ne_nil hchanged hne
  | modifyIdByIndex index id => exact changedAt_ne_nil heffect
  | modifyNameByIndex index name => exact changedAt_ne_nil heffect
  | modifyIdAndNameByIndex index id name =>
      have hchanged : ChangedAt (fun _ => (id, name)) s.lists chain index after := heffect
      exact changedAt_ne_nil hchanged

theorem exec_agrees (h : Good s chain) (hdomain : InDomain s op) (hsound : PopsSound s op) :
    exec fresh s op = (op.exec s.lists).map fun lists => { s with lists := lists } := by
  have hmax := h.maxsize_eq
  have hpush : forall id name, s.lists.size < s.maxsize ->
      pushStudent s.maxsize s.lists id name = StaticList.pushStudent s.lists id name := by
    intro id name hroom
    rw [hmax]
    exact pushStudent_eq h.inv h.size_pos (by lia) id name
  cases op with
  | insertListAtHead stu => cases hdomain
  | initialHeap =>
      change (initialHeap s.maxsize s.lists).map _ = _
      rw [hmax, initialHeap_eq]
      rfl
  | pushHeap stu =>
      change (pushStudent s.maxsize s.lists stu.id stu.name).map _ = _
      rw [hpush stu.id stu.name hdomain]
      rfl
  | pushHeapByIdAndName id name =>
      change (pushStudent s.maxsize s.lists id name).map _ = _
      rw [hpush id name hdomain]
      rfl
  | popHeap =>
      change (popHeap s.maxsize s.lists).map _ = _
      rw [hmax, popHeap_agrees h.inv h.ordered hdomain hsound]
      rfl
  | modifyId stu id =>
      change ((modifyFound s.maxsize s.lists stu (setId id) true).map Prod.fst).map _ = _
      rw [hmax, modifyFound_eq]
      rfl
  | modifyName stu name =>
      change ((modifyFound s.maxsize s.lists stu (setName name) false).map Prod.fst).map _ = _
      rw [hmax, modifyFound_eq]
      rfl
  | modifyIdAndName stu id name =>
      change ((modifyFound s.maxsize s.lists stu
        (fun record => setName name (setId id record)) true).map Prod.fst).map _ = _
      rw [hmax, modifyFound_eq]
      rfl
  | modifyIdByIndex index id =>
      change ((modifyByIndex s.maxsize s.lists index (setId id) true).map Prod.fst).map _ = _
      rw [hmax, modifyByIndex_eq]
      rfl
  | modifyNameByIndex index name =>
      change ((modifyByIndex s.maxsize s.lists index (setName name) false).map Prod.fst).map _ = _
      rw [hmax, modifyByIndex_eq]
      rfl
  | modifyIdAndNameByIndex index id name =>
      change ((modifyByIndex s.maxsize s.lists index
        (fun record => setName name (setId id record)) true).map Prod.fst).map _ = _
      rw [hmax, modifyByIndex_eq]
      rfl

theorem modifyByIndex_unchanged {lists : StaticLinkList} {index : Int}
    (hindex : lists.size ≤ index) (change : Student -> Student) (rebuild : Bool) :
    (StaticList.modifyByIndex lists index change rebuild).map Prod.fst = some lists := by
  unfold StaticList.modifyByIndex
  rw [if_pos hindex]
  rfl

theorem allowed_or_unchanged (hmax : s.maxsize = MAXSIZE) (hdomain : InDomain s op) :
    op.Allowed s.lists ∨ op.exec s.lists = some s.lists := by
  have hindex : forall index change rebuild, 0 ≤ index ->
      (0 ≤ index ∧ index < s.lists.size) ∨
        (StaticList.modifyByIndex s.lists index change rebuild).map Prod.fst =
          some s.lists := by
    intro index change rebuild hnonneg
    cases lt_or_ge index s.lists.size with
    | inl hlt => exact Or.inl ⟨hnonneg, hlt⟩
    | inr hge => exact Or.inr (modifyByIndex_unchanged hge change rebuild)
  cases op with
  | insertListAtHead stu => cases hdomain
  | pushHeap stu | pushHeapByIdAndName id name =>
      left
      change s.lists.size < s.maxsize at hdomain
      change s.lists.size < MAXSIZE
      rw [← hmax]
      exact hdomain
  | modifyIdByIndex index id => exact hindex index (setId id) true hdomain
  | modifyNameByIndex index name => exact hindex index (setName name) false hdomain
  | modifyIdAndNameByIndex index id name =>
      exact hindex index (fun record => setName name (setId id record)) true hdomain
  | _ => exact Or.inl trivial

theorem Good.exec (h : Good s chain) (hdomain : InDomain s op) (hsound : PopsSound s op) :
    exists t, Pointer.exec fresh s op = some t ∧ exists chain', Good t chain' := by
  rw [exec_agrees h hdomain hsound]
  cases allowed_or_unchanged h.maxsize_eq hdomain with
  | inl hallowed =>
      rcases h.inv.exec hallowed with ⟨lists', chain', hrun, hinv, heffect, hord⟩
      have hheap : forall stu, op ≠ ListOp.insertListAtHead stu := by
        intro stu heq
        subst heq
        cases hdomain
      have hpos := size_pos_of_sequence hinv (effect_ne_nil h hdomain heffect)
      refine ⟨{ s with lists := lists' }, ?_, chain', h.maxsize_eq, hpos, hinv,
        hord hheap h.ordered⟩
      rw [hrun]
      rfl
  | inr hsame =>
      refine ⟨s, ?_, chain, h⟩
      rw [hsame]
      rfl

/-- A pop that is not sound breaks the heap or the list. -/
theorem Good.exec_breaks (h : Good s chain) (hdomain : InDomain s op)
    (hnot : ¬ PopsSound s op) :
    exists t, Pointer.exec fresh s op = some t ∧ ¬ HeapAndList t := by
  have hmax := h.maxsize_eq
  cases op with
  | popHeap =>
      change 2 ≤ s.lists.size at hdomain
      change ¬ PopSound s.lists at hnot
      have hwith : forall v, popHeap MAXSIZE s.lists = some v ->
          Pointer.exec fresh s ListOp.popHeap = some { s with lists := v } := by
        intro v hv
        change (popHeap s.maxsize s.lists).map _ = _
        rw [hmax, hv]
        rfl
      by_cases hsinks : Sinks s.lists (s.lists.size - 1)
      · have hchild : exists g, IsChild (chosenChild s.lists (s.lists.size - 1) 0) g ∧
            g < s.lists.size - 1 ∧ ids s.lists g < ids s.lists (s.lists.size - 1) := by
          by_contra hno
          apply hnot
          refine ⟨?_, fun hbad => absurd hsinks hbad⟩
          intro _ g hg hlt
          by_contra hgt
          exact hno ⟨g, hg, hlt, not_le.mp hgt⟩
        rcases hchild with ⟨g, hg, hlt, hless⟩
        rcases popHeap_out_of_order h.inv hdomain hsinks hg hlt hless with ⟨v, hv, hbad⟩
        exact ⟨_, hwith v hv, fun hgood => hbad hgood.heapOrdered⟩
      · have hhead : s.lists.headIndex = s.lists.size - 1 := by
          by_contra hne
          exact hnot ⟨fun hbad => absurd hbad hsinks, fun _ => hne⟩
        rcases popHeap_stale_head h.inv h.ordered hdomain hsinks hhead with
          ⟨v, hv, hheadv, hsizev⟩
        refine ⟨_, hwith v hv, ?_⟩
        intro hgood
        apply hgood.head_ne_size ?_ hheadv
        change 0 < v.size
        lia
  | _ => exact absurd trivial hnot

end Steps

/-!
# Building the heap
-/

def buildHeap (fresh : Fresh) (stk : Stack) (stus : List Student) : Option PointerList := do
  let s <- creatStaticLinkList fresh MAXSIZE stk
  let s <- insertAll fresh s stus
  exec fresh s ListOp.initialHeap

section Build

variable {fresh : Fresh} {stk : Stack} {stus : List Student} {s t : PointerList}
  {chain : List Int}

theorem exec_initialHeap (fresh : Fresh) (hmax : s.maxsize = MAXSIZE) (h : ListInv s.lists chain)
    (hpos : 0 < s.lists.size) :
    exists t chain', exec fresh s ListOp.initialHeap = some t ∧ Good t chain' ∧
      StaticList.initialHeap s.lists = some t.lists ∧ t.lists.size = s.lists.size := by
  rcases h.initialHeap with ⟨lists', chain', hrun, hinv, hsize, _, hord, _⟩
  refine ⟨{ s with lists := lists' }, chain', ?_, ⟨hmax, ?_, hinv, hord⟩, hrun, hsize⟩
  · change (initialHeap s.maxsize s.lists).map _ = _
    rw [hmax, initialHeap_eq, hrun]
    rfl
  · change 0 < lists'.size
    lia

theorem length_pos_of_ne_nil (hne : stus ≠ []) : 0 < stus.length :=
  List.length_pos_iff.mpr hne

theorem buildHeap_spec (fresh : Fresh) (stk : Stack) (hne : stus ≠ [])
    (hroom : (stus.length : Int) ≤ MAXSIZE) :
    exists s chain, buildHeap fresh stk stus = some s ∧ Good s chain ∧
      s.lists.size = stus.length := by
  have hlength := length_pos_of_ne_nil hne
  rcases creatStaticLinkList_spec fresh stk with ⟨s, hrun, hmax, hinv, hsize⟩
  rcases insertAll_spec fresh hmax hinv stus (by lia) with
    ⟨t, chain, hall, hmaxt, ht, hsizet, _⟩
  rcases exec_initialHeap fresh hmaxt ht (by lia) with
    ⟨u, chain', hstep, hgood, _, hsizeu⟩
  refine ⟨u, chain', ?_, hgood, by lia⟩
  unfold buildHeap
  rw [hrun, Option.bind_eq_bind, Option.bind_some, hall, Option.bind_some]
  exact hstep

theorem buildHeap_room (hrun : buildHeap fresh stk stus = some t) :
    (stus.length : Int) ≤ MAXSIZE := by
  rcases creatStaticLinkList_spec fresh stk with ⟨s, hcreat, hmax, hinv, hsize⟩
  unfold buildHeap at hrun
  rw [hcreat, Option.bind_eq_bind, Option.bind_some] at hrun
  rcases Option.bind_eq_some_iff.mp hrun with ⟨u, hall, _⟩
  have hroom := insertAll_room hmax hinv hall
  lia

end Build

/-- A heap is built of up to 1024 students; and from there, a run of operations that neither
empty nor overfill it returns and keeps the heap and the list in every state exactly when
every pop in it is sound. -/
theorem pointer_heap_exact (fresh : Fresh) (stk : Stack) (stus : List Student)
    (hne : stus ≠ []) :
    ((exists s, buildHeap fresh stk stus = some s) <-> (stus.length : Int) ≤ MAXSIZE) ∧
    forall s ops, buildHeap fresh stk stus = some s ->
      System.ExecMeets (exec fresh) InDomain s ops ->
      ((forall run, run <+: ops ->
          exists t, System.execAll (exec fresh) s run = some t ∧ HeapAndList t) <->
        System.ExecMeets (exec fresh) PopsSound s ops) := by
  constructor
  · constructor
    · rintro ⟨s, hrun⟩
      exact buildHeap_room hrun
    · intro hroom
      rcases buildHeap_spec fresh stk hne hroom with ⟨s, chain, hrun, _⟩
      exact ⟨s, hrun⟩
  · intro s ops hrun hdomain
    rcases buildHeap_spec fresh stk hne (buildHeap_room hrun) with ⟨s', chain, hrun', hgood, _⟩
    rw [hrun] at hrun'
    cases hrun'
    apply System.execMeets_iff_invariant (J := fun s => exists chain, Good s chain) ?_ ?_ ?_
      ⟨chain, hgood⟩ hdomain
    · rintro t ⟨chain', ht⟩
      exact ht.heapAndList
    · rintro t op ⟨chain', ht⟩ hop hsound
      exact ht.exec hop hsound
    · rintro t op ⟨chain', ht⟩ hop hnot
      exact ht.exec_breaks hop hnot

instance decidableInDomain (s : PointerList) : forall op, Decidable (InDomain s op)
  | .insertListAtHead _ => isFalse not_false
  | .pushHeap _ | .pushHeapByIdAndName _ _ =>
      inferInstanceAs (Decidable (s.lists.size < s.maxsize))
  | .popHeap => inferInstanceAs (Decidable (2 ≤ s.lists.size))
  | .modifyIdByIndex index _ | .modifyNameByIndex index _
  | .modifyIdAndNameByIndex index _ _ => inferInstanceAs (Decidable (0 ≤ index))
  | .initialHeap | .modifyId _ _ | .modifyName _ _ | .modifyIdAndName _ _ _ => isTrue trivial

instance (heap : StaticLinkList) (n : Int) : Decidable (Sinks heap n) :=
  inferInstanceAs (Decidable (_ ∧ _))

instance decidablePopSound (heap : StaticLinkList) : Decidable (PopSound heap) :=
  decidable_of_iff
    ((Sinks heap (heap.size - 1) ->
      forall g, g ∈ [2 * chosenChild heap (heap.size - 1) 0 + 1,
          2 * chosenChild heap (heap.size - 1) 0 + 2] -> g < heap.size - 1 ->
        (heap.list (heap.size - 1)).id ≤ (heap.list g).id) ∧
      (¬ Sinks heap (heap.size - 1) -> heap.headIndex ≠ heap.size - 1))
    ⟨fun h => ⟨fun hsinks g hg => h.left hsinks g (by simpa [IsChild] using hg), h.right⟩,
      fun h => ⟨fun hsinks g hg => h.enough hsinks g (by simpa [IsChild] using hg), h.head⟩⟩

instance decidablePopsSound (s : PointerList) : forall op, Decidable (PopsSound s op)
  | .popHeap => inferInstanceAs (Decidable (PopSound s.lists))
  | .insertListAtHead _ | .initialHeap | .pushHeap _ | .pushHeapByIdAndName _ _
  | .modifyId _ _ | .modifyName _ _ | .modifyIdAndName _ _ _ | .modifyIdByIndex _ _
  | .modifyNameByIndex _ _ | .modifyIdAndNameByIndex _ _ _ => isTrue trivial

def popPushPop : List ListOp :=
  [ListOp.popHeap, ListOp.pushHeap (numberedStudent 15 ⟨5, by decide⟩), ListOp.popHeap]

theorem pointer_heap_exact_main_students :
    exists s, buildHeap blankMemory blankList.unusedIndexs mainStudents = some s ∧
      forall run, run <+: popPushPop ->
        exists t, System.execAll (exec blankMemory) s run = some t ∧ HeapAndList t := by
  have hbuilt : (buildHeap blankMemory blankList.unusedIndexs mainStudents).map
      (fun s => (decide (System.ExecMeets (exec blankMemory) InDomain s popPushPop),
        decide (System.ExecMeets (exec blankMemory) PopsSound s popPushPop))) =
      some (true, true) := by decide +kernel
  rcases Option.map_eq_some_iff.mp hbuilt with ⟨s, hrun, hmeets⟩
  simp only [Prod.mk.injEq, decide_eq_true_eq] at hmeets
  rcases hmeets with ⟨hdomain, hsound⟩
  have hexact := pointer_heap_exact blankMemory blankList.unusedIndexs mainStudents
    (List.cons_ne_nil _ _)
  exact ⟨s, hrun, (hexact.right s popPushPop hrun hdomain).mpr hsound⟩

/-!
# Two students
-/

theorem initialHeapOuter_of_ordered {heap : StaticLinkList} {m n : Int} {chain : List Int}
    (h : Threaded heap m chain) (hnm : n ≤ m) (hord : HeapFrom (ids heap) n 0) (k : Nat) :
    (k : Int) ≤ n -> StaticList.initialHeapOuter n k heap = some heap := by
  induction k with
  | zero =>
      intro _
      rfl
  | succ k ih =>
      intro hk
      have hinner : StaticList.initialHeapInner n (heap.list k).id (n.toNat + 1) heap k
          (2 * k + 1) = some heap := by
        rw [StaticList.initialHeapInner]
        by_cases hchild : 2 * (k : Int) + 1 < n
        · rcases smallerChild_spec h hnm (Int.natCast_nonneg k) hchild with ⟨c, hc, hleast⟩
          have hlt := hleast.child.lt (Int.natCast_nonneg k)
          have hcn := hleast.lt
          have hle : (heap.list k).id ≤ (heap.list c).id :=
            hord k c (Int.natCast_nonneg k) hleast.child hcn
          rw [if_pos hchild, hc, Option.bind_eq_bind, Option.bind_some, h.node_eq (by lia),
            Option.bind_eq_bind, Option.bind_some, if_neg (not_lt.mpr hle)]
        · rw [if_neg hchild]
      rw [StaticList.initialHeapOuter, h.node_eq (by lia), Option.bind_eq_bind, Option.bind_some,
        hinner, Option.bind_eq_bind, Option.bind_some]
      exact ih (by lia)

theorem initialHeap_of_ordered {lists : StaticLinkList} {chain : List Int}
    (h : ListInv lists chain) (hord : HeapOrdered lists) :
    StaticList.initialHeap lists = some lists := by
  have hnonneg := h.size_nonneg
  have hhalf : lists.size.tdiv 2 = lists.size / 2 := Int.tdiv_eq_ediv_of_nonneg hnonneg
  exact initialHeapOuter_of_ordered h.threaded (le_refl _) hord _ (by lia)

/-- Two insertions leave the first student at index 0 and the second, which is the head, at
index 1. -/
theorem insertAll_two (fresh : Fresh) {s : PointerList} (hmax : s.maxsize = MAXSIZE)
    (h : ListInv s.lists []) (hsize : s.lists.size = 0) (stu stu' : Student) :
    exists t chain, insertAll fresh s [stu, stu'] = some t ∧ t.maxsize = MAXSIZE ∧
      ListInv t.lists chain ∧ t.lists.size = 2 ∧ t.lists.headIndex = 1 ∧
      (t.lists.list 0).entry = stu.entry ∧ (t.lists.list 1).entry = stu'.entry := by
  have hMAX : MAXSIZE = 1024 := rfl
  rcases insertListAtHead_spec fresh hmax h (by lia) stu with
    ⟨u, chain1, hstep, hmaxu, hu, hsizeu, _, _, hentry⟩
  rw [hsize] at hsizeu hentry
  have hone : u.lists.size = 1 := by lia
  have hzero : 0 ∈ chain1 := (hu.threaded.mem_iff 0).mpr (by lia)
  rcases insertListAtHead_spec fresh hmaxu hu (by lia) stu' with
    ⟨t, chain2, hstep', hmaxt, ht, hsizet, _, hheadt, hentryt⟩
  have hkeep : (t.lists.list 0).entry = (u.lists.list 0).entry := by
    have hfixed := insertListAtHead_eq_fixed fresh hmaxu (by lia) stu'
    rw [hstep', hu.insertListAtHead_eq (by lia)] at hfixed
    cases hfixed
    exact addedFront_entry hu hzero
  refine ⟨t, chain2, ?_, hmaxt, ht, by lia, by lia, hkeep.trans hentry, ?_⟩
  · change (insertListAtHead fresh s stu).bind
      (fun u => (insertListAtHead fresh u stu').bind some) = some t
    rw [hstep, Option.bind_some, hstep']
    rfl
  · rw [hone] at hentryt
    exact hentryt

/-- The head stays at index 1, where nothing is left after the pop. -/
theorem popHeap_of_two_students :
    exists s t, buildHeap blankMemory blankList.unusedIndexs
        [numberedStudent 1 0, numberedStudent 2 1] = some s ∧
      InDomain s ListOp.popHeap ∧ exec blankMemory s ListOp.popHeap = some t ∧
      t.lists.size = 1 ∧ t.lists.headIndex = 1 ∧ ¬ HeapAndList t := by
  rcases creatStaticLinkList_spec blankMemory blankList.unusedIndexs with
    ⟨s, hrun, hmax, hinv, hsize⟩
  rcases insertAll_two blankMemory hmax hinv hsize (numberedStudent 1 0)
    (numberedStudent 2 1) with ⟨u, chain, hall, hmaxu, hu, hsizeu, hheadu, hzero, hone⟩
  have hordu : HeapOrdered u.lists := by
    intro p c hp hchild hlt
    have hpc := hchild.lt hp
    have hp0 : p = 0 := by lia
    have hc1 : c = 1 := by lia
    subst hp0
    subst hc1
    change (u.lists.list 0).id ≤ (u.lists.list 1).id
    have hid : (u.lists.list 0).id = 1 := congrArg Prod.fst hzero
    have hid' : (u.lists.list 1).id = 2 := congrArg Prod.fst hone
    rw [hid, hid']
    decide
  rcases exec_initialHeap blankMemory hmaxu hu (by lia) with
    ⟨v, chain', hstep, hgood, hsame, _⟩
  rw [initialHeap_of_ordered hu hordu] at hsame
  have hlists := Option.some.inj hsame
  rw [hlists] at hsizeu hheadu
  have hnot : ¬ Sinks v.lists (v.lists.size - 1) := by
    intro hsinks
    have hlt := hsinks.left
    lia
  rcases popHeap_stale_head hgood.inv hgood.ordered (by lia) hnot (by lia) with
    ⟨w, hpop, hheadw, hsizew⟩
  refine ⟨v, { v with lists := w }, ?_, ?_, ?_, ?_, ?_, ?_⟩
  · unfold buildHeap
    rw [hrun, Option.bind_eq_bind, Option.bind_some, hall, Option.bind_some]
    exact hstep
  · change 2 ≤ v.lists.size
    lia
  · change (popHeap v.maxsize v.lists).map _ = _
    rw [hgood.maxsize_eq, hpop]
    rfl
  · change w.size = 1
    lia
  · change w.headIndex = 1
    lia
  · intro hbad
    apply hbad.head_ne_size ?_ hheadw
    change 0 < w.size
    lia

end Pointer
end StaticList
end OsLabs
