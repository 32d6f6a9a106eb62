import OsLabs.StaticList.Invariant

/-!
# Removing, finding and changing students

What `popHeap`, the searches and the `modify` functions do to the sequence of
students and to the heap.
-/

namespace OsLabs
namespace StaticList

open Foundation
open Foundation.Links
open StaticLinkList

/-!
# Removing the root
-/

def unlinkedNodes (lists : StaticLinkList) (preNode nextNode : Int) : StaticLinkList :=
  preIf (nextNode ≠ -1) (nextIf (preNode ≠ -1) lists preNode nextNode) nextNode preNode

section Remove

variable {lists : StaticLinkList} {k : Int} {pre post : List Int}

theorem unlinkedNodes_threaded (h : Threaded lists (k + 1) (pre ++ k :: post)) :
    Threaded (unlinkedNodes lists (lastFrom (-1) pre) (firstTo post (-1))) k (pre ++ post) := by
  have hnodup := h.ring.nodes_nodup
  have hheader := h.ring.header_not_mem
  have hpre : -1 ∉ pre := fun hbad => hheader (by simp [hbad])
  have hpost : -1 ∉ post := fun hbad => hheader (by simp [hbad])
  constructor
  · have hbound := h.bound
    lia
  · intro i
    have hmem := h.mem_iff i
    have hperm : (pre ++ k :: post).Perm (k :: (pre ++ post)) := List.perm_middle
    have hfresh := (List.nodup_cons.mp (hperm.nodup_iff.mp hnodup)).left
    rw [hperm.mem_iff, List.mem_cons] at hmem
    constructor
    · intro hi
      have hne : i ≠ k := fun heq => hfresh (heq ▸ hi)
      have hrange := hmem.mp (Or.inr hi)
      lia
    · intro hi
      cases hmem.mpr (by lia) with
      | inl heq => lia
      | inr hin => exact hin
  · apply h.ring.remove_of
    · constructor
      · by_cases hempty : pre = []
        · subst hempty
          rfl
        · have hne := lastFrom_ne hpre hempty
          simp [heapLinks, unlinkedNodes, hne]
      · by_cases hempty : post = []
        · subst hempty
          simp [heapLinks]
        · have hne := firstTo_ne hpost hempty
          simp [heapLinks, unlinkedNodes, hne]
    · intro c _ hne
      by_cases hc : c = -1
      · subst hc
        cases pre with
        | nil => exact absurd rfl hne
        | cons first rest => rfl
      · simp [heapLinks, unlinkedNodes, hc, hne]
    · intro c _ hne
      by_cases hc : c = -1
      · subst hc
        cases post with
        | nil => exact absurd rfl hne
        | cons first rest => simp [heapLinks, lastFrom]
      · simp [heapLinks, unlinkedNodes, hc, hne]

theorem unlinkRemoved_spec {m : Int} (hm : k + 1 = m) (h : Threaded lists m (pre ++ k :: post))
    (hsize : lists.size = k) (hhead : lists.headIndex = firstTo (pre ++ k :: post) (-1)) :
    exists lists', unlinkRemoved lists = some lists' ∧ Threaded lists' k (pre ++ post) ∧
      lists'.headIndex = firstTo (pre ++ post) (-1) ∧ lists'.size = k ∧
      lists'.unusedIndexs = lists.unusedIndexs ∧
      (forall x, (lists'.list x).data = (lists.list x).data) := by
  subst hm
  have hmem : k ∈ pre ++ k :: post := by simp
  have hpre : -1 ∉ pre := fun hbad => h.ring.header_not_mem (by simp [hbad])
  have hpreNode := h.wellLinked.preNode_at rfl
  have hnextNode := h.wellLinked.nextNode_at rfl
  have hpreIn := h.wellLinked.link_inBounds (h.wellLinked.preNode_mem hmem)
  have hnextIn := h.wellLinked.link_inBounds (h.wellLinked.nextNode_mem hmem)
  have hthr := unlinkedNodes_threaded h
  unfold unlinkRemoved
  rw [hsize, node_eq (h.inBounds hmem), Option.bind_eq_bind, Option.bind_some,
    nextIf_eq _ _ _ _ hpreIn, Option.bind_eq_bind, Option.bind_some,
    preIf_eq _ _ _ _ hnextIn, Option.bind_some, hpreNode, hnextNode]
  refine ⟨_, rfl, ?_⟩
  by_cases hempty : pre = []
  · subst hempty
    rw [if_pos (lastFrom_nil (-1))]
    refine ⟨hthr.congr (fun _ _ => rfl) (fun _ _ => rfl), rfl, ?_, ?_, ?_⟩
    · simp [hsize]
    · simp
    · intro x
      simp
  · rw [if_neg (lastFrom_ne hpre hempty)]
    refine ⟨hthr, ?_, ?_, ?_, ?_⟩
    · rw [preIf_headIndex, nextIf_headIndex, hhead]
      cases pre with
      | nil => exact absurd rfl hempty
      | cons first rest => rfl
    · simp [hsize]
    · simp
    · intro x
      simp

end Remove

section Pop

variable {lists : StaticLinkList} {chain : List Int}

/-- What `popHeap` has written before it moves any record. -/
def shrunk (lists : StaticLinkList) (stk : Stack) : StaticLinkList :=
  { lists.put lists.headIndex { lists.list lists.headIndex with flag := 0 } with
    size := lists.size - 1, unusedIndexs := stk }

theorem shrunk_nextNode (stk : Stack) (x : Int) :
    ((shrunk lists stk).list x).nextNode = (lists.list x).nextNode := by
  change ((lists.put _ _).list x).nextNode = _
  rw [put_list]
  split
  · rename_i heq
    rw [heq]
  · rfl

theorem shrunk_preNode (stk : Stack) (x : Int) :
    ((shrunk lists stk).list x).preNode = (lists.list x).preNode := by
  change ((lists.put _ _).list x).preNode = _
  rw [put_list]
  split
  · rename_i heq
    rw [heq]
  · rfl

theorem shrunk_entry (stk : Stack) (x : Int) :
    ((shrunk lists stk).list x).entry = (lists.list x).entry := by
  change ((lists.put _ _).list x).entry = _
  rw [put_list]
  split
  · rename_i heq
    rw [heq]
    rfl
  · rfl

theorem ListInv.threaded_shrunk (h : ListInv lists chain) (stk : Stack) :
    Threaded (shrunk lists stk) lists.size chain :=
  h.threaded.congr (fun i _ => shrunk_nextNode stk i) (fun i _ => shrunk_preNode stk i)

theorem HeapFrom.downOrder_exchanged {a : Int -> Int} {k : Int} (h : HeapFrom a (k + 1) 0) :
    DownOrder (exchanged a 0 k) k 0 0 := by
  constructor
  · intro p c hp hne hchild hc
    have hlt := hchild.lt hp
    rw [exchanged_of_ne a hne (by lia), exchanged_of_ne a (by lia) (by lia)]
    exact h p c hp hchild (by lia)
  · intro p c hp hroot _ _
    have hlt := hroot.lt hp
    lia

theorem ListInv.head_ne_header (h : ListInv lists chain) (hsize : 0 < lists.size) :
    lists.headIndex ≠ -1 := by
  have hroot : 0 ∈ chain := (h.threaded.mem_iff 0).mpr ⟨le_refl 0, hsize⟩
  rw [h.head]
  exact firstTo_ne h.threaded.ring.header_not_mem (List.ne_nil_of_mem hroot)

theorem ListInv.popHeap_eq (h : ListInv lists chain) (hsize : 0 < lists.size) {stk : Stack}
    (hpush : pushStack lists.unusedIndexs (lists.size - 1) = some stk) :
    StaticList.popHeap lists =
      if lists.size - 1 = 0 then some { shrunk lists stk with headIndex := -1 }
      else (swapHeapNode (shrunk lists stk) 0 (lists.size - 1)).bind fun heap =>
        (popHeapLoop (ids lists (lists.size - 1)) (heap.size.toNat + 1) heap 0).bind
          unlinkRemoved := by
  have hbound := h.threaded.bound
  have hlast : InBounds (lists.size - 1) := ⟨by lia, by lia⟩
  have hhead := h.head_inBounds (h.head_ne_header hsize)
  unfold StaticList.popHeap
  rw [if_neg (by lia)]
  simp only [node_eq hlast, hpush, modifyNode_eq hhead, Option.bind_eq_bind, Option.bind_some]
  rfl

theorem shrunk_ids (stk : Stack) : ids (shrunk lists stk) = ids lists := by
  funext x
  exact congrArg Prod.fst (shrunk_entry stk x)

theorem listInv_popHeap_last (hone : lists.size = 1) {stk : Stack} (hstk : StackInv stk 0) :
    ListInv { shrunk lists stk with headIndex := -1 } [] := by
  have hsize : lists.size - 1 = 0 := by lia
  constructor
  · change 0 ≤ lists.size - 1
    lia
  · change Threaded _ (lists.size - 1) _
    rw [hsize]
    exact threaded_nil _
  · rfl
  · change StackInv stk (lists.size - 1)
    rw [hsize]
    exact hstk

theorem ListInv.popHeap (h : ListInv lists chain) (hsize : 0 < lists.size) :
    exists lists' chain' pre post, StaticList.popHeap lists = some lists' ∧
      ListInv lists' chain' ∧ lists'.size = lists.size - 1 ∧ chain = pre ++ 0 :: post ∧
      sequence lists' chain' = sequence lists (pre ++ post) ∧
      (HeapOrdered lists -> HeapOrdered lists') ∧
      exists f stk, Moved lists.size f (shrunk lists stk) lists' ∧ f 0 = lists.size - 1 := by
  have hroot : 0 ∈ chain := (h.threaded.mem_iff 0).mpr ⟨le_refl 0, hsize⟩
  have hbound := h.threaded.bound
  have hlast : lists.size = lists.size - 1 + 1 := by lia
  rcases List.append_of_mem hroot with ⟨pre, post, hsplit⟩
  have hstack := h.stack
  rw [hlast] at hstack
  rcases hstack.pushStack (by lia) (by lia) with ⟨stk, hpush, hstk⟩
  rw [h.popHeap_eq hsize hpush]
  have hthr := h.threaded_shrunk stk
  by_cases hone : lists.size - 1 = 0
  · rw [if_pos hone]
    rw [hone] at hstk
    have hsizeOne : lists.size = 0 + 1 := by lia
    have hempty : pre ++ post = [] := by
      rw [hsplit, hsizeOne] at hthr
      have hrest := unlinkedNodes_threaded hthr
      apply List.eq_nil_iff_forall_not_mem.mpr
      intro x hx
      have hrange := (hrest.mem_iff x).mp hx
      lia
    refine ⟨_, [], pre, post, rfl, listInv_popHeap_last hsizeOne hstk, rfl, hsplit, ?_, ?_,
      Equiv.refl Int, stk, Moved.refl _ fun _ => rfl, hone.symm⟩
    · rw [hempty]
      rfl
    · intro _ p c hp hchild hc
      have hlt := hchild.lt hp
      change c < lists.size - 1 at hc
      lia
  · rw [if_neg hone]
    rcases swapHeapNode_spec hthr (le_refl _) ⟨le_refl 0, hsize⟩
      (show 0 ≤ lists.size - 1 ∧ lists.size - 1 < lists.size by lia) (by lia) with
      ⟨heap₁, hswap, hren₁⟩
    have hsize₁ : heap₁.size = lists.size - 1 := hren₁.size
    have hloop := popHeapLoop_eq (ids lists (lists.size - 1)) (heap₁.size.toNat + 1) heap₁ _ 0
      hren₁.threaded (by lia) (le_refl 0)
    rcases initialHeapInner_spec (show heap₁.size ≤ lists.size by lia)
      (ids lists (lists.size - 1)) 0 (heap₁.size.toNat + 1) heap₁ _ 0 hren₁.threaded
      (le_refl 0) (by lia) (by lia) with ⟨heap₂, f, hrun, hren₂, horder⟩
    have hren := hren₁.trans (hren₂.mono (show heap₁.size ≤ lists.size by lia))
    have hmoved : ((Equiv.swap 0 (lists.size - 1)).trans f) 0 = lists.size - 1 := by
      rw [Equiv.trans_apply, Equiv.swap_apply_left]
      exact hren₂.fixes _ (Or.inr (by lia))
    have hsize₂ : heap₂.size = lists.size - 1 := hren.size
    have hthr₂ := hren.threaded
    have hhead₂ := hren.head h.head
    rw [hsplit, List.map_append, List.map_cons, hmoved] at hthr₂ hhead₂
    rcases unlinkRemoved_spec hlast.symm hthr₂ hsize₂ hhead₂ with
      ⟨lists', hunlink, hthr', hhead', hsize', hunused', hdata'⟩
    refine ⟨lists', _, pre, post, ?_, ⟨?_, ?_, hhead', ?_⟩, hsize', hsplit, ?_, ?_, _, stk,
      ⟨hren.fixes, fun x => (hdata' _).trans (hren.data x)⟩, hmoved⟩
    · rw [hswap, Option.bind_some, hloop, hrun, Option.bind_some, hunlink]
    · lia
    · rw [hsize']
      exact hthr'
    · rw [hsize', hunused', hren.unusedIndexs]
      exact hstk
    · rw [← List.map_append, sequence_congr fun i _ => entry_of_data (hdata' i),
        hren.sequence_map]
      exact sequence_congr fun i _ => shrunk_entry stk i
    · intro hordered
      have hids : ids heap₁ = exchanged (ids lists) 0 (lists.size - 1) := by
        rw [hren₁.ids_exchanged, shrunk_ids]
      have hids' : ids lists' = ids heap₂ := by
        funext x
        exact congrArg (fun data => data.2.1) (hdata' x)
      unfold HeapOrdered at hordered ⊢
      rw [hids', hsize', ← hsize₁]
      apply horder (le_refl 0)
      · rw [hids, exchanged_left]
      · rw [hids, hsize₁]
        apply HeapFrom.downOrder_exchanged
        rw [← hlast]
        exact hordered

end Pop

/-!
# Rebuilding the heap
-/

theorem ListInv.initialHeap {lists : StaticLinkList} {chain : List Int}
    (h : ListInv lists chain) :
    exists lists' chain', StaticList.initialHeap lists = some lists' ∧ ListInv lists' chain' ∧
      lists'.size = lists.size ∧ sequence lists' chain' = sequence lists chain ∧
      HeapOrdered lists' ∧ exists f, Moved lists.size f lists lists' := by
  rcases initialHeap_spec h.threaded h.size_nonneg with ⟨lists', f, hrun, hren, horder⟩
  refine ⟨lists', _, hrun, h.renamed hren, hren.size, hren.sequence_map chain, ?_, f,
    hren.moved⟩
  unfold HeapOrdered
  rw [hren.size]
  exact horder

/-!
# Searching
-/

/-- `r` is an index at which the search may stop, or `-1` and there is none in the
subtree. -/
def SearchResult (lists : StaticLinkList) (wanted : Student -> Bool) (cur r : Int) : Prop :=
  (r = -1 ∧ forall i, InSubtree cur i -> i < lists.size -> wanted (lists.list i) = false) ∨
    (0 ≤ r ∧ r < lists.size ∧ wanted (lists.list r) = true)

theorem findHeapBy_spec {lists : StaticLinkList} (hbound : lists.size ≤ MAXSIZE)
    (wanted : Student -> Bool) (fuel : Nat) :
    forall cur : Int, 0 ≤ cur -> 0 < fuel -> lists.size - cur < fuel ->
      exists r, findHeapBy lists wanted fuel cur = some r ∧
        SearchResult lists wanted cur r := by
  induction fuel with
  | zero =>
      intro cur _ hpos _
      exact absurd hpos (lt_irrefl 0)
  | succ fuel ih =>
      intro cur hcur _ hfuel
      have hside : forall c, cur < c ->
          exists r, (if c < lists.size then findHeapBy lists wanted fuel c else some (-1)) =
              some r ∧ SearchResult lists wanted c r := by
        intro c hc
        by_cases hlt : c < lists.size
        · rw [if_pos hlt]
          exact ih c (by lia) (by lia) (by lia)
        · rw [if_neg hlt]
          refine ⟨-1, rfl, Or.inl ⟨rfl, ?_⟩⟩
          intro i hi hin
          have hle := hi.le (by lia)
          lia
      unfold findHeapBy
      by_cases hend : cur ≥ lists.size
      · rw [if_pos hend]
        refine ⟨-1, rfl, Or.inl ⟨rfl, ?_⟩⟩
        intro i hi hin
        have hle := hi.le hcur
        lia
      · have hin : InBounds cur := ⟨hcur, by lia⟩
        rw [if_neg hend, node_eq hin, Option.bind_eq_bind, Option.bind_some]
        by_cases hwanted : wanted (lists.list cur) = true
        · rw [if_pos hwanted]
          exact ⟨cur, rfl, Or.inr ⟨hcur, by lia, hwanted⟩⟩
        · rw [if_neg hwanted]
          rcases hside (cur * 2 + 1) (by lia) with ⟨left, hleft, hleftCase⟩
          rcases hside (cur * 2 + 2) (by lia) with ⟨right, hright, hrightCase⟩
          rw [hleft, Option.bind_eq_bind, Option.bind_some]
          cases hleftCase with
          | inr hfound =>
              rw [if_pos (by lia)]
              exact ⟨left, rfl, Or.inr hfound⟩
          | inl hnone =>
              rw [if_neg (by simp [hnone.left]), hright, Option.bind_some]
              cases hrightCase with
              | inr hfound =>
                  rw [if_pos (by lia)]
                  exact ⟨right, rfl, Or.inr hfound⟩
              | inl hnone' =>
                  rw [if_neg (by simp [hnone'.left])]
                  refine ⟨-1, rfl, Or.inl ⟨rfl, ?_⟩⟩
                  intro i hi hin
                  rw [mul_comm cur 2] at hnone hnone'
                  cases hi.cases_root with
                  | inl heq =>
                      rw [heq]
                      simpa using hwanted
                  | inr hbelow =>
                      cases hbelow with
                      | inl hin' => exact hnone.right i hin' hin
                      | inr hin' => exact hnone'.right i hin' hin

theorem findHeapBy_root {lists : StaticLinkList} (hbound : lists.size ≤ MAXSIZE)
    (wanted : Student -> Bool) :
    exists r, findHeapBy lists wanted (MAXSIZE.toNat + 1) 0 = some r ∧
      ((r = -1 ∧ forall i, 0 ≤ i -> i < lists.size -> wanted (lists.list i) = false) ∨
        (0 ≤ r ∧ r < lists.size ∧ wanted (lists.list r) = true)) := by
  rcases findHeapBy_spec hbound wanted (MAXSIZE.toNat + 1) 0 (le_refl 0)
    (Nat.succ_pos _) (by lia) with ⟨r, hrun, hcase⟩
  refine ⟨r, hrun, ?_⟩
  cases hcase with
  | inl hnone =>
      refine Or.inl ⟨hnone.left, ?_⟩
      intro i hi hin
      exact hnone.right i (inSubtree_zero hi) hin
  | inr hfound => exact Or.inr hfound

theorem ListInv.findHeapBy {lists : StaticLinkList} {chain : List Int} (h : ListInv lists chain)
    (wanted : Student -> Bool) :
    exists r, StaticList.findHeapBy lists wanted (MAXSIZE.toNat + 1) 0 = some r ∧
      ((r = -1 ∧ forall i, i ∈ chain -> wanted (lists.list i) = false) ∨
        (r ∈ chain ∧ wanted (lists.list r) = true)) := by
  rcases findHeapBy_root h.threaded.bound wanted with ⟨r, hrun, hcase⟩
  refine ⟨r, hrun, ?_⟩
  cases hcase with
  | inl hnone =>
      refine Or.inl ⟨hnone.left, ?_⟩
      intro i hi
      have hrange := (h.threaded.mem_iff i).mp hi
      exact hnone.right i hrange.left hrange.right
  | inr hfound =>
      exact Or.inr ⟨(h.threaded.mem_iff r).mpr ⟨hfound.left, hfound.right.left⟩,
        hfound.right.right⟩

theorem ListInv.findHeap {lists : StaticLinkList} {chain : List Int} (h : ListInv lists chain)
    (stu : Student) :
    exists r, StaticList.findHeap lists stu 0 = some r ∧
      ((r = -1 ∧ stu.entry ∉ sequence lists chain) ∨
        (r ∈ chain ∧ (lists.list r).entry = stu.entry)) := by
  have hsame : forall record : Student,
      sameStudent stu record = true <-> record.entry = stu.entry := by
    intro record
    simp [sameStudent, Student.entry]
  rcases h.findHeapBy (sameStudent stu) with ⟨r, hrun, hcase⟩
  refine ⟨r, hrun, ?_⟩
  cases hcase with
  | inl hnone =>
      refine Or.inl ⟨hnone.left, ?_⟩
      intro hmem
      rcases List.mem_map.mp hmem with ⟨i, hi, hentry⟩
      have hmiss := hnone.right i hi
      rw [(hsame _).mpr hentry] at hmiss
      cases hmiss
  | inr hfound => exact Or.inr ⟨hfound.left, (hsame _).mp hfound.right⟩

theorem ListInv.findHeapById {lists : StaticLinkList} {chain : List Int}
    (h : ListInv lists chain) (id : Int) :
    exists r, StaticList.findHeapById lists id 0 = some r ∧
      ((r = -1 ∧ forall i, i ∈ chain -> (lists.list i).id ≠ id) ∨
        (r ∈ chain ∧ (lists.list r).id = id)) := by
  rcases h.findHeapBy (fun record => record.id = id) with ⟨r, hrun, hcase⟩
  exact ⟨r, hrun, by simpa using hcase⟩

theorem ListInv.findHeapByName {lists : StaticLinkList} {chain : List Int}
    (h : ListInv lists chain) (name : Name) :
    exists r, StaticList.findHeapByName lists name 0 = some r ∧
      ((r = -1 ∧ forall i, i ∈ chain -> (lists.list i).name ≠ name) ∨
        (r ∈ chain ∧ (lists.list r).name = name)) := by
  rcases h.findHeapBy (fun record => record.name = name) with ⟨r, hrun, hcase⟩
  exact ⟨r, hrun, by simpa using hcase⟩

/-!
# Changing a student
-/

structure Changes (change : Student -> Student) (g : Entry -> Entry) : Prop where
  nextNode : forall stu, (change stu).nextNode = stu.nextNode
  preNode : forall stu, (change stu).preNode = stu.preNode
  entry : forall stu, (change stu).entry = g stu.entry

section Change

variable {lists : StaticLinkList} {chain : List Int} {change : Student -> Student}
  {g : Entry -> Entry}

theorem ListInv.put (h : ListInv lists chain) (hchange : Changes change g) (i : Int) :
    ListInv (lists.put i (change (lists.list i))) chain := by
  refine ⟨h.size_nonneg, h.threaded.congr ?_ ?_, h.head, h.stack⟩
  · intro x _
    rw [put_list]
    split
    · rename_i heq
      rw [hchange.nextNode, heq]
    · rfl
  · intro x _
    rw [put_list]
    split
    · rename_i heq
      rw [hchange.preNode, heq]
    · rfl

theorem sequence_put {pre post : List Int} {i : Int} (hchange : Changes change g)
    (hnodup : (pre ++ i :: post).Nodup) :
    sequence (lists.put i (change (lists.list i))) (pre ++ i :: post) =
      sequence lists pre ++ g (lists.list i).entry :: sequence lists post := by
  have hperm : (pre ++ i :: post).Perm (i :: (pre ++ post)) := List.perm_middle
  have hfresh := (List.nodup_cons.mp (hperm.nodup_iff.mp hnodup)).left
  have hother : forall x, x ∈ pre ++ post ->
      ((lists.put i (change (lists.list i))).list x).entry = (lists.list x).entry := by
    intro x hx
    have hne : x ≠ i := fun heq => hfresh (heq ▸ hx)
    rw [put_list, if_neg hne]
  rw [sequence_append, sequence_cons, put_self, hchange.entry,
    sequence_congr fun x hx => hother x (List.mem_append_left _ hx),
    sequence_congr fun x hx => hother x (List.mem_append_right _ hx)]

theorem ListInv.changeAt (h : ListInv lists chain) (hchange : Changes change g) {i : Int}
    (hi : 0 ≤ i) (hlt : i < lists.size) (rebuild : Bool) :
    exists lists' chain' pre post,
      StaticList.changeAt lists i change rebuild = some (lists', []) ∧
      ListInv lists' chain' ∧ lists'.size = lists.size ∧ chain = pre ++ i :: post ∧
      sequence lists' chain' =
        sequence lists pre ++ g (lists.list i).entry :: sequence lists post ∧
      (rebuild = true ∨ (forall stu, (change stu).id = stu.id) ->
        HeapOrdered lists -> HeapOrdered lists') ∧
      exists f, Moved lists.size f (lists.put i (change (lists.list i))) lists' := by
  have hmem : i ∈ chain := (h.threaded.mem_iff i).mpr ⟨hi, hlt⟩
  rcases List.append_of_mem hmem with ⟨pre, post, hsplit⟩
  have hseq : sequence (lists.put i (change (lists.list i))) chain =
      sequence lists pre ++ g (lists.list i).entry :: sequence lists post := by
    have hnodup := h.threaded.ring.nodes_nodup
    rw [hsplit] at hnodup ⊢
    exact sequence_put hchange hnodup
  unfold StaticList.changeAt
  rw [modifyNode_eq (h.threaded.inBounds hmem), Option.bind_eq_bind, Option.bind_some]
  cases rebuild with
  | true =>
      rcases (h.put hchange i).initialHeap with
        ⟨lists', chain', hrun, hinv, hsize, hsame, hord, hmoved⟩
      refine ⟨lists', chain', pre, post, ?_, hinv, hsize, hsplit, hsame.trans hseq, ?_, hmoved⟩
      · rw [if_pos rfl, hrun]
        rfl
      · intro _ _
        exact hord
  | false =>
      refine ⟨_, chain, pre, post, rfl, h.put hchange i, rfl, hsplit, hseq, ?_, _,
        Moved.refl _ fun _ => rfl⟩
      intro hcase hord
      cases hcase with
      | inl hbad => cases hbad
      | inr hid =>
          have hids : ids (lists.put i (change (lists.list i))) = ids lists := by
            funext x
            unfold ids
            rw [put_list]
            split
            · rename_i heq
              rw [hid, heq]
            · rfl
          unfold HeapOrdered
          rw [hids]
          exact hord

end Change

end StaticList
end OsLabs
