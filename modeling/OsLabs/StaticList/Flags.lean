import OsLabs.StaticList.HeapRuns

/-!
# The deletion flag

`popHeap` removes the root of the heap, but it clears the flag of the head of the
linked list.  The flags are right along a run exactly when these two are the same
student each time a student is removed.
-/

namespace OsLabs
namespace StaticList

open Foundation
open StaticLinkList

/-- The list together with the students that were removed and whose slots are not
in use again. -/
structure Marked where
  lists : StaticLinkList
  removed : Int -> Option Entry

/-- The slot that the next student is written to holds no removed student any more. -/
def reuse (w : Marked) : Int -> Option Entry :=
  match topStack w.lists.unusedIndexs with
  | some index => Function.update w.removed index none
  | none => w.removed

def noted (w : Marked) : ListOp -> Int -> Option Entry
  | ListOp.insertListAtHead _ | ListOp.pushHeap _ | ListOp.pushHeapByIdAndName _ _ => reuse w
  | ListOp.popHeap =>
      if w.lists.size = 0 then w.removed
      else Function.update w.removed (w.lists.size - 1) (some (w.lists.list 0).entry)
  | _ => w.removed

def markedStep (w : Marked) (op : ListOp) : Option Marked :=
  (op.exec w.lists).map fun lists => { lists := lists, removed := noted w op }

/-- Flag 1 for every stored student, flag 0 for every removed one in the slot it
was moved to. -/
structure WellMarked (w : Marked) : Prop where
  stored : forall i, 0 ≤ i -> i < w.lists.size -> (w.lists.list i).flag = 1
  removed : forall i e, w.removed i = some e ->
    (w.lists.list i).entry = e ∧ (w.lists.list i).flag = 0

/-- The head of the list is the root of the heap when a student is removed. -/
def PopsHead (w : Marked) : ListOp -> Prop
  | ListOp.popHeap => w.lists.size = 0 ∨ w.lists.headIndex = 0
  | _ => True

/-!
# What a step does to the records
-/

/-- The list is well formed, and removed students are behind the stored ones. -/
structure MarkInv (w : Marked) : Prop where
  listInv : exists chain, ListInv w.lists chain
  behind : forall i e, w.removed i = some e -> w.lists.size ≤ i

structure Kept (w w' : Marked) : Prop where
  size : w'.lists.size = w.lists.size
  removed : w'.removed = w.removed
  moved : exists mid f, Moved w.lists.size f mid w'.lists ∧
    (forall x, (mid.list x).flag = (w.lists.list x).flag) ∧
    forall x, w.lists.size ≤ x -> (mid.list x).entry = (w.lists.list x).entry

structure Added (w w' : Marked) : Prop where
  size : w'.lists.size = w.lists.size + 1
  removed : w'.removed = Function.update w.removed w.lists.size none
  moved : exists id name f,
    Moved (w.lists.size + 1) f (addedFront w.lists w.lists.size id name) w'.lists

structure Popped (w w' : Marked) : Prop where
  nonempty : 0 < w.lists.size
  size : w'.lists.size = w.lists.size - 1
  removed : w'.removed =
    Function.update w.removed (w.lists.size - 1) (some (w.lists.list 0).entry)
  moved : exists f stk, Moved w.lists.size f (shrunk w.lists stk) w'.lists ∧
    f 0 = w.lists.size - 1

def Recorded (w w' : Marked) (op : ListOp) : Prop :=
  Kept w w' ∨ Added w w' ∨ (op = ListOp.popHeap ∧ Popped w w')

section Records

variable {w w' : Marked} {lists t : StaticLinkList} {chain : List Int}

def KeepsFlag (change : Student -> Student) : Prop :=
  forall stu, (change stu).flag = stu.flag

theorem Kept.refl (w : Marked) : Kept w w := by
  constructor
  · rfl
  · rfl
  · exact ⟨w.lists, _, Moved.refl _ fun _ => rfl, fun _ => rfl, fun _ _ => rfl⟩

theorem kept_put {lists' : StaticLinkList} {change : Student -> Student} {i : Int}
    {f : Equiv.Perm Int} (hflag : KeepsFlag change) (hlt : i < w.lists.size)
    (hsize : lists'.size = w.lists.size)
    (hmoved : Moved w.lists.size f (w.lists.put i (change (w.lists.list i))) lists') :
    Kept w { w with lists := lists' } := by
  refine ⟨hsize, rfl, _, f, hmoved, ?_, ?_⟩
  · intro x
    rw [put_list]
    split
    · rename_i heq
      rw [hflag, heq]
    · rfl
  · intro x hx
    rw [put_list, if_neg (by lia)]

theorem kept_changeAt {g : Entry -> Entry} {change : Student -> Student} {i : Int}
    {rebuild : Bool} {out : List String} (h : ListInv w.lists chain) (hchange : Changes change g)
    (hflag : KeepsFlag change) (hi : 0 ≤ i) (hlt : i < w.lists.size)
    (hrun : changeAt w.lists i change rebuild = some (t, out)) :
    (exists chain', ListInv t chain') ∧ Kept w { w with lists := t } := by
  rcases h.changeAt hchange hi hlt rebuild with
    ⟨t', chain', pre, post, hrun', hinv, hsize, _, _, _, f, hmoved⟩
  rw [hrun'] at hrun
  cases hrun
  exact ⟨⟨chain', hinv⟩, kept_put hflag hlt hsize hmoved⟩

theorem kept_modifyFound {g : Entry -> Entry} {change : Student -> Student} {stu : Student}
    {rebuild : Bool} (h : ListInv w.lists chain) (hchange : Changes change g)
    (hflag : KeepsFlag change)
    (hrun : (modifyFound w.lists stu change rebuild).map Prod.fst = some t) :
    (exists chain', ListInv t chain') ∧ Kept w { w with lists := t } := by
  rcases Option.map_eq_some_iff.mp hrun with ⟨⟨t', out⟩, hrun', heq⟩
  cases heq
  rcases h.findHeap stu with ⟨r, hfind, hcase⟩
  unfold modifyFound at hrun'
  rw [hfind, Option.bind_eq_bind, Option.bind_some] at hrun'
  cases hcase with
  | inl hnone =>
      rw [if_pos hnone.left] at hrun'
      cases hrun'
      exact ⟨⟨chain, h⟩, Kept.refl w⟩
  | inr hfound =>
      have hrange := (h.threaded.mem_iff r).mp hfound.left
      rw [if_neg (by lia)] at hrun'
      exact kept_changeAt h hchange hflag hrange.left hrange.right hrun'

theorem kept_modifyByIndex {g : Entry -> Entry} {change : Student -> Student} {i : Int}
    {rebuild : Bool} (h : ListInv w.lists chain) (hchange : Changes change g)
    (hflag : KeepsFlag change)
    (hrun : (modifyByIndex w.lists i change rebuild).map Prod.fst = some t) :
    (exists chain', ListInv t chain') ∧ Kept w { w with lists := t } := by
  rcases Option.map_eq_some_iff.mp hrun with ⟨⟨t', out⟩, hrun', heq⟩
  cases heq
  unfold modifyByIndex at hrun'
  by_cases hlt : i < w.lists.size
  · rw [if_neg (by lia)] at hrun'
    by_cases hi : 0 ≤ i
    · exact kept_changeAt h hchange hflag hi hlt hrun'
    · have hout : ¬ InBounds i := fun hin => hi hin.left
      unfold changeAt modifyNode at hrun'
      rw [if_neg hout] at hrun'
      cases hrun'
  · rw [if_pos (by lia)] at hrun'
    cases hrun'
    exact ⟨⟨chain, h⟩, Kept.refl w⟩

theorem ListInv.topStack_full (h : ListInv lists chain) (hfull : ¬ lists.size < MAXSIZE) :
    topStack lists.unusedIndexs = some (-1) := by
  have hbound := h.threaded.bound
  have hsize : lists.size = MAXSIZE := by lia
  rw [h.stack.topStack_eq h.size_nonneg hbound, if_pos hsize]

theorem modifyNode_header (change : Student -> Student) :
    modifyNode lists (-1) change = none := if_neg (by decide)

theorem ListInv.insertListAtHead_room (h : ListInv lists chain) {stu : Student}
    (hrun : StaticList.insertListAtHead lists stu = some t) : lists.size < MAXSIZE := by
  by_cases hfull : lists.size < MAXSIZE
  · exact hfull
  · unfold StaticList.insertListAtHead at hrun
    rw [h.topStack_full hfull, Option.bind_eq_bind, Option.bind_some] at hrun
    dsimp only at hrun
    rw [modifyNode_header] at hrun
    cases hrun

theorem ListInv.pushStudent_room (h : ListInv lists chain) {id : Int} {name : Name}
    (hrun : StaticList.pushStudent lists id name = some t) : lists.size < MAXSIZE := by
  by_cases hfull : lists.size < MAXSIZE
  · exact hfull
  · unfold StaticList.pushStudent at hrun
    rw [h.topStack_full hfull, Option.bind_eq_bind, Option.bind_some] at hrun
    dsimp only at hrun
    rw [modifyNode_header] at hrun
    cases hrun

theorem reuse_eq (h : ListInv w.lists chain) (hroom : w.lists.size < MAXSIZE) :
    reuse w = Function.update w.removed w.lists.size none := by
  unfold reuse
  rw [h.topStack_eq hroom]

theorem added_insertListAtHead {stu : Student} (h : ListInv w.lists chain)
    (hrun : insertListAtHead w.lists stu = some t) :
    (exists chain', ListInv t chain') ∧ Added w { lists := t, removed := reuse w } := by
  have hroom := h.insertListAtHead_room hrun
  rcases h.insertListAtHead hroom stu with ⟨t', chain', hrun', hinv, hsize, _⟩
  rw [hrun] at hrun'
  cases hrun'
  refine ⟨⟨chain', hinv⟩, hsize, reuse_eq h hroom, stu.id, stu.name, _, Moved.refl _ ?_⟩
  rw [h.insertListAtHead_eq hroom] at hrun
  cases hrun
  intro x
  rfl

theorem added_pushStudent {id : Int} {name : Name} (h : ListInv w.lists chain)
    (hrun : pushStudent w.lists id name = some t) :
    (exists chain', ListInv t chain') ∧ Added w { lists := t, removed := reuse w } := by
  have hroom := h.pushStudent_room hrun
  rcases h.pushStudent hroom id name with ⟨t', chain', hrun', hinv, hsize, _, _, hmoved⟩
  rw [hrun] at hrun'
  cases hrun'
  exact ⟨⟨chain', hinv⟩, hsize, reuse_eq h hroom, id, name, hmoved⟩

theorem popped_popHeap (h : ListInv w.lists chain) (hpos : 0 < w.lists.size) :
    exists t, markedStep w ListOp.popHeap = some t ∧ (exists chain', ListInv t.lists chain') ∧
      Popped w t := by
  rcases h.popHeap hpos with
    ⟨t, chain', pre, post, hrun, hinv, hsize, _, _, _, f, stk, hmoved, hroot⟩
  have hne : w.lists.size ≠ 0 := by lia
  refine ⟨⟨t, noted w ListOp.popHeap⟩, ?_, ⟨chain', hinv⟩, hpos, hsize, if_neg hne, f, stk,
    hmoved, hroot⟩
  unfold markedStep ListOp.exec
  rw [hrun]
  rfl

theorem markedStep_cases {op : ListOp} (h : ListInv w.lists chain)
    (hrun : markedStep w op = some w') :
    (exists chain', ListInv w'.lists chain') ∧ Recorded w w' op := by
  have hkept : forall {t}, (exists chain', ListInv t chain') ∧ Kept w { w with lists := t } ->
      (exists chain', ListInv t chain') ∧ Recorded w { w with lists := t } op :=
    fun hcase => ⟨hcase.left, Or.inl hcase.right⟩
  have hadded : forall {t},
      (exists chain', ListInv t chain') ∧ Added w { lists := t, removed := reuse w } ->
      (exists chain', ListInv t chain') ∧ Recorded w { lists := t, removed := reuse w } op :=
    fun hcase => ⟨hcase.left, Or.inr (Or.inl hcase.right)⟩
  rcases Option.map_eq_some_iff.mp hrun with ⟨t, hexec, heq⟩
  cases op with
  | insertListAtHead stu =>
      cases heq
      exact hadded (added_insertListAtHead h hexec)
  | initialHeap =>
      cases heq
      apply hkept
      rcases h.initialHeap with ⟨t', chain', hrun', hinv, hsize, _, _, f, hmoved⟩
      rw [show ListOp.exec w.lists ListOp.initialHeap = initialHeap w.lists from rfl, hrun'] at hexec
      cases hexec
      exact ⟨⟨chain', hinv⟩, hsize, rfl, w.lists, f, hmoved, fun _ => rfl, fun _ _ => rfl⟩
  | pushHeap stu =>
      cases heq
      exact hadded (added_pushStudent h hexec)
  | pushHeapByIdAndName id name =>
      cases heq
      exact hadded (added_pushStudent h hexec)
  | popHeap =>
      by_cases hempty : w.lists.size = 0
      · have hsame : StaticList.popHeap w.lists = some w.lists := if_pos hempty
        have hnoted : noted w ListOp.popHeap = w.removed := if_pos hempty
        rw [show ListOp.exec w.lists ListOp.popHeap = popHeap w.lists from rfl, hsame] at hexec
        cases hexec
        rw [hnoted] at heq
        cases heq
        exact ⟨⟨chain, h⟩, Or.inl (Kept.refl w)⟩
      · have hnonneg := h.size_nonneg
        rcases popped_popHeap h (show 0 < w.lists.size by lia) with ⟨t', hrun', hinv, hpopped⟩
        rw [hrun] at hrun'
        cases hrun'
        exact ⟨hinv, Or.inr (Or.inr ⟨rfl, hpopped⟩)⟩
  | modifyId stu id =>
      cases heq
      exact hkept (kept_modifyFound h (changes_setId id) (fun _ => rfl) hexec)
  | modifyName stu name =>
      cases heq
      exact hkept (kept_modifyFound h (changes_setName name) (fun _ => rfl) hexec)
  | modifyIdAndName stu id name =>
      cases heq
      exact hkept (kept_modifyFound h (changes_setIdAndName id name) (fun _ => rfl) hexec)
  | modifyIdByIndex index id =>
      cases heq
      exact hkept (kept_modifyByIndex h (changes_setId id) (fun _ => rfl) hexec)
  | modifyNameByIndex index name =>
      cases heq
      exact hkept (kept_modifyByIndex h (changes_setName name) (fun _ => rfl) hexec)
  | modifyIdAndNameByIndex index id name =>
      cases heq
      exact hkept (kept_modifyByIndex h (changes_setIdAndName id name) (fun _ => rfl) hexec)

end Records

/-!
# The flags after a step
-/

theorem flag_of_data {stu stu' : Student} (h : stu.data = stu'.data) : stu.flag = stu'.flag :=
  congrArg Prod.fst h

section Moves

variable {n : Int} {f : Equiv.Perm Int} {heap heap' : StaticLinkList}

theorem Moved.outside (h : Moved n f heap heap') {i : Int} (hi : n ≤ i) :
    (heap'.list i).data = (heap.list i).data := by
  have hdata := h.data i
  rw [h.fixes i (Or.inr hi)] at hdata
  exact hdata

theorem Moved.source (h : Moved n f heap heap') {i : Int} (hi : 0 ≤ i) (hlt : i < n) :
    exists x, 0 ≤ x ∧ x < n ∧ f x = i ∧ (heap'.list i).data = (heap.list x).data := by
  have himage : f (f.symm i) = i := f.apply_symm_apply i
  have hdata := h.data (f.symm i)
  rw [himage] at hdata
  have hrange : 0 ≤ f.symm i ∧ f.symm i < n := by
    apply Classical.byContradiction
    intro hout
    have hfixed := h.fixes (f.symm i) (by lia)
    rw [himage] at hfixed
    rw [← hfixed] at hout
    exact hout ⟨hi, hlt⟩
  exact ⟨f.symm i, hrange.left, hrange.right, himage, hdata⟩

end Moves

section Flags

variable {w w' : Marked} {op : ListOp}

theorem shrunk_flag (lists : StaticLinkList) (stk : Stack) (x : Int) :
    ((shrunk lists stk).list x).flag =
      if x = lists.headIndex then 0 else (lists.list x).flag := by
  change ((lists.put _ _).list x).flag = _
  rw [put_list]
  split
  · rfl
  · rfl

theorem MarkInv.recorded (h : MarkInv w) (hinv : exists chain, ListInv w'.lists chain)
    (hstep : Recorded w w' op) : MarkInv w' := by
  refine ⟨hinv, ?_⟩
  intro i e hi
  rcases hstep with hkept | hadded | ⟨_, hpopped⟩
  · rw [hkept.removed] at hi
    rw [hkept.size]
    exact h.behind i e hi
  · rw [hadded.removed, Function.update_apply] at hi
    rw [hadded.size]
    split at hi
    · cases hi
    · have hle := h.behind i e hi
      lia
  · rw [hpopped.removed, Function.update_apply] at hi
    rw [hpopped.size]
    split at hi
    · lia
    · have hle := h.behind i e hi
      lia

theorem WellMarked.kept (h : WellMarked w) (hinv : MarkInv w) (hstep : Kept w w') :
    WellMarked w' := by
  rcases hstep.moved with ⟨mid, f, hmoved, hflag, hentry⟩
  constructor
  · intro i hi hlt
    rw [hstep.size] at hlt
    rcases hmoved.source hi hlt with ⟨x, hx, hxlt, _, hdata⟩
    rw [flag_of_data hdata, hflag]
    exact h.stored x hx hxlt
  · intro i e hi
    rw [hstep.removed] at hi
    have hle := hinv.behind i e hi
    have hdata := hmoved.outside hle
    rw [entry_of_data hdata, flag_of_data hdata, hentry i hle, hflag]
    exact h.removed i e hi

theorem WellMarked.added (h : WellMarked w) (hinv : MarkInv w) (hstep : Added w w') :
    WellMarked w' := by
  rcases hstep.moved with ⟨id, name, f, hmoved⟩
  constructor
  · intro i hi hlt
    rw [hstep.size] at hlt
    rcases hmoved.source hi hlt with ⟨x, hx, hxlt, _, hdata⟩
    rw [flag_of_data hdata]
    by_cases hnew : x = w.lists.size
    · rw [hnew]
      exact congrArg Prod.fst addedFront_new_data
    · rw [flag_of_data (addedFront_data hnew)]
      exact h.stored x hx (by lia)
  · intro i e hi
    rw [hstep.removed, Function.update_apply] at hi
    split at hi
    · cases hi
    · rename_i hne
      have hle := hinv.behind i e hi
      have hdata := (hmoved.outside (by lia)).trans (addedFront_data hne)
      rw [entry_of_data hdata, flag_of_data hdata]
      exact h.removed i e hi

theorem WellMarked.popped (h : WellMarked w) (hinv : MarkInv w) (hstep : Popped w w')
    (hhead : w.lists.headIndex = 0) : WellMarked w' := by
  rcases hstep.moved with ⟨f, stk, hmoved, hroot⟩
  have hpos := hstep.nonempty
  constructor
  · intro i hi hlt
    rw [hstep.size] at hlt
    rcases hmoved.source hi (by lia) with ⟨x, hx, hxlt, hfx, hdata⟩
    have hne : x ≠ w.lists.headIndex := by
      rw [hhead]
      intro hzero
      rw [hzero, hroot] at hfx
      lia
    rw [flag_of_data hdata, shrunk_flag, if_neg hne]
    exact h.stored x hx hxlt
  · intro i e hi
    rw [hstep.removed, Function.update_apply] at hi
    split at hi
    · rename_i hslot
      cases hi
      have hdata := hmoved.data 0
      rw [hroot, ← hslot] at hdata
      rw [entry_of_data hdata, flag_of_data hdata, shrunk_entry, shrunk_flag, hhead]
      exact ⟨rfl, rfl⟩
    · have hle := hinv.behind i e hi
      have hdata := hmoved.outside hle
      rw [entry_of_data hdata, flag_of_data hdata, shrunk_entry, shrunk_flag,
        if_neg (show i ≠ w.lists.headIndex by lia)]
      exact h.removed i e hi

/-- The removed record keeps flag 1 if it was not the head. -/
theorem Popped.not_wellMarked (hstep : Popped w w') (h : WellMarked w)
    (hhead : w.lists.headIndex ≠ 0) : ¬ WellMarked w' := by
  intro h'
  rcases hstep.moved with ⟨f, stk, hmoved, hroot⟩
  have hremoved := (h'.removed (w.lists.size - 1) (w.lists.list 0).entry (by
    rw [hstep.removed, Function.update_self])).right
  have hdata := hmoved.data 0
  rw [hroot] at hdata
  rw [flag_of_data hdata, shrunk_flag, if_neg hhead.symm,
    h.stored 0 (le_refl 0) hstep.nonempty] at hremoved
  cases hremoved

end Flags

/-!
# Whole runs
-/

section Runs

variable {w w' : Marked} {op : ListOp}

theorem MarkInv.step (h : MarkInv w) (hrun : markedStep w op = some w') : MarkInv w' := by
  rcases h.listInv with ⟨chain, hlist⟩
  rcases markedStep_cases hlist hrun with ⟨hinv, hrecorded⟩
  exact h.recorded hinv hrecorded

theorem WellMarked.step (h : WellMarked w) (hinv : MarkInv w) (hpops : PopsHead w op)
    (hrun : markedStep w op = some w') : WellMarked w' := by
  rcases hinv.listInv with ⟨chain, hlist⟩
  rcases (markedStep_cases hlist hrun).right with hkept | hadded | ⟨hop, hpopped⟩
  · exact h.kept hinv hkept
  · exact h.added hinv hadded
  · subst hop
    have hpos := hpopped.nonempty
    cases hpops with
    | inl hempty => lia
    | inr hhead => exact h.popped hinv hpopped hhead

theorem WellMarked.step_fails (h : WellMarked w) (hinv : MarkInv w) (hpops : ¬ PopsHead w op) :
    exists w', markedStep w op = some w' ∧ ¬ WellMarked w' := by
  rcases hinv.listInv with ⟨chain, hlist⟩
  cases op with
  | popHeap =>
      have hnonneg := hlist.size_nonneg
      have hempty : w.lists.size ≠ 0 := fun hzero => hpops (Or.inl hzero)
      have hhead : w.lists.headIndex ≠ 0 := fun hzero => hpops (Or.inr hzero)
      rcases popped_popHeap hlist (show 0 < w.lists.size by lia) with ⟨w', hrun, _, hpopped⟩
      exact ⟨w', hrun, hpopped.not_wellMarked h hhead⟩
  | _ => exact absurd trivial hpops

/-- The list as `initialStaticLinkList` leaves it. -/
def unmarked (lists : StaticLinkList) : Marked where
  lists := lists
  removed := fun _ => none

/-- The flags are right after every operation of a run exactly when each student
that is removed is the head of the list. -/
theorem flags_exact (start : StaticLinkList) (ops : List ListOp) :
    exists lists, initialStaticLinkList start = some lists ∧
      ((forall done w, done <+: ops ->
          System.execAll markedStep (unmarked lists) done = some w -> WellMarked w) <->
        System.ExecMeets markedStep PopsHead (unmarked lists) ops) := by
  rcases initialStaticLinkList_spec start with ⟨lists, hrun, hinv, hsize⟩
  refine ⟨lists, hrun, ?_⟩
  apply @System.execMeets_iff _ _ markedStep PopsHead MarkInv WellMarked
  · intro w op w' hw hstep
    exact hw.step hstep
  · intro w op w' hw hmarked hpops hstep
    exact hmarked.step hw hpops hstep
  · intro w op hw hmarked hpops
    exact hmarked.step_fails hw hpops
  · refine ⟨⟨[], hinv⟩, ?_⟩
    intro i e hi
    cases hi
  · constructor
    · intro i hi hlt
      change i < lists.size at hlt
      lia
    · intro i e hi
      cases hi

def ascendingPushes : List ListOp :=
  [ListOp.pushHeap (setId 1 (blankList.list 0)), ListOp.pushHeap (setId 2 (blankList.list 0)),
    ListOp.popHeap]

/-- The student that stays is marked as deleted, and the removed one is not. -/
theorem popHeap_marks_head :
    exists lists w, initialStaticLinkList blankList = some lists ∧
      System.execAll markedStep (unmarked lists) ascendingPushes = some w ∧
      w.removed 1 = some (setId 1 (blankList.list 0)).entry ∧ (w.lists.list 1).flag = 1 ∧
      w.lists.size = 1 ∧ (w.lists.list 0).flag = 0 ∧ ¬ WellMarked w := by
  have hrun : ((initialStaticLinkList blankList).bind fun lists =>
      (System.execAll markedStep (unmarked lists) ascendingPushes).map fun w =>
        (w.removed 1, (w.lists.list 1).flag, w.lists.size, (w.lists.list 0).flag)) =
      some (some (setId 1 (blankList.list 0)).entry, 1, 1, 0) := by
    decide +kernel
  rcases Option.bind_eq_some_iff.mp hrun with ⟨lists, hinit, hexec⟩
  rcases Option.map_eq_some_iff.mp hexec with ⟨w, hsteps, hresult⟩
  injection hresult with hremoved hresult
  injection hresult with hflag hresult
  injection hresult with hsize hroot
  refine ⟨lists, w, hinit, hsteps, hremoved, hflag, hsize, hroot, ?_⟩
  intro hmarked
  have hone := hmarked.stored 0 (le_refl 0) (by lia)
  rw [hroot] at hone
  cases hone

end Runs

end StaticList
end OsLabs
