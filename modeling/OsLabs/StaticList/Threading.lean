import Mathlib.Logic.Equiv.Basic
import OsLabs.StaticList.Model

/-!
# The linked list in the array

The indices of a list are a ring whose header is `-1`.  An exchange of two array
records renames two indices of that ring and leaves the students in their
places.
-/

namespace OsLabs
namespace StaticList

open Foundation
open Foundation.Links
open StaticLinkList

/-- The pointers of a list over the indices `chain`; the two ends point to `-1`. -/
def heapLinks (lists : StaticLinkList) (chain : List Int) : Links Int where
  next i := if i = -1 then firstTo chain (-1) else (lists.list i).nextNode
  prev i := if i = -1 then lastFrom (-1) chain else (lists.list i).preNode

structure Threaded (lists : StaticLinkList) (m : Int) (chain : List Int) : Prop where
  bound : m ≤ MAXSIZE
  mem_iff : forall i, i ∈ chain <-> 0 ≤ i ∧ i < m
  ring : Ring (heapLinks lists chain) (-1) chain

/-- The indices `chain` are linked in this order, whichever indices of the array they are. -/
structure WellLinked (lists : StaticLinkList) (chain : List Int) : Prop where
  inBounds : forall i, i ∈ chain -> InBounds i
  ring : Ring (heapLinks lists chain) (-1) chain

section WellLinked

variable {lists : StaticLinkList} {chain : List Int}

theorem WellLinked.ne_header (h : WellLinked lists chain) {i : Int} (hi : i ∈ chain) :
    i ≠ -1 := by
  have hlow := (h.inBounds i hi).left
  lia

theorem WellLinked.link_inBounds (h : WellLinked lists chain) {v : Int} (hv : v ∈ -1 :: chain)
    (hne : v ≠ -1) : InBounds v := by
  cases List.mem_cons.mp hv with
  | inl heq => exact absurd heq hne
  | inr hmem => exact h.inBounds v hmem

theorem WellLinked.next_eq (h : WellLinked lists chain) {i : Int} (hi : i ∈ chain) :
    (heapLinks lists chain).next i = (lists.list i).nextNode := if_neg (h.ne_header hi)

theorem WellLinked.prev_eq (h : WellLinked lists chain) {i : Int} (hi : i ∈ chain) :
    (heapLinks lists chain).prev i = (lists.list i).preNode := if_neg (h.ne_header hi)

theorem WellLinked.congr {lists' : StaticLinkList} (h : WellLinked lists chain)
    (hnext : forall i, i ∈ chain -> (lists'.list i).nextNode = (lists.list i).nextNode)
    (hpre : forall i, i ∈ chain -> (lists'.list i).preNode = (lists.list i).preNode) :
    WellLinked lists' chain := by
  have hring : Ring (heapLinks lists' chain) (-1) (chain.map id) := by
    apply h.ring.map_of Function.injective_id rfl
    · intro c hc
      unfold heapLinks
      cases List.mem_cons.mp hc with
      | inl heq => simp [heq]
      | inr hin => simp [hnext c hin]
    · intro c hc
      unfold heapLinks
      cases List.mem_cons.mp hc with
      | inl heq => simp [heq]
      | inr hin => simp [hpre c hin]
  rw [List.map_id] at hring
  exact ⟨h.inBounds, hring⟩

theorem WellLinked.nextNode_at (h : WellLinked lists chain) {i : Int} {xs ys : List Int}
    (hsplit : chain = xs ++ i :: ys) : (lists.list i).nextNode = firstTo ys (-1) := by
  have hi : i ∈ chain := by simp [hsplit]
  rw [← h.next_eq hi]
  have hring := h.ring
  rw [hsplit] at hring ⊢
  exact hring.next_node

theorem WellLinked.preNode_at (h : WellLinked lists chain) {i : Int} {xs ys : List Int}
    (hsplit : chain = xs ++ i :: ys) : (lists.list i).preNode = lastFrom (-1) xs := by
  have hi : i ∈ chain := by simp [hsplit]
  rw [← h.prev_eq hi]
  have hring := h.ring
  rw [hsplit] at hring ⊢
  exact hring.prev_node

theorem WellLinked.nextNode_mem (h : WellLinked lists chain) {i : Int} (hi : i ∈ chain) :
    (lists.list i).nextNode ∈ -1 :: chain := by
  rcases List.append_of_mem hi with ⟨xs, ys, hsplit⟩
  rw [h.nextNode_at hsplit, hsplit]
  cases List.mem_cons.mp (firstTo_mem ys (-1)) with
  | inl heq => simp [heq]
  | inr hmem => simp [hmem]

theorem WellLinked.preNode_mem (h : WellLinked lists chain) {i : Int} (hi : i ∈ chain) :
    (lists.list i).preNode ∈ -1 :: chain := by
  rcases List.append_of_mem hi with ⟨xs, ys, hsplit⟩
  rw [h.preNode_at hsplit, hsplit]
  cases List.mem_cons.mp (lastFrom_mem (-1) xs) with
  | inl heq => simp [heq]
  | inr hmem => simp [hmem]

theorem WellLinked.nextNode_iff (h : WellLinked lists chain) {i j : Int} (hi : i ∈ chain)
    (hj : j ∈ chain) : (lists.list i).nextNode = j <-> (lists.list j).preNode = i := by
  rw [← h.next_eq hi, ← h.prev_eq hj]
  constructor
  · intro heq
    rw [← heq]
    exact (h.ring.inverse (List.mem_cons_of_mem _ hi)).left
  · intro heq
    rw [← heq]
    exact (h.ring.inverse (List.mem_cons_of_mem _ hj)).right

theorem WellLinked.preNode_header_iff (h : WellLinked lists chain) {i : Int} (hi : i ∈ chain) :
    (lists.list i).preNode = -1 <-> firstTo chain (-1) = i := by
  rw [← h.prev_eq hi, ← h.ring.next_header]
  constructor
  · intro heq
    rw [← heq]
    exact (h.ring.inverse (List.mem_cons_of_mem _ hi)).right
  · intro heq
    rw [← heq]
    exact (h.ring.inverse List.mem_cons_self).left

theorem WellLinked.nextNode_ne (h : WellLinked lists chain) {i : Int} (hi : i ∈ chain) :
    (lists.list i).nextNode ≠ i := by
  rcases List.append_of_mem hi with ⟨xs, ys, hsplit⟩
  rw [h.nextNode_at hsplit]
  intro heq
  have hmem := firstTo_mem ys (-1)
  rw [heq] at hmem
  cases List.mem_cons.mp hmem with
  | inl hbad => exact h.ne_header hi hbad
  | inr hbad =>
      have hnodup := h.ring.nodes_nodup
      rw [hsplit] at hnodup
      exact (List.nodup_cons.mp (List.nodup_append.mp hnodup).right.left).left hbad

theorem WellLinked.preNode_ne (h : WellLinked lists chain) {i : Int} (hi : i ∈ chain) :
    (lists.list i).preNode ≠ i := by
  intro heq
  exact h.nextNode_ne hi ((h.nextNode_iff hi hi).mpr heq)

end WellLinked

section Threaded

variable {lists : StaticLinkList} {m : Int} {chain : List Int}

theorem Threaded.inBounds (h : Threaded lists m chain) {i : Int} (hi : i ∈ chain) :
    InBounds i := by
  have hrange := (h.mem_iff i).mp hi
  have hbound := h.bound
  unfold InBounds
  lia

theorem Threaded.wellLinked (h : Threaded lists m chain) : WellLinked lists chain :=
  ⟨fun _ hi => h.inBounds hi, h.ring⟩

theorem Threaded.congr {lists' : StaticLinkList} (h : Threaded lists m chain)
    (hnext : forall i, i ∈ chain -> (lists'.list i).nextNode = (lists.list i).nextNode)
    (hpre : forall i, i ∈ chain -> (lists'.list i).preNode = (lists.list i).preNode) :
    Threaded lists' m chain :=
  ⟨h.bound, h.mem_iff, (h.wellLinked.congr hnext hpre).ring⟩

end Threaded

/-!
# Writing one field
-/

theorem modifyNode_eq {lists : StaticLinkList} {i : Int} (hi : InBounds i)
    (f : Student -> Student) :
    lists.modifyNode i f = some (lists.put i (f (lists.list i))) := if_pos hi

theorem node_eq {lists : StaticLinkList} {i : Int} (hi : InBounds i) :
    lists.node i = some (lists.list i) := if_pos hi

theorem put_list (lists : StaticLinkList) (i : Int) (stu : Student) (x : Int) :
    (lists.put i stu).list x = if x = i then stu else lists.list x :=
  Function.update_apply lists.list i stu x

theorem put_put (lists : StaticLinkList) (i : Int) (stu stu' : Student) :
    (lists.put i stu).put i stu' = lists.put i stu' := by
  unfold put
  rw [Function.update_idem]

theorem put_self (lists : StaticLinkList) (i : Int) (stu : Student) :
    (lists.put i stu).list i = stu := by
  rw [put_list, if_pos rfl]

theorem put_headIndex (lists : StaticLinkList) (i : Int) (stu : Student) :
    (lists.put i stu).headIndex = lists.headIndex := rfl

theorem setPreNode_eq {lists : StaticLinkList} {i : Int} (hi : InBounds i) (value : Int) :
    lists.setPreNode i value = some (lists.put i { lists.list i with preNode := value }) :=
  if_pos hi

theorem setNextNode_eq {lists : StaticLinkList} {i : Int} (hi : InBounds i) (value : Int) :
    lists.setNextNode i value = some (lists.put i { lists.list i with nextNode := value }) :=
  if_pos hi

def nextIf (cond : Prop) [Decidable cond] (lists : StaticLinkList) (i value : Int) :
    StaticLinkList :=
  if cond then lists.put i { lists.list i with nextNode := value } else lists

def preIf (cond : Prop) [Decidable cond] (lists : StaticLinkList) (i value : Int) :
    StaticLinkList :=
  if cond then lists.put i { lists.list i with preNode := value } else lists

section Fields

variable (cond : Prop) [Decidable cond] (lists : StaticLinkList) (i value : Int)

theorem nextIf_eq (h : cond -> InBounds i) :
    (if cond then lists.setNextNode i value else some lists) =
      some (nextIf cond lists i value) := by
  unfold nextIf setNextNode
  by_cases hc : cond
  · rw [if_pos hc, if_pos hc, modifyNode_eq (h hc)]
  · rw [if_neg hc, if_neg hc]

theorem preIf_eq (h : cond -> InBounds i) :
    (if cond then lists.setPreNode i value else some lists) =
      some (preIf cond lists i value) := by
  unfold preIf setPreNode
  by_cases hc : cond
  · rw [if_pos hc, if_pos hc, modifyNode_eq (h hc)]
  · rw [if_neg hc, if_neg hc]

@[simp] theorem nextIf_nextNode (x : Int) :
    ((nextIf cond lists i value).list x).nextNode =
      if cond ∧ x = i then value else (lists.list x).nextNode := by
  unfold nextIf
  by_cases hc : cond
  · rw [if_pos hc, put_list]
    by_cases hx : x = i
    · rw [if_pos hx, if_pos ⟨hc, hx⟩]
    · rw [if_neg hx, if_neg fun h => hx h.right]
  · rw [if_neg hc, if_neg fun h => hc h.left]

@[simp] theorem nextIf_preNode (x : Int) :
    ((nextIf cond lists i value).list x).preNode = (lists.list x).preNode := by
  unfold nextIf
  split
  · rw [put_list]
    split
    · rename_i heq
      rw [heq]
    · rfl
  · rfl

@[simp] theorem preIf_preNode (x : Int) :
    ((preIf cond lists i value).list x).preNode =
      if cond ∧ x = i then value else (lists.list x).preNode := by
  unfold preIf
  by_cases hc : cond
  · rw [if_pos hc, put_list]
    by_cases hx : x = i
    · rw [if_pos hx, if_pos ⟨hc, hx⟩]
    · rw [if_neg hx, if_neg fun h => hx h.right]
  · rw [if_neg hc, if_neg fun h => hc h.left]

@[simp] theorem preIf_nextNode (x : Int) :
    ((preIf cond lists i value).list x).nextNode = (lists.list x).nextNode := by
  unfold preIf
  split
  · rw [put_list]
    split
    · rename_i heq
      rw [heq]
    · rfl
  · rfl

/-- What a record says apart from its place in the list. -/
def Student.data (stu : Student) : Int × Int × Name := (stu.flag, stu.id, stu.name)

@[simp] theorem nextIf_data (x : Int) :
    ((nextIf cond lists i value).list x).data = (lists.list x).data := by
  unfold nextIf
  split
  · rw [put_list]
    split
    · rename_i heq
      rw [heq]
      rfl
    · rfl
  · rfl

@[simp] theorem preIf_data (x : Int) :
    ((preIf cond lists i value).list x).data = (lists.list x).data := by
  unfold preIf
  split
  · rw [put_list]
    split
    · rename_i heq
      rw [heq]
      rfl
    · rfl
  · rfl

end Fields

end StaticList
end OsLabs
