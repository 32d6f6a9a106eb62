import OsLabs.StaticList.HeapRuns

/-!
# Searching any array

The three searches depend on the size and on the records alone: whatever the records and
the links are, each index below the size is reached from the root.
-/

namespace OsLabs
namespace StaticList

open StaticLinkList

def Finds (lists : StaticLinkList) (wanted : Student -> Prop) (r : Int) : Prop :=
  (0 ≤ r ∧ r < lists.size ∧ wanted (lists.list r)) ∨
    (r = -1 ∧ forall i, 0 ≤ i -> i < lists.size -> ¬ wanted (lists.list i))

def Stored (lists : StaticLinkList) (stu : Student) : Prop :=
  exists i, 0 ≤ i ∧ i < lists.size ∧ (lists.list i).id = stu.id ∧ (lists.list i).name = stu.name

/-- A failure is reported exactly when the student is not stored, and nothing is changed
then. -/
def ReportsMissing (lists : StaticLinkList) (stu : Student) (result : Option Modified) : Prop :=
  (Stored lists stu -> forall t out, result = some (t, out) -> out = []) ∧
    (¬ Stored lists stu -> result = some (lists, [notFound]))

theorem changeAt_prints {lists t : StaticLinkList} {out : List String} {index : Int}
    {change : Student -> Student} {rebuild : Bool}
    (hrun : changeAt lists index change rebuild = some (t, out)) : out = [] := by
  unfold changeAt at hrun
  rcases Option.bind_eq_some_iff.mp hrun with ⟨mid, _, hrest⟩
  rcases Option.bind_eq_some_iff.mp hrest with ⟨last, _, hend⟩
  cases hend
  rfl

section Search

variable {lists : StaticLinkList} (hbound : lists.size ≤ MAXSIZE)

include hbound

/-- The searches are one search for different keys. -/
theorem findHeapBy_finds {wanted : Student -> Bool} {key : Student -> Prop}
    (hkey : forall record, wanted record = true <-> key record) :
    exists r, findHeapBy lists wanted (MAXSIZE.toNat + 1) 0 = some r ∧ Finds lists key r := by
  rcases findHeapBy_root hbound wanted with ⟨r, hrun, hcase⟩
  refine ⟨r, hrun, ?_⟩
  cases hcase with
  | inl hnone =>
      refine Or.inr ⟨hnone.left, ?_⟩
      intro i hi hin hmatch
      have hmiss := hnone.right i hi hin
      rw [(hkey _).mpr hmatch] at hmiss
      cases hmiss
  | inr hfound => exact Or.inl ⟨hfound.left, hfound.right.left, (hkey _).mp hfound.right.right⟩

theorem findHeap_finds (stu : Student) : exists r, findHeap lists stu 0 = some r ∧
    Finds lists (fun record => record.id = stu.id ∧ record.name = stu.name) r := by
  apply findHeapBy_finds hbound
  intro record
  unfold sameStudent
  rw [Bool.and_eq_true, decide_eq_true_iff, decide_eq_true_iff]

theorem findHeapById_finds (id : Int) : exists r, findHeapById lists id 0 = some r ∧
    Finds lists (fun record => record.id = id) r := by
  apply findHeapBy_finds hbound
  intro record
  exact decide_eq_true_iff

theorem findHeapByName_finds (name : Name) : exists r, findHeapByName lists name 0 = some r ∧
    Finds lists (fun record => record.name = name) r := by
  apply findHeapBy_finds hbound
  intro record
  exact decide_eq_true_iff

theorem modifyFound_reports (stu : Student) (change : Student -> Student) (rebuild : Bool) :
    ReportsMissing lists stu (modifyFound lists stu change rebuild) := by
  rcases findHeap_finds hbound stu with ⟨r, hrun, hcase⟩
  unfold modifyFound
  rw [hrun, Option.bind_eq_bind, Option.bind_some]
  cases hcase with
  | inl hfound =>
      rw [if_neg (by lia)]
      constructor
      · intro _ t out hchange
        exact changeAt_prints hchange
      · intro hmissing
        exact absurd ⟨r, hfound⟩ hmissing
  | inr hnone =>
      rw [if_pos hnone.left]
      constructor
      · rintro ⟨i, hi, hin, hmatch⟩
        exact absurd hmatch (hnone.right i hi hin)
      · intro _
        rfl

end Search

/-- The searches end and reach every record, and a change by search reports a failure
exactly when the student is not stored. -/
theorem search_exhaustive (lists : StaticLinkList) (hbound : lists.size ≤ MAXSIZE) :
    (forall stu : Student, exists r, findHeap lists stu 0 = some r ∧
      Finds lists (fun record => record.id = stu.id ∧ record.name = stu.name) r) ∧
    (forall id, exists r, findHeapById lists id 0 = some r ∧
      Finds lists (fun record => record.id = id) r) ∧
    (forall name, exists r, findHeapByName lists name 0 = some r ∧
      Finds lists (fun record => record.name = name) r) ∧
    (forall stu id, ReportsMissing lists stu (modifyId lists stu id)) ∧
    (forall stu name, ReportsMissing lists stu (modifyName lists stu name)) ∧
    forall stu id name, ReportsMissing lists stu (modifyIdAndName lists stu id name) := by
  refine ⟨findHeap_finds hbound, findHeapById_finds hbound, findHeapByName_finds hbound,
    ?_, ?_, ?_⟩
  · intro stu id
    exact modifyFound_reports hbound stu _ _
  · intro stu name
    exact modifyFound_reports hbound stu _ _
  · intro stu id name
    exact modifyFound_reports hbound stu _ _

def sixRecords : StaticLinkList where
  list := fun i => setId (10 * i) (blankList.list i)
  headIndex := 0
  size := 6
  unusedIndexs := ⟨fun _ => 0, 0⟩

theorem search_exhaustive_six_records : sixRecords.size ≤ MAXSIZE ∧
    (forall id, exists r, findHeapById sixRecords id 0 = some r ∧
      Finds sixRecords (fun record => record.id = id) r) ∧
    findHeapById sixRecords 50 0 = some 5 := by
  have hbound : sixRecords.size ≤ MAXSIZE := by decide
  exact ⟨hbound, (search_exhaustive sixRecords hbound).right.left, by decide +kernel⟩

end StaticList
end OsLabs
