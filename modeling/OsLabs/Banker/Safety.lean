import Mathlib
import OsLabs.Banker.Model

/-!
# What the safety check decides

`safecheck` pretends that the request has been granted.  It is the greedy
search for an order of all processes in the state that `resource_request` would
commit, and never has to go back.
-/

namespace OsLabs
namespace Banker

open Foundation

variable {N M : Nat} {s : Bank N M} {request work : Fin M -> Int} {pro_i : Fin N}

instance decidableLeRow (a b : Fin M -> Int) : Decidable (a ≤ b) :=
  inferInstanceAs (Decidable (forall k, a k ≤ b k))

/-- Some order of all processes covers each need by what is then available. -/
def Bank.Safe (s : Bank N M) : Prop :=
  CanComplete s.need s.allocation s.available (List.finRange N)

theorem find_finRange_eq_none {p : Fin M -> Bool} :
    (List.finRange M).find? p = none <-> forall k, p k = false := by
  rw [List.find?_eq_none]
  constructor
  · intro h k
    exact Bool.not_eq_true _ ▸ h k (List.mem_finRange k)
  · intro h k _
    rw [h k]
    exact Bool.false_ne_true

theorem find_beyond_eq_none {a b : Fin M -> Int} :
    ((List.finRange M).find? fun k => decide (a k > b k)) = none <-> a ≤ b := by
  rw [find_finRange_eq_none]
  constructor
  · intro h k
    exact not_lt.mp (of_decide_eq_false (h k))
  · intro h k
    exact decide_eq_false (not_lt.mpr (h k))

/-!
# The pretended state
-/

theorem commit_need (j : Fin N) :
    (commit s request pro_i).need j =
      if j = pro_i then fun k => s.need pro_i k - request k else s.need j :=
  Function.update_apply s.need pro_i _ j

theorem commit_allocation (j : Fin N) :
    (commit s request pro_i).allocation j =
      if j = pro_i then fun k => s.allocation pro_i k + request k else s.allocation j :=
  Function.update_apply s.allocation pro_i _ j

theorem fits_iff (j : Fin N) :
    fits s request pro_i work j = true <-> (commit s request pro_i).need j ≤ work := by
  unfold fits
  rw [commit_need]
  by_cases hj : j = pro_i
  · rw [if_pos hj, if_pos hj, Option.isNone_iff_eq_none]
    exact find_beyond_eq_none
  · rw [if_neg hj, if_neg hj, Option.isNone_iff_eq_none]
    exact find_beyond_eq_none

theorem release_eq (j : Fin N) :
    release s request pro_i work j = work + (commit s request pro_i).allocation j := by
  unfold release
  rw [commit_allocation]
  by_cases hj : j = pro_i
  · rw [if_pos hj, if_pos hj]
    rfl
  · rw [if_neg hj, if_neg hj]
    rfl

theorem commit_zero (s : Bank N M) (j : Fin N) : commit s 0 j = s := by
  apply Bank.ext
  · funext k
    exact sub_zero _
  · change Function.update s.need j (fun k => s.need j k - 0) = s.need
    simp only [sub_zero]
    exact Function.update_eq_self j s.need
  · change Function.update s.allocation j (fun k => s.allocation j k + 0) = s.allocation
    simp only [add_zero]
    exact Function.update_eq_self j s.allocation

/-- The check of the pretended state is the check of the committed state. -/
theorem safecheckLoop_commit (j : Fin N) (n : Nat) (c : Check N M) :
    safecheckLoop s request pro_i n c =
      safecheckLoop (commit s request pro_i) 0 j n c := by
  have hfits : forall work, fits s request pro_i work =
      fits (commit s request pro_i) 0 j work := by
    intro work
    funext x
    rw [Bool.eq_iff_iff, fits_iff, fits_iff, commit_zero]
  have hrelease : forall work, release s request pro_i work =
      release (commit s request pro_i) 0 j work := by
    intro work
    funext x
    rw [release_eq, release_eq, commit_zero]
  induction n generalizing c with
  | zero => rfl
  | succ n ih =>
      unfold safecheckLoop
      rw [hfits, hrelease]
      simp only [ih]

/-!
# The search
-/

def waiting (finish : Fin N -> Bool) : List (Fin N) :=
  (List.finRange N).filter fun j => !finish j

theorem mem_waiting {finish : Fin N -> Bool} {j : Fin N} :
    j ∈ waiting finish <-> finish j = false := by
  unfold waiting
  simp

theorem waiting_select {finish : Fin N -> Bool} {j : Fin N} (hj : finish j = false) :
    (waiting finish).Perm (j :: waiting (Function.update finish j true)) := by
  have hmem : j ∈ waiting finish := mem_waiting.mpr hj
  have hnodup : (waiting finish).Nodup := (List.nodup_finRange N).filter _
  have herase : (waiting finish).erase j = waiting (Function.update finish j true) := by
    rw [hnodup.erase_eq_filter]
    unfold waiting
    rw [List.filter_filter]
    apply List.filter_congr
    intro x _
    rw [Function.update_apply]
    by_cases hx : x = j
    · simp [hx]
    · simp [hx]
  rw [← herase]
  exact List.perm_cons_erase hmem

theorem safecheckLoop_iff (hheld : forall j, 0 ≤ (commit s request pro_i).allocation j)
    (n : Nat) (c : Check N M) (hn : (waiting c.finish).length = n) :
    (safecheckLoop s request pro_i n c).fst = ExitStatus.success <->
      CanComplete (commit s request pro_i).need (commit s request pro_i).allocation c.work
        (waiting c.finish) := by
  induction n generalizing c with
  | zero =>
      rw [List.eq_nil_of_length_eq_zero hn]
      exact ⟨fun _ => canComplete_nil, fun _ => rfl⟩
  | succ n ih =>
      unfold safecheckLoop
      cases hfind : (List.finRange N).find?
          fun j => !c.finish j && fits s request pro_i c.work j with
      | none =>
          constructor
          · intro hfalse
            cases hfalse
          · intro hcan
            have hsome : waiting c.finish ≠ [] := by
              intro hnil
              rw [hnil] at hn
              cases hn
            rcases hcan.exists_fit hsome with ⟨j, hj, hfit⟩
            have hnot := find_finRange_eq_none.mp hfind j
            rw [mem_waiting.mp hj, (fits_iff j).mpr hfit] at hnot
            cases hnot
      | some j =>
          have hj := List.find?_some hfind
          rw [Bool.and_eq_true, Bool.not_eq_true'] at hj
          have hfit := (fits_iff j).mp hj.right
          have hperm := waiting_select hj.left
          have hlength : (waiting (Function.update c.finish j true)).length = n := by
            have heq := hperm.length_eq
            rw [hn, List.length_cons] at heq
            lia
          simp only
          rw [ih _ hlength, release_eq]
          simp only
          rw [← canComplete_cons hheld hfit]
          exact ⟨fun h => h.perm hperm.symm, fun h => h.perm hperm⟩

theorem safecheck_iff (hheld : forall j, 0 ≤ (commit s request pro_i).allocation j) :
    (safecheck s request pro_i work).fst = ExitStatus.success <->
      CanComplete (commit s request pro_i).need (commit s request pro_i).allocation work
        (List.finRange N) := by
  have hall : waiting (fun _ : Fin N => false) = List.finRange N := by
    unfold waiting
    simp
  unfold safecheck
  rw [safecheckLoop_iff hheld]
  · rw [hall]
  · rw [hall, List.length_finRange]

/-!
# The request
-/

theorem resourceRequest_cases (s : Bank N M) (request : Fin M -> Int) (pro_i : Fin N) :
    ((resourceRequest s request pro_i).fst.ret = ExitStatus.success ∧
      request ≤ s.need pro_i ∧ request ≤ s.available ∧
      (safecheck s request pro_i fun k => s.available k - request k).fst = ExitStatus.success ∧
      (resourceRequest s request pro_i).snd = commit s request pro_i) ∨
    ((resourceRequest s request pro_i).fst.ret = ExitStatus.failure ∧
      (resourceRequest s request pro_i).snd = s ∧
      ¬ (request ≤ s.need pro_i ∧ request ≤ s.available ∧
        (safecheck s request pro_i fun k => s.available k - request k).fst =
          ExitStatus.success)) := by
  unfold resourceRequest
  cases hneed : (List.finRange M).find? fun k => decide (request k > s.need pro_i k) with
  | some k =>
      refine Or.inr ⟨rfl, rfl, ?_⟩
      intro h
      rw [find_beyond_eq_none.mpr h.left] at hneed
      cases hneed
  | none =>
      have hle := find_beyond_eq_none.mp hneed
      cases hfree : (List.finRange M).find? fun k => decide (request k > s.available k) with
      | some k =>
          refine Or.inr ⟨rfl, rfl, ?_⟩
          intro h
          rw [find_beyond_eq_none.mpr h.right.left] at hfree
          cases hfree
      | none =>
          have hle' := find_beyond_eq_none.mp hfree
          rcases hcheck : safecheck s request pro_i fun k => s.available k - request k with
            ⟨ret, c⟩
          cases ret with
          | success => exact Or.inl ⟨rfl, hle, hle', rfl, rfl⟩
          | failure =>
              refine Or.inr ⟨rfl, rfl, ?_⟩
              intro h
              cases h.right.right

end Banker
end OsLabs
