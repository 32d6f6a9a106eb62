import OsLabs.Banker.Runs

/-!
# The bank never deadlocks

In every state that the program reaches there is an order of the processes in which each
of them gets all that it needs and then gives back all that it holds.  Every request on
the way is granted, and in the end the bank is as it was at the start.
-/

namespace OsLabs
namespace Banker

open Foundation

variable {N M : Nat} {resource : Fin M -> Int} {max : Fin N -> Fin M -> Int} {s t : Bank N M}
  {j : Fin N} {todo done order : List (Fin N)}

/-- Process `j` asks for `request`, gets it, and the tables are those of `t`. -/
def Grants (s : Bank N M) (j : Fin N) (request : Fin M -> Int) (t : Bank N M) : Prop :=
  (resourceRequest s request j).fst.ret = ExitStatus.success ∧
    (resourceRequest s request j).snd = t

/-- Process `j` gets all that it may claim, and gives all of it back. -/
def Finishes (max : Fin N -> Fin M -> Int) (s : Bank N M) (j : Fin N) (t : Bank N M) : Prop :=
  exists u, Grants s j (s.need j) u ∧ u.allocation j = max j ∧
    Grants u j (-u.allocation j) t ∧ t.allocation j = 0

def FinishAll (max : Fin N -> Fin M -> Int) : Bank N M -> List (Fin N) -> Bank N M -> Prop
  | s, [], t => s = t
  | s, j :: js, t => exists u, Finishes max s j u ∧ FinishAll max u js t

/-!
# Granted requests
-/

theorem grants_commit {request : Fin M -> Int} (hneed : request ≤ s.need j)
    (hfree : request ≤ s.available) (hheld : forall i, 0 ≤ (commit s request j).allocation i)
    (hsafe : (commit s request j).Safe) : Grants s j request (commit s request j) := by
  have hcheck : (safecheck s request j fun k => s.available k - request k).fst =
      ExitStatus.success := (safecheck_iff hheld).mpr hsafe
  rcases resourceRequest_cases s request j with ⟨hret, _, _, _, hnext⟩ | ⟨_, _, hnot⟩
  · exact ⟨hret, hnext⟩
  · exact absurd ⟨hneed, hfree, hcheck⟩ hnot

theorem commit_other {request : Fin M -> Int} {i : Fin N} (hi : i ≠ j) :
    (commit s request j).need i = s.need i ∧
      (commit s request j).allocation i = s.allocation i := by
  rw [commit_need, commit_allocation, if_neg hi, if_neg hi]
  exact ⟨rfl, rfl⟩

theorem Accounts.nonneg (h : Accounts resource max s) (i : Fin N) : 0 ≤ s.allocation i :=
  fun k => h.held_nonneg i k

/-!
# Those that are still to finish
-/

/-- The processes `todo` can finish in this order, and those in `done` hold nothing. -/
structure Half (resource : Fin M -> Int) (max : Fin N -> Fin M -> Int) (s : Bank N M)
    (todo done : List (Fin N)) : Prop where
  accounts : Accounts resource max s
  all : (todo ++ done).Perm (List.finRange N)
  completes : Completes s.need s.allocation s.available todo
  idle : forall i, i ∈ done -> s.allocation i = 0

theorem Half.nodup (h : Half resource max s todo done) : (todo ++ done).Nodup :=
  h.all.nodup_iff.mpr (List.nodup_finRange N)

theorem Half.returned (h : Half resource max s todo done) :
    s.available + (todo.map s.allocation).sum = resource := by
  funext k
  have hbalance := h.accounts.balance k
  have hsum : (∑ i, s.allocation i) = (todo.map s.allocation).sum := by
    rw [Fin.sum_univ_def, ← (h.all.map s.allocation).sum_eq, List.map_append, List.sum_append]
    have hnone : (done.map s.allocation).sum = 0 := by
      apply List.sum_eq_zero
      intro row hrow
      rcases List.mem_map.mp hrow with ⟨i, hi, rfl⟩
      exact h.idle i hi
    rw [hnone, add_zero]
  rw [← hsum, Pi.add_apply, Finset.sum_apply]
  exact hbalance

theorem Half.safe (h : Half resource max s todo done) (hmax : forall i, max i ≤ resource) :
    s.Safe := by
  refine ⟨todo ++ done, h.all, ?_⟩
  rw [completes_append, h.returned]
  refine ⟨h.completes, ?_⟩
  apply completes_of_forall_le h.accounts.nonneg
  intro i _ k
  have hneed := h.accounts.need_eq i k
  have hheld := h.accounts.held_nonneg i k
  have hle := hmax i k
  lia

/-!
# One process finishes
-/

/-- The next process asks for all that it needs: it may go first in the new state. -/
theorem Half.borrow (h : Half resource max s (j :: todo) done) (hmax : forall i, max i ≤ resource) :
    Grants s j (s.need j) (commit s (s.need j) j) ∧
      Half resource max (commit s (s.need j) j) (j :: todo) done ∧
      (commit s (s.need j) j).allocation j = max j ∧ (commit s (s.need j) j).need j = 0 := by
  have hfit : s.need j ≤ s.available := h.completes.left
  have hfull : (commit s (s.need j) j).allocation j = max j := by
    funext k
    have hneed := h.accounts.need_eq j k
    rw [commit_allocation, if_pos rfl]
    lia
  have hnone : (commit s (s.need j) j).need j = 0 := by
    rw [commit_need, if_pos rfl]
    funext k
    exact Int.sub_self _
  have hback : forall k, 0 ≤ s.allocation j k + s.need j k := by
    intro k
    have hneed := h.accounts.need_eq j k
    have hheld := h.accounts.held_nonneg j k
    have hle := h.accounts.held_le j k
    lia
  have hout : forall i, i ∈ todo ++ done -> i ≠ j := by
    intro i hi heq
    exact (List.nodup_cons.mp h.nodup).left (heq ▸ hi)
  have haccounts := (h.accounts.commit_iff (le_refl _) hfit).mpr hback
  have hhalf : Half resource max (commit s (s.need j) j) (j :: todo) done := by
    refine ⟨haccounts, h.all, ⟨?_, ?_⟩, ?_⟩
    · rw [hnone]
      exact haccounts.available_nonneg
    · have hfree : (commit s (s.need j) j).available + (commit s (s.need j) j).allocation j =
          s.available + s.allocation j := by
        funext k
        rw [commit_allocation, if_pos rfl]
        change s.available k - s.need j k + (s.allocation j k + s.need j k) = _
        rw [Pi.add_apply]
        lia
      rw [hfree]
      exact h.completes.right.congr fun i hi => commit_other (hout i (List.mem_append_left done hi))
    · intro i hi
      rw [(commit_other (hout i (List.mem_append_right todo hi))).right]
      exact h.idle i hi
  exact ⟨grants_commit (le_refl _) hfit haccounts.nonneg (hhalf.safe hmax), hhalf, hfull, hnone⟩

theorem Half.giveBack (h : Half resource max s (j :: todo) done)
    (hmax : forall i, max i ≤ resource) (hnone : s.need j = 0) :
    Grants s j (-s.allocation j) (commit s (-s.allocation j) j) ∧
      Half resource max (commit s (-s.allocation j) j) todo (j :: done) ∧
      (commit s (-s.allocation j) j).allocation j = 0 := by
  have hheld := h.accounts.nonneg j
  have hneed : -s.allocation j ≤ s.need j := by
    rw [hnone]
    exact neg_nonpos.mpr hheld
  have hfree : -s.allocation j ≤ s.available :=
    (neg_nonpos.mpr hheld).trans h.accounts.available_nonneg
  have hback : forall k, 0 ≤ s.allocation j k + (-s.allocation j) k := by
    intro k
    rw [Pi.neg_apply, add_neg_cancel]
  have hempty : (commit s (-s.allocation j) j).allocation j = 0 := by
    rw [commit_allocation, if_pos rfl]
    funext k
    rw [Pi.neg_apply, add_neg_cancel]
    rfl
  have hout : forall i, i ∈ todo ++ done -> i ≠ j := by
    intro i hi heq
    exact (List.nodup_cons.mp h.nodup).left (heq ▸ hi)
  have haccounts := (h.accounts.commit_iff hneed hfree).mpr hback
  have hhalf : Half resource max (commit s (-s.allocation j) j) todo (j :: done) := by
    refine ⟨haccounts, List.perm_middle.trans h.all, ?_, ?_⟩
    · have hmore : (commit s (-s.allocation j) j).available = s.available + s.allocation j := by
        funext k
        change s.available k - (-s.allocation j) k = _
        rw [Pi.neg_apply, Pi.add_apply, sub_neg_eq_add]
      rw [hmore]
      exact h.completes.right.congr fun i hi => commit_other (hout i (List.mem_append_left done hi))
    · intro i hi
      cases List.mem_cons.mp hi with
      | inl heq =>
          rw [heq]
          exact hempty
      | inr hin =>
          rw [(commit_other (hout i (List.mem_append_right todo hin))).right]
          exact h.idle i hin
  exact ⟨grants_commit hneed hfree haccounts.nonneg (hhalf.safe hmax), hhalf, hempty⟩

theorem Half.finishes (h : Half resource max s (j :: todo) done)
    (hmax : forall i, max i ≤ resource) :
    exists t, Finishes max s j t ∧ Half resource max t todo (j :: done) := by
  rcases h.borrow hmax with ⟨hgrants, hhalf, hfull, hnone⟩
  rcases hhalf.giveBack hmax hnone with ⟨hgrants', hhalf', hempty⟩
  exact ⟨_, ⟨_, hgrants, hfull, hgrants', hempty⟩, hhalf'⟩

theorem Half.initial (h : Half resource max s [] done) : s = initialBank resource max := by
  have hnone : forall i, s.allocation i = 0 := by
    intro i
    exact h.idle i (h.all.symm.subset (List.mem_finRange i))
  apply Bank.ext
  · funext k
    have hback := congrFun h.returned k
    simp only [List.map_nil, List.sum_nil, add_zero] at hback
    simp only [initialBank, Finset.sum_const_zero, sub_zero]
    exact hback
  · funext i k
    have hneed := h.accounts.need_eq i k
    rw [hnone i] at hneed
    exact hneed
  · funext i k
    exact congrFun (hnone i) k

theorem Half.finishAll (h : Half resource max s todo done) (hmax : forall i, max i ≤ resource) :
    FinishAll max s todo (initialBank resource max) := by
  induction todo generalizing s done with
  | nil => exact h.initial
  | cons j todo ih =>
      rcases h.finishes hmax with ⟨t, hfinishes, hrest⟩
      exact ⟨t, hfinishes, ih hrest⟩

/-!
# Runs
-/

theorem reachable_accounts_safe (hresource : 0 ≤ resource) (hnonneg : forall i, 0 ≤ max i)
    (hmax : forall i, max i ≤ resource)
    (hs : ((bankSystem resource max).restrict TakesBackHeld).Reachable s) :
    Accounts resource max s ∧ s.Safe := by
  apply hs.invariant (P := fun s => Accounts resource max s ∧ s.Safe)
  · intro s hinit
    rw [hinit]
    exact ⟨initialBank_accounts hresource hnonneg, initialBank_safe hmax⟩
  · intro s input t hinv hstep
    rcases mainStep_granted hstep.right with hsame | ⟨pro_i, hpro, hneed, hfree, hcheck, ht⟩
    · rw [hsame]
      exact hinv
    · have hback := hstep.left pro_i hpro hneed hfree
      have hnew := (hinv.left.commit_iff hneed hfree).mpr hback
      rw [ht]
      exact ⟨hnew, (safecheck_iff hnew.nonneg).mp hcheck⟩

/-- Whatever has been granted and given back, all processes can finish one after the other:
the requests for all that they need are granted. -/
theorem bank_never_deadlocks (hresource : 0 ≤ resource) (hnonneg : forall i, 0 ≤ max i)
    (hmax : forall i, max i ≤ resource)
    (hs : ((bankSystem resource max).restrict TakesBackHeld).Reachable s) :
    exists order, order.Perm (List.finRange N) ∧
      FinishAll max s order (initialBank resource max) := by
  rcases reachable_accounts_safe hresource hnonneg hmax hs with ⟨haccounts, order, horder, hdone⟩
  refine ⟨order, horder, ?_⟩
  apply @Half.finishAll _ _ resource max s order [] _ hmax
  refine ⟨haccounts, ?_, hdone, fun i hi => absurd hi List.not_mem_nil⟩
  rw [List.append_nil]
  exact horder

/-- After process 1 has got (2, 0, 0) and given back one of it. -/
theorem bank_never_deadlocks_process_one :
    exists s : Bank 5 3, s.allocation 1 0 = 1 ∧
      exists order, order.Perm (List.finRange 5) ∧
        FinishAll maxDemand s order (initialBank Banker.resource maxDemand) := by
  have hfirst : ((bankSystem Banker.resource maxDemand).restrict TakesBackHeld).Reachable
      (commit (initialBank Banker.resource maxDemand) ![2, 0, 0] 1) :=
    System.Reachable.step (a := ((1 : Fin 5), ![2, 0, 0])) (System.Reachable.init rfl)
      ⟨by decide, mainStep_of_granted (by decide)⟩
  have hsecond : ((bankSystem Banker.resource maxDemand).restrict TakesBackHeld).Reachable
      (commit (commit (initialBank Banker.resource maxDemand) ![2, 0, 0] 1) ![-1, 0, 0] 1) :=
    System.Reachable.step (a := ((1 : Fin 5), ![-1, 0, 0])) hfirst
      ⟨by decide, mainStep_of_granted (by decide)⟩
  exact ⟨_, by decide, bank_never_deadlocks (by decide) (by decide) (by decide) hsecond⟩

end Banker
end OsLabs
