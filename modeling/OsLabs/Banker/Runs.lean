import OsLabs.Banker.Safety

/-!
# Runs of the banker's algorithm

The loop of `main` on any sequence of inputs: what a request decides, and which
parts of the accounting survive which requests.
-/

namespace OsLabs
namespace Banker

open Foundation

variable {N M : Nat} {resource : Fin M -> Int} {max : Fin N -> Fin M -> Int} {s t : Bank N M}
  {input : Int × (Fin M -> Int)}

theorem mainStep_cases (h : (bankSystem resource max).step s input t) :
    t = s ∨ exists pro_i : Fin N, input.fst = pro_i ∧
      t = (resourceRequest s input.snd pro_i).snd := by
  change mainStep s input.fst input.snd = some t at h
  unfold mainStep at h
  by_cases hneg : input.fst < 0
  · rw [if_pos hneg] at h
    cases h
  · rw [if_neg hneg] at h
    by_cases hin : input.fst.toNat < N
    · rw [dif_pos hin] at h
      cases h
      refine Or.inr ⟨⟨input.fst.toNat, hin⟩, ?_, rfl⟩
      exact (Int.toNat_of_nonneg (not_lt.mp hneg)).symm
    · rw [dif_neg hin] at h
      cases h
      exact Or.inl rfl

theorem mainStep_granted (h : (bankSystem resource max).step s input t) :
    t = s ∨ exists pro_i : Fin N, input.fst = pro_i ∧ input.snd ≤ s.need pro_i ∧
      input.snd ≤ s.available ∧
      (safecheck s input.snd pro_i fun k => s.available k - input.snd k).fst =
        ExitStatus.success ∧ t = commit s input.snd pro_i := by
  rcases mainStep_cases h with hsame | ⟨pro_i, hpro, ht⟩
  · exact Or.inl hsame
  · rcases resourceRequest_cases s input.snd pro_i with
      ⟨_, hneed, hfree, hcheck, hnext⟩ | ⟨_, hkept, _⟩
    · exact Or.inr ⟨pro_i, hpro, hneed, hfree, hcheck, ht.trans hnext⟩
    · exact Or.inl (ht.trans hkept)

theorem mainStep_of_granted {request : Fin M -> Int} {pro_i : Fin N}
    (hret : (resourceRequest s request pro_i).fst.ret = ExitStatus.success) :
    mainStep s pro_i request = some (commit s request pro_i) := by
  have hindex : (pro_i : Int).toNat < N := pro_i.isLt
  unfold mainStep
  rw [if_neg (by lia), dif_pos hindex]
  rcases resourceRequest_cases s request pro_i with ⟨_, _, _, _, hnext⟩ | ⟨hfail, _, _⟩
  · exact congrArg some hnext
  · rw [hfail] at hret
    cases hret

/-!
# Safety
-/

def NonNegative (_ : Bank N M) (input : Int × (Fin M -> Int)) : Prop := 0 ≤ input.snd

theorem commit_allocation_nonneg (h : forall j, 0 ≤ s.allocation j) {request : Fin M -> Int}
    (hreq : 0 ≤ request) (pro_i j : Fin N) :
    0 ≤ (commit s request pro_i).allocation j := by
  rw [commit_allocation]
  split
  · intro k
    exact add_nonneg (h pro_i k) (hreq k)
  · exact h j

theorem initialBank_safe (hmax : forall j, max j ≤ resource) :
    (initialBank resource max).Safe := by
  refine ⟨List.finRange N, List.Perm.refl _, ?_⟩
  apply completes_of_forall_le
  · intro j
    exact le_refl _
  · intro j _ k
    have hle := hmax j k
    simp only [initialBank, Finset.sum_const_zero, sub_zero]
    exact hle

theorem safecheck_iff_safe (h : forall j, 0 ≤ s.allocation j) {request : Fin M -> Int}
    (hreq : 0 ≤ request) (pro_i : Fin N) :
    (safecheck s request pro_i fun k => s.available k - request k).fst = ExitStatus.success <->
      (commit s request pro_i).Safe :=
  safecheck_iff (commit_allocation_nonneg h hreq pro_i)

theorem reachable_safe (hmax : forall j, max j ≤ resource)
    (hs : ((bankSystem resource max).restrict NonNegative).Reachable s) :
    s.Safe ∧ forall j, 0 ≤ s.allocation j := by
  apply hs.invariant (P := fun s => s.Safe ∧ forall j, 0 ≤ s.allocation j)
  · intro s hinit
    rw [hinit]
    exact ⟨initialBank_safe hmax, fun j => le_refl _⟩
  · intro s input t hinv hstep
    rcases mainStep_granted hstep.right with hsame | ⟨pro_i, _, _, _, hcheck, ht⟩
    · rw [hsame]
      exact hinv
    · rw [ht]
      exact ⟨(safecheck_iff_safe hinv.right hstep.left pro_i).mp hcheck,
        commit_allocation_nonneg hinv.right hstep.left pro_i⟩

/-- The banker grants exactly the requests that are covered and lead to a safe
state, and keeps every state safe. -/
theorem bankers_decides_safety (hmax : forall j, max j ≤ resource)
    (hs : ((bankSystem resource max).restrict NonNegative).Reachable s) :
    s.Safe ∧
    forall (request : Fin M -> Int) (pro_i : Fin N), 0 ≤ request ->
      ((resourceRequest s request pro_i).fst.ret = ExitStatus.success <->
        request ≤ s.need pro_i ∧ request ≤ s.available ∧ (commit s request pro_i).Safe) ∧
      ((resourceRequest s request pro_i).fst.ret = ExitStatus.success ->
        (resourceRequest s request pro_i).snd = commit s request pro_i) ∧
      ((resourceRequest s request pro_i).fst.ret = ExitStatus.failure ->
        (resourceRequest s request pro_i).snd = s) ∧
      forall j, safecheck s request pro_i (fun k => s.available k - request k) =
        safecheck (commit s request pro_i) 0 j (commit s request pro_i).available := by
  rcases reachable_safe hmax hs with ⟨hsafe, hheld⟩
  refine ⟨hsafe, ?_⟩
  intro request pro_i hreq
  have hcheck := safecheck_iff_safe hheld hreq pro_i
  refine ⟨?_, ?_, ?_, fun j => safecheckLoop_commit j N _⟩
  · rcases resourceRequest_cases s request pro_i with
      ⟨hret, hneed, hfree, hok, _⟩ | ⟨hret, _, hnot⟩
    · rw [hret]
      exact ⟨fun _ => ⟨hneed, hfree, hcheck.mp hok⟩, fun _ => rfl⟩
    · rw [hret]
      constructor
      · intro hfalse
        cases hfalse
      · intro h
        exact absurd ⟨h.left, h.right.left, hcheck.mpr h.right.right⟩ hnot
  · intro hsuccess
    rcases resourceRequest_cases s request pro_i with ⟨_, _, _, _, hnext⟩ | ⟨hret, _, _⟩
    · exact hnext
    · rw [hret] at hsuccess
      cases hsuccess
  · intro hfailure
    rcases resourceRequest_cases s request pro_i with ⟨hret, _, _, _, _⟩ | ⟨_, hkept, _⟩
    · rw [hret] at hfailure
      cases hfailure
    · exact hkept

/-- After the tables of the program have granted process 1 the request (2, 0, 0). -/
theorem bankers_decides_safety_process_one :
    exists s : Bank 5 3,
      ((bankSystem Banker.resource maxDemand).restrict NonNegative).Reachable s ∧
      s.Safe ∧ s.allocation 1 0 = 2 ∧
      (resourceRequest s ![1, 0, 2] 1).snd = commit s ![1, 0, 2] 1 := by
  have hs : ((bankSystem Banker.resource maxDemand).restrict NonNegative).Reachable
      (commit (initialBank Banker.resource maxDemand) ![2, 0, 0] 1) :=
    System.Reachable.step (a := ((1 : Fin 5), ![2, 0, 0])) (System.Reachable.init rfl)
      ⟨show (0 : Fin 3 -> Int) ≤ ![2, 0, 0] by decide, mainStep_of_granted (by decide)⟩
  have hall := bankers_decides_safety (by decide) hs
  refine ⟨_, hs, hall.left, by decide, ?_⟩
  exact (hall.right ![1, 0, 2] 1 (by decide)).right.left (by decide)

/-!
# Accounting
-/

/-- The tables agree with the resources and the claims of the processes. -/
structure Accounts (resource : Fin M -> Int) (max : Fin N -> Fin M -> Int) (s : Bank N M) :
    Prop where
  balance : forall k, s.available k + ∑ j, s.allocation j k = resource k
  available_nonneg : forall k, 0 ≤ s.available k
  need_eq : forall j k, s.need j k = max j k - s.allocation j k
  held_nonneg : forall j k, 0 ≤ s.allocation j k
  held_le : forall j k, s.allocation j k ≤ max j k

/-- A request that passes the two comparisons of `resource_request` takes back
at most what the process holds. -/
def TakesBackHeld (s : Bank N M) (input : Int × (Fin M -> Int)) : Prop :=
  forall pro_i : Fin N, input.fst = pro_i -> input.snd ≤ s.need pro_i ->
    input.snd ≤ s.available -> forall k, 0 ≤ s.allocation pro_i k + input.snd k

instance (s : Bank N M) (input : Int × (Fin M -> Int)) : Decidable (TakesBackHeld s input) :=
  inferInstanceAs (Decidable (forall _, _))

theorem initialBank_accounts (hresource : 0 ≤ resource) (hmax : forall j, 0 ≤ max j) :
    Accounts resource max (initialBank resource max) where
  balance k := by simp [initialBank]
  available_nonneg k := by simpa [initialBank] using hresource k
  need_eq j k := rfl
  held_nonneg j k := le_refl _
  held_le j k := hmax j k

theorem sum_commit_allocation (s : Bank N M) (request : Fin M -> Int) (pro_i : Fin N)
    (k : Fin M) :
    ∑ j, (commit s request pro_i).allocation j k = ∑ j, s.allocation j k + request k := by
  have hfun : (fun j => (commit s request pro_i).allocation j k) =
      Function.update (fun j => s.allocation j k) pro_i
        (s.allocation pro_i k + request k) := by
    funext j
    rw [commit_allocation, Function.update_apply]
    split
    · rfl
    · rfl
  have hold := Finset.add_sum_erase Finset.univ (fun j => s.allocation j k)
    (Finset.mem_univ pro_i)
  rw [hfun, Finset.sum_update_of_mem (Finset.mem_univ pro_i), ← Finset.erase_eq]
  lia

theorem Accounts.commit_iff (h : Accounts resource max s) {request : Fin M -> Int}
    {pro_i : Fin N} (hneed : request ≤ s.need pro_i) (hfree : request ≤ s.available) :
    Accounts resource max (commit s request pro_i) <->
      forall k, 0 ≤ s.allocation pro_i k + request k := by
  constructor
  · intro hnew k
    have hheld := hnew.held_nonneg pro_i k
    rw [commit_allocation, if_pos rfl] at hheld
    exact hheld
  · intro hback
    constructor
    · intro k
      have hbalance := h.balance k
      rw [sum_commit_allocation]
      change s.available k - request k + _ = _
      lia
    · intro k
      exact sub_nonneg.mpr (hfree k)
    · intro j k
      have heq := h.need_eq j k
      rw [commit_need, commit_allocation]
      by_cases hj : j = pro_i
      · subst hj
        rw [if_pos rfl, if_pos rfl]
        lia
      · rw [if_neg hj, if_neg hj]
        exact heq
    · intro j k
      rw [commit_allocation]
      split
      · exact hback k
      · exact h.held_nonneg j k
    · intro j k
      rw [commit_allocation]
      split
      · rename_i hj
        have heq := h.need_eq pro_i k
        have hle := hneed k
        rw [hj]
        lia
      · exact h.held_le j k

/-- The accounts stay right as long as no request takes back more than is held;
a granted request that does breaks them. -/
theorem accounts_exact (hresource : 0 ≤ resource) (hmax : forall j, 0 ≤ max j) :
    (forall s, ((bankSystem resource max).restrict TakesBackHeld).Reachable s ->
      Accounts resource max s) ∧
    forall s, (bankSystem resource max).Reachable s -> Accounts resource max s ->
      forall (request : Fin M -> Int) (pro_i : Fin N),
        (resourceRequest s request pro_i).fst.ret = ExitStatus.success ->
        (Accounts resource max (resourceRequest s request pro_i).snd <->
          forall k, 0 ≤ s.allocation pro_i k + request k) := by
  constructor
  · intro s hs
    apply hs.invariant (P := Accounts resource max)
    · intro s hinit
      rw [hinit]
      exact initialBank_accounts hresource hmax
    · intro s input t hinv hstep
      rcases mainStep_granted hstep.right with hsame | ⟨pro_i, hpro, hneed, hfree, _, ht⟩
      · rw [hsame]
        exact hinv
      · rw [ht, hinv.commit_iff hneed hfree]
        exact hstep.left pro_i hpro hneed hfree
  · intro s _ hinv request pro_i hret
    rcases resourceRequest_cases s request pro_i with
      ⟨_, hneed, hfree, _, hnext⟩ | ⟨hfail, _, _⟩
    · rw [hnext]
      exact hinv.commit_iff hneed hfree
    · rw [hfail] at hret
      cases hret

/-- Process 1 gets (2, 0, 0) and gives back one of it. -/
theorem accounts_exact_process_one :
    exists s : Bank 5 3,
      ((bankSystem Banker.resource maxDemand).restrict TakesBackHeld).Reachable s ∧
      s.allocation 1 0 = 1 ∧ Accounts Banker.resource maxDemand s := by
  have hfirst : ((bankSystem Banker.resource maxDemand).restrict TakesBackHeld).Reachable
      (commit (initialBank Banker.resource maxDemand) ![2, 0, 0] 1) :=
    System.Reachable.step (a := ((1 : Fin 5), ![2, 0, 0])) (System.Reachable.init rfl)
      ⟨by decide, mainStep_of_granted (by decide)⟩
  have hsecond : ((bankSystem Banker.resource maxDemand).restrict TakesBackHeld).Reachable
      (commit (commit (initialBank Banker.resource maxDemand) ![2, 0, 0] 1) ![-1, 0, 0] 1) :=
    System.Reachable.step (a := ((1 : Fin 5), ![-1, 0, 0])) hfirst
      ⟨by decide, mainStep_of_granted (by decide)⟩
  exact ⟨_, hsecond, by decide, (accounts_exact (by decide) (by decide)).left _ hsecond⟩

/-- Process 0 asks for -1 of the first resource before it holds anything. -/
theorem negative_request_accepted :
    ¬ forall s : Bank 5 3, (bankSystem Banker.resource maxDemand).Reachable s ->
      Accounts Banker.resource maxDemand s := by
  intro h
  have hs : (bankSystem Banker.resource maxDemand).Reachable
      (commit (initialBank Banker.resource maxDemand) ![-1, 0, 0] 0) :=
    System.Reachable.step (a := ((0 : Fin 5), ![-1, 0, 0])) (System.Reachable.init rfl)
      (mainStep_of_granted (by decide))
  have hheld := (h _ hs).held_nonneg 0 0
  revert hheld
  decide

end Banker
end OsLabs
