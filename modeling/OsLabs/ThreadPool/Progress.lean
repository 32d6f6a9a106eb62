import OsLabs.ThreadPool.Runs

/-!
# What is left to do

`main` and a worker in the critical section may go round in a loop that waits for the other;
every other step gets the pool closer to its end.
-/

namespace OsLabs
namespace ThreadPool

open Foundation

variable {C : Params} {s t u : State}

/-!
# What is left
-/

namespace WorkerPc

/-- In the loop that waits for a task. -/
def spins : WorkerPc -> Bool
  | testFront | testRear _ | testSum => true
  | _ => false

/-- The steps up to the next task or to the end.  Taking a task pays for the longer way that
follows it. -/
def left : WorkerPc -> Nat
  | idle => 12
  | waitMutex => 11
  | testFront | testRear _ | testSum => 10
  | readSum => 9
  | writeSum _ => 8
  | readFront => 7
  | readFunction _ => 6
  | readArg _ _ => 5
  | writeFront _ _ => 4
  | postMutex _ => 13
  | execute _ => 12
  | exitPost => 1
  | exited => 0

theorem left_of_spins {pc : WorkerPc} (h : pc.spins = true) : pc.left = 10 := by
  cases pc with
  | testFront | testRear | testSum => rfl
  | _ => cases h

end WorkerPc

namespace MainPc

/-- The task with which `main` waits for a free cell. -/
def guards : MainPc -> Option Nat
  | guardRear i => some i
  | guardFront i _ => some i
  | _ => none

/-- The steps of `main` up to its end, without those in which it waits. -/
def left (C : Params) : MainPc -> Nat
  | create i => C.threadsNum - i + (5 * C.taskNum + C.threadsNum + 1)
  | guardRear i => 5 * (C.taskNum - i) + C.threadsNum + 1
  | guardFront i _ => 5 * (C.taskNum - i) + C.threadsNum + 1
  | readRear i => 5 * (C.taskNum - i) + C.threadsNum
  | writeFunction i _ => 5 * (C.taskNum - i) + C.threadsNum - 1
  | writeArg i _ => 5 * (C.taskNum - i) + C.threadsNum - 2
  | writeRear i _ => 5 * (C.taskNum - i) + C.threadsNum - 3
  | join i => C.threadsNum - i + 1
  | done => 0

theorem left_of_guards {pc : MainPc} {i : Nat} (h : pc.guards = some i) :
    pc.left C = 5 * (C.taskNum - i) + C.threadsNum + 1 := by
  cases pc with
  | guardRear | guardFront =>
      cases h
      rfl
  | _ => cases h

theorem left_joinFrom (i : Nat) : (joinFrom C i).left C ≤ C.threadsNum - i + 1 := by
  unfold joinFrom
  split
  · exact Nat.le_refl _
  · exact Nat.zero_le _

theorem left_addFrom (i : Nat) :
    (addFrom C i).left C ≤ 5 * (C.taskNum - i) + C.threadsNum + 1 := by
  unfold addFrom
  split
  · exact Nat.le_refl _
  · have hjoin := left_joinFrom (C := C) 0
    lia

theorem left_createFrom (i : Nat) :
    (createFrom C i).left C ≤ C.threadsNum - i + (5 * C.taskNum + C.threadsNum + 1) := by
  unfold createFrom
  split
  · exact Nat.le_refl _
  · have hadd := left_addFrom (C := C) 0
    lia

end MainPc

def State.left (C : Params) (s : State) : Nat :=
  s.main.left C + held (Finset.range C.threadsNum) WorkerPc.left s.worker +
    10 * (C.taskNum - s.pools.taken.length)

/-- Nothing has happened from `s` to `t` but rounds of loops that wait. -/
structure Idle (s t : State) : Prop where
  pools : t.pools = s.pools
  main : t.main = s.main ∨ (s.main.guards ≠ none ∧ t.main.guards = s.main.guards)
  worker : forall j, t.worker j = s.worker j ∨
    ((s.worker j).spins = true ∧ (t.worker j).spins = true)

theorem Idle.refl (s : State) : Idle s s :=
  ⟨rfl, Or.inl rfl, fun _ => Or.inl rfl⟩

theorem Idle.trans (h : Idle s t) (h' : Idle t u) : Idle s u := by
  constructor
  · exact h'.pools.trans h.pools
  · rcases h.main with hsame | ⟨hguards, hsame⟩
    · rw [← hsame]
      exact h'.main
    · right
      refine ⟨hguards, ?_⟩
      rcases h'.main with hnext | ⟨_, hnext⟩
      · rw [hnext, hsame]
      · rw [hnext, hsame]
  · intro j
    rcases h.worker j with hsame | ⟨hfrom, hto⟩
    · rw [← hsame]
      exact h'.worker j
    · rcases h'.worker j with hnext | ⟨_, hto'⟩
      · rw [hnext]
        exact Or.inr ⟨hfrom, hto⟩
      · exact Or.inr ⟨hfrom, hto'⟩

theorem Idle.left_eq (h : Idle s t) : t.left C = s.left C := by
  have hmain : t.main.left C = s.main.left C := by
    rcases h.main with hsame | ⟨hguards, hsame⟩
    · rw [hsame]
    · rcases Option.ne_none_iff_exists'.mp hguards with ⟨i, hi⟩
      rw [MainPc.left_of_guards hi, MainPc.left_of_guards (hsame.trans hi)]
  have hworkers : held (Finset.range C.threadsNum) WorkerPc.left t.worker =
      held (Finset.range C.threadsNum) WorkerPc.left s.worker := by
    apply Finset.sum_congr rfl
    intro j _
    rcases h.worker j with hsame | ⟨hfrom, hto⟩
    · rw [hsame]
    · rw [WorkerPc.left_of_spins hfrom, WorkerPc.left_of_spins hto]
  unfold State.left
  rw [hmain, hworkers, h.pools]

/-!
# Steps
-/

theorem executeTask_left {p p' : Threadpools} {pc pc' : WorkerPc} (hrec : Recorded C p)
    (hshape : WorkerShape C p pc) (h : executeTask C p pc = some (pc', p')) :
    pc'.left + 10 * (C.taskNum - p'.taken.length) < pc.left + 10 * (C.taskNum - p.taken.length) ∨
      (p' = p ∧ pc.spins = true ∧ pc'.spins = true) := by
  cases pc with
  | idle | exited => cases h
  | waitMutex =>
      simp only [executeTask] at h
      split at h
      · cases h
        exact Or.inl (Nat.add_lt_add_right (Nat.lt_succ_self _) _)
      · cases h
  | testFront =>
      cases h
      exact Or.inr ⟨rfl, rfl, rfl⟩
  | testRear front =>
      simp only [executeTask] at h
      split at h
      · cases h
        exact Or.inr ⟨rfl, rfl, rfl⟩
      · cases h
        exact Or.inl (Nat.add_lt_add_right (Nat.lt_succ_self _) _)
  | testSum =>
      simp only [executeTask] at h
      split at h
      · cases h
        refine Or.inl (Nat.add_lt_add_right ?_ _)
        exact Nat.le_of_ble_eq_true rfl
      · cases h
        exact Or.inr ⟨rfl, rfl, rfl⟩
  | readFunction | readArg =>
      simp only [executeTask] at h
      split at h
      · cases h
        exact Or.inl (Nat.add_lt_add_right (Nat.lt_succ_self _) _)
      · cases h
  | writeFront front task =>
      cases h
      have hlt := hshape.left.right
      have hle := hrec.submitted_le
      left
      simp only [List.length_append, List.length_singleton, WorkerPc.left]
      lia
  | exitPost | readSum | writeSum | readFront | postMutex | execute =>
      cases h
      exact Or.inl (Nat.add_lt_add_right (Nat.lt_succ_self _) _)

theorem addTask_left {p p' : Threadpools} {pc pc' : MainPc} (hshape : MainShape C p pc)
    (h : addTask C p pc = some (pc', p')) :
    p'.taken = p.taken ∧ (pc'.left C < pc.left C ∨
      (p' = p ∧ pc.guards ≠ none ∧ pc'.guards = pc.guards)) := by
  cases pc with
  | create | join | done => cases h
  | guardRear i =>
      cases h
      exact ⟨rfl, Or.inr ⟨rfl, Option.some_ne_none i, rfl⟩⟩
  | guardFront i rear =>
      simp only [addTask] at h
      split at h
      · cases h
        exact ⟨rfl, Or.inr ⟨rfl, Option.some_ne_none i, rfl⟩⟩
      · cases h
        exact ⟨rfl, Or.inl (Nat.lt_succ_self _)⟩
  | readRear i =>
      have hi : i < C.taskNum := hshape.left
      cases h
      refine ⟨rfl, Or.inl ?_⟩
      simp only [MainPc.left]
      lia
  | writeFunction i rear =>
      have hi : i < C.taskNum := hshape.left
      simp only [addTask] at h
      split at h
      · cases h
        refine ⟨rfl, Or.inl ?_⟩
        simp only [MainPc.left]
        lia
      · cases h
  | writeArg i rear =>
      have hi : i < C.taskNum := hshape.left.left
      simp only [addTask] at h
      split at h
      · cases h
        refine ⟨rfl, Or.inl ?_⟩
        simp only [MainPc.left]
        lia
      · cases h
  | writeRear i rear =>
      have hi : i < C.taskNum := hshape.left.left
      cases h
      refine ⟨rfl, Or.inl (Nat.lt_of_le_of_lt (MainPc.left_addFrom (i + 1)) ?_)⟩
      change _ < 5 * (C.taskNum - i) + C.threadsNum - 3
      lia

theorem step_worker {i : Nat} (h : step C s (Action.worker i) = some t) :
    i < C.threadsNum ∧ exists pc p, executeTask C s.pools (s.worker i) = some (pc, p) ∧
      t = { s with pools := p, worker := Function.update s.worker i pc } := by
  simp only [step] at h
  split at h
  · rename_i hi
    rcases Option.map_eq_some_iff.mp h with ⟨next, hnext, ht⟩
    exact ⟨hi, next.fst, next.snd, hnext, ht.symm⟩
  · cases h

theorem PoolInv.worker_left (h : PoolInv C s) {i : Nat}
    (hstep : ThreadPool.step C s (Action.worker i) = some t) :
    t.left C < s.left C ∨ (Idle s t ∧ (s.worker i).spins = true) := by
  rcases step_worker hstep with ⟨hi, pc, p, hnext, ht⟩
  have hheld := held_update (Finset.mem_range.mpr hi) WorkerPc.left s.worker pc
  rw [ht]
  rcases executeTask_left h.recorded (h.shape i hi) hnext with hless | ⟨hpools, hfrom, hto⟩
  · left
    simp only [State.left]
    lia
  · refine Or.inr ⟨⟨hpools, Or.inl rfl, ?_⟩, hfrom⟩
    intro j
    simp only [Function.update_apply]
    split
    · rename_i hji
      rw [hji]
      exact Or.inr ⟨hfrom, hto⟩
    · exact Or.inl rfl

theorem PoolInv.main_left (h : PoolInv C s) (hstep : ThreadPool.step C s Action.main = some t) :
    t.left C < s.left C ∨ (Idle s t ∧ s.main.guards ≠ none) := by
  rcases mainThread_cases hstep with ⟨i, hpc, ht⟩ | ⟨i, hpc, _, ht⟩ | ⟨pc, p, hnext, ht⟩
  · left
    have hmain := h.main
    unfold MainInv at hmain
    rw [hpc] at hmain
    have hheld := held_update (Finset.mem_range.mpr hmain.left) WorkerPc.left s.worker
      WorkerPc.waitMutex
    have hcreate : (createFrom C (i + 1)).left C < (MainPc.create i).left C := by
      refine Nat.lt_of_le_of_lt (MainPc.left_createFrom (i + 1)) ?_
      have hi := hmain.left
      change _ < C.threadsNum - i + _
      lia
    rw [hmain.right i (Nat.le_refl i)] at hheld
    change _ + 12 = _ + 11 at hheld
    rw [ht]
    simp only [State.left, hpc]
    lia
  · left
    have hmain := h.main
    unfold MainInv at hmain
    rw [hpc] at hmain
    have hjoin : (joinFrom C (i + 1)).left C < (MainPc.join i).left C := by
      refine Nat.lt_of_le_of_lt (MainPc.left_joinFrom (i + 1)) ?_
      have hi := hmain.left
      change _ < C.threadsNum - i + 1
      lia
    rw [ht]
    simp only [State.left, hpc]
    lia
  · rcases addTask_left h.mainShape hnext with ⟨htaken, hless | ⟨hpools, hfrom, hto⟩⟩
    · left
      rw [ht]
      simp only [State.left, htaken]
      lia
    · rw [ht]
      exact Or.inr ⟨⟨hpools, Or.inr ⟨hfrom, hto⟩, fun _ => Or.inl rfl⟩, hfrom⟩

theorem PoolInv.left_or_idle (h : PoolInv C s) {a : Action} (hstep : ThreadPool.step C s a = some t) :
    t.left C < s.left C ∨ Idle s t := by
  cases a with
  | main => exact (h.main_left hstep).imp_right And.left
  | worker i => exact (h.worker_left hstep).imp_right And.left

end ThreadPool
end OsLabs
