import OsLabs.Foundation.FairRuns
import OsLabs.ThreadPool.Progress

/-!
# The pool comes to an end

As long as every thread is scheduled again and again, all tasks are executed, all workers
exit and `main` returns: whatever has happened, some thread gets the pool closer to its end.
-/

namespace OsLabs
namespace ThreadPool

open Foundation

variable {C : Params} {s t u : State}

/-!
# Threads that get the pool closer to its end
-/

/-- In all states after `s` in which nothing has happened, the thread can step, and as long as
nothing happens its own steps lower `dist`. -/
structure Helps (C : Params) (s : State) (a : Action) (dist : State -> Nat) : Prop where
  able : forall t, PoolInv C t -> Idle s t -> exists u, step C t a = some u
  closer : forall t u, PoolInv C t -> Idle s t -> step C t a = some u -> Idle t u ->
    dist u < dist t
  others : forall t u b, b ≠ a -> PoolInv C t -> step C t b = some u -> Idle t u ->
    dist u ≤ dist t

theorem Idle.guards_eq (h : Idle s t) : t.main.guards = s.main.guards := by
  rcases h.main with hsame | ⟨_, hsame⟩
  · rw [hsame]
  · exact hsame

theorem Idle.spins_eq (h : Idle s t) (j : Nat) : (t.worker j).spins = (s.worker j).spins := by
  rcases h.worker j with hsame | ⟨hfrom, hto⟩
  · rw [hsame]
  · rw [hfrom, hto]

theorem PoolInv.main_idle_worker (h : PoolInv C s) (hstep : ThreadPool.step C s Action.main = some t)
    (hidle : Idle s t) : t.worker = s.worker := by
  rcases h.main_left hstep with hless | ⟨_, hguards⟩
  · rw [hidle.left_eq] at hless
    exact absurd hless (Nat.lt_irrefl _)
  · rcases mainThread_cases hstep with ⟨i, hpc, _⟩ | ⟨i, _, _, ht⟩ | ⟨pc, p, _, ht⟩
    · rw [hpc] at hguards
      exact absurd rfl hguards
    · rw [ht]
    · rw [ht]

theorem Idle.worker_eq (h : Idle s t) {j : Nat} (hout : (s.worker j).spins = false) :
    t.worker j = s.worker j := by
  rcases h.worker j with hsame | ⟨hfrom, _⟩
  · exact hsame
  · rw [hout] at hfrom
    cases hfrom

theorem Idle.main_eq (h : Idle s t) (hout : s.main.guards = none) : t.main = s.main := by
  rcases h.main with hsame | ⟨hguards, _⟩
  · exact hsame
  · exact absurd hout hguards

theorem executeTask_able {p : Threadpools} {pc : WorkerPc} (hshape : WorkerShape C p pc)
    (hidle : pc ≠ WorkerPc.idle) (hexited : pc ≠ WorkerPc.exited)
    (hwait : pc = WorkerPc.waitMutex -> 0 < p.semMutex) :
    exists next, executeTask C p pc = some next := by
  have hsize := C.taskQueueMaxSize_pos
  have hcell : p.taken.length % C.taskQueueMaxSize < C.taskQueueMaxSize :=
    Nat.mod_lt _ (by lia)
  cases pc with
  | idle => exact absurd rfl hidle
  | exited => exact absurd rfl hexited
  | waitMutex => exact ⟨_, if_pos (hwait rfl)⟩
  | testRear front =>
      simp only [executeTask]
      split
      · exact ⟨_, rfl⟩
      · exact ⟨_, rfl⟩
  | testSum =>
      simp only [executeTask]
      split
      · exact ⟨_, rfl⟩
      · exact ⟨_, rfl⟩
  | readFunction front =>
      have hfront : front < C.taskQueueMaxSize := by
        rw [hshape.right]
        exact hcell
      exact ⟨_, if_pos hfront⟩
  | readArg front function =>
      have hfront : front < C.taskQueueMaxSize := by
        rw [hshape.right.left]
        exact hcell
      exact ⟨_, if_pos hfront⟩
  | _ => exact ⟨_, rfl⟩

theorem step_worker_of {i : Nat} (hi : i < C.threadsNum) {next : WorkerPc × Threadpools}
    (h : executeTask C s.pools (s.worker i) = some next) :
    exists u, step C s (Action.worker i) = some u := by
  simp only [step, if_pos hi, h, Option.map_some]
  exact ⟨_, rfl⟩

/-- A worker that is not in its loop and need not wait for the semaphore. -/
def Moves (p : Threadpools) (pc : WorkerPc) : Prop :=
  pc ≠ WorkerPc.idle ∧ pc ≠ WorkerPc.exited ∧ (pc = WorkerPc.waitMutex -> 0 < p.semMutex) ∧
    pc.spins = false

theorem helps_of_moves {i : Nat} (hi : i < C.threadsNum) (hmoves : Moves s.pools (s.worker i)) :
    Helps C s (Action.worker i) fun _ => 0 := by
  rcases hmoves with ⟨hidle, hexited, hwait, hout⟩
  constructor
  · intro t ht hst
    have hsame := hst.worker_eq hout
    have hshape := ht.shape i hi
    rw [hsame] at hshape
    have hpools := hst.pools
    rw [hpools] at hshape
    rcases executeTask_able hshape hidle hexited hwait with ⟨next, hnext⟩
    rw [← hsame, ← hpools] at hnext
    exact step_worker_of hi hnext
  · intro t u ht hst hstep hidle'
    rcases ht.worker_left hstep with hless | ⟨_, hspins⟩
    · rw [hidle'.left_eq] at hless
      exact absurd hless (Nat.lt_irrefl _)
    · rw [hst.spins_eq, hout] at hspins
      cases hspins
  · intro t u b _ _ _ _
    exact Nat.le_refl 0

/-- A task can be taken, or all have been. -/
def Drains (C : Params) (p : Threadpools) : Prop :=
  p.taken.length < p.submitted.length ∨ p.taken.length = C.taskNum

def spinDist (p : Threadpools) : WorkerPc -> Nat
  | WorkerPc.testFront => if p.taken.length < p.submitted.length then 2 else 3
  | WorkerPc.testRear _ => if p.taken.length < p.submitted.length then 1 else 2
  | WorkerPc.testSum => if p.taken.length < p.submitted.length then 3 else 1
  | _ => 0

theorem executeTask_spinDist {p p' : Threadpools} {pc pc' : WorkerPc} (hrec : Recorded C p)
    (hshape : WorkerShape C p pc) (hdrains : Drains C p)
    (h : executeTask C p pc = some (pc', p')) (hfrom : pc.spins = true)
    (hto : pc'.spins = true) : spinDist p pc' < spinDist p pc := by
  cases pc with
  | testFront =>
      cases h
      simp only [spinDist]
      split
      · exact Nat.lt_succ_self 1
      · exact Nat.lt_succ_self 2
  | testRear front =>
      simp only [executeTask] at h
      split at h
      · rename_i hempty
        cases h
        have hnone : ¬ p.taken.length < p.submitted.length := by
          intro hlt
          rw [hshape.right, hrec.rear_eq] at hempty
          exact mod_ne_mod hlt hrec.room hempty
        simp only [spinDist, if_neg hnone]
        exact Nat.lt_succ_self 1
      · cases h
        cases hto
  | testSum =>
      simp only [executeTask] at h
      split at h
      · cases h
        cases hto
      · rename_i hsum
        cases h
        have hsettled : p.taskSum = (C.taskNum : Int) - p.taken.length := hshape
        have hlt : p.taken.length < p.submitted.length := by
          cases hdrains with
          | inl hlt => exact hlt
          | inr hall => lia
        simp only [spinDist, if_pos hlt]
        exact Nat.lt_succ_self 2
  | _ => cases hfrom

theorem helps_of_spins {i : Nat} (hi : i < C.threadsNum) (hspins : (s.worker i).spins = true)
    (hdrains : Drains C s.pools) :
    Helps C s (Action.worker i) fun t => spinDist t.pools (t.worker i) := by
  constructor
  · intro t ht hst
    have hspins' := (hst.spins_eq i).trans hspins
    have hnot : forall pc, t.worker i = pc -> pc.spins = false -> False := by
      intro pc hpc hout
      rw [hpc, hout] at hspins'
      cases hspins'
    rcases executeTask_able (ht.shape i hi) (fun hpc => hnot _ hpc rfl)
      (fun hpc => hnot _ hpc rfl) (fun hpc => (hnot _ hpc rfl).elim) with ⟨next, hnext⟩
    exact step_worker_of hi hnext
  · intro t u ht hst hstep hidle
    rcases step_worker hstep with ⟨_, pc, p, hnext, hu⟩
    have hto := (hidle.spins_eq i).trans ((hst.spins_eq i).trans hspins)
    have hdrains' : Drains C t.pools := by
      rw [hst.pools]
      exact hdrains
    rw [hidle.pools]
    rw [hu] at hto ⊢
    simp only [Function.update_self] at hto ⊢
    exact executeTask_spinDist ht.recorded (ht.shape i hi) hdrains' hnext
      ((hst.spins_eq i).trans hspins) hto
  · intro t u b hb ht hstep hidle
    simp only [hidle.pools]
    cases b with
    | main =>
        rw [ht.main_idle_worker hstep hidle]
    | worker j =>
        rcases step_worker hstep with ⟨_, pc, p, _, hu⟩
        have hij : i ≠ j := by
          intro heq
          exact hb (by rw [heq])
        rw [hu]
        simp only [Function.update_of_ne hij]
        exact Nat.le_refl _

theorem not_full_of_room {t s : Nat} (hle : t ≤ s) (hroom : s + 1 < t + C.taskQueueMaxSize) :
    ¬ full C (s % C.taskQueueMaxSize) (t % C.taskQueueMaxSize) := by
  have hsize := C.taskQueueMaxSize_pos
  have hfront : t % C.taskQueueMaxSize < C.taskQueueMaxSize := Nat.mod_lt _ (by lia)
  have hcast : (((s % C.taskQueueMaxSize : Nat) : Int) + C.taskQueueMaxSize + 1 -
      (t % C.taskQueueMaxSize : Nat)) =
      ((s % C.taskQueueMaxSize + C.taskQueueMaxSize + 1 - t % C.taskQueueMaxSize : Nat) : Int) := by
    lia
  intro hfull
  unfold full at hfull
  rw [hcast, ← Int.ofNat_tmod] at hfull
  have hzero : (s % C.taskQueueMaxSize + C.taskQueueMaxSize + 1 - t % C.taskQueueMaxSize) %
      C.taskQueueMaxSize = 0 := Int.ofNat_eq_zero.mp hfull
  have hmod : t % C.taskQueueMaxSize ≡
      s % C.taskQueueMaxSize + C.taskQueueMaxSize + 1 [MOD C.taskQueueMaxSize] :=
    (Nat.modEq_iff_dvd' (by lia)).mpr (Nat.dvd_of_mod_eq_zero hzero)
  unfold Nat.ModEq at hmod
  rw [Nat.mod_mod, Nat.add_right_comm, Nat.add_mod_right, Nat.mod_add_mod] at hmod
  exact mod_ne_mod (by lia) hroom hmod

def Ready (C : Params) (s : State) : Prop :=
  s.main ≠ MainPc.done ∧ (forall i, s.main = MainPc.join i -> s.worker i = WorkerPc.exited) ∧
    forall i, s.main.guards = some i -> i + 1 < s.pools.taken.length + C.taskQueueMaxSize

def mainDist : MainPc -> Nat
  | MainPc.guardRear _ => 1
  | _ => 0

theorem addTask_able {p : Threadpools} {pc : MainPc} (hshape : MainShape C p pc)
    (hcreate : forall i, pc ≠ MainPc.create i) (hjoin : forall i, pc ≠ MainPc.join i)
    (hdone : pc ≠ MainPc.done) : exists next, addTask C p pc = some next := by
  have hsize := C.taskQueueMaxSize_pos
  have hcell : forall i, i % C.taskQueueMaxSize < C.taskQueueMaxSize :=
    fun i => Nat.mod_lt _ (by lia)
  cases pc with
  | create i => exact absurd rfl (hcreate i)
  | join i => exact absurd rfl (hjoin i)
  | done => exact absurd rfl hdone
  | guardFront i rear =>
      simp only [addTask]
      split
      · exact ⟨_, rfl⟩
      · exact ⟨_, rfl⟩
  | writeFunction i rear =>
      have hrear : rear < C.taskQueueMaxSize := by
        rw [hshape.right.right.right]
        exact hcell i
      exact ⟨_, if_pos hrear⟩
  | writeArg i rear =>
      have hrear : rear < C.taskQueueMaxSize := by
        rw [hshape.left.right.right.right]
        exact hcell i
      exact ⟨_, if_pos hrear⟩
  | _ => exact ⟨_, rfl⟩

theorem PoolInv.main_able (h : PoolInv C s) (hdone : s.main ≠ MainPc.done)
    (hjoin : forall i, s.main = MainPc.join i -> s.worker i = WorkerPc.exited) :
    exists t, ThreadPool.step C s Action.main = some t := by
  have hadd : (forall i, s.main ≠ MainPc.create i) -> (forall i, s.main ≠ MainPc.join i) ->
      exists next, addTask C s.pools s.main = some next :=
    fun hcreate hjoin => addTask_able h.mainShape hcreate hjoin hdone
  unfold ThreadPool.step mainThread
  cases hpc : s.main with
  | create i => exact ⟨_, rfl⟩
  | join i => exact ⟨_, if_pos (hjoin i hpc)⟩
  | done => exact absurd hpc hdone
  | _ =>
      rw [hpc] at hadd
      rcases hadd (fun _ => MainPc.noConfusion) (fun _ => MainPc.noConfusion) with ⟨next, hnext⟩
      simp only [hnext, Option.map_some]
      exact ⟨_, rfl⟩

theorem helps_of_ready (hready : Ready C s) :
    Helps C s Action.main fun t => mainDist t.main := by
  rcases hready with ⟨hdone, hjoin, hroom⟩
  constructor
  · intro t ht hst
    apply ht.main_able
    · intro hpc
      rcases hst.main with hsame | ⟨hguards, hsame⟩
      · exact hdone (hsame.symm.trans hpc)
      · rw [hpc] at hsame
        exact hguards hsame.symm
    · intro i hpc
      rcases hst.main with hsame | ⟨hguards, hsame⟩
      · have hexited := hjoin i (hsame.symm.trans hpc)
        rw [hst.worker_eq (by rw [hexited]; rfl), hexited]
      · rw [hpc] at hsame
        exact absurd hsame.symm hguards
  · intro t u ht hst hstep hidle
    rcases ht.main_left hstep with hless | ⟨_, hguards⟩
    · rw [hidle.left_eq] at hless
      exact absurd hless (Nat.lt_irrefl _)
    · rcases mainThread_cases hstep with ⟨i, hpc, _⟩ | ⟨i, hpc, _, _⟩ | ⟨pc, p, hnext, hu⟩
      · rw [hpc] at hguards
        exact absurd rfl hguards
      · rw [hpc] at hguards
        exact absurd rfl hguards
      · have hshape := ht.mainShape
        cases hpc : t.main with
        | guardRear i =>
            rw [hpc] at hnext
            cases hnext
            rw [hu]
            exact Nat.lt_succ_self 0
        | guardFront i rear =>
            rw [hpc] at hnext hshape
            rcases hshape with ⟨_, hlen, hrear⟩
            have hfree : i + 1 < t.pools.taken.length + C.taskQueueMaxSize := by
              rw [hst.pools]
              apply hroom
              rw [← hst.guards_eq, hpc]
              rfl
            have hle : t.pools.taken.length ≤ i := by
              rw [← hlen]
              exact ht.recorded.taken_le
            have hnot := not_full_of_room hle hfree
            rw [← hrear, ← ht.recorded.front_eq] at hnot
            simp only [addTask, if_neg hnot] at hnext
            cases hnext
            have hsame := hidle.guards_eq
            rw [hu, hpc] at hsame
            cases hsame
        | _ =>
            rw [hpc] at hguards
            exact absurd rfl hguards
  · intro t u b hb _ hstep _
    cases b with
    | main => exact absurd rfl hb
    | worker j =>
        rcases step_worker hstep with ⟨_, pc, p, _, hu⟩
        rw [hu]

/-!
# Some thread helps
-/

/-- Every worker has been created, unless `main` is still about to. -/
def Created (C : Params) (s : State) : Prop :=
  forall j, j < C.threadsNum -> s.worker j = WorkerPc.idle ->
    exists i, s.main = MainPc.create i ∧ i ≤ j

theorem executeTask_not_idle {p p' : Threadpools} {pc pc' : WorkerPc}
    (h : executeTask C p pc = some (pc', p')) : pc' ≠ WorkerPc.idle := by
  cases pc with
  | idle | exited => cases h
  | waitMutex | testRear | testSum | readFunction | readArg =>
      simp only [executeTask] at h
      split at h
      · cases h
        exact WorkerPc.noConfusion
      · cases h <;> exact WorkerPc.noConfusion
  | _ =>
      cases h
      exact WorkerPc.noConfusion

theorem Created.step (h : Created C s) {a : Action} (hstep : ThreadPool.step C s a = some t) :
    Created C t := by
  intro j hj hidle
  cases a with
  | worker i =>
      rcases step_worker hstep with ⟨_, pc, p, hnext, ht⟩
      rw [ht] at hidle ⊢
      simp only [Function.update_apply] at hidle
      split at hidle
      · exact absurd hidle (executeTask_not_idle hnext)
      · exact h j hj hidle
  | main =>
      rcases mainThread_cases hstep with ⟨i, hpc, ht⟩ | ⟨i, hpc, _, ht⟩ | ⟨pc, p, hnext, ht⟩
      · rw [ht] at hidle ⊢
        simp only [Function.update_apply] at hidle
        split at hidle
        · cases hidle
        · rename_i hji
          rcases h j hj hidle with ⟨k, hk, hle⟩
          rw [hpc] at hk
          cases hk
          refine ⟨i + 1, ?_, by lia⟩
          exact if_pos (show i + 1 < C.threadsNum by lia)
      · rw [ht] at hidle
        rcases h j hj hidle with ⟨k, hk, _⟩
        rw [hpc] at hk
        cases hk
      · rw [ht] at hidle
        rcases h j hj hidle with ⟨k, hk, _⟩
        rw [hk] at hnext
        cases hnext

/-- A worker that has been created and has not exited is in its loop, can take a step, or
waits for one that is in the critical section. -/
theorem PoolInv.exists_worker (h : PoolInv C s) {i : Nat} (hi : i < C.threadsNum)
    (hidle : s.worker i ≠ WorkerPc.idle) (hexited : s.worker i ≠ WorkerPc.exited) :
    exists j, j < C.threadsNum ∧
      ((s.worker j).spins = true ∨ Moves s.pools (s.worker j)) := by
  by_cases hwait : s.worker i = WorkerPc.waitMutex ∧ s.pools.semMutex = 0
  · have hone : held (Finset.range C.threadsNum) WorkerPc.inside s.worker ≠ 0 := by
      have hmutex := h.mutex
      lia
    rw [Ne, held_eq_zero_iff] at hone
    push Not at hone
    rcases hone with ⟨j, hj, hin⟩
    refine ⟨j, Finset.mem_range.mp hj, ?_⟩
    cases hpc : s.worker j with
    | testFront | testRear | testSum => exact Or.inl rfl
    | idle | waitMutex | execute | exited =>
        rw [hpc] at hin
        exact absurd rfl hin
    | _ => exact Or.inr ⟨WorkerPc.noConfusion, WorkerPc.noConfusion, WorkerPc.noConfusion, rfl⟩
  · refine ⟨i, hi, ?_⟩
    cases hspins : (s.worker i).spins with
    | true => exact Or.inl rfl
    | false =>
        refine Or.inr ⟨hidle, hexited, ?_, hspins⟩
        intro hpc
        exact Nat.pos_of_ne_zero fun hzero => hwait ⟨hpc, hzero⟩

/-- When `main` has to wait there is something to take or everything has been taken, and a
worker that has not exited. -/
theorem PoolInv.waiting (h : PoolInv C s) (hcreated : Created C s)
    (hdone : s.main ≠ MainPc.done) (hwait : ¬ Ready C s) :
    Drains C s.pools ∧ exists i, i < C.threadsNum ∧ s.worker i ≠ WorkerPc.idle ∧
      s.worker i ≠ WorkerPc.exited := by
  have hsize := C.taskQueueMaxSize_pos
  have hshape := h.mainShape
  have hrunning : forall i, i < C.threadsNum -> (forall k, s.main ≠ MainPc.create k) ->
      s.worker i ≠ WorkerPc.idle := by
    intro i hi hcreate hidle
    rcases hcreated i hi hidle with ⟨k, hk, _⟩
    exact hcreate k hk
  have hblocked : (exists i, s.main = MainPc.join i ∧ s.worker i ≠ WorkerPc.exited) ∨
      exists i, s.main.guards = some i ∧
        s.pools.taken.length + C.taskQueueMaxSize ≤ i + 1 := by
    by_contra hnone
    push Not at hnone
    exact hwait ⟨hdone, fun i hpc => hnone.left i hpc, fun i hpc => hnone.right i hpc⟩
  rcases hblocked with ⟨i, hpc, hexited⟩ | ⟨i, hguards, hfull⟩
  · have hmain := h.main
    unfold MainInv at hmain
    rw [hpc] at hmain hshape
    have hall : s.pools.submitted.length = C.taskNum := hshape
    constructor
    · have hle := h.recorded.taken_le
      unfold Drains
      lia
    · refine ⟨i, hmain.left, hrunning i hmain.left ?_, hexited⟩
      intro k hk
      rw [hpc] at hk
      cases hk
  · have hlen : i < C.taskNum ∧ s.pools.submitted.length = i := by
      cases hpc : s.main with
      | guardRear j =>
          rw [hpc] at hguards hshape
          cases hguards
          exact hshape
      | guardFront j rear =>
          rw [hpc] at hguards hshape
          cases hguards
          exact ⟨hshape.left, hshape.right.left⟩
      | _ =>
          rw [hpc] at hguards
          cases hguards
    refine ⟨Or.inl (by lia), 0, C.threadsNum_pos, ?_, ?_⟩
    · apply hrunning 0 C.threadsNum_pos
      intro k hk
      rw [hk] at hguards
      cases hguards
    · intro hexited
      have hall := h.all_taken C.threadsNum_pos (Or.inr hexited)
      lia

def Threads (C : Params) : Action -> Prop
  | Action.main => True
  | Action.worker i => i < C.threadsNum

theorem PoolInv.exists_helper (h : PoolInv C s) (hcreated : Created C s)
    (hdone : s.main ≠ MainPc.done) : exists a dist, Threads C a ∧ Helps C s a dist := by
  by_cases hready : Ready C s
  · exact ⟨Action.main, _, trivial, helps_of_ready hready⟩
  · rcases h.waiting hcreated hdone hready with ⟨hdrains, i, hi, hidle, hexited⟩
    rcases h.exists_worker hi hidle hexited with ⟨j, hj, hspins | hmoves⟩
    · exact ⟨Action.worker j, _, hj, helps_of_spins hj hspins hdrains⟩
    · exact ⟨Action.worker j, _, hj, helps_of_moves hj hmoves⟩

/-!
# Runs
-/

section Runs

variable (r : FairRun (step C) (Threads C))
  (hstart : exists function arg, r.states 0 = initialState C function arg)

include hstart

theorem inv_of_run (n : Nat) : PoolInv C (r.states n) ∧ Created C (r.states n) := by
  rcases hstart with ⟨function, arg, hzero⟩
  apply r.invariant (J := fun s => PoolInv C s ∧ Created C s)
  · rw [hzero]
    refine ⟨initial_inv C function arg, ?_⟩
    intro j hj _
    exact ⟨0, if_pos C.threadsNum_pos, Nat.zero_le j⟩
  · intro s a t _ hs hstep
    exact ⟨hs.left.step hstep, hs.right.step hstep⟩

theorem left_decreases {n : Nat} (hdone : (r.states n).main ≠ MainPc.done) :
    exists m, n ≤ m ∧ (r.states m).left C < (r.states n).left C := by
  rcases inv_of_run r hstart n with ⟨hinv, hcreated⟩
  rcases hinv.exists_helper hcreated hdone with ⟨a, dist, ha, hhelps⟩
  apply r.leads_to (P := fun s => PoolInv C s ∧ Idle (r.states n) s)
    (Q := fun s => s.left C < (r.states n).left C) dist ha
  · rintro s ⟨hs, hidle⟩
    exact hhelps.able s hs hidle
  · rintro s b t _ ⟨hs, hidle⟩ hstep
    rcases hs.left_or_idle hstep with hless | hstay
    · rw [hidle.left_eq] at hless
      exact Or.inl hless
    · right
      refine ⟨⟨hs.step hstep, hidle.trans hstay⟩, ?_, ?_⟩
      · cases decEq b a with
        | isTrue hba =>
            rw [hba] at hstep
            exact Nat.le_of_lt (hhelps.closer s t hs hidle hstep hstay)
        | isFalse hba => exact hhelps.others s t b hba hs hstep hstay
      · intro hba
        rw [hba] at hstep
        exact hhelps.closer s t hs hidle hstep hstay
  · exact ⟨hinv, Idle.refl _⟩

theorem done_stays {n m : Nat} (hle : n ≤ m) (hdone : (r.states n).main = MainPc.done) :
    (r.states m).main = MainPc.done := by
  induction hle with
  | refl => exact hdone
  | step _ ih =>
      rename_i m _
      rcases r.next m with hmove | ⟨_, hsame⟩
      · have hinv := (inv_of_run r hstart m).left
        have hmain := hinv.main
        unfold MainInv at hmain
        rw [ih] at hmain
        cases hturn : r.turn m with
        | main =>
            rw [hturn] at hmove
            simp only [step, mainThread, ih, addTask, Option.map_none] at hmove
            cases hmove
        | worker i =>
            rw [hturn] at hmove
            rcases step_worker hmove with ⟨hi, pc, p, hnext, _⟩
            rw [hmain i hi] at hnext
            cases hnext
      · rw [hsame]
        exact ih

end Runs

/-- Whatever the number of tasks, workers and cells, and however the threads are scheduled: in
the end all tasks have been executed once, all workers have exited and `main` is through. -/
theorem pool_finishes (r : FairRun (step C) (Threads C))
    (hstart : exists function arg, r.states 0 = initialState C function arg) :
    exists n, forall m, n ≤ m -> (r.states m).main = MainPc.done ∧
      (forall i, i < C.threadsNum -> (r.states m).worker i = WorkerPc.exited) ∧
      (r.states m).pools.executed.Perm ((List.range C.taskNum).map C.task) := by
  have hdone : exists n, 0 ≤ n ∧ (r.states n).main = MainPc.done := by
    apply r.eventually_of_left (State.left C) (Q := fun s => s.main = MainPc.done)
    intro n hnot
    rcases left_decreases r hstart hnot with ⟨m, hle, hless⟩
    exact ⟨m, hle, Or.inr hless⟩
  rcases hdone with ⟨n, _, hdone⟩
  refine ⟨n, fun m hle => ?_⟩
  have hend := done_stays r hstart hle hdone
  have hinv := (inv_of_run r hstart m).left
  have hexited : forall i, i < C.threadsNum -> (r.states m).worker i = WorkerPc.exited := by
    have hmain := hinv.main
    unfold MainInv at hmain
    rw [hend] at hmain
    exact hmain
  exact ⟨hend, hexited, hinv.all_executed hexited⟩

def oneTask : Params where
  threadsNum := 1
  taskQueueMaxSize := 2
  taskNum := 1
  task := fun _ => ⟨4096, 8192⟩
  threadsNum_pos := Nat.zero_lt_one
  taskQueueMaxSize_pos := Nat.one_lt_two

def takingTurns : FairRun (step oneTask) (Threads oneTask) :=
  FairRun.ofTurns (step oneTask) (initialState oneTask (fun _ => 0) fun _ => 0)
    (fun n => if n % 2 = 0 then Action.main else Action.worker 0)
    (fun n => by
      split
      · exact trivial
      · exact Nat.zero_lt_one)
    (fun a ha n => by
      cases a with
      | main => exact ⟨2 * n, by lia, if_pos (by lia)⟩
      | worker i =>
          have hi : i < 1 := ha
          have hzero : i = 0 := by lia
          rw [hzero]
          exact ⟨2 * n + 1, by lia, if_neg (by lia)⟩)

theorem pool_finishes_one_task :
    exists n, (takingTurns.states n).main = MainPc.done ∧
      (takingTurns.states n).worker 0 = WorkerPc.exited ∧
      (takingTurns.states n).pools.executed.Perm [⟨4096, 8192⟩] := by
  rcases pool_finishes takingTurns ⟨_, _, rfl⟩ with ⟨n, hall⟩
  rcases hall n (Nat.le_refl n) with ⟨hmain, hworkers, hexecuted⟩
  exact ⟨n, hmain, hworkers 0 Nat.zero_lt_one, hexecuted⟩

end ThreadPool
end OsLabs
