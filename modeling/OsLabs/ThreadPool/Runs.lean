import OsLabs.Foundation.Tokens
import OsLabs.ThreadPool.Queue

/-!
# Every task is executed once

The invariant over all threads, and what it says about whole runs: the tasks are
taken in the order in which they were added, no cell is overwritten before its
task was taken, and no worker exits before all tasks have been taken.
-/

namespace OsLabs
namespace ThreadPool

open Foundation

variable {C : Params} {s t : State}

/-- Which workers have been created, and which have been joined. -/
def MainInv (C : Params) (s : State) : Prop :=
  match s.main with
  | MainPc.create i => i < C.threadsNum ∧ forall j, i ≤ j -> s.worker j = WorkerPc.idle
  | MainPc.join i => i < C.threadsNum ∧ forall j, j < i -> s.worker j = WorkerPc.exited
  | MainPc.done => forall j, j < C.threadsNum -> s.worker j = WorkerPc.exited
  | _ => True

structure PoolInv (C : Params) (s : State) : Prop where
  recorded : Recorded C s.pools
  mutex : s.pools.semMutex +
    held (Finset.range C.threadsNum) WorkerPc.inside s.worker = 1
  free : 0 < s.pools.semMutex -> Settled C s.pools
  shape : forall i, i < C.threadsNum -> WorkerShape C s.pools (s.worker i)
  carries : forall x, s.pools.executed.count x +
    held (Finset.range C.threadsNum) (WorkerPc.carried x) s.worker = s.pools.taken.count x
  mainShape : MainShape C s.pools s.main
  main : MainInv C s

/-!
# Steps of the workers
-/

theorem WorkerPc.inside_le_one (pc : WorkerPc) : pc.inside ≤ 1 := by
  cases pc <;> exact Nat.le_of_ble_eq_true rfl

theorem WorkerShape.of_outside {p p' : Threadpools} {pc : WorkerPc} (hout : pc.inside = 0)
    (h : WorkerShape C p pc) (hrec : Recorded C p')
    (hle : p.taken.length ≤ p'.taken.length) : WorkerShape C p' pc := by
  cases pc with
  | idle | waitMutex | execute => trivial
  | exited =>
      have hall : p.taken.length = C.taskNum := h
      have htaken := hrec.taken_le
      have hsubmitted := hrec.submitted_le
      change p'.taken.length = C.taskNum
      lia
  | _ => cases hout

theorem PoolInv.shape_worker (h : PoolInv C s) {i : Nat} (hi : i < C.threadsNum)
    {pc : WorkerPc} {p : Threadpools} (hmoved : WorkerMoved C (s.worker i) pc s.pools p) {j : Nat}
    (hj : j < C.threadsNum) : WorkerShape C p (Function.update s.worker i pc j) := by
  rw [Function.update_apply]
  by_cases hji : j = i
  · rw [if_pos hji]
    exact hmoved.shape
  · rw [if_neg hji]
    by_cases hin : (s.worker i).inside = 0
    · rcases hmoved.outside hin with ⟨hsum, htaken⟩
      exact (h.shape j hj).mono hsum htaken (by rw [hmoved.submitted_eq])
    · have hout : (s.worker j).inside = 0 := by
        have hmutex := h.mutex
        by_contra hpos
        exact hji (eq_of_held_le_one (w := WorkerPc.inside) (q := s.worker) (by lia)
          (Finset.mem_range.mpr hj) (Finset.mem_range.mpr hi) (Nat.pos_of_ne_zero hpos)
          (Nat.pos_of_ne_zero hin))
      exact WorkerShape.of_outside hout (h.shape j hj) hmoved.recorded hmoved.taken_le

theorem PoolInv.free_worker (h : PoolInv C s) {i : Nat} (hi : i < C.threadsNum)
    {pc : WorkerPc} {p : Threadpools} (hmoved : WorkerMoved C (s.worker i) pc s.pools p)
    (hfree : 0 < p.semMutex) : Settled C p := by
  have hmutex := hmoved.mutex
  by_cases hin : (s.worker i).inside = 0
  · rcases hmoved.outside hin with ⟨hsum, htaken⟩
    have hsettled := h.free (by lia)
    unfold Settled at hsettled ⊢
    rw [hsum, htaken, hsettled]
  · have hle := (s.worker i).inside_le_one
    have htotal := h.mutex
    have hheld := le_held (w := WorkerPc.inside) (q := s.worker) (Finset.mem_range.mpr hi)
    exact hmoved.released (by lia) (by lia)

/-- A step of a worker changes the state of no thread that is not running. -/
theorem MainInv.of_running (h : MainInv C s) {i : Nat} {pc : WorkerPc} {p : Threadpools}
    (hidle : s.worker i ≠ WorkerPc.idle) (hexited : s.worker i ≠ WorkerPc.exited) :
    MainInv C { s with pools := p, worker := Function.update s.worker i pc } := by
  have hkept : forall j x, s.worker j = x -> x = WorkerPc.idle ∨ x = WorkerPc.exited ->
      Function.update s.worker i pc j = x := by
    intro j x hj hx
    rw [Function.update_of_ne, hj]
    intro heq
    rw [heq] at hj
    cases hx with
    | inl hx => exact hidle (hj.trans hx)
    | inr hx => exact hexited (hj.trans hx)
  unfold MainInv at h ⊢
  cases hpc : s.main with
  | create i =>
      rw [hpc] at h
      exact ⟨h.left, fun j hj => hkept j _ (h.right j hj) (Or.inl rfl)⟩
  | join i =>
      rw [hpc] at h
      exact ⟨h.left, fun j hj => hkept j _ (h.right j hj) (Or.inr rfl)⟩
  | done =>
      rw [hpc] at h
      exact fun j hj => hkept j _ (h j hj) (Or.inr rfl)
  | _ => trivial

theorem PoolInv.worker_step (h : PoolInv C s) {i : Nat} (hi : i < C.threadsNum)
    {pc : WorkerPc} {p : Threadpools}
    (hnext : executeTask C s.pools (s.worker i) = some (pc, p)) :
    PoolInv C { s with pools := p, worker := Function.update s.worker i pc } := by
  have hmoved := executeTask_moved h.recorded (h.shape i hi) h.free hnext
  have hmem := Finset.mem_range.mpr hi
  constructor
  · exact hmoved.recorded
  · have hmutex := hmoved.mutex
    have hheld := held_update hmem WorkerPc.inside s.worker pc
    have hold := h.mutex
    simp only
    lia
  · exact h.free_worker hi hmoved
  · intro j hj
    exact h.shape_worker hi hmoved hj
  · intro x
    have hcarries := hmoved.carries x
    have hheld := held_update hmem (WorkerPc.carried x) s.worker pc
    have hold := h.carries x
    simp only
    lia
  · exact h.mainShape.mono hmoved.submitted_eq hmoved.function_eq hmoved.arg_eq hmoved.taken_le
  · apply h.main.of_running
    · intro hidle
      rw [hidle] at hnext
      cases hnext
    · intro hexited
      rw [hexited] at hnext
      cases hnext

/-!
# Steps of `main`
-/

theorem mainThread_cases (h : mainThread C s = some t) :
    (exists i, s.main = MainPc.create i ∧
      t = { s with
        main := createFrom C (i + 1)
        worker := Function.update s.worker i WorkerPc.waitMutex }) ∨
    (exists i, s.main = MainPc.join i ∧ s.worker i = WorkerPc.exited ∧
      t = { s with main := joinFrom C (i + 1) }) ∨
    (exists pc p, addTask C s.pools s.main = some (pc, p) ∧
      t = { s with main := pc, pools := p }) := by
  unfold mainThread at h
  split at h
  · rename_i i hpc
    cases h
    exact Or.inl ⟨i, hpc, rfl⟩
  · rename_i i hpc
    split at h
    · rename_i hexited
      cases h
      exact Or.inr (Or.inl ⟨i, hpc, hexited, rfl⟩)
    · cases h
  · rcases Option.map_eq_some_iff.mp h with ⟨next, hnext, ht⟩
    exact Or.inr (Or.inr ⟨next.fst, next.snd, hnext, ht.symm⟩)

theorem mainInv_joinFrom {i : Nat} (hmain : s.main = joinFrom C i) (hle : i ≤ C.threadsNum)
    (hexited : forall j, j < i -> s.worker j = WorkerPc.exited) : MainInv C s := by
  unfold MainInv
  rw [hmain]
  unfold joinFrom
  by_cases hi : i < C.threadsNum
  · rw [if_pos hi]
    exact ⟨hi, hexited⟩
  · rw [if_neg hi]
    intro j hj
    exact hexited j (by lia)

theorem mainInv_addFrom {i : Nat} (hmain : s.main = addFrom C i) : MainInv C s := by
  by_cases hi : i < C.taskNum
  · unfold MainInv
    rw [hmain, addFrom, if_pos hi]
    trivial
  · rw [addFrom, if_neg hi] at hmain
    apply mainInv_joinFrom hmain (Nat.zero_le _)
    intro j hj
    cases hj

theorem mainInv_createFrom {i : Nat} (hmain : s.main = createFrom C i)
    (hidle : forall j, i ≤ j -> s.worker j = WorkerPc.idle) : MainInv C s := by
  by_cases hi : i < C.threadsNum
  · unfold MainInv
    rw [hmain, createFrom, if_pos hi]
    exact ⟨hi, hidle⟩
  · rw [createFrom, if_neg hi] at hmain
    exact mainInv_addFrom hmain

theorem mainInv_addTask {pc pc' : MainPc} {p p' : Threadpools}
    (h : addTask C p pc = some (pc', p')) (hmain : s.main = pc') : MainInv C s := by
  cases pc with
  | create | join | done => cases h
  | guardRear | readRear =>
      cases h
      unfold MainInv
      rw [hmain]
      trivial
  | guardFront =>
      simp only [addTask] at h
      unfold MainInv
      rw [hmain]
      split at h
      · cases h
        trivial
      · cases h
        trivial
  | writeFunction | writeArg =>
      simp only [addTask] at h
      unfold MainInv
      rw [hmain]
      split at h
      · cases h
        trivial
      · cases h
  | writeRear i rear =>
      cases h
      exact mainInv_addFrom hmain

theorem PoolInv.create_step (h : PoolInv C s) {i : Nat} (hpc : s.main = MainPc.create i) :
    PoolInv C { s with
      main := createFrom C (i + 1)
      worker := Function.update s.worker i WorkerPc.waitMutex } := by
  have hmain := h.main
  unfold MainInv at hmain
  rw [hpc] at hmain
  have hshape := h.mainShape
  rw [hpc] at hshape
  have hmem := Finset.mem_range.mpr hmain.left
  have hidle := hmain.right i (Nat.le_refl i)
  constructor
  · exact h.recorded
  · have hheld := held_update hmem WorkerPc.inside s.worker WorkerPc.waitMutex
    have hold := h.mutex
    rw [hidle] at hheld
    simp only [WorkerPc.inside, Nat.add_zero] at hheld ⊢
    rw [hheld, hold]
  · exact h.free
  · intro j hj
    change WorkerShape C s.pools (Function.update s.worker i WorkerPc.waitMutex j)
    rw [Function.update_apply]
    by_cases hji : j = i
    · rw [if_pos hji]
      trivial
    · rw [if_neg hji]
      exact h.shape j hj
  · intro x
    have hheld := held_update hmem (WorkerPc.carried x) s.worker WorkerPc.waitMutex
    have hold := h.carries x
    rw [hidle] at hheld
    simp only [WorkerPc.carried, Nat.add_zero] at hheld ⊢
    rw [hheld, hold]
  · exact mainShape_createFrom hshape
  · apply mainInv_createFrom rfl
    intro j hj
    have hji : j ≠ i := by lia
    simp only [Function.update_of_ne hji]
    exact hmain.right j (by lia)

theorem PoolInv.join_step (h : PoolInv C s) {i : Nat} (hpc : s.main = MainPc.join i)
    (hexited : s.worker i = WorkerPc.exited) :
    PoolInv C { s with main := joinFrom C (i + 1) } := by
  have hmain := h.main
  unfold MainInv at hmain
  rw [hpc] at hmain
  have hshape := h.mainShape
  rw [hpc] at hshape
  refine { h with mainShape := mainShape_joinFrom hshape, main := ?_ }
  apply mainInv_joinFrom rfl hmain.left
  intro j hj
  by_cases hji : j = i
  · rw [hji]
    exact hexited
  · exact hmain.right j (by lia)

theorem PoolInv.add_step (h : PoolInv C s) {pc : MainPc} {p : Threadpools}
    (hnext : addTask C s.pools s.main = some (pc, p)) :
    PoolInv C { s with main := pc, pools := p } := by
  have hmoved := addTask_moved h.recorded h.mainShape hnext
  constructor
  · exact hmoved.recorded
  · simp only [hmoved.mutex_eq]
    exact h.mutex
  · intro hfree
    have hsettled := h.free (by simpa only [hmoved.mutex_eq] using hfree)
    unfold Settled at hsettled ⊢
    simp only [hmoved.taskSum_eq, hmoved.taken_eq, hsettled]
  · intro i hi
    exact (h.shape i hi).mono hmoved.taskSum_eq hmoved.taken_eq hmoved.submitted_le
  · intro x
    simp only [hmoved.executed_eq, hmoved.taken_eq]
    exact h.carries x
  · exact hmoved.shape
  · exact mainInv_addTask hnext rfl

/-!
# Whole runs
-/

theorem initial_inv (C : Params) (function arg : Nat -> Nat) :
    PoolInv C (initialState C function arg) := by
  have hsize := C.taskQueueMaxSize_pos
  constructor
  · constructor
    · exact (Nat.zero_mod _).symm
    · exact (Nat.zero_mod _).symm
    · rfl
    · rfl
    · exact Nat.le_refl 0
    · change 0 < 0 + C.taskQueueMaxSize
      lia
    · exact Nat.zero_le _
    · exact Buffered.empty _ _ _ 0
    · exact Buffered.empty _ _ _ 0
  · have hnone : held (Finset.range C.threadsNum) WorkerPc.inside (fun _ => WorkerPc.idle) = 0 :=
      held_eq_zero_iff.mpr fun _ _ => rfl
    simp only [initialState, initThreadpools, hnone]
  · intro _
    exact (Int.sub_zero _).symm
  · intro i _
    trivial
  · intro x
    have hnone : held (Finset.range C.threadsNum) (WorkerPc.carried x)
        (fun _ => WorkerPc.idle) = 0 := held_eq_zero_iff.mpr fun _ _ => rfl
    simp only [initialState, initThreadpools, hnone, List.count_nil]
  · exact mainShape_createFrom rfl
  · exact mainInv_createFrom rfl fun _ _ => rfl

theorem PoolInv.step (h : PoolInv C s) {a : Action} (hstep : ThreadPool.step C s a = some t) :
    PoolInv C t := by
  cases a with
  | main =>
      rcases mainThread_cases hstep with ⟨i, hpc, ht⟩ | ⟨i, hpc, hexited, ht⟩ | ⟨pc, p, hnext, ht⟩
      · rw [ht]
        exact h.create_step hpc
      · rw [ht]
        exact h.join_step hpc hexited
      · rw [ht]
        exact h.add_step hnext
  | worker i =>
      simp only [ThreadPool.step] at hstep
      split at hstep
      · rename_i hi
        rcases Option.map_eq_some_iff.mp hstep with ⟨next, hnext, ht⟩
        rw [← ht]
        exact h.worker_step hi hnext
      · cases hstep

theorem reachable_inv (hs : (poolSystem C).Reachable s) : PoolInv C s := by
  apply hs.invariant
  · intro s hinit
    rcases hinit with ⟨function, arg, hs⟩
    rw [hs]
    exact initial_inv C function arg
  · intro s a t hinv hstep
    exact hinv.step hstep

theorem Recorded.mem_drop {p : Threadpools} (h : Recorded C p) {w : Nat × Task}
    (hw : w ∈ p.submitted.drop p.taken.length) :
    exists k, p.taken.length ≤ k ∧ k < p.submitted.length ∧
      w = (k % C.taskQueueMaxSize, C.task k) := by
  rcases List.mem_iff_getElem.mp hw with ⟨k, hk, hval⟩
  rw [List.length_drop] at hk
  rw [List.getElem_drop] at hval
  refine ⟨p.taken.length + k, Nat.le_add_right _ _, by lia, ?_⟩
  rw [← hval, List.getElem_of_eq h.submitted_eq, List.getElem_map, List.getElem_range]

theorem Recorded.queued_kept {p : Threadpools} (h : Recorded C p) {w : Nat × Task}
    (hw : w ∈ p.submitted.drop p.taken.length) :
    p.function w.fst = w.snd.function ∧ p.arg w.fst = w.snd.arg := by
  rcases h.mem_drop hw with ⟨k, hlo, hhi, hwk⟩
  rw [hwk]
  exact ⟨h.functions k hlo hhi, h.args k hlo hhi⟩

theorem Recorded.map_submitted {p : Threadpools} (h : Recorded C p) :
    p.submitted.map Prod.snd = (List.range p.submitted.length).map C.task := by
  have hmap := congrArg (List.map Prod.snd) h.submitted_eq
  rw [List.map_map] at hmap
  exact hmap

theorem Recorded.taken_prefix {p : Threadpools} (h : Recorded C p) :
    p.taken <+: p.submitted.map Prod.snd := by
  rw [h.map_submitted, h.taken_eq]
  apply List.IsPrefix.map
  rw [List.prefix_iff_eq_take, List.length_range, List.take_range, Nat.min_eq_left h.taken_le]

theorem PoolInv.queued_kept (h : PoolInv C s) {i slot : Nat}
    (hpc : s.main = MainPc.writeFunction i slot ∨ s.main = MainPc.writeArg i slot)
    {w : Nat × Task} (hw : w ∈ s.pools.submitted.drop s.pools.taken.length) : w.fst ≠ slot := by
  have hadding : Adding C s.pools i slot := by
    have hshape := h.mainShape
    cases hpc with
    | inl hpc =>
        rw [hpc] at hshape
        exact hshape
    | inr hpc =>
        rw [hpc] at hshape
        exact hshape.left
  rcases hadding with ⟨_, hlen, hroom, hslot⟩
  rcases h.recorded.mem_drop hw with ⟨k, hlo, hhi, hwk⟩
  rw [hwk, hslot]
  exact mod_ne_mod (by lia) (by lia)

theorem PoolInv.all_taken (h : PoolInv C s) {i : Nat} (hi : i < C.threadsNum)
    (hpc : s.worker i = WorkerPc.exitPost ∨ s.worker i = WorkerPc.exited) :
    s.pools.taken.length = C.taskNum := by
  have hshape := h.shape i hi
  cases hpc with
  | inl hpc =>
      rw [hpc] at hshape
      exact hshape.right
  | inr hpc =>
      rw [hpc] at hshape
      exact hshape

theorem PoolInv.all_executed (h : PoolInv C s)
    (hexited : forall i, i < C.threadsNum -> s.worker i = WorkerPc.exited) :
    s.pools.executed.Perm ((List.range C.taskNum).map C.task) := by
  have hall := h.all_taken C.threadsNum_pos (Or.inr (hexited 0 C.threadsNum_pos))
  rw [← hall, ← h.recorded.taken_eq]
  apply List.perm_iff_count.mpr
  intro x
  have hnone : held (Finset.range C.threadsNum) (WorkerPc.carried x) s.worker = 0 := by
    apply held_eq_zero_iff.mpr
    intro i hi
    rw [hexited i (Finset.mem_range.mp hi)]
    rfl
  have hcarries := h.carries x
  lia

theorem executed_of_done (hs : (poolSystem C).Reachable s) (hdone : s.main = MainPc.done) :
    s.pools.executed.Perm ((List.range C.taskNum).map C.task) := by
  have hinv := reachable_inv hs
  have hmain := hinv.main
  unfold MainInv at hmain
  rw [hdone] at hmain
  exact hinv.all_executed hmain

theorem pool_exact (hs : (poolSystem C).Reachable s) :
    s.pools.submitted.map Prod.snd =
      (List.range s.pools.submitted.length).map C.task ∧
    s.pools.submitted.length ≤ C.taskNum ∧
    s.pools.taken <+: s.pools.submitted.map Prod.snd ∧
    (forall w, w ∈ s.pools.submitted.drop s.pools.taken.length ->
      s.pools.function w.fst = w.snd.function ∧ s.pools.arg w.fst = w.snd.arg) ∧
    (forall i slot,
      s.main = MainPc.writeFunction i slot ∨ s.main = MainPc.writeArg i slot ->
      forall w, w ∈ s.pools.submitted.drop s.pools.taken.length -> w.fst ≠ slot) ∧
    (0 < s.pools.semMutex ->
      s.pools.taskSum = (C.taskNum : Int) - s.pools.taken.length) ∧
    (forall i, i < C.threadsNum ->
      s.worker i = WorkerPc.exitPost ∨ s.worker i = WorkerPc.exited ->
      s.pools.taken.length = C.taskNum) ∧
    (forall x, s.pools.executed.count x ≤ s.pools.taken.count x) ∧
    ((forall i, i < C.threadsNum -> s.worker i = WorkerPc.exited) ->
      s.pools.executed.Perm ((List.range C.taskNum).map C.task)) := by
  have hinv := reachable_inv hs
  have hrec := hinv.recorded
  refine ⟨hrec.map_submitted, hrec.submitted_le, hrec.taken_prefix, fun w => hrec.queued_kept,
    fun i slot hpc w => hinv.queued_kept hpc, hinv.free, fun i hi => hinv.all_taken hi, ?_,
    hinv.all_executed⟩
  intro x
  have hcarries := hinv.carries x
  lia

/-- Two workers, four tasks and a queue that holds two of them. -/
def fourTasks : Params where
  threadsNum := 2
  taskQueueMaxSize := 3
  taskNum := 4
  task := fun i => ⟨4096, i⟩
  threadsNum_pos := Nat.le_succ 1
  taskQueueMaxSize_pos := Nat.le_succ 2

/-- Two tasks are added and taken, of which the second is executed first, and the other two
are added. -/
def roundTheQueue : List Action :=
  List.replicate 14 Action.main ++ List.replicate 10 (Action.worker 0) ++
    List.replicate 11 (Action.worker 1) ++ List.replicate 12 Action.main

def everybodyLeaves : List Action :=
  roundTheQueue ++ List.replicate 12 (Action.worker 0) ++ List.replicate 16 (Action.worker 1) ++
    List.replicate 5 (Action.worker 0) ++ List.replicate 2 Action.main

theorem fourTasks_reachable {as : List Action}
    (hrun : System.execAll (step fourTasks) (initialState fourTasks (fun _ => 0) fun _ => 0) as =
      some s) : (poolSystem fourTasks).Reachable s :=
  System.Reachable.of_execAll (fun _ _ _ _ hstep => hstep)
    (System.Reachable.init ⟨_, _, rfl⟩) hrun

theorem pool_exact_four_tasks :
    (exists s, (poolSystem fourTasks).Reachable s ∧
      s.pools.submitted = [(0, ⟨4096, 0⟩), (1, ⟨4096, 1⟩), (2, ⟨4096, 2⟩), (0, ⟨4096, 3⟩)] ∧
      s.pools.taken = [⟨4096, 0⟩, ⟨4096, 1⟩] ∧ s.pools.executed = [⟨4096, 1⟩] ∧
      s.pools.taskSum = 2 ∧
      forall w, w ∈ [(2, Task.mk 4096 2), (0, Task.mk 4096 3)] ->
        s.pools.function w.fst = w.snd.function ∧ s.pools.arg w.fst = w.snd.arg) ∧
    exists s, (poolSystem fourTasks).Reachable s ∧ s.main = MainPc.done ∧
      s.pools.executed.Perm [⟨4096, 0⟩, ⟨4096, 1⟩, ⟨4096, 2⟩, ⟨4096, 3⟩] := by
  constructor
  · have hrun : (System.execAll (step fourTasks)
        (initialState fourTasks (fun _ => 0) fun _ => 0) roundTheQueue).map
          (fun s => (s.pools.submitted, s.pools.taken, s.pools.executed, s.pools.semMutex)) =
        some ([(0, ⟨4096, 0⟩), (1, ⟨4096, 1⟩), (2, ⟨4096, 2⟩), (0, ⟨4096, 3⟩)],
          [⟨4096, 0⟩, ⟨4096, 1⟩], [⟨4096, 1⟩], 1) := by decide +kernel
    rcases Option.map_eq_some_iff.mp hrun with ⟨s, hexec, hvalues⟩
    simp only [Prod.mk.injEq] at hvalues
    rcases hvalues with ⟨hsubmitted, htaken, hexecuted, hfree⟩
    have hs := fourTasks_reachable hexec
    rcases pool_exact hs with ⟨_, _, _, hstored, _, hsum, _⟩
    rw [hsubmitted, htaken] at hstored
    rw [hfree, htaken] at hsum
    exact ⟨s, hs, hsubmitted, htaken, hexecuted, hsum Nat.zero_lt_one, hstored⟩
  · have hrun : (System.execAll (step fourTasks)
        (initialState fourTasks (fun _ => 0) fun _ => 0) everybodyLeaves).map
          (fun s => (s.main, s.worker 0, s.worker 1)) =
        some (MainPc.done, WorkerPc.exited, WorkerPc.exited) := by decide +kernel
    rcases Option.map_eq_some_iff.mp hrun with ⟨s, hexec, hvalues⟩
    simp only [Prod.mk.injEq] at hvalues
    rcases hvalues with ⟨hdone, hfirst, hsecond⟩
    have hs := fourTasks_reachable hexec
    rcases pool_exact hs with ⟨_, _, _, _, _, _, _, _, hall⟩
    refine ⟨s, hs, hdone, hall ?_⟩
    intro i hi
    have hcases : i = 0 ∨ i = 1 := by
      change i < 2 at hi
      lia
    cases hcases with
    | inl hzero => exact hzero ▸ hfirst
    | inr hone => exact hone ▸ hsecond

end ThreadPool
end OsLabs
