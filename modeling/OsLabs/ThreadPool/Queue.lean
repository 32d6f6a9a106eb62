import OsLabs.Foundation.CircularBuffer
import OsLabs.ThreadPool.Model

/-!
# Who may touch which cell

The cells from `front` up to `rear` belong to the workers, the others to `main`.
What `main` and a worker know at each point of their programs survives the steps
of the other side, and every step of one side is described once.
-/

namespace OsLabs
namespace ThreadPool

open Foundation

variable {C : Params} {p p' : Threadpools}

structure Recorded (C : Params) (p : Threadpools) : Prop where
  front_eq : p.front = p.taken.length % C.taskQueueMaxSize
  rear_eq : p.rear = p.submitted.length % C.taskQueueMaxSize
  submitted_eq : p.submitted =
    (List.range p.submitted.length).map fun k => (k % C.taskQueueMaxSize, C.task k)
  taken_eq : p.taken = (List.range p.taken.length).map C.task
  taken_le : p.taken.length ≤ p.submitted.length
  room : p.submitted.length < p.taken.length + C.taskQueueMaxSize
  submitted_le : p.submitted.length ≤ C.taskNum
  functions : Buffered C.taskQueueMaxSize p.function (fun k => (C.task k).function)
    p.taken.length p.submitted.length
  args : Buffered C.taskQueueMaxSize p.arg (fun k => (C.task k).arg)
    p.taken.length p.submitted.length

/-- No worker is between its update of `taskSum` and its update of `front`. -/
def Settled (C : Params) (p : Threadpools) : Prop :=
  p.taskSum = (C.taskNum : Int) - p.taken.length

/-- `taskSum` has been decremented for a task that is still in the queue. -/
def Claimed (C : Params) (p : Threadpools) : Prop :=
  p.taskSum = (C.taskNum : Int) - p.taken.length - 1 ∧ p.taken.length < p.submitted.length

def WorkerShape (C : Params) (p : Threadpools) : WorkerPc -> Prop
  | WorkerPc.testFront => Settled C p
  | WorkerPc.testRear front => Settled C p ∧ front = p.taken.length % C.taskQueueMaxSize
  | WorkerPc.testSum => Settled C p
  | WorkerPc.exitPost => Settled C p ∧ p.taken.length = C.taskNum
  | WorkerPc.readSum => Settled C p ∧ p.taken.length < p.submitted.length
  | WorkerPc.writeSum v =>
      v = (C.taskNum : Int) - p.taken.length ∧ p.taken.length < p.submitted.length
  | WorkerPc.readFront => Claimed C p
  | WorkerPc.readFunction front =>
      Claimed C p ∧ front = p.taken.length % C.taskQueueMaxSize
  | WorkerPc.readArg front function =>
      Claimed C p ∧ front = p.taken.length % C.taskQueueMaxSize ∧
        function = (C.task p.taken.length).function
  | WorkerPc.writeFront front task =>
      Claimed C p ∧ front = p.taken.length % C.taskQueueMaxSize ∧
        task = C.task p.taken.length
  | WorkerPc.postMutex _ => Settled C p
  | WorkerPc.exited => p.taken.length = C.taskNum
  | _ => True

/-- The cell that `main` is about to write is `rear`, and it is free. -/
def Adding (C : Params) (p : Threadpools) (i rear : Nat) : Prop :=
  i < C.taskNum ∧ p.submitted.length = i ∧ i + 1 < p.taken.length + C.taskQueueMaxSize ∧
    rear = i % C.taskQueueMaxSize

def MainShape (C : Params) (p : Threadpools) : MainPc -> Prop
  | MainPc.create _ => p.submitted.length = 0
  | MainPc.guardRear i => i < C.taskNum ∧ p.submitted.length = i
  | MainPc.guardFront i rear =>
      i < C.taskNum ∧ p.submitted.length = i ∧ rear = i % C.taskQueueMaxSize
  | MainPc.readRear i => Adding C p i (i % C.taskQueueMaxSize)
  | MainPc.writeFunction i rear => Adding C p i rear
  | MainPc.writeArg i rear =>
      Adding C p i rear ∧
        Buffered C.taskQueueMaxSize p.function (fun k => (C.task k).function)
          p.taken.length (i + 1)
  | MainPc.writeRear i rear =>
      Adding C p i rear ∧
        Buffered C.taskQueueMaxSize p.function (fun k => (C.task k).function)
          p.taken.length (i + 1) ∧
        Buffered C.taskQueueMaxSize p.arg (fun k => (C.task k).arg) p.taken.length (i + 1)
  | MainPc.join _ => p.submitted.length = C.taskNum
  | MainPc.done => p.submitted.length = C.taskNum

/-!
# The test for a full queue
-/

theorem room_of_not_full {t s : Nat} (hroom : s < t + C.taskQueueMaxSize)
    (h : ¬ full C (s % C.taskQueueMaxSize) (t % C.taskQueueMaxSize)) :
    s + 1 < t + C.taskQueueMaxSize := by
  have hsize := C.taskQueueMaxSize_pos
  apply lt_of_le_of_ne hroom
  intro heq
  apply h
  have hfront : t % C.taskQueueMaxSize < C.taskQueueMaxSize := Nat.mod_lt _ (by lia)
  have hnext : (s % C.taskQueueMaxSize + 1) % C.taskQueueMaxSize = t % C.taskQueueMaxSize := by
    rw [Nat.mod_add_mod, heq, Nat.add_mod_right]
  unfold full
  have hcast : (((s % C.taskQueueMaxSize : Nat) : Int) + C.taskQueueMaxSize + 1 -
      (t % C.taskQueueMaxSize : Nat)) =
      ((s % C.taskQueueMaxSize + C.taskQueueMaxSize + 1 - t % C.taskQueueMaxSize : Nat) : Int) := by
    lia
  rw [hcast, ← Int.ofNat_tmod]
  have hdvd : C.taskQueueMaxSize ∣
      s % C.taskQueueMaxSize + C.taskQueueMaxSize + 1 - t % C.taskQueueMaxSize := by
    have hmod : t % C.taskQueueMaxSize ≡
        s % C.taskQueueMaxSize + C.taskQueueMaxSize + 1 [MOD C.taskQueueMaxSize] := by
      unfold Nat.ModEq
      rw [Nat.mod_mod, Nat.add_right_comm, Nat.add_mod_right, hnext]
    exact (Nat.modEq_iff_dvd' (by lia)).mp hmod
  rw [Nat.mod_eq_zero_of_dvd hdvd]
  rfl

theorem Recorded.taken_lt (h : Recorded C p)
    (hne : p.taken.length % C.taskQueueMaxSize ≠ p.rear) :
    p.taken.length < p.submitted.length := by
  apply lt_of_le_of_ne h.taken_le
  intro heq
  apply hne
  rw [h.rear_eq, heq]

/-!
# What one side knows survives the steps of the other
-/

/-- Tasks added behind its back do not matter to a worker. -/
theorem WorkerShape.mono {pc : WorkerPc} (h : WorkerShape C p pc) (hsum : p'.taskSum = p.taskSum)
    (htaken : p'.taken = p.taken) (hle : p.submitted.length ≤ p'.submitted.length) :
    WorkerShape C p' pc := by
  cases pc with
  | idle | waitMutex | execute => trivial
  | testFront | testRear | testSum | exitPost | postMutex | exited =>
      simpa only [WorkerShape, Settled, hsum, htaken] using h
  | readSum =>
      simp only [WorkerShape, Settled, hsum, htaken] at h ⊢
      exact ⟨h.left, h.right.trans_le hle⟩
  | writeSum v =>
      simp only [WorkerShape, htaken] at h ⊢
      exact ⟨h.left, h.right.trans_le hle⟩
  | readFront =>
      simp only [WorkerShape, Claimed, hsum, htaken] at h ⊢
      exact ⟨h.left, h.right.trans_le hle⟩
  | readFunction | readArg | writeFront =>
      simp only [WorkerShape, Claimed, hsum, htaken] at h ⊢
      exact ⟨⟨h.left.left, h.left.right.trans_le hle⟩, h.right⟩

theorem Adding.mono {i rear : Nat} (h : Adding C p i rear) (hsub : p'.submitted = p.submitted)
    (hle : p.taken.length ≤ p'.taken.length) : Adding C p' i rear := by
  rcases h with ⟨hi, hlen, hroom, hrear⟩
  exact ⟨hi, by rw [hsub, hlen], by lia, hrear⟩

/-- Tasks taken behind its back leave more room to `main`. -/
theorem MainShape.mono {pc : MainPc} (h : MainShape C p pc) (hsub : p'.submitted = p.submitted)
    (hfun : p'.function = p.function) (harg : p'.arg = p.arg)
    (hle : p.taken.length ≤ p'.taken.length) : MainShape C p' pc := by
  cases pc with
  | create | guardRear | guardFront | join | done =>
      simpa only [MainShape, hsub] using h
  | readRear => exact Adding.mono h hsub hle
  | writeFunction => exact Adding.mono h hsub hle
  | writeArg =>
      refine ⟨h.left.mono hsub hle, ?_⟩
      rw [hfun]
      exact h.right.mono hle (Nat.le_refl _)
  | writeRear =>
      refine ⟨h.left.mono hsub hle, ?_, ?_⟩
      · rw [hfun]
        exact h.right.left.mono hle (Nat.le_refl _)
      · rw [harg]
        exact h.right.right.mono hle (Nat.le_refl _)

/-!
# Steps of a worker
-/

namespace WorkerPc

/-- Between `sem_wait` and `sem_post` on `sem_mutex`. -/
def inside : WorkerPc -> Nat
  | idle | waitMutex | execute _ | exited => 0
  | _ => 1

/-- The worker has taken the task `x` and not executed it yet. -/
def carried (x : Task) : WorkerPc -> Nat
  | postMutex task => if task = x then 1 else 0
  | execute task => if task = x then 1 else 0
  | _ => 0

end WorkerPc

/-- What a step of a worker from `pc` to `pc'` does. -/
structure WorkerMoved (C : Params) (pc pc' : WorkerPc) (p p' : Threadpools) : Prop where
  mutex : p'.semMutex + pc'.inside = p.semMutex + pc.inside
  carries : forall x, p'.executed.count x + pc'.carried x + p.taken.count x =
    p.executed.count x + pc.carried x + p'.taken.count x
  recorded : Recorded C p'
  submitted_eq : p'.submitted = p.submitted
  function_eq : p'.function = p.function
  arg_eq : p'.arg = p.arg
  taken_le : p.taken.length ≤ p'.taken.length
  outside : pc.inside = 0 -> p'.taskSum = p.taskSum ∧ p'.taken = p.taken
  shape : WorkerShape C p' pc'
  released : pc.inside = 1 -> pc'.inside = 0 -> Settled C p'

theorem WorkerMoved.of_read {pc pc' : WorkerPc} (hrec : Recorded C p)
    (hinside : pc'.inside = pc.inside) (hcarried : forall x, pc'.carried x = pc.carried x)
    (hshape : WorkerShape C p pc') : WorkerMoved C pc pc' p p where
  mutex := by rw [hinside]
  carries := by
    intro x
    rw [hcarried]
  recorded := hrec
  submitted_eq := rfl
  function_eq := rfl
  arg_eq := rfl
  taken_le := Nat.le_refl _
  outside := fun _ => ⟨rfl, rfl⟩
  shape := hshape
  released := by
    intro hin hout
    rw [hinside, hin] at hout
    cases hout

theorem WorkerMoved.of_semaphore {pc pc' : WorkerPc} {n : Nat} (hrec : Recorded C p)
    (hmutex : n + pc'.inside = p.semMutex + pc.inside)
    (hcarried : forall x, pc'.carried x = pc.carried x) (hshape : WorkerShape C p pc')
    (hreleased : pc.inside = 1 -> pc'.inside = 0 -> Settled C p) :
    WorkerMoved C pc pc' p { p with semMutex := n } where
  mutex := hmutex
  carries := by
    intro x
    rw [hcarried]
  recorded := { hrec with }
  submitted_eq := rfl
  function_eq := rfl
  arg_eq := rfl
  taken_le := Nat.le_refl _
  outside := fun _ => ⟨rfl, rfl⟩
  shape := hshape.mono rfl rfl (Nat.le_refl _)
  released := hreleased

theorem Recorded.take (h : Recorded C p) (hlt : p.taken.length < p.submitted.length) :
    Recorded C { p with
      front := (p.taken.length % C.taskQueueMaxSize + 1) % C.taskQueueMaxSize
      taken := p.taken ++ [C.task p.taken.length] } where
  front_eq := by
    simp only [List.length_append, List.length_singleton]
    rw [Nat.mod_add_mod]
  rear_eq := h.rear_eq
  submitted_eq := h.submitted_eq
  taken_eq := by
    simp only [List.length_append, List.length_singleton, List.range_succ, List.map_append,
      List.map_singleton]
    rw [← h.taken_eq]
  taken_le := by
    simp only [List.length_append, List.length_singleton]
    exact hlt
  room := by
    have hroom := h.room
    simp only [List.length_append, List.length_singleton]
    lia
  submitted_le := h.submitted_le
  functions := by
    simp only [List.length_append, List.length_singleton]
    exact h.functions.mono (Nat.le_succ _) (Nat.le_refl _)
  args := by
    simp only [List.length_append, List.length_singleton]
    exact h.args.mono (Nat.le_succ _) (Nat.le_refl _)

/-- `taskSum` is decremented for the task that the worker is about to take. -/
theorem WorkerMoved.of_claim {v : Int} (hrec : Recorded C p)
    (hshape : WorkerShape C p (WorkerPc.writeSum v)) :
    WorkerMoved C (WorkerPc.writeSum v) WorkerPc.readFront p { p with taskSum := v - 1 } where
  mutex := rfl
  carries := fun _ => rfl
  recorded := { hrec with }
  submitted_eq := rfl
  function_eq := rfl
  arg_eq := rfl
  taken_le := Nat.le_refl _
  outside := by
    intro hout
    cases hout
  shape := by
    rcases hshape with ⟨hv, hlt⟩
    exact ⟨by simp only [hv], hlt⟩
  released := by
    intro _ hout
    cases hout

theorem WorkerMoved.of_take {front : Nat} {task : Task} (hrec : Recorded C p)
    (hshape : WorkerShape C p (WorkerPc.writeFront front task)) :
    WorkerMoved C (WorkerPc.writeFront front task) (WorkerPc.postMutex task) p
      { p with front := (front + 1) % C.taskQueueMaxSize, taken := p.taken ++ [task] } where
  mutex := rfl
  carries := by
    intro x
    simp only [WorkerPc.carried, List.count_append, List.count_singleton, beq_iff_eq]
    lia
  recorded := by
    rcases hshape with ⟨hclaimed, hfront, htask⟩
    rw [hfront, htask]
    exact hrec.take hclaimed.right
  submitted_eq := rfl
  function_eq := rfl
  arg_eq := rfl
  taken_le := by
    rw [List.length_append]
    exact Nat.le_add_right _ _
  outside := by
    intro hout
    cases hout
  shape := by
    have hsum := hshape.left.left
    simp only [WorkerShape, Settled, List.length_append, List.length_singleton, hsum]
    lia
  released := by
    intro _ hout
    cases hout

theorem WorkerMoved.of_execute {task : Task} (hrec : Recorded C p) :
    WorkerMoved C (WorkerPc.execute task) WorkerPc.waitMutex p
      { p with executed := p.executed ++ [task] } where
  mutex := rfl
  carries := by
    intro x
    simp only [WorkerPc.carried, List.count_append, List.count_singleton, beq_iff_eq]
    lia
  recorded := { hrec with }
  submitted_eq := rfl
  function_eq := rfl
  arg_eq := rfl
  taken_le := Nat.le_refl _
  outside := fun _ => ⟨rfl, rfl⟩
  shape := trivial
  released := by
    intro hin
    cases hin

theorem executeTask_moved {pc pc' : WorkerPc} (hrec : Recorded C p)
    (hshape : WorkerShape C p pc) (hfree : 0 < p.semMutex -> Settled C p)
    (h : executeTask C p pc = some (pc', p')) : WorkerMoved C pc pc' p p' := by
  cases pc with
  | idle | exited => cases h
  | waitMutex =>
      simp only [executeTask] at h
      split at h
      · rename_i hpos
        cases h
        exact WorkerMoved.of_semaphore hrec (Nat.sub_add_cancel hpos) (fun _ => rfl) (hfree hpos)
          fun hin => by cases hin
      · cases h
  | testFront =>
      cases h
      exact WorkerMoved.of_read hrec rfl (fun _ => rfl) ⟨hshape, hrec.front_eq⟩
  | testRear front =>
      simp only [executeTask] at h
      split at h
      · cases h
        exact WorkerMoved.of_read hrec rfl (fun _ => rfl) hshape.left
      · rename_i hne
        cases h
        rw [hshape.right] at hne
        exact WorkerMoved.of_read hrec rfl (fun _ => rfl) ⟨hshape.left, hrec.taken_lt hne⟩
  | testSum =>
      simp only [executeTask] at h
      split at h
      · rename_i hzero
        cases h
        have hall : p.taken.length = C.taskNum := by
          have hsum : p.taskSum = (C.taskNum : Int) - p.taken.length := hshape
          lia
        exact WorkerMoved.of_read hrec rfl (fun _ => rfl) ⟨hshape, hall⟩
      · cases h
        exact WorkerMoved.of_read hrec rfl (fun _ => rfl) hshape
  | exitPost =>
      cases h
      exact WorkerMoved.of_semaphore hrec rfl (fun _ => rfl) hshape.right
        fun _ _ => hshape.left
  | readSum =>
      cases h
      exact WorkerMoved.of_read hrec rfl (fun _ => rfl) hshape
  | writeSum v =>
      cases h
      exact WorkerMoved.of_claim hrec hshape
  | readFront =>
      cases h
      exact WorkerMoved.of_read hrec rfl (fun _ => rfl) ⟨hshape, hrec.front_eq⟩
  | readFunction front =>
      simp only [executeTask] at h
      split at h
      · cases h
        rcases hshape with ⟨hclaimed, hfront⟩
        have hread := hrec.functions _ (Nat.le_refl _) hclaimed.right
        rw [← hfront] at hread
        exact WorkerMoved.of_read hrec rfl (fun _ => rfl) ⟨hclaimed, hfront, hread⟩
      · cases h
  | readArg front function =>
      simp only [executeTask] at h
      split at h
      · cases h
        rcases hshape with ⟨hclaimed, hfront, hfunction⟩
        have hread := hrec.args _ (Nat.le_refl _) hclaimed.right
        rw [← hfront] at hread
        refine WorkerMoved.of_read hrec rfl (fun _ => rfl) ⟨hclaimed, hfront, ?_⟩
        rw [hread, hfunction]
      · cases h
  | writeFront front task =>
      cases h
      exact WorkerMoved.of_take hrec hshape
  | postMutex task =>
      cases h
      exact WorkerMoved.of_semaphore hrec rfl (fun _ => rfl) trivial fun _ _ => hshape
  | execute task =>
      cases h
      exact WorkerMoved.of_execute hrec

/-!
# Steps of `main`
-/

/-- What a call of `addTask` does in one step to point `pc'`. -/
structure MainMoved (C : Params) (pc' : MainPc) (p p' : Threadpools) : Prop where
  recorded : Recorded C p'
  mutex_eq : p'.semMutex = p.semMutex
  taskSum_eq : p'.taskSum = p.taskSum
  taken_eq : p'.taken = p.taken
  executed_eq : p'.executed = p.executed
  submitted_le : p.submitted.length ≤ p'.submitted.length
  shape : MainShape C p' pc'

theorem MainMoved.of_read {pc' : MainPc} (hrec : Recorded C p) (hshape : MainShape C p pc') :
    MainMoved C pc' p p where
  recorded := hrec
  mutex_eq := rfl
  taskSum_eq := rfl
  taken_eq := rfl
  executed_eq := rfl
  submitted_le := Nat.le_refl _
  shape := hshape

theorem Recorded.submit {i rear : Nat} (h : Recorded C p)
    (hshape : MainShape C p (MainPc.writeRear i rear)) :
    Recorded C { p with
      rear := (rear + 1) % C.taskQueueMaxSize
      submitted := p.submitted ++ [(rear, C.task i)] } := by
  rcases hshape with ⟨⟨hi, hlen, hroom, hrear⟩, hfunctions, hargs⟩
  constructor
  · exact h.front_eq
  · simp only [List.length_append, List.length_singleton]
    rw [hrear, hlen, Nat.mod_add_mod]
  · simp only [List.length_append, List.length_singleton, List.range_succ, List.map_append,
      List.map_singleton]
    rw [← h.submitted_eq, hrear, hlen]
  · exact h.taken_eq
  · simp only [List.length_append, List.length_singleton]
    exact Nat.le_succ_of_le h.taken_le
  · simp only [List.length_append, List.length_singleton]
    rw [hlen]
    exact hroom
  · simp only [List.length_append, List.length_singleton]
    rw [hlen]
    exact hi
  · simp only [List.length_append, List.length_singleton]
    rw [hlen]
    exact hfunctions
  · simp only [List.length_append, List.length_singleton]
    rw [hlen]
    exact hargs

theorem mainShape_joinFrom {i : Nat} (h : p.submitted.length = C.taskNum) :
    MainShape C p (joinFrom C i) := by
  unfold joinFrom
  split
  · exact h
  · exact h

theorem mainShape_addFrom {i : Nat} (hlen : p.submitted.length = i) (hle : i ≤ C.taskNum) :
    MainShape C p (addFrom C i) := by
  unfold addFrom
  split
  · rename_i hi
    exact ⟨hi, hlen⟩
  · exact mainShape_joinFrom (by lia)

theorem mainShape_createFrom {i : Nat} (hlen : p.submitted.length = 0) :
    MainShape C p (createFrom C i) := by
  unfold createFrom
  split
  · exact hlen
  · exact mainShape_addFrom hlen (Nat.zero_le _)

theorem addTask_moved {pc pc' : MainPc} (hrec : Recorded C p) (hshape : MainShape C p pc)
    (h : addTask C p pc = some (pc', p')) : MainMoved C pc' p p' := by
  cases pc with
  | create | join | done => cases h
  | guardRear i =>
      cases h
      refine MainMoved.of_read hrec ⟨hshape.left, hshape.right, ?_⟩
      rw [hrec.rear_eq, hshape.right]
  | guardFront i rear =>
      rcases hshape with ⟨hi, hlen, hrear⟩
      simp only [addTask] at h
      split at h
      · cases h
        exact MainMoved.of_read hrec ⟨hi, hlen⟩
      · rename_i hfull
        cases h
        rw [hrear, hrec.front_eq] at hfull
        have hroom := hrec.room
        rw [hlen] at hroom
        exact MainMoved.of_read hrec ⟨hi, hlen, room_of_not_full hroom hfull, rfl⟩
  | readRear i =>
      cases h
      rcases hshape with ⟨hi, hlen, hroom, _⟩
      refine MainMoved.of_read hrec ⟨hi, hlen, hroom, ?_⟩
      rw [hrec.rear_eq, hlen]
  | writeFunction i rear =>
      rcases hshape with ⟨hi, hlen, hroom, hrear⟩
      simp only [addTask] at h
      split at h
      · cases h
        have hstored := hrec.functions.store hrec.room
        rw [hlen, ← hrear] at hstored
        exact {
          recorded := { hrec with
            functions := hstored.mono (Nat.le_refl _) (by lia) }
          mutex_eq := rfl
          taskSum_eq := rfl
          taken_eq := rfl
          executed_eq := rfl
          submitted_le := Nat.le_refl _
          shape := ⟨⟨hi, hlen, hroom, hrear⟩, hstored⟩ }
      · cases h
  | writeArg i rear =>
      rcases hshape with ⟨⟨hi, hlen, hroom, hrear⟩, hfunctions⟩
      simp only [addTask] at h
      split at h
      · cases h
        have hstored := hrec.args.store hrec.room
        rw [hlen, ← hrear] at hstored
        exact {
          recorded := { hrec with
            args := hstored.mono (Nat.le_refl _) (by lia) }
          mutex_eq := rfl
          taskSum_eq := rfl
          taken_eq := rfl
          executed_eq := rfl
          submitted_le := Nat.le_refl _
          shape := ⟨⟨hi, hlen, hroom, hrear⟩, hfunctions, hstored⟩ }
      · cases h
  | writeRear i rear =>
      cases h
      have hlen := hshape.left.right.left
      have hi := hshape.left.left
      exact {
        recorded := hrec.submit hshape
        mutex_eq := rfl
        taskSum_eq := rfl
        taken_eq := rfl
        executed_eq := rfl
        submitted_le := by
          rw [List.length_append]
          exact Nat.le_add_right _ _
        shape := by
          apply mainShape_addFrom
          · rw [List.length_append, List.length_singleton, hlen]
          · exact hi }

end ThreadPool
end OsLabs
