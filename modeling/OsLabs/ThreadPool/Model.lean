import Mathlib.Data.Finset.Range
import Mathlib.Logic.Function.Basic
import OsLabs.Foundation.Transition

/-!
# The thread pool

`threadpools.c`: `main` creates the workers, adds the tasks to a circular queue
without taking `sem_mutex` and joins the workers; a worker takes a task from the
queue under `sem_mutex` and executes it after the release.  Every semaphore
operation and every read or write of a shared variable is a step of its own.  A
step is `none` if the thread is blocked, has ended or would leave the queue.
-/

namespace OsLabs
namespace ThreadPool

open Foundation

/-- A task: the addresses of its function and of its argument. -/
structure Task where
  function : Nat
  arg : Nat
deriving DecidableEq

/-- The three sizes, and the tasks in the order in which they are added. -/
structure Params where
  threadsNum : Nat
  taskQueueMaxSize : Nat
  taskNum : Nat
  task : Nat -> Task
  threadsNum_pos : 1 ≤ threadsNum
  taskQueueMaxSize_pos : 2 ≤ taskQueueMaxSize

/-- The shared variables.  `submitted` records the tasks added and their cells,
`taken` those taken from the queue and `executed` those executed; nothing depends
on these three. -/
structure Threadpools where
  front : Nat
  rear : Nat
  function : Nat -> Nat
  arg : Nat -> Nat
  taskSum : Int
  semMutex : Nat
  submitted : List (Nat × Task)
  taken : List Task
  executed : List Task

/-- The next access of `main` to the pool; `i` is the number of the thread it
creates or joins, or of the task it adds. -/
inductive MainPc where
  | create (i : Nat)
  | guardRear (i : Nat)
  | guardFront (i rear : Nat)
  | readRear (i : Nat)
  | writeFunction (i rear : Nat)
  | writeArg (i rear : Nat)
  | writeRear (i rear : Nat)
  | join (i : Nat)
  | done
deriving DecidableEq

/-- The next access of a worker to the pool. -/
inductive WorkerPc where
  | idle
  | waitMutex
  | testFront
  | testRear (front : Nat)
  | testSum
  | exitPost
  | readSum
  | writeSum (v : Int)
  | readFront
  | readFunction (front : Nat)
  | readArg (front function : Nat)
  | writeFront (front : Nat) (task : Task)
  | postMutex (task : Task)
  | execute (task : Task)
  | exited
deriving DecidableEq

structure State where
  pools : Threadpools
  main : MainPc
  worker : Nat -> WorkerPc

section Threads

variable (C : Params)

/-- One access of a worker, as in `executeTask`. -/
def executeTask (p : Threadpools) : WorkerPc -> Option (WorkerPc × Threadpools)
  | WorkerPc.idle => none
  | WorkerPc.waitMutex =>
      if 0 < p.semMutex then
        some (WorkerPc.testFront, { p with semMutex := p.semMutex - 1 })
      else none
  | WorkerPc.testFront => some (WorkerPc.testRear p.front, p)
  | WorkerPc.testRear front =>
      if front = p.rear then some (WorkerPc.testSum, p) else some (WorkerPc.readSum, p)
  | WorkerPc.testSum =>
      if p.taskSum = 0 then some (WorkerPc.exitPost, p) else some (WorkerPc.testFront, p)
  | WorkerPc.exitPost => some (WorkerPc.exited, { p with semMutex := p.semMutex + 1 })
  | WorkerPc.readSum => some (WorkerPc.writeSum p.taskSum, p)
  | WorkerPc.writeSum v => some (WorkerPc.readFront, { p with taskSum := v - 1 })
  | WorkerPc.readFront => some (WorkerPc.readFunction p.front, p)
  | WorkerPc.readFunction front =>
      if front < C.taskQueueMaxSize then some (WorkerPc.readArg front (p.function front), p)
      else none
  | WorkerPc.readArg front function =>
      if front < C.taskQueueMaxSize then
        some (WorkerPc.writeFront front ⟨function, p.arg front⟩, p)
      else none
  | WorkerPc.writeFront front task =>
      some (WorkerPc.postMutex task,
        { p with front := (front + 1) % C.taskQueueMaxSize, taken := p.taken ++ [task] })
  | WorkerPc.postMutex task =>
      some (WorkerPc.execute task, { p with semMutex := p.semMutex + 1 })
  | WorkerPc.execute task =>
      some (WorkerPc.waitMutex, { p with executed := p.executed ++ [task] })
  | WorkerPc.exited => none

def joinFrom (i : Nat) : MainPc :=
  if i < C.threadsNum then MainPc.join i else MainPc.done

def addFrom (i : Nat) : MainPc :=
  if i < C.taskNum then MainPc.guardRear i else joinFrom C 0

def createFrom (i : Nat) : MainPc :=
  if i < C.threadsNum then MainPc.create i else addFrom C 0

/-- The queue looks full from the values read of `rear` and `front`. -/
def full (rear front : Nat) : Prop :=
  ((rear : Int) + C.taskQueueMaxSize + 1 - front).tmod C.taskQueueMaxSize = 0

instance (rear front : Nat) : Decidable (full C rear front) :=
  inferInstanceAs (Decidable (_ = (0 : Int)))

/-- One access of `main` in `addTask`. -/
def addTask (p : Threadpools) : MainPc -> Option (MainPc × Threadpools)
  | MainPc.guardRear i => some (MainPc.guardFront i p.rear, p)
  | MainPc.guardFront i rear =>
      if full C rear p.front then some (MainPc.guardRear i, p)
      else some (MainPc.readRear i, p)
  | MainPc.readRear i => some (MainPc.writeFunction i p.rear, p)
  | MainPc.writeFunction i rear =>
      if rear < C.taskQueueMaxSize then
        some (MainPc.writeArg i rear,
          { p with function := Function.update p.function rear (C.task i).function })
      else none
  | MainPc.writeArg i rear =>
      if rear < C.taskQueueMaxSize then
        some (MainPc.writeRear i rear, { p with arg := Function.update p.arg rear (C.task i).arg })
      else none
  | MainPc.writeRear i rear =>
      some (addFrom C (i + 1),
        { p with
          rear := (rear + 1) % C.taskQueueMaxSize
          submitted := p.submitted ++ [(rear, C.task i)] })
  | _ => none

/-- One step of `main`: the creation of the workers in `initThreadpools`, the
calls of `addTask` and the joins. -/
def mainThread (s : State) : Option State :=
  match s.main with
  | MainPc.create i =>
      some { s with
        main := createFrom C (i + 1)
        worker := Function.update s.worker i WorkerPc.waitMutex }
  | MainPc.join i =>
      if s.worker i = WorkerPc.exited then some { s with main := joinFrom C (i + 1) } else none
  | pc =>
      (addTask C s.pools pc).map fun next => { s with main := next.fst, pools := next.snd }

inductive Action where
  | main
  | worker (i : Nat)
deriving DecidableEq

def step (s : State) : Action -> Option State
  | Action.main => mainThread C s
  | Action.worker i =>
      if i < C.threadsNum then
        (executeTask C s.pools (s.worker i)).map fun next =>
          { s with pools := next.snd, worker := Function.update s.worker i next.fst }
      else none

/-- The pool after the assignments of `initThreadpools`, whatever was in the cells
of the queue. -/
def initThreadpools (function arg : Nat -> Nat) : Threadpools where
  front := 0
  rear := 0
  function := function
  arg := arg
  taskSum := C.taskNum
  semMutex := 1
  submitted := []
  taken := []
  executed := []

def initialState (function arg : Nat -> Nat) : State where
  pools := initThreadpools C function arg
  main := createFrom C 0
  worker := fun _ => WorkerPc.idle

def poolSystem : System State Action where
  init s := exists function arg, s = initialState C function arg
  step s a t := step C s a = some t

end Threads

end ThreadPool
end OsLabs
