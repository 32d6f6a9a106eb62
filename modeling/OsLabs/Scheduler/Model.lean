import Mathlib.Logic.Function.Basic
import OsLabs.Foundation.Transition

/-!
# The ready queue of the CPU scheduler

`scheduler.c` keeps the tasks in a singly linked list of nodes.  `add_task` puts a
node in by one of five policies, `delete_task` takes the first node out.  Address
0 is `NULL`; following it, or running out of fuel in a loop, is `none`.
-/

namespace OsLabs
namespace Scheduler

open Foundation

inductive Status where
  | running
  | ready
  | waiting
deriving DecidableEq

inductive Policy where
  | fcfs
  | sjfPem
  | sjfNotPem
  | priorityPem
  | priorityNotPem
deriving DecidableEq

/-- A task.  `stamp` is the number of tasks added before it; nothing depends on it. -/
structure Task where
  arrivalTime : Int
  wct : Int
  priority : Int
  stamp : Nat
deriving DecidableEq

structure Tasknode where
  task : Task
  scheduleStatus : Status
  waitSem : Nat
  next : Nat

/-- The signals sent, with the node of the thread that gets them. -/
inductive Signal where
  | stop (addr : Nat)
  | cont (addr : Nat)
  | schedule
deriving DecidableEq

/-- The queue and the memory of its nodes.  `live` lists the nodes that `malloc` has
handed out and that have not been freed; `added` and `deleted` record the tasks. -/
structure Sched where
  head : Nat
  node : Nat -> Tasknode
  signals : List Signal
  live : List Nat
  added : List Task
  deleted : List Task

def setNode (s : Sched) (a : Nat) (n : Tasknode) : Sched :=
  { s with node := Function.update s.node a n }

def setNext (s : Sched) (a next : Nat) : Sched :=
  setNode s a { s.node a with next := next }

def setStatus (s : Sched) (a : Nat) (status : Status) : Sched :=
  setNode s a { s.node a with scheduleStatus := status }

def send (s : Sched) (signal : Signal) : Sched :=
  { s with signals := s.signals ++ [signal] }

/-- The fields that `creat_thread_node` sets. -/
def creatThreadNode (s : Sched) (new : Nat) (task : Task) : Sched :=
  setNode s new { s.node new with task := task, waitSem := 0, next := 0 }

/-!
# Insertion
-/

/-- The search of `fcfs` for the last node. -/
def fcfsLoop (node : Nat -> Tasknode) : Nat -> Nat -> Option Nat
  | 0, _ => none
  | fuel + 1, cur =>
      if (node cur).next ≠ 0 then fcfsLoop node fuel (node cur).next else some cur

def fcfs (fuel : Nat) (s : Sched) (new : Nat) : Option Sched :=
  if s.head = 0 then some { s with head := new }
  else (fcfsLoop s.node fuel s.head).map fun cur => setNext s cur new

/-- The loop of the other policies: move on while the new node stays behind the
current one. -/
def insertLoop (behind : Task -> Task -> Bool) (node : Nat -> Tasknode) (new : Nat) :
    Nat -> Nat -> Nat -> Option (Nat × Nat)
  | 0, _, _ => none
  | fuel + 1, pre, cur =>
      if cur ≠ 0 ∧ behind (node new).task (node cur).task then
        insertLoop behind node new fuel cur (node cur).next
      else some (pre, cur)

/-- `pre->next = new; new->next = cur`. -/
def linkAfter (s : Sched) (new : Nat) (place : Nat × Nat) : Option Sched :=
  if place.fst = 0 then none else some (setNext (setNext s place.fst new) new place.snd)

/-- The preemptive policies: a new node may become the first one. -/
def insertPem (ahead behind : Task -> Task -> Bool) (fuel : Nat) (s : Sched) (new : Nat) :
    Option Sched :=
  if s.head = 0 then some { s with head := new }
  else if ahead (s.node new).task (s.node s.head).task then
    some { setNext s new s.head with head := new }
  else (insertLoop behind s.node new fuel 0 s.head).bind (linkAfter s new)

/-- The other policies: a new node stays behind the first one. -/
def insertNotPem (behind : Task -> Task -> Bool) (fuel : Nat) (s : Sched) (new : Nat) :
    Option Sched :=
  if s.head = 0 then some { s with head := new }
  else
    (insertLoop behind s.node new fuel s.head (s.node s.head).next).bind (linkAfter s new)

def sjfPem : Nat -> Sched -> Nat -> Option Sched :=
  insertPem (fun new head => new.wct < head.wct) fun new cur => new.wct ≥ cur.wct

def sjfNotPem : Nat -> Sched -> Nat -> Option Sched :=
  insertNotPem fun new cur => new.wct ≥ cur.wct

def priorityPem : Nat -> Sched -> Nat -> Option Sched :=
  insertPem (fun new head => new.priority > head.priority) fun new cur =>
    new.priority ≤ cur.priority

def priorityNotPem : Nat -> Sched -> Nat -> Option Sched :=
  insertNotPem fun new cur => new.priority ≤ cur.priority

def insertNode : Policy -> Nat -> Sched -> Nat -> Option Sched
  | Policy.fcfs => fcfs
  | Policy.sjfPem => sjfPem
  | Policy.sjfNotPem => sjfNotPem
  | Policy.priorityPem => priorityPem
  | Policy.priorityNotPem => priorityNotPem

/-!
# The operations
-/

/-- The first task is stopped and made ready. -/
def stopHead (s : Sched) : Sched :=
  if s.head ≠ 0 then setStatus (send s (Signal.stop s.head)) s.head Status.ready else s

def addTask (policy : Policy) (fuel : Nat) (s : Sched) (new : Nat) : Option Sched :=
  (insertNode policy fuel (setStatus (stopHead s) new Status.waiting) new).map fun t =>
    send t Signal.schedule

def deleteTask (s : Sched) : Option Sched :=
  if s.head = 0 then none
  else
    let t := { s with head := (s.node s.head).next }
    if t.head ≠ 0 then some (send t (Signal.cont t.head)) else some t

inductive Action where
  | add (new : Nat) (arrivalTime wct priority : Int)
  | delete

/-- One call.  The loops get more fuel than there are nodes. -/
def step (policy : Policy) (s : Sched) : Action -> Option Sched
  | Action.add new arrivalTime wct priority =>
      if new ≠ 0 ∧ new ∉ s.live then
        let task : Task := ⟨arrivalTime, wct, priority, s.added.length⟩
        (addTask policy (s.added.length + 1) (creatThreadNode s new task) new).map fun t =>
          { t with live := new :: t.live, added := t.added ++ [task] }
      else none
  | Action.delete =>
      (deleteTask s).map fun t =>
        { t with
          live := t.live.erase s.head
          deleted := t.deleted ++ [(s.node s.head).task] }

/-- After `init_scheduler`, with any memory. -/
def initScheduler (node : Nat -> Tasknode) : Sched where
  head := 0
  node := node
  signals := []
  live := []
  added := []
  deleted := []

def schedSystem (policy : Policy) : System Sched Action where
  init s := exists node, s = initScheduler node
  step s a t := step policy s a = some t

end Scheduler
end OsLabs
