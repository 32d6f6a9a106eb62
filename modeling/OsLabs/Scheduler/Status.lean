import OsLabs.Scheduler.Discipline

/-!
# Who is running

`add_task` is taken together with the signal handler that it triggers in the
scheduler thread.  The handler makes the head a running task; `delete_task` only
continues the thread of the next head and leaves its status as it was.
-/

namespace OsLabs
namespace Scheduler

open Foundation

variable {policy : Policy} {s t : Sched} {addrs : List Nat} {new : Nat}

/-- `sem_post` of the semaphore of a node. -/
def post (s : Sched) (a : Nat) : Sched :=
  setNode s a { s.node a with waitSem := (s.node a).waitSem + 1 }

def schedRunSighand (s : Sched) : Option Sched :=
  if s.head = 0 then none
  else
    match (s.node s.head).scheduleStatus with
    | Status.waiting =>
        let s := setStatus s s.head Status.ready
        let s := setStatus s s.head Status.running
        some (post s s.head)
    | Status.ready =>
        let s := setStatus s s.head Status.running
        some (send s (Signal.cont s.head))
    | Status.running => some s

/-- One call with the dispatch that it triggers. -/
def dispatchedStep (policy : Policy) (s : Sched) : Action -> Option Sched
  | Action.add new arrivalTime wct priority =>
      (step policy s (Action.add new arrivalTime wct priority)).bind schedRunSighand
  | Action.delete => step policy s Action.delete

/-- The head is running and every other task is ready or waiting. -/
def StatusMatches (s : Sched) : Prop :=
  forall y zs, IsQueue s (y :: zs) -> (s.node y).scheduleStatus = Status.running ∧
    forall z, z ∈ zs -> (s.node z).scheduleStatus = Status.ready ∨
      (s.node z).scheduleStatus = Status.waiting

def DeletesLast (s : Sched) : Action -> Prop
  | Action.add _ _ _ _ => True
  | Action.delete => s.head = 0 ∨ (s.node s.head).next = 0

/-!
# The dispatch
-/

structure SameQueue (s t : Sched) : Prop where
  head : t.head = s.head
  task : forall a, (t.node a).task = (s.node a).task
  next : forall a, (t.node a).next = (s.node a).next
  live : t.live = s.live
  added : t.added = s.added
  deleted : t.deleted = s.deleted

theorem SameQueue.inv (h : SameQueue s t) (hinv : SchedInv policy s addrs) :
    SchedInv policy t addrs := by
  have htasks : tasks t addrs = tasks s addrs := List.map_congr_left fun a _ => h.task a
  refine ⟨⟨?_, hinv.queue.nodup, hinv.queue.nonnull⟩, ?_, ?_, ?_, ?_⟩
  · rw [h.head]
    exact hinv.queue.path.congr fun a _ => h.next a
  · rw [h.live]
    exact hinv.live
  · rw [h.added, h.deleted, htasks]
    exact hinv.held
  · rw [h.added]
    exact hinv.stamps
  · rw [htasks]
    exact hinv.order

theorem sameQueue_setNode (s : Sched) (a : Nat) (n : Tasknode) (signals : List Signal)
    (htask : n.task = (s.node a).task) (hnext : n.next = (s.node a).next) :
    SameQueue s { setNode s a n with signals := signals } := by
  have hnode : forall b, (setNode s a n).node b = if b = a then n else s.node b :=
    fun b => Function.update_apply s.node a n b
  refine ⟨rfl, ?_, ?_, rfl, rfl, rfl⟩
  · intro b
    simp only [hnode]
    split
    · rename_i heq
      rw [heq]
      exact htask
    · rfl
  · intro b
    simp only [hnode]
    split
    · rename_i heq
      rw [heq]
      exact hnext
    · rfl

theorem schedRunSighand_spec (hhead : s.head ≠ 0) :
    exists t, schedRunSighand s = some t ∧ SameQueue s t ∧
      (t.node s.head).scheduleStatus = Status.running ∧
      forall a, a ≠ s.head -> t.node a = s.node a := by
  unfold schedRunSighand
  rw [if_neg hhead]
  cases hstatus : (s.node s.head).scheduleStatus with
  | running =>
      exact ⟨s, rfl, ⟨rfl, fun _ => rfl, fun _ => rfl, rfl, rfl, rfl⟩, hstatus, fun _ _ => rfl⟩
  | ready =>
      have hsame : SameQueue s { setNode s s.head { s.node s.head with
          scheduleStatus := Status.running } with
            signals := s.signals ++ [Signal.cont s.head] } :=
        sameQueue_setNode s s.head _ _ rfl rfl
      refine ⟨_, rfl, hsame, ?_, ?_⟩
      · simp [setStatus, setNode, send]
      · intro a ha
        simp [setStatus, setNode, send, ha]
  | waiting =>
      have hsame : SameQueue s { setNode s s.head { s.node s.head with
          scheduleStatus := Status.running, waitSem := (s.node s.head).waitSem + 1 } with
            signals := s.signals } :=
        sameQueue_setNode s s.head _ _ rfl rfl
      have hone : post (setStatus (setStatus s s.head Status.ready) s.head Status.running) s.head =
          setNode s s.head { s.node s.head with
            scheduleStatus := Status.running, waitSem := (s.node s.head).waitSem + 1 } := by
        simp [post, setStatus, setNode]
      refine ⟨_, congrArg some hone, hsame, ?_, ?_⟩
      · simp [setNode]
      · intro a ha
        simp [setNode, ha]

/-!
# Calls
-/

def Idle (s : Sched) (a : Nat) : Prop :=
  (s.node a).scheduleStatus = Status.ready ∨ (s.node a).scheduleStatus = Status.waiting

structure StatusInv (policy : Policy) (s : Sched) (addrs : List Nat) : Prop where
  inv : SchedInv policy s addrs
  idle : forall a, a ∈ addrs.tail -> Idle s a

theorem StatusInv.prepared_idle (h : StatusInv policy s addrs) {task : Task} {a : Nat}
    (ha : a = new ∨ a ∈ addrs) : Idle (prepared s new task) a := by
  have hnew : ((prepared s new task).node new).scheduleStatus = Status.waiting := by
    simp [prepared, setStatus, setNode]
  by_cases han : a = new
  · rw [han]
    exact Or.inr hnew
  · have hmem := ha.resolve_left han
    cases addrs with
    | nil => cases hmem
    | cons y zs =>
        have hhead := h.inv.queue.path.left
        have hne := h.inv.queue.head_ne_zero
        have hne' : (creatThreadNode s new task).head ≠ 0 := hne
        by_cases hay : a = y
        · left
          rw [hay] at han ⊢
          unfold prepared stopHead
          rw [if_pos hne']
          simp [setStatus, setNode, send, creatThreadNode, hhead, han]
        · have hz : a ∈ zs := (List.mem_cons.mp hmem).resolve_left hay
          have hsame : (prepared s new task).node a = s.node a := by
            unfold prepared stopHead
            rw [if_pos hne']
            simp [setStatus, setNode, send, creatThreadNode, hhead, han, hay]
          unfold Idle
          rw [hsame]
          exact h.idle a hz

theorem StatusInv.add (h : StatusInv policy s addrs) (hnew : new ≠ 0) (hlive : new ∉ s.live)
    (arrivalTime wct priority : Int) :
    exists t, dispatchedStep policy s (Action.add new arrivalTime wct priority) = some t ∧
      StatusInv policy t (enqueue policy.keepsHead (NodePrecedes policy
        (prepared s new ⟨arrivalTime, wct, priority, s.added.length⟩)) new addrs) ∧
      StatusMatches t ∧ forall a, (t.node a).task =
        ((prepared s new ⟨arrivalTime, wct, priority, s.added.length⟩).node a).task := by
  rcases h.inv.add hnew hlive arrivalTime wct priority with ⟨t, hstep, hinv, hadded, _⟩
  have hperm := perm_enqueue policy.keepsHead (NodePrecedes policy
    (prepared s new ⟨arrivalTime, wct, priority, s.added.length⟩)) new addrs
  generalize enqueue policy.keepsHead (NodePrecedes policy
    (prepared s new ⟨arrivalTime, wct, priority, s.added.length⟩)) new addrs = queue
    at hinv hperm ⊢
  have hidle : forall a, a ∈ queue -> Idle t a := by
    intro a ha
    have hprepared : Idle (prepared s new ⟨arrivalTime, wct, priority, s.added.length⟩) a :=
      h.prepared_idle (List.mem_cons.mp (hperm.mem_iff.mp ha))
    rcases hadded.node a with ⟨next, hnode⟩
    unfold Idle
    rw [hnode]
    exact hprepared
  cases queue with
  | nil => exact absurd hperm.length_eq (Nat.succ_ne_zero _).symm
  | cons y zs =>
      have hhead := hinv.queue.path.left
      rcases schedRunSighand_spec hinv.queue.head_ne_zero with ⟨u, hrun, hsame, hrunning, hother⟩
      have hinv' := hsame.inv hinv
      rw [hhead] at hrunning hother
      have hnodup := List.nodup_cons.mp hinv.queue.nodup
      have hidle' : forall z, z ∈ zs -> Idle u z := by
        intro z hz
        have hne : z ≠ y := by
          intro heq
          rw [heq] at hz
          exact hnodup.left hz
        unfold Idle
        rw [hother z hne]
        exact hidle z (List.mem_cons_of_mem y hz)
      refine ⟨u, ?_, ⟨hinv', hidle'⟩, ?_, ?_⟩
      · simp only [dispatchedStep, hstep, Option.bind_some]
        exact hrun
      · intro y' zs' hqueue
        have heq := hqueue.unique hinv'.queue
        cases heq
        exact ⟨hrunning, hidle'⟩
      · intro a
        rcases hadded.node a with ⟨next, hnode⟩
        rw [hsame.task a, hnode]

theorem StatusInv.delete {y : Nat} {zs : List Nat} (h : StatusInv policy s (y :: zs)) :
    exists t, dispatchedStep policy s Action.delete = some t ∧ StatusInv policy t zs ∧
      t.node = s.node := by
  rcases h.inv.delete with ⟨t, hstep, hinv, hnode⟩
  refine ⟨t, hstep, ⟨hinv, ?_⟩, hnode⟩
  intro a ha
  unfold Idle
  rw [hnode]
  exact h.idle a (List.mem_of_mem_tail ha)

theorem delete_none (h : SchedInv policy s []) : dispatchedStep policy s Action.delete = none := by
  have hnone : deleteTask s = none := by
    unfold deleteTask
    exact if_pos h.queue.head_eq_zero
  simp only [dispatchedStep, step, hnone, Option.map_none]

theorem add_cond {arrivalTime wct priority : Int}
    (hstep : dispatchedStep policy s (Action.add new arrivalTime wct priority) = some t) :
    new ≠ 0 ∧ new ∉ s.live := by
  by_contra hno
  simp only [dispatchedStep, step, if_neg hno, Option.bind_none] at hstep
  cases hstep

theorem status_step (s : Sched) (a : Action) (t : Sched)
    (h : exists addrs, StatusInv policy s addrs) (hstep : dispatchedStep policy s a = some t) :
    exists addrs, StatusInv policy t addrs := by
  rcases h with ⟨addrs, h⟩
  cases a with
  | add new arrivalTime wct priority =>
      have hcond := add_cond hstep
      rcases h.add hcond.left hcond.right arrivalTime wct priority with ⟨u, hu, hinv, _⟩
      rw [hu] at hstep
      cases hstep
      exact ⟨_, hinv⟩
  | delete =>
      cases addrs with
      | nil =>
          rw [delete_none h.inv] at hstep
          cases hstep
      | cons y zs =>
          rcases h.delete with ⟨u, hu, hinv, _⟩
          rw [hu] at hstep
          cases hstep
          exact ⟨zs, hinv⟩

/-- A call that does not delete a head before others leaves the head running. -/
theorem status_keep (s : Sched) (a : Action) (t : Sched)
    (h : exists addrs, StatusInv policy s addrs) (_ : StatusMatches s) (hcond : DeletesLast s a)
    (hstep : dispatchedStep policy s a = some t) : StatusMatches t := by
  rcases h with ⟨addrs, h⟩
  cases a with
  | add new arrivalTime wct priority =>
      have hnew := add_cond hstep
      rcases h.add hnew.left hnew.right arrivalTime wct priority with ⟨u, hu, _, hmatches, _⟩
      rw [hu] at hstep
      cases hstep
      exact hmatches
  | delete =>
      cases addrs with
      | nil =>
          rw [delete_none h.inv] at hstep
          cases hstep
      | cons y zs =>
          have hlast := hcond.resolve_left h.inv.queue.head_ne_zero
          rcases h.delete with ⟨u, hu, hinv, _⟩
          rw [hu] at hstep
          cases hstep
          have hpath := h.inv.queue.path.right
          rw [h.inv.queue.path.left] at hlast
          change Path (links s.node) (s.node y).next zs 0 at hpath
          rw [hlast] at hpath
          intro y' zs' hqueue
          cases zs with
          | nil => exact absurd hinv.inv.queue.head_eq_zero hqueue.head_ne_zero
          | cons z zs =>
              have hz := hpath.left
              exact absurd (hz ▸ List.mem_cons_of_mem y List.mem_cons_self) h.inv.queue.nonnull

/-- Deleting a head before others leaves a head that is not running. -/
theorem status_break (s : Sched) (a : Action) (h : exists addrs, StatusInv policy s addrs)
    (_ : StatusMatches s) (hcond : ¬ DeletesLast s a) :
    exists t, dispatchedStep policy s a = some t ∧ ¬ StatusMatches t := by
  rcases h with ⟨addrs, h⟩
  cases a with
  | add new arrivalTime wct priority => exact absurd trivial hcond
  | delete =>
      unfold DeletesLast at hcond
      rw [not_or] at hcond
      cases addrs with
      | nil => exact absurd h.inv.queue.head_eq_zero hcond.left
      | cons y zs =>
          rcases h.delete with ⟨u, hu, hinv, hnode⟩
          refine ⟨u, hu, ?_⟩
          intro hmatches
          cases zs with
          | nil =>
              apply hcond.right
              rw [h.inv.queue.path.left]
              exact h.inv.queue.path.right
          | cons z zs =>
              have hrunning := (hmatches z zs hinv.inv.queue).left
              have hidle := h.idle z List.mem_cons_self
              rw [hnode] at hrunning
              unfold Idle at hidle
              rw [hrunning] at hidle
              cases hidle with
              | inl hbad => cases hbad
              | inr hbad => cases hbad

/-- In a run of calls the statuses match in every state exactly if `delete_task` is
called only when no other task is queued. -/
theorem status_matches_exact (policy : Policy) (node : Nat -> Tasknode) (actions : List Action) :
    (forall calls t, calls <+: actions ->
      System.execAll (dispatchedStep policy) (initScheduler node) calls = some t ->
      StatusMatches t) <->
    System.ExecMeets (dispatchedStep policy) DeletesLast (initScheduler node) actions := by
  apply System.execMeets_iff status_step status_keep status_break
  · refine ⟨[], initial_inv policy node, ?_⟩
    intro a ha
    cases ha
  · intro y zs hqueue
    exact absurd rfl hqueue.head_ne_zero

/-- The second of two tasks is not running when the first one has ended. -/
theorem continued_head_not_running :
    exists t, System.execAll (dispatchedStep Policy.fcfs)
      (initScheduler fun _ => ⟨⟨0, 0, 0, 0⟩, Status.waiting, 0, 0⟩)
      [Action.add 8 0 5 1, Action.add 16 1 9 3, Action.delete] = some t ∧
      t.head = 16 ∧ (t.node 16).scheduleStatus = Status.waiting ∧ ¬ StatusMatches t := by
  have hrun : (System.execAll (dispatchedStep Policy.fcfs)
      (initScheduler fun _ => ⟨⟨0, 0, 0, 0⟩, Status.waiting, 0, 0⟩)
      [Action.add 8 0 5 1, Action.add 16 1 9 3, Action.delete]).map
        (fun t => (t.head, (t.node 16).scheduleStatus, (t.node 16).next)) =
      some (16, Status.waiting, 0) := by decide
  rcases Option.map_eq_some_iff.mp hrun with ⟨t, hexec, hvalues⟩
  have hhead : t.head = 16 := congrArg Prod.fst hvalues
  have hstatus : (t.node 16).scheduleStatus = Status.waiting :=
    congrArg (fun v => v.snd.fst) hvalues
  have hnext : (t.node 16).next = 0 := congrArg (fun v => v.snd.snd) hvalues
  refine ⟨t, hexec, hhead, hstatus, ?_⟩
  intro hmatches
  have hqueue : IsQueue t [16] := ⟨⟨hhead, hnext⟩, List.nodup_singleton 16, by decide⟩
  have hrunning := (hmatches 16 [] hqueue).left
  rw [hstatus] at hrunning
  cases hrunning

end Scheduler
end OsLabs
