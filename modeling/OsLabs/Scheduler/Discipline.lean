import OsLabs.Scheduler.Insertion

/-!
# The discipline of the ready queue

Over any sequence of calls with one policy the queue holds the tasks that were
added and not deleted, in the order of the policy with ties in order of arrival.
-/

namespace OsLabs
namespace Scheduler

open Foundation

variable {policy : Policy} {s t : Sched} {addrs : List Nat} {new fuel : Nat}

def tasks (s : Sched) (addrs : List Nat) : List Task :=
  addrs.map fun a => (s.node a).task

def Before : Policy -> Task -> Task -> Prop
  | Policy.fcfs, x, y => x.stamp < y.stamp
  | Policy.sjfPem, x, y => x.wct < y.wct ∨ (x.wct = y.wct ∧ x.stamp < y.stamp)
  | Policy.sjfNotPem, x, y => x.wct < y.wct ∨ (x.wct = y.wct ∧ x.stamp < y.stamp)
  | Policy.priorityPem, x, y =>
      x.priority > y.priority ∨ (x.priority = y.priority ∧ x.stamp < y.stamp)
  | Policy.priorityNotPem, x, y =>
      x.priority > y.priority ∨ (x.priority = y.priority ∧ x.stamp < y.stamp)

/-- The queue is in order; behind the head if that is to stay. -/
def InOrder : Policy -> List Task -> Prop
  | Policy.fcfs, q => q.Pairwise (Before Policy.fcfs)
  | Policy.sjfPem, q => q.Pairwise (Before Policy.sjfPem)
  | Policy.sjfNotPem, q => q.tail.Pairwise (Before Policy.sjfNotPem)
  | Policy.priorityPem, q => q.Pairwise (Before Policy.priorityPem)
  | Policy.priorityNotPem, q => q.tail.Pairwise (Before Policy.priorityNotPem)

/-!
# Order
-/

theorem Before.trans {x y z : Task} (hxy : Before policy x y) (hyz : Before policy y z) :
    Before policy x z := by
  cases policy with
  | fcfs => exact Nat.lt_trans hxy hyz
  | sjfPem | sjfNotPem =>
      unfold Before at hxy hyz ⊢
      lia
  | priorityPem | priorityNotPem =>
      unfold Before at hxy hyz ⊢
      lia

theorem before_of_precedes {x y : Task} (h : Precedes policy x y) : Before policy x y := by
  cases policy with
  | fcfs => cases h
  | sjfPem | sjfNotPem | priorityPem | priorityNotPem => exact Or.inl h

theorem before_of_not_precedes {x y : Task} (hstamp : y.stamp < x.stamp)
    (h : ¬ Precedes policy x y) : Before policy y x := by
  cases policy with
  | fcfs => exact hstamp
  | sjfPem | sjfNotPem | priorityPem | priorityNotPem =>
      unfold Precedes at h
      unfold Before
      lia

theorem inOrder_iff {q : List Task} :
    InOrder policy q <->
      (if policy.keepsHead then q.tail else q).Pairwise (Before policy) := by
  cases policy with
  | fcfs | sjfPem | sjfNotPem | priorityPem | priorityNotPem => exact Iff.rfl

theorem InOrder.enqueue {q : List Task} {x : Task} (h : InOrder policy q)
    (hlate : forall y, y ∈ q -> y.stamp < x.stamp) :
    InOrder policy (enqueue policy.keepsHead (Precedes policy) x q) := by
  have hinsert : forall l : List Task, (forall y, y ∈ l -> y ∈ q) -> l.Pairwise (Before policy) ->
      (l.orderedInsert (Precedes policy) x).Pairwise (Before policy) := by
    intro l hsub hl
    apply pairwise_orderedInsert hl (fun _ _ _ => Before.trans)
    · intro y _ hxy
      exact before_of_precedes hxy
    · intro y hy hxy
      exact before_of_not_precedes (hlate y (hsub y hy)) hxy
  rw [inOrder_iff] at h ⊢
  cases q with
  | nil =>
      unfold Scheduler.enqueue
      split
      · exact List.Pairwise.nil
      · exact List.pairwise_singleton _ x
  | cons y q =>
      cases hkeeps : policy.keepsHead with
      | true =>
          rw [hkeeps] at h
          exact hinsert q (fun z hz => List.mem_cons_of_mem y hz) h
      | false =>
          rw [hkeeps] at h
          exact hinsert (y :: q) (fun z hz => hz) h

theorem InOrder.tail {q : List Task} (h : InOrder policy q) : q.tail.Pairwise (Before policy) := by
  rw [inOrder_iff] at h
  cases hkeeps : policy.keepsHead with
  | true =>
      rw [hkeeps] at h
      exact h
  | false =>
      rw [hkeeps] at h
      exact List.Pairwise.sublist (List.tail_sublist q) h

theorem inOrder_of_pairwise {q : List Task} (h : q.Pairwise (Before policy)) :
    InOrder policy q := by
  rw [inOrder_iff]
  split
  · exact List.Pairwise.sublist (List.tail_sublist q) h
  · exact h

theorem map_enqueue (policy : Policy) (s : Sched) (keepsHead : Bool) (new : Nat)
    (addrs : List Nat) :
    tasks s (Scheduler.enqueue keepsHead (NodePrecedes policy s) new addrs) =
      Scheduler.enqueue keepsHead (Precedes policy) (s.node new).task (tasks s addrs) := by
  have hmap : forall l : List Nat, tasks s (l.orderedInsert (NodePrecedes policy s) new) =
      (tasks s l).orderedInsert (Precedes policy) (s.node new).task := by
    intro l
    exact List.map_orderedInsert _ _ _ _ _ (fun _ _ => Iff.rfl) (fun _ _ => Iff.rfl)
  cases addrs with
  | nil => rfl
  | cons y zs =>
      cases keepsHead with
      | true => exact congrArg _ (hmap zs)
      | false => exact hmap (y :: zs)

/-!
# The node that is added
-/

theorem links_setStatus (s : Sched) (a : Nat) (status : Status) (b : Nat) :
    links (setStatus s a status).node b = links s.node b := by
  unfold links setStatus setNode
  simp only [Function.update_apply]
  by_cases hb : b = a
  · rw [if_pos hb, hb]
  · rw [if_neg hb]

theorem task_setStatus (s : Sched) (a : Nat) (status : Status) (b : Nat) :
    ((setStatus s a status).node b).task = (s.node b).task := by
  unfold setStatus setNode
  simp only [Function.update_apply]
  by_cases hb : b = a
  · rw [if_pos hb, hb]
  · rw [if_neg hb]

def prepared (s : Sched) (new : Nat) (task : Task) : Sched :=
  setStatus (stopHead (creatThreadNode s new task)) new Status.waiting

section Prepared

variable {task : Task}

theorem prepared_links (a : Nat) :
    links (prepared s new task).node a = if a = new then 0 else links s.node a := by
  have hcreated : links (creatThreadNode s new task).node a =
      if a = new then 0 else links s.node a := by
    unfold links creatThreadNode setNode
    simp only [Function.update_apply]
    by_cases ha : a = new
    · rw [if_pos ha, if_pos ha]
    · rw [if_neg ha, if_neg ha]
  unfold prepared stopHead
  rw [links_setStatus]
  split
  · rw [links_setStatus]
    exact hcreated
  · exact hcreated

theorem prepared_task (a : Nat) :
    ((prepared s new task).node a).task = if a = new then task else (s.node a).task := by
  have hcreated : ((creatThreadNode s new task).node a).task =
      if a = new then task else (s.node a).task := by
    unfold creatThreadNode setNode
    simp only [Function.update_apply]
    by_cases ha : a = new
    · rw [if_pos ha, if_pos ha]
    · rw [if_neg ha, if_neg ha]
  unfold prepared stopHead
  rw [task_setStatus]
  split
  · rw [task_setStatus]
    exact hcreated
  · exact hcreated

theorem prepared_fields : (prepared s new task).head = s.head ∧
    (prepared s new task).live = s.live ∧ (prepared s new task).added = s.added ∧
    (prepared s new task).deleted = s.deleted := by
  unfold prepared stopHead
  split
  · exact ⟨rfl, rfl, rfl, rfl⟩
  · exact ⟨rfl, rfl, rfl, rfl⟩

theorem IsQueue.prepared (h : IsQueue s addrs) (hfresh : new ∉ addrs) (task : Task) :
    IsQueue (Scheduler.prepared s new task) addrs := by
  refine ⟨?_, h.nodup, h.nonnull⟩
  rw [prepared_fields.left]
  apply h.path.congr
  intro a ha
  have hne : a ≠ new := fun heq => hfresh (heq ▸ ha)
  rw [prepared_links, if_neg hne]

theorem tasks_prepared (hfresh : new ∉ addrs) (task : Task) :
    tasks (prepared s new task) addrs = tasks s addrs := by
  apply List.map_congr_left
  intro a ha
  have hne : a ≠ new := fun heq => hfresh (heq ▸ ha)
  rw [prepared_task, if_neg hne]

end Prepared

/-!
# Calls
-/

structure SchedInv (policy : Policy) (s : Sched) (addrs : List Nat) : Prop where
  queue : IsQueue s addrs
  live : s.live.Perm addrs
  held : s.added.Perm (s.deleted ++ tasks s addrs)
  stamps : s.added.map Task.stamp = List.range s.added.length
  order : InOrder policy (tasks s addrs)

theorem SchedInv.stamp_lt (h : SchedInv policy s addrs) {x : Task} (hx : x ∈ tasks s addrs) :
    x.stamp < s.added.length := by
  have hadded : x ∈ s.added := h.held.mem_iff.mpr (List.mem_append_right _ hx)
  have hstamp := List.mem_map_of_mem (f := Task.stamp) hadded
  rw [h.stamps] at hstamp
  exact List.mem_range.mp hstamp

theorem SchedInv.length_le (h : SchedInv policy s addrs) : addrs.length ≤ s.added.length := by
  have hlength := h.held.length_eq
  rw [List.length_append, tasks, List.length_map] at hlength
  lia

theorem held_enqueue {added deleted q : List Task} (h : added.Perm (deleted ++ q))
    (keepsHead : Bool) (x : Task) :
    (added ++ [x]).Perm (deleted ++ enqueue keepsHead (Precedes policy) x q) := by
  have hnew : (enqueue keepsHead (Precedes policy) x q).Perm (q ++ [x]) :=
    (perm_enqueue keepsHead (Precedes policy) x q).trans (List.perm_append_singleton x q).symm
  have hall : (added ++ [x]).Perm (deleted ++ (q ++ [x])) := by
    rw [← List.append_assoc]
    exact h.append_right [x]
  exact hall.trans (hnew.symm.append_left deleted)

structure Added (s : Sched) (new : Nat) (task : Task) (t : Sched) : Prop where
  node : forall a, exists next, t.node a = { (prepared s new task).node a with next := next }
  live : t.live = new :: s.live

theorem SchedInv.add (h : SchedInv policy s addrs) (hnew : new ≠ 0) (hlive : new ∉ s.live)
    (arrivalTime wct priority : Int) :
    exists t, step policy s (Action.add new arrivalTime wct priority) = some t ∧
      SchedInv policy t (enqueue policy.keepsHead (NodePrecedes policy
        (prepared s new ⟨arrivalTime, wct, priority, s.added.length⟩)) new addrs) ∧
      Added s new ⟨arrivalTime, wct, priority, s.added.length⟩ t ∧
      (policy.keepsHead = true -> s.head ≠ 0 -> t.head = s.head) := by
  have hfresh : new ∉ addrs := fun hmem => hlive (h.live.mem_iff.mpr hmem)
  let task : Task := ⟨arrivalTime, wct, priority, s.added.length⟩
  have hnull : links (prepared s new task).node new = 0 := by
    rw [prepared_links, if_pos rfl]
  rcases insertNode_spec policy (h.queue.prepared hfresh task) hfresh hnew hnull
    (Nat.lt_succ_of_le h.length_le) with ⟨u, hinsert, hqueue, hlinked⟩
  rcases @prepared_fields s new task with ⟨hhead, hslive, hadded, hdeleted⟩
  have htasks : tasks u (Scheduler.enqueue policy.keepsHead
      (NodePrecedes policy (prepared s new task)) new addrs) =
      Scheduler.enqueue policy.keepsHead (Precedes policy) task (tasks s addrs) := by
    have hsame : forall l, tasks u l = tasks (prepared s new task) l := fun l =>
      List.map_congr_left fun a _ => hlinked.task a
    rw [hsame, map_enqueue, prepared_task, if_pos rfl, tasks_prepared hfresh task]
  refine ⟨{ u with
    signals := u.signals ++ [Signal.schedule]
    live := new :: u.live
    added := u.added ++ [task] }, ?_, ⟨⟨hqueue.path, hqueue.nodup, hqueue.nonnull⟩, ?_, ?_, ?_,
    ?_⟩, ⟨hlinked.node, ?_⟩, ?_⟩
  · have hadd : addTask policy (s.added.length + 1) (creatThreadNode s new task) new =
        some (send u Signal.schedule) := by
      unfold addTask
      change (insertNode policy _ (prepared s new task) new).map _ = _
      rw [hinsert, Option.map_some]
    simp only [step]
    rw [if_pos ⟨hnew, hlive⟩, hadd, Option.map_some]
    rfl
  · simp only
    rw [hlinked.live, hslive]
    exact (h.live.cons new).trans (perm_enqueue _ _ _ _).symm
  · change (u.added ++ [task]).Perm (u.deleted ++ tasks u _)
    rw [htasks, hlinked.added, hlinked.deleted, hadded, hdeleted]
    exact held_enqueue h.held _ _
  · simp only [hlinked.added, hadded, List.map_append, List.map_singleton, h.stamps,
      List.length_append, List.length_singleton, List.range_succ]
    rfl
  · change InOrder policy (tasks u _)
    rw [htasks]
    apply h.order.enqueue
    intro y hy
    exact h.stamp_lt hy
  · change new :: u.live = new :: s.live
    rw [hlinked.live, hslive]
  · intro hkeeps hne
    cases addrs with
    | nil => exact absurd h.queue.head_eq_zero hne
    | cons y zs =>
        rw [hkeeps] at hqueue
        exact hqueue.path.left.trans h.queue.path.left.symm

theorem SchedInv.delete {y : Nat} {zs : List Nat} (h : SchedInv policy s (y :: zs)) :
    exists t, step policy s Action.delete = some t ∧ SchedInv policy t zs ∧
      t.node = s.node := by
  have hhead := h.queue.path.left
  have hnext : Path (links s.node) (links s.node s.head) zs 0 := by
    rw [hhead]
    exact h.queue.path.right
  have hnodup := List.nodup_cons.mp h.queue.nodup
  have hnonnull : 0 ∉ zs := fun hmem => h.queue.nonnull (List.mem_cons_of_mem y hmem)
  have hlive : (s.live.erase s.head).Perm zs := by
    rw [hhead]
    have herase := h.live.erase y
    rw [List.erase_cons_head] at herase
    exact herase
  have hheld : s.added.Perm ((s.deleted ++ [(s.node s.head).task]) ++ tasks s zs) := by
    rw [List.append_assoc, hhead]
    exact h.held
  have horder : InOrder policy (tasks s zs) := inOrder_of_pairwise h.order.tail
  simp only [step, deleteTask]
  rw [if_neg h.queue.head_ne_zero]
  by_cases hlast : (s.node s.head).next = 0
  · rw [if_neg (not_not.mpr hlast), Option.map_some]
    exact ⟨_, rfl, ⟨⟨hnext, hnodup.right, hnonnull⟩, hlive, hheld, h.stamps, horder⟩, rfl⟩
  · rw [if_pos hlast, Option.map_some]
    exact ⟨_, rfl, ⟨⟨hnext, hnodup.right, hnonnull⟩, hlive, hheld, h.stamps, horder⟩, rfl⟩

theorem initial_inv (policy : Policy) (node : Nat -> Tasknode) :
    SchedInv policy (initScheduler node) [] where
  queue := ⟨rfl, List.nodup_nil, List.not_mem_nil⟩
  live := List.Perm.refl _
  held := List.Perm.refl _
  stamps := rfl
  order := inOrder_of_pairwise List.Pairwise.nil

theorem reachable_inv (hs : (schedSystem policy).Reachable s) :
    exists addrs, SchedInv policy s addrs := by
  apply hs.invariant (P := fun s => exists addrs, SchedInv policy s addrs)
  · rintro s ⟨node, rfl⟩
    exact ⟨[], initial_inv policy node⟩
  · rintro s a t ⟨addrs, h⟩ hstep
    change step policy s a = some t at hstep
    cases a with
    | add new arrivalTime wct priority =>
        have hcond : new ≠ 0 ∧ new ∉ s.live := by
          by_contra hno
          simp only [step, if_neg hno] at hstep
          cases hstep
        rcases h.add hcond.left hcond.right arrivalTime wct priority with ⟨u, hu, hinv, _⟩
        rw [hu] at hstep
        cases hstep
        exact ⟨_, hinv⟩
    | delete =>
        cases addrs with
        | nil =>
            have hnone : deleteTask s = none := by
              unfold deleteTask
              exact if_pos h.queue.head_eq_zero
            simp only [step, hnone] at hstep
            cases hstep
        | cons y zs =>
            rcases h.delete with ⟨u, hu, hinv, _⟩
            rw [hu] at hstep
            cases hstep
            exact ⟨zs, hinv⟩

theorem ready_queue_discipline (hs : (schedSystem policy).Reachable s) :
    exists addrs, IsQueue s addrs ∧
      s.added.Perm (s.deleted ++ tasks s addrs) ∧
      s.added.map Task.stamp = List.range s.added.length ∧
      InOrder policy (tasks s addrs) ∧
      (forall new arrivalTime wct priority, new ≠ 0 -> new ∉ s.live ->
        exists t, step policy s (Action.add new arrivalTime wct priority) = some t ∧
          (policy = Policy.sjfNotPem ∨ policy = Policy.priorityNotPem -> s.head ≠ 0 ->
            t.head = s.head)) ∧
      (s.head ≠ 0 -> exists t, step policy s Action.delete = some t ∧
        IsQueue t addrs.tail ∧ t.node = s.node ∧
        forall a, a ∈ addrs.tail -> a ≠ t.head ->
          Before policy (s.node t.head).task (s.node a).task) := by
  rcases reachable_inv hs with ⟨addrs, h⟩
  refine ⟨addrs, h.queue, h.held, h.stamps, h.order, ?_, ?_⟩
  · intro new arrivalTime wct priority hnew hlive
    rcases h.add hnew hlive arrivalTime wct priority with ⟨t, hstep, _, _, hhead⟩
    refine ⟨t, hstep, ?_⟩
    intro hpolicy
    apply hhead
    cases hpolicy with
    | inl heq => rw [heq]; rfl
    | inr heq => rw [heq]; rfl
  · intro hne
    cases addrs with
    | nil => exact absurd h.queue.head_eq_zero hne
    | cons y zs =>
        rcases h.delete with ⟨t, hstep, hinv, hnode⟩
        refine ⟨t, hstep, hinv.queue, hnode, ?_⟩
        intro a ha hat
        have hsorted := h.order.tail
        cases zs with
        | nil => cases ha
        | cons z zs =>
            rw [hinv.queue.path.left] at hat ⊢
            have hz := (List.pairwise_cons.mp hsorted).left
            cases List.mem_cons.mp ha with
            | inl heq => exact absurd heq hat
            | inr ha => exact hz _ (List.mem_map_of_mem ha)

/-- The first of three tasks is finished, and a fourth one, the shortest, comes in. -/
def fourTasks : List Action :=
  [Action.add 8 0 5 1, Action.add 16 1 9 3, Action.add 24 2 2 2, Action.delete,
    Action.add 32 3 1 4]

/-- The shortest task waits behind the one that runs, which it follows as the head. -/
theorem ready_queue_discipline_four_tasks :
    exists s t, (schedSystem Policy.sjfNotPem).Reachable s ∧ s.head = 24 ∧
      (s.node 24).next = 32 ∧ (s.node 32).next = 16 ∧
      step Policy.sjfNotPem s Action.delete = some t ∧ t.head = 32 ∧
      exists addrs, IsQueue s addrs ∧ InOrder Policy.sjfNotPem (tasks s addrs) ∧
        IsQueue t addrs.tail ∧
        forall a, a ∈ addrs.tail -> a ≠ t.head ->
          Before Policy.sjfNotPem (s.node t.head).task (s.node a).task := by
  have hrun : (System.execAll (step Policy.sjfNotPem)
      (initScheduler fun _ => ⟨⟨0, 0, 0, 0⟩, Status.waiting, 0, 0⟩) fourTasks).map
        (fun s => (s.head, (s.node 24).next, (s.node 32).next,
          (step Policy.sjfNotPem s Action.delete).map Sched.head)) =
          some (24, 32, 16, some 32) := by decide
  rcases Option.map_eq_some_iff.mp hrun with ⟨s, hexec, hvalues⟩
  simp only [Prod.mk.injEq] at hvalues
  rcases hvalues with ⟨hhead, hnext, hlast, hafter⟩
  rcases Option.map_eq_some_iff.mp hafter with ⟨t, hdelete, hnew⟩
  have hinit : (schedSystem Policy.sjfNotPem).Reachable
      (initScheduler fun _ => ⟨⟨0, 0, 0, 0⟩, Status.waiting, 0, 0⟩) :=
    System.Reachable.init ⟨_, rfl⟩
  have hs := System.Reachable.of_execAll (fun _ _ _ _ hstep => hstep) hinit hexec
  rcases ready_queue_discipline hs with ⟨addrs, hqueue, _, _, horder, _, hpop⟩
  rcases hpop (by rw [hhead]; decide) with ⟨t', hdelete', hrest, _, hbest⟩
  rw [hdelete] at hdelete'
  cases hdelete'
  exact ⟨s, t, hs, hhead, hnext, hlast, hdelete, hnew, addrs, hqueue, horder, hrest, hbest⟩

end Scheduler
end OsLabs
