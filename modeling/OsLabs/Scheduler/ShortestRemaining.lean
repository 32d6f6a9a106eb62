import Mathlib.Data.List.TakeWhile
import OsLabs.Foundation.MoveToBack
import OsLabs.Scheduler.Status

/-!
# Preemptive shortest job first

The scheduler in integer time: tasks are added when they arrive, the head of the
queue uses up its remaining time, and it is deleted when nothing remains.  The
remaining times belong to the threads; the nodes keep the whole execution times,
and `sjf_pem` compares these.
-/

namespace OsLabs
namespace Scheduler

open Foundation

structure Job where
  arrivalTime : Nat
  wct : Nat
  priority : Int
deriving DecidableEq

/-- The scheduler, the time, the jobs to come and what remains of the tasks. -/
structure Sim where
  sched : Sched
  now : Nat
  pending : List Job
  remaining : Nat -> Nat

inductive SimAction where
  | arrive (new : Nat) (job : Job)
  | tick
  | finish

def Running (s : Sim) : Prop := s.sched.head = 0 ∨ 0 < s.remaining s.sched.head

instance decidableRunning (s : Sim) : Decidable (Running s) :=
  inferInstanceAs (Decidable (_ ∨ _))

/-- Time passes only when all tasks that are due have been added, and `delete_task` is
called as soon as the head has nothing left. -/
def simStep (s : Sim) : SimAction -> Option Sim
  | SimAction.arrive new job =>
      if job ∈ s.pending ∧ job.arrivalTime = s.now ∧ Running s then
        (dispatchedStep Policy.sjfPem s.sched
          (Action.add new job.arrivalTime job.wct job.priority)).map fun sched =>
          { s with
            sched := sched
            pending := s.pending.erase job
            remaining := Function.update s.remaining new job.wct }
      else none
  | SimAction.tick =>
      if (forall job, job ∈ s.pending -> s.now < job.arrivalTime) ∧ Running s then
        some { s with
          now := s.now + 1
          remaining := if s.sched.head = 0 then s.remaining
            else Function.update s.remaining s.sched.head (s.remaining s.sched.head - 1) }
      else none
  | SimAction.finish =>
      if s.sched.head ≠ 0 ∧ s.remaining s.sched.head = 0 then
        (dispatchedStep Policy.sjfPem s.sched Action.delete).map fun sched =>
          { s with sched := sched }
      else none

def initialSim (node : Nat -> Tasknode) (jobs : List Job) : Sim where
  sched := initScheduler node
  now := 0
  pending := jobs
  remaining := fun _ => 0

def ShortestRuns (s : Sim) : Prop :=
  forall addrs, IsQueue s.sched addrs ->
    forall a, a ∈ addrs -> s.remaining s.sched.head ≤ s.remaining a

/-- A new task that is shorter than a queued one as a whole is not longer than what
remains of that. -/
def ComparesRight (s : Sim) : SimAction -> Prop
  | SimAction.arrive _ job => forall addrs, IsQueue s.sched addrs -> forall a, a ∈ addrs ->
      (job.wct : Int) < (s.sched.node a).task.wct -> job.wct ≤ s.remaining a
  | SimAction.tick => True
  | SimAction.finish => True

/-!
# Steps
-/

variable {s t : Sim} {addrs : List Nat}

structure SimInv (s : Sim) (addrs : List Nat) : Prop where
  status : StatusInv Policy.sjfPem s.sched addrs
  bounded : forall a, a ∈ addrs -> (s.remaining a : Int) ≤ (s.sched.node a).task.wct

theorem SimInv.isQueue (h : SimInv s addrs) : IsQueue s.sched addrs := h.status.inv.queue

inductive Moves (s : Sim) (addrs : List Nat) : SimAction -> Sim -> List Nat -> Prop where
  | arrive {new : Nat} {job : Job} {t : Sim} {pre post : List Nat}
      (hfresh : new ∉ addrs) (hsplit : addrs = pre ++ post)
      (hpre : forall a, a ∈ pre -> (s.sched.node a).task.wct ≤ job.wct)
      (hpost : forall a, a ∈ post -> (job.wct : Int) < (s.sched.node a).task.wct)
      (hremaining : t.remaining = Function.update s.remaining new job.wct)
      (hnew : (t.sched.node new).task.wct = job.wct)
      (hold : forall a, a ∈ addrs -> (t.sched.node a).task = (s.sched.node a).task) :
      Moves s addrs (SimAction.arrive new job) t (pre ++ new :: post)
  | idle {t : Sim} (hnone : addrs = []) (hremaining : t.remaining = s.remaining)
      (hold : t.sched = s.sched) : Moves s addrs SimAction.tick t addrs
  | tick {t : Sim} {y : Nat} {zs : List Nat} (hsome : addrs = y :: zs)
      (hremaining : t.remaining = Function.update s.remaining y (s.remaining y - 1))
      (hold : t.sched = s.sched) : Moves s addrs SimAction.tick t addrs
  | finish {t : Sim} {y : Nat} {zs : List Nat} (hsome : addrs = y :: zs)
      (hremaining : t.remaining = s.remaining) (hold : t.sched.node = s.sched.node) :
      Moves s addrs SimAction.finish t zs

theorem enqueue_eq_orderedInsert {alpha : Type} (r : alpha -> alpha -> Prop) [DecidableRel r]
    (x : alpha) (l : List alpha) : enqueue false r x l = l.orderedInsert r x := by
  cases l with
  | nil => rfl
  | cons y l => rfl

theorem of_mem_dropWhile {r : Nat -> Prop} [DecidablePred r] {l : List Nat}
    (hmono : l.Pairwise fun a b => r a -> r b) {a : Nat}
    (ha : a ∈ l.dropWhile fun b => decide (¬ r b)) : r a := by
  induction l with
  | nil => cases ha
  | cons b l ih =>
      rcases List.pairwise_cons.mp hmono with ⟨hb, hl⟩
      by_cases hr : r b
      · rw [List.dropWhile_cons_of_neg (by simpa using hr)] at ha
        cases List.mem_cons.mp ha with
        | inl heq =>
            rw [heq]
            exact hr
        | inr hmem => exact hb a hmem hr
      · rw [List.dropWhile_cons_of_pos (by simpa using hr)] at ha
        exact ih hl ha

theorem enqueue_split {p : Sched} {new : Nat}
    (hsorted : addrs.Pairwise fun a b => (p.node a).task.wct ≤ (p.node b).task.wct) :
    exists pre post, addrs = pre ++ post ∧
      enqueue false (NodePrecedes Policy.sjfPem p) new addrs = pre ++ new :: post ∧
      (forall a, a ∈ pre -> (p.node a).task.wct ≤ (p.node new).task.wct) ∧
      forall a, a ∈ post -> (p.node new).task.wct < (p.node a).task.wct := by
  refine ⟨addrs.takeWhile fun b => decide (¬ NodePrecedes Policy.sjfPem p new b),
    addrs.dropWhile fun b => decide (¬ NodePrecedes Policy.sjfPem p new b),
    List.takeWhile_append_dropWhile.symm, ?_, ?_, ?_⟩
  · rw [enqueue_eq_orderedInsert, List.orderedInsert_eq_take_drop]
  · intro a ha
    have hpass := List.mem_takeWhile_imp ha
    exact Int.not_lt.mp (of_decide_eq_true hpass)
  · intro a ha
    apply of_mem_dropWhile _ ha
    apply hsorted.imp
    intro b c hbc hb
    exact Int.lt_of_lt_of_le hb hbc

theorem SimInv.sorted_wct (h : SimInv s addrs) :
    addrs.Pairwise fun a b => (s.sched.node a).task.wct ≤ (s.sched.node b).task.wct := by
  have horder : (tasks s.sched addrs).Pairwise (Before Policy.sjfPem) := h.status.inv.order
  have hmapped := List.pairwise_map.mp horder
  apply hmapped.imp
  intro a b hab
  unfold Before at hab
  lia

theorem SimInv.arrive (h : SimInv s addrs) {new : Nat} {job : Job}
    (hstep : simStep s (SimAction.arrive new job) = some t) :
    exists queue, SimInv t queue ∧ Moves s addrs (SimAction.arrive new job) t queue := by
  simp only [simStep] at hstep
  split at hstep
  · rcases Option.map_eq_some_iff.mp hstep with ⟨sched, hadd, ht⟩
    have hcond := add_cond hadd
    rcases h.status.add hcond.left hcond.right job.arrivalTime job.wct job.priority with
      ⟨u, hu, hinv, _, htask⟩
    have hsame : sched = u := Option.some.inj (hadd.symm.trans hu)
    subst hsame ht
    have hfresh : new ∉ addrs := fun hmem =>
      hcond.right (h.status.inv.live.mem_iff.mpr hmem)
    generalize hp : prepared s.sched new
      ⟨job.arrivalTime, job.wct, job.priority, s.sched.added.length⟩ = p at hinv htask
    have hnew : (p.node new).task.wct = job.wct := by
      rw [← hp, prepared_task, if_pos rfl]
    have hold : forall a, a ∈ addrs -> (p.node a).task = (s.sched.node a).task := by
      intro a ha
      have hne : a ≠ new := fun heq => hfresh (heq ▸ ha)
      rw [← hp, prepared_task, if_neg hne]
    have hsorted : addrs.Pairwise fun a b => (p.node a).task.wct ≤ (p.node b).task.wct := by
      apply h.sorted_wct.imp_of_mem
      intro a b ha hb hab
      rw [hold a ha, hold b hb]
      exact hab
    rcases @enqueue_split addrs p new hsorted with ⟨pre, post, hsplit, hqueue, hpre, hpost⟩
    change StatusInv Policy.sjfPem sched (enqueue false (NodePrecedes Policy.sjfPem p) new addrs)
      at hinv
    rw [hqueue] at hinv
    refine ⟨pre ++ new :: post, ⟨hinv, ?_⟩, Moves.arrive hfresh hsplit ?_ ?_ rfl ?_ ?_⟩
    · intro a ha
      change ((Function.update s.remaining new job.wct a : Nat) : Int) ≤ (sched.node a).task.wct
      rw [htask, Function.update_apply]
      by_cases han : a = new
      · rw [if_pos han, han, hnew]
      · have hmem : a ∈ addrs := by
          rw [hsplit]
          cases List.mem_append.mp ha with
          | inl hleft => exact List.mem_append_left _ hleft
          | inr hright =>
              exact List.mem_append_right _ ((List.mem_cons.mp hright).resolve_left han)
        rw [if_neg han, hold a hmem]
        exact h.bounded a hmem
    · intro a ha
      have hle := hpre a ha
      rw [hnew, hold a (hsplit ▸ List.mem_append_left _ ha)] at hle
      exact hle
    · intro a ha
      have hlt := hpost a ha
      rw [hnew, hold a (hsplit ▸ List.mem_append_right _ ha)] at hlt
      exact hlt
    · rw [htask]
      exact hnew
    · intro a ha
      rw [htask]
      exact hold a ha
  · cases hstep

theorem SimInv.tick (h : SimInv s addrs) (hstep : simStep s SimAction.tick = some t) :
    SimInv t addrs ∧ Moves s addrs SimAction.tick t addrs := by
  simp only [simStep] at hstep
  split at hstep
  · cases hstep
    cases addrs with
    | nil =>
        have hhead := h.isQueue.head_eq_zero
        refine ⟨⟨h.status, ?_⟩, Moves.idle rfl ?_ rfl⟩
        · intro a ha
          cases ha
        · exact if_pos hhead
    | cons y zs =>
        have hhead := h.isQueue.path.left
        have hne := h.isQueue.head_ne_zero
        have hremaining : (if s.sched.head = 0 then s.remaining
            else Function.update s.remaining s.sched.head (s.remaining s.sched.head - 1)) =
            Function.update s.remaining y (s.remaining y - 1) := by
          rw [if_neg hne, hhead]
        refine ⟨⟨h.status, ?_⟩, Moves.tick rfl hremaining rfl⟩
        intro a ha
        have hbound := h.bounded a ha
        simp only [hremaining]
        rw [Function.update_apply]
        split
        · rename_i heq
          rw [heq] at hbound ⊢
          lia
        · exact hbound
  · cases hstep

theorem SimInv.finish (h : SimInv s addrs) (hstep : simStep s SimAction.finish = some t) :
    exists queue, SimInv t queue ∧ Moves s addrs SimAction.finish t queue := by
  simp only [simStep] at hstep
  split at hstep
  · rename_i hcond
    rcases Option.map_eq_some_iff.mp hstep with ⟨sched, hdelete, ht⟩
    cases addrs with
    | nil => exact absurd h.isQueue.head_eq_zero hcond.left
    | cons y zs =>
        rcases h.status.delete with ⟨u, hu, hinv, hnode⟩
        have hsame : sched = u := Option.some.inj (hdelete.symm.trans hu)
        subst hsame ht
        refine ⟨zs, ⟨hinv, ?_⟩, Moves.finish rfl rfl hnode⟩
        intro a ha
        simp only [hnode]
        exact h.bounded a (List.mem_cons_of_mem y ha)
  · cases hstep

theorem SimInv.step (h : SimInv s addrs) {a : SimAction} (hstep : simStep s a = some t) :
    exists queue, SimInv t queue ∧ Moves s addrs a t queue := by
  cases a with
  | arrive new job => exact h.arrive hstep
  | tick => exact ⟨addrs, h.tick hstep⟩
  | finish => exact h.finish hstep

/-!
# Where the comparison is right
-/

def InRemainingOrder (s : Sim) (addrs : List Nat) : Prop :=
  addrs.Pairwise fun a b => s.remaining a ≤ s.remaining b

theorem InRemainingOrder.shortestRuns (h : InRemainingOrder s addrs) (hinv : SimInv s addrs) :
    ShortestRuns s := by
  intro others hqueue a ha
  rw [hqueue.unique hinv.isQueue] at ha
  cases addrs with
  | nil => cases ha
  | cons y zs =>
      rw [hinv.isQueue.path.left]
      cases List.mem_cons.mp ha with
      | inl heq => rw [heq]
      | inr hmem => exact (List.pairwise_cons.mp h).left a hmem

/-- A right comparison puts the new task in the order of the remaining times. -/
theorem InRemainingOrder.step (h : InRemainingOrder s addrs) (hinv : SimInv s addrs)
    {a : SimAction} {queue : List Nat} (hright : ComparesRight s a)
    (hmoves : Moves s addrs a t queue) : InRemainingOrder t queue := by
  unfold InRemainingOrder at *
  cases hmoves with
  | @arrive new job _ pre post hfresh hsplit hpre hpost hremaining hnew hold =>
      rw [hremaining]
      have hsame : forall b, b ∈ addrs -> Function.update s.remaining new job.wct b =
          s.remaining b := by
        intro b hb
        have hne : b ≠ new := fun heq => hfresh (heq ▸ hb)
        exact Function.update_of_ne hne _ _
      have hkept : addrs.Pairwise fun b c => Function.update s.remaining new job.wct b ≤
          Function.update s.remaining new job.wct c := by
        apply h.imp_of_mem
        intro b c hb hc hbc
        rw [hsame b hb, hsame c hc]
        exact hbc
      rw [hsplit, List.pairwise_append] at hkept
      rw [List.pairwise_append, List.pairwise_cons]
      refine ⟨hkept.left, ⟨?_, hkept.right.left⟩, ?_⟩
      · intro c hc
        have hmem : c ∈ addrs := hsplit ▸ List.mem_append_right _ hc
        rw [Function.update_self, hsame c hmem]
        exact hright addrs hinv.isQueue c hmem (hpost c hc)
      · intro b hb c hc
        cases List.mem_cons.mp hc with
        | inl heq =>
            have hmem : b ∈ addrs := hsplit ▸ List.mem_append_left _ hb
            have hbound := hinv.bounded b hmem
            have hshort := hpre b hb
            rw [heq, Function.update_self, hsame b hmem]
            lia
        | inr hmem => exact hkept.right.right b hb c hmem
  | idle hnone _ _ =>
      rw [hnone]
      exact List.Pairwise.nil
  | @tick _ y zs hsome hremaining _ =>
      have hnodup := hinv.isQueue.nodup
      rw [hsome] at h hnodup ⊢
      rcases List.pairwise_cons.mp h with ⟨hy, hzs⟩
      have hout := (List.nodup_cons.mp hnodup).left
      have hsame : forall b, b ∈ zs -> t.remaining b = s.remaining b := by
        intro b hb
        have hne : b ≠ y := fun heq => hout (heq ▸ hb)
        rw [hremaining]
        exact Function.update_of_ne hne _ _
      rw [List.pairwise_cons]
      constructor
      · intro b hb
        have hle := hy b hb
        rw [hsame b hb, hremaining, Function.update_self]
        lia
      · apply hzs.imp_of_mem
        intro b c hb hc hbc
        rw [hsame b hb, hsame c hc]
        exact hbc
  | finish hsome hremaining _ =>
      rw [hsome] at h
      rw [hremaining]
      exact (List.pairwise_cons.mp h).right

theorem shortestRuns_run {as : List SimAction} (h : InRemainingOrder s addrs)
    (hinv : SimInv s addrs) (hmeets : System.ExecMeets simStep ComparesRight s as) :
    forall bs t, bs <+: as -> System.execAll simStep s bs = some t -> ShortestRuns t := by
  induction as generalizing s addrs with
  | nil => exact System.forall_prefix_nil.mpr (h.shortestRuns hinv)
  | cons a as ih =>
      rw [System.forall_prefix_cons]
      refine ⟨h.shortestRuns hinv, ?_⟩
      intro u hstep
      rcases hinv.step hstep with ⟨queue, hinv', hmoves⟩
      exact ih (h.step hinv hmeets.left hmoves) hinv' (hmeets.right u hstep)

/-!
# Where it is wrong
-/

def Overtaken (s : Sim) (addrs : List Nat) : Prop :=
  exists x q, Foundation.Before addrs x q ∧ (s.remaining x : Int) = (s.sched.node x).task.wct ∧
    s.remaining q < s.remaining x

theorem mem_of_before {l : List Nat} {x q : Nat} (h : Foundation.Before l x q) :
    x ∈ l ∧ q ∈ l :=
  ⟨h.subset (by simp), h.subset (by simp)⟩

/-- A wrong comparison puts the new task before one with less remaining. -/
theorem overtaken_of_wrong (hinv : SimInv s addrs) {a : SimAction} {queue : List Nat}
    (hwrong : ¬ ComparesRight s a) (hmoves : Moves s addrs a t queue) : Overtaken t queue := by
  cases hmoves with
  | @arrive new job _ pre post hfresh hsplit hpre hpost hremaining hnew hold =>
      unfold ComparesRight at hwrong
      push Not at hwrong
      rcases hwrong with ⟨others, hqueue, q, hq, hlonger, hless⟩
      rw [hqueue.unique hinv.isQueue] at hq
      have hne : q ≠ new := fun heq => hfresh (heq ▸ hq)
      have hbehind : q ∈ post := by
        rw [hsplit] at hq
        apply (List.mem_append.mp hq).resolve_left
        intro hmem
        have hle := hpre q hmem
        lia
      refine ⟨new, q, ?_, ?_, ?_⟩
      · exact (before_cons_head hbehind).trans (List.sublist_append_right pre _)
      · rw [hremaining, Function.update_self, hnew]
      · rw [hremaining, Function.update_self, Function.update_of_ne hne]
        exact hless
  | idle _ _ _ => exact absurd trivial hwrong
  | tick _ _ _ => exact absurd trivial hwrong
  | finish _ _ _ => exact absurd trivial hwrong

/-- The overtaken task stays behind until the other one is the head. -/
theorem Overtaken.step (h : Overtaken s addrs) (hinv : SimInv s addrs) (hshort : ShortestRuns s)
    {a : SimAction} {queue : List Nat} (hmoves : Moves s addrs a t queue) : Overtaken t queue := by
  rcases h with ⟨x, q, hbefore, hfull, hless⟩
  rcases mem_of_before hbefore with ⟨hx, hq⟩
  have hhead : x ≠ s.sched.head := by
    intro heq
    have hle := hshort addrs hinv.isQueue q hq
    rw [← heq] at hle
    lia
  cases hmoves with
  | @arrive new job _ pre post hfresh hsplit hpre hpost hremaining hnew hold =>
      have hxn : x ≠ new := fun heq => hfresh (heq ▸ hx)
      have hqn : q ≠ new := fun heq => hfresh (heq ▸ hq)
      refine ⟨x, q, ?_, ?_, ?_⟩
      · have hkept : addrs.Sublist (pre ++ new :: post) := by
          rw [hsplit]
          exact (List.sublist_cons_self new post).append_left pre
        exact hbefore.trans hkept
      · rw [hremaining, Function.update_of_ne hxn, hold x hx]
        exact hfull
      · rw [hremaining, Function.update_of_ne hxn, Function.update_of_ne hqn]
        exact hless
  | idle hnone _ _ =>
      rw [hnone] at hx
      cases hx
  | @tick _ y zs hsome hremaining hold =>
      have hy : s.sched.head = y := by
        have hqueue := hinv.isQueue
        rw [hsome] at hqueue
        exact hqueue.path.left
      have hxy : x ≠ y := hy ▸ hhead
      have hqy : q ≠ y := by
        intro heq
        have hnodup := hinv.isQueue.nodup
        rw [hsome] at hnodup hbefore
        rw [heq] at hbefore
        exact not_before_head hnodup hbefore
      refine ⟨x, q, hbefore, ?_, ?_⟩
      · rw [hremaining, Function.update_of_ne hxy, hold]
        exact hfull
      · rw [hremaining, Function.update_of_ne hxy, Function.update_of_ne hqy]
        exact hless
  | @finish _ y zs hsome hremaining hold =>
      have hy : s.sched.head = y := by
        have hqueue := hinv.isQueue
        rw [hsome] at hqueue
        exact hqueue.path.left
      refine ⟨x, q, ?_, ?_, ?_⟩
      · rw [hsome] at hbefore
        cases hbefore with
        | cons _ htail => exact htail
        | cons_cons _ _ => exact absurd hy.symm hhead
      · rw [hremaining, hold]
        exact hfull
      · rw [hremaining]
        exact hless

theorem not_overtaken_run {as : List SimAction} (hinv : SimInv s addrs)
    (hrun : System.execAll simStep s as = some t) (hend : t.sched.head = 0)
    (hall : forall bs u, bs <+: as -> System.execAll simStep s bs = some u -> ShortestRuns u) :
    ¬ Overtaken s addrs := by
  induction as generalizing s addrs with
  | nil =>
      cases hrun
      rintro ⟨x, q, hbefore, _⟩
      cases addrs with
      | nil => exact absurd (mem_of_before hbefore).left List.not_mem_nil
      | cons y zs => exact hinv.isQueue.head_ne_zero hend
  | cons a as ih =>
      intro h
      rcases Option.bind_eq_some_iff.mp hrun with ⟨u, hstep, hrest⟩
      rcases hinv.step hstep with ⟨queue, hinv', hmoves⟩
      rcases System.forall_prefix_cons.mp hall with ⟨hshort, hlater⟩
      exact ih hinv' hrest (hlater u hstep) (h.step hinv hshort hmoves)

theorem comparesRight_run {as : List SimAction} (hinv : SimInv s addrs)
    (hrun : System.execAll simStep s as = some t) (hend : t.sched.head = 0)
    (hall : forall bs u, bs <+: as -> System.execAll simStep s bs = some u -> ShortestRuns u) :
    System.ExecMeets simStep ComparesRight s as := by
  induction as generalizing s addrs with
  | nil => trivial
  | cons a as ih =>
      rcases Option.bind_eq_some_iff.mp hrun with ⟨u, hstep, hrest⟩
      rcases hinv.step hstep with ⟨queue, hinv', hmoves⟩
      have hlater := (System.forall_prefix_cons.mp hall).right u hstep
      constructor
      · by_contra hwrong
        exact not_overtaken_run hinv' hrest hend hlater (overtaken_of_wrong hinv hwrong hmoves)
      · intro v hv
        rw [hstep] at hv
        cases hv
        exact ih hinv' hrest hlater

theorem initialSim_inv (node : Nat -> Tasknode) (jobs : List Job) :
    SimInv (initialSim node jobs) [] := by
  refine ⟨⟨initial_inv Policy.sjfPem node, ?_⟩, ?_⟩
  · intro a ha
    cases ha
  · intro a ha
    cases ha

/-- In a run whose comparisons are all right the shortest remaining task always runs;
in a run that ends with an empty queue it always runs only if they are. -/
theorem shortest_remaining_exact (node : Nat -> Tasknode) (jobs : List Job) :
    (forall as, System.ExecMeets simStep ComparesRight (initialSim node jobs) as ->
      forall bs t, bs <+: as -> System.execAll simStep (initialSim node jobs) bs = some t ->
        ShortestRuns t) ∧
    (forall as t, System.execAll simStep (initialSim node jobs) as = some t -> t.sched.head = 0 ->
      (forall bs u, bs <+: as -> System.execAll simStep (initialSim node jobs) bs = some u ->
        ShortestRuns u) ->
      System.ExecMeets simStep ComparesRight (initialSim node jobs) as) := by
  constructor
  · intro as hmeets
    exact shortestRuns_run List.Pairwise.nil (initialSim_inv node jobs) hmeets
  · intro as t hrun hend hall
    exact comparesRight_run (initialSim_inv node jobs) hrun hend hall

/-- A task of length 5 with 2 left is stopped for one of length 4. -/
theorem longer_task_preempts :
    exists t, System.execAll simStep
      (initialSim (fun _ => ⟨⟨0, 0, 0, 0⟩, Status.waiting, 0, 0⟩) [⟨0, 5, 1⟩, ⟨3, 4, 1⟩])
      [SimAction.arrive 8 ⟨0, 5, 1⟩, SimAction.tick, SimAction.tick, SimAction.tick,
        SimAction.arrive 16 ⟨3, 4, 1⟩] = some t ∧
      t.now = 3 ∧ t.sched.head = 16 ∧ t.remaining 16 = 4 ∧ t.remaining 8 = 2 ∧
      ¬ ShortestRuns t := by
  have hrun : (System.execAll simStep
      (initialSim (fun _ => ⟨⟨0, 0, 0, 0⟩, Status.waiting, 0, 0⟩) [⟨0, 5, 1⟩, ⟨3, 4, 1⟩])
      [SimAction.arrive 8 ⟨0, 5, 1⟩, SimAction.tick, SimAction.tick, SimAction.tick,
        SimAction.arrive 16 ⟨3, 4, 1⟩]).map
        (fun t => (t.now, t.sched.head, (t.sched.node 16).next, (t.sched.node 8).next,
          t.remaining 16, t.remaining 8)) = some (3, 16, 8, 0, 4, 2) := by decide
  rcases Option.map_eq_some_iff.mp hrun with ⟨t, hexec, hvalues⟩
  simp only [Prod.mk.injEq] at hvalues
  rcases hvalues with ⟨hnow, hhead, hnext, hnext', hlong, hshort⟩
  refine ⟨t, hexec, hnow, hhead, hlong, hshort, ?_⟩
  intro hshortest
  have hqueue : IsQueue t.sched [16, 8] :=
    ⟨⟨hhead, hnext, hnext'⟩, by decide, by decide⟩
  have hle := hshortest [16, 8] hqueue 8 (by decide)
  rw [hhead, hlong, hshort] at hle
  exact absurd hle (by decide)

end Scheduler
end OsLabs
