import OsLabs.Foundation.Chains
import OsLabs.Scheduler.Model

/-!
# What the insertions do to the queue

The queue is the list of nodes on the path from the head to `NULL`.  Each policy
puts the new node at the place that one abstract insertion describes, and writes
nothing but links.
-/

namespace OsLabs
namespace Scheduler

open Foundation

variable {s t : Sched} {addrs : List Nat} {new fuel : Nat}

def links (node : Nat -> Tasknode) (a : Nat) : Nat :=
  (node a).next

structure IsQueue (s : Sched) (addrs : List Nat) : Prop where
  path : Path (links s.node) s.head addrs 0
  nodup : addrs.Nodup
  nonnull : 0 ∉ addrs

theorem IsQueue.unique {others : List Nat} (h : IsQueue s addrs) (h' : IsQueue s others) :
    addrs = others :=
  h.path.unique h'.path h.nonnull h'.nonnull

structure Relinked (s t : Sched) : Prop where
  node : forall a, exists next, t.node a = { s.node a with next := next }
  signals : t.signals = s.signals
  live : t.live = s.live
  added : t.added = s.added
  deleted : t.deleted = s.deleted

theorem Relinked.task (h : Relinked s t) (a : Nat) : (t.node a).task = (s.node a).task := by
  rcases h.node a with ⟨next, hnode⟩
  rw [hnode]

theorem links_setNext (s : Sched) (a next b : Nat) :
    links (setNext s a next).node b = if b = a then next else links s.node b := by
  unfold links setNext setNode
  simp only [Function.update_apply]
  by_cases hb : b = a
  · rw [if_pos hb, if_pos hb]
  · rw [if_neg hb, if_neg hb]

theorem relinked_setNext (s : Sched) (a next : Nat) : Relinked s (setNext s a next) := by
  refine ⟨?_, rfl, rfl, rfl, rfl⟩
  intro b
  unfold setNext setNode
  simp only [Function.update_apply]
  by_cases hb : b = a
  · rw [if_pos hb, hb]
    exact ⟨next, rfl⟩
  · rw [if_neg hb]
    exact ⟨(s.node b).next, rfl⟩

theorem Relinked.refl (s : Sched) : Relinked s s :=
  ⟨fun a => ⟨(s.node a).next, rfl⟩, rfl, rfl, rfl, rfl⟩

theorem Relinked.trans {u : Sched} (h : Relinked s t) (h' : Relinked t u) : Relinked s u := by
  refine ⟨?_, h'.signals.trans h.signals, h'.live.trans h.live, h'.added.trans h.added,
    h'.deleted.trans h.deleted⟩
  intro a
  rcases h.node a with ⟨next, hnode⟩
  rcases h'.node a with ⟨next', hnode'⟩
  rw [hnode', hnode]
  exact ⟨next', rfl⟩

/-!
# The abstract queue
-/

/-- Put `x` before the first element that it precedes, behind the head if that is to
stay. -/
def enqueue {alpha : Type} (keepsHead : Bool) (r : alpha -> alpha -> Prop) [DecidableRel r]
    (x : alpha) : List alpha -> List alpha
  | [] => [x]
  | y :: q => if keepsHead then y :: q.orderedInsert r x else (y :: q).orderedInsert r x

theorem perm_enqueue {alpha : Type} (keepsHead : Bool) (r : alpha -> alpha -> Prop)
    [DecidableRel r] (x : alpha) (q : List alpha) : (enqueue keepsHead r x q).Perm (x :: q) := by
  cases q with
  | nil => exact List.Perm.refl _
  | cons y q =>
      cases keepsHead with
      | true => exact ((List.perm_orderedInsert r x q).cons y).trans (List.Perm.swap x y q)
      | false => exact List.perm_orderedInsert r x (y :: q)

def Precedes : Policy -> Task -> Task -> Prop
  | Policy.fcfs, _, _ => False
  | Policy.sjfPem, x, y => x.wct < y.wct
  | Policy.sjfNotPem, x, y => x.wct < y.wct
  | Policy.priorityPem, x, y => x.priority > y.priority
  | Policy.priorityNotPem, x, y => x.priority > y.priority

instance (policy : Policy) : DecidableRel (Precedes policy) := fun x y =>
  match policy with
  | Policy.fcfs => inferInstanceAs (Decidable False)
  | Policy.sjfPem => inferInstanceAs (Decidable (x.wct < y.wct))
  | Policy.sjfNotPem => inferInstanceAs (Decidable (x.wct < y.wct))
  | Policy.priorityPem => inferInstanceAs (Decidable (x.priority > y.priority))
  | Policy.priorityNotPem => inferInstanceAs (Decidable (x.priority > y.priority))

def Policy.keepsHead : Policy -> Bool
  | Policy.sjfNotPem => true
  | Policy.priorityNotPem => true
  | _ => false

def NodePrecedes (policy : Policy) (s : Sched) (a b : Nat) : Prop :=
  Precedes policy (s.node a).task (s.node b).task

instance (policy : Policy) (s : Sched) : DecidableRel (NodePrecedes policy s) :=
  fun _ _ => inferInstanceAs (Decidable (Precedes policy _ _))

/-!
# The loops
-/

/-- The loop moves past node `a`. -/
def passes (behind : Task -> Task -> Bool) (node : Nat -> Tasknode) (new a : Nat) : Bool :=
  behind (node new).task (node a).task

section Loops

variable {behind : Task -> Task -> Bool} {node : Nat -> Tasknode} {zs : List Nat} {pre cur : Nat}

theorem insertLoop_pass (hcur : cur ≠ 0) (hpass : passes behind node new cur = true) :
    insertLoop behind node new (fuel + 1) pre cur =
      insertLoop behind node new fuel cur (links node cur) := by
  simp only [insertLoop]
  exact if_pos ⟨hcur, hpass⟩

theorem insertLoop_stop (hstop : cur = 0 ∨ passes behind node new cur = false) :
    insertLoop behind node new (fuel + 1) pre cur = some (pre, cur) := by
  simp only [insertLoop]
  apply if_neg
  rintro ⟨hcur, hpass⟩
  cases hstop with
  | inl hzero => exact hcur hzero
  | inr hno => exact Bool.false_ne_true (hno.symm.trans hpass)

theorem insertLoop_spec (hpath : Path (links node) cur zs 0) (hnull : 0 ∉ zs)
    (hfuel : zs.length < fuel) :
    exists xs x d, insertLoop behind node new fuel pre cur = some (x, d) ∧
      pre :: zs.takeWhile (passes behind node new) = xs ++ [x] ∧
      Path (links node) cur (zs.takeWhile (passes behind node new)) d ∧
      Path (links node) d (zs.dropWhile (passes behind node new)) 0 := by
  induction zs generalizing fuel pre cur with
  | nil =>
      cases fuel with
      | zero => cases hfuel
      | succ fuel =>
          have hcur : cur = 0 := hpath
          exact ⟨[], pre, cur, insertLoop_stop (Or.inl hcur), rfl, rfl, hcur⟩
  | cons z zs ih =>
      cases fuel with
      | zero => cases hfuel
      | succ fuel =>
          rcases hpath with ⟨hcur, hrest⟩
          subst hcur
          have hz : cur ≠ 0 := fun heq => hnull (heq ▸ List.mem_cons_self)
          cases hpass : passes behind node new cur with
          | true =>
              rw [insertLoop_pass hz hpass, List.takeWhile_cons_of_pos hpass,
                List.dropWhile_cons_of_pos hpass]
              rcases @ih fuel cur (links node cur) hrest
                (fun h => hnull (List.mem_cons_of_mem cur h)) (Nat.lt_of_succ_lt_succ hfuel) with
                ⟨xs, x, d, hloop, hlast, hleft, hright⟩
              refine ⟨pre :: xs, x, d, hloop, ?_, ⟨rfl, hleft⟩, hright⟩
              rw [hlast, List.cons_append]
          | false =>
              have hno : ¬ passes behind node new cur = true := by simp [hpass]
              rw [insertLoop_stop (Or.inr hpass), List.takeWhile_cons_of_neg hno,
                List.dropWhile_cons_of_neg hno]
              exact ⟨[], pre, cur, rfl, rfl, rfl, rfl, hrest⟩

theorem fcfsLoop_spec (hpath : Path (links node) cur (cur :: zs) 0) (hnull : 0 ∉ cur :: zs)
    (hfuel : zs.length < fuel) :
    exists xs x, fcfsLoop node fuel cur = some x ∧ cur :: zs = xs ++ [x] := by
  induction zs generalizing fuel cur with
  | nil =>
      cases fuel with
      | zero => cases hfuel
      | succ fuel =>
          have hend : (node cur).next = 0 := hpath.right
          refine ⟨[], cur, ?_, rfl⟩
          simp only [fcfsLoop]
          rw [if_neg (not_not.mpr hend)]
  | cons z zs ih =>
      cases fuel with
      | zero => cases hfuel
      | succ fuel =>
          rcases hpath with ⟨_, hnext, hrest⟩
          change (node cur).next = z at hnext
          have hz : z ≠ 0 := fun heq =>
            hnull (heq ▸ List.mem_cons_of_mem cur List.mem_cons_self)
          rcases @ih fuel z ⟨rfl, hrest⟩ (fun h => hnull (List.mem_cons_of_mem cur h))
            (Nat.lt_of_succ_lt_succ hfuel) with ⟨xs, x, hloop, hlast⟩
          refine ⟨cur :: xs, x, ?_, ?_⟩
          · simp only [fcfsLoop]
            rw [if_pos (by rw [hnext]; exact hz), hnext]
            exact hloop
          · rw [hlast, List.cons_append]

end Loops

/-!
# The policies
-/

theorem IsQueue.insert {xs ys : List Nat} {x d : Nat} (h : IsQueue s ((xs ++ [x]) ++ ys))
    (hleft : Path (links s.node) s.head (xs ++ [x]) d) (hright : Path (links s.node) d ys 0)
    (hfresh : new ∉ (xs ++ [x]) ++ ys) (hnew : new ≠ 0) (hhead : t.head = s.head)
    (hx : links t.node x = new) (hd : links t.node new = d)
    (hsame : forall a, a ≠ x -> a ≠ new -> links t.node a = links s.node a) :
    IsQueue t ((xs ++ [x]) ++ new :: ys) := by
  have hperm : ((xs ++ [x]) ++ new :: ys).Perm (new :: ((xs ++ [x]) ++ ys)) := List.perm_middle
  have hnodup := h.nodup
  rw [List.append_assoc, List.singleton_append, List.nodup_middle, List.nodup_cons] at hnodup
  rcases hnodup with ⟨hxout, _⟩
  constructor
  · rw [hhead]
    apply hleft.insert_of hright hx hd
    · intro a ha
      apply hsame a
      · exact fun heq => hxout (heq ▸ List.mem_append_left ys ha)
      · exact fun heq => hfresh (heq ▸ by simp [ha])
    · intro a ha
      apply hsame a
      · exact fun heq => hxout (heq ▸ List.mem_append_right xs ha)
      · exact fun heq => hfresh (heq ▸ by simp [ha])
  · exact hperm.nodup_iff.mpr (List.nodup_cons.mpr ⟨hfresh, h.nodup⟩)
  · intro hmem
    cases List.mem_cons.mp (hperm.mem_iff.mp hmem) with
    | inl heq => exact hnew heq.symm
    | inr hold => exact h.nonnull hold

theorem linkAfter_spec {xs ys : List Nat} {x d : Nat} (h : IsQueue s ((xs ++ [x]) ++ ys))
    (hleft : Path (links s.node) s.head (xs ++ [x]) d) (hright : Path (links s.node) d ys 0)
    (hfresh : new ∉ (xs ++ [x]) ++ ys) (hnew : new ≠ 0) :
    exists t, linkAfter s new (x, d) = some t ∧ IsQueue t ((xs ++ [x]) ++ new :: ys) ∧
      Relinked s t := by
  have hx : x ≠ 0 := fun heq => h.nonnull (heq ▸ by simp)
  have hxnew : x ≠ new := fun heq => hfresh (heq ▸ by simp)
  refine ⟨setNext (setNext s x new) new d, ?_, ?_, ?_⟩
  · unfold linkAfter
    exact if_neg hx
  · refine h.insert hleft hright hfresh hnew ?_ ?_ ?_ ?_
    · rfl
    · rw [links_setNext, if_neg hxnew, links_setNext, if_pos rfl]
    · rw [links_setNext, if_pos rfl]
    · intro a hax hanew
      rw [links_setNext, if_neg hanew, links_setNext, if_neg hax]
  · exact (relinked_setNext s x new).trans (relinked_setNext _ new d)

theorem insertBehind_spec {behind : Task -> Task -> Bool} {y : Nat} {zs : List Nat}
    {r : Nat -> Nat -> Prop} [DecidableRel r] (h : IsQueue s (y :: zs)) (hfresh : new ∉ y :: zs)
    (hnew : new ≠ 0) (hfuel : zs.length < fuel)
    (hr : forall a, passes behind s.node new a = true <-> ¬ r new a) :
    exists t, (insertLoop behind s.node new fuel s.head (links s.node s.head)).bind
        (linkAfter s new) = some t ∧
      IsQueue t (y :: zs.orderedInsert r new) ∧ Relinked s t := by
  rcases h.path with ⟨hhead, hrest⟩
  rw [← hhead] at hrest
  have hpasses : passes behind s.node new = fun a => decide (¬ r new a) := by
    funext a
    rw [Bool.eq_iff_iff, hr a, decide_eq_true_iff]
  rcases @insertLoop_spec new fuel behind s.node zs s.head (links s.node s.head) hrest
    (fun hmem => h.nonnull (List.mem_cons_of_mem y hmem)) hfuel with
    ⟨xs, x, d, hloop, hlast, hleft, hright⟩
  rw [hloop, Option.bind_some]
  rw [hhead] at hlast hleft
  have hsplit : y :: zs = (xs ++ [x]) ++ zs.dropWhile (passes behind s.node new) := by
    rw [← hlast, List.cons_append, List.takeWhile_append_dropWhile]
  have hpath : Path (links s.node) s.head (xs ++ [x]) d := by
    rw [← hlast]
    exact ⟨hhead, hleft⟩
  have hinsert : y :: zs.orderedInsert r new =
      (xs ++ [x]) ++ new :: zs.dropWhile (passes behind s.node new) := by
    rw [List.orderedInsert_eq_take_drop, ← hlast, List.cons_append, hpasses]
  rw [hinsert]
  rw [hsplit] at h hfresh
  exact linkAfter_spec h hpath hright hfresh hnew

theorem isQueue_first (hnew : new ≠ 0) (hnull : links s.node new = 0) :
    IsQueue { s with head := new } [new] ∧ Relinked s { s with head := new } := by
  refine ⟨⟨⟨rfl, hnull⟩, List.nodup_singleton new, ?_⟩, ⟨(Relinked.refl s).node, rfl, rfl, rfl, rfl⟩⟩
  intro hmem
  exact hnew (List.mem_singleton.mp hmem).symm

theorem IsQueue.push (h : IsQueue s addrs) (hfresh : new ∉ addrs) (hnew : new ≠ 0) :
    IsQueue { setNext s new s.head with head := new } (new :: addrs) ∧
      Relinked s { setNext s new s.head with head := new } := by
  have hlinked := relinked_setNext s new s.head
  refine ⟨⟨⟨rfl, ?_⟩, List.nodup_cons.mpr ⟨hfresh, h.nodup⟩, ?_⟩,
    ⟨hlinked.node, rfl, rfl, rfl, rfl⟩⟩
  · change Path (links (setNext s new s.head).node) (links (setNext s new s.head).node new) addrs 0
    rw [links_setNext, if_pos rfl]
    apply h.path.congr
    intro a ha
    have hne : a ≠ new := fun heq => hfresh (heq ▸ ha)
    rw [links_setNext, if_neg hne]
  · intro hmem
    cases List.mem_cons.mp hmem with
    | inl heq => exact hnew heq.symm
    | inr hold => exact h.nonnull hold

theorem IsQueue.head_eq_zero (h : IsQueue s []) : s.head = 0 :=
  h.path

theorem IsQueue.head_ne_zero {y : Nat} {zs : List Nat} (h : IsQueue s (y :: zs)) : s.head ≠ 0 := by
  intro heq
  rw [h.path.left] at heq
  exact h.nonnull (heq ▸ List.mem_cons_self)

section Policies

variable {r : Nat -> Nat -> Prop} [DecidableRel r]

theorem fcfs_spec (h : IsQueue s addrs) (hfresh : new ∉ addrs) (hnew : new ≠ 0)
    (hnull : links s.node new = 0) (hfuel : addrs.length < fuel) (hr : forall a, ¬ r new a) :
    exists t, fcfs fuel s new = some t ∧ IsQueue t (enqueue false r new addrs) ∧
      Relinked s t := by
  unfold fcfs
  cases addrs with
  | nil =>
      rw [if_pos h.head_eq_zero]
      exact ⟨_, rfl, isQueue_first hnew hnull⟩
  | cons y zs =>
      rw [if_neg h.head_ne_zero]
      have hhead := h.path.left
      have hpath := h.path
      rw [hhead] at hpath
      rcases fcfsLoop_spec hpath h.nonnull (Nat.lt_of_succ_lt hfuel) with ⟨xs, x, hloop, hlast⟩
      rw [hhead, hloop, Option.map_some]
      refine ⟨_, rfl, ?_, relinked_setNext s x new⟩
      have hinsert : enqueue false r new (y :: zs) = (xs ++ [x]) ++ [new] := by
        change (y :: zs).orderedInsert r new = _
        rw [orderedInsert_eq_append fun a _ => hr a, hlast]
      rw [hinsert]
      rw [hlast] at hpath hfresh h
      rw [← List.append_nil (xs ++ [x])] at hfresh h
      have hxnew : x ≠ new := fun heq => hfresh (heq ▸ by simp)
      refine h.insert (hhead ▸ hpath) rfl hfresh hnew ?_ ?_ ?_ ?_
      · rfl
      · rw [links_setNext, if_pos rfl]
      · rw [links_setNext, if_neg hxnew.symm, hnull]
      · intro a hax _
        rw [links_setNext, if_neg hax]

theorem insertNotPem_spec {behind : Task -> Task -> Bool} (h : IsQueue s addrs)
    (hfresh : new ∉ addrs) (hnew : new ≠ 0) (hnull : links s.node new = 0)
    (hfuel : addrs.length < fuel)
    (hr : forall a, passes behind s.node new a = true <-> ¬ r new a) :
    exists t, insertNotPem behind fuel s new = some t ∧
      IsQueue t (enqueue true r new addrs) ∧ Relinked s t := by
  unfold insertNotPem
  cases addrs with
  | nil =>
      rw [if_pos h.head_eq_zero]
      exact ⟨_, rfl, isQueue_first hnew hnull⟩
  | cons y zs =>
      rw [if_neg h.head_ne_zero]
      exact insertBehind_spec h hfresh hnew (Nat.lt_of_succ_lt hfuel) hr

theorem insertPem_spec {ahead behind : Task -> Task -> Bool} (h : IsQueue s addrs)
    (hfresh : new ∉ addrs) (hnew : new ≠ 0) (hnull : links s.node new = 0)
    (hfuel : addrs.length < fuel)
    (hahead : forall a, passes ahead s.node new a = true <-> r new a)
    (hr : forall a, passes behind s.node new a = true <-> ¬ r new a) :
    exists t, insertPem ahead behind fuel s new = some t ∧
      IsQueue t (enqueue false r new addrs) ∧ Relinked s t := by
  unfold insertPem
  cases addrs with
  | nil =>
      rw [if_pos h.head_eq_zero]
      exact ⟨_, rfl, isQueue_first hnew hnull⟩
  | cons y zs =>
      have hhead := h.path.left
      rw [if_neg h.head_ne_zero]
      change exists t, _ ∧ IsQueue t ((y :: zs).orderedInsert r new) ∧ _
      by_cases hbefore : r new y
      · have hcond : ahead (s.node new).task (s.node s.head).task = true := by
          rw [hhead]
          exact (hahead y).mpr hbefore
        rw [if_pos hcond, List.orderedInsert_cons_of_le r zs hbefore]
        exact ⟨_, rfl, h.push hfresh hnew⟩
      · have hcond : ¬ ahead (s.node new).task (s.node s.head).task = true := by
          rw [hhead]
          exact fun hpass => hbefore ((hahead y).mp hpass)
        rw [if_neg hcond, List.orderedInsert_of_not_le r zs hbefore]
        cases fuel with
        | zero => cases hfuel
        | succ fuel =>
            have hpass : passes behind s.node new s.head = true := by
              rw [hhead]
              exact (hr y).mpr hbefore
            rw [insertLoop_pass h.head_ne_zero hpass]
            exact insertBehind_spec h hfresh hnew (Nat.lt_of_succ_lt_succ hfuel) hr

end Policies

/-- Every policy puts the new node where its order says. -/
theorem insertNode_spec (policy : Policy) (h : IsQueue s addrs) (hfresh : new ∉ addrs)
    (hnew : new ≠ 0) (hnull : links s.node new = 0) (hfuel : addrs.length < fuel) :
    exists t, insertNode policy fuel s new = some t ∧
      IsQueue t (enqueue policy.keepsHead (NodePrecedes policy s) new addrs) ∧
      Relinked s t := by
  cases policy with
  | fcfs => exact fcfs_spec h hfresh hnew hnull hfuel fun _ hfalse => hfalse
  | sjfPem =>
      unfold insertNode sjfPem
      apply insertPem_spec h hfresh hnew hnull hfuel
      · intro a
        exact decide_eq_true_iff
      · intro a
        exact decide_eq_true_iff.trans not_lt.symm
  | sjfNotPem =>
      unfold insertNode sjfNotPem
      apply insertNotPem_spec h hfresh hnew hnull hfuel
      intro a
      exact decide_eq_true_iff.trans not_lt.symm
  | priorityPem =>
      unfold insertNode priorityPem
      apply insertPem_spec h hfresh hnew hnull hfuel
      · intro a
        exact decide_eq_true_iff
      · intro a
        exact decide_eq_true_iff.trans not_lt.symm
  | priorityNotPem =>
      unfold insertNode priorityNotPem
      apply insertNotPem_spec h hfresh hnew hnull hfuel
      intro a
      exact decide_eq_true_iff.trans not_lt.symm

end Scheduler
end OsLabs
