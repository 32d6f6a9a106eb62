import Mathlib.Data.List.Rotate
import OsLabs.Paging.SecondChance

/-!
# The clock is the queue

The nodes read from the clock pointer on are the queue of the policy: moving the
pointer on by one node moves the front of the queue to its back.
-/

namespace OsLabs
namespace Paging

open PageQueue

/-!
# Reading the ring
-/

def ringFrom (n c : Nat) : List Nat := (List.range n).rotate c

section Ring

variable {n c x : Nat}

theorem ringFrom_perm (n c : Nat) : (ringFrom n c).Perm (List.range n) := List.rotate_perm _ _

theorem ringFrom_nodup (n c : Nat) : (ringFrom n c).Nodup :=
  List.nodup_rotate.mpr List.nodup_range

theorem mem_ringFrom : x ∈ ringFrom n c <-> x < n := by
  rw [(ringFrom_perm n c).mem_iff, List.mem_range]

theorem ringFrom_length (n c : Nat) : (ringFrom n c).length = n := by
  rw [(ringFrom_perm n c).length_eq, List.length_range]

theorem ringFrom_head (hc : c < n) : exists rest, ringFrom n c = c :: rest := by
  have hhead : (ringFrom n c).head? = some c := by
    unfold ringFrom
    rw [List.head?_rotate (by rw [List.length_range]; exact hc), List.getElem?_range hc]
  exact ⟨(ringFrom n c).tail, List.eq_cons_of_mem_head? hhead⟩

theorem ringFrom_next {rest : List Nat} (h : ringFrom n c = x :: rest) :
    ringFrom n ((c + 1) % n) = rest ++ [x] := by
  have hmod : ringFrom n ((c + 1) % n) = (ringFrom n c).rotate 1 := by
    unfold ringFrom
    have hrotate := List.rotate_mod (List.range n) (c + 1)
    rw [List.length_range] at hrotate
    rw [hrotate, List.rotate_rotate]
  rw [hmod, h, List.rotate_cons_succ, List.rotate_zero]

end Ring

/-!
# The nodes
-/

theorem modifyQueueNode_nodes (queue : PageQueue) (a b : Nat)
    (f : PageNodeSecondChance -> PageNodeSecondChance) :
    (queue.modifyNode a f).nodes b = if b = a then f (queue.nodes a) else queue.nodes b :=
  Function.update_apply queue.nodes a (f (queue.nodes a)) b

/-- The nodes are a ring in the order of the frames. -/
structure Clocked (n : Nat) (queue : PageQueue) (c : Nat) : Prop where
  clock_lt : c < n
  head : queue.head = some 0
  clock : queue.clockPointer = some c
  next : forall x, x < n -> (queue.nodes x).next = some ((x + 1) % n)
  index : forall x, x < n -> (queue.nodes x).pageIndex = x

def chanceOf (node : PageNodeSecondChance) : Chance :=
  Chance.mk node.pageNum (decide (node.referenceBit ≠ 0))

def readQueue (n : Nat) (queue : PageQueue) (c : Nat) : List Chance :=
  (ringFrom n c).map fun x => chanceOf (queue.nodes x)

section Nodes

variable {n c : Nat} {queue : PageQueue}

theorem Clocked.modifyNode (h : Clocked n queue c) (a : Nat)
    {f : PageNodeSecondChance -> PageNodeSecondChance}
    (hnext : (f (queue.nodes a)).next = (queue.nodes a).next)
    (hindex : (f (queue.nodes a)).pageIndex = (queue.nodes a).pageIndex) :
    Clocked n (queue.modifyNode a f) c where
  clock_lt := h.clock_lt
  head := h.head
  clock := h.clock
  next := by
    intro x hx
    rw [modifyQueueNode_nodes]
    split
    · rename_i heq
      rw [hnext, ← heq]
      exact h.next x hx
    · exact h.next x hx
  index := by
    intro x hx
    rw [modifyQueueNode_nodes]
    split
    · rename_i heq
      rw [hindex, ← heq]
      exact h.index x hx
    · exact h.index x hx

theorem Clocked.setReferenceBit (h : Clocked n queue c) (a : Nat) (bit : Int) :
    Clocked n (queue.setReferenceBit a bit) c :=
  h.modifyNode a rfl rfl

theorem Clocked.setPageNum (h : Clocked n queue c) (a : Nat) (pageNum : Int) :
    Clocked n (queue.setPageNum a pageNum) c :=
  h.modifyNode a rfl rfl

theorem Clocked.advance (h : Clocked n queue c) :
    Clocked n (queue.setClockPointer (queue.nodes c).next) ((c + 1) % n) where
  clock_lt := Nat.mod_lt _ (Nat.zero_lt_of_lt h.clock_lt)
  head := h.head
  clock := h.next c h.clock_lt
  next := h.next
  index := h.index

/-!
# The search for a page
-/

theorem searchLoop_spec (h : Clocked n queue c) (page : Int) {k j : Nat} (hjk : j + k = n) :
    (exists x, x < n ∧ (queue.nodes x).pageNum = page ∧
      searchLoop page k queue (j % n) = some (queue.setReferenceBit x 1, x)) ∨
    ((forall x, j ≤ x -> x < n -> (queue.nodes x).pageNum ≠ page) ∧
      searchLoop page k queue (j % n) = some (queue, 0)) := by
  induction k generalizing j with
  | zero =>
      refine Or.inr ⟨?_, ?_⟩
      · intro x hlo hhi
        lia
      · rw [Nat.add_zero] at hjk
        rw [hjk, Nat.mod_self]
        rfl
  | succ k ih =>
      have hj : j < n := by lia
      rw [Nat.mod_eq_of_lt hj]
      unfold searchLoop
      by_cases hfound : (queue.nodes j).pageNum = page
      · rw [if_pos hfound]
        exact Or.inl ⟨j, hj, hfound, rfl⟩
      · rw [if_neg hfound, h.next j hj]
        cases ih (show j + 1 + k = n by lia) with
        | inl hhit => exact Or.inl hhit
        | inr hmiss =>
            refine Or.inr ⟨?_, hmiss.right⟩
            intro x hlo hhi
            by_cases heq : x = j
            · rw [heq]
              exact hfound
            · exact hmiss.left x (by lia) hhi

/-!
# The search for a victim
-/

def clearBits (queue : PageQueue) (l : List Nat) : PageQueue :=
  l.foldl (fun queue a => queue.setReferenceBit a 0) queue

theorem clearBits_nodes (queue : PageQueue) (l : List Nat) (x : Nat) :
    (clearBits queue l).nodes x =
      if x ∈ l then { queue.nodes x with referenceBit := 0 } else queue.nodes x := by
  induction l generalizing queue with
  | nil => rfl
  | cons a l ih =>
      change (clearBits (queue.setReferenceBit a 0) l).nodes x = _
      rw [ih]
      unfold PageQueue.setReferenceBit
      rw [modifyQueueNode_nodes]
      by_cases hxa : x = a
      · subst hxa
        simp
      · by_cases hxl : x ∈ l
        · simp [hxa, hxl]
        · simp [hxa, hxl]

theorem clearBits_setClockPointer (queue : PageQueue) (l : List Nat) (ptr : Option Nat) :
    clearBits (queue.setClockPointer ptr) l = (clearBits queue l).setClockPointer ptr := by
  induction l generalizing queue with
  | nil => rfl
  | cons a l ih => exact ih (queue.setReferenceBit a 0)

theorem clockLoop_set (h : Clocked n queue c) (fuel : Nat)
    (hbit : (queue.nodes c).referenceBit ≠ 0) :
    clockLoop (fuel + 1) queue = clockLoop fuel ((queue.setReferenceBit c 0).setClockPointer
      ((queue.setReferenceBit c 0).nodes c).next) := by
  conv_lhs => unfold clockLoop
  simp only [h.clock]
  rw [if_pos hbit]

theorem clockLoop_stop (h : Clocked n queue c) (fuel : Nat)
    (hbit : (queue.nodes c).referenceBit = 0) : clockLoop (fuel + 1) queue = some queue := by
  unfold clockLoop
  simp only [h.clock]
  rw [if_neg (not_not_intro hbit)]

theorem clockLoop_skip (h : Clocked n queue c) {xs ys : List Nat} (fuel : Nat)
    (hring : ringFrom n c = xs ++ ys)
    (hbits : forall x, x ∈ xs -> (queue.nodes x).referenceBit ≠ 0) :
    exists c', ringFrom n c' = ys ++ xs ∧
      clockLoop (xs.length + fuel) queue =
        clockLoop fuel ((clearBits queue xs).setClockPointer (some c')) ∧
      Clocked n ((clearBits queue xs).setClockPointer (some c')) c' := by
  induction xs generalizing queue c ys with
  | nil =>
      have hsame : queue.setClockPointer (some c) = queue := by
        unfold PageQueue.setClockPointer
        rw [← h.clock]
      refine ⟨c, ?_, ?_, ?_⟩
      · rw [hring, List.nil_append, List.append_nil]
      · rw [List.length_nil, Nat.zero_add]
        exact congrArg (clockLoop fuel) hsame.symm
      · exact hsame.symm ▸ h
  | cons a xs ih =>
      have hfirst : a = c := by
        rcases ringFrom_head h.clock_lt with ⟨rest, hhead⟩
        rw [hhead] at hring
        exact (List.cons.inj hring).left.symm
      subst hfirst
      rw [List.cons_append] at hring
      have hnodup := ringFrom_nodup n a
      rw [hring, List.nodup_cons] at hnodup
      have hnext := (h.setReferenceBit a 0).advance
      have hring' : ringFrom n ((a + 1) % n) = xs ++ (ys ++ [a]) := by
        rw [ringFrom_next hring, List.append_assoc]
      have hbits' : forall x, x ∈ xs ->
          (((queue.setReferenceBit a 0).setClockPointer
            ((queue.setReferenceBit a 0).nodes a).next).nodes x).referenceBit ≠ 0 := by
        intro x hx
        have hne : x ≠ a := by
          intro heq
          rw [heq] at hx
          exact hnodup.left (List.mem_append_left ys hx)
        change ((queue.setReferenceBit a 0).nodes x).referenceBit ≠ 0
        unfold PageQueue.setReferenceBit
        rw [modifyQueueNode_nodes, if_neg hne]
        exact hbits x (List.mem_cons_of_mem a hx)
      rcases ih hnext hring' hbits' with ⟨c', hc', hloop, hclocked⟩
      have hclear : (clearBits ((queue.setReferenceBit a 0).setClockPointer
          ((queue.setReferenceBit a 0).nodes a).next) xs).setClockPointer (some c') =
          (clearBits queue (a :: xs)).setClockPointer (some c') := by
        rw [clearBits_setClockPointer]
        rfl
      rw [hclear] at hloop hclocked
      refine ⟨c', ?_, ?_, hclocked⟩
      · rw [hc', List.append_assoc, List.singleton_append]
      · rw [List.length_cons, Nat.add_right_comm, clockLoop_set h _ (hbits a List.mem_cons_self)]
        exact hloop

/-- What the clock has done when it stops at `v`: the nodes `passed` have lost their
bits, and `rest` are the other nodes behind `v`. -/
structure Stopped (n : Nat) (queue : PageQueue) (c : Nat) (stopped : PageQueue) (v : Nat)
    (passed rest : List Nat) : Prop where
  run : forall fuel, clockLoop (passed.length + (fuel + 1)) queue = some stopped
  clocked : Clocked n stopped v
  ring : ringFrom n v = v :: rest
  nodes : forall x, stopped.nodes x =
    if x ∈ passed then { queue.nodes x with referenceBit := 0 } else queue.nodes x
  few : passed.length ≤ n
  evicts : Evicts (readQueue n queue c) (chanceOf (stopped.nodes v))
    (rest.map fun x => chanceOf (stopped.nodes x))
  allSet : (forall x, x < n -> (queue.nodes x).referenceBit ≠ 0) ->
    v = c ∧ forall x, x < n -> x ∈ passed

/-- Clearing the bits of the nodes that were passed moves them behind the others. -/
theorem cleared_chances {queue' : PageQueue} {xs ys : List Nat} (hnodup : (xs ++ ys).Nodup)
    (hnodes : forall x, queue'.nodes x =
      if x ∈ xs then { queue.nodes x with referenceBit := 0 } else queue.nodes x) :
    (ys.map fun x => chanceOf (queue.nodes x)) ++
        ((xs.map fun x => chanceOf (queue.nodes x)).map fun e => Chance.mk e.page false) =
      (ys ++ xs).map fun x => chanceOf (queue'.nodes x) := by
  rw [List.map_append, List.map_map]
  congr 1
  · apply List.map_congr_left
    intro x hx
    rw [hnodes, if_neg]
    intro hbad
    exact (List.nodup_append.mp hnodup).right.right x hbad x hx rfl
  · apply List.map_congr_left
    intro x hx
    rw [hnodes, if_pos hx]
    rfl

theorem nothing_behind {xs ys : List Nat} (hring : ringFrom n c = xs ++ ys)
    (hstop : ys = [] ∨ exists v zs, ys = v :: zs ∧ (queue.nodes v).referenceBit = 0)
    (hall : forall x, x < n -> (queue.nodes x).referenceBit ≠ 0) : ys = [] := by
  cases hstop with
  | inl hnil => exact hnil
  | inr hcons =>
      rcases hcons with ⟨w, zs, hys, hw⟩
      have hmem : w ∈ ringFrom n c := by
        rw [hring, hys]
        exact List.mem_append_right _ List.mem_cons_self
      exact absurd hw (hall w (mem_ringFrom.mp hmem))

theorem stopped_of_split (h : Clocked n queue c) {xs ys : List Nat}
    (hring : ringFrom n c = xs ++ ys)
    (hbits : forall x, x ∈ xs -> (queue.nodes x).referenceBit ≠ 0)
    (hstop : ys = [] ∨ exists v zs, ys = v :: zs ∧ (queue.nodes v).referenceBit = 0) :
    exists stopped v rest, Stopped n queue c stopped v xs rest := by
  rcases clockLoop_skip h 0 hring hbits with ⟨v, hv, _, hclocked⟩
  rcases ringFrom_head hclocked.clock_lt with ⟨rest, hrest⟩
  have hnodes : forall x, ((clearBits queue xs).setClockPointer (some v)).nodes x =
      if x ∈ xs then { queue.nodes x with referenceBit := 0 } else queue.nodes x :=
    clearBits_nodes queue xs
  have hzero : (((clearBits queue xs).setClockPointer (some v)).nodes v).referenceBit = 0 := by
    rw [hnodes]
    split
    · rfl
    · rename_i hout
      cases hstop with
      | inl hnil =>
          rw [hnil, List.nil_append] at hv
          rw [← hv, hrest] at hout
          exact absurd List.mem_cons_self hout
      | inr hcons =>
          rcases hcons with ⟨w, zs, hys, hw⟩
          rw [hrest, hys, List.cons_append] at hv
          rw [(List.cons.inj hv).left]
          exact hw
  refine ⟨_, v, rest, ?_, hclocked, hrest, hnodes, ?_, ?_, ?_⟩
  · intro fuel
    rcases clockLoop_skip h (fuel + 1) hring hbits with ⟨w, hw, hloop, hclocked'⟩
    have hsame : w = v := by
      rcases ringFrom_head hclocked'.clock_lt with ⟨rest', hrest'⟩
      rw [hrest', ← hv, hrest] at hw
      exact (List.cons.inj hw).left
    rw [hloop, hsame]
    exact clockLoop_stop hclocked fuel hzero
  · have hlen := congrArg List.length hring
    rw [ringFrom_length, List.length_append] at hlen
    lia
  · have hread : readQueue n queue c = (xs.map fun x => chanceOf (queue.nodes x)) ++
        ys.map fun x => chanceOf (queue.nodes x) := by
      unfold readQueue
      rw [hring, List.map_append]
    have hnodup := ringFrom_nodup n c
    rw [hring] at hnodup
    have hcleared := cleared_chances hnodup hnodes
    rw [← hv, hrest] at hcleared
    rw [hread]
    apply Evicts.skip
    · intro e he
      rcases List.mem_map.mp he with ⟨x, hx, hex⟩
      rw [← hex]
      exact decide_eq_true (hbits x hx)
    · rw [hcleared, List.map_cons]
      apply Evicts.front
      unfold chanceOf
      rw [hzero]
      rfl
  · intro hall
    have hnil := nothing_behind hring hstop hall
    rw [hnil, List.append_nil] at hring
    constructor
    · rcases ringFrom_head h.clock_lt with ⟨rest', hrest'⟩
      rw [hnil, List.nil_append, ← hring, hrest, hrest'] at hv
      exact (List.cons.inj hv).left
    · intro x hx
      rw [← hring]
      exact mem_ringFrom.mpr hx

/-- The search for a victim ends after at most one turn. -/
theorem clockLoop_spec (h : Clocked n queue c) :
    exists stopped v passed rest, Stopped n queue c stopped v passed rest := by
  cases hfind : (ringFrom n c).find? fun x => decide ((queue.nodes x).referenceBit = 0) with
  | none =>
      have hbits : forall x, x ∈ ringFrom n c -> (queue.nodes x).referenceBit ≠ 0 := by
        intro x hx
        simpa using List.find?_eq_none.mp hfind x hx
      rcases stopped_of_split h (List.append_nil _).symm hbits (Or.inl rfl) with
        ⟨stopped, v, rest, hstopped⟩
      exact ⟨stopped, v, _, rest, hstopped⟩
  | some w =>
      rcases List.find?_eq_some_iff_append.mp hfind with ⟨hzero, xs, ys, hring, hbefore⟩
      have hbits : forall x, x ∈ xs -> (queue.nodes x).referenceBit ≠ 0 := by
        intro x hx
        simpa using hbefore x hx
      rcases stopped_of_split h hring hbits (Or.inr ⟨w, ys, rfl, of_decide_eq_true hzero⟩) with
        ⟨stopped, v, rest, hstopped⟩
      exact ⟨stopped, v, xs, rest, hstopped⟩

end Nodes

/-!
# One reference
-/

structure QueueRep (n : Nat) (s : SecondChanceState) (c : Nat) (q : List Chance) : Prop where
  clocked : Clocked n s.queue c
  queue_eq : q = readQueue n s.queue c
  mirror : forall x, x < n -> s.pageFrame x = (s.queue.nodes x).pageNum
  distinct : forall x y, x < n -> y < n ->
    (s.queue.nodes x).pageNum = (s.queue.nodes y).pageNum ->
    (s.queue.nodes x).pageNum ≠ -1 -> x = y

section Refer

variable {n c : Nat} {s : SecondChanceState} {q : List Chance} {page : Int}

theorem QueueRep.mem_pages_iff (h : QueueRep n s c q) :
    page ∈ q.map Chance.page <-> exists x, x < n ∧ (s.queue.nodes x).pageNum = page := by
  rw [h.queue_eq]
  unfold readQueue
  rw [List.map_map, List.mem_map]
  constructor
  · rintro ⟨x, hx, hpage⟩
    exact ⟨x, mem_ringFrom.mp hx, hpage⟩
  · rintro ⟨x, hx, hpage⟩
    exact ⟨x, mem_ringFrom.mpr hx, hpage⟩

theorem QueueRep.hit (h : QueueRep n s c q) (hne : page ≠ -1) {x : Nat} (hx : x < n)
    (hpage : (s.queue.nodes x).pageNum = page) :
    QueueRep n { s with queue := s.queue.setReferenceBit x 1 } c (q.map (setBit page)) := by
  have hnodes : forall y, (s.queue.setReferenceBit x 1).nodes y =
      if y = x then { s.queue.nodes x with referenceBit := 1 } else s.queue.nodes y :=
    fun y => modifyQueueNode_nodes s.queue x y _
  have hnum : forall y, ((s.queue.setReferenceBit x 1).nodes y).pageNum =
      (s.queue.nodes y).pageNum := by
    intro y
    rw [hnodes]
    split
    · rename_i heq
      rw [heq]
    · rfl
  refine ⟨h.clocked.setReferenceBit x 1, ?_, ?_, ?_⟩
  · rw [h.queue_eq]
    unfold readQueue
    rw [List.map_map]
    apply List.map_congr_left
    intro y hy
    have hiff : (s.queue.nodes y).pageNum = page <-> y = x := by
      constructor
      · intro heq
        exact h.distinct y x (mem_ringFrom.mp hy) hx (heq.trans hpage.symm) (heq ▸ hne)
      · intro heq
        rw [heq]
        exact hpage
    change setBit page (chanceOf (s.queue.nodes y)) =
      chanceOf ((s.queue.setReferenceBit x 1).nodes y)
    rw [hnodes]
    unfold setBit chanceOf
    by_cases heq : y = x
    · rw [if_pos (hiff.mpr heq), if_pos heq]
      simp only [hpage]
      rfl
    · rw [if_neg (fun hbad => heq (hiff.mp hbad)), if_neg heq]
  · intro y hy
    rw [hnum]
    exact h.mirror y hy
  · intro y z hy hz
    simp only [hnum]
    exact h.distinct y z hy hz

theorem QueueRep.replace (h : QueueRep n s c q) {stopped : PageQueue} {v : Nat}
    {passed rest : List Nat} (hstop : Stopped n s.queue c stopped v passed rest)
    (habsent : forall x, x < n -> (s.queue.nodes x).pageNum ≠ page) :
    exists t, replaceVictim { s with queue := stopped } page = some t ∧
      QueueRep n t ((v + 1) % n)
        ((rest.map fun x => chanceOf (stopped.nodes x)) ++ [Chance.mk page true]) ∧
      forall x, t.queue.nodes x =
        if x = v then { stopped.nodes v with pageNum := page, referenceBit := 1 }
        else stopped.nodes x := by
  have hv := hstop.clocked.clock_lt
  have hnum : forall x, (stopped.nodes x).pageNum = (s.queue.nodes x).pageNum := by
    intro x
    rw [hstop.nodes]
    split
    · rfl
    · rfl
  have hnodes : forall x, ((stopped.setPageNum v page).setReferenceBit v 1).nodes x =
      if x = v then { stopped.nodes v with pageNum := page, referenceBit := 1 }
      else stopped.nodes x := by
    intro x
    unfold PageQueue.setReferenceBit PageQueue.setPageNum
    rw [modifyQueueNode_nodes]
    by_cases hxv : x = v
    · rw [if_pos hxv, if_pos hxv, modifyQueueNode_nodes, if_pos rfl]
    · rw [if_neg hxv, if_neg hxv, modifyQueueNode_nodes, if_neg hxv]
  have hclocked := ((hstop.clocked.setPageNum v page).setReferenceBit v 1).advance
  have hnodup := ringFrom_nodup n v
  rw [hstop.ring, List.nodup_cons] at hnodup
  refine ⟨SecondChanceState.mk (Function.update s.pageFrame (stopped.nodes v).pageIndex page)
    (((stopped.setPageNum v page).setReferenceBit v 1).setClockPointer
      (((stopped.setPageNum v page).setReferenceBit v 1).nodes v).next),
    ?_, ⟨hclocked, ?_, ?_, ?_⟩, hnodes⟩
  · unfold replaceVictim
    simp only [hstop.clocked.clock]
  · unfold readQueue
    rw [ringFrom_next hstop.ring, List.map_append, List.map_singleton]
    congr 1
    · apply List.map_congr_left
      intro x hx
      have hne : x ≠ v := by
        intro heq
        rw [heq] at hx
        exact hnodup.left hx
      change _ = chanceOf (((stopped.setPageNum v page).setReferenceBit v 1).nodes x)
      rw [hnodes, if_neg hne]
    · change _ = [chanceOf (((stopped.setPageNum v page).setReferenceBit v 1).nodes v)]
      rw [hnodes, if_pos rfl]
      rfl
  · intro x hx
    change Function.update s.pageFrame (stopped.nodes v).pageIndex page x =
      (((stopped.setPageNum v page).setReferenceBit v 1).nodes x).pageNum
    rw [hstop.clocked.index v hv, hnodes]
    by_cases hxv : x = v
    · rw [if_pos hxv, hxv, Function.update_self]
    · rw [if_neg hxv, Function.update_of_ne hxv, hnum]
      exact h.mirror x hx
  · intro x y hx hy
    change (((stopped.setPageNum v page).setReferenceBit v 1).nodes x).pageNum =
      (((stopped.setPageNum v page).setReferenceBit v 1).nodes y).pageNum ->
      (((stopped.setPageNum v page).setReferenceBit v 1).nodes x).pageNum ≠ -1 -> x = y
    rw [hnodes, hnodes]
    by_cases hxv : x = v
    · by_cases hyv : y = v
      · intro _ _
        rw [hxv, hyv]
      · rw [if_pos hxv, if_neg hyv, hnum]
        intro heq _
        exact absurd heq.symm (habsent y hy)
    · by_cases hyv : y = v
      · rw [if_neg hxv, if_pos hyv, hnum]
        intro heq _
        exact absurd heq (habsent x hx)
      · rw [if_neg hxv, if_neg hyv, hnum, hnum]
        exact h.distinct x y hx hy

theorem QueueRep.fault (h : QueueRep n s c q)
    (habsent : forall x, x < n -> (s.queue.nodes x).pageNum ≠ page) :
    exists stopped v passed rest t, Stopped n s.queue c stopped v passed rest ∧
      secondChanceRefer n s page = some (true, t) ∧
      QueueRep n t ((v + 1) % n)
        ((rest.map fun x => chanceOf (stopped.nodes x)) ++ [Chance.mk page true]) ∧
      forall x, t.queue.nodes x =
        if x = v then { stopped.nodes v with pageNum := page, referenceBit := 1 }
        else stopped.nodes x := by
  rcases clockLoop_spec h.clocked with ⟨stopped, v, passed, rest, hstop⟩
  rcases h.replace hstop habsent with ⟨t, hreplace, ht, hnodes⟩
  refine ⟨stopped, v, passed, rest, t, hstop, ?_, ht, hnodes⟩
  have hn := Nat.zero_lt_of_lt h.clocked.clock_lt
  have hsearch : searchLoop page n s.queue 0 = some (s.queue, 0) := by
    have hspec := searchLoop_spec h.clocked page (Nat.zero_add n)
    rw [Nat.zero_mod] at hspec
    cases hspec with
    | inl hhit =>
        rcases hhit with ⟨x, hx, hpage, _⟩
        exact absurd hpage (habsent x hx)
    | inr hmiss => exact hmiss.right
  have hrun := hstop.run (n - passed.length)
  have hfew := hstop.few
  rw [show passed.length + (n - passed.length + 1) = n + 1 by lia] at hrun
  unfold secondChanceRefer
  simp only [h.clocked.head, hsearch]
  rw [if_neg (habsent 0 hn)]
  simp only [hrun, hreplace]

/-- One reference is a step of the policy. -/
theorem QueueRep.refer (h : QueueRep n s c q) (hpage : 0 ≤ page) :
    exists fault t d r, secondChanceRefer n s page = some (fault, t) ∧
      PolicyStep q page fault r ∧ QueueRep n t d r := by
  have hne : page ≠ -1 := by lia
  have hspec := searchLoop_spec h.clocked page (Nat.zero_add n)
  rw [Nat.zero_mod] at hspec
  cases hspec with
  | inl hhit =>
      rcases hhit with ⟨x, hx, hnum, hsearch⟩
      have hstay : ((s.queue.setReferenceBit x 1).nodes x).pageNum = page := by
        unfold PageQueue.setReferenceBit
        rw [modifyQueueNode_nodes, if_pos rfl]
        exact hnum
      refine ⟨false, { s with queue := s.queue.setReferenceBit x 1 }, c, _, ?_,
        PolicyStep.hit (h.mem_pages_iff.mpr ⟨x, hx, hnum⟩), h.hit hne hx hnum⟩
      unfold secondChanceRefer
      simp only [h.clocked.head, hsearch]
      rw [if_pos hstay]
  | inr hmiss =>
      have habsent : forall x, x < n -> (s.queue.nodes x).pageNum ≠ page :=
        fun x hx => hmiss.left x (Nat.zero_le x) hx
      rcases h.fault habsent with ⟨stopped, v, passed, rest, t, hstop, hrun, ht, _⟩
      have hmem : page ∉ q.map Chance.page := by
        intro hmem
        rcases h.mem_pages_iff.mp hmem with ⟨x, hx, hnum⟩
        exact habsent x hx hnum
      have hevicts := hstop.evicts
      rw [← h.queue_eq] at hevicts
      exact ⟨true, t, _, _, hrun, PolicyStep.fault hmem hevicts, ht⟩

end Refer

end Paging
end OsLabs
