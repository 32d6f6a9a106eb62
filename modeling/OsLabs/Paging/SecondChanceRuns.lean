import OsLabs.Paging.SecondChanceRefinement

/-!
# Runs of the second chance algorithm

From the initial ring on, every reference is a step of the policy, so that a whole
run is a run of the policy.
-/

namespace OsLabs
namespace Paging

open PageQueue

/-!
# The initial ring
-/

structure PartialRing (m : Nat) (queue : PageQueue) : Prop where
  head : queue.head = some 0
  next : forall x, x + 1 < m -> (queue.nodes x).next = some (x + 1)
  index : forall x, x < m -> (queue.nodes x).pageIndex = x
  fresh : forall x, x < m -> (queue.nodes x).pageNum = -1 ∧ (queue.nodes x).referenceBit = 0

theorem PartialRing.push {m : Nat} {queue : PageQueue} (h : PartialRing (m + 1) queue) :
    PartialRing (m + 1 + 1) ((queue.modifyNode (m + 1) fun _ =>
      creatPageNodeSecondChance (-1) (m + 1)).setNext m (some (m + 1))) := by
  have hnodes : forall x, ((queue.modifyNode (m + 1) fun _ =>
      creatPageNodeSecondChance (-1) (m + 1)).setNext m (some (m + 1))).nodes x =
      if x = m then { queue.nodes m with next := some (m + 1) }
      else if x = m + 1 then creatPageNodeSecondChance (-1) (m + 1) else queue.nodes x := by
    intro x
    unfold PageQueue.setNext
    rw [modifyQueueNode_nodes, modifyQueueNode_nodes, modifyQueueNode_nodes,
      if_neg (show m ≠ m + 1 by lia)]
  refine ⟨h.head, ?_, ?_, ?_⟩
  · intro x hx
    rw [hnodes]
    by_cases hxm : x = m
    · rw [if_pos hxm, hxm]
    · rw [if_neg hxm, if_neg (by lia)]
      exact h.next x (by lia)
  · intro x hx
    rw [hnodes]
    by_cases hxm : x = m
    · rw [if_pos hxm, hxm]
      exact h.index m (by lia)
    · rw [if_neg hxm]
      split
      · rename_i heq
        exact heq.symm
      · exact h.index x (by lia)
  · intro x hx
    rw [hnodes]
    by_cases hxm : x = m
    · rw [if_pos hxm]
      exact h.fresh m (by lia)
    · rw [if_neg hxm]
      split
      · exact ⟨rfl, rfl⟩
      · exact h.fresh x (by lia)

theorem initPageQueueLoop_spec {k m : Nat} {queue : PageQueue} (h : PartialRing (m + 1) queue) :
    Clocked (m + 1 + k) (initPageQueueLoop k (m + 1) m queue) 0 ∧
      forall x, x < m + 1 + k ->
        ((initPageQueueLoop k (m + 1) m queue).nodes x).pageNum = -1 ∧
          ((initPageQueueLoop k (m + 1) m queue).nodes x).referenceBit = 0 := by
  induction k generalizing m queue with
  | zero =>
      have hnodes : forall x, (initPageQueueLoop 0 (m + 1) m queue).nodes x =
          if x = m then { queue.nodes m with next := queue.head } else queue.nodes x :=
        fun x => modifyQueueNode_nodes queue m x fun node => { node with next := queue.head }
      refine ⟨⟨by lia, h.head, h.head, ?_, ?_⟩, ?_⟩
      · intro x hx
        rw [hnodes]
        by_cases hxm : x = m
        · rw [if_pos hxm, hxm, Nat.add_zero, Nat.mod_self]
          exact h.head
        · rw [if_neg hxm, Nat.mod_eq_of_lt (by lia)]
          exact h.next x (by lia)
      · intro x hx
        rw [hnodes]
        split
        · rename_i heq
          rw [heq]
          exact h.index m (by lia)
        · exact h.index x hx
      · intro x hx
        rw [hnodes]
        split
        · exact h.fresh m (by lia)
        · exact h.fresh x hx
  | succ k ih =>
      have hrest := ih h.push
      rw [show m + 1 + 1 + k = m + 1 + (k + 1) by lia] at hrest
      exact hrest

theorem initPageQueue_spec {n : Nat} (hn : 1 ≤ n) :
    Clocked n (initPageQueue n) 0 ∧ forall x, x < n ->
      ((initPageQueue n).nodes x).pageNum = -1 ∧
        ((initPageQueue n).nodes x).referenceBit = 0 := by
  have hfirst : PartialRing (0 + 1)
      (PageQueue.mk (fun _ => creatPageNodeSecondChance (-1) 0) (some 0) none) := by
    refine ⟨rfl, ?_, ?_, ?_⟩
    · intro x hx
      lia
    · intro x hx
      change 0 = x
      lia
    · intro x _
      exact ⟨rfl, rfl⟩
  have hspec := @initPageQueueLoop_spec (n - 1) 0 _ hfirst
  rw [show 0 + 1 + (n - 1) = n by lia] at hspec
  exact hspec

theorem initialSecondChance_rep {n : Nat} (hn : 1 ≤ n) :
    QueueRep n (initialSecondChance n) 0 (emptyQueue n) := by
  rcases initPageQueue_spec hn with ⟨hclocked, hfresh⟩
  refine ⟨hclocked, ?_, ?_, ?_⟩
  · unfold emptyQueue readQueue
    symm
    rw [List.eq_replicate_iff, List.length_map, ringFrom_length]
    refine ⟨rfl, ?_⟩
    intro e he
    rcases List.mem_map.mp he with ⟨x, hx, hex⟩
    rcases hfresh x (mem_ringFrom.mp hx) with ⟨hnum, hbit⟩
    rw [← hex]
    change chanceOf ((initPageQueue n).nodes x) = _
    unfold chanceOf
    rw [hnum, hbit]
    rfl
  · intro x hx
    exact (hfresh x hx).left.symm
  · intro x y hx _ _ hne
    exact absurd (hfresh x hx).left hne

/-!
# Empty frames
-/

def EmptyFirst (q : List Chance) : Prop :=
  exists k used, q = List.replicate k (Chance.mk (-1) false) ++ used ∧
    forall e, e ∈ used -> e.page ≠ -1

theorem Evicts.page_mem {q rest : List Chance} {v e : Chance} (h : Evicts q v rest)
    (he : e ∈ rest) : exists d, d ∈ q ∧ d.page = e.page := by
  induction h with
  | front _ => exact ⟨e, List.mem_cons_of_mem _ he, rfl⟩
  | @again c v q rest hbit _ ih =>
      rcases ih he with ⟨d, hd, hpage⟩
      cases List.mem_append.mp hd with
      | inl hmem => exact ⟨d, List.mem_cons_of_mem _ hmem, hpage⟩
      | inr hlast =>
          rw [List.mem_singleton.mp hlast] at hpage
          exact ⟨c, List.mem_cons_self, hpage⟩

theorem PolicyStep.emptyFirst {q r : List Chance} {page : Int} {fault : Bool}
    (h : PolicyStep q page fault r) (hpage : page ≠ -1) (hq : EmptyFirst q) : EmptyFirst r := by
  rcases hq with ⟨k, used, hsplit, hused⟩
  cases h with
  | hit _ =>
      refine ⟨k, used.map (setBit page), ?_, ?_⟩
      · rw [hsplit, List.map_append, List.map_replicate]
        congr 2
        unfold setBit
        rw [if_neg hpage.symm]
      · intro e he
        rcases List.mem_map.mp he with ⟨d, hd, hde⟩
        rw [← hde]
        unfold setBit
        split
        · exact hpage
        · exact hused d hd
  | fault _ hvictim =>
      have hnew : forall (l : List Chance), (forall e, e ∈ l -> e.page ≠ -1) ->
          forall e, e ∈ l ++ [Chance.mk page true] -> e.page ≠ -1 := by
        intro l hl e he
        cases List.mem_append.mp he with
        | inl hmem => exact hl e hmem
        | inr hlast =>
            rw [List.mem_singleton.mp hlast]
            exact hpage
      cases k with
      | zero =>
          rw [List.replicate_zero, List.nil_append] at hsplit
          refine ⟨0, _, rfl, hnew _ ?_⟩
          intro e he
          rcases hvictim.page_mem he with ⟨d, hd, hde⟩
          rw [← hde]
          rw [hsplit] at hd
          exact hused d hd
      | succ k =>
          rw [List.replicate_succ, List.cons_append] at hsplit
          rw [hsplit] at hvictim
          have hfront := hvictim.unique (Evicts.front rfl)
          refine ⟨k, used ++ [Chance.mk page true], ?_, hnew used hused⟩
          rw [hfront.right, List.append_assoc]

theorem PolicyRun.emptyFirst {q r : List Chance} {refs : List Int} {faults : List Bool}
    (h : PolicyRun q refs faults r) (hrefs : forall p, p ∈ refs -> p ≠ -1) (hq : EmptyFirst q) :
    EmptyFirst r := by
  induction h with
  | nil => exact hq
  | cons hstep _ ih =>
      exact ih (fun p hp => hrefs p (List.mem_cons_of_mem _ hp))
        (hstep.emptyFirst (hrefs _ List.mem_cons_self) hq)

theorem emptyQueue_emptyFirst (n : Nat) : EmptyFirst (emptyQueue n) := by
  refine ⟨n, [], (List.append_nil _).symm, ?_⟩
  intro e he
  cases he

/-!
# Runs
-/

def secondChanceAfter (n : Nat) : SecondChanceState -> List Int -> Option SecondChanceState
  | s, [] => some s
  | s, pageNum :: refs =>
      match secondChanceRefer n s pageNum with
      | none => none
      | some (_, s) => secondChanceAfter n s refs

section Runs

variable {n c : Nat} {s : SecondChanceState} {q : List Chance} {refs : List Int}

theorem QueueRep.after (h : QueueRep n s c q) (hrefs : forall p, p ∈ refs -> 0 ≤ p) :
    exists t d r faults out, secondChanceAfter n s refs = some t ∧ QueueRep n t d r ∧
      PolicyRun q refs faults r ∧ secondChanceFrom n s refs = some out ∧
      out.map Prod.fst = faults := by
  induction refs generalizing s c q with
  | nil => exact ⟨s, c, q, [], [], rfl, h, PolicyRun.nil, rfl, rfl⟩
  | cons p refs ih =>
      rcases h.refer (hrefs p List.mem_cons_self) with ⟨fault, t, d, r, hrun, hstep, ht⟩
      rcases ih ht fun x hx => hrefs x (List.mem_cons_of_mem p hx) with
        ⟨u, e, r', faults, out, hafter, hu, hpolicy, hout, hfaults⟩
      refine ⟨u, e, r', fault :: faults, (fault, frameList n t.pageFrame) :: out, ?_, hu,
        PolicyRun.cons hstep hpolicy, ?_, ?_⟩
      · unfold secondChanceAfter
        simp only [hrun]
        exact hafter
      · unfold secondChanceFrom
        simp only [hrun, hout]
      · rw [List.map_cons, hfaults]

def queueFrom (queue : PageQueue) : Nat -> Option Nat -> List Chance
  | 0, _ => []
  | _ + 1, none => []
  | k + 1, some a => chanceOf (queue.nodes a) :: queueFrom queue k (queue.nodes a).next

theorem queueFrom_eq {queue : PageQueue} {a : Nat} (h : Clocked n queue c) (ha : a < n) {k : Nat}
    (hk : k ≤ n) : queueFrom queue k (some a) =
      ((ringFrom n a).take k).map fun x => chanceOf (queue.nodes x) := by
  induction k generalizing a with
  | zero =>
      rw [List.take_zero]
      rfl
  | succ k ih =>
      rcases ringFrom_head ha with ⟨rest, hring⟩
      have hlen := ringFrom_length n a
      rw [hring, List.length_cons] at hlen
      unfold queueFrom
      rw [h.next a ha, ih (Nat.mod_lt _ (Nat.zero_lt_of_lt ha)) (by lia), ringFrom_next hring,
        hring, List.take_succ_cons, List.map_cons, List.take_append_of_le_length (by lia)]

theorem QueueRep.queueFrom_clock (h : QueueRep n s c q) :
    queueFrom s.queue n s.queue.clockPointer = q := by
  rw [h.clocked.clock, queueFrom_eq h.clocked h.clocked.clock_lt (Nat.le_refl n), h.queue_eq]
  unfold readQueue
  rw [List.take_of_length_le (Nat.le_of_eq (ringFrom_length n c))]

end Runs

/-- What a fault does: the loop passes at most one turn, and if all bits were set, the
node at the clock pointer is the victim and the others lose their bits. -/
structure FaultTurn (n c : Nat) (s : SecondChanceState) (page : Int) (t : SecondChanceState) :
    Prop where
  turns : exists k stopped, k ≤ n ∧ clockLoop (k + 1) s.queue = some stopped
  allSet : (forall x, x < n -> (s.queue.nodes x).referenceBit ≠ 0) ->
    (t.queue.nodes c).pageNum = page ∧ (t.queue.nodes c).referenceBit = 1 ∧
      forall x, x < n -> x ≠ c -> (t.queue.nodes x).pageNum = (s.queue.nodes x).pageNum ∧
        (t.queue.nodes x).referenceBit = 0

theorem QueueRep.faultTurn {n c : Nat} {s : SecondChanceState} {q : List Chance} {page : Int}
    (h : QueueRep n s c q) (habsent : forall x, x < n -> (s.queue.nodes x).pageNum ≠ page) :
    exists t, secondChanceRefer n s page = some (true, t) ∧ FaultTurn n c s page t := by
  rcases h.fault habsent with ⟨stopped, v, passed, rest, t, hstop, hrun, _, hnodes⟩
  refine ⟨t, hrun, ⟨passed.length, stopped, hstop.few, hstop.run 0⟩, ?_⟩
  intro hall
  rcases hstop.allSet hall with ⟨hv, hpassed⟩
  subst hv
  rw [hnodes, if_pos rfl]
  refine ⟨rfl, rfl, ?_⟩
  intro x hx hne
  rw [hnodes, if_neg hne, hstop.nodes, if_pos (hpassed x hx)]
  exact ⟨rfl, rfl⟩

/-- After any references the program has made the same faults as the policy, and the
circular list read from the clock pointer is the queue of the policy. -/
theorem second_chance_queue {n : Nat} (hn : 1 ≤ n) {refs : List Int}
    (hrefs : forall p, p ∈ refs -> 0 ≤ p) :
    exists s c q faults out, secondChanceAfter n (initialSecondChance n) refs = some s ∧
      secondChance n refs = some out ∧ out.map Prod.fst = faults ∧
      (forall faults' q', PolicyRun (emptyQueue n) refs faults' q' <-> faults' = faults ∧ q' = q) ∧
      s.queue.clockPointer = some c ∧ queueFrom s.queue n s.queue.clockPointer = q ∧
      EmptyFirst q ∧
      (forall x, x < n -> (s.queue.nodes x).pageIndex = x ∧
        s.pageFrame x = (s.queue.nodes x).pageNum) ∧
      forall page, 0 ≤ page -> exists fault t, secondChanceRefer n s page = some (fault, t) ∧
        (fault = true <-> page ∉ q.map Chance.page) ∧ (fault = true -> FaultTurn n c s page t) := by
  rcases (initialSecondChance_rep hn).after hrefs with
    ⟨s, c, q, faults, out, hafter, h, hpolicy, hout, hfaults⟩
  refine ⟨s, c, q, faults, out, hafter, hout, hfaults, ?_, h.clocked.clock, h.queueFrom_clock,
    ?_, ?_, ?_⟩
  · intro faults' q'
    constructor
    · intro hrun
      exact hrun.unique hpolicy
    · rintro ⟨hf, hq⟩
      rw [hf, hq]
      exact hpolicy
  · apply hpolicy.emptyFirst _ (emptyQueue_emptyFirst n)
    intro p hp
    have hnonneg := hrefs p hp
    lia
  · intro x hx
    exact ⟨h.clocked.index x hx, h.mirror x hx⟩
  · intro page hpage
    rcases h.refer hpage with ⟨fault, t, d, r, hrun, hstep, _⟩
    refine ⟨fault, t, hrun, ?_, ?_⟩
    · cases hstep with
      | hit hmem => simp [hmem]
      | fault hmem _ => simp [hmem]
    · intro hfault
      have habsent : forall x, x < n -> (s.queue.nodes x).pageNum ≠ page := by
        intro x hx hnum
        cases hstep with
        | hit _ => cases hfault
        | fault hmem _ => exact hmem (h.mem_pages_iff.mpr ⟨x, hx, hnum⟩)
      rcases h.faultTurn habsent with ⟨u, hrun', hturn⟩
      rw [hrun] at hrun'
      cases hrun'
      exact hturn

theorem second_chance_queue_four_references :
    (forall p, p ∈ [7, 0, 7, 1] -> (0 : Int) ≤ p) ∧
      exists s, secondChanceAfter 2 (initialSecondChance 2) [7, 0, 7, 1] = some s ∧
        EmptyFirst (queueFrom s.queue 2 s.queue.clockPointer) := by
  have hrefs : forall p, p ∈ [7, 0, 7, 1] -> (0 : Int) ≤ p := by decide
  rcases second_chance_queue (show 1 ≤ 2 by decide) hrefs with
    ⟨s, c, q, faults, out, hafter, _, _, _, _, hqueue, hempty, _⟩
  rw [← hqueue] at hempty
  exact ⟨hrefs, s, hafter, hempty⟩

end Paging
end OsLabs
