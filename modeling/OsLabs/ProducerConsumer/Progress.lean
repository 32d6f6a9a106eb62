import OsLabs.ProducerConsumer.Shutdown

/-!
# Threads that wait forever

Counting the tokens of a state in which no thread can move shows the only way
in which the system gets stuck: the consumers have gone, and a producer waits
for a slot of a full buffer.
-/

namespace OsLabs
namespace ProducerConsumer

open Foundation

variable {C : Params} {tid : Nat -> Int} {s t : State} {a : Action}

/-- The last consumer leaves no producer waiting at a full buffer. -/
def NobodyStranded (C : Params) (s : State) (a : Action) : Prop :=
  LastToLeave C s a -> s.shared.buf.itemNum < s.shared.buf.consumeNum + C.bufferSize ∨
    forall j, j < C.threadPro -> s.pro j ≠ ProducerPc.waitEmptyslot

theorem producer_blocked {n : Int} {pc : ProducerPc} {sh : Shared}
    (hshape : ProducerShape C sh.buf pc) (h : producer C n sh pc = none) :
    pc = ProducerPc.exited ∨ (pc = ProducerPc.waitEmptyslot ∧ sh.emptyslot = 0) ∨
      (pc = ProducerPc.waitMutex ∧ sh.semMutex = 0) := by
  have hbound : forall k, k % C.bufferSize < C.bufferSize :=
    fun k => Nat.mod_lt k C.bufferSize_pos
  cases pc with
  | waitEmptyslot =>
      simp only [producer] at h
      split at h
      · cases h
      · exact Or.inr (Or.inl ⟨rfl, by lia⟩)
  | waitMutex =>
      simp only [producer] at h
      split at h
      · cases h
      · exact Or.inr (Or.inr ⟨rfl, by lia⟩)
  | writeItemNo slot item =>
      simp only [producer] at h
      rw [if_pos (hshape.right.left ▸ hbound _)] at h
      cases h
  | writeProTid slot =>
      simp only [producer] at h
      rw [if_pos (hshape.right ▸ hbound _)] at h
      cases h
  | exited => exact Or.inl rfl
  | guard | test | testLast =>
      simp only [producer] at h
      split at h <;> cases h
  | _ => cases h

theorem consumer_blocked {pc : ConsumerPc} {sh : Shared}
    (hshape : ConsumerShape C sh.buf pc) (h : consumer C sh pc = none) :
    pc = ConsumerPc.exited ∨ (pc = ConsumerPc.waitStock ∧ sh.stock = 0) ∨
      (pc = ConsumerPc.waitMutex ∧ sh.semMutex = 0) := by
  cases pc with
  | waitStock =>
      simp only [consumer] at h
      split at h
      · cases h
      · exact Or.inr (Or.inl ⟨rfl, by lia⟩)
  | waitMutex =>
      simp only [consumer] at h
      split at h
      · cases h
      · exact Or.inr (Or.inr ⟨rfl, by lia⟩)
  | readItemNo slot =>
      simp only [consumer] at h
      rw [if_pos (hshape.right ▸ Nat.mod_lt _ C.bufferSize_pos)] at h
      cases h
  | exited => exact Or.inl rfl
  | readProduced | readEndFlag | testProduced =>
      simp only [consumer] at h
      split at h <;> cases h
  | _ => cases h

def SingleInv (C : Params) (s : State) : Prop :=
  C.threadCons = 1 ->
    (forall c, s.cons 0 = ConsumerPc.readProduced c -> c = s.shared.buf.consumeNum) ∧
    (s.cons 0 = ConsumerPc.waitStock -> s.shared.buf.consumeNum < C.maxItemNum)

theorem consumer_waits {pc : ConsumerPc} {sh sh' : Shared}
    (h : consumer C sh pc = some (ConsumerPc.waitStock, sh')) :
    sh' = sh ∧ ((exists c, pc = ConsumerPc.readProduced c ∧ c < sh.buf.itemNum) ∨
      sh.buf.endFlag = 0) := by
  cases pc with
  | readProduced c =>
      simp only [consumer] at h
      split at h
      · rename_i hless
        cases h
        exact ⟨rfl, Or.inl ⟨c, rfl, hless⟩⟩
      · cases h
  | readEndFlag =>
      simp only [consumer] at h
      split at h
      · rename_i hflag
        cases h
        exact ⟨rfl, Or.inr hflag⟩
      · cases h
  | waitStock | waitMutex | testProduced | readItemNo =>
      simp only [consumer] at h
      split at h <;> cases h
  | _ => cases h

theorem SingleInv.step (h : SingleInv C s) (hinv : SystemInv C s)
    (hstep : ProducerConsumer.step C tid s a = some t) : SingleInv C t := by
  intro hone
  rcases step_cases hstep with ⟨i, pc, sh, _, _, hnext, ht⟩ | ⟨i, pc, sh, _, hi, hnext, ht⟩ |
    ⟨_, hmain⟩
  · subst ht
    have hconsume := producer_consumeNum hnext
    simp only [hconsume]
    exact h hone
  · subst ht
    have hzero : i = 0 := by lia
    subst hzero
    simp only [Function.update_self]
    constructor
    · intro c hpc
      subst hpc
      exact consumer_readProduced hnext
    · intro hpc
      subst hpc
      rcases consumer_waits hnext with ⟨hsh, ⟨c, hold, hless⟩ | hflag⟩
      · subst hsh
        have hcurrent := (h hone).left c hold
        have hle := hinv.recorded.item_le
        lia
      · subst hsh
        have hrunning := hinv.recorded.running hflag
        have hle := hinv.recorded.consume_le
        lia
  · rcases mainThread_eq hmain with ⟨_, hcons, hbuf⟩
    rw [hcons, hbuf]
    exact h hone

def Stuck (C : Params) (tid : Nat -> Int) (s : State) : Prop :=
  forall a, step C tid s a = none

theorem SystemInv.stuck_points (h : SystemInv C s) (hstuck : Stuck C tid s) :
    (forall i, i < C.threadPro -> s.pro i = ProducerPc.exited ∨
      (s.pro i = ProducerPc.waitEmptyslot ∧ s.shared.emptyslot = 0)) ∧
    (forall i, i < C.threadCons -> s.cons i = ConsumerPc.exited ∨
      (s.cons i = ConsumerPc.waitStock ∧ s.shared.stock = 0)) := by
  have hpro : forall i, i < C.threadPro -> s.pro i = ProducerPc.exited ∨
      (s.pro i = ProducerPc.waitEmptyslot ∧ s.shared.emptyslot = 0) ∨
      (s.pro i = ProducerPc.waitMutex ∧ s.shared.semMutex = 0) := by
    intro i hi
    have hnone := hstuck (Action.producer i)
    simp only [ProducerConsumer.step, if_pos hi, Option.map_eq_none_iff] at hnone
    exact producer_blocked (h.shape (Sum.inl i) (inl_mem_threads.mpr hi)) hnone
  have hcons : forall i, i < C.threadCons -> s.cons i = ConsumerPc.exited ∨
      (s.cons i = ConsumerPc.waitStock ∧ s.shared.stock = 0) ∨
      (s.cons i = ConsumerPc.waitMutex ∧ s.shared.semMutex = 0) := by
    intro i hi
    have hnone := hstuck (Action.consumer i)
    simp only [ProducerConsumer.step, if_pos hi, Option.map_eq_none_iff] at hnone
    exact consumer_blocked (h.shape (Sum.inr i) (inr_mem_threads.mpr hi)) hnone
  have hfree : s.shared.semMutex = 1 := by
    have hmutex := h.mutex
    have houtside : held (threads C) (fun p => p.tokens.inside) s.point = 0 := by
      rw [held_eq_zero_iff]
      intro x hx
      cases x with
      | inl i =>
          change (s.pro i).inside = 0
          rcases hpro i (inl_mem_threads.mp hx) with hpc | ⟨hpc, _⟩ | ⟨hpc, _⟩
          · rw [hpc]
            rfl
          · rw [hpc]
            rfl
          · rw [hpc]
            rfl
      | inr i =>
          change (s.cons i).inside = 0
          rcases hcons i (inr_mem_threads.mp hx) with hpc | ⟨hpc, _⟩ | ⟨hpc, _⟩
          · rw [hpc]
            rfl
          · rw [hpc]
            rfl
          · rw [hpc]
            rfl
    lia
  constructor
  · intro i hi
    rcases hpro i hi with hexited | hwait | hmutex
    · exact Or.inl hexited
    · exact Or.inr hwait
    · lia
  · intro i hi
    rcases hcons i hi with hexited | hwait | hmutex
    · exact Or.inl hexited
    · exact Or.inr hwait
    · lia

theorem SystemInv.stuck_counts (h : SystemInv C s) (hstuck : Stuck C tid s) :
    s.shared.emptyslot + s.shared.buf.itemNum = C.bufferSize + s.shared.buf.consumeNum ∧
      s.shared.stock + s.shared.buf.consumeNum =
        s.shared.buf.itemNum + posted C s.main := by
  rcases h.stuck_points hstuck with ⟨hpro, hcons⟩
  have hnone : forall w : Point -> Nat, w (Point.producer ProducerPc.exited) = 0 ->
      w (Point.producer ProducerPc.waitEmptyslot) = 0 ->
      w (Point.consumer ConsumerPc.exited) = 0 ->
      w (Point.consumer ConsumerPc.waitStock) = 0 -> held (threads C) w s.point = 0 := by
    intro w hw1 hw2 hw3 hw4
    rw [held_eq_zero_iff]
    intro x hx
    cases x with
    | inl i =>
        change w (Point.producer (s.pro i)) = 0
        rcases hpro i (inl_mem_threads.mp hx) with hpc | ⟨hpc, _⟩
        · rw [hpc, hw1]
        · rw [hpc, hw2]
    | inr i =>
        change w (Point.consumer (s.cons i)) = 0
        rcases hcons i (inr_mem_threads.mp hx) with hpc | ⟨hpc, _⟩
        · rw [hpc, hw3]
        · rw [hpc, hw4]
  have hslots := h.slots
  have hstocks := h.stocks
  rw [hnone _ rfl rfl rfl rfl] at hslots hstocks
  exact ⟨by lia, by lia⟩

/-- A stuck state in which a thread is left has lost all its consumers and has a
producer waiting at a full buffer. -/
theorem SystemInv.stuck_stranded (h : SystemInv C s) (hsingle : SingleInv C s)
    (hstuck : Stuck C tid s) (hleft : ¬ AllExited C s) :
    ConsumersGone C s ∧ s.shared.buf.itemNum = s.shared.buf.consumeNum + C.bufferSize ∧
      exists j, j < C.threadPro ∧ s.pro j = ProducerPc.waitEmptyslot := by
  rcases h.stuck_points hstuck with ⟨hpro, hcons⟩
  rcases h.stuck_counts hstuck with ⟨hslots, hstocks⟩
  have hpos := C.bufferSize_pos
  by_cases hwait : exists j, j < C.threadPro ∧ s.pro j = ProducerPc.waitEmptyslot
  · rcases hwait with ⟨j, hj, hpc⟩
    have hempty : s.shared.emptyslot = 0 := by
      cases hpro j hj with
      | inl hexited =>
          rw [hexited] at hpc
          cases hpc
      | inr hzero => exact hzero.right
    refine ⟨?_, by lia, j, hj, hpc⟩
    intro i hi
    cases hcons i hi with
    | inl hexited => exact hexited
    | inr hzero => lia
  · have hgone : forall i, i < C.threadPro -> s.pro i = ProducerPc.exited := by
      intro i hi
      cases hpro i hi with
      | inl hexited => exact hexited
      | inr hzero => exact absurd ⟨i, hi, hzero.left⟩ hwait
    have hsome : exists i, i < C.threadCons ∧ s.cons i = ConsumerPc.waitStock ∧
        s.shared.stock = 0 := by
      by_contra hall
      apply hleft
      refine ⟨hgone, ?_⟩
      intro i hi
      cases hcons i hi with
      | inl hexited => exact hexited
      | inr hzero => exact absurd ⟨i, hi, hzero⟩ hall
    rcases hsome with ⟨i, hi, hat, hzero⟩
    have hfull : s.shared.buf.itemNum = C.maxItemNum :=
      h.exited (Sum.inl 0) (inl_mem_threads.mpr C.threadPro_pos) (hgone 0 C.threadPro_pos)
    have hposted : posted C s.main = C.threadCons - 1 := by
      have hmain := h.main
      have hnone := hstuck Action.main
      simp only [ProducerConsumer.step] at hnone
      unfold mainThread at hnone
      unfold MainInv at hmain
      cases hpc : s.main with
      | join j =>
          simp only [hpc] at hnone hmain
          rw [if_pos (hgone j hmain.left)] at hnone
          cases hnone
      | post j =>
          simp only [hpc] at hnone
          cases hnone
      | done => rfl
    have horder : s.shared.buf.consumeNum ≤ s.shared.buf.itemNum :=
      (h.recorded.consume_le.trans h.recorded.taken_le).trans h.recorded.made_le
    have hcount := C.threadCons_pos
    have hone : C.threadCons = 1 := by lia
    have hfirst : i = 0 := by lia
    subst hfirst
    have hless := (hsingle hone).right hat
    lia

theorem reachable_single (hs : (pcSystem C tid).Reachable s) : SingleInv C s := by
  apply hs.invariant_with (J := SystemInv C)
  · intro s hreach
    exact reachable_inv hreach
  · intro s hinit
    rcases hinit with ⟨itemNo, proTid, hs⟩
    rw [hs]
    intro _
    constructor
    · intro c hfalse
      cases hfalse
    · intro hfalse
      cases hfalse
  · intro s a t hinv hsingle hstep
    exact hsingle.step hinv hstep

theorem gone_not_stranded
    (hs : ((pcSystem C tid).restrict (NobodyStranded C)).Reachable s)
    (hgone : ConsumersGone C s) :
    s.shared.buf.itemNum < s.shared.buf.consumeNum + C.bufferSize ∨
      forall j, j < C.threadPro -> s.pro j ≠ ProducerPc.waitEmptyslot := by
  revert hgone
  apply hs.invariant_with (J := SystemInv C) (P := fun s => ConsumersGone C s ->
    s.shared.buf.itemNum < s.shared.buf.consumeNum + C.bufferSize ∨
      forall j, j < C.threadPro -> s.pro j ≠ ProducerPc.waitEmptyslot)
  · intro s hreach
    exact reachable_inv hreach.of_restrict
  · intro s hinit _
    rcases hinit with ⟨itemNo, proTid, hs⟩
    rw [hs]
    left
    exact Nat.lt_of_lt_of_le C.bufferSize_pos (Nat.le_add_left _ _)
  · intro s a t hinv hkept hstep hgone
    rcases consumersGone_cases hstep.right hgone with hbefore | ⟨hlast, hshared, hpro⟩
    · rcases hinv.gone_step hbefore hstep.right with ⟨_, hconsume, hitem, hwait⟩
      rw [hconsume, hitem]
      cases hkept hbefore with
      | inl hroom => exact Or.inl hroom
      | inr hnobody => exact Or.inr fun j hj hpc => hnobody j hj (hwait j hj hpc)
    · rw [hshared, hpro]
      exact hstep.left hlast

/-- A producer that waits at a full buffer after the consumers have gone waits
forever. -/
theorem SystemInv.stranded_forever (h : SystemInv C s) (hgone : ConsumersGone C s)
    (hfull : s.shared.buf.consumeNum + C.bufferSize ≤ s.shared.buf.itemNum) {j : Nat}
    (hpc : s.pro j = ProducerPc.waitEmptyslot) {u : State}
    (hu : ((pcSystem C tid).startingAt s).Reachable u) :
    u.pro j = ProducerPc.waitEmptyslot ∧ u.shared.emptyslot = 0 := by
  have hkept : SystemInv C u ∧ ConsumersGone C u ∧
      u.shared.buf.consumeNum + C.bufferSize ≤ u.shared.buf.itemNum ∧
      u.pro j = ProducerPc.waitEmptyslot := by
    apply hu.invariant (P := fun u => SystemInv C u ∧ ConsumersGone C u ∧
      u.shared.buf.consumeNum + C.bufferSize ≤ u.shared.buf.itemNum ∧
      u.pro j = ProducerPc.waitEmptyslot)
    · intro v hv
      rw [hv]
      exact ⟨h, hgone, hfull, hpc⟩
    · intro v a w hinv hstep
      rcases hinv with ⟨hv, hvgone, hvfull, hvpc⟩
      rcases hv.gone_step hvgone hstep with ⟨hwgone, hconsume, hitem, _⟩
      refine ⟨hv.step hstep, hwgone, by rw [hconsume, hitem]; exact hvfull, ?_⟩
      have hslots := hv.slots
      rcases step_cases hstep with ⟨i, pc, sh, _, _, hnext, hw⟩ | ⟨i, pc, sh, _, _, _, hw⟩ |
        ⟨_, hmain⟩
      · subst hw
        by_cases hji : j = i
        · subst hji
          rw [hvpc] at hnext
          simp only [producer] at hnext
          rw [if_neg (by lia)] at hnext
          cases hnext
        · simpa [hji] using hvpc
      · subst hw
        exact hvpc
      · rw [(mainThread_eq hmain).left]
        exact hvpc
  refine ⟨hkept.right.right.right, ?_⟩
  have hslots := hkept.left.slots
  lia

/-- Some thread can move until all have exited, as long as the last consumer
leaves no producer waiting at a full buffer; a producer that it leaves there is
blocked in every state that follows. -/
theorem never_stuck_exact :
    (forall s, ((pcSystem C tid).restrict (NobodyStranded C)).Reachable s ->
      ¬ AllExited C s -> exists a t, step C tid s a = some t) ∧
    forall s a t, (pcSystem C tid).Reachable s -> step C tid s a = some t ->
      ¬ NobodyStranded C s a ->
      exists j, j < C.threadPro ∧
        forall u, ((pcSystem C tid).startingAt t).Reachable u ->
          u.pro j = ProducerPc.waitEmptyslot ∧ u.shared.emptyslot = 0 := by
  constructor
  · intro s hs hleft
    by_contra hnone
    have hstuck : Stuck C tid s := by
      intro a
      rw [Option.eq_none_iff_forall_not_mem]
      intro t ht
      exact hnone ⟨a, t, ht⟩
    have hreach := hs.of_restrict
    rcases (reachable_inv hreach).stuck_stranded (reachable_single hreach) hstuck hleft with
      ⟨hgone, hfull, j, hj, hpc⟩
    cases gone_not_stranded hs hgone with
    | inl hroom => lia
    | inr hnobody => exact hnobody j hj hpc
  · intro s a t hs hstep hnot
    have hinv := reachable_inv hs
    unfold NobodyStranded at hnot
    push Not at hnot
    rcases hnot with ⟨hlast, hfull, j, hj, hpc⟩
    rcases hlast.step hstep with ⟨hgone, hshared, hpro⟩
    refine ⟨j, hj, ?_⟩
    intro u hu
    apply (hinv.step hstep).stranded_forever hgone ?_ ?_ hu
    · rw [hshared]
      exact hfull
    · rw [hpro]
      exact hpc

instance decidableLastToLeave (C : Params) (s : State) :
    forall a, Decidable (LastToLeave C s a)
  | Action.producer _ => isFalse fun ⟨_, h, _⟩ => Action.noConfusion h
  | Action.main => isFalse fun ⟨_, h, _⟩ => Action.noConfusion h
  | Action.consumer i =>
      decidable_of_iff (i < C.threadCons ∧ s.cons i = ConsumerPc.readEndFlag ∧
          s.shared.buf.endFlag ≠ 0 ∧
          forall j, j < C.threadCons -> j ≠ i -> s.cons j = ConsumerPc.exited)
        ⟨fun h => ⟨i, rfl, h⟩, fun ⟨_, h, hlast⟩ => by
          cases h
          exact hlast⟩

instance decidableNobodyStranded (C : Params) (s : State) (a : Action) :
    Decidable (NobodyStranded C s a) :=
  inferInstanceAs (Decidable (_ -> _))

/-- Both consumers leave before the producer looks at `item_num` for the last time. -/
def consumersLeave : List Action :=
  roundTheRing ++ List.replicate 14 (Action.consumer 1) ++ List.replicate 17 (Action.consumer 0) ++
    List.replicate 3 (Action.consumer 1)

theorem never_stuck_exact_three_items :
    exists s, ((pcSystem threeItems fun _ => 7).restrict (NobodyStranded threeItems)).Reachable s ∧
      ConsumersGone threeItems s ∧ ¬ AllExited threeItems s ∧
      exists a t, step threeItems (fun _ => 7) s a = some t := by
  have hrun : (System.execAll (step threeItems fun _ => 7)
      (initialState threeItems (fun _ => 0) fun _ => 0) consumersLeave).map
        (fun s => (s.pro 0, s.cons 0, s.cons 1)) =
          some (ProducerPc.guard, ConsumerPc.exited, ConsumerPc.exited) := by decide +kernel
  have hmeets : System.ExecMeets (step threeItems fun _ => 7) (NobodyStranded threeItems)
      (initialState threeItems (fun _ => 0) fun _ => 0) consumersLeave := by decide +kernel
  rcases Option.map_eq_some_iff.mp hrun with ⟨s, hexec, hvalues⟩
  simp only [Prod.mk.injEq] at hvalues
  rcases hvalues with ⟨hpro, hfirst, hsecond⟩
  have hs := System.Reachable.restrict_of_execAll (S := pcSystem threeItems fun _ => 7)
    (fun _ _ _ h => h) (System.Reachable.init ⟨_, _, rfl⟩) hmeets hexec
  have hgone : ConsumersGone threeItems s := by
    intro i hi
    have hcases : i = 0 ∨ i = 1 := by
      change i < 2 at hi
      lia
    cases hcases with
    | inl hzero => exact hzero ▸ hfirst
    | inr hone => exact hone ▸ hsecond
  have hleft : ¬ AllExited threeItems s := by
    intro hall
    have hexited := hall.left 0 Nat.zero_lt_one
    rw [hpro] at hexited
    cases hexited
  exact ⟨s, hs, hgone, hleft, never_stuck_exact.left s hs hleft⟩

/-- One slot, one item, two producers and one consumer. -/
def twoProducers : Params where
  bufferSize := 1
  maxItemNum := 1
  threadPro := 2
  threadCons := 1
  bufferSize_pos := Nat.zero_lt_one
  maxItemNum_pos := Nat.zero_lt_one
  threadPro_pos := Nat.zero_lt_two
  threadCons_pos := Nat.zero_lt_one

/-- Producer 1 passes its test, the consumer reads the two counters, producer 0
runs to its end and is joined, then the consumer reads `END_FLAG`. -/
def producerStranded : List Action :=
  [Action.producer 1] ++ List.replicate 2 (Action.consumer 0) ++
    List.replicate 18 (Action.producer 0) ++ [Action.main, Action.consumer 0]

theorem producer_waits_forever :
    ¬ forall (C : Params) (tid : Nat -> Int) (s : State), (pcSystem C tid).Reachable s ->
      ¬ AllExited C s -> exists a t, step C tid s a = some t := by
  intro h
  have hrun : (System.execAll (step twoProducers fun _ => 7)
      (initialState twoProducers (fun _ => 0) fun _ => 0) producerStranded).map
        (fun s => (s.pro 0, s.pro 1, s.cons 0, s.main, s.shared.emptyslot)) =
      some (ProducerPc.exited, ProducerPc.waitEmptyslot, ConsumerPc.exited, MainPc.join 1, 0) :=
    by decide
  rcases Option.map_eq_some_iff.mp hrun with ⟨s, hexec, hvalues⟩
  simp only [Prod.mk.injEq] at hvalues
  rcases hvalues with ⟨hpro0, hpro1, hcons, hmain, hempty⟩
  have hleft : ¬ AllExited twoProducers s := by
    intro hall
    have hexited := hall.left 1 (by decide)
    rw [hpro1] at hexited
    cases hexited
  rcases h twoProducers _ s (reachable_of_run hexec) hleft with ⟨a, t, hstep⟩
  rcases step_cases hstep with ⟨i, pc, sh, _, hi, hnext, _⟩ | ⟨i, pc, sh, _, hi, hnext, _⟩ |
    ⟨_, hthread⟩
  · have hcases : i = 0 ∨ i = 1 := by
      change i < 2 at hi
      lia
    cases hcases with
    | inl hzero =>
        rw [hzero, hpro0] at hnext
        cases hnext
    | inr hone =>
        rw [hone, hpro1] at hnext
        simp only [producer, hempty] at hnext
        cases hnext
  · have hzero : i = 0 := by
      change i < 1 at hi
      lia
    rw [hzero, hcons] at hnext
    cases hnext
  · unfold mainThread at hthread
    simp only [hmain, hpro1] at hthread
    cases hthread

end ProducerConsumer
end OsLabs
