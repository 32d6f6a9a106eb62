import OsLabs.ProducerConsumer.Exactness

/-!
# The end of the run

A consumer leaves after it has read `consume_num` and `item_num` and then, later,
`END_FLAG`.  Between these reads the last item may be produced.  Items are left behind
exactly when all consumers are between these reads at the time when `END_FLAG` is set:
one that is anywhere else reads the counters once more before it can leave.
-/

namespace OsLabs
namespace ProducerConsumer

open Foundation

variable {C : Params} {tid : Nat -> Int} {s t : State} {a : Action}

def ConsumersGone (C : Params) (s : State) : Prop :=
  forall i, i < C.threadCons -> s.cons i = ConsumerPc.exited

/-- The step in which the last consumer reads `END_FLAG` and exits. -/
def LastToLeave (C : Params) (s : State) (a : Action) : Prop :=
  exists i, a = Action.consumer i ∧ i < C.threadCons ∧ s.cons i = ConsumerPc.readEndFlag ∧
    s.shared.buf.endFlag ≠ 0 ∧
    forall j, j < C.threadCons -> j ≠ i -> s.cons j = ConsumerPc.exited

def SetsEndFlag (C : Params) (s : State) (a : Action) : Prop :=
  exists i, a = Action.producer i ∧ i < C.threadPro ∧ s.pro i = ProducerPc.setEndFlag

/-- When `END_FLAG` is set, some consumer is not between its reads of the counters and its
read of the flag. -/
def SomebodyChecks (C : Params) (s : State) (a : Action) : Prop :=
  SetsEndFlag C s a -> exists j, j < C.threadCons ∧ s.cons j ≠ ConsumerPc.readEndFlag

/-!
# Steps around the last exit
-/

theorem producer_consumeNum {n : Int} {pc pc' : ProducerPc} {sh sh' : Shared}
    (h : producer C n sh pc = some (pc', sh')) :
    sh'.buf.consumeNum = sh.buf.consumeNum := by
  cases pc with
  | guard | waitEmptyslot | waitMutex | test | writeItemNo | writeProTid | testLast =>
      simp only [producer] at h
      split at h <;> cases h <;> rfl
  | exited => cases h
  | _ =>
      cases h
      rfl

theorem producer_waits {n : Int} {pc : ProducerPc} {sh sh' : Shared}
    (h : producer C n sh pc = some (ProducerPc.waitEmptyslot, sh')) :
    sh.buf.itemNum < C.maxItemNum := by
  cases pc with
  | guard =>
      simp only [producer] at h
      split at h
      · rename_i hless
        exact hless
      · cases h
  | waitEmptyslot | waitMutex | test | writeItemNo | writeProTid | testLast =>
      simp only [producer] at h
      split at h <;> cases h
  | _ => cases h

theorem mainThread_eq (h : mainThread C s = some t) :
    t.pro = s.pro ∧ t.cons = s.cons ∧ t.shared.buf = s.shared.buf := by
  unfold mainThread at h
  cases hpc : s.main with
  | join i =>
      simp only [hpc] at h
      split at h
      · cases h
        exact ⟨rfl, rfl, rfl⟩
      · cases h
  | post i =>
      simp only [hpc] at h
      cases h
      exact ⟨rfl, rfl, rfl⟩
  | done =>
      simp only [hpc] at h
      cases h

theorem consumersGone_cases (hstep : step C tid s a = some t) (hgone : ConsumersGone C t) :
    ConsumersGone C s ∨ (LastToLeave C s a ∧ t.shared = s.shared ∧ t.pro = s.pro) := by
  rcases step_cases hstep with ⟨i, pc, sh, _, _, _, ht⟩ | ⟨i, pc, sh, ha, hi, hnext, ht⟩ |
    ⟨_, hmain⟩
  · subst ht
    exact Or.inl hgone
  · subst ht
    have hpc : pc = ConsumerPc.exited := by
      have hlast := hgone i hi
      simpa using hlast
    subst hpc
    rcases consumer_exits hnext with ⟨hat, hflag, hsh⟩
    refine Or.inr ⟨⟨i, ha, hi, hat, hflag, ?_⟩, hsh, rfl⟩
    intro j hj hne
    have hother := hgone j hj
    simpa [hne] using hother
  · have hcons := (mainThread_eq hmain).right.left
    exact Or.inl fun i hi => hcons ▸ hgone i hi

theorem LastToLeave.step (h : LastToLeave C s a) (hstep : step C tid s a = some t) :
    ConsumersGone C t ∧ t.shared = s.shared ∧ t.pro = s.pro := by
  rcases h with ⟨i, ha, hi, hat, hflag, hothers⟩
  subst ha
  simp only [ProducerConsumer.step, if_pos hi, hat, consumer, if_neg hflag,
    Option.map_some] at hstep
  cases hstep
  refine ⟨?_, rfl, rfl⟩
  intro j hj
  by_cases hji : j = i
  · simp [hji]
  · simpa [hji] using hothers j hj hji

/-- Once the consumers are gone nothing is produced or consumed any more, and no
producer comes to wait. -/
theorem SystemInv.gone_step (h : SystemInv C s) (hgone : ConsumersGone C s)
    (hstep : ProducerConsumer.step C tid s a = some t) :
    ConsumersGone C t ∧ t.shared.buf.consumeNum = s.shared.buf.consumeNum ∧
      t.shared.buf.itemNum = s.shared.buf.itemNum ∧
      forall j, j < C.threadPro -> t.pro j = ProducerPc.waitEmptyslot ->
        s.pro j = ProducerPc.waitEmptyslot := by
  have hfull : s.shared.buf.itemNum = C.maxItemNum :=
    h.exited (Sum.inr 0) (inr_mem_threads.mpr C.threadCons_pos) (hgone 0 C.threadCons_pos)
  rcases step_cases hstep with ⟨i, pc, sh, _, hi, hnext, ht⟩ | ⟨i, pc, sh, _, hi, hnext, _⟩ |
    ⟨_, hmain⟩
  · subst ht
    have hmoved := (h.producerStep hi hnext).moved
    have hle := hmoved.recorded.item_le
    have hmono := hmoved.item_le
    refine ⟨hgone, producer_consumeNum hnext, by lia, ?_⟩
    intro j _ hwait
    by_cases hji : j = i
    · simp only [hji, Function.update_self] at hwait
      subst hwait
      have hless := producer_waits hnext
      lia
    · simpa [hji] using hwait
  · rw [hgone i hi] at hnext
    cases hnext
  · rcases mainThread_eq hmain with ⟨hpro, hcons, hbuf⟩
    rw [hbuf, hpro]
    exact ⟨fun i hi => hcons ▸ hgone i hi, rfl, rfl, fun j _ hj => hj⟩

/-!
# What the reads of a consumer stand for
-/

theorem producer_endFlag {n : Int} {pc pc' : ProducerPc} {sh sh' : Shared}
    (h : producer C n sh pc = some (pc', sh')) :
    sh'.buf.endFlag = sh.buf.endFlag ∨
      (pc = ProducerPc.setEndFlag ∧ sh'.buf.endFlag = 1 ∧
        sh'.buf.consumeNum = sh.buf.consumeNum) := by
  cases pc with
  | guard | waitEmptyslot | waitMutex | test | writeItemNo | writeProTid | testLast =>
      left
      simp only [producer] at h
      split at h <;> cases h <;> rfl
  | setEndFlag =>
      cases h
      exact Or.inr ⟨rfl, rfl, rfl⟩
  | exited => cases h
  | _ =>
      cases h
      exact Or.inl rfl

theorem consumer_endFlag {pc pc' : ConsumerPc} {sh sh' : Shared}
    (h : consumer C sh pc = some (pc', sh')) : sh'.buf.endFlag = sh.buf.endFlag := by
  cases pc with
  | readProduced | readEndFlag | waitStock | waitMutex | testProduced | readItemNo =>
      simp only [consumer] at h
      split at h <;> cases h <;> rfl
  | exited => cases h
  | _ =>
      cases h
      rfl

theorem consumer_consumeNum {pc pc' : ConsumerPc} {sh sh' : Shared}
    (hshape : ConsumerShape C sh.buf pc) (h : consumer C sh pc = some (pc', sh')) :
    sh.buf.consumeNum ≤ sh'.buf.consumeNum := by
  cases pc with
  | readProduced | readEndFlag | waitStock | waitMutex | testProduced | readItemNo =>
      simp only [consumer] at h
      split at h <;> cases h <;> exact Nat.le_refl _
  | writeConsumeNum v =>
      rcases hshape with ⟨hs, hv⟩
      have hconsume := hs.left.consumeNum_eq
      cases h
      simp only [hv, hconsume]
      exact Nat.le_succ _
  | exited => cases h
  | _ =>
      cases h
      exact Nat.le_refl _

theorem consumer_readProduced {pc : ConsumerPc} {c : Nat} {sh sh' : Shared}
    (h : consumer C sh pc = some (ConsumerPc.readProduced c, sh')) :
    c = sh'.buf.consumeNum := by
  cases pc with
  | readConsumed =>
      cases h
      rfl
  | readProduced | readEndFlag | waitStock | waitMutex | testProduced | readItemNo =>
      simp only [consumer] at h
      split at h <;> cases h
  | _ => cases h

/-- A consumer comes to read `END_FLAG` only if its two reads of the counters agreed. -/
theorem consumer_readEndFlag {pc : ConsumerPc} {sh sh' : Shared}
    (h : consumer C sh pc = some (ConsumerPc.readEndFlag, sh')) :
    exists c, pc = ConsumerPc.readProduced c ∧ sh.buf.itemNum ≤ c ∧ sh' = sh := by
  cases pc with
  | readProduced c =>
      simp only [consumer] at h
      split at h
      · cases h
      · rename_i hnot
        cases h
        exact ⟨c, rfl, not_lt.mp hnot, rfl⟩
  | readEndFlag | waitStock | waitMutex | testProduced | readItemNo =>
      simp only [consumer] at h
      split at h <;> cases h
  | _ => cases h

/-- What a consumer has read of `consume_num` was right once, and it has left only after
`END_FLAG` was set. -/
structure ReadsInv (C : Params) (s : State) : Prop where
  read_le : forall j c, j < C.threadCons -> s.cons j = ConsumerPc.readProduced c ->
    c ≤ s.shared.buf.consumeNum
  gone : forall j, j < C.threadCons -> s.cons j = ConsumerPc.exited ->
    s.shared.buf.endFlag ≠ 0

theorem SystemInv.consumeNum_le (h : SystemInv C s)
    (hstep : ProducerConsumer.step C tid s a = some t) :
    s.shared.buf.consumeNum ≤ t.shared.buf.consumeNum := by
  rcases step_cases hstep with ⟨i, pc, sh, _, _, hnext, ht⟩ | ⟨i, pc, sh, _, hi, hnext, ht⟩ |
    ⟨_, hmain⟩
  · subst ht
    exact (producer_consumeNum hnext).ge
  · subst ht
    exact consumer_consumeNum (h.shape (Sum.inr i) (inr_mem_threads.mpr hi)) hnext
  · rw [(mainThread_eq hmain).right.right]

theorem endFlag_stays (hstep : step C tid s a = some t) (hflag : s.shared.buf.endFlag ≠ 0) :
    t.shared.buf.endFlag ≠ 0 := by
  rcases step_cases hstep with ⟨i, pc, sh, _, _, hnext, ht⟩ | ⟨i, pc, sh, _, _, hnext, ht⟩ |
    ⟨_, hmain⟩
  · subst ht
    rcases producer_endFlag hnext with hsame | ⟨_, hone, _⟩
    · simp only [hsame]
      exact hflag
    · simp only [hone]
      exact Nat.one_ne_zero
  · subst ht
    simp only [consumer_endFlag hnext]
    exact hflag
  · rw [(mainThread_eq hmain).right.right]
    exact hflag

theorem ReadsInv.step (h : ReadsInv C s) (hinv : SystemInv C s)
    (hstep : ProducerConsumer.step C tid s a = some t) : ReadsInv C t := by
  have hconsume := hinv.consumeNum_le hstep
  have hflag := endFlag_stays hstep
  rcases step_cases hstep with ⟨i, pc, sh, _, _, _, ht⟩ | ⟨i, pc, sh, _, _, hnext, ht⟩ |
    ⟨_, hmain⟩
  · subst ht
    exact ⟨fun j c hj hpc => (h.read_le j c hj hpc).trans hconsume,
      fun j hj hpc => hflag (h.gone j hj hpc)⟩
  · subst ht
    constructor
    · intro j c hj hpc
      by_cases hji : j = i
      · simp only [hji, Function.update_self] at hpc
        subst hpc
        exact (consumer_readProduced hnext).le
      · simp only [Function.update_of_ne hji] at hpc
        exact (h.read_le j c hj hpc).trans hconsume
    · intro j hj hpc
      apply hflag
      by_cases hji : j = i
      · simp only [hji, Function.update_self] at hpc
        subst hpc
        exact (consumer_exits hnext).right.left
      · simp only [Function.update_of_ne hji] at hpc
        exact h.gone j hj hpc
  · have hcons := (mainThread_eq hmain).right.left
    constructor
    · intro j c hj hpc
      rw [hcons] at hpc
      exact (h.read_le j c hj hpc).trans hconsume
    · intro j hj hpc
      rw [hcons] at hpc
      exact hflag (h.gone j hj hpc)

theorem reachable_readsInv (hs : (pcSystem C tid).Reachable s) : ReadsInv C s := by
  apply hs.invariant_with (J := SystemInv C)
  · intro s hreach
    exact reachable_inv hreach
  · intro s hinit
    rcases hinit with ⟨itemNo, proTid, hs⟩
    rw [hs]
    constructor
    · intro j c _ hfalse
      cases hfalse
    · intro j _ hfalse
      cases hfalse
  · intro s a t hinv hreads hstep
    exact hreads.step hinv hstep

theorem SystemInv.ended (h : SystemInv C s) (hflag : s.shared.buf.endFlag ≠ 0) :
    s.shared.buf.itemNum = C.maxItemNum :=
  Nat.le_antisymm h.recorded.item_le ((h.recorded.ended hflag).ge.trans h.recorded.made_le)

/-!
# A consumer that still has to read the counters
-/

/-- Some consumer can leave only after it has read the counters once more. -/
def Checking (C : Params) (s : State) : Prop :=
  exists j, j < C.threadCons ∧ s.cons j ≠ ConsumerPc.readEndFlag ∧
    s.cons j ≠ ConsumerPc.exited

theorem Checking.step (h : Checking C s) (hinv : SystemInv C s) (hreads : ReadsInv C s)
    (hflag : s.shared.buf.endFlag ≠ 0)
    (hstep : ProducerConsumer.step C tid s a = some t) :
    s.shared.buf.consumeNum = C.maxItemNum ∨ Checking C t := by
  rcases h with ⟨j, hj, hflagpc, hexited⟩
  rcases step_cases hstep with ⟨i, pc, sh, _, _, _, ht⟩ | ⟨i, pc, sh, _, _, hnext, ht⟩ |
    ⟨_, hmain⟩
  · subst ht
    exact Or.inr ⟨j, hj, hflagpc, hexited⟩
  · subst ht
    by_cases hji : j = i
    · subst hji
      by_cases hpc : pc = ConsumerPc.readEndFlag
      · left
        subst hpc
        rcases consumer_readEndFlag hnext with ⟨c, hat, hequal, _⟩
        have hread := hreads.read_le j c hj hat
        have hfull := hinv.ended hflag
        have hle := (hinv.recorded.consume_le.trans hinv.recorded.taken_le).trans
          hinv.recorded.made_le
        lia
      · right
        refine ⟨j, hj, ?_, ?_⟩
        · simp only [Function.update_self]
          exact hpc
        · simp only [Function.update_self]
          intro hgone
          subst hgone
          exact hflagpc (consumer_exits hnext).left
    · right
      refine ⟨j, hj, ?_, ?_⟩
      · simp only [Function.update_of_ne hji]
        exact hflagpc
      · simp only [Function.update_of_ne hji]
        exact hexited
  · right
    refine ⟨j, hj, ?_⟩
    rw [(mainThread_eq hmain).right.left]
    exact ⟨hflagpc, hexited⟩

theorem consumed_or_checking
    (hs : ((pcSystem C tid).restrict (SomebodyChecks C)).Reachable s)
    (hflag : s.shared.buf.endFlag ≠ 0) :
    s.shared.buf.consumeNum = C.maxItemNum ∨ Checking C s := by
  revert hflag
  apply hs.invariant_with (J := fun s => SystemInv C s ∧ ReadsInv C s)
    (P := fun s => s.shared.buf.endFlag ≠ 0 ->
      s.shared.buf.consumeNum = C.maxItemNum ∨ Checking C s)
  · intro s hreach
    exact ⟨reachable_inv hreach.of_restrict, reachable_readsInv hreach.of_restrict⟩
  · intro s hinit hflag
    rcases hinit with ⟨itemNo, proTid, hs⟩
    rw [hs] at hflag
    exact absurd rfl hflag
  · rintro s a t ⟨hinv, hreads⟩ hkept ⟨hchecks, hstep⟩ hflag
    have hmono := hinv.consumeNum_le hstep
    have hnext := hinv.step hstep
    have hle := (hnext.recorded.consume_le.trans hnext.recorded.taken_le).trans
      (hnext.recorded.made_le.trans hnext.recorded.item_le)
    by_cases hbefore : s.shared.buf.endFlag = 0
    · -- this is the step that sets the flag
      rcases step_cases hstep with ⟨i, pc, sh, ha, hi, hmove, ht⟩ |
        ⟨i, pc, sh, _, _, hmove, ht⟩ | ⟨_, hmain⟩
      · subst ht
        rcases producer_endFlag hmove with hsame | ⟨hat, _, _⟩
        · simp only [hsame] at hflag
          exact absurd hbefore hflag
        · rcases hchecks ⟨i, ha, hi, hat⟩ with ⟨j, hj, hpc⟩
          exact Or.inr ⟨j, hj, hpc, fun hgone => hreads.gone j hj hgone hbefore⟩
      · subst ht
        simp only [consumer_endFlag hmove] at hflag
        exact absurd hbefore hflag
      · rw [(mainThread_eq hmain).right.right] at hflag
        exact absurd hbefore hflag
    · cases hkept hbefore with
      | inl hall => exact Or.inl (by lia)
      | inr hchecking =>
          cases hchecking.step hinv hreads hbefore hstep with
          | inl hall => exact Or.inl (by lia)
          | inr hstill => exact Or.inr hstill

/-!
# All consumers past their reads
-/

structure LeftBehind (C : Params) (s : State) : Prop where
  flag : s.shared.buf.endFlag ≠ 0
  waiting : s.shared.buf.consumeNum < C.maxItemNum
  past : forall j, j < C.threadCons -> s.cons j = ConsumerPc.readEndFlag ∨
    s.cons j = ConsumerPc.exited

theorem LeftBehind.step (h : LeftBehind C s)
    (hstep : ProducerConsumer.step C tid s a = some t) : LeftBehind C t := by
  have hflag := endFlag_stays hstep h.flag
  rcases step_cases hstep with ⟨i, pc, sh, _, _, hnext, ht⟩ | ⟨i, pc, sh, _, hi, hnext, ht⟩ |
    ⟨_, hmain⟩
  · subst ht
    refine ⟨hflag, ?_, h.past⟩
    simp only [producer_consumeNum hnext]
    exact h.waiting
  · have hread : s.cons i = ConsumerPc.readEndFlag := by
      cases h.past i hi with
      | inl hat => exact hat
      | inr hgone =>
          rw [hgone] at hnext
          cases hnext
    rw [hread] at hnext
    simp only [consumer, if_neg h.flag] at hnext
    cases hnext
    subst ht
    refine ⟨hflag, h.waiting, ?_⟩
    intro j hj
    by_cases hji : j = i
    · simp only [hji, Function.update_self]
      exact Or.inr trivial
    · simp only [Function.update_of_ne hji]
      exact h.past j hj
  · rcases mainThread_eq hmain with ⟨_, hcons, hbuf⟩
    refine ⟨hflag, ?_, ?_⟩
    · rw [hbuf]
      exact h.waiting
    · rw [hcons]
      exact h.past

theorem LeftBehind.run (h : LeftBehind C s) {as : List Action}
    (hrun : System.execAll (ProducerConsumer.step C tid) s as = some t) : LeftBehind C t := by
  induction as generalizing s with
  | nil =>
      cases hrun
      exact h
  | cons a as ih =>
      rcases Option.bind_eq_some_iff.mp hrun with ⟨u, hstep, hrest⟩
      exact ih (h.step hstep) hrest

/-- A producer that sets the flag has not posted its item yet. -/
theorem SystemInv.leftBehind (h : SystemInv C s)
    (hstep : ProducerConsumer.step C tid s a = some t) (hnot : ¬ SomebodyChecks C s a) :
    LeftBehind C t := by
  unfold SomebodyChecks at hnot
  push Not at hnot
  rcases hnot with ⟨⟨i, ha, hi, hat⟩, hpast⟩
  have hshape := h.shape (Sum.inl i) (inl_mem_threads.mpr hi)
  change ProducerShape C s.shared.buf (s.pro i) at hshape
  rw [hat] at hshape
  rcases hshape with ⟨hstored, hlast⟩
  have hconsume := hstored.left.consumeNum_eq
  have hless := hstored.right
  subst ha
  simp only [ProducerConsumer.step, if_pos hi, hat, producer, Option.map_some] at hstep
  cases hstep
  refine ⟨Nat.one_ne_zero, ?_, fun j hj => Or.inl (hpast j hj)⟩
  simp only
  lia

theorem SystemInv.meets_of_consumed (h : SystemInv C s) {as : List Action}
    (hrun : System.execAll (ProducerConsumer.step C tid) s as = some t)
    (hall : t.shared.buf.consumeNum = C.maxItemNum) :
    System.ExecMeets (ProducerConsumer.step C tid) (SomebodyChecks C) s as := by
  induction as generalizing s with
  | nil => trivial
  | cons a as ih =>
      rcases Option.bind_eq_some_iff.mp hrun with ⟨u, hstep, hrest⟩
      constructor
      · by_contra hnot
        have hleft := ((h.leftBehind hstep hnot).run hrest).waiting
        lia
      · intro v hv
        rw [hstep] at hv
        cases hv
        exact ih (h.step hstep) hrest

/-- When all threads have exited, all items have been produced, and they have all been
consumed exactly if some consumer was not past its reads of the counters when `END_FLAG` was
set. -/
theorem shutdown_exact {itemNo : Nat -> Nat} {proTid : Nat -> Int} {as : List Action}
    (hrun : System.execAll (step C tid) (initialState C itemNo proTid) as = some s)
    (hexited : AllExited C s) :
    (s.shared.buf.itemNum = C.maxItemNum ∧ s.shared.buf.consumeNum = C.maxItemNum) <->
      System.ExecMeets (step C tid) (SomebodyChecks C) (initialState C itemNo proTid) as := by
  have hreach := reachable_of_run hrun
  have hgone := hexited.right 0 C.threadCons_pos
  have hflag := (reachable_readsInv hreach).gone 0 C.threadCons_pos hgone
  constructor
  · intro hall
    exact (initial_inv C itemNo proTid).meets_of_consumed hrun hall.right
  · intro hmeets
    have hinit : ((pcSystem C tid).restrict (SomebodyChecks C)).Reachable
        (initialState C itemNo proTid) :=
      System.Reachable.init ⟨itemNo, proTid, rfl⟩
    have hs := hinit.restrict_of_execAll (S := pcSystem C tid) (fun _ _ _ h => h) hmeets hrun
    refine ⟨(reachable_inv hreach).ended hflag, ?_⟩
    cases consumed_or_checking hs hflag with
    | inl hall => exact hall
    | inr hchecking =>
        rcases hchecking with ⟨j, hj, _, hnot⟩
        exact absurd (hexited.right j hj) hnot

instance (C : Params) (s : State) : Decidable (AllExited C s) :=
  inferInstanceAs (Decidable (_ ∧ _))

def everybodyLeaves : List Action :=
  roundTheRing ++ List.replicate 14 (Action.consumer 1) ++ List.replicate 17 (Action.consumer 0) ++
    [Action.producer 0] ++ List.replicate 3 (Action.consumer 1)

theorem shutdown_exact_three_items :
    exists s, System.execAll (step threeItems fun _ => 7)
        (initialState threeItems (fun _ => 0) fun _ => 0) everybodyLeaves = some s ∧
      s.shared.buf.consumeNum = 3 ∧
      System.ExecMeets (step threeItems fun _ => 7) (SomebodyChecks threeItems)
        (initialState threeItems (fun _ => 0) fun _ => 0) everybodyLeaves := by
  have hrun : (System.execAll (step threeItems fun _ => 7)
      (initialState threeItems (fun _ => 0) fun _ => 0) everybodyLeaves).map
        (fun s => (decide (AllExited threeItems s), s.shared.buf.itemNum,
          s.shared.buf.consumeNum)) = some (true, 3, 3) := by decide +kernel
  rcases Option.map_eq_some_iff.mp hrun with ⟨s, hexec, hvalues⟩
  simp only [Prod.mk.injEq, decide_eq_true_eq] at hvalues
  rcases hvalues with ⟨hexited, hitem, hconsume⟩
  exact ⟨s, hexec, hconsume, (shutdown_exact hexec hexited).mp ⟨hitem, hconsume⟩⟩

def oneEach : Params where
  bufferSize := 1
  maxItemNum := 1
  threadPro := 1
  threadCons := 1
  bufferSize_pos := Nat.zero_lt_one
  maxItemNum_pos := Nat.zero_lt_one
  threadPro_pos := Nat.zero_lt_one
  threadCons_pos := Nat.zero_lt_one

/-- The consumer reads the two counters, then the producer runs to its end, then
the consumer reads `END_FLAG`. -/
def consumerBetween : List Action :=
  List.replicate 2 (Action.consumer 0) ++ List.replicate 18 (Action.producer 0) ++
    [Action.consumer 0]

theorem last_item_left_behind :
    ¬ forall (C : Params) (tid : Nat -> Int) (s : State), (pcSystem C tid).Reachable s ->
      AllExited C s ->
      s.shared.buf.itemNum = C.maxItemNum ∧ s.shared.buf.consumeNum = C.maxItemNum := by
  intro h
  have hrun : (System.execAll (step oneEach fun _ => 7)
      (initialState oneEach (fun _ => 0) fun _ => 0) consumerBetween).map
        (fun s => (decide (AllExited oneEach s), s.shared.buf.consumeNum)) =
          some (true, 0) := by decide
  rcases Option.map_eq_some_iff.mp hrun with ⟨s, hexec, hvalues⟩
  simp only [Prod.mk.injEq, decide_eq_true_eq] at hvalues
  have hall := (h oneEach _ s (reachable_of_run hexec) hvalues.left).right
  rw [hvalues.right] at hall
  cases hall

end ProducerConsumer
end OsLabs
