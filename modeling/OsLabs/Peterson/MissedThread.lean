import OsLabs.Peterson.HandOver

/-!
# The thread that no scan looks at

With two or more threads the last one can climb the filter alone, and then the
first one, which does not see it.  So the locks of `shmwrite.c` and `shmread.c`
are exclusive in every run only if there is one thread.
-/

namespace OsLabs
namespace Peterson

open Foundation

/-!
# One thread alone
-/

section Solo

variable {num i : Int} {P : LockState -> Prop}

def ClosedUnder (num i : Int) (P : LockState -> Prop) : Prop :=
  forall s t, P s -> s.pc i ≠ LockPc.inside -> lockStep num s i = some t -> P t

theorem goto_goto (s : LockState) (i : Int) (pc pc' : LockPc) :
    (s.goto i pc).goto i pc' = s.goto i pc' := by
  unfold LockState.goto
  rw [Function.update_idem]

def OthersOut (num i : Int) (s : LockState) : Prop :=
  forall j, 0 ≤ j -> j < num -> j ≠ i -> s.level j < 0

theorem solo_retest (hP : ClosedUnder num i P) (hnum : num ≤ MAX_N) {s : LockState}
    {lev k : Int} (hlev : 0 ≤ lev) (hlevNum : lev < num - 1) (hout : OthersOut num i s)
    (hturn : s.waiting lev = i) (hk : 0 ≤ k) (hkNum : k < num)
    (hs : P (s.goto i (LockPc.testLevel lev k))) :
    P (s.goto i (scanFrom num lev (k + 1))) := by
  have hclear : P (s.goto i (LockPc.retestWaiting lev k)) := by
    apply hP _ _ hs
    · rw [goto_pc_self]
      exact LockPc.noConfusion
    · have hlow : ¬ (s.level k ≥ lev ∧ k ≠ i) := by
        intro hbad
        have hlt := hout k hk hkNum hbad.right
        lia
      simp only [lockStep, goto_pc_self]
      rw [if_pos ⟨hk, by lia⟩, goto_goto, goto_level, if_neg hlow]
  apply hP _ _ hclear
  · rw [goto_pc_self]
    exact LockPc.noConfusion
  · simp only [lockStep, goto_pc_self]
    rw [if_pos ⟨hlev, by lia⟩, goto_goto, goto_waiting, if_neg (not_not.mpr hturn)]

theorem solo_scan (hP : ClosedUnder num i P) (hnum : num ≤ MAX_N) {lev : Int} (hlev : 0 ≤ lev)
    (hlevNum : lev < num - 1) (m : Nat) :
    forall (s : LockState) (k : Int), OthersOut num i s -> s.waiting lev = i -> 0 ≤ k ->
      k + m + 1 = num -> P (s.goto i (LockPc.testLevel lev k)) ->
      P (s.goto i (enterLevel num (lev + 1))) := by
  induction m with
  | zero =>
      intro s k hout hturn hk hend hs
      have hretest := solo_retest hP hnum hlev hlevNum hout hturn hk (by lia) hs
      have hlast : k + 1 = num := by lia
      rw [hlast, scanFrom_end] at hretest
      exact hretest
  | succ m ih =>
      intro s k hout hturn hk hend hs
      have hretest := solo_retest hP hnum hlev hlevNum hout hturn hk (by lia) hs
      rw [scanFrom_lt (by lia)] at hretest
      exact ih s (k + 1) hout hturn (by lia) (by lia) hretest

theorem solo_level (hP : ClosedUnder num i P) (hnum : num ≤ MAX_N) (hi : LevelIndex i)
    {s : LockState} {lev : Int} (hlev : 0 ≤ lev) (hlevNum : lev < num - 1)
    (hout : OthersOut num i s) (hpc : s.pc i = LockPc.setLevel lev) (hs : P s) :
    P (((s.setLevel i lev).setWaiting lev i).goto i (enterLevel num (lev + 1))) := by
  have hwait : WaitingIndex lev := ⟨hlev, by lia⟩
  have hset : P ((s.setLevel i lev).goto i (LockPc.setWaiting lev)) := by
    apply hP s _ hs
    · rw [hpc]
      exact LockPc.noConfusion
    · simp only [lockStep, hpc]
      exact if_pos hi
  have hregister : P (((s.setLevel i lev).setWaiting lev i).goto i (LockPc.testWaiting lev)) := by
    apply hP _ _ hset
    · rw [goto_pc_self]
      exact LockPc.noConfusion
    · simp only [lockStep, goto_pc_self]
      rw [if_pos hwait]
      exact congrArg some (goto_goto ((s.setLevel i lev).setWaiting lev i) i
        (LockPc.setWaiting lev) (LockPc.testWaiting lev))
  have hscan : P (((s.setLevel i lev).setWaiting lev i).goto i (LockPc.testLevel lev 0)) := by
    apply hP _ _ hregister
    · rw [goto_pc_self]
      exact LockPc.noConfusion
    · simp only [lockStep, goto_pc_self]
      rw [if_pos hwait, goto_goto, goto_waiting, setWaiting_waiting, if_pos rfl, if_pos rfl,
        scanFrom_lt (by lia)]
  apply solo_scan hP hnum hlev hlevNum (num - 1).toNat _ 0 _ _ (le_refl 0) (by lia) hscan
  · intro j hj hjn hne
    rw [setWaiting_level, setLevel_level, if_neg hne]
    exact hout j hj hjn hne
  · rw [setWaiting_waiting, if_pos rfl]

/-- A thread alone gets inside, and the other threads stay where they are. -/
theorem solo_enter (hP : ClosedUnder num i P) (hnum : num ≤ MAX_N) (hi : LevelIndex i)
    (m : Nat) :
    forall (s : LockState) (lev : Int), 0 ≤ lev -> num - 1 ≤ lev + m -> OthersOut num i s ->
      s.pc i = enterLevel num lev -> P s ->
      exists t, P t ∧ t.pc i = LockPc.inside ∧
        forall j, j ≠ i -> t.pc j = s.pc j ∧ t.level j = s.level j := by
  induction m with
  | zero =>
      intro s lev hlev hend hout hpc hs
      refine ⟨s, hs, ?_, fun j _ => ⟨rfl, rfl⟩⟩
      rw [hpc]
      exact if_neg (by lia)
  | succ m ih =>
      intro s lev hlev hend hout hpc hs
      by_cases hlast : lev < num - 1
      · have hset : s.pc i = LockPc.setLevel lev := by
          rw [hpc]
          exact if_pos hlast
        have hnext := solo_level hP hnum hi hlev hlast hout hset hs
        have hothers : forall j, j ≠ i ->
            (((s.setLevel i lev).setWaiting lev i).goto i (enterLevel num (lev + 1))).pc j =
                s.pc j ∧
              (((s.setLevel i lev).setWaiting lev i).goto i
                (enterLevel num (lev + 1))).level j = s.level j := by
          intro j hne
          simp [hne]
        have hout' : OthersOut num i
            (((s.setLevel i lev).setWaiting lev i).goto i (enterLevel num (lev + 1))) := by
          intro j hj hjn hne
          rw [(hothers j hne).right]
          exact hout j hj hjn hne
        rcases ih _ (lev + 1) (by lia) (by lia) hout' (goto_pc_self _ i _) hnext with
          ⟨t, ht, hin, hrest⟩
        refine ⟨t, ht, hin, ?_⟩
        intro j hne
        rw [(hrest j hne).left, (hrest j hne).right]
        exact hothers j hne
      · refine ⟨s, hs, ?_, fun j _ => ⟨rfl, rfl⟩⟩
        rw [hpc]
        exact if_neg hlast

end Solo

/-!
# Two threads inside
-/

section Missed

variable {num : Side -> Int} {tid : Int -> Int} {side : Side}

theorem shmStep_lock {s : SharedState} {i : Int} {lock : LockState}
    (halive : (s.proc side).killed = false)
    (hout : (s.proc side).lock.pc i ≠ LockPc.inside)
    (hlock : lockStep (num side) (s.proc side).lock i = some lock) :
    shmStep num tid s (side, i) =
      some (s.setProc side { s.proc side with lock := lock }) := by
  have hprocess : forall next, processStep (num side) next (s.proc side) i =
      some { s.proc side with lock := lock } := by
    intro next
    simp [processStep, halive, hout, hlock]
  cases side with
  | writer => simp [shmStep, writeFtnStep, bufferStep, halive, hout, hprocess]
  | reader => simp [shmStep, readFtnStep, bufferStep, halive, hout, hprocess]

def onlyLock (num : Side -> Int) (side : Side) (lock : LockState) : SharedState :=
  (initialShared num "").setProc side { initialProcess (num side) with lock := lock }

theorem onlyLock_initial (num : Side -> Int) (side : Side) :
    onlyLock num side (initialLock (num side)) = initialShared num "" := by
  unfold onlyLock SharedState.setProc
  congr 1
  exact Function.update_eq_self side _

theorem onlyLock_proc (num : Side -> Int) (side : Side) (lock : LockState) :
    (onlyLock num side lock).proc side = { initialProcess (num side) with lock := lock } :=
  setProc_proc_self _ side _

theorem onlyLock_closed (tid : Int -> Int) {i : Int} (hi : i ∈ bufferThreads (num side)) :
    ClosedUnder (num side) i
      fun lock => (shmSystem num tid).Reachable (onlyLock num side lock) := by
  intro s t hs hout hstep
  refine System.Reachable.step (a := (side, i)) hs ⟨hi, ?_⟩
  have hproc := onlyLock_proc num side s
  have halive : ((onlyLock num side s).proc side).killed = false := by
    rw [hproc]
    rfl
  have hout' : ((onlyLock num side s).proc side).lock.pc i ≠ LockPc.inside := by
    rw [hproc]
    exact hout
  have hlock : lockStep (num side) ((onlyLock num side s).proc side).lock i = some t := by
    rw [hproc]
    exact hstep
  rw [shmStep_lock halive hout' hlock, hproc]
  unfold onlyLock SharedState.setProc
  simp

/-- The last thread and the first one can be inside together. -/
theorem missed_thread (tid : Int -> Int) (hmany : 2 ≤ num side) (hmax : num side < MAX_N) :
    exists s, (shmSystem num tid).Reachable s ∧
      (s.proc side).lock.pc 1 = LockPc.inside ∧
      (s.proc side).lock.pc (num side) = LockPc.inside := by
  have hlast : num side ∈ bufferThreads (num side) := mem_bufferThreads.mpr ⟨by lia, le_refl _⟩
  have hfirst : 1 ∈ bufferThreads (num side) := mem_bufferThreads.mpr ⟨le_refl 1, by lia⟩
  have hstart : (shmSystem num tid).Reachable
      (onlyLock num side (initialLock (num side))) := by
    rw [onlyLock_initial]
    exact System.Reachable.init ⟨"", rfl⟩
  rcases solo_enter (onlyLock_closed tid hlast) (le_of_lt hmax) ⟨by lia, hmax⟩
    (num side).toNat (initialLock (num side)) 0 (le_refl 0) (by lia)
    (fun _ _ _ _ => Int.negSucc_lt_zero 0) rfl hstart with ⟨s, hs, hsIn, hsOther⟩
  have hone : (1 : Int) ≠ num side := by lia
  have hout : OthersOut (num side) 1 s := by
    intro j hj hjn _
    rw [(hsOther j (by lia)).right]
    exact Int.negSucc_lt_zero 0
  rcases solo_enter (onlyLock_closed tid hfirst) (le_of_lt hmax) ⟨by decide, by lia⟩
    (num side).toNat s 0 (le_refl 0) (by lia) hout (hsOther 1 hone).left hs with
    ⟨t, ht, htIn, htOther⟩
  refine ⟨_, ht, ?_, ?_⟩
  · rw [onlyLock_proc]
    exact htIn
  · rw [onlyLock_proc]
    exact (htOther (num side) hone.symm).left.trans hsIn

theorem not_exclusive (tid : Int -> Int) (hmany : 2 ≤ num side) (hmax : num side < MAX_N) :
    exists s, (shmSystem num tid).Reachable s ∧ ¬ Exclusive (num side) (s.proc side) := by
  rcases missed_thread tid hmany hmax with ⟨s, hs, hfirst, hlast⟩
  refine ⟨s, hs, ?_⟩
  intro hexclusive
  have hsame := hexclusive 1 (num side) (le_refl 1) (by lia) (by lia) (le_refl _) hfirst hlast
  lia

/-- A single thread on each side is not missed by anybody. -/
theorem guarded_of_single (hsingle : forall side, num side ≤ 1) {s : SharedState}
    (hs : (shmSystem num tid).Reachable s) : (guardedSystem num tid).Reachable s := by
  induction hs with
  | init hinit => exact System.Reachable.init hinit
  | step _ hstep ih =>
      rename_i a _
      refine System.Reachable.step ih ⟨?_, hstep⟩
      intro lev _ _ hne
      have hrange := mem_bufferThreads.mp hstep.left
      have hle := hsingle a.1
      lia

end Missed

/-!
# When the messages are handed over
-/

/-- Along every run in which no scan ends while the last thread is at its level or
above, the messages are handed over and no access is outside of the arrays.  These
are all the runs exactly if no side has two threads. -/
theorem hand_over_exact {num : Side -> Int} (hmax : forall side, num side < MAX_N)
    (tid : Int -> Int) :
    (forall s, (guardedSystem num tid).Reachable s ->
      HandsOver num s ∧
      forall a : Side × Int, a.2 ∈ bufferThreads (num a.1) ->
        (s.proc a.1).lock.pc a.2 ≠ LockPc.exited ->
        exists t, shmStep num tid s a = some t) ∧
    ((forall s, (shmSystem num tid).Reachable s -> HandsOver num s) <->
      forall side, num side ≤ 1) := by
  refine ⟨?_, ?_, ?_⟩
  · intro s hs
    rcases reachable_sharedInv hs with ⟨slot, h⟩
    exact ⟨guarded_handsOver hs, fun a ha hpc => h.can_step tid (hmax a.1) ha hpc⟩
  · intro hall side
    apply le_of_not_gt
    intro hmany
    rcases not_exclusive tid hmany (hmax side) with ⟨s, hs, hnot⟩
    exact hnot ((hall s hs).exclusive side)
  · intro hsingle s hs
    exact guarded_handsOver (guarded_of_single hsingle hs)

def twoWriters : Side -> Int
  | Side.writer => 2
  | Side.reader => 1

/-- Writer 2 stores its message, and the reader prints it. -/
theorem hand_over_exact_two_writers :
    exists s, (guardedSystem twoWriters fun i => i).Reachable s ∧
      s.log = [BufferEvent.stored (message 2), BufferEvent.printed 1 (message 2)] ∧
      HandsOver twoWriters s := by
  have hrun : (System.execAll (shmStep twoWriters fun i => i) (initialShared twoWriters "")
      (List.replicate 16 (Side.writer, 2) ++ List.replicate 9 (Side.reader, 1))).map
        SharedState.log =
      some [BufferEvent.stored (message 2), BufferEvent.printed 1 (message 2)] := rfl
  rcases Option.map_eq_some_iff.mp hrun with ⟨s, hexec, hlog⟩
  have hinit : (guardedSystem twoWriters fun i => i).Reachable (initialShared twoWriters "") :=
    System.Reachable.init ⟨"", rfl⟩
  have hreach : (guardedSystem twoWriters fun i => i).Reachable s := by
    apply System.Reachable.of_execAll _ hinit hexec
    intro s a t ha hstep
    have hlast : a.2 = twoWriters a.1 := by
      cases List.mem_append.mp ha with
      | inl hmem => rw [List.eq_of_mem_replicate hmem]; rfl
      | inr hmem => rw [List.eq_of_mem_replicate hmem]; rfl
    refine ⟨fun _ _ _ hne => absurd hlast hne, ?_, hstep⟩
    rw [hlast]
    exact mem_bufferThreads.mpr ⟨by cases a.1 <;> decide, le_refl _⟩
  have hmax : forall side, twoWriters side < MAX_N := by
    intro side
    cases side <;> decide
  exact ⟨s, hreach, hlog, ((hand_over_exact hmax fun i => i).left s hreach).left⟩

/-- Writer 2 climbs the filter alone, then writer 1; each of them finds the buffer
writable, and both store their message. -/
def overtaking : List (Side × Int) :=
  List.replicate 7 (Side.writer, 2) ++ List.replicate 7 (Side.writer, 1) ++
    List.replicate 6 (Side.writer, 2) ++ List.replicate 7 (Side.writer, 1) ++
    [(Side.writer, 2)]

/-- Both writers are inside, and the second overwrites the message of the first. -/
theorem writers_not_exclusive :
    exists s, (shmSystem twoWriters fun i => i).Reachable s ∧
      ¬ Exclusive (twoWriters Side.writer) (s.proc Side.writer) ∧ ¬ Lossless s.log := by
  have hrun : (System.execAll (shmStep twoWriters fun i => i) (initialShared twoWriters "")
      overtaking).map
        (fun s => (s.log, (s.proc Side.writer).lock.pc 1, (s.proc Side.writer).lock.pc 2)) =
      some ([BufferEvent.stored (message 1), BufferEvent.stored (message 2)],
        LockPc.inside, LockPc.inside) := rfl
  rcases Option.map_eq_some_iff.mp hrun with ⟨s, hexec, hend⟩
  rcases Prod.mk.inj hend with ⟨hlog, hpcs⟩
  rcases Prod.mk.inj hpcs with ⟨hfirst, hsecond⟩
  refine ⟨s, ?_, ?_, ?_⟩
  · have hinit : (shmSystem twoWriters fun i => i).Reachable (initialShared twoWriters "") :=
      System.Reachable.init ⟨"", rfl⟩
    have hlabels : forall a, a ∈ overtaking -> a = (Side.writer, 1) ∨ a = (Side.writer, 2) := by
      decide
    apply System.Reachable.of_execAll _ hinit hexec
    intro s a t ha hstep
    refine ⟨?_, hstep⟩
    cases hlabels a ha with
    | inl heq => rw [heq]; exact mem_bufferThreads.mpr ⟨by decide, by decide⟩
    | inr heq => rw [heq]; exact mem_bufferThreads.mpr ⟨by decide, by decide⟩
  · intro hexclusive
    have hsame := hexclusive 1 2 (by decide) (by decide) (by decide) (by decide) hfirst hsecond
    exact absurd hsame (by decide)
  · intro hlossless
    rcases hlossless [] (message 1) [] (message 2) [] hlog (by simp) with ⟨i, hbad⟩
    cases hbad

end Peterson
end OsLabs
