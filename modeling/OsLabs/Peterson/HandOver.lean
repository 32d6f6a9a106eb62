import OsLabs.Peterson.SharedMemory

/-!
# The hand-over of messages

Along the runs in which no scan ends while the last thread is at its level or
above, both locks are exclusive, and then the flag `written` hands the buffer from
a writer to a reader and back.
-/

namespace OsLabs
namespace Peterson

open Foundation

/-- A thread is about to make the given access of its critical section. -/
def Process.At (p : Process) (i : Int) (pc : BodyPc) : Prop :=
  p.lock.pc i = LockPc.inside ∧ p.body i = pc

def UsesBuffer (pc : BodyPc) : Prop := pc = BodyPc.transfer ∨ pc = BodyPc.setWritten

/-!
# Steps that do not use the buffer
-/

section ProcessStep

variable {num i : Int} {threads : Finset Int} {p q : Process}

theorem processStep_cases (hstep : processStep num BodyPc.await p i = some q) :
    (exists lock, lockStep num p.lock i = some lock ∧ q = { p with lock := lock } ∧
      (p.lock.pc i = LockPc.inside -> p.body i = BodyPc.leave)) ∨
    (exists pc counter killed,
      q = { p with body := Function.update p.body i pc, counter := counter, killed := killed } ∧
        ¬ UsesBuffer (p.body i) ∧ ¬ UsesBuffer pc) := by
  have hlocked : (lockStep num p.lock i).map (fun lock => { p with lock := lock }) = some q ->
      (p.lock.pc i = LockPc.inside -> p.body i = BodyPc.leave) ->
      exists lock, lockStep num p.lock i = some lock ∧ q = { p with lock := lock } ∧
        (p.lock.pc i = LockPc.inside -> p.body i = BodyPc.leave) := by
    intro hmap hleave
    rcases Option.map_eq_some_iff.mp hmap with ⟨lock, hlock, heq⟩
    exact ⟨lock, hlock, heq.symm, hleave⟩
  unfold processStep at hstep
  split at hstep
  · cases hstep
  · split at hstep
    · cases hbody : p.body i with
      | incLoad =>
          rw [hbody] at hstep
          cases hstep
          exact Or.inr ⟨_, _, _, rfl, by simp [UsesBuffer], by simp [UsesBuffer]⟩
      | incStore value =>
          rw [hbody] at hstep
          cases hstep
          exact Or.inr ⟨_, _, _, rfl, by simp [UsesBuffer], by simp [UsesBuffer]⟩
      | test =>
          rw [hbody] at hstep
          dsimp only at hstep
          split at hstep
          · cases hstep
            refine Or.inr ⟨BodyPc.test, p.counter, true, ?_, by simp [UsesBuffer],
              by simp [UsesBuffer]⟩
            rw [← hbody, Function.update_eq_self]
          · cases hstep
            exact Or.inr ⟨_, _, _, rfl, by simp [UsesBuffer], by simp [UsesBuffer]⟩
      | decLoad =>
          rw [hbody] at hstep
          cases hstep
          exact Or.inr ⟨_, _, _, rfl, by simp [UsesBuffer], by simp [UsesBuffer]⟩
      | decStore value =>
          rw [hbody] at hstep
          cases hstep
          exact Or.inr ⟨_, _, _, rfl, by simp [UsesBuffer], by simp [UsesBuffer]⟩
      | leave =>
          simp only [hbody] at hstep
          rcases hlocked hstep fun _ => hbody with ⟨lock, hlock, heq, _⟩
          exact Or.inl ⟨lock, hlock, heq, fun _ => rfl⟩
      | await =>
          rw [hbody] at hstep
          cases hstep
      | transfer =>
          rw [hbody] at hstep
          cases hstep
      | setWritten =>
          rw [hbody] at hstep
          cases hstep
    · rename_i hout
      exact Or.inl (hlocked hstep fun hin => absurd hin hout)

/-- The lock and the counter neither begin nor end the use of the buffer. -/
theorem ProcessInv.at_iff (h : ProcessInv num threads p) (hi : i ∈ threads)
    (hstep : processStep num BodyPc.await p i = some q) {pc : BodyPc} (hpc : UsesBuffer pc)
    (j : Int) : q.At j pc <-> p.At j pc := by
  have hidle : ¬ UsesBuffer BodyPc.leave ∧ ¬ UsesBuffer BodyPc.incLoad := by simp [UsesBuffer]
  unfold Process.At
  cases processStep_cases hstep with
  | inl hlock =>
      rcases hlock with ⟨lock, hlock, heq, hleave⟩
      have hmove := lockMove_of_step hlock
      subst heq
      by_cases hji : j = i
      · subst hji
        constructor
        · intro hat
          have hout : p.lock.pc j ≠ LockPc.inside := by
            intro hin
            have hexit := hmove.leaves hin
            rw [show lock.pc j = LockPc.inside from hat.left] at hexit
            cases hexit
          have hbody := h.outside j hi hout hmove.not_exited
          rw [show p.body j = pc from hat.right] at hbody
          rw [hbody] at hpc
          exact absurd hpc hidle.right
        · intro hat
          have hbody := hleave hat.left
          rw [hat.right] at hbody
          rw [hbody] at hpc
          exact absurd hpc hidle.left
      · change lock.pc j = _ ∧ _ <-> _
        rw [hmove.pc_other hji]
  | inr hbody =>
      rcases hbody with ⟨pc', counter, killed, heq, hnot, hnot'⟩
      subst heq
      change _ ∧ Function.update p.body i pc' j = pc <-> _
      by_cases hji : j = i
      · subst hji
        rw [Function.update_self]
        constructor
        · intro hat
          rw [hat.right] at hnot'
          exact absurd hpc hnot'
        · intro hat
          rw [hat.right] at hnot
          exact absurd hpc hnot
      · rw [Function.update_of_ne hji]

end ProcessStep

/-!
# The invariant of one side
-/

/-- The value of `written` with which a side may use the buffer. -/
def Side.ready : Side -> Int
  | Side.writer => 0
  | Side.reader => 1

def Side.other : Side -> Side
  | Side.writer => Side.reader
  | Side.reader => Side.writer

theorem Side.other_ne (side : Side) : side.other ≠ side := by
  cases side <;> decide

theorem Side.eq_other {side other : Side} (hne : other ≠ side) : other = side.other := by
  cases side <;> cases other <;> simp_all [Side.other]

theorem Side.ready_ne {side other : Side} (hne : other ≠ side) : other.ready ≠ side.ready := by
  cases side <;> cases other <;> simp_all [Side.ready]

theorem Side.ready_cases {written : Int} (h : written = 0 ∨ written = 1) (side : Side) :
    written = side.ready ∨ written = side.other.ready := by
  cases side with
  | writer => exact h
  | reader => exact h.symm

/-- What the buffer holds before a side has used it. -/
def SharedState.before (s : SharedState) : Side -> Option String
  | Side.writer => none
  | Side.reader => some s.mtext

/-- What the buffer holds after a side has used it. -/
def SharedState.after (s : SharedState) : Side -> Option String
  | Side.writer => some s.mtext
  | Side.reader => none

structure SideInv (num : Int) (s : SharedState) (slot : Option String) (side : Side) :
    Prop where
  process : ProcessInv num (bufferThreads num) (s.proc side)
  transfer : forall i, i ∈ bufferThreads num -> (s.proc side).At i BodyPc.transfer ->
    s.written = side.ready ∧ slot = s.before side
  setWritten : forall i, i ∈ bufferThreads num -> (s.proc side).At i BodyPc.setWritten ->
    s.written = side.ready ∧ slot = s.after side
  idle : s.written = side.ready ->
    (forall i, i ∈ bufferThreads num -> ¬ (s.proc side).At i BodyPc.setWritten) ->
    slot = s.before side

structure SharedInv (num : Side -> Int) (s : SharedState) (slot : Option String) : Prop where
  written : s.written = 0 ∨ s.written = 1
  record : slotAfter s.log = some slot
  side : forall side, SideInv (num side) s slot side

section Frame

variable {num : Int} {s t : SharedState} {slot slot' : Option String} {side : Side}

/-- Only the side that may use the buffer says anything about it. -/
theorem SideInv.frame (h : SideInv num s slot side) (hproc : t.proc side = s.proc side)
    (hwritten : t.written = s.written)
    (hbuffer : s.written = side.ready -> slot' = slot ∧ t.mtext = s.mtext) :
    SideInv num t slot' side := by
  have hbefore : t.mtext = s.mtext -> t.before side = s.before side := by
    intro heq
    cases side with
    | writer => rfl
    | reader => exact congrArg some heq
  have hafter : t.mtext = s.mtext -> t.after side = s.after side := by
    intro heq
    cases side with
    | writer => exact congrArg some heq
    | reader => rfl
  constructor
  · rw [hproc]
    exact h.process
  · intro i hi hat
    rw [hproc] at hat
    rcases h.transfer i hi hat with ⟨hready, hslot⟩
    rcases hbuffer hready with ⟨hsame, htext⟩
    rw [hwritten, hbefore htext, hsame]
    exact ⟨hready, hslot⟩
  · intro i hi hat
    rw [hproc] at hat
    rcases h.setWritten i hi hat with ⟨hready, hslot⟩
    rcases hbuffer hready with ⟨hsame, htext⟩
    rw [hwritten, hafter htext, hsame]
    exact ⟨hready, hslot⟩
  · intro hready hnone
    rw [hwritten] at hready
    rw [hproc] at hnone
    rcases hbuffer hready with ⟨hsame, htext⟩
    rw [hbefore htext, hsame]
    exact h.idle hready hnone

theorem setProc_proc_self (s : SharedState) (side : Side) (p : Process) :
    (s.setProc side p).proc side = p := by
  simp [SharedState.setProc]

theorem setProc_proc_other (s : SharedState) {side other : Side} (hne : other ≠ side)
    (p : Process) : (s.setProc side p).proc other = s.proc other := by
  simp [SharedState.setProc, hne]

end Frame

/-!
# One step
-/

section Steps

variable {num : Side -> Int} {s t : SharedState} {slot : Option String} {side : Side} {i : Int}

theorem SharedInv.process_step (h : SharedInv num s slot)
    (hi : i ∈ bufferThreads (num side))
    (hsees : SeesAll (num side) (bufferThreads (num side)) (s.proc side).lock i) {q : Process}
    (hstep : processStep (num side) BodyPc.await (s.proc side) i = some q) :
    SharedInv num (s.setProc side q) slot := by
  have hown := h.side side
  have hnext : forall counter, counter = 0 -> Fits BodyPc.await counter := fun _ hzero => hzero
  have hat : forall {pc}, UsesBuffer pc -> forall j, q.At j pc <-> (s.proc side).At j pc :=
    fun hpc j => hown.process.at_iff hi hstep hpc j
  refine ⟨h.written, h.record, ?_⟩
  intro other
  by_cases hsame : other = side
  · subst hsame
    constructor
    · rw [setProc_proc_self]
      exact hown.process.step (bufferThreads_card _) hi hsees hnext hstep
    · intro j hj htransfer
      rw [setProc_proc_self, hat (Or.inl rfl)] at htransfer
      exact hown.transfer j hj htransfer
    · intro j hj hset
      rw [setProc_proc_self, hat (Or.inr rfl)] at hset
      exact hown.setWritten j hj hset
    · intro hready hnone
      apply hown.idle hready
      intro j hj hset
      apply hnone j hj
      rw [setProc_proc_self, hat (Or.inr rfl)]
      exact hset
  · exact (h.side other).frame (setProc_proc_other s hsame q) rfl fun _ => ⟨rfl, rfl⟩

theorem SideInv.goto_process {n : Int} (h : SideInv n s slot side) (hi : i ∈ bufferThreads n)
    (hin : (s.proc side).lock.pc i = LockPc.inside) {pc : BodyPc}
    (hfits : Fits pc (s.proc side).counter) :
    ProcessInv n (bufferThreads n) ((s.proc side).goto i pc) :=
  h.process.inside_step (bufferThreads_card n) hi hin hfits

theorem SideInv.at_goto {n : Int} (h : SideInv n s slot side) (hi : i ∈ bufferThreads n)
    (hin : (s.proc side).lock.pc i = LockPc.inside) {pc pc' : BodyPc} {j : Int}
    (hj : j ∈ bufferThreads n) (hat : ((s.proc side).goto i pc).At j pc') :
    j = i ∧ pc = pc' := by
  have heq := h.process.lock.exclusion (bufferThreads_card n) hj hi hat.left hin
  subst heq
  have hbody := hat.right
  change Function.update (s.proc side).body j pc j = pc' at hbody
  rw [Function.update_self] at hbody
  exact ⟨rfl, hbody⟩

theorem SharedInv.await_step (h : SharedInv num s slot) (hi : i ∈ bufferThreads (num side))
    (hat : (s.proc side).At i BodyPc.await) (hwritten : s.written ≠ side.other.ready) :
    SharedInv num (s.goto side i BodyPc.transfer) slot := by
  have hown := h.side side
  have hready : s.written = side.ready := (Side.ready_cases h.written side).resolve_right hwritten
  have hfits := hown.process.fits i hi hat.left
  rw [hat.right] at hfits
  have hslot : slot = s.before side := by
    apply hown.idle hready
    intro j hj hset
    have heq := hown.process.lock.exclusion (bufferThreads_card _) hj hi hset.left hat.left
    subst heq
    have hbody := hset.right
    rw [hat.right] at hbody
    cases hbody
  refine ⟨h.written, h.record, ?_⟩
  intro other
  by_cases hsame : other = side
  · subst hsame
    unfold SharedState.goto
    constructor
    · rw [setProc_proc_self]
      exact hown.goto_process hi hat.left hfits
    · intro j hj _
      exact ⟨hready, hslot⟩
    · intro j hj hset
      rw [setProc_proc_self] at hset
      cases (hown.at_goto hi hat.left hj hset).right
    · intro _ _
      exact hslot
  · exact (h.side other).frame (setProc_proc_other s hsame _) rfl fun _ => ⟨rfl, rfl⟩

/-- A use of the buffer changes nothing but the message and the record, which goes
on as a run of the one-place buffer. -/
structure Uses (side : Side) (s t : SharedState) (slot : Option String) : Prop where
  proc : t.proc = s.proc
  written : t.written = s.written
  record : slotAfter s.log = some slot -> slot = s.before side ->
    slotAfter t.log = some (t.after side)

theorem SharedInv.transfer_step (h : SharedInv num s slot) (hi : i ∈ bufferThreads (num side))
    (hat : (s.proc side).At i BodyPc.transfer) (huses : Uses side s t slot) :
    SharedInv num (t.goto side i BodyPc.setWritten) (t.after side) := by
  have hown := h.side side
  rcases hown.transfer i hi hat with ⟨hready, hslot⟩
  have hfits := hown.process.fits i hi hat.left
  rw [hat.right] at hfits
  refine ⟨?_, huses.record h.record hslot, ?_⟩
  · change t.written = 0 ∨ t.written = 1
    rw [huses.written]
    exact h.written
  intro other
  by_cases hsame : other = side
  · subst hsame
    unfold SharedState.goto
    rw [huses.proc]
    constructor
    · rw [setProc_proc_self]
      exact hown.goto_process hi hat.left hfits
    · intro j hj htransfer
      rw [setProc_proc_self] at htransfer
      cases (hown.at_goto hi hat.left hj htransfer).right
    · intro j hj _
      exact ⟨huses.written.trans hready, rfl⟩
    · intro _ hnone
      refine absurd ?_ (hnone i hi)
      rw [setProc_proc_self]
      exact ⟨hat.left, Function.update_self i _ (s.proc other).body⟩
  · apply (h.side other).frame
    · unfold SharedState.goto
      rw [setProc_proc_other t hsame, huses.proc]
    · exact huses.written
    · intro hbad
      rw [hready] at hbad
      exact absurd hbad.symm (Side.ready_ne hsame)

theorem SharedInv.setWritten_step (h : SharedInv num s slot)
    (hi : i ∈ bufferThreads (num side)) (hat : (s.proc side).At i BodyPc.setWritten) :
    SharedInv num ({ s with written := side.other.ready }.goto side i BodyPc.leave) slot := by
  have hown := h.side side
  rcases hown.setWritten i hi hat with ⟨hready, hslot⟩
  have hfits := hown.process.fits i hi hat.left
  rw [hat.right] at hfits
  refine ⟨?_, h.record, ?_⟩
  · cases side with
    | writer => exact Or.inr rfl
    | reader => exact Or.inl rfl
  intro other
  by_cases hsame : other = side
  · subst hsame
    unfold SharedState.goto
    constructor
    · rw [setProc_proc_self]
      exact hown.goto_process hi hat.left hfits
    · intro j hj htransfer
      rw [setProc_proc_self] at htransfer
      cases (hown.at_goto hi hat.left hj htransfer).right
    · intro j hj hset
      rw [setProc_proc_self] at hset
      cases (hown.at_goto hi hat.left hj hset).right
    · intro hbad _
      exact absurd hbad (Side.ready_ne (Side.other_ne other))
  · have hother : other = side.other := Side.eq_other hsame
    subst hother
    have hnot : forall {pc}, UsesBuffer pc -> forall j, j ∈ bufferThreads (num side.other) ->
        ¬ (s.proc side.other).At j pc := by
      intro pc hpc j hj hbad
      have hwritten : s.written = side.other.ready := by
        cases hpc with
        | inl heq =>
            subst heq
            exact ((h.side side.other).transfer j hj hbad).left
        | inr heq =>
            subst heq
            exact ((h.side side.other).setWritten j hj hbad).left
      rw [hready] at hwritten
      exact Side.ready_ne hsame hwritten.symm
    have hproc := setProc_proc_other { s with written := side.other.ready } hsame
      ((s.proc side).goto i BodyPc.leave)
    unfold SharedState.goto
    constructor
    · rw [hproc]
      exact (h.side side.other).process
    · intro j hj htransfer
      rw [hproc] at htransfer
      exact absurd htransfer (hnot (Or.inl rfl) j hj)
    · intro j hj hset
      rw [hproc] at hset
      exact absurd hset (hnot (Or.inr rfl) j hj)
    · intro _ _
      rw [hslot]
      cases side with
      | writer => rfl
      | reader => rfl

theorem storeText_uses (tid : Int -> Int) (i : Int) (s : SharedState) (slot : Option String) :
    Uses Side.writer s (storeText tid i s) slot := by
  refine ⟨rfl, rfl, ?_⟩
  intro hrecord hslot
  unfold slotAfter storeText
  rw [System.execAll_append]
  change (slotAfter s.log).bind _ = _
  rw [hrecord, hslot]
  rfl

theorem printText_uses (i : Int) (s : SharedState) (slot : Option String) :
    Uses Side.reader s (printText i s) slot := by
  refine ⟨rfl, rfl, ?_⟩
  intro hrecord hslot
  unfold slotAfter printText
  rw [System.execAll_append]
  change (slotAfter s.log).bind _ = _
  rw [hrecord, hslot, Option.bind_some]
  simp [System.execAll, slotStep, SharedState.before, SharedState.after]

theorem SharedInv.buffer_step (h : SharedInv num s slot) (hi : i ∈ bufferThreads (num side))
    (hsees : SeesAll (num side) (bufferThreads (num side)) (s.proc side).lock i)
    {transfer : Int -> SharedState -> SharedState} (huses : Uses side s (transfer i s) slot)
    (hstep : bufferStep side (num side) side.other.ready side.other.ready transfer s i =
      some t) : exists slot', SharedInv num t slot' := by
  have hprocess : (processStep (num side) BodyPc.await (s.proc side) i).map (s.setProc side) =
      some t -> exists slot', SharedInv num t slot' := by
    intro hmap
    rcases Option.map_eq_some_iff.mp hmap with ⟨q, hq, heq⟩
    rw [← heq]
    exact ⟨slot, h.process_step hi hsees hq⟩
  unfold bufferStep at hstep
  split at hstep
  · cases hstep
  · split at hstep
    · rename_i hin
      split at hstep
      · rename_i hbody
        cases hstep
        split
        · exact ⟨slot, h⟩
        · rename_i hwritten
          exact ⟨slot, h.await_step hi ⟨hin, hbody⟩ hwritten⟩
      · rename_i hbody
        cases hstep
        exact ⟨_, h.transfer_step hi ⟨hin, hbody⟩ huses⟩
      · rename_i hbody
        cases hstep
        exact ⟨slot, h.setWritten_step hi ⟨hin, hbody⟩⟩
      · exact hprocess hstep
    · exact hprocess hstep

theorem SharedInv.step (h : SharedInv num s slot) {tid : Int -> Int} {a : Side × Int}
    (ha : a.2 ∈ bufferThreads (num a.1))
    (hsees : SeesAll (num a.1) (bufferThreads (num a.1)) (s.proc a.1).lock a.2)
    (hstep : shmStep num tid s a = some t) : exists slot', SharedInv num t slot' := by
  rcases a with ⟨side, i⟩
  cases side with
  | writer => exact h.buffer_step ha hsees (storeText_uses tid i s slot) hstep
  | reader => exact h.buffer_step ha hsees (printText_uses i s slot) hstep

end Steps

theorem initialShared_inv (num : Side -> Int) (mtext : String) :
    SharedInv num (initialShared num mtext) none := by
  refine ⟨Or.inl rfl, rfl, ?_⟩
  intro side
  constructor
  · exact initialProcess_inv (num side) (bufferThreads (num side))
  · intro i _ hat
    cases hat.right
  · intro i _ hat
    cases hat.right
  · intro hready _
    cases side with
    | writer => rfl
    | reader => cases hready

/-!
# Whole runs
-/

/-- When a thread other than the last one ends its scan at a level, the last thread
is below that level. -/
def LastBelow (num : Int) (s : LockState) (i : Int) : Prop :=
  forall lev, s.pc i = LockPc.retestWaiting lev (num - 1) -> s.waiting lev = i -> i ≠ num ->
    s.level num < lev

theorem LastBelow.seesAll {num i : Int} {s : LockState} (h : LastBelow num s i) :
    SeesAll num (bufferThreads num) s i := by
  intro lev hpc hturn j hj hhidden hne
  have hlast : j = num := by
    have hrange := mem_bufferThreads.mp hj
    lia
  subst hlast
  exact h lev hpc hturn hne.symm

def guardedSystem (num : Side -> Int) (tid : Int -> Int) : System SharedState (Side × Int) :=
  (shmSystem num tid).restrict fun s a => LastBelow (num a.1) (s.proc a.1).lock a.2

theorem reachable_sharedInv {num : Side -> Int} {tid : Int -> Int} {s : SharedState}
    (hs : (guardedSystem num tid).Reachable s) : exists slot, SharedInv num s slot := by
  apply hs.invariant
  · intro s hinit
    rcases hinit with ⟨mtext, hinit⟩
    rw [hinit]
    exact ⟨none, initialShared_inv num mtext⟩
  · intro s a t hinv hstep
    rcases hinv with ⟨slot, h⟩
    exact h.step hstep.right.left hstep.left.seesAll hstep.right.right

theorem SideInv.can_step {n busy done : Int} {s : SharedState} {slot : Option String}
    {side : Side} (h : SideInv n s slot side) (hnum : n < MAX_N) {i : Int}
    (hi : i ∈ bufferThreads n) (hpc : (s.proc side).lock.pc i ≠ LockPc.exited)
    (transfer : Int -> SharedState -> SharedState) :
    exists t, bufferStep side n busy done transfer s i = some t := by
  have hrange := mem_bufferThreads.mp hi
  have hindex : LevelIndex i := ⟨by lia, by lia⟩
  unfold bufferStep
  rw [if_neg (by rw [h.process.alive]; exact Bool.false_ne_true)]
  cases h.process.can_step (le_of_lt hnum) hi hindex hpc BodyPc.await with
  | inl hstep =>
      rcases hstep with ⟨q, hq⟩
      rw [hq]
      split
      · split
        · exact ⟨_, rfl⟩
        · exact ⟨_, rfl⟩
        · exact ⟨_, rfl⟩
        · exact ⟨_, rfl⟩
      · exact ⟨_, rfl⟩
  | inr hbody =>
      rcases hbody with ⟨hin, hcases⟩
      rw [if_pos hin]
      rcases hcases with hbody | hbody | hbody
      · rw [hbody]
        exact ⟨_, rfl⟩
      · rw [hbody]
        exact ⟨_, rfl⟩
      · rw [hbody]
        exact ⟨_, rfl⟩

theorem SharedInv.can_step {num : Side -> Int} {s : SharedState} {slot : Option String}
    (h : SharedInv num s slot) (tid : Int -> Int) {a : Side × Int} (hnum : num a.1 < MAX_N)
    (ha : a.2 ∈ bufferThreads (num a.1)) (hpc : (s.proc a.1).lock.pc a.2 ≠ LockPc.exited) :
    exists t, shmStep num tid s a = some t := by
  rcases a with ⟨side, i⟩
  cases side with
  | writer => exact (h.side Side.writer).can_step hnum ha hpc (storeText tid)
  | reader => exact (h.side Side.reader).can_step hnum ha hpc printText

theorem guarded_handsOver {num : Side -> Int} {tid : Int -> Int} {s : SharedState}
    (hs : (guardedSystem num tid).Reachable s) : HandsOver num s := by
  rcases reachable_sharedInv hs with ⟨slot, h⟩
  refine ⟨?_, lossless_of_slot h.record⟩
  intro side i j hi hin hj hjn hiIn hjIn
  exact (h.side side).process.lock.exclusion (bufferThreads_card _)
    (mem_bufferThreads.mpr ⟨hi, hin⟩) (mem_bufferThreads.mpr ⟨hj, hjn⟩) hiIn hjIn

end Peterson
end OsLabs
