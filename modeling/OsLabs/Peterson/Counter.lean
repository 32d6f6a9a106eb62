import Mathlib.Data.Finset.Card
import OsLabs.Foundation.Transition
import OsLabs.Peterson.Exclusion

/-!
# The threads of one process

The critical section of the `ftn` functions begins with a check: `counter` is
incremented, tested and decremented again, each with a separate load and store,
and the process is killed if the test fails.  `alg.15-1-peterson-counter.c` does
nothing else in its critical section.
-/

namespace OsLabs
namespace Peterson

open Foundation

/-- The next access of a thread inside its critical section.  The three that
follow the counter are those of `shmwrite.c` and `shmread.c`. -/
inductive BodyPc where
  | incLoad
  | incStore (value : Int)
  | test
  | decLoad
  | decStore (value : Int)
  | await
  | transfer
  | setWritten
  | leave
deriving DecidableEq

/-- The memory of one process, and where its threads are. -/
structure Process where
  lock : LockState
  body : Int -> BodyPc
  counter : Int
  killed : Bool

def Process.goto (p : Process) (i : Int) (pc : BodyPc) : Process :=
  { p with body := Function.update p.body i pc }

/-- One step of thread `i` through the lock and the counter; `next` is what follows
the counter. -/
def processStep (num : Int) (next : BodyPc) (p : Process) (i : Int) : Option Process :=
  if p.killed then none
  else if p.lock.pc i = LockPc.inside then
    match p.body i with
    | BodyPc.incLoad => some (p.goto i (BodyPc.incStore p.counter))
    | BodyPc.incStore value => some { p.goto i BodyPc.test with counter := value + 1 }
    | BodyPc.test =>
        if p.counter > 1 then some { p with killed := true }
        else some (p.goto i BodyPc.decLoad)
    | BodyPc.decLoad => some (p.goto i (BodyPc.decStore p.counter))
    | BodyPc.decStore value => some { p.goto i next with counter := value - 1 }
    | BodyPc.leave => (lockStep num p.lock i).map fun lock => { p with lock := lock }
    | _ => none
  else (lockStep num p.lock i).map fun lock => { p with lock := lock }

def initialProcess (num : Int) : Process where
  lock := initialLock num
  body := fun _ => BodyPc.incLoad
  counter := 0
  killed := false

/-- `ftn` of `alg.15-1-peterson-counter.c`. -/
def ftnStep (max_num : Int) : Process -> Int -> Option Process :=
  processStep max_num BodyPc.leave

/-- The threads that `main` starts; the first one has the given number. -/
def numbered (first num : Int) : Finset Int :=
  (Finset.range num.toNat).image fun i : Nat => (i : Int) + first

def counterThreads (max_num : Int) : Finset Int := numbered 0 max_num

def counterSystem (max_num : Int) : System Process Int where
  init p := p = initialProcess max_num
  step p i q := i ∈ counterThreads max_num ∧ ftnStep max_num p i = some q

theorem mem_numbered {first num i : Int} :
    i ∈ numbered first num <-> first ≤ i ∧ i < first + num := by
  unfold numbered
  rw [Finset.mem_image]
  constructor
  · intro hmem
    rcases hmem with ⟨k, hk, heq⟩
    have hlt := Finset.mem_range.mp hk
    lia
  · intro hrange
    exact ⟨(i - first).toNat, Finset.mem_range.mpr (by lia), by lia⟩

theorem numbered_card (first num : Int) : (numbered first num).card ≤ num.toNat := by
  have hle := Finset.card_image_le (s := Finset.range num.toNat)
    (f := fun i : Nat => (i : Int) + first)
  rw [Finset.card_range] at hle
  exact hle

/-!
# The counter counts the threads inside
-/

def Fits : BodyPc -> Int -> Prop
  | BodyPc.incStore value, counter => value = 0 ∧ counter = 0
  | BodyPc.test, counter => counter = 1
  | BodyPc.decLoad, counter => counter = 1
  | BodyPc.decStore value, counter => value = 1 ∧ counter = 1
  | _, counter => counter = 0

structure ProcessInv (num : Int) (threads : Finset Int) (p : Process) : Prop where
  lock : LockInv num threads p.lock
  alive : p.killed = false
  outside : forall i, i ∈ threads -> p.lock.pc i ≠ LockPc.inside ->
    p.lock.pc i ≠ LockPc.exited -> p.body i = BodyPc.incLoad
  empty : (forall i, i ∈ threads -> p.lock.pc i ≠ LockPc.inside) -> p.counter = 0
  fits : forall i, i ∈ threads -> p.lock.pc i = LockPc.inside -> Fits (p.body i) p.counter

section Steps

variable {num i : Int} {threads : Finset Int} {p q : Process}

theorem initialProcess_inv (num : Int) (threads : Finset Int) :
    ProcessInv num threads (initialProcess num) := by
  constructor
  · exact initialLock_inv num threads
  · rfl
  · intro i _ _ _
    rfl
  · intro _
    rfl
  · intro i _ _
    rfl

theorem ProcessInv.inside_step (h : ProcessInv num threads p) (hcard : threads.card ≤ num.toNat)
    (hi : i ∈ threads) (hin : p.lock.pc i = LockPc.inside) {pc : BodyPc} {counter : Int}
    (hfits : Fits pc counter) :
    ProcessInv num threads
      { p with body := Function.update p.body i pc, counter := counter } := by
  constructor
  · exact h.lock
  · exact h.alive
  · intro j hj hout hnot
    have hne : j ≠ i := fun heq => hout (heq ▸ hin)
    change Function.update p.body i pc j = _
    rw [Function.update_of_ne hne]
    exact h.outside j hj hout hnot
  · intro hnone
    exact absurd hin (hnone i hi)
  · intro j hj hjIn
    have heq := h.lock.exclusion hcard hj hi hjIn hin
    subst heq
    change Fits (Function.update p.body j pc j) counter
    rw [Function.update_self]
    exact hfits

theorem LockMove.leaves {s t : LockState} (h : LockMove num s i t)
    (hin : s.pc i = LockPc.inside) : t.pc i = LockPc.exited := by
  cases h with
  | leave hpc => rw [goto_pc_self]
  | climb hpc => rw [hin] at hpc; cases hpc
  | register hpc => rw [hin] at hpc; cases hpc
  | scan hpc _ => rw [hin] at hpc; cases hpc
  | displaced hpc _ => rw [hin] at hpc; cases hpc
  | blocked hpc => rw [hin] at hpc; cases hpc
  | clear hpc _ => rw [hin] at hpc; cases hpc
  | restart hpc => rw [hin] at hpc; cases hpc
  | advance hpc _ => rw [hin] at hpc; cases hpc

theorem LockMove.not_exited {s t : LockState} (h : LockMove num s i t) :
    s.pc i ≠ LockPc.exited := by
  intro hpc
  cases h <;> simp_all

theorem ProcessInv.lock_step (h : ProcessInv num threads p) (hcard : threads.card ≤ num.toNat)
    (hi : i ∈ threads) (hsees : SeesAll num threads p.lock i) {lock : LockState}
    (hstep : lockStep num p.lock i = some lock)
    (hleave : p.lock.pc i = LockPc.inside -> p.body i = BodyPc.leave) :
    ProcessInv num threads { p with lock := lock } := by
  have hinv := h.lock.step hi hsees hstep
  have hmove := lockMove_of_step hstep
  have hquiet : (forall k, k ∈ threads -> k ≠ i -> p.lock.pc k ≠ LockPc.inside) ->
      p.counter = 0 := by
    intro hothers
    by_cases hin : p.lock.pc i = LockPc.inside
    · have hfits := h.fits i hi hin
      rw [hleave hin] at hfits
      exact hfits
    · apply h.empty
      intro k hk
      by_cases hki : k = i
      · rw [hki]
        exact hin
      · exact hothers k hk hki
  constructor
  · exact hinv
  · exact h.alive
  · intro j hj hout hnot
    by_cases hji : j = i
    · subst hji
      apply h.outside j hj
      · intro hin
        exact hnot (hmove.leaves hin)
      · exact hmove.not_exited
    · change lock.pc j ≠ _ at hout hnot
      rw [hmove.pc_other hji] at hout hnot
      exact h.outside j hj hout hnot
  · intro hnone
    apply hquiet
    intro k hk hki
    rw [← hmove.pc_other hki]
    exact hnone k hk
  · intro j hj hjIn
    change lock.pc j = _ at hjIn
    by_cases hji : j = i
    · subst hji
      have hout : p.lock.pc j ≠ LockPc.inside := by
        intro hin
        rw [hmove.leaves hin] at hjIn
        cases hjIn
      change Fits (p.body j) p.counter
      rw [h.outside j hj hout hmove.not_exited]
      apply hquiet
      intro k hk hkj hkIn
      rw [← hmove.pc_other hkj] at hkIn
      exact hkj (hinv.exclusion hcard hk hj hkIn hjIn)
    · rw [hmove.pc_other hji] at hjIn
      exact h.fits j hj hjIn

theorem ProcessInv.step (h : ProcessInv num threads p) (hcard : threads.card ≤ num.toNat)
    (hi : i ∈ threads) (hsees : SeesAll num threads p.lock i) {next : BodyPc}
    (hnext : forall counter, counter = 0 -> Fits next counter)
    (hstep : processStep num next p i = some q) : ProcessInv num threads q := by
  unfold processStep at hstep
  rw [if_neg (by rw [h.alive]; exact Bool.false_ne_true)] at hstep
  by_cases hin : p.lock.pc i = LockPc.inside
  · rw [if_pos hin] at hstep
    have hfits := h.fits i hi hin
    cases hbody : p.body i with
    | incLoad =>
        rw [hbody] at hstep hfits
        cases hstep
        exact h.inside_step hcard hi hin ⟨hfits, hfits⟩
    | incStore value =>
        rw [hbody] at hstep hfits
        cases hstep
        apply h.inside_step hcard hi hin
        rw [hfits.left]
        rfl
    | test =>
        rw [hbody] at hstep hfits
        have hone : p.counter = 1 := hfits
        have hcheck : ¬ p.counter > 1 := by lia
        simp only [if_neg hcheck] at hstep
        cases hstep
        exact h.inside_step hcard hi hin hfits
    | decLoad =>
        rw [hbody] at hstep hfits
        cases hstep
        exact h.inside_step hcard hi hin ⟨hfits, hfits⟩
    | decStore value =>
        rw [hbody] at hstep hfits
        cases hstep
        apply h.inside_step hcard hi hin
        rw [hfits.left]
        exact hnext _ rfl
    | leave =>
        rw [hbody] at hstep
        rcases Option.map_eq_some_iff.mp hstep with ⟨lock, hlock, heq⟩
        rw [← heq]
        exact h.lock_step hcard hi hsees hlock fun _ => hbody
    | await =>
        rw [hbody] at hstep
        cases hstep
    | transfer =>
        rw [hbody] at hstep
        cases hstep
    | setWritten =>
        rw [hbody] at hstep
        cases hstep
  · rw [if_neg hin] at hstep
    rcases Option.map_eq_some_iff.mp hstep with ⟨lock, hlock, heq⟩
    rw [← heq]
    exact h.lock_step hcard hi hsees hlock fun hbad => absurd hbad hin

/-- No access of an unfinished thread is outside of the arrays; the accesses that
follow the counter are not among those of `processStep`. -/
theorem ProcessInv.can_step (h : ProcessInv num threads p) (hnum : num ≤ MAX_N)
    (hi : i ∈ threads) (hindex : LevelIndex i) (hpc : p.lock.pc i ≠ LockPc.exited)
    (next : BodyPc) :
    (exists q, processStep num next p i = some q) ∨
      (p.lock.pc i = LockPc.inside ∧ (p.body i = BodyPc.await ∨ p.body i = BodyPc.transfer ∨
        p.body i = BodyPc.setWritten)) := by
  rcases h.lock.can_step hnum hi hindex hpc with ⟨lock, hlock⟩
  unfold processStep
  rw [if_neg (by rw [h.alive]; exact Bool.false_ne_true), hlock]
  by_cases hin : p.lock.pc i = LockPc.inside
  · rw [if_pos hin]
    cases hbody : p.body i with
    | incLoad => exact Or.inl ⟨_, rfl⟩
    | incStore value => exact Or.inl ⟨_, rfl⟩
    | test =>
        dsimp only
        split
        · exact Or.inl ⟨_, rfl⟩
        · exact Or.inl ⟨_, rfl⟩
    | decLoad => exact Or.inl ⟨_, rfl⟩
    | decStore value => exact Or.inl ⟨_, rfl⟩
    | leave => exact Or.inl ⟨_, rfl⟩
    | await => exact Or.inr ⟨hin, Or.inl rfl⟩
    | transfer => exact Or.inr ⟨hin, Or.inr (Or.inl rfl)⟩
    | setWritten => exact Or.inr ⟨hin, Or.inr (Or.inr rfl)⟩
  · rw [if_neg hin]
    exact Or.inl ⟨_, rfl⟩

end Steps

/-!
# The threads of `alg.15-1`
-/

section CounterRuns

variable {max_num : Int} {p : Process}

theorem mem_counterThreads {i : Int} :
    i ∈ counterThreads max_num <-> 0 ≤ i ∧ i < max_num := by
  unfold counterThreads
  rw [mem_numbered, Int.zero_add]

theorem counterThreads_card (max_num : Int) :
    (counterThreads max_num).card ≤ max_num.toNat := numbered_card 0 max_num

theorem counterThreads_seesAll (s : LockState) (i : Int) :
    SeesAll max_num (counterThreads max_num) s i := by
  intro lev _ _ j hj hhidden _
  exact absurd (mem_counterThreads.mp hj) hhidden

theorem reachable_processInv (hp : (counterSystem max_num).Reachable p) :
    ProcessInv max_num (counterThreads max_num) p := by
  apply hp.invariant
  · intro p hinit
    rw [show p = initialProcess max_num from hinit]
    exact initialProcess_inv max_num (counterThreads max_num)
  · intro p i q hinv hstep
    have hnext : forall counter, counter = 0 -> Fits BodyPc.leave counter := fun _ hzero => hzero
    exact hinv.step (counterThreads_card max_num) hstep.left (counterThreads_seesAll _ i)
      hnext hstep.right

/-- At most one thread is in its critical section, so the counter is at most one
when it is tested, and nobody is killed. -/
theorem peterson_mutual_exclusion {max_num : Int} {p : Process}
    (hp : (counterSystem max_num).Reachable p) :
    (forall i j, 0 ≤ i -> i < max_num -> 0 ≤ j -> j < max_num ->
      p.lock.pc i = LockPc.inside -> p.lock.pc j = LockPc.inside -> i = j) ∧
    (forall i, 0 ≤ i -> i < max_num -> p.lock.pc i = LockPc.inside ->
      p.body i = BodyPc.test -> p.counter ≤ 1) ∧
    p.killed = false := by
  have hinv := reachable_processInv hp
  refine ⟨?_, ?_, hinv.alive⟩
  · intro i j hi hin hj hjn hiIn hjIn
    exact hinv.lock.exclusion (counterThreads_card max_num) (mem_counterThreads.mpr ⟨hi, hin⟩)
      (mem_counterThreads.mpr ⟨hj, hjn⟩) hiIn hjIn
  · intro i hi hin hiIn hbody
    have hfits := hinv.fits i (mem_counterThreads.mpr ⟨hi, hin⟩) hiIn
    rw [hbody] at hfits
    exact le_of_eq hfits

/-- Thread 1 waits while thread 0 is about to test the counter. -/
theorem peterson_mutual_exclusion_two_threads :
    exists p, (counterSystem 2).Reachable p ∧ p.lock.pc 0 = LockPc.inside ∧
      p.body 0 = BodyPc.test ∧ p.counter ≤ 1 ∧ p.lock.pc 1 ≠ LockPc.inside := by
  have hrun : (System.execAll (ftnStep 2) (initialProcess 2)
      [0, 0, 0, 0, 0, 0, 0, 1, 1, 1, 1, 0, 0]).map
        (fun p => (p.lock.pc 0, p.body 0)) = some (LockPc.inside, BodyPc.test) := by decide
  rcases Option.map_eq_some_iff.mp hrun with ⟨p, hexec, hpcs⟩
  rcases Prod.mk.inj hpcs with ⟨hpc, hbody⟩
  have hreach : (counterSystem 2).Reachable p := by
    apply System.Reachable.of_execAll _ (System.Reachable.init rfl) hexec
    intro s i t hi hstep
    refine ⟨?_, hstep⟩
    have hlabels : forall i : Int, i ∈ ([0, 0, 0, 0, 0, 0, 0, 1, 1, 1, 1, 0, 0] : List Int) ->
        0 ≤ i ∧ i < 2 := by decide
    exact mem_counterThreads.mpr (hlabels i hi)
  rcases peterson_mutual_exclusion hreach with ⟨hexclusion, hcounter, _⟩
  refine ⟨p, hreach, hpc, hbody, hcounter 0 (by decide) (by decide) hpc hbody, ?_⟩
  intro hbad
  have hsame := hexclusion 0 1 (by decide) (by decide) (by decide) (by decide) hpc hbad
  exact absurd hsame (by decide)

end CounterRuns

end Peterson
end OsLabs
