import Mathlib.Algebra.Order.BigOperators.Group.Finset
import Mathlib.Data.Finset.Max
import OsLabs.Foundation.FairRuns
import OsLabs.Peterson.Counter

/-!
# Every thread gets through

On a fair run of the threads of `alg.15-1-peterson-counter.c` every thread enters its critical
section and exits.  What is left to do gets less with every step except those of a scan.  As
long as it does not, nothing is written; then a thread that is not the last one of its level
sees so, and if there is none, the thread at the highest level sees nobody at its level or
above.
-/

namespace OsLabs
namespace Peterson

open Foundation

def bodyLeft : BodyPc -> Nat
  | BodyPc.incLoad => 6
  | BodyPc.incStore _ => 5
  | BodyPc.test => 4
  | BodyPc.decLoad => 3
  | BodyPc.decStore _ => 2
  | BodyPc.leave => 1
  | BodyPc.await => 0
  | BodyPc.transfer => 0
  | BodyPc.setWritten => 0

/-- What a thread has left to do, where all of a scan counts the same. -/
def threadLeft (num : Int) (pc : LockPc) (body : BodyPc) : Nat :=
  match pc with
  | LockPc.setLevel lev => 3 * (num - 1 - lev).toNat + 8
  | LockPc.setWaiting lev => 3 * (num - 1 - lev).toNat + 7
  | LockPc.testWaiting lev => 3 * (num - 1 - lev).toNat + 6
  | LockPc.testLevel lev _ => 3 * (num - 1 - lev).toNat + 6
  | LockPc.retestWaiting lev _ => 3 * (num - 1 - lev).toNat + 6
  | LockPc.inside => bodyLeft body
  | LockPc.exited => 0

def processLeft (num : Int) (threads : Finset Int) (p : Process) : Nat :=
  threads.sum fun i => threadLeft num (p.lock.pc i) (p.body i)

def scans : LockPc -> Option Int
  | LockPc.testWaiting lev => some lev
  | LockPc.testLevel lev _ => some lev
  | LockPc.retestWaiting lev _ => some lev
  | _ => none

/-- `q` differs from `p` in how far the scans are at most. -/
structure Idle (p q : Process) : Prop where
  level : q.lock.level = p.lock.level
  waiting : q.lock.waiting = p.lock.waiting
  body : q.body = p.body
  scanning : forall j, q.lock.pc j = p.lock.pc j ∨
    (scans (p.lock.pc j) ≠ none ∧ scans (q.lock.pc j) = scans (p.lock.pc j))

/-!
# One step
-/

section Steps

variable {num i : Int} {s t : LockState} {p q : Process}

theorem bodyLeft_le (body : BodyPc) : bodyLeft body ≤ 6 := by
  cases body <;> simp [bodyLeft]

theorem enterLevel_left {lev : Int} (hlev : lev < num - 1) (body : BodyPc) :
    threadLeft num (enterLevel num (lev + 1)) body < 3 * (num - 1 - lev).toNat + 6 := by
  have hbody := bodyLeft_le body
  unfold enterLevel
  split
  · change 3 * (num - 1 - (lev + 1)).toNat + 8 < _
    lia
  · change bodyLeft body < _
    lia

theorem LockMove.left_or_scans (h : LockMove num s i t) (hrange : InRange num (s.pc i))
    (hout : s.pc i ≠ LockPc.inside) (body body' : BodyPc) :
    threadLeft num (t.pc i) body' < threadLeft num (s.pc i) body ∨
      (t.level = s.level ∧ t.waiting = s.waiting ∧ scans (s.pc i) ≠ none ∧
        scans (t.pc i) = scans (s.pc i)) := by
  cases h with
  | climb hpc =>
      left
      rw [goto_pc_self, hpc]
      exact Nat.lt_succ_self _
  | register hpc =>
      left
      rw [goto_pc_self, hpc]
      exact Nat.lt_succ_self _
  | scan hpc _ =>
      rw [hpc] at hrange
      right
      rw [goto_pc_self, hpc, scanFrom_lt (by have hlev := hrange.left; have hlt := hrange.right; lia)]
      exact ⟨rfl, rfl, by simp [scans], rfl⟩
  | displaced hpc _ =>
      rw [hpc] at hrange
      left
      rw [goto_pc_self, hpc]
      exact enterLevel_left hrange.right body'
  | blocked hpc =>
      right
      rw [goto_pc_self, hpc]
      exact ⟨rfl, rfl, by simp [scans], rfl⟩
  | clear hpc _ =>
      right
      rw [goto_pc_self, hpc]
      exact ⟨rfl, rfl, by simp [scans], rfl⟩
  | restart hpc =>
      right
      rw [goto_pc_self, hpc]
      exact ⟨rfl, rfl, by simp [scans], rfl⟩
  | advance hpc _ =>
      rw [hpc] at hrange
      rcases hrange with ⟨_, hlt, _, hk⟩
      rw [goto_pc_self, hpc]
      rcases scanFrom_next hk with ⟨hmore, _⟩ | ⟨hend, _⟩
      · right
        rw [hmore]
        exact ⟨rfl, rfl, by simp [scans], rfl⟩
      · left
        rw [hend]
        exact enterLevel_left hlt body'
  | leave hpc => exact absurd hpc hout

end Steps

/-!
# The threads of one process
-/

/-- The invariant of the exclusion proof, what exactly a thread has written to `level`, and
where it can be in its critical section. -/
structure LiveInv (max_num : Int) (p : Process) : Prop where
  process : ProcessInv max_num (counterThreads max_num) p
  level : forall j, j ∈ counterThreads max_num ->
    p.lock.level j = minLevel max_num (p.lock.pc j)
  body : forall j, j ∈ counterThreads max_num -> 0 < bodyLeft (p.body j)

section Process

variable {max_num i : Int} {p q : Process}

theorem LockMove.level_exact {s t : LockState} (h : LockMove max_num s i t)
    (hrange : InRange max_num (s.pc i)) (hlevel : s.level i = minLevel max_num (s.pc i)) :
    t.level i = minLevel max_num (t.pc i) := by
  cases h with
  | climb hpc => simp [minLevel]
  | register hpc =>
      rw [hpc] at hlevel
      simpa [minLevel] using hlevel
  | scan hpc _ =>
      rw [hpc] at hlevel hrange
      rw [goto_pc_self, goto_level, hlevel,
        scanFrom_lt (by have hlev := hrange.left; have hlt := hrange.right; lia)]
      rfl
  | displaced hpc _ =>
      rw [hpc] at hlevel hrange
      rw [goto_pc_self, goto_level, hlevel, (enterLevel_heights hrange.right).right.right]
      rfl
  | blocked hpc =>
      rw [hpc] at hlevel
      rw [goto_pc_self, goto_level, hlevel]
      rfl
  | clear hpc _ =>
      rw [hpc] at hlevel
      rw [goto_pc_self, goto_level, hlevel]
      rfl
  | restart hpc =>
      rw [hpc] at hlevel
      rw [goto_pc_self, goto_level, hlevel]
      rfl
  | advance hpc _ =>
      rw [hpc] at hlevel hrange
      rcases hrange with ⟨_, hlt, _, hk⟩
      rw [goto_pc_self, goto_level, hlevel]
      rcases scanFrom_next hk with ⟨hmore, _⟩ | ⟨hend, _⟩
      · rw [hmore]
        rfl
      · rw [hend, (enterLevel_heights hlt).right.right]
        rfl
  | leave hpc =>
      rw [goto_pc_self]
      simp [minLevel]

theorem enterLevel_running (num lev : Int) : enterLevel num lev ≠ LockPc.exited := by
  unfold enterLevel
  split
  · exact LockPc.noConfusion
  · exact LockPc.noConfusion

theorem scanFrom_running (num lev k : Int) : scanFrom num lev k ≠ LockPc.exited := by
  unfold scanFrom
  split
  · exact LockPc.noConfusion
  · split
    · exact enterLevel_running num (lev + 1)
    · exact LockPc.noConfusion

theorem LockMove.exits {s t : LockState} (h : LockMove max_num s i t)
    (hexit : t.pc i = LockPc.exited) : s.pc i = LockPc.inside := by
  cases h with
  | leave hpc => exact hpc
  | climb hpc => rw [goto_pc_self] at hexit; cases hexit
  | register hpc => rw [goto_pc_self] at hexit; cases hexit
  | scan hpc _ => rw [goto_pc_self] at hexit; exact absurd hexit (scanFrom_running _ _ _)
  | displaced hpc _ => rw [goto_pc_self] at hexit; exact absurd hexit (enterLevel_running _ _)
  | blocked hpc => rw [goto_pc_self] at hexit; cases hexit
  | clear hpc _ => rw [goto_pc_self] at hexit; cases hexit
  | restart hpc => rw [goto_pc_self] at hexit; cases hexit
  | advance hpc _ => rw [goto_pc_self] at hexit; exact absurd hexit (scanFrom_running _ _ _)

inductive FtnMove (max_num : Int) (p : Process) (i : Int) (q : Process) : Prop where
  | lock (hlock : lockStep max_num p.lock i = some q.lock) (hbody : q.body = p.body)
      (hleave : p.lock.pc i = LockPc.inside -> p.body i = BodyPc.leave)
  | body (hin : p.lock.pc i = LockPc.inside) (hlock : q.lock = p.lock)
      (hless : bodyLeft (q.body i) < bodyLeft (p.body i)) (hpos : 0 < bodyLeft (q.body i))
      (hother : forall j, j ≠ i -> q.body j = p.body j)

theorem LiveInv.move (h : LiveInv max_num p) (hi : i ∈ counterThreads max_num)
    (hstep : ftnStep max_num p i = some q) : FtnMove max_num p i q := by
  have hbody := h.body i hi
  have hinside : forall (hin : p.lock.pc i = LockPc.inside) (pc : BodyPc) (counter : Int),
      bodyLeft pc < bodyLeft (p.body i) -> 0 < bodyLeft pc ->
      FtnMove max_num p i { p with body := Function.update p.body i pc, counter := counter } := by
    intro hin pc counter hless hpos
    refine FtnMove.body hin rfl ?_ ?_ ?_
    · change bodyLeft (Function.update p.body i pc i) < _
      rw [Function.update_self]
      exact hless
    · change 0 < bodyLeft (Function.update p.body i pc i)
      rw [Function.update_self]
      exact hpos
    · exact fun j hj => Function.update_of_ne hj _ _
  unfold ftnStep processStep at hstep
  rw [if_neg (by rw [h.process.alive]; exact Bool.false_ne_true)] at hstep
  by_cases hin : p.lock.pc i = LockPc.inside
  · rw [if_pos hin] at hstep
    cases hcase : p.body i with
    | incLoad =>
        rw [hcase] at hstep
        cases hstep
        exact hinside hin _ _ (by rw [hcase]; simp [bodyLeft]) (by simp [bodyLeft])
    | incStore value =>
        rw [hcase] at hstep
        cases hstep
        exact hinside hin _ _ (by rw [hcase]; simp [bodyLeft]) (by simp [bodyLeft])
    | test =>
        have hfits := h.process.fits i hi hin
        rw [hcase] at hstep hfits
        have hone : p.counter = 1 := hfits
        have hcheck : ¬ p.counter > 1 := by lia
        simp only [if_neg hcheck] at hstep
        cases hstep
        exact hinside hin _ _ (by rw [hcase]; simp [bodyLeft]) (by simp [bodyLeft])
    | decLoad =>
        rw [hcase] at hstep
        cases hstep
        exact hinside hin _ _ (by rw [hcase]; simp [bodyLeft]) (by simp [bodyLeft])
    | decStore value =>
        rw [hcase] at hstep
        cases hstep
        exact hinside hin _ _ (by rw [hcase]; simp [bodyLeft]) (by simp [bodyLeft])
    | leave =>
        rw [hcase] at hstep
        rcases Option.map_eq_some_iff.mp hstep with ⟨lock, hlock, heq⟩
        rw [← heq]
        exact FtnMove.lock hlock rfl fun _ => hcase
    | await =>
        rw [hcase] at hbody
        exact absurd hbody (by decide)
    | transfer =>
        rw [hcase] at hbody
        exact absurd hbody (by decide)
    | setWritten =>
        rw [hcase] at hbody
        exact absurd hbody (by decide)
  · rw [if_neg hin] at hstep
    rcases Option.map_eq_some_iff.mp hstep with ⟨lock, hlock, heq⟩
    rw [← heq]
    exact FtnMove.lock hlock rfl fun hbad => absurd hbad hin

theorem LiveInv.step (h : LiveInv max_num p) (hi : i ∈ counterThreads max_num)
    (hstep : ftnStep max_num p i = some q) : LiveInv max_num q := by
  have hnext : forall counter, counter = 0 -> Fits BodyPc.leave counter := fun _ hzero => hzero
  have hprocess := h.process.step (counterThreads_card max_num) hi (counterThreads_seesAll _ i)
    hnext hstep
  have hrange := h.process.lock.range i hi
  cases h.move hi hstep with
  | lock hlock hbody hleave =>
      have hmove := lockMove_of_step hlock
      constructor
      · exact hprocess
      · intro j hj
        by_cases hji : j = i
        · subst hji
          exact hmove.level_exact hrange (h.level j hj)
        · rw [hmove.pc_other hji, hmove.level_other hji]
          exact h.level j hj
      · rw [hbody]
        exact h.body
  | body hin hlock hless hpos hother =>
      constructor
      · exact hprocess
      · rw [hlock]
        exact h.level
      · intro j hj
        by_cases hji : j = i
        · rw [hji]
          exact hpos
        · rw [hother j hji]
          exact h.body j hj

theorem LiveInv.initial (max_num : Int) : LiveInv max_num (initialProcess max_num) := by
  constructor
  · exact initialProcess_inv max_num (counterThreads max_num)
  · intro j hj
    change -1 = minLevel max_num (enterLevel max_num 0)
    have hpos : 0 ≤ j ∧ j < max_num := mem_counterThreads.mp hj
    unfold enterLevel
    split
    · rfl
    · change -1 = max_num - 2
      lia
  · intro j _
    exact Nat.succ_pos 5

/-- A step makes what is left less, or it is one of a scan. -/
theorem LiveInv.left_or_idle (h : LiveInv max_num p) (hi : i ∈ counterThreads max_num)
    (hstep : ftnStep max_num p i = some q) :
    processLeft max_num (counterThreads max_num) q <
        processLeft max_num (counterThreads max_num) p ∨ Idle p q := by
  have hsum : (forall j, j ≠ i -> q.lock.pc j = p.lock.pc j ∧ q.body j = p.body j) ->
      threadLeft max_num (q.lock.pc i) (q.body i) < threadLeft max_num (p.lock.pc i) (p.body i) ->
      processLeft max_num (counterThreads max_num) q <
        processLeft max_num (counterThreads max_num) p := by
    intro hothers hless
    apply Finset.sum_lt_sum
    · intro j _
      by_cases hji : j = i
      · rw [hji]
        exact Nat.le_of_lt hless
      · rw [(hothers j hji).left, (hothers j hji).right]
    · exact ⟨i, hi, hless⟩
  cases h.move hi hstep with
  | lock hlock hbody hleave =>
      have hmove := lockMove_of_step hlock
      have hothers : forall j, j ≠ i -> q.lock.pc j = p.lock.pc j ∧ q.body j = p.body j :=
        fun j hj => ⟨hmove.pc_other hj, by rw [hbody]⟩
      by_cases hin : p.lock.pc i = LockPc.inside
      · left
        apply hsum hothers
        rw [hmove.leaves hin, hin]
        exact h.body i hi
      · rcases hmove.left_or_scans (h.process.lock.range i hi) hin (p.body i) (q.body i) with
          hless | ⟨hlevel, hwaiting, hscans, hsame⟩
        · exact Or.inl (hsum hothers hless)
        · right
          refine ⟨hlevel, hwaiting, hbody, ?_⟩
          intro j
          by_cases hji : j = i
          · rw [hji]
            exact Or.inr ⟨hscans, hsame⟩
          · exact Or.inl (hmove.pc_other hji)
  | body hin hlock hless _ hother =>
      left
      apply hsum
      · exact fun j hj => ⟨by rw [hlock], hother j hj⟩
      · rw [hlock, hin]
        exact hless

/-!
# The thread that gets ahead
-/

theorem Idle.refl (p : Process) : Idle p p := ⟨rfl, rfl, rfl, fun _ => Or.inl rfl⟩

theorem Idle.scans_eq (h : Idle p q) (j : Int) : scans (q.lock.pc j) = scans (p.lock.pc j) := by
  rcases h.scanning j with hsame | ⟨_, hsame⟩
  · rw [hsame]
  · exact hsame

theorem Idle.pc_eq (h : Idle p q) {j : Int} (hnone : scans (p.lock.pc j) = none) :
    q.lock.pc j = p.lock.pc j := by
  rcases h.scanning j with hsame | ⟨hscans, _⟩
  · exact hsame
  · exact absurd hnone hscans

theorem Idle.trans {r : Process} (h : Idle p q) (h' : Idle q r) : Idle p r := by
  constructor
  · rw [h'.level, h.level]
  · rw [h'.waiting, h.waiting]
  · rw [h'.body, h.body]
  · intro j
    rcases h'.scanning j with hsame | ⟨hscans, hsame⟩
    · rw [hsame]
      exact h.scanning j
    · rw [h.scans_eq] at hscans hsame
      exact Or.inr ⟨hscans, hsame⟩

def testDist : LockPc -> Nat
  | LockPc.testLevel _ _ => 2
  | LockPc.retestWaiting _ _ => 1
  | _ => 0

def scanDist (num : Int) : LockPc -> Nat
  | LockPc.testWaiting _ => 2 * num.toNat + 2
  | LockPc.testLevel _ k => 2 * (num - k).toNat + 1
  | LockPc.retestWaiting _ k => 2 * (num - k).toNat
  | _ => 0

theorem scans_enterLevel (num lev : Int) : scans (enterLevel num lev) = none := by
  unfold enterLevel
  split
  · rfl
  · rfl

/-- A thread that is no longer the last one of its level gets through at its next test. -/
theorem LockMove.testDist_lt {s t : LockState} {lev : Int} (h : LockMove max_num s i t)
    (hscan : scans (s.pc i) = some lev) (hsame : scans (t.pc i) = some lev)
    (hturn : s.waiting lev ≠ i) : testDist (t.pc i) < testDist (s.pc i) := by
  cases h with
  | climb hpc =>
      rw [hpc] at hscan
      cases hscan
  | register hpc =>
      rw [hpc] at hscan
      cases hscan
  | scan hpc hlast =>
      rw [hpc] at hscan
      cases hscan
      exact absurd hlast hturn
  | displaced hpc _ =>
      rw [goto_pc_self, scans_enterLevel] at hsame
      cases hsame
  | blocked hpc =>
      rw [goto_pc_self, hpc]
      exact Nat.two_pos
  | clear hpc _ =>
      rw [goto_pc_self, hpc]
      exact Nat.one_lt_two
  | restart hpc =>
      rw [goto_pc_self, hpc]
      exact Nat.one_pos
  | advance hpc hlast =>
      rw [hpc] at hscan
      cases hscan
      exact absurd hlast hturn
  | leave hpc =>
      rw [hpc] at hscan
      cases hscan

theorem scanDist_lt {s t : LockState} {lev : Int} (h : lockStep max_num s i = some t)
    (hrange : InRange max_num (s.pc i)) (hscan : scans (s.pc i) = some lev)
    (hsame : scans (t.pc i) = some lev) (hturn : s.waiting lev = i)
    (habove : forall k, 0 ≤ k -> k < max_num -> k ≠ i -> s.level k < lev) :
    scanDist max_num (t.pc i) < scanDist max_num (s.pc i) := by
  unfold lockStep at h
  cases hpc : s.pc i with
  | testWaiting l =>
      rw [hpc] at h hscan hrange
      cases hscan
      rcases hrange with ⟨hlev, hlt⟩
      simp only [hturn, if_true] at h
      split at h
      · cases h
        rw [goto_pc_self, scanFrom_lt (by lia)]
        change 2 * (max_num - 0).toNat + 1 < 2 * max_num.toNat + 2
        lia
      · cases h
  | testLevel l k =>
      rw [hpc] at h hscan hrange
      cases hscan
      rcases hrange with ⟨_, _, hk, hlt⟩
      have hfree : ¬ (s.level k ≥ lev ∧ k ≠ i) := by
        rintro ⟨hle, hne⟩
        have hlow := habove k hk hlt hne
        lia
      simp only [if_neg hfree] at h
      split at h
      · cases h
        rw [goto_pc_self]
        exact Nat.lt_succ_self _
      · cases h
  | retestWaiting l k =>
      rw [hpc] at h hscan hrange
      cases hscan
      rcases hrange with ⟨_, _, hk, hlt⟩
      simp only [hturn, ne_eq, not_true_eq_false, if_false] at h
      split at h
      · cases h
        rw [goto_pc_self] at hsame ⊢
        rcases scanFrom_next hlt with ⟨hmore, _⟩ | ⟨hend, _⟩
        · rw [hmore]
          change 2 * (max_num - (k + 1)).toNat + 1 < 2 * (max_num - k).toNat
          lia
        · rw [hend, scans_enterLevel] at hsame
          cases hsame
      · cases h
  | setLevel l =>
      rw [hpc] at hscan
      cases hscan
  | setWaiting l =>
      rw [hpc] at hscan
      cases hscan
  | inside =>
      rw [hpc] at hscan
      cases hscan
  | exited =>
      rw [hpc] at hscan
      cases hscan

/-- As long as nothing changes, the thread gets closer with every step of its own. -/
def Helps (max_num : Int) (p : Process) (i : Int) (dist : LockPc -> Nat) : Prop :=
  forall q r, LiveInv max_num q -> Idle p q -> ftnStep max_num q i = some r -> Idle q r ->
    dist (r.lock.pc i) < dist (q.lock.pc i)

theorem LiveInv.scanning_step (h : LiveInv max_num p) (hi : i ∈ counterThreads max_num)
    {lev : Int} (hscan : scans (p.lock.pc i) = some lev) (hstep : ftnStep max_num p i = some q) :
    lockStep max_num p.lock i = some q.lock := by
  cases h.move hi hstep with
  | lock hlock _ _ => exact hlock
  | body hin _ _ _ _ =>
      rw [hin] at hscan
      cases hscan

theorem LiveInv.helps_outside (hi : i ∈ counterThreads max_num)
    (hnone : scans (p.lock.pc i) = none) : Helps max_num p i fun _ => 0 := by
  intro q r hq hidle hstep hstay
  have hscans : scans (q.lock.pc i) = none := by rw [hidle.scans_eq, hnone]
  have hpc := hstay.pc_eq hscans
  exfalso
  cases hq.move hi hstep with
  | lock hlock hbody _ =>
      have hmove := lockMove_of_step hlock
      by_cases hin : q.lock.pc i = LockPc.inside
      · have hleaves := hmove.leaves hin
        rw [hpc, hin] at hleaves
        cases hleaves
      · rcases hmove.left_or_scans (hq.process.lock.range i hi) hin (q.body i) (q.body i) with
          hless | ⟨_, _, hbad, _⟩
        · rw [hpc] at hless
          exact Nat.lt_irrefl _ hless
        · exact hbad hscans
  | body _ _ hless _ _ =>
      rw [hstay.body] at hless
      exact Nat.lt_irrefl _ hless

theorem LiveInv.helps_displaced (hi : i ∈ counterThreads max_num) {lev : Int}
    (hscan : scans (p.lock.pc i) = some lev) (hturn : p.lock.waiting lev ≠ i) :
    Helps max_num p i testDist := by
  intro q r hq hidle hstep hstay
  have hscan' : scans (q.lock.pc i) = some lev := by rw [hidle.scans_eq, hscan]
  have hsame : scans (r.lock.pc i) = some lev := by rw [hstay.scans_eq, hscan']
  have hmove := lockMove_of_step (hq.scanning_step hi hscan' hstep)
  exact hmove.testDist_lt hscan' hsame (by rw [hidle.waiting]; exact hturn)

theorem LiveInv.helps_highest (hi : i ∈ counterThreads max_num) {lev : Int}
    (hscan : scans (p.lock.pc i) = some lev) (hturn : p.lock.waiting lev = i)
    (habove : forall k, 0 ≤ k -> k < max_num -> k ≠ i -> p.lock.level k < lev) :
    Helps max_num p i (scanDist max_num) := by
  intro q r hq hidle hstep hstay
  have hscan' : scans (q.lock.pc i) = some lev := by rw [hidle.scans_eq, hscan]
  have hsame : scans (r.lock.pc i) = some lev := by rw [hstay.scans_eq, hscan']
  exact scanDist_lt (hq.scanning_step hi hscan' hstep) (hq.process.lock.range i hi) hscan' hsame
    (by rw [hidle.waiting]; exact hturn) (by rw [hidle.level]; exact habove)

theorem scans_range {pc : LockPc} {lev : Int} (hrange : InRange max_num pc)
    (hscan : scans pc = some lev) : 0 ≤ lev ∧ minLevel max_num pc = lev := by
  cases pc with
  | testWaiting l =>
      cases hscan
      exact ⟨hrange.left, rfl⟩
  | testLevel l k =>
      cases hscan
      exact ⟨hrange.left, rfl⟩
  | retestWaiting l k =>
      cases hscan
      exact ⟨hrange.left, rfl⟩
  | setLevel l => cases hscan
  | setWaiting l => cases hscan
  | inside => cases hscan
  | exited => cases hscan

/-- If every thread that is left is the last one of the level that it scans, the one at the
highest level gets ahead. -/
theorem LiveInv.highest_helper (h : LiveInv max_num p)
    (hscanning : forall i, i ∈ counterThreads max_num -> p.lock.pc i ≠ LockPc.exited ->
      exists lev, scans (p.lock.pc i) = some lev ∧ p.lock.waiting lev = i)
    (hleft : exists i, i ∈ counterThreads max_num ∧ p.lock.pc i ≠ LockPc.exited) :
    exists i, i ∈ counterThreads max_num ∧ p.lock.pc i ≠ LockPc.exited ∧
      Helps max_num p i (scanDist max_num) := by
  have hlevels : forall i lev, i ∈ counterThreads max_num -> scans (p.lock.pc i) = some lev ->
      0 ≤ lev ∧ p.lock.level i = lev := by
    intro i lev hi hscan
    rcases scans_range (h.process.lock.range i hi) hscan with ⟨hlev, hmin⟩
    exact ⟨hlev, by rw [h.level i hi, hmin]⟩
  have hnonempty : ((counterThreads max_num).filter
      fun i => p.lock.pc i ≠ LockPc.exited).Nonempty := by
    rcases hleft with ⟨i, hi, hpc⟩
    exact ⟨i, Finset.mem_filter.mpr ⟨hi, hpc⟩⟩
  rcases Finset.exists_max_image _ p.lock.level hnonempty with ⟨i, hmem, hmax⟩
  rcases Finset.mem_filter.mp hmem with ⟨hi, hpc⟩
  rcases hscanning i hi hpc with ⟨lev, hscan, hturn⟩
  rcases hlevels i lev hi hscan with ⟨hlev, hlevel⟩
  refine ⟨i, hi, hpc, LiveInv.helps_highest hi hscan hturn ?_⟩
  intro k hk hlt hne
  have hthread : k ∈ counterThreads max_num := mem_counterThreads.mpr ⟨hk, hlt⟩
  cases decEq (p.lock.pc k) LockPc.exited with
  | isTrue hexited =>
      have hlow := h.level k hthread
      rw [hexited] at hlow
      change p.lock.level k = -1 at hlow
      lia
  | isFalse hrunning =>
      rcases hscanning k hthread hrunning with ⟨lev', hscan', hturn'⟩
      have hlevel' := (hlevels k lev' hthread hscan').right
      have hle := hmax k (Finset.mem_filter.mpr ⟨hthread, hrunning⟩)
      have hother : lev' ≠ lev := by
        intro heq
        rw [heq, hturn] at hturn'
        exact hne hturn'.symm
      lia

theorem LiveInv.exists_helper (h : LiveInv max_num p)
    (hleft : exists i, i ∈ counterThreads max_num ∧ p.lock.pc i ≠ LockPc.exited) :
    exists i dist, i ∈ counterThreads max_num ∧ p.lock.pc i ≠ LockPc.exited ∧
      Helps max_num p i dist := by
  by_cases houtside : exists i, i ∈ counterThreads max_num ∧ p.lock.pc i ≠ LockPc.exited ∧
      scans (p.lock.pc i) = none
  · rcases houtside with ⟨i, hi, hpc, hnone⟩
    exact ⟨i, fun _ => 0, hi, hpc, LiveInv.helps_outside hi hnone⟩
  · by_cases hdisplaced : exists i lev, i ∈ counterThreads max_num ∧
        scans (p.lock.pc i) = some lev ∧ p.lock.waiting lev ≠ i
    · rcases hdisplaced with ⟨i, lev, hi, hscan, hturn⟩
      refine ⟨i, testDist, hi, ?_, LiveInv.helps_displaced hi hscan hturn⟩
      intro hpc
      rw [hpc] at hscan
      cases hscan
    · have hscanning : forall i, i ∈ counterThreads max_num -> p.lock.pc i ≠ LockPc.exited ->
          exists lev, scans (p.lock.pc i) = some lev ∧ p.lock.waiting lev = i := by
        intro i hi hpc
        cases hscan : scans (p.lock.pc i) with
        | none => exact absurd ⟨i, hi, hpc, hscan⟩ houtside
        | some lev =>
            refine ⟨lev, rfl, ?_⟩
            by_contra hturn
            exact hdisplaced ⟨i, lev, hi, hscan, hturn⟩
      rcases h.highest_helper hscanning hleft with ⟨i, hi, hpc, hhelps⟩
      exact ⟨i, scanDist max_num, hi, hpc, hhelps⟩

/-!
# Runs
-/

theorem threadLeft_scans {pc : LockPc} {lev : Int} (hscan : scans pc = some lev)
    (body : BodyPc) : threadLeft max_num pc body = 3 * (max_num - 1 - lev).toNat + 6 := by
  cases pc with
  | testWaiting l =>
      cases hscan
      rfl
  | testLevel l k =>
      cases hscan
      rfl
  | retestWaiting l k =>
      cases hscan
      rfl
  | setLevel l => cases hscan
  | setWaiting l => cases hscan
  | inside => cases hscan
  | exited => cases hscan

theorem Idle.processLeft_eq (h : Idle p q) (threads : Finset Int) :
    processLeft max_num threads q = processLeft max_num threads p := by
  apply Finset.sum_congr rfl
  intro j _
  rw [h.body]
  rcases h.scanning j with hsame | ⟨hscans, hsame⟩
  · rw [hsame]
  · rcases Option.ne_none_iff_exists'.mp hscans with ⟨lev, hscan⟩
    rw [threadLeft_scans hscan, threadLeft_scans (hsame.trans hscan)]

theorem Idle.exited_iff (h : Idle p q) (j : Int) :
    q.lock.pc j = LockPc.exited <-> p.lock.pc j = LockPc.exited := by
  rcases h.scanning j with hsame | ⟨hscans, hsame⟩
  · rw [hsame]
  · constructor
    · intro hpc
      rw [hpc] at hsame
      exact absurd hsame.symm hscans
    · intro hpc
      rw [hpc] at hscans
      exact absurd rfl hscans

theorem FtnMove.pc_other (h : FtnMove max_num p i q) {j : Int} (hj : j ≠ i) :
    q.lock.pc j = p.lock.pc j := by
  cases h with
  | lock hlock _ _ => exact (lockMove_of_step hlock).pc_other hj
  | body _ hlock _ _ _ => rw [hlock]

theorem FtnMove.exits (h : FtnMove max_num p i q) {j : Int}
    (hexit : q.lock.pc j = LockPc.exited) :
    p.lock.pc j = LockPc.exited ∨ p.lock.pc j = LockPc.inside := by
  cases decEq j i with
  | isFalse hj =>
      rw [h.pc_other hj] at hexit
      exact Or.inl hexit
  | isTrue hj =>
      subst hj
      cases h with
      | lock hlock _ _ => exact Or.inr ((lockMove_of_step hlock).exits hexit)
      | body _ hlock _ _ _ =>
          rw [hlock] at hexit
          exact Or.inl hexit

theorem LiveInv.can_step (h : LiveInv max_num p) (hmax : max_num ≤ MAX_N)
    (hi : i ∈ counterThreads max_num) (hpc : p.lock.pc i ≠ LockPc.exited) :
    exists q, ftnStep max_num p i = some q := by
  rcases mem_counterThreads.mp hi with ⟨hlow, hhigh⟩
  have hbody := h.body i hi
  rcases h.process.can_step hmax hi ⟨hlow, by lia⟩ hpc BodyPc.leave with
    hable | ⟨_, hwait | hmove | hset⟩
  · exact hable
  · rw [hwait] at hbody
    cases hbody
  · rw [hmove] at hbody
    cases hbody
  · rw [hset] at hbody
    cases hbody

section Runs

variable (r : FairRun (ftnStep max_num) (· ∈ counterThreads max_num))

theorem liveInv_of_run (hstart : r.states 0 = initialProcess max_num) (n : Nat) :
    LiveInv max_num (r.states n) := by
  apply r.invariant
  · rw [hstart]
    exact LiveInv.initial max_num
  · intro s i t hi hs hstep
    exact hs.step hi hstep

theorem left_decreases (hmax : max_num ≤ MAX_N)
    (hstart : r.states 0 = initialProcess max_num) {n : Nat}
    (hleft : exists i, i ∈ counterThreads max_num ∧ (r.states n).lock.pc i ≠ LockPc.exited) :
    exists m, n ≤ m ∧ processLeft max_num (counterThreads max_num) (r.states m) <
      processLeft max_num (counterThreads max_num) (r.states n) := by
  have hinv := liveInv_of_run r hstart n
  rcases hinv.exists_helper hleft with ⟨i, dist, hi, hpc, hhelps⟩
  apply r.leads_to (P := fun s => LiveInv max_num s ∧ Idle (r.states n) s)
    (Q := fun s => processLeft max_num (counterThreads max_num) s <
      processLeft max_num (counterThreads max_num) (r.states n))
    (fun s => dist (s.lock.pc i)) hi
  · rintro s ⟨hs, hidle⟩
    exact hs.can_step hmax hi fun hexited => hpc ((hidle.exited_iff i).mp hexited)
  · rintro s j t hj ⟨hs, hidle⟩ hstep
    rcases hs.left_or_idle hj hstep with hless | hstay
    · rw [hidle.processLeft_eq] at hless
      exact Or.inl hless
    · right
      refine ⟨⟨hs.step hj hstep, hidle.trans hstay⟩, ?_, ?_⟩
      · cases decEq j i with
        | isTrue hji =>
            rw [hji] at hstep
            exact Nat.le_of_lt (hhelps s t hs hidle hstep hstay)
        | isFalse hji => rw [(hs.move hj hstep).pc_other (Ne.symm hji)]
      · intro hji
        rw [hji] at hstep
        exact hhelps s t hs hidle hstep hstay
  · exact ⟨hinv, Idle.refl _⟩

theorem inside_before_exit (hstart : r.states 0 = initialProcess max_num) (n : Nat)
    (hexit : (r.states n).lock.pc i = LockPc.exited) :
    exists k, k < n ∧ (r.states k).lock.pc i = LockPc.inside := by
  induction n with
  | zero =>
      rw [hstart] at hexit
      change enterLevel max_num 0 = _ at hexit
      unfold enterLevel at hexit
      split at hexit
      · cases hexit
      · cases hexit
  | succ n ih =>
      rcases r.next n with hmove | ⟨_, hsame⟩
      · rcases ((liveInv_of_run r hstart n).move (r.turn_mem n) hmove).exits hexit with
          hbefore | hinside
        · rcases ih hbefore with ⟨k, hk, hin⟩
          exact ⟨k, Nat.lt_succ_of_lt hk, hin⟩
        · exact ⟨n, Nat.lt_succ_self n, hinside⟩
      · rw [hsame] at hexit
        rcases ih hexit with ⟨k, hk, hin⟩
        exact ⟨k, Nat.lt_succ_of_lt hk, hin⟩

theorem exited_stays (hstart : r.states 0 = initialProcess max_num) {n m : Nat} (hle : n ≤ m)
    (hexit : (r.states n).lock.pc i = LockPc.exited) :
    (r.states m).lock.pc i = LockPc.exited := by
  induction hle with
  | refl => exact hexit
  | step _ ih =>
      rename_i m _
      rcases r.next m with hmove | ⟨_, hsame⟩
      · have hmoves := (liveInv_of_run r hstart m).move (r.turn_mem m) hmove
        cases decEq i (r.turn m) with
        | isFalse hother =>
            rw [hmoves.pc_other hother]
            exact ih
        | isTrue hself =>
            rw [hself] at ih
            cases hmoves with
            | lock hlock _ _ => exact absurd ih (lockMove_of_step hlock).not_exited
            | body hin _ _ _ _ =>
                rw [hin] at ih
                cases ih
      · rw [hsame]
        exact ih

end Runs

/-- On every fair run there is a time from which on all threads have exited; each of them was
in its critical section before, and the process was never killed. -/
theorem every_thread_gets_through {max_num : Int} (hmax : max_num ≤ MAX_N)
    (r : FairRun (ftnStep max_num) (· ∈ counterThreads max_num))
    (hstart : r.states 0 = initialProcess max_num) :
    (forall n, (r.states n).killed = false) ∧
    exists n, forall i, 0 ≤ i -> i < max_num ->
      (exists k, k < n ∧ (r.states k).lock.pc i = LockPc.inside) ∧
      forall m, n ≤ m -> (r.states m).lock.pc i = LockPc.exited := by
  constructor
  · exact fun n => (liveInv_of_run r hstart n).process.alive
  · have hdone : exists m, 0 ≤ m ∧ forall i, i ∈ counterThreads max_num ->
        (r.states m).lock.pc i = LockPc.exited := by
      apply r.eventually_of_left (processLeft max_num (counterThreads max_num))
        (Q := fun s => forall i, i ∈ counterThreads max_num -> s.lock.pc i = LockPc.exited)
      intro n hnot
      have hleft : exists i, i ∈ counterThreads max_num ∧
          (r.states n).lock.pc i ≠ LockPc.exited := by
        by_contra hall
        apply hnot
        intro i hi
        by_contra hpc
        exact hall ⟨i, hi, hpc⟩
      rcases left_decreases r hmax hstart hleft with ⟨m, hle, hless⟩
      exact ⟨m, hle, Or.inr hless⟩
    rcases hdone with ⟨n, _, hexited⟩
    refine ⟨n, ?_⟩
    intro i hlow hhigh
    have hi : i ∈ counterThreads max_num := mem_counterThreads.mpr ⟨hlow, hhigh⟩
    constructor
    · exact inside_before_exit r hstart n (hexited i hi)
    · exact fun m hle => exited_stays r hstart hle (hexited i hi)

def alternating : FairRun (ftnStep 2) (· ∈ counterThreads 2) :=
  FairRun.ofTurns (ftnStep 2) (initialProcess 2) (fun n => ((n % 2 : Nat) : Int))
    (fun n => mem_counterThreads.mpr ⟨by lia, by lia⟩)
    (fun i hi n => ⟨2 * n + i.toNat, by lia, by
      have hrange := mem_counterThreads.mp hi
      lia⟩)

theorem every_thread_gets_through_two_threads :
    exists n k j, k < n ∧ j < n ∧ (alternating.states k).lock.pc 0 = LockPc.inside ∧
      (alternating.states j).lock.pc 1 = LockPc.inside ∧
      (alternating.states n).lock.pc 0 = LockPc.exited ∧
      (alternating.states n).lock.pc 1 = LockPc.exited := by
  rcases every_thread_gets_through (by decide) alternating rfl with ⟨_, n, hall⟩
  rcases hall 0 (by decide) (by decide) with ⟨⟨k, hk, hkIn⟩, hzero⟩
  rcases hall 1 (by decide) (by decide) with ⟨⟨j, hj, hjIn⟩, hone⟩
  exact ⟨n, k, j, hk, hj, hkIn, hjIn, hzero n (Nat.le_refl n), hone n (Nat.le_refl n)⟩

end Process

end Peterson
end OsLabs
