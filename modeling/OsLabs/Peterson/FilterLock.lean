import Mathlib.Algebra.Order.Ring.Int
import Mathlib.Data.Finset.Basic
import Mathlib.Logic.Function.Basic

/-!
# The entry protocol of the filter lock

The `for`-`lev` loop that the `ftn` functions of `alg.15-1-peterson-counter.c`,
`shmwrite.c` and `shmread.c` have in common, and the last write of each, one
access to `level` or `waiting` at a time.  A step is `none` if the access is
outside of the array.
-/

namespace OsLabs
namespace Peterson

def MAX_N : Int := 1024

def LevelIndex (i : Int) : Prop := 0 ≤ i ∧ i < MAX_N

def WaitingIndex (lev : Int) : Prop := 0 ≤ lev ∧ lev < MAX_N - 1

instance (i : Int) : Decidable (LevelIndex i) := inferInstanceAs (Decidable (_ ∧ _))

instance (lev : Int) : Decidable (WaitingIndex lev) := inferInstanceAs (Decidable (_ ∧ _))

/-- The next access of a thread to the arrays. -/
inductive LockPc where
  | setLevel (lev : Int)
  | setWaiting (lev : Int)
  | testWaiting (lev : Int)
  | testLevel (lev k : Int)
  | retestWaiting (lev k : Int)
  | inside
  | exited
deriving DecidableEq

structure LockState where
  level : Int -> Int
  waiting : Int -> Int
  pc : Int -> LockPc

namespace LockState

def goto (s : LockState) (i : Int) (pc : LockPc) : LockState :=
  { s with pc := Function.update s.pc i pc }

def setLevel (s : LockState) (i value : Int) : LockState :=
  { s with level := Function.update s.level i value }

def setWaiting (s : LockState) (lev value : Int) : LockState :=
  { s with waiting := Function.update s.waiting lev value }

end LockState

/-- The test of the loop over `lev`. -/
def enterLevel (num lev : Int) : LockPc :=
  if lev < num - 1 then LockPc.setLevel lev else LockPc.inside

/-- The test of the loop over `k`, and what follows the end of that loop. -/
def scanFrom (num lev k : Int) : LockPc :=
  if k < num then LockPc.testLevel lev k
  else if k = num then enterLevel num (lev + 1)
  else LockPc.testWaiting lev

/-- One access of thread `i` to the arrays, with the control flow up to the next
one. -/
def lockStep (num : Int) (s : LockState) (i : Int) : Option LockState :=
  match s.pc i with
  | LockPc.setLevel lev =>
      if LevelIndex i then some ((s.setLevel i lev).goto i (LockPc.setWaiting lev)) else none
  | LockPc.setWaiting lev =>
      if WaitingIndex lev then some ((s.setWaiting lev i).goto i (LockPc.testWaiting lev))
      else none
  | LockPc.testWaiting lev =>
      if WaitingIndex lev then
        some (s.goto i (if s.waiting lev = i then scanFrom num lev 0
          else enterLevel num (lev + 1)))
      else none
  | LockPc.testLevel lev k =>
      if LevelIndex k then
        some (s.goto i (if s.level k ≥ lev ∧ k ≠ i then LockPc.testWaiting lev
          else LockPc.retestWaiting lev k))
      else none
  | LockPc.retestWaiting lev k =>
      if WaitingIndex lev then
        some (s.goto i (if s.waiting lev ≠ i then LockPc.testWaiting lev
          else scanFrom num lev (k + 1)))
      else none
  | LockPc.inside =>
      if LevelIndex i then some ((s.setLevel i (-1)).goto i LockPc.exited) else none
  | LockPc.exited => none

/-- After the `memset` calls, before the first step of any thread. -/
def initialLock (num : Int) : LockState where
  level := fun _ => -1
  waiting := fun _ => -1
  pc := fun _ => enterLevel num 0

/-!
# What a step does
-/

section Updates

variable (s : LockState) (i x : Int) (pc : LockPc)

@[simp] theorem goto_level : (s.goto i pc).level = s.level := rfl

@[simp] theorem goto_waiting : (s.goto i pc).waiting = s.waiting := rfl

@[simp] theorem goto_pc : (s.goto i pc).pc x = if x = i then pc else s.pc x :=
  Function.update_apply s.pc i pc x

theorem goto_pc_self : (s.goto i pc).pc i = pc := by
  rw [goto_pc, if_pos rfl]

@[simp] theorem setLevel_level (value : Int) :
    (s.setLevel i value).level x = if x = i then value else s.level x :=
  Function.update_apply s.level i value x

@[simp] theorem setLevel_waiting (value : Int) :
    (s.setLevel i value).waiting = s.waiting := rfl

@[simp] theorem setLevel_pc (value : Int) : (s.setLevel i value).pc = s.pc := rfl

@[simp] theorem setWaiting_level (value : Int) :
    (s.setWaiting i value).level = s.level := rfl

@[simp] theorem setWaiting_waiting (value : Int) :
    (s.setWaiting i value).waiting x = if x = i then value else s.waiting x :=
  Function.update_apply s.waiting i value x

@[simp] theorem setWaiting_pc (value : Int) : (s.setWaiting i value).pc = s.pc := rfl

end Updates

inductive LockMove (num : Int) (s : LockState) (i : Int) : LockState -> Prop where
  | climb {lev : Int} (hpc : s.pc i = LockPc.setLevel lev) :
      LockMove num s i ((s.setLevel i lev).goto i (LockPc.setWaiting lev))
  | register {lev : Int} (hpc : s.pc i = LockPc.setWaiting lev) :
      LockMove num s i ((s.setWaiting lev i).goto i (LockPc.testWaiting lev))
  | scan {lev : Int} (hpc : s.pc i = LockPc.testWaiting lev) (hturn : s.waiting lev = i) :
      LockMove num s i (s.goto i (scanFrom num lev 0))
  | displaced {lev : Int} (hpc : s.pc i = LockPc.testWaiting lev)
      (hturn : s.waiting lev ≠ i) : LockMove num s i (s.goto i (enterLevel num (lev + 1)))
  | blocked {lev k : Int} (hpc : s.pc i = LockPc.testLevel lev k) :
      LockMove num s i (s.goto i (LockPc.testWaiting lev))
  | clear {lev k : Int} (hpc : s.pc i = LockPc.testLevel lev k)
      (hlow : s.level k < lev ∨ k = i) :
      LockMove num s i (s.goto i (LockPc.retestWaiting lev k))
  | restart {lev k : Int} (hpc : s.pc i = LockPc.retestWaiting lev k) :
      LockMove num s i (s.goto i (LockPc.testWaiting lev))
  | advance {lev k : Int} (hpc : s.pc i = LockPc.retestWaiting lev k)
      (hturn : s.waiting lev = i) : LockMove num s i (s.goto i (scanFrom num lev (k + 1)))
  | leave (hpc : s.pc i = LockPc.inside) :
      LockMove num s i ((s.setLevel i (-1)).goto i LockPc.exited)

theorem lockMove_of_step {num i : Int} {s t : LockState} (h : lockStep num s i = some t) :
    LockMove num s i t := by
  unfold lockStep at h
  cases hpc : s.pc i with
  | setLevel lev =>
      simp only [hpc] at h
      split at h
      · cases h
        exact LockMove.climb hpc
      · cases h
  | setWaiting lev =>
      simp only [hpc] at h
      split at h
      · cases h
        exact LockMove.register hpc
      · cases h
  | testWaiting lev =>
      simp only [hpc] at h
      split at h
      · cases h
        split
        · rename_i hturn
          exact LockMove.scan hpc hturn
        · rename_i hturn
          exact LockMove.displaced hpc hturn
      · cases h
  | testLevel lev k =>
      simp only [hpc] at h
      split at h
      · cases h
        split
        · exact LockMove.blocked hpc
        · rename_i hlow
          apply LockMove.clear hpc
          lia
      · cases h
  | retestWaiting lev k =>
      simp only [hpc] at h
      split at h
      · cases h
        split
        · exact LockMove.restart hpc
        · rename_i hturn
          exact LockMove.advance hpc (not_not.mp hturn)
      · cases h
  | inside =>
      simp only [hpc] at h
      split at h
      · cases h
        exact LockMove.leave hpc
      · cases h
  | exited =>
      simp only [hpc] at h
      cases h

theorem LockMove.pc_other {num i x : Int} {s t : LockState} (h : LockMove num s i t)
    (hx : x ≠ i) : t.pc x = s.pc x := by
  cases h <;> simp [hx]

theorem LockMove.level_other {num i x : Int} {s t : LockState} (h : LockMove num s i t)
    (hx : x ≠ i) : t.level x = s.level x := by
  cases h <;> simp [hx]

end Peterson
end OsLabs
