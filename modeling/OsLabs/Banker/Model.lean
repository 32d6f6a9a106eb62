import Mathlib.Algebra.BigOperators.Fin
import Mathlib.Algebra.Order.Ring.Int
import Mathlib.Data.Fintype.Basic
import OsLabs.Foundation.SafeOrder
import OsLabs.Foundation.Transition

/-!
# The banker's algorithm

`alg.17-1-bankers-5.c` for any numbers `N` of processes and `M` of resource
types.  A loop over `k` or `j` that ends with `break` is a search for the index
at which it breaks; the loop runs to its end if there is none.
-/

namespace OsLabs
namespace Banker

open Foundation

inductive ExitStatus where
  | success
  | failure
deriving DecidableEq

/-- The arrays that outlive a request. -/
@[ext] structure Bank (N M : Nat) where
  available : Fin M -> Int
  need : Fin N -> Fin M -> Int
  allocation : Fin N -> Fin M -> Int

structure Check (N M : Nat) where
  finish : Fin N -> Bool
  safeSeq : List (Fin N)
  work : Fin M -> Int

variable {N M : Nat}

/-- Whether the loop over `k` for process `j` reaches `k == M`. -/
def fits (s : Bank N M) (request : Fin M -> Int) (pro_i : Fin N) (work : Fin M -> Int)
    (j : Fin N) : Bool :=
  if j = pro_i then
    ((List.finRange M).find? fun k => decide (s.need pro_i k - request k > work k)).isNone
  else
    ((List.finRange M).find? fun k => decide (s.need j k > work k)).isNone

def release (s : Bank N M) (request : Fin M -> Int) (pro_i : Fin N) (work : Fin M -> Int)
    (j : Fin N) : Fin M -> Int :=
  if j = pro_i then
    fun l => work l + (s.allocation pro_i l + request l)
  else
    fun l => work l + s.allocation j l

/-- The loop over `i`, with the number of rounds that are left. -/
def safecheckLoop (s : Bank N M) (request : Fin M -> Int) (pro_i : Fin N) :
    Nat -> Check N M -> ExitStatus × Check N M
  | 0, c => (ExitStatus.success, c)
  | n + 1, c =>
      match (List.finRange N).find? fun j => !c.finish j && fits s request pro_i c.work j with
      | none => (ExitStatus.failure, c)
      | some j =>
          safecheckLoop s request pro_i n
            { finish := Function.update c.finish j true
              safeSeq := c.safeSeq ++ [j]
              work := release s request pro_i c.work j }

def safecheck (s : Bank N M) (request : Fin M -> Int) (pro_i : Fin N) (work : Fin M -> Int) :
    ExitStatus × Check N M :=
  safecheckLoop s request pro_i N
    { finish := fun _ => false, safeSeq := [], work := work }

/-- What a request ends with: the message of the branch that refuses it, or the
safe sequence. -/
inductive Outcome (N M : Nat) where
  | exceedsNeed (k : Fin M)
  | exceedsAvailable (k : Fin M)
  | suspended
  | granted (safeSeq : List (Fin N))
deriving DecidableEq

def Outcome.ret : Outcome N M -> ExitStatus
  | Outcome.granted _ => ExitStatus.success
  | _ => ExitStatus.failure

def commit (s : Bank N M) (request : Fin M -> Int) (pro_i : Fin N) : Bank N M where
  available := fun k => s.available k - request k
  need := Function.update s.need pro_i fun k => s.need pro_i k - request k
  allocation := Function.update s.allocation pro_i fun k => s.allocation pro_i k + request k

def resourceRequest (s : Bank N M) (request : Fin M -> Int) (pro_i : Fin N) :
    Outcome N M × Bank N M :=
  match (List.finRange M).find? fun k => decide (request k > s.need pro_i k) with
  | some k => (Outcome.exceedsNeed k, s)
  | none =>
      match (List.finRange M).find? fun k => decide (request k > s.available k) with
      | some k => (Outcome.exceedsAvailable k, s)
      | none =>
          match safecheck s request pro_i (fun k => s.available k - request k) with
          | (ExitStatus.success, c) => (Outcome.granted c.safeSeq, commit s request pro_i)
          | (ExitStatus.failure, _) => (Outcome.suspended, s)

/-- The state in which `main` enters its loop; `allocation` is a static array
that nothing has written. -/
def initialBank (resource : Fin M -> Int) (max : Fin N -> Fin M -> Int) : Bank N M :=
  let allocation : Fin N -> Fin M -> Int := fun _ _ => 0
  { available := fun k => resource k - ∑ j, allocation j k
    need := fun j k => max j k - allocation j k
    allocation := allocation }

/-- One round of the loop of `main` on the numbers read; `none` once it quits. -/
def mainStep (s : Bank N M) (pro_i : Int) (request : Fin M -> Int) : Option (Bank N M) :=
  if pro_i < 0 then
    none
  else if h : pro_i.toNat < N then
    some (resourceRequest s request ⟨pro_i.toNat, h⟩).snd
  else
    some s

def bankSystem (resource : Fin M -> Int) (max : Fin N -> Fin M -> Int) :
    System (Bank N M) (Int × (Fin M -> Int)) where
  init s := s = initialBank resource max
  step s input t := mainStep s input.fst input.snd = some t

/-!
# The tables of the program
-/

def resource : Fin 3 -> Int := ![10, 5, 7]

def maxDemand : Fin 5 -> Fin 3 -> Int :=
  ![![7, 5, 3], ![3, 2, 2], ![9, 0, 2], ![2, 2, 2], ![4, 3, 3]]

end Banker
end OsLabs
