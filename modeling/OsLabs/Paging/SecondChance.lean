import OsLabs.Paging.LruStack

/-!
# Second chance

`Second_Chance` of `page_replacement.c`: the frames in a circular list with a
reference bit each, and a clock pointer at the next victim.

As for the stack, a node's address is its position in the order of the
allocations, and a null pointer is `none`.  The functions return `none` where the
program would follow a null pointer or run out of fuel.
-/

namespace OsLabs
namespace Paging

structure PageNodeSecondChance where
  pageNum : Int
  pageIndex : Nat
  referenceBit : Int
  next : Option Nat

structure PageQueue where
  nodes : Nat -> PageNodeSecondChance
  head : Option Nat
  clockPointer : Option Nat

def creatPageNodeSecondChance (pageNum : Int) (pageIndex : Nat) : PageNodeSecondChance :=
  PageNodeSecondChance.mk pageNum pageIndex 0 none

namespace PageQueue

def modifyNode (queue : PageQueue) (a : Nat)
    (f : PageNodeSecondChance -> PageNodeSecondChance) : PageQueue :=
  { queue with nodes := Function.update queue.nodes a (f (queue.nodes a)) }

def setNext (queue : PageQueue) (a : Nat) (ptr : Option Nat) : PageQueue :=
  queue.modifyNode a fun node => { node with next := ptr }

def setPageNum (queue : PageQueue) (a : Nat) (pageNum : Int) : PageQueue :=
  queue.modifyNode a fun node => { node with pageNum := pageNum }

def setReferenceBit (queue : PageQueue) (a : Nat) (bit : Int) : PageQueue :=
  queue.modifyNode a fun node => { node with referenceBit := bit }

def setClockPointer (queue : PageQueue) (ptr : Option Nat) : PageQueue :=
  { queue with clockPointer := ptr }

end PageQueue

open PageQueue

/-- The loop of `init_PageQueue` over the `k` frames from `i` on. -/
def initPageQueueLoop : Nat -> Nat -> Nat -> PageQueue -> PageQueue
  | 0, _, curNode, queue =>
      let queue := queue.setNext curNode queue.head
      queue.setClockPointer queue.head
  | k + 1, i, curNode, queue =>
      let queue := queue.modifyNode i fun _ => creatPageNodeSecondChance (-1) i
      let queue := queue.setNext curNode (some i)
      initPageQueueLoop k (i + 1) i queue

/-- A circular list for `n` frames, the clock pointer at the first of them. -/
def initPageQueue (n : Nat) : PageQueue :=
  initPageQueueLoop (n - 1) 1 0
    (PageQueue.mk (fun _ => creatPageNodeSecondChance (-1) 0) (some 0) none)

/-- The loop that looks for a page in `k` nodes from `curNode` on.  A node that is
found gets its bit; in any case the node at which the loop ends is returned. -/
def searchLoop (pageNum : Int) : Nat -> PageQueue -> Nat -> Option (PageQueue × Nat)
  | 0, queue, curNode => some (queue, curNode)
  | k + 1, queue, curNode =>
      if (queue.nodes curNode).pageNum = pageNum then
        some (queue.setReferenceBit curNode 1, curNode)
      else
        match (queue.nodes curNode).next with
        | none => none
        | some next => searchLoop pageNum k queue next

/-- The loop that looks for a victim.  The fuel counts the tests of its condition. -/
def clockLoop : Nat -> PageQueue -> Option PageQueue
  | 0, _ => none
  | fuel + 1, queue =>
      match queue.clockPointer with
      | none => none
      | some clock =>
          if (queue.nodes clock).referenceBit ≠ 0 then
            let queue := queue.setReferenceBit clock 0
            clockLoop fuel (queue.setClockPointer (queue.nodes clock).next)
          else
            some queue

structure SecondChanceState where
  pageFrame : Nat -> Int
  queue : PageQueue

/-- The new page takes the place of the victim. -/
def replaceVictim (s : SecondChanceState) (pageNum : Int) : Option SecondChanceState :=
  match s.queue.clockPointer with
  | none => none
  | some clock =>
      let pageFrame := Function.update s.pageFrame (s.queue.nodes clock).pageIndex pageNum
      let queue := s.queue.setPageNum clock pageNum
      let queue := queue.setReferenceBit clock 1
      some (SecondChanceState.mk pageFrame
        (queue.setClockPointer (queue.nodes clock).next))

/-- One iteration of the main loop with `n` frames: whether the page faulted, and
the new state. -/
def secondChanceRefer (n : Nat) (s : SecondChanceState) (pageNum : Int) :
    Option (Bool × SecondChanceState) :=
  match s.queue.head with
  | none => none
  | some head =>
      match searchLoop pageNum n s.queue head with
      | none => none
      | some (queue, curNode) =>
          if (queue.nodes curNode).pageNum = pageNum then
            some (false, { s with queue := queue })
          else
            match clockLoop (n + 1) queue with
            | none => none
            | some queue =>
                match replaceVictim { s with queue := queue } pageNum with
                | none => none
                | some s => some (true, s)

def initialSecondChance (n : Nat) : SecondChanceState :=
  SecondChanceState.mk (fun _ => -1) (initPageQueue n)

/-- What is printed at each reference: the fault and the frames. -/
def secondChanceFrom (n : Nat) :
    SecondChanceState -> List Int -> Option (List (Bool × List Int))
  | _, [] => some []
  | s, pageNum :: refs =>
      match secondChanceRefer n s pageNum with
      | none => none
      | some (fault, s) =>
          match secondChanceFrom n s refs with
          | none => none
          | some out => some ((fault, frameList n s.pageFrame) :: out)

def secondChance (n : Nat) (refs : List Int) : Option (List (Bool × List Int)) :=
  secondChanceFrom n (initialSecondChance n) refs

/-!
# The policy

Pages wait in a queue with a bit each.  A page at the front with its bit set is
cleared and goes to the back; one without is evicted.
-/

structure Chance where
  page : Int
  bit : Bool
deriving DecidableEq

/-- `Evicts queue v rest`: `v` is the victim, and `rest` is the queue without it. -/
inductive Evicts : List Chance -> Chance -> List Chance -> Prop where
  | front {v : Chance} {rest : List Chance} (hbit : v.bit = false) : Evicts (v :: rest) v rest
  | again {c v : Chance} {queue rest : List Chance} (hbit : c.bit = true)
      (hnext : Evicts (queue ++ [Chance.mk c.page false]) v rest) : Evicts (c :: queue) v rest

def setBit (page : Int) (c : Chance) : Chance :=
  if c.page = page then Chance.mk page true else c

inductive PolicyStep : List Chance -> Int -> Bool -> List Chance -> Prop where
  | hit {queue : List Chance} {page : Int} (hmem : page ∈ queue.map Chance.page) :
      PolicyStep queue page false (queue.map (setBit page))
  | fault {queue rest : List Chance} {page : Int} {v : Chance}
      (hmem : page ∉ queue.map Chance.page) (hvictim : Evicts queue v rest) :
      PolicyStep queue page true (rest ++ [Chance.mk page true])

inductive PolicyRun : List Chance -> List Int -> List Bool -> List Chance -> Prop where
  | nil {queue : List Chance} : PolicyRun queue [] [] queue
  | cons {queue next last : List Chance} {page : Int} {fault : Bool} {refs : List Int}
      {faults : List Bool} (hstep : PolicyStep queue page fault next)
      (hrun : PolicyRun next refs faults last) :
      PolicyRun queue (page :: refs) (fault :: faults) last

def emptyQueue (n : Nat) : List Chance := List.replicate n (Chance.mk (-1) false)

theorem Evicts.unique {queue rest rest' : List Chance} {v v' : Chance}
    (h : Evicts queue v rest) (h' : Evicts queue v' rest') : v = v' ∧ rest = rest' := by
  induction h with
  | front hbit =>
      cases h' with
      | front _ => exact ⟨rfl, rfl⟩
      | again hbit' _ =>
          rw [hbit] at hbit'
          cases hbit'
  | again hbit _ ih =>
      cases h' with
      | front hbit' =>
          rw [hbit] at hbit'
          cases hbit'
      | again _ hnext' => exact ih hnext'

theorem PolicyStep.unique {queue next next' : List Chance} {page : Int} {fault fault' : Bool}
    (h : PolicyStep queue page fault next) (h' : PolicyStep queue page fault' next') :
    fault = fault' ∧ next = next' := by
  cases h with
  | hit hmem =>
      cases h' with
      | hit _ => exact ⟨rfl, rfl⟩
      | fault hmem' _ => exact absurd hmem hmem'
  | fault hmem hvictim =>
      cases h' with
      | hit hmem' => exact absurd hmem' hmem
      | fault _ hvictim' =>
          rw [(hvictim.unique hvictim').right]
          exact ⟨rfl, rfl⟩

theorem PolicyRun.unique {queue last last' : List Chance} {refs : List Int}
    {faults faults' : List Bool} (h : PolicyRun queue refs faults last)
    (h' : PolicyRun queue refs faults' last') : faults = faults' ∧ last = last' := by
  induction h generalizing faults' with
  | nil =>
      cases h' with
      | nil => exact ⟨rfl, rfl⟩
  | cons hstep _ ih =>
      cases h' with
      | cons hstep' hrun' =>
          rcases hstep.unique hstep' with ⟨hfault, hnext⟩
          subst hfault hnext
          rcases ih hrun' with ⟨hfaults, hlast⟩
          rw [hfaults]
          exact ⟨rfl, hlast⟩

/-- The front of the queue has its bits cleared before a victim is looked for behind
it. -/
theorem Evicts.skip {front queue rest : List Chance} {v : Chance}
    (hbits : forall c, c ∈ front -> c.bit = true)
    (h : Evicts (queue ++ front.map fun c => Chance.mk c.page false) v rest) :
    Evicts (front ++ queue) v rest := by
  induction front generalizing queue with
  | nil =>
      rw [List.map_nil, List.append_nil] at h
      exact h
  | cons c front ih =>
      rw [List.cons_append]
      apply Evicts.again (hbits c List.mem_cons_self)
      rw [List.append_assoc]
      apply ih fun d hd => hbits d (List.mem_cons_of_mem c hd)
      rw [List.append_assoc, List.singleton_append]
      exact h

end Paging
end OsLabs
