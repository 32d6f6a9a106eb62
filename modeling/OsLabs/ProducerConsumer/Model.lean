import Mathlib.Data.Finset.Range
import Mathlib.Logic.Function.Basic
import OsLabs.Foundation.Transition

/-!
# Producers and consumers on a shared circular buffer

`alg.18-6-syn-pc-con-6.c` sets up a shared memory with three semaphores,
`alg.18-7-syn-pc-producer-6.c` and `alg.18-8-syn-pc-consumer-6.c` run their
threads on it.  Every semaphore operation and every read or write of a shared
variable is a step of its own; operands are read from left to right.  A step is
`none` if the thread is blocked, has exited or would leave the buffer.
-/

namespace OsLabs
namespace ProducerConsumer

open Foundation

/-- The control parameters, as `main` of `alg.18-6` admits them. -/
structure Params where
  bufferSize : Nat
  maxItemNum : Nat
  threadPro : Nat
  threadCons : Nat
  bufferSize_pos : 1 ≤ bufferSize
  maxItemNum_pos : 1 ≤ maxItemNum
  threadPro_pos : 1 ≤ threadPro
  threadCons_pos : 1 ≤ threadCons

/-- The shared variables beside the semaphores.  `made` and `taken` record the
writes and the reads of `item_no` for the proofs; nothing depends on them. -/
structure Buffer where
  itemNum : Nat
  consumeNum : Nat
  enqueue : Nat
  dequeue : Nat
  endFlag : Nat
  itemNo : Nat -> Nat
  proTid : Nat -> Int
  made : List (Nat × Nat)
  taken : List Nat

structure Shared where
  semMutex : Nat
  stock : Nat
  emptyslot : Nat
  buf : Buffer

/-- The next access of a producer to the shared memory. -/
inductive ProducerPc where
  | guard
  | waitEmptyslot
  | waitMutex
  | test
  | readItemNum
  | writeItemNum (v : Nat)
  | readEnqueue
  | writeEnqueue (v : Nat)
  | readSlot
  | readItem (slot : Nat)
  | writeItemNo (slot item : Nat)
  | readTidSlot
  | writeProTid (slot : Nat)
  | testLast
  | setEndFlag
  | postStock
  | postEmptyslot
  | postMutex
  | exited
deriving DecidableEq

/-- The next access of a consumer to the shared memory. -/
inductive ConsumerPc where
  | readConsumed
  | readProduced (consumed : Nat)
  | readEndFlag
  | waitStock
  | waitMutex
  | testConsumed
  | testProduced (consumed : Nat)
  | readDequeue
  | writeDequeue (v : Nat)
  | readSlot
  | readItemNo (slot : Nat)
  | readConsumeNum
  | writeConsumeNum (v : Nat)
  | postEmptyslot
  | postStock
  | postMutex
  | exited
deriving DecidableEq

/-- Where `main` of the producer is: at the join of thread `i`, or before the
post number `i` of the posts that follow. -/
inductive MainPc where
  | join (i : Nat)
  | post (i : Nat)
  | done
deriving DecidableEq

structure State where
  shared : Shared
  pro : Nat -> ProducerPc
  cons : Nat -> ConsumerPc
  main : MainPc

section Threads

variable (C : Params)

/-- One access of the producer with thread number `tid`. -/
def producer (tid : Int) (sh : Shared) : ProducerPc -> Option (ProducerPc × Shared)
  | ProducerPc.guard =>
      if sh.buf.itemNum < C.maxItemNum then some (ProducerPc.waitEmptyslot, sh)
      else some (ProducerPc.exited, sh)
  | ProducerPc.waitEmptyslot =>
      if 0 < sh.emptyslot then
        some (ProducerPc.waitMutex, { sh with emptyslot := sh.emptyslot - 1 })
      else none
  | ProducerPc.waitMutex =>
      if 0 < sh.semMutex then
        some (ProducerPc.test, { sh with semMutex := sh.semMutex - 1 })
      else none
  | ProducerPc.test =>
      if sh.buf.itemNum < C.maxItemNum then some (ProducerPc.readItemNum, sh)
      else some (ProducerPc.postEmptyslot, sh)
  | ProducerPc.readItemNum => some (ProducerPc.writeItemNum sh.buf.itemNum, sh)
  | ProducerPc.writeItemNum v =>
      some (ProducerPc.readEnqueue, { sh with buf := { sh.buf with itemNum := v + 1 } })
  | ProducerPc.readEnqueue => some (ProducerPc.writeEnqueue sh.buf.enqueue, sh)
  | ProducerPc.writeEnqueue v =>
      some (ProducerPc.readSlot,
        { sh with buf := { sh.buf with enqueue := (v + 1) % C.bufferSize } })
  | ProducerPc.readSlot => some (ProducerPc.readItem sh.buf.enqueue, sh)
  | ProducerPc.readItem slot => some (ProducerPc.writeItemNo slot sh.buf.itemNum, sh)
  | ProducerPc.writeItemNo slot item =>
      if slot < C.bufferSize then
        some (ProducerPc.readTidSlot,
          { sh with buf :=
            { sh.buf with
              itemNo := Function.update sh.buf.itemNo slot item
              made := sh.buf.made ++ [(slot, item)] } })
      else none
  | ProducerPc.readTidSlot => some (ProducerPc.writeProTid sh.buf.enqueue, sh)
  | ProducerPc.writeProTid slot =>
      if slot < C.bufferSize then
        some (ProducerPc.testLast,
          { sh with buf := { sh.buf with proTid := Function.update sh.buf.proTid slot tid } })
      else none
  | ProducerPc.testLast =>
      if sh.buf.itemNum = C.maxItemNum then some (ProducerPc.setEndFlag, sh)
      else some (ProducerPc.postStock, sh)
  | ProducerPc.setEndFlag =>
      some (ProducerPc.postStock, { sh with buf := { sh.buf with endFlag := 1 } })
  | ProducerPc.postStock => some (ProducerPc.postMutex, { sh with stock := sh.stock + 1 })
  | ProducerPc.postEmptyslot =>
      some (ProducerPc.postMutex, { sh with emptyslot := sh.emptyslot + 1 })
  | ProducerPc.postMutex => some (ProducerPc.guard, { sh with semMutex := sh.semMutex + 1 })
  | ProducerPc.exited => none

/-- One access of a consumer. -/
def consumer (sh : Shared) : ConsumerPc -> Option (ConsumerPc × Shared)
  | ConsumerPc.readConsumed => some (ConsumerPc.readProduced sh.buf.consumeNum, sh)
  | ConsumerPc.readProduced consumed =>
      if consumed < sh.buf.itemNum then some (ConsumerPc.waitStock, sh)
      else some (ConsumerPc.readEndFlag, sh)
  | ConsumerPc.readEndFlag =>
      if sh.buf.endFlag = 0 then some (ConsumerPc.waitStock, sh)
      else some (ConsumerPc.exited, sh)
  | ConsumerPc.waitStock =>
      if 0 < sh.stock then
        some (ConsumerPc.waitMutex, { sh with stock := sh.stock - 1 })
      else none
  | ConsumerPc.waitMutex =>
      if 0 < sh.semMutex then
        some (ConsumerPc.testConsumed, { sh with semMutex := sh.semMutex - 1 })
      else none
  | ConsumerPc.testConsumed => some (ConsumerPc.testProduced sh.buf.consumeNum, sh)
  | ConsumerPc.testProduced consumed =>
      if consumed < sh.buf.itemNum then some (ConsumerPc.readDequeue, sh)
      else some (ConsumerPc.postStock, sh)
  | ConsumerPc.readDequeue => some (ConsumerPc.writeDequeue sh.buf.dequeue, sh)
  | ConsumerPc.writeDequeue v =>
      some (ConsumerPc.readSlot,
        { sh with buf := { sh.buf with dequeue := (v + 1) % C.bufferSize } })
  | ConsumerPc.readSlot => some (ConsumerPc.readItemNo sh.buf.dequeue, sh)
  | ConsumerPc.readItemNo slot =>
      if slot < C.bufferSize then
        some (ConsumerPc.readConsumeNum,
          { sh with buf := { sh.buf with taken := sh.buf.taken ++ [sh.buf.itemNo slot] } })
      else none
  | ConsumerPc.readConsumeNum => some (ConsumerPc.writeConsumeNum sh.buf.consumeNum, sh)
  | ConsumerPc.writeConsumeNum v =>
      some (ConsumerPc.postEmptyslot, { sh with buf := { sh.buf with consumeNum := v + 1 } })
  | ConsumerPc.postEmptyslot =>
      some (ConsumerPc.postMutex, { sh with emptyslot := sh.emptyslot + 1 })
  | ConsumerPc.postStock => some (ConsumerPc.postMutex, { sh with stock := sh.stock + 1 })
  | ConsumerPc.postMutex =>
      some (ConsumerPc.readConsumed, { sh with semMutex := sh.semMutex + 1 })
  | ConsumerPc.exited => none

def postFrom (i : Nat) : MainPc :=
  if i < C.threadCons - 1 then MainPc.post i else MainPc.done

def joinFrom (i : Nat) : MainPc :=
  if i < C.threadPro then MainPc.join i else postFrom C 0

/-- One step of `main` of the producer. -/
def mainThread (s : State) : Option State :=
  match s.main with
  | MainPc.join i =>
      if s.pro i = ProducerPc.exited then some { s with main := joinFrom C (i + 1) } else none
  | MainPc.post i =>
      some { s with
        shared := { s.shared with stock := s.shared.stock + 1 }
        main := postFrom C (i + 1) }
  | MainPc.done => none

inductive Action where
  | producer (i : Nat)
  | consumer (i : Nat)
  | main
deriving DecidableEq

/-- One step of the system; producer `i` has thread number `tid i`. -/
def step (tid : Nat -> Int) (s : State) : Action -> Option State
  | Action.producer i =>
      if i < C.threadPro then
        (producer C (tid i) s.shared (s.pro i)).map fun next =>
          { s with shared := next.snd, pro := Function.update s.pro i next.fst }
      else none
  | Action.consumer i =>
      if i < C.threadCons then
        (consumer C s.shared (s.cons i)).map fun next =>
          { s with shared := next.snd, cons := Function.update s.cons i next.fst }
      else none
  | Action.main => mainThread C s

/-- The shared memory as `main` of `alg.18-6` leaves it, whatever was in the
data units. -/
def initialShared (itemNo : Nat -> Nat) (proTid : Nat -> Int) : Shared where
  semMutex := 1
  stock := 0
  emptyslot := C.bufferSize
  buf :=
    { itemNum := 0
      consumeNum := 0
      enqueue := 0
      dequeue := 0
      endFlag := 0
      itemNo := itemNo
      proTid := proTid
      made := []
      taken := [] }

def initialState (itemNo : Nat -> Nat) (proTid : Nat -> Int) : State where
  shared := initialShared C itemNo proTid
  pro := fun _ => ProducerPc.guard
  cons := fun _ => ConsumerPc.readConsumed
  main := joinFrom C 0

def pcSystem (tid : Nat -> Int) : System State Action where
  init s := exists itemNo proTid, s = initialState C itemNo proTid
  step s a t := step C tid s a = some t

def AllExited (s : State) : Prop :=
  (forall i, i < C.threadPro -> s.pro i = ProducerPc.exited) ∧
    forall i, i < C.threadCons -> s.cons i = ConsumerPc.exited

end Threads

end ProducerConsumer
end OsLabs
