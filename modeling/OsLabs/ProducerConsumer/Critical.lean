import OsLabs.Foundation.CircularBuffer
import OsLabs.ProducerConsumer.Model

/-!
# Inside the critical section

What a thread holds at each point of its program, what the shared variables look
like there, and one specification for the steps of a producer and one for the
steps of a consumer.
-/

namespace OsLabs
namespace ProducerConsumer

open Foundation

variable {C : Params} {b : Buffer} {sh sh' : Shared}

/-!
# Tokens
-/

namespace ProducerPc

/-- Between `sem_wait` and `sem_post` on `sem_mutex`. -/
def inside : ProducerPc -> Nat
  | guard | waitEmptyslot | waitMutex | exited => 0
  | _ => 1

/-- A token of `emptyslot` has been taken and no item counted for it yet. -/
def slot : ProducerPc -> Nat
  | waitMutex | test | readItemNum | writeItemNum _ | postEmptyslot => 1
  | _ => 0

/-- An item has been counted and no token of `stock` posted for it yet. -/
def stock : ProducerPc -> Nat
  | readEnqueue | writeEnqueue _ | readSlot | readItem _ | writeItemNo _ _ | readTidSlot
  | writeProTid _ | testLast | setEndFlag | postStock => 1
  | _ => 0

end ProducerPc

namespace ConsumerPc

def inside : ConsumerPc -> Nat
  | readConsumed | readProduced _ | readEndFlag | waitStock | waitMutex | exited => 0
  | _ => 1

/-- A consumption has been counted and no token of `emptyslot` posted for it yet. -/
def slot : ConsumerPc -> Nat
  | postEmptyslot => 1
  | _ => 0

/-- A token of `stock` has been taken and no consumption counted for it yet. -/
def stock : ConsumerPc -> Nat
  | waitMutex | testConsumed | testProduced _ | readDequeue | writeDequeue _ | readSlot
  | readItemNo _ | readConsumeNum | writeConsumeNum _ | postStock => 1
  | _ => 0

end ConsumerPc

/-!
# The shared variables
-/

structure Recorded (C : Params) (b : Buffer) : Prop where
  made_eq : b.made = (List.range b.made.length).map fun k => ((k + 1) % C.bufferSize, k + 1)
  taken_eq : b.taken = (List.range b.taken.length).map fun k => k + 1
  taken_le : b.taken.length ≤ b.made.length
  made_le : b.made.length ≤ b.itemNum
  item_le : b.itemNum ≤ C.maxItemNum
  consume_le : b.consumeNum ≤ b.taken.length
  stored : Buffered C.bufferSize b.itemNo id (b.taken.length + 1) (b.made.length + 1)
  ended : b.endFlag ≠ 0 -> b.made.length = C.maxItemNum
  running : b.endFlag = 0 -> b.taken.length < C.maxItemNum

structure Counters (b : Buffer) (item consume enq deq flag : Nat) : Prop where
  itemNum_eq : b.itemNum = item
  consumeNum_eq : b.consumeNum = consume
  enqueue_eq : b.enqueue = enq
  dequeue_eq : b.dequeue = deq
  endFlag_eq : b.endFlag = flag

/-- The value of `END_FLAG` when nobody is about to set it. -/
def lastFlag (C : Params) (b : Buffer) : Nat :=
  if b.made.length = C.maxItemNum then 1 else 0

/-- Nobody is in the middle of a production or a consumption. -/
def Settled (C : Params) (b : Buffer) : Prop :=
  Counters b b.made.length b.taken.length (b.made.length % C.bufferSize)
    (b.taken.length % C.bufferSize) (lastFlag C b)

/-- An item has been counted; `enq` is the value of `enqueue`. -/
def Counted (C : Params) (b : Buffer) (enq : Nat) : Prop :=
  Counters b (b.made.length + 1) b.taken.length enq (b.taken.length % C.bufferSize) 0

def Stored (C : Params) (b : Buffer) : Prop :=
  Counters b b.made.length b.taken.length (b.made.length % C.bufferSize)
    (b.taken.length % C.bufferSize) 0 ∧ b.taken.length < b.made.length

/-- An item is about to be read; `deq` is the value of `dequeue`. -/
def Reading (C : Params) (b : Buffer) (deq : Nat) : Prop :=
  Counters b b.made.length b.taken.length (b.made.length % C.bufferSize) deq (lastFlag C b) ∧
    b.taken.length < b.made.length

def Uncounted (C : Params) (b : Buffer) : Prop :=
  Counters b b.made.length (b.taken.length - 1) (b.made.length % C.bufferSize)
    (b.taken.length % C.bufferSize) (lastFlag C b) ∧ 0 < b.taken.length

/-- The shared variables as a producer in its critical section finds them. -/
def ProducerShape (C : Params) (b : Buffer) : ProducerPc -> Prop
  | ProducerPc.test => Settled C b
  | ProducerPc.readItemNum => Settled C b ∧ b.made.length < C.maxItemNum
  | ProducerPc.writeItemNum v =>
      Settled C b ∧ b.made.length < C.maxItemNum ∧ v = b.made.length
  | ProducerPc.readEnqueue => Counted C b (b.made.length % C.bufferSize)
  | ProducerPc.writeEnqueue v =>
      Counted C b (b.made.length % C.bufferSize) ∧ v = b.made.length % C.bufferSize
  | ProducerPc.readSlot => Counted C b ((b.made.length + 1) % C.bufferSize)
  | ProducerPc.readItem slot =>
      Counted C b ((b.made.length + 1) % C.bufferSize) ∧
        slot = (b.made.length + 1) % C.bufferSize
  | ProducerPc.writeItemNo slot item =>
      Counted C b ((b.made.length + 1) % C.bufferSize) ∧
        slot = (b.made.length + 1) % C.bufferSize ∧ item = b.made.length + 1
  | ProducerPc.readTidSlot => Stored C b
  | ProducerPc.writeProTid slot => Stored C b ∧ slot = b.made.length % C.bufferSize
  | ProducerPc.testLast => Stored C b
  | ProducerPc.setEndFlag => Stored C b ∧ b.made.length = C.maxItemNum
  | ProducerPc.postStock => Settled C b
  | ProducerPc.postEmptyslot => Settled C b
  | ProducerPc.postMutex => Settled C b
  | _ => True

def ConsumerShape (C : Params) (b : Buffer) : ConsumerPc -> Prop
  | ConsumerPc.testConsumed => Settled C b
  | ConsumerPc.testProduced consumed => Settled C b ∧ consumed = b.taken.length
  | ConsumerPc.readDequeue => Reading C b (b.taken.length % C.bufferSize)
  | ConsumerPc.writeDequeue v =>
      Reading C b (b.taken.length % C.bufferSize) ∧ v = b.taken.length % C.bufferSize
  | ConsumerPc.readSlot => Reading C b ((b.taken.length + 1) % C.bufferSize)
  | ConsumerPc.readItemNo slot =>
      Reading C b ((b.taken.length + 1) % C.bufferSize) ∧
        slot = (b.taken.length + 1) % C.bufferSize
  | ConsumerPc.readConsumeNum => Uncounted C b
  | ConsumerPc.writeConsumeNum v => Uncounted C b ∧ v = b.taken.length - 1
  | ConsumerPc.postEmptyslot => Settled C b
  | ConsumerPc.postStock => Settled C b
  | ConsumerPc.postMutex => Settled C b
  | _ => True

/-!
# Writes to the shared variables
-/

theorem Recorded.writeItemNum (h : Recorded C b) (hs : Settled C b)
    (hless : b.made.length < C.maxItemNum) :
    Recorded C { b with itemNum := b.made.length + 1 } ∧
      Counted C { b with itemNum := b.made.length + 1 } (b.made.length % C.bufferSize) := by
  constructor
  · exact
      { made_eq := h.made_eq
        taken_eq := h.taken_eq
        taken_le := h.taken_le
        made_le := Nat.le_succ _
        item_le := hless
        consume_le := h.consume_le
        stored := h.stored
        ended := h.ended
        running := h.running }
  · have hflag : b.endFlag = 0 := by
      rw [hs.endFlag_eq]
      exact if_neg (Nat.ne_of_lt hless)
    exact ⟨rfl, hs.consumeNum_eq, hs.enqueue_eq, hs.dequeue_eq, hflag⟩

theorem Counted.writeEnqueue (hs : Counted C b (b.made.length % C.bufferSize)) :
    Counted C { b with enqueue := (b.made.length % C.bufferSize + 1) % C.bufferSize }
      ((b.made.length + 1) % C.bufferSize) :=
  ⟨hs.itemNum_eq, hs.consumeNum_eq, Nat.mod_add_mod _ _ _, hs.dequeue_eq, hs.endFlag_eq⟩

/-- The next item goes into the next cell, which holds no item that is still
to be consumed. -/
theorem Recorded.writeItemNo (h : Recorded C b)
    (hs : Counted C b ((b.made.length + 1) % C.bufferSize))
    (hroom : b.itemNum ≤ b.consumeNum + C.bufferSize) :
    let slot := (b.made.length + 1) % C.bufferSize
    let item := b.made.length + 1
    Recorded C { b with
        itemNo := Function.update b.itemNo slot item
        made := b.made ++ [(slot, item)] } ∧
      Stored C { b with
        itemNo := Function.update b.itemNo slot item
        made := b.made ++ [(slot, item)] } := by
  have hitem := hs.itemNum_eq
  have hconsume := hs.consumeNum_eq
  have hroom' : b.made.length + 1 < b.taken.length + 1 + C.bufferSize := by lia
  have hle := h.item_le
  constructor
  · constructor
    · simp only [List.length_append, List.length_singleton, List.range_succ, List.map_append,
        List.map_singleton]
      rw [← h.made_eq]
    · exact h.taken_eq
    · simp only [List.length_append, List.length_singleton]
      exact Nat.le_succ_of_le h.taken_le
    · simp only [List.length_append, List.length_singleton]
      exact hitem.ge
    · exact hle
    · exact h.consume_le
    · simp only [List.length_append, List.length_singleton]
      exact h.stored.store hroom'
    · intro hflag
      exact absurd hs.endFlag_eq hflag
    · intro hflag
      exact h.running hflag
  · refine ⟨⟨?_, hconsume, ?_, hs.dequeue_eq, hs.endFlag_eq⟩, ?_⟩
    · simp only [List.length_append, List.length_singleton]
      exact hitem
    · simp only [List.length_append, List.length_singleton]
      exact hs.enqueue_eq
    · simp only [List.length_append, List.length_singleton]
      exact Nat.lt_succ_of_le h.taken_le

theorem Recorded.setEndFlag (h : Recorded C b) (hs : Stored C b)
    (hlast : b.made.length = C.maxItemNum) :
    Recorded C { b with endFlag := 1 } ∧ Settled C { b with endFlag := 1 } := by
  constructor
  · exact
      { made_eq := h.made_eq
        taken_eq := h.taken_eq
        taken_le := h.taken_le
        made_le := h.made_le
        item_le := h.item_le
        consume_le := h.consume_le
        stored := h.stored
        ended := fun _ => hlast
        running := fun hfalse => absurd hfalse Nat.one_ne_zero }
  · exact ⟨hs.left.itemNum_eq, hs.left.consumeNum_eq, hs.left.enqueue_eq, hs.left.dequeue_eq,
      (if_pos hlast).symm⟩

theorem Reading.writeDequeue (hs : Reading C b (b.taken.length % C.bufferSize)) :
    Reading C { b with dequeue := (b.taken.length % C.bufferSize + 1) % C.bufferSize }
      ((b.taken.length + 1) % C.bufferSize) :=
  ⟨⟨hs.left.itemNum_eq, hs.left.consumeNum_eq, hs.left.enqueue_eq, Nat.mod_add_mod _ _ _,
    hs.left.endFlag_eq⟩, hs.right⟩

theorem Recorded.readItemNo (h : Recorded C b)
    (hs : Reading C b ((b.taken.length + 1) % C.bufferSize)) :
    let item := b.itemNo ((b.taken.length + 1) % C.bufferSize)
    Recorded C { b with taken := b.taken ++ [item] } ∧
      Uncounted C { b with taken := b.taken ++ [item] } := by
  have hnext : b.itemNo ((b.taken.length + 1) % C.bufferSize) = b.taken.length + 1 :=
    h.stored _ (Nat.le_refl _) (Nat.succ_lt_succ hs.right)
  have hmade := h.made_le.trans h.item_le
  constructor
  · constructor
    · exact h.made_eq
    · simp only [List.length_append, List.length_singleton, List.range_succ, List.map_append,
        List.map_singleton]
      rw [← h.taken_eq, hnext]
    · simp only [List.length_append, List.length_singleton]
      exact hs.right
    · exact h.made_le
    · exact h.item_le
    · simp only [List.length_append, List.length_singleton]
      exact Nat.le_succ_of_le h.consume_le
    · simp only [List.length_append, List.length_singleton]
      exact h.stored.mono (Nat.le_succ _) (Nat.le_refl _)
    · exact h.ended
    · intro hflag
      have hlast : lastFlag C b = 0 := hs.left.endFlag_eq.symm.trans hflag
      have hne : b.made.length ≠ C.maxItemNum := by
        intro heq
        unfold lastFlag at hlast
        rw [if_pos heq] at hlast
        cases hlast
      have hlt := hs.right
      simp only [List.length_append, List.length_singleton]
      lia
  · refine ⟨⟨hs.left.itemNum_eq, ?_, hs.left.enqueue_eq, ?_, hs.left.endFlag_eq⟩, ?_⟩
    · simp only [List.length_append, List.length_singleton, Nat.add_sub_cancel]
      exact hs.left.consumeNum_eq
    · simp only [List.length_append, List.length_singleton]
      exact hs.left.dequeue_eq
    · simp only [List.length_append, List.length_singleton]
      exact Nat.succ_pos _

theorem Recorded.writeConsumeNum (h : Recorded C b) (hs : Uncounted C b) :
    Recorded C { b with consumeNum := b.taken.length - 1 + 1 } ∧
      Settled C { b with consumeNum := b.taken.length - 1 + 1 } := by
  have hcount : b.taken.length - 1 + 1 = b.taken.length := Nat.sub_add_cancel hs.right
  rw [hcount]
  constructor
  · exact
      { made_eq := h.made_eq
        taken_eq := h.taken_eq
        taken_le := h.taken_le
        made_le := h.made_le
        item_le := h.item_le
        consume_le := Nat.le_refl _
        stored := h.stored
        ended := h.ended
        running := h.running }
  · exact ⟨hs.left.itemNum_eq, rfl, hs.left.enqueue_eq, hs.left.dequeue_eq, hs.left.endFlag_eq⟩

end ProducerConsumer
end OsLabs
