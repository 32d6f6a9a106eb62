import OsLabs.Peterson.Counter

/-!
# Writers and readers over shared memory

The threads of `shmwrite.c` and of `shmread.c` share one message buffer and its
flag `written`.  Each process has its own filter lock.  Both programs number
their threads from 1, but the scans look at the numbers from 0 below the number
of threads.

The record of what is stored and printed is not part of the programs' memory.
-/

namespace OsLabs
namespace Peterson

open Foundation

inductive Side where
  | writer
  | reader
deriving DecidableEq

/-- A message is stored, or printed by a reader. -/
inductive BufferEvent where
  | stored (text : String)
  | printed (thread_num : Int) (text : String)
deriving DecidableEq

structure SharedState where
  proc : Side -> Process
  written : Int
  mtext : String
  log : List BufferEvent

namespace SharedState

def setProc (s : SharedState) (side : Side) (p : Process) : SharedState :=
  { s with proc := Function.update s.proc side p }

def goto (s : SharedState) (side : Side) (i : Int) (pc : BodyPc) : SharedState :=
  s.setProc side ((s.proc side).goto i pc)

end SharedState

/-- What `sprintf` puts into `buffer`. -/
def message (tid : Int) : String := "\"message from thread tid=" ++ toString tid ++ "\""

/-- The common code of the two `ftn` functions: wait until `written` is not `busy`,
use the buffer, and set `written` to `done`. -/
def bufferStep (side : Side) (num busy done : Int)
    (transfer : Int -> SharedState -> SharedState) (s : SharedState) (i : Int) :
    Option SharedState :=
  if (s.proc side).killed then none
  else if (s.proc side).lock.pc i = LockPc.inside then
    match (s.proc side).body i with
    | BodyPc.await =>
        some (if s.written = busy then s else s.goto side i BodyPc.transfer)
    | BodyPc.transfer => some ((transfer i s).goto side i BodyPc.setWritten)
    | BodyPc.setWritten => some ({ s with written := done }.goto side i BodyPc.leave)
    | _ => (processStep num BodyPc.await (s.proc side) i).map (s.setProc side)
  else (processStep num BodyPc.await (s.proc side) i).map (s.setProc side)

/-- `strncpy(shared->mtext, buffer, TEXT_SIZE)`. -/
def storeText (tid : Int -> Int) (i : Int) (s : SharedState) : SharedState :=
  { s with mtext := message (tid i), log := s.log ++ [BufferEvent.stored (message (tid i))] }

/-- `printf` of the message. -/
def printText (i : Int) (s : SharedState) : SharedState :=
  { s with log := s.log ++ [BufferEvent.printed i s.mtext] }

def writeFtnStep (write_thread_num : Int) (tid : Int -> Int) :
    SharedState -> Int -> Option SharedState :=
  bufferStep Side.writer write_thread_num 1 1 (storeText tid)

def readFtnStep (read_thread_num : Int) : SharedState -> Int -> Option SharedState :=
  bufferStep Side.reader read_thread_num 0 0 printText

/-- A step of one of the two programs; `num` gives their numbers of threads. -/
def shmStep (num : Side -> Int) (tid : Int -> Int) (s : SharedState) :
    Side × Int -> Option SharedState
  | (Side.writer, i) => writeFtnStep (num Side.writer) tid s i
  | (Side.reader, i) => readFtnStep (num Side.reader) s i

def bufferThreads (num : Int) : Finset Int := numbered 1 num

theorem mem_bufferThreads {num i : Int} : i ∈ bufferThreads num <-> 1 ≤ i ∧ i ≤ num := by
  unfold bufferThreads
  rw [mem_numbered]
  lia

theorem bufferThreads_card (num : Int) : (bufferThreads num).card ≤ num.toNat :=
  numbered_card 1 num

/-- `shmcon.c` has cleared `written`; the message is whatever was there. -/
def initialShared (num : Side -> Int) (mtext : String) : SharedState where
  proc := fun side => initialProcess (num side)
  written := 0
  mtext := mtext
  log := []

def shmSystem (num : Side -> Int) (tid : Int -> Int) : System SharedState (Side × Int) where
  init s := exists mtext, s = initialShared num mtext
  step s a t := a.2 ∈ bufferThreads (num a.1) ∧ shmStep num tid s a = some t

/-!
# What the programs are for
-/

/-- At most one thread is between its loop over `lev` and its last write. -/
def Exclusive (num : Int) (p : Process) : Prop :=
  forall i j, 1 ≤ i -> i ≤ num -> 1 ≤ j -> j ≤ num ->
    p.lock.pc i = LockPc.inside -> p.lock.pc j = LockPc.inside -> i = j

/-- Between a message and the next one there is exactly one print, of the first. -/
def Lossless (log : List BufferEvent) : Prop :=
  forall before text between text' after,
    log = before ++ BufferEvent.stored text ::
      (between ++ BufferEvent.stored text' :: after) ->
    (forall text'', BufferEvent.stored text'' ∉ between) ->
    exists i, between = [BufferEvent.printed i text]

structure HandsOver (num : Side -> Int) (s : SharedState) : Prop where
  exclusive : forall side, Exclusive (num side) (s.proc side)
  lossless : Lossless s.log

/-- A buffer for one message: what is stored is taken out before the next. -/
def slotStep : Option String -> BufferEvent -> Option (Option String)
  | none, BufferEvent.stored text => some (some text)
  | some text, BufferEvent.printed _ text' => if text' = text then some none else none
  | _, _ => none

def slotAfter (log : List BufferEvent) : Option (Option String) :=
  System.execAll slotStep none log

theorem lossless_of_slot {log : List BufferEvent} {slot : Option String}
    (h : slotAfter log = some slot) : Lossless log := by
  intro before text between text' after hlog hnone
  unfold slotAfter at h
  rw [hlog, System.execAll_append] at h
  rcases Option.bind_eq_some_iff.mp h with ⟨slot₁, _, hrest⟩
  rcases Option.bind_eq_some_iff.mp hrest with ⟨slot₂, hstore, hrest₂⟩
  have hfull : slot₂ = some text := by
    cases slot₁ with
    | none => exact (Option.some.inj hstore).symm
    | some _ => cases hstore
  subst hfull
  cases between with
  | nil => cases hrest₂
  | cons e between =>
      cases e with
      | stored text'' => exact absurd List.mem_cons_self (hnone text'')
      | printed i text'' =>
          rcases Option.bind_eq_some_iff.mp hrest₂ with ⟨slot₃, hprint, hrest₃⟩
          change (if text'' = text then some none else none) = some slot₃ at hprint
          split at hprint
          · rename_i heq
            cases hprint
            subst heq
            cases between with
            | nil => exact ⟨i, rfl⟩
            | cons e' between =>
                cases e' with
                | stored text₃ =>
                    exact absurd (List.mem_cons_of_mem _ List.mem_cons_self) (hnone text₃)
                | printed j text₃ => cases hrest₃
          · cases hprint

end Peterson
end OsLabs
