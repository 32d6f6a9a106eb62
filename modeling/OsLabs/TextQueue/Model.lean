import Mathlib.Data.Int.DivMod
import OsLabs.Foundation.CText
import OsLabs.Foundation.Transition

/-!
# Texts in shared memory

`shmcon.c` sets up a circular queue of texts in shared memory, `shmwrite.c` puts
the lines that are typed in at its rear and `shmread.c` prints them from its
front.  One of the slots stays unused, so that a full queue differs from an empty
one.

Every read or write of a shared variable is a step of its own; operands are read
from left to right.  A step is `none` if the process has exited, waits for a line
or would leave the array of texts.
-/

namespace OsLabs
namespace TextQueue

open Foundation

def TEXT_SIZE : Nat := 4 * 1024

/-- A line as `fgets` leaves it in `buffer`, if it is shorter than a slot. -/
abbrev Text := { chars : List Char // chars.length < TEXT_SIZE ∧ nul ∉ chars }

def isEnd (text : List Char) : Bool := strncmpEq text ['e', 'n', 'd'] 3

/-- The next access of `shmwrite` to the shared memory. -/
inductive WriterPc where
  | guardRear
  | guardFront (rear : Nat)
  | enter
  | copyRear
  | copyText (slot : Nat)
  | countRear
  | countFront (rear : Nat)
  | startFront
  | loopRear (i : Nat)
  | loopText (i : Nat)
  | advanceRear
  | advance (rear : Nat)
  | noticeRear
  | noticeFront (rear : Nat)
  | exited
deriving DecidableEq

/-- The next access of `shmread` to the shared memory. -/
inductive ReaderPc where
  | guardFront
  | guardRear (front : Nat)
  | printFront
  | printText (slot : Nat)
  | testFront
  | testText (slot : Nat)
  | advanceFront
  | advance (front : Nat)
  | exited
deriving DecidableEq

/-- A number of elements that the writer has displayed, with the number of texts
stored and taken when it read `front`. -/
structure Count where
  displayed : Int
  stored : Nat
  taken : Nat
deriving DecidableEq

/-- The shared memory, the two processes and what they print.  `entered`, `stored`,
`taken` and `displayFrom` are recorded for the proofs; nothing depends on them. -/
structure State where
  mtext : Nat -> List Char
  front : Nat
  rear : Nat
  writer : WriterPc
  buffer : Text
  reader : ReaderPc
  printed : List (List Char)
  counts : List Count
  display : List (List Char)
  entered : List Text
  stored : List Text
  taken : Nat
  displayFrom : Nat

inductive Action where
  | write
  | enter (text : Text)
  | read
deriving DecidableEq

section Processes

variable (textNum : Nat)

def writer (s : State) : Option State :=
  match s.writer with
  | WriterPc.guardRear => some { s with writer := WriterPc.guardFront s.rear }
  | WriterPc.guardFront rear =>
      if (rear + 1) % (textNum + 1) = s.front then
        some { s with writer := WriterPc.guardRear }
      else
        some { s with writer := WriterPc.enter }
  | WriterPc.enter => none
  | WriterPc.copyRear => some { s with writer := WriterPc.copyText s.rear }
  | WriterPc.copyText slot =>
      if slot < textNum + 1 then
        some { s with
          writer := WriterPc.countRear
          mtext := Function.update s.mtext slot (strncpy s.buffer.val TEXT_SIZE)
          stored := s.stored ++ [s.buffer] }
      else none
  | WriterPc.countRear => some { s with writer := WriterPc.countFront s.rear }
  | WriterPc.countFront rear =>
      some { s with
        writer := WriterPc.startFront
        counts := s.counts ++
          [{ displayed := ((rear : Int) + textNum + 2 - s.front).tmod (textNum + 1)
             stored := s.stored.length
             taken := s.taken }] }
  | WriterPc.startFront =>
      some { s with
        writer := WriterPc.loopRear s.front
        display := []
        displayFrom := s.taken }
  | WriterPc.loopRear i =>
      if i ≠ (s.rear + 1) % (textNum + 1) then
        some { s with writer := WriterPc.loopText i }
      else
        some { s with writer := WriterPc.advanceRear }
  | WriterPc.loopText i =>
      if i < textNum + 1 then
        some { s with
          writer := WriterPc.loopRear ((i + 1) % (textNum + 1))
          display := s.display ++ [cString (s.mtext i)] }
      else none
  | WriterPc.advanceRear => some { s with writer := WriterPc.advance s.rear }
  | WriterPc.advance rear =>
      some { s with
        rear := (rear + 1) % (textNum + 1)
        writer := if isEnd s.buffer.val then WriterPc.exited else WriterPc.noticeRear }
  | WriterPc.noticeRear => some { s with writer := WriterPc.noticeFront s.rear }
  | WriterPc.noticeFront _ => some { s with writer := WriterPc.guardRear }
  | WriterPc.exited => none

/-- `fgets` returns with a line. -/
def fgets (s : State) (text : Text) : Option State :=
  if s.writer = WriterPc.enter then
    some { s with
      writer := WriterPc.copyRear
      buffer := text
      entered := s.entered ++ [text] }
  else none

def reader (s : State) : Option State :=
  match s.reader with
  | ReaderPc.guardFront => some { s with reader := ReaderPc.guardRear s.front }
  | ReaderPc.guardRear front =>
      if front = s.rear then
        some { s with reader := ReaderPc.guardFront }
      else
        some { s with reader := ReaderPc.printFront }
  | ReaderPc.printFront => some { s with reader := ReaderPc.printText s.front }
  | ReaderPc.printText slot =>
      if slot < textNum + 1 then
        some { s with
          reader := ReaderPc.testFront
          printed := s.printed ++ [cString (s.mtext slot)] }
      else none
  | ReaderPc.testFront => some { s with reader := ReaderPc.testText s.front }
  | ReaderPc.testText slot =>
      if slot < textNum + 1 then
        some { s with
          reader := if isEnd (s.mtext slot) then ReaderPc.exited else ReaderPc.advanceFront }
      else none
  | ReaderPc.advanceFront => some { s with reader := ReaderPc.advance s.front }
  | ReaderPc.advance front =>
      some { s with
        reader := ReaderPc.guardFront
        front := (front + 1) % (textNum + 1)
        taken := s.taken + 1 }
  | ReaderPc.exited => none

def step (s : State) : Action -> Option State
  | Action.write => writer textNum s
  | Action.enter text => fgets s text
  | Action.read => reader textNum s

end Processes

/-- The memory as `main` of `shmcon.c` sets it up, with both processes at their
start. -/
structure Initial (s : State) : Prop where
  front : s.front = 0
  rear : s.rear = 0
  writer : s.writer = WriterPc.guardRear
  reader : s.reader = ReaderPc.guardFront
  printed : s.printed = []
  counts : s.counts = []
  entered : s.entered = []
  stored : s.stored = []
  taken : s.taken = 0

def queueSystem (textNum : Nat) : System State Action where
  init := Initial
  step s a t := step textNum s a = some t

end TextQueue
end OsLabs
