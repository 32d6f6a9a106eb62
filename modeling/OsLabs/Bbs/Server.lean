import Mathlib.Logic.Function.Basic
import OsLabs.Bbs.Frames
import OsLabs.Foundation.Transition

/-!
# The processes of the BBS server

`main` accepts connections, `pipe_data` keeps the status and the nickname of every
connection, and one process `recv_send_data` serves each client.  They share
nothing but pipes, which are queues here: `fd[0]` for `max_sn`, `fd_stat`,
`fd_msg` and `fd[sn]`.  A step reads or writes one pipe; `pipe_data` handles what
it has read in the same step.  The sockets and the terminal are outside.
-/

namespace OsLabs
namespace Bbs

open Foundation

inductive Stat where
  | empty
  | accepted
  | normal
  | ended
deriving DecidableEq

/-- What `pipe_data` knows: its own `max_sn` and `sn_attri`. -/
structure PipeData where
  maxSn : Nat
  stat : Nat -> Stat
  nickname : Nat -> List Char

/-- What `pipe_data` makes of a message: its new state, what it writes to which
`fd[sn]`, and whether it goes on reading `fd_msg`. -/
structure Handled where
  pipe : PipeData
  replies : List (Nat × List Char)
  stay : Bool

def console : List Char := ['C', 'o', 'n', 's', 'o', 'l', 'e']

def anonymous : List Char := ['A', 'n', 'o', 'n', 'y', 'm', 'o', 'u', 's']

def statDescriptor : Stat -> List Char
  | Stat.empty => "STAT_EMPTY".toList
  | Stat.accepted => "STAT_ACCEPTD".toList
  | Stat.normal => "STAT_NORMAL".toList
  | Stat.ended => "STAT_ENDED".toList

/-!
# Messages of the clients
-/

def strncpyNickname (src : List Char) : List Char :=
  let s := (cString src).take nicknameL
  s ++ List.replicate (nicknameL - s.length) nul

def cleanChar (c : Char) : Char :=
  if c = ' ' then '_' else if c = '\n' then nul else c

def requestedNickname (msgBuf : List Char) : List Char :=
  cString (((strncpyNickname (msgBuf.drop 6)).take (nicknameL - 1)).map cleanChar ++ [nul])

/-- The scan of the nicknames up to `max_sn`. -/
def occupied (p : PipeData) (name : List Char) : Bool :=
  (List.range (p.maxSn + 1)).any fun i => p.nickname i = name

def toNormal (p : PipeData) (text : List Char) : List (Nat × List Char) :=
  ((List.range' 1 p.maxSn).filter fun i => p.stat i = Stat.normal).map fun i => (i, text)

def renamed (p : PipeData) (sn : Nat) (name : List Char) : PipeData :=
  { p with
    nickname := Function.update p.nickname sn name
    stat := Function.update p.stat sn Stat.normal }

/-- Message `#1`. -/
def rename (p : PipeData) (sn : Nat) (msgBuf : List Char) : Handled :=
  let name := requestedNickname msgBuf
  if name = anonymous then
    ⟨p, [(sn, "Console: invalid nickname: ".toList ++ name)], false⟩
  else if occupied p name then
    ⟨p, [(sn, "Console: this nickname occupied: ".toList ++ name)], true⟩
  else
    let text :=
      if p.stat sn = Stat.accepted then "Console: welcome, ".toList ++ name
      else "Console: ".toList ++ p.nickname sn ++ " changed nickname to ".toList ++ name
    ⟨renamed p sn name, toNormal (renamed p sn name) text, true⟩

/-- Message `#2`. -/
def connectorList (p : PipeData) (sn : Nat) : List (Nat × List Char) :=
  [(sn, "\n====   connector list   =====".toList)] ++
    (List.range (p.maxSn + 1)).map (fun i : Nat =>
      (sn, "sn = ".toList ++ formatInt i ++ ", stat = ".toList ++ statDescriptor (p.stat i) ++
        ", nickname = ".toList ++ p.nickname i)) ++
    [(sn, "========\n".toList)]

/-- Messages that start with `#`. -/
def command (p : PipeData) (sn : Nat) (msgBuf : List Char) : Handled :=
  if msgBuf.getD 5 nul = '0' then
    ⟨{ p with stat := Function.update p.stat sn Stat.ended }, [], true⟩
  else if msgBuf.getD 5 nul = '1' then rename p sn msgBuf
  else if msgBuf.getD 5 nul = '2' then ⟨p, connectorList p sn, true⟩
  else ⟨p, [], true⟩

def addressee (msgBuf : List Char) : List Char :=
  ((msgBuf.drop 5).take (nicknameL - 1)).takeWhile fun c => c ≠ nul ∧ c ≠ ' '

def privateChat (p : PipeData) (sn : Nat) (msgBuf : List Char) : List (Nat × List Char) :=
  let i := (addressee msgBuf).length
  let start := if msgBuf.getD (5 + i) nul = ' ' then 5 + i + 1 else 5 + i
  let text := p.nickname sn ++ "@: ".toList ++ cString (msgBuf.drop start)
  (toNormal p text).filter fun reply => p.nickname reply.fst = addressee msgBuf

def handleFrom (p : PipeData) (sn : Nat) (msgBuf : List Char) : Handled :=
  if p.stat sn ≠ Stat.accepted ∧ p.stat sn ≠ Stat.normal then ⟨p, [], false⟩
  else if p.stat sn = Stat.accepted ∧ msgBuf.getD 4 nul ≠ '#' then
    ⟨p, [(sn, "Console: pls initiate your nickname by [#1nickname] first.".toList)], false⟩
  else if msgBuf.getD 4 nul = '#' then command p sn msgBuf
  else if msgBuf.getD 4 nul = '@' then ⟨p, privateChat p sn msgBuf, true⟩
  else ⟨p, toNormal p (p.nickname sn ++ ": ".toList ++ frameBody msgBuf), true⟩

/-- A message read from `fd_msg`; `none` if it has no sender or one that is no index
of `sn_attri`. -/
def handleMsg (p : PipeData) (msgBuf : List Char) : Option Handled :=
  match frameSn msgBuf with
  | none => none
  | some sn =>
      if 0 ≤ sn ∧ sn ≤ maxConnNum then some (handleFrom p sn.toNat msgBuf) else none

/-!
# Input of the terminal
-/

def atoi (text : List Char) : Int :=
  (scanInt text.length text).getD 0

/-- A line `@sn text` or `@sn#0`; `text` follows the `@`. -/
def handleTo (p : PipeData) (text : List Char) : PipeData × List (Nat × List Char) :=
  let sn := atoi text
  if 0 < sn ∧ sn ≤ p.maxSn ∧ p.stat sn.toNat = Stat.normal then
    let rest := text.dropWhile Char.isDigit
    if rest.getD 0 nul = '#' ∧ rest.getD 1 nul = '0' then
      ({ p with stat := Function.update p.stat sn.toNat Stat.ended },
        [(sn.toNat, p.nickname 0 ++ ": ".toList ++ "#0 your connection terminated!".toList)])
    else (p, [(sn.toNat, p.nickname 0 ++ ": ".toList ++ rest)])
  else (p, [])

/-- A line read from the named pipe. -/
def handleStdin (p : PipeData) (stdinBuf : List Char) : PipeData × List (Nat × List Char) :=
  if stdinBuf.getD 0 nul = '@' then handleTo p (cString (stdinBuf.drop 1))
  else if stdinBuf.getD 0 nul = '#' then (p, [])
  else (p, toNormal p (p.nickname 0 ++ ": ".toList ++ cString stdinBuf))

/-!
# The system
-/

inductive Drain where
  | maxSn
  | stat
  | msg
  | stdin
deriving DecidableEq

inductive MainPc where
  | accept
  | writeStat
  | fork
  | writeMaxSn
  | ended
deriving DecidableEq

inductive ChildPc where
  | none
  | running
  | ended
deriving DecidableEq

structure State where
  main : MainPc
  connectSn : Nat
  child : Nat -> ChildPc
  drain : Drain
  pipe : PipeData
  fdMaxSn : List Nat
  fdStat : List (Nat × Stat)
  fdMsg : List (List Char)
  fd : Nat -> List (List Char)

def deliver (fd : Nat -> List (List Char)) (replies : List (Nat × List Char)) :
    Nat -> List (List Char) :=
  replies.foldl (fun fd reply => Function.update fd reply.fst (fd reply.fst ++ [reply.snd])) fd

def mainStep (s : State) : Option State :=
  match s.main with
  | MainPc.accept =>
      if maxConnNum < s.connectSn then some { s with main := MainPc.ended }
      else some { s with main := MainPc.writeStat }
  | MainPc.writeStat =>
      some { s with
        fdStat := s.fdStat ++ [(s.connectSn, Stat.accepted)]
        main := MainPc.fork }
  | MainPc.fork =>
      some { s with
        child := Function.update s.child s.connectSn ChildPc.running
        main := MainPc.writeMaxSn }
  | MainPc.writeMaxSn =>
      some { s with
        fdMaxSn := s.fdMaxSn ++ [s.connectSn]
        connectSn := s.connectSn + 1
        main := MainPc.accept }
  | MainPc.ended => none

/-- One read of `pipe_data`; an empty pipe sends it to the next one. -/
def pipeStep (s : State) : Option State :=
  match s.drain with
  | Drain.maxSn =>
      match s.fdMaxSn with
      | [] => some { s with drain := Drain.stat }
      | sn :: rest => some { s with pipe := { s.pipe with maxSn := sn }, fdMaxSn := rest }
  | Drain.stat =>
      match s.fdStat with
      | [] => some { s with drain := Drain.msg }
      | (sn, stat) :: rest =>
          some { s with
            pipe := { s.pipe with stat := Function.update s.pipe.stat sn stat }
            fdStat := rest }
  | Drain.msg =>
      match s.fdMsg with
      | [] => some { s with drain := Drain.stdin }
      | msgBuf :: rest =>
          (handleMsg s.pipe msgBuf).map fun handled =>
            { s with
              pipe := handled.pipe
              fd := deliver s.fd handled.replies
              fdMsg := rest
              drain := if handled.stay then Drain.msg else Drain.stdin }
  | Drain.stdin => some { s with drain := Drain.maxSn }

inductive Action where
  | main
  | forkFails
  | recv (sn : Nat) (recvBuf : List Char)
  | send (sn : Nat) (ok : Bool)
  | pipe
  | stdin (stdinBuf : List Char)

/-- One step of the server: of `main`, of the process of a client that receives
`recvBuf` or sends what `pipe_data` has written for it, or of `pipe_data`. -/
def step (s : State) : Action -> Option State
  | Action.main => mainStep s
  | Action.forkFails =>
      if s.main = MainPc.fork then some { s with main := MainPc.ended } else none
  | Action.recv sn recvBuf =>
      if s.child sn = ChildPc.running then
        (recvSendFrame sn recvBuf).map fun msgBuf => { s with fdMsg := s.fdMsg ++ [msgBuf] }
      else none
  | Action.send sn ok =>
      if s.child sn = ChildPc.running then
        match s.fd sn with
        | [] => none
        | _ :: rest =>
            some { s with
              fd := Function.update s.fd sn rest
              child :=
                if ok then s.child else Function.update s.child sn ChildPc.ended }
      else none
  | Action.pipe => pipeStep s
  | Action.stdin stdinBuf =>
      if s.drain = Drain.stdin then
        some { s with
          pipe := (handleStdin s.pipe stdinBuf).fst
          fd := deliver s.fd (handleStdin s.pipe stdinBuf).snd }
      else none

def initialState : State where
  main := MainPc.accept
  connectSn := 1
  child := fun _ => ChildPc.none
  drain := Drain.maxSn
  pipe :=
    { maxSn := 0
      stat := fun _ => Stat.empty
      nickname := fun sn => if sn = 0 then console else anonymous }
  fdMaxSn := []
  fdStat := []
  fdMsg := []
  fd := fun _ => []

end Bbs
end OsLabs
