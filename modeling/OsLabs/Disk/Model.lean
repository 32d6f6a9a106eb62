import Mathlib.Logic.Function.Basic

/-!
# Disk scheduling

The six algorithms of `HDD_scheduling.c`.  An access to `cylinders` outside of its
bounds, the read of `cylinder_req[0]` from an empty vector and a loop that runs out
of fuel are `none`.
-/

namespace OsLabs
namespace Disk

def cylinderNum : Int := 200

def InRange (c : Int) : Prop :=
  0 ≤ c ∧ c < cylinderNum

instance (c : Int) : Decidable (InRange c) :=
  inferInstanceAs (Decidable (_ ∧ _))

/-- The variables of the algorithms and the positions printed.  `served` records the
cells that are decremented; nothing depends on it. -/
structure Hdd where
  cylinders : Int -> Int
  cylinderHead : Int
  preCylinderHead : Int
  headMoveSum : Int
  printed : List Int
  served : List Int

def print (d : Hdd) (c : Int) : Hdd :=
  { d with printed := d.printed ++ [c] }

def absInt (num : Int) : Int :=
  if num ≥ 0 then num else -num

/-- `head_move_sum += abs_int(c - pre)`. -/
def addMove (d : Hdd) (c pre : Int) : Hdd :=
  { d with headMoveSum := d.headMoveSum + absInt (c - pre) }

def cell (d : Hdd) (c : Int) : Option Int :=
  if InRange c then some (d.cylinders c) else none

def decrement (d : Hdd) (c : Int) : Option Hdd :=
  if InRange c then
    some { d with
      cylinders := Function.update d.cylinders c (d.cylinders c - 1)
      served := d.served ++ [c] }
  else none

/-!
# Initialisation
-/

def setCylinders : (Int -> Int) -> List Int -> Option (Int -> Int)
  | cylinders, [] => some cylinders
  | cylinders, c :: req =>
      if InRange c then setCylinders (Function.update cylinders c (cylinders c + 1)) req
      else none

def clearCylinders (cylinders : Int -> Int) (c : Int) : Int :=
  if InRange c then 0 else cylinders c

/-- What all algorithms start with: the requests are set, and the head is printed if
nothing is requested there. -/
def start (cylinders : Int -> Int) (req : List Int) (head : Int) : Option Hdd :=
  (setCylinders (clearCylinders cylinders) req).bind fun cylinders =>
    let d : Hdd := ⟨cylinders, head, head, 0, [], []⟩
    (cell d head).map fun v => if v = 0 then print d head else d

/-!
# `FCFS` and `SSTF`
-/

def visit (d : Hdd) (c : Int) : Option Hdd :=
  (decrement (print d c) c).map fun d =>
    { addMove d d.cylinderHead c with cylinderHead := c }

def fcfsLoop : Hdd -> List Int -> Option Hdd
  | d, [] => some d
  | d, c :: req => (visit d c).bind fun d => fcfsLoop d req

def fcfs (cylinders : Int -> Int) (req : List Int) (head : Int) : Option Hdd :=
  (start cylinders req head).bind fun d => fcfsLoop d req

/-- Look at one cell if the search has not left the disk on this side. -/
def probe (d : Hdd) (inside : Bool) (c : Int) : Option (Option Int) :=
  if inside then (cell d c).map fun v => if v > 0 then some c else none else some none

/-- The loop of `find_cylinder_min_seek_dis`. -/
def findLoop (d : Hdd) : Nat -> Int -> Int -> Option Int
  | 0, _, _ => none
  | fuel + 1, dir0, dir1 =>
      if dir0 ≥ 0 ∨ dir1 < cylinderNum then
        (probe d (dir0 ≥ 0) dir0).bind fun found0 =>
          match found0 with
          | some c => some c
          | none =>
              (probe d (dir1 < cylinderNum) dir1).bind fun found1 =>
                match found1 with
                | some c => some c
                | none =>
                    findLoop d fuel (if dir0 ≥ 0 then dir0 - 1 else dir0)
                      (if dir1 < cylinderNum then dir1 + 1 else dir1)
      else some (-1)

def findCylinderMinSeekDis (d : Hdd) (head : Int) : Option Int :=
  findLoop d (cylinderNum.toNat + 2) head head

def sstfLoop : Nat -> Hdd -> Option Hdd
  | 0, d => some d
  | n + 1, d =>
      (findCylinderMinSeekDis d d.cylinderHead).bind fun c =>
        (visit d c).bind fun d => sstfLoop n d

def sstf (cylinders : Int -> Int) (req : List Int) (head : Int) : Option Hdd :=
  (start cylinders req head).bind fun d => sstfLoop req.length d

/-!
# The sweeps
-/

def serve (d : Hdd) : Option Hdd :=
  decrement { addMove (print d d.cylinderHead) d.cylinderHead d.preCylinderHead with
    preCylinderHead := d.cylinderHead } d.cylinderHead

def serveLoop : Nat -> Hdd -> Option Hdd
  | 0, _ => none
  | fuel + 1, d =>
      (cell d d.cylinderHead).bind fun v =>
        if v > 0 then (serve d).bind fun d => serveLoop fuel d else some d

/-- `cylinder_head--` or `cylinder_head++`. -/
def moveHead (headDir : Int) (d : Hdd) : Hdd :=
  { d with
    cylinderHead := if headDir = 0 then d.cylinderHead - 1 else d.cylinderHead + 1 }

/-- Sweep in one direction as long as the head is inside.  `n` bounds the number of
requests at one cylinder. -/
def sweep (inside : Int -> Bool) (headDir : Int) (n : Nat) : Nat -> Hdd -> Option Hdd
  | 0, _ => none
  | fuel + 1, d =>
      if inside d.cylinderHead then
        (serveLoop (n + 1) d).bind fun d => sweep inside headDir n fuel (moveHead headDir d)
      else some d

def sweepFuel : Nat :=
  cylinderNum.toNat + 1

def onDisk (c : Int) : Bool :=
  c ≥ 0 ∧ c < cylinderNum

/-- The end of the disk that the head has passed. -/
def endPassed (h : Int) : Int :=
  let h := if h = -1 then h + 1 else h
  if h = cylinderNum then h - 1 else h

/-- Count and print the way from the last request to the head. -/
def arrive (d : Hdd) : Hdd :=
  if d.preCylinderHead ≠ d.cylinderHead then
    { addMove (print d d.cylinderHead) d.cylinderHead d.preCylinderHead with
      preCylinderHead := d.cylinderHead }
  else d

/-- Bring the head back to the end of the disk that it has passed. -/
def toEnd (d : Hdd) : Hdd :=
  arrive { d with cylinderHead := endPassed d.cylinderHead }

def flip (headDir : Int) : Int :=
  if headDir = 0 then 1 else 0

def scan (cylinders : Int -> Int) (req : List Int) (head headDir : Int) : Option Hdd :=
  (start cylinders req head).bind fun d =>
    (sweep onDisk headDir req.length sweepFuel d).bind fun d =>
      sweep onDisk (flip headDir) req.length sweepFuel (toEnd d)

def otherEnd (h : Int) : Int :=
  if h = 0 then cylinderNum - 1 else if h = cylinderNum - 1 then 0 else h

/-- The jump of `C_SCAN` to the other end of the disk. -/
def jumpEnd (d : Hdd) : Option Hdd :=
  let h := otherEnd d.cylinderHead
  let d := { d with
    cylinderHead := h
    preCylinderHead := h
    headMoveSum := d.headMoveSum + (cylinderNum - 1) }
  (cell d h).map fun v => if v = 0 then print d h else d

def cScan (cylinders : Int -> Int) (req : List Int) (head headDir : Int) : Option Hdd :=
  (start cylinders req head).bind fun d =>
    (sweep onDisk headDir req.length sweepFuel d).bind fun d =>
      (jumpEnd (toEnd d)).bind fun d => sweep onDisk headDir req.length sweepFuel d

/-!
# `LOOK` and `C_LOOK`
-/

def extremesLoop : Int × Int -> List Int -> Int × Int
  | range, [] => range
  | (lo, hi), c :: req => extremesLoop (if lo > c then c else lo, if hi < c then c else hi) req

/-- The lowest and the highest request, from `cylinder_req[0]` on. -/
def extremes : List Int -> Option (Int × Int)
  | [] => none
  | c :: req => some (extremesLoop (c, c) (c :: req))

/-- A head outside of the requests is moved to the nearer end of them. -/
def clamp (range : Int × Int) (d : Hdd) : Hdd :=
  if d.cylinderHead < range.fst then
    let d := { d with cylinderHead := range.fst }
    { d with headMoveSum := d.headMoveSum + (range.fst - d.cylinderHead) }
  else if d.cylinderHead > range.snd then
    let d := { d with cylinderHead := range.snd }
    { d with headMoveSum := d.headMoveSum + (range.snd - range.fst) }
  else d

def between (range : Int × Int) (c : Int) : Bool :=
  c ≥ range.fst ∧ c ≤ range.snd

def lastPassed (range : Int × Int) (h : Int) : Int :=
  let h := if h = range.fst - 1 then range.fst else h
  if h = range.snd + 1 then range.snd else h

def look (cylinders : Int -> Int) (req : List Int) (head headDir : Int) : Option Hdd :=
  (start cylinders req head).bind fun d =>
    (extremes req).bind fun range =>
      (sweep (between range) headDir req.length sweepFuel (clamp range d)).bind fun d =>
        sweep (between range) (flip headDir) req.length sweepFuel
          { d with cylinderHead := lastPassed range d.cylinderHead }

def otherLast (range : Int × Int) (h : Int) : Int :=
  let h := if h = range.fst - 1 then range.snd else h
  if h = range.snd + 1 then range.fst else h

/-- The jump of `C_LOOK` to the other end of the requests. -/
def jumpLast (range : Int × Int) (d : Hdd) : Hdd :=
  let h := otherLast range d.cylinderHead
  { d with
    cylinderHead := h
    preCylinderHead := h
    headMoveSum := d.headMoveSum + (range.snd - range.fst) }

def cLook (cylinders : Int -> Int) (req : List Int) (head headDir : Int) : Option Hdd :=
  (start cylinders req head).bind fun d =>
    (extremes req).bind fun range =>
      (sweep (between range) headDir req.length sweepFuel (clamp range d)).bind fun d =>
        sweep (between range) headDir req.length sweepFuel (jumpLast range d)

end Disk
end OsLabs
