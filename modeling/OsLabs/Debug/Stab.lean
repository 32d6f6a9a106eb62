import Mathlib.Order.Bounds.Basic

/-!
# The stab table and its binary search

The debugger looks up an instruction address in the stab table.  The entries of the
requested type are only some of the entries, so the search goes back from the middle of
the range to the nearest entry of the type before it compares.
-/

namespace OsLabs
namespace Debug

structure Stab where
  nType : BitVec 8
  nValue : BitVec 32
deriving DecidableEq, Repr

/-- An access outside the table has no result. -/
def stabAt (stabs : Array Stab) (i : Int) : Option Stab :=
  if 0 ≤ i then stabs[i.toNat]? else none

/-- The locals of the search, with the two bounds it writes through its pointers. -/
structure Search where
  l : Int
  r : Int
  anyMatches : Bool
  regionLeft : Int
  regionRight : Int
  addr : BitVec 32
deriving DecidableEq, Repr

/-- `while (m > low && stabs[m].n_type != type) m --`, for as many rounds as there are
indices above `low`. -/
def searchBack (stabs : Array Stab) (type low : Int) : Nat -> Int -> Option Int
  | 0, m => some m
  | rounds + 1, m =>
      if low < m then
        (stabAt stabs m).bind fun stab =>
          if (stab.nType.toNat : Int) ≠ type then
            searchBack stabs type low rounds (m - 1)
          else
            some m
      else
        some m

def searchStep (stabs : Array Stab) (type : Int) (s : Search) : Option Search :=
  let trueM := (s.l + s.r).tdiv 2
  (searchBack stabs type (s.l - 1) (trueM - (s.l - 1)).toNat trueM).bind fun m =>
    if m < s.l then
      some { s with l := trueM + 1 }
    else
      (stabAt stabs m).map fun stab =>
        if stab.nValue < s.addr then
          { s with anyMatches := true, regionLeft := m, l := trueM + 1 }
        else if s.addr < stab.nValue then
          { s with anyMatches := true, regionRight := m - 1, r := m - 1 }
        else
          { s with anyMatches := true, regionLeft := m, l := m, addr := s.addr + 1 }

def searchLoop (stabs : Array Stab) (type : Int) : Nat -> Search -> Option Search
  | 0, _ => none
  | fuel + 1, s =>
      if s.l ≤ s.r then
        (searchStep stabs type s).bind fun t => searchLoop stabs type fuel t
      else
        some s

def searchResult (stabs : Array Stab) (type : Int) (s : Search) : Option (Int × Int) :=
  if s.anyMatches then
    (searchBack stabs type s.regionLeft (s.regionRight - s.regionLeft).toNat s.regionRight).map
      fun l => (l, s.regionRight)
  else
    some (s.regionLeft, s.regionLeft - 1)

def searchStart (left right : Int) (addr : BitVec 32) : Search where
  l := left
  r := right
  anyMatches := false
  regionLeft := left
  regionRight := right
  addr := addr

/-- The two bounds `stab_binsearch` leaves behind; nothing when the fuel does not last. -/
def stabBinsearch (fuel : Nat) (stabs : Array Stab) (left right type : Int)
    (addr : BitVec 32) : Option (Int × Int) :=
  (searchLoop stabs type fuel (searchStart left right addr)).bind (searchResult stabs type)

/-!
# Entries of the type
-/

def OfType (stabs : Array Stab) (type i : Int) : Prop :=
  exists stab, stabAt stabs i = some stab ∧ (stab.nType.toNat : Int) = type

def valueAt (stabs : Array Stab) (i : Int) : BitVec 32 :=
  (stabAt stabs i).elim 0 Stab.nValue

structure LastOfType (stabs : Array Stab) (type low high e : Int) : Prop where
  low_le : low ≤ e
  le_high : e ≤ high
  typed : OfType stabs type e
  none_after : forall i, e < i -> i ≤ high -> ¬ OfType stabs type i

def NoneOfType (stabs : Array Stab) (type low high : Int) : Prop :=
  forall i, low ≤ i -> i ≤ high -> ¬ OfType stabs type i

/-- The entries of the type come in the order of their addresses. -/
def Increasing (stabs : Array Stab) (type left right : Int) : Prop :=
  forall i j, left ≤ i -> i < j -> j ≤ right -> OfType stabs type i -> OfType stabs type j ->
    valueAt stabs i < valueAt stabs j

def candidates (stabs : Array Stab) (type left right : Int) (addr : BitVec 32) : Set Int :=
  fun i => left ≤ i ∧ i ≤ right ∧ OfType stabs type i ∧ valueAt stabs i ≤ addr

/-- The index ends the region of the entry: the next entry of the type comes right after it,
or there is none and it is the end of the range. -/
def EndsRegion (stabs : Array Stab) (type right m e : Int) : Prop :=
  (OfType stabs type (e + 1) ∧ m < e + 1 ∧ e + 1 ≤ right ∧ NoneOfType stabs type (m + 1) e) ∨
    (e = right ∧ NoneOfType stabs type (m + 1) right)

def Brackets (stabs : Array Stab) (type left right : Int) (addr : BitVec 32)
    (out : Int × Int) : Prop :=
  (out.1 ≤ out.2 <-> exists i, i ∈ candidates stabs type left right addr) ∧
    (out.1 ≤ out.2 ->
      IsGreatest (candidates stabs type left right addr) out.1 ∧
        (forall i, i ∈ candidates stabs type left right addr ->
          valueAt stabs i ≤ valueAt stabs out.1) ∧
        EndsRegion stabs type right out.1 out.2)

/-!
# Where the halving goes
-/

/-- Halving the range comes to an index from `m` to just before `n` while `n` is still in the
range.  Left of `m` the range is cut at the middle, right of `n` at the last entry of the
type that the middle does not pass. -/
inductive SplitsBefore (stabs : Array Stab) (type m n : Int) : Int -> Int -> Prop where
  | between {l r : Int} : m ≤ (l + r) / 2 -> (l + r) / 2 < n -> SplitsBefore stabs type m n l r
  | cutBelow {l r : Int} : (l + r) / 2 < m ->
      SplitsBefore stabs type m n ((l + r) / 2 + 1) r -> SplitsBefore stabs type m n l r
  | cutAbove {l r e : Int} : n < e -> LastOfType stabs type l ((l + r) / 2) e ->
      SplitsBefore stabs type m n l (e - 1) -> SplitsBefore stabs type m n l r

/-- Entries `m` and `n` follow each other, the first has the address and the second the
address right after it. -/
structure Neighbours (stabs : Array Stab) (type left right : Int) (addr : BitVec 32)
    (m n : Int) : Prop where
  left_le : left ≤ m
  lt : m < n
  le_right : n ≤ right
  typed_m : OfType stabs type m
  typed_n : OfType stabs type n
  none_between : NoneOfType stabs type (m + 1) (n - 1)
  value_m : valueAt stabs m = addr
  value_n : valueAt stabs n = addr + 1

/-- The searched address has no entry of the type below it only when there is no entry of
the type at all; and when the entry after an exact match is the neighbouring address, the
search discards it before it meets the exact match, or else it is the largest address and
comes right after the match. -/
structure Bracketable (stabs : Array Stab) (type left right : Int) (addr : BitVec 32) :
    Prop where
  candidate : NoneOfType stabs type left right ∨
    exists i, i ∈ candidates stabs type left right addr
  neighbours : forall m n, Neighbours stabs type left right addr m n ->
    SplitsBefore stabs type m n left right -> addr + 2 = 0 ∧ n = m + 1

end Debug
end OsLabs
