import Mathlib.Data.Finset.Card
import Mathlib.Data.Finset.Range
import OsLabs.Paging.LruStack

/-!
# LRU with a matrix

`LRU_matrix` of `page_replacement.c`: a square matrix with one row and one
column for each frame.  A use of frame `k` sets row `k` to ones and then column
`k`, off the diagonal, to zeros; the victim is the first row with the fewest
ones.
-/

namespace OsLabs
namespace Paging

abbrev Matrix := Nat -> Nat -> Int

def setCell (matrix : Matrix) (row column : Nat) (value : Int) : Matrix :=
  fun i j => if i = row ∧ j = column then value else matrix i j

def setrow1 (n : Nat) (matrix : Matrix) (row : Nat) : Matrix :=
  (List.range n).foldl (fun matrix i => setCell matrix row i 1) matrix

def setcolumn0 (n : Nat) (matrix : Matrix) (column : Nat) : Matrix :=
  (List.range n).foldl
    (fun matrix i => if i ≠ column then setCell matrix i column 0 else matrix) matrix

/-- The inner loop of `find_least_row`: the number of ones in a row. -/
def oneSum (n : Nat) (matrix : Matrix) (i : Nat) : Nat :=
  (List.range n).foldl (fun sum j => if matrix i j = 1 then sum + 1 else sum) 0

def leastStep (n : Nat) (matrix : Matrix) (least : Nat × Nat) (i : Nat) : Nat × Nat :=
  if oneSum n matrix i < least.fst then (oneSum n matrix i, i) else least

def findLeastRow (n : Nat) (matrix : Matrix) : Nat :=
  ((List.range n).foldl (leastStep n matrix) (n, 0)).snd

structure LruMatrixState where
  pageFrame : Nat -> Int
  matrix : Matrix

/-- One iteration of the main loop with `n` frames. -/
def lruMatrixRefer (n : Nat) (s : LruMatrixState) (pageNum : Int) : Bool × LruMatrixState :=
  match (List.range n).find? fun j => s.pageFrame j = pageNum with
  | some j => (false, { s with matrix := setcolumn0 n (setrow1 n s.matrix j) j })
  | none =>
      let leastOneRow := findLeastRow n s.matrix
      (true, LruMatrixState.mk (Function.update s.pageFrame leastOneRow pageNum)
        (setcolumn0 n (setrow1 n s.matrix leastOneRow) leastOneRow))

def lruMatrixFrom (n : Nat) : LruMatrixState -> List Int -> List (Bool × List Int)
  | _, [] => []
  | s, pageNum :: refs =>
      let (fault, s) := lruMatrixRefer n s pageNum
      (fault, frameList n s.pageFrame) :: lruMatrixFrom n s refs

def lruMatrix (n : Nat) (refs : List Int) : List (Bool × List Int) :=
  lruMatrixFrom n (LruMatrixState.mk (fun _ => -1) fun _ _ => 0) refs

/-!
# What the loops compute
-/

def useFrame (n : Nat) (matrix : Matrix) (k : Nat) : Matrix :=
  setcolumn0 n (setrow1 n matrix k) k

theorem setCell_apply (matrix : Matrix) (row column : Nat) (value : Int) (i j : Nat) :
    setCell matrix row column value i j =
      if i = row ∧ j = column then value else matrix i j := rfl

theorem setrow1_apply (n : Nat) (matrix : Matrix) (row i j : Nat) :
    setrow1 n matrix row i j = if i = row ∧ j < n then 1 else matrix i j := by
  unfold setrow1
  induction n with
  | zero => simp
  | succ n ih =>
      rw [List.range_succ, List.foldl_append, List.foldl_cons, List.foldl_nil]
      rw [setCell_apply, ih]
      grind

theorem setcolumn0_apply (n : Nat) (matrix : Matrix) (column i j : Nat) :
    setcolumn0 n matrix column i j =
      if i < n ∧ i ≠ column ∧ j = column then 0 else matrix i j := by
  unfold setcolumn0
  induction n with
  | zero => simp
  | succ n ih =>
      rw [List.range_succ, List.foldl_append, List.foldl_cons, List.foldl_nil]
      by_cases hn : n ≠ column
      · rw [if_pos hn]
        rw [setCell_apply, ih]
        grind
      · rw [if_neg hn, ih]
        grind

theorem useFrame_apply {n k i j : Nat} (matrix : Matrix) (hi : i < n) (hj : j < n) :
    useFrame n matrix k i j =
      if i = k then 1 else if j = k then 0 else matrix i j := by
  unfold useFrame
  rw [setcolumn0_apply, setrow1_apply]
  grind

theorem oneSum_eq_card (n : Nat) (matrix : Matrix) (i : Nat) :
    oneSum n matrix i = ((Finset.range n).filter fun j => matrix i j = 1).card := by
  unfold oneSum
  induction n with
  | zero => simp
  | succ n ih =>
      rw [List.range_succ, List.foldl_append, List.foldl_cons, List.foldl_nil, ih,
        Finset.range_add_one, Finset.filter_insert]
      by_cases hone : matrix i n = 1
      · rw [if_pos hone, if_pos hone, Finset.card_insert_of_notMem (by simp)]
      · rw [if_neg hone, if_neg hone]

theorem findLeastRow_eq {n h : Nat} {matrix : Matrix} (hh : h < n)
    (hlt : oneSum n matrix h < n)
    (hbefore : forall i, i < h -> oneSum n matrix h < oneSum n matrix i)
    (hleast : forall i, i < n -> oneSum n matrix h ≤ oneSum n matrix i) :
    findLeastRow n matrix = h := by
  have hscan : forall m, m ≤ n ->
      (m ≤ h -> oneSum n matrix h < ((List.range m).foldl (leastStep n matrix) (n, 0)).fst) ∧
      (h < m -> (List.range m).foldl (leastStep n matrix) (n, 0) = (oneSum n matrix h, h)) := by
    intro m
    induction m with
    | zero =>
        intro _
        constructor
        · intro _
          exact hlt
        · intro hbad
          cases hbad
    | succ m ih =>
        intro hm
        rcases ih (Nat.le_of_succ_le hm) with ⟨hless, hfound⟩
        rw [List.range_succ, List.foldl_append, List.foldl_cons, List.foldl_nil]
        unfold leastStep
        constructor
        · intro hmh
          split
          · exact hbefore m hmh
          · exact hless (Nat.le_of_succ_le hmh)
        · intro hmh
          cases Nat.lt_or_eq_of_le (Nat.le_of_lt_succ hmh) with
          | inl hgt =>
              have hstay := hfound hgt
              unfold leastStep at hstay
              rw [hstay, if_neg (Nat.not_lt.mpr (hleast m hm))]
          | inr heq =>
              subst heq
              have hnow := hless (Nat.le_refl h)
              unfold leastStep at hnow
              rw [if_pos hnow]
  unfold findLeastRow
  rw [(hscan n (Nat.le_refl n)).right hh]

end Paging
end OsLabs
