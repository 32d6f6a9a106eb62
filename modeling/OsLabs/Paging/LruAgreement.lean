import OsLabs.Paging.LruMatrix
import OsLabs.Paging.LruStackRefinement

/-!
# The matrix keeps the same order, and the two programs agree

A one in row `i` and column `j` says that frame `i` has been used and does not
stand before frame `j` in the order of last use.  The frame at the front
therefore has the first row with the fewest ones.
-/

namespace OsLabs
namespace Paging

open Foundation

structure MatrixRep (s : LruMatrixState) (a : Recency) : Prop where
  frames_eq : s.pageFrame = a.frames
  ones : forall i j, i ∈ a.order -> j ∈ a.order ->
    (s.matrix i j = 1 <-> a.frames i ≠ -1 ∧ ¬ Before a.order i j)

variable {n : Nat} {s : LruMatrixState} {a : Recency}

/-- One use of a frame moves it to the back of the order. -/
theorem MatrixRep.use (h : MatrixRep s a) (hrecent : Recent n a) {x : Nat}
    (hx : x ∈ a.order) {frames : Nat -> Int} (hused : frames x ≠ -1)
    (hother : forall y, y ≠ x -> frames y = a.frames y) :
    MatrixRep (LruMatrixState.mk frames (useFrame n s.matrix x))
      (Recency.mk frames (moveToBack a.order x)) := by
  refine ⟨rfl, ?_⟩
  intro i j hi hj
  have hperm := moveToBack_perm hx
  have hi' := hperm.mem_iff.mp hi
  have hj' := hperm.mem_iff.mp hj
  change useFrame n s.matrix x i j = 1 <->
    frames i ≠ -1 ∧ ¬ Before (moveToBack a.order x) i j
  rw [useFrame_apply _ (hrecent.mem_iff.mp hi') (hrecent.mem_iff.mp hj')]
  by_cases hix : i = x
  · subst hix
    rw [if_pos rfl]
    constructor
    · intro _
      exact ⟨hused, not_before_moved hrecent.nodup⟩
    · intro _
      rfl
  · rw [if_neg hix]
    by_cases hjx : j = x
    · subst hjx
      rw [if_pos rfl]
      constructor
      · intro hbad
        cases hbad
      · intro hbad
        exact absurd (before_moved hi' hix) hbad.right
    · rw [if_neg hjx, hother i hix, before_others hrecent.nodup hix hjx]
      exact h.ones i j hi' hj'

/-!
# The victim
-/

theorem MatrixRep.self_one (h : MatrixRep s a) (hrecent : Recent n a) {i : Nat}
    (hi : i < n) (hused : a.frames i ≠ -1) : s.matrix i i = 1 :=
  (h.ones i i (hrecent.mem_iff.mpr hi) (hrecent.mem_iff.mpr hi)).mpr
    ⟨hused, Before.irrefl hrecent.nodup i⟩

theorem oneSum_pos {matrix : Matrix} {i j : Nat} (hj : j < n) (hone : matrix i j = 1) :
    0 < oneSum n matrix i := by
  rw [oneSum_eq_card, Finset.card_pos]
  exact ⟨j, Finset.mem_filter.mpr ⟨Finset.mem_range.mpr hj, hone⟩⟩

theorem oneSum_unused (h : MatrixRep s a) (hrecent : Recent n a) {i : Nat} (hi : i < n)
    (hunused : a.frames i = -1) : oneSum n s.matrix i = 0 := by
  rw [oneSum_eq_card, Finset.card_eq_zero, Finset.filter_eq_empty_iff]
  intro j hj hone
  have hmem := Finset.mem_range.mp hj
  exact ((h.ones i j (hrecent.mem_iff.mpr hi) (hrecent.mem_iff.mpr hmem)).mp hone).left
    hunused

/-- If the first frame has been used, its row has a single one. -/
theorem oneSum_front (h : MatrixRep s a) (hrecent : Recent n a) {x : Nat} {rest : List Nat}
    (horder : a.order = x :: rest) (hused : a.frames x ≠ -1) :
    oneSum n s.matrix x = 1 := by
  have hx : x ∈ a.order := by
    rw [horder]
    exact List.mem_cons_self
  rw [oneSum_eq_card, Finset.card_eq_one]
  refine ⟨x, ?_⟩
  ext j
  rw [Finset.mem_filter, Finset.mem_range, Finset.mem_singleton]
  constructor
  · intro hj
    have hmem : j ∈ a.order := hrecent.mem_iff.mpr hj.left
    have hnot := ((h.ones x j hx hmem).mp hj.right).right
    rw [horder] at hmem hnot
    cases List.mem_cons.mp hmem with
    | inl heq => exact heq
    | inr hrest => exact absurd (before_cons_head hrest) hnot
  · intro heq
    subst heq
    exact ⟨hrecent.mem_iff.mp hx, h.self_one hrecent (hrecent.mem_iff.mp hx) hused⟩

theorem oneSum_behind (h : MatrixRep s a) (hrecent : Recent n a) {x i : Nat}
    {rest : List Nat} (horder : a.order = x :: rest) (hi : i < n) (hix : i ≠ x)
    (hused : a.frames i ≠ -1) : 2 ≤ oneSum n s.matrix i := by
  have hx : x ∈ a.order := by
    rw [horder]
    exact List.mem_cons_self
  have hfirst : s.matrix i x = 1 := by
    apply (h.ones i x (hrecent.mem_iff.mpr hi) hx).mpr
    refine ⟨hused, ?_⟩
    have hnodup := hrecent.nodup
    rw [horder] at hnodup ⊢
    exact not_before_head hnodup
  have hsub : {i, x} ⊆ (Finset.range n).filter fun j => s.matrix i j = 1 := by
    intro j hj
    rw [Finset.mem_insert, Finset.mem_singleton] at hj
    rw [Finset.mem_filter, Finset.mem_range]
    cases hj with
    | inl heq =>
        rw [heq]
        exact ⟨hi, h.self_one hrecent hi hused⟩
    | inr heq =>
        rw [heq]
        exact ⟨hrecent.mem_iff.mp hx, hfirst⟩
  have hcard := Finset.card_le_card hsub
  rw [Finset.card_pair hix] at hcard
  rw [oneSum_eq_card]
  exact hcard

theorem MatrixRep.findLeastRow (h : MatrixRep s a) (hrecent : Recent n a) (hn : 2 ≤ n)
    {x : Nat} {rest : List Nat} (horder : a.order = x :: rest) :
    findLeastRow n s.matrix = x := by
  have hx : x < n := by
    rw [← hrecent.mem_iff, horder]
    exact List.mem_cons_self
  rcases hrecent.unusedFirst with ⟨unused, used, hsplit, hfirst⟩
  rw [horder] at hsplit
  cases unused with
  | nil =>
      rw [List.nil_append] at hsplit
      have hall : forall i, i < n -> a.frames i ≠ -1 := by
        intro i hi
        apply hfirst.used_ne
        rw [← hsplit, ← horder]
        exact hrecent.mem_iff.mpr hi
      have hone := oneSum_front h hrecent horder (hall x hx)
      apply findLeastRow_eq hx
      · lia
      · intro i hi
        have hmany := oneSum_behind h hrecent horder (by lia) (by lia) (hall i (by lia))
        lia
      · intro i hi
        have hpos := oneSum_pos hi (h.self_one hrecent hi (hall i hi))
        lia
  | cons u unused =>
      rw [List.cons_append] at hsplit
      cases hsplit
      have hzero := oneSum_unused h hrecent hx (hfirst.unused_eq x List.mem_cons_self)
      apply findLeastRow_eq hx
      · lia
      · intro i hi
        have hused : a.frames i ≠ -1 := by
          have hmem : i ∈ a.order := hrecent.mem_iff.mpr (by lia)
          rw [horder, ← List.cons_append] at hmem
          rcases List.mem_append.mp hmem with hbad | hok
          · rcases List.mem_cons.mp hbad with heq | hlater
            · lia
            · have hlt := (List.pairwise_cons.mp hfirst.ascending).left i hlater
              lia
          · exact hfirst.used_ne i hok
        have hin : i < n := by lia
        have hpos := oneSum_pos hin (h.self_one hrecent hin hused)
        lia
      · intro i _
        lia

/-!
# One reference
-/

theorem MatrixRep.find (h : MatrixRep s a) (hrecent : Recent n a) {page : Int}
    (hpage : page ≠ -1) :
    ((List.range n).find? fun j => s.pageFrame j = page) = a.holder page := by
  unfold Recency.holder
  rw [h.frames_eq]
  symm
  apply List.find?_eq_find?_of_perm hrecent.perm
  intro x hx y hy
  have hfx : a.frames x = page := by simpa using hx.right
  have hfy : a.frames y = page := by simpa using hy.right
  apply hrecent.distinct x y hx.left hy.left
  · rw [hfx, hfy]
  · rw [hfx]
    exact hpage

theorem MatrixRep.refer (h : MatrixRep s a) (hrecent : Recent n a) (hn : 2 ≤ n)
    {page : Int} (hpage : page ≠ -1) :
    (lruMatrixRefer n s page).fst = (a.refer page).fst ∧
      MatrixRep (lruMatrixRefer n s page).snd (a.refer page).snd := by
  unfold lruMatrixRefer
  rw [h.find hrecent hpage]
  cases hholder : a.holder page with
  | some x =>
      rcases holder_some hholder with ⟨hx, hframe⟩
      rw [refer_hit hholder]
      refine ⟨rfl, ?_⟩
      have hused : a.frames x ≠ -1 := by
        rw [hframe]
        exact hpage
      exact ⟨h.frames_eq, (h.use hrecent hx hused fun _ _ => rfl).ones⟩
  | none =>
      cases horder : a.order with
      | nil =>
          have hlen := hrecent.perm.length_eq
          rw [horder, List.length_nil, List.length_range] at hlen
          lia
      | cons x rest =>
          have hx : x ∈ a.order := by
            rw [horder]
            exact List.mem_cons_self
          rw [refer_fault hholder horder]
          refine ⟨rfl, ?_⟩
          simp only [h.findLeastRow hrecent hn horder, h.frames_eq]
          apply h.use hrecent hx
          · rw [Function.update_self]
            exact hpage
          · intro y hy
            exact Function.update_of_ne hy _ _

theorem initialMatrix_rep (n : Nat) :
    MatrixRep (LruMatrixState.mk (fun _ => -1) fun _ _ => 0) (initialRecency n) := by
  refine ⟨rfl, ?_⟩
  intro i j _ _
  constructor
  · intro hbad
    cases hbad
  · intro hbad
    exact absurd rfl hbad.left

/-!
# Agreement
-/

theorem agree_from {t : LruStackState} (hstack : StackRep t a) (hmatrix : MatrixRep s a)
    (hrecent : Recent n a) (hn : 2 ≤ n) {refs : List Int}
    (hrefs : forall page, page ∈ refs -> 0 ≤ page) :
    lruStackFrom n t refs = some (lruMatrixFrom n s refs) := by
  induction refs generalizing t s a with
  | nil => rfl
  | cons page refs ih =>
      have hpage : page ≠ -1 := by
        have hnonneg := hrefs page List.mem_cons_self
        lia
      rcases hstack.refer hrecent hn page with ⟨t', hrun, hstack'⟩
      rcases hmatrix.refer hrecent hn hpage with ⟨hfault, hmatrix'⟩
      have hrest := ih hstack' hmatrix' (hrecent.refer hpage)
        fun page' hpage' => hrefs page' (List.mem_cons_of_mem page hpage')
      unfold lruStackFrom lruMatrixFrom
      simp only [hrun, hrest, hfault, hstack'.frames_eq, hmatrix'.frames_eq]

/-- With at least two frames both programs report the same faults and the same
frames at every reference. -/
theorem lruStack_eq_lruMatrix {n : Nat} (hn : 2 ≤ n) {refs : List Int}
    (hrefs : forall page, page ∈ refs -> 0 ≤ page) :
    lruStack n refs = some (lruMatrix n refs) :=
  agree_from (initPageStack_rep (by lia)) (initialMatrix_rep n) (initialRecency_recent n) hn
    hrefs

theorem lruStack_eq_lruMatrix_three_references :
    lruStack 2 [7, 0, 7] = some (lruMatrix 2 [7, 0, 7]) :=
  lruStack_eq_lruMatrix (by decide) (by decide)

example : lruMatrix 2 [7, 0, 7, 1] =
    [(true, [7, -1]), (true, [7, 0]), (false, [7, 0]), (true, [7, 1])] := by decide

end Paging
end OsLabs
