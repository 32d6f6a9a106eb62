import OsLabs.Paging.SecondChanceFaults

/-!
# The numbers of faults

What the programs print, compared between numbers of frames and with any other way to
serve the same references.
-/

namespace OsLabs
namespace Paging

open Foundation
open Foundation.FaultLog

variable {n m : Nat} {refs : List Int}

/-!
# LRU with more frames
-/

/-- The printed line with fewer frames and the one with more: a fault of the second is
one of the first, and it holds all pages of the first. -/
structure Includes (e e' : Bool × List Int) : Prop where
  fault : e'.fst = true -> e.fst = true
  frames : forall page, page ∈ e.snd -> page ≠ -1 -> page ∈ e'.snd

theorem mem_frameList_iff {a : Recency} (h : Recent n a) (page : Int) :
    page ∈ frameList n a.frames <-> page ∈ a.pages := by
  unfold frameList Recency.pages
  exact (h.perm.map a.frames).mem_iff.symm

theorem FromHistory.includes (hnm : n ≤ m) {a b : Recency} {past : List Int}
    (ha : FromHistory n a past) (hb : FromHistory m b past) {page : Int}
    (hpage : page ∈ frameList n a.frames) (hne : page ≠ -1) :
    page ∈ frameList m b.frames := by
  rw [mem_frameList_iff ha.left, ha.mem_pages_iff hne] at hpage
  rw [mem_frameList_iff hb.left, hb.mem_pages_iff hne]
  exact List.take_subset_take_left _ hnm hpage

theorem lruStack_includes_from (hn : 2 ≤ n) (hnm : n ≤ m) {s t : LruStackState} {a b : Recency}
    {past : List Int} (hs : StackRep s a) (ht : StackRep t b) (ha : FromHistory n a past)
    (hb : FromHistory m b past) (hrefs : forall p, p ∈ refs -> 0 ≤ p) :
    exists out out', lruStackFrom n s refs = some out ∧ lruStackFrom m t refs = some out' ∧
      List.Forall₂ Includes out out' := by
  induction refs generalizing s t a b past with
  | nil => exact ⟨[], [], rfl, rfl, List.Forall₂.nil⟩
  | cons page refs ih =>
      have hpage := hrefs page List.mem_cons_self
      rcases hs.refer ha.left hn page with ⟨s', hrun, hs'⟩
      rcases ht.refer hb.left (hn.trans hnm) page with ⟨t', hrun', ht'⟩
      have hstep : LruPolicy a page (a.refer page).fst (a.refer page).snd := rfl
      have hstep' : LruPolicy b page (b.refer page).fst (b.refer page).snd := rfl
      have ha' := ha.refer (by lia) hpage hstep
      have hb' := hb.refer (by lia) hpage hstep'
      rcases ih hs' ht' ha' hb' fun p hp => hrefs p (List.mem_cons_of_mem page hp) with
        ⟨out, out', hout, hout', hall⟩
      refine ⟨((a.refer page).fst, frameList n s'.pageFrame) :: out,
        ((b.refer page).fst, frameList m t'.pageFrame) :: out', ?_, ?_,
        List.Forall₂.cons ⟨?_, ?_⟩ hall⟩
      · unfold lruStackFrom
        simp only [hrun, hout]
      · unfold lruStackFrom
        simp only [hrun', hout']
      · intro hfault
        apply (ha.fault_iff hpage hstep).mpr
        intro hmem
        exact (hb.fault_iff hpage hstep').mp hfault (List.take_subset_take_left _ hnm hmem)
      · intro p hp hne
        rw [hs'.frames_eq] at hp
        rw [ht'.frames_eq]
        exact ha'.includes hnm hb' hp hne

/-- With more frames, both programs for LRU hold at every reference all pages that they
hold with fewer, and they fault at no reference at which they did not fault before. -/
theorem lru_inclusion (hn : 2 ≤ n) (hnm : n ≤ m) (hrefs : forall p, p ∈ refs -> 0 ≤ p) :
    exists out out', lruStack n refs = some out ∧ lruStack m refs = some out' ∧
      lruMatrix n refs = out ∧ lruMatrix m refs = out' ∧ List.Forall₂ Includes out out' ∧
      out'.countP Prod.fst ≤ out.countP Prod.fst := by
  rcases lruStack_includes_from hn hnm (initPageStack_rep (by lia)) (initPageStack_rep (by lia))
    ⟨initialRecency_recent n, pages_initial n⟩ ⟨initialRecency_recent m, pages_initial m⟩
    hrefs with ⟨out, out', hout, hout', hall⟩
  have hagree := agree_from (initPageStack_rep (by lia)) (initialMatrix_rep n)
    (initialRecency_recent n) hn hrefs
  have hagree' := agree_from (initPageStack_rep (by lia)) (initialMatrix_rep m)
    (initialRecency_recent m) (hn.trans hnm) hrefs
  refine ⟨out, out', hout, hout', ?_, ?_, hall, ?_⟩
  · rw [hout] at hagree
    exact (Option.some.inj hagree).symm
  · rw [hout'] at hagree'
    exact (Option.some.inj hagree').symm
  · clear hout hout' hagree hagree'
    induction hall with
    | nil => exact Nat.le_refl 0
    | @cons e e' _ _ hhead _ ih =>
        rw [List.countP_cons, List.countP_cons]
        apply Nat.add_le_add ih
        cases hlater : e'.fst with
        | false => exact Nat.zero_le _
        | true =>
            rw [hhead.fault hlater]

theorem lru_inclusion_four_references :
    exists out out', lruStack 2 [7, 0, 1, 7] = some out ∧ lruStack 3 [7, 0, 1, 7] = some out' ∧
      out'.countP Prod.fst ≤ out.countP Prod.fst := by
  rcases lru_inclusion (show 2 ≤ 2 by decide) (show 2 ≤ 3 by decide)
    (show forall p, p ∈ [7, 0, 1, 7] -> (0 : Int) ≤ p by decide) with
    ⟨out, out', hout, hout', _, _, _, hcount⟩
  exact ⟨out, out', hout, hout', hcount⟩

/-!
# Short stretches
-/

/-- In a stretch of references with no more pages than frames, none of the programs
prints more faults than there are pages in it. -/
theorem faults_in_short_stretch (hn : 2 ≤ n) (hrefs : forall p, p ∈ refs -> 0 ≤ p) :
    exists stack second, lruStack n refs = some stack ∧ secondChance n refs = some second ∧
      forall out, out ∈ [fifo n refs, stack, lruMatrix n refs, second] ->
        (faultLog refs out).Conservative n := by
  have hstack := agree_from (initPageStack_rep (by lia)) (initialMatrix_rep n)
    (initialRecency_recent n) hn hrefs
  rcases secondChance_conservative (show 1 ≤ n by lia) hrefs with ⟨second, hsecond, hcons⟩
  refine ⟨lruMatrix n refs, second, hstack, hsecond, ?_⟩
  intro out hout
  simp only [List.mem_cons, List.not_mem_nil, or_false] at hout
  rcases hout with h | h | h | h
  · rw [h]
    exact fifo_conservative (by lia) hrefs
  · rw [h]
    exact lruMatrix_conservative hn hrefs
  · rw [h]
    exact lruMatrix_conservative hn hrefs
  · rw [h]
    exact hcons

theorem faults_in_short_stretch_four_references :
    exists stack second, lruStack 2 [7, 0, 7, 1] = some stack ∧
      secondChance 2 [7, 0, 7, 1] = some second ∧
      forall out, out ∈ [fifo 2 [7, 0, 7, 1], stack, lruMatrix 2 [7, 0, 7, 1], second] ->
        (faultLog [7, 0, 7, 1] out).Conservative 2 :=
  faults_in_short_stretch (by decide) (by decide)

/-!
# The comparison with other ways to serve the references
-/

theorem fifoFrom_length (n : Nat) (s : FifoState) (refs : List Int) :
    (fifoFrom n s refs).length = refs.length := by
  induction refs generalizing s with
  | nil => rfl
  | cons page refs ih =>
      unfold fifoFrom
      rw [List.length_cons, List.length_cons, ih]

theorem lruMatrixFrom_length (n : Nat) (s : LruMatrixState) (refs : List Int) :
    (lruMatrixFrom n s refs).length = refs.length := by
  induction refs generalizing s with
  | nil => rfl
  | cons page refs ih =>
      unfold lruMatrixFrom
      rw [List.length_cons, List.length_cons, ih]

theorem secondChanceFrom_length {s : SecondChanceState} {out : List (Bool × List Int)}
    (hout : secondChanceFrom n s refs = some out) : out.length = refs.length := by
  induction refs generalizing s out with
  | nil =>
      cases hout
      rfl
  | cons page refs ih =>
      unfold secondChanceFrom at hout
      cases hrun : secondChanceRefer n s page with
      | none =>
          simp only [hrun] at hout
          cases hout
      | some r =>
          simp only [hrun] at hout
          cases hrest : secondChanceFrom n r.snd refs with
          | none =>
              simp only [hrest] at hout
              cases hout
          | some rest =>
              simp only [hrest] at hout
              cases hout
              rw [List.length_cons, List.length_cons, ih hrest]

theorem printed_competitive {h loads : Nat} {C E : Finset Int} {out : List (Bool × List Int)}
    (hcons : (faultLog refs out).Conservative n) (hlen : out.length = refs.length) (hhn : h ≤ n)
    (hserves : Serves h C refs loads E) :
    (n + 1 - h) * out.countP Prod.fst ≤ n * (loads + (n + 1 - h)) := by
  have hmarks : (out.map Prod.fst).length = refs.length := by
    rw [List.length_map, hlen]
  have hpages : (faultLog refs out).map Prod.fst = refs :=
    List.map_fst_zip (Nat.le_of_eq hmarks.symm)
  have hfaults : (faultLog refs out).faults = out.countP Prod.fst := by
    have hmap : (faultLog refs out).map Prod.snd = out.map Prod.fst :=
      List.map_snd_zip (Nat.le_of_eq hmarks)
    unfold FaultLog.faults
    change (faultLog refs out).countP (id ∘ Prod.snd) = out.countP (id ∘ Prod.fst)
    rw [← List.countP_map, ← List.countP_map, hmap]
  rw [← hfaults]
  apply hcons.competitive hhn
  rw [hpages]
  exact hserves

/-- The faults of every program against the pages that any other way to serve the
references has to bring in, where the program has at least as many frames. -/
theorem faults_competitive {h loads : Nat} {C E : Finset Int} (hn : 2 ≤ n) (hhn : h ≤ n)
    (hrefs : forall p, p ∈ refs -> 0 ≤ p) (hserves : Serves h C refs loads E) :
    exists stack second, lruStack n refs = some stack ∧ secondChance n refs = some second ∧
      forall out, out ∈ [fifo n refs, stack, lruMatrix n refs, second] ->
        (n + 1 - h) * out.countP Prod.fst ≤ n * (loads + (n + 1 - h)) := by
  have hstack := agree_from (initPageStack_rep (by lia)) (initialMatrix_rep n)
    (initialRecency_recent n) hn hrefs
  rcases secondChance_conservative (show 1 ≤ n by lia) hrefs with ⟨second, hsecond, hcons⟩
  have hmatrix := printed_competitive (lruMatrix_conservative hn hrefs)
    (lruMatrixFrom_length n _ refs) hhn hserves
  refine ⟨lruMatrix n refs, second, hstack, hsecond, ?_⟩
  intro out hout
  simp only [List.mem_cons, List.not_mem_nil, or_false] at hout
  rcases hout with h | h | h | h
  · rw [h]
    exact printed_competitive (fifo_conservative (by lia) hrefs) (fifoFrom_length n _ refs) hhn
      hserves
  · rw [h]
    exact hmatrix
  · rw [h]
    exact hmatrix
  · rw [h]
    exact printed_competitive hcons (secondChanceFrom_length hsecond) hhn hserves

theorem faults_competitive_three_references :
    exists stack second, lruStack 2 [7, 0, 7] = some stack ∧
      secondChance 2 [7, 0, 7] = some second ∧
      forall out, out ∈ [fifo 2 [7, 0, 7], stack, lruMatrix 2 [7, 0, 7], second] ->
        (2 + 1 - 1) * out.countP Prod.fst ≤ 2 * (3 + (2 + 1 - 1)) := by
  have hserves : Serves 1 (∅ : Finset Int) [7, 0, 7] 3 {7} :=
    Serves.cons (D := {7}) (m := 2) (Finset.mem_singleton_self _) (by decide)
      (Serves.cons (D := {0}) (m := 1) (Finset.mem_singleton_self _) (by decide)
        (Serves.cons (D := {7}) (m := 0) (Finset.mem_singleton_self _) (by decide) Serves.nil))
  exact faults_competitive (by decide) (by decide) (by decide) hserves

end Paging
end OsLabs
