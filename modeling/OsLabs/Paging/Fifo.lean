import Mathlib.Data.List.GetD
import OsLabs.Foundation.CircularBuffer
import OsLabs.Paging.LruStack

/-!
# First in, first out

`FIFO` of `page_replacement.c`: the frames are replaced in turn.  The pages that
have been brought in stand in the frames as in a circular buffer.
-/

namespace OsLabs
namespace Paging

open Foundation

structure FifoState where
  pageFrame : Nat -> Int
  replaceIndex : Nat

def findFrame (pageFrame : Nat -> Int) (pageNum : Int) : Nat -> Nat -> Nat
  | 0, j => j
  | k + 1, j => if pageFrame j = pageNum then j else findFrame pageFrame pageNum k (j + 1)

/-- One iteration of the main loop with `n` frames: whether the page faulted, and
the new state. -/
def fifoRefer (n : Nat) (s : FifoState) (pageNum : Int) : Bool × FifoState :=
  if findFrame s.pageFrame pageNum n 0 = n then
    (true, FifoState.mk (Function.update s.pageFrame s.replaceIndex pageNum)
      ((s.replaceIndex + 1) % n))
  else
    (false, s)

def initialFifo : FifoState := FifoState.mk (fun _ => -1) 0

/-- What is printed at each reference: the fault and the frames. -/
def fifoFrom (n : Nat) : FifoState -> List Int -> List (Bool × List Int)
  | _, [] => []
  | s, pageNum :: refs =>
      let r := fifoRefer n s pageNum
      (r.fst, frameList n r.snd.pageFrame) :: fifoFrom n r.snd refs

def fifo (n : Nat) (refs : List Int) : List (Bool × List Int) := fifoFrom n initialFifo refs

/-!
# The history of a run
-/

def fifoAfter (n : Nat) : FifoState -> List Int -> FifoState
  | s, [] => s
  | s, pageNum :: refs => fifoAfter n (fifoRefer n s pageNum).snd refs

def faultedIn (n : Nat) : FifoState -> List Int -> List Int
  | _, [] => []
  | s, pageNum :: refs =>
      let r := fifoRefer n s pageNum
      if r.fst then pageNum :: faultedIn n r.snd refs else faultedIn n r.snd refs

variable {n : Nat} {s : FifoState} {h refs : List Int} {page : Int}

/-- What is printed for a reference comes from the state that the ones before it
have led to. -/
theorem fifoFrom_reference (n : Nat) (s : FifoState) (refs : List Int) (page : Int)
    (rest : List Int) :
    (fifoFrom n s (refs ++ page :: rest))[refs.length]? =
      some ((fifoRefer n (fifoAfter n s refs) page).fst,
        frameList n (fifoRefer n (fifoAfter n s refs) page).snd.pageFrame) := by
  induction refs generalizing s with
  | nil => rfl
  | cons p refs ih =>
      rw [List.cons_append, List.length_cons]
      unfold fifoFrom fifoAfter
      rw [List.getElem?_cons_succ]
      exact ih _

theorem findFrame_eq_iff (pageFrame : Nat -> Int) (page : Int) (k j : Nat) :
    findFrame pageFrame page k j = j + k <->
      forall i, j ≤ i -> i < j + k -> pageFrame i ≠ page := by
  have hle : forall k j, findFrame pageFrame page k j ≤ j + k := by
    intro k
    induction k with
    | zero =>
        intro j
        exact Nat.le_refl _
    | succ k ih =>
        intro j
        unfold findFrame
        split
        · lia
        · have hrest := ih (j + 1)
          lia
  induction k generalizing j with
  | zero =>
      constructor
      · intro _ i hlo hhi
        lia
      · intro _
        rfl
  | succ k ih =>
      unfold findFrame
      split
      · rename_i hfound
        constructor
        · intro hbad
          lia
        · intro hnone
          exact absurd hfound (hnone j (Nat.le_refl j) (by lia))
      · rename_i hother
        rw [show j + (k + 1) = j + 1 + k by lia]
        apply (ih (j + 1)).trans
        constructor
        · intro hnone i hlo hhi
          by_cases heq : i = j
          · rw [heq]
            exact hother
          · exact hnone i (by lia) hhi
        · intro hnone i hlo hhi
          exact hnone i (by lia) hhi

def Absent (n : Nat) (s : FifoState) (page : Int) : Prop :=
  forall j, j < n -> s.pageFrame j ≠ page

theorem fifoRefer_fault (habsent : Absent n s page) :
    fifoRefer n s page = (true, FifoState.mk (Function.update s.pageFrame s.replaceIndex page)
      ((s.replaceIndex + 1) % n)) := by
  have hnone := (findFrame_eq_iff s.pageFrame page n 0).mpr (by
    intro i _ hi
    exact habsent i (by lia))
  rw [Nat.zero_add] at hnone
  unfold fifoRefer
  rw [if_pos hnone]

theorem fifoRefer_hit (hpresent : ¬ Absent n s page) : fifoRefer n s page = (false, s) := by
  have hsome : findFrame s.pageFrame page n 0 ≠ n := by
    intro heq
    apply hpresent
    intro j hj
    exact (findFrame_eq_iff s.pageFrame page n 0).mp (by rw [heq, Nat.zero_add]) j (Nat.zero_le j)
      (by lia)
  unfold fifoRefer
  rw [if_neg hsome]

/-!
# The frames are a circular buffer of the pages brought in
-/

structure FifoInv (n : Nat) (s : FifoState) (h : List Int) : Prop where
  index : s.replaceIndex = h.length % n
  held : Buffered n s.pageFrame (fun k => h.getD k (-1)) (h.length - n) h.length
  empty : forall j, h.length ≤ j -> j < n -> s.pageFrame j = -1
  nonneg : forall p, p ∈ h -> 0 ≤ p
  distinct : (h.drop (h.length - n)).Nodup

theorem initialFifo_inv (n : Nat) : FifoInv n initialFifo [] where
  index := (Nat.zero_mod n).symm
  held := by
    rw [List.length_nil, Nat.zero_sub]
    exact Buffered.empty _ _ _ _
  empty := fun _ _ _ => rfl
  nonneg := by
    intro p hp
    cases hp
  distinct := by
    rw [List.drop_nil]
    exact List.nodup_nil

/-- The last pages that have been brought in, at most one for each frame. -/
def lastIn (n : Nat) (h : List Int) : List Int := h.drop (h.length - min h.length n)

theorem lastIn_eq (n : Nat) (h : List Int) : lastIn n h = h.drop (h.length - n) := by
  unfold lastIn
  congr 1
  lia

theorem mem_lastIn : page ∈ lastIn n h <->
    exists k, h.length ≤ k + n ∧ k < h.length ∧ h.getD k (-1) = page := by
  rw [lastIn_eq, List.mem_iff_getElem?]
  constructor
  · rintro ⟨i, hi⟩
    rw [List.getElem?_drop] at hi
    have hlt := (List.getElem?_eq_some_iff.mp hi).choose
    refine ⟨h.length - n + i, by lia, hlt, ?_⟩
    rw [List.getD_eq_getElem?_getD, hi, Option.getD_some]
  · rintro ⟨k, hlo, hhi, hk⟩
    refine ⟨k - (h.length - n), ?_⟩
    rw [List.getElem?_drop, show h.length - n + (k - (h.length - n)) = k by lia,
      List.getElem?_eq_getElem hhi]
    rw [List.getD_eq_getElem?_getD, List.getElem?_eq_getElem hhi, Option.getD_some] at hk
    rw [hk]

namespace FifoInv

theorem frame_cases (hinv : FifoInv n s h) {j : Nat} (hj : j < n) :
    (h.length ≤ j ∧ s.pageFrame j = -1) ∨
      exists k, k % n = j ∧ h.length ≤ k + n ∧ k < h.length ∧
        s.pageFrame j = h.getD k (-1) := by
  by_cases hused : j < h.length
  · rcases exists_mod_eq hj hused with ⟨k, hk, hlt, hnear⟩
    refine Or.inr ⟨k, hk, hnear, hlt, ?_⟩
    rw [← hk]
    exact hinv.held k (by lia) hlt
  · exact Or.inl ⟨by lia, hinv.empty j (by lia) hj⟩

theorem resident_iff (hinv : FifoInv n s h) (hn : 1 ≤ n) (hpage : page ≠ -1) :
    (exists j, j < n ∧ s.pageFrame j = page) <-> page ∈ lastIn n h := by
  rw [mem_lastIn]
  constructor
  · rintro ⟨j, hj, hframe⟩
    cases hinv.frame_cases hj with
    | inl hempty =>
        rw [hempty.right] at hframe
        exact absurd hframe.symm hpage
    | inr hheld =>
        rcases hheld with ⟨k, _, hnear, hlt, hk⟩
        exact ⟨k, hnear, hlt, hk.symm.trans hframe⟩
  · rintro ⟨k, hnear, hlt, hk⟩
    refine ⟨k % n, Nat.mod_lt k hn, ?_⟩
    rw [hinv.held k (by lia) hlt]
    exact hk

theorem absent_iff (hinv : FifoInv n s h) (hn : 1 ≤ n) (hpage : page ≠ -1) :
    Absent n s page <-> page ∉ lastIn n h := by
  rw [← hinv.resident_iff hn hpage]
  constructor
  · rintro habsent ⟨j, hj, hframe⟩
    exact habsent j hj hframe
  · intro hnone j hj hframe
    exact hnone ⟨j, hj, hframe⟩

theorem fault (hinv : FifoInv n s h) (hn : 1 ≤ n) (hpage : 0 ≤ page)
    (habsent : Absent n s page) :
    FifoInv n (FifoState.mk (Function.update s.pageFrame s.replaceIndex page)
      ((s.replaceIndex + 1) % n)) (h ++ [page]) := by
  have hlen : (h ++ [page]).length = h.length + 1 := by simp
  have hold : forall k, k < h.length -> (h ++ [page]).getD k (-1) = h.getD k (-1) :=
    fun k hk => List.getD_append _ _ _ _ hk
  have hlast : (h ++ [page]).getD h.length (-1) = page := by simp
  constructor
  · rw [hlen]
    simp only
    rw [hinv.index, Nat.mod_add_mod]
  · rw [hlen]
    have hheld := (hinv.held.mono (show h.length - n ≤ h.length + 1 - n by lia)
      (Nat.le_refl _)).congr hold
    have hstored := hheld.store (by lia)
    simp only [hlast] at hstored
    simp only
    rw [hinv.index]
    exact hstored
  · intro j hj hjn
    rw [hlen] at hj
    simp only
    rw [hinv.index, Nat.mod_eq_of_lt (by lia), Function.update_of_ne (by lia)]
    exact hinv.empty j (by lia) hjn
  · intro p hp
    cases List.mem_append.mp hp with
    | inl hmem => exact hinv.nonneg p hmem
    | inr hmem =>
        rw [List.mem_singleton.mp hmem]
        exact hpage
  · have hout := (hinv.absent_iff hn (show page ≠ -1 by lia)).mp habsent
    rw [lastIn_eq] at hout
    rw [hlen, List.drop_append_of_le_length (by lia)]
    have hsub : (h.drop (h.length + 1 - n)).Sublist (h.drop (h.length - n)) := by
      by_cases hfull : n ≤ h.length
      · rw [show h.length + 1 - n = h.length - n + 1 by lia, ← List.drop_drop]
        exact List.drop_sublist 1 _
      · rw [show h.length + 1 - n = h.length - n by lia]
    apply List.nodup_append.mpr
    refine ⟨hinv.distinct.sublist hsub, List.nodup_singleton page, ?_⟩
    intro a ha b hb heq
    rw [List.mem_singleton.mp hb] at heq
    rw [heq] at ha
    exact hout (hsub.subset ha)

theorem refer (hinv : FifoInv n s h) (hn : 1 ≤ n) (hpage : 0 ≤ page) :
    FifoInv n (fifoRefer n s page).snd
      (if (fifoRefer n s page).fst then h ++ [page] else h) := by
  by_cases habsent : Absent n s page
  · rw [fifoRefer_fault habsent]
    exact hinv.fault hn hpage habsent
  · rw [fifoRefer_hit habsent]
    exact hinv

theorem after (hinv : FifoInv n s h) (hn : 1 ≤ n) (hrefs : forall p, p ∈ refs -> 0 ≤ p) :
    FifoInv n (fifoAfter n s refs) (h ++ faultedIn n s refs) := by
  induction refs generalizing s h with
  | nil =>
      unfold faultedIn fifoAfter
      rw [List.append_nil]
      exact hinv
  | cons p refs ih =>
      have hstep := hinv.refer hn (hrefs p List.mem_cons_self)
      have hrest := ih hstep fun q hq => hrefs q (List.mem_cons_of_mem p hq)
      unfold faultedIn fifoAfter
      simp only
      split at hrest
      · rename_i hfault
        rw [if_pos hfault]
        rw [List.append_assoc, List.singleton_append] at hrest
        exact hrest
      · rename_i hhit
        rw [if_neg hhit]
        exact hrest

end FifoInv

structure LongestResident (n : Nat) (s : FifoState) (h : List Int) : Prop where
  index : s.replaceIndex = h.length % n
  seat : forall k, k < h.length -> h.length ≤ k + n -> s.pageFrame (k % n) = h.getD k (-1)
  resident : forall page, page ≠ -1 ->
    ((exists j, j < n ∧ s.pageFrame j = page) <-> page ∈ lastIn n h)
  distinct : (lastIn n h).Nodup
  fault_iff : forall page, (fifoRefer n s page).fst = true <->
    ¬ exists j, j < n ∧ s.pageFrame j = page
  hit : forall page, (fifoRefer n s page).fst = false -> (fifoRefer n s page).snd = s

theorem FifoInv.longestResident (hinv : FifoInv n s h) (hn : 1 ≤ n) : LongestResident n s h where
  index := hinv.index
  seat := by
    intro k hlt hnear
    exact hinv.held k (by lia) hlt
  resident := fun _ hpage => hinv.resident_iff hn hpage
  distinct := by
    rw [lastIn_eq]
    exact hinv.distinct
  fault_iff := by
    intro page
    by_cases habsent : Absent n s page
    · rw [fifoRefer_fault habsent]
      constructor
      · rintro _ ⟨j, hj, hframe⟩
        exact habsent j hj hframe
      · intro _
        rfl
    · rw [fifoRefer_hit habsent]
      constructor
      · intro hbad
        cases hbad
      · intro hnone
        exact absurd (fun j hj hframe => hnone ⟨j, hj, hframe⟩) habsent
  hit := by
    intro page hhit
    by_cases habsent : Absent n s page
    · rw [fifoRefer_fault habsent] at hhit
      cases hhit
    · rw [fifoRefer_hit habsent]

/-- After any references the frames hold the last pages brought in, each in its
place, and the next reference is printed from that state. -/
theorem fifo_longest_resident (hn : 1 ≤ n) (hrefs : forall p, p ∈ refs -> 0 ≤ p) :
    LongestResident n (fifoAfter n initialFifo refs) (faultedIn n initialFifo refs) ∧
      forall page rest, (fifo n (refs ++ page :: rest))[refs.length]? =
        some ((fifoRefer n (fifoAfter n initialFifo refs) page).fst,
          frameList n (fifoRefer n (fifoAfter n initialFifo refs) page).snd.pageFrame) := by
  have hinv := (initialFifo_inv n).after hn hrefs
  rw [List.nil_append] at hinv
  exact ⟨hinv.longestResident hn, fifoFrom_reference n initialFifo refs⟩

theorem fifo_longest_resident_four_references :
    (forall p, p ∈ [7, 0, 7, 1] -> (0 : Int) ≤ p) ∧
      LongestResident 2 (fifoAfter 2 initialFifo [7, 0, 7, 1])
        (faultedIn 2 initialFifo [7, 0, 7, 1]) :=
  ⟨by decide, (fifo_longest_resident (by decide) (by decide)).left⟩

example : faultedIn 2 initialFifo [7, 0, 7, 1] = [7, 0, 1] := by decide

end Paging
end OsLabs
