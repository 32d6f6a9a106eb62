import OsLabs.Foundation.DemandPaging
import OsLabs.Paging.Fifo
import OsLabs.Paging.LruAgreement
import OsLabs.Paging.LruHistory

/-!
# FIFO and LRU do not fault twice on a page in a short stretch

The programs as policies: what they print gives the log of a run, and in a stretch
with no more pages than frames every page faults at most once.
-/

namespace OsLabs
namespace Paging

open Foundation
open Foundation.FaultLog

def faultLog (refs : List Int) (out : List (Bool × List Int)) : FaultLog Int :=
  refs.zip (out.map Prod.fst)

theorem faultLog_cons (page : Int) (refs : List Int) (fault : Bool) (frames : List Int)
    (out : List (Bool × List Int)) :
    faultLog (page :: refs) ((fault, frames) :: out) = (page, fault) :: faultLog refs out := rfl

theorem faultLog_valid {refs : List Int} (hrefs : forall p, p ∈ refs -> 0 ≤ p)
    (out : List (Bool × List Int)) : forall e, e ∈ faultLog refs out -> 0 ≤ e.fst := by
  intro e he
  exact hrefs e.fst (List.of_mem_zip he).left

variable {n : Nat}

/-!
# FIFO
-/

def FifoPolicy (n : Nat) (s : FifoState) (page : Int) (fault : Bool) (t : FifoState) : Prop :=
  fifoRefer n s page = (fault, t)

theorem fifo_logs (s : FifoState) (refs : List Int) :
    exists t, Logs (FifoPolicy n) s (faultLog refs (fifoFrom n s refs)) t := by
  induction refs generalizing s with
  | nil => exact ⟨s, Logs.nil⟩
  | cons page refs ih =>
      rcases ih (fifoRefer n s page).snd with ⟨t, hrest⟩
      exact ⟨t, Logs.cons rfl hrest⟩

/-- In a stretch with at most `n` pages, the pages brought in differ from each other. -/
theorem FifoInv.stretch (hn : 1 ≤ n) {s t : FifoState} {h : List Int} (hinv : FifoInv n s h)
    {mid : FaultLog Int} (hvalid : forall e, e ∈ mid -> 0 ≤ e.fst)
    (hrun : Logs (FifoPolicy n) s mid t) (hcard : mid.pages.card ≤ n) :
    exists brought, FifoInv n t (h ++ brought) ∧ brought.Nodup ∧
      (forall p, p ∈ brought -> p ∈ mid.pages) ∧ brought.length = mid.faults := by
  induction mid using List.reverseRecOn generalizing t with
  | nil =>
      cases hrun
      refine ⟨[], ?_, List.nodup_nil, ?_, rfl⟩
      · rw [List.append_nil]
        exact hinv
      · intro p hp
        cases hp
  | append_singleton mid e ih =>
      rcases e with ⟨page, fault⟩
      rcases hrun.concat_inv with ⟨u, hbefore, hstep⟩
      rw [pages_concat] at hcard
      have hsub := Finset.subset_insert page (pages mid)
      rcases ih (fun e he => hvalid e (List.mem_append_left _ he)) hbefore
        ((Finset.card_le_card hsub).trans hcard) with ⟨brought, hu, hnodup, hmem, hlen⟩
      have hpage : 0 ≤ page := hvalid (page, fault) (List.mem_append_right _ List.mem_cons_self)
      have hnext := hu.refer hn hpage
      unfold FifoPolicy at hstep
      rw [hstep] at hnext
      rw [pages_concat, faults_append]
      cases fault with
      | false =>
          refine ⟨brought, hnext, hnodup, fun p hp => hsub (hmem p hp), ?_⟩
          rw [hlen]
          rfl
      | true =>
          have habsent : Absent n u page := by
            by_contra hpresent
            rw [fifoRefer_hit hpresent] at hstep
            cases hstep
          have hshort : brought.length ≤ n := by
            rw [← List.toFinset_card_of_nodup hnodup]
            have hsubset : brought.toFinset ⊆ insert page (pages mid) := by
              intro p hp
              exact hsub (hmem p (List.mem_toFinset.mp hp))
            exact (Finset.card_le_card hsubset).trans hcard
          have hfresh : page ∉ brought := by
            have hout := (hu.absent_iff hn (show page ≠ -1 by lia)).mp habsent
            rw [lastIn_eq, List.drop_append, List.mem_append, not_or] at hout
            rw [show (h ++ brought).length - n - h.length = 0 by
              rw [List.length_append]
              lia, List.drop_zero] at hout
            exact hout.right
          refine ⟨brought ++ [page], ?_, ?_, ?_, ?_⟩
          · rw [← List.append_assoc]
            exact hnext
          · apply List.nodup_append.mpr
            refine ⟨hnodup, List.nodup_singleton page, ?_⟩
            intro a ha b hb heq
            rw [List.mem_singleton.mp hb] at heq
            rw [heq] at ha
            exact hfresh ha
          · intro p hp
            rcases List.mem_append.mp hp with hold | hnew
            · exact hsub (hmem p hold)
            · rw [List.mem_singleton.mp hnew]
              exact Finset.mem_insert_self _ _
          · rw [List.length_append, hlen]
            rfl

theorem fifo_conservative (hn : 1 ≤ n) {refs : List Int} (hrefs : forall p, p ∈ refs -> 0 ≤ p) :
    (faultLog refs (fifo n refs)).Conservative n := by
  rcases fifo_logs (n := n) initialFifo refs with ⟨t, hrun⟩
  apply hrun.conservative (fun s => exists h, FifoInv n s h) fun p => 0 ≤ p
  · rintro s page fault u ⟨h, hinv⟩ hpage hstep
    have hnext := hinv.refer hn hpage
    unfold FifoPolicy at hstep
    rw [hstep] at hnext
    exact ⟨_, hnext⟩
  · rintro s mid u ⟨h, hinv⟩ hvalid hmid hcard
    rcases hinv.stretch hn hvalid hmid hcard with ⟨brought, _, hnodup, hmem, hlen⟩
    rw [← hlen, ← List.toFinset_card_of_nodup hnodup]
    apply Finset.card_le_card
    intro p hp
    exact hmem p (List.mem_toFinset.mp hp)
  · exact ⟨[], initialFifo_inv n⟩
  · exact faultLog_valid hrefs _

/-!
# LRU
-/

def LruPolicy (a : Recency) (page : Int) (fault : Bool) (b : Recency) : Prop :=
  a.refer page = (fault, b)

def FromHistory (n : Nat) (a : Recency) (refs : List Int) : Prop :=
  Recent n a ∧ a.pages = lastOf n (history n refs)

theorem FromHistory.refer (hn : 1 ≤ n) {a b : Recency} {refs : List Int} {page : Int}
    {fault : Bool} (h : FromHistory n a refs) (hpage : 0 ≤ page)
    (hstep : LruPolicy a page fault b) : FromHistory n b (refs ++ [page]) := by
  have hne : page ≠ -1 := by lia
  have hrecent := h.left.refer hne
  have hpages := pages_refer h.left hn h.right hne
  unfold LruPolicy at hstep
  rw [hstep] at hrecent hpages
  exact ⟨hrecent, hpages⟩

theorem FromHistory.run (hn : 1 ≤ n) {a b : Recency} {refs : List Int} {log : FaultLog Int}
    (h : FromHistory n a refs) (hvalid : forall e, e ∈ log -> 0 ≤ e.fst)
    (hrun : Logs LruPolicy a log b) : FromHistory n b (refs ++ log.map Prod.fst) := by
  induction hrun generalizing refs with
  | nil =>
      rw [List.map_nil, List.append_nil]
      exact h
  | @cons a _ _ page fault log hstep _ ih =>
      have hnext := h.refer hn (hvalid (page, fault) List.mem_cons_self) hstep
      have hlast := ih hnext fun e he => hvalid e (List.mem_cons_of_mem _ he)
      rw [List.append_assoc, List.singleton_append] at hlast
      exact hlast

theorem FromHistory.mem_pages_iff {a : Recency} {refs : List Int} {page : Int}
    (h : FromHistory n a refs) (hpage : page ≠ -1) :
    page ∈ a.pages <-> page ∈ (mostRecent refs).take n := by
  rw [← List.mem_reverse, h.right, lastOf_history, List.mem_append]
  constructor
  · intro hor
    cases hor with
    | inl hrecent => exact hrecent
    | inr hempty => exact absurd (List.eq_of_mem_replicate hempty) hpage
  · exact Or.inl

theorem FromHistory.fault_iff {a b : Recency} {refs : List Int} {page : Int} {fault : Bool}
    (h : FromHistory n a refs) (hpage : 0 ≤ page) (hstep : LruPolicy a page fault b) :
    fault = true <-> page ∉ (mostRecent refs).take n := by
  rw [← h.mem_pages_iff (show page ≠ -1 by lia), ← holder_mem_pages]
  unfold LruPolicy Recency.refer at hstep
  cases hholder : a.holder page with
  | some x =>
      rw [hholder] at hstep
      cases hstep
      simp
  | none =>
      rw [hholder] at hstep
      cases horder : a.order with
      | nil =>
          rw [horder] at hstep
          cases hstep
          simp
      | cons x rest =>
          rw [horder] at hstep
          cases hstep
          simp

theorem mem_take_mostRecent {before refs : List Int} {page : Int}
    (hfew : refs.toFinset.card ≤ n) (hmem : page ∈ refs) :
    page ∈ (mostRecent (before ++ refs)).take n := by
  unfold mostRecent
  rw [List.dedup_append]
  rcases List.suffix_union_right before refs.dedup with ⟨front, hsplit⟩
  rw [← hsplit, List.reverse_append, List.take_append, List.mem_append]
  apply Or.inl
  rw [List.card_toFinset] at hfew
  rw [List.take_of_length_le (by rw [List.length_reverse]; exact hfew), List.mem_reverse,
    List.mem_dedup]
  exact hmem

theorem FromHistory.stretch (hn : 1 ≤ n) {a b : Recency} {refs : List Int}
    (h : FromHistory n a refs) {mid : FaultLog Int} (hvalid : forall e, e ∈ mid -> 0 ≤ e.fst)
    (hrun : Logs LruPolicy a mid b) (hcard : mid.pages.card ≤ n) :
    mid.faults ≤ mid.pages.card := by
  induction mid using List.reverseRecOn generalizing b with
  | nil => exact Nat.le_refl 0
  | append_singleton mid e ih =>
      rcases e with ⟨page, fault⟩
      rcases hrun.concat_inv with ⟨c, hbefore, hstep⟩
      rw [pages_concat] at hcard ⊢
      have hsub := Finset.card_le_card (Finset.subset_insert page (pages mid))
      have hvalid' : forall e, e ∈ mid -> 0 ≤ e.fst :=
        fun e he => hvalid e (List.mem_append_left _ he)
      have hold := ih hvalid' hbefore (hsub.trans hcard)
      rw [faults_append]
      cases fault with
      | false =>
          change faults mid + 0 ≤ _
          exact hold.trans hsub
      | true =>
          have hpage : 0 ≤ page := hvalid (page, true) (List.mem_append_right _ List.mem_cons_self)
          have hfresh := ((h.run hn hvalid' hbefore).fault_iff hpage hstep).mp rfl
          have hnew : page ∉ pages mid := by
            intro hmem
            exact hfresh (mem_take_mostRecent (hsub.trans hcard) (List.mem_toFinset.mp hmem))
          rw [Finset.card_insert_of_notMem hnew]
          exact Nat.succ_le_succ hold

theorem lruMatrix_logs (hn : 2 ≤ n) {s : LruMatrixState} {a : Recency} (hrep : MatrixRep s a)
    (hrecent : Recent n a) {refs : List Int} (hrefs : forall p, p ∈ refs -> 0 ≤ p) :
    exists b, Logs LruPolicy a (faultLog refs (lruMatrixFrom n s refs)) b := by
  induction refs generalizing s a with
  | nil => exact ⟨a, Logs.nil⟩
  | cons page refs ih =>
      have hpage : page ≠ -1 := by
        have hnonneg := hrefs page List.mem_cons_self
        lia
      rcases hrep.refer hrecent hn hpage with ⟨hfault, hrep'⟩
      rcases ih hrep' (hrecent.refer hpage)
        fun q hq => hrefs q (List.mem_cons_of_mem page hq) with ⟨b, hrest⟩
      refine ⟨b, ?_⟩
      unfold lruMatrixFrom
      simp only [faultLog_cons]
      rw [hfault]
      exact Logs.cons rfl hrest

theorem lruMatrix_conservative (hn : 2 ≤ n) {refs : List Int}
    (hrefs : forall p, p ∈ refs -> 0 ≤ p) :
    (faultLog refs (lruMatrix n refs)).Conservative n := by
  rcases lruMatrix_logs hn (initialMatrix_rep n) (initialRecency_recent n) hrefs with ⟨b, hrun⟩
  apply hrun.conservative (fun a => exists past, FromHistory n a past) fun p => 0 ≤ p
  · rintro a page fault c ⟨past, h⟩ hpage hstep
    exact ⟨_, h.refer (by lia) hpage hstep⟩
  · rintro a mid c ⟨past, h⟩ hvalid hmid hcard
    exact h.stretch (by lia) hvalid hmid hcard
  · exact ⟨[], initialRecency_recent n, pages_initial n⟩
  · exact faultLog_valid hrefs _

end Paging
end OsLabs
