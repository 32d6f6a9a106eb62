import Mathlib.Tactic.Ring
import OsLabs.Disk.Service

/-!
# Sweeps over the disk

A sweep serves all requests between its ends, so that the last sweep of `SCAN`,
`C_SCAN`, `LOOK` and `C_LOOK` leaves nothing.
-/

namespace OsLabs
namespace Disk

variable {req : List Int} {d e : Hdd} {c : Int}

/-!
# Sweeps
-/

def stride (headDir : Int) : Int :=
  if headDir = 0 then -1 else 1

theorem moveHead_head (headDir : Int) (d : Hdd) :
    (moveHead headDir d).cylinderHead = d.cylinderHead + stride headDir := by
  unfold moveHead stride
  split
  · rfl
  · rfl

theorem serve_spec (hhead : InRange d.cylinderHead) :
    exists e, serve d = some e ∧ Served d e d.cylinderHead ∧ e.cylinderHead = d.cylinderHead := by
  unfold serve
  rw [decrement_spec hhead]
  exact ⟨_, rfl, ⟨rfl, rfl⟩, rfl⟩

theorem serveLoop_spec {fuel : Nat} (h : Pending req d) (hhead : InRange d.cylinderHead)
    (hfuel : (d.cylinders d.cylinderHead).toNat < fuel) :
    exists e, serveLoop fuel d = some e ∧ Pending req e ∧ e.cylinderHead = d.cylinderHead ∧
      e.cylinders = Function.update d.cylinders d.cylinderHead 0 := by
  induction fuel generalizing d with
  | zero => lia
  | succ fuel ih =>
      have hnonneg := h.nonneg _ hhead
      simp only [serveLoop, cell]
      rw [if_pos hhead, Option.bind_some]
      by_cases hpos : d.cylinders d.cylinderHead > 0
      · rw [if_pos hpos]
        rcases serve_spec hhead with ⟨e, hserve, hserved, hstay⟩
        have hcell : e.cylinders e.cylinderHead = d.cylinders d.cylinderHead - 1 := by
          rw [hstay, hserved.cylinders, Function.update_self]
        rcases ih (h.serve hhead hpos hserved) (hstay ▸ hhead) (by rw [hcell]; lia) with
          ⟨f, hloop, hf, hsame, hcells⟩
        rw [hserve, Option.bind_some]
        refine ⟨f, hloop, hf, hsame.trans hstay, ?_⟩
        rw [hcells, hstay, hserved.cylinders, Function.update_idem]
      · rw [if_neg hpos]
        refine ⟨d, rfl, h, rfl, ?_⟩
        have hzero : d.cylinders d.cylinderHead = 0 := by lia
        exact (Function.update_eq_self_iff.mpr hzero.symm).symm

theorem sweep_spec {inside : Int -> Bool} {headDir : Int} {k fuel : Nat} (h : Pending req d)
    (hrange : forall c, inside c = true -> InRange c)
    (hin : forall i : Nat, i < k -> inside (d.cylinderHead + i * stride headDir) = true)
    (hout : inside (d.cylinderHead + k * stride headDir) = false) (hfuel : k < fuel) :
    exists e, sweep inside headDir req.length fuel d = some e ∧ Pending req e ∧
      e.cylinderHead = d.cylinderHead + k * stride headDir ∧
      (forall i : Nat, i < k -> e.cylinders (d.cylinderHead + i * stride headDir) = 0) ∧
      (forall c, d.cylinders c = 0 -> e.cylinders c = 0) := by
  induction k generalizing d fuel with
  | zero =>
      cases fuel with
      | zero => cases hfuel
      | succ fuel =>
          have hstop : inside d.cylinderHead = false := by simpa using hout
          refine ⟨d, ?_, h, by simp, ?_, fun _ hc => hc⟩
          · simp [sweep, hstop]
          · intro i hi
            cases hi
  | succ k ih =>
      cases fuel with
      | zero => cases hfuel
      | succ fuel =>
          have hgo : inside d.cylinderHead = true := by simpa using hin 0 (Nat.succ_pos k)
          have hhead := hrange _ hgo
          rcases serveLoop_spec h hhead (Nat.lt_succ_of_le (h.le_length hhead)) with
            ⟨e, hserve, he, hsame, hcells⟩
          have hnext : (moveHead headDir e).cylinderHead = d.cylinderHead + stride headDir := by
            rw [moveHead_head, hsame]
          have hshift : forall i : Nat, (moveHead headDir e).cylinderHead + i * stride headDir =
              d.cylinderHead + ((i + 1 : Nat) : Int) * stride headDir := by
            intro i
            rw [hnext]
            push_cast
            ring
          have he' : Pending req (moveHead headDir e) := ⟨⟨he.counts, he.served_in⟩, he.nonneg⟩
          rcases @ih (moveHead headDir e) fuel he'
            (fun i hi => by rw [hshift]; exact hin (i + 1) (Nat.succ_lt_succ hi))
            (by rw [hshift]; exact hout) (Nat.lt_of_succ_lt_succ hfuel) with
            ⟨f, hsweep, hf, hend, hclear, hkeep⟩
          have hzero : e.cylinders d.cylinderHead = 0 := by
            rw [hcells, Function.update_self]
          refine ⟨f, ?_, hf, ?_, ?_, ?_⟩
          · simp only [sweep, hgo, if_true, hserve, Option.bind_some]
            exact hsweep
          · rw [hend, hshift]
          · intro i hi
            cases i with
            | zero =>
                rw [Nat.cast_zero, Int.zero_mul, Int.add_zero]
                exact hkeep _ hzero
            | succ i =>
                rw [← hshift]
                exact hclear i (Nat.lt_of_succ_lt_succ hi)
          · intro c hc
            apply hkeep
            change e.cylinders c = 0
            rw [hcells, Function.update_apply]
            split
            · rfl
            · exact hc

theorem sweep_between {inside : Int -> Bool} {lo hi : Int} (headDir : Int) (h : Pending req d)
    (hinside : forall c, inside c = true <-> lo ≤ c ∧ c ≤ hi) (hlo : 0 ≤ lo)
    (hhi : hi < cylinderNum) (hleft : lo ≤ d.cylinderHead) (hright : d.cylinderHead ≤ hi) :
    exists e, sweep inside headDir req.length sweepFuel d = some e ∧ Pending req e ∧
      e.cylinderHead = (if headDir = 0 then lo - 1 else hi + 1) ∧
      forall c, (if headDir = 0 then lo ≤ c ∧ c ≤ d.cylinderHead
        else d.cylinderHead ≤ c ∧ c ≤ hi) -> e.cylinders c = 0 := by
  have hrange : forall c, inside c = true -> InRange c := by
    intro c hc
    rcases (hinside c).mp hc with ⟨hc0, hc1⟩
    exact ⟨hlo.trans hc0, hc1.trans_lt hhi⟩
  have hfuel : sweepFuel = cylinderNum.toNat + 1 := rfl
  by_cases hdir : headDir = 0
  · have hstride : stride headDir = -1 := if_pos hdir
    obtain ⟨k, hk⟩ : exists k : Nat, (k : Int) = d.cylinderHead - lo + 1 :=
      ⟨(d.cylinderHead - lo + 1).toNat, by lia⟩
    rcases @sweep_spec req d inside headDir k sweepFuel h hrange
      (fun i hi => by rw [hinside, hstride]; lia)
      (by rw [← Bool.not_eq_true, hinside, hstride]; lia) (by rw [hfuel]; lia) with
      ⟨e, hsweep, he, hend, hclear, _⟩
    refine ⟨e, hsweep, he, ?_, ?_⟩
    · rw [hend, hstride, if_pos hdir]
      lia
    · intro c hc
      rw [if_pos hdir] at hc
      have hzero := hclear (d.cylinderHead - c).toNat (by lia)
      rw [hstride] at hzero
      have hpos : d.cylinderHead + ((d.cylinderHead - c).toNat : Int) * -1 = c := by lia
      rw [hpos] at hzero
      exact hzero
  · have hstride : stride headDir = 1 := if_neg hdir
    obtain ⟨k, hk⟩ : exists k : Nat, (k : Int) = hi + 1 - d.cylinderHead :=
      ⟨(hi + 1 - d.cylinderHead).toNat, by lia⟩
    rcases @sweep_spec req d inside headDir k sweepFuel h hrange
      (fun i hi => by rw [hinside, hstride]; lia)
      (by rw [← Bool.not_eq_true, hinside, hstride]; lia) (by rw [hfuel]; lia) with
      ⟨e, hsweep, he, hend, hclear, _⟩
    refine ⟨e, hsweep, he, ?_, ?_⟩
    · rw [hend, hstride, if_neg hdir]
      lia
    · intro c hc
      rw [if_neg hdir] at hc
      have hzero := hclear (c - d.cylinderHead).toNat (by lia)
      rw [hstride] at hzero
      have hpos : d.cylinderHead + ((c - d.cylinderHead).toNat : Int) * 1 = c := by lia
      rw [hpos] at hzero
      exact hzero

theorem sweep_all {inside : Int -> Bool} {lo hi : Int} (headDir : Int) (h : Pending req d)
    (hinside : forall c, inside c = true <-> lo ≤ c ∧ c ≤ hi) (hlo : 0 ≤ lo)
    (hhi : hi < cylinderNum) (hle : lo ≤ hi)
    (hstart : d.cylinderHead = if headDir = 0 then hi else lo) :
    exists e, sweep inside headDir req.length sweepFuel d = some e ∧ Pending req e ∧
      forall c, lo ≤ c -> c ≤ hi -> e.cylinders c = 0 := by
  by_cases hdir : headDir = 0
  · rw [if_pos hdir] at hstart
    rcases sweep_between headDir h hinside hlo hhi (by lia) (by lia) with
      ⟨e, hsweep, he, _, hclear⟩
    refine ⟨e, hsweep, he, ?_⟩
    intro c hc0 hc1
    apply hclear
    rw [if_pos hdir, hstart]
    exact ⟨hc0, hc1⟩
  · rw [if_neg hdir] at hstart
    rcases sweep_between headDir h hinside hlo hhi (by lia) (by lia) with
      ⟨e, hsweep, he, _, hclear⟩
    refine ⟨e, hsweep, he, ?_⟩
    intro c hc0 hc1
    apply hclear
    rw [if_neg hdir, hstart]
    exact ⟨hc0, hc1⟩

/-!
# `SCAN` and `C_SCAN`
-/

theorem onDisk_iff (c : Int) : onDisk c = true <-> 0 ≤ c ∧ c ≤ cylinderNum - 1 := by
  unfold onDisk
  rw [decide_eq_true_iff]
  lia

theorem arrive_spec (d : Hdd) :
    (arrive d).cylinders = d.cylinders ∧ (arrive d).served = d.served ∧
      (arrive d).cylinderHead = d.cylinderHead := by
  unfold arrive
  split
  · exact ⟨rfl, rfl, rfl⟩
  · exact ⟨rfl, rfl, rfl⟩

theorem firstScan_spec (headDir : Int) (h : Pending req d) (hhead : InRange d.cylinderHead) :
    exists e, sweep onDisk headDir req.length sweepFuel d = some e ∧ Pending req (toEnd e) ∧
      (toEnd e).cylinderHead = if headDir = 0 then 0 else cylinderNum - 1 := by
  rcases sweep_between headDir h onDisk_iff (Int.le_refl 0) (by lia) hhead.left
    (by have := hhead.right; lia) with ⟨e, hsweep, he, hend, _⟩
  rcases arrive_spec { e with cylinderHead := endPassed e.cylinderHead } with
    ⟨hcells, hserved, hsame⟩
  refine ⟨e, hsweep, he.congr hcells hserved, ?_⟩
  change (arrive _).cylinderHead = _
  rw [hsame]
  simp only [hend]
  split
  · decide
  · decide

theorem idle_of_between (hclear : forall c, 0 ≤ c -> c ≤ cylinderNum - 1 -> d.cylinders c = 0) :
    Idle d := by
  intro c hc
  exact hclear c hc.left (by have := hc.right; lia)

theorem otherEnd_inRange {h : Int} (hh : InRange h) : InRange (otherEnd h) := by
  have hpos : (1 : Int) < cylinderNum := by decide
  unfold otherEnd
  split
  · exact ⟨by lia, by lia⟩
  · split
    · exact ⟨by lia, by lia⟩
    · exact hh

theorem jumpEnd_spec (hhead : InRange d.cylinderHead) :
    exists e, jumpEnd d = some e ∧ e.cylinders = d.cylinders ∧ e.served = d.served ∧
      e.cylinderHead = otherEnd d.cylinderHead := by
  unfold jumpEnd cell
  simp only [if_pos (otherEnd_inRange hhead), Option.map_some]
  refine ⟨_, rfl, ?_⟩
  split
  · exact ⟨rfl, rfl, rfl⟩
  · exact ⟨rfl, rfl, rfl⟩

/-!
# `LOOK` and `C_LOOK`
-/

theorem extremesLoop_spec {lo hi : Int} (hlo : InRange lo) (hhi : InRange hi)
    (hreq : forall c, c ∈ req -> InRange c) :
    InRange (extremesLoop (lo, hi) req).fst ∧ InRange (extremesLoop (lo, hi) req).snd ∧
      (extremesLoop (lo, hi) req).fst ≤ lo ∧ hi ≤ (extremesLoop (lo, hi) req).snd ∧
      forall c, c ∈ req ->
        (extremesLoop (lo, hi) req).fst ≤ c ∧ c ≤ (extremesLoop (lo, hi) req).snd := by
  induction req generalizing lo hi with
  | nil =>
      refine ⟨hlo, hhi, Int.le_refl _, Int.le_refl _, ?_⟩
      intro c hc
      cases hc
  | cons a req ih =>
      have ha := hreq a List.mem_cons_self
      have hlo' : InRange (if lo > a then a else lo) := by
        split
        · exact ha
        · exact hlo
      have hhi' : InRange (if hi < a then a else hi) := by
        split
        · exact ha
        · exact hhi
      rcases ih hlo' hhi' (fun c hc => hreq c (List.mem_cons_of_mem a hc)) with
        ⟨hfst, hsnd, hlow, hhigh, hall⟩
      have hmin : (if lo > a then a else lo) ≤ lo ∧ (if lo > a then a else lo) ≤ a := by
        split
        · lia
        · lia
      have hmax : hi ≤ (if hi < a then a else hi) ∧ a ≤ (if hi < a then a else hi) := by
        split
        · lia
        · lia
      refine ⟨hfst, hsnd, hlow.trans hmin.left, hmax.left.trans hhigh, ?_⟩
      intro c hc
      cases List.mem_cons.mp hc with
      | inl heq =>
          rw [heq]
          exact ⟨hlow.trans hmin.right, hmax.right.trans hhigh⟩
      | inr hc => exact hall c hc

theorem extremes_spec (hne : req ≠ []) (hreq : forall c, c ∈ req -> InRange c) :
    exists range, extremes req = some range ∧ InRange range.fst ∧ InRange range.snd ∧
      range.fst ≤ range.snd ∧ forall c, c ∈ req -> range.fst ≤ c ∧ c ≤ range.snd := by
  cases req with
  | nil => exact absurd rfl hne
  | cons a req =>
      have ha := hreq a List.mem_cons_self
      rcases extremesLoop_spec ha ha hreq with ⟨hfst, hsnd, hlow, hhigh, hall⟩
      exact ⟨_, rfl, hfst, hsnd, hlow.trans hhigh, hall⟩

theorem between_iff (range : Int × Int) (c : Int) :
    between range c = true <-> range.fst ≤ c ∧ c ≤ range.snd := by
  unfold between
  exact decide_eq_true_iff

theorem clamp_spec {range : Int × Int} (hle : range.fst ≤ range.snd) (d : Hdd) :
    (clamp range d).cylinders = d.cylinders ∧ (clamp range d).served = d.served ∧
      range.fst ≤ (clamp range d).cylinderHead ∧ (clamp range d).cylinderHead ≤ range.snd := by
  unfold clamp
  split
  · exact ⟨rfl, rfl, Int.le_refl _, hle⟩
  · split
    · exact ⟨rfl, rfl, hle, Int.le_refl _⟩
    · exact ⟨rfl, rfl, by lia, by lia⟩

theorem otherLast_low (range : Int × Int) : otherLast range (range.fst - 1) = range.snd := by
  have hne : ¬ range.snd = range.snd + 1 := by lia
  simp only [otherLast, if_true, if_neg hne]

section Ends

variable {range : Int × Int} (hle : range.fst ≤ range.snd)

include hle

theorem lastPassed_low : lastPassed range (range.fst - 1) = range.fst := by
  have hne : ¬ range.fst = range.snd + 1 := by lia
  simp only [lastPassed, if_true, if_neg hne]

theorem lastPassed_high : lastPassed range (range.snd + 1) = range.snd := by
  have hne : ¬ range.snd + 1 = range.fst - 1 := by lia
  simp only [lastPassed, if_neg hne, if_true]

theorem otherLast_high : otherLast range (range.snd + 1) = range.fst := by
  have hne : ¬ range.snd + 1 = range.fst - 1 := by lia
  simp only [otherLast, if_neg hne, if_true]

theorem lastPassed_eq (headDir : Int) :
    lastPassed range (if headDir = 0 then range.fst - 1 else range.snd + 1) =
      if flip headDir = 0 then range.snd else range.fst := by
  unfold flip
  by_cases hdir : headDir = 0
  · rw [if_pos hdir, if_pos hdir, lastPassed_low hle]
    rfl
  · rw [if_neg hdir, if_neg hdir, lastPassed_high hle]
    rfl

theorem otherLast_eq (headDir : Int) :
    otherLast range (if headDir = 0 then range.fst - 1 else range.snd + 1) =
      if headDir = 0 then range.snd else range.fst := by
  by_cases hdir : headDir = 0
  · rw [if_pos hdir, if_pos hdir, otherLast_low]
  · rw [if_neg hdir, if_neg hdir, otherLast_high hle]

end Ends

theorem Pending.idle_of_between {range : Int × Int} (h : Pending req d)
    (hall : forall c, c ∈ req -> range.fst ≤ c ∧ c ≤ range.snd)
    (hclear : forall c, range.fst ≤ c -> c ≤ range.snd -> d.cylinders c = 0) : Idle d := by
  intro c hc
  by_cases hin : range.fst ≤ c ∧ c ≤ range.snd
  · exact hclear c hin.left hin.right
  · have hcount := h.counts c hc
    have hnonneg := h.nonneg c hc
    rw [List.count_eq_zero_of_not_mem fun hmem => hin (hall c hmem)] at hcount
    lia

/-!
# The algorithms
-/

section Algorithms

variable {head : Int} (hreq : forall c, c ∈ req -> InRange c) (hhead : InRange head)
  (cylinders : Int -> Int) (headDir : Int)

include hreq hhead

theorem fcfs_servesAll : ServesAll req (fcfs cylinders req head) := by
  rcases start_spec hreq hhead cylinders with ⟨d, hstart, hd, hnone, _⟩
  rcases fcfsLoop_spec hreq hd.toBalanced with ⟨e, hloop, he, hserved⟩
  rw [hnone, List.nil_append] at hserved
  unfold fcfs
  rw [hstart, Option.bind_some, hloop]
  refine ⟨e, rfl, by rw [hserved], ?_⟩
  intro c hc
  have hcount := he.counts c hc
  rw [hserved] at hcount
  lia

theorem sstf_servesAll : ServesAll req (sstf cylinders req head) := by
  rcases start_spec hreq hhead cylinders with ⟨d, hstart, hd, hnone, hat⟩
  rcases sstfLoop_spec hreq hd (hat ▸ hhead) (by rw [hnone]; exact Nat.zero_add _) with
    ⟨e, hloop, he, hserved⟩
  unfold sstf
  rw [hstart, Option.bind_some, hloop]
  exact he.servesAll (he.idle (Nat.le_of_eq hserved.symm)) hreq

theorem scan_servesAll : ServesAll req (scan cylinders req head headDir) := by
  rcases start_spec hreq hhead cylinders with ⟨d, hstart, hd, _, hat⟩
  rcases firstScan_spec headDir hd (hat ▸ hhead) with ⟨e, hfirst, he, hend⟩
  rcases sweep_all (flip headDir) he onDisk_iff (Int.le_refl 0) (by lia) (by decide)
    (by rw [hend]; unfold flip; split <;> rfl) with ⟨f, hsecond, hf, hclear⟩
  unfold scan
  rw [hstart, Option.bind_some, hfirst, Option.bind_some, hsecond]
  exact hf.servesAll (idle_of_between hclear) hreq

theorem cScan_servesAll : ServesAll req (cScan cylinders req head headDir) := by
  rcases start_spec hreq hhead cylinders with ⟨d, hstart, hd, _, hat⟩
  rcases firstScan_spec headDir hd (hat ▸ hhead) with ⟨e, hfirst, he, hend⟩
  have hin : InRange (toEnd e).cylinderHead := by
    rw [hend]
    split
    · decide
    · decide
  rcases jumpEnd_spec hin with ⟨f, hjump, hcells, hserved, hother⟩
  rcases sweep_all headDir (he.congr hcells hserved) onDisk_iff (Int.le_refl 0) (by lia)
    (by decide) (by rw [hother, hend]; split <;> decide) with ⟨g, hsecond, hg, hclear⟩
  unfold cScan
  rw [hstart, Option.bind_some, hfirst, Option.bind_some, hjump, Option.bind_some, hsecond]
  exact hg.servesAll (idle_of_between hclear) hreq

theorem look_servesAll (hne : req ≠ []) : ServesAll req (look cylinders req head headDir) := by
  rcases start_spec hreq hhead cylinders with ⟨d, hstart, hd, _, _⟩
  rcases extremes_spec hne hreq with ⟨range, hextremes, hfst, hsnd, hle, hall⟩
  rcases clamp_spec hle d with ⟨hcells, hserved, hlow, hhigh⟩
  rcases sweep_between headDir (hd.congr hcells hserved) (between_iff range) hfst.left hsnd.right
    hlow hhigh with ⟨e, hfirst, he, hend, _⟩
  rcases @sweep_all req { e with cylinderHead := lastPassed range e.cylinderHead } _ _ _
    (flip headDir) (he.congr rfl rfl) (between_iff range) hfst.left hsnd.right hle
    (by rw [← lastPassed_eq hle, ← hend]) with ⟨f, hsecond, hf, hclear⟩
  unfold look
  rw [hstart, Option.bind_some, hextremes, Option.bind_some, hfirst, Option.bind_some, hsecond]
  exact hf.servesAll (hf.idle_of_between hall hclear) hreq

theorem cLook_servesAll (hne : req ≠ []) : ServesAll req (cLook cylinders req head headDir) := by
  rcases start_spec hreq hhead cylinders with ⟨d, hstart, hd, _, _⟩
  rcases extremes_spec hne hreq with ⟨range, hextremes, hfst, hsnd, hle, hall⟩
  rcases clamp_spec hle d with ⟨hcells, hserved, hlow, hhigh⟩
  rcases sweep_between headDir (hd.congr hcells hserved) (between_iff range) hfst.left hsnd.right
    hlow hhigh with ⟨e, hfirst, he, hend, _⟩
  rcases @sweep_all req (jumpLast range e) _ _ _ headDir (he.congr rfl rfl) (between_iff range)
    hfst.left hsnd.right hle (by rw [← otherLast_eq hle, ← hend]; rfl) with
    ⟨f, hsecond, hf, hclear⟩
  unfold cLook
  rw [hstart, Option.bind_some, hextremes, Option.bind_some, hfirst, Option.bind_some, hsecond]
  exact hf.servesAll (hf.idle_of_between hall hclear) hreq

end Algorithms

theorem all_requests_served (cylinders : Int -> Int) (req : List Int) (head headDir : Int)
    (hreq : forall c, c ∈ req -> InRange c) (hhead : InRange head) :
    ServesAll req (fcfs cylinders req head) ∧
    ServesAll req (sstf cylinders req head) ∧
    ServesAll req (scan cylinders req head headDir) ∧
    ServesAll req (cScan cylinders req head headDir) ∧
    (req ≠ [] ->
      ServesAll req (look cylinders req head headDir) ∧
      ServesAll req (cLook cylinders req head headDir)) := by
  refine ⟨fcfs_servesAll hreq hhead cylinders, sstf_servesAll hreq hhead cylinders,
    scan_servesAll hreq hhead cylinders headDir, cScan_servesAll hreq hhead cylinders headDir, ?_⟩
  intro hne
  exact ⟨look_servesAll hreq hhead cylinders headDir hne,
    cLook_servesAll hreq hhead cylinders headDir hne⟩

def eightRequests : List Int := [98, 199, 37, 122, 0, 122, 65, 67]

theorem all_requests_served_eight :
    InRange 53 ∧ ServesAll eightRequests (sstf (fun _ => 7) eightRequests 53) ∧
      ServesAll eightRequests (cLook (fun _ => 7) eightRequests 53 0) := by
  have hhead : InRange 53 := by decide
  have hreq : forall c, c ∈ eightRequests -> InRange c := by decide
  rcases all_requests_served (fun _ => 7) eightRequests 53 0 hreq hhead with
    ⟨_, hsstf, _, _, hlook⟩
  exact ⟨hhead, hsstf, (hlook (by decide)).right⟩

end Disk
end OsLabs
