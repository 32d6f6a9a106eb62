import OsLabs.Disk.Look

/-!
# `SSTF` serves the nearest request first

The requests that are left are a list that agrees with the cells; a round of the
algorithm removes from it a request nearest to the head.
-/

namespace OsLabs
namespace Disk

variable {req pending : List Int} {d e : Hdd} {head c : Int}

/-- All pending requests are served, each time one nearest to the head, the lower one of
two. -/
def NearestFirst : Int -> List Int -> List Int -> Prop
  | _, pending, [] => pending = []
  | head, pending, c :: served =>
      c ∈ pending ∧ (forall x, x ∈ pending -> |c - head| ≤ |x - head|) ∧
        (forall x, x ∈ pending -> |c - head| = |x - head| -> c ≤ x) ∧
        NearestFirst c (pending.erase c) served

/-- The cells count the requests of the list. -/
structure CellsOf (pending : List Int) (d : Hdd) : Prop where
  inRange : forall c, c ∈ pending -> InRange c
  counts : forall c, InRange c -> d.cylinders c = pending.count c

theorem CellsOf.requested_iff (h : CellsOf pending d) (hc : InRange c) :
    0 < d.cylinders c <-> c ∈ pending := by
  rw [h.counts c hc, ← List.count_pos_iff]
  exact Int.natCast_pos

theorem CellsOf.nearest (h : CellsOf pending d) (hc : Nearest d head c) :
    c ∈ pending ∧ (forall x, x ∈ pending -> |c - head| ≤ |x - head|) ∧
      (forall x, x ∈ pending -> |c - head| = |x - head| -> c ≤ x) := by
  refine ⟨(h.requested_iff hc.inRange).mp hc.requested, ?_, ?_⟩
  · intro x hx
    have hin := h.inRange x hx
    rw [← absInt_eq, ← absInt_eq]
    exact hc.closest x hin ((h.requested_iff hin).mpr hx)
  · intro x hx heq
    have hin := h.inRange x hx
    rw [← absInt_eq, ← absInt_eq] at heq
    exact hc.lower x hin ((h.requested_iff hin).mpr hx) heq

theorem CellsOf.serve (h : CellsOf pending d) (hc : c ∈ pending) (he : Served d e c) :
    CellsOf (pending.erase c) e := by
  constructor
  · intro x hx
    exact h.inRange x (List.mem_of_mem_erase hx)
  · intro x hx
    rw [he.cylinders, Function.update_apply]
    by_cases hxc : x = c
    · have hpos := List.count_pos_iff.mpr hc
      rw [if_pos hxc, h.counts c (h.inRange c hc), hxc, List.count_erase_self]
      lia
    · rw [if_neg hxc, h.counts x hx, List.count_erase_of_ne hxc]

theorem visit_total (hc : InRange c) (d : Hdd) :
    exists e, visit d c = some e ∧ Served d e c ∧ e.cylinderHead = c ∧
      e.headMoveSum = d.headMoveSum + |c - d.cylinderHead| := by
  unfold visit
  rw [decrement_spec hc, Option.map_some]
  refine ⟨_, rfl, ⟨rfl, rfl⟩, rfl, ?_⟩
  change d.headMoveSum + absInt (d.cylinderHead - c) = _
  rw [absInt_eq, abs_sub_comm]

theorem sstfLoop_nearest {n : Nat} (h : CellsOf pending d) (hhead : InRange d.cylinderHead)
    (hlen : pending.length = n) :
    exists e served, sstfLoop n d = some e ∧ e.served = d.served ++ served ∧
      NearestFirst d.cylinderHead pending served ∧
      e.headMoveSum = d.headMoveSum + travel d.cylinderHead served := by
  induction n generalizing d pending with
  | zero =>
      refine ⟨d, [], rfl, (List.append_nil _).symm, List.eq_nil_of_length_eq_zero hlen, ?_⟩
      exact (Int.add_zero _).symm
  | succ n ih =>
      rcases findCylinderMinSeekDis_spec hhead d with ⟨c, hfind, hfound | ⟨_, hnone⟩⟩
      · rcases h.nearest hfound with ⟨hmem, hclosest, hlower⟩
        rcases visit_total hfound.inRange d with ⟨e, hvisit, hserved, hmoved, htotal⟩
        have hin : InRange e.cylinderHead := by
          rw [hmoved]
          exact hfound.inRange
        have hfewer : (pending.erase c).length = n := by
          rw [List.length_erase_of_mem hmem, hlen]
          rfl
        rcases ih (h.serve hmem hserved) hin hfewer with
          ⟨f, served, hloop, hrecord, hnearest, hsum⟩
        rw [hmoved] at hnearest hsum
        refine ⟨f, c :: served, ?_, ?_, ⟨hmem, hclosest, hlower, hnearest⟩, ?_⟩
        · simp only [sstfLoop, hfind, hvisit, Option.bind_some]
          exact hloop
        · rw [hrecord, hserved.served, List.append_assoc, List.singleton_append]
        · rw [hsum, htotal, Int.add_assoc]
          rfl
      · cases pending with
        | nil => cases hlen
        | cons a pending =>
            have hin := h.inRange a List.mem_cons_self
            have hpos := (h.requested_iff hin).mpr List.mem_cons_self
            exact absurd (hnone a hin) (Int.not_le.mpr hpos)

theorem start_cellsOf (hreq : forall c, c ∈ req -> InRange c) (hhead : InRange head)
    (cylinders : Int -> Int) : exists d, start cylinders req head = some d ∧ CellsOf req d ∧
      d.cylinderHead = head ∧ d.served = [] ∧ d.headMoveSum = 0 := by
  rcases start_spec hreq hhead cylinders with ⟨d, hstart, hd, hnone, hat⟩
  refine ⟨d, hstart, ⟨hreq, ?_⟩, hat, hnone, ?_⟩
  · intro c hc
    have hcount := hd.counts c hc
    rw [hnone, List.count_nil] at hcount
    lia
  · have htotal := (start_travelled hstart).total
    rw [hnone] at htotal
    exact htotal

/-- The search returns the nearest requested cylinder, and `-1` only if nothing is
requested; `SSTF` serves by it and reports the sum of the distances. -/
theorem sstf_nearest_first (cylinders : Int -> Int) (req : List Int) (head : Int)
    (hreq : forall c, c ∈ req -> InRange c) (hhead : InRange head) :
    (forall d pos, InRange pos -> exists c, findCylinderMinSeekDis d pos = some c ∧
      (Nearest d pos c ∨ (c = -1 ∧ forall x, InRange x -> d.cylinders x ≤ 0))) ∧
    exists d, sstf cylinders req head = some d ∧ NearestFirst head req d.served ∧
      d.headMoveSum = travel head d.served := by
  refine ⟨fun d pos hpos => findCylinderMinSeekDis_spec hpos d, ?_⟩
  rcases start_cellsOf hreq hhead cylinders with ⟨d, hstart, hd, hat, hnone, hzero⟩
  rcases sstfLoop_nearest hd (hat ▸ hhead) rfl with ⟨e, served, hloop, hserved, hnearest, htotal⟩
  have hrun : sstf cylinders req head = some e := by
    unfold sstf
    rw [hstart, Option.bind_some, hloop]
  rw [hnone, List.nil_append] at hserved
  rw [hzero, hat, Int.zero_add] at htotal
  rw [hat] at hnearest
  rw [← hserved] at hnearest htotal
  exact ⟨e, hrun, hnearest, htotal⟩

theorem sstf_nearest_first_eight : InRange 53 ∧
    exists d, sstf (fun _ => 7) eightRequests 53 = some d ∧
      NearestFirst 53 eightRequests d.served ∧ d.headMoveSum = travel 53 d.served := by
  have hhead : InRange 53 := by decide
  exact ⟨hhead, (sstf_nearest_first (fun _ => 7) eightRequests 53 (by decide) hhead).right⟩

end Disk
end OsLabs
