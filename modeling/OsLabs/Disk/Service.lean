import Mathlib.Data.List.Count
import Mathlib.Data.List.Perm.Subperm
import OsLabs.Disk.Model

/-!
# Every request is served once

The cells always count the requests that have not been served; when nothing is left,
every request has been served once.  `FCFS` and `SSTF` serve one request in each
round.
-/

namespace OsLabs
namespace Disk

variable {req : List Int} {d e : Hdd} {c : Int}

/-- The cells count the requests that are left. -/
structure Balanced (req : List Int) (d : Hdd) : Prop where
  counts : forall c, InRange c -> d.cylinders c + d.served.count c = req.count c
  served_in : forall c, c ∈ d.served -> InRange c

/-- Moreover no cell has been decremented too often. -/
structure Pending (req : List Int) (d : Hdd) : Prop extends Balanced req d where
  nonneg : forall c, InRange c -> 0 ≤ d.cylinders c

def Idle (d : Hdd) : Prop :=
  forall c, InRange c -> d.cylinders c = 0

theorem Balanced.perm (h : Balanced req d) (hidle : Idle d) (hreq : forall c, c ∈ req -> InRange c) :
    d.served.Perm req := by
  apply List.perm_iff_count.mpr
  intro c
  by_cases hc : InRange c
  · have hcount := h.counts c hc
    rw [hidle c hc] at hcount
    lia
  · rw [List.count_eq_zero_of_not_mem fun hmem => hc (h.served_in c hmem),
      List.count_eq_zero_of_not_mem fun hmem => hc (hreq c hmem)]

theorem Pending.idle (h : Pending req d) (hlen : req.length ≤ d.served.length) : Idle d := by
  have hsub : d.served.Subperm req := by
    apply List.subperm_ext_iff.mpr
    intro c hmem
    have hc := h.served_in c hmem
    have hcount := h.counts c hc
    have hnonneg := h.nonneg c hc
    lia
  have hperm := hsub.perm_of_length_le hlen
  intro c hc
  have hcount := h.counts c hc
  rw [hperm.count_eq c] at hcount
  lia

theorem Pending.exists_request (h : Pending req d) (hreq : forall c, c ∈ req -> InRange c)
    (hlen : d.served.length < req.length) : exists c, InRange c ∧ 0 < d.cylinders c := by
  by_contra hno
  have hidle : Idle d := by
    intro c hc
    have hnonneg := h.nonneg c hc
    by_contra hne
    exact hno ⟨c, hc, by lia⟩
  have hperm := h.toBalanced.perm hidle hreq
  rw [hperm.length_eq] at hlen
  exact Nat.lt_irrefl _ hlen

theorem Pending.le_length (h : Pending req d) (hc : InRange c) :
    (d.cylinders c).toNat ≤ req.length := by
  have hcount := h.counts c hc
  have hle : req.count c ≤ req.length := List.count_le_length
  lia

theorem Pending.congr (h : Pending req d) (hcells : e.cylinders = d.cylinders)
    (hserved : e.served = d.served) : Pending req e := by
  refine ⟨⟨?_, ?_⟩, ?_⟩
  · intro c hc
    rw [hcells, hserved]
    exact h.counts c hc
  · intro c hc
    rw [hserved] at hc
    exact h.served_in c hc
  · intro c hc
    rw [hcells]
    exact h.nonneg c hc

def ServesAll (req : List Int) (run : Option Hdd) : Prop :=
  exists d, run = some d ∧ d.served.Perm req ∧ forall c, InRange c -> d.cylinders c = 0

theorem Pending.servesAll (h : Pending req d) (hidle : Idle d)
    (hreq : forall c, c ∈ req -> InRange c) : ServesAll req (some d) :=
  ⟨d, rfl, h.toBalanced.perm hidle hreq, hidle⟩

/-!
# Initialisation
-/

theorem setCylinders_spec (hreq : forall c, c ∈ req -> InRange c) (cylinders : Int -> Int) :
    exists result, setCylinders cylinders req = some result ∧
      forall c, result c = cylinders c + req.count c := by
  induction req generalizing cylinders with
  | nil =>
      refine ⟨cylinders, rfl, ?_⟩
      intro c
      rw [List.count_nil, Int.natCast_zero, Int.add_zero]
  | cons a req ih =>
      have ha := hreq a List.mem_cons_self
      rcases ih (fun c hc => hreq c (List.mem_cons_of_mem a hc))
        (Function.update cylinders a (cylinders a + 1)) with ⟨result, hresult, hcount⟩
      refine ⟨result, ?_, ?_⟩
      · simp only [setCylinders]
        rw [if_pos ha]
        exact hresult
      · intro c
        rw [hcount c, Function.update_apply]
        by_cases hca : c = a
        · rw [if_pos hca, hca, List.count_cons_self]
          push_cast
          lia
        · rw [if_neg hca, List.count_cons_of_ne fun hac => hca hac.symm]

theorem pending_start {cylinders : Int -> Int} {head : Int}
    (hcount : forall c, InRange c -> cylinders c = req.count c) :
    Pending req ⟨cylinders, head, head, 0, [], []⟩ := by
  refine ⟨⟨?_, ?_⟩, ?_⟩
  · intro c hc
    rw [List.count_nil, Int.natCast_zero, Int.add_zero]
    exact hcount c hc
  · intro c hmem
    cases hmem
  · intro c hc
    change 0 ≤ cylinders c
    rw [hcount c hc]
    exact Int.natCast_nonneg _

theorem start_spec {head : Int} (hreq : forall c, c ∈ req -> InRange c) (hhead : InRange head)
    (cylinders : Int -> Int) :
    exists d, start cylinders req head = some d ∧ Pending req d ∧ d.served = [] ∧
      d.cylinderHead = head := by
  rcases setCylinders_spec hreq (clearCylinders cylinders) with ⟨result, hresult, hcount⟩
  have hclear : forall c, InRange c -> result c = req.count c := by
    intro c hc
    rw [hcount c, clearCylinders, if_pos hc, Int.zero_add]
  have hpending : Pending req ⟨result, head, head, 0, [], []⟩ := pending_start hclear
  unfold start cell
  rw [hresult, Option.bind_some]
  simp only [if_pos hhead, Option.map_some]
  refine ⟨_, rfl, ?_⟩
  split
  · exact ⟨hpending.congr rfl rfl, rfl, rfl⟩
  · exact ⟨hpending, rfl, rfl⟩

/-!
# Serving one request
-/

theorem decrement_spec (hc : InRange c) (d : Hdd) :
    decrement d c = some { d with
      cylinders := Function.update d.cylinders c (d.cylinders c - 1)
      served := d.served ++ [c] } := by
  unfold decrement
  exact if_pos hc

structure Served (d e : Hdd) (c : Int) : Prop where
  cylinders : e.cylinders = Function.update d.cylinders c (d.cylinders c - 1)
  served : e.served = d.served ++ [c]

theorem Balanced.serve (h : Balanced req d) (hc : InRange c) (he : Served d e c) :
    Balanced req e := by
  constructor
  · intro x hx
    have hcount := h.counts x hx
    rw [he.cylinders, he.served, Function.update_apply, List.count_append]
    by_cases hxc : x = c
    · rw [hxc] at hcount
      rw [if_pos hxc, hxc, List.count_singleton_self]
      push_cast
      lia
    · rw [if_neg hxc, List.count_eq_zero_of_not_mem fun hmem => hxc (List.mem_singleton.mp hmem)]
      exact hcount
  · intro x hx
    rw [he.served] at hx
    cases List.mem_append.mp hx with
    | inl hold => exact h.served_in x hold
    | inr hnew => exact List.mem_singleton.mp hnew ▸ hc

theorem Pending.serve (h : Pending req d) (hc : InRange c) (hpos : 0 < d.cylinders c)
    (he : Served d e c) : Pending req e := by
  refine ⟨h.toBalanced.serve hc he, ?_⟩
  intro x hx
  have hnonneg := h.nonneg x hx
  rw [he.cylinders, Function.update_apply]
  by_cases hxc : x = c
  · subst hxc
    rw [if_pos rfl]
    lia
  · rw [if_neg hxc]
    exact hnonneg

theorem visit_spec (hc : InRange c) (d : Hdd) :
    exists e, visit d c = some e ∧ Served d e c ∧ e.cylinderHead = c := by
  unfold visit
  rw [decrement_spec hc, Option.map_some]
  exact ⟨_, rfl, ⟨rfl, rfl⟩, rfl⟩

/-!
# `FCFS` and `SSTF`
-/

theorem fcfsLoop_spec {rest : List Int} (hrest : forall c, c ∈ rest -> InRange c)
    (h : Balanced req d) :
    exists e, fcfsLoop d rest = some e ∧ Balanced req e ∧ e.served = d.served ++ rest := by
  induction rest generalizing d with
  | nil => exact ⟨d, rfl, h, (List.append_nil _).symm⟩
  | cons a rest ih =>
      have ha := hrest a List.mem_cons_self
      rcases visit_spec ha d with ⟨e, hvisit, hserved, _⟩
      rcases ih (fun c hc => hrest c (List.mem_cons_of_mem a hc)) (h.serve ha hserved) with
        ⟨f, hloop, hf, hrecord⟩
      refine ⟨f, ?_, hf, ?_⟩
      · simp only [fcfsLoop, hvisit, Option.bind_some]
        exact hloop
      · rw [hrecord, hserved.served, List.append_assoc, List.singleton_append]

theorem probe_found (hc : InRange c) (hpos : 0 < d.cylinders c) :
    probe d true c = some (some c) := by
  simp [probe, cell, hc, hpos]

theorem probe_missed (hc : InRange c) (hnone : d.cylinders c ≤ 0) :
    probe d true c = some none := by
  simp [probe, cell, hc, hnone]

theorem absInt_eq_max (num : Int) : absInt num = max num (-num) := by
  unfold absInt
  split
  · lia
  · lia

structure Nearest (d : Hdd) (head c : Int) : Prop where
  inRange : InRange c
  requested : 0 < d.cylinders c
  closest : forall x, InRange x -> 0 < d.cylinders x -> absInt (c - head) ≤ absInt (x - head)
  lower : forall x, InRange x -> 0 < d.cylinders x ->
    absInt (c - head) = absInt (x - head) -> c ≤ x

def SeenWithin (d : Hdd) (head k : Int) : Prop :=
  forall c, InRange c -> absInt (c - head) < k -> d.cylinders c ≤ 0

section Search

variable {head k : Int}

theorem SeenWithin.next (h : SeenWithin d head k)
    (hbelow : ¬ (0 ≤ head - k ∧ 0 < d.cylinders (head - k)))
    (habove : ¬ (head + k < cylinderNum ∧ 0 < d.cylinders (head + k))) :
    SeenWithin d head (k + 1) := by
  intro c hc hnear
  by_contra hpos
  have hreq : 0 < d.cylinders c := Int.not_le.mp hpos
  rw [absInt_eq_max] at hnear
  by_cases heq0 : c = head - k
  · rw [heq0] at hc hreq
    exact hbelow ⟨hc.left, hreq⟩
  · by_cases heq1 : c = head + k
    · rw [heq1] at hc hreq
      exact habove ⟨hc.right, hreq⟩
    · exact hpos (h c hc (by rw [absInt_eq_max]; lia))

theorem SeenWithin.all (h : SeenWithin d head k)
    (hout : ¬ (max (head - k) (-1) ≥ 0 ∨ min (head + k) cylinderNum < cylinderNum)) :
    forall c, InRange c -> d.cylinders c ≤ 0 := by
  intro c hc
  apply h c hc
  have hlow := hc.left
  have hhigh := hc.right
  rw [absInt_eq_max]
  lia

variable (hhead : InRange head) (hk : 0 ≤ k)

include hhead hk

theorem probe_below : probe d (decide (max (head - k) (-1) ≥ 0)) (max (head - k) (-1)) =
    some (if 0 ≤ head - k ∧ 0 < d.cylinders (head - k) then some (head - k) else none) := by
  have hright := hhead.right
  by_cases hin : 0 ≤ head - k
  · have hdir : max (head - k) (-1) = head - k := by lia
    rw [hdir, decide_eq_true hin]
    by_cases hpos : 0 < d.cylinders (head - k)
    · rw [if_pos ⟨hin, hpos⟩, probe_found ⟨hin, by lia⟩ hpos]
    · rw [if_neg fun hfound => hpos hfound.right,
        probe_missed ⟨hin, by lia⟩ (Int.not_lt.mp hpos)]
  · have hout : ¬ max (head - k) (-1) ≥ 0 := by lia
    rw [decide_eq_false hout, if_neg fun hfound => hin hfound.left]
    rfl

theorem probe_above : probe d (decide (min (head + k) cylinderNum < cylinderNum))
      (min (head + k) cylinderNum) =
    some (if head + k < cylinderNum ∧ 0 < d.cylinders (head + k) then some (head + k)
      else none) := by
  have hleft := hhead.left
  by_cases hin : head + k < cylinderNum
  · have hdir : min (head + k) cylinderNum = head + k := by lia
    rw [hdir, decide_eq_true hin]
    by_cases hpos : 0 < d.cylinders (head + k)
    · rw [if_pos ⟨hin, hpos⟩, probe_found ⟨by lia, hin⟩ hpos]
    · rw [if_neg fun hfound => hpos hfound.right,
        probe_missed ⟨by lia, hin⟩ (Int.not_lt.mp hpos)]
  · have hout : ¬ min (head + k) cylinderNum < cylinderNum := by lia
    rw [decide_eq_false hout, if_neg fun hfound => hin hfound.left]
    rfl

theorem SeenWithin.nearest_below (h : SeenWithin d head k) (hin : 0 ≤ head - k)
    (hpos : 0 < d.cylinders (head - k)) : Nearest d head (head - k) := by
  have hright := hhead.right
  refine ⟨⟨hin, by lia⟩, hpos, ?_, ?_⟩
  · intro x hx hreq
    by_contra hnear
    have hnone := h x hx (by rw [absInt_eq_max (head - k - head)] at hnear; lia)
    lia
  · intro x _ _ heq
    rw [absInt_eq_max, absInt_eq_max] at heq
    lia

/-- On the upper side the cylinder as far on the lower side has been looked at first. -/
theorem SeenWithin.nearest_above (h : SeenWithin d head k) (hin : head + k < cylinderNum)
    (hpos : 0 < d.cylinders (head + k))
    (hbelow : ¬ (0 ≤ head - k ∧ 0 < d.cylinders (head - k))) : Nearest d head (head + k) := by
  have hleft := hhead.left
  refine ⟨⟨by lia, hin⟩, hpos, ?_, ?_⟩
  · intro x hx hreq
    by_contra hnear
    have hnone := h x hx (by rw [absInt_eq_max (head + k - head)] at hnear; lia)
    lia
  · intro x hx hreq heq
    rw [absInt_eq_max, absInt_eq_max] at heq
    by_contra hlt
    have hother : x = head - k := by lia
    rw [hother] at hx hreq
    exact hbelow ⟨hx.left, hreq⟩

/-- The search finds the nearest cylinder with a request unless there is none.  After `k`
rounds everything at a distance less than `k` has been seen. -/
theorem findLoop_spec {fuel : Nat} (hseen : SeenWithin d head k)
    (hfuel : max (head - k) (-1) + 1 + (cylinderNum - min (head + k) cylinderNum) < fuel) :
    exists c, findLoop d fuel (max (head - k) (-1)) (min (head + k) cylinderNum) = some c ∧
      (Nearest d head c ∨ (c = -1 ∧ forall x, InRange x -> d.cylinders x ≤ 0)) := by
  have hleft := hhead.left
  have hright := hhead.right
  induction fuel generalizing k with
  | zero => lia
  | succ fuel ih =>
      simp only [findLoop]
      by_cases hgo : max (head - k) (-1) ≥ 0 ∨ min (head + k) cylinderNum < cylinderNum
      · rw [if_pos hgo, probe_below hhead hk, Option.bind_some]
        by_cases hbelow : 0 ≤ head - k ∧ 0 < d.cylinders (head - k)
        · rw [if_pos hbelow]
          exact ⟨head - k, rfl,
            Or.inl (hseen.nearest_below hhead hk hbelow.left hbelow.right)⟩
        · rw [if_neg hbelow]
          simp only
          rw [probe_above hhead hk, Option.bind_some]
          by_cases habove : head + k < cylinderNum ∧ 0 < d.cylinders (head + k)
          · rw [if_pos habove]
            exact ⟨head + k, rfl,
              Or.inl (hseen.nearest_above hhead hk habove.left habove.right hbelow)⟩
          · rw [if_neg habove]
            have hlow : (if max (head - k) (-1) ≥ 0 then max (head - k) (-1) - 1
                else max (head - k) (-1)) = max (head - (k + 1)) (-1) := by
              split
              · lia
              · lia
            have hhigh : (if min (head + k) cylinderNum < cylinderNum
                then min (head + k) cylinderNum + 1 else min (head + k) cylinderNum) =
                min (head + (k + 1)) cylinderNum := by
              split
              · lia
              · lia
            simp only [hlow, hhigh]
            exact ih (by lia) (hseen.next hbelow habove) (by lia)
      · rw [if_neg hgo]
        exact ⟨-1, rfl, Or.inr ⟨rfl, hseen.all hgo⟩⟩

end Search

theorem findCylinderMinSeekDis_spec {head : Int} (hhead : InRange head) (d : Hdd) :
    exists c, findCylinderMinSeekDis d head = some c ∧
      (Nearest d head c ∨ (c = -1 ∧ forall x, InRange x -> d.cylinders x ≤ 0)) := by
  have hleft := hhead.left
  have hright := hhead.right
  have hlow : max (head - 0) (-1) = head := by lia
  have hhigh : min (head + 0) cylinderNum = head := by lia
  have hseen : SeenWithin d head 0 := by
    intro c _ hlt
    rw [absInt_eq_max] at hlt
    lia
  have hloop := @findLoop_spec d head 0 hhead (Int.le_refl 0) (cylinderNum.toNat + 2) hseen
    (by lia)
  rw [hlow, hhigh] at hloop
  exact hloop

theorem sstfLoop_spec {n : Nat} (hreq : forall c, c ∈ req -> InRange c) (h : Pending req d)
    (hhead : InRange d.cylinderHead) (hleft : d.served.length + n = req.length) :
    exists e, sstfLoop n d = some e ∧ Pending req e ∧ e.served.length = req.length := by
  induction n generalizing d with
  | zero => exact ⟨d, rfl, h, hleft⟩
  | succ n ih =>
      rcases h.exists_request hreq (by lia) with ⟨x, hx, hpos⟩
      rcases findCylinderMinSeekDis_spec hhead d with ⟨c, hfind, hfound | ⟨_, hnone⟩⟩
      · rcases visit_spec hfound.inRange d with ⟨e, hvisit, hserved, hmoved⟩
        have hlength : e.served.length = d.served.length + 1 := by
          rw [hserved.served, List.length_append, List.length_singleton]
        simp only [sstfLoop, hfind, hvisit, Option.bind_some]
        apply ih (h.serve hfound.inRange hfound.requested hserved)
        · rw [hmoved]
          exact hfound.inRange
        · lia
      · have hle := hnone x hx
        lia

end Disk
end OsLabs
