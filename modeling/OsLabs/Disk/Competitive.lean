import OsLabs.Disk.NearestFirst
import OsLabs.Disk.Scan
import OsLabs.Foundation.Tours

/-!
# How far the head has to go

What `SSTF` and `LOOK` make the head travel is compared with every other order of the same
requests: it is never more than twice as long.  `LOOK` is shortest of all exactly when it
does not turn at the farther end.
-/

namespace OsLabs
namespace Disk

open OsLabs.Foundation

variable {req served order : List Int} {head headDir lo hi : Int}

theorem travel_eq_tour (pos : Int) (l : List Int) : travel pos l = tour pos l := by
  induction l generalizing pos with
  | nil => rfl
  | cons c l ih =>
      change |c - pos| + travel c l = |c - pos| + tour c l
      rw [ih c]

/-!
# `SSTF`
-/

theorem NearestFirst.greedy {pending : List Int} (h : NearestFirst head pending served) :
    Greedy head served ∧ served.Perm pending := by
  induction served generalizing head pending with
  | nil =>
      have hnone : pending = [] := h
      rw [hnone]
      exact ⟨trivial, List.Perm.refl []⟩
  | cons c served ih =>
      rcases h with ⟨hmem, hnearest, _, hrest⟩
      rcases ih hrest with ⟨hgreedy, hperm⟩
      constructor
      · refine ⟨fun x hx => ?_, hgreedy⟩
        exact hnearest x (List.mem_of_mem_erase (hperm.subset hx))
      · exact (hperm.cons c).trans (List.perm_cons_erase hmem).symm

/-- `SSTF` serves all requests, and no order of them saves more than half of its way. -/
theorem sstf_within_twice (cylinders : Int -> Int) (req : List Int) (head : Int)
    (hreq : forall c, c ∈ req -> InRange c) (hhead : InRange head) :
    exists d, sstf cylinders req head = some d ∧ d.served.Perm req ∧
      d.headMoveSum = travel head d.served ∧
      forall order : List Int, order.Perm req -> d.headMoveSum ≤ 2 * travel head order := by
  rcases start_cellsOf hreq hhead cylinders with ⟨d, hstart, hd, hat, hnone, hzero⟩
  rcases sstfLoop_nearest hd (hat ▸ hhead) rfl with ⟨e, served, hloop, hserved, hnearest, htotal⟩
  rw [hnone, List.nil_append] at hserved
  rw [hzero, hat, Int.zero_add, ← hserved] at htotal
  rw [hat, ← hserved] at hnearest
  rcases hnearest.greedy with ⟨hgreedy, hperm⟩
  refine ⟨e, ?_, hperm, htotal, ?_⟩
  · unfold sstf
    rw [hstart, Option.bind_some, hloop]
  · intro order horder
    rw [htotal, travel_eq_tour, travel_eq_tour]
    exact hgreedy.within_twice (horder.trans hperm.symm)

theorem sstf_within_twice_eight : InRange 53 ∧
    exists d, sstf (fun _ => 7) eightRequests 53 = some d ∧ d.served.Perm eightRequests ∧
      d.headMoveSum = travel 53 d.served ∧
      forall order : List Int, order.Perm eightRequests ->
        d.headMoveSum ≤ 2 * travel 53 order := by
  have hhead : InRange 53 := by decide
  exact ⟨hhead, sstf_within_twice (fun _ => 7) eightRequests 53 (by decide) hhead⟩

/-!
# `LOOK`
-/

def Ends (req : List Int) (head headDir lo hi : Int) : Prop :=
  Hull (mirrored headDir head) (req.map (mirrored headDir)) lo hi

theorem travel_mirrored (headDir pos : Int) (l : List Int) :
    travel pos l = tour (mirrored headDir pos) (l.map (mirrored headDir)) := by
  rw [travel_eq_tour]
  exact (tour_map (fun x y => (abs_mirrored headDir x y).symm) pos l).symm

theorem Ends.le_travel (h : Ends req head headDir lo hi) (horder : order.Perm req) :
    (hi - lo) + min (hi - mirrored headDir head) (mirrored headDir head - lo) ≤
      travel head order := by
  rw [travel_mirrored headDir]
  exact Hull.le_tour (h.perm (horder.map _))

theorem exists_ends (req : List Int) (head headDir : Int) :
    exists lo hi, Ends req head headDir lo hi :=
  exists_hull _ _

theorem Ends.flip (h : Ends req head headDir lo hi) :
    Ends req head (flip headDir) (cylinderNum - 1 - hi) (cylinderNum - 1 - lo) := by
  have hmap : mirrored (Disk.flip headDir) head :: req.map (mirrored (Disk.flip headDir)) =
      (mirrored headDir head :: req.map (mirrored headDir)).map fun c => cylinderNum - 1 - c := by
    rw [List.map_cons, List.map_map, mirrored_flip]
    congr 1
    apply List.map_congr_left
    intro c _
    exact mirrored_flip headDir c
  unfold Ends
  constructor
  · rw [hmap]
    exact List.mem_map_of_mem h.high
  · rw [hmap]
    exact List.mem_map_of_mem h.low
  · intro c hc
    rw [hmap] at hc
    rcases List.mem_map.mp hc with ⟨x, hx, rfl⟩
    have hbounds := h.bounds x hx
    lia

theorem InLookOrder.perm (h : InLookOrder req head headDir served) : served.Perm req := by
  rcases h with ⟨first, rest, hserved, hfirst, _, hrest, _⟩
  have hboth := List.filter_append_perm (fun c => decide (Along headDir head c)) req
  simp only [← decide_not] at hboth
  rw [hserved]
  exact (hfirst.append hrest).trans hboth

theorem InLookOrder.upDown (h : InLookOrder req head headDir served) :
    exists first rest, served = first ++ rest ∧
      (rest = [] <-> forall c, c ∈ req -> Along headDir head c) ∧
      UpDown (mirrored headDir head) (first.map (mirrored headDir))
        (rest.map (mirrored headDir)) := by
  rcases h with ⟨first, rest, hserved, hfirst, hsorted, hrest, hsorted'⟩
  refine ⟨first, rest, hserved, ?_, ?_, ?_, ?_, ?_⟩
  · constructor
    · intro hnone c hc
      rw [hnone] at hrest
      have hnil := List.filter_eq_nil_iff.mp hrest.nil_eq.symm c hc
      exact Decidable.not_not.mp fun hnot => hnil (decide_eq_true hnot)
    · intro hall
      apply rest_eq_nil hrest
      intro c hc
      exact (along_iff_mirrored _ _ _).mp (hall c hc)
  · rw [List.pairwise_map]
    exact hsorted.imp fun halong => (along_iff_mirrored _ _ _).mp halong
  · intro c hc
    rcases List.mem_map.mp hc with ⟨x, hx, rfl⟩
    have halong := (List.mem_filter.mp (hfirst.subset hx)).right
    exact (along_iff_mirrored _ _ _).mp (of_decide_eq_true halong)
  · rw [List.pairwise_map]
    apply hsorted'.imp
    intro a b halong
    rw [along_iff_mirrored, mirrored_flip, mirrored_flip] at halong
    lia
  · intro c hc
    rcases List.mem_map.mp hc with ⟨x, hx, rfl⟩
    exact ((mem_rest_iff hrest).mp hx).right

/-- The way of `LOOK`: to the end ahead, and from there to the end behind if anything is
requested there. -/
theorem InLookOrder.travel_eq (h : InLookOrder req head headDir served)
    (hends : Ends req head headDir lo hi) :
    travel head served = (hi - mirrored headDir head) +
      (if forall c, c ∈ req -> Along headDir head c then 0 else hi - lo) := by
  rcases h.upDown with ⟨first, rest, hserved, hnone, hupDown⟩
  have hhull := hends.perm (h.perm.map (mirrored headDir))
  rw [hserved, List.map_append] at hhull
  rw [travel_mirrored headDir, hserved, List.map_append, hupDown.tour_eq hhull]
  congr 1
  simp only [List.map_eq_nil_iff, hnone]

theorem InLookOrder.travel_le (h : InLookOrder req head headDir served)
    (hends : Ends req head headDir lo hi) :
    travel head served ≤ (hi - mirrored headDir head) + (hi - lo) := by
  have hstart := hends.start
  rw [h.travel_eq hends]
  split
  · lia
  · exact Int.le_refl _

/-- Nothing is requested behind the head, or whatever is requested ahead of it is as near
as something behind. -/
def TurnsEarly (req : List Int) (head headDir : Int) : Prop :=
  (forall c, c ∈ req -> Along headDir head c) ∨
    forall a, a ∈ req -> Along headDir head a ->
      exists b, b ∈ req ∧ ¬ Along headDir head b ∧ |a - head| ≤ |b - head|

instance decidableTurnsEarly (req : List Int) (head headDir : Int) :
    Decidable (TurnsEarly req head headDir) :=
  inferInstanceAs (Decidable (_ ∨ _))

theorem TurnsEarly.travel_le (h : TurnsEarly req head headDir)
    (hlook : InLookOrder req head headDir served) (horder : order.Perm req) :
    travel head served ≤ travel head order := by
  rcases exists_ends req head headDir with ⟨lo, hi, hends⟩
  have hstart := hends.start
  have hleast := hends.le_travel horder
  rw [hlook.travel_eq hends]
  cases h with
  | inl hall =>
      rw [if_pos hall]
      lia
  | inr hnear =>
      split
      · lia
      · cases List.mem_cons.mp hends.high with
        | inl hat => lia
        | inr hmem =>
            rcases List.mem_map.mp hmem with ⟨a, ha, hhi⟩
            have halong : Along headDir head a := by
              rw [along_iff_mirrored, hhi]
              exact hstart.right
            rcases hnear a ha halong with ⟨b, hb, hbehind, hdist⟩
            rw [along_iff_mirrored] at hbehind
            rw [abs_mirrored headDir a, abs_mirrored headDir b, hhi] at hdist
            have hb := hends.bounds _ (List.mem_cons_of_mem _ (List.mem_map_of_mem hb))
            rw [abs_of_nonneg (by lia), abs_of_neg (by lia)] at hdist
            lia

/-- If `LOOK` is no longer than the sweeps the other way round, it turns early. -/
theorem turnsEarly_of_le {served' : List Int} (hlook : InLookOrder req head headDir served)
    (hother : InLookOrder req head (flip headDir) served')
    (hle : travel head served ≤ travel head served') : TurnsEarly req head headDir := by
  rcases exists_ends req head headDir with ⟨lo, hi, hends⟩
  have hstart := hends.start
  have hthere := hlook.travel_eq hends
  have hback := hother.travel_le hends.flip
  rw [mirrored_flip] at hback
  by_cases hall : forall c, c ∈ req -> Along headDir head c
  · exact Or.inl hall
  · rw [if_neg hall] at hthere
    right
    intro a ha halong
    have hbound := hends.bounds _ (List.mem_cons_of_mem _ (List.mem_map_of_mem ha))
    have hahead := (along_iff_mirrored _ _ _).mp halong
    have hlow : lo < mirrored headDir head := by
      apply Int.not_le.mp
      intro hge
      apply hall
      intro c hc
      have hc := hends.bounds _ (List.mem_cons_of_mem _ (List.mem_map_of_mem hc))
      rw [along_iff_mirrored]
      exact Int.le_trans hge hc.left
    cases List.mem_cons.mp hends.low with
    | inl hat => lia
    | inr hmem =>
        rcases List.mem_map.mp hmem with ⟨b, hb, hlo⟩
        refine ⟨b, hb, ?_, ?_⟩
        · rw [along_iff_mirrored, hlo]
          exact Int.not_le.mpr hlow
        · rw [abs_mirrored headDir a, abs_mirrored headDir b, hlo, abs_of_nonneg (by lia),
            abs_of_neg (by lia)]
          lia

/-- No order saves more than half of the way of `LOOK`, and none saves anything exactly when
it turns early. -/
theorem look_optimal_exact (cylinders : Int -> Int) (req : List Int) (head headDir : Int)
    (hne : req ≠ []) (hreq : forall c, c ∈ req -> InRange c) (hhead : InRange head) :
    exists d, look cylinders req head headDir = some d ∧ d.served.Perm req ∧
      (forall order : List Int, order.Perm req -> travel head d.served ≤ 2 * travel head order) ∧
      ((forall order : List Int, order.Perm req -> travel head d.served ≤ travel head order) <->
        TurnsEarly req head headDir) := by
  rcases @look_travels req head headDir hne hreq hhead cylinders with ⟨d, _, hrun, _, hlook, _⟩
  refine ⟨d, hrun, hlook.perm, ?_, ?_⟩
  · intro order horder
    rcases exists_ends req head headDir with ⟨lo, hi, hends⟩
    have hstart := hends.start
    have hway := hlook.travel_le hends
    have hleast := hends.le_travel horder
    lia
  · constructor
    · intro hbest
      rcases @look_travels req head (flip headDir) hne hreq hhead cylinders with
        ⟨e, _, _, _, hother, _⟩
      exact turnsEarly_of_le hlook hother (hbest e.served hother.perm)
    · intro hearly order horder
      exact hearly.travel_le hlook horder

theorem look_optimal_exact_eight : InRange 53 ∧
    exists d, look (fun _ => 7) eightRequests 53 0 = some d ∧ d.served.Perm eightRequests ∧
      (forall order : List Int, order.Perm eightRequests ->
        travel 53 d.served ≤ 2 * travel 53 order) ∧
      ((forall order : List Int, order.Perm eightRequests ->
        travel 53 d.served ≤ travel 53 order) <-> TurnsEarly eightRequests 53 0) := by
  have hhead : InRange 53 := by decide
  exact ⟨hhead, look_optimal_exact (fun _ => 7) eightRequests 53 0 (by decide) (by decide) hhead⟩

end Disk
end OsLabs
