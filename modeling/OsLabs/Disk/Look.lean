import Mathlib.Algebra.Order.Group.Abs
import Mathlib.Data.List.Perm.Lattice
import OsLabs.Disk.Sweeps

/-!
# The distance that `LOOK` reports

The order of the served cylinders is right for every position of the head.  The
total counts one way too much when the head starts above all requests.
-/

namespace OsLabs
namespace Disk

variable {req : List Int} {d e : Hdd} {head extra : Int}

/-- The cylinder `b` is at or beyond `a` in the direction of the sweep. -/
def Along (headDir a b : Int) : Prop :=
  if headDir = 0 then b ≤ a else a ≤ b

instance decidableAlong (headDir a b : Int) : Decidable (Along headDir a b) :=
  inferInstanceAs (Decidable (if headDir = 0 then b ≤ a else a ≤ b))

/-- First the requests at or beyond the head, then the others on the way back. -/
def InLookOrder (req : List Int) (head headDir : Int) (served : List Int) : Prop :=
  exists first rest, served = first ++ rest ∧
    first.Perm (req.filter fun c => Along headDir head c) ∧ first.Pairwise (Along headDir) ∧
    rest.Perm (req.filter fun c => ¬ Along headDir head c) ∧
    rest.Pairwise (Along (flip headDir))

def travel : Int -> List Int -> Int
  | _, [] => 0
  | pos, c :: cs => |c - pos| + travel c cs

theorem travel_append (pos : Int) (cs cs' : List Int) :
    travel pos (cs ++ cs') = travel pos cs + travel (cs.getLastD pos) cs' := by
  induction cs generalizing pos with
  | nil => simp [travel]
  | cons a cs ih =>
      rw [List.cons_append, List.getLastD_cons]
      change |a - pos| + travel a (cs ++ cs') = |a - pos| + travel a cs + _
      rw [ih, Int.add_assoc]

theorem getLastD_append (pos : Int) (cs cs' : List Int) :
    (cs ++ cs').getLastD pos = cs'.getLastD (cs.getLastD pos) := by
  induction cs generalizing pos with
  | nil => rfl
  | cons a cs ih => rw [List.cons_append, List.getLastD_cons, List.getLastD_cons, ih]

theorem absInt_eq (num : Int) : absInt num = |num| := by
  unfold absInt
  split
  · rename_i hpos
    exact (abs_of_nonneg hpos).symm
  · rename_i hneg
    exact (abs_of_neg (by lia)).symm

/-!
# What a sweep serves
-/

structure Moved (d e : Hdd) (l : List Int) : Prop where
  served : e.served = d.served ++ l
  total : e.headMoveSum = d.headMoveSum + travel d.preCylinderHead l
  last : e.preCylinderHead = l.getLastD d.preCylinderHead

theorem Moved.refl (d : Hdd) : Moved d d [] :=
  ⟨(List.append_nil _).symm, (Int.add_zero _).symm, rfl⟩

theorem Moved.trans {f : Hdd} {l l' : List Int} (h : Moved d e l) (h' : Moved e f l') :
    Moved d f (l ++ l') := by
  constructor
  · rw [h'.served, h.served, List.append_assoc]
  · rw [h'.total, h.total, h.last, travel_append, Int.add_assoc]
  · rw [h'.last, h.last, getLastD_append]

/-- The total is the way over the served cylinders and `extra` more. -/
structure Travelled (head extra : Int) (d : Hdd) : Prop where
  total : d.headMoveSum = extra + travel head d.served
  last : d.preCylinderHead = d.served.getLastD head

theorem Moved.travelled {l : List Int} (h : Moved d e l) (ht : Travelled head extra d) :
    Travelled head extra e := by
  constructor
  · rw [h.total, h.served, ht.total, ht.last, travel_append, Int.add_assoc]
  · rw [h.last, h.served, ht.last, getLastD_append]

theorem serve_some (h : serve d = some e) :
    e.cylinderHead = d.cylinderHead ∧ Moved d e [d.cylinderHead] := by
  unfold serve decrement at h
  split at h
  · cases h
    refine ⟨rfl, rfl, ?_, rfl⟩
    change d.headMoveSum + absInt (d.cylinderHead - d.preCylinderHead) = _
    rw [absInt_eq]
    simp [travel]
  · cases h

theorem serveLoop_some {fuel : Nat} (h : serveLoop fuel d = some e) :
    e.cylinderHead = d.cylinderHead ∧ exists j, Moved d e (List.replicate j d.cylinderHead) := by
  induction fuel generalizing d with
  | zero => cases h
  | succ fuel ih =>
      unfold serveLoop at h
      rcases Option.bind_eq_some_iff.mp h with ⟨v, _, hv⟩
      split at hv
      · rcases Option.bind_eq_some_iff.mp hv with ⟨d1, hserve, hloop⟩
        rcases serve_some hserve with ⟨hsame, hmoved⟩
        rcases ih hloop with ⟨hsame', j, hmoved'⟩
        refine ⟨hsame'.trans hsame, j + 1, ?_⟩
        rw [hsame] at hmoved'
        exact hmoved.trans hmoved'
      · cases hv
        exact ⟨rfl, 0, Moved.refl _⟩

theorem along_trans {headDir a b c : Int} (hab : Along headDir a b) (hbc : Along headDir b c) :
    Along headDir a c := by
  unfold Along at *
  split at hab
  · rename_i hdir
    rw [if_pos hdir] at hbc ⊢
    lia
  · rename_i hdir
    rw [if_neg hdir] at hbc ⊢
    lia

theorem along_refl (headDir a : Int) : Along headDir a a := by
  unfold Along
  split
  · exact Int.le_refl a
  · exact Int.le_refl a

theorem along_moveHead (headDir : Int) (d : Hdd) :
    Along headDir d.cylinderHead (moveHead headDir d).cylinderHead := by
  unfold Along moveHead
  split
  · simp only
    lia
  · simp only
    lia

theorem along_bounds {lo hi h c headDir : Int} (hbounds : lo ≤ c ∧ c ≤ hi)
    (halong : Along headDir h c) :
    if headDir = 0 then lo ≤ c ∧ c ≤ h else h ≤ c ∧ c ≤ hi := by
  unfold Along at halong
  split
  · rename_i hdir
    rw [if_pos hdir] at halong
    exact ⟨hbounds.left, halong⟩
  · rename_i hdir
    rw [if_neg hdir] at halong
    exact ⟨halong, hbounds.right⟩

theorem sweep_some {inside : Int -> Bool} {headDir : Int} {n fuel : Nat}
    (h : sweep inside headDir n fuel d = some e) :
    exists l, Moved d e l ∧ l.Pairwise (Along headDir) ∧
      forall c, c ∈ l -> inside c = true ∧ Along headDir d.cylinderHead c := by
  induction fuel generalizing d with
  | zero => cases h
  | succ fuel ih =>
      unfold sweep at h
      split at h
      · rename_i hin
        rcases Option.bind_eq_some_iff.mp h with ⟨d1, hserve, hrest⟩
        rcases serveLoop_some hserve with ⟨hsame, j, hmoved⟩
        rcases ih hrest with ⟨l, hmoved', hsorted, hmem⟩
        have hahead : Along headDir d.cylinderHead (moveHead headDir d1).cylinderHead := by
          rw [← hsame]
          exact along_moveHead headDir d1
        have hfar : forall c, c ∈ l -> Along headDir d.cylinderHead c :=
          fun c hc => along_trans hahead (hmem c hc).right
        refine ⟨List.replicate j d.cylinderHead ++ l, ?_, ?_, ?_⟩
        · exact hmoved.trans ⟨hmoved'.served, hmoved'.total, hmoved'.last⟩
        · rw [List.pairwise_append]
          refine ⟨List.pairwise_replicate.mpr (Or.inr (along_refl _ _)), hsorted, ?_⟩
          intro a ha c hc
          rw [List.eq_of_mem_replicate ha]
          exact hfar c hc
        · intro c hc
          cases List.mem_append.mp hc with
          | inl hnow =>
              rw [List.eq_of_mem_replicate hnow]
              exact ⟨hin, along_refl _ _⟩
          | inr hlater => exact ⟨(hmem c hlater).left, hfar c hlater⟩
      · cases h
        exact ⟨[], Moved.refl _, List.Pairwise.nil, by simp⟩

/-!
# The ends of the requests and the start
-/

theorem extremesLoop_mem {l : List Int} {lo hi : Int} (hlo : lo ∈ l) (hhi : hi ∈ l)
    (hreq : forall c, c ∈ req -> c ∈ l) :
    (extremesLoop (lo, hi) req).fst ∈ l ∧ (extremesLoop (lo, hi) req).snd ∈ l := by
  induction req generalizing lo hi with
  | nil => exact ⟨hlo, hhi⟩
  | cons a req ih =>
      have ha := hreq a List.mem_cons_self
      apply ih
      · split
        · exact ha
        · exact hlo
      · split
        · exact ha
        · exact hhi
      · intro c hc
        exact hreq c (List.mem_cons_of_mem a hc)

theorem extremes_mem {range : Int × Int} (h : extremes req = some range) :
    range.fst ∈ req ∧ range.snd ∈ req := by
  cases req with
  | nil => cases h
  | cons a req =>
      cases h
      exact extremesLoop_mem List.mem_cons_self List.mem_cons_self fun _ hc => hc

theorem start_travelled {cylinders : Int -> Int} (h : start cylinders req head = some d) :
    Travelled head 0 d := by
  unfold start at h
  rcases Option.bind_eq_some_iff.mp h with ⟨cells, _, hrest⟩
  rcases Option.map_eq_some_iff.mp hrest with ⟨v, _, hd⟩
  subst hd
  split
  · exact ⟨rfl, rfl⟩
  · exact ⟨rfl, rfl⟩

/-- The way that is counted though the head does not go it. -/
def surplus (range : Int × Int) (head : Int) : Int :=
  if head > range.snd then range.snd - range.fst else 0

/-- A head that is moved to the requests from below is counted with distance zero. -/
theorem clamp_travelled {range : Int × Int} (hle : range.fst ≤ range.snd)
    (hd : d.cylinderHead = head) (ht : Travelled head 0 d) :
    Travelled head (surplus range head) (clamp range d) := by
  unfold surplus clamp
  rw [hd]
  by_cases hlow : head < range.fst
  · rw [if_pos hlow, if_neg (by lia)]
    refine ⟨?_, ht.last⟩
    change d.headMoveSum + (range.fst - range.fst) = _
    rw [Int.sub_self, Int.add_zero]
    exact ht.total
  · rw [if_neg hlow]
    by_cases hhigh : head > range.snd
    · rw [if_pos hhigh, if_pos hhigh]
      refine ⟨?_, ht.last⟩
      change d.headMoveSum + (range.snd - range.fst) = _ + travel head d.served
      rw [ht.total]
      lia
    · rw [if_neg hhigh, if_neg hhigh]
      exact ht

theorem clamp_head (range : Int × Int) (d : Hdd) :
    (clamp range d).cylinderHead =
      if d.cylinderHead < range.fst then range.fst
      else if d.cylinderHead > range.snd then range.snd else d.cylinderHead := by
  unfold clamp
  split
  · rfl
  · split
    · rfl
    · rfl

/-!
# The order
-/

section Order

variable {range : Int × Int} {first rest : List Int} {h headDir : Int}
  (hall : forall c, c ∈ req -> range.fst ≤ c ∧ c ≤ range.snd)

theorem split_perm (hfirst : forall c, c ∈ first -> Along headDir h c)
    (hdone : forall c, c ∈ req -> Along headDir h c -> first.count c = req.count c)
    (hperm : (first ++ rest).Perm req) :
    first.Perm (req.filter fun c => Along headDir h c) ∧
      rest.Perm (req.filter fun c => ¬ Along headDir h c) := by
  have hone : first.Perm (req.filter fun c => Along headDir h c) := by
    apply List.perm_iff_count.mpr
    intro c
    by_cases hc : Along headDir h c
    · have hcount : (req.filter fun c => Along headDir h c).count c = req.count c :=
        List.count_filter (decide_eq_true hc)
      rw [hcount]
      by_cases hmem : c ∈ req
      · exact hdone c hmem hc
      · have hout : c ∉ first := fun hin => hmem (hperm.subset (List.mem_append_left rest hin))
        rw [List.count_eq_zero_of_not_mem hmem, List.count_eq_zero_of_not_mem hout]
    · have hout : c ∉ req.filter fun c => Along headDir h c := by
        intro hin
        exact hc (of_decide_eq_true (List.mem_filter.mp hin).right)
      rw [List.count_eq_zero_of_not_mem hout,
        List.count_eq_zero_of_not_mem fun hin => hc (hfirst c hin)]
  refine ⟨hone, ?_⟩
  have hboth := List.filter_append_perm (fun c => decide (Along headDir h c)) req
  simp only [← decide_not] at hboth
  have hjoin := hperm.trans hboth.symm
  exact (List.perm_append_left_iff _).mp (hjoin.trans (hone.symm.append_right _))

include hall

theorem clamp_along {head : Int} (hle : range.fst ≤ range.snd)
    (hh : h = if head < range.fst then range.fst
      else if head > range.snd then range.snd else head) :
    (forall c, c ∈ req -> (Along headDir h c <-> Along headDir head c)) ∨
    (forall c, c ∈ req -> ¬ Along headDir head c ∧ (Along headDir h c -> c = h) ∧
      Along (flip headDir) h c) := by
  by_cases hdir : headDir = 0
  · have hflip : ¬ flip headDir = 0 := by
      unfold flip
      rw [if_pos hdir]
      decide
    simp only [Along, if_pos hdir, if_neg hflip]
    by_cases hlow : head < range.fst
    · rw [if_pos hlow] at hh
      refine Or.inr fun c hc => ?_
      have hbounds := hall c hc
      lia
    · rw [if_neg hlow] at hh
      refine Or.inl fun c hc => ?_
      have hbounds := hall c hc
      split at hh
      · lia
      · rw [hh]
  · have hflip : flip headDir = 0 := if_neg hdir
    simp only [Along, if_neg hdir, if_pos hflip]
    by_cases hhigh : head > range.snd
    · rw [if_neg (by lia), if_pos hhigh] at hh
      refine Or.inr fun c hc => ?_
      have hbounds := hall c hc
      lia
    · refine Or.inl fun c hc => ?_
      have hbounds := hall c hc
      split at hh
      · lia
      · rw [hh]

theorem inLookOrder_of_clamped {head : Int} (hle : range.fst ≤ range.snd)
    (hh : h = if head < range.fst then range.fst
      else if head > range.snd then range.snd else head)
    (hfirst : first.Perm (req.filter fun c => Along headDir h c))
    (hsorted : first.Pairwise (Along headDir))
    (hrest : rest.Perm (req.filter fun c => ¬ Along headDir h c))
    (hsorted' : rest.Pairwise (Along (flip headDir))) :
    InLookOrder req head headDir (first ++ rest) := by
  cases clamp_along hall hle hh with
  | inl hsame =>
      refine ⟨first, rest, rfl, ?_, hsorted, ?_, hsorted'⟩
      · rw [List.filter_congr fun c hc => decide_eq_decide.mpr (hsame c hc)] at hfirst
        exact hfirst
      · rw [List.filter_congr fun c hc => decide_eq_decide.mpr (not_congr (hsame c hc))] at hrest
        exact hrest
  | inr hbeyond =>
      have hnone : (req.filter fun c => Along headDir head c) = [] := by
        rw [List.filter_eq_nil_iff]
        intro c hc
        rw [decide_eq_true_iff]
        exact (hbeyond c hc).left
      have hevery : (req.filter fun c => ¬ Along headDir head c) = req := by
        rw [List.filter_eq_self]
        intro c hc
        exact decide_eq_true (hbeyond c hc).left
      have hat : forall c, c ∈ first -> c = h := by
        intro c hc
        rcases List.mem_filter.mp (hfirst.subset hc) with ⟨hreq, halong⟩
        exact (hbeyond c hreq).right.left (of_decide_eq_true halong)
      refine ⟨[], first ++ rest, rfl, by rw [hnone], List.Pairwise.nil, ?_, ?_⟩
      · rw [hevery]
        have hboth := List.filter_append_perm (fun c => decide (Along headDir h c)) req
        simp only [← decide_not] at hboth
        exact (hfirst.append hrest).trans hboth
      · rw [List.pairwise_append]
        refine ⟨?_, hsorted', ?_⟩
        · apply List.pairwise_of_forall_mem_list
          intro a ha b hb
          rw [hat a ha, hat b hb]
          exact along_refl _ _
        · intro a ha b hb
          rw [hat a ha]
          exact (hbeyond b (List.mem_filter.mp (hrest.subset hb)).left).right.right

end Order

/-!
# The algorithm
-/

section Algorithm

variable {headDir : Int} (hne : req ≠ []) (hreq : forall c, c ∈ req -> InRange c)
  (hhead : InRange head) (cylinders : Int -> Int)

include hne hreq hhead

/-- The order is right for every head, and the total is too large by the surplus. -/
theorem look_travels : exists d range, look cylinders req head headDir = some d ∧
    extremes req = some range ∧ InLookOrder req head headDir d.served ∧
    d.headMoveSum = surplus range head + travel head d.served := by
  rcases start_spec hreq hhead cylinders with ⟨d, hstart, hd, hnone, hat⟩
  rcases extremes_spec hne hreq with ⟨range, hextremes, hfst, hsnd, hle, hall⟩
  rcases clamp_spec hle d with ⟨hcells, hserved, hlow, hhigh⟩
  rcases sweep_between headDir (hd.congr hcells hserved) (between_iff range) hfst.left hsnd.right
    hlow hhigh with ⟨e, hfirst, he, hend, hclear1⟩
  rcases @sweep_all req { e with cylinderHead := lastPassed range e.cylinderHead } _ _ _
    (flip headDir) (he.congr rfl rfl) (between_iff range) hfst.left hsnd.right hle
    (by rw [← lastPassed_eq hle, ← hend]) with ⟨f, hsecond, hf, hclear⟩
  have hrun : look cylinders req head headDir = some f := by
    unfold look
    rw [hstart, Option.bind_some, hextremes, Option.bind_some, hfirst, Option.bind_some, hsecond]
  rcases sweep_some hfirst with ⟨first, hmoved1, hsorted1, hmem1⟩
  rcases sweep_some hsecond with ⟨rest, hmoved2, hsorted2, _⟩
  have hserved1 := hmoved1.served
  have hserved2 := hmoved2.served
  have htravel := clamp_travelled hle hat (start_travelled hstart)
  rw [hserved, hnone, List.nil_append] at hserved1
  simp only [hserved1] at hserved2
  have hperm := hf.toBalanced.perm (hf.idle_of_between hall hclear) hreq
  rw [hserved2] at hperm
  have hdone : forall c, c ∈ req -> Along headDir (clamp range d).cylinderHead c ->
      first.count c = req.count c := by
    intro c hc halong
    have hcount := he.counts c (hreq c hc)
    have hzero : e.cylinders c = 0 := hclear1 c (along_bounds (hall c hc) halong)
    rw [hzero, hserved1] at hcount
    lia
  rcases split_perm (fun c hc => (hmem1 c hc).right) hdone hperm with ⟨hone, htwo⟩
  refine ⟨f, range, hrun, hextremes, ?_, ?_⟩
  · rw [hserved2]
    have hh := clamp_head range d
    rw [hat] at hh
    exact inLookOrder_of_clamped hall hle hh hone hsorted1 htwo hsorted2
  · have hmid := hmoved1.travelled htravel
    exact (hmoved2.travelled ⟨hmid.total, hmid.last⟩).total

/-- The total is the travelled distance exactly when the head does not start above
all requests, or all requests are at one cylinder. -/
theorem look_distance_exact : exists d, look cylinders req head headDir = some d ∧
    (InLookOrder req head headDir d.served ∧ d.headMoveSum = travel head d.served <->
      (exists c, c ∈ req ∧ head ≤ c) ∨ forall a b, a ∈ req -> b ∈ req -> a = b) := by
  rcases @look_travels req head headDir hne hreq hhead cylinders with
    ⟨d, range, hrun, hextremes, horder, htotal⟩
  rcases extremes_mem hextremes with ⟨hfst, hsnd⟩
  have hall : forall c, c ∈ req -> range.fst ≤ c ∧ c ≤ range.snd := by
    rcases extremes_spec hne hreq with ⟨range', hextremes', _, _, _, hall⟩
    rw [hextremes] at hextremes'
    cases hextremes'
    exact hall
  refine ⟨d, hrun, ?_⟩
  unfold surplus at htotal
  constructor
  · rintro ⟨_, hexact⟩
    by_cases hhigh : head > range.snd
    · right
      rw [if_pos hhigh] at htotal
      intro a b ha hb
      have hbounds := hall a ha
      have hbounds' := hall b hb
      lia
    · exact Or.inl ⟨range.snd, hsnd, by lia⟩
  · intro hcond
    refine ⟨horder, ?_⟩
    cases hcond with
    | inl habove =>
        rcases habove with ⟨c, hc, hle⟩
        have hbounds := hall c hc
        rw [if_neg (by lia)] at htotal
        lia
    | inr hone =>
        rw [hone range.fst range.snd hfst hsnd, Int.sub_self, ite_self] at htotal
        lia

end Algorithm

theorem look_distance_exact_eight : InRange 53 ∧
    exists d, look (fun _ => 7) eightRequests 53 0 = some d ∧
      (InLookOrder eightRequests 53 0 d.served ∧ d.headMoveSum = travel 53 d.served <->
        (exists c, c ∈ eightRequests ∧ 53 ≤ c) ∨
          forall a b, a ∈ eightRequests -> b ∈ eightRequests -> a = b) := by
  have hhead : InRange 53 := by decide
  exact ⟨hhead, look_distance_exact (by decide) (by decide) hhead _⟩

/-- From cylinder 100 over 50 to 10 the head goes 90 cylinders; 130 are reported. -/
theorem look_counts_too_much : (forall c, c ∈ [10, 50] -> InRange c) ∧ InRange 100 ∧
    exists d, look (fun _ => 0) [10, 50] 100 0 = some d ∧ d.served = [50, 10] ∧
      d.headMoveSum = 130 ∧ travel 100 d.served = 90 ∧
      ¬ (InLookOrder [10, 50] 100 0 d.served ∧ d.headMoveSum = travel 100 d.served) := by
  have hserved : ((look (fun _ => 0) [10, 50] 100 0).map Hdd.served) = some [50, 10] := by
    decide +kernel
  have hsum : ((look (fun _ => 0) [10, 50] 100 0).map Hdd.headMoveSum) = some 130 := by
    decide +kernel
  rcases Option.map_eq_some_iff.mp hserved with ⟨d, hrun, hd⟩
  rw [hrun, Option.map_some, Option.some_inj] at hsum
  have htravel : travel 100 d.served = 90 := by
    rw [hd]
    decide
  refine ⟨by decide, by decide, d, hrun, hd, hsum, htravel, ?_⟩
  rintro ⟨_, hexact⟩
  rw [hsum, htravel] at hexact
  exact absurd hexact (by decide)

end Disk
end OsLabs
