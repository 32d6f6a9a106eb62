import OsLabs.Disk.Look

/-!
# The distance that `C_LOOK` reports

`C_LOOK` counts the jump to the other end of the requests also when no request is left
there, and like `LOOK` one way too much when the head starts above all requests.
-/

namespace OsLabs
namespace Disk

variable {req : List Int} {d e : Hdd} {head headDir : Int}

/-!
# Sorted lists
-/

theorem along_antisymm {a b : Int} (hab : Along headDir a b) (hba : Along headDir b a) :
    a = b := by
  unfold Along at hab hba
  split at hab
  · rename_i hdir
    rw [if_pos hdir] at hba
    lia
  · rename_i hdir
    rw [if_neg hdir] at hba
    lia

theorem getLastD_of_sorted {l : List Int} {a : Int} (hsorted : l.Pairwise (Along headDir))
    (hmem : a ∈ l) (hlast : forall c, c ∈ l -> Along headDir c a) (pos : Int) :
    l.getLastD pos = a := by
  cases List.eq_nil_or_concat l with
  | inl hnil =>
      rw [hnil] at hmem
      cases hmem
  | inr hconcat =>
      rcases hconcat with ⟨l', z, hl⟩
      rw [List.concat_eq_append] at hl
      subst hl
      rw [List.getLastD_concat]
      cases List.mem_append.mp hmem with
      | inl hbefore =>
          have hle := (List.pairwise_append.mp hsorted).right.right a hbefore z
            (List.mem_singleton_self z)
          exact along_antisymm (hlast z (List.mem_append_right l' (List.mem_singleton_self z))) hle
      | inr hat => exact (List.mem_singleton.mp hat).symm

theorem eq_cons_of_sorted {l : List Int} {a : Int} (hsorted : l.Pairwise (Along headDir))
    (hmem : a ∈ l) (hfirst : forall c, c ∈ l -> Along headDir a c) :
    exists t, l = a :: t := by
  cases l with
  | nil => cases hmem
  | cons b t =>
      cases List.mem_cons.mp hmem with
      | inl heq => exact ⟨t, by rw [heq]⟩
      | inr hlater =>
          have hle := (List.pairwise_cons.mp hsorted).left a hlater
          have heq := along_antisymm (hfirst b List.mem_cons_self) hle
          exact ⟨t, by rw [heq]⟩

/-!
# The run
-/

def sweepStart (range : Int × Int) (head : Int) : Int :=
  if head < range.fst then range.fst else if head > range.snd then range.snd else head

def sweepEnd (range : Int × Int) (headDir : Int) : Int :=
  if headDir = 0 then range.fst else range.snd

def jumpTarget (range : Int × Int) (headDir : Int) : Int :=
  if headDir = 0 then range.snd else range.fst

structure InCLookOrder (req : List Int) (range : Int × Int) (head headDir : Int)
    (first rest : List Int) (d : Hdd) : Prop where
  served : d.served = first ++ rest
  first_perm : first.Perm (req.filter fun c => Along headDir (sweepStart range head) c)
  first_sorted : first.Pairwise (Along headDir)
  rest_perm : rest.Perm (req.filter fun c => ¬ Along headDir (sweepStart range head) c)
  rest_sorted : rest.Pairwise (Along headDir)
  total : d.headMoveSum = surplus range head + travel head first + (range.snd - range.fst) +
    travel (jumpTarget range headDir) rest

section Run

variable (hne : req ≠ []) (hreq : forall c, c ∈ req -> InRange c) (hhead : InRange head)
  (cylinders : Int -> Int)

include hne hreq hhead

theorem cLook_travels : exists d range first rest, cLook cylinders req head headDir = some d ∧
    extremes req = some range ∧ (forall c, c ∈ req -> range.fst ≤ c ∧ c ≤ range.snd) ∧
    InCLookOrder req range head headDir first rest d := by
  rcases start_spec hreq hhead cylinders with ⟨d, hstart, hd, hnone, hat⟩
  rcases extremes_spec hne hreq with ⟨range, hextremes, hfst, hsnd, hle, hall⟩
  rcases clamp_spec hle d with ⟨hcells, hserved, hlow, hhigh⟩
  rcases sweep_between headDir (hd.congr hcells hserved) (between_iff range) hfst.left hsnd.right
    hlow hhigh with ⟨e, hfirst, he, hend, hclear1⟩
  have hjump : (jumpLast range e).cylinderHead = jumpTarget range headDir := by
    change otherLast range e.cylinderHead = _
    rw [hend, otherLast_eq hle]
    rfl
  rcases @sweep_all req (jumpLast range e) _ _ _ headDir (he.congr rfl rfl) (between_iff range)
    hfst.left hsnd.right hle hjump with ⟨f, hsecond, hf, hclear⟩
  have hrun : cLook cylinders req head headDir = some f := by
    unfold cLook
    rw [hstart, Option.bind_some, hextremes, Option.bind_some, hfirst, Option.bind_some, hsecond]
  rcases sweep_some hfirst with ⟨first, hmoved1, hsorted1, hmem1⟩
  rcases sweep_some hsecond with ⟨rest, hmoved2, hsorted2, _⟩
  have hmid := hmoved1.travelled (clamp_travelled hle hat (start_travelled hstart))
  have hserved1 := hmoved1.served
  rw [hserved, hnone, List.nil_append] at hserved1
  have hserved2 : f.served = first ++ rest := by
    rw [hmoved2.served]
    change e.served ++ rest = first ++ rest
    rw [hserved1]
  have hperm := hf.toBalanced.perm (hf.idle_of_between hall hclear) hreq
  rw [hserved2] at hperm
  have hdone : forall c, c ∈ req -> Along headDir (clamp range d).cylinderHead c ->
      first.count c = req.count c := by
    intro c hc halong
    have hzero : e.cylinders c = 0 := hclear1 c (along_bounds (hall c hc) halong)
    have hcount := he.counts c (hreq c hc)
    rw [hzero, hserved1] at hcount
    lia
  rcases split_perm (fun c hc => (hmem1 c hc).right) hdone hperm with ⟨hone, htwo⟩
  have hh : (clamp range d).cylinderHead = sweepStart range head := by
    rw [clamp_head, hat]
    rfl
  rw [hh] at hone htwo
  refine ⟨f, range, first, rest, hrun, hextremes, hall, hserved2, hone, hsorted1, htwo,
    hsorted2, ?_⟩
  rw [hmoved2.total]
  change e.headMoveSum + (range.snd - range.fst) + travel (jumpLast range e).cylinderHead rest = _
  rw [hjump, hmid.total, hserved1]

end Run

/-!
# The counted and the real distance
-/

section Distance

variable {range : Int × Int} {first rest : List Int}
  (hextremes : extremes req = some range)
  (hall : forall c, c ∈ req -> range.fst ≤ c ∧ c ≤ range.snd)

theorem sweepStart_bounds (hle : range.fst ≤ range.snd) :
    range.fst ≤ sweepStart range head ∧ sweepStart range head ≤ range.snd := by
  unfold sweepStart
  split
  · lia
  · split
    · lia
    · lia

include hall in
theorem along_sweepEnd {c : Int} (hc : c ∈ req) : Along headDir c (sweepEnd range headDir) := by
  have hbounds := hall c hc
  unfold Along sweepEnd
  split
  · exact hbounds.left
  · exact hbounds.right

include hall in
theorem jumpTarget_along {c : Int} (hc : c ∈ req) :
    Along headDir (jumpTarget range headDir) c := by
  have hbounds := hall c hc
  unfold Along jumpTarget
  split
  · exact hbounds.right
  · exact hbounds.left

include hextremes in
theorem sweepEnd_mem : sweepEnd range headDir ∈ req := by
  unfold sweepEnd
  split
  · exact (extremes_mem hextremes).left
  · exact (extremes_mem hextremes).right

include hextremes in
theorem jumpTarget_mem : jumpTarget range headDir ∈ req := by
  unfold jumpTarget
  split
  · exact (extremes_mem hextremes).right
  · exact (extremes_mem hextremes).left

include hextremes hall in
theorem InCLookOrder.first_last (h : InCLookOrder req range head headDir first rest d) :
    first.getLastD head = sweepEnd range headDir := by
  have hend := @sweepEnd_mem req headDir range hextremes
  have hbounds := @sweepStart_bounds head range
    ((hall _ hend).left.trans (hall _ hend).right)
  apply getLastD_of_sorted h.first_sorted
  · apply h.first_perm.symm.subset
    apply List.mem_filter.mpr
    refine ⟨hend, decide_eq_true ?_⟩
    unfold Along sweepEnd
    split
    · exact hbounds.left
    · exact hbounds.right
  · intro c hc
    exact along_sweepEnd hall (List.mem_filter.mp (h.first_perm.subset hc)).left

theorem InCLookOrder.mem_rest (h : InCLookOrder req range head headDir first rest d) (c : Int) :
    c ∈ rest <-> c ∈ req ∧ ¬ Along headDir (sweepStart range head) c := by
  rw [h.rest_perm.mem_iff, List.mem_filter, decide_eq_true_iff]

include hextremes hall in
theorem InCLookOrder.rest_head (h : InCLookOrder req range head headDir first rest d)
    (hrest : rest ≠ []) : exists t, rest = jumpTarget range headDir :: t := by
  apply eq_cons_of_sorted h.rest_sorted
  · rcases List.exists_mem_of_ne_nil rest hrest with ⟨c, hc⟩
    rcases (h.mem_rest c).mp hc with ⟨hin, hnot⟩
    refine (h.mem_rest _).mpr ⟨jumpTarget_mem hextremes, ?_⟩
    intro halong
    exact hnot (along_trans halong (jumpTarget_along hall hin))
  · intro c hc
    exact jumpTarget_along hall ((h.mem_rest c).mp hc).left

include hextremes hall in
theorem InCLookOrder.distance (h : InCLookOrder req range head headDir first rest d) :
    d.headMoveSum = travel head d.served + surplus range head +
      if rest = [] then range.snd - range.fst else 0 := by
  rw [h.total, h.served, travel_append, h.first_last hextremes hall]
  by_cases hrest : rest = []
  · rw [if_pos hrest, hrest]
    simp only [travel]
    lia
  · rw [if_neg hrest]
    rcases h.rest_head hextremes hall hrest with ⟨t, ht⟩
    have hle : range.fst ≤ range.snd :=
      (hall _ (extremes_mem hextremes).left).right
    have hjump : |jumpTarget range headDir - sweepEnd range headDir| = range.snd - range.fst := by
      unfold jumpTarget sweepEnd
      split
      · exact abs_of_nonneg (by lia)
      · rw [abs_sub_comm]
        exact abs_of_nonneg (by lia)
    rw [ht]
    simp only [travel]
    rw [hjump, sub_self, abs_zero]
    lia

end Distance

/-!
# When the distance is right
-/

/-- The total is the way over the served cylinders; if the first sweep meets all requests,
it is the way of `LOOK`. -/
structure ReportsDistance (cylinders : Int -> Int) (req : List Int) (head headDir : Int)
    (d : Hdd) : Prop where
  total : d.headMoveSum = travel head d.served
  same_as_look : forall e range, look cylinders req head headDir = some e ->
    extremes req = some range ->
    (forall c, c ∈ req -> Along headDir (sweepStart range head) c) ->
    d.headMoveSum = travel head e.served

/-- The head does not start above all requests, and the first sweep does not meet all of
them; or all requests are at one cylinder. -/
def JumpNeeded (req : List Int) (head headDir : Int) : Prop :=
  ((exists c, c ∈ req ∧ head ≤ c) ∧ exists c, c ∈ req ∧ ¬ Along headDir head c) ∨
    forall a b, a ∈ req -> b ∈ req -> a = b

theorem eq_of_perm_of_const {l l' : List Int} (hperm : l.Perm l')
    (hconst : forall a b, a ∈ l -> b ∈ l -> a = b) : l = l' := by
  cases l with
  | nil => exact (List.nil_perm.mp hperm).symm
  | cons a l =>
      have hall : forall b, b ∈ a :: l -> b = a :=
        fun b hb => hconst b a hb List.mem_cons_self
      have hl := List.eq_replicate_of_mem hall
      rw [hl] at hperm ⊢
      exact List.replicate_perm.mp hperm

section Condition

variable {range : Int × Int} {rest : List Int}
  (hall : forall c, c ∈ req -> range.fst ≤ c ∧ c ≤ range.snd)

include hall

theorem const_of_ends_eq (heq : range.snd = range.fst) :
    forall a b, a ∈ req -> b ∈ req -> a = b := by
  intro a b ha hb
  have hbounds := hall a ha
  have hbounds' := hall b hb
  lia

/-- A head that is moved up to the requests meets what it would meet from its place. -/
theorem not_along_sweepStart (hbelow : head ≤ range.snd) {c : Int} (hc : c ∈ req)
    (hnot : ¬ Along headDir (sweepStart range head) c) : ¬ Along headDir head c := by
  have hbounds := hall c hc
  unfold Along sweepStart at *
  by_cases hdir : headDir = 0
  · rw [if_pos hdir] at hnot ⊢
    split at hnot
    · lia
    · rw [if_neg (by lia)] at hnot
      exact hnot
  · rw [if_neg hdir] at hnot ⊢
    split at hnot
    · lia
    · rw [if_neg (by lia)] at hnot
      exact hnot

/-- If the sweep from the ends of the requests meets all of them, but the head does not,
they are at one cylinder. -/
theorem const_of_along_sweepStart (hbelow : head ≤ range.snd)
    (halong : forall c, c ∈ req -> Along headDir (sweepStart range head) c)
    (hnot : exists c, c ∈ req ∧ ¬ Along headDir head c) :
    forall a b, a ∈ req -> b ∈ req -> a = b := by
  rcases hnot with ⟨c, hc, hnot⟩
  have hmet := halong c hc
  have hbounds := hall c hc
  intro a b ha hb
  have halonga := halong a ha
  have halongb := halong b hb
  have hbounda := hall a ha
  have hboundb := hall b hb
  unfold Along sweepStart at *
  by_cases hdir : headDir = 0
  · simp only [if_pos hdir] at *
    by_cases hlow : head < range.fst
    · rw [if_pos hlow] at *
      lia
    · rw [if_neg hlow, if_neg (by lia)] at hmet
      exact absurd hmet hnot
  · simp only [if_neg hdir] at *
    by_cases hlow : head < range.fst
    · lia
    · rw [if_neg hlow, if_neg (by lia)] at hmet
      exact absurd hmet hnot

theorem JumpNeeded.const (hneeded : JumpNeeded req head headDir)
    (halong : forall c, c ∈ req -> Along headDir (sweepStart range head) c) :
    forall a b, a ∈ req -> b ∈ req -> a = b := by
  cases hneeded with
  | inl hboth =>
      rcases hboth with ⟨⟨c, hc, hlow⟩, hjump⟩
      exact const_of_along_sweepStart hall (hlow.trans (hall c hc).right) halong hjump
  | inr hconst => exact hconst

end Condition

section Total

variable {range : Int × Int} {first rest : List Int}
  (hextremes : extremes req = some range)
  (hall : forall c, c ∈ req -> range.fst ≤ c ∧ c ≤ range.snd)

include hextremes hall

theorem InCLookOrder.jumpNeeded (h : InCLookOrder req range head headDir first rest d)
    (hexact : d.headMoveSum = travel head d.served) : JumpNeeded req head headDir := by
  have hdistance := h.distance hextremes hall
  rcases extremes_mem hextremes with ⟨hfst, hsnd⟩
  have hle : range.fst ≤ range.snd := (hall _ hfst).right
  unfold surplus at hdistance
  by_cases hrest : rest = []
  · rw [if_pos hrest] at hdistance
    right
    apply const_of_ends_eq hall
    split at hdistance
    · lia
    · lia
  · rw [if_neg hrest] at hdistance
    by_cases hhigh : head > range.snd
    · rw [if_pos hhigh] at hdistance
      right
      apply const_of_ends_eq hall
      lia
    · left
      rcases List.exists_mem_of_ne_nil rest hrest with ⟨c, hc⟩
      rcases (h.mem_rest c).mp hc with ⟨hin, hnot⟩
      exact ⟨⟨range.snd, hsnd, by lia⟩,
        c, hin, not_along_sweepStart hall (by lia) hin hnot⟩

/-- Between two different ends, a jump that is needed is made, and from below the upper end
nothing is counted in excess. -/
theorem InCLookOrder.total_exact (h : InCLookOrder req range head headDir first rest d)
    (hneeded : JumpNeeded req head headDir) : d.headMoveSum = travel head d.served := by
  have hdistance := h.distance hextremes hall
  rcases extremes_mem hextremes with ⟨hfst, hsnd⟩
  unfold surplus at hdistance
  by_cases hsame : range.snd = range.fst
  · rw [hsame, Int.sub_self, ite_self, ite_self] at hdistance
    lia
  · cases hneeded with
    | inr hconst => exact absurd (hconst _ _ hsnd hfst) hsame
    | inl hboth =>
        rcases hboth with ⟨⟨c, hc, hlow⟩, hjump⟩
        have hbelow : head ≤ range.snd := hlow.trans (hall c hc).right
        have hrest : rest ≠ [] := by
          intro hnil
          apply hsame
          refine const_of_along_sweepStart hall hbelow ?_ hjump _ _ hsnd hfst
          intro c' hc'
          by_contra hnot
          have hin := (h.mem_rest c').mpr ⟨hc', hnot⟩
          rw [hnil] at hin
          cases hin
        rw [if_neg (by lia), if_neg hrest] at hdistance
        lia

end Total

theorem served_eq_of_const {e : Hdd} (hreq : forall c, c ∈ req -> InRange c)
    (hhead : InRange head) (cylinders : Int -> Int) (hne : req ≠ [])
    (hrun : cLook cylinders req head headDir = some d)
    (hlook : look cylinders req head headDir = some e)
    (hconst : forall a b, a ∈ req -> b ∈ req -> a = b) : d.served = e.served := by
  rcases look_servesAll hreq hhead cylinders headDir hne with ⟨e', hlook', hperm, _⟩
  rw [hlook] at hlook'
  cases hlook'
  rcases cLook_servesAll hreq hhead cylinders headDir hne with ⟨d', hrun', hperm', _⟩
  rw [hrun] at hrun'
  cases hrun'
  apply eq_of_perm_of_const (hperm'.trans hperm.symm)
  intro a b ha hb
  exact hconst a b (hperm'.subset ha) (hperm'.subset hb)

/-- The total is right exactly when the jump goes to requests and the head does not start
above all of them, or all requests are at one cylinder. -/
theorem cLook_distance_exact (cylinders : Int -> Int) (req : List Int) (head headDir : Int)
    (hne : req ≠ []) (hreq : forall c, c ∈ req -> InRange c) (hhead : InRange head) :
    exists d, cLook cylinders req head headDir = some d ∧
      (ReportsDistance cylinders req head headDir d <-> JumpNeeded req head headDir) := by
  rcases @cLook_travels req head headDir hne hreq hhead cylinders with
    ⟨d, range, first, rest, hrun, hextremes, hall, horder⟩
  refine ⟨d, hrun, fun hreports => horder.jumpNeeded hextremes hall hreports.total, ?_⟩
  intro hneeded
  have htotal := horder.total_exact hextremes hall hneeded
  refine ⟨htotal, ?_⟩
  intro e range' hlook hextremes' halong
  rw [hextremes] at hextremes'
  cases hextremes'
  have hconst := hneeded.const hall halong
  rw [← served_eq_of_const hreq hhead cylinders hne hrun hlook hconst]
  exact htotal

theorem cLook_distance_exact_eight : InRange 53 ∧
    exists d, cLook (fun _ => 7) eightRequests 53 0 = some d ∧
      (ReportsDistance (fun _ => 7) eightRequests 53 0 d <-> JumpNeeded eightRequests 53 0) := by
  have hhead : InRange 53 := by decide
  exact ⟨hhead, cLook_distance_exact _ _ _ _ (by decide) (by decide) hhead⟩

/-- From cylinder 0 over 10 to 50 the head goes 50 cylinders, as for `LOOK`; 90 are
reported. -/
theorem cLook_counts_idle_jump : (forall c, c ∈ [10, 50] -> InRange c) ∧ InRange 0 ∧
    exists d, cLook (fun _ => 0) [10, 50] 0 1 = some d ∧ d.served = [10, 50] ∧
      d.headMoveSum = 90 ∧ travel 0 d.served = 50 ∧
      ¬ ReportsDistance (fun _ => 0) [10, 50] 0 1 d := by
  have hserved : ((cLook (fun _ => 0) [10, 50] 0 1).map Hdd.served) = some [10, 50] := by
    decide +kernel
  have hsum : ((cLook (fun _ => 0) [10, 50] 0 1).map Hdd.headMoveSum) = some 90 := by
    decide +kernel
  rcases Option.map_eq_some_iff.mp hserved with ⟨d, hrun, hd⟩
  rw [hrun, Option.map_some, Option.some_inj] at hsum
  have htravel : travel 0 d.served = 50 := by
    rw [hd]
    decide
  refine ⟨by decide, by decide, d, hrun, hd, hsum, htravel, ?_⟩
  intro hreports
  have hexact := hreports.total
  rw [hsum, htravel] at hexact
  exact absurd hexact (by decide)

end Disk
end OsLabs
