import OsLabs.Disk.CLook

/-!
# The order and the distance of `SCAN` and `C_SCAN`

Both algorithms are the same in both directions up to a mirror image of the disk.  The
first sweep goes to the end of the disk, so its distance does not depend on the
requests; the distance of the second is given by the last request that it serves.
-/

namespace OsLabs
namespace Disk

variable {req first rest : List Int} {d e : Hdd} {head headDir : Int}

def mirrored (headDir c : Int) : Int :=
  if headDir = 0 then cylinderNum - 1 - c else c

theorem along_iff_mirrored (headDir a b : Int) :
    Along headDir a b <-> mirrored headDir a ≤ mirrored headDir b := by
  unfold Along mirrored
  split
  · lia
  · rfl

theorem mirrored_flip (headDir c : Int) :
    mirrored (flip headDir) c = cylinderNum - 1 - mirrored headDir c := by
  unfold mirrored flip
  by_cases hdir : headDir = 0
  · rw [if_pos hdir, if_pos hdir, if_neg (by decide)]
    lia
  · rw [if_neg hdir, if_neg hdir, if_pos rfl]

theorem abs_mirrored (headDir a b : Int) :
    |a - b| = |mirrored headDir a - mirrored headDir b| := by
  unfold mirrored
  split
  · rw [abs_sub_comm]
    congr 1
    lia
  · rfl

theorem mirrored_inRange {c : Int} (hc : InRange c) :
    0 ≤ mirrored headDir c ∧ mirrored headDir c ≤ cylinderNum - 1 := by
  have hlow := hc.left
  have hhigh := hc.right
  unfold mirrored
  split
  · lia
  · lia

theorem travel_sorted {pos : Int} {l : List Int} (hsorted : l.Pairwise (Along headDir))
    (hahead : forall c, c ∈ l -> Along headDir pos c) :
    travel pos l = mirrored headDir (l.getLastD pos) - mirrored headDir pos := by
  induction l generalizing pos with
  | nil => exact (Int.sub_self _).symm
  | cons a l ih =>
      rcases List.pairwise_cons.mp hsorted with ⟨hfirst, hrest⟩
      have hle := (along_iff_mirrored _ _ _).mp (hahead a List.mem_cons_self)
      have hstep : |a - pos| = mirrored headDir a - mirrored headDir pos := by
        rw [abs_mirrored headDir]
        exact abs_of_nonneg (by lia)
      change |a - pos| + travel a l = _
      rw [ih hrest hfirst, hstep, List.getLastD_cons]
      lia

/-!
# The first sweep
-/

def diskEnd (headDir : Int) : Int :=
  if headDir = 0 then 0 else cylinderNum - 1

theorem mirrored_diskEnd (headDir : Int) : mirrored headDir (diskEnd headDir) = cylinderNum - 1 := by
  unfold mirrored diskEnd
  split
  · lia
  · rfl

theorem arrive_total (d : Hdd) :
    (arrive d).headMoveSum = d.headMoveSum + |d.cylinderHead - d.preCylinderHead| ∧
      (arrive d).preCylinderHead = d.cylinderHead := by
  unfold arrive
  split
  · refine ⟨?_, rfl⟩
    rw [← absInt_eq]
    rfl
  · rename_i hsame
    have heq : d.preCylinderHead = d.cylinderHead := by_contra hsame
    refine ⟨?_, heq⟩
    rw [heq, sub_self, abs_zero, Int.add_zero]

structure AtEnd (req : List Int) (head headDir : Int) (first : List Int) (d : Hdd) : Prop where
  pending : Pending req d
  head_end : d.cylinderHead = diskEnd headDir
  pre_end : d.preCylinderHead = diskEnd headDir
  served : d.served = first
  sorted : first.Pairwise (Along headDir)
  ahead : forall c, c ∈ first -> Along headDir head c
  done : forall c, c ∈ req -> Along headDir head c -> first.count c = req.count c
  total : d.headMoveSum = cylinderNum - 1 - mirrored headDir head

theorem firstScan_run {cylinders : Int -> Int} (hreq : forall c, c ∈ req -> InRange c)
    (hhead : InRange head) : exists d e first, start cylinders req head = some d ∧
    sweep onDisk headDir req.length sweepFuel d = some e ∧
    AtEnd req head headDir first (toEnd e) := by
  rcases start_spec hreq hhead cylinders with ⟨d, hstart, hd, hnone, hat⟩
  have htravelled := start_travelled hstart
  rcases sweep_between headDir hd onDisk_iff (Int.le_refl 0) (by lia) (by rw [hat]; exact hhead.left)
    (by rw [hat]; have := hhead.right; lia) with ⟨e, hsweep, he, hend, hclear⟩
  rcases sweep_some hsweep with ⟨first, hmoved, hsorted, hmem⟩
  have hpassed : endPassed e.cylinderHead = diskEnd headDir := by
    rw [hend]
    unfold diskEnd
    split
    · decide
    · decide
  have hserved : e.served = first := by
    rw [hmoved.served, hnone, List.nil_append]
  have hahead : forall c, c ∈ first -> Along headDir head c := by
    intro c hc
    rw [← hat]
    exact (hmem c hc).right
  rcases arrive_spec { e with cylinderHead := endPassed e.cylinderHead } with
    ⟨hcells, hsame, hstay⟩
  rcases arrive_total { e with cylinderHead := endPassed e.cylinderHead } with ⟨htotal, hpre⟩
  refine ⟨d, e, first, hstart, hsweep, he.congr hcells hsame, hstay.trans hpassed,
    hpre.trans hpassed, hsame.trans hserved, hsorted, hahead, ?_, ?_⟩
  · intro c hc halong
    have hin := hreq c hc
    have hzero : e.cylinders c = 0 := by
      apply hclear c
      rw [hat]
      exact along_bounds ⟨hin.left, by have := hin.right; lia⟩ halong
    have hcount := he.counts c hin
    rw [hzero, hserved] at hcount
    lia
  · have hlast : e.preCylinderHead = first.getLastD head := by
      rw [(hmoved.travelled htravelled).last, hserved]
    have hway : e.headMoveSum = travel head first := by
      rw [(hmoved.travelled htravelled).total, hserved, Int.zero_add]
    have hbound : mirrored headDir (first.getLastD head) ≤ cylinderNum - 1 := by
      cases List.mem_cons.mp (@List.getLastD_mem_cons _ first head) with
      | inl hstart =>
          rw [hstart]
          exact (mirrored_inRange hhead).right
      | inr hin =>
          have hdisk := (onDisk_iff _).mp (hmem _ hin).left
          exact (mirrored_inRange ⟨hdisk.left, by lia⟩).right
    change (arrive _).headMoveSum = _
    rw [htotal]
    change e.headMoveSum + |endPassed e.cylinderHead - e.preCylinderHead| = _
    rw [hway, travel_sorted hsorted hahead, hpassed, hlast, abs_mirrored headDir,
      mirrored_diskEnd, abs_of_nonneg (by lia)]
    lia

/-!
# The second sweep
-/

def InCScanOrder (req : List Int) (head headDir : Int) (served : List Int) : Prop :=
  exists first rest, served = first ++ rest ∧
    first.Perm (req.filter fun c => Along headDir head c) ∧ first.Pairwise (Along headDir) ∧
    rest.Perm (req.filter fun c => ¬ Along headDir head c) ∧ rest.Pairwise (Along headDir)

structure ScanTotal (req : List Int) (head headDir total : Int) : Prop where
  none_behind : (forall c, c ∈ req -> mirrored headDir head ≤ mirrored headDir c) ->
    total = cylinderNum - 1 - mirrored headDir head
  some_behind : forall m, m ∈ req -> mirrored headDir m < mirrored headDir head ->
    (forall c, c ∈ req -> mirrored headDir m ≤ mirrored headDir c) ->
    total = (cylinderNum - 1 - mirrored headDir head) + (cylinderNum - 1 - mirrored headDir m)

structure CScanTotal (req : List Int) (head headDir total : Int) : Prop where
  none_behind : (forall c, c ∈ req -> mirrored headDir head ≤ mirrored headDir c) ->
    total = (cylinderNum - 1 - mirrored headDir head) + (cylinderNum - 1)
  some_behind : forall m, m ∈ req -> mirrored headDir m < mirrored headDir head ->
    (forall c, c ∈ req -> mirrored headDir c < mirrored headDir head ->
      mirrored headDir c ≤ mirrored headDir m) ->
    total = (cylinderNum - 1 - mirrored headDir head) + (cylinderNum - 1) + mirrored headDir m

section Rest

variable (hrest : rest.Perm (req.filter fun c => ¬ Along headDir head c))

include hrest

theorem mem_rest_iff {c : Int} :
    c ∈ rest <-> c ∈ req ∧ mirrored headDir c < mirrored headDir head := by
  rw [hrest.mem_iff, List.mem_filter, decide_eq_true_iff, along_iff_mirrored, Int.not_le]

theorem rest_eq_nil (hnone : forall c, c ∈ req -> mirrored headDir head ≤ mirrored headDir c) :
    rest = [] := by
  rw [List.eq_nil_iff_forall_not_mem]
  intro c hc
  rcases (mem_rest_iff hrest).mp hc with ⟨hin, hlt⟩
  exact Int.not_le.mpr hlt (hnone c hin)

theorem rest_last_back (hsorted : rest.Pairwise (Along (flip headDir))) {m : Int} (hm : m ∈ req)
    (hbehind : mirrored headDir m < mirrored headDir head)
    (hleast : forall c, c ∈ req -> mirrored headDir m ≤ mirrored headDir c) (pos : Int) :
    rest.getLastD pos = m := by
  apply getLastD_of_sorted hsorted ((mem_rest_iff hrest).mpr ⟨hm, hbehind⟩)
  intro c hc
  rw [along_iff_mirrored, mirrored_flip, mirrored_flip]
  have hle := hleast c ((mem_rest_iff hrest).mp hc).left
  lia

theorem rest_last_forth (hsorted : rest.Pairwise (Along headDir)) {m : Int} (hm : m ∈ req)
    (hbehind : mirrored headDir m < mirrored headDir head)
    (hgreatest : forall c, c ∈ req -> mirrored headDir c < mirrored headDir head ->
      mirrored headDir c ≤ mirrored headDir m) (pos : Int) :
    rest.getLastD pos = m := by
  apply getLastD_of_sorted hsorted ((mem_rest_iff hrest).mpr ⟨hm, hbehind⟩)
  intro c hc
  rcases (mem_rest_iff hrest).mp hc with ⟨hin, hlt⟩
  exact (along_iff_mirrored _ _ _).mpr (hgreatest c hin hlt)

end Rest

theorem diskEnd_flip (headDir : Int) :
    diskEnd headDir = if flip headDir = 0 then cylinderNum - 1 else 0 := by
  unfold diskEnd flip
  split
  · rfl
  · rfl

theorem otherEnd_diskEnd (headDir : Int) :
    otherEnd (diskEnd headDir) = if headDir = 0 then cylinderNum - 1 else 0 := by
  unfold diskEnd
  split
  · decide
  · decide

theorem jumpEnd_run (hin : InRange d.cylinderHead) : exists e, jumpEnd d = some e ∧
    e.cylinders = d.cylinders ∧ e.served = d.served ∧
    e.cylinderHead = otherEnd d.cylinderHead ∧ e.preCylinderHead = otherEnd d.cylinderHead ∧
    e.headMoveSum = d.headMoveSum + (cylinderNum - 1) := by
  unfold jumpEnd cell
  simp only [if_pos (otherEnd_inRange hin), Option.map_some]
  refine ⟨_, rfl, ?_⟩
  split
  · exact ⟨rfl, rfl, rfl, rfl, rfl⟩
  · exact ⟨rfl, rfl, rfl, rfl, rfl⟩

theorem diskEnd_inRange (headDir : Int) : InRange (diskEnd headDir) := by
  unfold diskEnd
  split
  · decide
  · decide

theorem secondSweep_run {dir : Int} (hreq : forall c, c ∈ req -> InRange c)
    (h : Pending req d) (hserved : d.served = first)
    (hfirst : forall c, c ∈ first -> Along headDir head c)
    (hdone : forall c, c ∈ req -> Along headDir head c -> first.count c = req.count c)
    (hstart : d.cylinderHead = if dir = 0 then cylinderNum - 1 else 0)
    (hpre : d.preCylinderHead = d.cylinderHead) :
    exists e rest, sweep onDisk dir req.length sweepFuel d = some e ∧
      e.served = first ++ rest ∧
      first.Perm (req.filter fun c => Along headDir head c) ∧
      rest.Perm (req.filter fun c => ¬ Along headDir head c) ∧
      rest.Pairwise (Along dir) ∧
      e.headMoveSum = d.headMoveSum +
        (mirrored dir (rest.getLastD d.cylinderHead) - mirrored dir d.cylinderHead) := by
  rcases sweep_all dir h onDisk_iff (Int.le_refl 0) (by lia) (by decide) hstart with
    ⟨e, hsweep, he, hclear⟩
  rcases sweep_some hsweep with ⟨rest, hmoved, hsorted, hmem⟩
  have hboth : e.served = first ++ rest := by
    rw [hmoved.served, hserved]
  have hperm := he.toBalanced.perm (idle_of_between hclear) hreq
  rw [hboth] at hperm
  rcases split_perm hfirst hdone hperm with ⟨hone, htwo⟩
  refine ⟨e, rest, hsweep, hboth, hone, htwo, hsorted, ?_⟩
  rw [hmoved.total, hpre, travel_sorted hsorted fun c hc => (hmem c hc).right]

/-!
# The algorithms
-/

theorem scan_order_and_total (cylinders : Int -> Int) (req : List Int) (head headDir : Int)
    (hreq : forall c, c ∈ req -> InRange c) (hhead : InRange head) :
    exists d, scan cylinders req head headDir = some d ∧
      InLookOrder req head headDir d.served ∧ ScanTotal req head headDir d.headMoveSum := by
  rcases @firstScan_run req head headDir cylinders hreq hhead with
    ⟨d, e, first, hstart, hfirst, hend⟩
  have hhead_end : (toEnd e).cylinderHead = if flip headDir = 0 then cylinderNum - 1 else 0 :=
    hend.head_end.trans (diskEnd_flip headDir)
  rcases secondSweep_run hreq hend.pending hend.served hend.ahead hend.done hhead_end
    (hend.pre_end.trans hend.head_end.symm) with
    ⟨f, rest, hsecond, hserved, hone, htwo, hsorted, htotal⟩
  have hrun : scan cylinders req head headDir = some f := by
    unfold scan
    rw [hstart, Option.bind_some, hfirst, Option.bind_some, hsecond]
  rw [hend.total, hend.head_end, mirrored_flip, mirrored_flip, mirrored_diskEnd] at htotal
  refine ⟨f, hrun, ⟨first, rest, hserved, hone, hend.sorted, htwo, hsorted⟩, ?_, ?_⟩
  · intro hnone
    rw [rest_eq_nil htwo hnone, List.getLastD_nil, mirrored_diskEnd] at htotal
    lia
  · intro m hm hbehind hleast
    rw [rest_last_back htwo hsorted hm hbehind hleast] at htotal
    lia

theorem cScan_order_and_total (cylinders : Int -> Int) (req : List Int) (head headDir : Int)
    (hreq : forall c, c ∈ req -> InRange c) (hhead : InRange head) :
    exists d, cScan cylinders req head headDir = some d ∧
      InCScanOrder req head headDir d.served ∧ CScanTotal req head headDir d.headMoveSum := by
  rcases @firstScan_run req head headDir cylinders hreq hhead with
    ⟨d, e, first, hstart, hfirst, hend⟩
  have hin : InRange (toEnd e).cylinderHead := by
    rw [hend.head_end]
    exact diskEnd_inRange headDir
  rcases jumpEnd_run hin with ⟨f, hjump, hcells, hsame, hother, hpre, hcounted⟩
  rw [hend.head_end] at hother hpre
  rcases secondSweep_run hreq (hend.pending.congr hcells hsame) (hsame.trans hend.served)
    hend.ahead hend.done (hother.trans (otherEnd_diskEnd headDir)) (hpre.trans hother.symm) with
    ⟨g, rest, hsecond, hserved, hone, htwo, hsorted, htotal⟩
  have hrun : cScan cylinders req head headDir = some g := by
    unfold cScan
    rw [hstart, Option.bind_some, hfirst, Option.bind_some, hjump, Option.bind_some, hsecond]
  have hzero : mirrored headDir (otherEnd (diskEnd headDir)) = 0 := by
    rw [otherEnd_diskEnd]
    unfold mirrored
    split
    · exact Int.sub_self _
    · rfl
  rw [hcounted, hend.total, hother, hzero] at htotal
  refine ⟨g, hrun, ⟨first, rest, hserved, hone, hend.sorted, htwo, hsorted⟩, ?_, ?_⟩
  · intro hnone
    rw [rest_eq_nil htwo hnone, List.getLastD_nil, hzero] at htotal
    lia
  · intro m hm hbehind hgreatest
    rw [rest_last_forth htwo hsorted hm hbehind hgreatest] at htotal
    lia

theorem sweeps_order_and_total (cylinders : Int -> Int) (req : List Int) (head headDir : Int)
    (hreq : forall c, c ∈ req -> InRange c) (hhead : InRange head) :
    (exists d, scan cylinders req head headDir = some d ∧
      InLookOrder req head headDir d.served ∧ ScanTotal req head headDir d.headMoveSum) ∧
    exists d, cScan cylinders req head headDir = some d ∧
      InCScanOrder req head headDir d.served ∧ CScanTotal req head headDir d.headMoveSum :=
  ⟨scan_order_and_total cylinders req head headDir hreq hhead,
    cScan_order_and_total cylinders req head headDir hreq hhead⟩

theorem sweeps_order_and_total_eight : InRange 53 ∧
    (exists d, scan (fun _ => 7) eightRequests 53 0 = some d ∧
      InLookOrder eightRequests 53 0 d.served ∧ ScanTotal eightRequests 53 0 d.headMoveSum) ∧
    exists d, cScan (fun _ => 7) eightRequests 53 0 = some d ∧
      InCScanOrder eightRequests 53 0 d.served ∧ CScanTotal eightRequests 53 0 d.headMoveSum := by
  have hhead : InRange 53 := by decide
  exact ⟨hhead, sweeps_order_and_total (fun _ => 7) eightRequests 53 0 (by decide) hhead⟩

end Disk
end OsLabs
