import OsLabs.Memory.BootCheck

/-!
# Writing while the kernel's map grows

`entry.S` maps the first four megabytes at `KERNBASE`, and `boot_map_segment` maps the rest page
by page.  The tables that it needs on the way are cleared and filled at their kernel addresses,
so each of them has to lie in what is mapped when it is made.
-/

namespace OsLabs
namespace Memory

open Foundation
open Foundation.Block
open VmState

/-- A frame can be written to at the address that the kernel has for it. -/
def reaches (s : VmState) (cr3 frame : Nat) : Bool :=
  decide (translate s cr3 true (page2kva frame) = some (frame, 0))

/-- `get_pte` with its writes, which go to the directory and to the table that it clears, and
with those of its caller to the entry; `none` also for a page fault. -/
def getPteMapped (s : VmState) (pgdir : Nat) (la : BitVec 32) (create : Bool) :
    Option (VmState × Option EntryPtr) :=
  match getPte s pgdir la create with
  | none => none
  | some (t, none) => some (t, none)
  | some (t, some ptep) =>
      if reaches s pgdir pgdir && reaches s pgdir ptep.frame then some (t, some ptep) else none

/-- The loop of `boot_map_segment` with its writes. -/
def bootMapLoopMapped (pgdir : Nat) (perm : BitVec 32) :
    Nat -> BitVec 32 -> BitVec 32 -> VmState -> Option VmState
  | 0, _, _, s => some s
  | n + 1, la, pa, s =>
      match getPteMapped s pgdir la true with
      | none => none
      | some (_, none) => none
      | some (s, some ptep) =>
          bootMapLoopMapped pgdir perm n (la + 4096#32) (pa + 4096#32)
            (s.store ptep (pa ||| PTE_P ||| perm))

def bootMapSegmentMapped (s : VmState) (pgdir : Nat) (la size pa perm : BitVec 32) :
    Option VmState :=
  if pgoff la = pgoff pa then
    let n := roundUp (size + pgoff la) / 4096#32
    bootMapLoopMapped pgdir perm n.toNat (roundDown la) (roundDown pa) s
  else none

/-- `boot_map_segment(boot_pgdir, KERNBASE, KMEMSIZE, 0, PTE_W)`. -/
def mapKernelMapped (s : VmState) (pgdir : Nat) : Option VmState :=
  bootMapSegmentMapped s pgdir (BitVec.ofNat 32 KERNBASE) (BitVec.ofNat 32 KMEMSIZE) 0#32 PTE_W

/-- `check_pgdir` with its writes, which all go to the directory and to the table that its first
`page_insert` makes. -/
def checkPgdirMapped (s : VmState) (pgdir : Nat) : Option VmState := do
  let (t, _) <- allocUsed s
  let _ <- getPteMapped t pgdir 0#32 true
  checkPgdir s pgdir

theorem getPte_of_mapped {s t : VmState} {d : Nat} {la : BitVec 32} {create : Bool}
    {ptep : EntryPtr} (h : getPteMapped s d la create = some (t, some ptep)) :
    getPte s d la create = some (t, some ptep) := by
  unfold getPteMapped at h
  split at h
  · cases h
  · cases h
  · rename_i hget
    split at h
    · cases h
      exact hget
    · cases h

/-!
# Frames that come early enough
-/

/-- By the time that table `i` is made, from table `k` on, there are enough of the frames below
its window. -/
def LowFrom (k : Nat) (frames : Set Nat) : Prop :=
  forall i, k ≤ i -> i < 224 -> i + 1 ≤ k + (frames ∩ Set.Iio (1024 * i)).ncard

section Low

variable {frames : Set Nat} {k p n : Nat}

theorem ncard_low_remove (hfin : frames.Finite) (hp : p ∈ frames) (hlow : p < n) :
    ((frames \ {p}) ∩ Set.Iio n).ncard + 1 = (frames ∩ Set.Iio n).ncard := by
  have heq : (frames \ {p}) ∩ Set.Iio n = (frames ∩ Set.Iio n) \ {p} := by
    ext q
    simp only [Set.mem_inter_iff, Set.mem_sdiff, Set.mem_Iio]
    tauto
  rw [heq]
  exact Set.ncard_sdiff_singleton_add_one ⟨hp, hlow⟩ (hfin.subset Set.inter_subset_left)

theorem exists_low (hcount : 1 ≤ (frames ∩ Set.Iio n).ncard) : exists p, p ∈ frames ∧ p < n := by
  rcases Set.nonempty_of_ncard_ne_zero (Nat.ne_of_gt hcount) with ⟨p, hp, hlow⟩
  exact ⟨p, hp, hlow⟩

theorem two_low_iff {q : Nat} (hfin : frames.Finite) (hp : IsLeast frames p)
    (hq : IsLeast (frames \ {p}) q) (n : Nat) :
    2 ≤ (frames ∩ Set.Iio n).ncard <-> q < n := by
  constructor
  · intro htwo
    rcases exists_low (show 1 ≤ (frames ∩ Set.Iio n).ncard by omega) with ⟨x, hx, hxlow⟩
    have hremove := ncard_low_remove hfin hp.left ((hp.right hx).trans_lt hxlow)
    rcases exists_low (show 1 ≤ ((frames \ {p}) ∩ Set.Iio n).ncard by omega) with ⟨y, hy, hylow⟩
    exact (hq.right hy).trans_lt hylow
  · intro hlow
    have hpq := hp.right hq.left.left
    have hne : p ≠ q := fun heq => hq.left.right heq.symm
    have hpin : p ∈ frames ∩ Set.Iio n := ⟨hp.left, hpq.trans_lt hlow⟩
    have hqin : q ∈ frames ∩ Set.Iio n := ⟨hq.left.left, hlow⟩
    rw [← Set.ncard_pair hne]
    exact Set.ncard_le_ncard (Set.insert_subset hpin (Set.singleton_subset_iff.mpr hqin))
      (hfin.subset Set.inter_subset_left)

theorem lowFrom_remove (hfin : frames.Finite) (hp : p ∈ frames) (hlow : p < 1024 * k) :
    LowFrom k frames <-> LowFrom (k + 1) (frames \ {p}) := by
  have hremove : forall i, k ≤ i -> ((frames \ {p}) ∩ Set.Iio (1024 * i)).ncard + 1 =
      (frames ∩ Set.Iio (1024 * i)).ncard := by
    intro i hi
    exact ncard_low_remove hfin hp (by omega)
  constructor
  · intro h i hi hlast
    have hcount := h i (by omega) hlast
    have hrest := hremove i (by omega)
    omega
  · intro h i hi hlast
    have hrest := hremove i hi
    rcases Nat.lt_or_ge k i with hlt | hge
    · have hcount := h i hlt hlast
      omega
    · omega

end Low

variable {dom : Set Nat} {d i j k n p page : Nat} {s t : VmState} {la pa perm : BitVec 32}

/-!
# One round
-/

/-- Where the loop stands after `j` rounds, with `k` tables made or found: what is mapped of the
kernel's window, and that the tables lie in it. -/
structure MappedTo (dom : Set Nat) (d j k : Nat) (s : VmState) : Prop where
  sound : TablesSound tableIndex dom d s (listedBlocks s.pmm)
  ascending : Ascending (listedBlocks s.pmm)
  writable : DirWritable d s
  window : forall page, page < KMEMSIZE / 4096 -> view s d (keyOf (page2kva page)) =
    if page < max 1024 j then some (page, PTE_P ||| PTE_W) else none
  present_iff : forall i, i < 224 -> (present (pde s d (768 + i)) = true <-> i < k)
  table_low : forall i, i < k -> tableOf s d (768 + i) < max 1024 j
  dir_low : d < 1024

theorem keyOf_page2kva (hpage : page < KMEMSIZE / 4096) :
    keyOf (page2kva page) = (768 + page / 1024, page % 1024) := by
  have hvalue := page2kva_toNat hpage
  have hKERNBASE : KERNBASE = 0xC0000000 := rfl
  unfold keyOf
  rw [pdx_eq, ptx_eq, hvalue, hKERNBASE]
  apply Prod.ext
  · simp only
    omega
  · simp only
    omega

theorem reaches_iff (hdir : DirWritable d s)
    (hwindow : view s d (keyOf (page2kva page)) =
      if page < n then some (page, PTE_P ||| PTE_W) else none)
    (hpage : page < KMEMSIZE / 4096) : reaches s d page = true <-> page < n := by
  have hoffset : (page2kva page).toNat % 4096 = 0 := by
    have hKERNBASE : KERNBASE = 0xC0000000 := rfl
    rw [page2kva_toNat hpage, hKERNBASE]
    omega
  unfold reaches
  rw [decide_eq_true_iff, translate_view hdir, hwindow]
  split
  · rename_i hlow
    unfold walked
    simp only
    rw [if_pos (by rw [Bool.or_eq_true]; exact Or.inr rfl), hoffset]
    exact ⟨fun _ => hlow, fun _ => rfl⟩
  · rename_i hhigh
    constructor
    · intro hbad
      cases hbad
    · intro hlow
      exact absurd hlow hhigh

/-- Where a table is missing it is made in a free frame, if the kernel can write to the frame. -/
theorem TablesSound.getPteMapped_makes_table {editable : Nat -> Bool} {bs : List Block}
    (h : TablesSound editable dom d s bs) (habsent : present (pde s d (pdx la)) = false)
    (hdir : reaches s d d = true) :
    (getPteMapped s d la true = some (s, none) ∧ cover bs = ∅) ∨
    (exists pmm p bs', p ∈ cover bs ∧ Represents pmm dom bs' ∧ pmm.npage = s.pmm.npage ∧
      cover bs' = cover bs \ {p} ∧ (Ascending bs -> Ascending bs' ∧ IsLeast (cover bs) p) ∧
      getPteMapped s d la true = if reaches s d p
        then some (OsLabs.Memory.withTable s pmm d (pdx la) p,
          some (entryPtr (OsLabs.Memory.withTable s pmm d (pdx la) p) d (keyOf la)))
        else none) := by
  unfold getPteMapped
  rcases h.getPte_makes_table habsent with hnone | hmade
  · left
    rw [hnone.left]
    exact ⟨rfl, hnone.right.left⟩
  · right
    rcases hmade with ⟨pmm, p, bs', hp, hrep, hnpage, hcover, _, horder, _, hget⟩
    have hframe : (entryPtr (OsLabs.Memory.withTable s pmm d (pdx la) p) d (keyOf la)).frame =
        p := by
      unfold entryPtr keyOf
      simp only
      rw [tableOf_withTable (h.free_ne_dir hp) (h.page_lt (h.free_lt hp)), if_pos rfl]
    refine ⟨pmm, p, bs', hp, hrep, hnpage, hcover, horder, ?_⟩
    rw [hget]
    simp only
    rw [hframe, hdir, Bool.true_and]

namespace MappedTo

theorem reaches_iff (h : MappedTo dom d j k s) (hpage : page < KMEMSIZE / 4096) :
    reaches s d page = true <-> page < max 1024 j :=
  OsLabs.Memory.reaches_iff h.writable (h.window page hpage) hpage

theorem reaches_dir (h : MappedTo dom d j k s) : reaches s d d = true :=
  (h.reaches_iff (h.sound.dir_lt.trans_le h.sound.npage_le)).mpr
    (h.dir_low.trans_le (Nat.le_max_left _ _))

theorem kernelIndex (hj : j < 229376) : tableIndex (768 + j / 1024) = true := by
  rw [tableIndex_iff]
  unfold NPDEENTRY selfIndex
  omega

/-- The table of page `j` is there: it is found, and entry `j` is written. -/
theorem found (h : MappedTo dom d j k s) (hj : j < 229376) (hthere : j < 1024 * k) :
    getPteMapped s d (page2kva j) true = some (s, some (entryPtr s d (keyOf (page2kva j)))) := by
  have hkey := keyOf_page2kva (show j < KMEMSIZE / 4096 from hj)
  have hpdx : pdx (page2kva j) = 768 + j / 1024 := congrArg Prod.fst hkey
  have hindex : tableIndex (768 + j / 1024) = true := kernelIndex hj
  have hpresent : present (pde s d (768 + j / 1024)) = true :=
    (h.present_iff _ (by omega)).mpr (by omega)
  have hlt : tableOf s d (768 + j / 1024) < s.pmm.npage :=
    h.sound.table_lt _ (h.sound.isTable_tableOf hindex hpresent)
  have hlow : tableOf s d (768 + j / 1024) < max 1024 j := h.table_low _ (by omega)
  have hreaches := (h.reaches_iff (hlt.trans_le h.sound.npage_le)).mpr hlow
  have hget := getPte_of_lt (page2kva j) true (by rw [hpdx]; exact hpresent)
    (by rw [hpdx]; exact hlt)
  unfold getPteMapped
  rw [hget]
  simp only
  have hframe : (entryPtr s d (keyOf (page2kva j))).frame = tableOf s d (768 + j / 1024) := by
    unfold entryPtr
    rw [hkey]
  rw [hframe, h.reaches_dir, hreaches]
  rfl

theorem stored (h : MappedTo dom d j k s) (hj : j < 229376) (hthere : j < 1024 * k) :
    MappedTo dom d (j + 1) k
      (s.store (entryPtr s d (keyOf (page2kva j))) (page2pa j ||| PTE_P ||| PTE_W)) := by
  have hkey := keyOf_page2kva (show j < KMEMSIZE / 4096 from hj)
  have hindex : tableIndex (keyOf (page2kva j)).fst = true := by
    rw [hkey]
    exact kernelIndex hj
  have hpresent : present (pde s d (keyOf (page2kva j)).fst) = true := by
    rw [hkey]
    exact (h.present_iff _ (by omega)).mpr (by omega)
  have hpde := h.sound.pde_store hindex hpresent (page2pa j ||| PTE_P ||| PTE_W)
  constructor
  · exact h.sound.store hindex hpresent _
  · exact h.ascending
  · exact h.writable.congr hpde
  · intro page hpage
    have hkernel := kernelKey hpage
    unfold view
    rw [h.sound.leaf_store hindex hpresent _ (pdx_lt _) (kernelIndex_ne_self hkernel)]
    by_cases heq : page = j
    · rw [if_pos (by rw [heq]), if_pos (by omega), heq]
      exact decode_leafEntry (by unfold KMEMSIZE at hpage; omega) (by decide)
    · have hne : keyOf (page2kva page) ≠ keyOf (page2kva j) := by
        rw [hkey, keyOf_page2kva hpage]
        intro hsame
        have hfst := congrArg Prod.fst hsame
        have hsnd := congrArg Prod.snd hsame
        simp only at hfst hsnd
        omega
      rw [if_neg hne]
      have hwindow := h.window page hpage
      unfold view at hwindow
      rw [hwindow]
      congr 1
      apply propext
      omega
  · intro i hi
    rw [hpde]
    exact h.present_iff i hi
  · intro i hi
    unfold tableOf
    rw [hpde]
    have hlow : tableOf s d (768 + i) < max 1024 j := h.table_low i hi
    unfold tableOf at hlow
    omega
  · exact h.dir_low

/-- The table of page `j` is not there: the least free frame becomes the table if it is mapped,
and otherwise the kernel faults or finds no page. -/
theorem made (h : MappedTo dom d j k s) (hj : j = 1024 * k) (hpos : 0 < k) (hlast : k < 224) :
    (exists p t, p ∈ freePagesOf s ∧ p < 1024 * k ∧ freePagesOf t = freePagesOf s \ {p} ∧
      MappedTo dom d j (k + 1) t ∧ getPteMapped s d (page2kva j) true =
        some (t, some (entryPtr t d (keyOf (page2kva j))))) ∨
    ((forall p, p ∈ freePagesOf s -> 1024 * k ≤ p) ∧
      forall t ptep, getPteMapped s d (page2kva j) true ≠ some (t, some ptep)) := by
  have hkey := keyOf_page2kva (show j < KMEMSIZE / 4096 by unfold KMEMSIZE; omega)
  have hpdx : pdx (page2kva j) = 768 + k := by
    have hfst : pdx (page2kva j) = 768 + j / 1024 := congrArg Prod.fst hkey
    omega
  have hself : pdx (page2kva j) ≠ selfIndex := by
    rw [hpdx]
    unfold selfIndex
    omega
  have habsent : present (pde s d (pdx (page2kva j))) = false := by
    rw [hpdx, ← Bool.not_eq_true, h.present_iff k hlast]
    exact Nat.lt_irrefl k
  rcases h.sound.getPteMapped_makes_table habsent h.reaches_dir with hnone | hmade
  · right
    constructor
    · intro p hp
      unfold freePagesOf at hp
      rw [hnone.right] at hp
      cases hp
    · intro t ptep hbad
      rw [hnone.left] at hbad
      cases hbad
  · rcases hmade with ⟨pmm, p, bs', hp, hrep, hnpage, hcover, horder, hmapped⟩
    have hlisted : listedBlocks pmm = bs' := hrep.listedBlocks_eq
    have hpd := h.sound.free_ne_dir hp
    have hplt := (h.sound.free_lt hp).trans_le h.sound.npage_le
    have hp20 := h.sound.page_lt (h.sound.free_lt hp)
    have hmax : max 1024 j = 1024 * k := by omega
    have hreaches := h.reaches_iff hplt
    rw [hmax] at hreaches
    rw [hmapped]
    by_cases hlow : p < 1024 * k
    · left
      rw [if_pos (hreaches.mpr hlow)]
      refine ⟨p, _, hp, hlow, ?_, ?_, rfl⟩
      · change cover (listedBlocks pmm) = _
        rw [hlisted]
        exact hcover
      · constructor
        · change TablesSound tableIndex dom d _ (listedBlocks pmm)
          rw [hlisted]
          exact h.sound.withTable (pdx_lt _) hself habsent hp hrep hnpage hcover
        · change Ascending (listedBlocks pmm)
          rw [hlisted]
          exact (horder h.ascending).left
        · intro i hi hpresent
          rw [pde_withTable hpd] at hpresent ⊢
          split
          · exact tableEntry_writable _
          · rename_i hne
            rw [if_neg hne] at hpresent
            exact h.writable i hi hpresent
        · intro page hpage
          unfold view
          rw [h.sound.leaf_withTable hp habsent (pdx_lt _)
            (kernelIndex_ne_self (kernelKey hpage))]
          exact h.window page hpage
        · intro i hi
          rw [present_withTable hpd, hpdx, h.present_iff i hi]
          omega
        · intro i hi
          rw [tableOf_withTable hpd hp20, hpdx]
          split
          · omega
          · exact h.table_low i (by omega)
        · exact h.dir_low
    · right
      rw [if_neg (fun hbad => hlow (hreaches.mp hbad))]
      constructor
      · intro q hq
        exact (Nat.le_of_not_lt hlow).trans ((horder h.ascending).right.right hq)
      · intro t ptep hbad
        cases hbad

end MappedTo

/-!
# The whole loop
-/

theorem page2kva_next (hj : j + 1 < 229376) : page2kva j + 4096#32 = page2kva (j + 1) := by
  have hKERNBASE : KERNBASE = 0xC0000000 := rfl
  apply BitVec.eq_of_toNat_eq
  rw [BitVec.toNat_add, page2kva_toNat (by unfold KMEMSIZE; omega),
    page2kva_toNat (by unfold KMEMSIZE; omega), hKERNBASE]
  change (j * 4096 + 0xC0000000 + 4096) % 2 ^ 32 = _
  omega

theorem page2pa_next (hj : j + 1 < 229376) : page2pa j + 4096#32 = page2pa (j + 1) := by
  apply BitVec.eq_of_toNat_eq
  rw [BitVec.toNat_add, page2pa_toNat (by omega), page2pa_toNat (by omega)]
  change (j * 4096 + 4096) % 2 ^ 32 = _
  omega

/-- The rounds that are left succeed exactly when the free frames come early enough for the
tables that are left. -/
theorem MappedTo.loop_iff (h : MappedTo dom d j k s) (hend : j + n = 229376) (hpos : 0 < k)
    (hupper : j ≤ 1024 * k) (hlower : k = 1 ∨ 1024 * k < j + 1024)
    (hla : 0 < n -> la = page2kva j) (hpa : 0 < n -> pa = page2pa j) :
    (exists t, bootMapLoopMapped d PTE_W n la pa s = some t) <-> LowFrom k (freePagesOf s) := by
  induction n generalizing j k s la pa with
  | zero =>
      constructor
      · intro _ i hi hlast
        omega
      · exact fun _ => ⟨s, rfl⟩
  | succ n ih =>
      rw [hla (Nat.succ_pos n), hpa (Nat.succ_pos n)]
      have hj : j < 229376 := by omega
      unfold bootMapLoopMapped
      rcases Nat.lt_or_ge j (1024 * k) with hthere | habsent
      · rw [h.found hj hthere]
        simp only
        exact ih (h.stored hj hthere) (by omega) hpos (by omega) (by omega)
          (fun _ => page2kva_next (by omega)) (fun _ => page2pa_next (by omega))
      · have heq : j = 1024 * k := by omega
        rcases h.made heq hpos (by omega) with hmade | hfails
        · rcases hmade with ⟨p, t, hp, hlow, hfree, ht, hget⟩
          have hnext := ht.stored hj (by omega)
          rw [hget, lowFrom_remove (freePagesOf_finite s) hp hlow, ← hfree]
          simp only
          exact ih hnext (by omega) (Nat.succ_pos k) (by omega) (by omega)
            (fun _ => page2kva_next (by omega)) (fun _ => page2pa_next (by omega))
        · have hnone : forall t, (match getPteMapped s d (page2kva j) true with
              | none => none
              | some (_, none) => none
              | some (s, some ptep) => bootMapLoopMapped d PTE_W n (page2kva j + 4096#32)
                  (page2pa j + 4096#32) (s.store ptep (page2pa j ||| PTE_P ||| PTE_W))) ≠
              some t := by
            intro t hbad
            split at hbad
            · cases hbad
            · cases hbad
            · rename_i hget
              exact hfails.right _ _ hget
          constructor
          · rintro ⟨t, ht⟩
            exact absurd ht (hnone t)
          · intro hlow
            have hcount := hlow k (Nat.le_refl k) (by omega)
            have hsome : 1 ≤ (freePagesOf s ∩ Set.Iio (1024 * k)).ncard := by omega
            rcases exists_low hsome with ⟨p, hp, hplow⟩
            have hhigh := hfails.left p hp
            omega

theorem bootMapLoop_of_mapped (h : bootMapLoopMapped d perm n la pa s = some t) :
    bootMapLoop d perm n la pa s = some t := by
  induction n generalizing s la pa with
  | zero => exact h
  | succ n ih =>
      unfold bootMapLoopMapped at h
      unfold bootMapLoop
      split at h
      · cases h
      · cases h
      · rename_i s1 ptep hget
        have hplain : getPte s d la true = some (s1, some ptep) := getPte_of_mapped hget
        rw [hplain]
        exact ih h

theorem mapKernelMapped_eq (s : VmState) (d : Nat) : mapKernelMapped s d =
    bootMapLoopMapped d PTE_W 229376 (BitVec.ofNat 32 KERNBASE) 0#32 s := by
  have hpages : (roundUp (BitVec.ofNat 32 KMEMSIZE + pgoff (BitVec.ofNat 32 KERNBASE)) /
      4096#32).toNat = 229376 := by decide
  have hstart : roundDown (BitVec.ofNat 32 KERNBASE) = BitVec.ofNat 32 KERNBASE := by decide
  have hframe : roundDown 0#32 = 0#32 := by decide
  unfold mapKernelMapped bootMapSegmentMapped
  rw [if_pos (by decide)]
  simp only
  rw [hpages, hstart, hframe]

theorem mapKernel_of_mapped (h : mapKernelMapped s d = some t) : mapKernel s d = some t := by
  rw [mapKernelMapped_eq] at h
  rw [mapKernel_eq]
  exact bootMapLoop_of_mapped h

/-!
# The directory of `entry.S`
-/

/-- The directory and the table that the kernel starts with lie in the four megabytes that they
map, and map nothing else. -/
structure FirstMapped (d : Nat) (s : VmState) : Prop where
  window : forall page, page < KMEMSIZE / 4096 -> view s d (keyOf (page2kva page)) =
    if page < 1024 then some (page, PTE_P ||| PTE_W) else none
  dir_low : d < 1024
  table_low : tableOf s d 768 < 1024

theorem BootDir.dirWritable (h : BootDir dom d s) : DirWritable d s := by
  intro i _ hpresent
  by_cases hself : i = selfIndex
  · rw [hself] at hpresent ⊢
    rcases h.self with hzero | hset
    · rw [hzero] at hpresent
      cases hpresent
    · rw [hset, and_flag (show 0xFFF#32 &&& PTE_W = PTE_W from rfl),
        flagBits_page2pa_or h.dir_lt_two_pow (by decide)]
      decide
  · rw [h.present_eq hself hpresent]
    exact h.first_writable

theorem BootDir.mappedTo (h : BootDir dom d s) (hasc : Ascending (listedBlocks s.pmm))
    (hfirst : FirstMapped d s) : MappedTo dom d 0 1 s := by
  constructor
  · exact h.sound
  · exact hasc
  · exact h.dirWritable
  · exact hfirst.window
  · intro i hi
    constructor
    · intro hpresent
      have hne : 768 + i ≠ selfIndex := by
        unfold selfIndex
        omega
      have heq := h.present_eq hne hpresent
      omega
    · intro hi
      rw [Nat.lt_one_iff.mp hi]
      exact h.first_present
  · intro i hi
    rw [Nat.lt_one_iff.mp hi]
    exact hfirst.table_low
  · exact hfirst.dir_low

/-- The kernel's map can be made exactly when there is a free frame below each table's own
window for it, and one more for each table before it. -/
theorem BootDir.mapKernelMapped_iff (h : BootDir dom d s)
    (hasc : Ascending (listedBlocks s.pmm)) (hfirst : FirstMapped d s) :
    (exists t, mapKernelMapped s d = some t) <-> LowFrom 1 (freePagesOf s) := by
  rw [mapKernelMapped_eq]
  apply (h.mappedTo hasc hfirst).loop_iff (by omega) Nat.one_pos (Nat.zero_le _) (Or.inl rfl)
  · intro _
    decide
  · intro _
    decide

theorem FirstMapped.reaches_iff (h : FirstMapped d s) (hdir : DirWritable d s)
    (hpage : page < KMEMSIZE / 4096) : reaches s d page = true <-> page < 1024 :=
  OsLabs.Memory.reaches_iff hdir (h.window page hpage) hpage

theorem FirstMapped.of_mem (h : FirstMapped d s) (hmem : t.mem = s.mem) : FirstMapped d t where
  window page hpage := by
    rw [← h.window page hpage]
    unfold view leaf tableOf pde load
    rw [hmem]
  dir_low := h.dir_low
  table_low := by
    have hlow := h.table_low
    unfold tableOf pde load at hlow ⊢
    rw [hmem]
    exact hlow

theorem FirstMapped.restored (h : FirstMapped d s) (hrestored : Restored dom d s t) :
    FirstMapped d t where
  window page hpage := by
    rw [hrestored.view_eq _ (pdx_lt _)]
    exact h.window page hpage
  dir_low := h.dir_low
  table_low := by
    unfold tableOf
    rw [hrestored.pde_eq]
    exact h.table_low

theorem BootDir.firstMapped_withSelf (h : BootDir dom d s) (hfirst : FirstMapped d s) :
    FirstMapped d
      (s.store (EntryPtr.mk d selfIndex) (page2pa d ||| (PTE_P ||| PTE_W))) := by
  have hpde : forall i, i ≠ selfIndex ->
      pde (s.store (EntryPtr.mk d selfIndex) (page2pa d ||| (PTE_P ||| PTE_W))) d i =
        pde s d i := fun _ => BootDir.pde_store_other s d _
  constructor
  · intro page hpage
    have hself := kernelIndex_ne_self (kernelKey hpage)
    rw [← hfirst.window page hpage]
    unfold view leaf tableOf
    rw [hpde _ hself]
    split
    · rename_i hpresent
      rw [load_store, if_neg]
      intro heq
      have htable : IsTable s d (tableOf s d (keyOf (page2kva page)).fst) :=
        ⟨_, pdx_lt _, hself, hpresent, rfl⟩
      exact h.sound.table_ne_dir _ htable (congrArg EntryPtr.frame heq)
    · rfl
  · exact hfirst.dir_low
  · unfold tableOf
    rw [hpde 768 (by decide)]
    exact hfirst.table_low

/-- The table of `check_pgdir` is made in the second free frame. -/
theorem BootDir.checkPgdirMapped_iff (h : BootDir dom d s)
    (hasc : Ascending (listedBlocks s.pmm)) (hfirst : FirstMapped d s) :
    checkPgdirMapped s d = some t <->
      checkPgdir s d = some t ∧ 2 ≤ (freePagesOf s ∩ Set.Iio 1024).ncard := by
  have hinv := h.booted.vmInv
  have hfin := freePagesOf_finite s
  have hzero : pde s d 0 = 0#32 := h.others 0 (by decide) (by decide)
  by_cases hsome : (freePagesOf s).Nonempty
  · rcases allocPage_takes hinv hsome with
      ⟨s1, p, halloc, hinv1, hp, hfree1, hmem, _, _, horder⟩
    rcases horder hasc with ⟨hasc1, hleast⟩
    have hpde : forall i, pde s1 d i = pde s d i := by
      intro i
      unfold pde load
      rw [hmem]
    have hfirst1 : FirstMapped d s1 := hfirst.of_mem hmem
    have hwritable1 : DirWritable d s1 := h.dirWritable.congr hpde
    have hdir : reaches s1 d d = true :=
      (hfirst1.reaches_iff hwritable1 (h.dir_lt.trans_le h.npage_le)).mpr hfirst1.dir_low
    have habsent : present (pde s1 d (pdx 0#32)) = false := by
      rw [hpde, show pdx 0#32 = 0 from rfl, hzero]
      rfl
    have hrest : checkPgdirMapped s d =
        (getPteMapped s1 d 0#32 true).bind fun _ => checkPgdir s d := by
      unfold checkPgdirMapped
      rw [allocUsed_of halloc]
      rfl
    rw [hrest]
    rcases hinv1.wellFormed.tables.getPteMapped_makes_table habsent hdir with hnone | hmade
    · -- there is no second page, so the test fails on its own
      have hfails : checkPgdir s d ≠ some t := by
        intro hrun
        have hthree := checkPgdir_free hinv hzero hrun
        have hcard := Set.ncard_sdiff_singleton_add_one hp hfin
        have hempty : freePagesOf s1 = ∅ := hnone.right
        rw [← hfree1, hempty, Set.ncard_empty] at hcard
        omega
      constructor
      · intro hrun
        rcases Option.bind_eq_some_iff.mp hrun with ⟨_, _, hlast⟩
        exact absurd hlast hfails
      · exact fun hboth => absurd hboth.left hfails
    · rcases hmade with ⟨pmm, q, bs', hq, _, _, _, hleast1, hmapped⟩
      have hqlt : q < KMEMSIZE / 4096 :=
        (hinv1.wellFormed.tables.free_lt hq).trans_le hinv1.wellFormed.npage_le
      have hleast2 : IsLeast (freePagesOf s1) q := (hleast1 hasc1).right
      rw [hfree1] at hleast2
      have hcount := two_low_iff hfin hleast hleast2 1024
      have hreaches := hfirst1.reaches_iff hwritable1 hqlt
      rw [hmapped, hcount]
      by_cases hlow : q < 1024
      · rw [if_pos (hreaches.mpr hlow), Option.bind_some]
        exact ⟨fun hrun => ⟨hrun, hlow⟩, fun hboth => hboth.left⟩
      · rw [if_neg (fun hbad => hlow (hreaches.mp hbad)), Option.bind_none]
        constructor
        · intro hbad
          cases hbad
        · exact fun hboth => absurd hboth.right hlow
  · rw [Set.not_nonempty_iff_eq_empty] at hsome
    have hnone : allocUsed s = none := by
      unfold allocUsed
      rw [allocPage_none hinv hsome]
    constructor
    · intro hrun
      unfold checkPgdirMapped at hrun
      rw [hnone] at hrun
      cases hrun
    · intro hboth
      have hcount := hboth.right
      rw [hsome, Set.empty_inter, Set.ncard_empty] at hcount
      omega

end Memory
end OsLabs
