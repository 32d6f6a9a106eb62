import OsLabs.Memory.BootWrites
import OsLabs.Memory.DefaultCheck

/-!
# Setting up the memory

`pmm_init` as a whole: the map of the BIOS becomes a free list, the three self tests pass, and
the directory gets its two windows.  Until it has the one at `KERNBASE`, what the kernel writes
to has to lie in the four megabytes that `entry.S` maps.
-/

namespace OsLabs
namespace Memory

open Foundation
open Foundation.Block
open VmState

/-- The kernel can write to the whole `pages` array, which begins behind the kernel. -/
def pagesReached (s : VmState) (cr3 : Nat) (kernelEnd npage : BitVec 32) : Bool :=
  let first := ppn (roundUp kernelEnd - BitVec.ofNat 32 KERNBASE)
  let frames := ((sizeofPage * npage).toNat + 4095) / 4096
  (List.range frames).all fun i => reaches s cr3 (first + i)

/-- What `pmm_init` does behind `check_alloc_page`.  The entry at `VPT` goes to the directory,
which `check_pgdir` has written to before. -/
def setupPaging (s : VmState) (pgdir : Nat) : Option VmState := do
  let s <- checkPgdirMapped s pgdir
  let pa <- paddr (page2kva pgdir)
  let s := s.store (EntryPtr.mk pgdir (pdx vpt)) (pa ||| PTE_P ||| PTE_W)
  let s <- mapKernelMapped s pgdir
  checkBootPgdir s pgdir

/-- `pmm_init`; the segments that `gdt_init` loads and the listing of `print_pgdir` at its end
leave the memory alone. -/
def pmmInit (memmap : E820map) (kernelEnd : BitVec 32) (pgdir : Nat) (s : VmState) :
    Option VmState := do
  let s := { s with pmm := defaultInit s.pmm }
  guard (pagesReached s pgdir kernelEnd (npageOf memmap.map))
  let (s, _) <- pageInit memmap kernelEnd s
  let pmm <- defaultCheck s.pmm
  setupPaging { s with pmm := pmm } pgdir

/-- The linker puts `__boot_pgdir` and `__boot_pt1` into the image of the kernel, which lies in
memory before `freemem` and in the four megabytes that `entry.S` maps. -/
structure InImage (memmap : E820map) (kernelEnd freemem : BitVec 32) (d pt : Nat) : Prop where
  linked : KERNBASE ≤ kernelEnd.toNat
  dir_lt : d < (npageOf memmap.map).toNat
  table_lt : pt < (npageOf memmap.map).toNat
  dir_before : d * 4096 < freemem.toNat
  table_before : pt * 4096 < freemem.toNat
  dir_low : d < 1024
  table_low : pt < 1024
  ne : d ≠ pt

variable {memmap : E820map} {kernelEnd freemem : BitVec 32} {d pt p : Nat} {s t : VmState}
  {pmm : PmmState} {dom : Set Nat} {bs : List Block}

/-!
# Up to the first self test
-/

theorem npageOf_le (map : List E820Entry) : (npageOf map).toNat ≤ KMEMSIZE / 4096 := by
  rw [npageOf_toNat, maxpaOf_toNat]
  exact Nat.div_le_div_right (Nat.min_le_right _ _)

theorem pageInit_eq (hsound : memmap.Sound)
    (hfree : freememOf kernelEnd (npageOf memmap.map) = some freemem)
    (hrun : initMemmaps (reservedPmm (npageOf memmap.map) s.pmm) (rangesOf freemem memmap.map) =
      some pmm) :
    pageInit memmap kernelEnd s = some ({ s with pmm := pmm }, rangesOf freemem memmap.map) := by
  have hbound : forall b, b ∈ rangesOf freemem memmap.map ->
      b.stop ≤ (reservedPmm (npageOf memmap.map) s.pmm).npage := by
    intro b hb
    rw [reservedPmm_npage]
    exact stop_le_npageOf hsound.nowrap hb
  unfold pageInit
  simp only [hfree]
  rw [memmapLoop_eq hsound.nowrap hbound, hrun]
  rfl

theorem initMemmaps_npage {s s' : PmmState} (h : initMemmaps s bs = some s') :
    s'.npage = s.npage := by
  induction bs generalizing s with
  | nil =>
      cases h
      rfl
  | cons b bs ih =>
      unfold initMemmaps at h
      split at h
      · cases h
      · rename_i s1 hcall
        rw [ih h, defaultInitMemmap_npage hcall]

theorem pde_bootMem (pmm : PmmState) (d pt i : Nat) :
    pde (VmState.mk pmm (bootMem d pt)) d i =
      if i = 768 then page2pa pt ||| (PTE_P ||| PTE_U ||| PTE_W) else 0#32 := by
  unfold pde load bootMem
  exact if_pos rfl

theorem pde_bootMem_zero {i : Nat} (pmm : PmmState) (hi : i ≠ 768) :
    pde (VmState.mk pmm (bootMem d pt)) d i = 0#32 := by
  rw [pde_bootMem, if_neg hi]

/-- `__boot_pt1` maps the first four megabytes. -/
theorem bootMem_firstMapped (pmm : PmmState) (hd : d < 1024) (hpt : pt < 1024) (hne : d ≠ pt) :
    FirstMapped d (VmState.mk pmm (bootMem d pt)) ∧
      DirWritable d (VmState.mk pmm (bootMem d pt)) := by
  have hpde : pde (VmState.mk pmm (bootMem d pt)) d 768 =
      page2pa pt ||| (PTE_P ||| PTE_U ||| PTE_W) := by
    rw [pde_bootMem, if_pos rfl]
  have htable : tableOf (VmState.mk pmm (bootMem d pt)) d 768 = pt := by
    unfold tableOf
    rw [hpde, ppn_page2pa_or (by omega) (by decide)]
  refine ⟨⟨?_, hd, ?_⟩, ?_⟩
  · intro page hpage
    rw [keyOf_page2kva hpage]
    unfold view
    by_cases hlow : page < 1024
    · have hfst : 768 + page / 1024 = 768 := by omega
      have hsnd : page % 1024 = page := by omega
      have hload : (VmState.mk pmm (bootMem d pt)).load (EntryPtr.mk pt page) =
          page2pa page ||| (PTE_P ||| PTE_W) := by
        unfold load bootMem
        simp only
        rw [if_neg hne.symm, if_pos True.intro]
      have hpresent : present (pde (VmState.mk pmm (bootMem d pt)) d 768) = true := by
        rw [hpde]
        exact present_or_right rfl
      rw [if_pos hlow, hfst, hsnd, leaf_of_present hpresent, htable, hload]
      unfold decode
      rw [if_pos (present_or_right rfl), ppn_page2pa_or (by omega) (by decide),
        flagBits_page2pa_or (by omega) (by decide)]
    · have hzero : pde (VmState.mk pmm (bootMem d pt)) d (768 + page / 1024) = 0#32 :=
        pde_bootMem_zero pmm (by omega)
      rw [if_neg hlow, leaf_of_absent]
      · rfl
      · change present (pde _ d (768 + page / 1024)) = false
        rw [hzero]
        rfl
  · rw [htable]
    exact hpt
  · intro i _ hpresent
    by_cases hi : i = 768
    · rw [hi, hpde, and_flag (show 0xFFF#32 &&& PTE_W = PTE_W from rfl),
        flagBits_page2pa_or (by omega) (by decide)]
      decide
    · rw [pde_bootMem_zero pmm hi] at hpresent
      cases hpresent

theorem InImage.not_usable (h : InImage memmap kernelEnd freemem d pt) :
    ¬ UsableFrame memmap.map freemem d ∧ ¬ UsableFrame memmap.map freemem pt := by
  constructor
  · intro hbad
    exact absurd hbad.right.left (Nat.not_le.mpr h.dir_before)
  · intro hbad
    exact absurd hbad.right.left (Nat.not_le.mpr h.table_before)

theorem InImage.bootDir (h : InImage memmap kernelEnd freemem d pt) (hrep : Represents pmm dom bs)
    (hdom : forall p, p ∈ dom <-> UsableFrame memmap.map freemem p) (hcover : cover bs = dom)
    (hnpage : pmm.npage = (npageOf memmap.map).toNat) :
    BootDir dom d (VmState.mk pmm (bootMem d pt)) := by
  have hle := npageOf_le memmap.map
  have hpt20 : pt < 2 ^ 20 := by
    have hlt := h.table_lt
    unfold KMEMSIZE at hle
    omega
  have htable : tableOf (VmState.mk pmm (bootMem d pt)) d 768 = pt := by
    unfold tableOf
    rw [pde_bootMem, if_pos rfl, ppn_page2pa_or hpt20 (by decide)]
  have hlisted : listedBlocks pmm = bs := hrep.listedBlocks_eq
  constructor
  · change Represents pmm dom (listedBlocks pmm)
    rw [hlisted]
    exact hrep
  · change pmm.npage ≤ _
    rw [hnpage]
    exact hle
  · change d < pmm.npage
    rw [hnpage]
    exact h.dir_lt
  · intro hbad
    exact h.not_usable.left ((hdom d).mp hbad)
  · change cover (listedBlocks pmm) = dom
    rw [hlisted, hcover]
  · rw [pde_bootMem, if_pos rfl]
    exact present_or_right rfl
  · rw [pde_bootMem, if_pos rfl, and_flag (show 0xFFF#32 &&& PTE_W = PTE_W from rfl),
      flagBits_page2pa_or hpt20 (by decide)]
    decide
  · rw [htable]
    change pt < pmm.npage
    rw [hnpage]
    exact h.table_lt
  · rw [htable]
    exact h.ne.symm
  · rw [htable]
    intro hbad
    exact h.not_usable.right ((hdom pt).mp hbad)
  · intro i hi _
    rw [pde_bootMem, if_neg hi]
  · left
    rw [pde_bootMem, if_neg (by decide)]

/-!
# From there to the end
-/

theorem Booted.restored (h : Booted dom d s) (hrestored : Restored dom d s t) :
    Booted dom d t := by
  have hinv := hrestored.inv
  have htab : forall q, IsTable t d q <-> IsTable s d q := isTable_congr hrestored.pde_eq
  constructor
  · exact hinv.represents
  · exact hinv.wellFormed.npage_le
  · exact hinv.wellFormed.dir_lt
  · exact h.dir_reserved
  · exact hinv.wellFormed.selfMap
  · intro i hi
    rw [hrestored.pde_eq]
    exact h.user_absent i hi
  · exact hinv.wellFormed.table_lt
  · exact hinv.wellFormed.table_ne_dir
  · exact hinv.wellFormed.table_used
  · intro q hq
    rw [hrestored.ref_eq]
    apply h.unreferenced
    refine ⟨hq.mem, ?_, fun ht => hq.notTable ((htab q).mpr ht)⟩
    intro hfree
    apply hq.used
    change q ∈ freePagesOf t
    rw [hrestored.free_eq]
    exact hfree

theorem BootDir.paddr_eq (h : BootDir dom d s) : paddr (page2kva d) = some (page2pa d) := by
  have hd : d < KMEMSIZE / 4096 := h.dir_lt.trans_le h.npage_le
  unfold paddr
  rw [if_neg (by rw [page2kva_toNat hd]; omega)]
  unfold page2kva
  rw [BitVec.add_sub_cancel]

/-- The table of the first test is made in the second usable frame, and each table of the
kernel's map in the next one; the frame has to be mapped by then. -/
def EnoughLow (frames : Set Nat) : Prop :=
  2 ≤ (frames ∩ Set.Iio 1024).ncard ∧
    forall i, 1 ≤ i -> i < 224 -> i ≤ (frames ∩ Set.Iio (1024 * i)).ncard

theorem lowFrom_one {frames : Set Nat} : LowFrom 1 frames <->
    forall i, 1 ≤ i -> i < 224 -> i ≤ (frames ∩ Set.Iio (1024 * i)).ncard := by
  unfold LowFrom
  constructor
  · intro h i hi hlast
    have hcount := h i hi hlast
    omega
  · intro h i hi hlast
    have hcount := h i hi hlast
    omega

/-- Three pages for the first test, 223 for the tables of the kernel and two more for the last
test. -/
theorem BootDir.setupPaging_passes (h : BootDir dom d s) (hasc : Ascending (listedBlocks s.pmm))
    (hfirst : FirstMapped d s) (hfree : 225 ≤ s.pmm.nrFree) (hlow : EnoughLow (freePagesOf s)) :
    exists t, setupPaging s d = some t ∧ Booted dom d t ∧ Paged d t ∧
      t.pmm.nrFree + 223 = s.pmm.nrFree := by
  have hinv := h.booted.vmInv
  have hzero : pde s d 0 = 0#32 := h.others 0 (by decide) (by decide)
  rcases checkPgdir_passes hinv hzero (by rw [← hinv.nrFree_eq]; omega) with
    ⟨s1, hcheck, hrestored1, hasc1⟩
  have hb1 := h.restored hrestored1
  have h1 := hb1.withSelf
  have hfirst1 := hb1.firstMapped_withSelf (hfirst.restored hrestored1)
  have hself : pde _ d selfIndex = page2pa d ||| (PTE_P ||| PTE_W) := BootDir.pde_store_self s1 d _
  have hcount1 := hrestored1.nrFree_eq
  rcases (h1.mapKernelMapped_iff (hasc1 hasc) hfirst1).mpr (by
    change LowFrom 1 (freePagesOf s1)
    rw [hrestored1.free_eq, lowFrom_one]
    exact hlow.right) with ⟨s2, hmap⟩
  rcases h1.mapKernel_spec hself (mapKernel_of_mapped hmap) with
    ⟨hbooted, hpaged, _, hcount2, hlow2⟩
  change s2.pmm.nrFree + 223 = s1.pmm.nrFree at hcount2
  have hinv2 := hbooted.vmInv
  rcases checkBootPgdir_passes hinv2 hpaged (hlow2 0 (by decide))
    (by rw [← hinv2.nrFree_eq]; omega) with ⟨t, hlast, hrestored2⟩
  refine ⟨t, ?_, hbooted.restored hrestored2, hpaged.restored hrestored2, ?_⟩
  · unfold setupPaging
    apply bind_step ((h.checkPgdirMapped_iff hasc hfirst).mpr ⟨hcheck, hlow.left⟩)
    apply bind_step h.paddr_eq
    rw [BitVec.or_assoc]
    apply bind_step hmap
    exact hlast
  · rw [hrestored2.nrFree_eq, hcount2, hcount1]

theorem BootDir.setupPaging_free (h : BootDir dom d s) (hasc : Ascending (listedBlocks s.pmm))
    (hfirst : FirstMapped d s) (hrun : setupPaging s d = some t) :
    225 ≤ s.pmm.nrFree ∧ EnoughLow (freePagesOf s) := by
  have hinv := h.booted.vmInv
  have hzero : pde s d 0 = 0#32 := h.others 0 (by decide) (by decide)
  unfold setupPaging at hrun
  rcases Option.bind_eq_some_iff.mp hrun with ⟨s1, hmapped, hrun⟩
  rcases Option.bind_eq_some_iff.mp hrun with ⟨pa, hpa, hrun⟩
  rcases Option.bind_eq_some_iff.mp hrun with ⟨s2, hmap, hlast⟩
  rw [h.paddr_eq] at hpa
  cases hpa
  rcases (h.checkPgdirMapped_iff hasc hfirst).mp hmapped with ⟨hcheck, htwo⟩
  rcases checkPgdir_passes hinv hzero (checkPgdir_free hinv hzero hcheck) with
    ⟨s1', hcheck', hrestored, hasc1⟩
  rw [hcheck] at hcheck'
  cases hcheck'
  have hb1 := h.restored hrestored
  have h1 := hb1.withSelf
  have hfirst1 := hb1.firstMapped_withSelf (hfirst.restored hrestored)
  rw [BitVec.or_assoc] at hmap
  have hlow : LowFrom 1 (freePagesOf s1) :=
    (h1.mapKernelMapped_iff (hasc1 hasc) hfirst1).mp ⟨s2, hmap⟩
  rcases h1.mapKernel_spec (BootDir.pde_store_self s1 d _) (mapKernel_of_mapped hmap) with
    ⟨hbooted, _, _, hcount, hlow2⟩
  change s2.pmm.nrFree + 223 = s1.pmm.nrFree at hcount
  have hlasts := checkBootPgdir_free hbooted.vmInv (hlow2 0 (by decide)) hlast
  rw [← hbooted.vmInv.nrFree_eq] at hlasts
  rw [hrestored.nrFree_eq] at hcount
  rw [hrestored.free_eq, lowFrom_one] at hlow
  exact ⟨by omega, htwo, hlow⟩

/-!
# The whole of it
-/

def usableFrames (map : List E820Entry) (freemem : BitVec 32) : Set Nat :=
  {p | UsableFrame map freemem p}

theorem cover_usable (map : List E820Entry) (freemem : BitVec 32) :
    cover (rangesOf freemem map) = usableFrames map freemem := by
  ext p
  exact mem_cover_rangesOf

theorem roundUp_linked (hlinked : KERNBASE ≤ kernelEnd.toNat) :
    (roundUp kernelEnd).toNat % 4096 = 0 ∧
      ((roundUp kernelEnd).toNat = 0 ∨ KERNBASE ≤ (roundUp kernelEnd).toNat) := by
  have hKERNBASE : KERNBASE = 0xC0000000 := rfl
  rcases Nat.lt_or_ge (kernelEnd.toNat + 4095) (2 ^ 32) with hroom | hwrap
  · rw [roundUp_toNat hroom]
    omega
  · -- the end of the last page is 0
    have hadd : (kernelEnd + 4096#32 - 1#32).toNat = kernelEnd.toNat + 4095 - 2 ^ 32 := by
      bv_omega
    unfold roundUp
    rw [roundDown_toNat, hadd]
    omega

theorem freememOf_linked {npage : BitVec 32} (hlinked : KERNBASE ≤ kernelEnd.toNat)
    (hnpage : npage.toNat ≤ KMEMSIZE / 4096) (hfree : freememOf kernelEnd npage = some freemem) :
    (roundUp kernelEnd).toNat % 4096 = 0 ∧ KERNBASE ≤ (roundUp kernelEnd).toNat ∧
      freemem.toNat = (roundUp kernelEnd).toNat - KERNBASE + (sizeofPage * npage).toNat := by
  have hKERNBASE : KERNBASE = 0xC0000000 := rfl
  have hrounded := roundUp_linked hlinked
  have hbound := (roundUp kernelEnd).isLt
  have hsmall : (sizeofPage * npage).toNat ≤ 4587520 := by
    have hproduct : 20 * npage.toNat ≤ 4587520 := by
      unfold KMEMSIZE at hnpage
      omega
    rw [BitVec.toNat_mul]
    exact (Nat.mod_le _ _).trans hproduct
  have hsum := BitVec.toNat_add (roundUp kernelEnd) (sizeofPage * npage)
  unfold freememOf paddr at hfree
  split at hfree
  · cases hfree
  · rename_i hhigh
    have hvalue : freemem.toNat =
        (roundUp kernelEnd + sizeofPage * npage).toNat - KERNBASE := by
      rw [← Option.some.inj hfree, BitVec.toNat_sub_of_le]
      · rfl
      · rw [BitVec.le_def]
        exact Nat.le_of_not_lt hhigh
    rw [hsum] at hhigh hvalue
    omega

/-- If a usable frame lies in the first four megabytes, so does the `pages` array before it. -/
theorem InImage.reaches_pages (h : InImage memmap kernelEnd freemem d pt)
    (hfree : freememOf kernelEnd (npageOf memmap.map) = some freemem)
    (hlow : freemem.toNat ≤ 1024 * 4096) (pmm : PmmState) :
    pagesReached (VmState.mk pmm (bootMem d pt)) d kernelEnd (npageOf memmap.map) = true := by
  rcases bootMem_firstMapped pmm h.dir_low h.table_low h.ne with ⟨hfirst, hdir⟩
  rcases freememOf_linked h.linked (npageOf_le memmap.map) hfree with ⟨haligned, hhigh, hvalue⟩
  have hpage : ppn (roundUp kernelEnd - BitVec.ofNat 32 KERNBASE) =
      ((roundUp kernelEnd).toNat - KERNBASE) / 4096 := by
    rw [ppn_eq, BitVec.toNat_sub_of_le]
    · rfl
    · rw [BitVec.le_def]
      exact hhigh
  unfold pagesReached
  rw [List.all_eq_true]
  intro i hi
  rw [List.mem_range] at hi
  rw [hpage]
  have hKERNBASE : KERNBASE = 0xC0000000 := rfl
  have hframe : ((roundUp kernelEnd).toNat - KERNBASE) / 4096 + i < 1024 := by omega
  have hmemory : ((roundUp kernelEnd).toNat - KERNBASE) / 4096 + i < KMEMSIZE / 4096 :=
    hframe.trans (by decide)
  exact (hfirst.reaches_iff hdir hmemory).mpr hframe

/-- What is left to do once the memory is detected. -/
theorem pmmInit_eq (hsound : memmap.Sound)
    (hfree : freememOf kernelEnd (npageOf memmap.map) = some freemem) (s0 : PmmState)
    (d pt : Nat) :
    exists pmm, Represents pmm (cover (rangesOf freemem memmap.map))
        (rangesOf freemem memmap.map) ∧ pmm.npage = (npageOf memmap.map).toNat ∧
      pmmInit memmap kernelEnd d (VmState.mk s0 (bootMem d pt)) =
        if pagesReached (VmState.mk (defaultInit s0) (bootMem d pt)) d kernelEnd
            (npageOf memmap.map) then
          (defaultCheck pmm).bind fun pmm => setupPaging (VmState.mk pmm (bootMem d pt)) d
        else none := by
  rcases (hsound.bootable freemem s0).boots with ⟨pmm, hrun, hrep⟩
  have hnpage : pmm.npage = (npageOf memmap.map).toNat := by
    rw [initMemmaps_npage hrun]
    exact reservedPmm_npage _ s0
  rw [← reservedPmm_defaultInit] at hrun
  refine ⟨pmm, hrep, hnpage, ?_⟩
  unfold pmmInit
  simp only
  rw [pageInit_eq hsound hfree hrun]
  cases pagesReached (VmState.mk (defaultInit s0) (bootMem d pt)) d kernelEnd
      (npageOf memmap.map) with
  | false => rfl
  | true => rfl

/-- After the first self test the free pages are the usable frames, in order. -/
theorem InImage.checked (h : InImage memmap kernelEnd freemem d pt)
    (hrep : Represents pmm (cover (rangesOf freemem memmap.map)) (rangesOf freemem memmap.map))
    (hnpage : pmm.npage = (npageOf memmap.map).toNat)
    (hgap : Coalesced (rangesOf freemem memmap.map))
    (hasc : Ascending (rangesOf freemem memmap.map))
    (hfit : exists b, b ∈ rangesOf freemem memmap.map ∧ 5 ≤ b.size) :
    exists pmm', defaultCheck pmm = some pmm' ∧
      pmm'.nrFree = (usableFrames memmap.map freemem).ncard ∧
      freePagesOf (VmState.mk pmm' (bootMem d pt)) = usableFrames memmap.map freemem ∧
      Ascending (listedBlocks pmm') ∧
      BootDir (usableFrames memmap.map freemem) d (VmState.mk pmm' (bootMem d pt)) := by
  have hle : pmm.npage ≤ KMEMSIZE / 4096 := by
    rw [hnpage]
    exact npageOf_le _
  rcases defaultCheck_passes hrep hgap hle hfit with
    ⟨pmm', bs', hrun, hwithin, hperm, horder⟩
  have hcover : cover bs' = usableFrames memmap.map freemem := by
    rw [cover_perm hperm, cover_usable]
  have hrep' := hwithin.represents
  rw [cover_usable] at hrep'
  have hlisted : listedBlocks pmm' = bs' := hrep'.listedBlocks_eq
  have hnpage' : pmm'.npage = (npageOf memmap.map).toNat := by
    rw [hwithin.same.npage, hnpage]
  refine ⟨pmm', hrun, ?_, ?_, ?_, h.bootDir hrep' (fun _ => Iff.rfl) hcover hnpage'⟩
  · rw [hrep'.nrFree_eq, ← hcover, cover_ncard hrep'.separated]
  · unfold freePagesOf
    rw [hlisted, hcover]
  · rw [hlisted]
    exact horder hasc

theorem exists_fit_iff (hrep : Represents pmm dom (rangesOf freemem memmap.map))
    (hgap : Coalesced (rangesOf freemem memmap.map)) :
    (exists b, b ∈ rangesOf freemem memmap.map ∧ 5 ≤ b.size) <->
      exists p, (Block.mk p 5).span ⊆ usableFrames memmap.map freemem := by
  have hnone := no_run_iff hrep.separated hgap (show 0 < 5 by decide)
  rw [← cover_usable, ← not_iff_not, ← hnone]
  constructor
  · intro hno b hb
    exact Nat.lt_of_not_le fun hle => hno ⟨b, hb, hle⟩
  · rintro hsmall ⟨b, hb, hle⟩
    exact absurd hle (Nat.not_le.mpr (hsmall b hb))

/-- What the map of the BIOS has to offer: a run for the test of the allocator, a frame for
every page that the boot takes, and the tables early enough. -/
def Suffices (frames : Set Nat) : Prop :=
  (exists p, (Block.mk p 5).span ⊆ frames) ∧ 225 ≤ frames.ncard ∧ EnoughLow frames

theorem InImage.boots (h : InImage memmap kernelEnd freemem d pt) (hsound : memmap.Sound)
    (hfree : freememOf kernelEnd (npageOf memmap.map) = some freemem)
    (hgap : Coalesced (rangesOf freemem memmap.map))
    (hasc : Ascending (rangesOf freemem memmap.map))
    (hmany : Suffices (usableFrames memmap.map freemem)) (s0 : PmmState) :
    exists t, pmmInit memmap kernelEnd d (VmState.mk s0 (bootMem d pt)) = some t ∧
      Booted (usableFrames memmap.map freemem) d t ∧ Paged d t ∧
      (freePagesOf t).ncard + 223 = (usableFrames memmap.map freemem).ncard := by
  rcases hmany with ⟨hrun, hcount, hlow⟩
  rcases pmmInit_eq hsound hfree s0 d pt with ⟨pmm, hrep, hnpage, hinit⟩
  rcases h.checked hrep hnpage hgap hasc ((exists_fit_iff hrep hgap).mpr hrun) with
    ⟨pmm', hcheck, hfrees, hpages, hasc', hdir⟩
  have hfirst := (bootMem_firstMapped pmm' h.dir_low h.table_low h.ne).left
  have hreached : pagesReached (VmState.mk (defaultInit s0) (bootMem d pt)) d kernelEnd
      (npageOf memmap.map) = true := by
    apply h.reaches_pages hfree
    have htwo := hlow.left
    rcases exists_low (show 1 ≤ (usableFrames memmap.map freemem ∩ Set.Iio 1024).ncard by omega)
      with ⟨p, hp, hplow⟩
    have hbehind : freemem.toNat ≤ p * 4096 := hp.right.left
    exact hbehind.trans (Nat.mul_le_mul_right 4096 hplow.le)
  rw [← hfrees] at hcount ⊢
  rw [← hpages] at hlow
  rcases hdir.setupPaging_passes hasc' hfirst hcount hlow with ⟨t, hpass, hbooted, hpaged, hleft⟩
  refine ⟨t, ?_, hbooted, hpaged, ?_⟩
  · rw [hinit, if_pos hreached, hcheck, Option.bind_some]
    exact hpass
  · rw [← hbooted.vmInv.nrFree_eq]
    exact hleft

theorem InImage.boots_only (h : InImage memmap kernelEnd freemem d pt) (hsound : memmap.Sound)
    (hfree : freememOf kernelEnd (npageOf memmap.map) = some freemem)
    (hgap : Coalesced (rangesOf freemem memmap.map))
    (hasc : Ascending (rangesOf freemem memmap.map)) {s0 : PmmState}
    (hrun : pmmInit memmap kernelEnd d (VmState.mk s0 (bootMem d pt)) = some t) :
    Suffices (usableFrames memmap.map freemem) := by
  rcases pmmInit_eq hsound hfree s0 d pt with ⟨pmm, hrep, hnpage, hinit⟩
  rw [hinit] at hrun
  split at hrun
  · by_cases hfit : exists b, b ∈ rangesOf freemem memmap.map ∧ 5 ≤ b.size
    · rcases h.checked hrep hnpage hgap hasc hfit with
        ⟨pmm', hcheck, hfrees, hpages, hasc', hdir⟩
      have hfirst := (bootMem_firstMapped pmm' h.dir_low h.table_low h.ne).left
      rw [hcheck, Option.bind_some] at hrun
      rcases hdir.setupPaging_free hasc' hfirst hrun with ⟨hcount, hlow⟩
      rw [hfrees] at hcount
      rw [hpages] at hlow
      exact ⟨(exists_fit_iff hrep hgap).mp hfit, hcount, hlow⟩
    · have hle : pmm.npage ≤ KMEMSIZE / 4096 := by
        rw [hnpage]
        exact npageOf_le _
      have hsmall : forall b, b ∈ rangesOf freemem memmap.map -> b.size < 5 :=
        fun b hb => Nat.lt_of_not_le fun hbig => hfit ⟨b, hb, hbig⟩
      rw [defaultCheck_fails hrep hgap hle hsmall] at hrun
      cases hrun
  · cases hrun

/-- `pmm_init` gets through its self tests without a page fault exactly when five consecutive
frames are usable, 225 in all, two below four megabytes, and for every `i` up to 223 at least
`i` below `i` times four megabytes.  It then leaves a directory in which no user address is
mapped, with the physical memory at `KERNBASE` and the tables at `VPT`; 223 of the usable frames
are tables and the others are free.  The usable ranges of the map come in ascending order, and
none ends where another one begins. -/
theorem pmm_init_exact (hsound : memmap.Sound)
    (hfree : freememOf kernelEnd (npageOf memmap.map) = some freemem)
    (himage : InImage memmap kernelEnd freemem d pt)
    (hgap : Coalesced (rangesOf freemem memmap.map))
    (hasc : Ascending (rangesOf freemem memmap.map)) (s0 : PmmState) :
    (pmmInit memmap kernelEnd d (VmState.mk s0 (bootMem d pt)) = none <->
      ¬ Suffices (usableFrames memmap.map freemem)) ∧
    forall t, pmmInit memmap kernelEnd d (VmState.mk s0 (bootMem d pt)) = some t ->
      Booted (usableFrames memmap.map freemem) d t ∧ Paged d t ∧
      (freePagesOf t).ncard + 223 = (usableFrames memmap.map freemem).ncard := by
  cases hrun : pmmInit memmap kernelEnd d (VmState.mk s0 (bootMem d pt)) with
  | none =>
      constructor
      · constructor
        · intro _ hmany
          rcases himage.boots hsound hfree hgap hasc hmany s0 with ⟨t, hpass, _⟩
          rw [hrun] at hpass
          cases hpass
        · exact fun _ => rfl
      · intro t hbad
        cases hbad
  | some t =>
      have hmany := himage.boots_only hsound hfree hgap hasc hrun
      rcases himage.boots hsound hfree hgap hasc hmany s0 with ⟨t', hpass, hends⟩
      rw [hrun] at hpass
      cases hpass
      constructor
      · constructor
        · intro hbad
          cases hbad
        · exact fun hno => absurd hmany hno
      · intro u hu
        cases hu
        exact hends

theorem holedMap_ranges : rangesOf 0x1AFD80#32 holedMap.map = [Block.mk 432 32304] := by decide

theorem holedMap_image : InImage holedMap 0xC0110000#32 0x1AFD80#32 269 270 where
  linked := by decide
  dir_lt := by decide
  table_lt := by decide
  dir_before := by decide
  table_before := by decide
  dir_low := by decide
  table_low := by decide
  ne := by decide

theorem holedMap_gap : Coalesced (rangesOf 0x1AFD80#32 holedMap.map) := by
  rw [holedMap_ranges]
  exact singleton_coalesced (by decide)

theorem holedMap_ascending : Ascending (rangesOf 0x1AFD80#32 holedMap.map) := by
  rw [holedMap_ranges]
  exact List.pairwise_singleton _ _

theorem holedMap_frames : usableFrames holedMap.map 0x1AFD80#32 = Set.Ico 432 32736 := by
  rw [← cover_usable, holedMap_ranges, cover_cons, cover_nil, Set.union_empty]
  rfl

theorem holedMap_low (n : Nat) :
    (usableFrames holedMap.map 0x1AFD80#32 ∩ Set.Iio n).ncard = min 32736 n - 432 := by
  have hcoe : Set.Ico 432 32736 ∩ Set.Iio n = (Finset.Ico 432 (min 32736 n) : Set Nat) := by
    ext q
    simp only [Set.mem_inter_iff, Set.mem_Ico, Set.mem_Iio, Finset.coe_Ico, lt_min_iff]
    tauto
  rw [holedMap_frames, hcoe, Set.ncard_coe_finset, Nat.card_Ico]

theorem holedMap_suffices : Suffices (usableFrames holedMap.map 0x1AFD80#32) := by
  refine ⟨⟨432, ?_⟩, ?_, ?_, ?_⟩
  · rw [holedMap_frames]
    intro q hq
    rw [mem_span, stop_mk] at hq
    rw [Set.mem_Ico]
    lia
  · have hall := holedMap_low 32736
    rw [Set.inter_eq_left.mpr] at hall
    · rw [hall]
      decide
    · rw [holedMap_frames]
      exact fun q hq => hq.right
  · rw [holedMap_low]
    decide
  · intro i hi hlast
    rw [holedMap_low]
    omega

theorem pmm_init_exact_holed :
    exists t, pmmInit holedMap 0xC0110000#32 269
        (VmState.mk (reservedMemory 0) (bootMem 269 270)) = some t ∧
      Booted (usableFrames holedMap.map 0x1AFD80#32) 269 t ∧ Paged 269 t := by
  have hfree : freememOf 0xC0110000#32 (npageOf holedMap.map) = some 0x1AFD80#32 := by decide
  rcases pmm_init_exact holedMap_sound hfree holedMap_image holedMap_gap holedMap_ascending
    (reservedMemory 0) with ⟨hnone, hsome⟩
  cases hrun : pmmInit holedMap 0xC0110000#32 269
      (VmState.mk (reservedMemory 0) (bootMem 269 270)) with
  | some t => exact ⟨t, rfl, (hsome t hrun).left, (hsome t hrun).right.left⟩
  | none => exact absurd holedMap_suffices (hnone.mp hrun)

/-!
# Every run behind it
-/

/-- Along every run the processor and `get_page` agree on user addresses, also after a table
has been made or a page removed; `KADDR(pa)` reaches `pa` for reading and writing; and the
entries of the tables and of the directory can be read at `vpt` and `vpd`. -/
theorem paging_unit_follows_tables (h : (pagedSystem dom d).Reachable s) :
    (forall la, Admissible la -> exists v, lookup s d la = some v ∧
      forall write, translate s d write la = walked write la v) ∧
    (forall pa : BitVec 32, pa.toNat < KMEMSIZE -> forall write,
      translate s d write (pa + BitVec.ofNat 32 KERNBASE) = some (ppn pa, pa.toNat % 4096)) ∧
    (forall n, n < 2 ^ 20 -> loadWord s d (wordAddr vpt n) =
      if present (pde s d (n / 1024)) then some (leaf s d (n / 1024, n % 1024)) else none) ∧
    forall i, i < NPDEENTRY -> loadWord s d (wordAddr vpd i) = some (pde s d i) := by
  rcases reachable_paged h with ⟨hinv, hpaged⟩
  have hwf := hinv.wellFormed
  refine ⟨?_, ?_, ?_, ?_⟩
  · intro la hla
    exact hinv.lookup_walked hpaged.writable hla
  · intro pa hpa write
    exact hpaged.translate_kernel hpa write
  · intro n hn
    exact hpaged.load_vpt hwf hn
  · intro i hi
    unfold NPDEENTRY at hi
    have haddr : wordAddr vpd i = wordAddr vpt (selfIndex * 1024 + i) := by
      have hvpt : vpt.toNat = 0xFAC00000 := rfl
      have hvpd : vpd.toNat = 0xFAFEB000 := rfl
      apply BitVec.eq_of_toNat_eq
      unfold selfIndex
      rw [wordAddr_toNat (by rw [hvpd]; omega), wordAddr_toNat (by rw [hvpt]; omega), hvpd, hvpt]
      omega
    have hdiv : (selfIndex * 1024 + i) / 1024 = selfIndex := by omega
    have hmod : (selfIndex * 1024 + i) % 1024 = i := by omega
    rw [haddr, hpaged.load_vpt hwf (by unfold selfIndex; omega), hdiv, hmod, if_pos hpaged.selfMap,
      leaf_of_present hpaged.selfMap]
    simp only [hwf.selfMap hpaged.selfMap]
    rfl

theorem paging_unit_follows_tables_holed :
    exists s, (pagedSystem (usableFrames holedMap.map 0x1AFD80#32) 269).Reachable s ∧
      translate s 269 true (0x1000#32 + BitVec.ofNat 32 KERNBASE) = some (1, 0) ∧
      loadWord s 269 (wordAddr vpd 0) = some (pde s 269 0) := by
  have hfree : freememOf 0xC0110000#32 (npageOf holedMap.map) = some 0x1AFD80#32 := by decide
  rcases holedMap_image.boots holedMap_sound hfree holedMap_gap holedMap_ascending
    holedMap_suffices (reservedMemory 0) with ⟨t, _, hbooted, hpaged, _⟩
  have hreach : (pagedSystem (usableFrames holedMap.map 0x1AFD80#32) 269).Reachable t :=
    System.Reachable.init ⟨hbooted, hpaged⟩
  rcases paging_unit_follows_tables hreach with ⟨_, hkernel, _, hvpd⟩
  exact ⟨t, hreach, hkernel 0x1000#32 (by decide) true, hvpd 0 (by decide)⟩

end Memory
end OsLabs
