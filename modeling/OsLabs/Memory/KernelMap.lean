import Mathlib.Order.Interval.Finset.Nat
import OsLabs.Memory.Translation

/-!
# The kernel's map of the physical memory

`pmm_init` maps `KERNBASE` to `KERNBASE + KMEMSIZE` onto the physical memory.  How many pages
the tables take, and what the directory looks like afterwards.
-/

namespace OsLabs
namespace Memory

open Foundation
open Foundation.Block
open VmState

variable {dom : Set Nat} {d i p n : Nat} {s s1 t : VmState} {bs bs1 bs' : List Block}
  {is is' : Finset Nat} {la pa perm : BitVec 32}

structure Grown (dom : Set Nat) (d : Nat) (s t : VmState) (bs bs' : List Block)
    (is : Finset Nat) : Prop where
  sound : TablesSound tableIndex dom d t bs'
  kept : forall i, i ∉ is -> pde t d i = pde s d i
  made : forall i, i ∈ is -> exists q, pde t d i = tableEntry (page2pa q)
  cover_kept : forall q, q ∈ cover bs -> q ∈ cover bs' ∨ IsTable t d q
  tables_kept : forall q, IsTable s d q -> IsTable t d q
  npage_eq : t.pmm.npage = s.pmm.npage
  nrFree_eq : t.pmm.nrFree + is.card = s.pmm.nrFree

theorem Grown.refl (h : TablesSound tableIndex dom d s bs) : Grown dom d s s bs bs ∅ where
  sound := h
  kept _ _ := rfl
  made i hi := absurd hi (Finset.notMem_empty i)
  cover_kept _ hq := Or.inl hq
  tables_kept _ hq := hq
  npage_eq := rfl
  nrFree_eq := by rw [Finset.card_empty, Nat.add_zero]

theorem Grown.trans (h : Grown dom d s s1 bs bs1 is) (h' : Grown dom d s1 t bs1 bs' is')
    (hdisjoint : Disjoint is is') : Grown dom d s t bs bs' (is ∪ is') := by
  constructor
  · exact h'.sound
  · intro i hi
    rw [Finset.mem_union, not_or] at hi
    rw [h'.kept i hi.right, h.kept i hi.left]
  · intro i hi
    rcases Finset.mem_union.mp hi with hin | hin
    · rw [h'.kept i (Finset.disjoint_left.mp hdisjoint hin)]
      exact h.made i hin
    · exact h'.made i hin
  · intro q hq
    rcases h.cover_kept q hq with hleft | htable
    · exact h'.cover_kept q hleft
    · exact Or.inr (h'.tables_kept q htable)
  · intro q hq
    exact h'.tables_kept q (h.tables_kept q hq)
  · rw [h'.npage_eq, h.npage_eq]
  · rw [Finset.card_union_of_disjoint hdisjoint, ← h.nrFree_eq, ← h'.nrFree_eq]
    omega

theorem Grown.store (h : Grown dom d s t bs bs' is) {k : Nat × Nat}
    (hk : tableIndex k.fst = true) (hpresent : present (pde t d k.fst) = true)
    (entry : BitVec 32) : Grown dom d s (t.store (entryPtr t d k) entry) bs bs' is := by
  have hpde := h.sound.pde_store hk hpresent entry
  have htab := h.sound.isTable_store hk hpresent entry
  constructor
  · exact h.sound.store hk hpresent entry
  · intro i hi
    rw [hpde, h.kept i hi]
  · intro i hi
    rw [hpde]
    exact h.made i hi
  · intro q hq
    rw [htab]
    exact h.cover_kept q hq
  · intro q hq
    rw [htab]
    exact h.tables_kept q hq
  · exact h.npage_eq
  · exact h.nrFree_eq

theorem TablesSound.getPte_grows (h : TablesSound tableIndex dom d s bs)
    (hself : pdx la ≠ selfIndex) {ptep : EntryPtr}
    (hrun : getPte s d la true = some (s1, some ptep)) :
    exists bs1, ptep = entryPtr s1 d (keyOf la) ∧ present (pde s1 d (pdx la)) = true ∧
      Grown dom d s s1 bs bs1 (if present (pde s d (pdx la)) then ∅ else {pdx la}) := by
  cases hpresent : present (pde s d (pdx la)) with
  | true =>
      have hlt := h.table_lt _ ⟨pdx la, pdx_lt la, hself, hpresent, rfl⟩
      rw [getPte_of_lt la true hpresent hlt] at hrun
      cases hrun
      exact ⟨bs, rfl, hpresent, Grown.refl h⟩
  | false =>
      rcases h.getPte_makes_table hpresent with hnone | hmade
      · rw [hnone.left] at hrun
        cases hrun
      · rcases hmade with ⟨pmm, q, bs1, hq, hrep, hnpage, hcover, hcount, _, _, hmake⟩
        rw [hmake] at hrun
        cases hrun
        have hqd := h.free_ne_dir hq
        have hq20 := h.page_lt (h.free_lt hq)
        have htab : forall x, IsTable (OsLabs.Memory.withTable s pmm d (pdx la) q) d x <->
            x = q ∨ IsTable s d x :=
          isTable_withTable hqd hq20 (pdx_lt la) hself hpresent
        refine ⟨bs1, rfl, (present_withTable hqd _).mpr (Or.inl rfl), ?_⟩
        constructor
        · exact h.withTable (pdx_lt la) hself hpresent hq hrep hnpage hcover
        · intro i hi
          rw [pde_withTable hqd, if_neg]
          intro heq
          exact hi (by simp [heq])
        · intro i hi
          have hi' : i = pdx la := by simpa using hi
          rw [pde_withTable hqd, if_pos hi']
          exact ⟨q, rfl⟩
        · intro x hx
          by_cases hxq : x = q
          · exact Or.inr ((htab x).mpr (Or.inl hxq))
          · left
            rw [hcover]
            exact ⟨hx, hxq⟩
        · intro x hx
          exact (htab x).mpr (Or.inr hx)
        · exact hnpage
        · exact hcount

theorem mem_missingTables_iff {lo hi : Nat} : i ∈ missingTables s d lo hi <->
    i < NPDEENTRY ∧ present (pde s d i) = false ∧ lo < hi ∧ lo < (i + 1) * PTSIZE ∧
      i * PTSIZE < hi := by
  have hpos : i * PTSIZE < (i + 1) * PTSIZE := by
    apply Nat.mul_lt_mul_of_pos_right (Nat.lt_succ_self i)
    decide
  unfold missingTables
  rw [Finset.mem_filter, Finset.mem_range, max_lt_iff, lt_min_iff, lt_min_iff]
  constructor
  · rintro ⟨hi, habsent, hlow, hhigh⟩
    exact ⟨hi, habsent, hlow.left, hlow.right, hhigh.left⟩
  · rintro ⟨hi, habsent, hrange, hlow, hhigh⟩
    exact ⟨hi, habsent, ⟨hrange, hlow⟩, hhigh, hpos⟩

theorem missingTables_next (hla : la.toNat = p * 4096) (hi : i ≠ pdx la) (n : Nat) :
    i ∈ missingTables s d (p * 4096) ((p + (n + 1)) * 4096) <->
      i ∈ missingTables s d ((p + 1) * 4096) ((p + 1 + n) * 4096) := by
  rw [pdx_eq, hla] at hi
  rw [mem_missingTables_iff, mem_missingTables_iff]
  unfold PTSIZE NPTEENTRY
  apply and_congr_right
  intro _
  apply and_congr_right
  intro _
  omega

theorem missingTables_congr {lo hi : Nat} (hpde : pde t d i = pde s d i) :
    i ∈ missingTables t d lo hi <-> i ∈ missingTables s d lo hi := by
  rw [mem_missingTables_iff, mem_missingTables_iff, hpde]

theorem missingTables_cons (hla : la.toNat = p * 4096) (hthere : present (pde t d (pdx la)) = true)
    (hkept : forall i, i ≠ pdx la -> pde t d i = pde s d i) (n : Nat) :
    missingTables s d (p * 4096) ((p + (n + 1)) * 4096) =
      (if present (pde s d (pdx la)) then ∅ else {pdx la}) ∪
        missingTables t d ((p + 1) * 4096) ((p + 1 + n) * 4096) := by
  ext i
  rw [Finset.mem_union]
  by_cases hi : i = pdx la
  · subst hi
    have hnot : pdx la ∉ missingTables t d ((p + 1) * 4096) ((p + 1 + n) * 4096) := by
      intro hmem
      have habsent := (mem_missingTables_iff.mp hmem).right.left
      rw [hthere] at habsent
      cases habsent
    cases hpresent : present (pde s d (pdx la)) with
    | true =>
        constructor
        · intro hmem
          have habsent := (mem_missingTables_iff.mp hmem).right.left
          rw [hpresent] at habsent
          cases habsent
        · rintro (hbad | hbad)
          · exact absurd hbad (Finset.notMem_empty _)
          · exact absurd hbad hnot
    | false => exact ⟨fun _ => Or.inl (Finset.mem_singleton_self _),
        fun _ => mem_missingTables n hla hpresent⟩
  · rw [missingTables_next hla hi n, missingTables_congr (hkept i hi)]
    constructor
    · exact Or.inr
    · rintro (hbad | hmem)
      · split at hbad
        · exact absurd hbad (Finset.notMem_empty i)
        · exact absurd (Finset.mem_singleton.mp hbad) hi
      · exact hmem

/-- The loop makes the tables that are missing, each of one free page. -/
theorem bootMapLoop_grows (h : TablesSound tableIndex dom d s bs)
    (hla : 0 < n -> la.toNat = p * 4096) (hend : p + n ≤ 2 ^ 20)
    (hself : forall x, p ≤ x -> x < p + n -> x / 1024 ≠ selfIndex)
    (hrun : bootMapLoop d perm n la pa s = some t) :
    exists bs', Grown dom d s t bs bs' (missingTables s d (p * 4096) ((p + n) * 4096)) := by
  induction n generalizing s bs p la pa with
  | zero =>
      cases hrun
      refine ⟨bs, ?_⟩
      have hempty : missingTables t d (p * 4096) ((p + 0) * 4096) = ∅ := by
        rw [Finset.eq_empty_iff_forall_notMem]
        intro i hi
        have hrange := (mem_missingTables_iff.mp hi).right.right.left
        omega
      rw [hempty]
      exact Grown.refl h
  | succ n ih =>
      have hla' := hla (Nat.succ_pos n)
      have hnotSelf : pdx la ≠ selfIndex := by
        have hpage := hself p (Nat.le_refl p) (by omega)
        rw [pdx_eq, hla']
        omega
      unfold bootMapLoop at hrun
      split at hrun
      · cases hrun
      · cases hrun
      · rename_i s1 ptep hget
        rcases h.getPte_grows hnotSelf hget with ⟨bs1, hptr, hpresent, hgrown⟩
        rw [hptr] at hrun
        have hindex : tableIndex (keyOf la).fst = true :=
          tableIndex_iff.mpr ⟨pdx_lt la, hnotSelf⟩
        have hstore := hgrown.store hindex hpresent (pa ||| PTE_P ||| perm)
        have hpde := hgrown.sound.pde_store hindex hpresent (pa ||| PTE_P ||| perm)
        rcases ih hstore.sound (fun hn => page_next hla' (by omega)) (by omega)
          (fun x hlow hhigh => hself x (by omega) (by omega)) hrun with ⟨bs', hrest⟩
        refine ⟨bs', ?_⟩
        have hthere : present (pde (s1.store (entryPtr s1 d (keyOf la)) (pa ||| PTE_P ||| perm))
            d (pdx la)) = true := by
          rw [hpde]
          exact hpresent
        rw [missingTables_cons hla' hthere]
        · apply hstore.trans hrest
          rw [Finset.disjoint_left]
          intro i hi hmem
          have hia : i = pdx la := by
            split at hi
            · exact absurd hi (Finset.notMem_empty i)
            · exact Finset.mem_singleton.mp hi
          have habsent := (mem_missingTables_iff.mp hmem).right.left
          rw [hia, hthere] at habsent
          cases habsent
        · intro i hi
          rw [hpde]
          apply hgrown.kept
          split
          · exact Finset.notMem_empty i
          · rw [Finset.mem_singleton]
            exact hi

/-!
# The directory at boot
-/

/-- A directory with the table of the first four megabytes at `KERNBASE`, perhaps with itself
in the window at `VPT`, and with nothing else.  All pages of the allocator are free. -/
structure BootDir (dom : Set Nat) (d : Nat) (s : VmState) : Prop where
  represents : Represents s.pmm dom (listedBlocks s.pmm)
  npage_le : s.pmm.npage ≤ KMEMSIZE / 4096
  dir_lt : d < s.pmm.npage
  dir_reserved : d ∉ dom
  all_free : freePagesOf s = dom
  first_present : present (pde s d 768) = true
  first_writable : pde s d 768 &&& PTE_W ≠ 0#32
  first_lt : tableOf s d 768 < s.pmm.npage
  first_ne_dir : tableOf s d 768 ≠ d
  first_reserved : tableOf s d 768 ∉ dom
  others : forall i, i ≠ 768 -> i ≠ selfIndex -> pde s d i = 0#32
  self : pde s d selfIndex = 0#32 ∨ pde s d selfIndex = page2pa d ||| (PTE_P ||| PTE_W)

namespace BootDir

theorem present_eq (h : BootDir dom d s) (hself : i ≠ selfIndex)
    (hpresent : present (pde s d i) = true) : i = 768 := by
  by_contra hne
  rw [h.others i hne hself] at hpresent
  cases hpresent

theorem isTable_eq (h : BootDir dom d s) (hp : IsTable s d p) : p = tableOf s d 768 := by
  rcases hp with ⟨i, _, hself, hpresent, htable⟩
  rw [h.present_eq hself hpresent] at htable
  exact htable.symm

theorem sound (h : BootDir dom d s) : TablesSound tableIndex dom d s (listedBlocks s.pmm) := by
  constructor
  · exact h.represents
  · exact h.npage_le
  · exact h.dir_lt
  · exact fun hd => h.dir_reserved (h.represents.cover_subset hd)
  · exact fun i hi => (tableIndex_iff.mp hi).left
  · exact fun i hi => (tableIndex_iff.mp hi).right
  · intro p hp
    rw [h.isTable_eq hp]
    exact h.first_lt
  · intro p hp
    rw [h.isTable_eq hp]
    exact h.first_ne_dir
  · intro p hp hfree
    rw [h.isTable_eq hp] at hfree
    exact h.first_reserved (h.represents.cover_subset hfree)
  · intro i k hi hpi _ hself hpk _
    rw [h.present_eq (tableIndex_iff.mp hi).right hpi, h.present_eq hself hpk]

theorem dir_lt_two_pow (h : BootDir dom d s) : d < 2 ^ 20 := h.sound.page_lt h.dir_lt

theorem booted (h : BootDir dom d s) : Booted dom d s := by
  constructor
  · exact h.represents
  · exact h.npage_le
  · exact h.dir_lt
  · exact h.dir_reserved
  · intro hpresent
    unfold tableOf
    rcases h.self with hzero | hself
    · rw [hzero] at hpresent
      cases hpresent
    · rw [hself, ppn_page2pa_or h.dir_lt_two_pow (by decide)]
  · intro i hi
    have hne : i ≠ 768 := by
      intro heq
      rw [heq] at hi
      cases hi
    rw [h.others i hne (userIndex_ne_self hi)]
    rfl
  · exact h.sound.table_lt
  · exact h.sound.table_ne_dir
  · exact h.sound.table_used
  · intro p hp
    have hfree : p ∈ freePagesOf s := by
      rw [h.all_free]
      exact hp.mem
    exact absurd hfree hp.used

theorem restored (h : BootDir dom d s) (hrestored : Restored dom d s t) : BootDir dom d t := by
  have htable : tableOf t d 768 = tableOf s d 768 := congrArg ppn (hrestored.pde_eq 768)
  constructor
  · exact hrestored.inv.represents
  · exact hrestored.inv.wellFormed.npage_le
  · exact hrestored.inv.wellFormed.dir_lt
  · exact h.dir_reserved
  · rw [hrestored.free_eq, h.all_free]
  · rw [hrestored.pde_eq]
    exact h.first_present
  · rw [hrestored.pde_eq]
    exact h.first_writable
  · rw [htable, hrestored.npage_eq]
    exact h.first_lt
  · rw [htable]
    exact h.first_ne_dir
  · rw [htable]
    exact h.first_reserved
  · intro i hi hself
    rw [hrestored.pde_eq]
    exact h.others i hi hself
  · rw [hrestored.pde_eq]
    exact h.self

theorem pde_store_self (s : VmState) (d : Nat) (entry : BitVec 32) :
    pde (s.store (EntryPtr.mk d selfIndex) entry) d selfIndex = entry := by
  unfold pde
  rw [load_store, if_pos rfl]

theorem pde_store_other (s : VmState) (d : Nat) (entry : BitVec 32) {i : Nat}
    (hi : i ≠ selfIndex) : pde (s.store (EntryPtr.mk d selfIndex) entry) d i = pde s d i := by
  unfold pde
  rw [load_store, if_neg (fun heq => hi (congrArg EntryPtr.index heq))]

/-- `boot_pgdir[PDX(VPT)] = PADDR(boot_pgdir) | PTE_P | PTE_W`. -/
theorem withSelf (h : BootDir dom d s) :
    BootDir dom d (s.store (EntryPtr.mk d selfIndex) (page2pa d ||| (PTE_P ||| PTE_W))) := by
  have hpde : forall i, i ≠ selfIndex ->
      pde (s.store (EntryPtr.mk d selfIndex) (page2pa d ||| (PTE_P ||| PTE_W))) d i =
        pde s d i := fun _ => pde_store_other s d _
  have hfirst := hpde 768 (by decide)
  have htable : tableOf (s.store (EntryPtr.mk d selfIndex) (page2pa d ||| (PTE_P ||| PTE_W))) d 768 =
      tableOf s d 768 := congrArg ppn hfirst
  constructor
  · exact h.represents
  · exact h.npage_le
  · exact h.dir_lt
  · exact h.dir_reserved
  · exact h.all_free
  · rw [hfirst]
    exact h.first_present
  · rw [hfirst]
    exact h.first_writable
  · rw [htable]
    exact h.first_lt
  · rw [htable]
    exact h.first_ne_dir
  · rw [htable]
    exact h.first_reserved
  · intro i hi hself
    rw [hpde i hself]
    exact h.others i hi hself
  · right
    exact pde_store_self s d _

end BootDir

/-!
# The map of the whole memory
-/

def mapKernel (s : VmState) (pgdir : Nat) : Option VmState :=
  bootMapSegment s pgdir (BitVec.ofNat 32 KERNBASE) (BitVec.ofNat 32 KMEMSIZE) 0#32 PTE_W

theorem mapKernel_eq (s : VmState) (d : Nat) : mapKernel s d =
    bootMapLoop d PTE_W 229376 (BitVec.ofNat 32 KERNBASE) 0#32 s := by
  have hpages : (roundUp (BitVec.ofNat 32 KMEMSIZE + pgoff (BitVec.ofNat 32 KERNBASE)) /
      4096#32).toNat = 229376 := by decide
  have hstart : roundDown (BitVec.ofNat 32 KERNBASE) = BitVec.ofNat 32 KERNBASE := by decide
  have hframe : roundDown 0#32 = 0#32 := by decide
  unfold mapKernel bootMapSegment
  rw [if_pos (by decide)]
  simp only
  rw [hpages, hstart, hframe]

/-- The window of the kernel has 224 tables, one of them from the start. -/
theorem BootDir.missing (h : BootDir dom d s) :
    missingTables s d (786432 * 4096) ((786432 + 229376) * 4096) = Finset.Ico 769 992 := by
  ext i
  rw [mem_missingTables_iff, Finset.mem_Ico]
  unfold NPDEENTRY PTSIZE NPTEENTRY
  constructor
  · rintro ⟨_, habsent, hrange⟩
    have hne : i ≠ 768 := by
      intro heq
      rw [heq, h.first_present] at habsent
      cases habsent
    omega
  · intro hi
    rw [h.others i (by omega) (by unfold selfIndex; omega)]
    refine ⟨by omega, rfl, by omega⟩

theorem kernbase_page : (BitVec.ofNat 32 KERNBASE).toNat = 786432 * 4096 := rfl

theorem first_frame : (0#32).toNat = 0 * 4096 := rfl

theorem kernel_pages_ne_self (x : Nat) (hlow : 786432 ≤ x) (hhigh : x < 786432 + 229376) :
    x / 1024 ≠ selfIndex := by
  unfold selfIndex
  omega

theorem BootDir.grown_booted (h : BootDir dom d s)
    (hgrown : Grown dom d s t (listedBlocks s.pmm) bs' (Finset.Ico 769 992)) :
    Booted dom d t := by
  have hsound := hgrown.sound
  have hlisted : listedBlocks t.pmm = bs' := hsound.represents.listedBlocks_eq
  have hselfKept : pde t d selfIndex = pde s d selfIndex := by
    apply hgrown.kept
    rw [Finset.mem_Ico]
    unfold selfIndex
    omega
  constructor
  · rw [hlisted]
    exact hsound.represents
  · exact hsound.npage_le
  · exact hsound.dir_lt
  · exact h.dir_reserved
  · unfold tableOf
    rw [hselfKept]
    exact h.booted.selfMap
  · intro i hi
    have huser := userIndex_iff.mp hi
    rw [hgrown.kept i (by rw [Finset.mem_Ico]; omega)]
    exact h.booted.user_absent i hi
  · exact hsound.table_lt
  · exact hsound.table_ne_dir
  · intro p hp
    unfold freePagesOf
    rw [hlisted]
    exact hsound.table_used p hp
  · intro p hp
    have hfree : p ∈ freePagesOf s := by
      rw [h.all_free]
      exact hp.mem
    rcases hgrown.cover_kept p hfree with hleft | htable
    · rw [← hlisted] at hleft
      exact absurd hleft hp.used
    · exact absurd htable hp.notTable

theorem BootDir.grown_paged (h : BootDir dom d s)
    (hself : pde s d selfIndex = page2pa d ||| (PTE_P ||| PTE_W))
    (hgrown : Grown dom d s t (listedBlocks s.pmm) bs' (Finset.Ico 769 992))
    (hmapped : SegmentMapped dom d s t bs1 786432 0 229376 PTE_W) : Paged d t := by
  have hd20 := h.dir_lt_two_pow
  have hselfKept : pde t d selfIndex = page2pa d ||| (PTE_P ||| PTE_W) := by
    rw [← hself]
    apply hgrown.kept
    rw [Finset.mem_Ico]
    unfold selfIndex
    omega
  constructor
  · rw [hselfKept]
    exact present_or_right rfl
  · intro i _ hpresent
    by_cases hi : i ∈ Finset.Ico 769 992
    · rcases hgrown.made i hi with ⟨q, hq⟩
      rw [hq]
      exact tableEntry_writable _
    · by_cases his : i = selfIndex
      · rw [his, hselfKept, and_flag (show 0xFFF#32 &&& PTE_W = PTE_W from rfl),
          flagBits_page2pa_or hd20 (by decide)]
        decide
      · rw [hgrown.kept i hi] at hpresent ⊢
        rw [h.present_eq his hpresent]
        exact h.first_writable
  · intro page hpage
    have hKERNBASE : KERNBASE = 0xC0000000 := rfl
    have hnumber : pageNumber (keyOf (page2kva page)) = 786432 + page := by
      rw [pageNumber_keyOf, page2kva_toNat hpage, hKERNBASE]
      omega
    have hpage' := hpage
    unfold KMEMSIZE at hpage'
    unfold view
    rw [hmapped.leaf_eq _ (pdx_lt _) (kernelIndex_ne_self (kernelKey hpage)) (ptx_lt _), hnumber,
      if_pos (by omega), Nat.add_sub_cancel_left, Nat.zero_add]
    exact decode_leafEntry (by omega) (by decide)

theorem BootDir.mapKernel_spec (h : BootDir dom d s)
    (hself : pde s d selfIndex = page2pa d ||| (PTE_P ||| PTE_W))
    (hrun : mapKernel s d = some t) :
    Booted dom d t ∧ Paged d t ∧ t.pmm.npage = s.pmm.npage ∧
      t.pmm.nrFree + 223 = s.pmm.nrFree ∧
      forall i, i < 768 -> pde t d i = 0#32 := by
  rw [mapKernel_eq] at hrun
  rcases bootMapLoop_grows h.sound (fun _ => kernbase_page) (by decide) kernel_pages_ne_self hrun
    with ⟨bs1, hgrown⟩
  rw [h.missing] at hgrown
  have hcount : t.pmm.nrFree + 223 = s.pmm.nrFree := by
    have hcard := hgrown.nrFree_eq
    rw [Nat.card_Ico] at hcard
    exact hcard
  have hcard : (missingTables s d (786432 * 4096) ((786432 + 229376) * 4096)).card ≤
      s.pmm.nrFree := by
    rw [h.missing, Nat.card_Ico]
    omega
  rcases bootMapLoop_spec PTE_W h.sound (fun _ => kernbase_page)
    (fun _ => first_frame) (by decide) (by decide) kernel_pages_ne_self hcard with
    ⟨t', bs2, hrun', hmapped⟩
  rw [hrun] at hrun'
  cases hrun'
  refine ⟨h.grown_booted hgrown, h.grown_paged hself hgrown hmapped, hgrown.npage_eq, hcount, ?_⟩
  intro i hi
  rw [hgrown.kept i (by rw [Finset.mem_Ico]; omega)]
  exact h.others i (by omega) (by unfold selfIndex; omega)

end Memory
end OsLabs
