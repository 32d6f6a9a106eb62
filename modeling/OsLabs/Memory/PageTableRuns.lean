import OsLabs.Foundation.Transition
import OsLabs.Memory.AllocatorRuns
import OsLabs.Memory.PageTableEdits

/-!
# What holds along every run on one page directory

`alloc_page`, `page_insert` and `page_remove` on one directory, in any order,
from the state the kernel has booted into.  The boot-mapped window and the
self-map window of the directory are set up before and only read here.
-/

namespace OsLabs
namespace Memory

open Foundation
open Foundation.Block
open VmState

def freePagesOf (s : VmState) : Set Nat := cover (listedBlocks s.pmm)

def IsData (dom : Set Nat) (d : Nat) (s : VmState) (p : Nat) : Prop :=
  DataPage dom d s (listedBlocks s.pmm) p

/-- The directory before any address outside the two windows is mapped.  The
tables of the boot-mapped window are neither free nor the directory itself. -/
structure Booted (dom : Set Nat) (d : Nat) (s : VmState) : Prop where
  represents : Represents s.pmm dom (listedBlocks s.pmm)
  npage_le : s.pmm.npage ≤ KMEMSIZE / 4096
  dir_lt : d < s.pmm.npage
  dir_reserved : d ∉ dom
  selfMap : present (pde s d selfIndex) = true -> tableOf s d selfIndex = d
  user_absent : forall i, userIndex i = true -> present (pde s d i) = false
  table_lt : forall p, IsTable s d p -> p < s.pmm.npage
  table_ne_dir : forall p, IsTable s d p -> p ≠ d
  table_used : forall p, IsTable s d p -> p ∉ freePagesOf s
  unreferenced : forall p, IsData dom d s p -> s.pageRef p = 0

inductive VmOp where
  | allocPage
  | pageInsert (page : Nat) (la perm : BitVec 32)
  | pageRemove (la : BitVec 32)

inductive VmStep (dom : Set Nat) (d : Nat) : VmState -> VmOp -> VmState -> Prop where
  | allocPage {s s' : VmState} {r : Option Nat} (hrun : allocPage s = some (s', r)) :
      VmStep dom d s VmOp.allocPage s'
  | pageInsert {s s' : VmState} {page : Nat} {la perm : BitVec 32} {r : Int}
      (hpage : IsData dom d s page) (hla : Admissible la) (hperm : perm.toNat < 2 ^ 12)
      (hrun : pageInsert s d page la perm = some (s', r)) :
      VmStep dom d s (VmOp.pageInsert page la perm) s'
  | pageRemove {s s' : VmState} {la : BitVec 32} (hla : Admissible la)
      (hrun : pageRemove s d la = some s') :
      VmStep dom d s (VmOp.pageRemove la) s'

def vmSystem (dom : Set Nat) (d : Nat) : System VmState VmOp where
  init := Booted dom d
  step := VmStep dom d

/-!
# The inductive invariant
-/

/-- The address space fits the allocator and the reference counts are exact. -/
structure VmInv (dom : Set Nat) (d : Nat) (s : VmState) : Prop where
  wellFormed : WellFormed dom d s (listedBlocks s.pmm)
  refs : RefsExact dom d s (listedBlocks s.pmm)

variable {dom : Set Nat} {d : Nat} {s s' : VmState} {bs bs' : List Block}

theorem VmInv.of_blocks (h : WellFormed dom d s bs) (hrefs : RefsExact dom d s bs) :
    VmInv dom d s := by
  have hbs := h.represents.listedBlocks_eq
  rw [← hbs] at h hrefs
  exact ⟨h, hrefs⟩

theorem Booted.target_none (h : Booted dom d s) {k : Nat × Nat} (hk : k ∈ userKeys) :
    target s d k = none := by
  unfold target view
  rw [leaf_of_absent (h.user_absent _ (mem_userKeys.mp hk).left)]
  rfl

theorem Booted.vmInv (h : Booted dom d s) : VmInv dom d s := by
  refine ⟨?_, ?_⟩
  · refine ⟨h.represents, h.npage_le, h.dir_lt, h.dir_reserved, h.selfMap, h.table_lt,
      h.table_ne_dir, h.table_used, ?_, ?_⟩
    · intro i k hi hpresent
      rw [h.user_absent i hi] at hpresent
      cases hpresent
    · intro k hk p htarget
      rw [h.target_none hk] at htarget
      cases htarget
  · intro p hp
    have hzero : mapCount s d p = 0 := by
      apply Nat.eq_zero_of_not_pos
      intro hpos
      rcases mapCount_pos.mp hpos with ⟨k, hk, htarget⟩
      rw [h.target_none hk] at htarget
      cases htarget
    rw [h.unreferenced p hp, hzero]
    rfl

theorem VmInv.allocPage (h : VmInv dom d s) :
    exists s' r, allocPage s = some (s', r) ∧ VmInv dom d s' ∧
      s'.mem = s.mem ∧ freePagesOf s' ⊆ freePagesOf s := by
  rcases allocPage_spec h.wellFormed.represents with
    ⟨pmm, r, bs', hrun, hrep, hnpage, href, hnone, hsome, _⟩
  have hsub : cover bs' ⊆ cover (listedBlocks s.pmm) := by
    cases r with
    | none =>
        rw [(hnone rfl).right.left]
    | some p =>
        rw [(hsome p rfl).right.left]
        exact Set.sdiff_subset
  have hwf := h.wellFormed.withPmm hrep hnpage fun p hin hout => absurd (hsub hin) hout
  refine ⟨_, r, hrun, VmInv.of_blocks hwf ?_, rfl, ?_⟩
  · intro p hp
    have hnotTable : ¬ IsTable s d p := hp.notTable
    change (pmm.pages p).ref = mapCount s d p
    rw [href p]
    by_cases hfree : p ∈ cover (listedBlocks s.pmm)
    · rw [h.wellFormed.represents.free_ref p hfree]
      have hzero : mapCount s d p = 0 := by
        apply Nat.eq_zero_of_not_pos
        intro hpos
        rcases mapCount_pos.mp hpos with ⟨k, hk, htarget⟩
        exact (h.wellFormed.mapped k hk p htarget).used hfree
      rw [hzero]
      rfl
    · exact h.refs p ⟨hp.mem, hfree, hnotTable⟩
  · unfold freePagesOf
    rw [hwf.represents.listedBlocks_eq]
    exact hsub

theorem Edited.vmInv {k : Nat × Nat} {new : Option (Nat × BitVec 32)}
    (h : Edited dom d s s' bs bs' k new) (hk : k ∈ userKeys)
    (hrefs : RefsExact dom d s bs) : VmInv dom d s' :=
  VmInv.of_blocks h.wellFormed (h.refsExact hk hrefs)

theorem VmInv.step (h : VmInv dom d s) {op : VmOp} (hstep : VmStep dom d s op s') :
    VmInv dom d s' := by
  cases hstep with
  | allocPage hrun =>
      rcases h.allocPage with ⟨t, r, hrun', hinv, _⟩
      rw [hrun] at hrun'
      cases hrun'
      exact hinv
  | pageInsert hpage hla hperm hrun =>
      cases h.wellFormed.pageInsert_spec h.refs hpage hla hperm with
      | inl hfail =>
          rw [hfail.left] at hrun
          cases hrun
          exact h
      | inr hdone =>
          rcases hdone with ⟨s1, bs1, t, bs', hrun', hreached, hedit⟩
          rw [hrun] at hrun'
          cases hrun'
          exact hedit.vmInv (keyOf_mem_userKeys hla) (hreached.refsExact h.refs)
  | pageRemove hla hrun =>
      rcases h.wellFormed.pageRemove_spec h.refs hla with ⟨t, bs', hrun', hedit⟩
      rw [hrun] at hrun'
      cases hrun'
      exact hedit.vmInv (keyOf_mem_userKeys hla) h.refs

theorem reachable_vmInv (h : (vmSystem dom d).Reachable s) : VmInv dom d s := by
  apply h.invariant
  · intro s hinit
    exact Booted.vmInv hinit
  · intro s op t hinv hstep
    exact hinv.step hstep

/-!
# Reference counts
-/

theorem Edited.freed_pages {k : Nat × Nat} {new : Option (Nat × BitVec 32)}
    (h : Edited dom d s s' bs bs' k new) (hk : k ∈ userKeys) {p : Nat}
    (hp : DataPage dom d s bs p) :
    p ∈ freePagesOf s' <-> 0 < mapCount s d p ∧ mapCount s' d p = 0 := by
  unfold freePagesOf
  rw [h.wellFormed.represents.listedBlocks_eq]
  exact h.freed_iff hk hp

theorem VmInv.freed_iff (h : VmInv dom d s) {op : VmOp} (hstep : VmStep dom d s op s')
    {p : Nat} (hp : IsData dom d s p) :
    p ∈ freePagesOf s' <-> 0 < mapCount s d p ∧ mapCount s' d p = 0 := by
  cases hstep with
  | allocPage hrun =>
      rcases h.allocPage with ⟨t, r, hrun', _, hmem, hsub⟩
      rw [hrun] at hrun'
      cases hrun'
      have hcount : mapCount s' d p = mapCount s d p := by
        apply mapCount_congr
        intro k _
        unfold view leaf tableOf pde load
        rw [hmem]
      constructor
      · intro hfree
        exact absurd (hsub hfree) hp.used
      · intro hc
        lia
  | pageInsert hpage hla hperm hrun =>
      cases h.wellFormed.pageInsert_spec h.refs hpage hla hperm with
      | inl hfail =>
          rw [hfail.left] at hrun
          cases hrun
          constructor
          · intro hfree
            exact absurd hfree hp.used
          · intro hc
            lia
      | inr hdone =>
          rcases hdone with ⟨s1, bs1, t, bs', hrun', hreached, hedit⟩
          rw [hrun] at hrun'
          cases hrun'
          rw [hedit.freed_pages (keyOf_mem_userKeys hla) ((hreached.data_iff p).mpr hp),
            hreached.mapCount_eq]
  | pageRemove hla hrun =>
      rcases h.wellFormed.pageRemove_spec h.refs hla with ⟨t, bs', hrun', hedit⟩
      rw [hrun] at hrun'
      cases hrun'
      exact hedit.freed_pages (keyOf_mem_userKeys hla) hp

/-- Along every run the reference count of a data page is the number of entries
outside the two windows that map it, a data page is returned exactly when its
last such entry goes, and neither mapped pages nor page tables are free. -/
theorem reference_counts_exact (h : (vmSystem dom d).Reachable s) :
    (forall p, IsData dom d s p -> s.pageRef p = mapCount s d p) ∧
    (forall op s', VmStep dom d s op s' -> forall p, IsData dom d s p ->
      (p ∈ freePagesOf s' <-> 0 < mapCount s d p ∧ mapCount s' d p = 0)) ∧
    (forall p, 0 < mapCount s d p -> p ∉ freePagesOf s) ∧
    (forall p, IsTable s d p -> p ∉ freePagesOf s) ∧
    (exists s' r, allocPage s = some (s', r)) ∧
    (forall page la perm, IsData dom d s page -> Admissible la -> perm.toNat < 2 ^ 12 ->
      exists s' r, pageInsert s d page la perm = some (s', r)) ∧
    (forall la, Admissible la -> exists s', pageRemove s d la = some s') := by
  have hinv := reachable_vmInv h
  refine ⟨hinv.refs, ?_, ?_, hinv.wellFormed.table_used, ?_, ?_, ?_⟩
  · intro op s' hstep p hp
    exact hinv.freed_iff hstep hp
  · intro p hpos
    rcases mapCount_pos.mp hpos with ⟨k, hk, htarget⟩
    exact (hinv.wellFormed.mapped k hk p htarget).used
  · rcases hinv.allocPage with ⟨s', r, hrun, _⟩
    exact ⟨s', r, hrun⟩
  · intro page la perm hpage hla hperm
    cases hinv.wellFormed.pageInsert_spec hinv.refs hpage hla hperm with
    | inl hfail => exact ⟨s, _, hfail.left⟩
    | inr hdone =>
        rcases hdone with ⟨_, _, s', _, hrun, _⟩
        exact ⟨s', 0, hrun⟩
  · intro la hla
    rcases hinv.wellFormed.pageRemove_spec hinv.refs hla with ⟨s', _, hrun, _⟩
    exact ⟨s', hrun⟩

/-!
# The state the kernel boots into

`entry.S` provides the directory and one page table, which maps the first four
megabytes at `KERNBASE`; `pmm_init` then puts the directory into itself.
-/

/-- `__boot_pgdir` in frame `d` and `__boot_pt1` in frame `pt`. -/
def bootMem (d pt : Nat) (ptr : EntryPtr) : BitVec 32 :=
  if ptr.frame = d then
    if ptr.index = 768 then page2pa pt ||| (PTE_P ||| PTE_U ||| PTE_W) else 0#32
  else if ptr.frame = pt then
    page2pa ptr.index ||| (PTE_P ||| PTE_W)
  else
    0#32

def bootVm (pmm : PmmState) (d pt : Nat) : VmState :=
  (VmState.mk pmm (bootMem d pt)).store (EntryPtr.mk d selfIndex)
    (page2pa d ||| (PTE_P ||| PTE_W))

theorem pde_bootVm (pmm : PmmState) (d pt i : Nat) :
    pde (bootVm pmm d pt) d i =
      if i = selfIndex then page2pa d ||| (PTE_P ||| PTE_W)
      else if i = 768 then page2pa pt ||| (PTE_P ||| PTE_U ||| PTE_W)
      else 0#32 := by
  unfold pde bootVm
  rw [load_store]
  by_cases hi : i = selfIndex
  · rw [if_pos hi, if_pos (by rw [hi])]
  · rw [if_neg hi, if_neg]
    · unfold load bootMem
      simp
    · intro heq
      exact hi (congrArg EntryPtr.index heq)

theorem isTable_bootVm {pmm : PmmState} {d pt p : Nat} (hpt : pt < 2 ^ 20)
    (h : IsTable (bootVm pmm d pt) d p) : p = pt := by
  rcases h with ⟨i, _, hself, hpresent, htable⟩
  unfold tableOf at htable
  rw [pde_bootVm, if_neg hself] at hpresent htable
  by_cases hi : i = 768
  · rw [if_pos hi, ppn_page2pa_or hpt (by decide)] at htable
    exact htable.symm
  · rw [if_neg hi] at hpresent
    cases hpresent

/-- The one table of the directory is `__boot_pt1`, outside the free pages. -/
theorem bootVm_tablesSound {editable : Nat -> Bool}
    (heditable : forall i, editable i = true -> i < NPDEENTRY ∧ i ≠ selfIndex)
    {s0 pmm : PmmState} {ranges : List Block} {d pt : Nat}
    (hboot : Bootable s0 ranges) (hrun : initMemmaps (defaultInit s0) ranges = some pmm)
    (hnpage : pmm.npage ≤ KMEMSIZE / 4096) (hd : d < pmm.npage) (hpt : pt < pmm.npage)
    (hne : d ≠ pt) (hdOut : d ∉ cover ranges) (hptOut : pt ∉ cover ranges) :
    TablesSound editable (cover ranges) d (bootVm pmm d pt) ranges := by
  have howns := owns_init hboot
    (show (allocatorSystem s0 ranges).init (AllocWorld.mk pmm (cover ranges) ∅) from
      ⟨hrun, rfl, rfl⟩)
  have hpt20 : pt < 2 ^ 20 := by
    unfold KMEMSIZE at hnpage
    lia
  have htab : forall p, IsTable (bootVm pmm d pt) d p -> p = pt :=
    fun p hp => isTable_bootVm hpt20 hp
  have honly : forall i, i ≠ selfIndex -> present (pde (bootVm pmm d pt) d i) = true ->
      i = 768 := by
    intro i hi hpresent
    rw [pde_bootVm, if_neg hi] at hpresent
    by_contra hother
    rw [if_neg hother] at hpresent
    cases hpresent
  constructor
  · exact howns.represents
  · exact hnpage
  · exact hd
  · exact hdOut
  · exact fun i hi => (heditable i hi).left
  · exact fun i hi => (heditable i hi).right
  · intro p hp
    rw [htab p hp]
    exact hpt
  · intro p hp
    rw [htab p hp]
    exact hne.symm
  · intro p hp
    rw [htab p hp]
    exact hptOut
  · intro i k hi hpi _ hk hpk _
    rw [honly i (heditable i hi).right hpi, honly k hk hpk]

theorem bootVm_booted {s0 pmm : PmmState} {ranges : List Block} {d pt : Nat}
    (hboot : Bootable s0 ranges) (hrun : initMemmaps (defaultInit s0) ranges = some pmm)
    (hnpage : pmm.npage ≤ KMEMSIZE / 4096) (hd : d < pmm.npage) (hpt : pt < pmm.npage)
    (hne : d ≠ pt) (hdOut : d ∉ cover ranges) (hptOut : pt ∉ cover ranges) :
    Booted (cover ranges) d (bootVm pmm d pt) := by
  have hsound := bootVm_tablesSound
    (fun _ hi => ⟨userIndex_lt hi, userIndex_ne_self hi⟩) hboot hrun hnpage hd hpt hne hdOut hptOut
  have hlisted : listedBlocks (bootVm pmm d pt).pmm = ranges := hsound.represents.listedBlocks_eq
  have hd20 : d < 2 ^ 20 := by
    unfold KMEMSIZE at hnpage
    lia
  constructor
  · rw [hlisted]
    exact hsound.represents
  · exact hnpage
  · exact hd
  · exact hdOut
  · intro _
    unfold tableOf
    rw [pde_bootVm, if_pos rfl, ppn_page2pa_or hd20 (by decide)]
  · intro i hi
    have hne768 : i ≠ 768 := by
      intro heq
      rw [heq] at hi
      cases hi
    rw [pde_bootVm, if_neg (userIndex_ne_self hi), if_neg hne768]
    rfl
  · exact hsound.table_lt
  · exact hsound.table_ne_dir
  · intro p hp
    unfold freePagesOf
    rw [hlisted]
    exact hsound.table_used p hp
  · intro p hp
    have hused := hp.used
    rw [hlisted] at hused
    exact absurd hp.mem hused

/-- Eight pages, the first two of them taken by the directory and its table. -/
def eightPages : PmmState :=
  match initMemmaps (defaultInit (reservedMemory 8)) [Block.mk 2 6] with
  | none => reservedMemory 8
  | some s => s

theorem not_free_of_lt_two {p : Nat} (hp : p < 2) : p ∉ cover [Block.mk 2 6] := by
  intro hc
  rcases hc with ⟨b, hb, hspan⟩
  rw [List.mem_singleton.mp hb, mem_span] at hspan
  simp only [stop_mk] at hspan
  lia

theorem eightPages_booted :
    Booted (cover [Block.mk 2 6]) 0 (bootVm eightPages 0 1) :=
  bootVm_booted (reservedMemory_bootable 8 (Block.mk 2 6) (by decide) (by decide)) rfl
    (by decide) (by decide) (by decide) (by decide) (not_free_of_lt_two (by decide))
    (not_free_of_lt_two (by decide))

/-- The state after an `alloc_page` that is known to return. -/
def afterAllocPage (s : VmState) : VmState :=
  match allocPage s with
  | none => s
  | some (s, _) => s

def afterPageInsert (s : VmState) (d page : Nat) (la perm : BitVec 32) : VmState :=
  match pageInsert s d page la perm with
  | none => s
  | some (s, _) => s

def afterPageRemove (s : VmState) (d : Nat) (la : BitVec 32) : VmState :=
  match pageRemove s d la with
  | none => s
  | some s => s

theorem afterPageInsert_eq {page : Nat} {la perm : BitVec 32} {r : Int}
    (h : (pageInsert s d page la perm).map Prod.snd = some r) :
    pageInsert s d page la perm = some (afterPageInsert s d page la perm, r) := by
  rcases Option.map_eq_some_iff.mp h with ⟨⟨t, r'⟩, hrun, hr⟩
  subst hr
  unfold afterPageInsert
  rw [hrun]

theorem afterPageRemove_eq {la : BitVec 32} (h : (pageRemove s d la).isSome = true) :
    pageRemove s d la = some (afterPageRemove s d la) := by
  rcases Option.isSome_iff_exists.mp h with ⟨t, hrun⟩
  unfold afterPageRemove
  rw [hrun]

def oneAllocated : VmState := afterAllocPage (bootVm eightPages 0 1)

def onceMapped : VmState := afterPageInsert oneAllocated 0 2 0#32 PTE_W

def twiceMapped : VmState := afterPageInsert onceMapped 0 2 0x1000#32 0#32

def onceRemoved : VmState := afterPageRemove twiceMapped 0 0#32

theorem isData_two {bs : List Block} (hlisted : listedBlocks s.pmm = bs)
    (hout : forall b, b ∈ bs -> ¬ (b.head ≤ 2 ∧ 2 < b.stop))
    (hscan : forall i, i < NPDEENTRY -> i ≠ selfIndex -> present (pde s 0 i) = true ->
      tableOf s 0 i ≠ 2) :
    IsData (cover [Block.mk 2 6]) 0 s 2 := by
  refine ⟨⟨Block.mk 2 6, by simp, mem_span.mpr (by decide)⟩, ?_, ?_⟩
  · rw [hlisted]
    rintro ⟨b, hb, hspan⟩
    exact hout b hb (mem_span.mp hspan)
  · rintro ⟨i, hi, hself, hpresent, htable⟩
    exact hscan i hi hself hpresent htable

theorem oneAllocated_reachable :
    (vmSystem (cover [Block.mk 2 6]) 0).Reachable oneAllocated :=
  System.Reachable.step (System.Reachable.init eightPages_booted)
    (VmStep.allocPage (show allocPage (bootVm eightPages 0 1) =
      some (oneAllocated, some 2) from rfl))

theorem oneAllocated_data : IsData (cover [Block.mk 2 6]) 0 oneAllocated 2 :=
  isData_two rfl (by decide) (by decide +kernel)

theorem onceMapped_reachable :
    (vmSystem (cover [Block.mk 2 6]) 0).Reachable onceMapped :=
  System.Reachable.step oneAllocated_reachable
    (VmStep.pageInsert oneAllocated_data (by decide) (by decide)
      (afterPageInsert_eq (r := 0) (by decide +kernel)))

theorem onceMapped_data : IsData (cover [Block.mk 2 6]) 0 onceMapped 2 :=
  isData_two (show listedBlocks onceMapped.pmm = [Block.mk 4 4] by decide +kernel)
    (by decide) (by decide +kernel)

theorem twiceMapped_insert :
    pageInsert onceMapped 0 2 0x1000#32 0#32 = some (twiceMapped, 0) :=
  afterPageInsert_eq (by decide +kernel)

theorem twiceMapped_reachable :
    (vmSystem (cover [Block.mk 2 6]) 0).Reachable twiceMapped :=
  System.Reachable.step onceMapped_reachable
    (VmStep.pageInsert onceMapped_data (by decide) (by decide) twiceMapped_insert)

theorem onceRemoved_reachable :
    (vmSystem (cover [Block.mk 2 6]) 0).Reachable onceRemoved :=
  System.Reachable.step twiceMapped_reachable
    (VmStep.pageRemove (show Admissible 0#32 by decide) (afterPageRemove_eq (by decide +kernel)))

theorem onceRemoved_data : IsData (cover [Block.mk 2 6]) 0 onceRemoved 2 :=
  isData_two (show listedBlocks onceRemoved.pmm = [Block.mk 4 4] by decide +kernel)
    (by decide) (by decide +kernel)

/-- Page 2 is mapped twice and one mapping is taken away: one is left and counted, and
with it the page goes back to the free list. -/
theorem reference_counts_exact_eight_pages :
    exists s s', (vmSystem (cover [Block.mk 2 6]) 0).Reachable s ∧
      IsData (cover [Block.mk 2 6]) 0 s 2 ∧ s.pageRef 2 = 1 ∧ mapCount s 0 2 = 1 ∧
      pageRemove s 0 0x1000#32 = some s' ∧ 2 ∈ freePagesOf s' ∧ mapCount s' 0 2 = 0 := by
  have hfacts := reference_counts_exact onceRemoved_reachable
  have href : onceRemoved.pageRef 2 = 1 := by decide +kernel
  have hcount := hfacts.left 2 onceRemoved_data
  have hremove : pageRemove onceRemoved 0 0x1000#32 =
      some (afterPageRemove onceRemoved 0 0x1000#32) :=
    afterPageRemove_eq (by decide +kernel)
  have hlisted : listedBlocks (afterPageRemove onceRemoved 0 0x1000#32).pmm =
      [Block.mk 2 1, Block.mk 4 4] := by decide +kernel
  have hfree : 2 ∈ freePagesOf (afterPageRemove onceRemoved 0 0x1000#32) := by
    unfold freePagesOf
    rw [hlisted]
    exact ⟨Block.mk 2 1, by simp, mem_span.mpr (by decide)⟩
  have hgone := (hfacts.right.left _ _ (VmStep.pageRemove (by decide) hremove) 2
    onceRemoved_data).mp hfree
  exact ⟨onceRemoved, _, onceRemoved_reachable, onceRemoved_data, href, by lia, hremove, hfree,
    hgone.right⟩

/-!
The boot-mapped window maps every page of the first four megabytes, and no
reference is counted for it.
-/

@[irreducible]
def allKeys : Finset (Nat × Nat) := Finset.range NPDEENTRY ×ˢ Finset.range NPTEENTRY

def allMapCount (s : VmState) (d p : Nat) : Nat := fiberCard allKeys (target s d) p

theorem boot_mapping_not_counted :
    exists s p, (vmSystem (cover [Block.mk 2 6]) 0).Reachable s ∧
      IsData (cover [Block.mk 2 6]) 0 s p ∧ s.pageRef p ≠ allMapCount s 0 p := by
  refine ⟨_, 2, oneAllocated_reachable, oneAllocated_data, ?_⟩
  have hzero : oneAllocated.pageRef 2 = 0 := rfl
  have hpos : 0 < allMapCount oneAllocated 0 2 := by
    apply fiberCard_pos.mpr
    refine ⟨(768, 2), ?_, by decide⟩
    unfold allKeys
    rw [Finset.mem_product, Finset.mem_range, Finset.mem_range]
    decide
  rw [hzero]
  lia

/-!
# The directory as a finite map
-/

def tablePage (la : BitVec 32) : Nat := VPT / 4096 + pdx la

theorem tablePage_iff (x la : BitVec 32) :
    ppn x = tablePage la <-> pdx x = selfIndex ∧ ptx x = pdx la := by
  have hla := la.isLt
  rw [ppn_eq, pdx_eq x, ptx_eq]
  unfold tablePage VPT selfIndex
  rw [pdx_eq]
  lia

theorem WellFormed.view_self (h : WellFormed dom d s bs) (j : Nat) :
    view s d (selfIndex, j) =
      if present (pde s d selfIndex) then decode (pde s d j) else none := by
  unfold view
  cases hself : present (pde s d selfIndex) with
  | false =>
      rw [leaf_of_absent hself]
      rfl
  | true =>
      rw [leaf_of_present hself]
      simp only [h.selfMap hself, if_true]
      rfl

theorem WellFormed.lookup_congr (h : WellFormed dom d s bs) (h' : WellFormed dom d s' bs')
    (hnpage : s'.pmm.npage = s.pmm.npage) {x : BitVec 32}
    (hview : view s' d (keyOf x) = view s d (keyOf x)) :
    lookup s' d x = lookup s d x := by
  rw [h.lookup_eq, h'.lookup_eq, hview, hnpage]

theorem keyOf_ne {x la : BitVec 32} (h : ppn x ≠ ppn la) : keyOf x ≠ keyOf la := by
  intro heq
  apply h
  rw [ppn_eq_iff]
  exact ⟨congrArg Prod.fst heq, congrArg Prod.snd heq⟩

theorem keyOf_eq {x la : BitVec 32} (h : ppn x = ppn la) : keyOf x = keyOf la := by
  rcases (ppn_eq_iff x la).mp h with ⟨hpdx, hptx⟩
  unfold keyOf
  rw [hpdx, hptx]

theorem Edited.lookup_other {la : BitVec 32} {new : Option (Nat × BitVec 32)}
    (h : Edited dom d s s' bs bs' (keyOf la) new) (hwf : WellFormed dom d s bs)
    {x : BitVec 32} (hx : ppn x ≠ ppn la) : lookup s' d x = lookup s d x := by
  apply hwf.lookup_congr h.wellFormed h.npage_eq
  rw [h.view_eq _ (pdx_lt x), if_neg (keyOf_ne hx)]

theorem Reached.lookup_eq {la : BitVec 32} (h : Reached dom d s s' bs bs' la)
    (hwf : WellFormed dom d s bs) (hla : Admissible la) {x : BitVec 32}
    (hx : ppn x = tablePage la -> present (pde s d (pdx la)) = true) :
    lookup s' d x = lookup s d x := by
  apply hwf.lookup_congr h.wellFormed h.npage_eq
  by_cases hself : pdx x = selfIndex
  · have hkey : keyOf x = (selfIndex, ptx x) := by
      unfold keyOf
      rw [hself]
    by_cases hptx : ptx x = pdx la
    · have hsame := h.kept (hx ((tablePage_iff x la).mpr ⟨hself, hptx⟩))
      rw [hsame]
    · have hne : selfIndex ≠ pdx la :=
        (userIndex_ne_self ((admissible_iff la).mp hla)).symm
      rw [hkey, hwf.view_self, h.wellFormed.view_self, h.pde_eq _ hne, h.pde_eq _ hptx]
  · exact h.view_eq _ (pdx_lt x) hself

theorem Edited.lookup_self {la : BitVec 32} {page : Nat} {flags : BitVec 32}
    (h : Edited dom d s s' bs bs' (keyOf la) (some (page, flags)))
    (hpage : page < s.pmm.npage) {x : BitVec 32} (hx : ppn x = ppn la) :
    lookup s' d x = some (some (page, flags)) := by
  rw [h.wellFormed.lookup_eq, h.view_eq _ (pdx_lt x), if_pos (keyOf_eq hx)]
  simp only
  rw [if_neg]
  rw [h.npage_eq]
  exact Nat.not_le.mpr hpage

/-- In every reachable state `page_insert` and `page_remove` act on the lookups
as an update and a deletion of one page; the table that `page_insert` may have to
make shows up in the self-map window.  Without memory for it nothing changes. -/
theorem page_table_finite_map (h : (vmSystem dom d).Reachable s) :
    (forall page la perm, IsData dom d s page -> Admissible la -> perm.toNat < 2 ^ 12 ->
      exists s' r, pageInsert s d page la perm = some (s', r) ∧
        (r = 0 ∨ r = -E_NO_MEM) ∧
        (r = 0 ->
          (forall x, ppn x = ppn la -> lookup s' d x = some (some (page, PTE_P ||| perm))) ∧
          forall x, ppn x ≠ ppn la ->
            (ppn x = tablePage la -> present (pde s d (pdx la)) = true) ->
            lookup s' d x = lookup s d x) ∧
        (r = -E_NO_MEM ->
          (forall x, lookup s' d x = lookup s d x) ∧
          (forall p, s'.pageRef p = s.pageRef p) ∧
          listedBlocks s'.pmm = listedBlocks s.pmm)) ∧
    (forall la, Admissible la ->
      exists s', pageRemove s d la = some s' ∧
        (forall x, ppn x = ppn la -> lookup s' d x = some none) ∧
        forall x, ppn x ≠ ppn la -> lookup s' d x = lookup s d x) := by
  have hinv := reachable_vmInv h
  have hwf := hinv.wellFormed
  constructor
  · intro page la perm hpage hla hperm
    cases hwf.pageInsert_spec hinv.refs hpage hla hperm with
    | inl hfail =>
        refine ⟨s, -E_NO_MEM, hfail.left, Or.inr rfl, ?_, ?_⟩
        · intro hbad
          cases hbad
        · intro _
          exact ⟨fun _ => rfl, fun _ => rfl, rfl⟩
    | inr hdone =>
        rcases hdone with ⟨s1, bs1, s', bs', hrun, hreached, hedit⟩
        refine ⟨s', 0, hrun, Or.inl rfl, ?_, ?_⟩
        · intro _
          constructor
          · intro x hx
            apply hedit.lookup_self ?_ hx
            rw [hreached.npage_eq]
            exact hwf.data_lt hpage
          · intro x hx htable
            rw [hedit.lookup_other hreached.wellFormed hx,
              hreached.lookup_eq hwf hla htable]
        · intro hbad
          cases hbad
  · intro la hla
    rcases hwf.pageRemove_spec hinv.refs hla with ⟨s', bs', hrun, hedit⟩
    refine ⟨s', hrun, ?_, ?_⟩
    · intro x hx
      rw [hedit.wellFormed.lookup_eq, hedit.view_eq _ (pdx_lt x), if_pos (keyOf_eq hx)]
    · intro x hx
      exact hedit.lookup_other hwf hx

/-- Page 2 is mapped at address 0, then at a second address, and the first mapping goes
again. -/
theorem page_table_finite_map_eight_pages :
    exists s s', (vmSystem (cover [Block.mk 2 6]) 0).Reachable s ∧
      lookup s 0 0#32 = some (some (2, 3#32)) ∧ lookup s 0 0x1000#32 = some none ∧
      pageInsert s 0 2 0x1000#32 0#32 = some (s', 0) ∧
      lookup s' 0 0x1FFF#32 = some (some (2, 1#32)) ∧
      lookup s' 0 0#32 = some (some (2, 3#32)) ∧
      exists s'', pageRemove s' 0 0#32 = some s'' ∧ lookup s'' 0 0#32 = some none ∧
        lookup s'' 0 0x1000#32 = some (some (2, 1#32)) := by
  have hold : lookup onceMapped 0 0#32 = some (some (2, 3#32)) := by decide +kernel
  have habsent : lookup onceMapped 0 0x1000#32 = some none := by decide +kernel
  rcases (page_table_finite_map onceMapped_reachable).left 2 0x1000#32 0#32 onceMapped_data
    (by decide) (by decide) with ⟨s', r, hrun, _, hdone, _⟩
  rcases Prod.mk.inj (Option.some.inj (twiceMapped_insert.symm.trans hrun)) with ⟨hs, hr⟩
  rw [← hs] at hdone
  rcases hdone hr.symm with ⟨hnew, hothers⟩
  rcases (page_table_finite_map twiceMapped_reachable).right 0#32 (by decide) with
    ⟨s'', hremove, hgone, hkept⟩
  refine ⟨onceMapped, twiceMapped, onceMapped_reachable, hold, habsent,
    twiceMapped_insert, hnew _ (by decide), ?_, s'', hremove, hgone _ rfl, ?_⟩
  · rw [hothers 0#32 (by decide) (by decide), hold]
  · rw [hkept 0x1000#32 (by decide), hnew _ rfl]
    rfl

theorem new_table_in_self_map :
    exists s s' x, (vmSystem (cover [Block.mk 2 6]) 0).Reachable s ∧
      IsData (cover [Block.mk 2 6]) 0 s 2 ∧ Admissible 0#32 ∧
      pageInsert s 0 2 0#32 0#32 = some (s', 0) ∧ ppn x ≠ ppn 0#32 ∧
      lookup s 0 x = some none ∧ lookup s' 0 x = some (some (3, 7#32)) :=
  ⟨oneAllocated, afterPageInsert oneAllocated 0 2 0#32 0#32, 0xFAC00000#32,
    oneAllocated_reachable, oneAllocated_data, by decide, rfl, by decide, rfl, rfl⟩

end Memory
end OsLabs
