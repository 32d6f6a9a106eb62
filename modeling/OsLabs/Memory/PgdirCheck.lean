import OsLabs.Memory.BootMap
import OsLabs.Memory.ScratchTable
import OsLabs.Memory.SelfCheck

/-!
# The self test of the page table

`check_pgdir` of `pmm.c` maps two fresh pages in the first four megabytes, maps one of them
over the other, removes both and gives the page table back.  A failed assertion is `none`.
-/

namespace OsLabs
namespace Memory

open Foundation
open Foundation.Block
open VmState

/-- The kernel's address of a frame, `page2pa(page) + KERNBASE`. -/
def page2kva (page : Nat) : BitVec 32 := page2pa page + BitVec.ofNat 32 KERNBASE

def pde2page (s : VmState) (pde : BitVec 32) : Option Nat := pa2page s (pdeAddr pde)

/-- `alloc_page()` with a result that goes into `page_insert` untested.  For `NULL` that call
fails when it finds no table, and writes to the read-only page at address zero when it finds
one. -/
def allocUsed (s : VmState) : Option (VmState × Nat) :=
  match allocPage s with
  | some (s, some page) => some (s, page)
  | _ => none

/-- `assert(page_insert(pgdir, page, la, perm) == 0)`. -/
def insertOk (s : VmState) (pgdir page : Nat) (la perm : BitVec 32) : Option VmState :=
  match pageInsert s pgdir page la perm with
  | none => none
  | some (s, r) => if r = 0 then some s else none

/-- `assert((ptep = get_pte(pgdir, la, 0)) != NULL)`. -/
def entryAt (s : VmState) (pgdir : Nat) (la : BitVec 32) : Option EntryPtr :=
  match getPte s pgdir la false with
  | some (_, some ptep) => some ptep
  | _ => none

def checkPgdir (s : VmState) (pgdir : Nat) : Option VmState := do
  guard (s.pmm.npage ≤ KMEMSIZE / 4096)
  guard (page2kva pgdir ≠ 0#32 ∧ pgoff (page2kva pgdir) = 0#32)
  let (page, _) <- getPage s pgdir 0#32
  guard (page = none)
  let (s, p1) <- allocUsed s
  let s <- insertOk s pgdir p1 0#32 0#32
  let ptep <- entryAt s pgdir 0#32
  let page <- pte2page s (s.load ptep)
  guard (page = p1)
  guard (s.pageRef p1 = 1)
  let table <- kaddr s (pdeAddr (s.load (EntryPtr.mk pgdir 0)))
  let ptep <- entryAt s pgdir 4096#32
  guard (ptep = EntryPtr.mk table 1)
  let (s, p2) <- allocUsed s
  let s <- insertOk s pgdir p2 4096#32 (PTE_U ||| PTE_W)
  let ptep <- entryAt s pgdir 4096#32
  guard (s.load ptep &&& PTE_U ≠ 0#32)
  guard (s.load ptep &&& PTE_W ≠ 0#32)
  guard (s.load (EntryPtr.mk pgdir 0) &&& PTE_U ≠ 0#32)
  guard (s.pageRef p2 = 1)
  let s <- insertOk s pgdir p1 4096#32 0#32
  guard (s.pageRef p1 = 2)
  guard (s.pageRef p2 = 0)
  let ptep <- entryAt s pgdir 4096#32
  let page <- pte2page s (s.load ptep)
  guard (page = p1)
  guard (s.load ptep &&& PTE_U = 0#32)
  let s <- pageRemove s pgdir 0#32
  guard (s.pageRef p1 = 1)
  guard (s.pageRef p2 = 0)
  let s <- pageRemove s pgdir 4096#32
  guard (s.pageRef p1 = 0)
  guard (s.pageRef p2 = 0)
  let table <- pde2page s (s.load (EntryPtr.mk pgdir 0))
  guard (s.pageRef table = 1)
  let s <- freePage s table
  some (s.store (EntryPtr.mk pgdir 0) 0#32)

variable {dom : Set Nat} {d i t p : Nat} {s0 s s' : VmState} {taken : Set Nat}
  {m : Nat -> Option (Nat × BitVec 32)} {la perm : BitVec 32}

/-!
# Reading the assertions
-/

theorem page2kva_toNat (hd : d < KMEMSIZE / 4096) : (page2kva d).toNat = d * 4096 + KERNBASE := by
  have hKERNBASE : KERNBASE = 0xC0000000 := rfl
  unfold KMEMSIZE at hd
  unfold page2kva
  rw [BitVec.toNat_add, page2pa_toNat (by lia), BitVec.toNat_ofNat, hKERNBASE]
  lia

theorem directory_aligned (hd : d < KMEMSIZE / 4096) :
    page2kva d ≠ 0#32 ∧ pgoff (page2kva d) = 0#32 := by
  have hvalue := page2kva_toNat hd
  have hKERNBASE : KERNBASE = 0xC0000000 := rfl
  constructor
  · intro hbad
    rw [hbad, hKERNBASE, BitVec.toNat_ofNat] at hvalue
    lia
  · apply BitVec.eq_of_toNat_eq
    rw [pgoff_toNat, hvalue, hKERNBASE, BitVec.toNat_ofNat]
    lia

theorem and_flag {mask : BitVec 32} (hmask : 0xFFF#32 &&& mask = mask) (entry : BitVec 32) :
    entry &&& mask = flagBits entry &&& mask := by
  unfold flagBits
  rw [BitVec.and_assoc, hmask]

theorem flagBits_tableEntry (ht : t < 2 ^ 20) :
    flagBits (tableEntry (page2pa t)) = PTE_U ||| PTE_W ||| PTE_P := by
  unfold tableEntry
  rw [BitVec.or_assoc, BitVec.or_assoc, flagBits_page2pa_or ht (by decide), ← BitVec.or_assoc]

theorem insertOk_of (hrun : pageInsert s d p la perm = some (s', 0)) :
    insertOk s d p la perm = some s' := by
  unfold insertOk
  rw [hrun]
  rfl

theorem allocUsed_of (hrun : allocPage s = some (s', some p)) : allocUsed s = some (s', p) := by
  unfold allocUsed
  rw [hrun]

theorem getPage_absent (habsent : present (pde s d (pdx la)) = false) :
    getPage s d la = some (none, none) := by
  unfold getPage
  rw [getPte_absent la habsent]

namespace ScratchTable

theorem entryAt_eq (h : ScratchTable dom d i t s0 taken m s) (hla : pdx la = i) :
    entryAt s d la = some (EntryPtr.mk t (ptx la)) := by
  unfold entryAt
  rw [h.getPte_eq hla false]

theorem ppn_entry (h : ScratchTable dom d i t s0 taken m s) :
    ppn (pdeAddr (s.load (EntryPtr.mk d i))) = t :=
  (ppn_pteAddr _).trans h.tableOf_eq

theorem table_in_memory (h : ScratchTable dom d i t s0 taken m s) : t < s.pmm.npage := by
  rw [h.npage_eq]
  exact h.base.wellFormed.tables.free_lt (h.taken_free h.table_mem)

theorem kaddr_entry (h : ScratchTable dom d i t s0 taken m s) :
    kaddr s (pdeAddr (s.load (EntryPtr.mk d i))) = some t := by
  rw [kaddr_of_lt, h.ppn_entry]
  rw [h.ppn_entry]
  exact h.table_in_memory

theorem pde2page_entry (h : ScratchTable dom d i t s0 taken m s) :
    pde2page s (s.load (EntryPtr.mk d i)) = some t := by
  unfold pde2page pa2page
  rw [h.ppn_entry, if_neg (Nat.not_le.mpr h.table_in_memory)]

end ScratchTable

/-!
# The first page
-/

theorem pageInsert_of_getPte {s1 s2 : VmState} {ptep : EntryPtr}
    (hmade : getPte s1 d la true = some (s2, some ptep))
    (hthere : getPte s2 d la true = some (s2, some ptep)) :
    pageInsert s1 d p la perm = pageInsert s2 d p la perm := by
  unfold pageInsert
  rw [hmade, hthere]

theorem VmInv.first_page (h : VmInv dom d s) (la perm : BitVec 32) (hla : Admissible la)
    (habsent : present (pde s d (pdx la)) = false) (hperm : perm.toNat < 2 ^ 12)
    (hfree : 2 ≤ (freePagesOf s).ncard) :
    exists s1 p t s2, allocUsed s = some (s1, p) ∧ insertOk s1 d p la perm = some s2 ∧
      p ∈ freePagesOf s ∧ p ≠ t ∧
      ScratchTable dom d (pdx la) t s {p, t}
        (Function.update (fun _ => none) (ptx la) (some (p, PTE_P ||| perm))) s2 := by
  have hsome : (freePagesOf s).Nonempty := Set.nonempty_of_ncard_ne_zero (by lia)
  rcases allocPage_takes h hsome with
    ⟨s1, p, halloc, hinv, hp, hfree1, hmem, hnpage, href, horder⟩
  have habsent1 : present (pde s1 d (pdx la)) = false := by
    unfold pde load
    rw [hmem]
    exact habsent
  have hsome1 : (freePagesOf s1).Nonempty := by
    rw [hfree1]
    apply Set.sdiff_nonempty_of_ncard_lt_ncard _ (Set.finite_singleton p)
    rw [Set.ncard_singleton]
    exact hfree
  rcases hinv.opens hla habsent1 hsome1 with ⟨t, s2, hget, hopen⟩
  have ht := hopen.taken_free hopen.table_mem
  rw [hfree1] at ht
  have hpt : p ≠ t := fun heq => ht.right heq.symm
  have hbase := hopen.after_alloc h hp hfree1 hmem hnpage href fun hasc => (horder hasc).left
  rcases hbase.insert la perm rfl (Or.inl rfl) hpt hperm
    (ScratchTable.left_of_empty (m := fun _ => none) (j := ptx la) rfl) with ⟨s3, hrun, htable⟩
  refine ⟨s1, p, t, s3, allocUsed_of halloc, insertOk_of ?_, hp, hpt, htable⟩
  rw [pageInsert_of_getPte hget (hopen.getPte_eq rfl true)]
  exact hrun

theorem VmInv.allocUsed_free (h : VmInv dom d s) (hrun : allocUsed s = some (s', p)) :
    (freePagesOf s).Nonempty := by
  by_contra hnone
  rw [Set.not_nonempty_iff_eq_empty] at hnone
  unfold allocUsed at hrun
  rw [allocPage_none h hnone] at hrun
  cases hrun

theorem VmInv.first_page_free (h : VmInv dom d s) {s1 s2 : VmState}
    (habsent : present (pde s d (pdx la)) = false) (halloc : allocUsed s = some (s1, p))
    (hinsert : insertOk s1 d p la perm = some s2) : 2 ≤ (freePagesOf s).ncard := by
  have hsome := h.allocUsed_free halloc
  rcases allocPage_takes h hsome with ⟨s1', p', halloc', hinv, hp, hfree1, hmem, _⟩
  rw [allocUsed_of halloc'] at halloc
  cases halloc
  have habsent1 : present (pde s1 d (pdx la)) = false := by
    unfold pde load
    rw [hmem]
    exact habsent
  by_contra hfew
  have hempty : freePagesOf s1 = ∅ := by
    have hcard := Set.ncard_sdiff_singleton_add_one hp (freePagesOf_finite s)
    rw [← hfree1] at hcard
    apply (Set.ncard_eq_zero (freePagesOf_finite s1)).mp
    lia
  unfold insertOk pageInsert at hinsert
  rcases hinv.wellFormed.tables.getPte_makes_table habsent1 with hnone | hmade
  · rw [hnone.left] at hinsert
    cases hinsert
  · rcases hmade with ⟨_, q, _, hq, _⟩
    change q ∈ freePagesOf s1 at hq
    rw [hempty] at hq
    cases hq

/-!
# The whole test
-/

theorem checkPgdir_passes (h : VmInv dom d s) (hzero : pde s d 0 = 0#32)
    (hfree : 3 ≤ (freePagesOf s).ncard) :
    exists s', checkPgdir s d = some s' ∧ Restored dom d s s' ∧
      (Ascending (listedBlocks s.pmm) -> Ascending (listedBlocks s'.pmm)) := by
  have hd : d < KMEMSIZE / 4096 := h.wellFormed.dir_lt.trans_le h.wellFormed.npage_le
  have hfirst : pdx 0#32 = 0 := rfl
  have hsecond : pdx 4096#32 = 0 := rfl
  have habsent : present (pde s d (pdx 0#32)) = false := by
    rw [hfirst, hzero]
    rfl
  rcases h.first_page 0#32 0#32 (by decide) habsent (by decide)
    (by lia) with ⟨s1, p1, t, s2, halloc1, hinsert1, hp1, hp1t, h2⟩
  rw [hfirst, ← twoSlots_none, show ptx 0#32 = 0 from rfl, twoSlots_first] at h2
  have hleft2 : (freePagesOf s2).Nonempty := by
    rw [h2.free_eq]
    apply Set.sdiff_nonempty_of_ncard_lt_ncard _ ((Set.finite_singleton t).insert p1)
    rw [Set.ncard_pair hp1t]
    exact hfree
  rcases h2.alloc hleft2 with ⟨s3, p2, halloc2, hp2, hp2out, h3⟩
  have hp2t : p2 ≠ t := fun heq => hp2out (Or.inr heq)
  have hp21 : p2 ≠ p1 := fun heq => hp2out (Or.inl heq)
  rcases h3.insert 4096#32 (PTE_U ||| PTE_W) hsecond (Or.inl rfl) hp2t (by decide)
    (ScratchTable.left_of_empty rfl) with ⟨s4, hinsert2, h4⟩
  rw [show ptx 4096#32 = 1 from rfl, twoSlots_second] at h4
  rcases h4.insert 4096#32 0#32 hsecond (Or.inr (Or.inl rfl)) hp1t (by decide)
    (ScratchTable.left_of_dropped rfl (by
      rw [show ptx 4096#32 = 1 from rfl, twoSlots_second, slots_twoSlots]
      simp [hp21.symm]) hp2out) with ⟨s5, hinsert3, h5⟩
  rw [show ptx 4096#32 = 1 from rfl, twoSlots_second] at h5
  rcases h5.remove 0#32 hfirst (ScratchTable.left_of_kept rfl (by
    rw [show ptx 0#32 = 0 from rfl, twoSlots_first, slots_twoSlots]
    simp)) with ⟨s6, hremove1, h6⟩
  rw [show ptx 0#32 = 0 from rfl, twoSlots_first] at h6
  rcases h6.remove 4096#32 hsecond (ScratchTable.left_of_dropped rfl (by
    rw [show ptx 4096#32 = 1 from rfl, twoSlots_second, slots_twoSlots]
    simp) (fun heq => hp1t heq)) with ⟨s7, hremove2, h7⟩
  rw [show ptx 4096#32 = 1 from rfl, twoSlots_second, twoSlots_none] at h7
  have htdom : t ∈ dom := h.represents.cover_subset (h7.taken_free h7.table_mem)
  have htout : t ∉ cover (listedBlocks s7.pmm) := by
    intro hbad
    change t ∈ freePagesOf s7 at hbad
    rw [h7.free_eq] at hbad
    exact hbad.right rfl
  rcases freePage_frees h7.inv.represents htdom htout with
    ⟨pmm, bs', hrun, hrep, hnpage, hcover, hasc, href⟩
  have href2 : s2.pageRef p1 = 1 := by
    rw [h2.data_ref hp1 hp1t, slots_twoSlots]
    simp
  have href4 : s4.pageRef p2 = 1 := by
    rw [h4.data_ref hp2 hp2t, slots_twoSlots]
    simp [hp21.symm]
  have href5 : s5.pageRef p1 = 2 ∧ s5.pageRef p2 = 0 := by
    rw [h5.data_ref hp1 hp1t, h5.data_ref hp2 hp2t, slots_twoSlots, slots_twoSlots]
    simp [hp21.symm]
  have href6 : s6.pageRef p1 = 1 ∧ s6.pageRef p2 = 0 := by
    rw [h6.data_ref hp1 hp1t, h6.data_ref hp2 hp2t, slots_twoSlots, slots_twoSlots]
    simp [hp21.symm]
  have href7 : s7.pageRef p1 = 0 ∧ s7.pageRef p2 = 0 := by
    rw [h7.data_ref hp1 hp1t, h7.data_ref hp2 hp2t, slots_none, slots_none]
    exact ⟨rfl, rfl⟩
  have hflags4 := (h4.slot_entry (j := 1) (by decide) rfl).right
  have hflags5 := (h5.slot_entry (j := 1) (by decide) rfl).right
  have huser4 : s4.load (EntryPtr.mk t 1) &&& PTE_U ≠ 0#32 := by
    rw [and_flag rfl, hflags4]
    decide
  have hwrite4 : s4.load (EntryPtr.mk t 1) &&& PTE_W ≠ 0#32 := by
    rw [and_flag rfl, hflags4]
    decide
  have huserTable : s4.load (EntryPtr.mk d 0) &&& PTE_U ≠ 0#32 := by
    rw [show s4.load (EntryPtr.mk d 0) = tableEntry (page2pa t) from h4.entry, and_flag rfl,
      flagBits_tableEntry h4.table_lt]
    decide
  have huser5 : s5.load (EntryPtr.mk t 1) &&& PTE_U = 0#32 := by
    rw [and_flag rfl, hflags5]
    decide
  refine ⟨_, ?_, h7.restored hzero hrep hnpage ?_ ?_, ?_⟩
  · unfold checkPgdir
    apply bind_step (guard_of h.wellFormed.npage_le)
    apply bind_step (guard_of (directory_aligned hd))
    apply bind_step (getPage_absent habsent)
    apply bind_step (guard_of rfl)
    apply bind_step halloc1
    apply bind_step hinsert1
    apply bind_step (h2.entryAt_eq hfirst)
    apply bind_step (h2.slot_entry (by decide) rfl).left
    apply bind_step (guard_of rfl)
    apply bind_step (guard_of href2)
    apply bind_step h2.kaddr_entry
    apply bind_step (h2.entryAt_eq hsecond)
    apply bind_step (guard_of rfl)
    apply bind_step (allocUsed_of halloc2)
    apply bind_step (insertOk_of hinsert2)
    apply bind_step (h4.entryAt_eq hsecond)
    apply bind_step (guard_of huser4)
    apply bind_step (guard_of hwrite4)
    apply bind_step (guard_of huserTable)
    apply bind_step (guard_of href4)
    apply bind_step (insertOk_of hinsert3)
    apply bind_step (guard_of href5.left)
    apply bind_step (guard_of href5.right)
    apply bind_step (h5.entryAt_eq hsecond)
    apply bind_step (h5.slot_entry (by decide) rfl).left
    apply bind_step (guard_of rfl)
    apply bind_step (guard_of huser5)
    apply bind_step hremove1
    apply bind_step (guard_of href6.left)
    apply bind_step (guard_of href6.right)
    apply bind_step hremove2
    apply bind_step (guard_of href7.left)
    apply bind_step (guard_of href7.right)
    apply bind_step h7.pde2page_entry
    apply bind_step (guard_of h7.table_ref)
    apply bind_step hrun
    rfl
  · rw [hcover]
    change {t} ∪ freePagesOf s7 = _
    rw [h7.free_eq, Set.union_sdiff_cancel h7.taken_free]
  · intro q
    rw [href q]
    by_cases hq : q = t
    · rw [if_pos hq, hq, h.free_ref (h7.taken_free h7.table_mem)]
    · rw [if_neg hq, h7.ref_eq q hq, slots_none]
      exact Int.add_zero _
  · intro h0
    rw [store_pmm, hrep.listedBlocks_eq]
    exact hasc (h7.ascending h0)

theorem checkPgdir_free (h : VmInv dom d s) (hzero : pde s d 0 = 0#32)
    (hrun : checkPgdir s d = some s') : 3 ≤ (freePagesOf s).ncard := by
  have habsent : present (pde s d (pdx 0#32)) = false := by
    rw [show pdx 0#32 = 0 from rfl, hzero]
    rfl
  unfold checkPgdir at hrun
  rcases Option.bind_eq_some_iff.mp hrun with ⟨_, _, hrun⟩
  rcases Option.bind_eq_some_iff.mp hrun with ⟨_, _, hrun⟩
  rcases Option.bind_eq_some_iff.mp hrun with ⟨_, _, hrun⟩
  rcases Option.bind_eq_some_iff.mp hrun with ⟨_, _, hrun⟩
  rcases Option.bind_eq_some_iff.mp hrun with ⟨⟨s1, p1⟩, halloc1, hrun⟩
  rcases Option.bind_eq_some_iff.mp hrun with ⟨s2, hinsert1, hrun⟩
  rcases Option.bind_eq_some_iff.mp hrun with ⟨_, _, hrun⟩
  rcases Option.bind_eq_some_iff.mp hrun with ⟨_, _, hrun⟩
  rcases Option.bind_eq_some_iff.mp hrun with ⟨_, _, hrun⟩
  rcases Option.bind_eq_some_iff.mp hrun with ⟨_, _, hrun⟩
  rcases Option.bind_eq_some_iff.mp hrun with ⟨_, _, hrun⟩
  rcases Option.bind_eq_some_iff.mp hrun with ⟨_, _, hrun⟩
  rcases Option.bind_eq_some_iff.mp hrun with ⟨_, _, hrun⟩
  rcases Option.bind_eq_some_iff.mp hrun with ⟨⟨s3, p2⟩, halloc2, _⟩
  have htwo := h.first_page_free habsent halloc1 hinsert1
  rcases h.first_page 0#32 0#32 (by decide) habsent (by decide) htwo with
    ⟨t1, q1, t, t2, halloc1', hinsert1', _, hpt, htable⟩
  rw [halloc1] at halloc1'
  cases halloc1'
  rw [hinsert1] at hinsert1'
  cases hinsert1'
  have hsome := htable.inv.allocUsed_free halloc2
  rw [htable.free_eq] at hsome
  by_contra hfew
  have hcard := Set.ncard_sdiff_add_ncard_of_subset htable.taken_free (freePagesOf_finite s)
  rw [Set.ncard_pair hpt] at hcard
  have hempty : freePagesOf s \ {p1, t} = ∅ := by
    apply (Set.ncard_eq_zero ((freePagesOf_finite s).sdiff)).mp
    omega
  rw [hempty] at hsome
  exact Set.not_nonempty_empty hsome

theorem Restored.lookup_eq (h : Restored dom d s s') (hs : VmInv dom d s) (x : BitVec 32) :
    lookup s' d x = lookup s d x :=
  hs.wellFormed.lookup_congr h.inv.wellFormed h.npage_eq (h.view_eq _ (pdx_lt x))

end Memory
end OsLabs
