import OsLabs.Memory.PgdirCheck

/-!
# What the paging unit sees

The processor walks the two levels of tables on its own.  Along every run of the address space
operations its walk agrees with `get_page` on user addresses, takes `KADDR(pa)` to `pa`, and
shows the tables themselves in the window at `VPT`.
-/

namespace OsLabs
namespace Memory

open Foundation
open Foundation.Block
open VmState

/-- Whether an entry lets an access through.  `kern_entry` sets `CR0_WP`, so the kernel's own
writes need `PTE_W` as well. -/
def allows (write : Bool) (entry : BitVec 32) : Bool :=
  present entry && (!write || (entry &&& PTE_W) != 0#32)

/-- The frame and the offset that the walk from `cr3` ends at; `none` is a page fault. -/
def translate (s : VmState) (cr3 : Nat) (write : Bool) (la : BitVec 32) : Option (Nat × Nat) :=
  let pde := s.load (EntryPtr.mk cr3 (pdx la))
  if allows write pde then
    let pte := s.load (EntryPtr.mk (ppn pde) (ptx la))
    if allows write pte then some (ppn pte, (pgoff la).toNat) else none
  else none

/-- `*(uint32_t *)la`. -/
def loadWord (s : VmState) (cr3 : Nat) (la : BitVec 32) : Option (BitVec 32) :=
  match translate s cr3 false la with
  | none => none
  | some (frame, offset) => some (s.load (EntryPtr.mk frame (offset / 4)))

/-- `PGADDR(d, t, o)`. -/
def pgaddr (d t : Nat) (o : BitVec 32) : BitVec 32 :=
  BitVec.ofNat 32 d <<< 22 ||| BitVec.ofNat 32 t <<< 12 ||| o

def vpt : BitVec 32 := BitVec.ofNat 32 VPT

def vpd : BitVec 32 := pgaddr (pdx vpt) (pdx vpt) 0#32

/-- `&table[n]` for a table of words at `table`. -/
def wordAddr (table : BitVec 32) (n : Nat) : BitVec 32 := table + BitVec.ofNat 32 (4 * n)

variable {dom : Set Nat} {d : Nat} {s s' : VmState} {write : Bool} {la : BitVec 32}

/-!
# The walk, read off the address space
-/

def DirWritable (d : Nat) (s : VmState) : Prop :=
  forall i, i < NPDEENTRY -> present (pde s d i) = true -> pde s d i &&& PTE_W ≠ 0#32

def walked (write : Bool) (la : BitVec 32) : Option (Nat × BitVec 32) -> Option (Nat × Nat)
  | none => none
  | some (page, flags) =>
      if (!write || (flags &&& PTE_W) != 0#32) then some (page, la.toNat % 4096) else none

theorem translate_view (hdir : DirWritable d s) (write : Bool) (la : BitVec 32) :
    translate s d write la = walked write la (view s d (keyOf la)) := by
  unfold translate view
  change (if allows write (pde s d (pdx la)) then _ else _) = _
  cases hpde : present (pde s d (pdx la)) with
  | false =>
      rw [leaf_of_absent hpde]
      unfold allows
      rw [hpde]
      rfl
  | true =>
      have hallows : allows write (pde s d (pdx la)) = true := by
        unfold allows
        rw [hpde, Bool.true_and, Bool.or_eq_true, bne_iff_ne]
        exact Or.inr (hdir _ (pdx_lt la) hpde)
      have hleaf : s.load (EntryPtr.mk (ppn (s.load (EntryPtr.mk d (pdx la)))) (ptx la)) =
          leaf s d (keyOf la) := load_entryPtr (k := keyOf la) hpde
      rw [if_pos hallows]
      simp only [hleaf]
      unfold allows decode
      cases hpte : present (leaf s d (keyOf la)) with
      | false => rfl
      | true =>
          rw [Bool.true_and, and_flag (show 0xFFF#32 &&& PTE_W = PTE_W from rfl), pgoff_toNat]
          rfl

/-!
# What the operations leave alone
-/

structure Paged (d : Nat) (s : VmState) : Prop where
  selfMap : present (pde s d selfIndex) = true
  writable : DirWritable d s
  linear : forall page, page < KMEMSIZE / 4096 ->
    view s d (keyOf (page2kva page)) = some (page, PTE_P ||| PTE_W)

theorem tableEntry_writable (pa : BitVec 32) : tableEntry pa &&& PTE_W ≠ 0#32 := by
  have hand : tableEntry pa &&& PTE_W = PTE_W := by
    unfold tableEntry
    rw [BitVec.and_comm]
    apply BitVec.eq_of_getLsbD_eq
    intro k hk
    rw [BitVec.getLsbD_and, BitVec.getLsbD_or, BitVec.getLsbD_or, BitVec.getLsbD_or]
    cases hbit : PTE_W.getLsbD k with
    | false => rfl
    | true => simp
  rw [hand]
  decide

theorem getPte_dirWritable (h : WellFormed dom d s (listedBlocks s.pmm)) (hdir : DirWritable d s)
    {r : Option EntryPtr} (hrun : getPte s d la true = some (s', r)) : DirWritable d s' := by
  cases hpresent : present (pde s d (pdx la)) with
  | true =>
      rw [h.getPte_present la true hpresent] at hrun
      cases hrun
      exact hdir
  | false =>
      rcases h.tables.getPte_makes_table hpresent with hnone | hmade
      · rw [hnone.left] at hrun
        cases hrun
        exact hdir
      · rcases hmade with ⟨pmm, t, bs', ht, _, _, _, _, _, _, hmake⟩
        rw [hmake] at hrun
        cases hrun
        intro i hi hpi
        rw [pde_withTable (h.tables.free_ne_dir ht)] at hpi ⊢
        by_cases hia : i = pdx la
        · rw [if_pos hia]
          exact tableEntry_writable _
        · rw [if_neg hia] at hpi ⊢
          exact hdir i hi hpi

theorem DirWritable.congr (hdir : DirWritable d s) (hpde : forall i, pde s' d i = pde s d i) :
    DirWritable d s' := by
  intro i hi hpi
  rw [hpde] at hpi ⊢
  exact hdir i hi hpi

theorem kernelKey {page : Nat} (hpage : page < KMEMSIZE / 4096) :
    kernelIndex (keyOf (page2kva page)).fst = true := by
  have hvalue := page2kva_toNat hpage
  have hKERNBASE : KERNBASE = 0xC0000000 := rfl
  unfold KMEMSIZE at hpage
  unfold keyOf kernelIndex
  rw [pdx_eq, hvalue, hKERNBASE, decide_eq_true_iff]
  omega

theorem kernelIndex_ne_self {i : Nat} (hi : kernelIndex i = true) : i ≠ selfIndex := by
  unfold kernelIndex at hi
  unfold selfIndex
  have hrange := of_decide_eq_true hi
  omega

theorem kernelKey_ne {page : Nat} (hpage : page < KMEMSIZE / 4096) (hla : Admissible la) :
    keyOf (page2kva page) ≠ keyOf la := by
  intro heq
  have hkernel := kernelKey hpage
  have huser := (admissible_iff la).mp hla
  rw [heq] at hkernel
  unfold userIndex at huser
  rw [show kernelIndex (pdx la) = true from hkernel] at huser
  simp at huser

theorem Paged.edited {bs bs' : List Block} {new : Option (Nat × BitVec 32)} (h : Paged d s)
    (hla : Admissible la) (hedit : Edited dom d s s' bs bs' (keyOf la) new) : Paged d s' := by
  constructor
  · rw [hedit.pde_eq]
    exact h.selfMap
  · exact h.writable.congr hedit.pde_eq
  · intro page hpage
    rw [hedit.view_eq _ (pdx_lt _), if_neg (kernelKey_ne hpage hla)]
    exact h.linear page hpage

theorem Paged.reached {bs bs' : List Block} {r : Option EntryPtr} (h : Paged d s)
    (hwf : WellFormed dom d s (listedBlocks s.pmm)) (hla : Admissible la)
    (hrun : getPte s d la true = some (s', r)) (hreached : Reached dom d s s' bs bs' la) :
    Paged d s' := by
  constructor
  · rw [hreached.pde_eq]
    · exact h.selfMap
    · exact (userIndex_ne_self ((admissible_iff la).mp hla)).symm
  · exact getPte_dirWritable hwf h.writable hrun
  · intro page hpage
    rw [hreached.view_eq _ (pdx_lt _) (kernelIndex_ne_self (kernelKey hpage))]
    exact h.linear page hpage

theorem Paged.step (h : Paged d s) (hinv : VmInv dom d s) {op : VmOp}
    (hstep : VmStep dom d s op s') : Paged d s' := by
  have hwf := hinv.wellFormed
  cases hstep with
  | allocPage hrun =>
      rcases hinv.allocPage with ⟨t, r, hrun', _, hmem, _⟩
      rw [hrun] at hrun'
      cases hrun'
      have hview : forall k, view s' d k = view s d k := by
        intro k
        unfold view leaf tableOf pde load
        rw [hmem]
      have hpde : forall i, pde s' d i = pde s d i := by
        intro i
        unfold pde load
        rw [hmem]
      constructor
      · rw [hpde]
        exact h.selfMap
      · exact h.writable.congr hpde
      · intro page hpage
        rw [hview]
        exact h.linear page hpage
  | pageInsert hpage hla hperm hrun =>
      unfold pageInsert at hrun
      rcases hwf.getPte_create hla with hfail | hmade
      · rw [hfail.left] at hrun
        cases hrun
        exact h
      · rcases hmade with ⟨s1, bs1, hget, hreached⟩
        have hpaged := h.reached hwf hla hget hreached
        rcases hreached.wellFormed.pageReplace_spec (keyOf_mem_userKeys hla)
          hreached.present_pde (hreached.refsExact hinv.refs)
          ((hreached.data_iff _).mpr hpage) hperm with ⟨s2, bs2, hreplace, hedit⟩
        rw [hget] at hrun
        simp only at hrun
        rw [hreplace] at hrun
        cases hrun
        exact hpaged.edited hla hedit
  | pageRemove hla hrun =>
      rcases hwf.pageRemove_spec hinv.refs hla with ⟨t, bs', hrun', hedit⟩
      rw [hrun] at hrun'
      cases hrun'
      exact h.edited hla hedit

def pagedSystem (dom : Set Nat) (d : Nat) : System VmState VmOp where
  init := fun s => Booted dom d s ∧ Paged d s
  step := VmStep dom d

theorem reachable_paged (h : (pagedSystem dom d).Reachable s) : VmInv dom d s ∧ Paged d s := by
  apply h.invariant
  · intro s hinit
    exact ⟨Booted.vmInv hinit.left, hinit.right⟩
  · intro s op t hinv hstep
    exact ⟨hinv.left.step hstep, hinv.right.step hinv.left hstep⟩

/-!
# The windows of the kernel
-/

/-- A user address is looked up and walked to the same page. -/
theorem VmInv.lookup_walked (h : VmInv dom d s) (hdir : DirWritable d s) (hla : Admissible la) :
    exists v, lookup s d la = some v ∧ forall write, translate s d write la = walked write la v := by
  refine ⟨view s d (keyOf la), ?_, fun write => translate_view hdir write la⟩
  rw [h.wellFormed.lookup_eq]
  cases hview : view s d (keyOf la) with
  | none => rfl
  | some v =>
      have htarget : target s d (keyOf la) = some v.fst := by
        unfold target
        rw [hview]
        rfl
      have hlt := h.wellFormed.data_lt
        (h.wellFormed.mapped _ (keyOf_mem_userKeys hla) v.fst htarget)
      exact if_neg (Nat.not_le.mpr hlt)

theorem Paged.translate_kernel (h : Paged d s) {pa : BitVec 32} (hpa : pa.toNat < KMEMSIZE)
    (write : Bool) : translate s d write (pa + BitVec.ofNat 32 KERNBASE) =
      some (ppn pa, pa.toNat % 4096) := by
  have hKERNBASE : KERNBASE = 0xC0000000 := rfl
  have hKMEMSIZE : KMEMSIZE = 0x38000000 := rfl
  rw [hKMEMSIZE] at hpa
  have hpage : ppn pa < KMEMSIZE / 4096 := by
    rw [ppn_eq, hKMEMSIZE]
    omega
  have hsum : (pa + BitVec.ofNat 32 KERNBASE).toNat = pa.toNat + 0xC0000000 := by
    rw [BitVec.toNat_add, BitVec.toNat_ofNat, hKERNBASE]
    omega
  have hkey : keyOf (pa + BitVec.ofNat 32 KERNBASE) = keyOf (page2kva (ppn pa)) := by
    apply keyOf_eq
    rw [ppn_eq, ppn_eq, hsum, page2kva_toNat hpage, ppn_eq, hKERNBASE]
    omega
  rw [translate_view h.writable, hkey, h.linear _ hpage]
  have hoffset : (pa.toNat + 0xC0000000) % 4096 = pa.toNat % 4096 := by omega
  unfold walked
  simp only
  rw [if_pos (by rw [Bool.or_eq_true]; exact Or.inr rfl), hsum, hoffset]

theorem wordAddr_toNat {table : BitVec 32} {n : Nat} (h : table.toNat + 4 * n < 2 ^ 32) :
    (wordAddr table n).toNat = table.toNat + 4 * n := by
  unfold wordAddr
  rw [BitVec.toNat_add, BitVec.toNat_ofNat]
  omega

theorem walked_read {entry : BitVec 32} (la : BitVec 32) :
    walked false la (decode entry) =
      if present entry then some (ppn entry, la.toNat % 4096) else none := by
  unfold decode
  cases present entry with
  | false => rfl
  | true => rfl

theorem Paged.load_vpt (h : Paged d s) (hwf : WellFormed dom d s (listedBlocks s.pmm)) {n : Nat}
    (hn : n < 2 ^ 20) :
    loadWord s d (wordAddr vpt n) =
      if present (pde s d (n / 1024)) then some (leaf s d (n / 1024, n % 1024)) else none := by
  have hvpt : vpt.toNat = 0xFAC00000 := rfl
  have hvalue : (wordAddr vpt n).toNat = 0xFAC00000 + 4 * n := by
    rw [wordAddr_toNat (by rw [hvpt]; omega), hvpt]
  have hpdx : pdx (wordAddr vpt n) = selfIndex := by
    rw [pdx_eq, hvalue]
    unfold selfIndex
    omega
  have hptx : ptx (wordAddr vpt n) = n / 1024 := by
    rw [ptx_eq, hvalue]
    omega
  have hkey : keyOf (wordAddr vpt n) = (selfIndex, n / 1024) := by
    unfold keyOf
    rw [hpdx, hptx]
  have hoffset : (wordAddr vpt n).toNat % 4096 / 4 = n % 1024 := by
    rw [hvalue]
    omega
  unfold loadWord
  rw [translate_view h.writable, hkey, hwf.view_self, if_pos h.selfMap, walked_read]
  cases hpresent : present (pde s d (n / 1024)) with
  | false => rfl
  | true =>
      rw [leaf_of_present hpresent, if_pos rfl, if_pos rfl]
      simp only [hoffset]
      rfl

end Memory
end OsLabs
