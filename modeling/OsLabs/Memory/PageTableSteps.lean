import OsLabs.Memory.AddressSpace

/-!
# One specification for each operation on the page table

Every operation returns (no assertion of the kernel fails), keeps the address
space well formed and edits at most one of its keys.
-/

namespace OsLabs
namespace Memory

open Foundation
open Foundation.Block
open VmState

variable {editable : Nat -> Bool} {dom : Set Nat} {d : Nat} {s : VmState} {bs : List Block}

def keyOf (la : BitVec 32) : Nat × Nat := (pdx la, ptx la)

theorem keyOf_mem_userKeys {la : BitVec 32} (h : Admissible la) : keyOf la ∈ userKeys :=
  mem_userKeys.mpr ⟨(admissible_iff la).mp h, ptx_lt la⟩

theorem TablesSound.page_lt (h : TablesSound editable dom d s bs) {p : Nat}
    (hp : p < s.pmm.npage) : p < 2 ^ 20 := by
  have hle := h.npage_le
  unfold KMEMSIZE at hle
  lia

theorem TablesSound.free_lt (h : TablesSound editable dom d s bs) {p : Nat}
    (hp : p ∈ cover bs) : p < s.pmm.npage :=
  h.represents.bound p (h.represents.cover_subset hp)

theorem TablesSound.free_ne_dir (h : TablesSound editable dom d s bs) {p : Nat}
    (hp : p ∈ cover bs) : p ≠ d := by
  intro heq
  rw [heq] at hp
  exact h.dir_used hp

theorem WellFormed.data_lt (h : WellFormed dom d s bs) {p : Nat}
    (hp : DataPage dom d s bs p) : p < s.pmm.npage :=
  h.represents.bound p hp.mem

/-!
# Single pages
-/

theorem span_one (p : Nat) : (Block.mk p 1).span = {p} := by
  ext q
  rw [mem_span, stop_mk, Set.mem_singleton_iff]
  simp only
  lia

theorem allocPage_spec (h : Represents s.pmm dom bs) :
    exists pmm r bs', allocPage s = some ({ s with pmm := pmm }, r) ∧
      Represents pmm dom bs' ∧ pmm.npage = s.pmm.npage ∧
      (forall q, (pmm.pages q).ref = (s.pmm.pages q).ref) ∧
      (r = none -> pmm = s.pmm ∧ bs' = bs ∧ cover bs = ∅ ∧ s.pmm.nrFree = 0) ∧
      (forall p, r = some p -> p ∈ cover bs ∧ cover bs' = cover bs \ {p} ∧
        pmm.nrFree + 1 = s.pmm.nrFree) ∧
      (Ascending bs -> Ascending bs' ∧ forall p, r = some p -> IsLeast (cover bs) p) := by
  rcases defaultAllocPages_spec h (n := 1) (by decide) with
    ⟨pmm, r, bs', hrun, hto, hrep, hnpage, href, hnone⟩
  refine ⟨pmm, r, bs', ?_, hrep, hnpage, href, ?_, ?_, ?_⟩
  · unfold allocPage allocPages
    rw [hrun]
  · intro hr
    refine ⟨hnone hr, ?_⟩
    subst hr
    cases hto with
    | refused hsmall =>
        have hempty : bs = [] := by
          rw [List.eq_nil_iff_forall_not_mem]
          intro b hb
          have hpos := h.separated.size_pos b hb
          have hlt := hsmall b hb
          lia
        subst hempty
        exact ⟨rfl, cover_nil, h.nrFree_eq⟩
  · intro p hr
    subst hr
    have hcover := hto.cover_eq
    have hdisjoint := hto.disjoint h.separated
    have hout : handedOut 1 (some p) = {p} := span_one p
    rw [hout] at hcover hdisjoint
    refine ⟨?_, ?_, ?_⟩
    · rw [hcover]
      exact Or.inl rfl
    · rw [hcover, Set.union_sdiff_cancel_left]
      exact Set.disjoint_iff.mp hdisjoint
    · rw [hrep.nrFree_eq, h.nrFree_eq]
      exact hto.sum_eq.symm
  · intro hasc
    refine ⟨hto.page_ascending h.separated hasc, ?_⟩
    intro p hr
    subst hr
    exact hto.page_isLeast h.separated hasc

theorem freePage_frees (h : Represents s.pmm dom bs) {p : Nat} (hp : p ∈ dom)
    (hout : p ∉ cover bs) :
    exists pmm bs', freePage s p = some { s with pmm := pmm } ∧ Represents pmm dom bs' ∧
      pmm.npage = s.pmm.npage ∧ cover bs' = {p} ∪ cover bs ∧
      (Ascending bs -> Ascending bs') ∧
      forall q, (pmm.pages q).ref = if q = p then 0 else s.pageRef q := by
  have hdom : (Block.mk p 1).span ⊆ dom := by
    rw [span_one, Set.singleton_subset_iff]
    exact hp
  have hapart : Disjoint (Block.mk p 1).span (cover bs) := by
    rw [span_one, Set.disjoint_singleton_left]
    exact hout
  rcases defaultFreePages_spec h Nat.one_pos hdom hapart with ⟨pmm, hrun, hrep, hnpage, href⟩
  refine ⟨pmm, _, ?_, hrep, hnpage, ?_, ?_, ?_⟩
  · unfold freePage freePages
    rw [hrun]
  · rw [releaseBlock_cover, span_one]
  · exact releaseBlock_ascending (h.separated.cons_of_disjoint Nat.one_pos hapart)
  · intro q
    rw [href q]
    congr 1
    apply propext
    lia

/-!
# Walking to an entry
-/

theorem kaddr_of_lt {pa : BitVec 32} (h : ppn pa < s.pmm.npage) :
    kaddr s pa = some (ppn pa) := by
  unfold kaddr
  rw [if_neg (Nat.not_le.mpr h)]

theorem tableEntryPtr_of_lt (la : BitVec 32) (hlt : tableOf s d (pdx la) < s.pmm.npage) :
    tableEntryPtr s (EntryPtr.mk d (pdx la)) la =
      some (s, some (entryPtr s d (keyOf la))) := by
  have hppn : ppn (pdeAddr (s.load (EntryPtr.mk d (pdx la)))) = tableOf s d (pdx la) :=
    ppn_pteAddr _
  unfold tableEntryPtr
  rw [kaddr_of_lt (by rw [hppn]; exact hlt), hppn]
  rfl

theorem getPte_of_lt (la : BitVec 32) (create : Bool)
    (hpresent : present (pde s d (pdx la)) = true)
    (hlt : tableOf s d (pdx la) < s.pmm.npage) :
    getPte s d la create = some (s, some (entryPtr s d (keyOf la))) := by
  unfold getPte
  exact (if_pos hpresent).trans (tableEntryPtr_of_lt la hlt)

theorem WellFormed.tableOf_lt (h : WellFormed dom d s bs) {i : Nat} (hi : i < NPDEENTRY)
    (hpresent : present (pde s d i) = true) : tableOf s d i < s.pmm.npage := by
  by_cases hself : i = selfIndex
  · subst hself
    rw [h.selfMap hpresent]
    exact h.dir_lt
  · exact h.table_lt _ ⟨i, hi, hself, hpresent, rfl⟩

theorem WellFormed.getPte_present (h : WellFormed dom d s bs) (la : BitVec 32)
    (create : Bool) (hpresent : present (pde s d (pdx la)) = true) :
    getPte s d la create = some (s, some (entryPtr s d (keyOf la))) :=
  getPte_of_lt la create hpresent (h.tableOf_lt (pdx_lt la) hpresent)

theorem getPte_absent (la : BitVec 32) (habsent : present (pde s d (pdx la)) = false) :
    getPte s d la false = some (s, none) := by
  unfold getPte
  simp only
  rw [if_neg]
  · rfl
  · intro hpresent
    change present (pde s d (pdx la)) = true at hpresent
    rw [habsent] at hpresent
    cases hpresent

theorem WellFormed.lookup_eq (h : WellFormed dom d s bs) (la : BitVec 32) :
    lookup s d la =
      match view s d (keyOf la) with
      | none => some none
      | some (page, flags) =>
          if s.pmm.npage ≤ page then none else some (some (page, flags)) := by
  unfold lookup getPage
  cases hpresent : present (pde s d (pdx la)) with
  | false =>
      rw [getPte_absent la hpresent]
      unfold view decode
      rw [leaf_of_absent hpresent]
      rfl
  | true =>
      have hload : s.load (entryPtr s d (keyOf la)) = leaf s d (keyOf la) :=
        load_entryPtr hpresent
      rw [h.getPte_present la false hpresent]
      unfold view decode
      simp only [hload]
      cases hleaf : present (leaf s d (keyOf la)) with
      | false => rfl
      | true =>
          unfold pte2page pa2page
          rw [hleaf, ppn_pteAddr]
          by_cases hbound : s.pmm.npage ≤ ppn (leaf s d (keyOf la))
          · simp [hbound]
          · simp [hbound, hload]

/-!
# Adding a page table
-/

/-- The memory after a cleared table has been put into a directory entry. -/
def withTable (s : VmState) (pmm : PmmState) (d i t : Nat) : VmState :=
  (({ s with pmm := pmm } : VmState).clearFrame t).store (EntryPtr.mk d i)
    (tableEntry (page2pa t))

theorem pde_withTable {pmm : PmmState} {i t : Nat} (htd : t ≠ d) (j : Nat) :
    pde (withTable s pmm d i t) d j =
      if j = i then tableEntry (page2pa t) else pde s d j := by
  unfold pde withTable
  rw [load_store, load_clearFrame]
  by_cases hj : j = i
  · subst hj
    rw [if_pos rfl, if_pos rfl]
  · have hptr : EntryPtr.mk d j ≠ EntryPtr.mk d i := by
      intro heq
      exact hj (congrArg EntryPtr.index heq)
    rw [if_neg hptr, if_neg hj, if_neg]
    · rfl
    · exact fun heq => htd heq.symm

section AddTable

variable {pmm : PmmState} {i t : Nat}

theorem tableOf_withTable (htd : t ≠ d) (ht : t < 2 ^ 20) (j : Nat) :
    tableOf (withTable s pmm d i t) d j = if j = i then t else tableOf s d j := by
  unfold tableOf
  rw [pde_withTable htd]
  by_cases hj : j = i
  · rw [if_pos hj, if_pos hj, ppn_tableEntry ht]
  · rw [if_neg hj, if_neg hj]

theorem present_withTable (htd : t ≠ d) (j : Nat) :
    present (pde (withTable s pmm d i t) d j) = true <->
      j = i ∨ present (pde s d j) = true := by
  rw [pde_withTable htd]
  by_cases hj : j = i
  · rw [if_pos hj]
    exact ⟨fun _ => Or.inl hj, fun _ => present_tableEntry _⟩
  · rw [if_neg hj]
    constructor
    · exact Or.inr
    · intro h
      cases h with
      | inl heq => exact absurd heq hj
      | inr hp => exact hp

theorem isTable_withTable (htd : t ≠ d) (ht : t < 2 ^ 20) (hi : i < NPDEENTRY)
    (hself : i ≠ selfIndex) (habsent : present (pde s d i) = false) (p : Nat) :
    IsTable (withTable s pmm d i t) d p <-> p = t ∨ IsTable s d p := by
  constructor
  · intro h
    rcases h with ⟨j, hj, hself, hpresent, htable⟩
    rw [tableOf_withTable htd ht] at htable
    by_cases hji : j = i
    · rw [if_pos hji] at htable
      exact Or.inl htable.symm
    · rw [if_neg hji] at htable
      cases (present_withTable htd j).mp hpresent with
      | inl heq => exact absurd heq hji
      | inr hp => exact Or.inr ⟨j, hj, hself, hp, htable⟩
  · intro h
    cases h with
    | inl heq =>
        refine ⟨i, hi, hself, (present_withTable htd i).mpr (Or.inl rfl), ?_⟩
        rw [tableOf_withTable htd ht, if_pos rfl, heq]
    | inr hold =>
        rcases hold with ⟨j, hj, hjself, hpresent, htable⟩
        refine ⟨j, hj, hjself, (present_withTable htd j).mpr (Or.inr hpresent), ?_⟩
        have hji : j ≠ i := by
          intro heq
          rw [heq, habsent] at hpresent
          cases hpresent
        rw [tableOf_withTable htd ht, if_neg hji, htable]

theorem TablesSound.leaf_withTable (h : TablesSound editable dom d s bs)
    (ht : t ∈ cover bs) (habsent : present (pde s d i) = false) {k : Nat × Nat}
    (hk : k.fst < NPDEENTRY) (hself : k.fst ≠ selfIndex) :
    leaf (withTable s pmm d i t) d k = leaf s d k := by
  have htd := h.free_ne_dir ht
  have ht20 := h.page_lt (h.free_lt ht)
  by_cases hki : k.fst = i
  · have hpresent : present (pde (withTable s pmm d i t) d k.fst) = true :=
      (present_withTable htd k.fst).mpr (Or.inl hki)
    rw [leaf_of_present hpresent, tableOf_withTable htd ht20, if_pos hki,
      leaf_of_absent (by rw [hki]; exact habsent)]
    unfold withTable
    rw [load_store, if_neg, load_clearFrame, if_pos rfl]
    intro heq
    exact htd (congrArg EntryPtr.frame heq)
  · have hpde : pde (withTable s pmm d i t) d k.fst = pde s d k.fst := by
      rw [pde_withTable htd, if_neg hki]
    cases hpresent : present (pde s d k.fst) with
    | false =>
        rw [leaf_of_absent hpresent, leaf_of_absent (by rw [hpde]; exact hpresent)]
    | true =>
        have htable : IsTable s d (tableOf s d k.fst) := ⟨k.fst, hk, hself, hpresent, rfl⟩
        rw [leaf_of_present hpresent, leaf_of_present (by rw [hpde]; exact hpresent),
          tableOf_withTable htd ht20, if_neg hki]
        unfold withTable
        rw [load_store, if_neg, load_clearFrame, if_neg]
        · rfl
        · intro heq
          change tableOf s d k.fst = t at heq
          rw [heq] at htable
          exact h.table_used t htable ht
        · intro heq
          exact h.table_ne_dir _ htable (congrArg EntryPtr.frame heq)

theorem TablesSound.table_before (h : TablesSound editable dom d s bs)
    (ht : t ∈ cover bs) {j : Nat} (hj : j < NPDEENTRY) (hself : j ≠ selfIndex) (hne : j ≠ i)
    (hpresent : present (pde (withTable s pmm d i t) d j) = true) :
    present (pde s d j) = true ∧ tableOf s d j ≠ t := by
  cases (present_withTable (h.free_ne_dir ht) j).mp hpresent with
  | inl hbad => exact absurd hbad hne
  | inr hp =>
      refine ⟨hp, ?_⟩
      intro hbad
      exact h.table_used t ⟨j, hj, hself, hp, hbad⟩ ht

theorem TablesSound.inj_withTable (h : TablesSound editable dom d s bs) (ht : t ∈ cover bs)
    {a b : Nat} (ha : editable a = true)
    (hpa : present (pde (withTable s pmm d i t) d a) = true)
    (hb : b < NPDEENTRY) (hself : b ≠ selfIndex)
    (hpb : present (pde (withTable s pmm d i t) d b) = true)
    (heq : tableOf (withTable s pmm d i t) d a = tableOf (withTable s pmm d i t) d b) :
    a = b := by
  have htd := h.free_ne_dir ht
  have ht20 := h.page_lt (h.free_lt ht)
  rw [tableOf_withTable htd ht20, tableOf_withTable htd ht20] at heq
  by_cases hai : a = i
  · by_cases hbi : b = i
    · rw [hai, hbi]
    · rw [if_pos hai, if_neg hbi] at heq
      exact absurd heq.symm (h.table_before ht hb hself hbi hpb).right
  · have hold := h.table_before ht (h.editable_lt a ha) (h.editable_ne_self a ha) hai hpa
    by_cases hbi : b = i
    · rw [if_neg hai, if_pos hbi] at heq
      exact absurd heq hold.right
    · rw [if_neg hai, if_neg hbi] at heq
      exact h.table_inj a b ha hold.left hb hself (h.table_before ht hb hself hbi hpb).left heq

theorem TablesSound.withTable (h : TablesSound editable dom d s bs) {bs' : List Block}
    (hi : i < NPDEENTRY) (hself : i ≠ selfIndex) (habsent : present (pde s d i) = false)
    (ht : t ∈ cover bs) (hrep : Represents pmm dom bs')
    (hnpage : pmm.npage = s.pmm.npage) (hcover : cover bs' = cover bs \ {t}) :
    TablesSound editable dom d (withTable s pmm d i t) bs' := by
  have htlt := h.free_lt ht
  have htd := h.free_ne_dir ht
  have ht20 := h.page_lt htlt
  have htab : forall p, IsTable (OsLabs.Memory.withTable s pmm d i t) d p <->
      p = t ∨ IsTable s d p := isTable_withTable htd ht20 hi hself habsent
  have hcov : forall p, p ∈ cover bs' -> p ∈ cover bs ∧ p ≠ t := by
    intro p hp
    rw [hcover] at hp
    exact hp
  constructor
  · exact hrep
  · change pmm.npage ≤ _
    rw [hnpage]
    exact h.npage_le
  · change d < pmm.npage
    rw [hnpage]
    exact h.dir_lt
  · exact fun hd => h.dir_used (hcov d hd).left
  · exact h.editable_lt
  · exact h.editable_ne_self
  · intro p hp
    change p < pmm.npage
    rw [hnpage]
    cases (htab p).mp hp with
    | inl heq =>
        rw [heq]
        exact htlt
    | inr hold => exact h.table_lt p hold
  · intro p hp
    cases (htab p).mp hp with
    | inl heq =>
        rw [heq]
        exact htd
    | inr hold => exact h.table_ne_dir p hold
  · intro p hp hpc
    cases (htab p).mp hp with
    | inl heq => exact (hcov p hpc).right heq
    | inr hold => exact h.table_used p hold (hcov p hpc).left
  · intro a b ha hpa hb hself hpb heq
    exact h.inj_withTable ht ha hpa hb hself hpb heq

theorem WellFormed.withTable (h : WellFormed dom d s bs) {bs' : List Block}
    (hi : userIndex i = true) (habsent : present (pde s d i) = false)
    (ht : t ∈ cover bs) (hrep : Represents pmm dom bs')
    (hnpage : pmm.npage = s.pmm.npage) (hcover : cover bs' = cover bs \ {t}) :
    WellFormed dom d (withTable s pmm d i t) bs' := by
  have hself := userIndex_ne_self hi
  have htd := h.tables.free_ne_dir ht
  have ht20 := h.tables.page_lt (h.tables.free_lt ht)
  have hsound := h.tables.withTable (userIndex_lt hi) hself habsent ht hrep hnpage hcover
  refine ⟨hrep, hsound.npage_le, hsound.dir_lt, h.dir_reserved, ?_, hsound.table_lt,
    hsound.table_ne_dir, hsound.table_used, hsound.table_inj, ?_⟩
  · rw [tableOf_withTable htd ht20, if_neg hself.symm, pde_withTable htd, if_neg hself.symm]
    exact h.selfMap
  · intro k hk p htarget
    have hkuser := (mem_userKeys.mp hk).left
    rw [target_eq_some, h.tables.leaf_withTable ht habsent (userIndex_lt hkuser)
      (userIndex_ne_self hkuser), ← target_eq_some] at htarget
    have hdata := h.mapped k hk p htarget
    refine ⟨hdata.mem, ?_, ?_⟩
    · intro hp
      rw [hcover] at hp
      exact hdata.used hp.left
    · intro hp
      cases (isTable_withTable htd ht20 (userIndex_lt hi) hself habsent p).mp hp with
      | inl heq =>
          rw [heq] at hdata
          exact hdata.used ht
      | inr hold => exact hdata.notTable hold

end AddTable

/-!
# Finding or making the table of an address
-/

/-- What `get_pte` with `create` leaves behind when it finds or makes a table:
the same address space, in which the entry exists, and the same data pages. -/
structure Reached (dom : Set Nat) (d : Nat) (s s' : VmState) (bs bs' : List Block)
    (la : BitVec 32) : Prop where
  wellFormed : WellFormed dom d s' bs'
  present_pde : present (pde s' d (pdx la)) = true
  npage_eq : s'.pmm.npage = s.pmm.npage
  view_eq : forall k, k.fst < NPDEENTRY -> k.fst ≠ selfIndex -> view s' d k = view s d k
  pde_eq : forall i, i ≠ pdx la -> pde s' d i = pde s d i
  kept : present (pde s d (pdx la)) = true -> s' = s
  data_iff : forall p, DataPage dom d s' bs' p <-> DataPage dom d s bs p
  cover_subset : cover bs' ⊆ cover bs
  ascending : Ascending bs -> Ascending bs'
  ref_eq : forall p, DataPage dom d s bs p -> s'.pageRef p = s.pageRef p

theorem WellFormed.reached_withTable (h : WellFormed dom d s bs) {la : BitVec 32}
    (hla : Admissible la) (habsent : present (pde s d (pdx la)) = false)
    {pmm : PmmState} {bs' : List Block} {t : Nat} (ht : t ∈ cover bs)
    (hrep : Represents pmm dom bs') (hnpage : pmm.npage = s.pmm.npage)
    (hcover : cover bs' = cover bs \ {t}) (hasc : Ascending bs -> Ascending bs')
    (href : forall q, q ≠ t -> (pmm.pages q).ref = (s.pmm.pages q).ref) :
    Reached dom d s (OsLabs.Memory.withTable s pmm d (pdx la) t) bs bs' la := by
  have hi : userIndex (pdx la) = true := (admissible_iff la).mp hla
  have htd := h.tables.free_ne_dir ht
  have ht20 := h.tables.page_lt (h.tables.free_lt ht)
  have htab : forall p, IsTable (OsLabs.Memory.withTable s pmm d (pdx la) t) d p <->
      p = t ∨ IsTable s d p := isTable_withTable htd ht20 (userIndex_lt hi) (userIndex_ne_self hi) habsent
  constructor
  · exact h.withTable hi habsent ht hrep hnpage hcover
  · exact (present_withTable htd _).mpr (Or.inl rfl)
  · exact hnpage
  · intro k hk hself
    unfold view
    rw [h.tables.leaf_withTable ht habsent hk hself]
  · intro i hne
    rw [pde_withTable htd, if_neg hne]
  · intro hbad
    rw [habsent] at hbad
    cases hbad
  · intro p
    constructor
    · intro hp
      refine ⟨hp.mem, ?_, fun htp => hp.notTable ((htab p).mpr (Or.inr htp))⟩
      intro hpc
      by_cases hpt : p = t
      · exact hp.notTable ((htab p).mpr (Or.inl hpt))
      · apply hp.used
        rw [hcover]
        exact ⟨hpc, hpt⟩
    · intro hp
      refine ⟨hp.mem, ?_, ?_⟩
      · intro hpc
        rw [hcover] at hpc
        exact hp.used hpc.left
      · intro htp
        cases (htab p).mp htp with
        | inl heq =>
            rw [heq] at hp
            exact hp.used ht
        | inr hold => exact hp.notTable hold
  · rw [hcover]
    exact Set.sdiff_subset
  · exact hasc
  · intro p hp
    apply href p
    intro heq
    rw [heq] at hp
    exact hp.used ht

/-- The branch of `get_pte` that makes a table. -/
theorem getPte_absent_create {la : BitVec 32}
    (habsent : present (pde s d (pdx la)) = false) :
    getPte s d la true =
      match allocPage s with
      | none => none
      | some (s, none) => some (s, none)
      | some (s, some page) =>
          match kaddr (s.setPageRef page 1) (page2pa page) with
          | none => none
          | some frame =>
              tableEntryPtr (((s.setPageRef page 1).clearFrame frame).store
                (EntryPtr.mk d (pdx la)) (tableEntry (page2pa page)))
                (EntryPtr.mk d (pdx la)) la := by
  have hneg : ¬ present (s.load (EntryPtr.mk d (pdx la))) = true := by
    intro hp
    change present (pde s d (pdx la)) = true at hp
    rw [habsent] at hp
    cases hp
  unfold getPte
  exact if_neg hneg

theorem TablesSound.getPte_makes_table (h : TablesSound editable dom d s bs)
    {la : BitVec 32} (habsent : present (pde s d (pdx la)) = false) :
    (getPte s d la true = some (s, none) ∧ cover bs = ∅ ∧ s.pmm.nrFree = 0) ∨
    (exists pmm p bs', p ∈ cover bs ∧ Represents pmm dom bs' ∧ pmm.npage = s.pmm.npage ∧
      cover bs' = cover bs \ {p} ∧ pmm.nrFree + 1 = s.pmm.nrFree ∧
      (Ascending bs -> Ascending bs' ∧ IsLeast (cover bs) p) ∧
      (forall q, q ≠ p -> (pmm.pages q).ref = (s.pmm.pages q).ref) ∧
      getPte s d la true = some (OsLabs.Memory.withTable s pmm d (pdx la) p,
        some (entryPtr (OsLabs.Memory.withTable s pmm d (pdx la) p) d (keyOf la)))) := by
  rcases allocPage_spec h.represents with
    ⟨pmm, r, bs', hrun, hrep, hnpage, href, hnone, hsome, horder⟩
  rw [getPte_absent_create habsent, hrun]
  cases r with
  | none =>
      rcases hnone rfl with ⟨hpmm, _, hempty, hzero⟩
      subst hpmm
      exact Or.inl ⟨rfl, hempty, hzero⟩
  | some p =>
      rcases hsome p rfl with ⟨hp, hcover, hcount⟩
      have hplt := h.free_lt hp
      have hp20 := h.page_lt hplt
      have hpd := h.free_ne_dir hp
      have hpcov : p ∉ cover bs' := by
        rw [hcover]
        exact fun hbad => hbad.right rfl
      have hkaddr : kaddr (({ s with pmm := pmm } : VmState).setPageRef p 1)
          (page2pa p) = some p := by
        rw [kaddr_of_lt]
        · rw [ppn_page2pa hp20]
        · rw [ppn_page2pa hp20, setPageRef_npage, hnpage]
          exact hplt
      refine Or.inr ⟨pmm.modifyPage p fun page => { page with ref := 1 }, p, bs', hp,
        hrep.setRef hpcov 1, hnpage, hcover, hcount,
        fun hasc => ⟨(horder hasc).left, (horder hasc).right p rfl⟩, ?_, ?_⟩
      · intro q hq
        rw [PmmState.modifyPage_pages, if_neg hq, href q]
      · simp only [hkaddr]
        refine tableEntryPtr_of_lt la ?_
        change tableOf (OsLabs.Memory.withTable s _ d (pdx la) p) d (pdx la) < pmm.npage
        rw [tableOf_withTable hpd hp20, if_pos rfl, hnpage]
        exact hplt

theorem WellFormed.getPte_create (h : WellFormed dom d s bs) {la : BitVec 32}
    (hla : Admissible la) :
    (getPte s d la true = some (s, none) ∧ cover bs = ∅) ∨
    (exists s' bs', getPte s d la true = some (s', some (entryPtr s' d (keyOf la))) ∧
      Reached dom d s s' bs bs' la) := by
  cases hpresent : present (pde s d (pdx la)) with
  | true =>
      exact Or.inr ⟨s, bs, h.getPte_present la true hpresent, h, hpresent, rfl,
        fun _ _ _ => rfl, fun _ _ => rfl, fun _ => rfl, fun _ => Iff.rfl,
        fun _ hp => hp, id, fun _ _ => rfl⟩
  | false =>
      have hself := userIndex_ne_self ((admissible_iff la).mp hla)
      cases h.tables.getPte_makes_table hpresent with
      | inl hnone => exact Or.inl ⟨hnone.left, hnone.right.left⟩
      | inr hmade =>
          rcases hmade with ⟨pmm, t, bs', ht, hrep, hnpage, hcover, _, horder, href, hrun⟩
          exact Or.inr ⟨_, bs', hrun, h.reached_withTable hla hpresent ht hrep hnpage hcover
            (fun hasc => (horder hasc).left) href⟩

theorem Reached.mapCount_eq {s' : VmState} {bs' : List Block} {la : BitVec 32}
    (h : Reached dom d s s' bs bs' la) (p : Nat) : mapCount s' d p = mapCount s d p := by
  apply mapCount_congr
  intro k hk
  have huser := (mem_userKeys.mp hk).left
  exact h.view_eq k (userIndex_lt huser) (userIndex_ne_self huser)

end Memory
end OsLabs
