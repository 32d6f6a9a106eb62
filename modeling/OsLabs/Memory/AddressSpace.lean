import Mathlib.Data.Finset.Prod
import OsLabs.Foundation.Fibers
import OsLabs.Memory.PageTable
import OsLabs.Memory.PmmRelease

/-!
# The address space of a page directory

What the two levels of tables stand for: a partial map from pairs of indices to
a page with its flag bits.  `WellFormed` says how the directory, the tables and
the allocator fit together so that this map can be edited one key at a time,
and `RefsExact` ties the reference counts to it.
-/

namespace OsLabs
namespace Memory

open Foundation
open Foundation.Block
open VmState

/-- Directory entry `i` of the directory in frame `d`. -/
def pde (s : VmState) (d i : Nat) : BitVec 32 := s.load (EntryPtr.mk d i)

def tableOf (s : VmState) (d i : Nat) : Nat := ppn (pde s d i)

/-- The table entry reached by two indices, zero if there is no table. -/
def leaf (s : VmState) (d : Nat) (k : Nat × Nat) : BitVec 32 :=
  if present (pde s d k.fst) then s.load (EntryPtr.mk (tableOf s d k.fst) k.snd) else 0#32

def decode (entry : BitVec 32) : Option (Nat × BitVec 32) :=
  if present entry then some (ppn entry, flagBits entry) else none

/-- The address space: the page and the flag bits at a pair of indices. -/
def view (s : VmState) (d : Nat) (k : Nat × Nat) : Option (Nat × BitVec 32) :=
  decode (leaf s d k)

def target (s : VmState) (d : Nat) (k : Nat × Nat) : Option Nat :=
  (view s d k).map Prod.fst

def IsTable (s : VmState) (d p : Nat) : Prop :=
  exists i, i < NPDEENTRY ∧ i ≠ selfIndex ∧ present (pde s d i) = true ∧ tableOf s d i = p

structure DataPage (dom : Set Nat) (d : Nat) (s : VmState) (bs : List Block) (p : Nat) :
    Prop where
  mem : p ∈ dom
  used : p ∉ cover bs
  notTable : ¬ IsTable s d p

/-- The pairs of indices outside the two windows. -/
@[irreducible]
def userKeys : Finset (Nat × Nat) :=
  (Finset.range NPDEENTRY).filter (fun i => userIndex i = true) ×ˢ Finset.range NPTEENTRY

def mapCount (s : VmState) (d p : Nat) : Nat := fiberCard userKeys (target s d) p

structure WellFormed (dom : Set Nat) (d : Nat) (s : VmState) (bs : List Block) : Prop where
  represents : Represents s.pmm dom bs
  npage_le : s.pmm.npage ≤ KMEMSIZE / 4096
  dir_lt : d < s.pmm.npage
  dir_reserved : d ∉ dom
  selfMap : present (pde s d selfIndex) = true -> tableOf s d selfIndex = d
  table_lt : forall p, IsTable s d p -> p < s.pmm.npage
  table_ne_dir : forall p, IsTable s d p -> p ≠ d
  table_used : forall p, IsTable s d p -> p ∉ cover bs
  user_inj : forall i k, userIndex i = true -> present (pde s d i) = true ->
    k < NPDEENTRY -> k ≠ selfIndex -> present (pde s d k) = true ->
    tableOf s d i = tableOf s d k -> i = k
  mapped : forall k, k ∈ userKeys -> forall p, target s d k = some p ->
    DataPage dom d s bs p

/-- The part of this that concerns the directory and its tables alone: they are in the
physical memory, apart from the free pages, and an editable table is found at one index
only. -/
structure TablesSound (editable : Nat -> Bool) (dom : Set Nat) (d : Nat) (s : VmState)
    (bs : List Block) : Prop where
  represents : Represents s.pmm dom bs
  npage_le : s.pmm.npage ≤ KMEMSIZE / 4096
  dir_lt : d < s.pmm.npage
  dir_used : d ∉ cover bs
  editable_lt : forall i, editable i = true -> i < NPDEENTRY
  editable_ne_self : forall i, editable i = true -> i ≠ selfIndex
  table_lt : forall p, IsTable s d p -> p < s.pmm.npage
  table_ne_dir : forall p, IsTable s d p -> p ≠ d
  table_used : forall p, IsTable s d p -> p ∉ cover bs
  table_inj : forall i k, editable i = true -> present (pde s d i) = true ->
    k < NPDEENTRY -> k ≠ selfIndex -> present (pde s d k) = true ->
    tableOf s d i = tableOf s d k -> i = k

def RefsExact (dom : Set Nat) (d : Nat) (s : VmState) (bs : List Block) : Prop :=
  forall p, DataPage dom d s bs p -> s.pageRef p = mapCount s d p

theorem mem_userKeys {k : Nat × Nat} :
    k ∈ userKeys <-> userIndex k.fst = true ∧ k.snd < NPTEENTRY := by
  unfold userKeys
  rw [Finset.mem_product, Finset.mem_filter, Finset.mem_range, Finset.mem_range]
  constructor
  · intro h
    exact ⟨h.left.right, h.right⟩
  · intro h
    exact ⟨⟨(userIndex_iff.mp h.left).left, h.left⟩, h.right⟩

theorem userIndex_lt {i : Nat} (h : userIndex i = true) : i < NPDEENTRY :=
  (userIndex_iff.mp h).left

theorem userIndex_ne_self {i : Nat} (h : userIndex i = true) : i ≠ selfIndex :=
  (userIndex_iff.mp h).right.right

theorem target_eq_some {s : VmState} {d : Nat} {k : Nat × Nat} {p : Nat} :
    target s d k = some p <-> present (leaf s d k) = true ∧ ppn (leaf s d k) = p := by
  unfold target view decode
  cases h : present (leaf s d k) with
  | false => simp
  | true => simp

theorem WellFormed.tables {dom : Set Nat} {d : Nat} {s : VmState} {bs : List Block}
    (h : WellFormed dom d s bs) : TablesSound userIndex dom d s bs where
  represents := h.represents
  npage_le := h.npage_le
  dir_lt := h.dir_lt
  dir_used := fun hd => h.dir_reserved (h.represents.cover_subset hd)
  editable_lt := fun _ => userIndex_lt
  editable_ne_self := fun _ => userIndex_ne_self
  table_lt := h.table_lt
  table_ne_dir := h.table_ne_dir
  table_used := h.table_used
  table_inj := h.user_inj

theorem leaf_of_present {s : VmState} {d : Nat} {k : Nat × Nat}
    (hpresent : present (pde s d k.fst) = true) :
    leaf s d k = s.load (EntryPtr.mk (tableOf s d k.fst) k.snd) := by
  unfold leaf
  rw [if_pos hpresent]

theorem leaf_of_absent {s : VmState} {d : Nat} {k : Nat × Nat}
    (habsent : present (pde s d k.fst) = false) : leaf s d k = 0#32 := by
  unfold leaf
  rw [habsent]
  rfl

theorem mapCount_congr {s t : VmState} {d : Nat}
    (h : forall k, k ∈ userKeys -> view t d k = view s d k) (p : Nat) :
    mapCount t d p = mapCount s d p := by
  apply fiberCard_congr
  intro k hk
  unfold target
  rw [h k hk]

theorem mapCount_update {s t : VmState} {d : Nat} {k : Nat × Nat} (hk : k ∈ userKeys)
    (hoff : forall k', k' ∈ userKeys -> k' ≠ k -> view t d k' = view s d k') (p : Nat) :
    mapCount t d p + (if target s d k = some p then 1 else 0) =
      mapCount s d p + if target t d k = some p then 1 else 0 := by
  apply fiberCard_update hk
  intro k' hk' hne
  unfold target
  rw [hoff k' hk' hne]

theorem mapCount_pos {s : VmState} {d p : Nat} :
    0 < mapCount s d p <-> exists k, k ∈ userKeys ∧ target s d k = some p :=
  fiberCard_pos

/-!
# Changing the allocator under an address space
-/

theorem WellFormed.withPmm {dom : Set Nat} {d : Nat} {s : VmState} {bs bs' : List Block}
    (h : WellFormed dom d s bs) {pmm : PmmState} (hrep : Represents pmm dom bs')
    (hnpage : pmm.npage = s.pmm.npage)
    (hfresh : forall p, p ∈ cover bs' -> p ∉ cover bs ->
      ¬ IsTable s d p ∧ mapCount s d p = 0) :
    WellFormed dom d { s with pmm := pmm } bs' where
  represents := hrep
  npage_le := by
    change pmm.npage ≤ _
    rw [hnpage]
    exact h.npage_le
  dir_lt := by
    change d < pmm.npage
    rw [hnpage]
    exact h.dir_lt
  dir_reserved := h.dir_reserved
  selfMap := h.selfMap
  table_lt := by
    intro p hp
    change p < pmm.npage
    rw [hnpage]
    exact h.table_lt p hp
  table_ne_dir := h.table_ne_dir
  table_used := by
    intro p hp hcov
    exact (hfresh p hcov (h.table_used p hp)).left hp
  user_inj := h.user_inj
  mapped := by
    intro k hk p htarget
    have hdata := h.mapped k hk p htarget
    refine ⟨hdata.mem, ?_, hdata.notTable⟩
    intro hcov
    have hzero := (hfresh p hcov hdata.used).right
    have hpos : 0 < mapCount s d p := mapCount_pos.mpr ⟨k, hk, htarget⟩
    lia

theorem Represents.setRef {s : PmmState} {dom : Set Nat} {bs : List Block}
    (h : Represents s dom bs) {p : Nat} (hp : p ∉ cover bs) (val : Int) :
    Represents (s.modifyPage p fun page => { page with ref := val }) dom bs where
  ring := h.ring
  property_eq := by
    intro b hb
    rw [← h.property_eq b hb]
    unfold PmmState.property
    rw [PmmState.modifyPage_pages]
    split
    · rename_i heq
      rw [heq]
    · rfl
  nrFree_eq := h.nrFree_eq
  flagged := by
    intro q hq
    rw [← h.flagged q hq, PmmState.modifyPage_pages]
    split
    · rename_i heq
      rw [heq]
      rfl
    · rfl
  unreserved := by
    intro q hq
    rw [← h.unreserved q hq, PmmState.modifyPage_pages]
    split
    · rename_i heq
      rw [heq]
      rfl
    · rfl
  free_ref := by
    intro q hq
    rw [PmmState.modifyPage_pages, if_neg ?_]
    · exact h.free_ref q hq
    · intro heq
      rw [heq] at hq
      exact hp hq
  bound := h.bound
  separated := h.separated
  cover_subset := h.cover_subset

theorem WellFormed.setPageRef {dom : Set Nat} {d : Nat} {s : VmState} {bs : List Block}
    (h : WellFormed dom d s bs) {p : Nat} (hp : p ∉ cover bs) (val : Int) :
    WellFormed dom d (s.setPageRef p val) bs :=
  h.withPmm (h.represents.setRef hp val) rfl fun _ hin hout => absurd hin hout

/-!
# Writing one table entry
-/

/-- The pointer to the entry that a key leads to. -/
def entryPtr (s : VmState) (d : Nat) (k : Nat × Nat) : EntryPtr :=
  EntryPtr.mk (tableOf s d k.fst) k.snd

section Write

variable {editable : Nat -> Bool} {dom : Set Nat} {d : Nat} {s : VmState} {bs : List Block}
  {k : Nat × Nat}

theorem load_entryPtr (hpresent : present (pde s d k.fst) = true) :
    s.load (entryPtr s d k) = leaf s d k :=
  (leaf_of_present hpresent).symm

theorem TablesSound.isTable_tableOf (h : TablesSound editable dom d s bs) {i : Nat}
    (hi : editable i = true) (hpresent : present (pde s d i) = true) :
    IsTable s d (tableOf s d i) :=
  ⟨i, h.editable_lt i hi, h.editable_ne_self i hi, hpresent, rfl⟩

theorem TablesSound.pde_store (h : TablesSound editable dom d s bs)
    (hk : editable k.fst = true) (hpresent : present (pde s d k.fst) = true)
    (entry : BitVec 32) (i : Nat) :
    pde (s.store (entryPtr s d k) entry) d i = pde s d i := by
  have hne : tableOf s d k.fst ≠ d := h.table_ne_dir _ (h.isTable_tableOf hk hpresent)
  unfold pde
  rw [load_store, if_neg]
  intro heq
  exact hne (congrArg EntryPtr.frame heq).symm

/-- An entry is written through one index only, when no other index reaches its table. -/
theorem TablesSound.leaf_store_of_ne (h : TablesSound editable dom d s bs)
    (hk : editable k.fst = true) (hpresent : present (pde s d k.fst) = true)
    (entry : BitVec 32) {k' : Nat × Nat}
    (hapart : present (pde s d k'.fst) = true -> tableOf s d k'.fst = tableOf s d k.fst ->
      k'.fst = k.fst) :
    leaf (s.store (entryPtr s d k) entry) d k' = if k' = k then entry else leaf s d k' := by
  have hpde := h.pde_store hk hpresent entry
  have htable : tableOf (s.store (entryPtr s d k) entry) d k'.fst = tableOf s d k'.fst := by
    unfold tableOf
    rw [hpde]
  cases hp : present (pde s d k'.fst) with
  | false =>
      have hne : k' ≠ k := by
        intro heq
        rw [heq, hpresent] at hp
        cases hp
      rw [if_neg hne, leaf_of_absent hp, leaf_of_absent]
      rw [hpde]
      exact hp
  | true =>
      rw [leaf_of_present (s := s.store _ _) (by rw [hpde]; exact hp), htable,
        leaf_of_present hp, load_store]
      by_cases heq : k' = k
      · subst heq
        rw [if_pos rfl]
        exact if_pos rfl
      · rw [if_neg heq, if_neg]
        intro hptr
        have hframe : tableOf s d k'.fst = tableOf s d k.fst :=
          congrArg EntryPtr.frame hptr
        have hindex : k'.snd = k.snd := congrArg EntryPtr.index hptr
        exact heq (Prod.ext (hapart hp hframe) hindex)

theorem TablesSound.leaf_store (h : TablesSound editable dom d s bs)
    (hk : editable k.fst = true) (hpresent : present (pde s d k.fst) = true)
    (entry : BitVec 32) {k' : Nat × Nat} (hk' : k'.fst < NPDEENTRY)
    (hself : k'.fst ≠ selfIndex) :
    leaf (s.store (entryPtr s d k) entry) d k' = if k' = k then entry else leaf s d k' := by
  apply h.leaf_store_of_ne hk hpresent entry
  intro hp hframe
  exact (h.table_inj _ _ hk hpresent hk' hself hp hframe.symm).symm

theorem TablesSound.isTable_store (h : TablesSound editable dom d s bs)
    (hk : editable k.fst = true) (hpresent : present (pde s d k.fst) = true)
    (entry : BitVec 32) (p : Nat) :
    IsTable (s.store (entryPtr s d k) entry) d p <-> IsTable s d p := by
  unfold IsTable tableOf
  simp only [h.pde_store hk hpresent entry]

theorem TablesSound.store (h : TablesSound editable dom d s bs)
    (hk : editable k.fst = true) (hpresent : present (pde s d k.fst) = true)
    (entry : BitVec 32) :
    TablesSound editable dom d (s.store (entryPtr s d k) entry) bs := by
  have hpde := h.pde_store hk hpresent entry
  have htab := h.isTable_store hk hpresent entry
  have htable : forall i, tableOf (s.store (entryPtr s d k) entry) d i = tableOf s d i := by
    intro i
    unfold tableOf
    rw [hpde]
  constructor
  · exact h.represents
  · exact h.npage_le
  · exact h.dir_lt
  · exact h.dir_used
  · exact h.editable_lt
  · exact h.editable_ne_self
  · intro p hp
    exact h.table_lt p ((htab p).mp hp)
  · intro p hp
    exact h.table_ne_dir p ((htab p).mp hp)
  · intro p hp
    exact h.table_used p ((htab p).mp hp)
  · intro i j hi hpi hj hself hpj heq
    rw [hpde] at hpi hpj
    rw [htable, htable] at heq
    exact h.table_inj i j hi hpi hj hself hpj heq

theorem WellFormed.pde_store (h : WellFormed dom d s bs) (hk : k ∈ userKeys)
    (hpresent : present (pde s d k.fst) = true) (entry : BitVec 32) (i : Nat) :
    pde (s.store (entryPtr s d k) entry) d i = pde s d i :=
  h.tables.pde_store (mem_userKeys.mp hk).left hpresent entry i

theorem WellFormed.leaf_store (h : WellFormed dom d s bs) (hk : k ∈ userKeys)
    (hpresent : present (pde s d k.fst) = true) (entry : BitVec 32) {k' : Nat × Nat}
    (hk' : k'.fst < NPDEENTRY) :
    leaf (s.store (entryPtr s d k) entry) d k' = if k' = k then entry else leaf s d k' := by
  have huser := (mem_userKeys.mp hk).left
  apply h.tables.leaf_store_of_ne huser hpresent entry
  intro hp hframe
  by_cases hself : k'.fst = selfIndex
  · have hdir : tableOf s d k'.fst = d := by
      rw [hself] at hp ⊢
      exact h.selfMap hp
    have htd := h.table_ne_dir _ (h.tables.isTable_tableOf huser hpresent)
    rw [hframe] at hdir
    exact absurd hdir htd
  · exact (h.user_inj _ _ huser hpresent hk' hself hp hframe.symm).symm

theorem WellFormed.isTable_store (h : WellFormed dom d s bs) (hk : k ∈ userKeys)
    (hpresent : present (pde s d k.fst) = true) (entry : BitVec 32) (p : Nat) :
    IsTable (s.store (entryPtr s d k) entry) d p <-> IsTable s d p :=
  h.tables.isTable_store (mem_userKeys.mp hk).left hpresent entry p

theorem WellFormed.store (h : WellFormed dom d s bs) (hk : k ∈ userKeys)
    (hpresent : present (pde s d k.fst) = true) {entry : BitVec 32}
    (hentry : present entry = true -> DataPage dom d s bs (ppn entry)) :
    WellFormed dom d (s.store (entryPtr s d k) entry) bs := by
  have hpde := h.pde_store hk hpresent entry
  have htab := h.isTable_store hk hpresent entry
  have hsound := h.tables.store (mem_userKeys.mp hk).left hpresent entry
  have hdata : forall p, DataPage dom d s bs p ->
      DataPage dom d (s.store (entryPtr s d k) entry) bs p := by
    intro p hp
    exact ⟨hp.mem, hp.used, fun ht => hp.notTable ((htab p).mp ht)⟩
  refine ⟨h.represents, h.npage_le, h.dir_lt, h.dir_reserved, ?_, hsound.table_lt,
    hsound.table_ne_dir, hsound.table_used, hsound.table_inj, ?_⟩
  · unfold tableOf
    rw [hpde]
    exact h.selfMap
  · intro k' hk' p htarget
    rw [target_eq_some, h.leaf_store hk hpresent entry
      (userIndex_lt (mem_userKeys.mp hk').left)] at htarget
    apply hdata
    by_cases heq : k' = k
    · rw [if_pos heq] at htarget
      rw [← htarget.right]
      exact hentry htarget.left
    · rw [if_neg heq] at htarget
      exact h.mapped k' hk' p (target_eq_some.mpr htarget)

theorem WellFormed.view_store (h : WellFormed dom d s bs) (hk : k ∈ userKeys)
    (hpresent : present (pde s d k.fst) = true) (entry : BitVec 32) {k' : Nat × Nat}
    (hk' : k'.fst < NPDEENTRY) :
    view (s.store (entryPtr s d k) entry) d k' =
      if k' = k then decode entry else view s d k' := by
  unfold view
  rw [h.leaf_store hk hpresent entry hk']
  by_cases heq : k' = k
  · rw [if_pos heq, if_pos heq]
  · rw [if_neg heq, if_neg heq]

end Write

end Memory
end OsLabs
