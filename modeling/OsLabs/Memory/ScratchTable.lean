import Mathlib.Data.Set.Card
import Mathlib.Order.Interval.Finset.Nat
import OsLabs.Memory.PageTableRuns

/-!
# A page table made for a while

The self tests of `pmm.c` map a few fresh pages under a directory entry that was empty, and
give everything back.  `ScratchTable` says where such a test stands: one new table holds the
mappings `m`, the pages `taken` are off the free list, and everything else is as it was.
-/

namespace OsLabs
namespace Memory

open Foundation
open Foundation.Block
open VmState

variable {editable : Nat -> Bool} {dom : Set Nat} {d i t p j : Nat} {s0 s s' : VmState} {bs bs' : List Block}
  {taken : Set Nat} {m : Nat -> Option (Nat × BitVec 32)} {new : Option (Nat × BitVec 32)}

/-- The entries of a table with mappings `m` that map the page `p`. -/
def slots (m : Nat -> Option (Nat × BitVec 32)) (p : Nat) : Nat :=
  fiberCard (Finset.range NPTEENTRY) (fun j => (m j).map Prod.fst) p

theorem slots_none (p : Nat) : slots (fun _ => none) p = 0 := by
  unfold slots fiberCard
  simp

theorem slots_pos : 0 < slots m p <-> exists j, j < NPTEENTRY ∧ (m j).map Prod.fst = some p := by
  unfold slots
  rw [fiberCard_pos]
  simp only [Finset.mem_range]

theorem slots_update (hj : j < NPTEENTRY) (new : Option (Nat × BitVec 32)) (p : Nat) :
    slots (Function.update m j new) p + (if (m j).map Prod.fst = some p then 1 else 0) =
      slots m p + if new.map Prod.fst = some p then 1 else 0 := by
  have hmove := fiberCard_update (f := fun j => (m j).map Prod.fst)
    (g := fun x => (Function.update m j new x).map Prod.fst) (Finset.mem_range.mpr hj)
    (fun x _ hx => by rw [Function.update_of_ne hx]) p
  rw [Function.update_self] at hmove
  exact hmove

def twoSlots (a b : Option (Nat × BitVec 32)) (j : Nat) : Option (Nat × BitVec 32) :=
  if j = 0 then a else if j = 1 then b else none

variable {a b c : Option (Nat × BitVec 32)}

theorem twoSlots_none : twoSlots none none = fun _ => none := by
  funext j
  unfold twoSlots
  rw [ite_self, ite_self]

theorem twoSlots_first : Function.update (twoSlots a b) 0 c = twoSlots c b := by
  funext j
  unfold twoSlots
  rw [Function.update_apply]
  by_cases hj : j = 0
  · rw [if_pos hj, if_pos hj]
  · rw [if_neg hj, if_neg hj, if_neg hj]

theorem twoSlots_second : Function.update (twoSlots a b) 1 c = twoSlots a c := by
  funext j
  unfold twoSlots
  rw [Function.update_apply]
  by_cases hj : j = 1
  · rw [if_pos hj, hj, if_neg Nat.one_ne_zero, if_pos rfl]
  · rw [if_neg hj, if_neg hj, if_neg hj]

theorem slots_twoSlots (p : Nat) :
    slots (twoSlots a b) p = (if a.map Prod.fst = some p then 1 else 0) +
      if b.map Prod.fst = some p then 1 else 0 := by
  have hfirst := slots_update (m := twoSlots none none) (show 0 < NPTEENTRY by decide) a p
  have hsecond := slots_update (m := twoSlots a none) (show 1 < NPTEENTRY by decide) b p
  have hzero : slots (twoSlots none none) p = 0 := by
    rw [twoSlots_none]
    exact slots_none p
  rw [twoSlots_first, hzero] at hfirst
  rw [twoSlots_second] at hsecond
  simp only [twoSlots, if_true, Nat.one_ne_zero, if_false, Option.map_none, reduceCtorEq,
    Nat.add_zero, Nat.zero_add] at hfirst hsecond
  rw [hsecond, ← hfirst]

/-- The new table `t` stands at index `i` and holds the mappings `m`. -/
structure ScratchTable (dom : Set Nat) (d i t : Nat) (s0 : VmState) (taken : Set Nat)
    (m : Nat -> Option (Nat × BitVec 32)) (s : VmState) : Prop where
  base : VmInv dom d s0
  inv : VmInv dom d s
  user : userIndex i = true
  npage_eq : s.pmm.npage = s0.pmm.npage
  table_mem : t ∈ taken
  taken_free : taken ⊆ freePagesOf s0
  entry : pde s d i = tableEntry (page2pa t)
  pde_eq : forall x, x ≠ i -> pde s d x = pde s0 d x
  view_eq : forall k, k.fst < NPDEENTRY -> k.fst ≠ selfIndex ->
    view s d k = if k.fst = i then m k.snd else view s0 d k
  mapped : forall j p, j < NPTEENTRY -> (m j).map Prod.fst = some p -> p ∈ taken ∧ p ≠ t
  free_eq : freePagesOf s = freePagesOf s0 \ taken
  count_eq : forall q, mapCount s d q = mapCount s0 d q + slots m q
  table_ref : s.pageRef t = 1
  ref_eq : forall q, q ≠ t -> s.pageRef q = s0.pageRef q + slots m q
  ascending : Ascending (listedBlocks s0.pmm) -> Ascending (listedBlocks s.pmm)

/-!
# The free pages
-/

theorem VmInv.represents (h : VmInv dom d s) : Represents s.pmm dom (listedBlocks s.pmm) :=
  h.wellFormed.represents

theorem VmInv.free_ref (h : VmInv dom d s) (hp : p ∈ freePagesOf s) : s.pageRef p = 0 :=
  h.represents.free_ref p hp

theorem VmInv.free_lt (h : VmInv dom d s) (hp : p ∈ freePagesOf s) : p < 2 ^ 20 :=
  h.wellFormed.tables.page_lt (h.wellFormed.tables.free_lt hp)

theorem span_finite (b : Block) : b.span.Finite := Set.finite_Ico _ _

theorem cover_finite (bs : List Block) : (cover bs).Finite := by
  induction bs with
  | nil =>
      rw [cover_nil]
      exact Set.finite_empty
  | cons b bs ih =>
      rw [cover_cons]
      exact (span_finite b).union ih

theorem cover_ncard (hsep : Separated bs) : (cover bs).ncard = (bs.map Block.size).sum := by
  induction bs with
  | nil => rw [cover_nil, Set.ncard_empty, List.map_nil, List.sum_nil]
  | cons b bs ih =>
      have hspan : b.span.ncard = b.size := by
        have hcoe : b.span = (Finset.Ico b.head b.stop : Set Nat) :=
          (Finset.coe_Ico b.head b.stop).symm
        rw [hcoe, Set.ncard_coe_finset, Nat.card_Ico, stop_eq, Nat.add_sub_cancel_left]
      rw [cover_cons, Set.ncard_union_eq hsep.disjoint_cover (span_finite b) (cover_finite bs),
        hspan, ih (separated_cons.mp hsep).right.right, List.map_cons, List.sum_cons]

theorem freePagesOf_finite (s : VmState) : (freePagesOf s).Finite := cover_finite _

theorem VmInv.nrFree_eq (h : VmInv dom d s) : s.pmm.nrFree = (freePagesOf s).ncard := by
  unfold freePagesOf
  rw [cover_ncard h.represents.separated, h.represents.nrFree_eq]

theorem allocPage_takes (h : VmInv dom d s) (hfree : (freePagesOf s).Nonempty) :
    exists s' p, allocPage s = some (s', some p) ∧ VmInv dom d s' ∧ p ∈ freePagesOf s ∧
      freePagesOf s' = freePagesOf s \ {p} ∧ s'.mem = s.mem ∧
      s'.pmm.npage = s.pmm.npage ∧ (forall q, s'.pageRef q = s.pageRef q) ∧
      (Ascending (listedBlocks s.pmm) ->
        Ascending (listedBlocks s'.pmm) ∧ IsLeast (freePagesOf s) p) := by
  rcases h.allocPage with ⟨s1, r1, hrun1, hinv, hmem, _⟩
  rcases allocPage_spec h.represents with
    ⟨pmm, r, bs', hrun, hrep, hnpage, href, hnone, hsome, horder⟩
  rw [hrun1] at hrun
  cases hrun
  cases r1 with
  | none =>
      rcases hfree with ⟨p, hp⟩
      unfold freePagesOf at hp
      rw [(hnone rfl).right.right.left] at hp
      cases hp
  | some p =>
      rcases hsome p rfl with ⟨hp, hcover, _⟩
      have hlisted : listedBlocks pmm = bs' := hrep.listedBlocks_eq
      refine ⟨_, p, hrun1, hinv, hp, ?_, hmem, hnpage, href, ?_⟩
      · unfold freePagesOf
        rw [hlisted]
        exact hcover
      · intro hasc
        rw [hlisted]
        exact ⟨(horder hasc).left, (horder hasc).right p rfl⟩

theorem allocPage_none (h : VmInv dom d s) (hfree : freePagesOf s = ∅) :
    allocPage s = some (s, none) := by
  rcases allocPage_spec h.represents with ⟨pmm, r, bs', hrun, _, _, _, hnone, hsome, _⟩
  cases r with
  | none => rw [hrun, (hnone rfl).left]
  | some p =>
      have hp : p ∈ freePagesOf s := (hsome p rfl).left
      rw [hfree] at hp
      cases hp

/-!
# Opening the table
-/

/-- `get_pte` counts one reference for the table that it makes. -/
theorem new_table_ref (h : TablesSound editable dom d s bs) {la : BitVec 32} {ptep : EntryPtr}
    (habsent : present (pde s d (pdx la)) = false)
    (hrun : getPte s d la true = some (s', some ptep)) : s'.pageRef ptep.frame = 1 := by
  rcases allocPage_spec h.represents with ⟨pmm, r, bs', halloc, _, _, _, _, hsome, _⟩
  rw [getPte_absent_create habsent, halloc] at hrun
  cases r with
  | none => cases hrun
  | some p =>
      have hp20 := h.page_lt (h.free_lt (hsome p rfl).left)
      simp only at hrun
      split at hrun
      · cases hrun
      · unfold tableEntryPtr at hrun
        rw [load_store, if_pos rfl] at hrun
        split at hrun
        · cases hrun
        · rename_i hkaddr
          cases hrun
          unfold kaddr at hkaddr
          split at hkaddr
          · cases hkaddr
          · cases hkaddr
            have hppn : ppn (pdeAddr (tableEntry (page2pa p))) = p :=
              (ppn_pteAddr _).trans (ppn_tableEntry hp20)
            rw [hppn]
            change ((({ s with pmm := pmm } : VmState).setPageRef p 1).pageRef p) = 1
            rw [pageRef_setPageRef, if_pos rfl]

theorem VmInv.unmapped (h : VmInv dom d s) (hp : p ∈ freePagesOf s) : mapCount s d p = 0 := by
  apply Nat.eq_zero_of_not_pos
  intro hpos
  rcases mapCount_pos.mp hpos with ⟨k, hk, htarget⟩
  exact (h.wellFormed.mapped k hk p htarget).used hp

theorem VmInv.opens (h : VmInv dom d s) {la : BitVec 32} (hla : Admissible la)
    (habsent : present (pde s d (pdx la)) = false) (hfree : (freePagesOf s).Nonempty) :
    exists t s1, getPte s d la true = some (s1, some (EntryPtr.mk t (ptx la))) ∧
      ScratchTable dom d (pdx la) t s {t} (fun _ => none) s1 := by
  have htables := h.wellFormed.tables
  rcases htables.getPte_makes_table habsent with hnone | hmade
  · rcases hfree with ⟨p, hp⟩
    unfold freePagesOf at hp
    rw [hnone.right.left] at hp
    cases hp
  · rcases hmade with ⟨pmm, t, bs', ht, hrep, hnpage, hcover, _, horder, href, hrun⟩
    have htd := htables.free_ne_dir ht
    have ht20 := h.free_lt ht
    have hreached := h.wellFormed.reached_withTable hla habsent ht hrep hnpage hcover
      (fun hasc => (horder hasc).left) href
    have htable : tableOf (withTable s pmm d (pdx la) t) d (pdx la) = t := by
      rw [tableOf_withTable htd ht20, if_pos rfl]
    have hptr : entryPtr (withTable s pmm d (pdx la) t) d (keyOf la) =
        EntryPtr.mk t (ptx la) := congrArg (fun x => EntryPtr.mk x (ptx la)) htable
    rw [hptr] at hrun
    refine ⟨t, _, hrun, ?_⟩
    constructor
    · exact h
    · exact VmInv.of_blocks hreached.wellFormed (hreached.refsExact h.refs)
    · exact (admissible_iff la).mp hla
    · exact hnpage
    · exact rfl
    · exact Set.singleton_subset_iff.mpr ht
    · rw [pde_withTable htd, if_pos rfl]
    · exact hreached.pde_eq
    · intro k hk hself
      rw [hreached.view_eq k hk hself]
      by_cases hi : k.fst = pdx la
      · rw [if_pos hi]
        unfold view
        rw [leaf_of_absent (by rw [hi]; exact habsent)]
        rfl
      · rw [if_neg hi]
    · intro j p _ hbad
      cases hbad
    · unfold freePagesOf
      rw [hreached.wellFormed.represents.listedBlocks_eq]
      exact hcover
    · intro q
      rw [slots_none, hreached.mapCount_eq, Nat.add_zero]
    · exact new_table_ref htables habsent hrun
    · intro q hq
      rw [slots_none]
      change (pmm.pages q).ref = _
      rw [href q hq]
      exact (Int.add_zero _).symm
    · intro hasc
      rw [hreached.wellFormed.represents.listedBlocks_eq]
      exact hreached.ascending hasc

/-!
# Working in the table
-/

namespace ScratchTable

theorem table_lt (h : ScratchTable dom d i t s0 taken m s) : t < 2 ^ 20 :=
  h.base.free_lt (h.taken_free h.table_mem)

theorem index_lt (h : ScratchTable dom d i t s0 taken m s) : i < NPDEENTRY := userIndex_lt h.user

theorem present_pde (h : ScratchTable dom d i t s0 taken m s) : present (pde s d i) = true := by
  rw [h.entry]
  exact present_tableEntry _

theorem tableOf_eq (h : ScratchTable dom d i t s0 taken m s) : tableOf s d i = t := by
  unfold tableOf
  rw [h.entry, ppn_tableEntry h.table_lt]

theorem view_slot (h : ScratchTable dom d i t s0 taken m s) (j : Nat) :
    view s d (i, j) = m j := by
  rw [h.view_eq (i, j) h.index_lt (userIndex_ne_self h.user)]
  exact if_pos rfl

theorem isTable (h : ScratchTable dom d i t s0 taken m s) (hp : IsTable s d p) :
    p = t ∨ IsTable s0 d p := by
  rcases hp with ⟨x, hx, hself, hpresent, htable⟩
  by_cases hxi : x = i
  · rw [hxi, h.tableOf_eq] at htable
    exact Or.inl htable.symm
  · unfold tableOf at htable
    rw [h.pde_eq x hxi] at hpresent htable
    exact Or.inr ⟨x, hx, hself, hpresent, htable⟩

theorem dataPage (h : ScratchTable dom d i t s0 taken m s) (hp : p ∈ taken) (hpt : p ≠ t) :
    DataPage dom d s (listedBlocks s.pmm) p := by
  constructor
  · exact h.base.represents.cover_subset (h.taken_free hp)
  · intro hfree
    change p ∈ freePagesOf s at hfree
    rw [h.free_eq] at hfree
    exact hfree.right hp
  · intro htable
    rcases h.isTable htable with heq | hold
    · exact hpt heq
    · exact h.base.wellFormed.table_used p hold (h.taken_free hp)

theorem data_ref (h : ScratchTable dom d i t s0 taken m s) (hp : p ∈ freePagesOf s0)
    (hpt : p ≠ t) : s.pageRef p = slots m p := by
  rw [h.ref_eq p hpt, h.base.free_ref hp, Int.zero_add]

theorem getPte_eq (h : ScratchTable dom d i t s0 taken m s) {la : BitVec 32} (hla : pdx la = i)
    (create : Bool) : getPte s d la create = some (s, some (EntryPtr.mk t (ptx la))) := by
  have hpresent := h.present_pde
  have htable := h.tableOf_eq
  rw [← hla] at hpresent htable
  rw [h.inv.wellFormed.getPte_present la create hpresent]
  unfold entryPtr keyOf
  rw [htable]

theorem load_slot (h : ScratchTable dom d i t s0 taken m s) (j : Nat) :
    s.load (EntryPtr.mk t j) = leaf s d (i, j) := by
  rw [leaf_of_present h.present_pde]
  simp only [h.tableOf_eq]

theorem slot_entry (h : ScratchTable dom d i t s0 taken m s) (hj : j < NPTEENTRY)
    {flags : BitVec 32}
    (hslot : m j = some (p, flags)) :
    pte2page s (s.load (EntryPtr.mk t j)) = some p ∧
      flagBits (s.load (EntryPtr.mk t j)) = flags := by
  have hview : view s d (i, j) = some (p, flags) := (h.view_slot j).trans hslot
  have htarget : target s d (i, j) = some p := by
    unfold target
    rw [hview]
    rfl
  have hp : (m j).map Prod.fst = some p := by
    rw [hslot]
    rfl
  rcases h.mapped j p hj hp with ⟨htaken, hpt⟩
  rw [h.load_slot]
  constructor
  · exact pte2page_of_target htarget (h.inv.wellFormed.data_lt (h.dataPage htaken hpt))
  · unfold view decode at hview
    split at hview
    · cases hview
      rfl
    · cases hview

theorem edited (h : ScratchTable dom d i t s0 taken m s) (hj : j < NPTEENTRY)
    (hedit : Edited dom d s s' (listedBlocks s.pmm) bs' (i, j) new) {left : Set Nat}
    (hnew : forall p, new.map Prod.fst = some p -> p ∈ taken ∧ p ≠ t)
    (hleft : forall p, p ∈ left <-> p ∈ taken ∧
      ((m j).map Prod.fst = some p -> slots (Function.update m j new) p ≠ 0)) :
    ScratchTable dom d i t s0 left (Function.update m j new) s' := by
  have hk : (i, j) ∈ userKeys := mem_userKeys.mpr ⟨h.user, hj⟩
  have hold : target s d (i, j) = (m j).map Prod.fst := by
    unfold target
    rw [h.view_slot]
  have hcount : forall q, mapCount s' d q =
      mapCount s0 d q + slots (Function.update m j new) q := by
    intro q
    have hmove := hedit.mapCount_eq hk q
    have hslots := slots_update hj new q (m := m)
    rw [hold, h.count_eq q] at hmove
    lia
  have hfreed : forall q, (m j).map Prod.fst = some q ->
      mapCount s' d q = slots (Function.update m j new) q := by
    intro q hq
    rw [hcount, h.base.unmapped (h.taken_free (h.mapped j q hj hq).left), Nat.zero_add]
  constructor
  · exact h.base
  · exact hedit.vmInv hk h.inv.refs
  · exact h.user
  · rw [hedit.npage_eq, h.npage_eq]
  · refine (hleft t).mpr ⟨h.table_mem, ?_⟩
    intro hbad
    exact absurd rfl (h.mapped j t hj hbad).right
  · intro q hq
    exact h.taken_free ((hleft q).mp hq).left
  · rw [hedit.pde_eq, h.entry]
  · intro x hx
    rw [hedit.pde_eq, h.pde_eq x hx]
  · intro k hk' hself
    rw [hedit.view_eq k hk', h.view_eq k hk' hself]
    by_cases hki : k.fst = i
    · rw [if_pos hki, if_pos hki]
      by_cases hkj : k.snd = j
      · rw [if_pos (Prod.ext hki hkj), hkj, Function.update_self]
      · rw [if_neg (fun heq => hkj (congrArg Prod.snd heq)), Function.update_of_ne hkj]
    · rw [if_neg (fun heq => hki (congrArg Prod.fst heq)), if_neg hki, if_neg hki]
  · intro x q hxN hx
    have hpos : 0 < slots (Function.update m j new) q := slots_pos.mpr ⟨x, hxN, hx⟩
    have hq : q ∈ taken ∧ q ≠ t := by
      by_cases hxj : x = j
      · rw [hxj, Function.update_self] at hx
        exact hnew q hx
      · rw [Function.update_of_ne hxj] at hx
        exact h.mapped x q hxN hx
    exact ⟨(hleft q).mpr ⟨hq.left, fun _ => Nat.ne_of_gt hpos⟩, hq.right⟩
  · have hfree : freePagesOf s' = cover bs' := by
      unfold freePagesOf
      rw [hedit.wellFormed.represents.listedBlocks_eq]
    ext q
    rw [hfree, hedit.cover_iff q, hold]
    change q ∈ freePagesOf s ∨ _ <-> _
    rw [h.free_eq]
    constructor
    · rintro (hq | hq)
      · exact ⟨hq.left, fun hin => hq.right ((hleft q).mp hin).left⟩
      · have htaken := (h.mapped j q hj hq.left).left
        refine ⟨h.taken_free htaken, fun hin => ((hleft q).mp hin).right hq.left ?_⟩
        rw [← hfreed q hq.left]
        exact hq.right
    · intro hq
      cases Classical.em (q ∈ taken) with
      | inl htaken =>
          right
          have hgone : ¬ ((m j).map Prod.fst = some q ->
              slots (Function.update m j new) q ≠ 0) :=
            fun hkeep => hq.right ((hleft q).mpr ⟨htaken, hkeep⟩)
          rw [Classical.not_imp, Classical.not_not] at hgone
          exact ⟨hgone.left, (hfreed q hgone.left).trans hgone.right⟩
      | inr hout => exact Or.inl ⟨hq.left, hout⟩
  · exact hcount
  · have holdt : ¬ (m j).map Prod.fst = some t := fun hbad => (h.mapped j t hj hbad).right rfl
    have hnewt : ¬ new.map Prod.fst = some t := fun hbad => (hnew t hbad).right rfl
    rw [hedit.ref_eq t, hold, if_neg holdt, if_neg hnewt, h.table_ref]
    rfl
  · intro q hq
    have hslots := slots_update hj new q (m := m)
    rw [hedit.ref_eq q, hold, h.ref_eq q hq]
    split_ifs at hslots ⊢
    · lia
    · lia
    · lia
    · lia
  · intro hasc
    rw [hedit.wellFormed.represents.listedBlocks_eq]
    exact hedit.ascending (h.ascending hasc)

/-!
Which of the pages are still taken after an entry has been overwritten.
-/

section Left

variable {after : Nat -> Option (Nat × BitVec 32)}

theorem left_of_empty (hnone : m j = none) (q : Nat) :
    q ∈ taken <-> q ∈ taken ∧ ((m j).map Prod.fst = some q -> slots after q ≠ 0) := by
  rw [hnone]
  constructor
  · intro hq
    refine ⟨hq, ?_⟩
    intro hbad
    cases hbad
  · exact fun hq => hq.left

theorem left_of_kept {flags : BitVec 32} (hold : m j = some (p, flags))
    (hkept : slots after p ≠ 0) (q : Nat) :
    q ∈ taken <-> q ∈ taken ∧ ((m j).map Prod.fst = some q -> slots after q ≠ 0) := by
  rw [hold]
  constructor
  · intro hq
    refine ⟨hq, ?_⟩
    intro heq
    cases heq
    exact hkept
  · exact fun hq => hq.left

theorem left_of_dropped {flags : BitVec 32} (hold : m j = some (p, flags))
    (hdropped : slots after p = 0) (hout : p ∉ taken) (q : Nat) :
    q ∈ taken <-> q ∈ Insert.insert p taken ∧
      ((m j).map Prod.fst = some q -> slots after q ≠ 0) := by
  rw [hold]
  constructor
  · intro hq
    refine ⟨Or.inr hq, ?_⟩
    intro heq
    cases heq
    exact absurd hq hout
  · rintro ⟨hq, hkept⟩
    rcases hq with heq | hq
    · rw [heq] at hkept
      exact absurd hdropped (hkept rfl)
    · exact hq

end Left

theorem insert (h : ScratchTable dom d i t s0 taken m s) (la perm : BitVec 32) {left : Set Nat}
    (hla : pdx la = i) (hp : p ∈ taken) (hpt : p ≠ t) (hperm : perm.toNat < 2 ^ 12)
    (hleft : forall q, q ∈ left <-> q ∈ taken ∧ ((m (ptx la)).map Prod.fst = some q ->
      slots (Function.update m (ptx la) (some (p, PTE_P ||| perm))) q ≠ 0)) :
    exists s', pageInsert s d p la perm = some (s', 0) ∧
      ScratchTable dom d i t s0 left
        (Function.update m (ptx la) (some (p, PTE_P ||| perm))) s' := by
  have hk : (i, ptx la) ∈ userKeys := mem_userKeys.mpr ⟨h.user, ptx_lt la⟩
  have hptr : EntryPtr.mk t (ptx la) = entryPtr s d (i, ptx la) :=
    congrArg (fun x => EntryPtr.mk x (ptx la)) h.tableOf_eq.symm
  rcases h.inv.wellFormed.pageReplace_spec hk h.present_pde h.inv.refs (h.dataPage hp hpt) hperm
    with ⟨s1, bs1, hreplace, hedit⟩
  refine ⟨_, ?_, h.edited (ptx_lt la) hedit ?_ hleft⟩
  · unfold pageInsert
    rw [h.getPte_eq hla true]
    simp only
    rw [hptr, hreplace]
  · intro q hq
    cases hq
    exact ⟨hp, hpt⟩

theorem remove (h : ScratchTable dom d i t s0 taken m s) (la : BitVec 32) {left : Set Nat}
    (hla : pdx la = i)
    (hleft : forall q, q ∈ left <-> q ∈ taken ∧ ((m (ptx la)).map Prod.fst = some q ->
      slots (Function.update m (ptx la) none) q ≠ 0)) :
    exists s', pageRemove s d la = some s' ∧
      ScratchTable dom d i t s0 left (Function.update m (ptx la) none) s' := by
  have hadm : Admissible la := by
    rw [admissible_iff, hla]
    exact h.user
  rcases h.inv.wellFormed.pageRemove_spec h.inv.refs hadm with ⟨s1, bs1, hrun, hedit⟩
  have hkey : keyOf la = (i, ptx la) := congrArg (fun x => (x, ptx la)) hla
  rw [hkey] at hedit
  refine ⟨s1, hrun, h.edited (ptx_lt la) hedit ?_ hleft⟩
  intro q hq
  cases hq

theorem alloc (h : ScratchTable dom d i t s0 taken m s) (hfree : (freePagesOf s).Nonempty) :
    exists s' p, allocPage s = some (s', some p) ∧ p ∈ freePagesOf s0 ∧ p ∉ taken ∧
      ScratchTable dom d i t s0 (Insert.insert p taken) m s' := by
  rcases allocPage_takes h.inv hfree with
    ⟨s1, p, hrun, hinv, hp, hfree1, hmem, hnpage, href, horder⟩
  rw [h.free_eq] at hp
  have hpde : forall x, pde s1 d x = pde s d x := by
    intro x
    unfold pde load
    rw [hmem]
  have hview : forall k, view s1 d k = view s d k := by
    intro k
    unfold view leaf tableOf pde load
    rw [hmem]
  refine ⟨s1, p, hrun, hp.left, hp.right, ?_⟩
  constructor
  · exact h.base
  · exact hinv
  · exact h.user
  · rw [hnpage, h.npage_eq]
  · exact Or.inr h.table_mem
  · exact Set.insert_subset hp.left h.taken_free
  · rw [hpde, h.entry]
  · intro x hx
    rw [hpde, h.pde_eq x hx]
  · intro k hk hself
    rw [hview, h.view_eq k hk hself]
  · intro j q hj hq
    exact ⟨Or.inr (h.mapped j q hj hq).left, (h.mapped j q hj hq).right⟩
  · rw [hfree1, h.free_eq, Set.sdiff_sdiff, Set.union_singleton]
  · intro q
    rw [mapCount_congr (fun k _ => hview k), h.count_eq]
  · rw [href, h.table_ref]
  · intro q hq
    rw [href, h.ref_eq q hq]
  · intro hasc
    exact (horder (h.ascending hasc)).left

theorem after_alloc {s1 : VmState} (h : ScratchTable dom d i t s1 taken m s)
    (h0 : VmInv dom d s0) (hp : p ∈ freePagesOf s0) (hfree : freePagesOf s1 = freePagesOf s0 \ {p})
    (hmem : s1.mem = s0.mem) (hnpage : s1.pmm.npage = s0.pmm.npage)
    (href : forall q, s1.pageRef q = s0.pageRef q)
    (hasc : Ascending (listedBlocks s0.pmm) -> Ascending (listedBlocks s1.pmm)) :
    ScratchTable dom d i t s0 (Insert.insert p taken) m s := by
  have hsub := h.taken_free
  rw [hfree] at hsub
  constructor
  · exact h0
  · exact h.inv
  · exact h.user
  · rw [h.npage_eq, hnpage]
  · exact Or.inr h.table_mem
  · exact Set.insert_subset hp fun q hq => (hsub hq).left
  · exact h.entry
  · intro x hx
    rw [h.pde_eq x hx]
    unfold pde load
    rw [hmem]
  · intro k hk hself
    rw [h.view_eq k hk hself]
    unfold view leaf tableOf pde load
    rw [hmem]
  · intro j q hj hq
    exact ⟨Or.inr (h.mapped j q hj hq).left, (h.mapped j q hj hq).right⟩
  · rw [h.free_eq, hfree, Set.sdiff_sdiff, Set.singleton_union]
  · intro q
    rw [h.count_eq]
    congr 1
    apply mapCount_congr
    intro k _
    unfold view leaf tableOf pde load
    rw [hmem]
  · exact h.table_ref
  · intro q hq
    rw [h.ref_eq q hq, href]
  · exact fun h0 => h.ascending (hasc h0)

end ScratchTable

/-!
# Giving everything back
-/

structure Restored (dom : Set Nat) (d : Nat) (s s' : VmState) : Prop where
  inv : VmInv dom d s'
  npage_eq : s'.pmm.npage = s.pmm.npage
  pde_eq : forall x, pde s' d x = pde s d x
  view_eq : forall k, k.fst < NPDEENTRY -> view s' d k = view s d k
  free_eq : freePagesOf s' = freePagesOf s
  nrFree_eq : s'.pmm.nrFree = s.pmm.nrFree
  ref_eq : forall q, s'.pageRef q = s.pageRef q

theorem VmInv.congr (h : VmInv dom d s) (hrep : Represents s'.pmm dom bs')
    (hnpage : s'.pmm.npage = s.pmm.npage) (hcover : cover bs' = freePagesOf s)
    (hpde : forall x, pde s' d x = pde s d x)
    (hview : forall k, k ∈ userKeys -> view s' d k = view s d k)
    (href : forall q, s'.pageRef q = s.pageRef q) : VmInv dom d s' := by
  have hwf := h.wellFormed
  have htable : forall x, tableOf s' d x = tableOf s d x := by
    intro x
    unfold tableOf
    rw [hpde]
  have htab : forall q, IsTable s' d q <-> IsTable s d q := isTable_congr hpde
  have hdata : forall q, DataPage dom d s' bs' q <-> DataPage dom d s (listedBlocks s.pmm) q := by
    intro q
    constructor
    · intro hq
      refine ⟨hq.mem, ?_, fun ht => hq.notTable ((htab q).mpr ht)⟩
      intro hc
      change q ∈ freePagesOf s at hc
      rw [← hcover] at hc
      exact hq.used hc
    · intro hq
      refine ⟨hq.mem, ?_, fun ht => hq.notTable ((htab q).mp ht)⟩
      rw [hcover]
      exact hq.used
  have hcount : forall q, mapCount s' d q = mapCount s d q := mapCount_congr hview
  have htarget : forall k, k ∈ userKeys -> target s' d k = target s d k := by
    intro k hk
    unfold target
    rw [hview k hk]
  apply @VmInv.of_blocks dom d s' bs'
  · constructor
    · exact hrep
    · rw [hnpage]
      exact hwf.npage_le
    · rw [hnpage]
      exact hwf.dir_lt
    · exact hwf.dir_reserved
    · rw [hpde, htable]
      exact hwf.selfMap
    · intro q hq
      rw [hnpage]
      exact hwf.table_lt q ((htab q).mp hq)
    · intro q hq
      exact hwf.table_ne_dir q ((htab q).mp hq)
    · intro q hq
      rw [hcover]
      exact hwf.table_used q ((htab q).mp hq)
    · intro x y hx hpx hy hself hpy heq
      rw [hpde] at hpx hpy
      rw [htable, htable] at heq
      exact hwf.user_inj x y hx hpx hy hself hpy heq
    · intro k hk q hq
      rw [htarget k hk] at hq
      exact (hdata q).mpr (hwf.mapped k hk q hq)
  · intro q hq
    rw [href, hcount]
    exact h.refs q ((hdata q).mp hq)

/-- With the pages back on the free list and the directory entry cleared, the table is gone. -/
theorem ScratchTable.restored (h : ScratchTable dom d i t s0 taken m s)
    (hzero : pde s0 d i = 0#32) {pmm : PmmState} (hrep : Represents pmm dom bs')
    (hnpage : pmm.npage = s.pmm.npage) (hcover : cover bs' = freePagesOf s0)
    (href : forall q, (pmm.pages q).ref = s0.pageRef q) :
    Restored dom d s0 (({ s with pmm := pmm } : VmState).store (EntryPtr.mk d i) 0#32) := by
  have hpde : forall x, pde (({ s with pmm := pmm } : VmState).store (EntryPtr.mk d i) 0#32) d x =
      pde s0 d x := by
    intro x
    unfold pde
    rw [load_store]
    by_cases hx : x = i
    · rw [if_pos (by rw [hx]), hx]
      exact hzero.symm
    · rw [if_neg (fun heq => hx (congrArg EntryPtr.index heq))]
      exact h.pde_eq x hx
  have hnpage0 : pmm.npage = s0.pmm.npage := hnpage.trans h.npage_eq
  have hview : forall k, k.fst < NPDEENTRY ->
      view (({ s with pmm := pmm } : VmState).store (EntryPtr.mk d i) 0#32) d k =
        view s0 d k := by
    intro k hk
    cases hpresent : present (pde s0 d k.fst) with
    | false =>
        unfold view
        rw [leaf_of_absent hpresent, leaf_of_absent (by rw [hpde]; exact hpresent)]
    | true =>
        have htable : tableOf (({ s with pmm := pmm } : VmState).store (EntryPtr.mk d i) 0#32) d
            k.fst = tableOf s0 d k.fst := congrArg ppn (hpde k.fst)
        have hki : k.fst ≠ i := by
          intro heq
          rw [heq, hzero] at hpresent
          cases hpresent
        by_cases hself : k.fst = selfIndex
        · have hdir : tableOf s0 d k.fst = d := by
            rw [hself] at hpresent ⊢
            exact h.base.wellFormed.selfMap hpresent
          unfold view
          rw [leaf_of_present (by rw [hpde]; exact hpresent), leaf_of_present hpresent, htable,
            hdir]
          exact congrArg decode (hpde k.snd)
        · have hmap := h.view_eq k hk hself
          rw [if_neg hki] at hmap
          rw [← hmap]
          have hpresent' : present (pde s d k.fst) = true := by
            rw [h.pde_eq k.fst hki]
            exact hpresent
          have hold : tableOf s d k.fst = tableOf s0 d k.fst := congrArg ppn (h.pde_eq k.fst hki)
          have hne : tableOf s0 d k.fst ≠ d :=
            h.base.wellFormed.table_ne_dir _ ⟨k.fst, hk, hself, hpresent, rfl⟩
          unfold view
          rw [leaf_of_present (by rw [hpde]; exact hpresent), leaf_of_present hpresent', htable,
            hold, load_store, if_neg (fun heq => hne (congrArg EntryPtr.frame heq))]
          rfl
  have hinv : VmInv dom d (({ s with pmm := pmm } : VmState).store (EntryPtr.mk d i) 0#32) :=
    h.base.congr hrep hnpage0 hcover hpde (fun k hk => hview k (userKeys_fst_lt hk)) href
  have hfree : freePagesOf (({ s with pmm := pmm } : VmState).store (EntryPtr.mk d i) 0#32) =
      freePagesOf s0 := by
    unfold freePagesOf
    rw [store_pmm, hrep.listedBlocks_eq]
    exact hcover
  constructor
  · exact hinv
  · exact hnpage0
  · exact hpde
  · exact hview
  · exact hfree
  · rw [hinv.nrFree_eq, hfree, h.base.nrFree_eq]
  · exact href

end Memory
end OsLabs
