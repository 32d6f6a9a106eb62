import OsLabs.Memory.PageTableSteps

/-!
# Editing one key of the address space

`page_remove_pte`, `page_remove` and `page_insert` change one key, move the
reference counts of the old and of the new page, and return a page to the
allocator when its last mapping goes.
-/

namespace OsLabs
namespace Memory

open Foundation
open Foundation.Block
open VmState

variable {dom : Set Nat} {d : Nat} {s s' : VmState} {bs bs' : List Block}
  {k : Nat × Nat} {new : Option (Nat × BitVec 32)}

structure Edited (dom : Set Nat) (d : Nat) (s s' : VmState) (bs bs' : List Block)
    (k : Nat × Nat) (new : Option (Nat × BitVec 32)) : Prop where
  wellFormed : WellFormed dom d s' bs'
  npage_eq : s'.pmm.npage = s.pmm.npage
  pde_eq : forall i, pde s' d i = pde s d i
  view_eq : forall k', k'.fst < NPDEENTRY ->
    view s' d k' = if k' = k then new else view s d k'
  ref_eq : forall q, s'.pageRef q = s.pageRef q -
    (if target s d k = some q then 1 else 0) +
    (if new.map Prod.fst = some q then 1 else 0)
  cover_iff : forall q, q ∈ cover bs' <->
    q ∈ cover bs ∨ (target s d k = some q ∧ mapCount s' d q = 0)
  ascending : Ascending bs -> Ascending bs'

theorem userKeys_fst_lt {k : Nat × Nat} (hk : k ∈ userKeys) : k.fst < NPDEENTRY :=
  userIndex_lt (mem_userKeys.mp hk).left

theorem Edited.mapCount_eq (h : Edited dom d s s' bs bs' k new) (hk : k ∈ userKeys)
    (q : Nat) :
    mapCount s' d q + (if target s d k = some q then 1 else 0) =
      mapCount s d q + if new.map Prod.fst = some q then 1 else 0 := by
  have hnew : target s' d k = new.map Prod.fst := by
    unfold target
    rw [h.view_eq k (userKeys_fst_lt hk), if_pos rfl]
  rw [← hnew]
  apply mapCount_update hk
  intro k' hk' hne
  rw [h.view_eq k' (userKeys_fst_lt hk'), if_neg hne]

theorem isTable_congr (h : forall i, pde s' d i = pde s d i) (p : Nat) :
    IsTable s' d p <-> IsTable s d p := by
  unfold IsTable tableOf
  simp only [h]

theorem Edited.data_of_data (h : Edited dom d s s' bs bs' k new) {p : Nat}
    (hp : DataPage dom d s' bs' p) : DataPage dom d s bs p := by
  refine ⟨hp.mem, ?_, ?_⟩
  · intro hc
    exact hp.used ((h.cover_iff p).mpr (Or.inl hc))
  · intro ht
    exact hp.notTable ((isTable_congr h.pde_eq p).mpr ht)

theorem Edited.refsExact (h : Edited dom d s s' bs bs' k new) (hk : k ∈ userKeys)
    (hrefs : RefsExact dom d s bs) : RefsExact dom d s' bs' := by
  intro p hp
  have hold := hrefs p (h.data_of_data hp)
  have hcount := h.mapCount_eq hk p
  rw [h.ref_eq p, hold]
  split_ifs at hcount ⊢
  · lia
  · lia
  · lia
  · lia

theorem Edited.freed_iff (h : Edited dom d s s' bs bs' k new) (hk : k ∈ userKeys)
    {q : Nat} (hq : DataPage dom d s bs q) :
    q ∈ cover bs' <-> 0 < mapCount s d q ∧ mapCount s' d q = 0 := by
  rw [h.cover_iff q]
  constructor
  · intro hc
    cases hc with
    | inl hc => exact absurd hc hq.used
    | inr hc => exact ⟨mapCount_pos.mpr ⟨k, hk, hc.left⟩, hc.right⟩
  · intro hc
    refine Or.inr ⟨?_, hc.right⟩
    have hcount := h.mapCount_eq hk q
    by_cases htarget : target s d k = some q
    · exact htarget
    · rw [if_neg htarget] at hcount
      lia

theorem WellFormed.edited_refl (h : WellFormed dom d s bs) (hnone : view s d k = none) :
    Edited dom d s s bs bs k none := by
  have htarget : target s d k = none := by
    unfold target
    rw [hnone]
    rfl
  refine ⟨h, rfl, fun _ => rfl, ?_, ?_, ?_, id⟩
  · intro k' _
    by_cases heq : k' = k
    · rw [if_pos heq, heq, hnone]
    · rw [if_neg heq]
  · intro q
    rw [htarget]
    simp
  · intro q
    rw [htarget]
    simp

/-!
# Removing a mapping
-/

theorem target_none_iff : target s d k = none <-> present (leaf s d k) = false := by
  unfold target view decode
  cases present (leaf s d k) with
  | false => simp
  | true => simp

theorem pte2page_of_target {p : Nat} (htarget : target s d k = some p)
    (hlt : p < s.pmm.npage) : pte2page s (leaf s d k) = some p := by
  rcases target_eq_some.mp htarget with ⟨hpresent, hppn⟩
  unfold pte2page pa2page
  rw [if_pos hpresent, ppn_pteAddr, hppn, if_neg (Nat.not_le.mpr hlt)]

theorem decode_zero : decode 0#32 = none := rfl

theorem WellFormed.edit (h : WellFormed dom d s bs) (hk : k ∈ userKeys)
    (hpde : present (pde s d k.fst) = true) (entry : BitVec 32)
    (hentry : present entry = true -> DataPage dom d s bs (ppn entry))
    {pmm : PmmState} (hrep : Represents pmm dom bs') (hnpage : pmm.npage = s.pmm.npage)
    (href : forall q, (pmm.pages q).ref = s.pageRef q -
      (if target s d k = some q then 1 else 0) +
      (if (decode entry).map Prod.fst = some q then 1 else 0))
    (hcover : forall q, q ∈ cover bs' <-> q ∈ cover bs ∨
      (target s d k = some q ∧ mapCount (s.store (entryPtr s d k) entry) d q = 0))
    (hasc : Ascending bs -> Ascending bs') :
    Edited dom d s { s.store (entryPtr s d k) entry with pmm := pmm } bs bs' k
      (decode entry) := by
  have hwf := h.store hk hpde hentry
  constructor
  · apply hwf.withPmm hrep hnpage
    intro p hin hout
    cases (hcover p).mp hin with
    | inl hc => exact absurd hc hout
    | inr hc =>
        refine ⟨?_, hc.right⟩
        rw [h.isTable_store hk hpde]
        exact (h.mapped k hk p hc.left).notTable
  · exact hnpage
  · exact h.pde_store hk hpde entry
  · intro k' hk'
    exact h.view_store hk hpde entry hk'
  · exact href
  · exact hcover
  · exact hasc

theorem WellFormed.mapCount_store_zero (h : WellFormed dom d s bs) (hk : k ∈ userKeys)
    (hpde : present (pde s d k.fst) = true) {p : Nat} (htarget : target s d k = some p) :
    mapCount (s.store (entryPtr s d k) 0#32) d p + 1 = mapCount s d p := by
  have hmove := mapCount_update (s := s) (t := s.store (entryPtr s d k) 0#32) hk
    (fun k' hk' hne => by
      rw [h.view_store hk hpde _ (userKeys_fst_lt hk'), if_neg hne]) p
  have hgone : target (s.store (entryPtr s d k) 0#32) d k = none := by
    unfold target
    rw [h.view_store hk hpde _ (userKeys_fst_lt hk), if_pos rfl, decode_zero]
    rfl
  rw [if_pos htarget, hgone] at hmove
  simpa using hmove

theorem cover_iff_of_kept {t : VmState} {p : Nat} (htarget : target s d k = some p)
    (hkept : mapCount t d p ≠ 0) (q : Nat) :
    q ∈ cover bs <-> q ∈ cover bs ∨ (target s d k = some q ∧ mapCount t d q = 0) := by
  rw [htarget]
  constructor
  · exact Or.inl
  · intro hq
    cases hq with
    | inl hc => exact hc
    | inr hc =>
        cases hc.left
        exact absurd hc.right hkept

theorem WellFormed.remove_last (h : WellFormed dom d s bs) (hk : k ∈ userKeys)
    (hpde : present (pde s d k.fst) = true) {p : Nat} (htarget : target s d k = some p)
    (hone : s.pageRef p = 1)
    (hlast : mapCount (s.store (entryPtr s d k) 0#32) d p = 0) :
    exists s' bs', freePage (s.pageRefDec p) p = some s' ∧
      Edited dom d s (s'.store (entryPtr s d k) 0#32) bs bs' k none := by
  have hdata := h.mapped k hk p htarget
  have hdec : WellFormed dom d (s.pageRefDec p) bs := h.setPageRef hdata.used _
  rcases freePage_frees hdec.represents hdata.mem hdata.used with
    ⟨pmm, bs', hrun, hrep, hnpage, hcov, hasc, hfref⟩
  refine ⟨_, bs', hrun, h.edit hk hpde 0#32 ?_ hrep hnpage ?_ ?_ hasc⟩
  · intro hbad
    cases hbad
  · intro q
    rw [hfref q, decode_zero, htarget]
    change (if q = p then 0 else (s.pageRefDec p).pageRef q) = _
    rw [pageRef_pageRefDec]
    simp only [Option.some.injEq, Option.map_none, reduceCtorEq, if_false, Int.add_zero]
    by_cases hq : q = p
    · rw [if_pos hq, if_pos hq.symm, hq, hone, Int.sub_self]
    · rw [if_neg hq]
  · intro q
    rw [hcov, htarget]
    constructor
    · intro hq
      cases hq with
      | inl heq =>
          rw [Set.mem_singleton_iff] at heq
          rw [heq]
          exact Or.inr ⟨rfl, hlast⟩
      | inr hc => exact Or.inl hc
    · intro hq
      cases hq with
      | inl hc => exact Or.inr hc
      | inr hc =>
          cases hc.left
          exact Or.inl rfl

theorem WellFormed.remove_shared (h : WellFormed dom d s bs) (hk : k ∈ userKeys)
    (hpde : present (pde s d k.fst) = true) {p : Nat} (htarget : target s d k = some p)
    (hkept : mapCount (s.store (entryPtr s d k) 0#32) d p ≠ 0) :
    Edited dom d s ((s.pageRefDec p).store (entryPtr s d k) 0#32) bs bs k none := by
  have hdata := h.mapped k hk p htarget
  have hdec : WellFormed dom d (s.pageRefDec p) bs := h.setPageRef hdata.used _
  refine h.edit hk hpde 0#32 ?_ hdec.represents rfl ?_ (cover_iff_of_kept htarget hkept) id
  · intro hbad
    cases hbad
  · intro q
    change (s.pageRefDec p).pageRef q = _
    rw [pageRef_pageRefDec, decode_zero, htarget]
    simp only [Option.some.injEq, Option.map_none, reduceCtorEq, if_false, Int.add_zero]

theorem WellFormed.pageRemovePte_spec (h : WellFormed dom d s bs) (hk : k ∈ userKeys)
    (hpde : present (pde s d k.fst) = true)
    (href : forall p, target s d k = some p -> s.pageRef p = mapCount s d p) :
    exists s' bs', pageRemovePte s (entryPtr s d k) = some s' ∧
      Edited dom d s s' bs bs' k none := by
  have hload : s.load (entryPtr s d k) = leaf s d k := load_entryPtr hpde
  unfold pageRemovePte
  rw [hload]
  cases htarget : target s d k with
  | none =>
      have habsent := target_none_iff.mp htarget
      refine ⟨s, bs, by rw [habsent]; rfl, h.edited_refl ?_⟩
      exact Option.map_eq_none_iff.mp htarget
  | some p =>
      have hpage := pte2page_of_target htarget (h.data_lt (h.mapped k hk p htarget))
      have hcountRef := href p htarget
      have hcount := h.mapCount_store_zero hk hpde htarget
      have hdec : (s.pageRefDec p).pageRef p = s.pageRef p - 1 := by
        rw [pageRef_pageRefDec, if_pos rfl]
      rw [if_pos (target_eq_some.mp htarget).left, hpage]
      simp only
      by_cases hzero : (s.pageRefDec p).pageRef p = 0
      · rw [hdec] at hzero
        rcases h.remove_last hk hpde htarget (by lia) (by lia) with ⟨s', bs', hrun, hedit⟩
        rw [hdec, if_pos hzero, hrun]
        exact ⟨_, bs', rfl, hedit⟩
      · rw [hdec] at hzero
        rw [hdec, if_neg hzero]
        exact ⟨_, bs, rfl, h.remove_shared hk hpde htarget (by lia)⟩

theorem WellFormed.pageRemove_spec (h : WellFormed dom d s bs)
    (hrefs : RefsExact dom d s bs) {la : BitVec 32} (hla : Admissible la) :
    exists s' bs', pageRemove s d la = some s' ∧
      Edited dom d s s' bs bs' (keyOf la) none := by
  have hk := keyOf_mem_userKeys hla
  unfold pageRemove
  cases hpde : present (pde s d (pdx la)) with
  | false =>
      rw [getPte_absent la hpde]
      refine ⟨s, bs, rfl, h.edited_refl ?_⟩
      unfold view
      rw [leaf_of_absent hpde, decode_zero]
  | true =>
      rw [h.getPte_present la false hpde]
      exact h.pageRemovePte_spec hk hpde fun p hp => hrefs p (h.mapped _ hk p hp)

/-!
# Inserting a mapping
-/

theorem decode_leafEntry {page : Nat} {perm : BitVec 32} (hpage : page < 2 ^ 20)
    (hperm : perm.toNat < 2 ^ 12) :
    decode (leafEntry page perm) = some (page, PTE_P ||| perm) := by
  unfold decode
  rw [if_pos (present_leafEntry page perm), ppn_leafEntry hpage hperm,
    flagBits_leafEntry hpage hperm]

/-- Storing a mapping of `page` over a mapping of another page that has just been
removed. -/
theorem Edited.store_after {page p : Nat} {perm : BitVec 32}
    (h : Edited dom d (s.pageRefInc page) s' bs bs' k none) (hk : k ∈ userKeys)
    (hpde : present (pde s d k.fst) = true) (hpage : DataPage dom d s bs page)
    (hpage20 : page < 2 ^ 20) (htarget : target s d k = some p) (hne : p ≠ page)
    (hperm : perm.toNat < 2 ^ 12) :
    Edited dom d s (s'.store (entryPtr s' d k) (leafEntry page perm)) bs bs' k
      (decode (leafEntry page perm)) := by
  have hpde' : present (pde s' d k.fst) = true := by
    rw [h.pde_eq]
    exact hpde
  have hgone : target s' d k = none := by
    unfold target
    rw [h.view_eq k (userKeys_fst_lt hk), if_pos rfl]
    rfl
  have hdata : DataPage dom d s' bs' page := by
    refine ⟨hpage.mem, ?_, ?_⟩
    · intro hc
      cases (h.cover_iff page).mp hc with
      | inl hc => exact hpage.used hc
      | inr hc =>
          have hold : target s d k = some page := hc.left
          rw [htarget] at hold
          cases hold
          exact hne rfl
    · intro ht
      exact hpage.notTable ((isTable_congr h.pde_eq page).mp ht)
  have hview : forall k', k'.fst < NPDEENTRY ->
      view (s'.store (entryPtr s' d k) (leafEntry page perm)) d k' =
        if k' = k then decode (leafEntry page perm) else view s' d k' := by
    intro k' hk'
    exact h.wellFormed.view_store hk hpde' _ hk'
  constructor
  · apply h.wellFormed.store hk hpde'
    intro _
    rw [ppn_leafEntry hpage20 hperm]
    exact hdata
  · exact h.npage_eq
  · intro i
    rw [h.wellFormed.pde_store hk hpde']
    exact h.pde_eq i
  · intro k' hk'
    rw [hview k' hk', h.view_eq k' hk']
    by_cases heq : k' = k
    · rw [if_pos heq, if_pos heq]
    · rw [if_neg heq, if_neg heq, if_neg heq]
      rfl
  · intro q
    change s'.pageRef q = _
    have htargetInc : target (s.pageRefInc page) d k = target s d k := rfl
    rw [h.ref_eq q, pageRef_pageRefInc, htargetInc, decode_leafEntry hpage20 hperm]
    simp only [Option.map_none, Option.map_some, reduceCtorEq, if_false, Option.some.injEq]
    lia
  · intro q
    rw [h.cover_iff q]
    apply or_congr_right
    apply and_congr_right
    intro hq
    have hold : target s d k = some q := hq
    rw [htarget] at hold
    cases hold
    have hmove := mapCount_update (s := s')
      (t := s'.store (entryPtr s' d k) (leafEntry page perm)) hk
      (fun k' hk' hne' => by rw [hview k' (userKeys_fst_lt hk'), if_neg hne']) p
    have hnew : target (s'.store (entryPtr s' d k) (leafEntry page perm)) d k = some page := by
      unfold target
      rw [hview k (userKeys_fst_lt hk), if_pos rfl, decode_leafEntry hpage20 hperm]
      rfl
    have hpne : ¬ some page = some p := by
      intro heq
      cases heq
      exact hne rfl
    rw [hgone, hnew, if_neg hpne] at hmove
    simp only [reduceCtorEq, if_false, Nat.add_zero] at hmove
    rw [hmove]
  · exact h.ascending

theorem DataPage.leafEntry {page : Nat} {perm : BitVec 32} (hpage : DataPage dom d s bs page)
    (hpage20 : page < 2 ^ 20) (hperm : perm.toNat < 2 ^ 12) :
    DataPage dom d s bs (ppn (leafEntry page perm)) := by
  rw [ppn_leafEntry hpage20 hperm]
  exact hpage

theorem WellFormed.insert_new (h : WellFormed dom d s bs) (hk : k ∈ userKeys)
    (hpde : present (pde s d k.fst) = true) {page : Nat} (hpage : DataPage dom d s bs page)
    (hpage20 : page < 2 ^ 20) {perm : BitVec 32} (hperm : perm.toNat < 2 ^ 12)
    (htarget : target s d k = none) :
    Edited dom d s ((s.pageRefInc page).store (entryPtr s d k) (leafEntry page perm)) bs bs k
      (decode (leafEntry page perm)) := by
  have hinc : WellFormed dom d (s.pageRefInc page) bs := h.setPageRef hpage.used _
  refine h.edit hk hpde _ (fun _ => hpage.leafEntry hpage20 hperm) hinc.represents rfl ?_ ?_ id
  · intro q
    change (s.pageRefInc page).pageRef q = _
    rw [pageRef_pageRefInc, htarget, decode_leafEntry hpage20 hperm]
    simp only [Option.some.injEq, Option.map_some, reduceCtorEq, if_false, Int.sub_zero]
  · intro q
    rw [htarget]
    simp only [reduceCtorEq, false_and, or_false]

theorem WellFormed.insert_same (h : WellFormed dom d s bs) (hk : k ∈ userKeys)
    (hpde : present (pde s d k.fst) = true) {page : Nat} (hpage : DataPage dom d s bs page)
    (hpage20 : page < 2 ^ 20) {perm : BitVec 32} (hperm : perm.toNat < 2 ^ 12)
    (htarget : target s d k = some page) :
    Edited dom d s
      (((s.pageRefInc page).pageRefDec page).store (entryPtr s d k) (leafEntry page perm))
      bs bs k (decode (leafEntry page perm)) := by
  have hinc : WellFormed dom d (s.pageRefInc page) bs := h.setPageRef hpage.used _
  have hundo : WellFormed dom d ((s.pageRefInc page).pageRefDec page) bs :=
    hinc.setPageRef hpage.used _
  have hkept : mapCount (s.store (entryPtr s d k) (leafEntry page perm)) d page ≠ 0 := by
    apply Nat.ne_of_gt
    apply mapCount_pos.mpr
    refine ⟨k, hk, ?_⟩
    unfold target
    rw [h.view_store hk hpde _ (userKeys_fst_lt hk), if_pos rfl, decode_leafEntry hpage20 hperm]
    rfl
  refine h.edit hk hpde _ (fun _ => hpage.leafEntry hpage20 hperm) hundo.represents rfl ?_
    (cover_iff_of_kept htarget hkept) id
  intro q
  change ((s.pageRefInc page).pageRefDec page).pageRef q = _
  rw [pageRef_pageRefDec, pageRef_pageRefInc, htarget, decode_leafEntry hpage20 hperm]
  simp only [Option.some.injEq, Option.map_some]
  lia

/-- Everything `page_insert` does once it has the entry. -/
theorem WellFormed.pageReplace_spec (h : WellFormed dom d s bs) (hk : k ∈ userKeys)
    (hpde : present (pde s d k.fst) = true) (hrefs : RefsExact dom d s bs)
    {page : Nat} (hpage : DataPage dom d s bs page) {perm : BitVec 32}
    (hperm : perm.toNat < 2 ^ 12) :
    exists s' bs', pageReplace (s.pageRefInc page) page (entryPtr s d k) = some s' ∧
      Edited dom d s (s'.store (entryPtr s d k) (leafEntry page perm)) bs bs' k
        (some (page, PTE_P ||| perm)) := by
  have hload : (s.pageRefInc page).load (entryPtr s d k) = leaf s d k :=
    load_entryPtr hpde
  have hpage20 := h.tables.page_lt (h.data_lt hpage)
  rw [← decode_leafEntry hpage20 hperm]
  unfold pageReplace
  rw [hload]
  cases htarget : target s d k with
  | none =>
      rw [target_none_iff.mp htarget]
      exact ⟨_, bs, rfl, h.insert_new hk hpde hpage hpage20 hperm htarget⟩
  | some p =>
      have hdata := h.mapped k hk p htarget
      have hpte : pte2page (s.pageRefInc page) (leaf s d k) = some p :=
        pte2page_of_target htarget (h.data_lt hdata)
      rw [if_pos (target_eq_some.mp htarget).left, hpte]
      simp only
      by_cases hsame : p = page
      · rw [if_pos hsame]
        rw [hsame] at htarget
        exact ⟨_, bs, rfl, h.insert_same hk hpde hpage hpage20 hperm htarget⟩
      · rw [if_neg hsame]
        have hinc : WellFormed dom d (s.pageRefInc page) bs := h.setPageRef hpage.used _
        have hother : forall q, target (s.pageRefInc page) d k = some q ->
            (s.pageRefInc page).pageRef q = mapCount (s.pageRefInc page) d q := by
          intro q hq
          change target s d k = some q at hq
          rw [htarget] at hq
          cases hq
          rw [pageRef_pageRefInc, if_neg fun heq => hsame heq.symm, Int.add_zero]
          exact hrefs p hdata
        rcases hinc.pageRemovePte_spec hk hpde hother with ⟨s3, bs3, hrun, hedit⟩
        have hptr : entryPtr s3 d k = entryPtr s d k := by
          unfold entryPtr tableOf
          rw [hedit.pde_eq]
          rfl
        refine ⟨s3, bs3, hrun, ?_⟩
        rw [← hptr]
        exact hedit.store_after hk hpde hpage hpage20 htarget hsame hperm

theorem Reached.refsExact {la : BitVec 32} (h : Reached dom d s s' bs bs' la)
    (hrefs : RefsExact dom d s bs) : RefsExact dom d s' bs' := by
  intro p hp
  have hdata := (h.data_iff p).mp hp
  rw [h.ref_eq p hdata, hrefs p hdata, h.mapCount_eq]

/-- `page_insert` either finds no page for a table and changes nothing, or it
finds or makes the table and edits one key. -/
theorem WellFormed.pageInsert_spec (h : WellFormed dom d s bs)
    (hrefs : RefsExact dom d s bs) {page : Nat} (hpage : DataPage dom d s bs page)
    {la perm : BitVec 32} (hla : Admissible la) (hperm : perm.toNat < 2 ^ 12) :
    (pageInsert s d page la perm = some (s, -E_NO_MEM) ∧ cover bs = ∅) ∨
    exists s1 bs1 s' bs', pageInsert s d page la perm = some (s', 0) ∧
      Reached dom d s s1 bs bs1 la ∧
      Edited dom d s1 s' bs1 bs' (keyOf la) (some (page, PTE_P ||| perm)) := by
  unfold pageInsert
  cases h.getPte_create hla with
  | inl hfail =>
      left
      rw [hfail.left]
      exact ⟨rfl, hfail.right⟩
  | inr hsome =>
      right
      rcases hsome with ⟨s1, bs1, hrun, hreached⟩
      rcases hreached.wellFormed.pageReplace_spec (keyOf_mem_userKeys hla)
          hreached.present_pde (hreached.refsExact hrefs)
          ((hreached.data_iff page).mpr hpage) hperm with ⟨s2, bs2, hreplace, hedit⟩
      refine ⟨s1, bs1, _, bs2, ?_, hreached, hedit⟩
      rw [hrun]
      simp only
      rw [hreplace]

end Memory
end OsLabs
