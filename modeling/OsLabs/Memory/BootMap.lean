import Mathlib.Data.Finset.Card
import OsLabs.Memory.PageInit
import OsLabs.Memory.PageTableRuns

/-!
# Mapping a segment at boot

`boot_map_segment` maps a range of linear addresses page by page.  One round finds or
makes the table of an address and writes one entry of it; the rounds together leave a
linear mapping of the range and every other entry as it was.
-/

namespace OsLabs
namespace Memory

open Foundation
open Foundation.Block
open VmState

def pgoff (la : BitVec 32) : BitVec 32 := la &&& 0xFFF#32

/-- The loop of `boot_map_segment`; the assertion fails when no entry is found. -/
def bootMapLoop (pgdir : Nat) (perm : BitVec 32) :
    Nat -> BitVec 32 -> BitVec 32 -> VmState -> Option VmState
  | 0, _, _, s => some s
  | n + 1, la, pa, s =>
      match getPte s pgdir la true with
      | none => none
      | some (_, none) => none
      | some (s, some ptep) =>
          bootMapLoop pgdir perm n (la + 4096#32) (pa + 4096#32)
            (s.store ptep (pa ||| PTE_P ||| perm))

def bootMapSegment (s : VmState) (pgdir : Nat) (la size pa perm : BitVec 32) :
    Option VmState :=
  if pgoff la = pgoff pa then
    let n := roundUp (size + pgoff la) / 4096#32
    bootMapLoop pgdir perm n.toNat (roundDown la) (roundDown pa) s
  else none

variable {editable : Nat -> Bool} {dom : Set Nat} {d : Nat} {s t : VmState}
  {bs bs' : List Block}

/-!
# One round
-/

structure Opened (editable : Nat -> Bool) (dom : Set Nat) (d : Nat) (s t : VmState)
    (bs' : List Block) (la : BitVec 32) : Prop where
  sound : TablesSound editable dom d t bs'
  present_pde : present (pde t d (pdx la)) = true
  leaf_eq : forall k, k.fst < NPDEENTRY -> k.fst ≠ selfIndex -> leaf t d k = leaf s d k
  pde_eq : forall i, i ≠ pdx la -> pde t d i = pde s d i
  kept : present (pde s d (pdx la)) = true -> t = s
  npage_eq : t.pmm.npage = s.pmm.npage
  nrFree_eq : present (pde s d (pdx la)) = false -> t.pmm.nrFree + 1 = s.pmm.nrFree

theorem TablesSound.getPte_create (h : TablesSound editable dom d s bs) {la : BitVec 32}
    (hself : pdx la ≠ selfIndex)
    (hfree : present (pde s d (pdx la)) = false -> 0 < s.pmm.nrFree) :
    exists t bs', getPte s d la true = some (t, some (entryPtr t d (keyOf la))) ∧
      Opened editable dom d s t bs' la := by
  cases hpresent : present (pde s d (pdx la)) with
  | true =>
      have hlt := h.table_lt _ ⟨pdx la, pdx_lt la, hself, hpresent, rfl⟩
      refine ⟨s, bs, getPte_of_lt la true hpresent hlt, h, hpresent, fun _ _ _ => rfl,
        fun _ _ => rfl, fun _ => rfl, rfl, ?_⟩
      intro habsent
      rw [hpresent] at habsent
      cases habsent
  | false =>
      cases h.getPte_makes_table hpresent with
      | inl hnone =>
          have hpos := hfree hpresent
          have hzero := hnone.right.right
          lia
      | inr hmade =>
          rcases hmade with ⟨pmm, p, bs', hp, hrep, hnpage, hcover, hcount, _, _, hrun⟩
          have hpd := h.free_ne_dir hp
          refine ⟨_, bs', hrun, h.withTable (pdx_lt la) hself hpresent hp hrep hnpage hcover,
            (present_withTable hpd _).mpr (Or.inl rfl), ?_, ?_, ?_, hnpage, fun _ => hcount⟩
          · intro k hk hkself
            exact h.leaf_withTable hp hpresent hk hkself
          · intro i hne
            rw [pde_withTable hpd, if_neg hne]
          · intro hbad
            rw [hpresent] at hbad
            cases hbad

/-!
# The rounds together
-/

def pageNumber (k : Nat × Nat) : Nat := k.fst * 1024 + k.snd

theorem pageNumber_keyOf (x : BitVec 32) : pageNumber (keyOf x) = x.toNat / 4096 := by
  unfold pageNumber keyOf
  simp only [pdx_eq, ptx_eq]
  lia

theorem eq_keyOf_iff {k : Nat × Nat} {la : BitVec 32} (hk : k.snd < NPTEENTRY) :
    k = keyOf la <-> pageNumber k = la.toNat / 4096 := by
  unfold NPTEENTRY at hk
  rw [← pageNumber_keyOf]
  constructor
  · intro heq
    rw [heq]
  · intro heq
    have hlt := ptx_lt la
    unfold NPTEENTRY at hlt
    unfold pageNumber keyOf at heq
    simp only at heq
    refine Prod.ext ?_ ?_
    · change k.fst = pdx la
      lia
    · change k.snd = ptx la
      lia

def tableIndex (i : Nat) : Bool :=
  decide (i < NPDEENTRY) && decide (i ≠ selfIndex)

theorem tableIndex_iff {i : Nat} : tableIndex i = true <-> i < NPDEENTRY ∧ i ≠ selfIndex := by
  unfold tableIndex
  rw [Bool.and_eq_true, decide_eq_true_iff, decide_eq_true_iff]

/-- The directory entries of the range `[lo, hi)` that have no table yet. -/
def missingTables (s : VmState) (d lo hi : Nat) : Finset Nat :=
  (Finset.range NPDEENTRY).filter fun i => present (pde s d i) = false ∧
    max lo (i * PTSIZE) < min hi ((i + 1) * PTSIZE)

theorem mem_missingTables {la : BitVec 32} {p : Nat} (n : Nat) (hla : la.toNat = p * 4096)
    (habsent : present (pde s d (pdx la)) = false) :
    pdx la ∈ missingTables s d (p * 4096) ((p + (n + 1)) * 4096) := by
  have hpdx : pdx la = p / 1024 := by
    rw [pdx_eq, hla]
    lia
  refine Finset.mem_filter.mpr ⟨Finset.mem_range.mpr (pdx_lt la), habsent, ?_⟩
  rw [hpdx]
  unfold PTSIZE NPTEENTRY
  lia

structure SegmentMapped (dom : Set Nat) (d : Nat) (s t : VmState) (bs' : List Block)
    (p q n : Nat) (perm : BitVec 32) : Prop where
  sound : TablesSound tableIndex dom d t bs'
  present_pde : forall x, p ≤ x -> x < p + n -> present (pde t d (x / 1024)) = true
  kept : forall i, present (pde s d i) = true -> pde t d i = pde s d i
  leaf_eq : forall k, k.fst < NPDEENTRY -> k.fst ≠ selfIndex -> k.snd < NPTEENTRY ->
    leaf t d k = if p ≤ pageNumber k ∧ pageNumber k < p + n
      then page2pa (q + (pageNumber k - p)) ||| PTE_P ||| perm else leaf s d k

theorem Opened.missingTables_card {la : BitVec 32} {p n : Nat}
    (h : Opened editable dom d s t bs' la) (hla : la.toNat = p * 4096)
    (hfree : (missingTables s d (p * 4096) ((p + (n + 1)) * 4096)).card ≤ s.pmm.nrFree) :
    (missingTables t d ((p + 1) * 4096) ((p + 1 + n) * 4096)).card ≤ t.pmm.nrFree := by
  have hsub : missingTables t d ((p + 1) * 4096) ((p + 1 + n) * 4096) ⊆
      (missingTables s d (p * 4096) ((p + (n + 1)) * 4096)).erase (pdx la) := by
    intro i hi
    rcases Finset.mem_filter.mp hi with ⟨hlt, habsent, hmeet⟩
    have hne : i ≠ pdx la := by
      intro heq
      rw [heq, h.present_pde] at habsent
      cases habsent
    rw [h.pde_eq i hne] at habsent
    refine Finset.mem_erase.mpr ⟨hne, Finset.mem_filter.mpr ⟨hlt, habsent, ?_⟩⟩
    rw [max_lt_iff, lt_min_iff, lt_min_iff] at hmeet ⊢
    have hlow : p * 4096 ≤ (p + 1) * 4096 := Nat.mul_le_mul_right _ (Nat.le_succ p)
    have hsame : p + 1 + n = p + (n + 1) := by lia
    rw [hsame] at hmeet
    exact ⟨⟨hlow.trans_lt hmeet.left.left, hlow.trans_lt hmeet.left.right⟩, hmeet.right⟩
  have hcard := Finset.card_le_card hsub
  cases hpresent : present (pde s d (pdx la)) with
  | true =>
      rw [h.kept hpresent] at hcard ⊢
      have herase := @Finset.card_erase_le _
        (missingTables s d (p * 4096) ((p + (n + 1)) * 4096)) (pdx la) _
      lia
  | false =>
      have hmem := mem_missingTables n hla hpresent
      rw [Finset.card_erase_of_mem hmem] at hcard
      have hpos := Finset.card_pos.mpr ⟨_, hmem⟩
      have hcount := h.nrFree_eq hpresent
      lia

theorem page_next {la : BitVec 32} {p : Nat} (hla : la.toNat = p * 4096)
    (hnext : p + 1 < 2 ^ 20) : (la + 4096#32).toNat = (p + 1) * 4096 := by
  rw [BitVec.toNat_add, hla]
  change (p * 4096 + 4096) % 2 ^ 32 = _
  lia

theorem SegmentMapped.cons {s1 : VmState} {bs1 : List Block} {la pa perm : BitVec 32}
    {p q n : Nat} (hopened : Opened tableIndex dom d s s1 bs1 la) (hnotSelf : pdx la ≠ selfIndex)
    (hla : la.toNat = p * 4096) (hpa : pa.toNat = q * 4096) (hq : q < 2 ^ 20)
    (h : SegmentMapped dom d (s1.store (entryPtr s1 d (keyOf la)) (pa ||| PTE_P ||| perm)) t bs'
      (p + 1) (q + 1) n perm) :
    SegmentMapped dom d s t bs' p q (n + 1) perm := by
  have hindex : tableIndex (keyOf la).fst = true := tableIndex_iff.mpr ⟨pdx_lt la, hnotSelf⟩
  have hpde := hopened.sound.pde_store hindex hopened.present_pde (pa ||| PTE_P ||| perm)
  have hpdx : pdx la = p / 1024 := by
    rw [pdx_eq, hla]
    lia
  have hopened_pde : forall i, present (pde s d i) = true -> pde s1 d i = pde s d i := by
    intro i hi
    by_cases heq : i = pdx la
    · rw [hopened.kept (heq ▸ hi)]
    · exact hopened.pde_eq i heq
  refine ⟨h.sound, ?_, ?_, ?_⟩
  · intro x hlow hhigh
    by_cases heq : x = p
    · have hthere : present (pde (s1.store (entryPtr s1 d (keyOf la))
          (pa ||| PTE_P ||| perm)) d (x / 1024)) = true := by
        rw [hpde, heq, ← hpdx]
        exact hopened.present_pde
      rw [h.kept _ hthere]
      exact hthere
    · exact h.present_pde x (by lia) (by lia)
  · intro i hi
    have hone := hopened_pde i hi
    have hthere : present (pde (s1.store (entryPtr s1 d (keyOf la))
        (pa ||| PTE_P ||| perm)) d i) = true := by
      rw [hpde, hone]
      exact hi
    rw [h.kept i hthere, hpde, hone]
  · intro k hk hkself hsnd
    have hkey : k = keyOf la <-> pageNumber k = p := by
      rw [eq_keyOf_iff hsnd, hla, Nat.mul_div_cancel p (by decide)]
    rw [h.leaf_eq k hk hkself hsnd,
      hopened.sound.leaf_store hindex hopened.present_pde _ hk hkself]
    by_cases heq : k = keyOf la
    · have hpage := hkey.mp heq
      have hpa_eq : pa = page2pa q := by
        apply BitVec.eq_of_toNat_eq
        rw [page2pa_toNat hq, hpa]
      rw [if_neg (by lia), if_pos heq, if_pos (by lia), hpage, Nat.sub_self, Nat.add_zero,
        hpa_eq]
    · have hpage : pageNumber k ≠ p := fun hbad => heq (hkey.mpr hbad)
      rw [if_neg heq, hopened.leaf_eq k hk hkself]
      by_cases hin : p + 1 ≤ pageNumber k ∧ pageNumber k < p + 1 + n
      · have hshift : q + 1 + (pageNumber k - (p + 1)) = q + (pageNumber k - p) := by lia
        rw [if_pos hin, if_pos (by lia), hshift]
      · rw [if_neg hin, if_neg (by lia)]

theorem bootMapLoop_spec (perm : BitVec 32) {n p q : Nat} {la pa : BitVec 32}
    (h : TablesSound tableIndex dom d s bs) (hla : 0 < n -> la.toNat = p * 4096)
    (hpa : 0 < n -> pa.toNat = q * 4096) (hend : p + n ≤ 2 ^ 20) (hend' : q + n ≤ 2 ^ 20)
    (hself : forall x, p ≤ x -> x < p + n -> x / 1024 ≠ selfIndex)
    (hfree : (missingTables s d (p * 4096) ((p + n) * 4096)).card ≤ s.pmm.nrFree) :
    exists t bs', bootMapLoop d perm n la pa s = some t ∧
      SegmentMapped dom d s t bs' p q n perm := by
  induction n generalizing s bs p q la pa with
  | zero =>
      refine ⟨s, bs, rfl, h, ?_, fun _ _ => rfl, ?_⟩
      · intro x hlow hhigh
        lia
      · intro k _ _ _
        rw [if_neg (by lia)]
  | succ n ih =>
      have hla' := hla (Nat.succ_pos n)
      have hpa' := hpa (Nat.succ_pos n)
      have hnotSelf : pdx la ≠ selfIndex := by
        have hpage := hself p (Nat.le_refl p) (by lia)
        rw [pdx_eq, hla']
        lia
      have hpages : present (pde s d (pdx la)) = false -> 0 < s.pmm.nrFree := by
        intro habsent
        have hpos := Finset.card_pos.mpr ⟨_, mem_missingTables n hla' habsent⟩
        lia
      rcases h.getPte_create hnotSelf hpages with ⟨s1, bs1, hget, hopened⟩
      have hindex : tableIndex (keyOf la).fst = true :=
        tableIndex_iff.mpr ⟨pdx_lt la, hnotSelf⟩
      have hsound := hopened.sound.store hindex hopened.present_pde (pa ||| PTE_P ||| perm)
      have hpde := hopened.sound.pde_store hindex hopened.present_pde (pa ||| PTE_P ||| perm)
      have hcard := hopened.missingTables_card hla' hfree
      have hcard' : (missingTables (s1.store (entryPtr s1 d (keyOf la)) (pa ||| PTE_P ||| perm))
          d ((p + 1) * 4096) ((p + 1 + n) * 4096)).card ≤ s1.pmm.nrFree := by
        unfold missingTables at hcard ⊢
        simp only [hpde]
        exact hcard
      rcases ih hsound (fun hn => page_next hla' (by lia)) (fun hn => page_next hpa' (by lia))
        (by lia) (by lia) (fun x hlow hhigh => hself x (by lia) (by lia)) hcard' with
        ⟨t, bs', hloop, hmapped⟩
      refine ⟨t, bs', ?_, SegmentMapped.cons hopened hnotSelf hla' hpa' (by lia) hmapped⟩
      simp only [bootMapLoop, hget]
      exact hloop

/-!
# The segment
-/

/-- `ROUNDUP(la + size, PGSIZE)`, not cut to 32 bits. -/
def segmentEnd (la size : BitVec 32) : Nat :=
  (la.toNat + size.toNat + 4095) / 4096 * 4096

theorem pgoff_toNat (la : BitVec 32) : (pgoff la).toNat = la.toNat % 4096 :=
  flagBits_toNat la

theorem segment_pages {la size : BitVec 32} (h : size.toNat + la.toNat % 4096 + 4095 < 2 ^ 32) :
    (roundUp (size + pgoff la) / 4096#32).toNat =
      (size.toNat + la.toNat % 4096 + 4095) / 4096 := by
  have hsum : (size + pgoff la).toNat = size.toNat + la.toNat % 4096 := by
    rw [BitVec.toNat_add, pgoff_toNat]
    exact Nat.mod_eq_of_lt (by lia)
  rw [BitVec.toNat_udiv, roundUp_toNat (by rw [hsum]; exact h), hsum]
  exact Nat.mul_div_cancel _ (by decide)

theorem linear_entry {la pa x : BitVec 32} {n : Nat} (hlow : la.toNat / 4096 ≤ x.toNat / 4096)
    (hhigh : x.toNat / 4096 < la.toNat / 4096 + n) (hend : pa.toNat / 4096 + n ≤ 2 ^ 20) :
    page2pa (pa.toNat / 4096 + (x.toNat / 4096 - la.toNat / 4096)) =
      roundDown pa + (roundDown x - roundDown la) := by
  have hla := roundDown_toNat la
  have hpa := roundDown_toNat pa
  have hx := roundDown_toNat x
  have hsub : (roundDown x - roundDown la).toNat =
      (x.toNat / 4096 - la.toNat / 4096) * 4096 := by
    rw [BitVec.toNat_sub_of_le (by rw [BitVec.le_def]; lia), hx, hla, Nat.sub_mul]
  apply BitVec.eq_of_toNat_eq
  rw [page2pa_toNat (by lia), BitVec.toNat_add, hpa, hsub, Nat.add_mul]
  exact (Nat.mod_eq_of_lt (by lia)).symm

theorem not_selfIndex_iff (x : BitVec 32) :
    pdx x ≠ selfIndex <-> ¬ (VPT ≤ x.toNat ∧ x.toNat < VPT + PTSIZE) := by
  rw [pdx_eq]
  unfold selfIndex VPT PTSIZE NPTEENTRY
  lia

/-- A segment that ends in memory and leaves the self-map out does not wrap around. -/
theorem segment_small {la size : BitVec 32} (hla : segmentEnd la size ≤ 2 ^ 32)
    (hself : forall x, (roundDown la).toNat ≤ x -> x < segmentEnd la size ->
      ¬ (VPT ≤ x ∧ x < VPT + PTSIZE)) : size.toNat + la.toNat % 4096 + 4095 < 2 ^ 32 := by
  have hstart := roundDown_toNat la
  have hwindow : VPT < VPT + PTSIZE := by decide
  have hVPT : VPT < 2 ^ 32 := by decide
  by_contra hwrap
  unfold segmentEnd at hla hself
  exact hself VPT (by lia) (by lia) ⟨Nat.le_refl _, hwindow⟩

theorem bootMapSegment_spec (h : TablesSound tableIndex dom d s bs)
    {la size pa : BitVec 32} (perm : BitVec 32) (hoff : pgoff la = pgoff pa)
    (hla : segmentEnd la size ≤ 2 ^ 32) (hpa : segmentEnd pa size ≤ 2 ^ 32)
    (hself : forall x, (roundDown la).toNat ≤ x -> x < segmentEnd la size ->
      ¬ (VPT ≤ x ∧ x < VPT + PTSIZE))
    (hfree : (missingTables s d (roundDown la).toNat (segmentEnd la size)).card ≤
      s.pmm.nrFree) :
    exists n t bs', segmentEnd la size = (la.toNat / 4096 + n) * 4096 ∧
      pa.toNat / 4096 + n ≤ 2 ^ 20 ∧ bootMapSegment s d la size pa perm = some t ∧
      SegmentMapped dom d s t bs' (la.toNat / 4096) (pa.toNat / 4096) n perm := by
  have hoffset : la.toNat % 4096 = pa.toNat % 4096 := by
    rw [← pgoff_toNat, ← pgoff_toNat, hoff]
  have hstart := roundDown_toNat la
  have hpages := segment_pages (segment_small hla hself)
  obtain ⟨n, hn⟩ : exists n, n = (size.toNat + la.toNat % 4096 + 4095) / 4096 := ⟨_, rfl⟩
  rw [← hn] at hpages
  have hstop : segmentEnd la size = (la.toNat / 4096 + n) * 4096 := by
    unfold segmentEnd
    lia
  have hstop' : segmentEnd pa size = (pa.toNat / 4096 + n) * 4096 := by
    unfold segmentEnd
    lia
  have hnotSelf : forall x, la.toNat / 4096 ≤ x -> x < la.toNat / 4096 + n ->
      x / 1024 ≠ selfIndex := by
    intro x hlow hhigh heq
    have hin := hself (x * 4096) (by lia) (by lia)
    unfold selfIndex at heq
    unfold VPT PTSIZE NPTEENTRY at hin
    lia
  rw [hstart, hstop] at hfree
  rcases bootMapLoop_spec perm h (fun _ => hstart) (fun _ => roundDown_toNat pa) (by lia)
    (by lia) hnotSelf hfree with ⟨t, bs', hloop, hmapped⟩
  refine ⟨n, t, bs', hstop, by lia, ?_, hmapped⟩
  unfold bootMapSegment
  rw [if_pos hoff]
  simp only
  rw [hpages]
  exact hloop

/-- The segment is mapped linearly, in the pages that it touches and in no others. -/
theorem boot_map_segment_exact (h : TablesSound tableIndex dom d s bs)
    {la size pa perm : BitVec 32} (hoff : pgoff la = pgoff pa)
    (hla : segmentEnd la size ≤ 2 ^ 32) (hpa : segmentEnd pa size ≤ 2 ^ 32)
    (hself : forall x, (roundDown la).toNat ≤ x -> x < segmentEnd la size ->
      ¬ (VPT ≤ x ∧ x < VPT + PTSIZE))
    (hfree : (missingTables s d (roundDown la).toNat (segmentEnd la size)).card ≤
      s.pmm.nrFree) :
    exists t bs', bootMapSegment s d la size pa perm = some t ∧
      TablesSound tableIndex dom d t bs' ∧
      (forall x : BitVec 32, (roundDown la).toNat ≤ x.toNat -> x.toNat < segmentEnd la size ->
        exists ptep, getPte t d x false = some (t, some ptep) ∧
          t.load ptep = (roundDown pa + (roundDown x - roundDown la)) ||| PTE_P ||| perm) ∧
      (forall x : BitVec 32,
        ¬ ((roundDown la).toNat ≤ x.toNat ∧ x.toNat < segmentEnd la size) ->
        ¬ (VPT ≤ x.toNat ∧ x.toNat < VPT + PTSIZE) ->
        leaf t d (keyOf x) = leaf s d (keyOf x)) ∧
      forall i, present (pde s d i) = true -> pde t d i = pde s d i := by
  have hstart := roundDown_toNat la
  rcases bootMapSegment_spec h perm hoff hla hpa hself hfree with
    ⟨n, t, bs', hstop, hend, hrun, hmapped⟩
  refine ⟨t, bs', hrun, hmapped.sound, ?_, ?_, hmapped.kept⟩
  · intro x hlow hhigh
    have hlow' : la.toNat / 4096 ≤ x.toNat / 4096 := by lia
    have hhigh' : x.toNat / 4096 < la.toNat / 4096 + n := by lia
    have hxself := (not_selfIndex_iff x).mpr (hself _ hlow hhigh)
    have hthere : present (pde t d (pdx x)) = true := by
      rw [pdx_eq, ← Nat.div_div_eq_div_mul _ 4096 1024]
      exact hmapped.present_pde _ hlow' hhigh'
    have hlt := hmapped.sound.table_lt _ ⟨pdx x, pdx_lt x, hxself, hthere, rfl⟩
    refine ⟨_, getPte_of_lt x false hthere hlt, ?_⟩
    rw [load_entryPtr hthere, hmapped.leaf_eq _ (pdx_lt x) hxself (ptx_lt x), pageNumber_keyOf,
      if_pos ⟨hlow', hhigh'⟩, linear_entry hlow' hhigh' hend]
  · intro x hout hwin
    rw [hmapped.leaf_eq _ (pdx_lt x) ((not_selfIndex_iff x).mpr hwin) (ptx_lt x),
      pageNumber_keyOf, if_neg (by lia)]

/-!
# The state the kernel boots into
-/

theorem eightPages_tablesSound :
    TablesSound tableIndex (cover [Block.mk 2 6]) 0 (bootVm eightPages 0 1) [Block.mk 2 6] :=
  bootVm_tablesSound (fun _ hi => tableIndex_iff.mp hi)
    (reservedMemory_bootable 8 (Block.mk 2 6) (by decide) (by decide)) rfl
    (by decide) (by decide) (by decide) (by decide) (not_free_of_lt_two (by decide))
    (not_free_of_lt_two (by decide))

/-- A segment of two pages, one on each side of a border of four megabytes. -/
theorem boot_map_segment_two_tables :
    exists t bs', bootMapSegment (bootVm eightPages 0 1) 0 0x3FF800#32 0x1000#32 0x800#32 PTE_W =
        some t ∧
      TablesSound tableIndex (cover [Block.mk 2 6]) 0 t bs' ∧
      (forall x : BitVec 32, (roundDown 0x3FF800#32).toNat ≤ x.toNat ->
        x.toNat < segmentEnd 0x3FF800#32 0x1000#32 ->
        exists ptep, getPte t 0 x false = some (t, some ptep) ∧
          t.load ptep = (roundDown 0x800#32 + (roundDown x - roundDown 0x3FF800#32)) |||
            PTE_P ||| PTE_W) ∧
      (forall x : BitVec 32, ¬ ((roundDown 0x3FF800#32).toNat ≤ x.toNat ∧
          x.toNat < segmentEnd 0x3FF800#32 0x1000#32) ->
        ¬ (VPT ≤ x.toNat ∧ x.toNat < VPT + PTSIZE) ->
        leaf t 0 (keyOf x) = leaf (bootVm eightPages 0 1) 0 (keyOf x)) ∧
      forall i, present (pde (bootVm eightPages 0 1) 0 i) = true ->
        pde t 0 i = pde (bootVm eightPages 0 1) 0 i := by
  have hend : segmentEnd 0x3FF800#32 0x1000#32 = 0x401000 := by decide
  have hVPT : VPT = 0xFAC00000 := rfl
  have hfew : missingTables (bootVm eightPages 0 1) 0 (roundDown 0x3FF800#32).toNat
      (segmentEnd 0x3FF800#32 0x1000#32) ⊆ {0, 1} := by
    intro i hi
    have hmeet := (Finset.mem_filter.mp hi).right.right
    rw [max_lt_iff, lt_min_iff, lt_min_iff, hend] at hmeet
    have hlow := hmeet.right.left
    unfold PTSIZE NPTEENTRY at hlow
    have hcases : i = 0 ∨ i = 1 := by lia
    rw [Finset.mem_insert, Finset.mem_singleton]
    exact hcases
  refine boot_map_segment_exact eightPages_tablesSound (by decide) (by decide) (by decide) ?_ ?_
  · intro x _ hhigh hin
    rw [hend] at hhigh
    rw [hVPT] at hin
    lia
  · exact (Finset.card_le_card hfew).trans (by decide)

end Memory
end OsLabs
