import OsLabs.Memory.AllocatorRuns

/-!
# What an allocation answers

With non-adjacent ranges an allocation is refused only if no run of free pages is
long enough, and then nothing has changed.  Otherwise one listed block is cut.
-/

namespace OsLabs
namespace Memory

open Foundation
open Foundation.Block
open Foundation.Links
open ListEntryPtr
open PmmState

variable {s s' : PmmState} {dom : Set Nat} {bs pre post : List Block} {b : Block} {n : Nat}

theorem no_run_iff (hsep : Separated bs) (hco : Coalesced bs) (hn : 0 < n) :
    (forall b, b ∈ bs -> b.size < n) <-> ¬ exists p, (Block.mk p n).span ⊆ cover bs := by
  constructor
  · intro hsmall hrun
    rcases hrun with ⟨p, hsub⟩
    rcases hsep.run_inside hco hn hsub with ⟨b, hb, hinside⟩
    have hfirst : p ∈ b.span := hinside ⟨Nat.le_refl p, Nat.lt_add_of_pos_right hn⟩
    have hlast : p + (n - 1) ∈ b.span := by
      apply hinside
      rw [mem_span, stop_mk]
      lia
    have hsize := hsmall b hb
    rw [mem_span] at hfirst hlast
    unfold stop at hlast
    lia
  · intro hno b hb
    by_contra hfit
    apply hno
    refine ⟨b.head, ?_⟩
    intro p hp
    refine ⟨b, hb, ?_⟩
    rw [mem_span] at hp ⊢
    unfold stop at hp ⊢
    simp only at hp
    lia

theorem AllocTo.none_iff {r : Option Nat} {bs' : List Block} (h : AllocTo n bs r bs') :
    r = none <-> forall b, b ∈ bs -> b.size < n := by
  cases h with
  | refused hsmall => exact ⟨fun _ => hsmall, fun _ => rfl⟩
  | granted pre b post hsplit hfit hsmall =>
      constructor
      · intro hnone
        cases hnone
      · intro hall
        have hb := hall b (by rw [hsplit]; simp)
        lia

structure Cut (n p : Nat) (w : AllocWorld) (pmm : PmmState) (b : Block) (pre post : List Block) :
    Prop where
  head : b.head = p
  fits : n ≤ b.size
  listed : listedBlocks w.pmm = pre ++ b :: post
  left : listedBlocks pmm = remainder b n ++ (pre ++ post)
  taken : forall q, p ≤ q -> q < p + n ->
    q ∈ w.initialised \ w.allocated ∧ q ∉ cover (listedBlocks pmm) ∧
      (pmm.pages q).ref = 0 ∧ (pmm.pages q).pageProperty = false
  rest : n < b.size -> (pmm.pages (p + n)).pageProperty = true ∧
    pmm.property (p + n) = b.size - n
  nrFree : pmm.nrFree + n = w.pmm.nrFree
  others : forall q, q ≠ p -> ¬ (n < b.size ∧ q = p + n) -> pmm.pages q = w.pmm.pages q

theorem takePages_of_some {p : Nat} (h : defaultAllocPages s n = some (s', some p)) :
    s' = takePages s p n := by
  unfold defaultAllocPages at h
  split at h
  · split at h
    · cases h
    · split at h
      · cases h
      · cases h
      · cases h
        rfl
  · cases h

theorem Owns.free_eq {w : AllocWorld} (h : Owns w bs) :
    w.initialised \ w.allocated = cover bs := by
  rw [h.allocated_eq, Set.sdiff_sdiff_cancel_left h.represents.cover_subset]

theorem Represents.scan_of_short (h : Represents s dom bs) (hshort : s.nrFree < n) :
    findFit s n (s.npage + 1) freeList = some none := by
  have hring : Ring s.links freeList (entries ([] ++ bs)) := h.ring
  cases findFit_spec hring h.property_eq (Nat.lt_succ_of_le h.length_le) with
  | inl hnone => exact hnone.left
  | inr hsome =>
      rcases hsome with ⟨mid, b, rest, hsplit, hfit, _, _⟩
      have hle : b.size ≤ (bs.map Block.size).sum :=
        List.le_sum_of_mem (List.mem_map_of_mem (by rw [hsplit]; simp))
      rw [← h.nrFree_eq] at hle
      lia

theorem Owns.cut {w : AllocWorld} (h : Owns w (pre ++ b :: post)) (hn : 0 < n)
    (hfit : n ≤ b.size)
    (hrep : Represents (takePages w.pmm b.head n) w.initialised
      (remainder b n ++ (pre ++ post)))
    (hto : AllocTo n (pre ++ b :: post) (some b.head) (remainder b n ++ (pre ++ post))) :
    Cut n b.head w (takePages w.pmm b.head n) b pre post := by
  have hprop : w.pmm.property b.head = b.size := h.represents.property_eq b (by simp)
  have hlisted := hrep.listedBlocks_eq
  have htaken : forall q, b.head ≤ q -> q < b.head + n -> q ∈ handedOut n (some b.head) :=
    fun q hle hlt => ⟨hle, hlt⟩
  have hsub : handedOut n (some b.head) ⊆ cover (pre ++ b :: post) := by
    rw [hto.cover_eq]
    exact Set.subset_union_left
  constructor
  · rfl
  · exact hfit
  · exact h.represents.listedBlocks_eq
  · exact hlisted
  · intro q hle hlt
    have hq := htaken q hle hlt
    have hout : q ∉ cover (remainder b n ++ (pre ++ post)) :=
      Set.disjoint_left.mp (hto.disjoint h.represents.separated) hq
    have hfree := hsub hq
    rw [h.free_eq, hlisted]
    refine ⟨hfree, hout, ?_, ?_⟩
    · rw [takePages_ref w.pmm b.head n q hn]
      exact h.represents.free_ref q hfree
    · rw [← Bool.not_eq_true]
      intro hflag
      rcases List.mem_map.mp
        ((hrep.flagged q (h.represents.cover_subset hfree)).mp hflag) with ⟨c, hc, hcq⟩
      apply hout
      rw [← hcq]
      exact hrep.head_mem hc
  · intro hlt
    have hmem : Block.mk (b.head + n) (b.size - n) ∈ remainder b n ++ (pre ++ post) := by
      unfold remainder
      rw [if_pos hlt]
      simp
    refine ⟨?_, hrep.property_eq _ hmem⟩
    apply (hrep.flagged _ (hrep.cover_subset (hrep.head_mem hmem))).mpr
    exact List.mem_map_of_mem hmem
  · have hsum := hto.sum_eq
    rw [hrep.nrFree_eq, h.represents.nrFree_eq]
    exact hsum.symm
  · intro q hq hcut
    rw [takePages_pages w.pmm b.head n q hn, if_neg hq, hprop, if_neg hcut]

/-- In every state of every run an allocation returns; it is refused exactly when
there are no `n` consecutive free pages, and changes nothing then. -/
theorem allocation_complete {s0 : PmmState} {ranges : List Block} (hboot : Bootable s0 ranges)
    (hco : Coalesced ranges) {w : AllocWorld} (hw : (allocatorSystem s0 ranges).Reachable w)
    (hn : 0 < n) :
    exists pmm r, defaultAllocPages w.pmm n = some (pmm, r) ∧
      (r = none <-> ¬ exists p, (Block.mk p n).span ⊆ w.initialised \ w.allocated) ∧
      (r = none -> pmm = w.pmm) ∧
      (forall p, r = some p -> exists b pre post, Cut n p w pmm b pre post) ∧
      (w.pmm.nrFree < n -> findFit w.pmm n (w.pmm.npage + 1) freeList = some none) := by
  rcases reachable_coalesced hboot hco hw with ⟨bs, howns, hcobs⟩
  rcases defaultAllocPages_spec howns.represents hn with
    ⟨pmm, r, bs', hrun, hto, hrep, _, _, hsame⟩
  refine ⟨pmm, r, hrun, ?_, hsame, ?_, howns.represents.scan_of_short⟩
  · rw [howns.free_eq, hto.none_iff]
    exact no_run_iff howns.represents.separated hcobs hn
  · intro p hp
    subst hp
    have hpmm := takePages_of_some hrun
    subst hpmm
    cases hto with
    | granted pre b post hsplit hfit hsmall =>
        subst hsplit
        exact ⟨b, pre, post,
          howns.cut hn hfit hrep (AllocTo.granted pre b post rfl hfit hsmall)⟩

/-- One page before an allocated one and eight behind it: two pages are cut off the eight,
and nine are refused. -/
theorem allocation_complete_ten_pages :
    exists w, (allocatorSystem (reservedMemory 10) [Block.mk 0 10]).Reachable w ∧
      listedBlocks w.pmm = [Block.mk 0 1, Block.mk 2 8] ∧
      (exists pmm b pre post, defaultAllocPages w.pmm 2 = some (pmm, some 2) ∧
        listedBlocks pmm = [Block.mk 4 6, Block.mk 0 1] ∧ Cut 2 2 w pmm b pre post) ∧
      defaultAllocPages w.pmm 9 = some (w.pmm, none) ∧
      ¬ exists p, (Block.mk p 9).span ⊆ w.initialised \ w.allocated := by
  have hboot := reservedMemory_bootable 10 (Block.mk 0 10) (by decide) (by decide)
  have hco : Coalesced [Block.mk 0 10] := singleton_coalesced (by decide)
  rcases onePageReturned_reachable with ⟨w, hw, hpmm⟩
  have htwo : defaultAllocPages w.pmm 2 = some (unorderedState, some 2) := by
    rw [hpmm]
    rfl
  have hnine : (defaultAllocPages w.pmm 9).map Prod.snd = some none := by
    rw [hpmm]
    rfl
  refine ⟨w, hw, ?_, ?_, ?_⟩
  · rw [hpmm]
    rfl
  · rcases allocation_complete hboot hco hw (show 0 < 2 by decide) with
      ⟨pmm, r, halloc, _, _, hcut, _⟩
    rw [htwo] at halloc
    rcases Prod.mk.inj (Option.some.inj halloc) with ⟨hs, hr⟩
    rw [← hs] at hcut
    rcases hcut 2 hr.symm with ⟨b, pre, post, h⟩
    exact ⟨unorderedState, b, pre, post, htwo, rfl, h⟩
  · rcases allocation_complete hboot hco hw (show 0 < 9 by decide) with
      ⟨pmm, r, halloc, hnone, hsame, _⟩
    rw [halloc] at hnine
    have hr : r = none := Option.some.inj hnine
    rw [hr, hsame hr] at halloc
    exact ⟨halloc, hnone.mp hr⟩

end Memory
end OsLabs
