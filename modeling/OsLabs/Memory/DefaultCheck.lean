import OsLabs.Memory.PageInit
import OsLabs.Memory.SelfCheck

/-!
# When the self test passes

`default_check` as a whole: it passes exactly when five consecutive pages are free, and it
leaves the allocator as it was.
-/

namespace OsLabs
namespace Memory

open Foundation
open Foundation.Block
open Foundation.Links
open ListEntryPtr
open PmmState

section Check

variable {s s' : PmmState} {dom : Set Nat} {bs bs' pre post : List Block}

theorem countBlocks_spec {fuel : Nat} {count total : Int}
    (hr : Ring s.links freeList (entries (pre ++ post)))
    (hprop : forall b, b ∈ post ->
      (s.pages b.head).pageProperty = true ∧ s.property b.head = b.size)
    (hfuel : post.length < fuel) :
    countBlocks s fuel (lastFrom freeList (entries pre)) count total =
        some (count + post.length, total + (post.map Block.size).sum) ∧
      uncountBlocks s fuel (lastFrom freeList (entries pre)) count total =
        some (count - post.length, total - (post.map Block.size).sum) := by
  induction post generalizing pre fuel count total with
  | nil =>
      cases fuel with
      | zero => cases hfuel
      | succ fuel =>
          rw [entries_append] at hr
          unfold countBlocks uncountBlocks listNext
          rw [hr.next_lastFrom]
          simp
  | cons b post ih =>
      cases fuel with
      | zero => cases hfuel
      | succ fuel =>
          have hnext := hr
          rw [entries_append] at hnext
          rcases hprop b List.mem_cons_self with ⟨hflag, hsize⟩
          have hshift : Ring s.links freeList (entries ((pre ++ [b]) ++ post)) := by
            simpa using hr
          have hrest := fun count total => @ih (pre ++ [b]) fuel count total hshift
            (fun c hc => hprop c (List.mem_cons_of_mem b hc)) (Nat.lt_of_succ_lt_succ hfuel)
          simp only [entries_append, entries_cons, entries_nil, lastFrom_snoc] at hrest
          unfold countBlocks uncountBlocks listNext
          rw [hnext.next_lastFrom, entries_cons, firstTo_cons]
          simp only [hflag, hsize, if_true, (hrest _ _).left, (hrest _ _).right,
            List.length_cons, List.map_cons, List.sum_cons, Option.some.injEq, Prod.mk.injEq]
          lia

theorem Represents.counted (h : Represents s dom bs) (count total : Int) :
    countBlocks s (s.npage + 1) freeList count total =
        some (count + bs.length, total + (bs.map Block.size).sum) ∧
      uncountBlocks s (s.npage + 1) freeList count total =
        some (count - bs.length, total - (bs.map Block.size).sum) := by
  have hring : Ring s.links freeList (entries ([] ++ bs)) := h.ring
  apply countBlocks_spec hring
  · intro b hb
    exact ⟨(h.flagged b.head (h.heads_subset b hb)).mpr (List.mem_map_of_mem hb),
      h.property_eq b hb⟩
  · exact Nat.lt_succ_of_le h.length_le

theorem perm_of_cover (hsep : Separated bs) (hco : Coalesced bs) (hsep' : Separated bs')
    (hco' : Coalesced bs') (hcover : cover bs' = cover bs) : bs'.Perm bs := by
  rw [List.perm_ext_iff_of_nodup hsep'.nodup_heads.of_map hsep.nodup_heads.of_map]
  intro b
  rw [hsep'.mem_iff_maximalRun hco', hsep.mem_iff_maximalRun hco, hcover]

theorem defaultCheck_passes (h : Represents s (cover bs) bs) (hco : Coalesced bs)
    (hnpage : s.npage ≤ KMEMSIZE / 4096) (hfit : exists b, b ∈ bs ∧ 5 ≤ b.size) :
    exists s' bs', defaultCheck s = some s' ∧ Within (cover bs) s s' bs' ∧ bs'.Perm bs ∧
      (Ascending bs -> Ascending bs') := by
  have hsum : 3 ≤ (bs.map Block.size).sum := by
    rcases hfit with ⟨b, hb, hle⟩
    have hmem := List.le_sum_of_mem (List.mem_map_of_mem (f := Block.size) hb)
    lia
  rcases basicCheck_within h hnpage hsum with ⟨s1, cs, hbasic, hw1, hcover, hkeeps, horder⟩
  have hcs := perm_of_cover h.separated hco hw1.represents.separated (hkeeps hco) hcover
  have hfit' : exists b, b ∈ cs ∧ 5 ≤ b.size := by
    rcases hfit with ⟨b, hb, hle⟩
    exact ⟨b, hcs.mem_iff.mpr hb, hle⟩
  have hfive : 0 < 5 := by decide
  rcases allocSome_of_fit hw1.represents hfive hfit' with ⟨s2, p, halloc⟩
  rcases allocSome_inv hw1.represents hfive halloc with ⟨ds, hto, hw2, _⟩
  have hout : Disjoint (Block.mk p 5).span (cover ds) := hto.disjoint hw1.represents.separated
  have hunion : cover cs = (Block.mk p 5).span ∪ cover ds := hto.cover_eq
  have hspan : cover bs \ cover ds = (Block.mk p 5).span := by
    rw [← hcover, hunion, Set.union_sdiff_right, hout.sdiff_eq_left]
  have hp : p ∈ (Block.mk p 5).span := ⟨Nat.le_refl p, Nat.lt_add_of_pos_right hfive⟩
  have hfree : p ∈ cover bs \ cover ds := by
    rw [hspan]
    exact hp
  have hunflagged : (s2.pages p).pageProperty = false := by
    rw [Bool.eq_false_iff]
    intro hflag
    rcases List.mem_map.mp ((hw2.represents.flagged p hfree.left).mp hflag) with ⟨b, hb, hbp⟩
    have hmem := hw2.represents.head_mem hb
    rw [hbp] at hmem
    exact hfree.right hmem
  have hempty := hw2.represents.emptied
  rw [hspan] at hempty
  rcases tryFive_within hempty with ⟨s3, htry, hw3⟩
  have hback : Represents { setHeader s3 (headerOf s2) with nrFree := s2.nrFree } (cover bs) ds := by
    apply hw2.represents.restored
    · rw [hspan]
      exact hw3.represents
    · rw [hspan]
      exact hw3.same
  have hsame3 : SameOutside (cover bs) s2
      { setHeader s3 (headerOf s2) with nrFree := s2.nrFree } := by
    have hsub : (Block.mk p 5).span ⊆ cover bs := hspan ▸ Set.sdiff_subset
    exact (((sameOutside_defaultInit _ s2).trans (hw3.same.mono hsub)).trans
      (sameOutside_setHeader _ s3 _)).trans (sameOutside_nrFree _ _)
  have hw3' : Within (cover bs) s { setHeader s3 (headerOf s2) with nrFree := s2.nrFree } ds :=
    (hw1.trans hw2).trans ⟨hback, hsame3⟩
  rcases free_within hw3' hfive (hspan ▸ Set.sdiff_subset) hout with ⟨s4, hrelease, hw4⟩
  have hcover4 : cover (releaseBlock (Block.mk p 5) ds) = cover bs := by
    rw [releaseBlock_cover, ← hunion, hcover]
  have hsep4 : Separated (Block.mk p 5 :: ds) :=
    hw2.represents.separated.cons_of_disjoint hfive hout
  have hco4 := releaseBlock_coalesced hsep4
    (hto.coalesced hw1.represents.separated (hkeeps hco))
  have hperm := perm_of_cover h.separated hco hw4.represents.separated hco4 hcover4
  refine ⟨s4, _, ?_, hw4, hperm, fun hasc => hto.release_ascending hw1.represents.separated
    (horder hasc)⟩
  have hlisted : Ring (listInit s2.links freeList) freeList [] := ring_listInit s2.links freeList
  unfold defaultCheck
  apply bind_step (h.counted 0 0).left
  apply bind_step (guard_of (by rw [h.nrFree_eq, Int.zero_add]))
  apply bind_step hbasic
  apply bind_step halloc
  apply bind_step (guard_of hunflagged)
  apply bind_step (guard_of (listEmpty_listInit s2.links))
  apply bind_step (allocNone_of_empty hlisted Nat.one_pos)
  apply bind_step htry
  apply bind_step hrelease
  apply bind_step (hw4.represents.counted _ _).right
  apply bind_step (guard_of (by rw [hperm.length_eq]; lia))
  apply bind_step (guard_of (by rw [(hperm.map Block.size).sum_nat]; lia))
  rfl

theorem basicCheck_sum (h : Represents s dom bs) (hrun : basicCheck s = some s') :
    3 ≤ (bs.map Block.size).sum := by
  unfold basicCheck at hrun
  rcases Option.bind_eq_some_iff.mp hrun with ⟨⟨t, p0, p1, p2⟩, hthree, _⟩
  rcases allocThree_inv h hthree with ⟨cs, _, hcs, _, _⟩
  have hsum := hcs.sum_eq
  simp only [List.length_cons, List.length_nil] at hsum
  lia

theorem defaultCheck_fails (h : Represents s (cover bs) bs) (hco : Coalesced bs)
    (hnpage : s.npage ≤ KMEMSIZE / 4096) (hsmall : forall b, b ∈ bs -> b.size < 5) :
    defaultCheck s = none := by
  cases hrun : defaultCheck s with
  | none => rfl
  | some t =>
      unfold defaultCheck at hrun
      rcases Option.bind_eq_some_iff.mp hrun with ⟨⟨count, total⟩, _, hrun⟩
      rcases Option.bind_eq_some_iff.mp hrun with ⟨_, _, hrun⟩
      rcases Option.bind_eq_some_iff.mp hrun with ⟨s1, hbasic, hrun⟩
      rcases Option.bind_eq_some_iff.mp hrun with ⟨⟨s2, p⟩, halloc, _⟩
      rcases basicCheck_within h hnpage (basicCheck_sum h hbasic) with
        ⟨s1', cs, hbasic', hw, hcover, hkeeps, _⟩
      rw [hbasic] at hbasic'
      cases hbasic'
      have hcs := perm_of_cover h.separated hco hw.represents.separated (hkeeps hco) hcover
      rcases allocSome_inv hw.represents (show 0 < 5 by decide) halloc with ⟨ds, hto, _, _⟩
      have hnone := hto.none_iff.mpr fun b hb => hsmall b (hcs.mem_iff.mp hb)
      cases hnone

end Check

/-- In every state of every run `default_check` passes exactly when five consecutive pages are
free.  Then the free blocks, `nr_free` and the pages that are handed out are what they were,
and the invariant of the allocator holds. -/
theorem default_check_exact {s0 : PmmState} {ranges : List Block} (hboot : Bootable s0 ranges)
    (hco : Coalesced ranges) {w : AllocWorld} (hw : (allocatorSystem s0 ranges).Reachable w)
    (hnpage : w.pmm.npage ≤ KMEMSIZE / 4096) :
    (defaultCheck w.pmm = none <->
      ¬ exists p, (Block.mk p 5).span ⊆ w.initialised \ w.allocated) ∧
    forall pmm, defaultCheck w.pmm = some pmm ->
      (listedBlocks pmm).Perm (listedBlocks w.pmm) ∧ pmm.nrFree = w.pmm.nrFree ∧
      (forall p, p ∈ w.allocated -> pmm.pages p = w.pmm.pages p) ∧
      RepInvariant { w with pmm := pmm } := by
  rcases reachable_coalesced hboot hco hw with ⟨bs, howns, hcobs⟩
  have hrep := howns.represents
  have hpart : Represents w.pmm (cover bs) bs := hrep.restrict hrep.cover_subset (Set.Subset.refl _)
  have hrun_iff := no_run_iff hrep.separated hcobs (show 0 < 5 by decide)
  rw [howns.free_eq]
  cases Classical.em (forall b, b ∈ bs -> b.size < 5) with
  | inl hsmall =>
      have hfails := defaultCheck_fails hpart hcobs hnpage hsmall
      constructor
      · exact ⟨fun _ => hrun_iff.mp hsmall, fun _ => hfails⟩
      · intro pmm hrun
        rw [hfails] at hrun
        cases hrun
  | inr hbig =>
      have hfit : exists b, b ∈ bs ∧ 5 ≤ b.size := by
        by_contra hnone
        apply hbig
        intro b hb
        by_contra hle
        exact hnone ⟨b, hb, Nat.le_of_not_lt hle⟩
      rcases defaultCheck_passes hpart hcobs hnpage hfit with ⟨t, cs, hrun, hwithin, hperm, _⟩
      have hrep' : Represents t w.initialised cs :=
        hrep.frame hrep.cover_subset (Set.Subset.refl _) hwithin.represents hwithin.same
      constructor
      · rw [hrun]
        constructor
        · intro hnone
          cases hnone
        · intro hno
          exact absurd (hrun_iff.mpr hno) hbig
      · intro pmm hpmm
        rw [hrun] at hpmm
        cases hpmm
        constructor
        · rw [hrep'.listedBlocks_eq, hrep.listedBlocks_eq]
          exact hperm
        · constructor
          · rw [hrep'.nrFree_eq, hrep.nrFree_eq, (hperm.map Block.size).sum_nat]
          · constructor
            · intro p hp
              exact hwithin.same.pages p (Set.disjoint_left.mp howns.disjoint_cover hp)
            · have howns' : Owns { w with pmm := t } cs := by
                constructor
                · exact hrep'
                · rw [cover_perm hperm]
                  exact howns.allocated_eq
              exact howns'.repInvariant

theorem default_check_exact_six_pages :
    exists w, (allocatorSystem (reservedMemory 6) [Block.mk 0 6]).Reachable w ∧
      exists pmm, defaultCheck w.pmm = some pmm ∧ RepInvariant { w with pmm := pmm } := by
  have hboot := reservedMemory_bootable 6 (Block.mk 0 6) (by decide) (by decide)
  have hco : Coalesced [Block.mk 0 6] := singleton_coalesced (by decide)
  rcases hboot.boots with ⟨s, hrun, hrep⟩
  have hw : (allocatorSystem (reservedMemory 6) [Block.mk 0 6]).Reachable
      (AllocWorld.mk s (cover [Block.mk 0 6]) ∅) := System.Reachable.init ⟨hrun, rfl, rfl⟩
  have hnpage : s.npage ≤ KMEMSIZE / 4096 := by
    unfold initMemmaps at hrun
    split at hrun
    · cases hrun
    · rename_i hcall
      cases hrun
      rw [defaultInitMemmap_npage hcall]
      decide
  rcases default_check_exact hboot hco hw hnpage with ⟨hnone, hsome⟩
  cases hcheck : defaultCheck s with
  | none =>
      exfalso
      apply hnone.mp hcheck
      refine ⟨0, ?_⟩
      intro p hp
      rw [mem_span, stop_mk] at hp
      refine ⟨⟨_, List.mem_singleton_self _, ?_⟩, id⟩
      rw [mem_span, stop_mk]
      lia
  | some pmm => exact ⟨_, hw, pmm, hcheck, (hsome pmm hcheck).right.right.right⟩

end Memory
end OsLabs
