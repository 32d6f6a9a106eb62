import OsLabs.Memory.Allocator

/-!
# What holds along every run of the allocator

The representation invariant, full coalescing with its consequences for
different histories, and the address order of the free list.
-/

namespace OsLabs
namespace Memory

open Foundation
open Foundation.Block
open Foundation.Links
open ListEntryPtr
open PmmState

/-!
# The representation invariant
-/

structure RepInvariant (w : AllocWorld) : Prop where
  ring : Ring w.pmm.links freeList ((listedHeads w.pmm).map pageLink)
  inverse : forall e, e ∈ freeList :: (listedHeads w.pmm).map pageLink ->
    w.pmm.links.prev (w.pmm.links.next e) = e ∧
      w.pmm.links.next (w.pmm.links.prev e) = e
  heads_nodup : (listedHeads w.pmm).Nodup
  size_pos : forall b, b ∈ listedBlocks w.pmm -> 0 < b.size
  disjoint : (listedBlocks w.pmm).Pairwise fun b c => Disjoint b.span c.span
  inside : forall b, b ∈ listedBlocks w.pmm -> b.span ⊆ w.initialised
  nrFree_eq : w.pmm.nrFree = ((listedHeads w.pmm).map w.pmm.property).sum
  flagged : forall p, p ∈ w.initialised ->
    ((w.pmm.pages p).pageProperty = true <-> p ∈ listedHeads w.pmm)
  partition_union : cover (listedBlocks w.pmm) ∪ w.allocated = w.initialised
  partition_disjoint : Disjoint (cover (listedBlocks w.pmm)) w.allocated

theorem Owns.repInvariant {w : AllocWorld} {bs : List Block} (h : Owns w bs) :
    RepInvariant w := by
  have hrep := h.represents
  have hheads := hrep.listedHeads_eq
  have hblocks := hrep.listedBlocks_eq
  have hentries : (listedHeads w.pmm).map pageLink = entries bs := by
    rw [hheads, List.map_map]
    rfl
  have hsizes : (listedHeads w.pmm).map w.pmm.property = bs.map Block.size := by
    rw [hheads, List.map_map]
    apply List.map_congr_left
    intro b hb
    exact hrep.property_eq b hb
  constructor
  · rw [hentries]
    exact hrep.ring
  · intro e he
    rw [hentries] at he
    exact hrep.ring.inverse he
  · rw [hheads]
    exact hrep.separated.nodup_heads
  · rw [hblocks]
    exact hrep.separated.size_pos
  · rw [hblocks]
    exact hrep.separated.apart.imp Apart.disjoint
  · rw [hblocks]
    intro b hb p hp
    exact hrep.cover_subset ⟨b, hb, hp⟩
  · rw [hsizes]
    exact hrep.nrFree_eq
  · rw [hheads]
    exact hrep.flagged
  · rw [hblocks, h.allocated_eq]
    exact Set.union_sdiff_cancel hrep.cover_subset
  · rw [hblocks]
    exact h.disjoint_cover.symm

/-- Along every run the four representations agree, both operations return, and
no page that is handed out is handed out again. -/
theorem allocator_representation {s0 : PmmState} {ranges : List Block}
    (hboot : Bootable s0 ranges) :
    (exists w, (allocatorSystem s0 ranges).init w) ∧
    forall w, (allocatorSystem s0 ranges).Reachable w ->
      RepInvariant w ∧
      (forall n, 0 < n -> exists pmm r,
        defaultAllocPages w.pmm n = some (pmm, r) ∧
          Disjoint (handedOut n r) w.allocated) ∧
      (forall base n, 0 < n -> (Block.mk base n).span ⊆ w.allocated ->
        exists pmm, defaultFreePages w.pmm base n = some pmm) := by
  constructor
  · rcases hboot.boots with ⟨s, hrun, _⟩
    exact ⟨AllocWorld.mk s (cover ranges) ∅, hrun, rfl, rfl⟩
  · intro w hw
    rcases reachable_owns hboot hw with ⟨bs, howns⟩
    refine ⟨howns.repInvariant, ?_, ?_⟩
    · intro n hn
      rcases defaultAllocPages_spec howns.represents hn with
        ⟨pmm, r, bs', hrun, hto, _⟩
      refine ⟨pmm, r, hrun, ?_⟩
      have hsub : handedOut n r ⊆ cover bs := by
        rw [hto.cover_eq]
        exact Set.subset_union_left
      exact howns.disjoint_cover.symm.mono_left hsub
    · intro base n hn hown
      rcases defaultFreePages_spec howns.represents hn
          (hown.trans howns.subset_initialised)
          (howns.disjoint_cover.mono_left hown) with ⟨pmm, hrun, _⟩
      exact ⟨pmm, hrun⟩

def reservedMemory (npage : Nat) : PmmState where
  npage := npage
  pages _ := Page.mk 0 1#32 0
  links := Links.mk (fun _ => freeList) (fun _ => freeList)
  nrFree := 0

theorem reservedMemory_bootable (npage : Nat) (b : Block) (hpos : 0 < b.size)
    (hbound : b.stop ≤ npage) : Bootable (reservedMemory npage) [b] where
  separated := by
    rw [separated_cons]
    refine ⟨hpos, ?_, separated_nil⟩
    intro c hc
    cases hc
  reserved := by
    intro p _
    simp [reservedMemory, Page.pageReserved, PG_reserved, testBit]
  bound := by
    intro c hc
    rw [List.mem_singleton.mp hc]
    exact hbound

theorem allocator_representation_four_pages :
    (exists w, (allocatorSystem (reservedMemory 4) [Block.mk 0 4]).init w) ∧
    forall w, (allocatorSystem (reservedMemory 4) [Block.mk 0 4]).Reachable w ->
      RepInvariant w := by
  have h := allocator_representation
    (reservedMemory_bootable 4 (Block.mk 0 4) (by decide) (by decide))
  exact ⟨h.left, fun w hw => (h.right w hw).left⟩

/-!
# Full coalescing
-/

theorem reachable_coalesced {s0 : PmmState} {ranges : List Block}
    (hboot : Bootable s0 ranges) (hco : Coalesced ranges) {w : AllocWorld}
    (hw : (allocatorSystem s0 ranges).Reachable w) :
    exists bs, Owns w bs ∧ Coalesced bs := by
  apply hw.invariant
  · intro w hinit
    exact ⟨ranges, owns_init hboot hinit, hco⟩
  · intro w op w' hinv hstep
    rcases hinv with ⟨bs, hbs, hcobs⟩
    have hsep := hbs.represents.separated
    cases hstep with
    | alloc hn hrun =>
        rcases owns_alloc hbs hn hrun with ⟨bs', hto, howns⟩
        exact ⟨bs', howns, hto.coalesced hsep hcobs⟩
    | free hn hown hrun =>
        exact ⟨_, owns_free hbs hn hown hrun,
          releaseBlock_coalesced (hbs.separated_released hn hown) hcobs⟩

theorem reachable_blocks_maximal {s0 : PmmState} {ranges : List Block}
    (hboot : Bootable s0 ranges) (hco : Coalesced ranges) {w : AllocWorld}
    (hw : (allocatorSystem s0 ranges).Reachable w) (b : Block) :
    b ∈ listedBlocks w.pmm <-> MaximalRun (cover ranges \ w.allocated) b := by
  rcases reachable_coalesced hboot hco hw with ⟨bs, howns, hcobs⟩
  have hfree : cover ranges \ w.allocated = cover bs := by
    rw [← reachable_initialised hw, howns.allocated_eq,
      Set.sdiff_sdiff_cancel_left howns.represents.cover_subset]
  rw [howns.represents.listedBlocks_eq, hfree]
  exact howns.represents.separated.mem_iff_maximalRun hcobs b

/-- With non-adjacent ranges the listed blocks are the maximal runs of free
pages, so they depend on the set of allocated pages and not on the history. -/
theorem allocator_history_independent {s0 : PmmState} {ranges : List Block}
    (hboot : Bootable s0 ranges) (hco : Coalesced ranges) :
    (forall w, (allocatorSystem s0 ranges).Reachable w ->
      forall b, b ∈ listedBlocks w.pmm <->
        MaximalRun (w.initialised \ w.allocated) b) ∧
    (forall w w', (allocatorSystem s0 ranges).Reachable w ->
      (allocatorSystem s0 ranges).Reachable w' -> w.allocated = w'.allocated ->
      forall b, b ∈ listedBlocks w.pmm <-> b ∈ listedBlocks w'.pmm) ∧
    (forall w, (allocatorSystem s0 ranges).Reachable w -> w.allocated = ∅ ->
      forall b, b ∈ listedBlocks w.pmm <-> b ∈ ranges) := by
  refine ⟨?_, ?_, ?_⟩
  · intro w hw b
    rw [reachable_initialised hw]
    exact reachable_blocks_maximal hboot hco hw b
  · intro w w' hw hw' hsame b
    rw [reachable_blocks_maximal hboot hco hw, hsame,
      ← reachable_blocks_maximal hboot hco hw']
  · intro w hw hempty b
    rw [reachable_blocks_maximal hboot hco hw, hempty, Set.sdiff_empty,
      ← hboot.separated.mem_iff_maximalRun hco]

theorem singleton_coalesced {b : Block} (h : 0 < b.size) : Coalesced [b] := by
  intro c hc d hd
  rw [List.mem_singleton.mp hc, List.mem_singleton.mp hd]
  unfold stop
  lia

theorem allocator_history_independent_four_pages :
    Bootable (reservedMemory 4) [Block.mk 0 4] ∧ Coalesced [Block.mk 0 4] ∧
    forall w, (allocatorSystem (reservedMemory 4) [Block.mk 0 4]).Reachable w ->
      w.allocated = ∅ -> forall b, b ∈ listedBlocks w.pmm <-> b ∈ [Block.mk 0 4] := by
  have hboot := reservedMemory_bootable 4 (Block.mk 0 4) (by decide) (by decide)
  have hco : Coalesced [Block.mk 0 4] := singleton_coalesced (by decide)
  exact ⟨hboot, hco, (allocator_history_independent hboot hco).right.right⟩

/-!
# Address order

An allocation puts the rest of the block it cuts at the front of the list.
That is the right place only if the block was the first one; otherwise the
list is left out of order, and the next allocation need not be first fit.
-/

def ExactFit (n : Nat) : List Block -> Prop
  | [] => True
  | b :: bs => b.size = n ∨ (b.size < n ∧ ExactFit n bs)

/-- The first listed block has at least `n` pages, or the first one that has
them has no page to spare. -/
def KeepsOrder (n : Nat) : List Block -> Prop
  | [] => True
  | b :: bs => n ≤ b.size ∨ ExactFit n bs

theorem exactFit_of_small {n : Nat} {bs : List Block}
    (h : forall b, b ∈ bs -> b.size < n) : ExactFit n bs := by
  induction bs with
  | nil => exact True.intro
  | cons b bs ih =>
      exact Or.inr ⟨h b (by simp), ih fun c hc => h c (by simp [hc])⟩

theorem exactFit_append {n : Nat} {pre post : List Block} {b : Block}
    (hpre : forall c, c ∈ pre -> c.size < n) (hfit : n ≤ b.size) :
    ExactFit n (pre ++ b :: post) <-> b.size = n := by
  induction pre with
  | nil =>
      constructor
      · intro h
        cases h with
        | inl heq => exact heq
        | inr hlt => lia
      · exact Or.inl
  | cons a pre ih =>
      have ha : a.size < n := hpre a (by simp)
      have hrest := ih fun c hc => hpre c (by simp [hc])
      constructor
      · intro h
        cases h with
        | inl heq => lia
        | inr hlt => exact hrest.mp hlt.right
      · intro h
        exact Or.inr ⟨ha, hrest.mpr h⟩

/-- An allocation keeps the address order exactly when the block it takes is
the first one or has no page to spare. -/
theorem AllocTo.ascending_iff {n : Nat} {bs bs' : List Block} {r : Option Nat}
    (h : AllocTo n bs r bs') (hsep : Separated bs) (hasc : Ascending bs) :
    Ascending bs' <-> KeepsOrder n bs := by
  cases h with
  | refused hsmall =>
      constructor
      · intro _
        cases bs with
        | nil => exact True.intro
        | cons b bs =>
            exact Or.inr (exactFit_of_small fun c hc => hsmall c (by simp [hc]))
      · intro _
        exact hasc
  | granted pre b post hsplit hfit hsmall =>
      subst hsplit
      cases pre with
      | nil =>
          constructor
          · intro _
            exact Or.inl hfit
          · intro _
            exact remainder_ascending n hsep hasc
      | cons a pre =>
          rcases List.pairwise_cons.mp hasc with ⟨haLt, _⟩
          have ha : a.size < n := hsmall a (by simp)
          have hexact : ExactFit n (pre ++ b :: post) <-> b.size = n :=
            exactFit_append (fun c hc => hsmall c (by simp [hc])) hfit
          have hkeeps : KeepsOrder n (a :: pre ++ b :: post) <-> b.size = n := by
            rw [← hexact]
            constructor
            · intro h
              cases h with
              | inl hle => lia
              | inr hrest => exact hrest
            · exact Or.inr
          rw [hkeeps]
          unfold remainder
          by_cases hlt : n < b.size
          · rw [if_pos hlt]
            constructor
            · intro hbad
              have hfirst := (List.pairwise_cons.mp hbad).left a (by simp)
              have hab := haLt b (by simp)
              simp only at hfirst
              lia
            · intro heq
              lia
          · rw [if_neg hlt]
            constructor
            · intro _
              lia
            · intro _
              have hsub : (a :: pre ++ post).Sublist (a :: pre ++ b :: post) :=
                (List.Sublist.refl (a :: pre)).append (List.sublist_cons_self b post)
              exact List.Pairwise.sublist hsub hasc

def LowestFit (n : Nat) (bs : List Block) : Option Nat -> Prop
  | none => forall b, b ∈ bs -> b.size < n
  | some p => exists b, b ∈ bs ∧ b.head = p ∧ n ≤ b.size ∧
      forall c, c ∈ bs -> n ≤ c.size -> p ≤ c.head

theorem AllocTo.lowestFit {n : Nat} {bs bs' : List Block} {r : Option Nat}
    (h : AllocTo n bs r bs') (hasc : Ascending bs) : LowestFit n bs r := by
  cases h with
  | refused hsmall => exact hsmall
  | granted pre b post hsplit hfit hsmall =>
      subst hsplit
      refine ⟨b, by simp, rfl, hfit, ?_⟩
      intro c hc hcn
      rcases List.mem_append.mp hc with hpre | hrest
      · have hcsmall := hsmall c hpre
        lia
      · rcases List.mem_cons.mp hrest with heq | hpost
        · rw [heq]
        · have htail := (List.pairwise_append.mp hasc).right.left
          exact Nat.le_of_lt ((List.pairwise_cons.mp htail).left c hpost)

def OrderKeeping (w : AllocWorld) : AllocOp -> Prop
  | AllocOp.alloc n => KeepsOrder n (listedBlocks w.pmm)
  | AllocOp.free _ _ => True

theorem ordered_reachable {s0 : PmmState} {ranges : List Block}
    (hboot : Bootable s0 ranges) (hasc : Ascending ranges) {w : AllocWorld}
    (hw : ((allocatorSystem s0 ranges).restrict OrderKeeping).Reachable w) :
    exists bs, Owns w bs ∧ Ascending bs := by
  apply hw.invariant
  · intro w hinit
    exact ⟨ranges, owns_init hboot hinit, hasc⟩
  · intro w op w' hinv hstep
    rcases hinv with ⟨bs, hbs, hascbs⟩
    rcases hstep with ⟨hallowed, hstep⟩
    have hsep := hbs.represents.separated
    cases hstep with
    | alloc hn hrun =>
        rcases owns_alloc hbs hn hrun with ⟨bs', hto, howns⟩
        refine ⟨bs', howns, (hto.ascending_iff hsep hascbs).mpr ?_⟩
        rw [← hbs.represents.listedBlocks_eq]
        exact hallowed
    | free hn hown hrun =>
        exact ⟨_, owns_free hbs hn hown hrun,
          releaseBlock_ascending (hbs.separated_released hn hown) hascbs⟩

/-- In a run that never cuts a block behind the first one, the list stays in
address order and every allocation is first fit; and a step that does cut such
a block loses the order. -/
theorem ordered_run_first_fit {s0 : PmmState} {ranges : List Block}
    (hboot : Bootable s0 ranges) (hasc : Ascending ranges) :
    (forall w, ((allocatorSystem s0 ranges).restrict OrderKeeping).Reachable w ->
      Ascending (listedBlocks w.pmm) ∧
      forall n, 0 < n -> exists pmm r,
        defaultAllocPages w.pmm n = some (pmm, r) ∧
          LowestFit n (listedBlocks w.pmm) r) ∧
    (forall w, (allocatorSystem s0 ranges).Reachable w ->
      Ascending (listedBlocks w.pmm) ->
      forall n w', AllocStep w (AllocOp.alloc n) w' ->
        (Ascending (listedBlocks w'.pmm) <-> OrderKeeping w (AllocOp.alloc n))) := by
  constructor
  · intro w hw
    rcases ordered_reachable hboot hasc hw with ⟨bs, howns, hascbs⟩
    rw [howns.represents.listedBlocks_eq]
    refine ⟨hascbs, ?_⟩
    intro n hn
    rcases defaultAllocPages_spec howns.represents hn with ⟨pmm, r, bs', hrun, hto, _⟩
    exact ⟨pmm, r, hrun, hto.lowestFit hascbs⟩
  · intro w hw hascw n w' hstep
    rcases reachable_owns hboot hw with ⟨bs, howns⟩
    cases hstep with
    | alloc hn hrun =>
        rcases owns_alloc howns hn hrun with ⟨bs', hto, howns'⟩
        unfold OrderKeeping
        rw [howns'.represents.listedBlocks_eq]
        rw [howns.represents.listedBlocks_eq] at hascw ⊢
        exact hto.ascending_iff howns.represents.separated hascw

theorem ordered_run_first_fit_four_pages :
    Bootable (reservedMemory 4) [Block.mk 0 4] ∧ Ascending [Block.mk 0 4] ∧
    forall w,
      ((allocatorSystem (reservedMemory 4) [Block.mk 0 4]).restrict OrderKeeping).Reachable w ->
      Ascending (listedBlocks w.pmm) := by
  have hboot := reservedMemory_bootable 4 (Block.mk 0 4) (by decide) (by decide)
  have hasc : Ascending [Block.mk 0 4] := List.pairwise_singleton _ _
  refine ⟨hboot, hasc, ?_⟩
  intro w hw
  exact ((ordered_run_first_fit hboot hasc).left w hw).left

/-!
Ten pages, two single pages allocated, the first one returned, two pages
allocated: the last allocation cuts the second block of the list.
-/

/-- The state after an allocation that is known to return. -/
def afterAlloc (s : PmmState) (n : Nat) : PmmState :=
  match defaultAllocPages s n with
  | none => s
  | some (s, _) => s

def afterFree (s : PmmState) (base n : Nat) : PmmState :=
  match defaultFreePages s base n with
  | none => s
  | some s => s

def tenPages : PmmState :=
  match initMemmaps (defaultInit (reservedMemory 10)) [Block.mk 0 10] with
  | none => reservedMemory 10
  | some s => s

def unorderedState : PmmState :=
  afterAlloc (afterFree (afterAlloc (afterAlloc tenPages 1) 1) 0 1) 2

def onePageReturned : PmmState :=
  afterFree (afterAlloc (afterAlloc tenPages 1) 1) 0 1

theorem onePageReturned_reachable :
    exists w, (allocatorSystem (reservedMemory 10) [Block.mk 0 10]).Reachable w ∧
      w.pmm = onePageReturned := by
  have h0 : (allocatorSystem (reservedMemory 10) [Block.mk 0 10]).Reachable
      (AllocWorld.mk tenPages (cover [Block.mk 0 10]) ∅) :=
    System.Reachable.init ⟨rfl, rfl, rfl⟩
  have h1 := System.Reachable.step h0 (AllocStep.alloc (by decide)
    (show defaultAllocPages tenPages 1 = some (afterAlloc tenPages 1, some 0) from rfl))
  have h2 := System.Reachable.step h1 (AllocStep.alloc (by decide)
    (show defaultAllocPages (afterAlloc tenPages 1) 1 =
      some (afterAlloc (afterAlloc tenPages 1) 1, some 1) from rfl))
  have hown : (Block.mk 0 1).span ⊆ (∅ ∪ handedOut 1 (some 0)) ∪ handedOut 1 (some 1) := by
    intro p hp
    exact Or.inl (Or.inr hp)
  have h3 := System.Reachable.step h2 (AllocStep.free (by decide) hown
    (show defaultFreePages (afterAlloc (afterAlloc tenPages 1) 1) 0 1 =
      some onePageReturned from rfl))
  exact ⟨_, h3, rfl⟩

theorem free_list_loses_order :
    exists w,
      (allocatorSystem (reservedMemory 10) [Block.mk 0 10]).Reachable w ∧
      Bootable (reservedMemory 10) [Block.mk 0 10] ∧
      Ascending [Block.mk 0 10] ∧
      listedBlocks w.pmm = [Block.mk 4 6, Block.mk 0 1] ∧
      ¬ Ascending (listedBlocks w.pmm) ∧
      exists pmm, defaultAllocPages w.pmm 1 = some (pmm, some 4) ∧
        ¬ LowestFit 1 (listedBlocks w.pmm) (some 4) := by
  have hlisted : listedBlocks unorderedState = [Block.mk 4 6, Block.mk 0 1] := rfl
  rcases onePageReturned_reachable with ⟨w, hw, hpmm⟩
  have hrun : defaultAllocPages w.pmm 2 = some (unorderedState, some 2) := by
    rw [hpmm]
    rfl
  have h4 := System.Reachable.step hw (AllocStep.alloc (by decide) hrun)
  refine ⟨_, h4, reservedMemory_bootable 10 (Block.mk 0 10) (by decide) (by decide),
    List.pairwise_singleton _ _, hlisted, ?_, afterAlloc unorderedState 1, rfl, ?_⟩
  · change ¬ Ascending (listedBlocks unorderedState)
    rw [hlisted]
    intro h
    have hbad := (List.pairwise_cons.mp h).left (Block.mk 0 1) (by simp)
    simp only at hbad
    lia
  · change ¬ LowestFit 1 (listedBlocks unorderedState) (some 4)
    rw [hlisted]
    intro h
    rcases h with ⟨b, _, _, _, hlow⟩
    have hbad := hlow (Block.mk 0 1) (by simp) (by decide)
    simp only at hbad
    lia

end Memory
end OsLabs
