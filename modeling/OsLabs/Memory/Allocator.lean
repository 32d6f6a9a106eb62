import OsLabs.Foundation.Transition
import OsLabs.Memory.PmmRelease

/-!
# Runs of the page allocator

The allocator as a transition system: `default_init`, any number of
`default_init_memmap` calls, and then `default_alloc_pages` and
`default_free_pages` in any order, where a caller may only return pages that
are handed out.  The set of pages that are handed out is not part of the
kernel's state; it is recorded here from the calls.
-/

namespace OsLabs
namespace Memory

open Foundation
open Foundation.Block
open Foundation.Links
open ListEntryPtr
open PmmState

/-- The `default_init_memmap` calls made while booting, in order. -/
def initMemmaps : PmmState -> List Block -> Option PmmState
  | s, [] => some s
  | s, b :: bs =>
      match defaultInitMemmap s b.head b.size with
      | none => none
      | some s => initMemmaps s bs

structure Bootable (s : PmmState) (ranges : List Block) : Prop where
  separated : Separated ranges
  reserved : forall p, p ∈ cover ranges -> (s.pages p).pageReserved = true
  bound : forall b, b ∈ ranges -> b.stop ≤ s.npage

structure AllocWorld where
  pmm : PmmState
  initialised : Set Nat
  allocated : Set Nat

inductive AllocOp where
  | alloc (n : Nat)
  | free (base n : Nat)

inductive AllocStep : AllocWorld -> AllocOp -> AllocWorld -> Prop where
  | alloc {w : AllocWorld} {n : Nat} {pmm : PmmState} {r : Option Nat}
      (hn : 0 < n) (hrun : defaultAllocPages w.pmm n = some (pmm, r)) :
      AllocStep w (AllocOp.alloc n)
        { w with pmm := pmm, allocated := w.allocated ∪ handedOut n r }
  | free {w : AllocWorld} {base n : Nat} {pmm : PmmState}
      (hn : 0 < n) (hown : (Block.mk base n).span ⊆ w.allocated)
      (hrun : defaultFreePages w.pmm base n = some pmm) :
      AllocStep w (AllocOp.free base n)
        { w with pmm := pmm, allocated := w.allocated \ (Block.mk base n).span }

def allocatorSystem (s0 : PmmState) (ranges : List Block) :
    System AllocWorld AllocOp where
  init w := initMemmaps (defaultInit s0) ranges = some w.pmm ∧
    w.initialised = cover ranges ∧ w.allocated = ∅
  step := AllocStep

/-!
# The inductive invariant
-/

/-- The allocator's state represents `bs`, and the pages that are handed out
are the initialised pages outside `bs`. -/
structure Owns (w : AllocWorld) (bs : List Block) : Prop where
  represents : Represents w.pmm w.initialised bs
  allocated_eq : w.allocated = w.initialised \ cover bs

theorem Owns.subset_initialised {w : AllocWorld} {bs : List Block} (h : Owns w bs) :
    w.allocated ⊆ w.initialised := by
  rw [h.allocated_eq]
  exact Set.sdiff_subset

theorem Owns.disjoint_cover {w : AllocWorld} {bs : List Block} (h : Owns w bs) :
    Disjoint w.allocated (cover bs) := by
  rw [h.allocated_eq]
  exact Set.disjoint_sdiff_left

theorem Owns.separated_released {w : AllocWorld} {bs : List Block} (h : Owns w bs)
    {base n : Nat} (hn : 0 < n) (hown : (Block.mk base n).span ⊆ w.allocated) :
    Separated (Block.mk base n :: bs) :=
  h.represents.separated.cons_of_disjoint hn (h.disjoint_cover.mono_left hown)

theorem initMemmaps_spec {s : PmmState} {dom : Set Nat} {bs ranges : List Block}
    (h : Represents s dom bs)
    (hpos : forall b, b ∈ ranges -> 0 < b.size)
    (hapart : ranges.Pairwise Apart)
    (hres : forall p, p ∈ cover ranges -> (s.pages p).pageReserved = true)
    (hbound : forall b, b ∈ ranges -> b.stop ≤ s.npage) :
    exists s', initMemmaps s ranges = some s' ∧
      Represents s' (dom ∪ cover ranges) (bs ++ ranges) := by
  induction ranges generalizing s dom bs with
  | nil =>
      refine ⟨s, rfl, ?_⟩
      rw [cover_nil, Set.union_empty, List.append_nil]
      exact h
  | cons b ranges ih =>
      rcases List.pairwise_cons.mp hapart with ⟨hb, hrest⟩
      have hresb : forall q, b.head ≤ q -> q < b.head + b.size ->
          (s.pages q).pageReserved = true := by
        intro q hq hqn
        exact hres q ⟨b, List.mem_cons_self, ⟨hq, hqn⟩⟩
      rcases defaultInitMemmap_spec h (hpos b List.mem_cons_self) hresb
          (hbound b List.mem_cons_self) with
        ⟨s1, hrun, hrep, hnpage, hframe⟩
      have hres1 : forall p, p ∈ cover ranges -> (s1.pages p).pageReserved = true := by
        intro p hp
        rw [hframe p ?_]
        · rcases hp with ⟨c, hc, hpc⟩
          exact hres p ⟨c, List.mem_cons_of_mem b hc, hpc⟩
        · rcases hp with ⟨c, hc, hpc⟩
          have hbc := hb c hc
          unfold Apart at hbc
          rw [mem_span] at hpc
          simp only [stop_eq] at hbc hpc
          lia
      rcases ih hrep (fun c hc => hpos c (List.mem_cons_of_mem b hc)) hrest hres1
          (fun c hc => by
            rw [hnpage]
            exact hbound c (List.mem_cons_of_mem b hc)) with
        ⟨s2, hrun2, hrep2⟩
      refine ⟨s2, ?_, ?_⟩
      · unfold initMemmaps
        rw [hrun]
        exact hrun2
      · rw [cover_cons, ← Set.union_assoc]
        simpa using hrep2

theorem Bootable.boots {s0 : PmmState} {ranges : List Block} (h : Bootable s0 ranges) :
    exists s, initMemmaps (defaultInit s0) ranges = some s ∧
      Represents s (cover ranges) ranges := by
  rcases initMemmaps_spec (defaultInit_represents s0) h.separated.size_pos
      h.separated.apart h.reserved h.bound with ⟨s, hrun, hrep⟩
  rw [Set.empty_union, List.nil_append] at hrep
  exact ⟨s, hrun, hrep⟩

theorem owns_init {s0 : PmmState} {ranges : List Block} (h : Bootable s0 ranges)
    {w : AllocWorld} (hw : (allocatorSystem s0 ranges).init w) : Owns w ranges := by
  rcases hw with ⟨hrun, hinit, halloc⟩
  rcases h.boots with ⟨s, hboot, hrep⟩
  rw [hboot] at hrun
  cases hrun
  constructor
  · rw [hinit]
    exact hrep
  · rw [halloc, hinit, Set.sdiff_self]

theorem owns_alloc {w : AllocWorld} {bs : List Block} (h : Owns w bs) {n : Nat}
    (hn : 0 < n) {pmm : PmmState} {r : Option Nat}
    (hrun : defaultAllocPages w.pmm n = some (pmm, r)) :
    exists bs', AllocTo n bs r bs' ∧
      Owns { w with pmm := pmm, allocated := w.allocated ∪ handedOut n r } bs' := by
  rcases defaultAllocPages_spec h.represents hn with
    ⟨pmm', r', bs', hrun', hto, hrep, _⟩
  rw [hrun] at hrun'
  cases hrun'
  refine ⟨bs', hto, hrep, ?_⟩
  change w.allocated ∪ handedOut n r = w.initialised \ cover bs'
  have hcover := hto.cover_eq
  have hsub : handedOut n r ⊆ w.initialised := by
    intro p hp
    apply h.represents.cover_subset
    rw [hcover]
    exact Or.inl hp
  have hdisjoint := hto.disjoint h.represents.separated
  rw [h.allocated_eq, hcover]
  ext p
  have hdp : p ∈ handedOut n r -> p ∉ cover bs' :=
    fun h1 h2 => Set.disjoint_left.mp hdisjoint h1 h2
  have hsp : p ∈ handedOut n r -> p ∈ w.initialised := fun h1 => hsub h1
  simp only [Set.mem_union, Set.mem_sdiff, not_or]
  tauto

theorem owns_free {w : AllocWorld} {bs : List Block} (h : Owns w bs) {base n : Nat}
    (hn : 0 < n) (hown : (Block.mk base n).span ⊆ w.allocated) {pmm : PmmState}
    (hrun : defaultFreePages w.pmm base n = some pmm) :
    Owns { w with pmm := pmm, allocated := w.allocated \ (Block.mk base n).span }
      (releaseBlock (Block.mk base n) bs) := by
  have hdom : (Block.mk base n).span ⊆ w.initialised :=
    hown.trans h.subset_initialised
  have hout : Disjoint (Block.mk base n).span (cover bs) :=
    h.disjoint_cover.mono_left hown
  rcases defaultFreePages_spec h.represents hn hdom hout with ⟨pmm', hrun', hrep, _⟩
  rw [hrun] at hrun'
  cases hrun'
  constructor
  · exact hrep
  · change w.allocated \ (Block.mk base n).span = _
    rw [releaseBlock_cover, h.allocated_eq, Set.union_comm, Set.sdiff_sdiff]

theorem reachable_owns {s0 : PmmState} {ranges : List Block}
    (hboot : Bootable s0 ranges) {w : AllocWorld}
    (hw : (allocatorSystem s0 ranges).Reachable w) : exists bs, Owns w bs := by
  apply hw.invariant
  · intro w hinit
    exact ⟨ranges, owns_init hboot hinit⟩
  · intro w op w' hinv hstep
    rcases hinv with ⟨bs, hbs⟩
    cases hstep with
    | alloc hn hrun =>
        rcases owns_alloc hbs hn hrun with ⟨bs', _, howns⟩
        exact ⟨bs', howns⟩
    | free hn hown hrun =>
        exact ⟨_, owns_free hbs hn hown hrun⟩

theorem reachable_initialised {s0 : PmmState} {ranges : List Block} {w : AllocWorld}
    (hw : (allocatorSystem s0 ranges).Reachable w) : w.initialised = cover ranges := by
  apply hw.invariant
  · intro w hinit
    exact hinit.right.left
  · intro w op w' hinv hstep
    cases hstep with
    | alloc hn hrun => exact hinv
    | free hn hown hrun => exact hinv

end Memory
end OsLabs
