import OsLabs.Memory.AllocationResult
import OsLabs.Memory.Footprint
import OsLabs.Memory.Mmu

/-!
# The self test of the allocator

`basic_check` and `default_check` of `default_pmm.c`.  Both put the free list aside, try the
allocator on a few pages under the empty header, and put the list back.  A failed assertion is
`none`.
-/

namespace OsLabs
namespace Memory

open Foundation
open Foundation.Block
open Foundation.Links
open ListEntryPtr
open PmmState

/-- `assert((p = alloc_pages(n)) != NULL)`. -/
def allocSome (s : PmmState) (n : Nat) : Option (PmmState × Nat) :=
  match defaultAllocPages s n with
  | some (s, some p) => some (s, p)
  | _ => none

/-- `assert(alloc_pages(n) == NULL)`. -/
def allocNone (s : PmmState) (n : Nat) : Option PmmState :=
  match defaultAllocPages s n with
  | some (s, none) => some s
  | _ => none

def listEmpty (L : ListLinks) (list : ListEntryPtr) : Bool := L.next list = list

def allocThree (s : PmmState) : Option (PmmState × Nat × Nat × Nat) := do
  let (s, p0) <- allocSome s 1
  let (s, p1) <- allocSome s 1
  let (s, p2) <- allocSome s 1
  some (s, p0, p1, p2)

def freeThree (s : PmmState) (p0 p1 p2 : Nat) : Option PmmState := do
  let s <- defaultFreePages s p0 1
  let s <- defaultFreePages s p1 1
  defaultFreePages s p2 1

/-- `page2pa(p) < npage * PGSIZE`. -/
def belowTop (s : PmmState) (p : Nat) : Bool :=
  (page2pa p).toNat < (BitVec.ofNat 32 s.npage * 4096#32).toNat

/-- What `basic_check` does under the empty header, with the pages it has at the end. -/
def tryThree (s : PmmState) (p0 p1 p2 : Nat) : Option (PmmState × Nat × Nat × Nat) := do
  let s <- allocNone s 1
  let s <- freeThree s p0 p1 p2
  guard (s.nrFree = 3)
  let (s, p0, p1, p2) <- allocThree s
  let s <- allocNone s 1
  let s <- defaultFreePages s p0 1
  guard (listEmpty s.links freeList = false)
  let (s, p) <- allocSome s 1
  guard (p = p0)
  let s <- allocNone s 1
  guard (s.nrFree = 0)
  some (s, p, p1, p2)

def basicCheck (s : PmmState) : Option PmmState := do
  let (s, p0, p1, p2) <- allocThree s
  guard (p0 ≠ p1 ∧ p0 ≠ p2 ∧ p1 ≠ p2)
  guard ((s.pages p0).ref = 0 ∧ (s.pages p1).ref = 0 ∧ (s.pages p2).ref = 0)
  guard (belowTop s p0 ∧ belowTop s p1 ∧ belowTop s p2)
  let freeListStore := headerOf s
  let s := s.withLinks (listInit s.links freeList)
  guard (listEmpty s.links freeList = true)
  let nrFreeStore := s.nrFree
  let (s, p, p1, p2) <- tryThree { s with nrFree := 0 } p0 p1 p2
  let s := setHeader s freeListStore
  freeThree { s with nrFree := nrFreeStore } p p1 p2

/-- The pass over the list at the beginning of `default_check`. -/
def countBlocks (s : PmmState) : Nat -> ListEntryPtr -> Int -> Int -> Option (Int × Int)
  | 0, _, _, _ => none
  | fuel + 1, le, count, total =>
      match listNext s.links le with
      | freeList => some (count, total)
      | pageLink p =>
          if (s.pages p).pageProperty then
            countBlocks s fuel (pageLink p) (count + 1) (total + s.property p)
          else none

/-- The pass over the list at its end. -/
def uncountBlocks (s : PmmState) : Nat -> ListEntryPtr -> Int -> Int -> Option (Int × Int)
  | 0, _, _, _ => none
  | fuel + 1, le, count, total =>
      match listNext s.links le with
      | freeList => some (count, total)
      | pageLink p => uncountBlocks s fuel (pageLink p) (count - 1) (total - s.property p)

/-- What `default_check` does with the five pages from `p0` on under the empty header. -/
def tryFive (s : PmmState) (p0 : Nat) : Option (PmmState × Nat) := do
  let s <- defaultFreePages s (p0 + 2) 3
  let s <- allocNone s 4
  guard ((s.pages (p0 + 2)).pageProperty ∧ s.property (p0 + 2) = 3)
  let (s, p1) <- allocSome s 3
  let s <- allocNone s 1
  guard (p0 + 2 = p1)
  let p2 := p0 + 1
  let s <- defaultFreePages s p0 1
  let s <- defaultFreePages s p1 3
  guard ((s.pages p0).pageProperty ∧ s.property p0 = 1)
  guard ((s.pages p1).pageProperty ∧ s.property p1 = 3)
  let (s, p0) <- allocSome s 1
  guard (p0 = p2 - 1)
  let s <- defaultFreePages s p0 1
  let (s, p0) <- allocSome s 2
  guard (p0 = p2 + 1)
  let s <- defaultFreePages s p0 2
  let s <- defaultFreePages s p2 1
  let (s, p0) <- allocSome s 5
  let s <- allocNone s 1
  guard (s.nrFree = 0)
  some (s, p0)

def defaultCheck (s : PmmState) : Option PmmState := do
  let (count, total) <- countBlocks s (s.npage + 1) freeList 0 0
  guard (total = s.nrFree)
  let s <- basicCheck s
  let (s, p0) <- allocSome s 5
  guard ((s.pages p0).pageProperty = false)
  let freeListStore := headerOf s
  let s := s.withLinks (listInit s.links freeList)
  guard (listEmpty s.links freeList = true)
  let s <- allocNone s 1
  let nrFreeStore := s.nrFree
  let (s, p0) <- tryFive { s with nrFree := 0 } p0
  let s := setHeader { s with nrFree := nrFreeStore } freeListStore
  let s <- defaultFreePages s p0 5
  let (count, total) <- uncountBlocks s (s.npage + 1) freeList count total
  guard (count = 0)
  guard (total = 0)
  some s

/-!
# Pages that leave the list and come back
-/

structure Parted (bs : List Block) (ps : List Nat) (bs' : List Block) : Prop where
  nodup : ps.Nodup
  cover_eq : forall p, p ∈ cover bs <-> p ∈ ps ∨ p ∈ cover bs'
  apart : forall p, p ∈ ps -> p ∉ cover bs'
  sum_eq : (bs.map Block.size).sum = (bs'.map Block.size).sum + ps.length

/-- The state `s` came from `s0` by work on the pages of `F`, and lists the blocks `bs` there. -/
structure Within (F : Set Nat) (s0 s : PmmState) (bs : List Block) : Prop where
  represents : Represents s F bs
  same : SameOutside F s0 s

section Parting

variable {bs bs' bs'' : List Block} {ps qs : List Nat} {n p : Nat}

theorem not_mem_cover_nil : p ∉ cover [] := by
  rw [cover_nil]
  exact id

theorem mem_span_one {p q : Nat} : q ∈ (Block.mk p 1).span <-> q = p := by
  rw [mem_span, stop_mk]
  lia

theorem separated_page (h : Separated bs) (hp : p ∉ cover bs) :
    Separated (Block.mk p 1 :: bs) := by
  apply h.cons_of_disjoint Nat.one_pos
  rw [Set.disjoint_left]
  intro q hq
  rw [mem_span_one.mp hq]
  exact hp

theorem Parted.trans (h : Parted bs ps bs') (h' : Parted bs' qs bs'') :
    Parted bs (ps ++ qs) bs'' := by
  constructor
  · apply List.nodup_append.mpr
    refine ⟨h.nodup, h'.nodup, ?_⟩
    intro p hp q hq heq
    rw [heq] at hp
    exact h.apart q hp ((h'.cover_eq q).mpr (Or.inl hq))
  · intro p
    rw [h.cover_eq, h'.cover_eq, List.mem_append, or_assoc]
  · intro p hp
    rcases List.mem_append.mp hp with hin | hin
    · intro hmem
      exact h.apart p hin ((h'.cover_eq p).mpr (Or.inr hmem))
    · exact h'.apart p hin
  · rw [h.sum_eq, h'.sum_eq, List.length_append]
    lia

theorem AllocTo.parted (h : AllocTo 1 bs (some p) bs') (hsep : Separated bs) :
    Parted bs [p] bs' where
  nodup := List.nodup_singleton p
  cover_eq q := by
    rw [h.cover_eq, List.mem_singleton]
    change q ∈ (Block.mk p 1).span ∨ q ∈ cover bs' <-> _
    rw [mem_span_one]
  apart q hq := by
    rw [List.mem_singleton.mp hq]
    exact Set.disjoint_left.mp (h.disjoint hsep) (show p ∈ (Block.mk p 1).span from
      mem_span_one.mpr rfl)
  sum_eq := h.sum_eq

theorem releaseBlock_sum (b : Block) (bs : List Block) :
    ((releaseBlock b bs).map Block.size).sum = b.size + (bs.map Block.size).sum := by
  have hsum := mergePass_sum b bs
  unfold releaseBlock
  rw [((insertBlock_perm _ _).map Block.size).sum_nat]
  exact hsum

theorem releaseBlock_parted (hout : p ∉ cover bs) : Parted (releaseBlock (Block.mk p 1) bs) [p] bs where
  nodup := List.nodup_singleton p
  cover_eq q := by
    rw [releaseBlock_cover, List.mem_singleton, Set.mem_union, mem_span_one]
  apart q hq := by
    rw [List.mem_singleton.mp hq]
    exact hout
  sum_eq := by
    rw [releaseBlock_sum]
    exact Nat.add_comm _ _

theorem eq_nil_of_sum (hsep : Separated bs) (hsum : (bs.map Block.size).sum = 0) : bs = [] := by
  cases bs with
  | nil => rfl
  | cons b bs =>
      have hpos := hsep.size_pos b List.mem_cons_self
      rw [List.map_cons, List.sum_cons] at hsum
      lia

theorem exists_of_sum_pos (hsum : 0 < (bs.map Block.size).sum) : exists b, b ∈ bs ∧ 1 ≤ b.size := by
  by_contra hnone
  have hzero : (bs.map Block.size).sum = 0 := by
    apply List.sum_eq_zero
    intro k hk
    rcases List.mem_map.mp hk with ⟨b, hb, hbk⟩
    rw [← hbk]
    by_contra hpos
    exact hnone ⟨b, hb, Nat.one_le_iff_ne_zero.mpr hpos⟩
  lia

end Parting

/-!
# One call
-/

section Calls

variable {F : Set Nat} {s0 s s' : PmmState} {bs bs' : List Block} {n p : Nat}

theorem Within.start (h : Represents s F bs) : Within F s s bs := ⟨h, SameOutside.refl F s⟩

theorem Within.trans {t : PmmState} (h : Within F s0 s bs) (h' : Within F s t bs') :
    Within F s0 t bs' := ⟨h'.represents, h.same.trans h'.same⟩

theorem allocNone_of_small (h : Represents s F bs) (hn : 0 < n)
    (hsmall : forall b, b ∈ bs -> b.size < n) : allocNone s n = some s := by
  rcases defaultAllocPages_spec h hn with ⟨s', r, bs', hrun, hto, _, _, _, hsame⟩
  have hnone := hto.none_iff.mpr hsmall
  unfold allocNone
  rw [hrun, hnone]
  exact congrArg some (hsame hnone)

/-- Under an empty header nothing is found, whatever `nr_free` says. -/
theorem allocNone_of_empty (hring : Ring s.links freeList []) (hn : 0 < n) :
    allocNone s n = some s := by
  have hfind : findFit s n (s.npage + 1) freeList = some none := by
    unfold findFit listNext
    rw [hring.next_header]
    rfl
  unfold allocNone defaultAllocPages
  rw [if_pos hn, hfind]
  simp only [ite_self]

theorem allocSome_eq (h : allocSome s n = some (s', p)) :
    defaultAllocPages s n = some (s', some p) := by
  unfold allocSome at h
  split at h
  · rename_i hrun
    cases h
    exact hrun
  · cases h

theorem allocSome_inv (h : Represents s F bs) (hn : 0 < n)
    (hrun : allocSome s n = some (s', p)) :
    exists bs', AllocTo n bs (some p) bs' ∧ Within F s s' bs' ∧
      (forall q, (s'.pages q).ref = (s.pages q).ref) := by
  have halloc := allocSome_eq hrun
  rcases defaultAllocPages_spec h hn with ⟨t, r, bs', hrun', hto, hrep, _, href, _⟩
  rw [halloc] at hrun'
  cases hrun'
  exact ⟨bs', hto, ⟨hrep, alloc_sameOutside h halloc⟩, href⟩

theorem allocSome_of_fit (h : Represents s F bs) (hn : 0 < n)
    (hfit : exists b, b ∈ bs ∧ n ≤ b.size) : exists s' p, allocSome s n = some (s', p) := by
  rcases defaultAllocPages_spec h hn with ⟨t, r, bs', hrun, hto, _⟩
  cases r with
  | none =>
      rcases hfit with ⟨b, hb, hle⟩
      have hlt := hto.none_iff.mp rfl b hb
      lia
  | some p =>
      refine ⟨t, p, ?_⟩
      unfold allocSome
      rw [hrun]

theorem free_within (h : Within F s0 s bs) (hn : 0 < n) (hdom : (Block.mk p n).span ⊆ F)
    (hout : Disjoint (Block.mk p n).span (cover bs)) :
    exists s', defaultFreePages s p n = some s' ∧
      Within F s0 s' (releaseBlock (Block.mk p n) bs) := by
  rcases defaultFreePages_spec h.represents hn hdom hout with ⟨s', hrun, hrep, _, _⟩
  exact ⟨s', hrun, hrep, h.same.trans (free_sameOutside h.represents hdom hout hrun)⟩

theorem freeOne_within (h : Within F s0 s bs) (hdom : p ∈ F) (hout : p ∉ cover bs) :
    exists s', defaultFreePages s p 1 = some s' ∧
      Within F s0 s' (releaseBlock (Block.mk p 1) bs) := by
  apply free_within h Nat.one_pos
  · intro q hq
    rw [mem_span_one.mp hq]
    exact hdom
  · rw [Set.disjoint_left]
    intro q hq
    rw [mem_span_one.mp hq]
    exact hout

end Calls

/-!
# Three pages
-/

section Three

variable {F : Set Nat} {s0 s s' : PmmState} {bs bs' : List Block} {p0 p1 p2 : Nat}

theorem allocThree_inv (h : Represents s F bs) (hrun : allocThree s = some (s', p0, p1, p2)) :
    exists bs', Within F s s' bs' ∧ Parted bs [p0, p1, p2] bs' ∧
      (Coalesced bs -> Coalesced bs') ∧ (Ascending bs -> Ascending bs') ∧
      forall q, (s'.pages q).ref = (s.pages q).ref := by
  unfold allocThree at hrun
  simp only [Option.bind_eq_bind, Option.bind_eq_some_iff, Prod.exists] at hrun
  rcases hrun with ⟨s1, q0, hrun0, s2, q1, hrun1, s3, q2, hrun2, heq⟩
  cases heq
  rcases allocSome_inv h Nat.one_pos hrun0 with ⟨bs1, hto0, hw0, href0⟩
  rcases allocSome_inv hw0.represents Nat.one_pos hrun1 with ⟨bs2, hto1, hw1, href1⟩
  rcases allocSome_inv hw1.represents Nat.one_pos hrun2 with ⟨bs3, hto2, hw2, href2⟩
  have hsep := h.separated
  have hsep1 := hw0.represents.separated
  have hsep2 := hw1.represents.separated
  refine ⟨bs3, (hw0.trans hw1).trans hw2, ?_, ?_, ?_, ?_⟩
  · exact (hto0.parted hsep).trans ((hto1.parted hsep1).trans (hto2.parted hsep2))
  · intro hco
    exact hto2.coalesced hsep2 (hto1.coalesced hsep1 (hto0.coalesced hsep hco))
  · intro hasc
    exact hto2.page_ascending hsep2 (hto1.page_ascending hsep1 (hto0.page_ascending hsep hasc))
  · intro q
    rw [href2, href1, href0]

theorem allocThree_of_sum (h : Represents s F bs) (hsum : 3 ≤ (bs.map Block.size).sum) :
    exists s' p0 p1 p2, allocThree s = some (s', p0, p1, p2) := by
  rcases allocSome_of_fit h Nat.one_pos (exists_of_sum_pos (by lia)) with ⟨s1, q0, hrun0⟩
  rcases allocSome_inv h Nat.one_pos hrun0 with ⟨bs1, hto0, hw0, _⟩
  have hsum0 := hto0.sum_eq
  rcases allocSome_of_fit hw0.represents Nat.one_pos (exists_of_sum_pos (by lia)) with
    ⟨s2, q1, hrun1⟩
  rcases allocSome_inv hw0.represents Nat.one_pos hrun1 with ⟨bs2, hto1, hw1, _⟩
  have hsum1 := hto1.sum_eq
  rcases allocSome_of_fit hw1.represents Nat.one_pos (exists_of_sum_pos (by lia)) with
    ⟨s3, q2, hrun2⟩
  refine ⟨s3, q0, q1, q2, ?_⟩
  unfold allocThree
  rw [hrun0]
  simp only [Option.bind_eq_bind, Option.bind_some, hrun1, hrun2]

theorem freeThree_within (h : Within F s0 s bs) (hnodup : [p0, p1, p2].Nodup)
    (hdom : forall p, p ∈ [p0, p1, p2] -> p ∈ F \ cover bs) :
    exists s' bs', freeThree s p0 p1 p2 = some s' ∧ Within F s0 s' bs' ∧
      Parted bs' [p2, p1, p0] bs ∧ (Coalesced bs -> Coalesced bs') ∧
      (Ascending bs -> Ascending bs') := by
  simp only [List.nodup_cons, List.mem_cons, List.not_mem_nil, or_false, not_or] at hnodup
  rcases hnodup with ⟨⟨h01, h02⟩, h12, _⟩
  have h0 := hdom p0 (by simp)
  have h1 := hdom p1 (by simp)
  have h2 := hdom p2 (by simp)
  have hp0 := releaseBlock_parted h0.right
  rcases freeOne_within h h0.left h0.right with ⟨s1, hrun0, hw0⟩
  have hout1 : p1 ∉ cover (releaseBlock (Block.mk p0 1) bs) := by
    rw [hp0.cover_eq, List.mem_singleton]
    rintro (heq | hin)
    · exact h01 heq.symm
    · exact h1.right hin
  have hp1 := releaseBlock_parted hout1
  rcases freeOne_within hw0 h1.left hout1 with ⟨s2, hrun1, hw1⟩
  have hout2 : p2 ∉ cover (releaseBlock (Block.mk p1 1) (releaseBlock (Block.mk p0 1) bs)) := by
    rw [hp1.cover_eq, hp0.cover_eq, List.mem_singleton, List.mem_singleton]
    rintro (heq | heq | hin)
    · exact h12 heq.symm
    · exact h02 heq.symm
    · exact h2.right hin
  have hp2 := releaseBlock_parted hout2
  rcases freeOne_within hw1 h2.left hout2 with ⟨s3, hrun2, hw2⟩
  have hsep0 := separated_page h.represents.separated h0.right
  have hsep1 := separated_page hw0.represents.separated hout1
  have hsep2 := separated_page hw1.represents.separated hout2
  refine ⟨s3, _, ?_, hw2, hp2.trans (hp1.trans hp0), ?_, ?_⟩
  · unfold freeThree
    rw [hrun0]
    simp only [Option.bind_eq_bind, Option.bind_some, hrun1, hrun2]
  · intro hco
    apply releaseBlock_coalesced hsep2
    apply releaseBlock_coalesced hsep1
    exact releaseBlock_coalesced hsep0 hco
  · intro hasc
    apply releaseBlock_ascending hsep2
    apply releaseBlock_ascending hsep1
    exact releaseBlock_ascending hsep0 hasc

/-- One statement of a test that does not fail. -/
theorem bind_step {alpha beta : Type} {x : Option alpha} {f : alpha -> Option beta} {a : alpha}
    {r : Option beta} (hx : x = some a) (hf : f a = r) : (x >>= f) = r := by
  rw [hx]
  exact hf

theorem guard_of {c : Prop} [Decidable c] (h : c) : (guard c : Option Unit) = some () := if_pos h

theorem Parted.nothing_left (h : Parted bs [p0, p1, p2] bs') (hsep : Separated bs')
    (hsum : (bs.map Block.size).sum = 3) : bs' = [] := by
  apply eq_nil_of_sum hsep
  have hparts := h.sum_eq
  simp only [List.length_cons, List.length_nil] at hparts
  lia

theorem tryThree_within (h : Represents s F []) (hnodup : [p0, p1, p2].Nodup)
    (hdom : forall p, p ∈ F <-> p ∈ [p0, p1, p2]) :
    exists s' q0 q1 q2, tryThree s p0 p1 p2 = some (s', q0, q1, q2) ∧ Within F s s' [] ∧
      [q0, q1, q2].Nodup ∧ forall p, p ∈ [q0, q1, q2] <-> p ∈ F := by
  have hnone : forall {t : PmmState}, Represents t F [] -> allocNone t 1 = some t :=
    fun ht => allocNone_of_small ht Nat.one_pos fun b hb => by cases hb
  rcases freeThree_within (Within.start h) hnodup (fun p hp => ⟨(hdom p).mpr hp, not_mem_cover_nil⟩) with
    ⟨s1, cs, hfree, hw1, hcs, _, _⟩
  have hsum : (cs.map Block.size).sum = 3 := hcs.sum_eq
  rcases allocThree_of_sum hw1.represents (Nat.le_of_eq hsum.symm) with ⟨s2, q0, q1, q2, hthree⟩
  rcases allocThree_inv hw1.represents hthree with ⟨ds, hw2, hds, _, _, _⟩
  have hempty := hds.nothing_left hw2.represents.separated hsum
  rw [hempty] at hw2 hds
  have hq : forall p, p ∈ [q0, q1, q2] <-> p ∈ F := by
    intro p
    have hback : p ∈ [p2, p1, p0] <-> p ∈ [p0, p1, p2] := by
      simp only [List.mem_cons, List.not_mem_nil, or_false]
      tauto
    have hcovers := hds.cover_eq p
    rw [hcs.cover_eq, cover_nil] at hcovers
    rw [hdom, ← hback]
    simpa using hcovers.symm
  rcases freeOne_within hw2 ((hq q0).mp (by simp)) not_mem_cover_nil with ⟨s3, hone, hw3⟩
  have hlist : releaseBlock (Block.mk q0 1) [] = [Block.mk q0 1] := rfl
  rw [hlist] at hw3
  have hfull : listEmpty s3.links freeList = false := by
    unfold listEmpty
    rw [hw3.represents.ring.next_header]
    rfl
  rcases allocSome_of_fit hw3.represents Nat.one_pos ⟨_, List.mem_singleton_self _, Nat.le_refl 1⟩
    with ⟨s4, q, hagain⟩
  rcases allocSome_inv hw3.represents Nat.one_pos hagain with ⟨es, hto, hw4, _⟩
  have hparted := hto.parted hw3.represents.separated
  have hsame : q = q0 := by
    have hin := (hparted.cover_eq q).mpr (Or.inl (List.mem_singleton_self q))
    rcases hin with ⟨b, hb, hqb⟩
    rw [List.mem_singleton.mp hb] at hqb
    exact mem_span_one.mp hqb
  have hnil : es = [] := by
    apply eq_nil_of_sum hw4.represents.separated
    have hone := hparted.sum_eq
    simp only [List.map_cons, List.map_nil, List.sum_cons, List.sum_nil, List.length_cons,
      List.length_nil] at hone
    lia
  rw [hnil] at hw4
  refine ⟨s4, q, q1, q2, ?_, hw1.trans ⟨hw4.represents, hw3.same.trans hw4.same⟩, ?_, ?_⟩
  · unfold tryThree
    apply bind_step (hnone h)
    apply bind_step hfree
    apply bind_step (guard_of (hw1.represents.nrFree_eq.trans hsum))
    apply bind_step hthree
    apply bind_step (hnone hw2.represents)
    apply bind_step hone
    apply bind_step (guard_of hfull)
    apply bind_step hagain
    apply bind_step (guard_of hsame)
    apply bind_step (hnone hw4.represents)
    apply bind_step (guard_of hw4.represents.nrFree_eq)
    rfl
  · rw [hsame]
    exact hds.nodup
  · rw [hsame]
    exact hq

theorem listEmpty_listInit (L : ListLinks) : listEmpty (listInit L freeList) freeList = true := by
  unfold listEmpty
  rw [(ring_listInit L freeList).next_header]
  rfl

theorem belowTop_of_lt (hnpage : s.npage ≤ KMEMSIZE / 4096) {p : Nat} (hp : p < s.npage) :
    belowTop s p = true := by
  unfold KMEMSIZE at hnpage
  unfold belowTop
  rw [decide_eq_true_iff, page2pa_toNat (by lia), BitVec.toNat_mul, BitVec.toNat_ofNat,
    BitVec.toNat_ofNat]
  lia

/-- `basic_check` gives back the three pages that it takes. -/
theorem basicCheck_within (h : Represents s (cover bs) bs) (hnpage : s.npage ≤ KMEMSIZE / 4096)
    (hsum : 3 ≤ (bs.map Block.size).sum) :
    exists s' bs', basicCheck s = some s' ∧ Within (cover bs) s s' bs' ∧ cover bs' = cover bs ∧
      (Coalesced bs -> Coalesced bs') ∧ (Ascending bs -> Ascending bs') := by
  rcases allocThree_of_sum h hsum with ⟨s1, p0, p1, p2, hthree⟩
  rcases allocThree_inv h hthree with ⟨cs, hw1, hcs, hco, hasc, href⟩
  have hin : forall p, p ∈ [p0, p1, p2] -> p ∈ cover bs :=
    fun p hp => (hcs.cover_eq p).mpr (Or.inl hp)
  have hnodup := hcs.nodup
  simp only [List.nodup_cons, List.mem_cons, List.not_mem_nil, or_false, not_or] at hnodup
  have hrefs : forall p, p ∈ [p0, p1, p2] -> (s1.pages p).ref = 0 := by
    intro p hp
    rw [href]
    exact h.free_ref p (hin p hp)
  have hbelow : forall p, p ∈ [p0, p1, p2] -> belowTop s1 p = true := by
    intro p hp
    apply belowTop_of_lt
    · rw [hw1.same.npage]
      exact hnpage
    · exact hw1.represents.bound p (hin p hp)
  have hdom : forall p, p ∈ cover bs \ cover cs <-> p ∈ [p0, p1, p2] := by
    intro p
    constructor
    · rintro ⟨hp, hout⟩
      exact ((hcs.cover_eq p).mp hp).resolve_right hout
    · exact fun hp => ⟨hin p hp, hcs.apart p hp⟩
  have hempty := hw1.represents.emptied
  rcases tryThree_within hempty hcs.nodup hdom with ⟨s2, q0, q1, q2, htry, hw2, hqnodup, hq⟩
  have hback := hw1.represents.restored hw2.represents hw2.same
  have hsame2 : SameOutside (cover bs) s1 { setHeader s2 (headerOf s1) with nrFree := s1.nrFree } :=
    (((sameOutside_defaultInit _ s1).trans (hw2.same.mono Set.sdiff_subset)).trans
      (sameOutside_setHeader _ s2 _)).trans (sameOutside_nrFree _ _)
  rcases freeThree_within ⟨hback, hw1.same.trans hsame2⟩ hqnodup (fun p hp => (hq p).mp hp) with
    ⟨s3, ds, hfree, hw3, hds, hco3, hasc3⟩
  refine ⟨s3, ds, ?_, hw3, ?_, fun h => hco3 (hco h), fun h => hasc3 (hasc h)⟩
  · unfold basicCheck
    apply bind_step hthree
    apply bind_step (guard_of ⟨hnodup.left.left, hnodup.left.right, hnodup.right.left⟩)
    apply bind_step (guard_of ⟨hrefs p0 (by simp), hrefs p1 (by simp), hrefs p2 (by simp)⟩)
    apply bind_step (guard_of ⟨hbelow p0 (by simp), hbelow p1 (by simp), hbelow p2 (by simp)⟩)
    apply bind_step (guard_of (listEmpty_listInit s1.links))
    apply bind_step htry
    exact hfree
  · ext p
    rw [hds.cover_eq]
    have hmem : p ∈ [q2, q1, q0] <-> p ∈ [q0, q1, q2] := by
      simp only [List.mem_cons, List.not_mem_nil, or_false]
      tauto
    rw [hmem, hq]
    constructor
    · rintro (hout | hleft)
      · exact hout.left
      · exact (hcs.cover_eq p).mpr (Or.inr hleft)
    · intro hp
      cases Classical.em (p ∈ cover cs) with
      | inl hleft => exact Or.inr hleft
      | inr hout => exact Or.inl ⟨hp, hout⟩

end Three

/-!
# Five pages
-/

section Five

variable {F : Set Nat} {s0 s s' : PmmState} {bs bs' : List Block} {b c : Block} {n p : Nat}

theorem AllocTo.second {r : Option Nat} (h : AllocTo n (b :: c :: bs) r bs') (hb : b.size < n)
    (hfit : n ≤ c.size) : r = some c.head ∧ bs' = remainder c n ++ b :: bs := by
  cases h with
  | refused hsmall =>
      have hlt := hsmall c (by simp)
      lia
  | granted pre d post hsplit hfits hsmall =>
      cases pre with
      | nil =>
          cases hsplit
          lia
      | cons e pre =>
          cases pre with
          | nil =>
              cases hsplit
              exact ⟨rfl, rfl⟩
          | cons e pre =>
              cases hsplit
              have hlt := hsmall c (by simp)
              lia

theorem allocFirst_within (h : Within F s0 s (b :: bs)) (hn : 0 < n) (hfit : n ≤ b.size) :
    exists s', allocSome s n = some (s', b.head) ∧ Within F s0 s' (remainder b n ++ bs) := by
  rcases allocSome_of_fit h.represents hn ⟨b, List.mem_cons_self, hfit⟩ with ⟨s', p, hrun⟩
  rcases allocSome_inv h.represents hn hrun with ⟨bs', hto, hw, _⟩
  rcases hto.first hfit with ⟨hp, hbs⟩
  cases hp
  rw [hbs] at hw
  exact ⟨s', hrun, h.trans hw⟩

theorem allocSecond_within (h : Within F s0 s (b :: c :: bs)) (hn : 0 < n) (hb : b.size < n)
    (hfit : n ≤ c.size) :
    exists s', allocSome s n = some (s', c.head) ∧ Within F s0 s' (remainder c n ++ b :: bs) := by
  rcases allocSome_of_fit h.represents hn ⟨c, by simp, hfit⟩ with ⟨s', p, hrun⟩
  rcases allocSome_inv h.represents hn hrun with ⟨bs', hto, hw, _⟩
  rcases hto.second hb hfit with ⟨hp, hbs⟩
  cases hp
  rw [hbs] at hw
  exact ⟨s', hrun, h.trans hw⟩

theorem Within.head_fields (h : Within F s0 s bs) (hb : b ∈ bs) :
    (s.pages b.head).pageProperty = true ∧ s.property b.head = b.size :=
  ⟨(h.represents.flagged b.head (h.represents.heads_subset b hb)).mpr (List.mem_map_of_mem hb),
    h.represents.property_eq b hb⟩

theorem Within.allocNone (h : Within F s0 s bs) (hn : 0 < n)
    (hsmall : forall b, b ∈ bs -> b.size < n) : allocNone s n = some s :=
  allocNone_of_small h.represents hn hsmall

theorem mergePass_up (hup : b.stop = c.head) : mergePass b (c :: bs) = mergePass (b.join c) bs :=
  if_pos hup

theorem mergePass_down (hup : b.stop ≠ c.head) (hdown : c.stop = b.head) :
    mergePass b (c :: bs) = mergePass (c.join b) bs := by
  rw [mergePass, if_neg hup, if_pos hdown]

theorem mergePass_keep (hup : b.stop ≠ c.head) (hdown : c.stop ≠ b.head) :
    mergePass b (c :: bs) = ((mergePass b bs).fst, c :: (mergePass b bs).snd) := by
  rw [mergePass, if_neg hup, if_neg hdown]

theorem insertBlock_front (h : b.stop ≤ c.head) : insertBlock b (c :: bs) = b :: c :: bs :=
  if_pos h

theorem insertBlock_behind (h : ¬ b.stop ≤ c.head) :
    insertBlock b (c :: bs) = c :: insertBlock b bs :=
  if_neg h

theorem releaseBlock_front (hgap : b.stop < c.head) : releaseBlock b [c] = [b, c] := by
  have hdown : c.stop ≠ b.head := by
    rw [stop_eq] at hgap ⊢
    lia
  unfold releaseBlock
  rw [mergePass_keep hgap.ne hdown]
  exact insertBlock_front hgap.le

theorem releaseBlock_behind (hgap : c.stop < b.head) : releaseBlock b [c] = [c, b] := by
  have hup : ¬ b.stop ≤ c.head := by
    rw [stop_eq] at hgap ⊢
    lia
  unfold releaseBlock
  rw [mergePass_keep (fun heq => hup heq.le) hgap.ne]
  exact insertBlock_behind hup

theorem tryFive_within (h : Represents s (Block.mk p 5).span []) :
    exists s', tryFive s p = some (s', p) ∧ Within (Block.mk p 5).span s s' [] := by
  have hfree : forall {t : PmmState} {bs : List Block} {q k : Nat},
      Within (Block.mk p 5).span s t bs -> 0 < k -> p ≤ q -> q + k ≤ p + 5 ->
      (forall b, b ∈ bs -> q + k ≤ b.head ∨ b.stop ≤ q) ->
      exists t', defaultFreePages t q k = some t' ∧
        Within (Block.mk p 5).span s t' (releaseBlock (Block.mk q k) bs) := by
    intro t bs q k ht hk hle hend hout
    apply free_within ht hk
    · intro x hx
      rw [mem_span, stop_mk] at hx ⊢
      lia
    · rw [Set.disjoint_left]
      rintro x hx ⟨b, hb, hxb⟩
      rw [mem_span, stop_mk] at hx
      rw [mem_span] at hxb
      have hapart := hout b hb
      lia
  rcases hfree (Within.start h) (show 0 < 3 by decide) (by lia) (show p + 2 + 3 ≤ p + 5 by lia)
    (fun b hb => by cases hb) with ⟨s1, hrun1, hw1⟩
  rw [show releaseBlock (Block.mk (p + 2) 3) [] = [Block.mk (p + 2) 3] from rfl] at hw1
  rcases allocFirst_within hw1 (show 0 < 3 by decide) (Nat.le_refl 3) with ⟨s2, hrun2, hw2⟩
  rw [show remainder (Block.mk (p + 2) 3) 3 ++ [] = [] from rfl] at hw2
  rcases hfree hw2 Nat.one_pos (Nat.le_refl p) (show p + 1 ≤ p + 5 by lia)
    (fun b hb => by cases hb) with ⟨s3, hrun3, hw3⟩
  rw [show releaseBlock (Block.mk p 1) [] = [Block.mk p 1] from rfl] at hw3
  rcases hfree hw3 (show 0 < 3 by decide) (by lia) (show p + 2 + 3 ≤ p + 5 by lia)
    (fun b hb => by
      rw [List.mem_singleton.mp hb, stop_mk]
      lia) with ⟨s4, hrun4, hw4⟩
  rw [releaseBlock_behind (by rw [stop_mk]; lia)] at hw4
  rcases allocFirst_within hw4 Nat.one_pos (Nat.le_refl 1) with ⟨s5, hrun5, hw5⟩
  rw [show remainder (Block.mk p 1) 1 ++ [Block.mk (p + 2) 3] = [Block.mk (p + 2) 3] from rfl]
    at hw5
  rcases hfree hw5 Nat.one_pos (Nat.le_refl p) (show p + 1 ≤ p + 5 by lia)
    (fun b hb => by
      rw [List.mem_singleton.mp hb]
      lia) with ⟨s6, hrun6, hw6⟩
  rw [releaseBlock_front (by rw [stop_mk]; lia)] at hw6
  rcases allocSecond_within hw6 (show 0 < 2 by decide) (show 1 < 2 by decide)
    (show 2 ≤ 3 by decide) with ⟨s7, hrun7, hw7⟩
  rcases hfree hw7 (show 0 < 2 by decide) (by lia) (show p + 2 + 2 ≤ p + 5 by lia)
    (fun b hb => by
      rcases List.mem_cons.mp hb with heq | hin
      · rw [heq]
        exact Or.inl (Nat.le_refl _)
      · rw [List.mem_singleton.mp hin, stop_mk]
        lia) with ⟨s8, hrun8, hw8⟩
  have hback : releaseBlock (Block.mk (p + 2) 2) [Block.mk (p + 4) 1, Block.mk p 1] =
      [Block.mk p 1, Block.mk (p + 2) 3] := by
    unfold releaseBlock
    rw [mergePass_up rfl]
    exact releaseBlock_behind (by rw [stop_mk, join_head]; lia)
  rw [show remainder (Block.mk (p + 2) 3) 2 ++ [Block.mk p 1] =
    [Block.mk (p + 4) 1, Block.mk p 1] from rfl, hback] at hw8
  rcases hfree hw8 Nat.one_pos (by lia) (show p + 1 + 1 ≤ p + 5 by lia)
    (fun b hb => by
      rcases List.mem_cons.mp hb with heq | hin
      · rw [heq, stop_mk]
        lia
      · rw [List.mem_singleton.mp hin]
        lia) with ⟨s9, hrun9, hw9⟩
  have hwhole : releaseBlock (Block.mk (p + 1) 1) [Block.mk p 1, Block.mk (p + 2) 3] =
      [Block.mk p 5] := by
    unfold releaseBlock
    rw [mergePass_down (by rw [stop_mk]; lia) rfl, mergePass_up rfl]
    rfl
  rw [hwhole] at hw9
  rcases allocFirst_within hw9 (show 0 < 5 by decide) (Nat.le_refl 5) with ⟨s10, hrun10, hw10⟩
  rw [show remainder (Block.mk p 5) 5 ++ [] = [] from rfl] at hw10
  refine ⟨s10, ?_, hw10⟩
  have hnone : forall {t : PmmState}, Within (Block.mk p 5).span s t [] ->
      allocNone t 1 = some t :=
    fun ht => ht.allocNone Nat.one_pos fun b hb => by cases hb
  unfold tryFive
  apply bind_step hrun1
  apply bind_step (hw1.allocNone (show 0 < 4 by decide) fun b hb => by
    rw [List.mem_singleton.mp hb]
    exact Nat.lt_succ_self 3)
  apply bind_step (guard_of (hw1.head_fields (List.mem_singleton_self _)))
  apply bind_step hrun2
  apply bind_step (hnone hw2)
  apply bind_step (guard_of rfl)
  apply bind_step hrun3
  apply bind_step hrun4
  apply bind_step (guard_of (hw4.head_fields List.mem_cons_self))
  apply bind_step (guard_of (hw4.head_fields (b := Block.mk (p + 2) 3) (by simp)))
  apply bind_step hrun5
  apply bind_step (guard_of rfl)
  apply bind_step hrun6
  apply bind_step hrun7
  apply bind_step (guard_of rfl)
  apply bind_step hrun8
  apply bind_step hrun9
  apply bind_step hrun10
  apply bind_step (hnone hw10)
  apply bind_step (guard_of hw10.represents.nrFree_eq)
  rfl

end Five

end Memory
end OsLabs
