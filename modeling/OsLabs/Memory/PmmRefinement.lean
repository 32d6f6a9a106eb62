import Mathlib.Algebra.Order.BigOperators.Group.List
import Mathlib.Algebra.Order.Group.Nat
import Mathlib.Data.Finset.Card
import Mathlib.Data.Finset.Range
import OsLabs.Memory.DefaultPmm
import OsLabs.Memory.FirstFit

/-!
# The default manager refines first fit

`Represents` ties the four redundant parts of the allocator's state (the links,
the `property` counts, the `PG_property` bits and `nr_free`) to one list of
free blocks.  Each function of `default_pmm.c` gets one specification: it does
not panic, its walks end, and it moves the represented list as first fit does.
-/

namespace OsLabs
namespace Memory

open Foundation
open Foundation.Block
open Foundation.Links
open ListEntryPtr
open PmmState

def entries (bs : List Block) : List ListEntryPtr := bs.map fun b => pageLink b.head

@[simp] theorem entries_nil : entries [] = [] := rfl

@[simp] theorem entries_cons (b : Block) (bs : List Block) :
    entries (b :: bs) = pageLink b.head :: entries bs := rfl

@[simp] theorem entries_append (bs cs : List Block) :
    entries (bs ++ cs) = entries bs ++ entries cs := List.map_append

theorem pageLink_mem_entries {bs : List Block} {p : Nat} :
    pageLink p ∈ entries bs <-> p ∈ bs.map Block.head := by
  unfold entries
  simp

/-- The state `s` has initialised the pages `dom` and keeps the free ones in
the blocks `bs`, in list order. -/
structure Represents (s : PmmState) (dom : Set Nat) (bs : List Block) : Prop where
  ring : Ring s.links freeList (entries bs)
  property_eq : forall b, b ∈ bs -> s.property b.head = b.size
  nrFree_eq : s.nrFree = (bs.map Block.size).sum
  flagged : forall p, p ∈ dom ->
    ((s.pages p).pageProperty = true <-> p ∈ bs.map Block.head)
  unreserved : forall p, p ∈ dom -> (s.pages p).pageReserved = false
  free_ref : forall p, p ∈ cover bs -> (s.pages p).ref = 0
  bound : forall p, p ∈ dom -> p < s.npage
  separated : Separated bs
  cover_subset : cover bs ⊆ dom

theorem length_le_of_bound {bs : List Block} {dom : Set Nat} {npage : Nat}
    (hsep : Separated bs) (hsub : cover bs ⊆ dom)
    (hbound : forall p, p ∈ dom -> p < npage) : bs.length ≤ npage := by
  have hcard : (bs.map Block.head).toFinset.card = bs.length := by
    rw [List.toFinset_card_of_nodup hsep.nodup_heads, List.length_map]
  rw [← hcard, ← Finset.card_range npage]
  apply Finset.card_le_card
  intro p hp
  rcases List.mem_map.mp (List.mem_toFinset.mp hp) with ⟨b, hb, hbp⟩
  rw [Finset.mem_range, ← hbp]
  exact hbound _ (hsub ⟨b, hb, hsep.head_mem_span hb⟩)

theorem Represents.length_le {s : PmmState} {dom : Set Nat} {bs : List Block}
    (h : Represents s dom bs) : bs.length ≤ s.npage :=
  length_le_of_bound h.separated h.cover_subset h.bound

theorem Represents.head_mem {s : PmmState} {dom : Set Nat} {bs : List Block}
    (h : Represents s dom bs) {b : Block} (hb : b ∈ bs) : b.head ∈ cover bs :=
  ⟨b, hb, h.separated.head_mem_span hb⟩

/-!
# Walking the free list
-/

theorem listedFrom_ring {s : PmmState} {pre post : List Block} {fuel : Nat}
    (hr : Ring s.links freeList (entries (pre ++ post)))
    (hfuel : post.length < fuel) :
    listedFrom s fuel (lastFrom freeList (entries pre)) = post.map Block.head := by
  induction post generalizing pre fuel with
  | nil =>
      cases fuel with
      | zero => cases hfuel
      | succ fuel =>
          rw [entries_append] at hr
          unfold listedFrom listNext
          rw [hr.next_lastFrom]
          rfl
  | cons b post ih =>
      cases fuel with
      | zero => cases hfuel
      | succ fuel =>
          have hnext := hr
          rw [entries_append] at hnext
          unfold listedFrom listNext
          rw [hnext.next_lastFrom, entries_cons, firstTo_cons]
          have hshift : Ring s.links freeList (entries ((pre ++ [b]) ++ post)) := by
            simpa using hr
          have hrest := ih hshift (Nat.lt_of_succ_lt_succ hfuel)
          rw [entries_append, entries_cons, entries_nil, lastFrom_snoc] at hrest
          simp only [hrest, List.map_cons]

theorem Represents.listedHeads_eq {s : PmmState} {dom : Set Nat} {bs : List Block}
    (h : Represents s dom bs) : listedHeads s = bs.map Block.head := by
  have hr : Ring s.links freeList (entries ([] ++ bs)) := h.ring
  exact listedFrom_ring hr (Nat.lt_succ_of_le h.length_le)

theorem Represents.listedBlocks_eq {s : PmmState} {dom : Set Nat} {bs : List Block}
    (h : Represents s dom bs) : listedBlocks s = bs := by
  unfold listedBlocks
  rw [h.listedHeads_eq, List.map_map]
  calc
    bs.map ((fun p => Block.mk p (s.property p)) ∘ Block.head)
        = bs.map id := by
          apply List.map_congr_left
          intro b hb
          change Block.mk b.head (s.property b.head) = b
          rw [h.property_eq b hb]
    _ = bs := List.map_id bs

/-!
# Allocation
-/

theorem findFit_spec {s : PmmState} {pre post : List Block} {n fuel : Nat}
    (hr : Ring s.links freeList (entries (pre ++ post)))
    (hprop : forall b, b ∈ post -> s.property b.head = b.size)
    (hfuel : post.length < fuel) :
    (findFit s n fuel (lastFrom freeList (entries pre)) = some none ∧
      forall b, b ∈ post -> b.size < n) ∨
    exists mid b rest,
      post = mid ++ b :: rest ∧ n ≤ b.size ∧
        (forall c, c ∈ mid -> c.size < n) ∧
        findFit s n fuel (lastFrom freeList (entries pre)) = some (some b.head) := by
  induction post generalizing pre fuel with
  | nil =>
      cases fuel with
      | zero => cases hfuel
      | succ fuel =>
          apply Or.inl
          rw [entries_append] at hr
          unfold findFit listNext
          rw [hr.next_lastFrom]
          exact ⟨rfl, fun b hb => by cases hb⟩
  | cons b post ih =>
      cases fuel with
      | zero => cases hfuel
      | succ fuel =>
          have hnext := hr
          rw [entries_append] at hnext
          unfold findFit listNext
          rw [hnext.next_lastFrom, entries_cons, firstTo_cons]
          simp only [hprop b (by simp)]
          by_cases hfit : n ≤ b.size
          · apply Or.inr
            refine ⟨[], b, post, rfl, hfit, ?_, ?_⟩
            · intro c hc
              cases hc
            · rw [if_pos hfit]
          · have hshift : Ring s.links freeList (entries ((pre ++ [b]) ++ post)) := by
              simpa using hr
            have hrest := ih hshift (fun c hc => hprop c (by simp [hc]))
              (Nat.lt_of_succ_lt_succ hfuel)
            rw [entries_append, entries_cons, entries_nil, lastFrom_snoc] at hrest
            rw [if_neg hfit]
            cases hrest with
            | inl hnone =>
                apply Or.inl
                refine ⟨hnone.left, ?_⟩
                intro c hc
                rcases List.mem_cons.mp hc with hcb | hcpost
                · rw [hcb]
                  lia
                · exact hnone.right c hcpost
            | inr hsome =>
                rcases hsome with ⟨mid, c, rest, hsplit, hcfit, hmid, hfind⟩
                apply Or.inr
                refine ⟨b :: mid, c, rest, ?_, hcfit, ?_, hfind⟩
                · rw [hsplit]
                  rfl
                · intro d hd
                  rcases List.mem_cons.mp hd with hdb | hdmid
                  · rw [hdb]
                    lia
                  · exact hmid d hdmid

theorem takePages_pages (s : PmmState) (page n q : Nat) (hn : 0 < n) :
    (takePages s page n).pages q =
      if q = page then (s.pages page).clearPageProperty
      else if n < s.property page ∧ q = page + n then
        Page.setPageProperty
          { s.pages q with property := s.property page - n }
      else s.pages q := by
  unfold takePages PmmState.property
  by_cases hlt : n < (s.pages page).property
  · by_cases hq : q = page
    · simp [hlt, hq, hn.ne']
    · by_cases hqn : q = page + n
      · simp [hlt, hqn, hn.ne']
      · simp [hlt, hq, hqn]
  · by_cases hq : q = page
    · simp [hlt, hq]
    · simp [hlt, hq]

theorem takePages_nrFree (s : PmmState) (page n : Nat) :
    (takePages s page n).nrFree = s.nrFree - n := by
  unfold takePages PmmState.property
  by_cases hlt : n < (s.pages page).property
  · simp [hlt]
  · simp [hlt]

@[simp] theorem takePages_npage (s : PmmState) (page n : Nat) :
    (takePages s page n).npage = s.npage := by
  unfold takePages PmmState.property
  by_cases hlt : n < (s.pages page).property
  · simp [hlt]
  · simp [hlt]

@[simp] theorem takePages_ref (s : PmmState) (page n q : Nat) (hn : 0 < n) :
    ((takePages s page n).pages q).ref = (s.pages q).ref := by
  rw [takePages_pages s page n q hn]
  split
  · rename_i hq
    rw [hq]
    rfl
  · split
    · rfl
    · rfl

theorem takePages_links (s : PmmState) (page n : Nat) :
    (takePages s page n).links =
      if n < s.property page then
        listAdd (listDel s.links (pageLink page)) freeList (pageLink (page + n))
      else listDel s.links (pageLink page) := by
  unfold takePages PmmState.property
  by_cases hlt : n < (s.pages page).property
  · simp [hlt]
  · simp [hlt]

theorem head_not_mem_span {b c : Block} {bs : List Block}
    (hsep : Separated (b :: bs)) (hc : c ∈ bs) : c.head ∉ b.span := by
  rcases separated_cons.mp hsep with ⟨_, hapart, hrest⟩
  intro hmem
  have hcmem : c.head ∈ c.span := hrest.head_mem_span hc
  exact Set.disjoint_left.mp (hapart c hc).disjoint hmem hcmem

theorem takePages_ring {s : PmmState} {dom : Set Nat}
    {pre post : List Block} {b : Block} {n : Nat}
    (h : Represents s dom (pre ++ b :: post)) (hfit : n ≤ b.size) :
    Ring (takePages s b.head n).links freeList
      (entries (remainder b n ++ (pre ++ post))) := by
  have hprop : s.property b.head = b.size := h.property_eq b (by simp)
  have hring : Ring s.links freeList
      (entries pre ++ pageLink b.head :: entries post) := by
    simpa using h.ring
  have hdel := ring_listDel hring
  rw [takePages_links, hprop]
  unfold remainder
  by_cases hlt : n < b.size
  · rw [if_pos hlt, if_pos hlt]
    have hmiddle : Separated (b :: (pre ++ post)) := h.separated.perm List.perm_middle
    have hfresh : pageLink (b.head + n) ∉
        freeList :: (entries pre ++ entries post) := by
      rw [← entries_append, List.mem_cons, pageLink_mem_entries]
      intro hmem
      cases hmem with
      | inl hfree => cases hfree
      | inr hhead =>
          rcases List.mem_map.mp hhead with ⟨c, hc, hcn⟩
          apply head_not_mem_span hmiddle hc
          rw [hcn, mem_span]
          unfold stop
          lia
    have hadd := ring_listAdd hdel hfresh
    simpa using hadd
  · rw [if_neg hlt, if_neg hlt]
    simpa using hdel

theorem remainder_heads {b : Block} {n p : Nat} :
    p ∈ (remainder b n).map Block.head <-> n < b.size ∧ p = b.head + n := by
  unfold remainder
  by_cases hlt : n < b.size
  · simp [hlt]
  · simp [hlt]

theorem takePages_flagged {s : PmmState} {dom : Set Nat}
    {pre post : List Block} {b : Block} {n : Nat}
    (h : Represents s dom (pre ++ b :: post)) (hn : 0 < n) {p : Nat} (hp : p ∈ dom) :
    ((takePages s b.head n).pages p).pageProperty = true <->
      p ∈ (remainder b n ++ (pre ++ post)).map Block.head := by
  have hprop : s.property b.head = b.size := h.property_eq b (by simp)
  have hmiddle : Separated (b :: (pre ++ post)) := h.separated.perm List.perm_middle
  have hb : b.head ∉ (pre ++ post).map Block.head :=
    (List.nodup_cons.mp hmiddle.nodup_heads).left
  have hold : (s.pages p).pageProperty = true <->
      p = b.head ∨ p ∈ (pre ++ post).map Block.head := by
    rw [h.flagged p hp]
    simp only [List.map_append, List.map_cons, List.mem_append, List.mem_cons]
    constructor
    · rintro (hpre | heq | hpost)
      · exact Or.inr (Or.inl hpre)
      · exact Or.inl heq
      · exact Or.inr (Or.inr hpost)
    · rintro (heq | hpre | hpost)
      · exact Or.inr (Or.inl heq)
      · exact Or.inl hpre
      · exact Or.inr (Or.inr hpost)
  rw [takePages_pages s b.head n p hn, hprop, List.map_append, List.mem_append,
    remainder_heads]
  by_cases hpb : p = b.head
  · rw [if_pos hpb, Page.pageProperty_clearPageProperty, hpb]
    constructor
    · intro hfalse
      cases hfalse
    · rintro (hcut | hmem)
      · lia
      · exact absurd hmem hb
  · rw [if_neg hpb]
    by_cases hcut : n < b.size ∧ p = b.head + n
    · rw [if_pos hcut, Page.pageProperty_setPageProperty]
      exact ⟨fun _ => Or.inl hcut, fun _ => rfl⟩
    · rw [if_neg hcut, hold]
      constructor
      · intro hmem
        exact Or.inr (hmem.resolve_left hpb)
      · intro hmem
        exact Or.inr (hmem.resolve_left hcut)

theorem takePages_represents {s : PmmState} {dom : Set Nat}
    {pre post : List Block} {b : Block} {n : Nat}
    (h : Represents s dom (pre ++ b :: post)) (hn : 0 < n) (hfit : n ≤ b.size)
    (hsmall : forall c, c ∈ pre -> c.size < n) :
    Represents (takePages s b.head n) dom (remainder b n ++ (pre ++ post)) := by
  have hto : AllocTo n (pre ++ b :: post) (some b.head)
      (remainder b n ++ (pre ++ post)) :=
    AllocTo.granted pre b post rfl hfit hsmall
  have hprop : s.property b.head = b.size := h.property_eq b (by simp)
  have hmiddle : Separated (b :: (pre ++ post)) := h.separated.perm List.perm_middle
  have hsubset : cover (remainder b n ++ (pre ++ post)) ⊆ cover (pre ++ b :: post) := by
    rw [hto.cover_eq]
    exact Set.subset_union_right
  constructor
  · exact takePages_ring h hfit
  · intro c hc
    unfold PmmState.property
    rw [takePages_pages s b.head n c.head hn, hprop]
    rcases List.mem_append.mp hc with hrem | hkept
    · have hheads : c.head ∈ (remainder b n).map Block.head :=
        List.mem_map_of_mem hrem
      have hcut := remainder_heads.mp hheads
      have hstop := (remainder_mem hrem).right.left
      rw [if_neg (by lia), if_pos hcut]
      change b.size - n = c.size
      simp only [stop_eq] at hstop
      lia
    · have hout := head_not_mem_span hmiddle hkept
      rw [mem_span, stop_eq] at hout
      rw [if_neg (by lia), if_neg (by lia)]
      apply h.property_eq c
      rw [List.perm_middle.mem_iff]
      exact List.mem_cons_of_mem b hkept
  · have hsum := hto.sum_eq
    rw [takePages_nrFree, h.nrFree_eq]
    lia
  · intro p hp
    exact takePages_flagged h hn hp
  · intro p hp
    rw [takePages_pages s b.head n p hn]
    split
    · rename_i hpb
      rw [Page.pageReserved_clearPageProperty, ← hpb]
      exact h.unreserved p hp
    · split
      · rw [Page.pageReserved_setPageProperty]
        exact h.unreserved p hp
      · exact h.unreserved p hp
  · intro p hp
    rw [takePages_ref s b.head n p hn]
    exact h.free_ref p (hsubset hp)
  · intro p hp
    rw [takePages_npage]
    exact h.bound p hp
  · exact hto.separated h.separated
  · exact hsubset.trans h.cover_subset

/-- `default_alloc_pages` returns, and allocates as first fit does. -/
theorem defaultAllocPages_spec {s : PmmState} {dom : Set Nat} {bs : List Block}
    (h : Represents s dom bs) {n : Nat} (hn : 0 < n) :
    exists s' r bs',
      defaultAllocPages s n = some (s', r) ∧ AllocTo n bs r bs' ∧
        Represents s' dom bs' ∧ s'.npage = s.npage ∧
        (forall q, (s'.pages q).ref = (s.pages q).ref) ∧
        (r = none -> s' = s) := by
  unfold defaultAllocPages
  rw [if_pos hn]
  by_cases hshort : s.nrFree < n
  · rw [if_pos hshort]
    refine ⟨s, none, bs, rfl, AllocTo.refused ?_, h, rfl, fun _ => rfl, fun _ => rfl⟩
    intro b hb
    have hle : b.size ≤ (bs.map Block.size).sum :=
      List.le_sum_of_mem (List.mem_map_of_mem hb)
    rw [← h.nrFree_eq] at hle
    lia
  · rw [if_neg hshort]
    have hring : Ring s.links freeList (entries ([] ++ bs)) := h.ring
    cases findFit_spec hring h.property_eq (Nat.lt_succ_of_le h.length_le) with
    | inl hnone =>
        rw [entries_nil, lastFrom_nil] at hnone
        rw [hnone.left]
        exact ⟨s, none, bs, rfl, AllocTo.refused hnone.right, h, rfl,
          fun _ => rfl, fun _ => rfl⟩
    | inr hsome =>
        rcases hsome with ⟨pre, b, post, hsplit, hfit, hsmall, hfind⟩
        rw [entries_nil, lastFrom_nil] at hfind
        rw [hfind]
        subst hsplit
        refine ⟨takePages s b.head n, some b.head, _, rfl,
          AllocTo.granted pre b post rfl hfit hsmall,
          takePages_represents h hn hfit hsmall, takePages_npage s b.head n, ?_, ?_⟩
        · intro q
          exact takePages_ref s b.head n q hn
        · intro hfalse
          cases hfalse

end Memory
end OsLabs
