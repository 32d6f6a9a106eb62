import OsLabs.Memory.PmmRefinement

/-!
# Release and initialisation

The loops of `default_free_pages` and `default_init_memmap`.  During the
merging pass the block being returned is off the list while its head already
carries the `PG_property` bit; `Merging` describes the states in between.
-/

namespace OsLabs
namespace Memory

open Foundation
open Foundation.Block
open Foundation.Links
open ListEntryPtr
open PmmState

/-!
# Loops over the pages of a range
-/

theorem rangeLoop_spec {loop : Nat -> Nat -> PmmState -> Option PmmState}
    {ok : Page -> Prop} {f : Nat -> Page -> Page}
    (hzero : forall p s, loop 0 p s = some s)
    (hsucc : forall k p s, ok (s.pages p) ->
      loop (k + 1) p s = loop k (p + 1) (s.modifyPage p (f p)))
    {k p : Nat} {s : PmmState} (hok : forall q, p ≤ q -> q < p + k -> ok (s.pages q)) :
    exists s', loop k p s = some s' ∧ s'.npage = s.npage ∧
      s'.links = s.links ∧ s'.nrFree = s.nrFree ∧
      forall q, s'.pages q = if p ≤ q ∧ q < p + k then f q (s.pages q) else s.pages q := by
  induction k generalizing p s with
  | zero =>
      refine ⟨s, hzero p s, rfl, rfl, rfl, ?_⟩
      intro q
      rw [if_neg (by lia)]
  | succ k ih =>
      have htail := @ih (p + 1) (s.modifyPage p (f p))
        (by
          intro q hq hqk
          rw [modifyPage_pages, if_neg (by lia)]
          exact hok q (by lia) (by lia))
      rcases htail with ⟨s', hrun, hnpage, hlinks, hnr, hpages⟩
      rw [← hsucc k p s (hok p (Nat.le_refl p) (by lia))] at hrun
      refine ⟨s', hrun, hnpage, hlinks, hnr, ?_⟩
      intro q
      rw [hpages q, modifyPage_pages]
      by_cases hqp : q = p
      · subst hqp
        rw [if_neg (by lia), if_pos rfl, if_pos (by lia)]
      · rw [if_neg hqp]
        by_cases hin : p + 1 ≤ q ∧ q < p + 1 + k
        · rw [if_pos hin, if_pos (by lia)]
        · rw [if_neg hin, if_neg (by lia)]

theorem freeResetLoop_spec {k p : Nat} {s : PmmState}
    (hclear : forall q, p ≤ q -> q < p + k ->
      (s.pages q).pageReserved = false ∧ (s.pages q).pageProperty = false) :
    exists s', freeResetLoop k p s = some s' ∧ s'.npage = s.npage ∧
      s'.links = s.links ∧ s'.nrFree = s.nrFree ∧
      forall q, s'.pages q =
        if p ≤ q ∧ q < p + k then { s.pages q with flags := 0#32, ref := 0 }
        else s.pages q := by
  apply @rangeLoop_spec freeResetLoop
    (fun page => page.pageReserved = false ∧ page.pageProperty = false)
    (fun _ page => { page with flags := 0#32, ref := 0 })
  · intro p s
    rfl
  · intro k p s hok
    rw [freeResetLoop, hok.left, hok.right]
    simp only [Bool.not_false, Bool.and_self, if_true, modifyPage_modifyPage]
  · exact hclear

def initialPage (base n p : Nat) : Page :=
  if p = base then Page.setPageProperty (Page.mk 0 0#32 n) else Page.mk 0 0#32 0

theorem initialPage_ref (base n p : Nat) : (initialPage base n p).ref = 0 := by
  unfold initialPage
  split
  · rfl
  · rfl

theorem initialPage_pageReserved (base n p : Nat) :
    (initialPage base n p).pageReserved = false := by
  unfold initialPage
  split
  · rw [Page.pageReserved_setPageProperty]
    simp [Page.pageReserved]
  · simp [Page.pageReserved]

theorem initialPage_pageProperty {base n p : Nat} :
    (initialPage base n p).pageProperty = true <-> p = base := by
  unfold initialPage
  split
  · rename_i h
    simp [h]
  · rename_i h
    simp [Page.pageProperty, h]

theorem initMemmapLoop_spec {base n k p : Nat} {s : PmmState}
    (hres : forall q, p ≤ q -> q < p + k -> (s.pages q).pageReserved = true) :
    exists s', initMemmapLoop base n k p s = some s' ∧ s'.npage = s.npage ∧
      s'.links = s.links ∧ s'.nrFree = s.nrFree ∧
      forall q, s'.pages q =
        if p ≤ q ∧ q < p + k then initialPage base n q else s.pages q := by
  apply @rangeLoop_spec (initMemmapLoop base n) (fun page => page.pageReserved = true)
    (fun q _ => initialPage base n q)
  · intro p s
    rfl
  · intro k p s hok
    rw [initMemmapLoop, if_pos hok]
    unfold initialPage
    by_cases hpb : p = base
    · simp only [if_pos hpb, modifyPage_modifyPage]
    · simp only [if_neg hpb, modifyPage_modifyPage]
  · exact hres

/-!
# The merging pass
-/

structure Merging (s : PmmState) (dom : Set Nat) (cur : Block) (bs : List Block) :
    Prop where
  ring : Ring s.links freeList (entries bs)
  property_eq : forall b, b ∈ cur :: bs -> s.property b.head = b.size
  flagged : forall p, p ∈ dom ->
    ((s.pages p).pageProperty = true <-> p ∈ (cur :: bs).map Block.head)
  unreserved : forall p, p ∈ dom -> (s.pages p).pageReserved = false
  free_ref : forall p, p ∈ cover (cur :: bs) -> (s.pages p).ref = 0
  bound : forall p, p ∈ dom -> p < s.npage
  separated : Separated (cur :: bs)
  cover_subset : cover (cur :: bs) ⊆ dom

theorem Merging.length_le {s : PmmState} {dom : Set Nat} {cur : Block}
    {bs : List Block} (h : Merging s dom cur bs) : bs.length ≤ s.npage := by
  have hle := length_le_of_bound h.separated h.cover_subset h.bound
  rw [List.length_cons] at hle
  lia

/-- The state after the listed block `b` and the current block have become one
block with head `keep`; the other head `drop` has lost its flag. -/
def absorbState (s : PmmState) (keep drop size : Nat) (b : Block) : PmmState :=
  let s := s.modifyPage keep fun page => { page with property := size }
  let s := s.modifyPage drop Page.clearPageProperty
  s.withLinks (listDel s.links (pageLink b.head))

theorem absorbState_pages (s : PmmState) {keep drop : Nat} (size : Nat) (b : Block)
    (hne : keep ≠ drop) (q : Nat) :
    (absorbState s keep drop size b).pages q =
      if q = keep then { s.pages q with property := size }
      else if q = drop then (s.pages q).clearPageProperty
      else s.pages q := by
  unfold absorbState
  by_cases hk : q = keep
  · subst hk
    simp [hne]
  · by_cases hd : q = drop
    · subst hd
      simp [hk]
    · simp [hk, hd]

theorem absorbState_ref (s : PmmState) {keep drop : Nat} (size : Nat) (b : Block)
    (hne : keep ≠ drop) (q : Nat) :
    ((absorbState s keep drop size b).pages q).ref = (s.pages q).ref := by
  rw [absorbState_pages s size b hne]
  split
  · rfl
  · split
    · rfl
    · rfl

theorem absorbState_pageReserved (s : PmmState) {keep drop : Nat} (size : Nat) (b : Block)
    (hne : keep ≠ drop) (q : Nat) :
    ((absorbState s keep drop size b).pages q).pageReserved = (s.pages q).pageReserved := by
  rw [absorbState_pages s size b hne]
  split
  · rfl
  · split
    · exact Page.pageReserved_clearPageProperty _
    · rfl

theorem absorbState_pageProperty (s : PmmState) {keep drop : Nat} (size : Nat) (b : Block)
    (hne : keep ≠ drop) (q : Nat) :
    ((absorbState s keep drop size b).pages q).pageProperty = true <->
      q ≠ drop ∧ (s.pages q).pageProperty = true := by
  rw [absorbState_pages s size b hne]
  by_cases hk : q = keep
  · rw [if_pos hk]
    have hd : q ≠ drop := hk ▸ hne
    exact ⟨fun hflag => ⟨hd, hflag⟩, fun hflag => hflag.right⟩
  · rw [if_neg hk]
    by_cases hd : q = drop
    · rw [if_pos hd, Page.pageProperty_clearPageProperty]
      exact ⟨fun hfalse => Bool.noConfusion hfalse, fun hflag => absurd hd hflag.left⟩
    · rw [if_neg hd]
      exact ⟨fun hflag => ⟨hd, hflag⟩, fun hflag => hflag.right⟩

section Absorb

variable {s : PmmState} {dom : Set Nat} {cur b : Block} {pre post : List Block}

theorem Merging.perm (h : Merging s dom cur (pre ++ b :: post)) :
    (cur :: (pre ++ b :: post)).Perm (cur :: b :: (pre ++ post)) ∧
      Separated (cur :: b :: (pre ++ post)) :=
  ⟨List.Perm.cons cur List.perm_middle,
    h.separated.perm (List.Perm.cons cur List.perm_middle)⟩

theorem Merging.heads_ne (h : Merging s dom cur (pre ++ b :: post)) :
    cur.head ≠ b.head ∧ cur.head ∉ (pre ++ post).map Block.head ∧
      b.head ∉ (pre ++ post).map Block.head := by
  have hnodup := h.perm.right.nodup_heads
  simp only [List.map_cons, List.nodup_cons, List.mem_cons, not_or] at hnodup
  rcases hnodup with ⟨⟨hcb, hcur⟩, hb, _⟩
  exact ⟨hcb, hcur, hb⟩

theorem Merging.flagged_iff (h : Merging s dom cur (pre ++ b :: post)) {p : Nat} (hp : p ∈ dom) :
    (s.pages p).pageProperty = true <->
      p = cur.head ∨ p = b.head ∨ p ∈ (pre ++ post).map Block.head := by
  rw [h.flagged p hp, (h.perm.left.map Block.head).mem_iff]
  simp only [List.map_cons, List.mem_cons]

theorem Merging.absorb {merged : Block} {drop : Nat}
    (h : Merging s dom cur (pre ++ b :: post))
    (hends : (merged.head = cur.head ∧ drop = b.head) ∨
      (merged.head = b.head ∧ drop = cur.head))
    (hsep : Separated (merged :: (pre ++ post)))
    (hcover : cover (merged :: (pre ++ post)) = cover (cur :: (pre ++ b :: post))) :
    Merging (absorbState s merged.head drop merged.size b) dom merged
      (pre ++ post) := by
  rcases h.heads_ne with ⟨hcb, hcur, hb⟩
  have hne : merged.head ≠ drop := by
    cases hends with
    | inl hup => exact hup.left ▸ hup.right ▸ hcb
    | inr hdown => exact hdown.left ▸ hdown.right ▸ hcb.symm
  have hkept : merged.head ∉ (pre ++ post).map Block.head ∧
      drop ∉ (pre ++ post).map Block.head := by
    cases hends with
    | inl hup => exact ⟨hup.left ▸ hcur, hup.right ▸ hb⟩
    | inr hdown => exact ⟨hdown.left ▸ hb, hdown.right ▸ hcur⟩
  constructor
  · have hring : Ring s.links freeList
        (entries pre ++ pageLink b.head :: entries post) := by
      simpa using h.ring
    have hdel := ring_listDel hring
    rw [entries_append]
    exact hdel
  · intro c hc
    unfold PmmState.property
    rw [absorbState_pages s merged.size b hne]
    rcases List.mem_cons.mp hc with hcm | hckept
    · rw [hcm, if_pos rfl]
    · have hmem : c.head ∈ (pre ++ post).map Block.head := List.mem_map_of_mem hckept
      have hk : c.head ≠ merged.head := fun heq => hkept.left (heq ▸ hmem)
      have hd : c.head ≠ drop := fun heq => hkept.right (heq ▸ hmem)
      rw [if_neg hk, if_neg hd]
      apply h.property_eq c
      rw [h.perm.left.mem_iff]
      simp [hckept]
  · intro p hp
    have hold : (s.pages p).pageProperty = true <->
        p = merged.head ∨ p = drop ∨ p ∈ (pre ++ post).map Block.head := by
      rw [h.flagged_iff hp]
      cases hends with
      | inl hup => rw [hup.left, hup.right]
      | inr hdown =>
          rw [hdown.left, hdown.right]
          exact or_left_comm
    rw [absorbState_pageProperty s merged.size b hne, hold, List.map_cons, List.mem_cons]
    constructor
    · rintro ⟨hd, hk | hd' | hmem⟩
      · exact Or.inl hk
      · exact absurd hd' hd
      · exact Or.inr hmem
    · rintro (hk | hmem)
      · exact ⟨hk ▸ hne, Or.inl hk⟩
      · exact ⟨fun hd => hkept.right (hd ▸ hmem), Or.inr (Or.inr hmem)⟩
  · intro p hp
    rw [absorbState_pageReserved s merged.size b hne]
    exact h.unreserved p hp
  · intro p hp
    rw [hcover] at hp
    rw [absorbState_ref s merged.size b hne]
    exact h.free_ref p hp
  · exact h.bound
  · exact hsep
  · rw [hcover]
    exact h.cover_subset

theorem Merging.absorb_up (h : Merging s dom cur (pre ++ b :: post)) (hup : cur.stop = b.head) :
    Merging (absorbState s cur.head b.head (cur.size + b.size) b) dom (cur.join b)
      (pre ++ post) := by
  apply @Merging.absorb s dom cur b pre post (cur.join b) b.head h (Or.inl ⟨rfl, rfl⟩)
    (h.perm.right.join hup)
  rw [cover_perm h.perm.left, cover_cons, cover_cons, cover_cons, join_span hup, Set.union_assoc]

theorem Merging.absorb_down (h : Merging s dom cur (pre ++ b :: post))
    (hdown : b.stop = cur.head) :
    Merging (absorbState s b.head cur.head (b.size + cur.size) b) dom (b.join cur)
      (pre ++ post) := by
  have hswap : Separated (b :: cur :: (pre ++ post)) := h.perm.right.perm (List.Perm.swap _ _ _)
  apply @Merging.absorb s dom cur b pre post (b.join cur) cur.head h (Or.inr ⟨rfl, rfl⟩)
    (hswap.join hdown)
  rw [cover_perm h.perm.left, cover_cons, cover_cons, cover_cons, join_span hdown,
    Set.union_assoc, Set.union_left_comm]

end Absorb

/-- The merging pass ends and merges as `mergePass` does. -/
theorem mergeLoop_spec {s : PmmState} {dom : Set Nat} {cur : Block}
    {pre todo : List Block} {fuel : Nat} {le : ListEntryPtr}
    (h : Merging s dom cur (pre ++ todo)) (hfuel : todo.length < fuel)
    (hle : s.links.next le = firstTo (entries todo) freeList) :
    exists s', mergeLoop fuel s cur.head le = some (s', (mergePass cur todo).fst.head) ∧
      Merging s' dom (mergePass cur todo).fst (pre ++ (mergePass cur todo).snd) ∧
      s'.npage = s.npage ∧ s'.nrFree = s.nrFree ∧
      forall q, (s'.pages q).ref = (s.pages q).ref := by
  induction todo generalizing s cur pre fuel le with
  | nil =>
      cases fuel with
      | zero => cases hfuel
      | succ fuel =>
          unfold mergeLoop listNext
          rw [hle]
          exact ⟨s, rfl, h, rfl, rfl, fun _ => rfl⟩
  | cons b todo ih =>
      cases fuel with
      | zero => cases hfuel
      | succ fuel =>
          have hfuel' : todo.length < fuel := Nat.lt_of_succ_lt_succ hfuel
          have hring : Ring s.links freeList
              (entries pre ++ pageLink b.head :: entries todo) := by
            simpa using h.ring
          have hcurProp : s.property cur.head = cur.size :=
            h.property_eq cur (by simp)
          have hbProp : s.property b.head = b.size := h.property_eq b (by simp)
          have hne : cur.head ≠ b.head := h.heads_ne.left
          unfold mergeLoop listNext
          rw [hle, entries_cons, firstTo_cons]
          simp only [hcurProp, hbProp]
          unfold mergePass
          by_cases hup : cur.stop = b.head
          · have hup' : cur.head + cur.size = b.head := hup
            rw [if_pos hup', if_pos hup]
            rcases ih (h.absorb_up hup) hfuel' (listDel_next_self hring) with
              ⟨s', hrun, hmerging, hnpage, hnr, href⟩
            refine ⟨s', hrun, hmerging, hnpage, hnr, ?_⟩
            intro q
            rw [href, absorbState_ref s _ b hne]
          · have hup' : ¬ cur.head + cur.size = b.head := hup
            rw [if_neg hup', if_neg hup]
            by_cases hdown : b.stop = cur.head
            · have hdown' : b.head + b.size = cur.head := hdown
              rw [if_pos hdown', if_pos hdown]
              rcases ih (h.absorb_down hdown) hfuel' (listDel_next_self hring) with
                ⟨s', hrun, hmerging, hnpage, hnr, href⟩
              refine ⟨s', hrun, hmerging, hnpage, hnr, ?_⟩
              intro q
              rw [href, absorbState_ref s _ b hne.symm]
            · have hdown' : ¬ b.head + b.size = cur.head := hdown
              rw [if_neg hdown', if_neg hdown]
              have hshift : Merging s dom cur ((pre ++ [b]) ++ todo) := by
                simpa using h
              rcases ih hshift hfuel' hring.next_node with
                ⟨s', hrun, hmerging, hnpage, hnr, href⟩
              refine ⟨s', hrun, ?_, hnpage, hnr, href⟩
              simpa using hmerging

/-!
# Linking the merged block back in
-/

theorem findPlace_spec {s : PmmState} {c : Block} {pre post : List Block} {fuel : Nat}
    (hr : Ring s.links freeList (entries (pre ++ post)))
    (hprop : s.property c.head = c.size) (hfuel : post.length < fuel) :
    exists mid rest, post = mid ++ rest ∧ insertBlock c post = mid ++ c :: rest ∧
      findPlace s c.head fuel (lastFrom freeList (entries pre)) =
        some (firstTo (entries rest) freeList) := by
  induction post generalizing pre fuel with
  | nil =>
      cases fuel with
      | zero => cases hfuel
      | succ fuel =>
          rw [entries_append] at hr
          unfold findPlace listNext
          rw [hr.next_lastFrom]
          exact ⟨[], [], rfl, rfl, rfl⟩
  | cons b post ih =>
      cases fuel with
      | zero => cases hfuel
      | succ fuel =>
          have hnext := hr
          rw [entries_append] at hnext
          unfold findPlace listNext insertBlock
          rw [hnext.next_lastFrom, entries_cons, firstTo_cons]
          simp only [hprop]
          by_cases hle : c.stop ≤ b.head
          · have hle' : c.head + c.size ≤ b.head := hle
            rw [if_pos hle', if_pos hle]
            exact ⟨[], b :: post, rfl, rfl, rfl⟩
          · have hle' : ¬ c.head + c.size ≤ b.head := hle
            rw [if_neg hle', if_neg hle]
            have hshift : Ring s.links freeList (entries ((pre ++ [b]) ++ post)) := by
              simpa using hr
            have hrest := ih hshift (Nat.lt_of_succ_lt_succ hfuel)
            rw [entries_append, entries_cons, entries_nil, lastFrom_snoc] at hrest
            rcases hrest with ⟨mid, rest, hsplit, hinsert, hfind⟩
            refine ⟨b :: mid, rest, ?_, ?_, hfind⟩
            · rw [hsplit]
              rfl
            · rw [hinsert]
              rfl

theorem Merging.finish {s : PmmState} {dom : Set Nat} {c : Block}
    {mid rest : List Block} (h : Merging s dom c (mid ++ rest)) {n : Nat}
    (hsum : s.nrFree + n = ((c :: (mid ++ rest)).map Block.size).sum) :
    Represents
      (({ s with nrFree := s.nrFree + n } : PmmState).withLinks
        (listAddBefore s.links (firstTo (entries rest) freeList) (pageLink c.head)))
      dom (mid ++ c :: rest) := by
  have hperm : (mid ++ c :: rest).Perm (c :: (mid ++ rest)) := List.perm_middle
  have hfresh : pageLink c.head ∉ freeList :: (entries mid ++ entries rest) := by
    rw [← entries_append, List.mem_cons, pageLink_mem_entries]
    intro hmem
    cases hmem with
    | inl hfree => cases hfree
    | inr hhead => exact (List.nodup_cons.mp h.separated.nodup_heads).left hhead
  have hring : Ring s.links freeList (entries mid ++ entries rest) := by
    simpa using h.ring
  constructor
  · have hadd := ring_listAddBefore hring hfresh
    simpa using hadd
  · intro b hb
    exact h.property_eq b (hperm.mem_iff.mp hb)
  · rw [(hperm.map Block.size).sum_nat]
    exact hsum
  · intro p hp
    rw [(hperm.map Block.head).mem_iff]
    exact h.flagged p hp
  · exact h.unreserved
  · intro p hp
    rw [cover_perm hperm] at hp
    exact h.free_ref p hp
  · exact h.bound
  · exact h.separated.perm hperm.symm
  · rw [cover_perm hperm]
    exact h.cover_subset

theorem freeReset_merging {s s' : PmmState} {dom : Set Nat} {bs : List Block}
    (h : Represents s dom bs) {base n : Nat} (hn : 0 < n)
    (hdom : (Block.mk base n).span ⊆ dom)
    (hout : Disjoint (Block.mk base n).span (cover bs))
    (hnpage : s'.npage = s.npage) (hlinks : s'.links = s.links)
    (hpages : forall q, s'.pages q =
      if base ≤ q ∧ q < base + n then { s.pages q with flags := 0#32, ref := 0 }
      else s.pages q) :
    Merging
      ((s'.modifyPage base fun page => { page with property := n }).modifyPage base
        Page.setPageProperty)
      dom (Block.mk base n) bs := by
  have hsep : Separated (Block.mk base n :: bs) := h.separated.cons_of_disjoint hn hout
  have hnotin : forall b, b ∈ bs -> ¬ (base ≤ b.head ∧ b.head < base + n) := by
    intro b hb hrange
    exact Set.disjoint_left.mp hout hrange (h.head_mem hb)
  -- The pages afterwards: the head of the block, the pages behind it, and the others.
  generalize hfinal : ((s'.modifyPage base fun page => { page with property := n }).modifyPage
    base Page.setPageProperty) = t
  have hhead : t.pages base =
      { s.pages base with flags := 0#32, ref := 0, property := n }.setPageProperty := by
    rw [← hfinal, modifyPage_pages, if_pos rfl, modifyPage_pages, if_pos rfl, hpages,
      if_pos (by lia)]
  have hbehind : forall q, q ≠ base -> base ≤ q ∧ q < base + n ->
      t.pages q = { s.pages q with flags := 0#32, ref := 0 } := by
    intro q hq hin
    rw [← hfinal, modifyPage_pages, if_neg hq, modifyPage_pages, if_neg hq, hpages, if_pos hin]
  have hother : forall q, ¬ (base ≤ q ∧ q < base + n) -> t.pages q = s.pages q := by
    intro q hq
    have hqb : q ≠ base := by lia
    rw [← hfinal, modifyPage_pages, if_neg hqb, modifyPage_pages, if_neg hqb, hpages, if_neg hq]
  constructor
  · rw [← hfinal]
    change Ring s'.links freeList (entries bs)
    rw [hlinks]
    exact h.ring
  · intro b hb
    unfold PmmState.property
    rcases List.mem_cons.mp hb with hnew | hold
    · rw [hnew, hhead]
      rfl
    · rw [hother b.head (hnotin b hold)]
      exact h.property_eq b hold
  · intro p hp
    rw [List.map_cons, List.mem_cons]
    by_cases hpb : p = base
    · rw [hpb, hhead, Page.pageProperty_setPageProperty]
      exact ⟨fun _ => Or.inl rfl, fun _ => rfl⟩
    · by_cases hin : base ≤ p ∧ p < base + n
      · rw [hbehind p hpb hin]
        constructor
        · intro hflag
          simp [Page.pageProperty] at hflag
        · intro hmem
          rcases List.mem_map.mp (hmem.resolve_left hpb) with ⟨b, hb, hbp⟩
          rw [← hbp] at hin
          exact absurd hin (hnotin b hb)
      · rw [hother p hin, h.flagged p hp]
        exact ⟨Or.inr, fun hmem => hmem.resolve_left hpb⟩
  · intro p hp
    by_cases hpb : p = base
    · rw [hpb, hhead, Page.pageReserved_setPageProperty]
      simp [Page.pageReserved]
    · by_cases hin : base ≤ p ∧ p < base + n
      · rw [hbehind p hpb hin]
        simp [Page.pageReserved]
      · rw [hother p hin]
        exact h.unreserved p hp
  · intro p hp
    rw [cover_cons] at hp
    by_cases hpb : p = base
    · rw [hpb, hhead, Page.setPageProperty_ref]
    · by_cases hin : base ≤ p ∧ p < base + n
      · rw [hbehind p hpb hin]
      · rw [hother p hin]
        exact h.free_ref p (hp.resolve_left hin)
  · intro p hp
    rw [← hfinal]
    change p < s'.npage
    rw [hnpage]
    exact h.bound p hp
  · exact hsep
  · rw [cover_cons]
    exact Set.union_subset hdom h.cover_subset

/-- `default_free_pages` of allocated pages returns, and releases as first fit
does. -/
theorem defaultFreePages_spec {s : PmmState} {dom : Set Nat} {bs : List Block}
    (h : Represents s dom bs) {base n : Nat} (hn : 0 < n)
    (hdom : (Block.mk base n).span ⊆ dom)
    (hout : Disjoint (Block.mk base n).span (cover bs)) :
    exists s', defaultFreePages s base n = some s' ∧
      Represents s' dom (releaseBlock (Block.mk base n) bs) ∧
      s'.npage = s.npage ∧
      forall q, (s'.pages q).ref =
        if base ≤ q ∧ q < base + n then 0 else (s.pages q).ref := by
  have hclear : forall q, base ≤ q -> q < base + n ->
      (s.pages q).pageReserved = false ∧ (s.pages q).pageProperty = false := by
    intro q hq hqn
    have hqdom : q ∈ dom := hdom ⟨hq, hqn⟩
    refine ⟨h.unreserved q hqdom, ?_⟩
    rw [Bool.eq_false_iff]
    intro hflag
    rcases List.mem_map.mp ((h.flagged q hqdom).mp hflag) with ⟨b, hb, hbq⟩
    have hcov : q ∈ cover bs := by
      rw [← hbq]
      exact h.head_mem hb
    exact Set.disjoint_left.mp hout ⟨hq, hqn⟩ hcov
  rcases freeResetLoop_spec hclear with ⟨s1, hreset, hnpage, hlinks, hnr, hpages⟩
  have hstart := freeReset_merging h hn hdom hout hnpage hlinks hpages
  have hstart' : Merging
      ((s1.modifyPage base fun page => { page with property := n }).modifyPage base
        Page.setPageProperty)
      dom (Block.mk base n) ([] ++ bs) := hstart
  have hnext : ((s1.modifyPage base fun page =>
      { page with property := n }).modifyPage base
        Page.setPageProperty).links.next freeList = firstTo (entries bs) freeList :=
    hstart.ring.next_header
  rcases mergeLoop_spec hstart' (Nat.lt_succ_of_le hstart.length_le) hnext with
    ⟨s2, hmerge, hmerging, hnpage2, hnr2, href2⟩
  rw [List.nil_append] at hmerging
  have hring : Ring s2.links freeList
      (entries ([] ++ (mergePass (Block.mk base n) bs).snd)) := hmerging.ring
  have hprop : s2.property (mergePass (Block.mk base n) bs).fst.head =
      (mergePass (Block.mk base n) bs).fst.size :=
    hmerging.property_eq _ (List.mem_cons_self)
  rcases findPlace_spec hring hprop (Nat.lt_succ_of_le hmerging.length_le) with
    ⟨mid, rest, hsplit, hinsert, hplace⟩
  rw [entries_nil, lastFrom_nil] at hplace
  exists ({ s2 with nrFree := s2.nrFree + n } : PmmState).withLinks
    (listAddBefore s2.links (firstTo (entries rest) freeList)
      (pageLink (mergePass (Block.mk base n) bs).fst.head))
  refine ⟨?_, ?_, ?_, ?_⟩
  · unfold defaultFreePages
    rw [if_pos hn, hreset]
    simp only [hmerge, hplace]
  · have hsum := mergePass_sum (Block.mk base n) bs
    rw [hsplit] at hmerging hsum
    unfold releaseBlock
    rw [hinsert]
    apply hmerging.finish
    rw [hsum, hnr2, modifyPage_nrFree, modifyPage_nrFree, hnr, h.nrFree_eq,
      List.map_cons, List.sum_cons, Nat.add_comm]
  · change s2.npage = s.npage
    rw [hnpage2]
    exact hnpage
  · intro q
    change (s2.pages q).ref = _
    have hreset_ref : (s1.pages q).ref =
        if base ≤ q ∧ q < base + n then 0 else (s.pages q).ref := by
      rw [hpages]
      split
      · rfl
      · rfl
    rw [href2, ← hreset_ref]
    by_cases hq : q = base
    · simp [hq]
    · simp [hq]

/-!
# Initialising a range
-/

theorem defaultInit_represents (s : PmmState) : Represents (defaultInit s) ∅ [] where
  ring := ring_listInit s.links freeList
  property_eq := by simp
  nrFree_eq := rfl
  flagged := by simp
  unreserved := by simp
  free_ref := by simp
  bound := by simp
  separated := separated_nil
  cover_subset := by simp

theorem initMemmap_represents {s s' : PmmState} {dom : Set Nat} {bs : List Block}
    (h : Represents s dom bs) {base n : Nat} (hn : 0 < n)
    (hnew : Disjoint (Block.mk base n).span dom) (hbound : base + n ≤ s.npage)
    (hnpage : s'.npage = s.npage) (hlinks : s'.links = s.links) (hnr : s'.nrFree = s.nrFree)
    (hpages : forall q, s'.pages q =
      if base ≤ q ∧ q < base + n then initialPage base n q else s.pages q) :
    Represents
      { s'.withLinks (listAddBefore s'.links freeList (pageLink base)) with
        nrFree := s'.nrFree + n }
      (dom ∪ (Block.mk base n).span) (bs ++ [Block.mk base n]) := by
  have hinside : forall q, q ∈ dom ∪ (Block.mk base n).span ->
      ¬ (base ≤ q ∧ q < base + n) -> q ∈ dom := by
    intro q hq hin
    exact hq.resolve_right hin
  have hheads : forall b, b ∈ bs -> ¬ (base ≤ b.head ∧ b.head < base + n) := by
    intro b hb hrange
    exact Set.disjoint_left.mp hnew hrange (h.cover_subset (h.head_mem hb))
  have hnotHead : forall p, base ≤ p ∧ p < base + n -> p ∉ bs.map Block.head := by
    intro p hin hmem
    rcases List.mem_map.mp hmem with ⟨b, hb, hbp⟩
    exact hheads b hb (hbp ▸ hin)
  have hsep : Separated (Block.mk base n :: bs) :=
    h.separated.cons_of_disjoint hn (hnew.mono_right h.cover_subset)
  constructor
  · have hfresh : pageLink base ∉ freeList :: (entries bs ++ []) := by
      rw [List.append_nil, List.mem_cons, pageLink_mem_entries]
      rintro (hfree | hhead)
      · cases hfree
      · exact hnotHead base (by lia) hhead
    have hring : Ring s'.links freeList (entries bs ++ []) := by
      rw [hlinks, List.append_nil]
      exact h.ring
    have hadd := ring_listAddBefore hring hfresh
    rw [firstTo_nil] at hadd
    rw [entries_append]
    exact hadd
  · intro b hb
    change (s'.pages b.head).property = b.size
    rw [hpages]
    rcases List.mem_append.mp hb with hold | hlast
    · rw [if_neg (hheads b hold)]
      exact h.property_eq b hold
    · rw [List.mem_singleton.mp hlast, if_pos ⟨Nat.le_refl base, by simp only; lia⟩]
      unfold initialPage
      rw [if_pos rfl]
      rfl
  · change s'.nrFree + n = _
    rw [hnr, h.nrFree_eq, List.map_append, List.sum_append]
    rfl
  · intro p hp
    change (s'.pages p).pageProperty = true <-> _
    rw [hpages, List.map_append, List.mem_append, List.map_cons, List.map_nil,
      List.mem_singleton]
    by_cases hin : base ≤ p ∧ p < base + n
    · rw [if_pos hin, initialPage_pageProperty]
      exact ⟨Or.inr, fun hmem => hmem.resolve_left (hnotHead p hin)⟩
    · have hpb : p ≠ base := by lia
      rw [if_neg hin, h.flagged p (hinside p hp hin)]
      exact ⟨Or.inl, fun hmem => hmem.resolve_right hpb⟩
  · intro p hp
    change (s'.pages p).pageReserved = false
    rw [hpages]
    split
    · exact initialPage_pageReserved base n p
    · rename_i hin
      exact h.unreserved p (hinside p hp hin)
  · intro p hp
    change (s'.pages p).ref = 0
    rw [hpages]
    split
    · exact initialPage_ref base n p
    · rename_i hin
      rw [cover_append, cover_cons, cover_nil, Set.union_empty] at hp
      exact h.free_ref p (hp.resolve_right hin)
  · intro p hp
    change p < s'.npage
    rw [hnpage]
    cases hp with
    | inl hold => exact h.bound p hold
    | inr hspan => exact Nat.lt_of_lt_of_le hspan.right hbound
  · exact hsep.perm (List.perm_append_singleton _ _).symm
  · rw [cover_append, cover_cons, cover_nil, Set.union_empty]
    exact Set.union_subset_union_left _ h.cover_subset

/-- `default_init_memmap` of reserved pages appends them as one block. -/
theorem defaultInitMemmap_spec {s : PmmState} {dom : Set Nat} {bs : List Block}
    (h : Represents s dom bs) {base n : Nat} (hn : 0 < n)
    (hres : forall q, base ≤ q -> q < base + n -> (s.pages q).pageReserved = true)
    (hbound : base + n ≤ s.npage) :
    exists s', defaultInitMemmap s base n = some s' ∧
      Represents s' (dom ∪ (Block.mk base n).span) (bs ++ [Block.mk base n]) ∧
      s'.npage = s.npage ∧
      forall q, q < base ∨ base + n ≤ q -> s'.pages q = s.pages q := by
  have hnew : Disjoint (Block.mk base n).span dom := by
    rw [Set.disjoint_left]
    intro q hq hmem
    have hcontra := h.unreserved q hmem
    rw [hres q hq.left hq.right] at hcontra
    cases hcontra
  rcases @initMemmapLoop_spec base n n base s hres with
    ⟨s1, hloop, hnpage, hlinks, hnr, hpages⟩
  exists { s1.withLinks (listAddBefore s1.links freeList (pageLink base)) with
    nrFree := s1.nrFree + n }
  refine ⟨?_, initMemmap_represents h hn hnew hbound hnpage hlinks hnr hpages, hnpage, ?_⟩
  · unfold defaultInitMemmap
    rw [if_pos hn, hloop]
    rfl
  · intro q hq
    change s1.pages q = s.pages q
    rw [hpages, if_neg (by lia)]

end Memory
end OsLabs
