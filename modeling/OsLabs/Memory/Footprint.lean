import OsLabs.Memory.PmmRelease

/-!
# What the allocator touches

Both operations write to the header of the free list, and apart from it to pages only that are
free or are being returned.  So a part of the memory can be described without the rest, and
the free list can be put aside while other pages are used under the same header.
-/

namespace OsLabs
namespace Memory

open Foundation
open Foundation.Block
open Foundation.Links
open ListEntryPtr
open PmmState

/-!
# Links
-/

def InFootprint (F : Set Nat) : ListEntryPtr -> Prop
  | freeList => True
  | pageLink p => p ∈ F

def SameLinks (F : Set Nat) (L L' : ListLinks) : Prop :=
  forall e, ¬ InFootprint F e -> L'.next e = L.next e ∧ L'.prev e = L.prev e

section Links

variable {F : Set Nat} {L L' L'' : ListLinks} {elm prev next : ListEntryPtr}

theorem inFootprint_freeList (F : Set Nat) : InFootprint F freeList := trivial

theorem SameLinks.refl (F : Set Nat) (L : ListLinks) : SameLinks F L L :=
  fun _ _ => ⟨rfl, rfl⟩

theorem SameLinks.trans (h : SameLinks F L L') (h' : SameLinks F L' L'') : SameLinks F L L'' := by
  intro e he
  rcases h e he with ⟨hnext, hprev⟩
  rcases h' e he with ⟨hnext', hprev'⟩
  exact ⟨hnext'.trans hnext, hprev'.trans hprev⟩

theorem InFootprint.ne {e : ListEntryPtr} (h : InFootprint F elm) (he : ¬ InFootprint F e) :
    e ≠ elm := by
  intro heq
  rw [heq] at he
  exact he h

theorem sameLinks_setNext (h : InFootprint F elm) (v : ListEntryPtr) :
    SameLinks F L (L.setNext elm v) := by
  intro e he
  rw [setNext_next, if_neg (h.ne he)]
  exact ⟨rfl, rfl⟩

theorem sameLinks_setPrev (h : InFootprint F elm) (v : ListEntryPtr) :
    SameLinks F L (L.setPrev elm v) := by
  intro e he
  rw [setPrev_prev, if_neg (h.ne he)]
  exact ⟨rfl, rfl⟩

theorem sameLinks_listInit (L : ListLinks) : SameLinks F L (listInit L freeList) :=
  (sameLinks_setNext (inFootprint_freeList F) _).trans
    (sameLinks_setPrev (inFootprint_freeList F) _)

theorem sameLinks_listAddBetween (helm : InFootprint F elm) (hprev : InFootprint F prev)
    (hnext : InFootprint F next) : SameLinks F L (listAddBetween L elm prev next) :=
  (((sameLinks_setPrev hnext _).trans (sameLinks_setNext hprev _)).trans
    (sameLinks_setNext helm _)).trans (sameLinks_setPrev helm _)

theorem sameLinks_listDelBetween (hprev : InFootprint F prev) (hnext : InFootprint F next) :
    SameLinks F L (listDelBetween L prev next) :=
  (sameLinks_setNext hprev _).trans (sameLinks_setPrev hnext _)

theorem ring_inFootprint {bs : List Block} (hsub : forall b, b ∈ bs -> b.head ∈ F)
    {e : ListEntryPtr} (he : e ∈ freeList :: entries bs) : InFootprint F e := by
  rcases List.mem_cons.mp he with heq | hmem
  · rw [heq]
    exact inFootprint_freeList F
  · rcases List.mem_map.mp hmem with ⟨b, hb, hbe⟩
    rw [← hbe]
    exact hsub b hb

theorem ring_neighbours {bs : List Block} (hr : Ring L freeList (entries bs))
    (hsub : forall b, b ∈ bs -> b.head ∈ F) {e : ListEntryPtr} (he : e ∈ freeList :: entries bs) :
    InFootprint F (L.next e) ∧ InFootprint F (L.prev e) := by
  have hall := fun e => @ring_inFootprint F bs hsub e
  rcases List.mem_cons.mp he with heq | hmem
  · rw [heq, hr.next_header, hr.prev_header]
    exact ⟨hall _ (firstTo_mem _ _), hall _ (lastFrom_mem _ _)⟩
  · rcases List.append_of_mem hmem with ⟨pre, post, hsplit⟩
    rw [hsplit] at hr hall
    rw [hr.next_node, hr.prev_node]
    constructor
    · apply hall
      rcases List.mem_cons.mp (firstTo_mem post freeList) with hhead | hin
      · rw [hhead]
        exact List.mem_cons_self
      · exact List.mem_cons_of_mem _ (List.mem_append_right pre (List.mem_cons_of_mem _ hin))
    · apply hall
      rcases List.mem_cons.mp (lastFrom_mem freeList pre) with hhead | hin
      · rw [hhead]
        exact List.mem_cons_self
      · exact List.mem_cons_of_mem _ (List.mem_append_left _ hin)

theorem sameLinks_listDel {bs : List Block} (hr : Ring L freeList (entries bs))
    (hsub : forall b, b ∈ bs -> b.head ∈ F) (he : elm ∈ freeList :: entries bs) :
    SameLinks F L (listDel L elm) := by
  rcases ring_neighbours hr hsub he with ⟨hnext, hprev⟩
  exact sameLinks_listDelBetween hprev hnext

theorem sameLinks_listAdd {bs : List Block} (hr : Ring L freeList (entries bs))
    (hsub : forall b, b ∈ bs -> b.head ∈ F) (helm : InFootprint F elm) :
    SameLinks F L (listAdd L freeList elm) :=
  sameLinks_listAddBetween helm (inFootprint_freeList F) (ring_neighbours hr hsub List.mem_cons_self).left

theorem sameLinks_listAddBefore {bs : List Block} (hr : Ring L freeList (entries bs))
    (hsub : forall b, b ∈ bs -> b.head ∈ F) (helm : InFootprint F elm) {le : ListEntryPtr}
    (hle : le ∈ freeList :: entries bs) (hle' : InFootprint F le) :
    SameLinks F L (listAddBefore L le elm) :=
  sameLinks_listAddBetween helm (ring_neighbours hr hsub hle).right hle'

theorem ring_frame {bs : List Block} (hr : Ring L freeList (entries bs))
    (hnext : forall e, e ∈ freeList :: entries bs -> L'.next e = L.next e)
    (hprev : forall e, e ∈ freeList :: entries bs -> L'.prev e = L.prev e) :
    Ring L' freeList (entries bs) where
  nodup := hr.nodup
  chain := by
    apply chain_congr hr.chain
    · intro e he
      rw [List.dropLast_concat] at he
      exact hnext e he
    · intro e he
      apply hprev
      rcases List.mem_append.mp he with hin | hend
      · exact List.mem_cons_of_mem _ hin
      · rw [List.mem_singleton.mp hend]
        exact List.mem_cons_self

end Links

/-!
# States
-/

structure SameOutside (F : Set Nat) (s s' : PmmState) : Prop where
  npage : s'.npage = s.npage
  pages : forall q, q ∉ F -> s'.pages q = s.pages q
  links : SameLinks F s.links s'.links

section States

variable {F G : Set Nat} {s s' s'' : PmmState} {dom : Set Nat} {bs bs' pre post : List Block}
variable {cur b : Block} {n : Nat}

theorem SameOutside.refl (F : Set Nat) (s : PmmState) : SameOutside F s s where
  npage := rfl
  pages _ _ := rfl
  links := SameLinks.refl F s.links

theorem SameOutside.trans (h : SameOutside F s s') (h' : SameOutside F s' s'') :
    SameOutside F s s'' where
  npage := h'.npage.trans h.npage
  pages q hq := (h'.pages q hq).trans (h.pages q hq)
  links := h.links.trans h'.links

theorem SameOutside.mono (h : SameOutside F s s') (hsub : F ⊆ G) : SameOutside G s s' where
  npage := h.npage
  pages q hq := h.pages q fun hin => hq (hsub hin)
  links := by
    intro e he
    apply h.links
    intro hin
    apply he
    cases e with
    | freeList => trivial
    | pageLink p => exact hsub hin

theorem sameOutside_modifyPage (s : PmmState) {p : Nat} (hp : p ∈ F) (f : Page -> Page) :
    SameOutside F s (s.modifyPage p f) where
  npage := rfl
  pages q hq := by
    rw [modifyPage_pages, if_neg]
    intro heq
    rw [heq] at hq
    exact hq hp
  links := SameLinks.refl F s.links

theorem sameOutside_withLinks {links : ListLinks} (h : SameLinks F s.links links) :
    SameOutside F s (s.withLinks links) where
  npage := rfl
  pages _ _ := rfl
  links := h

theorem sameOutside_nrFree (s : PmmState) (k : Nat) : SameOutside F s { s with nrFree := k } where
  npage := rfl
  pages _ _ := rfl
  links := SameLinks.refl F s.links

theorem Represents.heads_subset (h : Represents s dom bs) : forall b, b ∈ bs -> b.head ∈ dom :=
  fun _ hb => h.cover_subset (h.head_mem hb)

theorem takePages_sameOutside (h : Represents s dom (pre ++ b :: post)) (hn : 0 < n)
    (hfit : n ≤ b.size) : SameOutside dom s (takePages s b.head n) := by
  have hprop : s.property b.head = b.size := h.property_eq b (by simp)
  have hhead : b.head ∈ dom := h.heads_subset b (by simp)
  have hring : Ring s.links freeList (entries pre ++ pageLink b.head :: entries post) := by
    simpa using h.ring
  have hdel := ring_listDel hring
  rw [← entries_append] at hdel
  have hsub : forall c, c ∈ pre ++ post -> c.head ∈ dom := by
    intro c hc
    apply h.heads_subset
    rw [List.perm_middle.mem_iff]
    exact List.mem_cons_of_mem b hc
  have hcut : n < b.size -> b.head + n ∈ dom := by
    intro hlt
    apply h.cover_subset
    refine ⟨b, by simp, ?_⟩
    rw [mem_span, stop_eq]
    lia
  have hunlinked : SameLinks dom s.links (listDel s.links (pageLink b.head)) :=
    sameLinks_listDel h.ring h.heads_subset (by simp)
  constructor
  · exact takePages_npage s b.head n
  · intro q hq
    have hne : q ≠ b.head := fun heq => hq (heq ▸ hhead)
    rw [takePages_pages s b.head n q hn, if_neg hne, hprop, if_neg]
    intro hrest
    rw [hrest.right] at hq
    exact hq (hcut hrest.left)
  · rw [takePages_links, hprop]
    split
    · rename_i hlt
      exact hunlinked.trans (sameLinks_listAdd hdel hsub (hcut hlt))
    · exact hunlinked

theorem alloc_sameOutside (h : Represents s dom bs) {r : Option Nat}
    (hrun : defaultAllocPages s n = some (s', r)) : SameOutside dom s s' := by
  unfold defaultAllocPages at hrun
  split at hrun
  · rename_i hn
    split at hrun
    · cases hrun
      exact SameOutside.refl dom s
    · have hring : Ring s.links freeList (entries ([] ++ bs)) := h.ring
      cases findFit_spec hring h.property_eq (Nat.lt_succ_of_le h.length_le) with
      | inl hnone =>
          rw [entries_nil, lastFrom_nil] at hnone
          rw [hnone.left] at hrun
          cases hrun
          exact SameOutside.refl dom s
      | inr hsome =>
          rcases hsome with ⟨pre, b, post, hsplit, hfit, _, hfind⟩
          rw [entries_nil, lastFrom_nil] at hfind
          rw [hfind] at hrun
          cases hrun
          subst hsplit
          exact takePages_sameOutside h hn hfit
  · cases hrun

theorem Merging.heads_subset (h : Merging s dom cur bs) :
    cur.head ∈ dom ∧ forall b, b ∈ bs -> b.head ∈ dom := by
  have hall : forall b, b ∈ cur :: bs -> b.head ∈ dom :=
    fun b hb => h.cover_subset ⟨b, hb, h.separated.head_mem_span hb⟩
  exact ⟨hall cur List.mem_cons_self, fun b hb => hall b (List.mem_cons_of_mem cur hb)⟩

theorem Merging.absorb_sameOutside (h : Merging s dom cur (pre ++ b :: post)) {keep drop : Nat}
    (size : Nat) (hkeep : keep ∈ dom) (hdrop : drop ∈ dom) :
    SameOutside dom s (absorbState s keep drop size b) := by
  have hlinks : SameLinks dom s.links (listDel s.links (pageLink b.head)) :=
    sameLinks_listDel h.ring h.heads_subset.right (by simp)
  exact ((sameOutside_modifyPage s hkeep _).trans (sameOutside_modifyPage _ hdrop _)).trans
    (sameOutside_withLinks hlinks)

theorem mergeLoop_sameOutside {todo : List Block} {fuel base : Nat} {le : ListEntryPtr}
    (h : Merging s dom cur (pre ++ todo)) (hle : s.links.next le = firstTo (entries todo) freeList)
    (hrun : mergeLoop fuel s cur.head le = some (s', base)) : SameOutside dom s s' := by
  induction todo generalizing s cur pre fuel le with
  | nil =>
      cases fuel with
      | zero => cases hrun
      | succ fuel =>
          unfold mergeLoop listNext at hrun
          rw [hle] at hrun
          cases hrun
          exact SameOutside.refl dom _
  | cons b todo ih =>
      cases fuel with
      | zero => cases hrun
      | succ fuel =>
          have hring : Ring s.links freeList
              (entries pre ++ pageLink b.head :: entries todo) := by
            simpa using h.ring
          have hcurProp : s.property cur.head = cur.size := h.property_eq cur (by simp)
          have hbProp : s.property b.head = b.size := h.property_eq b (by simp)
          rcases h.heads_subset with ⟨hcur, hheads⟩
          have hb : b.head ∈ dom := hheads b (by simp)
          unfold mergeLoop listNext at hrun
          rw [hle, entries_cons, firstTo_cons] at hrun
          simp only [hcurProp, hbProp] at hrun
          split at hrun
          · rename_i hup
            have hfirst := h.absorb_sameOutside (cur.size + b.size) hcur hb
            exact hfirst.trans (ih (h.absorb_up hup) (listDel_next_self hring) hrun)
          · split at hrun
            · rename_i hdown
              have hfirst := h.absorb_sameOutside (b.size + cur.size) hb hcur
              exact hfirst.trans (ih (h.absorb_down hdown) (listDel_next_self hring) hrun)
            · have hshift : Merging s dom cur ((pre ++ [b]) ++ todo) := by
                simpa using h
              exact ih hshift hring.next_node hrun

theorem Represents.returned_clear (h : Represents s dom bs) {base : Nat}
    (hdom : (Block.mk base n).span ⊆ dom) (hout : Disjoint (Block.mk base n).span (cover bs))
    (q : Nat) (hle : base ≤ q) (hlt : q < base + n) :
    (s.pages q).pageReserved = false ∧ (s.pages q).pageProperty = false := by
  have hq : q ∈ (Block.mk base n).span := ⟨hle, hlt⟩
  refine ⟨h.unreserved q (hdom hq), ?_⟩
  rw [Bool.eq_false_iff]
  intro hflag
  rcases List.mem_map.mp ((h.flagged q (hdom hq)).mp hflag) with ⟨b, hb, hbq⟩
  rw [← hbq] at hq
  exact Set.disjoint_left.mp hout hq (h.head_mem hb)

theorem free_sameOutside (h : Represents s dom bs) {base : Nat}
    (hdom : (Block.mk base n).span ⊆ dom) (hout : Disjoint (Block.mk base n).span (cover bs))
    (hrun : defaultFreePages s base n = some s') : SameOutside dom s s' := by
  unfold defaultFreePages at hrun
  split at hrun
  · rename_i hn
    have hbase : base ∈ dom := hdom ⟨Nat.le_refl base, Nat.lt_add_of_pos_right hn⟩
    rcases freeResetLoop_spec (h.returned_clear hdom hout) with
      ⟨s1, hreset, hnpage, hlinks, _, hpages⟩
    rw [hreset] at hrun
    simp only at hrun
    have hreset_same : SameOutside dom s s1 := by
      constructor
      · exact hnpage
      · intro q hq
        rw [hpages]
        exact if_neg fun hin => hq (hdom hin)
      · rw [hlinks]
        exact SameLinks.refl dom s.links
    have hstart := freeReset_merging h hn hdom hout hnpage hlinks hpages
    have hhead_same := (hreset_same.trans (sameOutside_modifyPage s1 hbase
      fun page => { page with property := n })).trans
        (sameOutside_modifyPage _ hbase Page.setPageProperty)
    generalize (s1.modifyPage base fun page => { page with property := n }).modifyPage base
      Page.setPageProperty = t at hrun hstart hhead_same
    have hstart' : Merging t dom (Block.mk base n) ([] ++ bs) := hstart
    rcases mergeLoop_spec hstart' (Nat.lt_succ_of_le hstart.length_le) hstart.ring.next_header with
      ⟨s2, hmerge, hmerging, _, _, _⟩
    have hmerge_same := mergeLoop_sameOutside hstart' hstart.ring.next_header hmerge
    have hring : Ring s2.links freeList
        (entries ([] ++ (mergePass (Block.mk base n) bs).snd)) := hmerging.ring
    rcases findPlace_spec hring (hmerging.property_eq _ List.mem_cons_self)
        (Nat.lt_succ_of_le hmerging.length_le) with ⟨mid, rest, hsplit, _, hplace⟩
    rw [entries_nil, lastFrom_nil] at hplace
    rw [hmerge] at hrun
    simp only [hplace] at hrun
    cases hrun
    rw [List.nil_append] at hmerging
    rcases hmerging.heads_subset with ⟨hhead, hheads⟩
    have hplace_mem : firstTo (entries rest) freeList ∈
        freeList :: entries (mergePass (Block.mk base n) bs).snd := by
      rw [hsplit, entries_append]
      rcases List.mem_cons.mp (firstTo_mem (entries rest) freeList) with hend | hin
      · rw [hend]
        exact List.mem_cons_self
      · exact List.mem_cons_of_mem _ (List.mem_append_right _ hin)
    have hlink : SameLinks dom s2.links (listAddBefore s2.links (firstTo (entries rest) freeList)
        (pageLink (mergePass (Block.mk base n) bs).fst.head)) :=
      sameLinks_listAddBefore hmerging.ring hheads (show InFootprint dom (pageLink _) from hhead)
        hplace_mem (ring_inFootprint hheads hplace_mem)
    exact ((hhead_same.trans hmerge_same).trans (sameOutside_nrFree s2 (s2.nrFree + n))).trans
      (sameOutside_withLinks hlink)
  · cases hrun

/-!
# Parts of the memory
-/

/-- The free list described within a part of the memory that contains it. -/
theorem Represents.restrict (h : Represents s dom bs) (hF : F ⊆ dom) (hcover : cover bs ⊆ F) :
    Represents s F bs where
  ring := h.ring
  property_eq := h.property_eq
  nrFree_eq := h.nrFree_eq
  flagged p hp := h.flagged p (hF hp)
  unreserved p hp := h.unreserved p (hF hp)
  free_ref := h.free_ref
  bound p hp := h.bound p (hF hp)
  separated := h.separated
  cover_subset := hcover

/-- What happens within a part of the memory leaves the rest as it was. -/
theorem Represents.frame (h : Represents s dom bs) (hF : F ⊆ dom) (hcover : cover bs ⊆ F)
    (h' : Represents s' F bs') (hsame : SameOutside F s s') : Represents s' dom bs' where
  ring := h'.ring
  property_eq := h'.property_eq
  nrFree_eq := h'.nrFree_eq
  flagged p hp := by
    cases Classical.em (p ∈ F) with
    | inl hin => exact h'.flagged p hin
    | inr hout =>
        have hnot : forall cs : List Block, (forall b, b ∈ cs -> b.head ∈ F) -> p ∉ cs.map Block.head := by
          intro cs hcs hmem
          rcases List.mem_map.mp hmem with ⟨b, hb, hbp⟩
          rw [← hbp] at hout
          exact hout (hcs b hb)
        have hold := h.flagged p hp
        rw [hsame.pages p hout, hold]
        constructor
        · exact fun hmem => absurd hmem (hnot bs fun b hb => hcover (h.head_mem hb))
        · exact fun hmem => absurd hmem (hnot bs' h'.heads_subset)
  unreserved p hp := by
    cases Classical.em (p ∈ F) with
    | inl hin => exact h'.unreserved p hin
    | inr hout =>
        rw [hsame.pages p hout]
        exact h.unreserved p hp
  free_ref := h'.free_ref
  bound p hp := by
    rw [hsame.npage]
    exact h.bound p hp
  separated := h'.separated
  cover_subset := h'.cover_subset.trans hF

theorem Represents.emptied (h : Represents s dom bs) :
    Represents (defaultInit s) (dom \ cover bs) [] where
  ring := ring_listInit s.links freeList
  property_eq b hb := by cases hb
  nrFree_eq := rfl
  flagged p hp := by
    constructor
    · intro hflag
      rcases List.mem_map.mp ((h.flagged p hp.left).mp hflag) with ⟨b, hb, hbp⟩
      have hout := hp.right
      rw [← hbp] at hout
      exact absurd (h.head_mem hb) hout
    · intro hmem
      cases hmem
  unreserved p hp := h.unreserved p hp.left
  free_ref p hp := by
    rw [cover_nil] at hp
    cases hp
  bound p hp := h.bound p hp.left
  separated := separated_nil
  cover_subset := by
    rw [cover_nil]
    exact Set.empty_subset _

def headerOf (s : PmmState) : ListEntryPtr × ListEntryPtr :=
  (s.links.next freeList, s.links.prev freeList)

def setHeader (s : PmmState) (header : ListEntryPtr × ListEntryPtr) : PmmState :=
  s.withLinks ((s.links.setNext freeList header.fst).setPrev freeList header.snd)

/-- The list that was put aside is found again when the pages used meanwhile are allocated. -/
theorem Represents.restored (h : Represents s dom bs)
    (h' : Represents s' (dom \ cover bs) [])
    (hsame : SameOutside (dom \ cover bs) (defaultInit s) s') :
    Represents { setHeader s' (headerOf s) with nrFree := s.nrFree } dom bs := by
  have hpages : forall p, p ∈ cover bs -> s'.pages p = s.pages p :=
    fun p hp => hsame.pages p fun hout => hout.right hp
  have hlinks : forall e, e ∈ entries bs ->
      s'.links.next e = s.links.next e ∧ s'.links.prev e = s.links.prev e := by
    intro e he
    rcases List.mem_map.mp he with ⟨b, hb, hbe⟩
    have hout : ¬ InFootprint (dom \ cover bs) e := by
      rw [← hbe]
      exact fun hin => hin.right (h.head_mem hb)
    rcases hsame.links e hout with ⟨hnext, hprev⟩
    have hne : e ≠ freeList := by
      rw [← hbe]
      exact ListEntryPtr.noConfusion
    rw [hnext, hprev]
    change (listInit s.links freeList).next e = _ ∧ (listInit s.links freeList).prev e = _
    unfold listInit
    rw [setPrev_next, setNext_next, if_neg hne, setPrev_prev, if_neg hne]
    exact ⟨rfl, rfl⟩
  constructor
  · apply ring_frame h.ring
    · intro e he
      change ((s'.links.setNext freeList (s.links.next freeList)).setPrev freeList
        (s.links.prev freeList)).next e = _
      rw [setPrev_next, setNext_next]
      split
      · rename_i heq
        rw [heq]
      · rename_i hne
        exact (hlinks e ((List.mem_cons.mp he).resolve_left hne)).left
    · intro e he
      change ((s'.links.setNext freeList (s.links.next freeList)).setPrev freeList
        (s.links.prev freeList)).prev e = _
      rw [setPrev_prev]
      split
      · rename_i heq
        rw [heq]
      · rename_i hne
        exact (hlinks e ((List.mem_cons.mp he).resolve_left hne)).right
  · intro b hb
    change (s'.pages b.head).property = b.size
    rw [hpages b.head (h.head_mem hb)]
    exact h.property_eq b hb
  · exact h.nrFree_eq
  · intro p hp
    change (s'.pages p).pageProperty = true <-> _
    cases Classical.em (p ∈ cover bs) with
    | inl hin =>
        rw [hpages p hin]
        exact h.flagged p hp
    | inr hout =>
        rw [h'.flagged p ⟨hp, hout⟩]
        constructor
        · intro hmem
          cases hmem
        · intro hmem
          rcases List.mem_map.mp hmem with ⟨b, hb, hbp⟩
          rw [← hbp] at hout
          exact absurd (h.head_mem hb) hout
  · intro p hp
    change (s'.pages p).pageReserved = false
    cases Classical.em (p ∈ cover bs) with
    | inl hin =>
        rw [hpages p hin]
        exact h.unreserved p hp
    | inr hout => exact h'.unreserved p ⟨hp, hout⟩
  · intro p hp
    change (s'.pages p).ref = 0
    rw [hpages p hp]
    exact h.free_ref p hp
  · intro p hp
    change p < s'.npage
    rw [hsame.npage]
    exact h.bound p hp
  · exact h.separated
  · exact h.cover_subset

theorem sameOutside_defaultInit (F : Set Nat) (s : PmmState) : SameOutside F s (defaultInit s) where
  npage := rfl
  pages _ _ := rfl
  links := sameLinks_listInit s.links

theorem sameOutside_setHeader (F : Set Nat) (s : PmmState)
    (header : ListEntryPtr × ListEntryPtr) : SameOutside F s (setHeader s header) :=
  sameOutside_withLinks ((sameLinks_setNext (inFootprint_freeList F) _).trans
    (sameLinks_setPrev (inFootprint_freeList F) _))

end States

end Memory
end OsLabs
