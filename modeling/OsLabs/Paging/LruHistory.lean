import OsLabs.Paging.LruStackRefinement

/-!
# The stack holds the most recently referenced pages

The pages in the order of the stack are the last entries of the history without
its repetitions.  Before enough pages have been referenced, the empty frames stand
for entries in front of that history.
-/

namespace OsLabs
namespace Paging

open Foundation
open Foundation.Links

/-- The distinct pages of a reference string, the most recently referenced one
first. -/
def mostRecent (refs : List Int) : List Int := refs.dedup.reverse

def lruStackAfter (n : Nat) : LruStackState -> List Int -> Option LruStackState
  | s, [] => some s
  | s, pageNum :: refs =>
      match lruStackRefer n s pageNum with
      | none => none
      | some (_, s) => lruStackAfter n s refs

def initialLruStack (n : Nat) : LruStackState :=
  LruStackState.mk (fun _ => -1) (initPageStack n)

variable {n : Nat} {a : Recency} {refs : List Int} {page : Int}

/-!
# The order of the pages
-/

def Recency.pages (a : Recency) : List Int := a.order.map a.frames

def history (n : Nat) (refs : List Int) : List Int := List.replicate n (-1) ++ refs.dedup

theorem history_count (hpage : page ≠ -1) : (history n refs).count page ≤ 1 := by
  have hempty : (List.replicate n (-1 : Int)).count page = 0 := by
    apply List.count_eq_zero_of_not_mem
    intro hmem
    exact hpage (List.eq_of_mem_replicate hmem)
  unfold history
  rw [List.count_append, hempty, Nat.zero_add]
  exact List.nodup_iff_count_le_one.mp refs.nodup_dedup page

theorem length_le_history : n ≤ (history n refs).length := by
  unfold history
  rw [List.length_append, List.length_replicate]
  lia

theorem history_concat (hpage : page ≠ -1) :
    history n (refs ++ [page]) = moveToBack (history n refs) page := by
  unfold history
  rw [dedup_concat, moveToBack_append]
  intro hmem
  exact hpage (List.eq_of_mem_replicate hmem)

theorem holder_mem_pages : (a.holder page).isSome = true <-> page ∈ a.pages := by
  unfold Recency.holder Recency.pages
  rw [List.find?_isSome, List.mem_map]
  constructor
  · rintro ⟨x, hx, hframe⟩
    exact ⟨x, hx, of_decide_eq_true hframe⟩
  · rintro ⟨x, hx, hframe⟩
    exact ⟨x, hx, decide_eq_true hframe⟩

theorem pages_hit {x : Nat} (hx : a.holder page = some x) :
    Recency.pages { a with order := moveToBack a.order x } = moveToBack a.pages page := by
  unfold Recency.holder at hx
  rcases List.find?_eq_some_iff_append.mp hx with ⟨hframe, xs, ys, hsplit, hbefore⟩
  have hpage : a.frames x = page := of_decide_eq_true hframe
  have hfirst : forall y, y ∈ xs -> a.frames y ≠ page := by
    intro y hy heq
    have hnot := hbefore y hy
    rw [decide_eq_true heq] at hnot
    cases hnot
  have hxs : x ∉ xs := fun hmem => hfirst x hmem hpage
  have hpagexs : page ∉ xs.map a.frames := by
    intro hmem
    rcases List.mem_map.mp hmem with ⟨y, hy, heq⟩
    exact hfirst y hy heq
  have hpages : a.pages = xs.map a.frames ++ page :: ys.map a.frames := by
    unfold Recency.pages
    rw [hsplit, List.map_append, List.map_cons, hpage]
  rw [hpages, moveToBack_split hpagexs]
  unfold Recency.pages
  simp only
  rw [hsplit, moveToBack_split hxs, List.map_append, List.map_append, List.map_singleton, hpage]

theorem pages_fault (hnodup : a.order.Nodup) {x : Nat} {rest : List Nat}
    (horder : a.order = x :: rest) : (a.place x page).pages = a.pages.tail ++ [page] := by
  rw [horder] at hnodup
  unfold Recency.pages Recency.place
  simp only
  rw [horder, moveToBack_cons, List.map_append, List.map_singleton, Function.update_self,
    List.map_cons, List.tail_cons]
  congr 1
  apply List.map_congr_left
  intro y hy
  apply Function.update_of_ne
  intro heq
  rw [heq] at hy
  exact (List.nodup_cons.mp hnodup).left hy

theorem pages_refer (hrecent : Recent n a) (hn : 0 < n) (hpages : a.pages = lastOf n (history n refs))
    (hpage : page ≠ -1) : (a.refer page).snd.pages = lastOf n (history n (refs ++ [page])) := by
  rw [history_concat hpage]
  cases hholder : a.holder page with
  | some x =>
      have hmem : page ∈ lastOf n (history n refs) := by
        rw [← hpages, ← holder_mem_pages, hholder]
        rfl
      rw [refer_hit hholder, pages_hit hholder, hpages,
        lastOf_moveToBack_of_mem hmem (history_count hpage) length_le_history]
  | none =>
      have hmem : page ∉ lastOf n (history n refs) := by
        rw [← hpages, ← holder_mem_pages, hholder]
        exact Bool.false_ne_true
      cases horder : a.order with
      | nil =>
          have hlen := hrecent.perm.length_eq
          rw [horder, List.length_nil, List.length_range] at hlen
          lia
      | cons x rest =>
          rw [refer_fault hholder horder, pages_fault hrecent.nodup horder, hpages,
            lastOf_moveToBack_of_not_mem hmem hn length_le_history]

theorem pages_initial (n : Nat) : (initialRecency n).pages = lastOf n (history n []) := by
  unfold Recency.pages initialRecency history lastOf
  simp

theorem lastOf_history (n : Nat) (refs : List Int) :
    (lastOf n (history n refs)).reverse =
      (mostRecent refs).take n ++ List.replicate (n - (mostRecent refs).length) (-1) := by
  unfold history mostRecent
  rw [lastOf_eq_reverse_take, List.reverse_append, List.reverse_replicate, List.take_append,
    List.take_replicate]
  congr 2
  lia

/-!
# Runs
-/

variable {s t u : LruStackState}

structure Traced (n : Nat) (s : LruStackState) (a : Recency) (refs : List Int) : Prop where
  rep : StackRep s a
  recent : Recent n a
  pages_eq : a.pages = lastOf n (history n refs)

theorem Traced.refer (h : Traced n s a refs) (hn : 2 ≤ n) (hpage : 0 ≤ page) :
    exists t, lruStackRefer n s page = some ((a.refer page).fst, t) ∧
      Traced n t (a.refer page).snd (refs ++ [page]) := by
  have hne : page ≠ -1 := by lia
  rcases h.rep.refer h.recent hn page with ⟨t, hrun, hrep⟩
  exact ⟨t, hrun, hrep, h.recent.refer hne, pages_refer h.recent (by lia) h.pages_eq hne⟩

theorem Traced.after (h : Traced n s a refs) (hn : 2 ≤ n) {rest : List Int}
    (hrest : forall p, p ∈ rest -> 0 ≤ p) :
    exists t b, lruStackAfter n s rest = some t ∧ Traced n t b (refs ++ rest) := by
  induction rest generalizing s a refs with
  | nil =>
      refine ⟨s, a, rfl, ?_⟩
      rw [List.append_nil]
      exact h
  | cons p rest ih =>
      rcases h.refer hn (hrest p List.mem_cons_self) with ⟨t, hrun, ht⟩
      rcases ih ht fun q hq => hrest q (List.mem_cons_of_mem p hq) with ⟨u, b, hafter, hu⟩
      refine ⟨u, b, ?_, ?_⟩
      · unfold lruStackAfter
        simp only [hrun]
        exact hafter
      · rw [List.append_assoc, List.singleton_append] at hu
        exact hu

theorem Traced.prints (h : Traced n s a refs) (hn : 2 ≤ n) {rest : List Int}
    (hrest : forall p, p ∈ rest -> 0 ≤ p) : exists out, lruStackFrom n s rest = some out := by
  induction rest generalizing s a refs with
  | nil => exact ⟨[], rfl⟩
  | cons p rest ih =>
      rcases h.refer hn (hrest p List.mem_cons_self) with ⟨t, hrun, ht⟩
      rcases ih ht fun q hq => hrest q (List.mem_cons_of_mem p hq) with ⟨out, hout⟩
      unfold lruStackFrom
      simp only [hrun, hout]
      exact ⟨_, rfl⟩

theorem lruStackFrom_reference {fault : Bool} {rest : List Int} {out : List (Bool × List Int)}
    (hafter : lruStackAfter n s refs = some t) (hrefer : lruStackRefer n t page = some (fault, u))
    (hrest : lruStackFrom n u rest = some out) :
    exists out', lruStackFrom n s (refs ++ page :: rest) = some out' ∧
      out'[refs.length]? = some (fault, frameList n u.pageFrame) := by
  induction refs generalizing s with
  | nil =>
      cases hafter
      rw [List.nil_append]
      unfold lruStackFrom
      simp only [hrefer, hrest]
      exact ⟨_, rfl, rfl⟩
  | cons p refs ih =>
      unfold lruStackAfter at hafter
      rw [List.cons_append]
      unfold lruStackFrom
      cases hrun : lruStackRefer n s p with
      | none =>
          simp only [hrun] at hafter
          cases hafter
      | some r =>
          simp only [hrun] at hafter
          rcases ih hafter with ⟨out', hout, hat⟩
          simp only [hout]
          exact ⟨_, rfl, hat⟩

theorem initialLruStack_traced (hn : 1 ≤ n) :
    Traced n (initialLruStack n) (initialRecency n) [] where
  rep := initPageStack_rep hn
  recent := initialRecency_recent n
  pages_eq := pages_initial n

/-!
# The stack is well formed
-/

/-- The nodes `order` are the doubly linked list from `head` to `tail`, one for each
frame, and the frames mirror the nodes. -/
structure WellLinked (n : Nat) (s : LruStackState) (order : List Nat) : Prop where
  head : s.stack.head = order.head?
  tail : s.stack.tail = order.getLast?
  chain : order.IsChain fun x y =>
    (s.stack.nodes x).next = some y ∧ (s.stack.nodes y).pre = some x
  head_pre : forall x, s.stack.head = some x -> (s.stack.nodes x).pre = none
  tail_next : forall x, s.stack.tail = some x -> (s.stack.nodes x).next = none
  index : (order.map fun x => (s.stack.nodes x).pageIndex).Perm (List.range n)
  mirror : forall x, x ∈ order ->
    s.pageFrame (s.stack.nodes x).pageIndex = (s.stack.nodes x).pageNum

theorem StackRep.wellLinked (h : StackRep s a) (hrecent : Recent n a) :
    WellLinked n s a.order := by
  have hhead : s.stack.head = firstTo (a.order.map some) none := h.ring.next_header
  have htail : s.stack.tail = lastFrom none (a.order.map some) := h.ring.prev_header
  have hindex : (a.order.map fun x => (s.stack.nodes x).pageIndex) = a.order := by
    conv_rhs => rw [← List.map_id a.order]
    exact List.map_congr_left h.index_eq
  have hinverse : forall c, c ∈ none :: a.order.map some ->
      (stackLinks s.stack).prev ((stackLinks s.stack).next c) = c ∧
        (stackLinks s.stack).next ((stackLinks s.stack).prev c) = c := fun c hc => h.ring.inverse hc
  constructor
  · rw [hhead]
    cases a.order with
    | nil => rfl
    | cons x rest => rfl
  · rw [htail]
    cases List.eq_nil_or_concat a.order with
    | inl hnil => rw [hnil]; rfl
    | inr hsnoc =>
        rcases hsnoc with ⟨xs, x, hsnoc⟩
        rw [hsnoc, List.concat_eq_append, List.map_append, List.map_singleton, lastFrom_snoc,
          List.getLast?_concat]
  · have hchain := (List.isChain_cons.mp (List.isChain_append.mp h.ring.chain).left).right
    exact List.isChain_map some |>.mp hchain
  · intro x hx
    have hback := (hinverse none List.mem_cons_self).left
    change (stackLinks s.stack).prev s.stack.head = none at hback
    rw [hx] at hback
    exact hback
  · intro x hx
    have hback := (hinverse none List.mem_cons_self).right
    change (stackLinks s.stack).next s.stack.tail = none at hback
    rw [hx] at hback
    exact hback
  · rw [hindex]
    exact hrecent.perm
  · intro x hx
    rw [h.index_eq x hx, h.num_eq x hx, h.frames_eq]

theorem Traced.nums_eq (h : Traced n s a refs) :
    (a.order.map fun x => (s.stack.nodes x).pageNum).reverse =
      (mostRecent refs).take n ++ List.replicate (n - (mostRecent refs).length) (-1) := by
  rw [← lastOf_history, ← h.pages_eq]
  congr 1
  exact List.map_congr_left h.rep.num_eq

theorem Traced.mem_pages_iff (h : Traced n s a refs) (hpage : page ≠ -1) :
    page ∈ a.pages <-> page ∈ (mostRecent refs).take n := by
  rw [← List.mem_reverse, h.pages_eq, lastOf_history, List.mem_append]
  constructor
  · intro hmem
    cases hmem with
    | inl hrecent => exact hrecent
    | inr hempty => exact absurd (List.eq_of_mem_replicate hempty) hpage
  · exact Or.inl

theorem Traced.resident_iff (h : Traced n s a refs) (hpage : page ≠ -1) :
    (exists j, j < n ∧ s.pageFrame j = page) <-> page ∈ (mostRecent refs).take n := by
  rw [← h.mem_pages_iff hpage, h.rep.frames_eq]
  unfold Recency.pages
  rw [List.mem_map]
  constructor
  · rintro ⟨j, hj, hframe⟩
    exact ⟨j, h.recent.mem_iff.mpr hj, hframe⟩
  · rintro ⟨j, hj, hframe⟩
    exact ⟨j, h.recent.mem_iff.mp hj, hframe⟩

theorem Traced.fault_iff (h : Traced n s a refs) (hpage : page ≠ -1) :
    (a.refer page).fst = true <-> page ∉ (mostRecent refs).take n := by
  rw [← h.mem_pages_iff hpage, ← holder_mem_pages]
  unfold Recency.refer
  cases a.holder page with
  | some x => simp
  | none =>
      cases a.order with
      | nil => simp
      | cons x rest => simp

/-- After any references the stack lists the most recently referenced pages, from its
tail to its head, and a reference faults if its page is not among them. -/
theorem lru_stack_recency (hn : 2 ≤ n) (hrefs : forall p, p ∈ refs -> 0 ≤ p) :
    exists s order, lruStackAfter n (initialLruStack n) refs = some s ∧ WellLinked n s order ∧
      (order.map fun x => (s.stack.nodes x).pageNum).reverse =
        (mostRecent refs).take n ++ List.replicate (n - (mostRecent refs).length) (-1) ∧
      (forall page, page ≠ -1 ->
        ((exists j, j < n ∧ s.pageFrame j = page) <-> page ∈ (mostRecent refs).take n)) ∧
      forall page, 0 ≤ page -> exists fault t, lruStackRefer n s page = some (fault, t) ∧
        (fault = true <-> page ∉ (mostRecent refs).take n) ∧
        forall rest, (forall p, p ∈ rest -> 0 ≤ p) ->
          exists out, lruStack n (refs ++ page :: rest) = some out ∧
            out[refs.length]? = some (fault, frameList n t.pageFrame) := by
  rcases (initialLruStack_traced (by lia)).after hn hrefs with ⟨s, a, hafter, h⟩
  rw [List.nil_append] at h
  refine ⟨s, a.order, hafter, h.rep.wellLinked h.recent, h.nums_eq,
    fun page hpage => h.resident_iff hpage, ?_⟩
  intro page hpage
  rcases h.refer hn hpage with ⟨t, hrun, ht⟩
  refine ⟨_, t, hrun, h.fault_iff (by lia), ?_⟩
  intro rest hrest
  rcases ht.prints hn hrest with ⟨out, hout⟩
  exact lruStackFrom_reference hafter hrun hout

theorem lru_stack_recency_four_references :
    (forall p, p ∈ [7, 0, 7, 1] -> (0 : Int) ≤ p) ∧
      exists s order, lruStackAfter 2 (initialLruStack 2) [7, 0, 7, 1] = some s ∧
        WellLinked 2 s order ∧
        (order.map fun x => (s.stack.nodes x).pageNum).reverse =
          (mostRecent [7, 0, 7, 1]).take 2 ++
            List.replicate (2 - (mostRecent [7, 0, 7, 1]).length) (-1) := by
  have hrefs : forall p, p ∈ [7, 0, 7, 1] -> (0 : Int) ≤ p := by decide
  rcases lru_stack_recency (show 2 ≤ 2 by decide) hrefs with
    ⟨s, order, hafter, hlinked, hnums, _⟩
  exact ⟨hrefs, s, order, hafter, hlinked, hnums⟩

example : mostRecent [7, 0, 7, 1] = [1, 7, 0] := by decide

end Paging
end OsLabs
