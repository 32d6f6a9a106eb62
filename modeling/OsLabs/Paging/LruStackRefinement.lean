import Mathlib.Data.List.Find
import OsLabs.Paging.LruStack
import OsLabs.Paging.Recency

/-!
# The stack keeps the frames in order of their last use

The list of nodes is a ring whose header is the null pointer: `head` is the
`next` field of the header and `tail` its `prev` field.  A hit and a fault both
move one node to the end of that ring.
-/

namespace OsLabs
namespace Paging

open Foundation
open Foundation.Links
open PageStack

def stackLinks (stk : PageStack) : Links (Option Nat) where
  next
    | none => stk.head
    | some a => (stk.nodes a).next
  prev
    | none => stk.tail
    | some a => (stk.nodes a).pre

theorem links_ext {L M : Links (Option Nat)} (hnext : forall c, L.next c = M.next c)
    (hprev : forall c, L.prev c = M.prev c) : L = M := by
  cases L with
  | mk next prev =>
      cases M with
      | mk next' prev' =>
          have hn : next = next' := funext hnext
          have hp : prev = prev' := funext hprev
          rw [hn, hp]

section Fields

variable (stk : PageStack) (a b : Nat) (ptr : Option Nat)

theorem modifyNode_nodes (f : PageNodeLru -> PageNodeLru) :
    (stk.modifyNode a f).nodes b = if b = a then f (stk.nodes a) else stk.nodes b :=
  Function.update_apply stk.nodes a (f (stk.nodes a)) b

theorem stackLinks_modifyNode_next (f : PageNodeLru -> PageNodeLru) (c : Option Nat) :
    (stackLinks (stk.modifyNode a f)).next c =
      if c = some a then (f (stk.nodes a)).next else (stackLinks stk).next c := by
  cases c with
  | none => rfl
  | some b =>
      change ((stk.modifyNode a f).nodes b).next = _
      rw [modifyNode_nodes]
      by_cases h : b = a
      · subst h
        rw [if_pos rfl, if_pos rfl]
      · rw [if_neg h, if_neg (fun heq => h (Option.some.inj heq))]
        rfl

theorem stackLinks_modifyNode_prev (f : PageNodeLru -> PageNodeLru) (c : Option Nat) :
    (stackLinks (stk.modifyNode a f)).prev c =
      if c = some a then (f (stk.nodes a)).pre else (stackLinks stk).prev c := by
  cases c with
  | none => rfl
  | some b =>
      change ((stk.modifyNode a f).nodes b).pre = _
      rw [modifyNode_nodes]
      by_cases h : b = a
      · subst h
        rw [if_pos rfl, if_pos rfl]
      · rw [if_neg h, if_neg (fun heq => h (Option.some.inj heq))]
        rfl

/-- Writing back what a link already is changes no link. -/
theorem ite_stackLinks_next (c : Option Nat) :
    (if c = some a then (stk.nodes a).next else (stackLinks stk).next c) =
      (stackLinks stk).next c := by
  split
  · rename_i h
    rw [h]
    rfl
  · rfl

theorem ite_stackLinks_prev (c : Option Nat) :
    (if c = some a then (stk.nodes a).pre else (stackLinks stk).prev c) =
      (stackLinks stk).prev c := by
  split
  · rename_i h
    rw [h]
    rfl
  · rfl

@[simp] theorem stackLinks_setNext :
    stackLinks (stk.setNext a ptr) = (stackLinks stk).setNext (some a) ptr := by
  apply links_ext
  · intro c
    unfold PageStack.setNext
    rw [stackLinks_modifyNode_next, setNext_next]
  · intro c
    unfold PageStack.setNext
    rw [stackLinks_modifyNode_prev, ite_stackLinks_prev, setNext_prev]

@[simp] theorem stackLinks_setPre :
    stackLinks (stk.setPre a ptr) = (stackLinks stk).setPrev (some a) ptr := by
  apply links_ext
  · intro c
    unfold PageStack.setPre
    rw [stackLinks_modifyNode_next, ite_stackLinks_next, setPrev_next]
  · intro c
    unfold PageStack.setPre
    rw [stackLinks_modifyNode_prev, setPrev_prev]

@[simp] theorem stackLinks_setPageNum (pageNum : Int) :
    stackLinks (stk.setPageNum a pageNum) = stackLinks stk := by
  apply links_ext
  · intro c
    unfold PageStack.setPageNum
    rw [stackLinks_modifyNode_next, ite_stackLinks_next]
  · intro c
    unfold PageStack.setPageNum
    rw [stackLinks_modifyNode_prev, ite_stackLinks_prev]

@[simp] theorem stackLinks_setHead :
    stackLinks (stk.setHead ptr) = (stackLinks stk).setNext none ptr := by
  apply links_ext
  · intro c
    cases c with
    | none => simp [stackLinks, setHead]
    | some b => simp [stackLinks, setHead]
  · intro c
    cases c with
    | none => rfl
    | some b => rfl

@[simp] theorem stackLinks_setTail :
    stackLinks (stk.setTail ptr) = (stackLinks stk).setPrev none ptr := by
  apply links_ext
  · intro c
    cases c with
    | none => rfl
    | some b => rfl
  · intro c
    cases c with
    | none => simp [stackLinks, setTail]
    | some b => simp [stackLinks, setTail]

end Fields

def SamePages (stk stk' : PageStack) : Prop :=
  forall b, (stk'.nodes b).pageNum = (stk.nodes b).pageNum ∧
    (stk'.nodes b).pageIndex = (stk.nodes b).pageIndex

theorem SamePages.trans {s t u : PageStack} (hst : SamePages s t) (htu : SamePages t u) :
    SamePages s u := by
  intro b
  rw [(htu b).left, (htu b).right]
  exact hst b

theorem samePages_modifyNode (stk : PageStack) (a : Nat) (f : PageNodeLru -> PageNodeLru)
    (hnum : (f (stk.nodes a)).pageNum = (stk.nodes a).pageNum)
    (hindex : (f (stk.nodes a)).pageIndex = (stk.nodes a).pageIndex) :
    SamePages stk (stk.modifyNode a f) := by
  intro b
  rw [modifyNode_nodes]
  split
  · rename_i h
    rw [h]
    exact ⟨hnum, hindex⟩
  · exact ⟨rfl, rfl⟩

theorem samePages_setNext (stk : PageStack) (a : Nat) (ptr : Option Nat) :
    SamePages stk (stk.setNext a ptr) :=
  samePages_modifyNode stk a _ rfl rfl

theorem samePages_setPre (stk : PageStack) (a : Nat) (ptr : Option Nat) :
    SamePages stk (stk.setPre a ptr) :=
  samePages_modifyNode stk a _ rfl rfl

theorem SamePages.setPageNum {s t : PageStack} (h : SamePages s t) (a : Nat) (pageNum : Int) :
    SamePages (s.setPageNum a pageNum) (t.setPageNum a pageNum) := by
  intro b
  unfold PageStack.setPageNum
  rw [modifyNode_nodes, modifyNode_nodes]
  split
  · exact ⟨rfl, (h a).right⟩
  · exact h b

theorem setPageNum_pageNum (stk : PageStack) (a b : Nat) (pageNum : Int) :
    ((stk.setPageNum a pageNum).nodes b).pageNum =
      if b = a then pageNum else (stk.nodes b).pageNum := by
  unfold setPageNum
  rw [modifyNode_nodes]
  split
  · rfl
  · rfl

theorem setPageNum_pageIndex (stk : PageStack) (a b : Nat) (pageNum : Int) :
    ((stk.setPageNum a pageNum).nodes b).pageIndex = (stk.nodes b).pageIndex := by
  unfold setPageNum
  rw [modifyNode_nodes]
  split
  · rename_i h
    rw [h]
  · rfl

/-!
# Moving a node to the tail
-/

def appendNode (stk : PageStack) (tail curNode : Nat) : PageStack :=
  (((stk.setNext tail (some curNode)).setPre curNode (some tail)).setNext curNode none).setTail
    (some curNode)

theorem samePages_appendNode (stk : PageStack) (tail curNode : Nat) :
    SamePages stk (appendNode stk tail curNode) := by
  have h1 := samePages_setNext stk tail (some curNode)
  have h2 := samePages_setPre (stk.setNext tail (some curNode)) curNode (some tail)
  have h3 := samePages_setNext
    ((stk.setNext tail (some curNode)).setPre curNode (some tail)) curNode none
  exact (h1.trans h2).trans h3

theorem stackLinks_appendNode (stk : PageStack) (tail curNode : Nat) :
    stackLinks (appendNode stk tail curNode) =
      (stackLinks stk).linkBetween (some curNode) (some tail) none := by
  unfold appendNode Links.linkBetween
  simp only [stackLinks_setNext, stackLinks_setPre, stackLinks_setTail]
  apply links_ext
  · intro c
    simp only [setNext_next, setPrev_next]
  · intro c
    simp only [setPrev_prev, setNext_prev]
    cases c with
    | none => simp
    | some b => simp

section Move

variable {stk : PageStack} {xs ys : List Nat} {curNode : Nat}

theorem tail_of_ring
    (hr : Ring (stackLinks stk) none ((xs ++ curNode :: ys).map some)) (hys : ys ≠ []) :
    exists tail, stk.tail = some tail ∧ tail ≠ curNode := by
  rcases List.eq_nil_or_concat ys with hnil | ⟨zs, tail, hsnoc⟩
  · exact absurd hnil hys
  · rw [List.concat_eq_append] at hsnoc
    subst hsnoc
    have hlast : stk.tail = lastFrom none ((xs ++ curNode :: (zs ++ [tail])).map some) :=
      hr.prev_header
    have hsplit : (xs ++ curNode :: (zs ++ [tail])).map some =
        (xs ++ curNode :: zs).map some ++ [some tail] := by
      simp
    rw [hsplit, lastFrom_snoc] at hlast
    refine ⟨tail, hlast, ?_⟩
    intro heq
    have hnodup := hr.nodes_nodup.of_map
    have hright := (List.nodup_append.mp hnodup).right.left
    rw [heq] at hright
    exact (List.nodup_cons.mp hright).left (by simp)

theorem next_of_ring
    (hr : Ring (stackLinks stk) none ((xs ++ curNode :: ys).map some)) (hys : ys ≠ []) :
    exists next, (stk.nodes curNode).next = some next ∧ next ≠ curNode := by
  cases ys with
  | nil => exact absurd rfl hys
  | cons next ys =>
      rw [List.map_append, List.map_cons] at hr
      refine ⟨next, hr.next_node, ?_⟩
      intro heq
      have hright := (List.nodup_append.mp hr.nodes_nodup).right.left
      rw [heq] at hright
      exact (List.nodup_cons.mp hright).left (by simp)

theorem ring_appendNode {cut : PageStack} {tail : Nat}
    (hr : Ring (stackLinks stk) none ((xs ++ curNode :: ys).map some)) (hys : ys ≠ [])
    (htail : stk.tail = some tail)
    (hcut : stackLinks cut = (stackLinks stk).unlink (some curNode)) :
    Ring (stackLinks (appendNode cut tail curNode)) none
      ((xs ++ ys ++ [curNode]).map some) := by
  have hmapped : Ring (stackLinks stk) none (xs.map some ++ some curNode :: ys.map some) := by
    simpa using hr
  have hmove := hmapped.moveLast (by simpa using hys)
  have hprev : (stackLinks stk).prev none = some tail := htail
  unfold Links.moveLast at hmove
  rw [hprev] at hmove
  rw [stackLinks_appendNode, hcut]
  simpa using hmove

theorem stackHit_head_spec
    (hr : Ring (stackLinks stk) none ((curNode :: ys).map some)) (hys : ys ≠ []) :
    exists stk', stackHit stk curNode = some stk' ∧
      Ring (stackLinks stk') none ((ys ++ [curNode]).map some) ∧
      SamePages stk stk' := by
  have hr' : Ring (stackLinks stk) none (([] ++ curNode :: ys).map some) := hr
  rcases tail_of_ring hr' hys with ⟨tail, htail, htailNe⟩
  rcases next_of_ring hr' hys with ⟨next, hnext, hnextNe⟩
  have hnode : Ring (stackLinks stk) none ([] ++ some curNode :: ys.map some) := hr
  have hpre : (stk.nodes curNode).pre = none := hnode.prev_node
  have hhead : stk.head = some curNode := hr.next_header
  have hnotTail : stk.tail ≠ some curNode := by
    rw [htail]
    exact fun heq => htailNe (Option.some.inj heq)
  have hcut : stackLinks ((stk.setPre next none).setHead (some next)) =
      (stackLinks stk).unlink (some curNode) := by
    unfold Links.unlink
    simp only [stackLinks_setPre, stackLinks_setHead]
    rw [show (stackLinks stk).prev (some curNode) = none from hpre,
      show (stackLinks stk).next (some curNode) = some next from hnext]
    rfl
  refine ⟨appendNode ((stk.setPre next none).setHead (some next)) tail curNode, ?_,
    ring_appendNode hr' hys htail hcut,
    (samePages_setPre stk next none).trans (samePages_appendNode _ tail curNode)⟩
  have htail' : (stk.setPre next none).tail = some tail := htail
  have hhead' : (((stk.setPre next none).setNext tail (some curNode)).setPre curNode
      (some tail)).head = some curNode := hhead
  have hkept : ((((stk.setPre next none).setNext tail (some curNode)).setPre curNode
      (some tail)).nodes curNode).next = some next := by
    change (stackLinks _).next (some curNode) = some next
    rw [stackLinks_setPre, stackLinks_setNext, stackLinks_setPre, setPrev_next, setNext_next,
      if_neg (fun heq => htailNe (Option.some.inj heq).symm), setPrev_next]
    exact hnext
  unfold stackHit
  rw [if_neg hnotTail]
  simp only [hpre, hnext, htail']
  rw [if_pos hhead', hkept]
  rfl

theorem stackHit_inner_spec {pre : Nat}
    (hr : Ring (stackLinks stk) none ((xs ++ [pre] ++ curNode :: ys).map some)) (hys : ys ≠ []) :
    exists stk', stackHit stk curNode = some stk' ∧
      Ring (stackLinks stk') none ((xs ++ [pre] ++ ys ++ [curNode]).map some) ∧
      SamePages stk stk' := by
  rcases tail_of_ring hr hys with ⟨tail, htail, htailNe⟩
  rcases next_of_ring hr hys with ⟨next, hnext, hnextNe⟩
  have hnodup := hr.nodes_nodup.of_map
  have hmapped : Ring (stackLinks stk) none
      ((xs ++ [pre]).map some ++ some curNode :: ys.map some) := by
    simpa using hr
  have hpre : (stk.nodes curNode).pre = some pre := by
    have hlast : (stk.nodes curNode).pre = lastFrom none ((xs ++ [pre]).map some) :=
      hmapped.prev_node
    rw [hlast, List.map_append, List.map_singleton, lastFrom_snoc]
  have hbefore : forall x, x ∈ xs ++ [pre] -> x ≠ curNode := by
    intro x hx
    exact (List.nodup_append.mp hnodup).right.right x hx curNode (by simp)
  have hpreNe : pre ≠ curNode := hbefore pre (by simp)
  have hnotTail : stk.tail ≠ some curNode := by
    rw [htail]
    exact fun heq => htailNe (Option.some.inj heq)
  have hhead : stk.head ≠ some curNode := by
    have hfirst : stk.head = firstTo ((xs ++ [pre]).map some ++ some curNode :: ys.map some)
        none := hmapped.next_header
    rw [hfirst]
    cases xs with
    | nil => exact fun heq => hpreNe (Option.some.inj heq)
    | cons x xs => exact fun heq => hbefore x (by simp) (Option.some.inj heq)
  have hcut : stackLinks ((stk.setNext pre (some next)).setPre next (some pre)) =
      (stackLinks stk).unlink (some curNode) := by
    unfold Links.unlink
    simp only [stackLinks_setPre, stackLinks_setNext]
    rw [show (stackLinks stk).prev (some curNode) = some pre from hpre,
      show (stackLinks stk).next (some curNode) = some next from hnext]
  refine ⟨appendNode ((stk.setNext pre (some next)).setPre next (some pre)) tail curNode, ?_,
    ring_appendNode hr hys htail hcut,
    ((samePages_setNext stk pre (some next)).trans
      (samePages_setPre _ next (some pre))).trans (samePages_appendNode _ tail curNode)⟩
  have hfields : ((stk.setNext pre (some next)).nodes curNode) = stk.nodes curNode := by
    unfold PageStack.setNext
    rw [modifyNode_nodes, if_neg hpreNe.symm]
  have htail' : ((stk.setNext pre (some next)).setPre next (some pre)).tail = some tail := htail
  have hhead' : ¬ ((((stk.setNext pre (some next)).setPre next (some pre)).setNext tail
      (some curNode)).setPre curNode (some tail)).head = some curNode := hhead
  unfold stackHit
  rw [if_neg hnotTail]
  simp only [hpre, hnext, hfields, htail']
  rw [if_neg hhead']
  rfl

theorem stackHit_spec
    (hr : Ring (stackLinks stk) none ((xs ++ curNode :: ys).map some)) (hys : ys ≠ []) :
    exists stk', stackHit stk curNode = some stk' ∧
      Ring (stackLinks stk') none ((xs ++ ys ++ [curNode]).map some) ∧
      SamePages stk stk' := by
  rcases List.eq_nil_or_concat xs with hnil | ⟨zs, pre, hsnoc⟩
  · subst hnil
    exact stackHit_head_spec hr hys
  · rw [List.concat_eq_append] at hsnoc
    subst hsnoc
    exact stackHit_inner_spec hr hys

theorem stackFault_spec (pageNum : Int)
    (hr : Ring (stackLinks stk) none ((curNode :: ys).map some)) (hys : ys ≠ []) :
    exists stk', stackFault stk pageNum = some (stk', (stk.nodes curNode).pageIndex) ∧
      Ring (stackLinks stk') none ((ys ++ [curNode]).map some) ∧
      SamePages (stk.setPageNum curNode pageNum) stk' := by
  have hr' : Ring (stackLinks stk) none (([] ++ curNode :: ys).map some) := hr
  rcases tail_of_ring hr' hys with ⟨tail, htail, htailNe⟩
  rcases next_of_ring hr' hys with ⟨next, hnext, hnextNe⟩
  have hhead : stk.head = some curNode := hr.next_header
  have hpre : (stk.nodes curNode).pre = none := by
    have hnode : Ring (stackLinks stk) none ([] ++ some curNode :: ys.map some) := hr
    exact hnode.prev_node
  have hcut : stackLinks (((stk.setHead (some next)).setPre next none).setPageNum curNode
      pageNum) = (stackLinks stk).unlink (some curNode) := by
    unfold Links.unlink
    simp only [stackLinks_setPre, stackLinks_setHead, stackLinks_setPageNum]
    rw [show (stackLinks stk).prev (some curNode) = none from hpre,
      show (stackLinks stk).next (some curNode) = some next from hnext]
  have hsame : SamePages stk ((stk.setHead (some next)).setPre next none) :=
    samePages_setPre (stk.setHead (some next)) next none
  refine ⟨appendNode (((stk.setHead (some next)).setPre next none).setPageNum curNode pageNum)
    tail curNode, ?_, ring_appendNode hr' hys htail hcut,
    (hsame.setPageNum curNode pageNum).trans (samePages_appendNode _ tail curNode)⟩
  have htail' : (((stk.setHead (some next)).setPre next none).setPageNum curNode
      pageNum).tail = some tail := htail
  have hindex : ((((stk.setHead (some next)).setPre next none).setPageNum curNode
      pageNum).nodes curNode).pageIndex = (stk.nodes curNode).pageIndex := by
    rw [setPageNum_pageIndex]
    exact (hsame curNode).right
  have hhead' : (stk.setHead (some next)).head = some next := rfl
  unfold stackFault
  rw [hhead]
  simp only [hnext, hhead', htail', hindex]
  rfl

end Move

/-!
# Searching the list
-/

theorem findNode_spec {stk : PageStack} {xs ys : List Nat} {pageNum : Int} {fuel : Nat}
    (hr : Ring (stackLinks stk) none ((xs ++ ys).map some)) (hfuel : ys.length < fuel) :
    findNode stk pageNum fuel (firstTo (ys.map some) none) =
      some (ys.find? fun y => (stk.nodes y).pageNum = pageNum) := by
  induction ys generalizing xs fuel with
  | nil =>
      cases fuel with
      | zero => cases hfuel
      | succ fuel => rfl
  | cons y ys ih =>
      cases fuel with
      | zero => cases hfuel
      | succ fuel =>
          have hmapped : Ring (stackLinks stk) none (xs.map some ++ some y :: ys.map some) := by
            simpa using hr
          have hnext : (stk.nodes y).next = firstTo (ys.map some) none := hmapped.next_node
          have hshift : Ring (stackLinks stk) none (((xs ++ [y]) ++ ys).map some) := by
            simpa using hr
          change (if (stk.nodes y).pageNum = pageNum then some (some y)
            else findNode stk pageNum fuel (stk.nodes y).next) = _
          by_cases hfound : (stk.nodes y).pageNum = pageNum
          · rw [if_pos hfound, List.find?_cons_of_pos (by simpa using hfound)]
          · rw [if_neg hfound, List.find?_cons_of_neg (by simpa using hfound), hnext]
            exact ih hshift (Nat.lt_of_succ_lt_succ hfuel)

/-!
# One reference
-/

structure StackRep (s : LruStackState) (a : Recency) : Prop where
  frames_eq : s.pageFrame = a.frames
  ring : Ring (stackLinks s.stack) none (a.order.map some)
  index_eq : forall x, x ∈ a.order -> (s.stack.nodes x).pageIndex = x
  num_eq : forall x, x ∈ a.order -> (s.stack.nodes x).pageNum = a.frames x

theorem StackRep.find {s : LruStackState} {a : Recency} (h : StackRep s a) {n : Nat}
    (hrecent : Recent n a) (pageNum : Int) :
    findNode s.stack pageNum (n + 1) s.stack.head = some (a.holder pageNum) := by
  have hlen : a.order.length < n + 1 := by
    rw [hrecent.perm.length_eq, List.length_range]
    exact Nat.lt_succ_self n
  have hhead : s.stack.head = firstTo (a.order.map some) none := h.ring.next_header
  have hring : Ring (stackLinks s.stack) none (([] ++ a.order).map some) := h.ring
  rw [hhead, findNode_spec hring hlen]
  unfold Recency.holder
  congr 1
  apply List.find?_congr
  intro x hx
  rw [h.num_eq x hx]

theorem StackRep.hit {s : LruStackState} {a : Recency} (h : StackRep s a) {x : Nat}
    (hnodup : a.order.Nodup) (hx : x ∈ a.order) :
    exists stk, stackHit s.stack x = some stk ∧
      StackRep { s with stack := stk } { a with order := moveToBack a.order x } := by
  rcases List.append_of_mem hx with ⟨xs, ys, hsplit⟩
  have hnot : x ∉ xs := by
    rw [hsplit] at hnodup
    intro hbad
    exact (List.nodup_append.mp hnodup).right.right x hbad x (by simp) rfl
  have hmoved : moveToBack a.order x = xs ++ ys ++ [x] := by
    rw [hsplit, moveToBack_split hnot]
  have hring := h.ring
  rw [hsplit] at hring
  cases ys with
  | nil =>
      have htail : s.stack.tail = some x := by
        have hlast : s.stack.tail = lastFrom none ((xs ++ [x]).map some) := hring.prev_header
        rw [hlast, List.map_append, List.map_singleton, lastFrom_snoc]
      refine ⟨s.stack, ?_, ?_⟩
      · unfold stackHit
        rw [if_pos htail]
      · rw [List.append_nil, ← hsplit] at hmoved
        rw [hmoved]
        exact h
  | cons y ys =>
      rcases stackHit_spec hring (List.cons_ne_nil y ys) with ⟨stk, hhit, hring', hsame⟩
      refine ⟨stk, hhit, ?_⟩
      constructor
      · exact h.frames_eq
      · change Ring (stackLinks stk) none ((moveToBack a.order x).map some)
        rw [hmoved]
        exact hring'
      · intro z hz
        exact (hsame z).right.trans (h.index_eq z ((moveToBack_perm hx).mem_iff.mp hz))
      · intro z hz
        exact (hsame z).left.trans (h.num_eq z ((moveToBack_perm hx).mem_iff.mp hz))

theorem StackRep.fault {s : LruStackState} {a : Recency} (h : StackRep s a) {x : Nat}
    {rest : List Nat} (horder : a.order = x :: rest) (hrest : rest ≠ []) (pageNum : Int) :
    exists stk, stackFault s.stack pageNum = some (stk, x) ∧
      StackRep (LruStackState.mk (Function.update s.pageFrame x pageNum) stk)
        (a.place x pageNum) := by
  have hring := h.ring
  rw [horder] at hring
  rcases stackFault_spec pageNum hring hrest with ⟨stk, hfault, hring', hsame⟩
  have hx : x ∈ a.order := by
    rw [horder]
    exact List.mem_cons_self
  rw [h.index_eq x hx] at hfault
  refine ⟨stk, hfault, ?_⟩
  constructor
  · change Function.update s.pageFrame x pageNum = Function.update a.frames x pageNum
    rw [h.frames_eq]
  · change Ring (stackLinks stk) none ((moveToBack a.order x).map some)
    rw [horder, moveToBack_cons]
    exact hring'
  · intro y hy
    change (stk.nodes y).pageIndex = y
    rw [(hsame y).right, setPageNum_pageIndex]
    exact h.index_eq y ((moveToBack_perm hx).mem_iff.mp hy)
  · intro y hy
    change (stk.nodes y).pageNum = Function.update a.frames x pageNum y
    rw [(hsame y).left, setPageNum_pageNum, Function.update_apply]
    by_cases hyx : y = x
    · rw [if_pos hyx, if_pos hyx]
    · rw [if_neg hyx, if_neg hyx]
      exact h.num_eq y ((moveToBack_perm hx).mem_iff.mp hy)

theorem StackRep.refer {s : LruStackState} {a : Recency} (h : StackRep s a) {n : Nat}
    (hrecent : Recent n a) (hn : 2 ≤ n) (pageNum : Int) :
    exists s', lruStackRefer n s pageNum = some ((a.refer pageNum).fst, s') ∧
      StackRep s' (a.refer pageNum).snd := by
  have hlen : a.order.length = n := by
    rw [hrecent.perm.length_eq, List.length_range]
  unfold lruStackRefer
  rw [h.find hrecent]
  cases hholder : a.holder pageNum with
  | some x =>
      rcases h.hit hrecent.nodup (holder_some hholder).left with ⟨stk, hhit, hrep⟩
      rw [refer_hit hholder]
      exact ⟨{ s with stack := stk }, by simp only [hhit], hrep⟩
  | none =>
      cases horder : a.order with
      | nil =>
          rw [horder, List.length_nil] at hlen
          lia
      | cons x rest =>
          have hrest : rest ≠ [] := by
            intro hnil
            rw [horder, hnil, List.length_singleton] at hlen
            lia
          rcases h.fault horder hrest pageNum with ⟨stk, hfault, hrep⟩
          rw [refer_fault hholder horder]
          exact ⟨LruStackState.mk (Function.update s.pageFrame x pageNum) stk,
            by simp only [hfault], hrep⟩

/-!
# The initial stack
-/

theorem lastFrom_range (m : Nat) :
    lastFrom none ((List.range (m + 1)).map some) = some m := by
  rw [List.range_succ, List.map_append, List.map_singleton, lastFrom_snoc]

def pushNode (stk : PageStack) (m : Nat) : PageStack :=
  ((stk.modifyNode (m + 1) fun _ => creatPageNodeLru (-1) (m + 1)).setNext m
    (some (m + 1))).setPre (m + 1) (some m)

theorem pushNode_nodes (stk : PageStack) (m x : Nat) :
    (pushNode stk m).nodes x =
      if x = m + 1 then PageNodeLru.mk (-1) (m + 1) (some m) none
      else if x = m then { stk.nodes m with next := some (m + 1) }
      else stk.nodes x := by
  have hne : m ≠ m + 1 := by lia
  unfold pushNode PageStack.setPre PageStack.setNext
  rw [modifyNode_nodes]
  by_cases hx : x = m + 1
  · rw [if_pos hx, if_pos hx, modifyNode_nodes, if_neg hne.symm, modifyNode_nodes, if_pos rfl]
    rfl
  · rw [if_neg hx, if_neg hx, modifyNode_nodes, modifyNode_nodes, if_neg hne,
      modifyNode_nodes, if_neg hx]

theorem ring_pushNode {stk : PageStack} {m : Nat}
    (hr : Ring (stackLinks (stk.setTail (some m))) none ((List.range (m + 1)).map some)) :
    Ring (stackLinks ((pushNode stk m).setTail (some (m + 1)))) none
      ((List.range (m + 1 + 1)).map some) := by
  have hr' : Ring (stackLinks (stk.setTail (some m))) none
      ((List.range (m + 1)).map some ++ []) := by
    rw [List.append_nil]
    exact hr
  rw [List.range_succ, List.map_append, List.map_singleton]
  apply hr'.insert_of
  · simp
  · rw [lastFrom_range]
    constructor
    · change ((pushNode stk m).nodes m).next = some (m + 1)
      rw [pushNode_nodes, if_neg (by lia), if_pos rfl]
    · change ((pushNode stk m).nodes (m + 1)).pre = some m
      rw [pushNode_nodes, if_pos rfl]
  · constructor
    · change ((pushNode stk m).nodes (m + 1)).next = none
      rw [pushNode_nodes, if_pos rfl]
    · rfl
  · intro c hc hne
    rw [lastFrom_range] at hne
    cases c with
    | none => rfl
    | some x =>
        have hx : x < m + 1 := by simpa using hc
        have hxm : x ≠ m := fun heq => hne (by rw [heq])
        change ((pushNode stk m).nodes x).next = (stk.nodes x).next
        rw [pushNode_nodes, if_neg (by lia), if_neg hxm]
  · intro c hc hne
    cases c with
    | none => exact absurd rfl hne
    | some x =>
        have hx : x < m + 1 := by simpa using hc
        change ((pushNode stk m).nodes x).pre = (stk.nodes x).pre
        rw [pushNode_nodes, if_neg (by lia)]
        split
        · rename_i heq
          rw [heq]
        · rfl

theorem initPageStackLoop_spec {k m : Nat} {stk : PageStack}
    (hr : Ring (stackLinks (stk.setTail (some m))) none ((List.range (m + 1)).map some))
    (hpages : forall x, x < m + 1 ->
      (stk.nodes x).pageNum = -1 ∧ (stk.nodes x).pageIndex = x) :
    Ring (stackLinks (initPageStackLoop k (m + 1) m stk)) none
        ((List.range (m + 1 + k)).map some) ∧
      forall x, x < m + 1 + k ->
        ((initPageStackLoop k (m + 1) m stk).nodes x).pageNum = -1 ∧
          ((initPageStackLoop k (m + 1) m stk).nodes x).pageIndex = x := by
  induction k generalizing m stk with
  | zero => exact ⟨hr, hpages⟩
  | succ k ih =>
      have hpages' : forall x, x < m + 1 + 1 ->
          ((pushNode stk m).nodes x).pageNum = -1 ∧
            ((pushNode stk m).nodes x).pageIndex = x := by
        intro x hx
        rw [pushNode_nodes]
        split
        · rename_i heq
          exact ⟨rfl, heq.symm⟩
        · split
          · rename_i heq
            rw [heq]
            exact hpages m (Nat.lt_succ_self m)
          · exact hpages x (by lia)
      have hrest := ih (ring_pushNode hr) hpages'
      rw [Nat.add_assoc (m + 1) 1 k, Nat.add_comm 1 k] at hrest
      exact hrest

theorem initPageStack_rep {n : Nat} (hn : 1 ≤ n) :
    StackRep (LruStackState.mk (fun _ => -1) (initPageStack n)) (initialRecency n) := by
  have hr : Ring (stackLinks ((PageStack.mk (fun _ => creatPageNodeLru (-1) 0) (some 0)
      none).setTail (some 0))) none ((List.range (0 + 1)).map some) := by
    constructor
    · simp
    · simp [stackLinks, Linked, setTail, creatPageNodeLru]
  have hspec := initPageStackLoop_spec (k := n - 1) hr (by
    intro x hx
    exact ⟨rfl, by
      change 0 = x
      lia⟩)
  have hsize : 0 + 1 + (n - 1) = n := by lia
  rw [hsize] at hspec
  constructor
  · rfl
  · exact hspec.left
  · intro x hx
    exact (hspec.right x (List.mem_range.mp hx)).right
  · intro x hx
    exact (hspec.right x (List.mem_range.mp hx)).left

end Paging
end OsLabs
