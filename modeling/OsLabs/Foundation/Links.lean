import Mathlib.Data.List.Chain
import Mathlib.Data.List.Nodup
import Mathlib.Logic.Function.Basic

/-!
# Doubly linked rings

A memory of intrusive list nodes is a pair of total maps, one for each pointer
field.  A ring is a circular list in such a memory: a walk that leaves a header
node, is linked in both directions along the way, and comes back to the header
without meeting a node twice.  A list that ends in null pointers is the ring
whose header is the null pointer.

Inserting between two neighbours and unlinking a node are the only two updates;
both are described by what they do to the list of nodes on the ring.
-/

namespace OsLabs
namespace Foundation

structure Links (alpha : Type) where
  next : alpha -> alpha
  prev : alpha -> alpha

namespace Links

section Updates

variable {alpha : Type} [DecidableEq alpha]

def setNext (L : Links alpha) (a v : alpha) : Links alpha :=
  { L with next := Function.update L.next a v }

def setPrev (L : Links alpha) (a v : alpha) : Links alpha :=
  { L with prev := Function.update L.prev a v }

@[simp] theorem setNext_prev (L : Links alpha) (a v : alpha) :
    (L.setNext a v).prev = L.prev := rfl

@[simp] theorem setPrev_next (L : Links alpha) (a v : alpha) :
    (L.setPrev a v).next = L.next := rfl

@[simp] theorem setNext_next (L : Links alpha) (a v b : alpha) :
    (L.setNext a v).next b = if b = a then v else L.next b := by
  simp [setNext, Function.update_apply]

@[simp] theorem setPrev_prev (L : Links alpha) (a v b : alpha) :
    (L.setPrev a v).prev b = if b = a then v else L.prev b := by
  simp [setPrev, Function.update_apply]

end Updates

variable {alpha : Type}

def Linked (L : Links alpha) (a b : alpha) : Prop :=
  L.next a = b ∧ L.prev b = a

structure Ring (L : Links alpha) (h : alpha) (xs : List alpha) : Prop where
  nodup : (h :: xs).Nodup
  chain : List.IsChain (Linked L) ((h :: xs) ++ [h])

/-!
# Framing

A chain reads the `next` field of all its nodes but the last, and the `prev`
field of all its nodes but the first.
-/

theorem chain_congr {L L' : Links alpha} {xs : List alpha}
    (h : List.IsChain (Linked L) xs)
    (hnext : forall c, c ∈ xs.dropLast -> L'.next c = L.next c)
    (hprev : forall c, c ∈ xs.tail -> L'.prev c = L.prev c) :
    List.IsChain (Linked L') xs := by
  induction xs with
  | nil => exact List.IsChain.nil
  | cons a xs ih =>
      cases xs with
      | nil => exact List.IsChain.singleton a
      | cons b xs =>
          rw [List.isChain_cons_cons] at h ⊢
          rcases h with ⟨⟨hab, hba⟩, hrest⟩
          refine ⟨⟨?_, ?_⟩, ?_⟩
          · rw [hnext a (by simp), hab]
          · rw [hprev b (by simp), hba]
          · apply ih hrest
            · intro c hc
              exact hnext c (by simp [hc])
            · intro c hc
              exact hprev c (List.mem_of_mem_tail hc)

/-- The node before the gap that follows `xs` on a ring with header `h`. -/
def lastFrom (h : alpha) (xs : List alpha) : alpha :=
  (h :: xs).getLast (List.cons_ne_nil h xs)

/-- The node after the gap that precedes `ys` on a ring with header `h`. -/
def firstTo (ys : List alpha) (h : alpha) : alpha :=
  (ys ++ [h]).head (by simp)

@[simp] theorem lastFrom_nil (h : alpha) : lastFrom h [] = h := rfl

@[simp] theorem lastFrom_snoc (h x : alpha) (xs : List alpha) :
    lastFrom h (xs ++ [x]) = x := by
  simp [lastFrom]

@[simp] theorem firstTo_nil (h : alpha) : firstTo [] h = h := rfl

@[simp] theorem firstTo_cons (y h : alpha) (ys : List alpha) :
    firstTo (y :: ys) h = y := rfl

theorem lastFrom_mem (h : alpha) (xs : List alpha) : lastFrom h xs ∈ h :: xs :=
  List.getLast_mem (List.cons_ne_nil h xs)

theorem firstTo_mem (ys : List alpha) (h : alpha) : firstTo ys h ∈ h :: ys := by
  cases ys with
  | nil => simp
  | cons y ys => simp

theorem lastFrom_ne {h : alpha} {xs : List alpha} (hh : h ∉ xs) (hxs : xs ≠ []) :
    lastFrom h xs ≠ h := by
  intro heq
  unfold lastFrom at heq
  rw [List.getLast_cons hxs] at heq
  exact hh (heq ▸ List.getLast_mem hxs)

theorem firstTo_ne {h : alpha} {ys : List alpha} (hh : h ∉ ys) (hys : ys ≠ []) :
    firstTo ys h ≠ h := by
  cases ys with
  | nil => exact absurd rfl hys
  | cons y ys =>
      intro heq
      exact hh (heq ▸ List.mem_cons_self)

theorem chain_gap {L : Links alpha} {h : alpha} {xs ys : List alpha} :
    List.IsChain (Linked L) ((h :: xs) ++ (ys ++ [h])) <->
      List.IsChain (Linked L) (h :: xs) ∧
        List.IsChain (Linked L) (ys ++ [h]) ∧
          Linked L (lastFrom h xs) (firstTo ys h) := by
  rw [List.isChain_append]
  have hlast : (h :: xs).getLast? = some (lastFrom h xs) :=
    List.getLast?_eq_some_getLast (List.cons_ne_nil h xs)
  have hfirst : (ys ++ [h]).head? = some (firstTo ys h) := by
    cases ys with
    | nil => rfl
    | cons y ys => rfl
  rw [hlast, hfirst]
  simp

theorem Ring.header_not_mem {L : Links alpha} {h : alpha} {xs : List alpha}
    (hr : Ring L h xs) : h ∉ xs :=
  (List.nodup_cons.mp hr.nodup).left

theorem Ring.nodes_nodup {L : Links alpha} {h : alpha} {xs : List alpha}
    (hr : Ring L h xs) : xs.Nodup :=
  (List.nodup_cons.mp hr.nodup).right

/-- Cutting a ring open at any gap leaves two chains and the link across. -/
theorem Ring.gap {L : Links alpha} {h : alpha} {xs ys : List alpha}
    (hr : Ring L h (xs ++ ys)) :
    List.IsChain (Linked L) (h :: xs) ∧
      List.IsChain (Linked L) (ys ++ [h]) ∧
        Linked L (lastFrom h xs) (firstTo ys h) := by
  apply chain_gap.mp
  simpa [List.append_assoc] using hr.chain

theorem Ring.next_lastFrom {L : Links alpha} {h : alpha} {xs ys : List alpha}
    (hr : Ring L h (xs ++ ys)) : L.next (lastFrom h xs) = firstTo ys h :=
  hr.gap.right.right.left

theorem Ring.prev_firstTo {L : Links alpha} {h : alpha} {xs ys : List alpha}
    (hr : Ring L h (xs ++ ys)) : L.prev (firstTo ys h) = lastFrom h xs :=
  hr.gap.right.right.right

theorem Ring.next_header {L : Links alpha} {h : alpha} {xs : List alpha}
    (hr : Ring L h xs) : L.next h = firstTo xs h := by
  have hr' : Ring L h ([] ++ xs) := hr
  exact hr'.next_lastFrom

theorem Ring.prev_header {L : Links alpha} {h : alpha} {xs : List alpha}
    (hr : Ring L h xs) : L.prev h = lastFrom h xs := by
  have hr' : Ring L h (xs ++ []) := by simpa using hr
  exact hr'.prev_firstTo

theorem Ring.next_node {L : Links alpha} {h x : alpha} {xs ys : List alpha}
    (hr : Ring L h (xs ++ x :: ys)) : L.next x = firstTo ys h := by
  have hr' : Ring L h ((xs ++ [x]) ++ ys) := by simpa using hr
  simpa using hr'.next_lastFrom

theorem Ring.prev_node {L : Links alpha} {h x : alpha} {xs ys : List alpha}
    (hr : Ring L h (xs ++ x :: ys)) : L.prev x = lastFrom h xs := by
  simpa using hr.prev_firstTo

theorem Ring.inverse {L : Links alpha} {h : alpha} {xs : List alpha}
    (hr : Ring L h xs) {c : alpha} (hc : c ∈ h :: xs) :
    L.prev (L.next c) = c ∧ L.next (L.prev c) = c := by
  rcases List.mem_cons.mp hc with rfl | hmem
  · constructor
    · rw [hr.next_header]
      have hr' : Ring L c ([] ++ xs) := hr
      exact hr'.prev_firstTo
    · rw [hr.prev_header]
      have hr' : Ring L c (xs ++ []) := by simpa using hr
      exact hr'.next_lastFrom
  · rcases List.append_of_mem hmem with ⟨pre, post, rfl⟩
    constructor
    · rw [hr.next_node]
      have hr' : Ring L h ((pre ++ [c]) ++ post) := by simpa using hr
      simpa using hr'.prev_firstTo
    · rw [hr.prev_node]
      simpa using hr.next_lastFrom

/-!
# Changing a ring at one gap

The two chains on the sides of a gap survive every update that touches `next`
only at the node before the gap (or off the ring) and `prev` only at the node
after it (or off the ring).
-/

theorem gap_chains_congr {L L' : Links alpha} {h : alpha} {xs ys : List alpha}
    (hnodup : (h :: (xs ++ ys)).Nodup)
    (hleft : List.IsChain (Linked L) (h :: xs))
    (hright : List.IsChain (Linked L) (ys ++ [h]))
    (hnext : forall c, c ∈ h :: (xs ++ ys) -> c ≠ lastFrom h xs ->
      L'.next c = L.next c)
    (hprev : forall c, c ∈ h :: (xs ++ ys) -> c ≠ firstTo ys h ->
      L'.prev c = L.prev c) :
    List.IsChain (Linked L') (h :: xs) ∧
      List.IsChain (Linked L') (ys ++ [h]) := by
  have hcat : ((h :: xs) ++ ys).Nodup := by simpa using hnodup
  have hleftNodup : (h :: xs).Nodup := (List.nodup_append.mp hcat).left
  have hdisjoint : forall a, a ∈ h :: xs -> forall b, b ∈ ys -> a ≠ b :=
    (List.nodup_append.mp hcat).right.right
  have hysNodup : ys.Nodup := (List.nodup_append.mp hcat).right.left
  constructor
  · apply chain_congr hleft
    · intro c hc
      apply hnext c
      · have hmem : c ∈ h :: xs := List.dropLast_subset (h :: xs) hc
        rcases List.mem_cons.mp hmem with hch | hcx
        · simp [hch]
        · simp [hcx]
      · intro heq
        have hsplit := List.dropLast_append_getLast (List.cons_ne_nil h xs)
        rw [← hsplit] at hleftNodup
        have hne := (List.nodup_append.mp hleftNodup).right.right c hc
          (lastFrom h xs) (by simp [lastFrom])
        exact hne heq
    · intro c hc
      have hmem : c ∈ xs := by simpa using hc
      apply hprev c
      · simp [hmem]
      · intro heq
        have hfirst := firstTo_mem ys h
        rw [← heq] at hfirst
        rcases List.mem_cons.mp hfirst with hch | hcy
        · rw [hch] at hmem
          exact (List.nodup_cons.mp hleftNodup).left hmem
        · exact hdisjoint c (List.mem_cons_of_mem h hmem) c hcy rfl
  · apply chain_congr hright
    · intro c hc
      have hmem : c ∈ ys := by simpa using hc
      apply hnext c
      · simp [hmem]
      · intro heq
        have hlast := lastFrom_mem h xs
        rw [← heq] at hlast
        exact hdisjoint c hlast c hmem rfl
    · intro c hc
      apply hprev c
      · have hmem : c ∈ ys ++ [h] := List.mem_of_mem_tail hc
        simp only [List.mem_append, List.mem_singleton] at hmem
        rcases hmem with hcy | hch
        · simp [hcy]
        · simp [hch]
      · intro heq
        cases ys with
        | nil => simp at hc
        | cons y ys =>
            have hyNodup : y ∉ ys := (List.nodup_cons.mp hysNodup).left
            simp only [List.cons_append, List.tail_cons, List.mem_append,
              List.mem_singleton] at hc
            rcases hc with hcy | hch
            · rw [heq] at hcy
              exact hyNodup hcy
            · exact hdisjoint h (by simp) y (by simp)
                (by rw [← hch, heq]; rfl)

theorem Ring.insert_of {L L' : Links alpha} {h y : alpha} {xs ys : List alpha}
    (hr : Ring L h (xs ++ ys)) (hfresh : y ∉ h :: (xs ++ ys))
    (hbefore : Linked L' (lastFrom h xs) y)
    (hafter : Linked L' y (firstTo ys h))
    (hnext : forall c, c ∈ h :: (xs ++ ys) -> c ≠ lastFrom h xs ->
      L'.next c = L.next c)
    (hprev : forall c, c ∈ h :: (xs ++ ys) -> c ≠ firstTo ys h ->
      L'.prev c = L.prev c) :
    Ring L' h (xs ++ y :: ys) := by
  rcases hr.gap with ⟨hleft, hright, _⟩
  rcases gap_chains_congr hr.nodup hleft hright hnext hprev with
    ⟨hleft', hright'⟩
  constructor
  · have hperm : (h :: (xs ++ y :: ys)).Perm (y :: h :: (xs ++ ys)) :=
      (List.Perm.cons h List.perm_middle).trans (List.Perm.swap y h _)
    exact hperm.nodup_iff.mpr (List.nodup_cons.mpr ⟨hfresh, hr.nodup⟩)
  · have hlast : (h :: xs).getLast? = some (lastFrom h xs) :=
      List.getLast?_eq_some_getLast (List.cons_ne_nil h xs)
    have hsplit : (h :: (xs ++ y :: ys)) ++ [h] =
        (h :: xs) ++ (y :: (ys ++ [h])) := by
      simp
    rw [hsplit, List.isChain_append, hlast]
    refine ⟨hleft', ?_, ?_⟩
    · rw [List.isChain_cons]
      constructor
      · intro z hz
        have hfirst : z = firstTo ys h := by
          cases ys with
          | nil => simpa using hz.symm
          | cons w ws => simpa using hz.symm
        rw [hfirst]
        exact hafter
      · exact hright'
    · intro a ha b hb
      simp only [Option.mem_def, Option.some.injEq, List.head?_cons] at ha hb
      rw [← ha, ← hb]
      exact hbefore

theorem Ring.remove_of {L L' : Links alpha} {h x : alpha} {xs ys : List alpha}
    (hr : Ring L h (xs ++ x :: ys))
    (hlink : Linked L' (lastFrom h xs) (firstTo ys h))
    (hnext : forall c, c ∈ h :: (xs ++ ys) -> c ≠ lastFrom h xs ->
      L'.next c = L.next c)
    (hprev : forall c, c ∈ h :: (xs ++ ys) -> c ≠ firstTo ys h ->
      L'.prev c = L.prev c) :
    Ring L' h (xs ++ ys) := by
  have hleft : List.IsChain (Linked L) (h :: xs) := hr.gap.left
  have hright : List.IsChain (Linked L) (ys ++ [h]) := by
    have hx := hr.gap.right.left
    rw [List.cons_append, List.isChain_cons] at hx
    exact hx.right
  have hnodup : (h :: (xs ++ ys)).Nodup := by
    have hperm : (h :: (xs ++ x :: ys)).Perm (x :: h :: (xs ++ ys)) :=
      (List.Perm.cons h List.perm_middle).trans (List.Perm.swap x h _)
    exact (List.nodup_cons.mp (hperm.nodup_iff.mp hr.nodup)).right
  rcases gap_chains_congr hnodup hleft hright hnext hprev with
    ⟨hleft', hright'⟩
  constructor
  · exact hnodup
  · have hchain := chain_gap.mpr ⟨hleft', hright', hlink⟩
    simpa [List.append_assoc] using hchain

/-!
# Renaming the nodes
-/

theorem Ring.map_of {L L' : Links alpha} {h : alpha} {xs : List alpha} {f : alpha -> alpha}
    (hr : Ring L h xs) (hinj : Function.Injective f) (hh : f h = h)
    (hnext : forall c, c ∈ h :: xs -> L'.next (f c) = f (L.next c))
    (hprev : forall c, c ∈ h :: xs -> L'.prev (f c) = f (L.prev c)) :
    Ring L' h (xs.map f) := by
  have hmem : forall c, c ∈ (h :: xs) ++ [h] -> c ∈ h :: xs := by
    intro c hc
    rcases List.mem_append.mp hc with hin | hlast
    · exact hin
    · rw [List.mem_singleton.mp hlast]
      exact List.mem_cons_self
  constructor
  · have hnodup := hr.nodup.map hinj
    rw [List.map_cons, hh] at hnodup
    exact hnodup
  · have hcat : (h :: xs.map f) ++ [h] = ((h :: xs) ++ [h]).map f := by
      simp [hh]
    rw [hcat, List.isChain_map]
    apply hr.chain.imp_of_mem_imp
    intro a b ha hb hab
    constructor
    · rw [hnext a (hmem a ha), hab.left]
    · rw [hprev b (hmem b hb), hab.right]

theorem firstTo_map {f : alpha -> alpha} {h : alpha} (hh : f h = h) (ys : List alpha) :
    firstTo (ys.map f) h = f (firstTo ys h) := by
  cases ys with
  | nil => exact hh.symm
  | cons y ys => rfl

theorem lastFrom_map {f : alpha -> alpha} {h : alpha} (hh : f h = h) (xs : List alpha) :
    lastFrom h (xs.map f) = f (lastFrom h xs) := by
  cases List.eq_nil_or_concat xs with
  | inl hnil =>
      rw [hnil]
      exact hh.symm
  | inr hsnoc =>
      rcases hsnoc with ⟨zs, z, hsnoc⟩
      rw [hsnoc, List.concat_eq_append, List.map_append, List.map_singleton, lastFrom_snoc,
        lastFrom_snoc]

/-!
# The two updates as programs
-/

variable [DecidableEq alpha]

def linkBetween (L : Links alpha) (y prev next : alpha) : Links alpha :=
  (((L.setPrev next y).setNext prev y).setNext y next).setPrev y prev

def unlink (L : Links alpha) (x : alpha) : Links alpha :=
  (L.setNext (L.prev x) (L.next x)).setPrev (L.next x) (L.prev x)

theorem Ring.linkBetween {L : Links alpha} {h y : alpha} {xs ys : List alpha}
    (hr : Ring L h (xs ++ ys)) (hfresh : y ∉ h :: (xs ++ ys)) :
    Ring (L.linkBetween y (lastFrom h xs) (firstTo ys h)) h (xs ++ y :: ys) := by
  have hlast : lastFrom h xs ≠ y := by
    intro heq
    have hmem := lastFrom_mem h xs
    rw [heq] at hmem
    rcases List.mem_cons.mp hmem with hy | hy
    · exact hfresh (by simp [hy])
    · exact hfresh (by simp [hy])
  have hfirst : firstTo ys h ≠ y := by
    intro heq
    have hmem := firstTo_mem ys h
    rw [heq] at hmem
    rcases List.mem_cons.mp hmem with hy | hy
    · exact hfresh (by simp [hy])
    · exact hfresh (by simp [hy])
  apply hr.insert_of hfresh
  · simp [Linked, Links.linkBetween, hlast]
  · simp [Linked, Links.linkBetween, hfirst]
  · intro c hc hne
    have hcy : c ≠ y := fun heq => hfresh (heq ▸ hc)
    simp [Links.linkBetween, hcy, hne]
  · intro c hc hne
    have hcy : c ≠ y := fun heq => hfresh (heq ▸ hc)
    simp [Links.linkBetween, hcy, hne]

theorem Ring.unlink {L : Links alpha} {h x : alpha} {xs ys : List alpha}
    (hr : Ring L h (xs ++ x :: ys)) : Ring (L.unlink x) h (xs ++ ys) := by
  unfold Links.unlink
  rw [hr.prev_node, hr.next_node]
  apply hr.remove_of
  · simp [Linked]
  · intro c _ hne
    simp [hne]
  · intro c _ hne
    simp [hne]

def moveLast (L : Links alpha) (h x : alpha) : Links alpha :=
  (L.unlink x).linkBetween x (L.prev h) h

theorem Ring.moveLast {L : Links alpha} {h x : alpha} {xs ys : List alpha}
    (hr : Ring L h (xs ++ x :: ys)) (hys : ys ≠ []) :
    Ring (L.moveLast h x) h (xs ++ ys ++ [x]) := by
  have hcut : Ring (L.unlink x) h ((xs ++ ys) ++ []) := by
    rw [List.append_nil]
    exact hr.unlink
  have hperm : (h :: (xs ++ x :: ys)).Perm (x :: h :: (xs ++ ys)) :=
    (List.Perm.cons h List.perm_middle).trans (List.Perm.swap x h _)
  have hfresh : x ∉ h :: ((xs ++ ys) ++ []) := by
    rw [List.append_nil]
    exact (List.nodup_cons.mp (hperm.nodup_iff.mp hr.nodup)).left
  have hlast : L.prev h = lastFrom h (xs ++ ys) := by
    rw [hr.prev_header]
    unfold lastFrom
    rw [List.getLast_cons (by simp), List.getLast_cons (by simp [hys]),
      List.getLast_append_of_ne_nil _ (by simp), List.getLast_append_of_ne_nil _ hys,
      List.getLast_cons hys]
  have hadd := hcut.linkBetween hfresh
  rw [← hlast, firstTo_nil] at hadd
  exact hadd

end Links
end Foundation
end OsLabs
