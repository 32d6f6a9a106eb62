import Mathlib.Data.Int.LeastGreatest
import OsLabs.Debug.StabSteps

/-!
# What the stab search returns

While the address has no exact match the search closes in on the last entry that is not
above it and on the entry after that.  An exact match moves the searched address by one,
and from then on the entry after the match is an exact match as well when it is the
neighbouring address.  When every entry of the type lies above the address, the search
returns a range all the same.
-/

namespace OsLabs
namespace Debug

variable {stabs : Array Stab} {type left right m n : Int} {addr : BitVec 32} {s t : Search}

/-!
# An entry and the one after it
-/

/-- The next entry of the type after `m`, or the end of the range. -/
structure NextOfType (stabs : Array Stab) (type right m n : Int) : Prop where
  lt : m < n
  le_end : n ≤ right + 1
  typed : n ≤ right -> OfType stabs type n
  none_between : NoneOfType stabs type (m + 1) (n - 1)

theorem exists_nextOfType (stabs : Array Stab) (type : Int) (hm : m ≤ right) : exists n, NextOfType stabs type right m n := by
  by_cases hnone : NoneOfType stabs type (m + 1) right
  · refine ⟨right + 1, by lia, le_refl _, fun h => by lia, ?_⟩
    intro i hi hir
    exact hnone i hi (by lia)
  · have hsome : exists i, m < i ∧ i ≤ right ∧ OfType stabs type i := by
      by_contra hno
      apply hnone
      intro i hi hir htyped
      exact hno ⟨i, by lia, hir, htyped⟩
    rcases Int.exists_least_of_bdd ⟨m, fun z hz => le_of_lt hz.left⟩ hsome with
      ⟨n, ⟨hmn, hnr, htyped⟩, hleast⟩
    refine ⟨n, hmn, by lia, fun _ => htyped, ?_⟩
    intro i hi hin hof
    have hle := hleast i ⟨by lia, by lia, hof⟩
    lia

structure Bracket (stabs : Array Stab) (type left right m n : Int) : Prop where
  next : NextOfType stabs type right m n
  left_le : left ≤ m
  le_right : m ≤ right
  typed : OfType stabs type m

theorem Bracket.le_of_lt_next (h : Bracket stabs type left right m n) {i : Int} (hi : i < n)
    (htyped : OfType stabs type i) : i ≤ m := by
  by_contra hlt
  exact h.next.none_between i (by lia) (by lia) htyped

structure Spans (m n : Int) (s : Search) : Prop where
  l_le : s.l ≤ n
  le_r : n - 1 ≤ s.r

theorem Bracket.spans_start (h : Bracket stabs type left right m n) (addr : BitVec 32) :
    Spans m n (searchStart left right addr) := by
  have hlt := h.next.lt
  have hend := h.next.le_end
  have hleft := h.left_le
  refine ⟨?_, ?_⟩
  · change left ≤ n
    lia
  · change n - 1 ≤ right
    lia

/-!
# Closing in
-/

/-- Nothing in the range matches exactly, and what is left of the range starts after `m` only
when `m` has been met. -/
structure Closing (stabs : Array Stab) (type left right m n : Int) (s : Search) : Prop where
  bracket : Bracket stabs type left right m n
  spans : Spans m n s
  below : valueAt stabs m < s.addr
  above : n ≤ s.r -> s.addr < valueAt stabs n
  met : m < s.l -> s.regionLeft = m ∧ s.anyMatches = true

theorem Closing.round (h : Closing stabs type left right m n s)
    (hsorted : Increasing stabs type left right) (hwithin : Within stabs left right s)
    (hlr : s.l ≤ s.r) (hround : Round stabs type s t) : Closing stabs type left right m n t := by
  have hb := h.bracket
  have hlt := hb.next.lt
  have hend := hb.next.le_end
  have hln := h.spans.l_le
  have hnr := h.spans.le_r
  have hleft := hwithin.left_le
  have hright := hwithin.le_right
  have hlow := hb.left_le
  cases hround with
  | skip hnone =>
      have hmid : (s.l + s.r) / 2 < n := by
        by_contra hge
        exact hnone n hln (by lia) (hb.next.typed (by lia))
      refine ⟨hb, ⟨?_, hnr⟩, h.below, h.above, ?_⟩
      · change (s.l + s.r) / 2 + 1 ≤ n
        lia
      · intro hm
        apply h.met
        by_contra hge
        exact hnone m (by lia) (by change m < (s.l + s.r) / 2 + 1 at hm; lia) hb.typed
  | @smaller e hlast hvalue =>
      have hel := hlast.low_le
      have heh := hlast.le_high
      have hen : e < n := by
        by_contra hge
        have hnv := h.above (by lia)
        have hev := hsorted.value_le (by lia) (not_lt.mp hge) (by lia) (hb.next.typed (by lia))
          hlast.typed
        bv_omega
      have hem := hb.le_of_lt_next hen hlast.typed
      have hmid : (s.l + s.r) / 2 < n := by
        by_contra hge
        exact hlast.none_after n hen (by lia) (hb.next.typed (by lia))
      refine ⟨hb, ⟨?_, hnr⟩, h.below, h.above, ?_⟩
      · change (s.l + s.r) / 2 + 1 ≤ n
        lia
      · intro hm
        change m < (s.l + s.r) / 2 + 1 at hm
        have hme := hlast.le_last (by lia) hb.typed
        exact ⟨le_antisymm hem hme, rfl⟩
  | @larger e hlast hvalue =>
      have hel := hlast.low_le
      have heh := hlast.le_high
      have hbelow := h.below
      have hme : m < e :=
        hsorted.index_lt (by lia) hb.le_right hb.typed hlast.typed (by bv_omega)
      have hne : n ≤ e := by
        by_contra hge
        have hem := hb.le_of_lt_next (by lia) hlast.typed
        lia
      refine ⟨hb, ⟨hln, ?_⟩, hbelow, ?_, ?_⟩
      · change n - 1 ≤ e - 1
        lia
      · intro hr
        change n ≤ e - 1 at hr
        exact h.above (by lia)
      · intro hm
        exact ⟨(h.met hm).left, rfl⟩
  | @exact e hlast hvalue =>
      have hel := hlast.low_le
      have heh := hlast.le_high
      have hbelow := h.below
      have hme : m < e :=
        hsorted.index_lt (by lia) hb.le_right hb.typed hlast.typed (by bv_omega)
      have hne : n ≤ e := by
        by_contra hge
        have hem := hb.le_of_lt_next (by lia) hlast.typed
        lia
      have hnv := h.above (by lia)
      have hev := hsorted.value_le (by lia) hne (by lia) (hb.next.typed (by lia)) hlast.typed
      have hno : False := by bv_omega
      exact hno.elim

theorem Closing.done (h : Closing stabs type left right m n s)
    (hend : s.r < s.l) : s.regionLeft = m ∧ s.anyMatches = true ∧ s.r = n - 1 := by
  have hlt := h.bracket.next.lt
  have hln := h.spans.l_le
  have hnr := h.spans.le_r
  rcases h.met (by lia) with ⟨hm, hany⟩
  exact ⟨hm, hany, by lia⟩

/-!
# Before the exact match
-/

structure Seeking (stabs : Array Stab) (type m : Int) (s : Search) : Prop where
  typed : OfType stabs type m
  l_le : s.l ≤ m
  le_r : m ≤ s.r
  value : valueAt stabs m = s.addr

inductive CutBeside (stabs : Array Stab) (type m : Int) (s t : Search) : Prop where
  | left : (s.l + s.r) / 2 < m -> t.l = (s.l + s.r) / 2 + 1 -> t.r = s.r ->
      CutBeside stabs type m s t
  | right {e : Int} : m < e -> LastOfType stabs type s.l ((s.l + s.r) / 2) e -> t.l = s.l ->
      t.r = e - 1 -> CutBeside stabs type m s t

def Search.matched (s : Search) (m : Int) : Search :=
  { s with anyMatches := true, regionLeft := m, l := m, addr := s.addr + 1 }

theorem Seeking.round (h : Seeking stabs type m s) (hsorted : Increasing stabs type left right)
    (hwithin : Within stabs left right s) (hround : Round stabs type s t) :
    (Seeking stabs type m t ∧ t.addr = s.addr ∧ CutBeside stabs type m s t) ∨
      (LastOfType stabs type s.l ((s.l + s.r) / 2) m ∧ t = s.matched m) := by
  have hleft := hwithin.left_le
  have hright := hwithin.le_right
  have hlm := h.l_le
  have hmr := h.le_r
  have hvm := h.value
  cases hround with
  | skip hnone =>
      have hmid : (s.l + s.r) / 2 < m := by
        by_contra hge
        exact hnone m hlm (by lia) h.typed
      left
      exact ⟨⟨h.typed, Int.add_one_le_of_lt hmid, hmr, hvm⟩, rfl, CutBeside.left hmid rfl rfl⟩
  | @smaller e hlast hvalue =>
      have hel := hlast.low_le
      have heh := hlast.le_high
      have hmid : (s.l + s.r) / 2 < m := by
        by_contra hge
        have hme := hlast.le_last (by lia) h.typed
        have hev := hsorted.value_le (by lia) hme (by lia) h.typed hlast.typed
        bv_omega
      left
      exact ⟨⟨h.typed, Int.add_one_le_of_lt hmid, hmr, hvm⟩, rfl, CutBeside.left hmid rfl rfl⟩
  | @larger e hlast hvalue =>
      have hel := hlast.low_le
      have heh := hlast.le_high
      have hme : m < e :=
        hsorted.index_lt (by lia) (by lia) h.typed hlast.typed (by bv_omega)
      left
      exact ⟨⟨h.typed, hlm, Int.le_sub_one_of_lt hme, hvm⟩, rfl, CutBeside.right hme hlast rfl rfl⟩
  | @exact e hlast hvalue =>
      have hel := hlast.low_le
      have heh := hlast.le_high
      have heq : e = m :=
        hsorted.index_eq (by lia) (by lia) hlast.typed h.typed (hvalue.trans hvm.symm)
      subst heq
      right
      exact ⟨hlast, rfl⟩

/-!
# Discarding the neighbour
-/

theorem Bracket.next_le (h : Bracket stabs type left right m n) {i : Int} (hi : m < i)
    (htyped : OfType stabs type i) : n ≤ i := by
  by_contra hlt
  exact h.next.none_between i (by lia) (by lia) htyped

theorem splitsBefore_cutBelow_iff {l r : Int} (hmn : m < n) (hmid : (l + r) / 2 < m) :
    SplitsBefore stabs type m n l r <-> SplitsBefore stabs type m n ((l + r) / 2 + 1) r := by
  constructor
  · intro h
    cases h with
    | between hle _ => lia
    | cutBelow _ hrest => exact hrest
    | cutAbove hne hlast _ =>
        have hle := hlast.le_high
        lia
  · exact SplitsBefore.cutBelow hmid

theorem splitsBefore_cutAbove_iff {l r e : Int} (hmn : m < n) (hne : n < e)
    (hlast : LastOfType stabs type l ((l + r) / 2) e) :
    SplitsBefore stabs type m n l r <-> SplitsBefore stabs type m n l (e - 1) := by
  have hle := hlast.le_high
  constructor
  · intro h
    cases h with
    | between _ hlt => lia
    | cutBelow hlt _ => lia
    | cutAbove _ hlast' hrest =>
        rw [hlast.unique hlast']
        exact hrest
  · exact SplitsBefore.cutAbove hne hlast

/-- A middle from which the scan back comes to the neighbour discards it. -/
theorem not_splitsBefore_of_last {l r : Int} (hmn : m < n)
    (hlast : LastOfType stabs type l ((l + r) / 2) n) : ¬ SplitsBefore stabs type m n l r := by
  have hle := hlast.le_high
  intro h
  cases h with
  | between _ hlt => lia
  | cutBelow hlt _ => lia
  | cutAbove hne hlast' _ =>
      have heq := hlast.unique hlast'
      lia

/-- The exact match is met after the neighbour has been discarded, if there is one. -/
structure Separating (stabs : Array Stab) (type left right m n : Int) (addr : BitVec 32)
    (s : Search) : Prop where
  bracket : Bracket stabs type left right m n
  seeking : Seeking stabs type m s
  addr_eq : s.addr = addr
  le_r : n - 1 ≤ s.r
  discards : n ≤ s.r -> valueAt stabs n = addr + 1 -> ¬ SplitsBefore stabs type m n s.l s.r

theorem Separating.round (h : Separating stabs type left right m n addr s)
    (haddr : addr.toNat < 2 ^ 32 - 1) (hsorted : Increasing stabs type left right)
    (hwithin : Within stabs left right s) (hround : Round stabs type s t) :
    Separating stabs type left right m n addr t ∨ Closing stabs type left right m n t := by
  have hb := h.bracket
  have hmn := hb.next.lt
  have hend := hb.next.le_end
  have hnr := h.le_r
  have hlm := h.seeking.l_le
  have hmr := h.seeking.le_r
  have hright := hwithin.le_right
  rcases h.seeking.round hsorted hwithin hround with ⟨hseek, haddr', hcut⟩ | ⟨hlast, ht⟩
  · left
    rw [h.addr_eq] at haddr'
    cases hcut with
    | left hmid htl htr =>
        refine ⟨hb, hseek, haddr', by lia, ?_⟩
        intro hn hv
        rw [htl, htr, ← splitsBefore_cutBelow_iff hmn hmid]
        exact h.discards (by lia) hv
    | @right e hme hlast htl htr =>
        have hle := hlast.le_high
        have hne := hb.next_le hme hlast.typed
        refine ⟨hb, hseek, haddr', by lia, ?_⟩
        intro hn hv
        rw [htl, htr, ← splitsBefore_cutAbove_iff hmn (by lia) hlast]
        exact h.discards (by lia) hv
  · right
    have hmid := hlast.le_high
    have hvm := h.seeking.value
    rw [h.addr_eq] at hvm
    subst ht
    refine ⟨hb, ⟨?_, hnr⟩, ?_, ?_, ?_⟩
    · exact le_of_lt hmn
    · change valueAt stabs m < s.addr + 1
      rw [h.addr_eq, hvm]
      bv_omega
    · intro hn
      change n ≤ s.r at hn
      change s.addr + 1 < valueAt stabs n
      have hnv := hsorted m n hb.left_le hmn (by lia) hb.typed (hb.next.typed (by lia))
      have hne : valueAt stabs n ≠ addr + 1 := by
        intro hv
        apply h.discards hn hv
        apply SplitsBefore.between hmid
        by_contra hge
        exact hlast.none_after n hmn (by lia) (hb.next.typed (by lia))
      rw [h.addr_eq]
      bv_omega
    · intro hm
      exact ⟨rfl, rfl⟩

end Debug
end OsLabs
