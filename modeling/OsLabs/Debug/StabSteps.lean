import Mathlib.Tactic.Common
import Mathlib.Data.BitVec
import OsLabs.Debug.Stab

/-!
# The steps of the search

The scan back finds the last entry of the type, each round of the loop cuts the range in
one of four ways, and the loop ends after at most two rounds for each index.
-/

namespace OsLabs
namespace Debug

variable {stabs : Array Stab} {type left right : Int} {addr : BitVec 32} {s t : Search}

/-!
# Reading the table
-/

theorem stabAt_of_lt (stabs : Array Stab) {i : Int} (hlow : 0 ≤ i) (hhigh : i < stabs.size) :
    exists stab, stabAt stabs i = some stab := by
  have hlt : i.toNat < stabs.size := by lia
  exists stabs[i.toNat]
  rw [stabAt, if_pos hlow]
  exact Array.getElem?_eq_getElem hlt

theorem valueAt_eq {i : Int} {stab : Stab} (h : stabAt stabs i = some stab) :
    valueAt stabs i = stab.nValue := by
  rw [valueAt, h]
  rfl

theorem ofType_iff {i : Int} {stab : Stab} (h : stabAt stabs i = some stab) :
    OfType stabs type i <-> (stab.nType.toNat : Int) = type := by
  constructor
  · rintro ⟨other, hother, htype⟩
    rw [h] at hother
    cases hother
    exact htype
  · intro htype
    exact ⟨stab, h, htype⟩

theorem LastOfType.unique {low low' high e e' : Int} (h : LastOfType stabs type low high e)
    (h' : LastOfType stabs type low' high e') : e = e' := by
  have hle : e ≤ e' := by
    by_contra hlt
    exact h'.none_after e (by lia) h.le_high h.typed
  have hge : e' ≤ e := by
    by_contra hlt
    exact h.none_after e' (by lia) h'.le_high h'.typed
  exact le_antisymm hle hge

theorem LastOfType.le_last {low high e i : Int} (h : LastOfType stabs type low high e)
    (hi : i ≤ high) (htyped : OfType stabs type i) : i ≤ e := by
  by_contra hlt
  exact h.none_after i (by lia) hi htyped

/-- The scan back stops at the last entry of the type above `low`, or at `low`. -/
theorem searchBack_spec (stabs : Array Stab) (type : Int) {low m : Int} {rounds : Nat} (hrounds : (m - low).toNat ≤ rounds)
    (hlow : -1 ≤ low) (hm : m < stabs.size) :
    exists y, searchBack stabs type low rounds m = some y ∧ y ≤ m ∧ min low m ≤ y ∧
      (low < y -> OfType stabs type y) ∧ NoneOfType stabs type (y + 1) m := by
  induction rounds generalizing m with
  | zero =>
      refine ⟨m, rfl, le_refl m, min_le_right low m, ?_, ?_⟩
      · intro hlt
        lia
      · intro i hi him
        lia
  | succ rounds ih =>
      cases lt_or_ge low m with
      | inl hlt =>
          rcases stabAt_of_lt stabs (i := m) (by lia) hm with ⟨stab, hstab⟩
          have hunfold : searchBack stabs type low (rounds + 1) m =
              if (stab.nType.toNat : Int) ≠ type then
                searchBack stabs type low rounds (m - 1)
              else
                some m := by
            rw [searchBack, if_pos hlt, hstab]
            rfl
          by_cases htype : (stab.nType.toNat : Int) = type
          · refine ⟨m, ?_, le_refl m, min_le_right low m, ?_, ?_⟩
            · rw [hunfold, if_neg (not_not.mpr htype)]
            · intro _
              exact (ofType_iff hstab).mpr htype
            · intro i hi him
              lia
          · rcases ih (m := m - 1) (by lia) (by lia) with ⟨y, hy, hle, hge, htyped, hnone⟩
            refine ⟨y, ?_, by lia, by lia, htyped, ?_⟩
            · rw [hunfold, if_pos htype]
              exact hy
            · intro i hi him hof
              cases lt_or_eq_of_le him with
              | inl himlt => exact hnone i hi (by lia) hof
              | inr hieq =>
                  rw [hieq] at hof
                  exact htype ((ofType_iff hstab).mp hof)
      | inr hge =>
          refine ⟨m, ?_, le_refl m, min_le_right low m, ?_, ?_⟩
          · rw [searchBack, if_neg (by lia)]
          · intro hlt
            lia
          · intro i hi him
            lia

theorem OfType.mem {i : Int} (h : OfType stabs type i) :
    exists k : Nat, exists hk : k < stabs.toList.length, i = k ∧
      ((stabs.toList[k]).nType.toNat : Int) = type ∧ valueAt stabs i = (stabs.toList[k]).nValue := by
  rcases h with ⟨stab, hstab, htype⟩
  have hvalue := valueAt_eq hstab
  rw [stabAt] at hstab
  split at hstab
  · rename_i hi
    rcases Array.getElem?_eq_some_iff.mp hstab with ⟨hlt, hget⟩
    have hlist : stabs.toList[i.toNat] = stab := by
      rw [Array.getElem_toList]
      exact hget
    refine ⟨i.toNat, hlt, by lia, ?_, ?_⟩
    · rw [hlist]
      exact htype
    · rw [hlist]
      exact hvalue
  · cases hstab

theorem increasing_of_pairwise
    (h : stabs.toList.Pairwise fun a b => (a.nType.toNat : Int) = type ->
      (b.nType.toNat : Int) = type -> a.nValue < b.nValue) : Increasing stabs type left right := by
  intro i j _ hij _ hi hj
  rcases hi.mem with ⟨k, hk, hik, htype, hvalue⟩
  rcases hj.mem with ⟨k', hk', hjk, htype', hvalue'⟩
  rw [hvalue, hvalue']
  exact List.pairwise_iff_getElem.mp h k k' hk hk' (by lia) htype htype'

section Order

variable {i j : Int}

theorem Increasing.value_le (h : Increasing stabs type left right) (hi : left ≤ i) (hij : i ≤ j)
    (hj : j ≤ right) (htyped : OfType stabs type i) (htyped' : OfType stabs type j) :
    valueAt stabs i ≤ valueAt stabs j := by
  cases eq_or_lt_of_le hij with
  | inl heq =>
      rw [heq]
      exact BitVec.le_refl _
  | inr hlt => exact BitVec.le_of_lt (h i j hi hlt hj htyped htyped')

theorem Increasing.index_lt (h : Increasing stabs type left right) (hj : left ≤ j)
    (hi : i ≤ right) (htyped : OfType stabs type i) (htyped' : OfType stabs type j)
    (hvalue : valueAt stabs i < valueAt stabs j) : i < j := by
  by_contra hge
  have hle := h.value_le hj (not_lt.mp hge) hi htyped' htyped
  bv_omega

theorem Increasing.index_eq (h : Increasing stabs type left right) (hi : left ≤ i ∧ i ≤ right)
    (hj : left ≤ j ∧ j ≤ right) (htyped : OfType stabs type i) (htyped' : OfType stabs type j)
    (hvalue : valueAt stabs i = valueAt stabs j) : i = j := by
  rcases lt_trichotomy i j with hlt | heq | hlt
  · have hless := h i j hi.left hlt hj.right htyped htyped'
    bv_omega
  · exact heq
  · have hless := h j i hj.left hlt hi.right htyped' htyped
    bv_omega

end Order

/-!
# One round
-/

inductive Round (stabs : Array Stab) (type : Int) (s : Search) : Search -> Prop where
  | skip : NoneOfType stabs type s.l ((s.l + s.r) / 2) ->
      Round stabs type s { s with l := (s.l + s.r) / 2 + 1 }
  | smaller {e : Int} : LastOfType stabs type s.l ((s.l + s.r) / 2) e ->
      valueAt stabs e < s.addr ->
      Round stabs type s
        { s with anyMatches := true, regionLeft := e, l := (s.l + s.r) / 2 + 1 }
  | larger {e : Int} : LastOfType stabs type s.l ((s.l + s.r) / 2) e ->
      s.addr < valueAt stabs e ->
      Round stabs type s { s with anyMatches := true, regionRight := e - 1, r := e - 1 }
  | exact {e : Int} : LastOfType stabs type s.l ((s.l + s.r) / 2) e ->
      valueAt stabs e = s.addr ->
      Round stabs type s
        { s with anyMatches := true, regionLeft := e, l := e, addr := s.addr + 1 }

theorem tdiv_two_of_nonneg {x : Int} (hx : 0 ≤ x) : x.tdiv 2 = x / 2 :=
  Int.tdiv_eq_ediv_of_nonneg hx

theorem searchStep_spec (type : Int) (hlow : 0 ≤ s.l) (hlr : s.l ≤ s.r) (hhigh : s.r < stabs.size) :
    exists t, searchStep stabs type s = some t ∧ Round stabs type s t := by
  have hmid : (s.l + s.r).tdiv 2 = (s.l + s.r) / 2 := tdiv_two_of_nonneg (by lia)
  rcases searchBack_spec stabs type (m := (s.l + s.r) / 2)
    (le_refl ((s.l + s.r) / 2 - (s.l - 1)).toNat) (by lia) (by lia) with ⟨m, hm, hle, hge, htyped, hnone⟩
  cases lt_or_ge m s.l with
  | inl hlt =>
      refine ⟨_, ?_, Round.skip ?_⟩
      · simp only [searchStep, hmid, hm, Option.bind_some, if_pos hlt]
      · intro i hi him
        exact hnone i (by lia) him
  | inr hlm =>
      have hlast : LastOfType stabs type s.l ((s.l + s.r) / 2) m := by
        refine ⟨hlm, hle, htyped (by lia), ?_⟩
        intro i hi him
        exact hnone i (by lia) him
      rcases stabAt_of_lt stabs (i := m) (by lia) (by lia) with ⟨stab, hstab⟩
      have hvalue := valueAt_eq hstab
      have hstep : searchStep stabs type s = some (
          if stab.nValue < s.addr then
            { s with anyMatches := true, regionLeft := m, l := (s.l + s.r) / 2 + 1 }
          else if s.addr < stab.nValue then
            { s with anyMatches := true, regionRight := m - 1, r := m - 1 }
          else
            { s with anyMatches := true, regionLeft := m, l := m, addr := s.addr + 1 }) := by
        simp only [searchStep, hmid, hm, Option.bind_some, if_neg (not_lt.mpr hlm), hstab,
          Option.map_some]
      rw [hstep]
      refine ⟨_, rfl, ?_⟩
      rcases BitVec.lt_trichotomy stab.nValue s.addr with hsmaller | hequal | hlarger
      · rw [if_pos hsmaller]
        exact Round.smaller hlast (by rw [hvalue]; exact hsmaller)
      · rw [hequal, if_neg (BitVec.lt_irrefl _), if_neg (BitVec.lt_irrefl _)]
        exact Round.exact hlast (by rw [hvalue]; exact hequal)
      · rw [if_neg (BitVec.not_lt.mpr (BitVec.le_of_lt hlarger)), if_pos hlarger]
        exact Round.larger hlast (by rw [hvalue]; exact hlarger)

/-!
# The loop
-/

structure Within (stabs : Array Stab) (left right : Int) (s : Search) : Prop where
  nonneg : 0 ≤ left
  lt_size : right < stabs.size
  left_le : left ≤ s.l
  le_right : s.r ≤ right
  left_le_region : left ≤ s.regionLeft
  regionRight_eq : s.regionRight = s.r

theorem Within.start (hleft : 0 ≤ left) (hright : right < stabs.size) :
    Within stabs left right (searchStart left right addr) :=
  ⟨hleft, hright, le_refl _, le_refl _, le_refl _, rfl⟩

theorem Within.round (h : Within stabs left right s) (hlr : s.l ≤ s.r)
    (hround : Round stabs type s t) : Within stabs left right t := by
  have hleft := h.left_le
  have hright := h.le_right
  have hmid : left ≤ (s.l + s.r) / 2 + 1 := by lia
  cases hround with
  | skip _ =>
      exact ⟨h.nonneg, h.lt_size, hmid, hright, h.left_le_region, h.regionRight_eq⟩
  | smaller hlast _ =>
      have hregion := le_trans hleft hlast.low_le
      exact ⟨h.nonneg, h.lt_size, hmid, hright, hregion, h.regionRight_eq⟩
  | @larger e hlast _ =>
      have hle := hlast.le_high
      exact ⟨h.nonneg, h.lt_size, hleft, by change e - 1 ≤ right; lia, h.left_le_region, rfl⟩
  | exact hlast _ =>
      have hregion := le_trans hleft hlast.low_le
      exact ⟨h.nonneg, h.lt_size, hregion, hright, hregion, h.regionRight_eq⟩

/-- A bound on the rounds that are left: two for each index, and one when the first index
may match exactly. -/
def roundsLeft (stabs : Array Stab) (s : Search) : Nat :=
  2 * (s.r - s.l + 1).toNat + if valueAt stabs s.l = s.addr then 1 else 0

theorem roundsLeft_le (stabs : Array Stab) (s : Search) : roundsLeft stabs s ≤ 2 * (s.r - s.l + 1).toNat + 1 := by
  rw [roundsLeft]
  split
  · exact le_refl _
  · exact Nat.le_succ _

theorem add_one_ne_self (x : BitVec 32) : x ≠ x + 1 := by
  bv_omega

theorem Round.roundsLeft_lt (hround : Round stabs type s t) (hlr : s.l ≤ s.r) :
    roundsLeft stabs t < roundsLeft stabs s := by
  have hge : 2 * (s.r - s.l + 1).toNat ≤ roundsLeft stabs s := Nat.le_add_right _ _
  cases hround with
  | skip _ =>
      have hle := roundsLeft_le stabs { s with l := (s.l + s.r) / 2 + 1 }
      dsimp only at hle
      lia
  | smaller _ _ =>
      rename_i e hlast hvalue
      have hle := roundsLeft_le stabs
        { s with anyMatches := true, regionLeft := e, l := (s.l + s.r) / 2 + 1 }
      dsimp only at hle
      lia
  | @larger e hlast _ =>
      have hle := roundsLeft_le stabs
        { s with anyMatches := true, regionRight := e - 1, r := e - 1 }
      have hlow := hlast.low_le
      have hhigh := hlast.le_high
      dsimp only at hle
      lia
  | @exact e hlast hvalue =>
      have hlow := hlast.low_le
      have hhigh := hlast.le_high
      cases lt_or_eq_of_le hlow with
      | inl hlt =>
          have hle := roundsLeft_le stabs
            { s with anyMatches := true, regionLeft := e, l := e, addr := s.addr + 1 }
          dsimp only at hle
          lia
      | inr heq =>
          rw [← heq] at hvalue
          simp only [roundsLeft, ← heq, hvalue, if_neg (add_one_ne_self s.addr)]
          simp

/-- What holds at the start and is kept by each round holds when the loop ends, and the
loop ends. -/
theorem searchLoop_spec {P : Search -> Prop}
    (hkeep : forall u v, Within stabs left right u -> P u -> u.l ≤ u.r ->
      Round stabs type u v -> P v)
    {fuel : Nat} (hwithin : Within stabs left right s) (hP : P s)
    (hfuel : roundsLeft stabs s < fuel) :
    exists t, searchLoop stabs type fuel s = some t ∧ Within stabs left right t ∧ P t ∧
      t.r < t.l := by
  induction fuel generalizing s with
  | zero => exact absurd hfuel (Nat.not_lt_zero _)
  | succ fuel ih =>
      cases le_or_gt s.l s.r with
      | inl hlr =>
          have hnonneg := hwithin.nonneg
          have hleft := hwithin.left_le
          have hright := hwithin.le_right
          have hsize := hwithin.lt_size
          rcases searchStep_spec type (by lia) hlr (lt_of_le_of_lt hright hsize) with
            ⟨u, hstep, hround⟩
          have hless := hround.roundsLeft_lt hlr
          rcases ih (hwithin.round hlr hround) (hkeep s u hwithin hP hlr hround) (by lia) with
            ⟨t, hloop, ht⟩
          refine ⟨t, ?_, ht⟩
          rw [searchLoop, if_pos hlr, hstep]
          exact hloop
      | inr hlt =>
          refine ⟨s, ?_, hwithin, hP, hlt⟩
          rw [searchLoop, if_neg (not_le.mpr hlt)]

theorem searchLoop_mono {fuel fuel' : Nat} (hle : fuel ≤ fuel')
    (h : searchLoop stabs type fuel s = some t) : searchLoop stabs type fuel' s = some t := by
  induction fuel generalizing s fuel' with
  | zero => cases h
  | succ fuel ih =>
      cases fuel' with
      | zero => exact absurd hle (Nat.not_succ_le_zero fuel)
      | succ fuel' =>
          rw [searchLoop] at h ⊢
          split at h
          · rename_i hlr
            rw [if_pos hlr]
            rcases Option.bind_eq_some_iff.mp h with ⟨u, hstep, hrest⟩
            rw [hstep]
            exact ih (Nat.le_of_succ_le_succ hle) hrest
          · rename_i hlr
            rw [if_neg hlr]
            exact h

theorem stabBinsearch_mono {fuel fuel' : Nat} {out : Int × Int} (hle : fuel ≤ fuel')
    (h : stabBinsearch fuel stabs left right type addr = some out) :
    stabBinsearch fuel' stabs left right type addr = some out := by
  rcases Option.bind_eq_some_iff.mp h with ⟨s, hloop, hout⟩
  rw [stabBinsearch, searchLoop_mono hle hloop]
  exact hout

theorem searchResult_of_match (type : Int) (hwithin : Within stabs left right s)
    (hmatch : s.anyMatches = true) :
    exists l, searchResult stabs type s = some (l, s.r) ∧ l ≤ s.r ∧ min s.regionLeft s.r ≤ l ∧
      (s.regionLeft < l -> OfType stabs type l) ∧ NoneOfType stabs type (l + 1) s.r := by
  have hnonneg := hwithin.nonneg
  have hleft := hwithin.left_le_region
  have hright := hwithin.le_right
  have hsize := hwithin.lt_size
  rcases searchBack_spec stabs type (m := s.r)
    (le_refl (s.r - s.regionLeft).toNat) (by lia) (by lia) with ⟨l, hl, hle, hge, htyped, hnone⟩
  refine ⟨l, ?_, hle, hge, htyped, hnone⟩
  simp only [searchResult, hmatch, if_true, hwithin.regionRight_eq, hl, Option.map_some]

theorem searchResult_of_no_match (hmatch : s.anyMatches = false) :
    searchResult stabs type s = some (s.regionLeft, s.regionLeft - 1) := by
  simp only [searchResult, hmatch, Bool.false_eq_true, if_false]

/-- The rule for the whole search: a property that every round keeps holds of the state
whose bounds are returned, whatever the fuel beyond two rounds for each index. -/
theorem stabBinsearch_spec (type : Int) (addr : BitVec 32) {P : Search -> Prop} (hleft : 0 ≤ left)
    (hright : right < stabs.size)
    (hkeep : forall u v, Within stabs left right u -> P u -> u.l ≤ u.r ->
      Round stabs type u v -> P v)
    (hP : P (searchStart left right addr)) :
    exists s out,
      (forall fuel, 2 * (right - left + 1).toNat + 2 ≤ fuel ->
        stabBinsearch fuel stabs left right type addr = some out) ∧
      Within stabs left right s ∧ P s ∧ s.r < s.l ∧ searchResult stabs type s = some out := by
  have hrounds : roundsLeft stabs (searchStart left right addr) <
      2 * (right - left + 1).toNat + 2 :=
    Nat.lt_succ_of_le (roundsLeft_le stabs (searchStart left right addr))
  rcases searchLoop_spec hkeep (Within.start hleft hright) hP hrounds with
    ⟨s, hloop, hwithin, hs, hend⟩
  have hresult : exists out, searchResult stabs type s = some out := by
    cases hmatch : s.anyMatches with
    | false => exact ⟨_, searchResult_of_no_match hmatch⟩
    | true =>
        rcases searchResult_of_match type hwithin hmatch with ⟨l, hl, _⟩
        exact ⟨_, hl⟩
  rcases hresult with ⟨out, hout⟩
  refine ⟨s, out, ?_, hwithin, hs, hend, hout⟩
  intro fuel hfuel
  rw [stabBinsearch, searchLoop_mono hfuel hloop]
  exact hout

end Debug
end OsLabs
