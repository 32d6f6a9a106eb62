import OsLabs.Debug.StabSearch

/-!
# When the search brackets the address

Each way a search can go has its own invariant.  The bounds bracket the address exactly
when an entry is not above it, or none has the type, and the entry after an exact match is
not taken for a match as well.
-/

namespace OsLabs
namespace Debug

variable {stabs : Array Stab} {type left right m n : Int} {addr : BitVec 32} {s t : Search}
  {out : Int × Int}

/-!
# The neighbour is met
-/

structure Past (n : Int) (s : Search) : Prop where
  le_region : n ≤ s.regionLeft
  le_l : n ≤ s.l
  le_r : n ≤ s.r
  any : s.anyMatches = true

structure Overshot (stabs : Array Stab) (n : Int) (s : Search) : Prop extends Past n s where
  below : s.l = n -> valueAt stabs n < s.addr

theorem Overshot.round (h : Overshot stabs n s) (hlr : s.l ≤ s.r)
    (hround : Round stabs type s t) : Overshot stabs n t := by
  have hregion := h.le_region
  have hnl := h.le_l
  have hnr := h.le_r
  cases hround with
  | skip _ =>
      refine ⟨⟨hregion, ?_, hnr, h.any⟩, ?_⟩
      · change n ≤ (s.l + s.r) / 2 + 1
        lia
      · intro hl
        change (s.l + s.r) / 2 + 1 = n at hl
        lia
  | smaller hlast _ =>
      refine ⟨⟨le_trans hnl hlast.low_le, ?_, hnr, rfl⟩, ?_⟩
      · change n ≤ (s.l + s.r) / 2 + 1
        lia
      · intro hl
        change (s.l + s.r) / 2 + 1 = n at hl
        lia
  | @larger e hlast hvalue =>
      have hel := hlast.low_le
      refine ⟨⟨hregion, hnl, ?_, rfl⟩, h.below⟩
      change n ≤ e - 1
      by_contra hlt
      have heq : e = n := by lia
      have hbelow := h.below (by lia)
      rw [heq] at hvalue
      bv_omega
  | @exact e hlast hvalue =>
      have hel := hlast.low_le
      refine ⟨⟨le_trans hnl hel, le_trans hnl hel, hnr, rfl⟩, ?_⟩
      intro hl
      change e = n at hl
      have hbelow := h.below (by lia)
      rw [hl] at hvalue
      rw [hvalue] at hbelow
      exact absurd hbelow (BitVec.lt_irrefl _)

/-- The searched address has become 0 after the largest address was matched. -/
structure Wrapped (stabs : Array Stab) (type n : Int) (s : Search) : Prop where
  typed : OfType stabs type n
  value : (valueAt stabs n).toNat = 2 ^ 32 - 1
  region_eq : s.regionLeft = n
  l_eq : s.l = n
  le_r : n - 1 ≤ s.r
  addr_eq : s.addr = 0
  any : s.anyMatches = true

theorem Wrapped.round (h : Wrapped stabs type n s) (hsorted : Increasing stabs type left right)
    (hwithin : Within stabs left right s) (hlr : s.l ≤ s.r)
    (hround : Round stabs type s t) : Wrapped stabs type n t := by
  have hl := h.l_eq
  have hleft := hwithin.left_le
  have hright := hwithin.le_right
  have hall : forall e, LastOfType stabs type s.l ((s.l + s.r) / 2) e -> e = n := by
    intro e hlast
    have hle := hlast.le_high
    have hne := hlast.le_last (by lia) h.typed
    by_contra hneq
    have hlt : n < e := lt_of_le_of_ne hne (Ne.symm hneq)
    have hev := hsorted n e (by lia) hlt (by lia) h.typed hlast.typed
    have hvn := h.value
    bv_omega
  have hvn := h.value
  cases hround with
  | skip hnone => exact absurd h.typed (hnone n (by lia) (by lia))
  | @smaller e hlast hvalue =>
      rw [h.addr_eq] at hvalue
      bv_omega
  | @larger e hlast hvalue =>
      have heq := hall e hlast
      exact ⟨h.typed, hvn, h.region_eq, hl, by rw [heq], h.addr_eq, rfl⟩
  | @exact e hlast hvalue =>
      rw [hall e hlast, h.addr_eq] at hvalue
      bv_omega

structure Meeting (stabs : Array Stab) (type left right m n : Int) (addr : BitVec 32)
    (s : Search) : Prop where
  seeking : Seeking stabs type m s
  addr_eq : s.addr = addr
  le_r : n ≤ s.r
  splits : SplitsBefore stabs type m n s.l s.r

theorem Meeting.round (hneighbours : Neighbours stabs type left right addr m n)
    (h : Meeting stabs type left right m n addr s) (hsorted : Increasing stabs type left right)
    (hwithin : Within stabs left right s) (hround : Round stabs type s t) :
    Meeting stabs type left right m n addr t ∨
      (Seeking stabs type n t ∧ t.addr = addr + 1) := by
  have hmn := hneighbours.lt
  have hnr := h.le_r
  rcases h.seeking.round hsorted hwithin hround with ⟨hseek, haddr, hcut⟩ | ⟨hlast, ht⟩
  · left
    rw [h.addr_eq] at haddr
    cases hcut with
    | left hmid htl htr =>
        refine ⟨hseek, haddr, by lia, ?_⟩
        rw [htl, htr, ← splitsBefore_cutBelow_iff hmn hmid]
        exact h.splits
    | @right e hme hlast htl htr =>
        have hne : n < e := by
          by_contra hge
          cases lt_or_eq_of_le (not_lt.mp hge) with
          | inl hlt => exact hneighbours.none_between e (by lia) (by lia) hlast.typed
          | inr heq =>
              rw [heq] at hlast
              exact not_splitsBefore_of_last hmn hlast h.splits
        refine ⟨hseek, haddr, by lia, ?_⟩
        rw [htl, htr, ← splitsBefore_cutAbove_iff hmn hne hlast]
        exact h.splits
  · right
    subst ht
    have haddr : s.addr + 1 = addr + 1 := by rw [h.addr_eq]
    refine ⟨⟨hneighbours.typed_n, le_of_lt hmn, hnr, ?_⟩, haddr⟩
    rw [hneighbours.value_n]
    exact haddr.symm

inductive AfterMatch (stabs : Array Stab) (type left right m n : Int) (addr : BitVec 32)
    (s : Search) : Prop where
  | meeting : Meeting stabs type left right m n addr s -> AfterMatch stabs type left right m n addr s
  | seeking : Seeking stabs type n s -> s.addr = addr + 1 ->
      AfterMatch stabs type left right m n addr s
  | overshot : addr + 2 ≠ 0 -> Overshot stabs n s -> AfterMatch stabs type left right m n addr s
  | wrapped : addr + 2 = 0 -> Wrapped stabs type n s -> AfterMatch stabs type left right m n addr s

theorem AfterMatch.round (hneighbours : Neighbours stabs type left right addr m n)
    (hsorted : Increasing stabs type left right) (hwithin : Within stabs left right s)
    (h : AfterMatch stabs type left right m n addr s) (hlr : s.l ≤ s.r)
    (hround : Round stabs type s t) : AfterMatch stabs type left right m n addr t := by
  cases h with
  | meeting hmeet =>
      rcases hmeet.round hneighbours hsorted hwithin hround with hmeet' | ⟨hseek, haddr⟩
      · exact AfterMatch.meeting hmeet'
      · exact AfterMatch.seeking hseek haddr
  | seeking hseek haddr =>
      rcases hseek.round hsorted hwithin hround with ⟨hseek', haddr', _⟩ | ⟨hlast, ht⟩
      · exact AfterMatch.seeking hseek' (by rw [haddr', haddr])
      · have hvalue := hseek.value
        rw [haddr] at hvalue
        have hnr := hseek.le_r
        subst ht
        have haddr2 : s.addr + 1 = addr + 2 := by
          rw [haddr]
          bv_omega
        by_cases hwrap : addr + 2 = 0
        · apply AfterMatch.wrapped hwrap
          refine ⟨hseek.typed, ?_, rfl, rfl, ?_, ?_, rfl⟩
          · rw [hvalue]
            bv_omega
          · change n - 1 ≤ s.r
            lia
          · rw [← hwrap]
            exact haddr2
        · apply AfterMatch.overshot hwrap
          refine ⟨⟨le_refl n, le_refl n, hnr, rfl⟩, ?_⟩
          intro _
          change valueAt stabs n < s.addr + 1
          rw [hvalue, haddr2]
          bv_omega
  | overshot hwrap hover => exact AfterMatch.overshot hwrap (hover.round hlr hround)
  | wrapped hwrap hw => exact AfterMatch.wrapped hwrap (hw.round hsorted hwithin hlr hround)

/-!
# Bounds that bracket
-/

theorem Bracket.brackets (h : Bracket stabs type left right m n)
    (hsorted : Increasing stabs type left right) (hm : m ∈ candidates stabs type left right addr)
    (hgreatest : forall i, i ∈ candidates stabs type left right addr -> i ≤ m) :
    Brackets stabs type left right addr (m, n - 1) := by
  have hmn := h.next.lt
  have hend := h.next.le_end
  have hle : m ≤ n - 1 := Int.le_sub_one_of_lt hmn
  constructor
  · constructor
    · intro _
      exact ⟨m, hm⟩
    · intro _
      exact hle
  · intro _
    refine ⟨⟨hm, hgreatest⟩, ?_, ?_⟩
    · intro i hi
      exact hsorted.value_le hi.left (hgreatest i hi) hm.right.left hi.right.right.left h.typed
    · cases lt_or_eq_of_le hend with
      | inl hlt =>
          left
          refine ⟨?_, by lia, by lia, h.next.none_between⟩
          rw [Int.sub_add_cancel]
          exact h.next.typed (by lia)
      | inr heq =>
          right
          refine ⟨by lia, ?_⟩
          intro i hi hir
          exact h.next.none_between i hi (by lia)

/-- A left bound from the neighbour of an exact match on is too far right. -/
theorem Neighbours.not_brackets (h : Neighbours stabs type left right addr m n)
    (haddr : addr.toNat < 2 ^ 32 - 1) (hsorted : Increasing stabs type left right)
    (hle : out.1 ≤ out.2) (hn : n ≤ out.1) : ¬ Brackets stabs type left right addr out := by
  intro hbrackets
  have hlow := h.left_le
  have hmn := h.lt
  have hvn := h.value_n
  rcases (hbrackets.right hle).left.left with ⟨hleft, hright, htyped, hvalue⟩
  have hv := hsorted.value_le (by lia) hn hright h.typed_n htyped
  bv_omega

theorem NoneOfType.brackets (h : NoneOfType stabs type left right) (addr : BitVec 32) :
    Brackets stabs type left right addr (left, left - 1) := by
  have hnot : ¬ (left ≤ left - 1) := by lia
  constructor
  · constructor
    · intro hle
      exact absurd hle hnot
    · rintro ⟨i, hil, hir, htyped, _⟩
      exact absurd htyped (h i hil hir)
  · intro hle
    exact absurd hle hnot

theorem NoneOfType.bracketable (h : NoneOfType stabs type left right) (addr : BitVec 32) :
    Bracketable stabs type left right addr := by
  refine ⟨Or.inl h, ?_⟩
  intro m n hneighbours _
  have hmn := hneighbours.lt
  have hnr := hneighbours.le_right
  exact absurd hneighbours.typed_m (h m hneighbours.left_le (by lia))

theorem Neighbours.bracket (h : Neighbours stabs type left right addr m n) :
    Bracket stabs type left right m n := by
  have hmn := h.lt
  have hnr := h.le_right
  exact ⟨⟨hmn, by lia, fun _ => h.typed_n, h.none_between⟩, h.left_le, by lia, h.typed_m⟩

theorem Neighbours.greatest (h : Neighbours stabs type left right addr m n)
    (haddr : addr.toNat < 2 ^ 32 - 1) (hsorted : Increasing stabs type left right) :
    m ∈ candidates stabs type left right addr ∧
      forall i, i ∈ candidates stabs type left right addr -> i ≤ m := by
  have hmn := h.lt
  have hnr := h.le_right
  have hlow := h.left_le
  constructor
  · exact ⟨hlow, by lia, h.typed_m, by rw [h.value_m]; exact BitVec.le_refl _⟩
  · rintro i ⟨hil, hir, htyped, hvalue⟩
    by_contra hlt
    have hni := h.bracket.next_le (by lia) htyped
    have hvn := h.value_n
    have hv := hsorted.value_le (by lia) hni hir h.typed_n htyped
    bv_omega

/-!
# What the search returns
-/

theorem returns_of_none (addr : BitVec 32) (hleft : 0 ≤ left) (hright : right < stabs.size)
    (hnone : NoneOfType stabs type left right) :
    forall fuel, 2 * (right - left + 1).toNat + 2 ≤ fuel ->
      stabBinsearch fuel stabs left right type addr = some (left, left - 1) := by
  rcases stabBinsearch_spec type addr
    (P := fun s => s.anyMatches = false ∧ s.regionLeft = left) hleft hright
    (by
      intro u v hwithin hP hlr hround
      have hul := hwithin.left_le
      have hur := hwithin.le_right
      cases hround with
      | skip _ => exact hP
      | @smaller e hlast _ | @larger e hlast _ | @exact e hlast _ =>
          have hel := hlast.low_le
          have heh := hlast.le_high
          exact absurd hlast.typed (hnone e (by lia) (by lia)))
    ⟨rfl, rfl⟩ with ⟨s, out, hrun, _, ⟨hany, hregion⟩, _, hout⟩
  rw [searchResult_of_no_match hany, hregion] at hout
  cases hout
  exact hrun

theorem returns_of_empty (addr : BitVec 32) (hempty : right < left) :
    forall fuel, 2 * (right - left + 1).toNat + 2 ≤ fuel ->
      stabBinsearch fuel stabs left right type addr = some (left, left - 1) := by
  intro fuel hfuel
  have hone : stabBinsearch 1 stabs left right type addr = some (left, left - 1) := by
    have hend : ¬ (searchStart left right addr).l ≤ (searchStart left right addr).r :=
      not_le.mpr hempty
    rw [stabBinsearch, searchLoop, if_neg hend]
    rfl
  exact stabBinsearch_mono (by lia) hone

theorem le_of_some (addr : BitVec 32) (hleft : 0 ≤ left) (hright : right < stabs.size) {i : Int} (hil : left ≤ i)
    (hir : i ≤ right) (htyped : OfType stabs type i) :
    exists out,
      (forall fuel, 2 * (right - left + 1).toNat + 2 ≤ fuel ->
        stabBinsearch fuel stabs left right type addr = some out) ∧
      out.1 ≤ out.2 := by
  rcases stabBinsearch_spec type addr
    (P := fun s => s.anyMatches = true ∨ s.l ≤ i ∧ i ≤ s.r) hleft hright
    (by
      intro u v _ hP hlr hround
      cases hP with
      | inl hany =>
          left
          cases hround with
          | skip _ => exact hany
          | smaller _ _ | larger _ _ | exact _ _ => rfl
      | inr hin =>
          cases hround with
          | skip hnone =>
              right
              refine ⟨?_, hin.right⟩
              change (u.l + u.r) / 2 + 1 ≤ i
              by_contra hlt
              exact hnone i hin.left (by lia) htyped
          | smaller _ _ | larger _ _ | exact _ _ =>
              left
              rfl)
    (Or.inr ⟨hil, hir⟩) with ⟨s, out, hrun, hwithin, hP, hend, hout⟩
  have hany : s.anyMatches = true := by
    cases hP with
    | inl hany => exact hany
    | inr hin => lia
  rcases searchResult_of_match type hwithin hany with ⟨l, hl, hle, _⟩
  rw [hl] at hout
  cases hout
  exact ⟨_, hrun, hle⟩

theorem returns_bracket (hleft : 0 ≤ left) (hright : right < stabs.size)
    (haddr : addr.toNat < 2 ^ 32 - 1) (hsorted : Increasing stabs type left right)
    (hb : Bracket stabs type left right m n)
    (hstart : Separating stabs type left right m n addr (searchStart left right addr) ∨
      Closing stabs type left right m n (searchStart left right addr)) :
    forall fuel, 2 * (right - left + 1).toNat + 2 ≤ fuel ->
      stabBinsearch fuel stabs left right type addr = some (m, n - 1) := by
  rcases stabBinsearch_spec type addr
    (P := fun s => Separating stabs type left right m n addr s ∨
      Closing stabs type left right m n s) hleft hright
    (by
      intro u v hwithin hP hlr hround
      cases hP with
      | inl hsep => exact hsep.round haddr hsorted hwithin hround
      | inr hclose => exact Or.inr (hclose.round hsorted hwithin hlr hround))
    hstart with ⟨s, out, hrun, hwithin, hP, hend, hout⟩
  have hclose : Closing stabs type left right m n s := by
    cases hP with
    | inl hsep =>
        have hlm := hsep.seeking.l_le
        have hmr := hsep.seeking.le_r
        lia
    | inr hclose => exact hclose
  have hmn := hb.next.lt
  rcases hclose.done hend with ⟨hregion, hany, hr⟩
  rcases searchResult_of_match type hwithin hany with ⟨l, hl, hle, hge, htyped, _⟩
  rw [hregion] at hge htyped
  rw [hr] at hl hle hge
  have hlm : l = m := by
    by_contra hne
    exact hb.next.none_between l (by lia) (by lia) (htyped (by lia))
  rw [hl, hlm] at hout
  cases hout
  exact hrun

/-- An exact match that is met before its neighbour is discarded. -/
theorem returns_past (hleft : 0 ≤ left) (hright : right < stabs.size)
    (hsorted : Increasing stabs type left right)
    (h : Neighbours stabs type left right addr m n)
    (hsplits : SplitsBefore stabs type m n left right) :
    exists out,
      (forall fuel, 2 * (right - left + 1).toNat + 2 ≤ fuel ->
        stabBinsearch fuel stabs left right type addr = some out) ∧
      out.1 ≤ out.2 ∧ (addr + 2 ≠ 0 -> n ≤ out.1) ∧ (addr + 2 = 0 -> out = (n - 1, n - 1)) := by
  have hmn := h.lt
  have hlow := h.left_le
  have hhigh := h.le_right
  have hstart : Meeting stabs type left right m n addr (searchStart left right addr) :=
    ⟨⟨h.typed_m, hlow, by change m ≤ right; lia, h.value_m⟩, rfl, hhigh, hsplits⟩
  rcases stabBinsearch_spec type addr (P := AfterMatch stabs type left right m n addr) hleft
    hright
    (by
      intro u v hwithin hP hlr hround
      exact hP.round h hsorted hwithin hlr hround)
    (AfterMatch.meeting hstart) with ⟨s, out, hrun, hwithin, hP, hend, hout⟩
  refine ⟨out, hrun, ?_⟩
  cases hP with
  | meeting hmeet =>
      have hlm := hmeet.seeking.l_le
      have hmr := hmeet.seeking.le_r
      lia
  | seeking hseek _ =>
      have hln := hseek.l_le
      have hnr := hseek.le_r
      lia
  | overshot hwrap hover =>
      rcases searchResult_of_match type hwithin hover.any with ⟨l, hl, hle, hge, _⟩
      have hregion := hover.le_region
      have hnr := hover.le_r
      rw [hl] at hout
      cases hout
      refine ⟨hle, ?_, fun heq => absurd heq hwrap⟩
      intro _
      change n ≤ l
      lia
  | wrapped hwrap hw =>
      rcases searchResult_of_match type hwithin hw.any with ⟨l, hl, hle, hge, _⟩
      have hregion := hw.region_eq
      have hln := hw.l_eq
      have hnr := hw.le_r
      rw [hl] at hout
      cases hout
      refine ⟨hle, fun hne => absurd hwrap hne, ?_⟩
      intro _
      have hr : s.r = n - 1 := by lia
      have hlr : l = n - 1 := by lia
      rw [hr, hlr]

/-!
# The condition
-/

theorem exists_greatest_candidate (h : exists i, i ∈ candidates stabs type left right addr) :
    exists m, m ∈ candidates stabs type left right addr ∧
      forall i, i ∈ candidates stabs type left right addr -> i ≤ m :=
  Int.exists_greatest_of_bdd ⟨right, fun _ hz => hz.right.left⟩ h

theorem Bracket.eq_of_neighbours (hb : Bracket stabs type left right m n)
    (haddr : addr.toNat < 2 ^ 32 - 1) (hsorted : Increasing stabs type left right)
    (hm : m ∈ candidates stabs type left right addr)
    (hgreatest : forall i, i ∈ candidates stabs type left right addr -> i ≤ m) {m' n' : Int}
    (h : Neighbours stabs type left right addr m' n') : m' = m ∧ n' = n := by
  rcases h.greatest haddr hsorted with ⟨hm', hgreatest'⟩
  have heq : m' = m := le_antisymm (hgreatest m' hm') (hgreatest' m hm)
  subst heq
  have hmn := hb.next.lt
  have hend := hb.next.le_end
  have hnr := h.le_right
  have hle := hb.next_le h.lt h.typed_n
  have hge := h.bracket.next_le hmn (hb.next.typed (by lia))
  exact ⟨rfl, le_antisymm hge hle⟩

/-- Where the search starts when no neighbour is met too early. -/
theorem Bracket.separating_or_closing (hb : Bracket stabs type left right m n)
    (hm : m ∈ candidates stabs type left right addr)
    (hgreatest : forall i, i ∈ candidates stabs type left right addr -> i ≤ m)
    (hnot : Neighbours stabs type left right addr m n -> ¬ SplitsBefore stabs type m n left right) :
    Separating stabs type left right m n addr (searchStart left right addr) ∨
      Closing stabs type left right m n (searchStart left right addr) := by
  have hmn := hb.next.lt
  have hlow := hb.left_le
  have hspans := hb.spans_start addr
  by_cases hexact : valueAt stabs m = addr
  · left
    refine ⟨hb, ⟨hb.typed, hlow, hb.le_right, hexact⟩, rfl, hspans.le_r, ?_⟩
    intro hn hvalue
    apply hnot
    exact ⟨hlow, hmn, hn, hb.typed, hb.next.typed hn, hb.next.none_between, hexact, hvalue⟩
  · right
    refine ⟨hb, hspans, ?_, ?_, ?_⟩
    · exact BitVec.lt_of_le_ne hm.right.right.right hexact
    · intro hn
      change n ≤ right at hn
      change addr < valueAt stabs n
      apply BitVec.not_le.mp
      intro hvalue
      have hle := hgreatest n ⟨by lia, hn, hb.next.typed hn, hvalue⟩
      lia
    · intro hl
      change m < left at hl
      lia

theorem brackets_iff_of_splits (hleft : 0 ≤ left) (hright : right < stabs.size)
    (haddr : addr.toNat < 2 ^ 32 - 1) (hsorted : Increasing stabs type left right)
    (h : Neighbours stabs type left right addr m n)
    (hsplits : SplitsBefore stabs type m n left right) :
    exists out,
      (forall fuel, 2 * (right - left + 1).toNat + 2 ≤ fuel ->
        stabBinsearch fuel stabs left right type addr = some out) ∧
      (Brackets stabs type left right addr out <-> addr + 2 = 0 ∧ n = m + 1) := by
  have hb := h.bracket
  have hmn := h.lt
  rcases h.greatest haddr hsorted with ⟨hm, hgreatest⟩
  rcases returns_past hleft hright hsorted h hsplits with ⟨out, hrun, hle, hpast, hwrapped⟩
  refine ⟨out, hrun, ?_⟩
  by_cases hwrap : addr + 2 = 0
  · have hout := hwrapped hwrap
    subst hout
    constructor
    · intro hbrackets
      refine ⟨hwrap, ?_⟩
      have htyped := (hbrackets.right hle).left.left.right.right.left
      by_contra hne
      exact h.none_between (n - 1) (by lia) (le_refl _) htyped
    · rintro ⟨_, hn⟩
      have hbrackets := hb.brackets hsorted hm hgreatest
      have hnm : n - 1 = m := by lia
      rw [hnm] at hbrackets ⊢
      exact hbrackets
  · constructor
    · intro hbrackets
      exact absurd hbrackets (h.not_brackets haddr hsorted hle (hpast hwrap))
    · rintro ⟨heq, _⟩
      exact absurd heq hwrap

theorem brackets_iff_of_candidate (hleft : 0 ≤ left) (hright : right < stabs.size)
    (haddr : addr.toNat < 2 ^ 32 - 1) (hsorted : Increasing stabs type left right)
    (hsome : exists i, i ∈ candidates stabs type left right addr) :
    exists out,
      (forall fuel, 2 * (right - left + 1).toNat + 2 ≤ fuel ->
        stabBinsearch fuel stabs left right type addr = some out) ∧
      (Brackets stabs type left right addr out <->
        Bracketable stabs type left right addr) := by
  rcases exists_greatest_candidate hsome with ⟨m, hm, hgreatest⟩
  rcases exists_nextOfType stabs type hm.right.left with ⟨n, hnext⟩
  have hb : Bracket stabs type left right m n :=
    ⟨hnext, hm.left, hm.right.left, hm.right.right.left⟩
  by_cases hmet : Neighbours stabs type left right addr m n ∧
    SplitsBefore stabs type m n left right
  · rcases brackets_iff_of_splits hleft hright haddr hsorted hmet.left hmet.right with
      ⟨out, hrun, hiff⟩
    refine ⟨out, hrun, ?_⟩
    rw [hiff]
    constructor
    · intro hwrap
      refine ⟨Or.inr hsome, ?_⟩
      intro m' n' h' _
      rcases hb.eq_of_neighbours haddr hsorted hm hgreatest h' with ⟨hm', hn'⟩
      rw [hm', hn']
      exact hwrap
    · intro hmeets
      exact hmeets.neighbours m n hmet.left hmet.right
  · have hmeets : Bracketable stabs type left right addr := by
      refine ⟨Or.inr hsome, ?_⟩
      intro m' n' h' hsplits
      rcases hb.eq_of_neighbours haddr hsorted hm hgreatest h' with ⟨hm', hn'⟩
      subst hm'
      subst hn'
      exact absurd ⟨h', hsplits⟩ hmet
    have hstart := hb.separating_or_closing hm hgreatest
      (fun h hsplits => hmet ⟨h, hsplits⟩)
    refine ⟨(m, n - 1), returns_bracket hleft hright haddr hsorted hb hstart, ?_⟩
    exact ⟨fun _ => hmeets, fun _ => hb.brackets hsorted hm hgreatest⟩

theorem brackets_iff_of_no_candidate (hleft : 0 ≤ left) (hright : right < stabs.size) {i : Int}
    (hil : left ≤ i) (hir : i ≤ right) (htyped : OfType stabs type i)
    (hsome : ¬ exists i, i ∈ candidates stabs type left right addr) :
    exists out,
      (forall fuel, 2 * (right - left + 1).toNat + 2 ≤ fuel ->
        stabBinsearch fuel stabs left right type addr = some out) ∧
      (Brackets stabs type left right addr out <->
        Bracketable stabs type left right addr) := by
  rcases le_of_some addr hleft hright hil hir htyped with ⟨out, hrun, hle⟩
  refine ⟨out, hrun, ?_⟩
  constructor
  · intro hbrackets
    exact absurd (hbrackets.left.mp hle) hsome
  · intro hmeets
    cases hmeets.candidate with
    | inl hnone => exact absurd htyped (hnone i hil hir)
    | inr hsome' => exact absurd hsome' hsome

/-- The search of a range of the table always ends, and the bounds it writes bracket the
address exactly when the table and the address meet the condition. -/
theorem stab_binsearch_exact (stabs : Array Stab) (left right type : Int) (addr : BitVec 32)
    (hrange : left ≤ right -> 0 ≤ left ∧ right < stabs.size)
    (haddr : addr.toNat < 2 ^ 32 - 1) (hsorted : Increasing stabs type left right) :
    exists out,
      (forall fuel, 2 * (right - left + 1).toNat + 2 ≤ fuel ->
        stabBinsearch fuel stabs left right type addr = some out) ∧
      (Brackets stabs type left right addr out <->
        Bracketable stabs type left right addr) := by
  by_cases hnone : NoneOfType stabs type left right
  · have hrun : forall fuel, 2 * (right - left + 1).toNat + 2 ≤ fuel ->
        stabBinsearch fuel stabs left right type addr = some (left, left - 1) := by
      cases le_or_gt left right with
      | inl hle =>
          rcases hrange hle with ⟨hleft, hright⟩
          exact returns_of_none addr hleft hright hnone
      | inr hlt => exact returns_of_empty addr hlt
    refine ⟨(left, left - 1), hrun, ?_⟩
    exact ⟨fun _ => hnone.bracketable addr, fun _ => hnone.brackets addr⟩
  · rw [NoneOfType] at hnone
    push Not at hnone
    rcases hnone with ⟨i, hil, hir, htyped⟩
    rcases hrange (le_trans hil hir) with ⟨hleft, hright⟩
    by_cases hsome : exists i, i ∈ candidates stabs type left right addr
    · exact brackets_iff_of_candidate hleft hright haddr hsorted hsome
    · exact brackets_iff_of_no_candidate hleft hright hil hir htyped hsome

theorem stab_binsearch_exact_three :
    exists out,
      (forall fuel, 8 ≤ fuel ->
        stabBinsearch fuel #[⟨0x64, 0x10⟩, ⟨0x44, 0x12⟩, ⟨0x64, 0x20⟩] 0 2 0x64 0x18 = some out) ∧
      (Brackets #[⟨0x64, 0x10⟩, ⟨0x44, 0x12⟩, ⟨0x64, 0x20⟩] 0x64 0 2 0x18 out <->
        Bracketable #[⟨0x64, 0x10⟩, ⟨0x44, 0x12⟩, ⟨0x64, 0x20⟩] 0x64 0 2 0x18) :=
  stab_binsearch_exact #[⟨0x64, 0x10⟩, ⟨0x44, 0x12⟩, ⟨0x64, 0x20⟩] 0 2 0x64 0x18
    (fun _ => ⟨by decide, by decide⟩) (by decide) (increasing_of_pairwise (by decide))

/-- The only source file lies above the address, and the range comes back nonempty; of two
files at neighbouring addresses the second is returned for the address of the first. -/
theorem stab_binsearch_misses :
    (Increasing #[⟨0x64, 0x10⟩] 0x64 0 0 ∧
      (forall fuel, 4 ≤ fuel -> stabBinsearch fuel #[⟨0x64, 0x10⟩] 0 0 0x64 0x08 = some (-1, -1)) ∧
      ¬ Brackets #[⟨0x64, 0x10⟩] 0x64 0 0 0x08 (-1, -1)) ∧
    (Increasing #[⟨0x64, 0x10⟩, ⟨0x64, 0x11⟩] 0x64 0 1 ∧
      (forall fuel, 6 ≤ fuel ->
        stabBinsearch fuel #[⟨0x64, 0x10⟩, ⟨0x64, 0x11⟩] 0 1 0x64 0x10 = some (1, 1)) ∧
      ¬ Brackets #[⟨0x64, 0x10⟩, ⟨0x64, 0x11⟩] 0x64 0 1 0x10 (1, 1)) := by
  refine ⟨⟨increasing_of_pairwise (by decide), ?_, ?_⟩,
    increasing_of_pairwise (by decide), ?_, ?_⟩
  · intro fuel hfuel
    exact stabBinsearch_mono hfuel (by decide)
  · intro hbrackets
    rcases hbrackets.left.mp (by decide) with ⟨i, hil, hir, _, hvalue⟩
    have hi : i = 0 := le_antisymm hir hil
    subst hi
    exact absurd hvalue (by decide)
  · intro fuel hfuel
    exact stabBinsearch_mono hfuel (by decide)
  · intro hbrackets
    have hvalue := (hbrackets.right (by decide)).left.left.right.right.right
    exact absurd hvalue (by decide)

end Debug
end OsLabs
