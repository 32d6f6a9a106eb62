import Mathlib.Algebra.Order.Ring.Abs
import Mathlib.Data.List.GetD
import Mathlib.Tactic.Linarith
import Mathlib.Tactic.Ring

/-!
# Tours on a line

A point moves over a list of places on a line, in their order.  No order is shorter than
the way to both ends, the order that always goes to a nearest place is at most twice as
long, and the order that goes up first and then down is as long as its two sweeps.
-/

namespace OsLabs
namespace Foundation

/-!
# The ends
-/

section Hull

variable {place : Type} [LinearOrder place] {pos lo hi : place} {l l' : List place}

/-- The lowest and the highest place, the start included. -/
structure Hull (pos : place) (l : List place) (lo hi : place) : Prop where
  low : lo ∈ pos :: l
  high : hi ∈ pos :: l
  bounds : forall c, c ∈ pos :: l -> lo ≤ c ∧ c ≤ hi

theorem exists_hull (pos : place) (l : List place) : exists lo hi, Hull pos l lo hi := by
  induction l with
  | nil =>
      refine ⟨pos, pos, List.mem_singleton_self _, List.mem_singleton_self _, ?_⟩
      intro c hc
      rw [List.mem_singleton.mp hc]
      exact ⟨le_refl _, le_refl _⟩
  | cons c l ih =>
      rcases ih with ⟨lo, hi, h⟩
      have hmore : forall x, x ∈ pos :: l -> x ∈ pos :: c :: l := by
        intro x hx
        rw [List.mem_cons] at hx ⊢
        exact hx.imp_right (List.mem_cons_of_mem c)
      have hnew : c ∈ pos :: c :: l := List.mem_cons_of_mem pos List.mem_cons_self
      refine ⟨min lo c, max hi c, ?_, ?_, ?_⟩
      · cases min_choice lo c with
        | inl heq => exact heq.symm ▸ hmore lo h.low
        | inr heq => exact heq.symm ▸ hnew
      · cases max_choice hi c with
        | inl heq => exact heq.symm ▸ hmore hi h.high
        | inr heq => exact heq.symm ▸ hnew
      · intro x hx
        have hcase : x = c ∨ x ∈ pos :: l := by
          simp only [List.mem_cons] at hx ⊢
          tauto
        cases hcase with
        | inl heq =>
            rw [heq]
            exact ⟨min_le_right lo c, le_max_right hi c⟩
        | inr hin =>
            have hx := h.bounds x hin
            exact ⟨min_le_of_left_le hx.left, le_max_of_le_left hx.right⟩

theorem Hull.perm (h : Hull pos l lo hi) (hperm : l'.Perm l) : Hull pos l' lo hi := by
  have hmem : forall c, c ∈ pos :: l' <-> c ∈ pos :: l := fun c => (hperm.cons pos).mem_iff
  exact ⟨(hmem lo).mpr h.low, (hmem hi).mpr h.high, fun c hc => h.bounds c ((hmem c).mp hc)⟩

theorem Hull.start (h : Hull pos l lo hi) : lo ≤ pos ∧ pos ≤ hi :=
  h.bounds pos List.mem_cons_self

end Hull

section Tours

variable {place : Type} [CommRing place] [LinearOrder place]

/-- The length of the way over the places. -/
def tour : place -> List place -> place
  | _, [] => 0
  | pos, c :: cs => |c - pos| + tour c cs

theorem tour_map {f : place -> place} (hf : forall x y, |f x - f y| = |x - y|) (pos : place)
    (l : List place) : tour (f pos) (l.map f) = tour pos l := by
  induction l generalizing pos with
  | nil => rfl
  | cons c l ih =>
      change |f c - f pos| + tour (f c) (l.map f) = |c - pos| + tour c l
      rw [ih c, hf c pos]

variable [IsStrictOrderedRing place] {pos lo hi a b : place} {l l' : List place}

/-!
# The way to both ends
-/

theorem tour_nonneg (pos : place) (l : List place) : 0 ≤ tour pos l := by
  induction l generalizing pos with
  | nil => exact le_refl 0
  | cons c l ih => exact add_nonneg (abs_nonneg _) (ih c)

theorem abs_sub_le_tour (ha : a ∈ l) (pos : place) : |a - pos| ≤ tour pos l := by
  induction l generalizing pos with
  | nil => cases ha
  | cons c l ih =>
      change |a - pos| ≤ |c - pos| + tour c l
      cases List.mem_cons.mp ha with
      | inl heq =>
          rw [heq]
          exact le_add_of_nonneg_right (tour_nonneg c l)
      | inr hin =>
          have htriangle := abs_sub_le a c pos
          have hrest := ih hin c
          linarith

theorem two_places_le_tour (ha : a ∈ l) (hb : b ∈ l) (pos : place) :
    |a - pos| + |b - a| ≤ tour pos l ∨ |b - pos| + |a - b| ≤ tour pos l := by
  induction l generalizing pos with
  | nil => cases ha
  | cons c l ih =>
      change _ ≤ |c - pos| + tour c l ∨ _ ≤ |c - pos| + tour c l
      cases List.mem_cons.mp ha with
      | inl heq =>
          subst heq
          left
          cases List.mem_cons.mp hb with
          | inl hsame =>
              rw [hsame, sub_self, abs_zero]
              exact add_le_add (le_refl _) (tour_nonneg _ l)
          | inr hin => exact add_le_add (le_refl _) (abs_sub_le_tour hin _)
      | inr hin =>
          cases List.mem_cons.mp hb with
          | inl heq =>
              subst heq
              exact Or.inr (add_le_add (le_refl _) (abs_sub_le_tour hin _))
          | inr hin' =>
              cases ih hin hin' c with
              | inl hfirst =>
                  have htriangle := abs_sub_le a c pos
                  exact Or.inl (by linarith)
              | inr hfirst =>
                  have htriangle := abs_sub_le b c pos
                  exact Or.inr (by linarith)

/-- Every order has to reach both ends, one after the other. -/
theorem Hull.le_tour (h : Hull pos l lo hi) :
    (hi - lo) + min (hi - pos) (pos - lo) ≤ tour pos l := by
  have hstart := h.start
  have hleft := min_le_left (hi - pos) (pos - lo)
  have hright := min_le_right (hi - pos) (pos - lo)
  cases List.mem_cons.mp h.low with
  | inl hlo =>
      cases List.mem_cons.mp h.high with
      | inl hhi =>
          have hpos := tour_nonneg pos l
          rw [hlo, hhi, sub_self, min_self, add_zero]
          exact hpos
      | inr hhi =>
          have hreach := abs_sub_le_tour hhi pos
          have hfar := le_abs_self (hi - pos)
          rw [hlo] at hright ⊢
          linarith
  | inr hlo =>
      cases List.mem_cons.mp h.high with
      | inl hhi =>
          have hreach := abs_sub_le_tour hlo pos
          have hfar := neg_le_abs (lo - pos)
          rw [hhi] at hleft ⊢
          linarith
      | inr hhi =>
          have hlow := neg_le_abs (lo - pos)
          have hhigh := le_abs_self (hi - pos)
          cases two_places_le_tour hlo hhi pos with
          | inl hfirst =>
              have hover := le_abs_self (hi - lo)
              linarith
          | inr hfirst =>
              have hover := neg_le_abs (lo - hi)
              linarith

theorem Hull.span_le_tour (h : Hull pos l lo hi) : hi - lo ≤ tour pos l := by
  have hstart := h.start
  have hmin : 0 ≤ min (hi - pos) (pos - lo) := le_min (by linarith) (by linarith)
  have hreach := h.le_tour
  linarith

/-!
# The nearest place first
-/

/-- Each place is one of the nearest of those that are left. -/
def Greedy : place -> List place -> Prop
  | _, [] => True
  | pos, c :: cs => (forall x, x ∈ cs -> |c - pos| ≤ |x - pos|) ∧ Greedy c cs

/-- The point is at an end of the range from `a` to `b` that it has covered.  Nothing is left
within it, and on the other side nothing nearer than `gap`. -/
inductive Covered (a b gap : place) : place -> List place -> Prop
  | low {l : List place} (h : forall c, c ∈ l -> c ≤ a ∨ b + gap ≤ c) : Covered a b gap a l
  | high {l : List place} (h : forall c, c ∈ l -> c ≤ a - gap ∨ b ≤ c) : Covered a b gap b l

/-- The way that is left crosses the range only over gaps that are as long as it was at the
last crossing, so what is crossed more than once is paid by the growth of the range. -/
theorem Greedy.tour_le {gap : place} (hgreedy : Greedy pos l) (hcovered : Covered a b gap pos l)
    (hgap : 0 ≤ gap) (hle : gap ≤ b - a) (hlo : lo ≤ a) (hhi : b ≤ hi)
    (hbounds : forall c, c ∈ l -> lo ≤ c ∧ c ≤ hi) :
    tour pos l ≤ 2 * (hi - lo) - (b - a) - gap := by
  induction l generalizing pos a b gap with
  | nil =>
      change 0 ≤ _
      linarith
  | cons c l ih =>
      rcases hgreedy with ⟨hnearest, hrest⟩
      have hc := hbounds c List.mem_cons_self
      have hbounds' := fun x hx => hbounds x (List.mem_cons_of_mem c hx)
      change |c - pos| + tour c l ≤ _
      cases hcovered with
      | low hout =>
          cases hout c List.mem_cons_self with
          | inl hbelow =>
              have hdist : |c - pos| = pos - c := by
                rw [abs_of_nonpos (by linarith)]
                exact neg_sub c pos
              have hnext : Covered c b gap c l := by
                apply Covered.low
                intro x hx
                have hnear := hnearest x hx
                cases hout x (List.mem_cons_of_mem c hx) with
                | inl hxa =>
                    rw [hdist, abs_of_nonpos (by linarith)] at hnear
                    exact Or.inl (by linarith)
                | inr hxb => exact Or.inr hxb
              have hway := ih hrest hnext hgap (by linarith) hc.left hhi hbounds'
              linarith
          | inr habove =>
              have hdist : |c - pos| = c - pos := abs_of_nonneg (by linarith)
              have hnext : Covered pos c (c - pos) c l := by
                apply Covered.high
                intro x hx
                have hnear := hnearest x hx
                cases hout x (List.mem_cons_of_mem c hx) with
                | inl hxa =>
                    rw [hdist, abs_of_nonpos (by linarith)] at hnear
                    exact Or.inl (by linarith)
                | inr hxb =>
                    rw [hdist, abs_of_nonneg (by linarith)] at hnear
                    exact Or.inr (by linarith)
              have hway := ih hrest hnext (by linarith) (le_refl _) hlo hc.right hbounds'
              linarith
      | high hout =>
          cases hout c List.mem_cons_self with
          | inl hbelow =>
              have hdist : |c - pos| = pos - c := by
                rw [abs_of_nonpos (by linarith)]
                exact neg_sub c pos
              have hnext : Covered c pos (pos - c) c l := by
                apply Covered.low
                intro x hx
                have hnear := hnearest x hx
                cases hout x (List.mem_cons_of_mem c hx) with
                | inl hxa =>
                    rw [hdist, abs_of_nonpos (by linarith)] at hnear
                    exact Or.inl (by linarith)
                | inr hxb =>
                    rw [hdist, abs_of_nonneg (by linarith)] at hnear
                    exact Or.inr (by linarith)
              have hway := ih hrest hnext (by linarith) (le_refl _) hc.left hhi hbounds'
              linarith
          | inr habove =>
              have hdist : |c - pos| = c - pos := abs_of_nonneg (by linarith)
              have hnext : Covered a c gap c l := by
                apply Covered.high
                intro x hx
                have hnear := hnearest x hx
                cases hout x (List.mem_cons_of_mem c hx) with
                | inl hxa => exact Or.inl hxa
                | inr hxb =>
                    rw [hdist, abs_of_nonneg (by linarith)] at hnear
                    exact Or.inr (by linarith)
              have hway := ih hrest hnext hgap (by linarith) hlo hc.right hbounds'
              linarith

theorem Greedy.tour_le_span (hgreedy : Greedy pos l) (h : Hull pos l lo hi) :
    tour pos l ≤ 2 * (hi - lo) := by
  have hcovered : Covered pos pos 0 pos l := by
    apply Covered.low
    intro c _
    rw [add_zero]
    exact le_total c pos
  have hway := hgreedy.tour_le hcovered (le_refl 0) (by linarith) h.start.left h.start.right
    fun c hc => h.bounds c (List.mem_cons_of_mem pos hc)
  linarith

theorem Greedy.within_twice (hgreedy : Greedy pos l) (hperm : l'.Perm l) :
    tour pos l ≤ 2 * tour pos l' := by
  rcases exists_hull pos l with ⟨lo, hi, h⟩
  have hway := hgreedy.tour_le_span h
  have hspan := (h.perm hperm).span_le_tour
  linarith

/-!
# Two sweeps
-/

theorem tour_ascending (hsorted : l.Pairwise (· ≤ ·)) (habove : forall c, c ∈ l -> pos ≤ c)
    (hmem : hi ∈ pos :: l) (hbound : forall c, c ∈ pos :: l -> c ≤ hi) (l' : List place) :
    tour pos (l ++ l') = (hi - pos) + tour hi l' := by
  induction l generalizing pos with
  | nil =>
      rw [List.mem_singleton.mp hmem, sub_self, zero_add]
      rfl
  | cons c l ih =>
      rcases List.pairwise_cons.mp hsorted with ⟨hfirst, hrest⟩
      have hle := habove c List.mem_cons_self
      have hbound' := fun x hx => hbound x (List.mem_cons_of_mem pos hx)
      have hmem' : hi ∈ c :: l := by
        cases List.mem_cons.mp hmem with
        | inl heq =>
            have heq' : c = hi := le_antisymm (hbound' c List.mem_cons_self) (heq ▸ hle)
            exact heq' ▸ List.mem_cons_self
        | inr hin => exact hin
      change |c - pos| + tour c (l ++ l') = _
      rw [ih hrest hfirst hmem' hbound', abs_of_nonneg (sub_nonneg.mpr hle)]
      ring

theorem tour_descending (hsorted : l.Pairwise (· ≥ ·)) (hbelow : forall c, c ∈ l -> c ≤ pos)
    (hmem : lo ∈ pos :: l) (hbound : forall c, c ∈ pos :: l -> lo ≤ c) :
    tour pos l = pos - lo := by
  have hkeep : forall x y : place, |-x - -y| = |x - y| := by
    intro x y
    rw [← abs_neg]
    congr 1
    ring
  have hup : (l.map (- ·)).Pairwise (· ≤ ·) := by
    rw [List.pairwise_map]
    exact hsorted.imp fun h => neg_le_neg h
  have hway := @tour_ascending _ _ _ _ (-pos) (-lo) _ hup
    (by
      intro c hc
      rcases List.mem_map.mp hc with ⟨x, hx, rfl⟩
      exact neg_le_neg (hbelow x hx))
    (by
      rw [← List.map_cons (f := (- ·))]
      exact List.mem_map_of_mem hmem)
    (by
      intro c hc
      rw [← List.map_cons (f := (- ·))] at hc
      rcases List.mem_map.mp hc with ⟨x, hx, rfl⟩
      exact neg_le_neg (hbound x hx)) []
  rw [List.append_nil, tour_map hkeep] at hway
  rw [hway]
  change -lo - -pos + 0 = _
  ring

structure UpDown (pos : place) (up down : List place) : Prop where
  ascending : up.Pairwise (· ≤ ·)
  above : forall c, c ∈ up -> pos ≤ c
  descending : down.Pairwise (· ≥ ·)
  below : forall c, c ∈ down -> c < pos

variable {up down : List place}

theorem UpDown.tour_eq (h : UpDown pos up down) (hull : Hull pos (up ++ down) lo hi) :
    tour pos (up ++ down) = (hi - pos) + (if down = [] then 0 else hi - lo) := by
  have hstart := hull.start
  have hhigh : hi ∈ pos :: up := by
    have hmem := hull.high
    rw [← List.cons_append, List.mem_append] at hmem
    cases hmem with
    | inl hin => exact hin
    | inr hin => exact absurd hstart.right (not_le.mpr (h.below hi hin))
  rw [tour_ascending h.ascending h.above hhigh
    fun c hc => (hull.bounds c (by
      rw [← List.cons_append]
      exact List.mem_append_left down hc)).right]
  congr 1
  split
  · rename_i hnone
    rw [hnone]
    rfl
  · rename_i hsome
    have hlow : lo ∈ hi :: down := by
      have hmem := hull.low
      rw [← List.cons_append, List.mem_append] at hmem
      cases hmem with
      | inr hin => exact List.mem_cons_of_mem hi hin
      | inl hin =>
          rcases List.exists_mem_of_ne_nil down hsome with ⟨c, hc⟩
          have hle := (hull.bounds c (List.mem_cons_of_mem pos (List.mem_append_right up hc))).left
          have hpos : pos ≤ lo := by
            cases List.mem_cons.mp hin with
            | inl heq => exact heq.symm.le
            | inr hup => exact h.above lo hup
          exact absurd (hpos.trans hle) (not_le.mpr (h.below c hc))
    apply tour_descending h.descending
    · exact fun c hc => (h.below c hc).le.trans hstart.right
    · exact hlow
    · intro c hc
      cases List.mem_cons.mp hc with
      | inl heq => exact heq ▸ hstart.left.trans hstart.right
      | inr hin =>
          exact (hull.bounds c (List.mem_cons_of_mem pos (List.mem_append_right up hin))).left

theorem UpDown.tour_le (h : UpDown pos up down) (hull : Hull pos (up ++ down) lo hi) :
    tour pos (up ++ down) ≤ (hi - pos) + (hi - lo) := by
  have hstart := hull.start
  rw [h.tour_eq hull]
  split
  · linarith
  · exact le_refl _

end Tours

end Foundation
end OsLabs
