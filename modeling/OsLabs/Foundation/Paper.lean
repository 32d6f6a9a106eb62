import Mathlib.Logic.Function.Basic
import Mathlib.Data.List.GetD

/-!
# Paper

A screen of `rows` rows with `cols` columns is a window on an endless sheet of paper that is
written with a typewriter: the window moves down when the typewriter gets below it, and what
has left it stays on the paper.
-/

namespace OsLabs
namespace Foundation

/-- `back` goes back by one cell and writes there. -/
inductive Stroke (cell : Type) where
  | back (v : cell)
  | newline
  | return
  | glyph (v : cell)
deriving DecidableEq

/-- The cells row by row, the position of the typewriter, and the row at the top of the
window. -/
structure Paper (cell : Type) where
  cells : Nat -> cell
  pos : Nat
  top : Nat

namespace Paper

variable {cell : Type}

/-- The typewriter does not go back behind the top of the window. -/
def strike (cols : Nat) (p : Paper cell) : Stroke cell -> Paper cell
  | Stroke.back v =>
      if cols * p.top < p.pos then
        { p with cells := Function.update p.cells (p.pos - 1) v, pos := p.pos - 1 }
      else p
  | Stroke.newline => { p with pos := cols * (p.pos / cols + 1) }
  | Stroke.return => { p with pos := cols * (p.pos / cols) }
  | Stroke.glyph v => { p with cells := Function.update p.cells p.pos v, pos := p.pos + 1 }

def follow (cols rows : Nat) (p : Paper cell) : Paper cell :=
  if cols * (p.top + rows) ≤ p.pos then { p with top := p.top + 1 } else p

def put (cols rows : Nat) (p : Paper cell) (s : Stroke cell) : Paper cell :=
  (p.strike cols s).follow cols rows

def putAll (cols rows : Nat) (p : Paper cell) (strokes : List (Stroke cell)) : Paper cell :=
  strokes.foldl (put cols rows) p

def InView (cols rows : Nat) (p : Paper cell) : Prop :=
  cols * p.top ≤ p.pos ∧ p.pos < cols * (p.top + rows)

/-!
# The window
-/

section Window

variable {cols rows : Nat} {p : Paper cell} {s : Stroke cell}

theorem strike_top : (p.strike cols s).top = p.top := by
  cases s with
  | back v =>
      unfold strike
      dsimp only
      split
      · rfl
      · rfl
  | newline => rfl
  | «return» => rfl
  | glyph v => rfl

/-- One stroke leaves the window at the bottom at most, and by less than a row. -/
theorem InView.strike (hcols : 0 < cols) (h : p.InView cols rows) :
    cols * p.top ≤ (p.strike cols s).pos ∧
      (p.strike cols s).pos ≤ cols * (p.top + rows) := by
  rcases h with ⟨htop, hbottom⟩
  have hrow : p.top ≤ p.pos / cols := (Nat.le_div_iff_mul_le hcols).mpr (by lia)
  have hlast : p.pos / cols < p.top + rows := (Nat.div_lt_iff_lt_mul hcols).mpr (by lia)
  cases s with
  | back v =>
      unfold Paper.strike
      dsimp only
      split
      · dsimp only
        lia
      · lia
  | newline =>
      change cols * p.top ≤ cols * (p.pos / cols + 1) ∧ _
      exact ⟨Nat.mul_le_mul_left cols (by lia), Nat.mul_le_mul_left cols hlast⟩
  | «return» =>
      change cols * p.top ≤ cols * (p.pos / cols) ∧ _
      exact ⟨Nat.mul_le_mul_left cols hrow, Nat.mul_le_mul_left cols (by lia)⟩
  | glyph v =>
      change cols * p.top ≤ p.pos + 1 ∧ p.pos + 1 ≤ _
      lia

theorem InView.put (hcols : 0 < cols) (hrows : 0 < rows) (h : p.InView cols rows) :
    (p.put cols rows s).InView cols rows := by
  rcases h.strike (s := s) hcols with ⟨htop, hbottom⟩
  have hnext : cols * (p.top + 1) ≤ cols * (p.top + rows) :=
    Nat.mul_le_mul_left cols (by lia)
  have hbelow : cols * (p.top + rows) < cols * (p.top + 1 + rows) :=
    Nat.mul_lt_mul_of_pos_left (by lia) hcols
  unfold Paper.put follow InView
  rw [strike_top]
  split
  · dsimp only
    lia
  · rw [strike_top]
    lia

end Window

/-!
# A line that is being edited
-/

/-- From where the typewriter stood on `base`, the paper shows `chars`; in front of it nothing
has changed, and behind it there are at most blanks besides what was there. -/
structure Edits (cols : Nat) (blank : cell) (base : Paper cell) (chars : List cell)
    (p : Paper cell) : Prop where
  pos : p.pos = base.pos + chars.length
  top : cols * p.top ≤ base.pos
  before : forall k, k < base.pos -> p.cells k = base.cells k
  shown : forall k v, chars[k]? = some v -> p.cells (base.pos + k) = v
  behind : forall k, base.pos + chars.length ≤ k -> p.cells k = base.cells k ∨ p.cells k = blank

section Editing

variable {cols rows : Nat} {blank : cell} {base p : Paper cell} {chars : List cell}

theorem Edits.start (h : base.InView cols rows) : Edits cols blank base [] base := by
  constructor
  · rfl
  · exact h.left
  · exact fun _ _ => rfl
  · intro k v hv
    rw [List.getElem?_nil] at hv
    cases hv
  · exact fun _ _ => Or.inl rfl

/-- The line stays in the window if it leaves a row of it free. -/
theorem Edits.glyph {v : cell} (h : Edits cols blank base chars p)
    (hlength : chars.length + 1 ≤ cols * (rows - 1)) (hrows : 0 < rows) :
    Edits cols blank base (chars ++ [v]) (p.put cols rows (Stroke.glyph v)) := by
  have hcells : (p.put cols rows (Stroke.glyph v)).cells = Function.update p.cells p.pos v := by
    unfold put follow
    split
    · rfl
    · rfl
  have hpos : (p.put cols rows (Stroke.glyph v)).pos = p.pos + 1 := by
    unfold put follow
    split
    · rfl
    · rfl
  constructor
  · rw [hpos, h.pos, List.length_append, List.length_singleton, Nat.add_assoc]
  · have hsplit : cols * (p.top + rows) = cols * (p.top + 1) + cols * (rows - 1) := by
      rw [← Nat.mul_add]
      congr 1
      lia
    have htop := h.top
    have hat := h.pos
    unfold put follow
    split
    · rename_i hleft
      change cols * (p.top + rows) ≤ p.pos + 1 at hleft
      change cols * (p.top + 1) ≤ base.pos
      lia
    · exact htop
  · intro k hk
    have hne : k ≠ p.pos := by
      rw [h.pos]
      lia
    rw [hcells, Function.update_of_ne hne, h.before k hk]
  · intro k w hw
    rw [hcells, h.pos]
    by_cases hlast : k = chars.length
    · subst hlast
      rw [Function.update_self]
      rw [List.getElem?_append_right (Nat.le_refl _), Nat.sub_self] at hw
      exact Option.some.inj hw
    · have hlt : k < chars.length := by
        have hbound := (List.getElem?_eq_some_iff.mp hw).1
        rw [List.length_append, List.length_singleton] at hbound
        lia
      rw [List.getElem?_append_left hlt] at hw
      rw [Function.update_of_ne (by lia)]
      exact h.shown k w hw
  · intro k hk
    rw [List.length_append, List.length_singleton] at hk
    rw [hcells, h.pos, Function.update_of_ne (by lia)]
    exact h.behind k (by lia)

theorem Edits.back (h : Edits cols blank base chars p) (hne : chars ≠ [])
    (hview : p.InView cols rows) :
    Edits cols blank base chars.dropLast (p.put cols rows (Stroke.back blank)) := by
  have hpos := h.pos
  have hlen : chars.dropLast.length = chars.length - 1 := List.length_dropLast
  have hfull : 0 < chars.length := List.length_pos_iff.mpr hne
  have htop := h.top
  have hput : p.put cols rows (Stroke.back blank) =
      { p with cells := Function.update p.cells (p.pos - 1) blank, pos := p.pos - 1 } := by
    have hbottom := hview.right
    unfold put strike
    dsimp only
    rw [if_pos (by lia)]
    unfold follow
    dsimp only
    rw [if_neg (by lia)]
  rw [hput]
  constructor
  · change p.pos - 1 = _
    lia
  · exact htop
  · intro k hk
    change Function.update p.cells (p.pos - 1) blank k = _
    rw [Function.update_of_ne (by lia)]
    exact h.before k hk
  · intro k v hv
    have hlt : k < chars.dropLast.length := (List.getElem?_eq_some_iff.mp hv).1
    change Function.update p.cells (p.pos - 1) blank (base.pos + k) = v
    rw [Function.update_of_ne (by lia)]
    apply h.shown k v
    rw [List.dropLast_eq_take, List.getElem?_take_of_lt (by lia)] at hv
    exact hv
  · intro k hk
    change Function.update p.cells (p.pos - 1) blank k = _ ∨ _
    by_cases hlast : k = p.pos - 1
    · right
      rw [hlast]
      exact Function.update_self ..
    · change _ ∨ Function.update p.cells (p.pos - 1) blank k = blank
      rw [Function.update_of_ne hlast]
      exact h.behind k (by lia)

end Editing

end Paper

end Foundation
end OsLabs
