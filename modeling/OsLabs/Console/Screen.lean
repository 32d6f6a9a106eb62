import Mathlib.Algebra.Ring.Nat
import OsLabs.Foundation.Paper
import OsLabs.Foundation.Transition
import OsLabs.Libs.MemMove

/-!
# The screen

`cga_putc` in `console.c`: the display in text mode.  The cells of the screen are words in the
memory at `crt_buf`, and the cursor is set through two registers of the controller.  Accesses
outside of the screen are `none`.
-/

namespace OsLabs
namespace Console

open Foundation
open Libs

def CRT_ROWS : Nat := 25
def CRT_COLS : Nat := 80
def CRT_SIZE : Nat := CRT_ROWS * CRT_COLS

/-- `buf` and `pos` are `crt_buf` and `crt_pos`; the registers 14 and 15 hold the position of
the cursor. -/
structure Crt where
  mem : Memory
  buf : Nat
  pos : Nat
  reg14 : BitVec 8
  reg15 : BitVec 8

/-- A `uint16_t` in memory, the low byte first. -/
def loadWord (mem : Memory) (a : Nat) : BitVec 16 := mem (a + 1) ++ mem a

def storeWord (mem : Memory) (a : Nat) (v : BitVec 16) : Memory :=
  Function.update (Function.update mem a (v.setWidth 8)) (a + 1) (v.extractLsb' 8 8)

def Crt.store (crt : Crt) (i : Nat) (v : BitVec 16) : Option Crt :=
  if i < CRT_SIZE then some { crt with mem := storeWord crt.mem (crt.buf + 2 * i) v } else none

def blank : BitVec 16 := 0x0700 ||| 32

/-- The loop of `cga_putc` over the cells of the last row. -/
def Crt.blankCells : Nat -> Nat -> Crt -> Option Crt
  | 0, _, crt => some crt
  | n + 1, i, crt => (crt.store i blank).bind fun crt => Crt.blankCells n (i + 1) crt

def Crt.scroll (crt : Crt) : Option Crt := do
  let mem := memmove crt.mem crt.buf (crt.buf + 2 * CRT_COLS) ((CRT_SIZE - CRT_COLS) * 2)
  let crt <- Crt.blankCells CRT_COLS (CRT_SIZE - CRT_COLS) { crt with mem := mem }
  some { crt with pos := crt.pos - CRT_COLS }

def attributed (c : BitVec 32) : BitVec 32 :=
  if c &&& ~~~0xFF#32 = 0 then c ||| 0x0700 else c

/-- The `switch` of `cga_putc`; `crt_pos` is a `uint16_t`. -/
def Crt.write (crt : Crt) (c : BitVec 32) : Option Crt :=
  match (c &&& 0xFF).toNat with
  | 8 =>
      if 0 < crt.pos then
        ({ crt with pos := crt.pos - 1 }).store (crt.pos - 1)
          ((c &&& ~~~0xFF#32 ||| 32).setWidth 16)
      else some crt
  | 10 =>
      let pos := (crt.pos + CRT_COLS) % 2 ^ 16
      some { crt with pos := pos - pos % CRT_COLS }
  | 13 => some { crt with pos := crt.pos - crt.pos % CRT_COLS }
  | _ => ({ crt with pos := (crt.pos + 1) % 2 ^ 16 }).store crt.pos (c.setWidth 16)

def Crt.scrollAtEnd (crt : Crt) : Option Crt :=
  if CRT_SIZE ≤ crt.pos then crt.scroll else some crt

def cgaPutc (crt : Crt) (c : BitVec 32) : Option Crt := do
  let crt <- crt.write (attributed c)
  let crt <- crt.scrollAtEnd
  some { crt with reg14 := BitVec.ofNat 8 (crt.pos >>> 8), reg15 := BitVec.ofNat 8 crt.pos }

/-!
# The cells of the screen
-/

def Crt.cell (crt : Crt) (i : Nat) : BitVec 16 := loadWord crt.mem (crt.buf + 2 * i)

structure Keeps (crt crt' : Crt) : Prop where
  buf : crt'.buf = crt.buf
  outside : forall a, a < crt.buf ∨ crt.buf + 2 * CRT_SIZE ≤ a -> crt'.mem a = crt.mem a

section Cells

variable {crt crt' : Crt} {i : Nat} {v : BitVec 16}

theorem Keeps.refl (crt : Crt) : Keeps crt crt := ⟨rfl, fun _ _ => rfl⟩

theorem Keeps.trans {crt'' : Crt} (h : Keeps crt crt') (h' : Keeps crt' crt'') :
    Keeps crt crt'' := by
  constructor
  · rw [h'.buf, h.buf]
  · intro a ha
    rw [h'.outside a (by rw [h.buf]; exact ha), h.outside a ha]

theorem loadWord_storeWord (mem : Memory) (a : Nat) (v : BitVec 16) :
    loadWord (storeWord mem a v) a = v := by
  unfold loadWord storeWord
  rw [Function.update_self, Function.update_of_ne (by lia), Function.update_self]
  ext k hk
  rw [BitVec.getElem_append]
  split
  · rw [BitVec.getElem_setWidth, BitVec.getElem_eq_testBit_toNat]
    rfl
  · rw [BitVec.getElem_extractLsb', ← BitVec.getLsbD_eq_getElem]
    congr 1
    lia

theorem loadWord_storeWord_of_apart {mem : Memory} {a b : Nat}
    (hapart : a + 1 < b ∨ b + 1 < a) (v : BitVec 16) :
    loadWord (storeWord mem b v) a = loadWord mem a := by
  unfold loadWord storeWord
  repeat rw [Function.update_of_ne (by lia)]

theorem store_spec (crt : Crt) (v : BitVec 16) (hi : i < CRT_SIZE) :
    exists crt', crt.store i v = some crt' ∧ crt'.pos = crt.pos ∧ Keeps crt crt' ∧
      forall k, crt'.cell k = if k = i then v else crt.cell k := by
  unfold Crt.store
  rw [if_pos hi]
  refine ⟨_, rfl, rfl, ⟨rfl, ?_⟩, ?_⟩
  · intro a ha
    dsimp only
    unfold storeWord
    rw [Function.update_of_ne (by lia), Function.update_of_ne (by lia)]
  · intro k
    unfold Crt.cell
    dsimp only
    by_cases hk : k = i
    · rw [if_pos hk, hk]
      exact loadWord_storeWord ..
    · rw [if_neg hk]
      exact loadWord_storeWord_of_apart (by lia) v

theorem blankCells_spec {n : Nat} (hn : i + n ≤ CRT_SIZE) :
    exists crt', Crt.blankCells n i crt = some crt' ∧ crt'.pos = crt.pos ∧ Keeps crt crt' ∧
      forall k, crt'.cell k = if i ≤ k ∧ k < i + n then blank else crt.cell k := by
  induction n generalizing i crt with
  | zero =>
      refine ⟨crt, rfl, rfl, Keeps.refl crt, ?_⟩
      intro k
      rw [if_neg (by lia)]
  | succ n ih =>
      rcases store_spec crt blank (show i < CRT_SIZE by lia) with
        ⟨mid, hstore, hpos, hkeeps, hcell⟩
      rcases @ih mid (i + 1) (by lia) with ⟨crt', hrest, hpos', hkeeps', hcell'⟩
      refine ⟨crt', ?_, hpos'.trans hpos, hkeeps.trans hkeeps', ?_⟩
      · unfold Crt.blankCells
        rw [hstore]
        exact hrest
      · intro k
        rw [hcell' k, hcell k]
        by_cases hfirst : k = i
        · rw [if_neg (by lia), if_pos hfirst, if_pos (by lia)]
        · rw [if_neg hfirst]
          by_cases hlater : i + 1 ≤ k ∧ k < i + 1 + n
          · rw [if_pos hlater, if_pos (by lia)]
          · rw [if_neg hlater, if_neg (by lia)]

theorem moved_cell {mem : Memory} {buf d n k : Nat} (hk : k < n) :
    loadWord (moved mem buf (buf + 2 * d) (n * 2)) (buf + 2 * k) =
      loadWord mem (buf + 2 * (k + d)) := by
  have hbyte : forall j, j < n * 2 ->
      moved mem buf (buf + 2 * d) (n * 2) (buf + j) = mem (buf + 2 * d + j) := by
    intro j hj
    unfold moved
    rw [if_pos (by lia)]
    congr 1
    lia
  unfold loadWord
  rw [Nat.add_assoc, hbyte _ (by lia), hbyte _ (by lia)]
  have hlow : buf + 2 * d + 2 * k = buf + 2 * (k + d) := by lia
  rw [← Nat.add_assoc, hlow]

theorem scroll_spec (crt : Crt) :
    exists crt', crt.scroll = some crt' ∧ crt'.pos = crt.pos - CRT_COLS ∧ Keeps crt crt' ∧
      forall k, k < CRT_SIZE -> crt'.cell k =
        if k + CRT_COLS < CRT_SIZE then crt.cell (k + CRT_COLS) else blank := by
  let mem := moved crt.mem crt.buf (crt.buf + 2 * CRT_COLS) ((CRT_SIZE - CRT_COLS) * 2)
  have hfit : CRT_SIZE - CRT_COLS + CRT_COLS ≤ CRT_SIZE := by decide
  rcases @blankCells_spec { crt with mem := mem } _ _ hfit with
    ⟨mid, hblank, hpos, hkeeps, hcell⟩
  refine ⟨{ mid with pos := crt.pos - CRT_COLS }, ?_, rfl, ⟨hkeeps.buf, ?_⟩, ?_⟩
  · unfold Crt.scroll
    rw [memmove_spec]
    simp only [mem] at hblank
    simp only [hblank, Option.bind_eq_bind, Option.bind_some, hpos]
  · intro a ha
    refine (hkeeps.outside a ha).trans ?_
    change moved crt.mem crt.buf _ _ a = _
    unfold moved
    rw [if_neg]
    unfold CRT_SIZE CRT_COLS CRT_ROWS at *
    lia
  · intro k hk
    have hlast : (CRT_SIZE - CRT_COLS ≤ k ∧ k < CRT_SIZE - CRT_COLS + CRT_COLS) <->
        ¬ k + CRT_COLS < CRT_SIZE := by
      unfold CRT_SIZE CRT_COLS CRT_ROWS at *
      lia
    refine (hcell k).trans ?_
    by_cases hmoved : k + CRT_COLS < CRT_SIZE
    · rw [if_neg (not_not_intro hmoved ∘ hlast.mp), if_pos hmoved]
      exact moved_cell (by lia)
    · rw [if_pos (hlast.mpr hmoved), if_neg hmoved]

end Cells

/-!
# The screen is a window on the paper
-/

def stroke (c : BitVec 32) : Stroke (BitVec 16) :=
  let c := attributed c
  match (c &&& 0xFF).toNat with
  | 8 => Stroke.back ((c &&& ~~~0xFF#32 ||| 32).setWidth 16)
  | 10 => Stroke.newline
  | 13 => Stroke.return
  | _ => Stroke.glyph (c.setWidth 16)

abbrev Sheet := Paper (BitVec 16)

abbrev Sheet.put (p : Sheet) (s : Stroke (BitVec 16)) : Sheet := Paper.put CRT_COLS CRT_ROWS p s

/-- The screen as a sheet of which nothing has left the window. -/
def Crt.sheet (crt : Crt) : Sheet :=
  ⟨fun k => if k < CRT_SIZE then crt.cell k else blank, crt.pos, 0⟩

/-- The screen shows the part of the paper that is in the window; below the window the paper
is blank. -/
structure Shows (crt : Crt) (p : Sheet) : Prop where
  pos : CRT_COLS * p.top + crt.pos = p.pos
  pos_lt : crt.pos < CRT_SIZE
  cells : forall k, k < CRT_SIZE -> crt.cell k = p.cells (CRT_COLS * p.top + k)
  below : forall k, CRT_COLS * p.top + CRT_SIZE ≤ k -> p.cells k = blank

section Window

variable {crt crt' : Crt} {p : Sheet} {c : BitVec 32}

theorem Shows.sheet (hpos : crt.pos < CRT_SIZE) : Shows crt crt.sheet := by
  constructor
  · exact Nat.zero_add _
  · exact hpos
  · intro k hk
    change crt.cell k = if 0 + k < CRT_SIZE then crt.cell (0 + k) else blank
    rw [Nat.zero_add, if_pos hk]
  · intro k hk
    change 0 + CRT_SIZE ≤ k at hk
    exact if_neg (by lia)

theorem Shows.inView (h : Shows crt p) : p.InView CRT_COLS CRT_ROWS := by
  have hpos := h.pos
  have hlt := h.pos_lt
  unfold Paper.InView
  unfold CRT_SIZE CRT_COLS CRT_ROWS at *
  lia

/-- The screen before the test for its end: the paper after a stroke, in the old window. -/
structure ShowsStruck (crt : Crt) (p : Sheet) : Prop where
  pos : CRT_COLS * p.top + crt.pos = p.pos
  pos_le : crt.pos ≤ CRT_SIZE
  cells : forall k, k < CRT_SIZE -> crt.cell k = p.cells (CRT_COLS * p.top + k)
  below : forall k, CRT_COLS * p.top + CRT_SIZE ≤ k -> p.cells k = blank

theorem Shows.store {i pos : Nat} {v : BitVec 16} (h : Shows crt p) (hi : i < CRT_SIZE)
    (hpos : pos ≤ CRT_SIZE) :
    exists crt', ({ crt with pos := pos }).store i v = some crt' ∧ Keeps crt crt' ∧
      ShowsStruck crt' { p with
        cells := Function.update p.cells (CRT_COLS * p.top + i) v
        pos := CRT_COLS * p.top + pos } := by
  rcases store_spec { crt with pos := pos } v hi with
    ⟨crt', hstore, hpos', hkeeps, hcell⟩
  refine ⟨crt', hstore, ⟨hkeeps.buf, hkeeps.outside⟩, ?_⟩
  constructor
  · rw [hpos']
  · rw [hpos']
    exact hpos
  · intro k hk
    rw [hcell k]
    change _ = Function.update p.cells _ v _
    by_cases heq : k = i
    · rw [if_pos heq, heq, Function.update_self]
    · rw [if_neg heq]
      rw [Function.update_of_ne (by lia)]
      exact h.cells k hk
  · intro k hk
    change Function.update p.cells _ v k = blank
    change CRT_COLS * p.top + CRT_SIZE ≤ k at hk
    rw [Function.update_of_ne (by lia)]
    exact h.below k hk

theorem Shows.move {pos : Nat} (h : Shows crt p) (hpos : pos ≤ CRT_SIZE) :
    ShowsStruck { crt with pos := pos } { p with pos := CRT_COLS * p.top + pos } :=
  ⟨rfl, hpos, h.cells, h.below⟩

theorem Shows.newline (h : Shows crt p) (hlt : crt.pos < CRT_SIZE) :
    CRT_COLS * p.top + ((crt.pos + CRT_COLS) % 2 ^ 16 - (crt.pos + CRT_COLS) % 2 ^ 16 % CRT_COLS) =
      CRT_COLS * (p.pos / CRT_COLS + 1) := by
  rw [← h.pos]
  unfold CRT_SIZE CRT_COLS CRT_ROWS at *
  lia

theorem Shows.return (h : Shows crt p) :
    CRT_COLS * p.top + (crt.pos - crt.pos % CRT_COLS) = CRT_COLS * (p.pos / CRT_COLS) := by
  rw [← h.pos]
  unfold CRT_COLS
  lia

theorem Shows.write (h : Shows crt p) :
    exists crt', crt.write (attributed c) = some crt' ∧ Keeps crt crt' ∧
      ShowsStruck crt' (p.strike CRT_COLS (stroke c)) := by
  have hpos := h.pos
  have hlt := h.pos_lt
  unfold Crt.write stroke
  generalize attributed c = c
  dsimp only
  split
  · by_cases hback : 0 < crt.pos
    · rw [if_pos hback]
      unfold Paper.strike
      dsimp only
      rw [if_pos (by lia), ← hpos, Nat.add_sub_assoc hback]
      exact h.store (by lia) (by lia)
    · rw [if_neg hback]
      unfold Paper.strike
      dsimp only
      rw [if_neg (by lia)]
      exact ⟨crt, rfl, Keeps.refl crt, ⟨hpos, Nat.le_of_lt hlt, h.cells, h.below⟩⟩
  · refine ⟨_, rfl, ⟨rfl, fun _ _ => rfl⟩, ?_⟩
    change ShowsStruck _ { p with pos := CRT_COLS * (p.pos / CRT_COLS + 1) }
    rw [← h.newline hlt]
    apply h.move
    unfold CRT_SIZE CRT_COLS CRT_ROWS at *
    lia
  · refine ⟨_, rfl, ⟨rfl, fun _ _ => rfl⟩, ?_⟩
    change ShowsStruck _ { p with pos := CRT_COLS * (p.pos / CRT_COLS) }
    rw [← h.return]
    apply h.move
    lia
  · have hnext : (crt.pos + 1) % 2 ^ 16 = crt.pos + 1 := by
      apply Nat.mod_eq_of_lt
      unfold CRT_SIZE CRT_COLS CRT_ROWS at hlt
      lia
    rw [hnext]
    unfold Paper.strike
    dsimp only
    rw [← hpos, Nat.add_assoc]
    exact h.store hlt hlt

theorem ShowsStruck.scroll (h : ShowsStruck crt p) (hend : crt.pos = CRT_SIZE) :
    exists crt', crt.scroll = some crt' ∧ Keeps crt crt' ∧
      Shows crt' { p with top := p.top + 1 } := by
  rcases scroll_spec crt with ⟨crt', hscroll, hpos, hkeeps, hcell⟩
  have hrow : CRT_COLS ≤ CRT_SIZE := by decide
  have hcols : 0 < CRT_COLS := by decide
  have hat := h.pos
  refine ⟨crt', hscroll, hkeeps, ?_⟩
  constructor
  · change CRT_COLS * (p.top + 1) + crt'.pos = p.pos
    lia
  · lia
  · intro k hk
    have hmoved : CRT_COLS * (p.top + 1) + k = CRT_COLS * p.top + (k + CRT_COLS) := by lia
    change _ = p.cells (CRT_COLS * (p.top + 1) + k)
    rw [hcell k hk, hmoved]
    by_cases hlast : k + CRT_COLS < CRT_SIZE
    · rw [if_pos hlast]
      exact h.cells _ hlast
    · rw [if_neg hlast]
      exact (h.below _ (by lia)).symm
  · intro k hk
    change CRT_COLS * (p.top + 1) + CRT_SIZE ≤ k at hk
    exact h.below k (by lia)

def Crt.CursorSet (crt : Crt) : Prop := crt.reg14.toNat * 2 ^ 8 + crt.reg15.toNat = crt.pos

theorem Shows.putc (h : Shows crt p) :
    exists crt', cgaPutc crt c = some crt' ∧ Keeps crt crt' ∧ crt'.CursorSet ∧
      Shows crt' (Sheet.put p (stroke c)) := by
  rcases h.write (c := c) with ⟨struck, hwrite, hkeeps, hstruck⟩
  have hpos := hstruck.pos
  have hle := hstruck.pos_le
  have hfollow : (CRT_COLS * (p.top + CRT_ROWS) ≤ (p.strike CRT_COLS (stroke c)).pos) <->
      CRT_SIZE ≤ struck.pos := by
    rw [← hpos, Paper.strike_top]
    unfold CRT_SIZE CRT_COLS CRT_ROWS
    lia
  have hnext : exists next, struck.scrollAtEnd = some next ∧ Keeps struck next ∧
      Shows next (Sheet.put p (stroke c)) := by
    unfold Crt.scrollAtEnd Sheet.put Paper.put Paper.follow
    rw [Paper.strike_top]
    by_cases hend : CRT_SIZE ≤ struck.pos
    · rw [if_pos hend, if_pos (hfollow.mpr hend)]
      have hscroll := hstruck.scroll (Nat.le_antisymm hle hend)
      rw [Paper.strike_top] at hscroll
      exact hscroll
    · rw [if_neg hend, if_neg (hend ∘ hfollow.mp)]
      exact ⟨struck, rfl, Keeps.refl struck, hpos, Nat.lt_of_not_le hend, hstruck.cells,
        hstruck.below⟩
  rcases hnext with ⟨next, hrun, hkeeps', hnext⟩
  refine ⟨{ next with reg14 := BitVec.ofNat 8 (next.pos >>> 8), reg15 := BitVec.ofNat 8 next.pos },
    ?_, ?_, ?_, ?_⟩
  · unfold cgaPutc
    simp only [hwrite, hrun, Option.bind_eq_bind, Option.bind_some]
  · exact ⟨(hkeeps.trans hkeeps').buf, (hkeeps.trans hkeeps').outside⟩
  · have hlt := hnext.pos_lt
    unfold Crt.CursorSet
    dsimp only
    rw [BitVec.toNat_ofNat, BitVec.toNat_ofNat, Nat.shiftRight_eq_div_pow]
    unfold CRT_SIZE CRT_COLS CRT_ROWS at hlt
    lia
  · exact ⟨hnext.pos, hnext.pos_lt, hnext.cells, hnext.below⟩

theorem Shows.putAll (h : Shows crt p) (out : List (BitVec 32)) :
    exists crt', System.execAll cgaPutc crt out = some crt' ∧ Keeps crt crt' ∧
      (out = [] ∨ crt'.CursorSet) ∧ Shows crt' (p.putAll CRT_COLS CRT_ROWS (out.map stroke)) := by
  induction out generalizing crt p with
  | nil => exact ⟨crt, rfl, Keeps.refl crt, Or.inl rfl, h⟩
  | cons c out ih =>
      rcases h.putc (c := c) with ⟨mid, hput, hkeeps, hcursor, hmid⟩
      rcases ih hmid with ⟨crt', hrun, hkeeps', hcursor', hcrt'⟩
      refine ⟨crt', ?_, hkeeps.trans hkeeps', Or.inr ?_, hcrt'⟩
      · simp only [System.execAll, hput, Option.bind_some]
        exact hrun
      · cases hcursor' with
        | inl hnil =>
            subst hnil
            cases hrun
            exact hcursor
        | inr hset => exact hset

end Window

/-- Any sequence of characters only writes to the screen, and leaves the cursor on it; the
screen is what the window shows of a sheet of paper on which the same characters were typed. -/
theorem screen_is_window (crt : Crt) (hpos : crt.pos < CRT_SIZE) (out : List (BitVec 32)) :
    exists crt', System.execAll cgaPutc crt out = some crt' ∧ Keeps crt crt' ∧
      (out = [] ∨ crt'.CursorSet) ∧
      Shows crt' (crt.sheet.putAll CRT_COLS CRT_ROWS (out.map stroke)) :=
  (Shows.sheet hpos).putAll out

/-- An empty screen with the cursor on its last cell. -/
def lastCell : Crt := ⟨fun _ => 0, 0xC00B8000, CRT_SIZE - 1, 0, 0⟩

/-- A character that scrolls the screen, one that is erased, and a line end. -/
theorem screen_is_window_four_characters :
    lastCell.pos < CRT_SIZE ∧
    exists crt', System.execAll cgaPutc lastCell [75, 62, 8, 10] = some crt' ∧
      Keeps lastCell crt' ∧ ([75, 62, 8, 10] = ([] : List (BitVec 32)) ∨ crt'.CursorSet) ∧
      Shows crt' (lastCell.sheet.putAll CRT_COLS CRT_ROWS
        (([75, 62, 8, 10] : List (BitVec 32)).map stroke)) :=
  ⟨by decide, screen_is_window lastCell (by decide) [75, 62, 8, 10]⟩

end Console
end OsLabs
