import OsLabs.Console.InputBuffer
import OsLabs.Console.Output

/-!
# Reading lines

`readline.c` and `getchar` on top of the input buffer and the output devices.  The buffer
`buf` is static, so that the caller has to use a line before it reads the next one; accesses
outside of it are `none`.

Between two calls of `readline` the kernel prints what it likes, and the handlers in `trap.c`
take characters out of the input buffer and print them.  While a line is read nothing of this
happens: only the monitor reads lines, and `__panic` turns the interrupts off before it.
-/

namespace OsLabs
namespace Console

open Foundation
open Printfmt

def BUFSIZE : Nat := 1024

/-- `buf` and `i` of `readline`; `reading` between its call and its return. -/
structure Line where
  devices : Devices
  buf : Nat -> BitVec 8
  i : Nat
  reading : Bool

/-- `buf[i] = c`. -/
def storeByte (buf : Nat -> BitVec 8) (i : Nat) (c : BitVec 8) : Option (Nat -> BitVec 8) :=
  if i < BUFSIZE then some (Function.update buf i c) else none

/-- The body of the loop in `readline`, for a result of `getchar`; it is never negative. -/
def Line.take (l : Line) (c : BitVec 8) : Option Line :=
  if 32 ≤ c.toNat ∧ l.i < BUFSIZE - 1 then do
    let d <- cputchar l.devices (c.setWidth 32)
    let buf <- storeByte l.buf l.i c
    some { l with devices := d, buf := buf, i := l.i + 1 }
  else if c = 8 ∧ 0 < l.i then do
    let d <- cputchar l.devices (c.setWidth 32)
    some { l with devices := d, i := l.i - 1 }
  else if c = 10 ∨ c = 13 then do
    let d <- cputchar l.devices (c.setWidth 32)
    let buf <- storeByte l.buf l.i 0
    some { l with devices := d, buf := buf, reading := false }
  else
    some l

def promptFormat : Text := ⟨['%', 's'], by decide, by decide⟩

def Line.prompt (l : Line) (prompt : Option Text) : Option Line :=
  match prompt with
  | none => some { l with i := 0, reading := true }
  | some text => do
      let (d, _) <- cprintf l.devices promptFormat [Arg.string (some text)]
      some { l with devices := d, i := 0, reading := true }

def Line.text (l : Line) : List (BitVec 8) :=
  ((List.range BUFSIZE).map l.buf).takeWhile fun c => c ≠ 0

inductive Irq where
  | com1
  | kbd

def Irq.format : Irq -> Text
  | Irq.com1 => ⟨"serial [%03d] %c\n".toList, by decide, by decide⟩
  | Irq.kbd => ⟨"kbd [%03d] %c\n".toList, by decide, by decide⟩

/-- A `char` as an argument, which is signed. -/
def charArg (c : BitVec 8) : Arg := Arg.int (c.signExtend 32)

/-- The case of the device in `trap_dispatch`, once it has called `cons_getc`. -/
def trapDispatch (d : Devices) (irq : Irq) (c : BitVec 8) : Option Devices :=
  (cprintf d irq.format [charArg c, charArg c]).map Prod.fst

/-- The console with a reader of lines; `lines` is recorded for the proofs: the results of
`readline`. -/
structure Reader where
  cons : Cons
  line : Line
  lines : List (List (BitVec 8))

/-- A call of `kbd_init`, an interrupt of a device or a poll by `getchar`, with what the devices
hand over; a call of `readline`, and output of the kernel between two calls. -/
inductive Event where
  | kbdInit (kbd : List (BitVec 8))
  | trap (irq : Irq) (serial kbd : List (BitVec 8))
  | getc (serial kbd : List (BitVec 8))
  | readline (prompt : Option Text)
  | print (out : List (BitVec 32))

/-- `getchar` polls until the result is not 0. -/
def Reader.getchar (r : Reader) (cons : Cons) (c : BitVec 8) : Option Reader :=
  if c = 0 then some { r with cons := cons }
  else
    (r.line.take c).map fun line =>
      { cons := cons
        line := line
        lines := if line.reading then r.lines else r.lines ++ [line.text] }

def Reader.exec (serialExists : Bool) (r : Reader) : Event -> Option Reader
  | Event.kbdInit kbd => (kbdIntr r.cons kbd).map fun cons => { r with cons := cons }
  | Event.trap irq serial kbd =>
      (consGetc serialExists r.cons serial kbd).bind fun (cons, c) =>
        (trapDispatch r.line.devices irq c).map fun d =>
          { r with cons := cons, line := { r.line with devices := d } }
  | Event.getc serial kbd =>
      (consGetc serialExists r.cons serial kbd).bind fun (cons, c) => r.getchar cons c
  | Event.readline prompt => (r.line.prompt prompt).map fun line => { r with line := line }
  | Event.print out =>
      (System.execAll consPutc r.line.devices out).map fun d =>
        { r with line := { r.line with devices := d } }

def Cons.unread (cons : Cons) : Nat := (cons.wpos + CONSBUFSIZE - cons.rpos) % CONSBUFSIZE

def Event.received (serialExists : Bool) : Event -> List (BitVec 8)
  | Event.trap _ serial _ | Event.getc serial _ => if serialExists then nonzero serial else []
  | _ => []

def Event.typed : Event -> List (BitVec 8)
  | Event.kbdInit kbd | Event.trap _ _ kbd | Event.getc _ kbd => nonzero kbd
  | _ => []

def Event.feeds (serialExists : Bool) (e : Event) : List (BitVec 8) :=
  e.received serialExists ++ e.typed

def Event.isGetc : Event -> Bool
  | Event.getc _ _ => true
  | _ => false

def Event.isTrap : Event -> Bool
  | Event.trap _ _ _ => true
  | _ => false

/-- The buffer is not overrun, and while a line is read, nothing happens but polls by
`getchar`. -/
def Allowed (serialExists : Bool) (r : Reader) (e : Event) : Prop :=
  r.cons.unread + (e.feeds serialExists).length ≤ CONSBUFSIZE - 1 ∧
    r.line.reading = e.isGetc

/-!
# The dialogue

The same without buffers: what waits, the lines that have been read, the line that is being
read, and the sheet that everything is typed on.  `margin` is the sheet as the prompt left it.
-/

structure Dialogue where
  waiting : List (BitVec 8)
  lines : List (List (BitVec 8))
  line : List (BitVec 8)
  margin : Sheet
  sheet : Sheet

def EndsLine (c : BitVec 8) : Prop := c = 10 ∨ c = 13

instance (c : BitVec 8) : Decidable (EndsLine c) := inferInstanceAs (Decidable (_ ∨ _))

/-- A backspace takes the last character away, and what does not fit is dropped. -/
def edit (line : List (BitVec 8)) (c : BitVec 8) : List (BitVec 8) :=
  if 32 ≤ c.toNat ∧ line.length < BUFSIZE - 1 then line ++ [c]
  else if c = 8 then line.dropLast
  else line

def echo (line : List (BitVec 8)) (c : BitVec 8) : List (BitVec 32) :=
  if (32 ≤ c.toNat ∧ line.length < BUFSIZE - 1) ∨ (c = 8 ∧ line ≠ []) ∨ EndsLine c then
    [c.setWidth 32]
  else []

def Sheet.type (p : Sheet) (out : List (BitVec 32)) : Sheet :=
  p.putAll CRT_COLS CRT_ROWS (out.map stroke)

def Dialogue.take (s : Dialogue) (c : BitVec 8) : Dialogue :=
  if EndsLine c then
    { s with
      lines := s.lines ++ [s.line]
      line := []
      sheet := s.sheet.type (echo s.line c) }
  else
    { s with
      line := edit s.line c
      sheet := s.sheet.type (echo s.line c) }

def promptChars : Option Text -> List (BitVec 32)
  | none => []
  | some text => printedChars promptFormat [Arg.string (some text)]

/-- What a handler prints of a character, or of the 0 that it gets when none waits. -/
def Irq.report (irq : Irq) (c : BitVec 8) : List (BitVec 32) :=
  printedChars irq.format [charArg c, charArg c]

def Dialogue.exec (serialExists : Bool) (s : Dialogue) : Event -> Dialogue
  | Event.kbdInit kbd => { s with waiting := s.waiting ++ (Event.kbdInit kbd).feeds serialExists }
  | Event.trap irq serial kbd =>
      let waiting := s.waiting ++ (Event.trap irq serial kbd).feeds serialExists
      { s with waiting := waiting.tail, sheet := s.sheet.type (irq.report (waiting.headD 0)) }
  | Event.getc serial kbd =>
      match s.waiting ++ (Event.getc serial kbd).feeds serialExists with
      | [] => s
      | c :: waiting => { s with waiting := waiting }.take c
  | Event.readline prompt =>
      let sheet := s.sheet.type (promptChars prompt)
      { s with margin := sheet, sheet := sheet }
  | Event.print out => { s with sheet := s.sheet.type out }

def Dialogue.run (serialExists : Bool) (s : Dialogue) (events : List Event) : Dialogue :=
  events.foldl (Dialogue.exec serialExists) s

/-!
# One character
-/

def shownCell (c : BitVec 8) : BitVec 16 := 0x0700 ||| c.setWidth 16

theorem stroke_glyph : forall c : BitVec 8, 32 ≤ c.toNat ->
    stroke (c.setWidth 32) = Stroke.glyph (shownCell c) := by
  decide +kernel

theorem stroke_back : stroke ((8 : BitVec 8).setWidth 32) = Stroke.back blank := by decide

structure LineHolds (l : Line) (s : Dialogue) : Prop where
  shows : Shows l.devices.crt s.sheet
  i : l.i = s.line.length
  length_le : s.line.length ≤ BUFSIZE - 1
  buf : forall k c, s.line[k]? = some c -> l.buf k = c
  printable : forall c, c ∈ s.line -> 32 ≤ c.toNat
  edits : Paper.Edits CRT_COLS blank s.margin (s.line.map shownCell) s.sheet

section Take

variable {l : Line} {s : Dialogue} {c : BitVec 8}

theorem Sheet.type_singleton (p : Sheet) (c : BitVec 32) :
    p.type [c] = Paper.put CRT_COLS CRT_ROWS p (stroke c) := rfl

theorem Sheet.type_nil (p : Sheet) : p.type [] = p := rfl

theorem Shows.cputchar {d : Devices} {p : Sheet} (h : Shows d.crt p) (c : BitVec 32) :
    exists d', cputchar d c = some d' ∧ Shows d'.crt (p.type [c]) := by
  rcases h.putc (c := c) with ⟨crt, hput, _, _, hcrt⟩
  rcases consPutc_spec hput with ⟨d', hd, hsame, _⟩
  refine ⟨d', hd, ?_⟩
  rw [hsame]
  exact hcrt

theorem Shows.print {d : Devices} {p : Sheet} (h : Shows d.crt p) (out : List (BitVec 32)) :
    exists d', System.execAll consPutc d out = some d' ∧ Shows d'.crt (p.type out) := by
  induction out generalizing d p with
  | nil => exact ⟨d, rfl, h⟩
  | cons c out ih =>
      rcases h.cputchar c with ⟨mid, hput, hmid⟩
      rcases ih hmid with ⟨d', hrun, hd'⟩
      refine ⟨d', ?_, hd'⟩
      simp only [System.execAll, show consPutc d c = some mid from hput, Option.bind_some]
      exact hrun

theorem LineHolds.glyph (h : LineHolds l s) (hc : 32 ≤ c.toNat)
    (hroom : s.line.length < BUFSIZE - 1) :
    exists l', l.take c = some l' ∧ l'.reading = l.reading ∧
      LineHolds l' { s with line := s.line ++ [c], sheet := s.sheet.type [c.setWidth 32] } := by
  rcases h.shows.cputchar (c.setWidth 32) with ⟨d, hput, hd⟩
  have hi := h.i
  have hlt : l.i < BUFSIZE := by lia
  refine ⟨{ l with devices := d, buf := Function.update l.buf l.i c, i := l.i + 1 }, ?_, rfl, ?_⟩
  · unfold Line.take storeByte
    rw [if_pos ⟨hc, by lia⟩, hput, if_pos hlt]
    rfl
  · constructor
    · exact hd
    · change l.i + 1 = (s.line ++ [c]).length
      rw [List.length_append, List.length_singleton, hi]
    · change (s.line ++ [c]).length ≤ _
      rw [List.length_append, List.length_singleton]
      exact hroom
    · intro k x hk
      change Function.update l.buf l.i c k = x
      change (s.line ++ [c])[k]? = some x at hk
      rw [hi]
      by_cases hlast : k = s.line.length
      · subst hlast
        rw [List.getElem?_append_right (Nat.le_refl _), Nat.sub_self] at hk
        rw [Function.update_self]
        exact Option.some.inj hk
      · have hbound := (List.getElem?_eq_some_iff.mp hk).1
        rw [List.length_append, List.length_singleton] at hbound
        rw [List.getElem?_append_left (by lia)] at hk
        rw [Function.update_of_ne hlast]
        exact h.buf k x hk
    · intro x hx
      cases List.mem_append.mp hx with
      | inl hold => exact h.printable x hold
      | inr hnew => exact List.mem_singleton.mp hnew ▸ hc
    · change Paper.Edits CRT_COLS blank s.margin ((s.line ++ [c]).map shownCell) _
      rw [Sheet.type_singleton, stroke_glyph c hc, List.map_append]
      apply h.edits.glyph
      · rw [List.length_map]
        unfold BUFSIZE at hroom
        unfold CRT_COLS CRT_ROWS
        lia
      · decide

theorem LineHolds.back (h : LineHolds l s) (hne : s.line ≠ []) :
    exists l', l.take 8 = some l' ∧ l'.reading = l.reading ∧
      LineHolds l' { s with
        line := s.line.dropLast
        sheet := s.sheet.type [(8 : BitVec 8).setWidth 32] } := by
  rcases h.shows.cputchar ((8 : BitVec 8).setWidth 32) with ⟨d, hput, hd⟩
  have hi := h.i
  have hpos : 0 < s.line.length := List.length_pos_iff.mpr hne
  have hlen : s.line.dropLast.length = s.line.length - 1 := List.length_dropLast
  have hmem : forall x, x ∈ s.line.dropLast -> x ∈ s.line := fun x => List.mem_of_mem_dropLast
  refine ⟨{ l with devices := d, i := l.i - 1 }, ?_, rfl, ?_⟩
  · unfold Line.take
    rw [if_neg (fun hglyph => absurd hglyph.left (by decide)), if_pos ⟨rfl, by lia⟩, hput]
    rfl
  · constructor
    · exact hd
    · change l.i - 1 = s.line.dropLast.length
      lia
    · change s.line.dropLast.length ≤ _
      have hle := h.length_le
      lia
    · intro k x hk
      change s.line.dropLast[k]? = some x at hk
      have hbound := (List.getElem?_eq_some_iff.mp hk).1
      rw [List.dropLast_eq_take, List.getElem?_take_of_lt (by lia)] at hk
      exact h.buf k x hk
    · exact fun x hx => h.printable x (hmem x hx)
    · change Paper.Edits CRT_COLS blank s.margin (s.line.dropLast.map shownCell) _
      rw [Sheet.type_singleton, stroke_back, List.map_dropLast]
      apply h.edits.back _ h.shows.inView
      rw [Ne, List.map_eq_nil_iff]
      exact hne

theorem text_of_nul {l : Line} {chars : List (BitVec 8)} (hlength : chars.length < BUFSIZE)
    (hbuf : forall k c, chars[k]? = some c -> l.buf k = c) (hne : forall c, c ∈ chars -> c ≠ 0)
    (hnul : l.buf chars.length = 0) : l.text = chars := by
  have hfront : (List.range chars.length).map l.buf = chars := by
    apply List.ext_getElem?
    intro k
    rw [List.getElem?_map]
    by_cases hk : k < chars.length
    · rw [List.getElem?_range hk, List.getElem?_eq_getElem hk]
      exact congrArg some (hbuf k _ (List.getElem?_eq_getElem hk))
    · rw [List.getElem?_eq_none (by rw [List.length_range]; lia),
        List.getElem?_eq_none (by lia)]
      rfl
  have hsplit : List.range BUFSIZE = List.range chars.length ++
      (List.range (BUFSIZE - chars.length)).map (chars.length + ·) := by
    rw [← List.range_add]
    congr 1
    lia
  have hrest : exists rest, (List.range (BUFSIZE - chars.length)).map (chars.length + ·) =
      chars.length :: rest := by
    have hsucc : BUFSIZE - chars.length = BUFSIZE - chars.length - 1 + 1 := by lia
    rw [hsucc, List.range_succ_eq_map]
    exact ⟨_, rfl⟩
  rcases hrest with ⟨rest, hrest⟩
  unfold Line.text
  rw [hsplit, hrest, List.map_append, hfront, List.map_cons, hnul,
    List.takeWhile_append_of_pos (fun c hc => decide_eq_true (hne c hc))]
  exact List.append_nil _

theorem LineHolds.finish (h : LineHolds l s) (hend : EndsLine c) :
    exists l', l.take c = some l' ∧ l'.reading = false ∧ l'.text = s.line ∧
      Shows l'.devices.crt (s.sheet.type [c.setWidth 32]) := by
  rcases h.shows.cputchar (c.setWidth 32) with ⟨d, hput, hd⟩
  have hi := h.i
  have hle := h.length_le
  have hlt : s.line.length < BUFSIZE := by
    unfold BUFSIZE at *
    lia
  have hlow : ¬ (32 ≤ c.toNat ∧ l.i < BUFSIZE - 1) := by
    rintro ⟨hc, _⟩
    cases hend with
    | inl hnewline => exact absurd (hnewline ▸ hc) (by decide)
    | inr hreturn => exact absurd (hreturn ▸ hc) (by decide)
  have hback : ¬ (c = 8 ∧ 0 < l.i) := by
    rintro ⟨hc, _⟩
    rw [hc] at hend
    exact absurd hend (by decide)
  refine ⟨{ l with devices := d, buf := Function.update l.buf l.i 0, reading := false }, ?_, rfl,
    ?_, hd⟩
  · unfold Line.take storeByte
    rw [if_neg hlow, if_neg hback, if_pos (show c = 10 ∨ c = 13 from hend), hput,
      if_pos (by lia)]
    rfl
  · apply text_of_nul hlt
    · intro k x hk
      have hbound := (List.getElem?_eq_some_iff.mp hk).1
      change Function.update l.buf l.i 0 k = x
      rw [Function.update_of_ne (by lia)]
      exact h.buf k x hk
    · intro x hx hzero
      have hprintable := h.printable x hx
      rw [hzero] at hprintable
      exact absurd hprintable (by decide)
    · change Function.update l.buf l.i 0 s.line.length = 0
      rw [← hi]
      exact Function.update_self ..

theorem LineHolds.take (h : LineHolds l s) (hend : ¬ EndsLine c) :
    exists l', l.take c = some l' ∧ l'.reading = l.reading ∧ LineHolds l' (s.take c) := by
  have hi := h.i
  unfold Dialogue.take edit echo
  rw [if_neg hend]
  by_cases hglyph : 32 ≤ c.toNat ∧ s.line.length < BUFSIZE - 1
  · rw [if_pos hglyph, if_pos (Or.inl hglyph)]
    exact h.glyph hglyph.left hglyph.right
  · rw [if_neg hglyph]
    by_cases hback : c = 8 ∧ s.line ≠ []
    · rw [if_pos hback.left, if_pos (Or.inr (Or.inl hback)), hback.left]
      exact h.back hback.right
    · have hecho : ¬ ((32 ≤ c.toNat ∧ s.line.length < BUFSIZE - 1) ∨ (c = 8 ∧ s.line ≠ []) ∨
          EndsLine c) := not_or.mpr ⟨hglyph, not_or.mpr ⟨hback, hend⟩⟩
      have hsame : (if c = 8 then s.line.dropLast else s.line) = s.line := by
        split
        · rename_i hc
          rw [not_not.mp fun hne => hback ⟨hc, hne⟩]
          rfl
        · rfl
      rw [if_neg hecho, hsame, Sheet.type_nil]
      refine ⟨l, ?_, rfl, h⟩
      have hback' : ¬ (c = 8 ∧ 0 < l.i) := by
        rintro ⟨hc, hpos⟩
        rw [hi] at hpos
        exact hback ⟨hc, List.length_pos_iff.mp hpos⟩
      unfold Line.take
      rw [hi, if_neg hglyph, ← hi, if_neg hback', if_neg (show ¬ (c = 10 ∨ c = 13) from hend)]

end Take

/-!
# The reader
-/

structure ReaderHolds (r : Reader) (s : Dialogue) : Prop where
  waiting : exists fed taken, Holds r.cons fed taken ∧ s.waiting = fed.drop taken
  lines : r.lines = s.lines
  shows : Shows r.line.devices.crt s.sheet
  reading : r.line.reading = true -> LineHolds r.line s
  idle : r.line.reading = false -> s.line = []

theorem Holds.unread {cons : Cons} {fed : List (BitVec 8)} {taken : Nat}
    (h : Holds cons fed taken) : cons.unread = (fed.drop taken).length := by
  have hroom := h.room
  have hle := h.taken_le
  unfold Cons.unread
  rw [h.rpos, h.wpos, List.length_drop]
  unfold CONSBUFSIZE at *
  lia

section Steps

variable {serialExists : Bool} {r : Reader} {s : Dialogue}

theorem ReaderHolds.getchar {cons : Cons} {fed : List (BitVec 8)} {taken : Nat} {c : BitVec 8}
    (h : ReaderHolds r s) (hreading : r.line.reading = true) (hcons : Holds cons fed taken)
    (hc : c ≠ 0) :
    exists r', r.getchar cons c = some r' ∧
      ReaderHolds r' ({ s with waiting := fed.drop taken }.take c) := by
  have hline := h.reading hreading
  unfold Reader.getchar Dialogue.take
  rw [if_neg hc]
  by_cases hend : EndsLine c
  · rcases hline.finish hend with ⟨l', htake, hdone, htext, hshows⟩
    rw [htake, if_pos hend]
    refine ⟨_, rfl, ⟨⟨fed, taken, hcons, rfl⟩, ?_, ?_, ?_, fun _ => rfl⟩⟩
    · change (if l'.reading then r.lines else r.lines ++ [l'.text]) = s.lines ++ [s.line]
      rw [hdone, htext, ← h.lines]
      rfl
    · change Shows l'.devices.crt (s.sheet.type (echo s.line c))
      unfold echo
      rw [if_pos (Or.inr (Or.inr hend))]
      exact hshows
    · intro hstill
      exact absurd (hstill.symm.trans hdone) (by decide)
  · rcases hline.take hend with ⟨l', htake, hkept, hholds⟩
    unfold Dialogue.take at hholds
    rw [if_neg hend] at hholds
    rw [htake, if_neg hend]
    refine ⟨_, rfl, ⟨⟨fed, taken, hcons, rfl⟩, ?_, hholds.shows, fun _ => ?_, ?_⟩⟩
    · change (if l'.reading then r.lines else r.lines ++ [l'.text]) = s.lines
      rw [hkept, hreading]
      exact h.lines
    · exact ⟨hholds.shows, hholds.i, hholds.length_le, hholds.buf, hholds.printable,
        hholds.edits⟩
    · intro hdone
      exact absurd (hdone.symm.trans (hkept.trans hreading)) (by decide)

theorem Holds.room_for {cons : Cons} {fed fresh : List (BitVec 8)} {taken : Nat}
    (h : Holds cons fed taken) (hroom : cons.unread + fresh.length ≤ CONSBUFSIZE - 1) :
    fed.length + fresh.length < taken + CONSBUFSIZE := by
  have hle := h.taken_le
  have hpos := CONSBUFSIZE_pos
  rw [h.unread, List.length_drop] at hroom
  lia

theorem ReaderHolds.kbdInit {kbd : List (BitVec 8)} (h : ReaderHolds r s)
    (hallowed : Allowed serialExists r (Event.kbdInit kbd)) :
    exists r', r.exec serialExists (Event.kbdInit kbd) = some r' ∧
      ReaderHolds r' (s.exec serialExists (Event.kbdInit kbd)) := by
  have hidle : r.line.reading = false := hallowed.right
  rcases h.waiting with ⟨fed, taken, hcons, hwaiting⟩
  rcases hcons.consIntr_spec (hcons.room_for hallowed.left) with ⟨cons, hrun, hcons'⟩
  refine ⟨{ r with cons := cons }, ?_, ⟨⟨_, taken, hcons', ?_⟩, h.lines, h.shows, ?_, h.idle⟩⟩
  · change (consIntr r.cons kbd).map _ = _
    rw [hrun]
    rfl
  · change s.waiting ++ nonzero kbd = _
    rw [List.drop_append_of_le_length hcons.taken_le, hwaiting]
  · intro hreads
    exact absurd (hreads.symm.trans hidle) (by decide)

theorem ReaderHolds.takes {serial kbd fresh : List (BitVec 8)} (h : ReaderHolds r s)
    (hfresh : (Call.getc serial kbd).feeds serialExists = fresh)
    (hroom : r.cons.unread + fresh.length ≤ CONSBUFSIZE - 1) :
    exists cons' fed' taken',
      consGetc serialExists r.cons serial kbd = some (cons', (s.waiting ++ fresh).headD 0) ∧
      Holds cons' fed' taken' ∧ fed'.drop taken' = (s.waiting ++ fresh).tail ∧
      forall c, c ∈ s.waiting ++ fresh -> c ≠ 0 := by
  subst hfresh
  rcases h.waiting with ⟨fed, taken, hcons, hwaiting⟩
  rcases hcons.poll (hcons.room_for hroom) with ⟨cons, hpoll, hcons'⟩
  have hsplit : s.waiting ++ (Call.getc serial kbd).feeds serialExists =
      (fed ++ (Call.getc serial kbd).feeds serialExists).drop taken := by
    rw [List.drop_append_of_le_length hcons.taken_le, hwaiting]
  rw [hpoll, hsplit]
  generalize fed ++ (Call.getc serial kbd).feeds serialExists = all at hcons'
  have hne : forall c, c ∈ all.drop taken -> c ≠ 0 :=
    fun c hc => hcons'.fed_ne c (List.mem_of_mem_drop hc)
  cases Nat.eq_or_lt_of_le hcons'.taken_le with
  | inl heq =>
      have hnil : all.drop taken = [] := List.drop_eq_nil_of_le (Nat.le_of_eq heq.symm)
      rw [hcons'.grabChar_of_eq heq]
      refine ⟨cons, all, taken, ?_, hcons', ?_, hne⟩
      · rw [hnil]
        rfl
      · rw [hnil]
        rfl
  | inr hlt =>
      rcases hcons'.grabChar_of_lt hlt with ⟨cons', hgrab, hcons''⟩
      have hhead : all.drop taken = all.getD taken 0 :: all.drop (taken + 1) := by
        rw [List.getD_eq_getElem _ 0 hlt]
        exact List.drop_eq_getElem_cons hlt
      rw [hgrab]
      refine ⟨cons', all, taken + 1, ?_, hcons'', ?_, hne⟩
      · rw [hhead]
        rfl
      · rw [hhead]
        rfl

theorem ReaderHolds.trap {irq : Irq} {serial kbd : List (BitVec 8)} (h : ReaderHolds r s)
    (hallowed : Allowed serialExists r (Event.trap irq serial kbd)) :
    exists r', r.exec serialExists (Event.trap irq serial kbd) = some r' ∧
      ReaderHolds r' (s.exec serialExists (Event.trap irq serial kbd)) := by
  have hidle : r.line.reading = false := hallowed.right
  rcases h.takes (show _ = (Event.trap irq serial kbd).feeds serialExists from rfl)
    hallowed.left with ⟨cons, fed, taken, hgetc, hcons, hrest, _⟩
  rcases h.shows.cprintf irq.format [charArg _, charArg _] with ⟨d, hprint, _, _, hd⟩
  refine ⟨{ r with cons := cons, line := { r.line with devices := d } }, ?_,
    ⟨⟨fed, taken, hcons, hrest.symm⟩, h.lines, hd, ?_, h.idle⟩⟩
  · unfold Reader.exec
    dsimp only
    rw [hgetc, Option.bind_some]
    unfold trapDispatch
    dsimp only
    rw [hprint]
    rfl
  · intro hreads
    exact absurd (hreads.symm.trans hidle) (by decide)

theorem ReaderHolds.getc {serial kbd : List (BitVec 8)} (h : ReaderHolds r s)
    (hallowed : Allowed serialExists r (Event.getc serial kbd)) :
    exists r', r.exec serialExists (Event.getc serial kbd) = some r' ∧
      ReaderHolds r' (s.exec serialExists (Event.getc serial kbd)) := by
  rcases h.takes (show _ = (Event.getc serial kbd).feeds serialExists from rfl)
    hallowed.left with ⟨cons, fed, taken, hgetc, hcons, hrest, hne⟩
  unfold Reader.exec Dialogue.exec
  dsimp only
  rw [hgetc, Option.bind_some]
  cases hwaiting : s.waiting ++ (Event.getc serial kbd).feeds serialExists with
  | nil =>
      rw [hwaiting] at hrest
      refine ⟨{ r with cons := cons }, rfl, ⟨⟨fed, taken, hcons, ?_⟩, h.lines, h.shows, h.reading,
        h.idle⟩⟩
      rw [(List.append_eq_nil_iff.mp hwaiting).left]
      exact hrest.symm
  | cons c waiting =>
      rw [hwaiting] at hrest hne
      have hnext := h.getchar hallowed.right hcons (hne c List.mem_cons_self)
      rw [hrest] at hnext
      exact hnext

theorem ReaderHolds.prompt {prompt : Option Text} (h : ReaderHolds r s)
    (hidle : r.line.reading = false) :
    exists r', r.exec serialExists (Event.readline prompt) = some r' ∧
      ReaderHolds r' (s.exec serialExists (Event.readline prompt)) := by
  have hstart : forall d, Shows d.crt (s.sheet.type (promptChars prompt)) ->
      LineHolds { r.line with devices := d, i := 0, reading := true }
        (s.exec serialExists (Event.readline prompt)) := by
    intro d hd
    have hnil : (s.exec serialExists (Event.readline prompt)).line = [] := h.idle hidle
    constructor
    · exact hd
    · rw [hnil]
      rfl
    · rw [hnil]
      exact Nat.zero_le _
    · intro k c hk
      rw [hnil, List.getElem?_nil] at hk
      cases hk
    · intro c hc
      rw [hnil] at hc
      cases hc
    · rw [hnil]
      exact Paper.Edits.start hd.inView
  have hprompt : exists d, Shows d.crt (s.sheet.type (promptChars prompt)) ∧
      r.line.prompt prompt = some { r.line with devices := d, i := 0, reading := true } := by
    cases prompt with
    | none => exact ⟨r.line.devices, h.shows, rfl⟩
    | some text =>
        rcases h.shows.cprintf promptFormat [Arg.string (some text)] with ⟨d, hrun, _, _, hd⟩
        refine ⟨d, hd, ?_⟩
        unfold Line.prompt
        simp only [hrun, Option.bind_eq_bind, Option.bind_some]
  rcases hprompt with ⟨d, hd, hrun⟩
  refine ⟨{ r with line := { r.line with devices := d, i := 0, reading := true } }, ?_,
    ⟨h.waiting, h.lines, hd, fun _ => hstart d hd, ?_⟩⟩
  · change (r.line.prompt prompt).map _ = _
    rw [hrun]
    rfl
  · intro hreads
    cases hreads

theorem ReaderHolds.print {out : List (BitVec 32)} (h : ReaderHolds r s)
    (hidle : r.line.reading = false) :
    exists r', r.exec serialExists (Event.print out) = some r' ∧
      ReaderHolds r' (s.exec serialExists (Event.print out)) := by
  rcases h.shows.print out with ⟨d, hrun, hd⟩
  refine ⟨{ r with line := { r.line with devices := d } }, ?_,
    ⟨h.waiting, h.lines, hd, ?_, h.idle⟩⟩
  · change (System.execAll consPutc r.line.devices out).map _ = _
    rw [hrun]
    rfl
  · intro hreads
    exact absurd (hreads.symm.trans hidle) (by decide)

theorem ReaderHolds.exec {e : Event} (h : ReaderHolds r s) (hallowed : Allowed serialExists r e) :
    exists r', r.exec serialExists e = some r' ∧ ReaderHolds r' (s.exec serialExists e) := by
  cases e with
  | kbdInit kbd => exact h.kbdInit hallowed
  | trap irq serial kbd => exact h.trap hallowed
  | getc serial kbd => exact h.getc hallowed
  | readline prompt => exact h.prompt hallowed.right
  | print out => exact h.print hallowed.right

/-- Every run of the reader does what the dialogue does. -/
theorem ReaderHolds.run {events : List Event} (h : ReaderHolds r s)
    (hmeets : System.ExecMeets (Reader.exec serialExists) (Allowed serialExists) r events) :
    exists r', System.execAll (Reader.exec serialExists) r events = some r' ∧
      ReaderHolds r' (s.run serialExists events) := by
  induction events generalizing r s with
  | nil => exact ⟨r, rfl, h⟩
  | cons e events ih =>
      rcases h.exec hmeets.left with ⟨mid, hstep, hmid⟩
      rcases ih hmid (hmeets.right mid hstep) with ⟨r', hrest, hr'⟩
      refine ⟨r', ?_, hr'⟩
      simp only [System.execAll, hstep, Option.bind_some]
      exact hrest

end Steps

/-!
# The text that was typed
-/

def scanLine (s : List (List (BitVec 8)) × List (BitVec 8)) (c : BitVec 8) :
    List (List (BitVec 8)) × List (BitVec 8) :=
  if EndsLine c then (s.1 ++ [s.2], []) else (s.1, edit s.2 c)

def typedLines (text : List (BitVec 8)) : List (List (BitVec 8)) × List (BitVec 8) :=
  text.foldl scanLine ([], [])

/-- Who has called `cons_getc`. -/
inductive Taker where
  | readline
  | handler
deriving DecidableEq

def takenBy (taker : Taker) (taken : List (Taker × BitVec 8)) : List (BitVec 8) :=
  (taken.filter fun x => x.fst = taker).map Prod.snd

section Dialogue

variable {s : Dialogue}

/-- Of what was fed, `taken` has been taken out of the buffer, a character by each interrupt at
most; the lines are those of the characters that `readline` took. -/
structure Reads (fed : List (BitVec 8)) (taken : List (Taker × BitVec 8)) (traps : Nat)
    (s : Dialogue) : Prop where
  stream : taken.map Prod.snd ++ s.waiting = fed
  lines : typedLines (takenBy Taker.readline taken) = (s.lines, s.line)
  handled : (takenBy Taker.handler taken).length ≤ traps

theorem takenBy_concat (taker : Taker) (taken : List (Taker × BitVec 8)) (x : Taker × BitVec 8) :
    takenBy taker (taken ++ [x]) = takenBy taker taken ++ if x.fst = taker then [x.snd] else [] := by
  unfold takenBy
  rw [List.filter_append, List.map_append]
  congr 1
  split
  · rename_i htaker
    rw [List.filter_cons_of_pos (by simpa using htaker)]
    rfl
  · rename_i hother
    rw [List.filter_cons_of_neg (by simpa using hother)]
    rfl

variable {fed waiting : List (BitVec 8)} {taken : List (Taker × BitVec 8)} {traps : Nat}
  {c : BitVec 8}

theorem stream_concat (taker : Taker) (h : taken.map Prod.snd ++ c :: waiting = fed) :
    (taken ++ [(taker, c)]).map Prod.snd ++ waiting = fed := by
  rw [List.map_append, List.append_assoc]
  exact h

theorem Reads.take (h : Reads fed taken traps { s with waiting := c :: waiting }) :
    Reads fed (taken ++ [(Taker.readline, c)]) traps ({ s with waiting := waiting }.take c) := by
  have hstream := stream_concat Taker.readline h.stream
  have hhandled : (takenBy Taker.handler (taken ++ [(Taker.readline, c)])).length ≤ traps := by
    rw [takenBy_concat, if_neg (fun heq => Taker.noConfusion heq), List.append_nil]
    exact h.handled
  have hscan : typedLines (takenBy Taker.readline (taken ++ [(Taker.readline, c)])) =
      scanLine (s.lines, s.line) c := by
    have hlines := h.lines
    rw [takenBy_concat, if_pos rfl]
    unfold typedLines at *
    rw [List.foldl_append, hlines]
    rfl
  unfold scanLine at hscan
  unfold Dialogue.take
  by_cases hend : EndsLine c
  · rw [if_pos hend] at hscan ⊢
    exact ⟨hstream, hscan, hhandled⟩
  · rw [if_neg hend] at hscan ⊢
    exact ⟨hstream, hscan, hhandled⟩

theorem Reads.handle {sheet : Sheet}
    (h : Reads fed taken traps { s with waiting := c :: waiting }) :
    Reads fed (taken ++ [(Taker.handler, c)]) (traps + 1)
      { s with waiting := waiting, sheet := sheet } := by
  constructor
  · exact stream_concat Taker.handler h.stream
  · rw [takenBy_concat, if_neg (fun heq => Taker.noConfusion heq), List.append_nil]
    exact h.lines
  · rw [takenBy_concat, if_pos rfl, List.length_append, List.length_singleton]
    exact Nat.succ_le_succ h.handled

theorem Reads.feed (h : Reads fed taken traps s) (fresh : List (BitVec 8)) :
    Reads (fed ++ fresh) taken traps { s with waiting := s.waiting ++ fresh } := by
  refine ⟨?_, h.lines, h.handled⟩
  rw [← h.stream, List.append_assoc]

theorem Reads.exec (h : Reads fed taken traps s) (serialExists : Bool) (e : Event) :
    exists taken', Reads (fed ++ e.feeds serialExists) taken'
      (traps + if e.isTrap then 1 else 0) (s.exec serialExists e) := by
  have hfeed := h.feed (e.feeds serialExists)
  cases e with
  | kbdInit kbd => exact ⟨taken, hfeed⟩
  | trap irq serial kbd =>
      unfold Dialogue.exec
      dsimp only
      cases hwaiting : s.waiting ++ (Event.trap irq serial kbd).feeds serialExists with
      | nil =>
          rw [hwaiting] at hfeed
          exact ⟨taken, hfeed.stream, hfeed.lines, Nat.le_succ_of_le hfeed.handled⟩
      | cons c waiting =>
          rw [hwaiting] at hfeed
          exact ⟨_, hfeed.handle⟩
  | getc serial kbd =>
      unfold Dialogue.exec
      dsimp only
      cases hwaiting : s.waiting ++ (Event.getc serial kbd).feeds serialExists with
      | nil =>
          rw [hwaiting] at hfeed
          refine ⟨taken, ?_, hfeed.lines, hfeed.handled⟩
          rw [(List.append_eq_nil_iff.mp hwaiting).left]
          exact hfeed.stream
      | cons c waiting =>
          rw [hwaiting] at hfeed
          exact ⟨_, hfeed.take⟩
  | readline prompt =>
      refine ⟨taken, ?_, h.lines, h.handled⟩
      change _ = fed ++ []
      rw [List.append_nil]
      exact h.stream
  | print out =>
      refine ⟨taken, ?_, h.lines, h.handled⟩
      change _ = fed ++ []
      rw [List.append_nil]
      exact h.stream

theorem Reads.run (h : Reads fed taken traps s) (serialExists : Bool) (events : List Event) :
    exists taken', Reads (fed ++ events.flatMap fun e => e.feeds serialExists) taken'
      (traps + events.countP Event.isTrap) (s.run serialExists events) := by
  induction events generalizing s fed taken traps with
  | nil =>
      refine ⟨taken, ?_⟩
      rw [List.flatMap_nil, List.append_nil]
      exact h
  | cons e events ih =>
      rcases h.exec serialExists e with ⟨mid, hmid⟩
      rcases ih hmid with ⟨taken', htaken'⟩
      refine ⟨taken', ?_⟩
      rw [List.flatMap_cons, ← List.append_assoc, List.countP_cons,
        Nat.add_comm (events.countP Event.isTrap), ← Nat.add_assoc]
      exact htaken'

end Dialogue

/-- The dialogue at the start: what is left in the buffer, and the screen as a sheet. -/
def Dialogue.start (waiting : List (BitVec 8)) (sheet : Sheet) : Dialogue :=
  ⟨waiting, [], [], sheet, sheet⟩

theorem ReaderHolds.start {cons : Cons} {fed : List (BitVec 8)} {taken : Nat} {line : Line}
    (hcons : Holds cons fed taken) (hidle : line.reading = false)
    (hpos : line.devices.crt.pos < CRT_SIZE) :
    ReaderHolds ⟨cons, line, []⟩ (Dialogue.start (fed.drop taken) line.devices.crt.sheet) := by
  constructor
  · exact ⟨fed, taken, hcons, rfl⟩
  · rfl
  · exact Shows.sheet hpos
  · intro hreads
    exact absurd (hreads.symm.trans hidle) (by decide)
  · exact fun _ => rfl

/-- In every run of interrupts, polls, calls of `readline` and other output that does not overrun
the input buffer, the reader does what the dialogue does; so the lines that `readline` returns
are the lines of the text that the handlers have left, edited, and the line that is being read
stands on the screen behind the prompt. -/
theorem readline_returns_typed_lines (serialExists : Bool) {cons : Cons}
    {fed : List (BitVec 8)} {taken : Nat} (hcons : Holds cons fed taken) (line : Line)
    (hidle : line.reading = false) (hpos : line.devices.crt.pos < CRT_SIZE) (events : List Event)
    (hmeets : System.ExecMeets (Reader.exec serialExists) (Allowed serialExists)
      ⟨cons, line, []⟩ events) :
    exists r taken', System.execAll (Reader.exec serialExists) ⟨cons, line, []⟩ events = some r ∧
      ReaderHolds r ((Dialogue.start (fed.drop taken) line.devices.crt.sheet).run serialExists
        events) ∧
      Reads (fed.drop taken ++ events.flatMap fun e => e.feeds serialExists) taken'
        (events.countP Event.isTrap)
        ((Dialogue.start (fed.drop taken) line.devices.crt.sheet).run serialExists events) := by
  have hstart : ReaderHolds ⟨cons, line, []⟩
      (Dialogue.start (fed.drop taken) line.devices.crt.sheet) :=
    ReaderHolds.start hcons hidle hpos
  have hreads : Reads (fed.drop taken) [] 0
      (Dialogue.start (fed.drop taken) line.devices.crt.sheet) := ⟨rfl, rfl, Nat.le_refl 0⟩
  rcases hstart.run hmeets with ⟨r, hrun, hr⟩
  rcases hreads.run serialExists events with ⟨taken', htaken⟩
  rw [Nat.zero_add] at htaken
  exact ⟨r, taken', hrun, hr, htaken⟩

def monitorPrompt : Text := ⟨"K> ".toList, by decide, by decide⟩

def sevenEvents : List Event :=
  [Event.kbdInit [104], Event.trap Irq.com1 [105] [], Event.readline (some monitorPrompt),
    Event.getc [] [], Event.getc [] [106], Event.getc [8] [], Event.getc [] [13, 104]]

def idleLine : Line := ⟨lastDevices, fun _ => 0, 0, false⟩

instance (serialExists : Bool) (r : Reader) (e : Event) : Decidable (Allowed serialExists r e) :=
  inferInstanceAs (Decidable (_ ∧ _))

theorem sevenEvents_meet : System.ExecMeets (Reader.exec true) (Allowed true)
    ⟨Cons.zero, idleLine, []⟩ sevenEvents := by
  decide +kernel

theorem readline_returns_typed_lines_seven_events :
    Holds Cons.zero [] 0 ∧ idleLine.reading = false ∧ idleLine.devices.crt.pos < CRT_SIZE ∧
    System.ExecMeets (Reader.exec true) (Allowed true) ⟨Cons.zero, idleLine, []⟩ sevenEvents ∧
    exists r taken,
      System.execAll (Reader.exec true) ⟨Cons.zero, idleLine, []⟩ sevenEvents = some r ∧
      r.lines = [[105]] ∧
      ReaderHolds r ((Dialogue.start [] idleLine.devices.crt.sheet).run true sevenEvents) ∧
      Reads [104, 105, 106, 8, 13, 104] taken 1
        ((Dialogue.start [] idleLine.devices.crt.sheet).run true sevenEvents) := by
  have hcons : Holds Cons.zero [] 0 := start_inv.holds
  rcases readline_returns_typed_lines true hcons idleLine rfl (by decide) sevenEvents
    sevenEvents_meet with ⟨r, taken, hrun, hr, hreads⟩
  have hlines : (System.execAll (Reader.exec true) ⟨Cons.zero, idleLine, []⟩ sevenEvents).map
      Reader.lines = some [[105]] := by decide +kernel
  rw [hrun] at hlines
  exact ⟨hcons, rfl, by decide, sevenEvents_meet, r, taken, hrun,
    Option.some.inj hlines, hr, hreads⟩

end Console
end OsLabs
