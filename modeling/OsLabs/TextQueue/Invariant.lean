import Mathlib.Data.List.GetD
import OsLabs.Foundation.CircularBuffer
import OsLabs.TextQueue.Model

/-!
# The invariant of the text queue

Text number `k` is kept in slot `k % (TEXT_NUM + 1)`.  The writer alone changes the
slots, so the last `TEXT_NUM + 1` texts are always in place, and each process
finds its own index where it left it.
-/

namespace OsLabs
namespace TextQueue

open Foundation

variable {textNum published taken : Nat} {stored entered : List Text} {s t : State}

def chars (texts : List Text) : List (List Char) := texts.map Subtype.val

def textAt (texts : List Text) (k : Nat) : List Char := (chars texts).getD k []

def NoEnd (texts : List Text) : Prop := forall text, text ∈ texts -> isEnd text.val = false

/-- The last text, and no other, ends the conversation. -/
def EndsLast (texts : List Text) : Prop :=
  exists pre last, texts = pre ++ [last] ∧ NoEnd pre ∧ isEnd last.val = true

/-!
# Where the writer is
-/

/-- Every text that was entered has been published. -/
structure Idle (published : Nat) (entered stored : List Text) : Prop where
  length : stored.length = published
  entered : entered = stored
  noEnd : NoEnd stored

structure Entered (textNum published taken : Nat) (entered stored : List Text) (buffer : Text) :
    Prop where
  length : stored.length = published
  entered : entered = stored ++ [buffer]
  noEnd : NoEnd stored
  room : published < taken + textNum

/-- The last text is in its slot, but `rear` still stands there. -/
structure Copied (textNum published taken : Nat) (entered stored : List Text) (buffer : Text) :
    Prop where
  entered : entered = stored
  room : published < taken + textNum
  last : exists pre, stored = pre ++ [buffer] ∧ pre.length = published ∧ NoEnd pre

structure Displaying (textNum published from_ : Nat) (stored : List Text)
    (display : List (List Char)) (i k : Nat) : Prop where
  index : i = k % (textNum + 1)
  start : from_ ≤ k
  window : published < from_ + textNum
  texts : display = ((chars stored).take k).drop from_

def WriterAt (textNum published : Nat) (s : State) : WriterPc -> Prop
  | WriterPc.guardRear => Idle published s.entered s.stored
  | WriterPc.guardFront rear =>
      Idle published s.entered s.stored ∧ rear = published % (textNum + 1)
  | WriterPc.enter =>
      Idle published s.entered s.stored ∧ published < s.taken + textNum
  | WriterPc.copyRear => Entered textNum published s.taken s.entered s.stored s.buffer
  | WriterPc.copyText slot =>
      Entered textNum published s.taken s.entered s.stored s.buffer ∧
        slot = published % (textNum + 1)
  | WriterPc.countRear => Copied textNum published s.taken s.entered s.stored s.buffer
  | WriterPc.countFront rear =>
      Copied textNum published s.taken s.entered s.stored s.buffer ∧
        rear = published % (textNum + 1)
  | WriterPc.startFront => Copied textNum published s.taken s.entered s.stored s.buffer
  | WriterPc.loopRear i =>
      Copied textNum published s.taken s.entered s.stored s.buffer ∧
        exists k, k ≤ published + 1 ∧
          Displaying textNum published s.displayFrom s.stored s.display i k
  | WriterPc.loopText i =>
      Copied textNum published s.taken s.entered s.stored s.buffer ∧
        exists k, k ≤ published ∧
          Displaying textNum published s.displayFrom s.stored s.display i k
  | WriterPc.advanceRear =>
      Copied textNum published s.taken s.entered s.stored s.buffer ∧
        s.display = (chars s.stored).drop s.displayFrom
  | WriterPc.advance rear =>
      Copied textNum published s.taken s.entered s.stored s.buffer ∧
        rear = published % (textNum + 1)
  | WriterPc.noticeRear => Idle published s.entered s.stored
  | WriterPc.noticeFront _ => Idle published s.entered s.stored
  | WriterPc.exited =>
      s.stored.length = published ∧ s.entered = s.stored ∧ EndsLast s.stored

/-!
# Where the reader is
-/

/-- The texts before the front are printed, and no other. -/
def BeforePrint (s : State) : Prop := s.printed = (chars s.stored).take s.taken

/-- The text at the front is printed as well. -/
structure AfterPrint (published : Nat) (s : State) : Prop where
  printed : s.printed = (chars s.stored).take (s.taken + 1)
  available : s.taken < published

def ReaderAt (textNum published : Nat) (s : State) : ReaderPc -> Prop
  | ReaderPc.guardFront => BeforePrint s
  | ReaderPc.guardRear front => BeforePrint s ∧ front = s.taken % (textNum + 1)
  | ReaderPc.printFront => BeforePrint s ∧ s.taken < published
  | ReaderPc.printText slot =>
      BeforePrint s ∧ s.taken < published ∧ slot = s.taken % (textNum + 1)
  | ReaderPc.testFront => AfterPrint published s
  | ReaderPc.testText slot => AfterPrint published s ∧ slot = s.taken % (textNum + 1)
  | ReaderPc.advanceFront =>
      AfterPrint published s ∧ isEnd (textAt s.stored s.taken) = false
  | ReaderPc.advance front =>
      AfterPrint published s ∧ isEnd (textAt s.stored s.taken) = false ∧
        front = s.taken % (textNum + 1)
  | ReaderPc.exited => AfterPrint published s ∧ isEnd (textAt s.stored s.taken) = true

/-- The displayed number is that of the stored texts that were not taken. -/
structure Count.Right (textNum : Nat) (c : Count) : Prop where
  displayed : c.displayed = c.stored - c.taken
  pos : 1 ≤ c.displayed
  le : c.displayed ≤ textNum

/-- `published` texts were put before `rear`. -/
structure QueueInv (textNum published : Nat) (s : State) : Prop where
  front : s.front = s.taken % (textNum + 1)
  rear : s.rear = published % (textNum + 1)
  taken_le : s.taken ≤ published
  room : published ≤ s.taken + textNum
  slots : Buffered (textNum + 1) (fun i => cString (s.mtext i)) (textAt s.stored)
    (s.stored.length - (textNum + 1)) s.stored.length
  counts : forall c, c ∈ s.counts -> c.Right textNum
  writer : WriterAt textNum published s s.writer
  reader : ReaderAt textNum published s s.reader

/-!
# The texts
-/

theorem length_chars (texts : List Text) : (chars texts).length = texts.length :=
  List.length_map _

theorem chars_append (texts more : List Text) :
    chars (texts ++ more) = chars texts ++ chars more := List.map_append

theorem textAt_append (texts more : List Text) {k : Nat} (hk : k < texts.length) :
    textAt (texts ++ more) k = textAt texts k := by
  rw [← length_chars texts] at hk
  unfold textAt
  rw [chars_append, List.getD_append _ _ _ _ hk]

theorem textAt_concat (texts : List Text) (text : Text) :
    textAt (texts ++ [text]) texts.length = text.val := by
  unfold textAt
  rw [chars_append, ← length_chars texts, List.getD_append_right _ _ _ _ (le_refl _), Nat.sub_self]
  rfl

theorem take_succ_chars {texts : List Text} {k : Nat} (hk : k < texts.length) :
    (chars texts).take (k + 1) = (chars texts).take k ++ [textAt texts k] := by
  rw [← length_chars texts] at hk
  unfold textAt
  rw [List.take_succ_eq_append_getElem hk, List.getD_eq_getElem _ _ hk]

theorem take_chars_prefix {texts more : List Text} {k : Nat} (hstart : texts <+: more)
    (hk : k ≤ texts.length) : (chars more).take k = (chars texts).take k := by
  rcases hstart with ⟨rest, hmore⟩
  rw [← length_chars texts] at hk
  rw [← hmore, chars_append, List.take_append_of_le_length hk]

theorem isEnd_congr {text text' : List Char} (h : cString text = cString text') :
    isEnd text = isEnd text' := by
  unfold isEnd strncmpEq
  rw [h]

theorem NoEnd.concat {texts : List Text} {text : Text} (h : NoEnd texts)
    (htext : isEnd text.val = false) : NoEnd (texts ++ [text]) := by
  intro x hx
  cases List.mem_append.mp hx with
  | inl hin => exact h x hin
  | inr hlast =>
      rw [List.mem_singleton.mp hlast]
      exact htext

/-!
# What one process leaves to the other
-/

/-- What a step of the reader keeps. -/
structure WriterView (s t : State) : Prop where
  entered : t.entered = s.entered
  stored : t.stored = s.stored
  buffer : t.buffer = s.buffer
  display : t.display = s.display
  displayFrom : t.displayFrom = s.displayFrom
  taken : s.taken ≤ t.taken

theorem Copied.mono {taken' : Nat} {buffer : Text}
    (h : Copied textNum published taken entered stored buffer) (hle : taken ≤ taken') :
    Copied textNum published taken' entered stored buffer :=
  ⟨h.entered, h.room.trans_le (Nat.add_le_add_right hle textNum), h.last⟩

theorem Copied.length {buffer : Text}
    (h : Copied textNum published taken entered stored buffer) :
    stored.length = published + 1 := by
  rcases h.last with ⟨pre, hstored, hpre, _⟩
  rw [hstored, List.length_append, hpre]
  rfl

theorem WriterAt.view {pc : WriterPc} (h : WriterAt textNum published s pc)
    (hview : WriterView s t) : WriterAt textNum published t pc := by
  have hmore := hview.taken
  cases pc <;> unfold WriterAt at h ⊢ <;>
    simp only [hview.entered, hview.stored, hview.buffer, hview.display, hview.displayFrom]
  case enter => exact ⟨h.left, by lia⟩
  case copyRear => exact ⟨h.length, h.entered, h.noEnd, by have hroom := h.room; lia⟩
  case copyText =>
    exact ⟨⟨h.left.length, h.left.entered, h.left.noEnd, by have hroom := h.left.room; lia⟩,
      h.right⟩
  case countRear => exact h.mono hmore
  case startFront => exact h.mono hmore
  case countFront => exact ⟨h.left.mono hmore, h.right⟩
  case loopRear => exact ⟨h.left.mono hmore, h.right⟩
  case loopText => exact ⟨h.left.mono hmore, h.right⟩
  case advanceRear => exact ⟨h.left.mono hmore, h.right⟩
  case advance => exact ⟨h.left.mono hmore, h.right⟩
  all_goals exact h

/-- Between the published texts and the stored ones there is one at most. -/
theorem WriterAt.length_stored {pc : WriterPc} (h : WriterAt textNum published s pc) :
    published ≤ s.stored.length ∧ s.stored.length ≤ published + 1 := by
  cases pc <;> unfold WriterAt at h
  case guardRear | noticeRear | noticeFront => exact ⟨h.length.ge, by have hlen := h.length; lia⟩
  case guardFront | enter | copyText => exact ⟨h.left.length.ge, by have hlen := h.left.length; lia⟩
  case copyRear => exact ⟨h.length.ge, by have hlen := h.length; lia⟩
  case exited => exact ⟨h.left.ge, by have hlen := h.left; lia⟩
  case countRear | startFront =>
    have hlen := h.length
    lia
  all_goals
    have hlen := h.left.length
    lia

/-- What a step of the writer keeps. -/
structure ReaderView (s t : State) : Prop where
  stored : s.stored <+: t.stored
  printed : t.printed = s.printed
  taken : t.taken = s.taken

theorem AfterPrint.view {published' : Nat} (h : AfterPrint published s) (hview : ReaderView s t)
    (hpublished : published ≤ published') (hlen : published ≤ s.stored.length) :
    AfterPrint published' t := by
  have havailable := h.available
  constructor
  · rw [hview.printed, hview.taken, take_chars_prefix hview.stored (by lia)]
    exact h.printed
  · rw [hview.taken]
    lia

theorem ReaderAt.view {published' : Nat} {pc : ReaderPc} (h : ReaderAt textNum published s pc)
    (hview : ReaderView s t) (hpublished : published ≤ published')
    (htaken : s.taken ≤ published) (hlen : published ≤ s.stored.length) :
    ReaderAt textNum published' t pc := by
  have hbefore : BeforePrint s -> BeforePrint t := by
    intro hprinted
    unfold BeforePrint
    rw [hview.printed, hview.taken, take_chars_prefix hview.stored (by lia)]
    exact hprinted
  have hafter : AfterPrint published s -> AfterPrint published' t :=
    fun hprinted => hprinted.view hview hpublished hlen
  have htext : AfterPrint published s ->
      isEnd (textAt t.stored t.taken) = isEnd (textAt s.stored s.taken) := by
    intro hprinted
    have havailable := hprinted.available
    rcases hview.stored with ⟨rest, hstored⟩
    rw [hview.taken, ← hstored, textAt_append _ _ (by lia)]
  cases pc with
  | guardFront => exact hbefore h
  | guardRear front => exact ⟨hbefore h.left, hview.taken ▸ h.right⟩
  | printFront => exact ⟨hbefore h.left, by have hlt := h.right; rw [hview.taken]; lia⟩
  | printText slot =>
      exact ⟨hbefore h.left, by have hlt := h.right.left; rw [hview.taken]; lia,
        hview.taken ▸ h.right.right⟩
  | testFront => exact hafter h
  | testText slot => exact ⟨hafter h.left, hview.taken ▸ h.right⟩
  | advanceFront => exact ⟨hafter h.left, (htext h.left).trans h.right⟩
  | advance front =>
      exact ⟨hafter h.left, (htext h.left).trans h.right.left, hview.taken ▸ h.right.right⟩
  | exited => exact ⟨hafter h.left, (htext h.left).trans h.right⟩

end TextQueue
end OsLabs
