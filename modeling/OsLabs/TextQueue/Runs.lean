import OsLabs.TextQueue.Steps

/-!
# The text queue along every run

The reader prints what the writer stored, in the same order and without a gap, and
the display of the writer comes to its end however the two processes are
interleaved.
-/

namespace OsLabs
namespace TextQueue

open Foundation

variable {textNum published : Nat} {s t : State}

/-!
# The display
-/

def InDisplay : WriterPc -> Prop
  | WriterPc.loopRear _ | WriterPc.loopText _ => True
  | _ => False

/-- The number of accesses that the display still needs. -/
def displayRank (s : State) : Nat :=
  match s.writer with
  | WriterPc.loopRear _ => 2 * (s.stored.length - (s.displayFrom + s.display.length)) + 1
  | _ => 2 * (s.stored.length - (s.displayFrom + s.display.length))

theorem Displaying.position {i k : Nat} (hlen : k ≤ s.stored.length)
    (h : Displaying textNum published s.displayFrom s.stored s.display i k) :
    s.displayFrom + s.display.length = k := by
  have hstart := h.start
  rw [h.texts, List.length_drop, List.length_take, length_chars]
  lia

theorem displayRank_le (h : QueueInv textNum published s) (hin : InDisplay s.writer) :
    displayRank s ≤ 2 * textNum + 1 := by
  have hwriter := h.writer
  unfold displayRank
  cases hpc : s.writer with
  | loopRear i =>
      rw [hpc] at hwriter
      rcases hwriter with ⟨hcopied, k, hk, hdisplay⟩
      have hlen := hcopied.length
      have hwindow := hdisplay.window
      dsimp only
      lia
  | loopText i =>
      rw [hpc] at hwriter
      rcases hwriter with ⟨hcopied, k, hk, hdisplay⟩
      have hlen := hcopied.length
      have hwindow := hdisplay.window
      dsimp only
      lia
  | _ =>
      rw [hpc] at hin
      cases hin

/-- The display is never blocked. -/
theorem QueueInv.display_moves (h : QueueInv textNum published s) (hin : InDisplay s.writer) :
    exists t, TextQueue.step textNum s Action.write = some t := by
  have hwriter := h.writer
  simp only [TextQueue.step, TextQueue.writer]
  cases hpc : s.writer with
  | loopRear i =>
      dsimp only
      split
      · exact ⟨_, rfl⟩
      · exact ⟨_, rfl⟩
  | loopText i =>
      rw [hpc] at hwriter
      rcases hwriter with ⟨_, k, _, hdisplay⟩
      have hindex : i < textNum + 1 := by
        rw [hdisplay.index]
        exact Nat.mod_lt _ (Nat.succ_pos _)
      dsimp only
      rw [if_pos hindex]
      exact ⟨_, rfl⟩
  | _ =>
      rw [hpc] at hin
      cases hin

theorem reader_display (hrun : reader textNum s = some t) :
    t.writer = s.writer ∧ displayRank t = displayRank s := by
  unfold reader at hrun
  cases hpc : s.reader with
  | guardRear front =>
      rw [hpc] at hrun
      dsimp only at hrun
      split at hrun
      · cases hrun
        exact ⟨rfl, rfl⟩
      · cases hrun
        exact ⟨rfl, rfl⟩
  | printText slot | testText slot =>
      rw [hpc] at hrun
      dsimp only at hrun
      split at hrun
      · cases hrun
        exact ⟨rfl, rfl⟩
      · cases hrun
  | exited =>
      rw [hpc] at hrun
      cases hrun
  | _ =>
      rw [hpc] at hrun
      cases hrun
      exact ⟨rfl, rfl⟩

theorem QueueInv.display_write (h : QueueInv textNum published s) (hin : InDisplay s.writer)
    (hrun : TextQueue.writer textNum s = some t) :
    t.writer = WriterPc.advanceRear ∨ (InDisplay t.writer ∧ displayRank t + 1 ≤ displayRank s) := by
  have hwriter := h.writer
  unfold TextQueue.writer at hrun
  unfold displayRank
  cases hpc : s.writer with
  | loopRear i =>
      rw [hpc] at hrun
      dsimp only at hrun
      split at hrun
      · cases hrun
        exact Or.inr ⟨trivial, le_refl _⟩
      · cases hrun
        exact Or.inl rfl
  | loopText i =>
      rw [hpc] at hrun hwriter
      rcases hwriter with ⟨hcopied, k, hk, hdisplay⟩
      have hlen := hcopied.length
      have hposition := hdisplay.position (by lia)
      dsimp only at hrun
      split at hrun
      · cases hrun
        refine Or.inr ⟨trivial, ?_⟩
        dsimp only
        rw [List.length_append, List.length_singleton]
        lia
      · cases hrun
  | _ =>
      rw [hpc] at hin
      cases hin

theorem display_step {a : Action}
    (h : (exists published, QueueInv textNum published s) ∧ InDisplay s.writer)
    (hrun : step textNum s a = some t) :
    t.writer = WriterPc.advanceRear ∨
      (((exists published, QueueInv textNum published t) ∧ InDisplay t.writer) ∧
        displayRank t + (if a == Action.write then 1 else 0) ≤ displayRank s) := by
  rcases h with ⟨⟨published, hinv⟩, hin⟩
  have hnext := hinv.step hrun
  cases a with
  | write =>
      cases hinv.display_write hin hrun with
      | inl hdone => exact Or.inl hdone
      | inr hbusy => exact Or.inr ⟨⟨hnext, hbusy.left⟩, hbusy.right⟩
  | enter text =>
      simp only [step, fgets] at hrun
      split at hrun
      · rename_i hpc
        rw [hpc] at hin
        cases hin
      · cases hrun
  | read =>
      rcases reader_display hrun with ⟨hsame, hrank⟩
      refine Or.inr ⟨⟨hnext, ?_⟩, ?_⟩
      · rw [hsame]
        exact hin
      · rw [hrank]
        exact le_refl _

/-- Under every interleaving the display ends after so many accesses of the writer. -/
theorem display_terminates (h : QueueInv textNum published s) (hin : InDisplay s.writer)
    {as : List Action} (hrun : System.execAll (step textNum) s as = some t)
    (hlong : 2 * textNum + 2 ≤ as.count Action.write) :
    exists bs u, bs <+: as ∧ System.execAll (step textNum) s bs = some u ∧
      u.writer = WriterPc.advanceRear := by
  have hrank := displayRank_le h hin
  apply @System.execAll_passes _ _ (step textNum)
    (fun s => (exists published, QueueInv textNum published s) ∧ InDisplay s.writer)
    (fun s => s.writer = WriterPc.advanceRear) (fun a => a == Action.write) displayRank
    _ as s t ⟨⟨published, h⟩, hin⟩ hrun
  · change displayRank s < as.count Action.write
    lia
  · intro s a t hs hstep
    exact display_step hs hstep

/-- The display shows every text that was not taken when it began. -/
theorem display_shows_unread (hs : (queueSystem textNum).Reachable s)
    (hpc : s.writer = WriterPc.advanceRear) :
    s.display = (chars s.stored).drop s.displayFrom := by
  rcases reachable_queueInv hs with ⟨published, hinv⟩
  have hwriter := hinv.writer
  rw [hpc] at hwriter
  exact hwriter.right

/-!
# Nothing is lost
-/

structure Lossless (textNum : Nat) (s : State) : Prop where
  printed : s.printed <+: chars s.stored
  stored : s.stored <+: s.entered
  taken : s.front = s.taken % (textNum + 1) ∧ s.taken ≤ s.printed.length ∧
    s.printed.length ≤ s.taken + 1
  unread : forall k, s.taken ≤ k -> k < s.stored.length ->
    cString (s.mtext (k % (textNum + 1))) = textAt s.stored k
  apart : forall slot, s.writer = WriterPc.copyText slot ->
    forall k, s.taken ≤ k -> k < s.stored.length -> k % (textNum + 1) ≠ slot
  counts : forall c, c ∈ s.counts -> c.Right textNum
  finished : s.writer = WriterPc.exited -> s.reader = ReaderPc.exited ->
    s.printed = chars s.entered ∧ EndsLast s.entered

theorem NoEnd.textAt {texts : List Text} (h : NoEnd texts) {k : Nat} (hk : k < texts.length) :
    isEnd (TextQueue.textAt texts k) = false := by
  have hlen : k < (chars texts).length := by
    rw [length_chars]
    exact hk
  have hmem : (chars texts)[k] ∈ chars texts := List.getElem_mem hlen
  rcases List.mem_map.mp hmem with ⟨text, htext, heq⟩
  unfold TextQueue.textAt
  rw [List.getD_eq_getElem _ _ hlen, ← heq]
  exact h text htext

theorem QueueInv.printed_eq (h : QueueInv textNum published s) :
    exists n, s.printed = (chars s.stored).take n ∧ s.taken ≤ n ∧ n ≤ s.taken + 1 ∧
      n ≤ published := by
  have hreader := h.reader
  have htaken := h.taken_le
  cases hpc : s.reader with
  | guardFront =>
      rw [hpc] at hreader
      exact ⟨s.taken, hreader, le_refl _, Nat.le_succ _, htaken⟩
  | guardRear _ | printFront | printText _ =>
      rw [hpc] at hreader
      exact ⟨s.taken, hreader.left, le_refl _, Nat.le_succ _, htaken⟩
  | testFront =>
      rw [hpc] at hreader
      exact ⟨s.taken + 1, hreader.printed, Nat.le_succ _, le_refl _, hreader.available⟩
  | testText _ | advanceFront | advance _ | exited =>
      rw [hpc] at hreader
      exact ⟨s.taken + 1, hreader.left.printed, Nat.le_succ _, le_refl _, hreader.left.available⟩

theorem QueueInv.stored_prefix (h : QueueInv textNum published s) : s.stored <+: s.entered := by
  have hwriter := h.writer
  have hsame : s.entered = s.stored -> s.stored <+: s.entered :=
    fun heq => heq.symm ▸ List.prefix_refl _
  cases hpc : s.writer with
  | copyRear =>
      rw [hpc] at hwriter
      rw [hwriter.entered]
      exact List.prefix_append _ _
  | copyText slot =>
      rw [hpc] at hwriter
      rw [hwriter.left.entered]
      exact List.prefix_append _ _
  | guardRear | noticeRear | noticeFront | countRear | startFront =>
      rw [hpc] at hwriter
      exact hsame hwriter.entered
  | exited =>
      rw [hpc] at hwriter
      exact hsame hwriter.right.left
  | _ =>
      rw [hpc] at hwriter
      exact hsame hwriter.left.entered

theorem QueueInv.finished (h : QueueInv textNum published s) (hw : s.writer = WriterPc.exited)
    (hr : s.reader = ReaderPc.exited) : s.printed = chars s.entered ∧ EndsLast s.entered := by
  have hwriter := h.writer
  have hreader := h.reader
  rw [hw] at hwriter
  rw [hr] at hreader
  rcases hwriter with ⟨hlen, hentered, hends⟩
  rcases hreader with ⟨hafter, hend⟩
  have havailable := hafter.available
  rw [hentered]
  refine ⟨?_, hends⟩
  rcases hends with ⟨pre, last, hstored, hnoEnd, _⟩
  have hlast : pre.length ≤ s.taken := by
    apply Classical.byContradiction
    intro hbefore
    have hlt : s.taken < pre.length := by lia
    rw [hstored, textAt_append _ _ hlt, hnoEnd.textAt hlt] at hend
    cases hend
  rw [hafter.printed]
  apply List.take_of_length_le
  rw [length_chars, hstored, List.length_append]
  exact Nat.succ_le_succ hlast

theorem QueueInv.lossless (h : QueueInv textNum published s) : Lossless textNum s := by
  have hlen := h.length_stored
  have hroom := h.room
  rcases h.printed_eq with ⟨n, hprinted, hlo, hhi, hn⟩
  constructor
  · rw [hprinted]
    exact List.take_prefix _ _
  · exact h.stored_prefix
  · refine ⟨h.front, ?_, ?_⟩
    · rw [hprinted, List.length_take, length_chars]
      lia
    · rw [hprinted, List.length_take]
      lia
  · intro k hk hlt
    exact h.slot hlt (by lia)
  · intro slot hpc k hk hlt
    have hwriter := h.writer
    rw [hpc] at hwriter
    rcases hwriter with ⟨hentered, hslot⟩
    have hlength := hentered.length
    have hspace := hentered.room
    rw [hslot]
    exact mod_ne_mod (by lia) (by lia)
  · exact h.counts
  · exact h.finished

/-- The queue loses, repeats and overwrites nothing, whatever is entered and however
the two processes are interleaved, and the display of the writer ends. -/
theorem text_queue_lossless (textNum : Nat) (s : State)
    (hs : (queueSystem textNum).Reachable s) :
    Lossless textNum s ∧
      (InDisplay s.writer ->
        (exists t, step textNum s Action.write = some t) ∧
        forall as t, System.execAll (step textNum) s as = some t ->
          2 * textNum + 2 ≤ as.count Action.write ->
          exists bs u, bs <+: as ∧ System.execAll (step textNum) s bs = some u ∧
            u.writer = WriterPc.advanceRear) := by
  rcases reachable_queueInv hs with ⟨published, hinv⟩
  refine ⟨hinv.lossless, ?_⟩
  intro hin
  refine ⟨hinv.display_moves hin, ?_⟩
  intro as t hrun hlong
  exact display_terminates hinv hin hrun hlong

def shortLine (a b c : Char) (h : nul ∉ [a, b, c, '\n']) : Text :=
  ⟨[a, b, c, '\n'], by show 4 < 4 * 1024; decide, h⟩

def yesLine : Text := shortLine 'y' 'e' 's' (by decide)

def endLine : Text := shortLine 'e' 'n' 'd' (by decide)

def emptyQueue : State where
  mtext := fun _ => []
  front := 0
  rear := 0
  writer := WriterPc.guardRear
  buffer := yesLine
  reader := ReaderPc.guardFront
  printed := []
  counts := []
  display := []
  entered := []
  stored := []
  taken := 0
  displayFrom := 0

/-- Two lines are written, and the first is read while the second is displayed. -/
def twoLines : List Action :=
  [Action.write, Action.write, Action.enter yesLine] ++ List.replicate 12 Action.write ++
    [Action.write, Action.write, Action.enter endLine] ++ List.replicate 6 Action.write ++
    List.replicate 8 Action.read ++ List.replicate 6 Action.write ++
    List.replicate 6 Action.read

theorem text_queue_lossless_two_lines :
    exists s, (queueSystem 20).Reachable s ∧ s.writer = WriterPc.exited ∧
      s.reader = ReaderPc.exited ∧ chars s.entered = chars [yesLine, endLine] ∧
      s.counts.map Count.displayed = [1, 2] ∧ Lossless 20 s := by
  have hrun : ((System.execAll (step 20) emptyQueue twoLines).map fun s =>
      (s.writer, s.reader, chars s.entered, s.counts.map Count.displayed)) =
      some (WriterPc.exited, ReaderPc.exited, chars [yesLine, endLine], [1, 2]) := by
    decide +kernel
  rcases Option.map_eq_some_iff.mp hrun with ⟨s, hsteps, hresult⟩
  injection hresult with hwriter hresult
  injection hresult with hreader hresult
  injection hresult with hentered hcounts
  have hinit : (queueSystem 20).Reachable emptyQueue :=
    System.Reachable.init ⟨rfl, rfl, rfl, rfl, rfl, rfl, rfl, rfl, rfl⟩
  have hreach : (queueSystem 20).Reachable s :=
    hinit.of_execAll (fun _ _ _ _ hstep => hstep) hsteps
  exact ⟨s, hreach, hwriter, hreader, hentered, hcounts, (text_queue_lossless 20 s hreach).left⟩

end TextQueue
end OsLabs
