import OsLabs.TextQueue.Invariant

/-!
# The invariant along the steps

One lemma for each process: whatever access it makes next, the invariant holds
afterwards.
-/

namespace OsLabs
namespace TextQueue

open Foundation

variable {textNum published : Nat} {s t : State}

theorem QueueInv.length_stored (h : QueueInv textNum published s) :
    published ≤ s.stored.length ∧ s.stored.length ≤ published + 1 := h.writer.length_stored

theorem QueueInv.reader_kept (h : QueueInv textNum published s) (hview : ReaderView s t) :
    ReaderAt textNum published t s.reader :=
  h.reader.view hview (le_refl _) h.taken_le h.length_stored.left

theorem QueueInv.slot (h : QueueInv textNum published s) {k : Nat} (hk : k < s.stored.length)
    (hlast : s.stored.length ≤ k + (textNum + 1)) :
    cString (s.mtext (k % (textNum + 1))) = textAt s.stored k := h.slots k (by lia) hk

theorem QueueInv.front_slot (h : QueueInv textNum published s) (havailable : s.taken < published) :
    cString (s.mtext (s.taken % (textNum + 1))) = textAt s.stored s.taken := by
  have hlen := h.length_stored
  have hroom := h.room
  exact h.slot (by lia) (by lia)

/-!
# The reader
-/

theorem QueueInv.withReader (h : QueueInv textNum published s) {pc : ReaderPc}
    (hpc : ReaderAt textNum published s pc) :
    QueueInv textNum published { s with reader := pc } where
  front := h.front
  rear := h.rear
  taken_le := h.taken_le
  room := h.room
  slots := h.slots
  counts := h.counts
  writer := h.writer.view ⟨rfl, rfl, rfl, rfl, rfl, le_refl _⟩
  reader := hpc.view ⟨List.prefix_refl _, rfl, rfl⟩ (le_refl _) h.taken_le h.length_stored.left

theorem QueueInv.print (h : QueueInv textNum published s) {slot : Nat}
    (hpc : ReaderAt textNum published s (ReaderPc.printText slot)) :
    QueueInv textNum published { s with
      reader := ReaderPc.testFront, printed := s.printed ++ [cString (s.mtext slot)] } := by
  rcases hpc with ⟨hbefore, havailable, hslot⟩
  have hlen := h.length_stored
  refine ⟨h.front, h.rear, h.taken_le, h.room, h.slots, h.counts,
    h.writer.view ⟨rfl, rfl, rfl, rfl, rfl, le_refl _⟩, ?_, havailable⟩
  change s.printed ++ [cString (s.mtext slot)] = _
  rw [hbefore, hslot, h.front_slot havailable, take_succ_chars (by lia)]

theorem QueueInv.take (h : QueueInv textNum published s) {front : Nat}
    (hpc : ReaderAt textNum published s (ReaderPc.advance front)) :
    QueueInv textNum published { s with
      reader := ReaderPc.guardFront
      front := (front + 1) % (textNum + 1)
      taken := s.taken + 1 } := by
  rcases hpc with ⟨hafter, _, hfront⟩
  have hroom := h.room
  refine ⟨?_, h.rear, hafter.available, ?_, h.slots, h.counts,
    h.writer.view ⟨rfl, rfl, rfl, rfl, rfl, Nat.le_succ _⟩, hafter.printed⟩
  · change (front + 1) % (textNum + 1) = (s.taken + 1) % (textNum + 1)
    rw [hfront, Nat.mod_add_mod]
  · change published ≤ s.taken + 1 + textNum
    lia

theorem QueueInv.nonempty (h : QueueInv textNum published s) {front : Nat}
    (hfront : front = s.taken % (textNum + 1)) (hne : front ≠ s.rear) : s.taken < published := by
  have hle := h.taken_le
  have hroom := h.room
  apply Nat.lt_of_le_of_ne hle
  intro heq
  apply hne
  rw [hfront, h.rear, heq]

theorem QueueInv.read (h : QueueInv textNum published s) (hrun : TextQueue.reader textNum s = some t) :
    QueueInv textNum published t := by
  have hreader := h.reader
  unfold TextQueue.reader at hrun
  cases hpc : s.reader with
  | guardFront =>
      rw [hpc] at hrun hreader
      cases hrun
      exact h.withReader ⟨hreader, h.front⟩
  | guardRear front =>
      rw [hpc] at hrun hreader
      dsimp only at hrun
      split at hrun
      · cases hrun
        exact h.withReader hreader.left
      · rename_i hne
        cases hrun
        exact h.withReader ⟨hreader.left, h.nonempty hreader.right hne⟩
  | printFront =>
      rw [hpc] at hrun hreader
      cases hrun
      exact h.withReader ⟨hreader.left, hreader.right, h.front⟩
  | printText slot =>
      rw [hpc] at hrun hreader
      dsimp only at hrun
      split at hrun
      · cases hrun
        exact h.print hreader
      · cases hrun
  | testFront =>
      rw [hpc] at hrun hreader
      cases hrun
      exact h.withReader ⟨hreader, h.front⟩
  | testText slot =>
      rw [hpc] at hrun hreader
      rcases hreader with ⟨hafter, hslot⟩
      have hnul : cString (textAt s.stored s.taken) = textAt s.stored s.taken := by
        rw [← h.front_slot hafter.available, cString_cString]
      have hsame : isEnd (s.mtext slot) = isEnd (textAt s.stored s.taken) := by
        apply isEnd_congr
        rw [hslot, h.front_slot hafter.available, hnul]
      dsimp only at hrun
      split at hrun
      · cases hrun
        apply h.withReader
        cases htest : isEnd (s.mtext slot) with
        | true => exact ⟨hafter, hsame.symm.trans htest⟩
        | false => exact ⟨hafter, hsame.symm.trans htest⟩
      · cases hrun
  | advanceFront =>
      rw [hpc] at hrun hreader
      cases hrun
      exact h.withReader ⟨hreader.left, hreader.right, h.front⟩
  | advance front =>
      rw [hpc] at hrun hreader
      cases hrun
      exact h.take hreader
  | exited =>
      rw [hpc] at hrun
      cases hrun

/-!
# The writer
-/

theorem QueueInv.withWriter (h : QueueInv textNum published s) {pc : WriterPc}
    (hpc : WriterAt textNum published s pc) :
    QueueInv textNum published { s with writer := pc } where
  front := h.front
  rear := h.rear
  taken_le := h.taken_le
  room := h.room
  slots := h.slots
  counts := h.counts
  writer := hpc.view ⟨rfl, rfl, rfl, rfl, rfl, le_refl _⟩
  reader := h.reader_kept ⟨List.prefix_refl _, rfl, rfl⟩

theorem QueueInv.notFull (h : QueueInv textNum published s) {rear : Nat}
    (hrear : rear = published % (textNum + 1)) (hne : (rear + 1) % (textNum + 1) ≠ s.front) :
    published < s.taken + textNum := by
  apply Nat.lt_of_le_of_ne h.room
  intro hfull
  apply hne
  rw [hrear, h.front]
  exact (succ_mod_eq_mod_iff h.taken_le h.room).mpr hfull

theorem QueueInv.enter (h : QueueInv textNum published s) (text : Text)
    (hpc : WriterAt textNum published s WriterPc.enter) :
    QueueInv textNum published { s with
      writer := WriterPc.copyRear, buffer := text, entered := s.entered ++ [text] } := by
  rcases hpc with ⟨hidle, hroom⟩
  refine ⟨h.front, h.rear, h.taken_le, h.room, h.slots, h.counts,
    ⟨hidle.length, ?_, hidle.noEnd, hroom⟩,
    h.reader_kept ⟨List.prefix_refl _, rfl, rfl⟩⟩
  change s.entered ++ [text] = s.stored ++ [text]
  rw [hidle.entered]

/-- The new text goes to a slot of its own among the last ones. -/
theorem QueueInv.slots_store (h : QueueInv textNum published s)
    (hlen : s.stored.length = published) :
    Buffered (textNum + 1)
      (fun i => cString (Function.update s.mtext (published % (textNum + 1))
        (strncpy s.buffer.val TEXT_SIZE) i))
      (textAt (s.stored ++ [s.buffer])) (s.stored.length + 1 - (textNum + 1))
      (s.stored.length + 1) := by
  have hcells : (fun i => cString (Function.update s.mtext (published % (textNum + 1))
      (strncpy s.buffer.val TEXT_SIZE) i)) =
      Function.update (fun i => cString (s.mtext i)) (s.stored.length % (textNum + 1))
        (textAt (s.stored ++ [s.buffer]) s.stored.length) := by
    funext i
    rw [Function.update_apply, Function.update_apply, hlen]
    split
    · rw [← hlen, textAt_concat]
      exact cString_strncpy s.buffer.property.right s.buffer.property.left
    · rfl
  rw [hcells]
  apply Buffered.store
  · apply (h.slots.mono (by lia) (le_refl _)).congr
    intro k hk
    exact textAt_append _ _ hk
  · lia

theorem QueueInv.copy (h : QueueInv textNum published s) {slot : Nat}
    (hpc : WriterAt textNum published s (WriterPc.copyText slot)) :
    QueueInv textNum published { s with
      writer := WriterPc.countRear
      mtext := Function.update s.mtext slot (strncpy s.buffer.val TEXT_SIZE)
      stored := s.stored ++ [s.buffer] } := by
  rcases hpc with ⟨hentered, hslot⟩
  refine ⟨h.front, h.rear, h.taken_le, h.room, ?_, h.counts,
    ⟨hentered.entered, hentered.room, s.stored, rfl, hentered.length, hentered.noEnd⟩,
    h.reader_kept ⟨List.prefix_append _ _, rfl, rfl⟩⟩
  rw [hslot]
  change Buffered _ _ _ ((s.stored ++ [s.buffer]).length - _) (s.stored ++ [s.buffer]).length
  rw [List.length_append, List.length_singleton]
  exact h.slots_store hentered.length

theorem QueueInv.count (h : QueueInv textNum published s) {rear : Nat}
    (hpc : WriterAt textNum published s (WriterPc.countFront rear)) :
    QueueInv textNum published { s with
      writer := WriterPc.startFront
      counts := s.counts ++
        [{ displayed := ((rear : Int) + textNum + 2 - s.front).tmod (textNum + 1)
           stored := s.stored.length
           taken := s.taken }] } := by
  rcases hpc with ⟨hcopied, hrear⟩
  have hroom := hcopied.room
  have htaken := h.taken_le
  have hlen := hcopied.length
  have hfront : s.taken % (textNum + 1) < textNum + 1 := Nat.mod_lt _ (Nat.succ_pos _)
  have hdisplayed : ((rear : Int) + textNum + 2 - s.front).tmod (textNum + 1) =
      published + 1 - s.taken := by
    rw [Int.tmod_eq_emod_of_nonneg (by rw [h.front]; lia), hrear, h.front]
    exact distance_mod htaken hroom
  refine ⟨h.front, h.rear, h.taken_le, h.room, h.slots, ?_,
    ⟨hcopied.entered, hcopied.room, hcopied.last⟩,
    h.reader_kept ⟨List.prefix_refl _, rfl, rfl⟩⟩
  intro c hc
  cases List.mem_append.mp hc with
  | inl hold => exact h.counts c hold
  | inr hnew =>
      rw [List.mem_singleton.mp hnew]
      constructor
      · dsimp only
        rw [hdisplayed, hlen]
        lia
      · dsimp only
        rw [hdisplayed]
        lia
      · dsimp only
        rw [hdisplayed]
        lia

theorem QueueInv.startDisplay (h : QueueInv textNum published s)
    (hpc : WriterAt textNum published s WriterPc.startFront) :
    QueueInv textNum published { s with
      writer := WriterPc.loopRear s.front, display := [], displayFrom := s.taken } := by
  have hcopied : Copied textNum published s.taken s.entered s.stored s.buffer := hpc
  refine ⟨h.front, h.rear, h.taken_le, h.room, h.slots, h.counts,
    ⟨hcopied, s.taken, ?_, h.front, le_refl _, hcopied.room, ?_⟩,
    h.reader_kept ⟨List.prefix_refl _, rfl, rfl⟩⟩
  · have hle := h.taken_le
    lia
  · simp

theorem QueueInv.displayText (h : QueueInv textNum published s) {i : Nat}
    (hpc : WriterAt textNum published s (WriterPc.loopText i)) :
    QueueInv textNum published { s with
      writer := WriterPc.loopRear ((i + 1) % (textNum + 1))
      display := s.display ++ [cString (s.mtext i)] } := by
  rcases hpc with ⟨hcopied, k, hk, hdisplay⟩
  have hstart := hdisplay.start
  have hwindow := hdisplay.window
  have hlen := hcopied.length
  refine ⟨h.front, h.rear, h.taken_le, h.room, h.slots, h.counts,
    ⟨hcopied, k + 1, by lia, ?_, by lia, hwindow, ?_⟩,
    h.reader_kept ⟨List.prefix_refl _, rfl, rfl⟩⟩
  · rw [hdisplay.index, Nat.mod_add_mod]
  · have hlength : s.displayFrom ≤ ((chars s.stored).take k).length := by
      rw [List.length_take, length_chars]
      lia
    change s.display ++ [cString (s.mtext i)] = _
    rw [hdisplay.texts, hdisplay.index, h.slot (by lia) (by lia), take_succ_chars (by lia),
      List.drop_append_of_le_length hlength]

/-- The display has shown the last text exactly when it stops. -/
theorem QueueInv.display_ends (h : QueueInv textNum published s) {i k : Nat}
    (hk : k ≤ published + 1)
    (hdisplay : Displaying textNum published s.displayFrom s.stored s.display i k) :
    i = (s.rear + 1) % (textNum + 1) <-> k = published + 1 := by
  have hstart := hdisplay.start
  have hwindow := hdisplay.window
  rw [hdisplay.index, h.rear, Nat.mod_add_mod]
  exact mod_eq_mod_iff hk (by lia)

theorem QueueInv.publish (h : QueueInv textNum published s) {rear : Nat}
    (hpc : WriterAt textNum published s (WriterPc.advance rear)) :
    QueueInv textNum (published + 1) { s with
      rear := (rear + 1) % (textNum + 1)
      writer := if isEnd s.buffer.val then WriterPc.exited else WriterPc.noticeRear } := by
  rcases hpc with ⟨hcopied, hrear⟩
  have htaken := h.taken_le
  rcases hcopied.last with ⟨pre, hstored, hpre, hnoEnd⟩
  refine ⟨h.front, ?_, by dsimp only; lia, hcopied.room, h.slots, h.counts, ?_,
    h.reader.view ⟨List.prefix_refl _, rfl, rfl⟩ (Nat.le_succ _) h.taken_le h.length_stored.left⟩
  · change (rear + 1) % (textNum + 1) = _
    rw [hrear, Nat.mod_add_mod]
  · dsimp only
    cases htest : isEnd s.buffer.val with
    | true =>
        exact ⟨hcopied.length, hcopied.entered, pre, s.buffer, hstored, hnoEnd, htest⟩
    | false =>
        refine ⟨hcopied.length, hcopied.entered, ?_⟩
        change NoEnd s.stored
        rw [hstored]
        exact hnoEnd.concat htest

theorem QueueInv.write (h : QueueInv textNum published s)
    (hrun : TextQueue.writer textNum s = some t) :
    exists published', QueueInv textNum published' t := by
  have hwriter := h.writer
  unfold TextQueue.writer at hrun
  cases hpc : s.writer with
  | guardRear =>
      rw [hpc] at hrun hwriter
      cases hrun
      exact ⟨published, h.withWriter ⟨hwriter, h.rear⟩⟩
  | guardFront rear =>
      rw [hpc] at hrun hwriter
      dsimp only at hrun
      split at hrun
      · cases hrun
        exact ⟨published, h.withWriter hwriter.left⟩
      · rename_i hne
        cases hrun
        exact ⟨published, h.withWriter ⟨hwriter.left, h.notFull hwriter.right hne⟩⟩
  | enter =>
      rw [hpc] at hrun
      cases hrun
  | copyRear =>
      rw [hpc] at hrun hwriter
      cases hrun
      exact ⟨published, h.withWriter ⟨hwriter, h.rear⟩⟩
  | copyText slot =>
      rw [hpc] at hrun hwriter
      dsimp only at hrun
      split at hrun
      · cases hrun
        exact ⟨published, h.copy hwriter⟩
      · cases hrun
  | countRear =>
      rw [hpc] at hrun hwriter
      cases hrun
      exact ⟨published, h.withWriter ⟨hwriter, h.rear⟩⟩
  | countFront rear =>
      rw [hpc] at hrun hwriter
      cases hrun
      exact ⟨published, h.count hwriter⟩
  | startFront =>
      rw [hpc] at hrun hwriter
      cases hrun
      exact ⟨published, h.startDisplay hwriter⟩
  | loopRear i =>
      rw [hpc] at hrun hwriter
      rcases hwriter with ⟨hcopied, k, hk, hdisplay⟩
      dsimp only at hrun
      split at hrun
      · rename_i hne
        cases hrun
        have hlt : k ≠ published + 1 := fun heq => hne ((h.display_ends hk hdisplay).mpr heq)
        exact ⟨published, h.withWriter ⟨hcopied, k, by lia, hdisplay⟩⟩
      · rename_i heq
        cases hrun
        have hlast := (h.display_ends hk hdisplay).mp (not_not.mp heq)
        have hall : (chars s.stored).take k = chars s.stored := by
          apply List.take_of_length_le
          rw [length_chars, hcopied.length, hlast]
        refine ⟨published, h.withWriter ⟨hcopied, ?_⟩⟩
        rw [hdisplay.texts, hall]
  | loopText i =>
      rw [hpc] at hrun hwriter
      dsimp only at hrun
      split at hrun
      · cases hrun
        exact ⟨published, h.displayText hwriter⟩
      · cases hrun
  | advanceRear =>
      rw [hpc] at hrun hwriter
      cases hrun
      exact ⟨published, h.withWriter ⟨hwriter.left, h.rear⟩⟩
  | advance rear =>
      rw [hpc] at hrun hwriter
      cases hrun
      exact ⟨published + 1, h.publish hwriter⟩
  | noticeRear =>
      rw [hpc] at hrun hwriter
      cases hrun
      exact ⟨published, h.withWriter hwriter⟩
  | noticeFront rear =>
      rw [hpc] at hrun hwriter
      cases hrun
      exact ⟨published, h.withWriter hwriter⟩
  | exited =>
      rw [hpc] at hrun
      cases hrun

/-!
# Every step
-/

theorem QueueInv.step {a : Action} (h : QueueInv textNum published s)
    (hrun : TextQueue.step textNum s a = some t) :
    exists published', QueueInv textNum published' t := by
  cases a with
  | write => exact h.write hrun
  | enter text =>
      have hwriter := h.writer
      simp only [TextQueue.step, fgets] at hrun
      split at hrun
      · rename_i hpc
        rw [hpc] at hwriter
        cases hrun
        exact ⟨published, h.enter text hwriter⟩
      · cases hrun
  | read => exact ⟨published, h.read hrun⟩

theorem Initial.queueInv (h : Initial s) : QueueInv textNum 0 s := by
  have hlen : s.stored.length = 0 := by
    rw [h.stored]
    rfl
  constructor
  · rw [h.front, h.taken, Nat.zero_mod]
  · rw [h.rear, Nat.zero_mod]
  · rw [h.taken]
  · exact Nat.zero_le _
  · rw [hlen, Nat.zero_sub]
    exact Buffered.empty _ _ _ _
  · intro c hc
    rw [h.counts] at hc
    cases hc
  · rw [h.writer]
    refine ⟨hlen, ?_, ?_⟩
    · rw [h.entered, h.stored]
    · intro text htext
      rw [h.stored] at htext
      cases htext
  · rw [h.reader]
    unfold ReaderAt BeforePrint
    rw [h.printed, h.taken, List.take_zero]

theorem reachable_queueInv (hs : (queueSystem textNum).Reachable s) :
    exists published, QueueInv textNum published s := by
  apply hs.invariant
  · intro s hinit
    exact ⟨0, hinit.queueInv⟩
  · intro s a t hinv hstep
    rcases hinv with ⟨published, hinv⟩
    exact hinv.step hstep

end TextQueue
end OsLabs
