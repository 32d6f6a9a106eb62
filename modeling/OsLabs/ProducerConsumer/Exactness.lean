import OsLabs.ProducerConsumer.Invariant

/-!
# Every item is consumed once, in the order of production

The record of the reads of `item_no` is 1, 2, 3 and so on, and an item that has
been stored stays in its cell until it has been read.
-/

namespace OsLabs
namespace ProducerConsumer

open Foundation

variable {C : Params} {tid : Nat -> Int} {s : State} {b : Buffer}

theorem Recorded.mem_drop (h : Recorded C b) {w : Nat × Nat}
    (hw : w ∈ b.made.drop b.taken.length) :
    exists k, b.taken.length ≤ k ∧ k < b.made.length ∧
      w = ((k + 1) % C.bufferSize, k + 1) := by
  rcases List.mem_iff_getElem?.mp hw with ⟨n, hn⟩
  rw [List.getElem?_drop, h.made_eq, List.getElem?_map] at hn
  rcases Option.map_eq_some_iff.mp hn with ⟨k, hk, hwk⟩
  rcases List.getElem?_eq_some_iff.mp hk with ⟨hlt, hval⟩
  rw [List.length_range] at hlt
  rw [List.getElem_range] at hval
  exact ⟨k, by lia, by lia, hwk.symm⟩

theorem Recorded.unread_stored (h : Recorded C b) {w : Nat × Nat}
    (hw : w ∈ b.made.drop b.taken.length) : b.itemNo w.fst = w.snd := by
  rcases h.mem_drop hw with ⟨k, hlo, hhi, hwk⟩
  rw [hwk]
  exact h.stored (k + 1) (by lia) (by lia)

theorem SystemInv.unread_kept (h : SystemInv C s) {i slot item : Nat} (hi : i < C.threadPro)
    (hpc : s.pro i = ProducerPc.writeItemNo slot item) {w : Nat × Nat}
    (hw : w ∈ s.shared.buf.made.drop s.shared.buf.taken.length) : w.fst ≠ slot := by
  have hshape := h.shape (Sum.inl i) (inl_mem_threads.mpr hi)
  change ProducerShape C s.shared.buf (s.pro i) at hshape
  rw [hpc] at hshape
  rcases hshape with ⟨hcounted, hslot, _⟩
  rcases h.recorded.mem_drop hw with ⟨k, hlo, hhi, hwk⟩
  have hroom := h.room
  have hitem := hcounted.itemNum_eq
  have hconsume := h.recorded.consume_le
  rw [hwk, hslot]
  exact mod_ne_mod (by lia) (by lia)

theorem bounded_buffer_exact (hs : (pcSystem C tid).Reachable s) :
    s.shared.buf.itemNum ≤ C.maxItemNum ∧
    (0 < s.shared.semMutex ->
      s.shared.buf.consumeNum ≤ s.shared.buf.itemNum ∧
      s.shared.buf.itemNum ≤ s.shared.buf.consumeNum + C.bufferSize ∧
      s.shared.buf.made.length = s.shared.buf.itemNum ∧
      s.shared.buf.taken.length = s.shared.buf.consumeNum) ∧
    s.shared.buf.made.map Prod.snd =
      (List.range s.shared.buf.made.length).map (fun k => k + 1) ∧
    s.shared.buf.taken = (List.range s.shared.buf.taken.length).map (fun k => k + 1) ∧
    s.shared.buf.taken.length ≤ s.shared.buf.made.length ∧
    (forall w, w ∈ s.shared.buf.made.drop s.shared.buf.taken.length ->
      s.shared.buf.itemNo w.fst = w.snd) ∧
    forall i slot item, i < C.threadPro -> s.pro i = ProducerPc.writeItemNo slot item ->
      forall w, w ∈ s.shared.buf.made.drop s.shared.buf.taken.length -> w.fst ≠ slot := by
  have hinv := reachable_inv hs
  have hrec := hinv.recorded
  refine ⟨hrec.item_le, ?_, ?_, hrec.taken_eq, hrec.taken_le, fun w => hrec.unread_stored,
    fun i slot item hi hpc w => hinv.unread_kept hi hpc⟩
  · intro hfree
    have hsettled := hinv.free hfree
    have hitem := hsettled.itemNum_eq
    have hconsume := hsettled.consumeNum_eq
    have hle := hrec.taken_le
    exact ⟨by lia, hinv.room, hitem.symm, hconsume.symm⟩
  · have hmap := congrArg (List.map Prod.snd) hrec.made_eq
    rw [List.map_map] at hmap
    exact hmap

/-- Two slots, three items, one producer and two consumers. -/
def threeItems : Params where
  bufferSize := 2
  maxItemNum := 3
  threadPro := 1
  threadCons := 2
  bufferSize_pos := Nat.zero_lt_two
  maxItemNum_pos := Nat.zero_lt_succ 2
  threadPro_pos := Nat.zero_lt_one
  threadCons_pos := Nat.zero_lt_two

/-- The buffer is filled, one item is consumed, and the last item goes into its cell. -/
def roundTheRing : List Action :=
  List.replicate 32 (Action.producer 0) ++ List.replicate 14 (Action.consumer 0) ++
    List.replicate 17 (Action.producer 0)

theorem bounded_buffer_exact_three_items :
    exists s, (pcSystem threeItems fun _ => 7).Reachable s ∧
      s.shared.buf.made = [(1, 1), (0, 2), (1, 3)] ∧ s.shared.buf.taken = [1] ∧
      forall w, w ∈ [(0, 2), (1, 3)] -> s.shared.buf.itemNo w.fst = w.snd := by
  have hrun : (System.execAll (step threeItems fun _ => 7)
      (initialState threeItems (fun _ => 0) fun _ => 0) roundTheRing).map
        (fun s => (s.shared.buf.made, s.shared.buf.taken)) =
          some ([(1, 1), (0, 2), (1, 3)], [1]) := by decide +kernel
  rcases Option.map_eq_some_iff.mp hrun with ⟨s, hexec, hvalues⟩
  simp only [Prod.mk.injEq] at hvalues
  rcases hvalues with ⟨hmade, htaken⟩
  have hs := reachable_of_run hexec
  refine ⟨s, hs, hmade, htaken, ?_⟩
  have hstored := (bounded_buffer_exact hs).right.right.right.right.right.left
  rw [hmade, htaken] at hstored
  exact hstored

end ProducerConsumer
end OsLabs
