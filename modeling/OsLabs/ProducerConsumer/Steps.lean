import OsLabs.ProducerConsumer.Critical

/-!
# The steps of the threads

Every step of a thread is described once: how the tokens move, and that the
shared variables change only inside the critical section.
-/

namespace OsLabs
namespace ProducerConsumer

open Foundation

variable {C : Params} {sh sh' : Shared}

/-- What a thread holds: `sem_mutex`, and tokens of the other two semaphores. -/
structure Tokens where
  inside : Nat
  slot : Nat
  stock : Nat

def ProducerPc.tokens (pc : ProducerPc) : Tokens := ⟨pc.inside, pc.slot, pc.stock⟩

def ConsumerPc.tokens (pc : ConsumerPc) : Tokens := ⟨pc.inside, pc.slot, pc.stock⟩

/-- What a step of a thread does that holds `k` before and `k'` after it.  After
the step the thread finds the shared variables in the given shape. -/
structure Moved (C : Params) (k k' : Tokens) (shape : Buffer -> Prop) (sh sh' : Shared) :
    Prop where
  mutex : sh'.semMutex + k'.inside = sh.semMutex + k.inside
  slots : sh'.emptyslot + k'.slot + sh'.buf.itemNum + sh.buf.consumeNum =
    sh.emptyslot + k.slot + sh.buf.itemNum + sh'.buf.consumeNum
  stocks : sh'.stock + k'.stock + sh.buf.itemNum + sh'.buf.consumeNum =
    sh.stock + k.stock + sh'.buf.itemNum + sh.buf.consumeNum
  item_le : sh.buf.itemNum ≤ sh'.buf.itemNum
  outside : k.inside = 0 -> sh'.buf = sh.buf
  recorded : Recorded C sh'.buf
  shape : shape sh'.buf
  released : k.inside = 1 -> k'.inside = 0 -> Settled C sh'.buf

variable {k k' : Tokens} {shape : Buffer -> Prop}

theorem Moved.of_buf_eq (hrec : Recorded C sh.buf) (hbuf : sh'.buf = sh.buf)
    (hmutex : sh'.semMutex + k'.inside = sh.semMutex + k.inside)
    (hslots : sh'.emptyslot + k'.slot = sh.emptyslot + k.slot)
    (hstocks : sh'.stock + k'.stock = sh.stock + k.stock) (hshape : shape sh.buf)
    (hreleased : k.inside = 1 -> k'.inside = 0 -> Settled C sh.buf) :
    Moved C k k' shape sh sh' where
  mutex := hmutex
  slots := by rw [hbuf, hslots]
  stocks := by rw [hbuf, hstocks]
  item_le := by rw [hbuf]
  outside := fun _ => hbuf
  recorded := hbuf ▸ hrec
  shape := hbuf ▸ hshape
  released := fun hin hout => hbuf ▸ hreleased hin hout

theorem Moved.of_read (hrec : Recorded C sh.buf) (htokens : k' = k) (hshape : shape sh.buf) :
    Moved C k k' shape sh sh := by
  subst htokens
  refine Moved.of_buf_eq hrec rfl rfl rfl rfl hshape ?_
  intro hin hout
  rw [hin] at hout
  cases hout

theorem Moved.of_write {buf : Buffer} (hin : k.inside = 1) (hin' : k'.inside = 1)
    (hslots : k'.slot + buf.itemNum + sh.buf.consumeNum =
      k.slot + sh.buf.itemNum + buf.consumeNum)
    (hstocks : k'.stock + sh.buf.itemNum + buf.consumeNum =
      k.stock + buf.itemNum + sh.buf.consumeNum)
    (hitem : sh.buf.itemNum ≤ buf.itemNum) (hrec : Recorded C buf) (hshape : shape buf) :
    Moved C k k' shape sh { sh with buf := buf } where
  mutex := by rw [hin, hin']
  slots := by
    simp only
    lia
  stocks := by
    simp only
    lia
  item_le := hitem
  outside := by
    intro hout
    rw [hin] at hout
    cases hout
  recorded := hrec
  shape := hshape
  released := by
    intro _ hout
    rw [hin'] at hout
    cases hout

/-!
# Steps of a producer
-/

theorem producer_moved {tid : Int} {pc pc' : ProducerPc} (hrec : Recorded C sh.buf)
    (hshape : ProducerShape C sh.buf pc) (hfree : 0 < sh.semMutex -> Settled C sh.buf)
    (hroom : sh.buf.itemNum ≤ sh.buf.consumeNum + C.bufferSize)
    (h : producer C tid sh pc = some (pc', sh')) :
    Moved C pc.tokens pc'.tokens (fun b => ProducerShape C b pc') sh sh' := by
  cases pc with
  | guard =>
      simp only [producer] at h
      split at h
      · cases h
        exact Moved.of_read hrec rfl trivial
      · cases h
        exact Moved.of_read hrec rfl trivial
  | waitEmptyslot =>
      simp only [producer] at h
      split at h
      · rename_i hpos
        cases h
        exact Moved.of_buf_eq hrec rfl rfl (Nat.sub_add_cancel hpos) rfl trivial
          fun hin => by cases hin
      · cases h
  | waitMutex =>
      simp only [producer] at h
      split at h
      · rename_i hpos
        cases h
        exact Moved.of_buf_eq hrec rfl (Nat.sub_add_cancel hpos) rfl rfl (hfree hpos)
          fun hin => by cases hin
      · cases h
  | test =>
      simp only [producer] at h
      split at h
      · rename_i hless
        cases h
        refine Moved.of_read hrec rfl ⟨hshape, ?_⟩
        rw [← hshape.itemNum_eq]
        exact hless
      · cases h
        exact Moved.of_read hrec rfl hshape
  | readItemNum =>
      simp only [producer] at h
      cases h
      exact Moved.of_read hrec rfl
        ⟨hshape.left, hshape.right, hshape.left.itemNum_eq⟩
  | writeItemNum v =>
      simp only [producer] at h
      cases h
      rcases hshape with ⟨hs, hless, hv⟩
      subst hv
      rcases hrec.writeItemNum hs hless with ⟨hrec', hs'⟩
      have hitem := hs.itemNum_eq
      refine Moved.of_write rfl rfl ?_ ?_ ?_ hrec' hs'
      · simp only [ProducerPc.tokens, ProducerPc.slot]
        lia
      · simp only [ProducerPc.tokens, ProducerPc.stock]
        lia
      · simp only
        lia
  | readEnqueue =>
      simp only [producer] at h
      cases h
      exact Moved.of_read hrec rfl ⟨hshape, hshape.enqueue_eq⟩
  | writeEnqueue v =>
      simp only [producer] at h
      cases h
      rcases hshape with ⟨hs, hv⟩
      subst hv
      refine Moved.of_write rfl rfl rfl rfl (Nat.le_refl _) ?_ hs.writeEnqueue
      exact { hrec with }
  | readSlot =>
      simp only [producer] at h
      cases h
      exact Moved.of_read hrec rfl ⟨hshape, hshape.enqueue_eq⟩
  | readItem slot =>
      simp only [producer] at h
      cases h
      exact Moved.of_read hrec rfl
        ⟨hshape.left, hshape.right, hshape.left.itemNum_eq⟩
  | writeItemNo slot item =>
      simp only [producer] at h
      split at h
      · cases h
        rcases hshape with ⟨hs, hslot, hitem⟩
        subst hslot hitem
        rcases hrec.writeItemNo hs hroom with ⟨hrec', hs'⟩
        exact Moved.of_write rfl rfl rfl rfl (Nat.le_refl _) hrec' hs'
      · cases h
  | readTidSlot =>
      simp only [producer] at h
      cases h
      exact Moved.of_read hrec rfl ⟨hshape, hshape.left.enqueue_eq⟩
  | writeProTid slot =>
      simp only [producer] at h
      split at h
      · cases h
        refine Moved.of_write rfl rfl rfl rfl (Nat.le_refl _) ?_ ?_
        · exact { hrec with }
        · exact ⟨{ hshape.left.left with }, hshape.left.right⟩
      · cases h
  | testLast =>
      have hitem := hshape.left.itemNum_eq
      simp only [producer] at h
      split at h
      · rename_i hlast
        cases h
        exact Moved.of_read hrec rfl ⟨hshape, hitem.symm.trans hlast⟩
      · rename_i hmore
        cases h
        have hflag : lastFlag C sh.buf = 0 := if_neg fun heq => hmore (hitem.trans heq)
        exact Moved.of_read hrec rfl
          { hshape.left with endFlag_eq := hshape.left.endFlag_eq.trans hflag.symm }
  | setEndFlag =>
      simp only [producer] at h
      cases h
      rcases hrec.setEndFlag hshape.left hshape.right with ⟨hrec', hs'⟩
      exact Moved.of_write rfl rfl rfl rfl (Nat.le_refl _) hrec' hs'
  | postStock =>
      simp only [producer] at h
      cases h
      exact Moved.of_buf_eq hrec rfl rfl rfl rfl hshape fun _ hout => by cases hout
  | postEmptyslot =>
      simp only [producer] at h
      cases h
      exact Moved.of_buf_eq hrec rfl rfl rfl rfl hshape fun _ hout => by cases hout
  | postMutex =>
      simp only [producer] at h
      cases h
      exact Moved.of_buf_eq hrec rfl rfl rfl rfl trivial fun _ _ => hshape
  | exited => cases h

/-!
# Steps of a consumer
-/

theorem consumer_moved {pc pc' : ConsumerPc} (hrec : Recorded C sh.buf)
    (hshape : ConsumerShape C sh.buf pc) (hfree : 0 < sh.semMutex -> Settled C sh.buf)
    (h : consumer C sh pc = some (pc', sh')) :
    Moved C pc.tokens pc'.tokens (fun b => ConsumerShape C b pc') sh sh' := by
  cases pc with
  | readConsumed =>
      simp only [consumer] at h
      cases h
      exact Moved.of_read hrec rfl trivial
  | readProduced consumed =>
      simp only [consumer] at h
      split at h
      · cases h
        exact Moved.of_read hrec rfl trivial
      · cases h
        exact Moved.of_read hrec rfl trivial
  | readEndFlag =>
      simp only [consumer] at h
      split at h
      · cases h
        exact Moved.of_read hrec rfl trivial
      · cases h
        exact Moved.of_read hrec rfl trivial
  | waitStock =>
      simp only [consumer] at h
      split at h
      · rename_i hpos
        cases h
        exact Moved.of_buf_eq hrec rfl rfl rfl (Nat.sub_add_cancel hpos) trivial
          fun hin => by cases hin
      · cases h
  | waitMutex =>
      simp only [consumer] at h
      split at h
      · rename_i hpos
        cases h
        exact Moved.of_buf_eq hrec rfl (Nat.sub_add_cancel hpos) rfl rfl (hfree hpos)
          fun hin => by cases hin
      · cases h
  | testConsumed =>
      simp only [consumer] at h
      cases h
      exact Moved.of_read hrec rfl ⟨hshape, hshape.consumeNum_eq⟩
  | testProduced consumed =>
      rcases hshape with ⟨hs, hconsumed⟩
      simp only [consumer] at h
      split at h
      · rename_i hless
        cases h
        refine Moved.of_read hrec rfl ⟨hs, ?_⟩
        rw [hconsumed, hs.itemNum_eq] at hless
        exact hless
      · cases h
        exact Moved.of_read hrec rfl hs
  | readDequeue =>
      simp only [consumer] at h
      cases h
      exact Moved.of_read hrec rfl ⟨hshape, hshape.left.dequeue_eq⟩
  | writeDequeue v =>
      simp only [consumer] at h
      cases h
      rcases hshape with ⟨hs, hv⟩
      subst hv
      refine Moved.of_write rfl rfl rfl rfl (Nat.le_refl _) ?_ hs.writeDequeue
      exact { hrec with }
  | readSlot =>
      simp only [consumer] at h
      cases h
      exact Moved.of_read hrec rfl ⟨hshape, hshape.left.dequeue_eq⟩
  | readItemNo slot =>
      simp only [consumer] at h
      split at h
      · cases h
        rcases hshape with ⟨hs, hslot⟩
        subst hslot
        rcases hrec.readItemNo hs with ⟨hrec', hs'⟩
        exact Moved.of_write rfl rfl rfl rfl (Nat.le_refl _) hrec' hs'
      · cases h
  | readConsumeNum =>
      simp only [consumer] at h
      cases h
      exact Moved.of_read hrec rfl ⟨hshape, hshape.left.consumeNum_eq⟩
  | writeConsumeNum v =>
      simp only [consumer] at h
      cases h
      rcases hshape with ⟨hs, hv⟩
      subst hv
      rcases hrec.writeConsumeNum hs with ⟨hrec', hs'⟩
      have hconsume := hs.left.consumeNum_eq
      refine Moved.of_write rfl rfl ?_ ?_ (Nat.le_refl _) hrec' hs'
      · simp only [ConsumerPc.tokens, ConsumerPc.slot]
        lia
      · simp only [ConsumerPc.tokens, ConsumerPc.stock]
        lia
  | postEmptyslot =>
      simp only [consumer] at h
      cases h
      exact Moved.of_buf_eq hrec rfl rfl rfl rfl hshape fun _ hout => by cases hout
  | postStock =>
      simp only [consumer] at h
      cases h
      exact Moved.of_buf_eq hrec rfl rfl rfl rfl hshape fun _ hout => by cases hout
  | postMutex =>
      simp only [consumer] at h
      cases h
      exact Moved.of_buf_eq hrec rfl rfl rfl rfl trivial fun _ _ => hshape
  | exited => cases h

end ProducerConsumer
end OsLabs
