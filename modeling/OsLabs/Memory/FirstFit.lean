import Mathlib.Algebra.Ring.Nat
import OsLabs.Foundation.Blocks

/-!
# First fit on a list of blocks

What the default manager is for, told about the list of free blocks alone:
allocation takes the front of the first block that is large enough, release
merges the returned block with its neighbours and links the result back in.
No descriptor, flag or pointer appears here; the refinement to the code is
proved separately.
-/

namespace OsLabs
namespace Memory

open Foundation
open Block

/-- What is left of a block after its first `n` pages are taken. -/
def remainder (b : Block) (n : Nat) : List Block :=
  if n < b.size then [Block.mk (b.head + n) (b.size - n)] else []

/-- Allocation of `n` pages: nothing fits, or the first block that fits is cut
and its rest goes to the front of the list. -/
inductive AllocTo (n : Nat) (bs : List Block) : Option Nat -> List Block -> Prop where
  | refused (hsmall : forall b, b ∈ bs -> b.size < n) : AllocTo n bs none bs
  | granted (pre : List Block) (b : Block) (post : List Block)
      (hsplit : bs = pre ++ b :: post) (hfit : n ≤ b.size)
      (hsmall : forall c, c ∈ pre -> c.size < n) :
      AllocTo n bs (some b.head) (remainder b n ++ (pre ++ post))

def handedOut (n : Nat) : Option Nat -> Set Nat
  | none => ∅
  | some p => (Block.mk p n).span

/-- The merging pass of a release, with the blocks that stay on the list. -/
def mergePass : Block -> List Block -> Block × List Block
  | cur, [] => (cur, [])
  | cur, b :: bs =>
      if cur.stop = b.head then
        mergePass (cur.join b) bs
      else if b.stop = cur.head then
        mergePass (b.join cur) bs
      else
        ((mergePass cur bs).fst, b :: (mergePass cur bs).snd)

def insertBlock (c : Block) : List Block -> List Block
  | [] => [c]
  | b :: bs => if c.stop ≤ b.head then c :: b :: bs else b :: insertBlock c bs

def releaseBlock (cur : Block) (bs : List Block) : List Block :=
  insertBlock (mergePass cur bs).fst (mergePass cur bs).snd

def Ascending (bs : List Block) : Prop :=
  bs.Pairwise (fun b c => b.head < c.head)

/-!
# Allocation
-/

theorem remainder_cover (b : Block) {n : Nat} (hfit : n ≤ b.size) :
    b.span = (Block.mk b.head n).span ∪ cover (remainder b n) := by
  ext p
  unfold remainder
  by_cases hlt : n < b.size
  · rw [if_pos hlt, cover_cons, cover_nil, Set.union_empty, Set.mem_union]
    simp only [mem_span, stop_eq]
    lia
  · rw [if_neg hlt, cover_nil, Set.union_empty]
    simp only [mem_span, stop_eq]
    lia

theorem remainder_sum (b : Block) {n : Nat} (hfit : n ≤ b.size) :
    ((remainder b n).map Block.size).sum + n = b.size := by
  unfold remainder
  by_cases hlt : n < b.size
  · rw [if_pos hlt]
    simp only [List.map_cons, List.map_nil, List.sum_cons, List.sum_nil]
    lia
  · rw [if_neg hlt]
    simp only [List.map_nil, List.sum_nil]
    lia

theorem remainder_mem {b c : Block} {n : Nat} (hc : c ∈ remainder b n) :
    c.head = b.head + n ∧ c.stop = b.stop ∧ 0 < c.size := by
  unfold remainder at hc
  by_cases hlt : n < b.size
  · rw [if_pos hlt, List.mem_singleton] at hc
    subst hc
    simp only [stop_eq]
    lia
  · rw [if_neg hlt] at hc
    cases hc

theorem AllocTo.mem_origin {n : Nat} {bs bs' : List Block} {r : Option Nat}
    (h : AllocTo n bs r bs') {c : Block} (hc : c ∈ bs') :
    exists b, b ∈ bs ∧ c.stop = b.stop ∧
      (c = b ∨ (r = some b.head ∧ c.head = b.head + n)) := by
  cases h with
  | refused hsmall => exact ⟨c, hc, rfl, Or.inl rfl⟩
  | granted pre b post hsplit hfit hsmall =>
      rcases List.mem_append.mp hc with hrem | hkept
      · rcases remainder_mem hrem with ⟨hhead, hstop, _⟩
        exact ⟨b, by rw [hsplit]; simp, hstop, Or.inr ⟨rfl, hhead⟩⟩
      · refine ⟨c, ?_, rfl, Or.inl rfl⟩
        rw [hsplit]
        rcases List.mem_append.mp hkept with hpre | hpost
        · simp [hpre]
        · simp [hpost]

theorem AllocTo.separated {n : Nat} {bs bs' : List Block} {r : Option Nat}
    (h : AllocTo n bs r bs') (hsep : Separated bs) : Separated bs' := by
  cases h with
  | refused hsmall => exact hsep
  | granted pre b post hsplit hfit hsmall =>
      have hmiddle : Separated (b :: (pre ++ post)) := (hsplit ▸ hsep).perm List.perm_middle
      rcases separated_cons.mp hmiddle with ⟨_, hapart, hrest⟩
      unfold remainder
      by_cases hlt : n < b.size
      · rw [if_pos hlt, List.singleton_append, separated_cons]
        refine ⟨by simp only; lia, ?_, hrest⟩
        intro c hc
        have hbc := hapart c hc
        unfold Apart at hbc ⊢
        simp only [stop_eq] at hbc ⊢
        lia
      · rw [if_neg hlt]
        exact hrest

theorem AllocTo.cover_eq {n : Nat} {bs bs' : List Block} {r : Option Nat}
    (h : AllocTo n bs r bs') : cover bs = handedOut n r ∪ cover bs' := by
  cases h with
  | refused hsmall => exact (Set.empty_union _).symm
  | granted pre b post hsplit hfit hsmall =>
      have hperm : bs.Perm (b :: (pre ++ post)) := by
        rw [hsplit]
        exact List.perm_middle
      rw [cover_perm hperm, cover_cons, remainder_cover b hfit,
        cover_append (remainder b n), Set.union_assoc]
      rfl

theorem AllocTo.disjoint {n : Nat} {bs bs' : List Block} {r : Option Nat}
    (h : AllocTo n bs r bs') (hsep : Separated bs) :
    Disjoint (handedOut n r) (cover bs') := by
  cases h with
  | refused hsmall => exact Set.empty_disjoint _
  | granted pre b post hsplit hfit hsmall =>
      have hmiddle : Separated (b :: (pre ++ post)) := (hsplit ▸ hsep).perm List.perm_middle
      rcases separated_cons.mp hmiddle with ⟨_, hapart, _⟩
      rw [Set.disjoint_left]
      rintro p hp ⟨c, hc, hpc⟩
      change p ∈ (Block.mk b.head n).span at hp
      rw [mem_span] at hp hpc
      simp only [stop_mk] at hp
      rcases List.mem_append.mp hc with hrem | hkept
      · have hhead := (remainder_mem hrem).left
        lia
      · have hbc := hapart c hkept
        unfold Apart at hbc
        simp only [stop_eq] at hbc hpc
        lia

theorem AllocTo.sum_eq {n : Nat} {bs bs' : List Block} {p : Nat}
    (h : AllocTo n bs (some p) bs') :
    (bs.map Block.size).sum = (bs'.map Block.size).sum + n := by
  cases h with
  | granted pre b post hsplit hfit hsmall =>
      have hsum := remainder_sum b hfit
      rw [hsplit]
      simp only [List.map_append, List.map_cons, List.sum_append, List.sum_cons]
      lia

theorem AllocTo.coalesced {n : Nat} {bs bs' : List Block} {r : Option Nat}
    (h : AllocTo n bs r bs') (hsep : Separated bs) (hco : Coalesced bs) :
    Coalesced bs' := by
  intro b hb c hc hstop
  rcases h.mem_origin hb with ⟨b0, hb0, hbstop, _⟩
  rcases h.mem_origin hc with ⟨c0, hc0, hcstop, hcorigin⟩
  cases hcorigin with
  | inl hcc =>
      apply hco b0 hb0 c0 hc0
      rw [← hbstop, hstop, hcc]
  | inr hcut =>
      -- the page before a cut block has just been handed out
      have hbsep := (h.separated hsep).size_pos b hb
      have hpred : b.stop - 1 ∈ cover bs' := by
        refine ⟨b, hb, ?_⟩
        rw [mem_span]
        unfold stop
        lia
      apply Set.disjoint_left.mp (h.disjoint hsep) _ hpred
      rw [hcut.left]
      change b.stop - 1 ∈ (Block.mk c0.head n).span
      rw [mem_span, stop_mk]
      have hpos : 0 < n := by
        cases Nat.eq_zero_or_pos n with
        | inr hpos => exact hpos
        | inl hzero =>
            have hb0c0 : b0.stop = c0.head := by lia
            exact absurd hb0c0 (hco b0 hb0 c0 hc0)
      have hcpos := (h.separated hsep).size_pos c hc
      unfold stop at *
      lia

/-!
# Release
-/

theorem mergePass_sublist (cur : Block) (bs : List Block) :
    (mergePass cur bs).snd.Sublist bs := by
  induction bs generalizing cur with
  | nil => exact List.Sublist.slnil
  | cons b bs ih =>
      unfold mergePass
      split
      · exact (ih _).cons b
      · split
        · exact (ih _).cons b
        · exact (ih cur).cons_cons b

theorem mergePass_cover (cur : Block) (bs : List Block) :
    cover ((mergePass cur bs).fst :: (mergePass cur bs).snd) = cover (cur :: bs) := by
  induction bs generalizing cur with
  | nil => rfl
  | cons b bs ih =>
      unfold mergePass
      split
      · rename_i hup
        rw [ih, cover_cons, cover_cons, cover_cons, join_span hup,
          Set.union_assoc]
      · split
        · rename_i hdown
          rw [ih, cover_cons, cover_cons, cover_cons, join_span hdown,
            Set.union_assoc, Set.union_left_comm]
        · have hih := ih cur
          rw [cover_cons, cover_cons] at hih
          rw [cover_cons, cover_cons, Set.union_left_comm, hih, cover_cons,
            cover_cons, Set.union_left_comm]

theorem mergePass_sum (cur : Block) (bs : List Block) :
    (((mergePass cur bs).fst :: (mergePass cur bs).snd).map Block.size).sum =
      ((cur :: bs).map Block.size).sum := by
  induction bs generalizing cur with
  | nil => rfl
  | cons b bs ih =>
      unfold mergePass
      split
      · rw [ih]
        simp only [List.map_cons, List.sum_cons, join_size]
        lia
      · split
        · rw [ih]
          simp only [List.map_cons, List.sum_cons, join_size]
          lia
        · have hih := ih cur
          simp only [List.map_cons, List.sum_cons] at hih ⊢
          lia

theorem mergePass_separated (cur : Block) (bs : List Block)
    (hsep : Separated (cur :: bs)) :
    Separated ((mergePass cur bs).fst :: (mergePass cur bs).snd) := by
  induction bs generalizing cur with
  | nil => exact hsep
  | cons b bs ih =>
      unfold mergePass
      split
      · rename_i hup
        exact ih _ (hsep.join hup)
      · split
        · rename_i hdown
          exact ih _ ((hsep.perm (List.Perm.swap _ _ _)).join hdown)
        · have hrec := ih cur hsep.drop_second
          -- `b` misses everything the pass works on, so it misses the result
          have hswap := hsep.perm (List.Perm.swap _ _ _)
          have hout : Disjoint b.span
              (cover ((mergePass cur bs).fst :: (mergePass cur bs).snd)) := by
            rw [mergePass_cover]
            exact hswap.disjoint_cover
          have hresult := hrec.cons_of_disjoint (hswap.size_pos b List.mem_cons_self) hout
          exact hresult.perm (List.Perm.swap _ _ _)

theorem mergePass_ends (cur : Block) (bs : List Block) :
    ((mergePass cur bs).fst.stop = cur.stop ∨
      exists b, b ∈ bs ∧ (mergePass cur bs).fst.stop = b.stop) ∧
    ((mergePass cur bs).fst.head = cur.head ∨
      exists b, b ∈ bs ∧ (mergePass cur bs).fst.head = b.head) := by
  induction bs generalizing cur with
  | nil => exact ⟨Or.inl rfl, Or.inl rfl⟩
  | cons b bs ih =>
      have hweaken : forall {P : Block -> Prop}, (exists c, c ∈ bs ∧ P c) ->
          exists c, c ∈ b :: bs ∧ P c := by
        intro P h
        rcases h with ⟨c, hc, hP⟩
        exact ⟨c, List.mem_cons_of_mem b hc, hP⟩
      unfold mergePass
      split
      · rename_i hup
        rcases ih (cur.join b) with ⟨hstop, hhead⟩
        constructor
        · cases hstop with
          | inl h =>
              refine Or.inr ⟨b, by simp, ?_⟩
              rw [h, join_stop hup]
          | inr h => exact Or.inr (hweaken h)
        · cases hhead with
          | inl h => exact Or.inl h
          | inr h => exact Or.inr (hweaken h)
      · split
        · rename_i hdown
          rcases ih (b.join cur) with ⟨hstop, hhead⟩
          constructor
          · cases hstop with
            | inl h =>
                apply Or.inl
                rw [h, join_stop hdown]
            | inr h => exact Or.inr (hweaken h)
          · cases hhead with
            | inl h => exact Or.inr ⟨b, by simp, h⟩
            | inr h => exact Or.inr (hweaken h)
        · rcases ih cur with ⟨hstop, hhead⟩
          constructor
          · exact hstop.imp id hweaken
          · exact hhead.imp id hweaken

/-- One pass finds both neighbours, in whichever order they stand. -/
theorem mergePass_coalesced (cur : Block) (bs : List Block)
    (hsep : Separated (cur :: bs)) (hco : Coalesced bs) :
    Coalesced ((mergePass cur bs).fst :: (mergePass cur bs).snd) := by
  have hself : forall c, 0 < Block.size c -> c.stop ≠ c.head := by
    intro c hc
    unfold stop
    lia
  have hresult := mergePass_separated cur bs hsep
  have hmerged : forall c, c ∈ (mergePass cur bs).snd ->
      (mergePass cur bs).fst.stop ≠ c.head ∧
        c.stop ≠ (mergePass cur bs).fst.head := by
    clear hresult hself
    induction bs generalizing cur with
    | nil =>
        intro c hc
        cases hc
    | cons b bs ih =>
        have hcoRest : Coalesced bs := fun c hc d hd =>
          hco c (List.mem_cons_of_mem b hc) d (List.mem_cons_of_mem b hd)
        unfold mergePass
        split
        · rename_i hup
          exact ih _ (hsep.join hup) hcoRest
        · rename_i hup
          split
          · rename_i hdown
            exact ih _ ((hsep.perm (List.Perm.swap _ _ _)).join hdown) hcoRest
          · rename_i hdown
            have hrec := ih cur hsep.drop_second hcoRest
            intro c hc
            rcases List.mem_cons.mp hc with hcb | hckept
            · rw [hcb]
              rcases mergePass_ends cur bs with ⟨hstop, hhead⟩
              constructor
              · cases hstop with
                | inl h => rw [h]; exact hup
                | inr h =>
                    rcases h with ⟨x, hx, hxstop⟩
                    rw [hxstop]
                    exact hco x (by simp [hx]) b (by simp)
              · cases hhead with
                | inl h => rw [h]; exact hdown
                | inr h =>
                    rcases h with ⟨x, hx, hxhead⟩
                    rw [hxhead]
                    exact hco b (by simp) x (by simp [hx])
            · exact hrec c hckept
  intro c hc d hd
  rcases List.mem_cons.mp hc with rfl | hc
  · rcases List.mem_cons.mp hd with rfl | hd
    · exact hself _ (hresult.size_pos _ (by simp))
    · exact (hmerged d hd).left
  · rcases List.mem_cons.mp hd with rfl | hd
    · exact (hmerged c hc).right
    · exact hco c ((mergePass_sublist cur bs).subset hc) d
        ((mergePass_sublist cur bs).subset hd)

theorem insertBlock_perm (c : Block) (bs : List Block) :
    (insertBlock c bs).Perm (c :: bs) := by
  induction bs with
  | nil => exact List.Perm.refl _
  | cons b bs ih =>
      unfold insertBlock
      split
      · exact List.Perm.refl _
      · exact (List.Perm.cons b ih).trans (List.Perm.swap c b bs)

theorem insertBlock_ascending {c : Block} {bs : List Block}
    (hsep : Separated (c :: bs)) (hasc : Ascending bs) :
    Ascending (insertBlock c bs) := by
  induction bs with
  | nil => exact List.pairwise_singleton _ _
  | cons b bs ih =>
      rcases separated_cons.mp hsep with ⟨_, hcApart, _⟩
      have hb := hsep.size_pos b (List.mem_cons_of_mem c List.mem_cons_self)
      rcases List.pairwise_cons.mp hasc with ⟨hbLt, hascRest⟩
      have hcb := hcApart b (by simp)
      unfold insertBlock
      split
      · rename_i hle
        apply List.pairwise_cons.mpr
        constructor
        · intro d hd
          rcases List.mem_cons.mp hd with rfl | hd
          · unfold stop at hle
            lia
          · have hlt := hbLt d hd
            unfold stop at hle
            lia
        · exact hasc
      · rename_i hnot
        apply List.pairwise_cons.mpr
        constructor
        · intro d hd
          rcases List.mem_cons.mp ((insertBlock_perm c bs).mem_iff.mp hd) with rfl | hd
          · unfold Apart stop at hcb
            unfold stop at hnot
            lia
          · exact hbLt d hd
        · exact ih hsep.drop_second hascRest

theorem releaseBlock_cover (cur : Block) (bs : List Block) :
    cover (releaseBlock cur bs) = cur.span ∪ cover bs := by
  unfold releaseBlock
  rw [cover_perm (insertBlock_perm _ _), mergePass_cover, cover_cons]

theorem releaseBlock_coalesced {cur : Block} {bs : List Block}
    (hsep : Separated (cur :: bs)) (hco : Coalesced bs) :
    Coalesced (releaseBlock cur bs) :=
  (mergePass_coalesced cur bs hsep hco).perm (insertBlock_perm _ _).symm

theorem releaseBlock_ascending {cur : Block} {bs : List Block}
    (hsep : Separated (cur :: bs)) (hasc : Ascending bs) :
    Ascending (releaseBlock cur bs) :=
  insertBlock_ascending (mergePass_separated cur bs hsep)
    (hasc.sublist (mergePass_sublist cur bs))

/-!
# Single pages

One page is always the first page of the first block, so neither its allocation nor its release
puts the list out of order.
-/

theorem AllocTo.first {n : Nat} {b : Block} {bs bs' : List Block} {r : Option Nat}
    (h : AllocTo n (b :: bs) r bs') (hfit : n ≤ b.size) :
    r = some b.head ∧ bs' = remainder b n ++ bs := by
  cases h with
  | refused hsmall =>
      have hlt := hsmall b List.mem_cons_self
      lia
  | granted pre d post hsplit hfits hsmall =>
      cases pre with
      | nil =>
          cases hsplit
          exact ⟨rfl, rfl⟩
      | cons e pre =>
          cases hsplit
          have hlt := hsmall b List.mem_cons_self
          lia

theorem remainder_ascending {b : Block} {bs : List Block} (n : Nat) (hsep : Separated (b :: bs))
    (hasc : Ascending (b :: bs)) : Ascending (remainder b n ++ bs) := by
  rcases List.pairwise_cons.mp hasc with ⟨hlt, hrest⟩
  rcases separated_cons.mp hsep with ⟨_, hapart, _⟩
  unfold remainder
  split
  · apply List.pairwise_cons.mpr
    refine ⟨?_, hrest⟩
    intro c hc
    have hbc := hapart c hc
    have hhead := hlt c hc
    unfold Apart stop at hbc
    simp only
    lia
  · exact hrest

theorem AllocTo.page_ascending {bs bs' : List Block} {r : Option Nat} (h : AllocTo 1 bs r bs')
    (hsep : Separated bs) (hasc : Ascending bs) : Ascending bs' := by
  cases bs with
  | nil =>
      cases h with
      | refused hsmall => exact hasc
      | granted pre b post hsplit hfit hsmall =>
          cases pre with
          | nil => cases hsplit
          | cons a pre => cases hsplit
  | cons b bs =>
      rw [(h.first (hsep.size_pos b List.mem_cons_self)).right]
      exact remainder_ascending 1 hsep hasc

theorem AllocTo.page_isLeast {bs bs' : List Block} {p : Nat} (h : AllocTo 1 bs (some p) bs')
    (hsep : Separated bs) (hasc : Ascending bs) : IsLeast (cover bs) p := by
  constructor
  · rw [h.cover_eq]
    left
    exact ⟨Nat.le_refl p, Nat.lt_succ_self p⟩
  · rintro q ⟨c, hc, hq⟩
    cases bs with
    | nil => cases hc
    | cons b bs =>
        have hp := (h.first (hsep.size_pos b List.mem_cons_self)).left
        rw [Option.some.inj hp]
        rcases List.mem_cons.mp hc with heq | hin
        · rw [← heq]
          exact hq.left
        · have hlt := (List.pairwise_cons.mp hasc).left c hin
          exact hlt.le.trans hq.left

/-- Pages that go back right after they were cut off leave the list in order, wherever the rest
of their block stands. -/
theorem AllocTo.release_ascending {n p : Nat} {bs bs' : List Block} (h : AllocTo n bs (some p) bs')
    (hsep : Separated bs) (hasc : Ascending bs) :
    Ascending (releaseBlock (Block.mk p n) bs') := by
  cases h with
  | granted pre b post hsplit hfit hsmall =>
      subst hsplit
      have hmiddle : Separated (b :: (pre ++ post)) := hsep.perm List.perm_middle
      have hrest : Ascending (pre ++ post) :=
        List.Pairwise.sublist ((List.sublist_cons_self b post).append_left pre) hasc
      unfold remainder
      split
      · have hjoin : (Block.mk b.head n).join (Block.mk (b.head + n) (b.size - n)) = b := by
          unfold Block.join
          simp only
          rw [Nat.add_sub_cancel' hfit]
        have hpass : mergePass (Block.mk b.head n)
            (Block.mk (b.head + n) (b.size - n) :: (pre ++ post)) = mergePass b (pre ++ post) := by
          rw [mergePass, if_pos (stop_mk _ _), hjoin]
        unfold releaseBlock
        rw [List.singleton_append, hpass]
        exact releaseBlock_ascending hmiddle hrest
      · rename_i hle
        have hwhole : Block.mk b.head n = b := by
          rw [Nat.le_antisymm hfit (Nat.le_of_not_lt hle)]
        rw [hwhole]
        exact releaseBlock_ascending hmiddle hrest

end Memory
end OsLabs
