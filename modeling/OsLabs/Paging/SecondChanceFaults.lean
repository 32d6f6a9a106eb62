import OsLabs.Foundation.DemandPaging
import OsLabs.Paging.Conservative
import OsLabs.Paging.SecondChanceRuns

/-!
# Second chance in a short stretch

A page that is brought in during a stretch is not evicted in it, as long as the
stretch refers to no more pages than there are frames.  The clock has to pass the page
twice, and what it leaves behind the second time are pages of the stretch only.
-/

namespace OsLabs
namespace Paging

open Foundation
open Foundation.FaultLog

def DistinctPages (q : List Chance) : Prop :=
  (q.map Chance.page).Pairwise fun a b => a = b -> a = -1

theorem Evicts.pages_perm {q rest : List Chance} {v : Chance} (h : Evicts q v rest) :
    (q.map Chance.page).Perm (v.page :: rest.map Chance.page) := by
  induction h with
  | front _ => exact List.Perm.refl _
  | again _ _ ih =>
      rw [List.map_append, List.map_singleton] at ih
      exact (List.perm_append_singleton _ _).symm.trans ih

theorem distinctPages_perm {q r : List Chance} (h : DistinctPages q)
    (hperm : (q.map Chance.page).Perm (r.map Chance.page)) : DistinctPages r :=
  List.Pairwise.perm h hperm fun {a b} hab heq => by
    rw [heq]
    exact hab heq.symm

theorem map_setBit_page (q : List Chance) (page : Int) :
    (q.map (setBit page)).map Chance.page = q.map Chance.page := by
  rw [List.map_map]
  apply List.map_congr_left
  intro c _
  change (setBit page c).page = c.page
  unfold setBit
  split
  · rename_i heq
    exact heq.symm
  · rfl

structure Queued (n : Nat) (q : List Chance) : Prop where
  length_eq : q.length = n
  distinct : DistinctPages q

theorem Evicts.length_eq {q rest : List Chance} {v : Chance} (h : Evicts q v rest) :
    q.length = rest.length + 1 := by
  have hlen := h.pages_perm.length_eq
  rw [List.length_map, List.length_cons, List.length_map] at hlen
  exact hlen

theorem Queued.step {n : Nat} {q r : List Chance} {page : Int} {fault : Bool} (h : Queued n q)
    (hstep : PolicyStep q page fault r) : Queued n r := by
  cases hstep with
  | hit _ =>
      refine ⟨by rw [List.length_map, h.length_eq], ?_⟩
      unfold DistinctPages
      rw [map_setBit_page]
      exact h.distinct
  | fault hmem hvictim =>
      constructor
      · rw [List.length_append, List.length_singleton, ← hvictim.length_eq, h.length_eq]
      · have hrest := List.Pairwise.perm h.distinct hvictim.pages_perm fun {a b} hab heq => by
          rw [heq]
          exact hab heq.symm
        unfold DistinctPages
        rw [List.map_append, List.map_singleton]
        apply List.pairwise_append.mpr
        refine ⟨(List.pairwise_cons.mp hrest).right, List.pairwise_singleton _ _, ?_⟩
        intro a ha b hb heq
        rw [List.mem_singleton.mp hb] at heq
        rw [heq] at ha
        exact absurd (hvictim.pages_perm.mem_iff.mpr (List.mem_cons_of_mem _ ha)) hmem

/-!
# Pages brought in during the stretch
-/

/-- What is known of the queue while the pages `S` are referred to and the pages `F`
have been brought in: behind such a page only pages of `S` have their bits set, and
once its own bit is cleared, so it is in front of it, and all pages behind it are in
`S`. -/
structure Fresh (S F : Finset Int) (q : List Chance) : Prop where
  referred : F ⊆ S
  present : forall p, p ∈ F -> p ∈ q.map Chance.page
  behind : forall front c back, q = front ++ c :: back -> c.page ∈ F ->
    forall d, d ∈ back -> d.bit = true -> d.page ∈ S
  cleared : forall front c back, q = front ++ c :: back -> c.page ∈ F -> c.bit = false ->
    (forall d, d ∈ front -> d.bit = true -> d.page ∈ S) ∧ forall d, d ∈ back -> d.page ∈ S

section Fresh

variable {S F : Finset Int} {q : List Chance} {n : Nat} {page : Int}

theorem fresh_empty (S : Finset Int) (q : List Chance) : Fresh S ∅ q where
  referred := Finset.empty_subset S
  present := by
    intro p hp
    exact absurd hp (Finset.notMem_empty p)
  behind := by
    intro front c back _ hc
    exact absurd hc (Finset.notMem_empty _)
  cleared := by
    intro front c back _ hc
    exact absurd hc (Finset.notMem_empty _)

theorem setBit_bit {c : Chance} (h : (setBit page c).bit = true) :
    (setBit page c).page = page ∨ c.bit = true := by
  unfold setBit at h ⊢
  split at h
  · rename_i heq
    rw [if_pos heq]
    exact Or.inl rfl
  · exact Or.inr h

theorem setBit_page (c : Chance) : (setBit page c).page = c.page := by
  unfold setBit
  split
  · rename_i heq
    exact heq.symm
  · rfl

theorem Fresh.hit (h : Fresh S F q) (hpage : page ∈ S) : Fresh S F (q.map (setBit page)) := by
  have hset : forall l : List Chance, (forall d, d ∈ l -> d.bit = true -> d.page ∈ S) ->
      forall d, d ∈ l.map (setBit page) -> d.bit = true -> d.page ∈ S := by
    intro l hl d hd hbit
    rcases List.mem_map.mp hd with ⟨e, he, hed⟩
    rw [← hed] at hbit ⊢
    rcases setBit_bit hbit with hp | hold
    · rw [hp]
      exact hpage
    · rw [setBit_page]
      exact hl e he hold
  refine ⟨h.referred, ?_, ?_, ?_⟩
  · intro p hp
    rw [map_setBit_page]
    exact h.present p hp
  · intro front c back hsplit hc
    rcases List.map_eq_append_iff.mp hsplit with ⟨front', rest, hq, hfront, hrest⟩
    rcases List.map_eq_cons_iff.mp hrest with ⟨c', back', hrest', hc', hback⟩
    rw [hrest'] at hq
    rw [← hc', setBit_page] at hc
    rw [← hback]
    exact hset back' (h.behind front' c' back' hq hc)
  · intro front c back hsplit hc hbit
    rcases List.map_eq_append_iff.mp hsplit with ⟨front', rest, hq, hfront, hrest⟩
    rcases List.map_eq_cons_iff.mp hrest with ⟨c', back', hrest', hc', hback⟩
    rw [hrest'] at hq
    rw [← hc', setBit_page] at hc
    have hbit' : c'.bit = false := by
      rw [← hc'] at hbit
      unfold setBit at hbit
      split at hbit
      · cases hbit
      · exact hbit
    rcases h.cleared front' c' back' hq hc hbit' with ⟨hbefore, hafter⟩
    rw [← hfront, ← hback]
    refine ⟨hset front' hbefore, ?_⟩
    intro d hd
    rcases List.mem_map.mp hd with ⟨e, he, hed⟩
    rw [← hed, setBit_page]
    exact hafter e he

theorem split_concat {e d : Chance} {front back : List Chance}
    (hsplit : q ++ [e] = front ++ d :: back) :
    (front = q ∧ d = e ∧ back = []) ∨
      exists back', q = front ++ d :: back' ∧ back = back' ++ [e] := by
  cases back using List.reverseRecOn with
  | nil =>
      rcases List.append_inj' hsplit rfl with ⟨hq, hd⟩
      cases hd
      exact Or.inl ⟨hq.symm, rfl, rfl⟩
  | append_singleton back b =>
      rw [← List.cons_append, ← List.append_assoc] at hsplit
      rcases List.append_inj' hsplit rfl with ⟨hq, hb⟩
      cases hb
      exact Or.inr ⟨back, hq, rfl⟩

theorem Fresh.again {c : Chance} (h : Fresh S F (c :: q)) (hbit : c.bit = true) :
    Fresh S F (q ++ [Chance.mk c.page false]) := by
  have hpages : ((q ++ [Chance.mk c.page false]).map Chance.page).Perm
      ((c :: q).map Chance.page) := by
    rw [List.map_append, List.map_singleton, List.map_cons]
    exact List.perm_append_singleton _ _
  refine ⟨h.referred, ?_, ?_, ?_⟩
  · intro p hp
    exact hpages.mem_iff.mpr (h.present p hp)
  · intro front d back hsplit hd e he hset
    rcases split_concat hsplit with ⟨_, _, hback⟩ | ⟨back', hq, hback⟩
    · rw [hback] at he
      cases he
    · rw [hback] at he
      rcases List.mem_append.mp he with hold | hlast
      · exact h.behind (c :: front) d back' (by rw [hq, List.cons_append]) hd e hold hset
      · rw [List.mem_singleton.mp hlast] at hset
        cases hset
  · intro front d back hsplit hd hclear
    rcases split_concat hsplit with ⟨hfront, hdc, hback⟩ | ⟨back', hq, hback⟩
    · rw [hdc] at hd
      rw [hfront, hback]
      refine ⟨h.behind [] c q rfl hd, ?_⟩
      intro e he
      cases he
    · rcases h.cleared (c :: front) d back' (by rw [hq, List.cons_append]) hd hclear with
        ⟨hbefore, hafter⟩
      refine ⟨fun e he => hbefore e (List.mem_cons_of_mem c he), ?_⟩
      intro e he
      rw [hback] at he
      rcases List.mem_append.mp he with hold | hlast
      · exact hafter e hold
      · rw [List.mem_singleton.mp hlast]
        exact hbefore c List.mem_cons_self hbit

/-- The victim is not one of the pages brought in: otherwise all frames would hold
pages of the stretch, and the page that is missing would be one too many. -/
theorem Fresh.victim {v : Chance} {rest : List Chance} (h : Fresh S F (v :: rest))
    (hqueued : Queued n (v :: rest)) (hS : S.card ≤ n) (hnonneg : forall p, p ∈ S -> 0 ≤ p)
    (hbit : v.bit = false) (hpage : page ∈ S)
    (habsent : page ∉ (v :: rest).map Chance.page) : v.page ∉ F := by
  intro hv
  have hrest := (h.cleared [] v rest rfl hv hbit).right
  have hall : forall p, p ∈ (v :: rest).map Chance.page -> p ∈ S := by
    intro p hp
    rcases List.mem_map.mp hp with ⟨d, hd, hdp⟩
    rw [← hdp]
    rcases List.mem_cons.mp hd with hdv | hdrest
    · rw [hdv]
      exact h.referred hv
    · exact hrest d hdrest
  have hnodup : ((v :: rest).map Chance.page).Nodup := by
    apply hqueued.distinct.imp_of_mem
    intro a b ha _ hab heq
    have hneg := hab heq
    have hpos := hnonneg a (hall a ha)
    lia
  have hsub : insert page ((v :: rest).map Chance.page).toFinset ⊆ S := by
    intro p hp
    rcases Finset.mem_insert.mp hp with heq | hmem
    · rw [heq]
      exact hpage
    · exact hall p (List.mem_toFinset.mp hmem)
  have hcard := Finset.card_le_card hsub
  rw [Finset.card_insert_of_notMem fun hmem => habsent (List.mem_toFinset.mp hmem),
    List.toFinset_card_of_nodup hnodup, List.length_map, hqueued.length_eq] at hcard
  lia

theorem Fresh.place {v : Chance} {rest : List Chance} (h : Fresh S F (v :: rest))
    (hv : v.page ∉ F) (hpage : page ∈ S) (hdistinct : page ∉ (v :: rest).map Chance.page) :
    Fresh S (insert page F) (rest ++ [Chance.mk page true]) := by
  have hmemF : forall d, d ∈ rest -> d.page ∈ insert page F -> d.page ∈ F := by
    intro d hd hdF
    apply (Finset.mem_insert.mp hdF).resolve_left
    intro heq
    apply hdistinct
    rw [← heq]
    exact List.mem_map_of_mem (List.mem_cons_of_mem v hd)
  refine ⟨Finset.insert_subset hpage h.referred, ?_, ?_, ?_⟩
  · intro p hp
    rw [List.map_append, List.map_singleton, List.mem_append, List.mem_singleton]
    rcases Finset.mem_insert.mp hp with heq | hpF
    · exact Or.inr heq
    · apply Or.inl
      have hin := h.present p hpF
      rw [List.map_cons] at hin
      apply (List.mem_cons.mp hin).resolve_left
      intro heq
      rw [heq] at hpF
      exact hv hpF
  · intro front d back hsplit hd e he hset
    rcases split_concat hsplit with ⟨_, _, hback⟩ | ⟨back', hrest, hback⟩
    · rw [hback] at he
      cases he
    · have hdF := hmemF d (by
        rw [hrest]
        exact List.mem_append_right _ List.mem_cons_self) hd
      rw [hback] at he
      rcases List.mem_append.mp he with hold | hlast
      · exact h.behind (v :: front) d back' (by rw [hrest, List.cons_append]) hdF e hold hset
      · rw [List.mem_singleton.mp hlast]
        exact hpage
  · intro front d back hsplit hd hclear
    rcases split_concat hsplit with ⟨_, hdp, _⟩ | ⟨back', hrest, hback⟩
    · rw [hdp] at hclear
      cases hclear
    · have hdF := hmemF d (by
        rw [hrest]
        exact List.mem_append_right _ List.mem_cons_self) hd
      rcases h.cleared (v :: front) d back' (by rw [hrest, List.cons_append]) hdF hclear with
        ⟨hbefore, hafter⟩
      refine ⟨fun e he => hbefore e (List.mem_cons_of_mem v he), ?_⟩
      intro e he
      rw [hback] at he
      rcases List.mem_append.mp he with hold | hlast
      · exact hafter e hold
      · rw [List.mem_singleton.mp hlast]
        exact hpage

theorem Fresh.fault {v : Chance} {rest : List Chance} (hvictim : Evicts q v rest)
    (h : Fresh S F q) (hqueued : Queued n q) (hS : S.card ≤ n)
    (hnonneg : forall p, p ∈ S -> 0 ≤ p) (hpage : page ∈ S)
    (habsent : page ∉ q.map Chance.page) :
    Fresh S (insert page F) (rest ++ [Chance.mk page true]) := by
  induction hvictim with
  | front hbit =>
      exact h.place (h.victim hqueued hS hnonneg hbit hpage habsent) hpage habsent
  | @again c v queue rest hbit _ ih =>
      have hperm : ((c :: queue).map Chance.page).Perm
          ((queue ++ [Chance.mk c.page false]).map Chance.page) := by
        rw [List.map_append, List.map_singleton, List.map_cons]
        exact (List.perm_append_singleton _ _).symm
      apply ih (h.again hbit)
      · refine ⟨?_, distinctPages_perm hqueued.distinct hperm⟩
        rw [List.length_append, List.length_singleton, ← hqueued.length_eq, List.length_cons]
      · exact fun hmem => habsent (hperm.mem_iff.mpr hmem)

end Fresh

/-!
# Runs
-/

variable {n : Nat} {q : List Chance}

theorem Queued.stretch {S : Finset Int} (hq : Queued n q) (hS : S.card ≤ n)
    (hnonneg : forall p, p ∈ S -> 0 ≤ p) {mid : FaultLog Int} {r : List Chance}
    (hsub : mid.pages ⊆ S) (hrun : Logs PolicyStep q mid r) :
    exists F, Queued n r ∧ Fresh S F r ∧ F ⊆ mid.pages ∧ F.card = mid.faults := by
  induction mid using List.reverseRecOn generalizing r with
  | nil =>
      cases hrun
      exact ⟨∅, hq, fresh_empty S q, Finset.empty_subset _, rfl⟩
  | append_singleton mid e ih =>
      rcases e with ⟨page, fault⟩
      rcases hrun.concat_inv with ⟨t, hbefore, hstep⟩
      rw [pages_concat] at hsub ⊢
      have hpage : page ∈ S := hsub (Finset.mem_insert_self _ _)
      rcases ih ((Finset.subset_insert _ _).trans hsub) hbefore with
        ⟨F, ht, hfresh, hF, hcard⟩
      have hr := ht.step hstep
      rw [faults_append]
      cases hstep with
      | hit _ =>
          refine ⟨F, hr, hfresh.hit hpage, hF.trans (Finset.subset_insert _ _), ?_⟩
          rw [hcard]
          rfl
      | fault hmem hvictim =>
          have hnew : page ∉ F := fun hmemF => hmem (hfresh.present page hmemF)
          refine ⟨insert page F, hr, Fresh.fault hvictim hfresh ht hS hnonneg hpage hmem,
            Finset.insert_subset_insert _ hF, ?_⟩
          rw [Finset.card_insert_of_notMem hnew, hcard]
          rfl

theorem PolicyRun.logs {r : List Chance} {refs : List Int} {faults : List Bool}
    (h : PolicyRun q refs faults r) : Logs PolicyStep q (refs.zip faults) r := by
  induction h with
  | nil => exact Logs.nil
  | cons hstep _ ih => exact Logs.cons hstep ih

theorem emptyQueue_queued (n : Nat) : Queued n (emptyQueue n) := by
  refine ⟨List.length_replicate, ?_⟩
  unfold DistinctPages emptyQueue
  rw [List.map_replicate]
  apply List.pairwise_replicate.mpr
  exact Or.inr fun _ => rfl

theorem secondChance_conservative (hn : 1 ≤ n) {refs : List Int}
    (hrefs : forall p, p ∈ refs -> 0 ≤ p) :
    exists out, secondChance n refs = some out ∧ (faultLog refs out).Conservative n := by
  rcases (initialSecondChance_rep hn).after hrefs with
    ⟨s, c, q, faults, out, _, _, hpolicy, hout, hfaults⟩
  refine ⟨out, hout, ?_⟩
  have hrun := hpolicy.logs
  rw [← hfaults] at hrun
  apply hrun.conservative (Queued n) fun p => 0 ≤ p
  · intro q page fault r hq _ hstep
    exact hq.step hstep
  · intro q mid r hq hvalid hmid hcard
    have hnonneg : forall p, p ∈ mid.pages -> 0 ≤ p := by
      intro p hp
      rcases mem_pages.mp hp with ⟨fault, he⟩
      exact hvalid (p, fault) he
    rcases hq.stretch hcard hnonneg (Finset.Subset.refl _) hmid with ⟨F, _, _, hF, hfaults⟩
    rw [← hfaults]
    exact Finset.card_le_card hF
  · exact emptyQueue_queued n
  · exact faultLog_valid hrefs out

end Paging
end OsLabs
