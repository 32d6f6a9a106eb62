import Mathlib.Data.Finset.Card
import Mathlib.Data.List.Infix
import Mathlib.Tactic.Ring

/-!
# Faults of a paging policy

A log lists the references of a run with their faults.  A policy with `k` frames is
conservative if it never faults more often than there are pages in a stretch that
refers to at most `k` pages.  Such a policy is compared with any other way to serve
the same references, one that may know them in advance, and that may bring in pages
before they are needed.
-/

namespace OsLabs
namespace Foundation

variable {page : Type}

abbrev FaultLog (page : Type) := List (page × Bool)

namespace FaultLog

def faults (log : FaultLog page) : Nat := log.countP Prod.snd

@[simp] theorem faults_nil : faults ([] : FaultLog page) = 0 := rfl

theorem faults_append (a b : FaultLog page) : faults (a ++ b) = a.faults + b.faults :=
  List.countP_append

variable [DecidableEq page]

def pages (log : FaultLog page) : Finset page := (log.map Prod.fst).toFinset

/-- In a stretch over at most `k` pages, no more faults than pages. -/
def Conservative (k : Nat) (log : FaultLog page) : Prop :=
  forall mid : FaultLog page, mid <:+: log -> mid.pages.card ≤ k -> mid.faults ≤ mid.pages.card

@[simp] theorem pages_nil : pages ([] : FaultLog page) = ∅ := rfl

theorem pages_append (a b : FaultLog page) : pages (a ++ b) = a.pages ∪ b.pages := by
  unfold pages
  rw [List.map_append, List.toFinset_append]

theorem pages_concat (a : FaultLog page) (p : page) (fault : Bool) :
    pages (a ++ [(p, fault)]) = insert p a.pages := by
  rw [pages_append, Finset.union_comm]
  rfl

theorem mem_pages {log : FaultLog page} {p : page} :
    p ∈ log.pages <-> exists fault, (p, fault) ∈ log := by
  unfold pages
  rw [List.mem_toFinset, List.mem_map]
  constructor
  · rintro ⟨e, he, hp⟩
    exact ⟨e.snd, by rw [← hp]; exact he⟩
  · rintro ⟨fault, he⟩
    exact ⟨(p, fault), he, rfl⟩

theorem Conservative.part {k : Nat} {log part : FaultLog page} (h : Conservative k log)
    (hpart : part <:+: log) : Conservative k part :=
  fun mid hmid hfew => h mid (hmid.trans hpart) hfew

theorem exists_full_stretch {k : Nat} {log : FaultLog page} (hmany : k < log.pages.card) :
    exists full p fault rest, log = full ++ (p, fault) :: rest ∧ (pages full).card = k ∧
      p ∉ pages full := by
  induction log using List.reverseRecOn with
  | nil =>
      rw [pages_nil, Finset.card_empty] at hmany
      lia
  | append_singleton log e ih =>
      rcases e with ⟨p, fault⟩
      by_cases hbefore : k < (pages log).card
      · rcases ih hbefore with ⟨full, q, fault', rest, hsplit, hcard, hq⟩
        refine ⟨full, q, fault', rest ++ [(p, fault)], ?_, hcard, hq⟩
        rw [hsplit, List.append_assoc, List.cons_append]
      · rw [pages_concat] at hmany
        have hnew : p ∉ pages log := by
          intro hmem
          rw [Finset.insert_eq_of_mem hmem] at hmany
          exact hbefore hmany
        rw [Finset.card_insert_of_notMem hnew] at hmany
        exact ⟨log, p, fault, [], rfl, by lia, hnew⟩

end FaultLog

/-!
# Other ways to serve the references
-/

section Comparison

variable [DecidableEq page]

/-- `Serves h C refs m E`: from the resident pages `C` on, at most `h` pages are
resident after each reference and the page referred to is one of them; `m` pages are
brought in, and `E` are resident at the end. -/
inductive Serves (h : Nat) : Finset page -> List page -> Nat -> Finset page -> Prop where
  | nil {C : Finset page} : Serves h C [] 0 C
  | cons {C D E : Finset page} {p : page} {refs : List page} {m : Nat} (hmem : p ∈ D)
      (hcard : D.card ≤ h) (hrest : Serves h D refs m E) :
      Serves h C (p :: refs) ((D \ C).card + m) E

namespace Serves

variable {h m : Nat} {C E : Finset page} {refs : List page}

theorem append_inv {before after : List page} (hserves : Serves h C (before ++ after) m E) :
    exists D m1 m2, Serves h C before m1 D ∧ Serves h D after m2 E ∧ m = m1 + m2 := by
  induction before generalizing C m with
  | nil => exact ⟨C, 0, m, Serves.nil, hserves, (Nat.zero_add m).symm⟩
  | cons p before ih =>
      rw [List.cons_append] at hserves
      cases hserves with
      | cons hmem hcard hrest =>
          rcases ih hrest with ⟨D, m1, m2, hbefore, hafter, hsum⟩
          exact ⟨D, _, m2, Serves.cons hmem hcard hbefore, hafter, by lia⟩

theorem last_resident {before : List page} {p : page}
    (hserves : Serves h C (before ++ [p]) m E) : p ∈ E ∧ E.card ≤ h := by
  rcases hserves.append_inv with ⟨D, m1, m2, _, hlast, _⟩
  cases hlast with
  | cons hmem hcard hrest =>
      cases hrest with
      | nil => exact ⟨hmem, hcard⟩

theorem pages_le (hserves : Serves h C refs m E) : (refs.toFinset \ C).card ≤ m := by
  induction hserves with
  | nil => simp
  | @cons C D E p refs m hmem _ _ ih =>
      have hsub : (p :: refs).toFinset \ C ⊆ (D \ C) ∪ (refs.toFinset \ D) := by
        intro q hq
        rcases Finset.mem_sdiff.mp hq with ⟨hqrefs, hqC⟩
        rw [List.toFinset_cons, Finset.mem_insert] at hqrefs
        by_cases hqD : q ∈ D
        · exact Finset.mem_union_left _ (Finset.mem_sdiff.mpr ⟨hqD, hqC⟩)
        · apply Finset.mem_union_right
          refine Finset.mem_sdiff.mpr ⟨hqrefs.resolve_left ?_, hqD⟩
          intro heq
          rw [heq] at hqD
          exact hqD hmem
      calc ((p :: refs).toFinset \ C).card
          ≤ ((D \ C) ∪ (refs.toFinset \ D)).card := Finset.card_le_card hsub
        _ ≤ (D \ C).card + (refs.toFinset \ D).card := Finset.card_union_le _ _
        _ ≤ (D \ C).card + m := Nat.add_le_add_left ih _

end Serves

/-!
# The comparison
-/

namespace FaultLog

variable {k h m : Nat} {C E : Finset page} {log : FaultLog page}

/-- From the first reference of a full stretch on, up to the first one behind it, pages
have to be brought in. -/
theorem stretch_loads {q p : page} {b : Bool} {full : FaultLog page} (hq : q ∈ C)
    (hC : C.card ≤ h) (hp : p ∉ pages ((q, b) :: full))
    (hserves : Serves h C (full.map Prod.fst ++ [p]) m E) :
    (pages ((q, b) :: full)).card + 1 ≤ m + h := by
  have hloads := hserves.pages_le
  have hcover : insert p (pages ((q, b) :: full)) ⊆
      ((full.map Prod.fst ++ [p]).toFinset \ C) ∪ C := by
    intro r hr
    rw [Finset.sdiff_union_self_eq_union, Finset.mem_union]
    by_cases hrq : r = q
    · rw [hrq]
      exact Or.inr hq
    · apply Or.inl
      rw [List.mem_toFinset, List.mem_append, List.mem_singleton]
      rcases Finset.mem_insert.mp hr with hrp | hrfull
      · exact Or.inr hrp
      · unfold pages at hrfull
        rw [List.mem_toFinset, List.map_cons, List.mem_cons] at hrfull
        exact Or.inl (hrfull.resolve_left hrq)
  calc (pages ((q, b) :: full)).card + 1
      = (insert p (pages ((q, b) :: full))).card := (Finset.card_insert_of_notMem hp).symm
    _ ≤ (((full.map Prod.fst ++ [p]).toFinset \ C) ∪ C).card := Finset.card_le_card hcover
    _ ≤ ((full.map Prod.fst ++ [p]).toFinset \ C).card + C.card := Finset.card_union_le _ _
    _ ≤ m + h := Nat.add_le_add hloads hC

/-- The comparison from a state in which the first page is resident.  Each full stretch
costs a conservative policy at most `k` faults, and the other way to serve the
references at least `k + 1 - h` pages. -/
theorem Conservative.faults_le_of_resident {q : page} {b : Bool}
    (hlog : Conservative k ((q, b) :: log)) (hhk : h ≤ k) (hq : q ∈ C) (hC : C.card ≤ h)
    (hserves : Serves h C (log.map Prod.fst) m E) :
    (k + 1 - h) * faults ((q, b) :: log) ≤ k * (m + (k + 1 - h)) := by
  induction hlen : log.length using Nat.strong_induction_on generalizing q b log C m with
  | _ len ih =>
  by_cases hfew : (pages ((q, b) :: log)).card ≤ k
  · have hbound := hlog _ List.infix_rfl hfew
    calc (k + 1 - h) * faults ((q, b) :: log)
        ≤ (k + 1 - h) * k := Nat.mul_le_mul_left _ (hbound.trans hfew)
      _ = k * (k + 1 - h) := Nat.mul_comm _ _
      _ ≤ k * (m + (k + 1 - h)) := Nat.mul_le_mul_left k (Nat.le_add_left _ m)
  · rcases exists_full_stretch (Nat.lt_of_not_le hfew) with
      ⟨full, p, b', rest, hsplit, hcard, hp⟩
    have hpos : 0 < C.card := Finset.card_pos.mpr ⟨q, hq⟩
    cases full with
    | nil =>
        rw [pages_nil, Finset.card_empty] at hcard
        lia
    | cons e full =>
        rw [List.cons_append] at hsplit
        cases hsplit
        rw [List.map_append, List.map_cons, List.append_cons] at hserves
        rcases hserves.append_inv with ⟨D, m1, m2, hstretch, hrest, hsum⟩
        have hloads := stretch_loads hq hC hp hstretch
        have hlast := hstretch.last_resident
        have hhere := hlog ((q, b) :: full) ⟨[], (p, b') :: rest, rfl⟩ hcard.le
        have hsuffix : (p, b') :: rest <:+: (q, b) :: (full ++ (p, b') :: rest) :=
          ⟨(q, b) :: full, [], by rw [List.append_nil, List.cons_append]⟩
        have hlater := ih rest.length (by
          rw [← hlen, List.length_append, List.length_cons]
          lia) (hlog.part hsuffix) hlast.left hlast.right hrest rfl
        have hfaults : faults ((q, b) :: (full ++ (p, b') :: rest)) =
            faults ((q, b) :: full) + faults ((p, b') :: rest) := by
          rw [← List.cons_append, faults_append]
        rw [hcard] at hhere hloads
        calc (k + 1 - h) * faults ((q, b) :: (full ++ (p, b') :: rest))
            = (k + 1 - h) * faults ((q, b) :: full) +
                (k + 1 - h) * faults ((p, b') :: rest) := by rw [hfaults, Nat.mul_add]
          _ ≤ (k + 1 - h) * k + k * (m2 + (k + 1 - h)) :=
              Nat.add_le_add (Nat.mul_le_mul_left _ hhere) hlater
          _ ≤ k * m1 + k * (m2 + (k + 1 - h)) := by
              apply Nat.add_le_add_right
              rw [Nat.mul_comm]
              exact Nat.mul_le_mul_left k (by lia)
          _ = k * (m + (k + 1 - h)) := by
              rw [hsum]
              ring

/-- A conservative policy with `k` frames against any way to serve the references with
`h` of them. -/
theorem Conservative.competitive (hlog : Conservative k log) (hhk : h ≤ k)
    (hserves : Serves h C (log.map Prod.fst) m E) :
    (k + 1 - h) * log.faults ≤ k * (m + (k + 1 - h)) := by
  cases log with
  | nil => simp
  | cons e log =>
      rw [List.map_cons] at hserves
      cases hserves with
      | @cons _ D _ _ _ m hmem hcard hrest =>
          calc (k + 1 - h) * faults (e :: log)
              ≤ k * (m + (k + 1 - h)) := hlog.faults_le_of_resident hhk hmem hcard hrest
            _ ≤ k * ((D \ C).card + m + (k + 1 - h)) := Nat.mul_le_mul_left k (by lia)

end FaultLog

end Comparison

/-!
# Logs of a policy
-/

section Policy

variable {state : Type} {step : state -> page -> Bool -> state -> Prop}

inductive Logs (step : state -> page -> Bool -> state -> Prop) :
    state -> FaultLog page -> state -> Prop where
  | nil {s : state} : Logs step s [] s
  | cons {s t u : state} {p : page} {fault : Bool} {log : FaultLog page}
      (hstep : step s p fault t) (hrest : Logs step t log u) :
      Logs step s ((p, fault) :: log) u

namespace Logs

variable {s u : state} {log : FaultLog page}

theorem append_inv {before after : FaultLog page} (hrun : Logs step s (before ++ after) u) :
    exists t, Logs step s before t ∧ Logs step t after u := by
  induction before generalizing s with
  | nil => exact ⟨s, Logs.nil, hrun⟩
  | cons e before ih =>
      rw [List.cons_append] at hrun
      cases hrun with
      | cons hstep hrest =>
          rcases ih hrest with ⟨t, hbefore, hafter⟩
          exact ⟨t, Logs.cons hstep hbefore, hafter⟩

theorem concat_inv {before : FaultLog page} {p : page} {fault : Bool}
    (hrun : Logs step s (before ++ [(p, fault)]) u) :
    exists t, Logs step s before t ∧ step t p fault u := by
  rcases hrun.append_inv with ⟨t, hbefore, hlast⟩
  cases hlast with
  | cons hstep hrest =>
      cases hrest with
      | nil => exact ⟨t, hbefore, hstep⟩

theorem invariant {inv : state -> Prop} {valid : page -> Prop}
    (hinv : forall s p fault t, inv s -> valid p -> step s p fault t -> inv t)
    (hrun : Logs step s log u) (hs : inv s) (hvalid : forall e, e ∈ log -> valid e.fst) :
    inv u := by
  induction hrun with
  | nil => exact hs
  | cons hstep _ ih =>
      exact ih (hinv _ _ _ _ hs (hvalid _ List.mem_cons_self) hstep)
        fun e he => hvalid e (List.mem_cons_of_mem _ he)

/-- A policy is conservative if its runs from the states of an invariant are short of
faults. -/
theorem conservative [DecidableEq page] {k : Nat} (inv : state -> Prop) (valid : page -> Prop)
    (hinv : forall s p fault t, inv s -> valid p -> step s p fault t -> inv t)
    (hfew : forall s mid t, inv s -> (forall e, e ∈ mid -> valid e.fst) -> Logs step s mid t ->
      mid.pages.card ≤ k -> mid.faults ≤ mid.pages.card)
    (hrun : Logs step s log u) (hs : inv s) (hvalid : forall e, e ∈ log -> valid e.fst) :
    log.Conservative k := by
  rintro mid ⟨before, after, hsplit⟩ hcard
  rw [← hsplit] at hrun hvalid
  rcases hrun.append_inv with ⟨t, hupto, _⟩
  rcases hupto.append_inv with ⟨s', hbefore, hmid⟩
  have hs' := hbefore.invariant hinv hs fun e he =>
    hvalid e (List.mem_append_left _ (List.mem_append_left _ he))
  exact hfew s' mid t hs'
    (fun e he => hvalid e (List.mem_append_left _ (List.mem_append_right _ he))) hmid hcard

end Logs

end Policy

end Foundation
end OsLabs
