import Mathlib.Logic.Basic

/-!
# Labelled transition systems

States, actions and a step relation, with the states a run can reach.  A
property that holds initially and survives every step holds in every reachable
state; this is the only induction over runs, and the developments that follow
use it by name.
-/

namespace OsLabs
namespace Foundation

structure System (state action : Type) where
  init : state -> Prop
  step : state -> action -> state -> Prop

namespace System

variable {state action : Type}

inductive Reachable (S : System state action) : state -> Prop where
  | init {s : state} : S.init s -> Reachable S s
  | step {s t : state} {a : action} :
      Reachable S s -> S.step s a t -> Reachable S t

def execAll (f : state -> action -> Option state) : state -> List action -> Option state
  | s, [] => some s
  | s, a :: as => (f s a).bind fun t => execAll f t as

theorem execAll_append (f : state -> action -> Option state) (s : state)
    (as bs : List action) :
    execAll f s (as ++ bs) = (execAll f s as).bind fun t => execAll f t bs := by
  induction as generalizing s with
  | nil => rfl
  | cons a as ih =>
      change ((f s a).bind fun t => execAll f t (as ++ bs)) = _
      simp only [ih, execAll, Option.bind_assoc]

theorem Reachable.of_execAll {S : System state action} {f : state -> action -> Option state}
    {as : List action} (hf : forall s a t, a ∈ as -> f s a = some t -> S.step s a t)
    {s t : state} (hs : Reachable S s) (hrun : execAll f s as = some t) : Reachable S t := by
  induction as generalizing s with
  | nil =>
      cases hrun
      exact hs
  | cons a as ih =>
      rcases Option.bind_eq_some_iff.mp hrun with ⟨u, hstep, hrest⟩
      have hu := Reachable.step hs (hf s a u List.mem_cons_self hstep)
      exact ih (fun s b t hb => hf s b t (List.mem_cons_of_mem a hb)) hu hrest

/-- An inductive invariant holds in every reachable state. -/
theorem Reachable.invariant {S : System state action} {P : state -> Prop}
    (hinit : forall s, S.init s -> P s)
    (hstep : forall s a t, P s -> S.step s a t -> P t)
    {s : state} (hs : Reachable S s) : P s := by
  induction hs with
  | init h => exact hinit _ h
  | step _ hst ih => exact hstep _ _ _ ih hst

/-- An invariant whose steps may use what is known of every reachable state. -/
theorem Reachable.invariant_with {S : System state action} {J P : state -> Prop}
    (hknown : forall s, Reachable S s -> J s) (hinit : forall s, S.init s -> P s)
    (hstep : forall s a t, J s -> P s -> S.step s a t -> P t)
    {s : state} (hs : Reachable S s) : P s := by
  induction hs with
  | init h => exact hinit _ h
  | step hreach hst ih => exact hstep _ _ _ (hknown _ hreach) ih hst

/-- The same system with only the steps that meet a condition. -/
def restrict (S : System state action) (allowed : state -> action -> Prop) :
    System state action where
  init := S.init
  step s a t := allowed s a ∧ S.step s a t

/-- Every step of a run of a step function meets a condition. -/
def ExecMeets (f : state -> action -> Option state) (allowed : state -> action -> Prop) :
    state -> List action -> Prop
  | _, [] => True
  | s, a :: as => allowed s a ∧ forall t, f s a = some t -> ExecMeets f allowed t as

instance decidableExecMeets {f : state -> action -> Option state}
    {allowed : state -> action -> Prop} [forall s a, Decidable (allowed s a)] :
    forall (s : state) (as : List action), Decidable (ExecMeets f allowed s as)
  | _, [] => isTrue trivial
  | s, a :: as =>
      match hstep : f s a with
      | none =>
          decidable_of_iff (allowed s a)
            ⟨fun ha => ⟨ha, fun t ht => by rw [hstep] at ht; cases ht⟩, And.left⟩
      | some t =>
          have : Decidable (ExecMeets f allowed t as) := decidableExecMeets t as
          decidable_of_iff (allowed s a ∧ ExecMeets f allowed t as)
            ⟨fun h => ⟨h.left, fun u hu => Option.some.inj (hstep.symm.trans hu) ▸ h.right⟩,
              fun h => ⟨h.left, h.right t hstep⟩⟩

theorem Reachable.restrict_of_execAll {S : System state action}
    {f : state -> action -> Option state} {allowed : state -> action -> Prop}
    (hf : forall s a t, f s a = some t -> S.step s a t) {as : List action} {s t : state}
    (hs : Reachable (S.restrict allowed) s) (hmeets : ExecMeets f allowed s as)
    (hrun : execAll f s as = some t) : Reachable (S.restrict allowed) t := by
  induction as generalizing s with
  | nil =>
      cases hrun
      exact hs
  | cons a as ih =>
      rcases Option.bind_eq_some_iff.mp hrun with ⟨u, hstep, hrest⟩
      have hu := Reachable.step hs ⟨hmeets.left, hf s a u hstep⟩
      exact ih hu (hmeets.right u hstep) hrest

theorem Reachable.of_restrict {S : System state action} {allowed : state -> action -> Prop}
    {s : state} (hs : Reachable (S.restrict allowed) s) : Reachable S s := by
  induction hs with
  | init h => exact Reachable.init h
  | step _ hst ih => exact Reachable.step ih hst.right

/-- The same steps from one given state on. -/
def startingAt (S : System state action) (s : state) : System state action where
  init t := t = s
  step := S.step

theorem forall_prefix_nil {f : state -> action -> Option state} {P : state -> Prop} {s : state} :
    (forall bs u, bs <+: [] -> execAll f s bs = some u -> P u) <-> P s := by
  constructor
  · intro hall
    exact hall [] s List.nil_prefix rfl
  · intro hP bs u hbs hrun
    rw [List.prefix_nil.mp hbs] at hrun
    cases hrun
    exact hP

theorem forall_prefix_cons {f : state -> action -> Option state} {P : state -> Prop}
    {s : state} {a : action} {as : List action} :
    (forall bs u, bs <+: a :: as -> execAll f s bs = some u -> P u) <->
      P s ∧ forall t, f s a = some t ->
        forall bs u, bs <+: as -> execAll f t bs = some u -> P u := by
  constructor
  · intro hall
    refine ⟨hall [] s List.nil_prefix rfl, ?_⟩
    intro t hstep bs u hbs hrun
    apply hall (a :: bs) u (List.cons_prefix_cons.mpr ⟨rfl, hbs⟩)
    simp only [execAll, hstep, Option.bind_some]
    exact hrun
  · rintro ⟨hP, hrest⟩ bs u hbs hrun
    cases bs with
    | nil =>
        cases hrun
        exact hP
    | cons b bs =>
        rcases List.cons_prefix_cons.mp hbs with ⟨hba, hbs'⟩
        subst hba
        rcases Option.bind_eq_some_iff.mp hrun with ⟨t, hstep, hrun'⟩
        exact hrest t hstep bs u hbs' hrun'

/-- A property holds along a run exactly when every step meets a condition: steps that
meet it keep the property, and a step that does not meet it breaks it at once. -/
theorem execMeets_iff {f : state -> action -> Option state} {allowed : state -> action -> Prop}
    {J P : state -> Prop} (hJ : forall s a t, J s -> f s a = some t -> J t)
    (hkeep : forall s a t, J s -> P s -> allowed s a -> f s a = some t -> P t)
    (hbreak : forall s a, J s -> P s -> ¬ allowed s a -> exists t, f s a = some t ∧ ¬ P t)
    {as : List action} {s : state} (hs : J s) (hP : P s) :
    (forall bs u, bs <+: as -> execAll f s bs = some u -> P u) <-> ExecMeets f allowed s as := by
  induction as generalizing s with
  | nil =>
      rw [forall_prefix_nil]
      exact ⟨fun _ => trivial, fun _ => hP⟩
  | cons a as ih =>
      rw [forall_prefix_cons]
      constructor
      · rintro ⟨_, hrest⟩
        have hallowed : allowed s a := by
          apply Classical.byContradiction
          intro hno
          rcases hbreak s a hs hP hno with ⟨t, hstep, hbad⟩
          exact hbad (hrest t hstep [] t List.nil_prefix rfl)
        refine ⟨hallowed, ?_⟩
        intro t hstep
        exact (ih (hJ s a t hs hstep) (hkeep s a t hs hP hallowed hstep)).mp (hrest t hstep)
      · rintro ⟨hallowed, hrest⟩
        refine ⟨hP, ?_⟩
        intro t hstep
        exact (ih (hJ s a t hs hstep) (hkeep s a t hs hP hallowed hstep)).mpr (hrest t hstep)

/-- A property holds along a run exactly when every step meets a condition: from a state
with the invariant, a step of the domain that meets the condition returns and keeps the
invariant, which has the property, and a step that does not meet it breaks the property. -/
theorem execMeets_iff_invariant {f : state -> action -> Option state}
    {domain allowed : state -> action -> Prop} {J P : state -> Prop} (hJP : forall s, J s -> P s)
    (hkeep : forall s a, J s -> domain s a -> allowed s a -> exists t, f s a = some t ∧ J t)
    (hbreak : forall s a, J s -> domain s a -> ¬ allowed s a ->
      exists t, f s a = some t ∧ ¬ P t)
    {as : List action} {s : state} (hs : J s) (hdomain : ExecMeets f domain s as) :
    (forall bs, bs <+: as -> exists u, execAll f s bs = some u ∧ P u) <->
      ExecMeets f allowed s as := by
  induction as generalizing s with
  | nil =>
      constructor
      · intro _
        exact trivial
      · intro _ bs hbs
        rw [List.prefix_nil.mp hbs]
        exact ⟨s, rfl, hJP s hs⟩
  | cons a as ih =>
      constructor
      · intro hall
        have hallowed : allowed s a := by
          apply Classical.byContradiction
          intro hno
          rcases hbreak s a hs hdomain.left hno with ⟨t, hstep, hbad⟩
          rcases hall [a] (List.prefix_append [a] as) with ⟨u, hrun, hu⟩
          simp only [execAll, hstep, Option.bind_some] at hrun
          cases hrun
          exact hbad hu
        refine ⟨hallowed, ?_⟩
        intro t hstep
        rcases hkeep s a hs hdomain.left hallowed with ⟨t', hstep', ht⟩
        rw [hstep] at hstep'
        cases hstep'
        apply (ih ht (hdomain.right t hstep)).mp
        intro bs hbs
        rcases hall (a :: bs) (List.cons_prefix_cons.mpr ⟨rfl, hbs⟩) with ⟨u, hrun, hu⟩
        simp only [execAll, hstep, Option.bind_some] at hrun
        exact ⟨u, hrun, hu⟩
      · rintro ⟨hallowed, hrest⟩ bs hbs
        cases bs with
        | nil => exact ⟨s, rfl, hJP s hs⟩
        | cons b bs =>
            rcases List.cons_prefix_cons.mp hbs with ⟨hba, hbs'⟩
            subst hba
            rcases hkeep s b hs hdomain.left hallowed with ⟨t, hstep, ht⟩
            rcases (ih ht (hdomain.right t hstep)).mpr (hrest t hstep) bs hbs' with
              ⟨u, hrun, hu⟩
            refine ⟨u, ?_, hu⟩
            simp only [execAll, hstep, Option.bind_some]
            exact hrun

/-- Two conditions on the steps of a run agree when they agree in every state the run can
reach from steps of a domain. -/
theorem execMeets_congr {f : state -> action -> Option state}
    {domain allowed allowed' : state -> action -> Prop} {J : state -> Prop}
    (hJ : forall s a t, J s -> domain s a -> f s a = some t -> J t)
    (hiff : forall s a, J s -> domain s a -> (allowed s a <-> allowed' s a))
    {as : List action} {s : state} (hs : J s) (hdomain : ExecMeets f domain s as) :
    ExecMeets f allowed s as <-> ExecMeets f allowed' s as := by
  induction as generalizing s with
  | nil => exact Iff.rfl
  | cons a as ih =>
      have hrest : forall t, f s a = some t ->
          (ExecMeets f allowed t as <-> ExecMeets f allowed' t as) :=
        fun t hstep => ih (hJ s a t hs hdomain.left hstep) (hdomain.right t hstep)
      constructor
      · intro hmeets
        refine ⟨(hiff s a hs hdomain.left).mp hmeets.left, ?_⟩
        intro t hstep
        exact (hrest t hstep).mp (hmeets.right t hstep)
      · intro hmeets
        refine ⟨(hiff s a hs hdomain.left).mpr hmeets.left, ?_⟩
        intro t hstep
        exact (hrest t hstep).mpr (hmeets.right t hstep)

theorem execMeets_append {f : state -> action -> Option state}
    {allowed : state -> action -> Prop} {as bs : List action} {s t : state}
    (hmeets : ExecMeets f allowed s (as ++ bs)) (hrun : execAll f s as = some t) :
    ExecMeets f allowed t bs := by
  induction as generalizing s with
  | nil =>
      cases hrun
      exact hmeets
  | cons a as ih =>
      rcases Option.bind_eq_some_iff.mp hrun with ⟨u, hstep, hrest⟩
      exact ih (hmeets.right u hstep) hrest

/-- An activity ends after a bounded number of its own actions: each of them lowers
its rank, and no other action raises it. -/
theorem execAll_passes {f : state -> action -> Option state} {J done : state -> Prop}
    {own : action -> Bool} {rank : state -> Nat}
    (hstep : forall s a t, J s -> f s a = some t ->
      done t ∨ (J t ∧ rank t + (if own a then 1 else 0) ≤ rank s))
    {as : List action} {s t : state} (hs : J s) (hrun : execAll f s as = some t)
    (hlong : rank s < as.countP own) :
    exists bs u, bs <+: as ∧ execAll f s bs = some u ∧ done u := by
  induction as generalizing s with
  | nil => exact absurd hlong (Nat.not_lt_zero _)
  | cons a as ih =>
      rcases Option.bind_eq_some_iff.mp hrun with ⟨u, hfirst, hrest⟩
      cases hstep s a u hs hfirst with
      | inl hdone =>
          refine ⟨[a], u, List.prefix_append [a] as, ?_, hdone⟩
          simp only [execAll, hfirst, Option.bind_some]
      | inr hbusy =>
          rcases hbusy with ⟨hu, hrank⟩
          rw [List.countP_cons] at hlong
          rcases ih hu hrest (by lia) with ⟨bs, v, hbs, hv, hdone⟩
          refine ⟨a :: bs, v, List.cons_prefix_cons.mpr ⟨rfl, hbs⟩, ?_, hdone⟩
          simp only [execAll, hfirst, Option.bind_some]
          exact hv

end System
end Foundation
end OsLabs
