import Mathlib.Data.Set.Basic
import Mathlib.Order.WellFounded

/-!
# Fair runs

An endless run of threads with a step function: a scheduler chooses a thread, which takes its
step if it can, and chooses every thread again and again.  Something happens on every fair run
if one thread brings it about: no other thread can throw it back, and its own steps get it
closer.
-/

namespace OsLabs
namespace Foundation

/-- A run with the thread that was chosen at each time. -/
structure FairRun {state thread : Type} (f : state -> thread -> Option state)
    (threads : thread -> Prop) where
  states : Nat -> state
  turn : Nat -> thread
  turn_mem : forall n, threads (turn n)
  next : forall n, f (states n) (turn n) = some (states (n + 1)) ∨
    (f (states n) (turn n) = none ∧ states (n + 1) = states n)
  fair : forall i, threads i -> forall n, exists m, n ≤ m ∧ turn m = i

namespace FairRun

variable {state thread : Type} {f : state -> thread -> Option state} {threads : thread -> Prop}

def statesOf (f : state -> thread -> Option state) (start : state) (turn : Nat -> thread) :
    Nat -> state
  | 0 => start
  | n + 1 => (f (statesOf f start turn n) (turn n)).getD (statesOf f start turn n)

/-- The run of a scheduler whose choices do not look at the state. -/
def ofTurns (f : state -> thread -> Option state) (start : state) (turn : Nat -> thread)
    (hmem : forall n, threads (turn n))
    (hfair : forall i, threads i -> forall n, exists m, n ≤ m ∧ turn m = i) :
    FairRun f threads where
  states := statesOf f start turn
  turn := turn
  turn_mem := hmem
  next := by
    intro n
    change _ = some ((f (statesOf f start turn n) (turn n)).getD _) ∨ _ ∧
      (f (statesOf f start turn n) (turn n)).getD _ = _
    cases f (statesOf f start turn n) (turn n) with
    | none => exact Or.inr ⟨rfl, rfl⟩
    | some t => exact Or.inl rfl
  fair := hfair

variable (r : FairRun f threads)

theorem invariant {J : state -> Prop} (hstart : J (r.states 0))
    (hstep : forall s i t, threads i -> J s -> f s i = some t -> J t) (n : Nat) :
    J (r.states n) := by
  induction n with
  | zero => exact hstart
  | succ n ih =>
      rcases r.next n with hmove | ⟨_, hsame⟩
      · exact hstep _ _ _ (r.turn_mem n) ih hmove
      · rw [hsame]
        exact ih

/-- What holds until `Q` does still holds when a thread has its next turn, unless `Q` does. -/
theorem until_turn {P Q : state -> Prop}
    (hkeep : forall s i t, threads i -> P s -> f s i = some t -> Q t ∨ P t) {i : thread}
    (hi : threads i) {n : Nat} (hP : P (r.states n)) :
    exists m, n ≤ m ∧ (Q (r.states m) ∨ (P (r.states m) ∧ r.turn m = i)) := by
  rcases r.fair i hi n with ⟨k, hle, hturn⟩
  have hreach : forall d, n + d ≤ k ->
      (exists m, n ≤ m ∧ Q (r.states m)) ∨ P (r.states (n + d)) := by
    intro d
    induction d with
    | zero => exact fun _ => Or.inr hP
    | succ d ih =>
        intro hd
        rcases ih (by lia) with hdone | hhere
        · exact Or.inl hdone
        · rcases r.next (n + d) with hmove | ⟨_, hsame⟩
          · rcases hkeep _ _ _ (r.turn_mem _) hhere hmove with hQ | hnext
            · exact Or.inl ⟨n + d + 1, by lia, hQ⟩
            · exact Or.inr hnext
          · right
            rw [← Nat.add_assoc, hsame]
            exact hhere
  rcases hreach (k - n) (by lia) with ⟨m, hm, hQ⟩ | hhere
  · exact ⟨m, hm, Or.inl hQ⟩
  · rw [Nat.add_sub_cancel' hle] at hhere
    exact ⟨k, hle, Or.inr ⟨hhere, hturn⟩⟩

/-- The rule for one thread that can always step; `dist` is how far it is from `Q`. -/
theorem leads_to {P Q : state -> Prop} (dist : state -> Nat) {i : thread} (hi : threads i)
    (hable : forall s, P s -> exists t, f s i = some t)
    (hkeep : forall s j t, threads j -> P s -> f s j = some t ->
      Q t ∨ (P t ∧ dist t ≤ dist s ∧ (j = i -> dist t < dist s)))
    {n : Nat} (hP : P (r.states n)) : exists m, n ≤ m ∧ Q (r.states m) := by
  induction hd : dist (r.states n) using Nat.strong_induction_on generalizing n with
  | _ d ih =>
      have hnear : forall s j t, threads j -> (P s ∧ dist s ≤ d) -> f s j = some t ->
          Q t ∨ (P t ∧ dist t ≤ d) := by
        rintro s j t hj ⟨hs, hle⟩ hmove
        rcases hkeep s j t hj hs hmove with hQ | ⟨ht, hle', _⟩
        · exact Or.inl hQ
        · exact Or.inr ⟨ht, hle'.trans hle⟩
      rcases r.until_turn hnear hi ⟨hP, hd.le⟩ with ⟨m, hm, hQ | ⟨⟨hhere, hle⟩, hturn⟩⟩
      · exact ⟨m, hm, hQ⟩
      · rcases hable _ hhere with ⟨t, ht⟩
        rcases r.next m with hmove | ⟨hstuck, _⟩
        · rcases hkeep _ _ _ (r.turn_mem m) hhere hmove with hQ | ⟨hnext, _, hlt⟩
          · exact ⟨m + 1, by lia, hQ⟩
          · rcases ih _ (lt_of_lt_of_le (hlt hturn) hle) hnext rfl with ⟨k, hk, hQ⟩
            exact ⟨k, by lia, hQ⟩
        · rw [hturn, ht] at hstuck
          cases hstuck

/-- If the work that is left always gets less, it is done at some time. -/
theorem eventually_of_left (left : state -> Nat) {Q : state -> Prop}
    (hless : forall n, ¬ Q (r.states n) ->
      exists m, n ≤ m ∧ (Q (r.states m) ∨ left (r.states m) < left (r.states n))) (n : Nat) :
    exists m, n ≤ m ∧ Q (r.states m) := by
  induction hd : left (r.states n) using Nat.strong_induction_on generalizing n with
  | _ d ih =>
      by_cases hQ : Q (r.states n)
      · exact ⟨n, Nat.le_refl n, hQ⟩
      · rcases hless n hQ with ⟨m, hm, hdone | hlt⟩
        · exact ⟨m, hm, hdone⟩
        · rcases ih _ (hd ▸ hlt) m rfl with ⟨k, hk, hdone⟩
          exact ⟨k, by lia, hdone⟩

end FairRun

end Foundation
end OsLabs
