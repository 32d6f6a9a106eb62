import Mathlib.Algebra.BigOperators.Group.List.Basic
import Mathlib.Algebra.Order.Monoid.Defs
import Mathlib.Data.List.Perm.Basic

/-!
# Orders in which everybody can finish

A number of participants each still need an amount and already hold one.  A
participant whose need is covered by the free amount finishes and gives back
what it holds.  If what is held is never negative, a participant that can
finish now may always go first; so picking any of them, without ever going
back, finds an order if there is one.
-/

namespace OsLabs
namespace Foundation

variable {process amount : Type} [AddCommMonoid amount] [PartialOrder amount]

def Completes (need held : process -> amount) : amount -> List process -> Prop
  | _, [] => True
  | free, j :: js => need j ≤ free ∧ Completes need held (free + held j) js

/-- Some order of the participants lets all of them finish. -/
def CanComplete (need held : process -> amount) (free : amount) (waiting : List process) :
    Prop :=
  exists order, order.Perm waiting ∧ Completes need held free order

variable {need held : process -> amount} {free : amount} {waiting : List process}

theorem CanComplete.perm (h : CanComplete need held free waiting) {others : List process}
    (hperm : waiting.Perm others) : CanComplete need held free others := by
  rcases h with ⟨order, horder, hdone⟩
  exact ⟨order, horder.trans hperm, hdone⟩

theorem canComplete_nil : CanComplete need held free [] :=
  ⟨[], List.Perm.refl [], trivial⟩

theorem CanComplete.exists_fit (h : CanComplete need held free waiting)
    (hwaiting : waiting ≠ []) : exists j, j ∈ waiting ∧ need j ≤ free := by
  rcases h with ⟨order, horder, hdone⟩
  cases order with
  | nil => exact absurd horder.nil_eq.symm hwaiting
  | cons j js => exact ⟨j, horder.mem_iff.mp List.mem_cons_self, hdone.left⟩

theorem completes_append {xs ys : List process} :
    Completes need held free (xs ++ ys) <->
      Completes need held free xs ∧ Completes need held (free + (xs.map held).sum) ys := by
  induction xs generalizing free with
  | nil =>
      rw [List.map_nil, List.sum_nil, add_zero]
      exact ⟨fun h => ⟨trivial, h⟩, fun h => h.right⟩
  | cons x xs ih =>
      change (need x ≤ free ∧ Completes need held (free + held x) (xs ++ ys)) <-> _
      rw [ih, List.map_cons, List.sum_cons, add_assoc]
      exact and_assoc.symm

theorem Completes.congr {need' held' : process -> amount} {order : List process}
    (h : Completes need held free order)
    (hsame : forall j, j ∈ order -> need' j = need j ∧ held' j = held j) :
    Completes need' held' free order := by
  induction order generalizing free with
  | nil => trivial
  | cons j js ih =>
      rcases hsame j List.mem_cons_self with ⟨hneed, hheld⟩
      refine ⟨hneed.symm ▸ h.left, ?_⟩
      rw [hheld]
      exact ih h.right fun x hx => hsame x (List.mem_cons_of_mem j hx)

variable [IsOrderedAddMonoid amount]

theorem Completes.mono {more : amount} (hle : free ≤ more) {order : List process}
    (h : Completes need held free order) : Completes need held more order := by
  induction order generalizing free more with
  | nil => trivial
  | cons j js ih =>
      exact ⟨h.left.trans hle, ih (add_le_add_left hle (held j)) h.right⟩

theorem completes_of_forall_le (hheld : forall j, 0 ≤ held j) {order : List process}
    (hfit : forall j, j ∈ order -> need j ≤ free) : Completes need held free order := by
  induction order with
  | nil => trivial
  | cons j js ih =>
      have hrest := ih fun x hx => hfit x (List.mem_cons_of_mem j hx)
      exact ⟨hfit j List.mem_cons_self,
        hrest.mono (le_add_of_nonneg_right (hheld j))⟩

theorem Completes.move_front (hheld : forall j, 0 ≤ held j) {xs ys : List process} {j : process}
    (h : Completes need held free (xs ++ j :: ys)) (hj : need j ≤ free) :
    Completes need held (free + held j) (xs ++ ys) := by
  induction xs generalizing free with
  | nil => exact h.right
  | cons x xs ih =>
      have hmore : forall y, free ≤ free + held y := fun y => le_add_of_nonneg_right (hheld y)
      refine ⟨h.left.trans (hmore j), ?_⟩
      have hrest := ih h.right (hj.trans (hmore x))
      rw [add_right_comm] at hrest
      exact hrest

/-- Letting a participant finish that can finish now loses nothing. -/
theorem canComplete_cons (hheld : forall j, 0 ≤ held j) {j : process} (hj : need j ≤ free) :
    CanComplete need held free (j :: waiting) <->
      CanComplete need held (free + held j) waiting := by
  constructor
  · intro h
    rcases h with ⟨order, horder, hdone⟩
    rcases List.append_of_mem (horder.mem_iff.mpr List.mem_cons_self) with ⟨xs, ys, hsplit⟩
    subst hsplit
    refine ⟨xs ++ ys, ?_, hdone.move_front hheld hj⟩
    exact List.Perm.cons_inv (List.perm_middle.symm.trans horder)
  · intro h
    rcases h with ⟨order, horder, hdone⟩
    exact ⟨j :: order, horder.cons j, hj, hdone⟩

end Foundation
end OsLabs
