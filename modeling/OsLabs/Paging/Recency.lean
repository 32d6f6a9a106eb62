import OsLabs.Foundation.MoveToBack

/-!
# Least recently used, as an order

What both programs are meant to do: the frames stand in the order of their
last use, a hit moves a frame to the back, and a fault takes the first one.
Frames that hold no page yet have the page number `-1`; they have never been
used, so they stand in front, in their initial order.
-/

namespace OsLabs
namespace Paging

open Foundation

structure Recency where
  frames : Nat -> Int
  order : List Nat

def initialRecency (n : Nat) : Recency := Recency.mk (fun _ => -1) (List.range n)

def Recency.holder (a : Recency) (page : Int) : Option Nat :=
  a.order.find? fun x => a.frames x = page

def Recency.place (a : Recency) (x : Nat) (page : Int) : Recency :=
  Recency.mk (Function.update a.frames x page) (moveToBack a.order x)

def Recency.refer (a : Recency) (page : Int) : Bool × Recency :=
  match a.holder page with
  | some x => (false, { a with order := moveToBack a.order x })
  | none =>
      match a.order with
      | [] => (true, a)
      | x :: _ => (true, a.place x page)

theorem refer_hit {a : Recency} {page : Int} {x : Nat} (h : a.holder page = some x) :
    a.refer page = (false, { a with order := moveToBack a.order x }) := by
  unfold Recency.refer
  rw [h]

theorem refer_fault {a : Recency} {page : Int} {x : Nat} {rest : List Nat}
    (h : a.holder page = none) (horder : a.order = x :: rest) :
    a.refer page = (true, a.place x page) := by
  unfold Recency.refer
  rw [h, horder]

structure UnusedFirst (frames : Nat -> Int) (unused used : List Nat) : Prop where
  ascending : unused.Pairwise (· < ·)
  unused_eq : forall x, x ∈ unused -> frames x = -1
  used_ne : forall x, x ∈ used -> frames x ≠ -1

structure Recent (n : Nat) (a : Recency) : Prop where
  perm : a.order.Perm (List.range n)
  distinct : forall x y, x ∈ a.order -> y ∈ a.order -> a.frames x = a.frames y ->
    a.frames x ≠ -1 -> x = y
  unusedFirst : exists unused used, a.order = unused ++ used ∧
    UnusedFirst a.frames unused used

variable {n : Nat} {a : Recency}

theorem Recent.nodup (h : Recent n a) : a.order.Nodup :=
  h.perm.nodup_iff.mpr List.nodup_range

theorem Recent.mem_iff (h : Recent n a) {x : Nat} : x ∈ a.order <-> x < n := by
  rw [h.perm.mem_iff, List.mem_range]

theorem initialRecency_recent (n : Nat) : Recent n (initialRecency n) where
  perm := List.Perm.refl _
  distinct := by
    intro x y _ _ _ hne
    exact absurd rfl hne
  unusedFirst := by
    refine ⟨List.range n, [], (List.append_nil _).symm, List.pairwise_lt_range, ?_, ?_⟩
    · intro x _
      rfl
    · intro x hx
      cases hx

theorem holder_some {page : Int} {x : Nat} (h : a.holder page = some x) :
    x ∈ a.order ∧ a.frames x = page := by
  refine ⟨List.mem_of_find?_eq_some h, ?_⟩
  have hx := List.find?_some h
  simpa using hx

theorem holder_none {page : Int} (h : a.holder page = none) :
    forall x, x ∈ a.order -> a.frames x ≠ page := by
  intro x hx
  have hnot := List.find?_eq_none.mp h x hx
  simpa using hnot

theorem Recent.hit (h : Recent n a) {page : Int} (hpage : page ≠ -1) {x : Nat}
    (hx : a.holder page = some x) :
    Recent n { a with order := moveToBack a.order x } := by
  rcases holder_some hx with ⟨hmem, hframe⟩
  have hperm := moveToBack_perm hmem
  refine ⟨hperm.trans h.perm, ?_, ?_⟩
  · intro y z hy hz
    exact h.distinct y z (hperm.mem_iff.mp hy) (hperm.mem_iff.mp hz)
  · rcases h.unusedFirst with ⟨unused, used, hsplit, hfirst⟩
    have hnot : x ∉ unused := by
      intro hbad
      apply hpage
      rw [← hframe]
      exact hfirst.unused_eq x hbad
    have hused : x ∈ used := by
      rw [hsplit, List.mem_append] at hmem
      exact hmem.resolve_left hnot
    refine ⟨unused, moveToBack used x, ?_, hfirst.ascending, hfirst.unused_eq, ?_⟩
    · change moveToBack a.order x = _
      rw [hsplit, moveToBack_append hnot]
    · intro y hy
      exact hfirst.used_ne y ((moveToBack_perm hused).mem_iff.mp hy)

theorem place_frames (x y : Nat) (page : Int) :
    (a.place x page).frames y = if y = x then page else a.frames y :=
  Function.update_apply a.frames x page y

theorem Recent.place_distinct (h : Recent n a) {page : Int}
    (habsent : forall y, y ∈ a.order -> a.frames y ≠ page) (x : Nat) {y z : Nat}
    (hy : y ∈ a.order) (hz : z ∈ a.order)
    (heq : (a.place x page).frames y = (a.place x page).frames z)
    (hne : (a.place x page).frames y ≠ -1) : y = z := by
  rw [place_frames] at hne
  rw [place_frames, place_frames] at heq
  by_cases hyx : y = x
  · by_cases hzx : z = x
    · rw [hyx, hzx]
    · rw [if_pos hyx, if_neg hzx] at heq
      exact absurd heq.symm (habsent z hz)
  · rw [if_neg hyx] at heq hne
    by_cases hzx : z = x
    · rw [if_pos hzx] at heq
      exact absurd heq (habsent y hy)
    · rw [if_neg hzx] at heq
      exact h.distinct y z hy hz heq hne

theorem Recent.fault (h : Recent n a) {page : Int} (hpage : page ≠ -1) {x : Nat}
    {rest : List Nat} (horder : a.order = x :: rest) (hnone : a.holder page = none) :
    Recent n (a.place x page) := by
  have hnodup := h.nodup
  have hmem : x ∈ a.order := by
    rw [horder]
    exact List.mem_cons_self
  have hperm := moveToBack_perm hmem
  have hback : (a.place x page).order = rest ++ [x] := by
    change moveToBack a.order x = _
    rw [horder, moveToBack_cons]
  have hxrest : x ∉ rest := by
    rw [horder] at hnodup
    exact (List.nodup_cons.mp hnodup).left
  have hold : forall y, y ∈ rest -> (a.place x page).frames y = a.frames y := by
    intro y hy
    rw [place_frames, if_neg]
    intro heq
    rw [heq] at hy
    exact hxrest hy
  have hnew : (a.place x page).frames x ≠ -1 := by
    rw [place_frames, if_pos rfl]
    exact hpage
  refine ⟨hperm.trans h.perm, ?_, ?_⟩
  · intro y z hy hz heq hne
    exact h.place_distinct (holder_none hnone) x (hperm.mem_iff.mp hy) (hperm.mem_iff.mp hz)
      heq hne
  · rcases h.unusedFirst with ⟨unused, used, hsplit, hfirst⟩
    rw [horder] at hsplit
    cases unused with
    | nil =>
        rw [List.nil_append] at hsplit
        refine ⟨[], rest ++ [x], hback, List.Pairwise.nil, ?_, ?_⟩
        · intro y hy
          cases hy
        · intro y hy
          rcases List.mem_append.mp hy with hyr | hyx
          · rw [hold y hyr]
            apply hfirst.used_ne
            rw [← hsplit]
            exact List.mem_cons_of_mem x hyr
          · rw [List.mem_singleton.mp hyx]
            exact hnew
    | cons u unused =>
        rw [List.cons_append] at hsplit
        cases hsplit
        refine ⟨unused, used ++ [x], ?_, ?_, ?_, ?_⟩
        · rw [hback, List.append_assoc]
        · exact (List.pairwise_cons.mp hfirst.ascending).right
        · intro y hy
          rw [hold y (List.mem_append_left _ hy)]
          exact hfirst.unused_eq y (List.mem_cons_of_mem x hy)
        · intro y hy
          rcases List.mem_append.mp hy with hyr | hyx
          · rw [hold y (List.mem_append_right _ hyr)]
            exact hfirst.used_ne y hyr
          · rw [List.mem_singleton.mp hyx]
            exact hnew

theorem Recent.refer (h : Recent n a) {page : Int} (hpage : page ≠ -1) :
    Recent n (a.refer page).snd := by
  cases hholder : a.holder page with
  | some x =>
      rw [refer_hit hholder]
      exact h.hit hpage hholder
  | none =>
      cases horder : a.order with
      | nil =>
          unfold Recency.refer
          rw [hholder, horder]
          exact h
      | cons x rest =>
          rw [refer_fault hholder horder]
          exact h.fault hpage horder hholder

end Paging
end OsLabs
