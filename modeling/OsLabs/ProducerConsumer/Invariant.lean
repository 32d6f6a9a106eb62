import Mathlib.Data.Finset.Sum
import OsLabs.Foundation.Tokens
import OsLabs.ProducerConsumer.Steps

/-!
# The invariant of the producers and consumers

The tokens of each semaphore are conserved over all threads, one thread at most
is in its critical section, and the shared variables have the shape that this
thread expects.
-/

namespace OsLabs
namespace ProducerConsumer

open Foundation

variable {C : Params} {tid : Nat -> Int} {s t : State}

inductive Point where
  | producer (pc : ProducerPc)
  | consumer (pc : ConsumerPc)

def Point.tokens : Point -> Tokens
  | Point.producer pc => pc.tokens
  | Point.consumer pc => pc.tokens

def Point.Shape (C : Params) (b : Buffer) : Point -> Prop
  | Point.producer pc => ProducerShape C b pc
  | Point.consumer pc => ConsumerShape C b pc

def Point.Exited : Point -> Prop
  | Point.producer pc => pc = ProducerPc.exited
  | Point.consumer pc => pc = ConsumerPc.exited

def threads (C : Params) : Finset (Nat ⊕ Nat) :=
  (Finset.range C.threadPro).disjSum (Finset.range C.threadCons)

theorem inl_mem_threads {i : Nat} : Sum.inl i ∈ threads C <-> i < C.threadPro := by
  unfold threads
  rw [Finset.inl_mem_disjSum, Finset.mem_range]

theorem inr_mem_threads {i : Nat} : Sum.inr i ∈ threads C <-> i < C.threadCons := by
  unfold threads
  rw [Finset.inr_mem_disjSum, Finset.mem_range]

def State.point (s : State) : Nat ⊕ Nat -> Point
  | Sum.inl i => Point.producer (s.pro i)
  | Sum.inr i => Point.consumer (s.cons i)

def posted (C : Params) : MainPc -> Nat
  | MainPc.join _ => 0
  | MainPc.post i => i
  | MainPc.done => C.threadCons - 1

def MainInv (C : Params) (s : State) : Prop :=
  match s.main with
  | MainPc.join i => i < C.threadPro ∧ forall j, j < i -> s.pro j = ProducerPc.exited
  | MainPc.post i =>
      i < C.threadCons - 1 ∧ forall j, j < C.threadPro -> s.pro j = ProducerPc.exited
  | MainPc.done => forall j, j < C.threadPro -> s.pro j = ProducerPc.exited

structure SystemInv (C : Params) (s : State) : Prop where
  recorded : Recorded C s.shared.buf
  mutex : s.shared.semMutex + held (threads C) (fun p => p.tokens.inside) s.point = 1
  slots : s.shared.emptyslot + held (threads C) (fun p => p.tokens.slot) s.point +
    s.shared.buf.itemNum = C.bufferSize + s.shared.buf.consumeNum
  stocks : s.shared.stock + held (threads C) (fun p => p.tokens.stock) s.point +
    s.shared.buf.consumeNum = s.shared.buf.itemNum + posted C s.main
  free : 0 < s.shared.semMutex -> Settled C s.shared.buf
  shape : forall x, x ∈ threads C -> (s.point x).Shape C s.shared.buf
  exited : forall x, x ∈ threads C -> (s.point x).Exited ->
    s.shared.buf.itemNum = C.maxItemNum
  main : MainInv C s

/-!
# Single steps
-/

theorem Point.shape_of_outside {p : Point} (h : p.tokens.inside = 0) (b : Buffer) :
    p.Shape C b := by
  cases p with
  | producer pc =>
      cases pc with
      | guard | waitEmptyslot | waitMutex | exited => trivial
      | _ => cases h
  | consumer pc =>
      cases pc with
      | readConsumed | readProduced | readEndFlag | waitStock | waitMutex | exited => trivial
      | _ => cases h

theorem Point.inside_le_one (p : Point) : p.tokens.inside ≤ 1 := by
  cases p with
  | producer pc => cases pc <;> exact Nat.le_of_ble_eq_true rfl
  | consumer pc => cases pc <;> exact Nat.le_of_ble_eq_true rfl

theorem SystemInv.room (h : SystemInv C s) :
    s.shared.buf.itemNum ≤ s.shared.buf.consumeNum + C.bufferSize := by
  have hslots := h.slots
  lia

structure ThreadStep (C : Params) (s t : State) (x : Nat ⊕ Nat) (p : Point) : Prop where
  mem : x ∈ threads C
  point_eq : t.point = Function.update s.point x p
  main_eq : t.main = s.main
  running : ¬ (s.point x).Exited
  moved : Moved C (s.point x).tokens p.tokens (fun b => p.Shape C b) s.shared t.shared
  exits : p.Exited -> C.maxItemNum ≤ s.shared.buf.itemNum

theorem producer_exits {n : Int} {pc : ProducerPc} {sh sh' : Shared}
    (h : producer C n sh pc = some (ProducerPc.exited, sh')) :
    C.maxItemNum ≤ sh.buf.itemNum := by
  cases pc with
  | guard =>
      simp only [producer] at h
      split at h
      · cases h
      · rename_i hfull
        exact not_lt.mp hfull
  | waitEmptyslot | waitMutex | test | writeItemNo | writeProTid | testLast =>
      simp only [producer] at h
      split at h <;> cases h
  | _ => cases h

theorem consumer_exits {pc : ConsumerPc} {sh sh' : Shared}
    (h : consumer C sh pc = some (ConsumerPc.exited, sh')) :
    pc = ConsumerPc.readEndFlag ∧ sh.buf.endFlag ≠ 0 ∧ sh' = sh := by
  cases pc with
  | readEndFlag =>
      simp only [consumer] at h
      split at h
      · cases h
      · rename_i hflag
        cases h
        exact ⟨rfl, hflag, rfl⟩
  | readProduced | waitStock | waitMutex | testProduced | readItemNo =>
      simp only [consumer] at h
      split at h <;> cases h
  | _ => cases h

theorem point_producer (s : State) (sh : Shared) (i : Nat) (pc : ProducerPc) :
    ({ s with shared := sh, pro := Function.update s.pro i pc } : State).point =
      Function.update s.point (Sum.inl i) (Point.producer pc) := by
  funext x
  cases x with
  | inl j =>
      by_cases hj : j = i
      · subst hj
        simp [State.point]
      · simp [State.point, hj]
  | inr j => simp [State.point]

theorem point_consumer (s : State) (sh : Shared) (i : Nat) (pc : ConsumerPc) :
    ({ s with shared := sh, cons := Function.update s.cons i pc } : State).point =
      Function.update s.point (Sum.inr i) (Point.consumer pc) := by
  funext x
  cases x with
  | inl j => simp [State.point]
  | inr j =>
      by_cases hj : j = i
      · subst hj
        simp [State.point]
      · simp [State.point, hj]

theorem step_cases {a : Action} (hstep : step C tid s a = some t) :
    (exists i pc sh, a = Action.producer i ∧ i < C.threadPro ∧
      producer C (tid i) s.shared (s.pro i) = some (pc, sh) ∧
      t = { s with shared := sh, pro := Function.update s.pro i pc }) ∨
    (exists i pc sh, a = Action.consumer i ∧ i < C.threadCons ∧
      consumer C s.shared (s.cons i) = some (pc, sh) ∧
      t = { s with shared := sh, cons := Function.update s.cons i pc }) ∨
    (a = Action.main ∧ mainThread C s = some t) := by
  cases a with
  | producer i =>
      simp only [step] at hstep
      split at hstep
      · rename_i hi
        rcases Option.map_eq_some_iff.mp hstep with ⟨next, hnext, ht⟩
        exact Or.inl ⟨i, next.fst, next.snd, rfl, hi, hnext, ht.symm⟩
      · cases hstep
  | consumer i =>
      simp only [step] at hstep
      split at hstep
      · rename_i hi
        rcases Option.map_eq_some_iff.mp hstep with ⟨next, hnext, ht⟩
        exact Or.inr (Or.inl ⟨i, next.fst, next.snd, rfl, hi, hnext, ht.symm⟩)
      · cases hstep
  | main => exact Or.inr (Or.inr ⟨rfl, hstep⟩)

theorem SystemInv.producerStep (h : SystemInv C s) {i : Nat} (hi : i < C.threadPro)
    {pc : ProducerPc} {sh : Shared}
    (hnext : producer C (tid i) s.shared (s.pro i) = some (pc, sh)) :
    ThreadStep C s { s with shared := sh, pro := Function.update s.pro i pc } (Sum.inl i)
      (Point.producer pc) where
  mem := inl_mem_threads.mpr hi
  point_eq := point_producer s sh i pc
  main_eq := rfl
  running := by
    intro hexited
    change s.pro i = ProducerPc.exited at hexited
    rw [hexited] at hnext
    cases hnext
  moved := producer_moved h.recorded (h.shape (Sum.inl i) (inl_mem_threads.mpr hi)) h.free
    h.room hnext
  exits := by
    intro hexited
    change pc = ProducerPc.exited at hexited
    subst hexited
    exact producer_exits hnext

theorem SystemInv.consumerStep (h : SystemInv C s) {i : Nat} (hi : i < C.threadCons)
    {pc : ConsumerPc} {sh : Shared} (hnext : consumer C s.shared (s.cons i) = some (pc, sh)) :
    ThreadStep C s { s with shared := sh, cons := Function.update s.cons i pc } (Sum.inr i)
      (Point.consumer pc) where
  mem := inr_mem_threads.mpr hi
  point_eq := point_consumer s sh i pc
  main_eq := rfl
  running := by
    intro hexited
    change s.cons i = ConsumerPc.exited at hexited
    rw [hexited] at hnext
    cases hnext
  moved := consumer_moved h.recorded (h.shape (Sum.inr i) (inr_mem_threads.mpr hi)) h.free hnext
  exits := by
    intro hexited
    change pc = ConsumerPc.exited at hexited
    subst hexited
    have hlast := h.recorded.ended (consumer_exits hnext).right.left
    have hmade := h.recorded.made_le
    lia

/-!
# All threads together
-/

theorem SystemInv.outside_of_inside (h : SystemInv C s) {x y : Nat ⊕ Nat} (hx : x ∈ threads C)
    (hy : y ∈ threads C) (hin : (s.point x).tokens.inside = 1) (hne : y ≠ x) :
    (s.point y).tokens.inside = 0 := by
  have hmutex := h.mutex
  by_contra hpos
  exact hne (eq_of_held_le_one (w := fun p : Point => p.tokens.inside) (q := s.point) (by lia)
    hy hx (Nat.pos_of_ne_zero hpos) (by lia))

theorem SystemInv.shape_step (h : SystemInv C s) {x : Nat ⊕ Nat} {p : Point}
    (hstep : ThreadStep C s t x p) {y : Nat ⊕ Nat} (hy : y ∈ threads C) :
    (t.point y).Shape C t.shared.buf := by
  rw [hstep.point_eq, Function.update_apply]
  by_cases hyx : y = x
  · rw [if_pos hyx]
    exact hstep.moved.shape
  · rw [if_neg hyx]
    by_cases hin : (s.point x).tokens.inside = 0
    · rw [hstep.moved.outside hin]
      exact h.shape y hy
    · have hone : (s.point x).tokens.inside = 1 := by
        have hle := (s.point x).inside_le_one
        lia
      exact Point.shape_of_outside (h.outside_of_inside hstep.mem hy hone hyx) _

theorem SystemInv.free_step (h : SystemInv C s) {x : Nat ⊕ Nat} {p : Point}
    (hstep : ThreadStep C s t x p) (hfree : 0 < t.shared.semMutex) :
    Settled C t.shared.buf := by
  have hmutex := hstep.moved.mutex
  by_cases hin : (s.point x).tokens.inside = 0
  · rw [hstep.moved.outside hin]
    exact h.free (by lia)
  · have hle := (s.point x).inside_le_one
    have htotal := h.mutex
    have hheld := le_held (w := fun p : Point => p.tokens.inside) (q := s.point) hstep.mem
    exact hstep.moved.released (by lia) (by lia)

theorem ThreadStep.exited {x : Nat ⊕ Nat} {p : Point} (hstep : ThreadStep C s t x p)
    {y : Nat ⊕ Nat} (hy : (s.point y).Exited) : t.point y = s.point y := by
  rw [hstep.point_eq, Function.update_of_ne]
  intro heq
  rw [heq] at hy
  exact hstep.running hy

theorem MainInv.of_exited (h : MainInv C s) (hmain : t.main = s.main)
    (hexited : forall j, s.pro j = ProducerPc.exited -> t.pro j = ProducerPc.exited) :
    MainInv C t := by
  unfold MainInv at h ⊢
  rw [hmain]
  cases hpc : s.main with
  | join i =>
      rw [hpc] at h
      exact ⟨h.left, fun j hj => hexited j (h.right j hj)⟩
  | post i =>
      rw [hpc] at h
      exact ⟨h.left, fun j hj => hexited j (h.right j hj)⟩
  | done =>
      rw [hpc] at h
      exact fun j hj => hexited j (h j hj)

theorem SystemInv.thread_step (h : SystemInv C s) {x : Nat ⊕ Nat} {p : Point}
    (hstep : ThreadStep C s t x p) : SystemInv C t where
  recorded := hstep.moved.recorded
  mutex := by
    have hmoved := hstep.moved.mutex
    have hheld := held_update hstep.mem (fun p : Point => p.tokens.inside) s.point p
    have hold := h.mutex
    rw [hstep.point_eq]
    lia
  slots := by
    have hmoved := hstep.moved.slots
    have hheld := held_update hstep.mem (fun p : Point => p.tokens.slot) s.point p
    have hold := h.slots
    rw [hstep.point_eq]
    lia
  stocks := by
    have hmoved := hstep.moved.stocks
    have hheld := held_update hstep.mem (fun p : Point => p.tokens.stock) s.point p
    have hold := h.stocks
    rw [hstep.point_eq, hstep.main_eq]
    lia
  free := h.free_step hstep
  shape := fun y hy => h.shape_step hstep hy
  exited := by
    intro y hy hexited
    have hmono := hstep.moved.item_le
    have hle := hstep.moved.recorded.item_le
    rw [hstep.point_eq, Function.update_apply] at hexited
    split at hexited
    · have hfull := hstep.exits hexited
      lia
    · have hfull := h.exited y hy hexited
      lia
  main := by
    apply h.main.of_exited hstep.main_eq
    intro j hj
    have hkept := hstep.exited (y := Sum.inl j) hj
    exact (Point.producer.inj hkept).trans hj

theorem posted_postFrom {i : Nat} (hi : i ≤ C.threadCons - 1) : posted C (postFrom C i) = i := by
  unfold postFrom
  split
  · rfl
  · change C.threadCons - 1 = i
    lia

theorem posted_joinFrom (i : Nat) : posted C (joinFrom C i) = 0 := by
  unfold joinFrom
  split
  · rfl
  · exact posted_postFrom (Nat.zero_le _)

theorem mainInv_postFrom (sh : Shared) (i : Nat)
    (hall : forall j, j < C.threadPro -> s.pro j = ProducerPc.exited) :
    MainInv C { s with shared := sh, main := postFrom C i } := by
  unfold MainInv postFrom
  by_cases hi : i < C.threadCons - 1
  · simp only [if_pos hi]
    exact ⟨hi, hall⟩
  · simp only [if_neg hi]
    exact hall

theorem mainInv_joinFrom {i : Nat} (hi : i ≤ C.threadPro)
    (hall : forall j, j < i -> s.pro j = ProducerPc.exited) :
    MainInv C { s with main := joinFrom C i } := by
  unfold joinFrom
  by_cases hmore : i < C.threadPro
  · simp only [if_pos hmore]
    exact ⟨hmore, hall⟩
  · simp only [if_neg hmore]
    exact mainInv_postFrom s.shared 0 fun j hj => hall j (by lia)

theorem SystemInv.main_step (h : SystemInv C s) (hstep : mainThread C s = some t) :
    SystemInv C t := by
  have hmain := h.main
  unfold MainInv at hmain
  unfold mainThread at hstep
  cases hpc : s.main with
  | join i =>
      simp only [hpc] at hstep hmain
      split at hstep
      · rename_i hexited
        cases hstep
        have hstocks := h.stocks
        rw [hpc] at hstocks
        refine { h with stocks := ?_, main := ?_ }
        · rw [posted_joinFrom]
          exact hstocks
        · apply mainInv_joinFrom hmain.left
          intro j hj
          by_cases hji : j = i
          · rw [hji]
            exact hexited
          · exact hmain.right j (by lia)
      · cases hstep
  | post i =>
      simp only [hpc] at hstep hmain
      cases hstep
      have hstocks := h.stocks
      rw [hpc] at hstocks
      refine { h with stocks := ?_, main := mainInv_postFrom _ _ hmain.right }
      rw [posted_postFrom hmain.left]
      change s.shared.stock + held (threads C) (fun p => p.tokens.stock) s.point + _ =
        s.shared.buf.itemNum + i at hstocks
      change s.shared.stock + 1 + held (threads C) (fun p => p.tokens.stock) s.point + _ = _
      lia
  | done =>
      simp only [hpc] at hstep
      cases hstep

theorem SystemInv.step (h : SystemInv C s) {a : Action}
    (hstep : ProducerConsumer.step C tid s a = some t) : SystemInv C t := by
  rcases step_cases hstep with ⟨i, pc, sh, _, hi, hnext, ht⟩ | ⟨i, pc, sh, _, hi, hnext, ht⟩ |
    ⟨_, hmain⟩
  · subst ht
    exact h.thread_step (h.producerStep hi hnext)
  · subst ht
    exact h.thread_step (h.consumerStep hi hnext)
  · exact h.main_step hmain

theorem initial_inv (C : Params) (itemNo : Nat -> Nat) (proTid : Nat -> Int) :
    SystemInv C (initialState C itemNo proTid) := by
  have hzero : forall w : Point -> Nat, w (Point.producer ProducerPc.guard) = 0 ->
      w (Point.consumer ConsumerPc.readConsumed) = 0 ->
      held (threads C) w (initialState C itemNo proTid).point = 0 := by
    intro w hp hc
    rw [held_eq_zero_iff]
    intro x _
    cases x with
    | inl i => exact hp
    | inr i => exact hc
  have hflag : 0 = if 0 = C.maxItemNum then 1 else 0 :=
    (if_neg (Nat.ne_of_lt C.maxItemNum_pos)).symm
  constructor
  · constructor
    · rfl
    · rfl
    · exact Nat.le_refl _
    · exact Nat.le_refl _
    · exact Nat.zero_le _
    · exact Nat.le_refl _
    · exact Buffered.empty _ _ _ _
    · intro hfalse
      exact absurd rfl hfalse
    · intro _
      exact C.maxItemNum_pos
  · rw [hzero _ rfl rfl]
    rfl
  · rw [hzero _ rfl rfl]
    rfl
  · rw [hzero _ rfl rfl]
    change 0 = 0 + posted C (joinFrom C 0)
    rw [posted_joinFrom]
  · intro _
    exact ⟨rfl, rfl, (Nat.zero_mod _).symm, (Nat.zero_mod _).symm, hflag⟩
  · intro x _
    cases x with
    | inl i => trivial
    | inr i => trivial
  · intro x _ hfalse
    cases x with
    | inl i => cases hfalse
    | inr i => cases hfalse
  · exact mainInv_joinFrom (s := initialState C itemNo proTid) (Nat.zero_le _)
      fun j hj => absurd hj (Nat.not_lt_zero j)

theorem reachable_of_run {itemNo : Nat -> Nat} {proTid : Nat -> Int} {as : List Action}
    (hrun : System.execAll (step C tid) (initialState C itemNo proTid) as = some s) :
    (pcSystem C tid).Reachable s := by
  have hinit : (pcSystem C tid).Reachable (initialState C itemNo proTid) :=
    System.Reachable.init ⟨itemNo, proTid, rfl⟩
  exact hinit.of_execAll (fun _ _ _ _ h => h) hrun

theorem reachable_inv (hs : (pcSystem C tid).Reachable s) : SystemInv C s := by
  apply hs.invariant
  · intro s hinit
    rcases hinit with ⟨itemNo, proTid, hs⟩
    rw [hs]
    exact initial_inv C itemNo proTid
  · intro s a t hinv hstep
    exact hinv.step hstep

end ProducerConsumer
end OsLabs
