import Mathlib.Data.List.GetD
import OsLabs.Foundation.CircularBuffer
import OsLabs.Foundation.Transition

/-!
# The input buffer of the console

`console.c` keeps the characters of the keyboard and of the serial port in a circular buffer.
Two equal positions mean that it is empty, so that one cell of it stays unused; and since 0
is the answer when nothing is waiting, a 0 is not stored.

A device is given by the bytes that its function returns until it returns `-1`.  Accesses
outside of the buffer are `none`.
-/

namespace OsLabs
namespace Console

open Foundation

def CONSBUFSIZE : Nat := 512

structure Cons where
  buf : Nat -> BitVec 8
  rpos : Nat
  wpos : Nat

/-- The state at boot: the buffer is static. -/
def Cons.zero : Cons := ⟨fun _ => 0, 0, 0⟩

/-- The body of the loop in `cons_intr`. -/
def storeChar (cons : Cons) (c : BitVec 8) : Option Cons :=
  if c ≠ 0 then
    if cons.wpos < CONSBUFSIZE then
      some { cons with
        buf := Function.update cons.buf cons.wpos c
        wpos := if cons.wpos + 1 = CONSBUFSIZE then 0 else cons.wpos + 1 }
    else none
  else some cons

def consIntr (cons : Cons) : List (BitVec 8) -> Option Cons
  | [] => some cons
  | c :: data => (storeChar cons c).bind fun cons => consIntr cons data

def serialIntr (serialExists : Bool) (cons : Cons) (data : List (BitVec 8)) : Option Cons :=
  if serialExists then consIntr cons data else some cons

def kbdIntr (cons : Cons) (data : List (BitVec 8)) : Option Cons := consIntr cons data

/-- The end of `cons_getc`, after the devices have been polled. -/
def grabChar (cons : Cons) : Option (Cons × BitVec 8) :=
  if cons.rpos ≠ cons.wpos then
    if cons.rpos < CONSBUFSIZE then
      some ({ cons with rpos := if cons.rpos + 1 = CONSBUFSIZE then 0 else cons.rpos + 1 },
        cons.buf cons.rpos)
    else none
  else some (cons, 0)

def consGetc (serialExists : Bool) (cons : Cons) (serial kbd : List (BitVec 8)) :
    Option (Cons × BitVec 8) := do
  let cons <- serialIntr serialExists cons serial
  let cons <- kbdIntr cons kbd
  grabChar cons

/-!
# Runs

`fed` and `got` are recorded for the proofs: the characters other than 0 that were fed, and
the results of `cons_getc`.
-/

structure Session where
  cons : Cons
  fed : List (BitVec 8)
  got : List (BitVec 8)

/-- An interrupt, or a call of `cons_getc` with what the two devices hand over to it. -/
inductive Call where
  | intr (data : List (BitVec 8))
  | getc (serial kbd : List (BitVec 8))

def nonzero (data : List (BitVec 8)) : List (BitVec 8) := data.filter fun c => c ≠ 0

def Call.feeds (serialExists : Bool) : Call -> List (BitVec 8)
  | Call.intr data => nonzero data
  | Call.getc serial kbd => (if serialExists then nonzero serial else []) ++ nonzero kbd

def Session.start : Session := ⟨Cons.zero, [], []⟩

def Session.exec (serialExists : Bool) (s : Session) (call : Call) : Option Session :=
  match call with
  | Call.intr data =>
      (consIntr s.cons data).map fun cons =>
        { s with cons := cons, fed := s.fed ++ call.feeds serialExists }
  | Call.getc serial kbd =>
      (consGetc serialExists s.cons serial kbd).map fun (cons, c) =>
        { cons := cons, fed := s.fed ++ call.feeds serialExists, got := s.got ++ [c] }

def Session.unread (s : Session) : Nat := s.fed.length - (nonzero s.got).length

def HasRoom (serialExists : Bool) (s : Session) (call : Call) : Prop :=
  s.unread + (call.feeds serialExists).length ≤ CONSBUFSIZE - 1

instance (serialExists : Bool) (s : Session) (call : Call) :
    Decidable (HasRoom serialExists s call) := inferInstanceAs (Decidable (_ ≤ _))

/-!
# The invariant
-/

/-- Of the characters in `fed`, the first `taken` ones were returned, and the others are in
the buffer. -/
structure Holds (cons : Cons) (fed : List (BitVec 8)) (taken : Nat) : Prop where
  rpos : cons.rpos = taken % CONSBUFSIZE
  wpos : cons.wpos = fed.length % CONSBUFSIZE
  taken_le : taken ≤ fed.length
  room : fed.length < taken + CONSBUFSIZE
  cells : Buffered CONSBUFSIZE cons.buf (fun k => fed.getD k 0) taken fed.length
  fed_ne : forall c, c ∈ fed -> c ≠ 0

structure SessionInv (s : Session) : Prop where
  holds : Holds s.cons s.fed (nonzero s.got).length
  got : nonzero s.got <+: s.fed

theorem nonzero_singleton {c : BitVec 8} (hc : c ≠ 0) : nonzero [c] = [c] := by
  apply List.filter_eq_self.mpr
  intro d hd
  rw [List.mem_singleton.mp hd]
  exact decide_eq_true hc

theorem nonzero_append (data data' : List (BitVec 8)) :
    nonzero (data ++ data') = nonzero data ++ nonzero data' := List.filter_append ..

theorem prefix_concat_getD {alpha : Type} {l xs : List alpha} {d : alpha} (h : l <+: xs)
    (hlt : l.length < xs.length) : l ++ [xs.getD l.length d] <+: xs := by
  rcases h with ⟨rest, hrest⟩
  cases rest with
  | nil =>
      rw [← hrest, List.append_nil] at hlt
      exact absurd hlt (Nat.lt_irrefl _)
  | cons c rest =>
      rw [← hrest, List.getD_append_right _ _ _ _ (Nat.le_refl _), Nat.sub_self]
      exact ⟨rest, by simp⟩

theorem CONSBUFSIZE_pos : 0 < CONSBUFSIZE := by decide

section Steps

variable {cons : Cons} {fed : List (BitVec 8)} {taken : Nat}

theorem Holds.rpos_lt (h : Holds cons fed taken) : cons.rpos < CONSBUFSIZE := by
  rw [h.rpos]
  exact Nat.mod_lt _ CONSBUFSIZE_pos

theorem Holds.wpos_lt (h : Holds cons fed taken) : cons.wpos < CONSBUFSIZE := by
  rw [h.wpos]
  exact Nat.mod_lt _ CONSBUFSIZE_pos

theorem Holds.pos_eq_iff (h : Holds cons fed taken) :
    cons.rpos = cons.wpos <-> taken = fed.length := by
  rw [h.rpos, h.wpos]
  exact mod_eq_mod_iff h.taken_le h.room

theorem Holds.storeChar_spec {c : BitVec 8} (h : Holds cons fed taken)
    (hroom : fed.length + (nonzero [c]).length < taken + CONSBUFSIZE) :
    exists cons', storeChar cons c = some cons' ∧ Holds cons' (fed ++ nonzero [c]) taken := by
  unfold storeChar
  by_cases hc : c ≠ 0
  · rw [nonzero_singleton hc] at hroom ⊢
    rw [List.length_singleton] at hroom
    rw [if_pos hc, if_pos h.wpos_lt]
    have hlength : (fed ++ [c]).length = fed.length + 1 := by
      rw [List.length_append, List.length_singleton]
    refine ⟨_, rfl, ?_⟩
    constructor
    · exact h.rpos
    · rw [hlength, ← wrap_succ_mod CONSBUFSIZE_pos, ← h.wpos]
    · rw [hlength]
      exact Nat.le_succ_of_le h.taken_le
    · rw [hlength]
      exact hroom
    · have hlast : (fed ++ [c]).getD fed.length 0 = c := by
        rw [List.getD_append_right _ _ _ _ (Nat.le_refl _), Nat.sub_self]
        rfl
      have hkept : Buffered CONSBUFSIZE cons.buf (fun k => (fed ++ [c]).getD k 0) taken
          fed.length := h.cells.congr fun k hk => List.getD_append _ _ _ _ hk
      have hstored := hkept.store h.room
      rw [hlast, ← h.wpos, ← hlength] at hstored
      exact hstored
    · intro d hd
      cases List.mem_append.mp hd with
      | inl hold => exact h.fed_ne d hold
      | inr hnew => exact List.mem_singleton.mp hnew ▸ hc
  · have hnone : nonzero [c] = [] := by
      rw [not_not.mp hc]
      rfl
    rw [if_neg hc, hnone, List.append_nil]
    exact ⟨cons, rfl, h⟩

theorem Holds.consIntr_spec {data : List (BitVec 8)} (h : Holds cons fed taken)
    (hroom : fed.length + (nonzero data).length < taken + CONSBUFSIZE) :
    exists cons', consIntr cons data = some cons' ∧ Holds cons' (fed ++ nonzero data) taken := by
  induction data generalizing cons fed with
  | nil =>
      refine ⟨cons, rfl, ?_⟩
      change Holds cons (fed ++ []) taken
      rw [List.append_nil]
      exact h
  | cons c data ih =>
      have hsplit : nonzero (c :: data) = nonzero [c] ++ nonzero data := nonzero_append [c] data
      rw [hsplit, List.length_append] at hroom
      rcases @Holds.storeChar_spec cons fed taken c h (by lia) with ⟨mid, hstore, hmid⟩
      have hroom' : (fed ++ nonzero [c]).length + (nonzero data).length <
          taken + CONSBUFSIZE := by
        rw [List.length_append]
        lia
      rcases ih hmid hroom' with ⟨cons', hrun, hcons'⟩
      refine ⟨cons', ?_, ?_⟩
      · simp only [consIntr, hstore, Option.bind_some]
        exact hrun
      · rw [hsplit, ← List.append_assoc]
        exact hcons'

theorem Holds.grabChar_of_lt (h : Holds cons fed taken) (hlt : taken < fed.length) :
    exists cons', grabChar cons = some (cons', fed.getD taken 0) ∧
      Holds cons' fed (taken + 1) := by
  have hne : cons.rpos ≠ cons.wpos := fun heq => hlt.ne (h.pos_eq_iff.mp heq)
  have hread : cons.buf cons.rpos = fed.getD taken 0 := by
    rw [h.rpos]
    exact h.cells taken (Nat.le_refl _) hlt
  have hroom := h.room
  unfold grabChar
  rw [if_pos hne, if_pos h.rpos_lt, hread]
  refine ⟨_, rfl, ?_⟩
  constructor
  · rw [← wrap_succ_mod CONSBUFSIZE_pos, ← h.rpos]
  · exact h.wpos
  · exact hlt
  · lia
  · exact h.cells.mono (Nat.le_succ taken) (Nat.le_refl _)
  · exact h.fed_ne

theorem Holds.grabChar_of_eq (h : Holds cons fed taken) (heq : taken = fed.length) :
    grabChar cons = some (cons, 0) := by
  unfold grabChar
  rw [if_neg (not_not_intro (h.pos_eq_iff.mpr heq))]

theorem Holds.poll {serialExists : Bool} {serial kbd : List (BitVec 8)}
    (h : Holds cons fed taken)
    (hroom : fed.length + ((Call.getc serial kbd).feeds serialExists).length <
      taken + CONSBUFSIZE) :
    exists cons', consGetc serialExists cons serial kbd = grabChar cons' ∧
      Holds cons' (fed ++ (Call.getc serial kbd).feeds serialExists) taken := by
  unfold consGetc serialIntr kbdIntr
  cases serialExists with
  | false =>
      change fed.length + (nonzero kbd).length < taken + CONSBUFSIZE at hroom
      rcases h.consIntr_spec hroom with ⟨cons', hrun, hcons'⟩
      refine ⟨cons', ?_, hcons'⟩
      simp [hrun]
  | true =>
      change fed.length + (nonzero serial ++ nonzero kbd).length < taken + CONSBUFSIZE at hroom
      rw [List.length_append] at hroom
      rcases @Holds.consIntr_spec cons fed taken serial h (by lia) with ⟨mid, hserial, hmid⟩
      have hroom' : (fed ++ nonzero serial).length + (nonzero kbd).length <
          taken + CONSBUFSIZE := by
        rw [List.length_append]
        lia
      rcases hmid.consIntr_spec hroom' with ⟨cons', hkbd, hcons'⟩
      refine ⟨cons', ?_, ?_⟩
      · simp [hserial, hkbd]
      · change Holds cons' (fed ++ (nonzero serial ++ nonzero kbd)) taken
        rw [← List.append_assoc]
        exact hcons'

end Steps

/-!
# One call
-/

section Calls

variable {serialExists : Bool} {s t : Session} {call : Call}

theorem SessionInv.room (h : SessionInv s) (hroom : HasRoom serialExists s call) :
    s.fed.length + (call.feeds serialExists).length <
      (nonzero s.got).length + CONSBUFSIZE := by
  have hle := h.holds.taken_le
  have hpos := CONSBUFSIZE_pos
  unfold HasRoom Session.unread at hroom
  lia

/-- `cons_getc` answers 0 exactly when everything that was fed, also by its own polling, has
been returned. -/
theorem SessionInv.getc {serial kbd : List (BitVec 8)} (h : SessionInv s)
    (hroom : HasRoom serialExists s (Call.getc serial kbd)) :
    exists t c, s.exec serialExists (Call.getc serial kbd) = some t ∧ SessionInv t ∧
      t.got = s.got ++ [c] ∧ (c = 0 <-> (nonzero s.got).length = t.fed.length) := by
  rcases h.holds.poll (h.room hroom) with ⟨cons, hpoll, hcons⟩
  have hprefix := h.got.trans
    (List.prefix_append s.fed ((Call.getc serial kbd).feeds serialExists))
  cases Nat.eq_or_lt_of_le hcons.taken_le with
  | inl heq =>
      refine ⟨⟨cons, s.fed ++ (Call.getc serial kbd).feeds serialExists, s.got ++ [0]⟩, 0, ?_, ?_,
        rfl, ⟨fun _ => heq, fun _ => rfl⟩⟩
      · simp only [Session.exec, hpoll, hcons.grabChar_of_eq heq, Option.map_some]
      · have hgot : nonzero (s.got ++ [0]) = nonzero s.got := by
          rw [nonzero_append]
          exact List.append_nil _
        constructor
        · rw [hgot]
          exact hcons
        · rw [hgot]
          exact hprefix
  | inr hlt =>
      rcases hcons.grabChar_of_lt hlt with ⟨cons', hgrab, hcons'⟩
      have hne : (s.fed ++ (Call.getc serial kbd).feeds serialExists).getD
          (nonzero s.got).length 0 ≠ 0 := by
        rw [List.getD_eq_getElem _ 0 hlt]
        exact hcons.fed_ne _ (List.getElem_mem hlt)
      refine ⟨⟨cons', s.fed ++ (Call.getc serial kbd).feeds serialExists, s.got ++ [_]⟩, _, ?_, ?_,
        rfl, ⟨fun hzero => absurd hzero hne, fun heq => absurd heq hlt.ne⟩⟩
      · simp only [Session.exec, hpoll, hgrab, Option.map_some]
      · constructor
        · rw [nonzero_append, nonzero_singleton hne, List.length_append]
          exact hcons'
        · rw [nonzero_append, nonzero_singleton hne]
          exact prefix_concat_getD hprefix hlt

theorem SessionInv.exec (h : SessionInv s) (hroom : HasRoom serialExists s call) :
    exists t, s.exec serialExists call = some t ∧ SessionInv t := by
  cases call with
  | intr data =>
      rcases h.holds.consIntr_spec (h.room hroom) with ⟨cons, hrun, hcons⟩
      refine ⟨⟨cons, s.fed ++ nonzero data, s.got⟩, ?_, hcons,
        h.got.trans (List.prefix_append _ _)⟩
      simp only [Session.exec, hrun, Option.map_some]
      rfl
  | getc serial kbd =>
      rcases h.getc hroom with ⟨t, c, hrun, ht, _⟩
      exact ⟨t, hrun, ht⟩

theorem exec_fed (hrun : s.exec serialExists call = some t) :
    t.fed = s.fed ++ call.feeds serialExists := by
  cases call with
  | intr data =>
      rcases Option.map_eq_some_iff.mp hrun with ⟨cons, _, ht⟩
      rw [← ht]
  | getc serial kbd =>
      rcases Option.map_eq_some_iff.mp hrun with ⟨⟨cons, c⟩, _, ht⟩
      rw [← ht]

theorem execAll_fed {calls : List Call}
    (hrun : System.execAll (Session.exec serialExists) s calls = some t) :
    t.fed = s.fed ++ (calls.map fun call => call.feeds serialExists).flatten := by
  induction calls generalizing s with
  | nil =>
      cases hrun
      exact (List.append_nil _).symm
  | cons call calls ih =>
      rcases Option.bind_eq_some_iff.mp hrun with ⟨u, hstep, hrest⟩
      rw [ih hrest, exec_fed hstep, List.map_cons, List.flatten_cons, List.append_assoc]

end Calls

theorem start_inv : SessionInv Session.start := by
  constructor
  · exact ⟨rfl, rfl, Nat.le_refl 0, CONSBUFSIZE_pos, Buffered.empty _ _ _ 0, by simp [Session.start]⟩
  · exact List.prefix_refl []

/-!
# All calls
-/

/-- The positions stay within the buffer, and the results other than 0 are the characters
that were fed, in their order, as far as they have been returned. -/
structure FirstInFirstOut (serialExists : Bool) (calls : List Call) (s : Session) : Prop where
  rpos_lt : s.cons.rpos < CONSBUFSIZE
  wpos_lt : s.cons.wpos < CONSBUFSIZE
  fed : s.fed = (calls.map fun call => call.feeds serialExists).flatten
  got : nonzero s.got <+: s.fed

/-- As long as the buffer is not overrun, every interleaving of interrupts and calls of
`cons_getc` returns what was fed in the same order, and 0 when nothing is unread. -/
theorem input_buffer_fifo (serialExists : Bool) (calls : List Call)
    (hroom : System.ExecMeets (Session.exec serialExists) (HasRoom serialExists)
      Session.start calls) :
    forall bs, bs <+: calls -> exists s,
      System.execAll (Session.exec serialExists) Session.start bs = some s ∧
      FirstInFirstOut serialExists bs s ∧
      forall serial kbd, bs ++ [Call.getc serial kbd] <+: calls ->
        exists t c, s.exec serialExists (Call.getc serial kbd) = some t ∧
          t.got = s.got ++ [c] ∧ (c = 0 <-> (nonzero s.got).length = t.fed.length) := by
  have hrun := (System.execMeets_iff_invariant (fun _ hs => hs)
    (fun s call hs _ hallowed => SessionInv.exec hs hallowed)
    (fun s call _ hallowed hnot => absurd hallowed hnot) start_inv hroom).mpr hroom
  intro bs hbs
  rcases hrun bs hbs with ⟨s, hs, hinv⟩
  refine ⟨s, hs, ⟨hinv.holds.rpos_lt, hinv.holds.wpos_lt, ?_, hinv.got⟩, ?_⟩
  · exact execAll_fed hs
  · intro serial kbd hnext
    rcases hnext with ⟨rest, hrest⟩
    rw [← hrest, List.append_assoc] at hroom
    rcases hinv.getc (System.execMeets_append hroom hs).left with ⟨t, c, hstep, _, hgot, hzero⟩
    exact ⟨t, c, hstep, hgot, hzero⟩

def fourCalls : List Call :=
  [Call.intr [104, 0, 105], Call.getc [] [], Call.intr [0], Call.getc [8] [106]]

theorem input_buffer_fifo_four_calls :
    System.ExecMeets (Session.exec true) (HasRoom true) Session.start fourCalls ∧
    forall bs, bs <+: fourCalls -> exists s,
      System.execAll (Session.exec true) Session.start bs = some s ∧
      FirstInFirstOut true bs s ∧
      forall serial kbd, bs ++ [Call.getc serial kbd] <+: fourCalls ->
        exists t c, s.exec true (Call.getc serial kbd) = some t ∧
          t.got = s.got ++ [c] ∧ (c = 0 <-> (nonzero s.got).length = t.fed.length) := by
  have hroom : System.ExecMeets (Session.exec true) (HasRoom true) Session.start
      fourCalls := by
    refine ⟨by decide, ?_⟩
    rintro _ ⟨⟩
    refine ⟨by decide, ?_⟩
    rintro _ ⟨⟩
    refine ⟨by decide, ?_⟩
    rintro _ ⟨⟩
    refine ⟨by decide, ?_⟩
    rintro _ ⟨⟩
    exact trivial
  exact ⟨hroom, input_buffer_fifo true _ hroom⟩

end Console
end OsLabs
