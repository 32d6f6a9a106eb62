import OsLabs.Console.Keyboard
import OsLabs.Console.Readline

/-!
# Typing

The drivers of the keyboard and of the serial port, the input buffer and the reader of lines
together.  An event has the bytes of the keyboard controller and of the port here, in any
portions: a portion may end between an escape byte and the code behind it.
-/

namespace OsLabs
namespace Console

open Foundation
open Printfmt

structure Machine where
  shift : BitVec 32
  reader : Reader

def serialProcData (c : BitVec 8) : BitVec 8 := if c = 127 then 8 else c

def Event.scans : Event -> List (BitVec 8)
  | Event.kbdInit scans | Event.trap _ _ scans | Event.getc _ scans => scans
  | _ => []

def Event.port : Event -> List (BitVec 8)
  | Event.trap _ port _ | Event.getc port _ => port
  | _ => []

/-- The event with the characters that the drivers make of the bytes, those of the keyboard
being `cs`. -/
def Event.withChars (e : Event) (cs : List (BitVec 8)) : Event :=
  match e with
  | Event.kbdInit _ => Event.kbdInit cs
  | Event.trap irq port _ => Event.trap irq (port.map serialProcData) cs
  | Event.getc port _ => Event.getc (port.map serialProcData) cs
  | e => e

/-- A reboot ends the run. -/
def Machine.exec (serialExists : Bool) (m : Machine) (e : Event) : Option Machine :=
  let (shift, cs, reboots) := kbdDrain m.shift e.scans
  if reboots = 0 then
    (m.reader.exec serialExists (e.withChars cs)).map fun reader => ⟨shift, reader⟩
  else none

def Machine.Allowed (serialExists : Bool) (m : Machine) (e : Event) : Prop :=
  Console.Allowed serialExists m.reader (e.withChars (kbdDrain m.shift e.scans).2.1)

def translated (shift : BitVec 32) : List Event -> List Event
  | [] => []
  | e :: events =>
      e.withChars (kbdDrain shift e.scans).2.1 ::
        translated (kbdDrain shift e.scans).1 events

/-!
# The reader sees characters
-/

section Translation

variable {serialExists : Bool} {shift : BitVec 32} {r : Reader} {events : List Event}

theorem kbdDrain_append (shift : BitVec 32) (scans scans' : List (BitVec 8)) :
    kbdDrain shift (scans ++ scans') =
      ((kbdDrain (kbdDrain shift scans).1 scans').1,
        (kbdDrain shift scans).2.1 ++ (kbdDrain (kbdDrain shift scans).1 scans').2.1,
        (kbdDrain shift scans).2.2 + (kbdDrain (kbdDrain shift scans).1 scans').2.2) := by
  induction scans generalizing shift with
  | nil =>
      change kbdDrain shift scans' = (_, _, 0 + _)
      rw [Nat.zero_add]
      rfl
  | cons data scans ih =>
      rw [List.cons_append, kbdDrain_cons, kbdDrain_cons, ih, Nat.add_assoc]
      rfl

theorem exec_of_no_reboot {m : Machine} {e : Event}
    (hno : (kbdDrain m.shift e.scans).2.2 = 0) :
    m.exec serialExists e =
      (m.reader.exec serialExists (e.withChars (kbdDrain m.shift e.scans).2.1)).map
        fun reader => ⟨(kbdDrain m.shift e.scans).1, reader⟩ := if_pos hno

theorem execMeets_translated (hno : (kbdDrain shift (events.flatMap Event.scans)).2.2 = 0)
    (hmeets : System.ExecMeets (Machine.exec serialExists) (Machine.Allowed serialExists)
      ⟨shift, r⟩ events) :
    System.ExecMeets (Reader.exec serialExists) (Allowed serialExists) r
      (translated shift events) := by
  induction events generalizing shift r with
  | nil => exact trivial
  | cons e events ih =>
      rw [List.flatMap_cons, kbdDrain_append] at hno
      rcases Nat.add_eq_zero_iff.mp hno with ⟨hfirst, hrest⟩
      refine ⟨hmeets.left, ?_⟩
      intro r' hr'
      apply ih hrest (hmeets.right ⟨_, r'⟩ ?_)
      rw [exec_of_no_reboot hfirst]
      exact congrArg (Option.map _) hr'

/-- A run of the machine is a run of the reader. -/
theorem execAll_translated (hno : (kbdDrain shift (events.flatMap Event.scans)).2.2 = 0)
    {r' : Reader}
    (hrun : System.execAll (Reader.exec serialExists) r (translated shift events) = some r') :
    System.execAll (Machine.exec serialExists) ⟨shift, r⟩ events =
      some ⟨(kbdDrain shift (events.flatMap Event.scans)).1, r'⟩ := by
  induction events generalizing shift r with
  | nil =>
      cases hrun
      rfl
  | cons e events ih =>
      rw [List.flatMap_cons, kbdDrain_append] at hno ⊢
      rcases Nat.add_eq_zero_iff.mp hno with ⟨hfirst, hrest⟩
      rcases Option.bind_eq_some_iff.mp hrun with ⟨mid, hstep, hrun'⟩
      have hexec : Machine.exec serialExists ⟨shift, r⟩ e = some ⟨(kbdDrain shift e.scans).1, mid⟩ := by
        rw [exec_of_no_reboot hfirst]
        exact congrArg (Option.map _) hstep
      simp only [System.execAll, hexec, Option.bind_some]
      exact ih hrest hrun'

theorem typed_translated (shift : BitVec 32) (events : List Event) :
    (translated shift events).flatMap Event.typed =
      nonzero (kbdDrain shift (events.flatMap Event.scans)).2.1 := by
  induction events generalizing shift with
  | nil => rfl
  | cons e events ih =>
      have htyped : (e.withChars (kbdDrain shift e.scans).2.1).typed =
          nonzero (kbdDrain shift e.scans).2.1 := by
        cases e <;> rfl
      rw [translated, List.flatMap_cons, ih, htyped, List.flatMap_cons, kbdDrain_append,
        nonzero_append]

theorem received_translated (shift : BitVec 32) (events : List Event) :
    (translated shift events).flatMap (Event.received serialExists) =
      if serialExists then nonzero ((events.flatMap Event.port).map serialProcData) else [] := by
  induction events generalizing shift with
  | nil => cases serialExists <;> rfl
  | cons e events ih =>
      have hreceived : (e.withChars (kbdDrain shift e.scans).2.1).received serialExists =
          if serialExists then nonzero (e.port.map serialProcData) else [] := by
        cases e with
        | trap irq port scans => rfl
        | getc port scans => rfl
        | _ => cases serialExists <;> rfl
      rw [translated, List.flatMap_cons, ih, hreceived, List.flatMap_cons, List.map_append,
        nonzero_append]
      cases serialExists <;> rfl

theorem countP_translated (shift : BitVec 32) (events : List Event) :
    (translated shift events).countP Event.isTrap = events.countP Event.isTrap := by
  induction events generalizing shift with
  | nil => rfl
  | cons e events ih =>
      have htrap : (e.withChars (kbdDrain shift e.scans).2.1).isTrap = e.isTrap := by
        cases e <;> rfl
      rw [translated, List.countP_cons, List.countP_cons, ih, htrap]

end Translation

/-!
# From the keys to the lines
-/

def Machine.start (line : Line) : Machine := ⟨0, ⟨Cons.zero, line, []⟩⟩

/-- In whatever portions the bytes of the keyboard and of the serial port arrive, and however
interrupts and polls are mixed: what is fed are the characters of the keys in their order and
those of the port in theirs, and the lines that `readline` returns are the lines of the text
that the handlers have left. -/
theorem typed_keys_are_read (serialExists : Bool) (keys : List KeyEvent)
    (hreal : forall e, e ∈ keys -> e.Real) (hno : reboots [] keys = 0) (line : Line)
    (hidle : line.reading = false) (hpos : line.devices.crt.pos < CRT_SIZE)
    (events : List Event) (hkeys : events.flatMap Event.scans = keys.flatMap scanCodes)
    (hmeets : System.ExecMeets (Machine.exec serialExists) (Machine.Allowed serialExists)
      (Machine.start line) events) :
    exists m taken, System.execAll (Machine.exec serialExists) (Machine.start line) events = some m ∧
      ReaderHolds m.reader
        ((Dialogue.start [] line.devices.crt.sheet).run serialExists (translated 0 events)) ∧
      Reads ((translated 0 events).flatMap fun e => e.received serialExists ++ e.typed) taken
        (events.countP Event.isTrap)
        ((Dialogue.start [] line.devices.crt.sheet).run serialExists (translated 0 events)) ∧
      (translated 0 events).flatMap Event.typed = nonzero (typedChars [] keys) ∧
      (translated 0 events).flatMap (Event.received serialExists) =
        if serialExists then nonzero ((events.flatMap Event.port).map serialProcData) else [] := by
  have hread := keyEvents_scanCodes hreal []
  rw [List.append_nil, ← hkeys] at hread
  have hevents : (keyEvents false (events.flatMap Event.scans)).1 = keys := by
    rw [hread]
    exact List.append_nil keys
  have hdrained := Remembers.start.drain (events.flatMap Event.scans)
  rw [hevents] at hdrained
  have hnone : (kbdDrain 0 (events.flatMap Event.scans)).2.2 = 0 := hdrained.reboots.trans hno
  have hholds : ReaderHolds ⟨Cons.zero, line, []⟩ (Dialogue.start [] line.devices.crt.sheet) :=
    ReaderHolds.start start_inv.holds hidle hpos
  rcases hholds.run (execMeets_translated hnone hmeets) with ⟨r, hrun, hr⟩
  have hreads : Reads [] [] 0 (Dialogue.start [] line.devices.crt.sheet) :=
    ⟨rfl, rfl, Nat.le_refl 0⟩
  rcases hreads.run serialExists (translated 0 events) with ⟨taken, htaken⟩
  rw [Nat.zero_add, countP_translated] at htaken
  refine ⟨_, taken, execAll_translated hnone hrun, hr, htaken, ?_, received_translated 0 events⟩
  rw [typed_translated, hdrained.chars]

def capitalK : List KeyEvent :=
  [KeyEvent.press 0x2A, KeyEvent.press 0x25, KeyEvent.release 0x25, KeyEvent.release 0x2A,
    KeyEvent.press 0x9C, KeyEvent.release 0x9C]

def typedEvents : List Event :=
  [Event.trap Irq.com1 [0x61, 0x62] [0x2A], Event.readline (some monitorPrompt),
    Event.getc [] [0x25, 0xA5], Event.getc [] [0xAA, 0xE0], Event.getc [] [0x1C, 0xE0],
    Event.trap Irq.kbd [] [0x9C]]

instance (serialExists : Bool) (m : Machine) (e : Event) :
    Decidable (m.Allowed serialExists e) :=
  inferInstanceAs (Decidable (Console.Allowed _ _ _))

theorem typedEvents_meet :
    System.ExecMeets (Machine.exec true) (Machine.Allowed true) (Machine.start idleLine)
      typedEvents := by
  decide +kernel

theorem typed_keys_are_read_capital :
    (forall e, e ∈ capitalK -> e.Real) ∧ reboots [] capitalK = 0 ∧
    typedEvents.flatMap Event.scans = capitalK.flatMap scanCodes ∧
    exists m taken,
      System.execAll (Machine.exec true) (Machine.start idleLine) typedEvents = some m ∧
      m.reader.lines = [[98, 75]] ∧
      ReaderHolds m.reader
        ((Dialogue.start [] idleLine.devices.crt.sheet).run true (translated 0 typedEvents)) ∧
      Reads [97, 98, 75, 10] taken 2
        ((Dialogue.start [] idleLine.devices.crt.sheet).run true (translated 0 typedEvents)) := by
  have hkeys : typedEvents.flatMap Event.scans = capitalK.flatMap scanCodes := by decide
  rcases typed_keys_are_read true capitalK (by decide) (by decide) idleLine rfl (by decide)
    typedEvents hkeys typedEvents_meet with ⟨m, taken, hrun, hm, hreads, _⟩
  have hlines : (System.execAll (Machine.exec true) (Machine.start idleLine) typedEvents).map
      (fun m => m.reader.lines) = some [[98, 75]] := by decide +kernel
  rw [hrun] at hlines
  have hfed : ((translated 0 typedEvents).flatMap fun e => e.received true ++ e.typed) =
      [97, 98, 75, 10] := by decide +kernel
  rw [hfed] at hreads
  exact ⟨by decide, by decide, hkeys, m, taken, hrun, Option.some.inj hlines, hm, hreads⟩

end Console
end OsLabs
