import OsLabs.Console.Screen
import OsLabs.Foundation.Emission
import OsLabs.Printfmt.Termination

/-!
# Output to the console

`cons_putc` in `console.c` and the printing functions of `stdio.c`.  A character goes to the
parallel port, to the screen and to the serial port; a port is given by the bytes that were
sent to it.
-/

namespace OsLabs
namespace Console

open Foundation
open Libs
open Printfmt

structure Devices where
  lpt : List (BitVec 8)
  crt : Crt
  serial : List (BitVec 8)

/-- `lpt_putc_sub` and `serial_putc_sub`, which wait for a bounded time and send the byte. -/
def putcSub (port : List (BitVec 8)) (c : BitVec 32) : List (BitVec 8) := port ++ [c.setWidth 8]

/-- On a port, a character is erased by a blank. -/
def lptPutc (port : List (BitVec 8)) (c : BitVec 32) : List (BitVec 8) :=
  if c ≠ 8 then putcSub port c else putcSub (putcSub (putcSub port 8) 32) 8

def serialPutc (port : List (BitVec 8)) (c : BitVec 32) : List (BitVec 8) :=
  if c ≠ 8 then putcSub port c else putcSub (putcSub (putcSub port 8) 32) 8

def consPutc (d : Devices) (c : BitVec 32) : Option Devices := do
  let lpt := lptPutc d.lpt c
  let crt <- cgaPutc d.crt c
  let serial := serialPutc d.serial c
  some ⟨lpt, crt, serial⟩

def cputchar (d : Devices) (c : BitVec 32) : Option Devices := consPutc d c

def cputch (c : Int) (dat : Devices × BitVec 32) : Option (Devices × BitVec 32) := do
  let d <- consPutc dat.1 (BitVec.ofInt 32 c)
  some (d, dat.2 + 1)

def vcprintf (d : Devices) (fmt : Text) (ap : List Arg) : Option (Devices × BitVec 32) := do
  let dat <- vprintfmt (fun c dat => dat.bind (cputch c)) fmt ap (some (d, 0))
  dat

def cprintf (d : Devices) (fmt : Text) (ap : List Arg) : Option (Devices × BitVec 32) :=
  vcprintf d fmt ap

/-!
# What reaches the devices
-/

def sent (c : BitVec 32) : List (BitVec 8) := if c ≠ 8 then [c.setWidth 8] else [8, 32, 8]

structure Printed (d : Devices) (out : List (BitVec 32)) (d' : Devices) : Prop where
  lpt : d'.lpt = d.lpt ++ out.flatMap sent
  crt : System.execAll cgaPutc d.crt out = some d'.crt
  serial : d'.serial = d.serial ++ out.flatMap sent

section Devices

variable {d d' : Devices} {c : BitVec 32} {out out' : List (BitVec 32)}

theorem lptPutc_eq (port : List (BitVec 8)) : lptPutc port c = port ++ sent c := by
  unfold lptPutc sent putcSub
  split
  · rfl
  · simp only [List.append_assoc]
    rfl

theorem serialPutc_eq (port : List (BitVec 8)) : serialPutc port c = port ++ sent c :=
  lptPutc_eq port

theorem Printed.nil (d : Devices) : Printed d [] d := by
  constructor
  · exact (List.append_nil _).symm
  · rfl
  · exact (List.append_nil _).symm

theorem Printed.trans {d'' : Devices} (h : Printed d out d') (h' : Printed d' out' d'') :
    Printed d (out ++ out') d'' := by
  constructor
  · rw [h'.lpt, h.lpt, List.flatMap_append, List.append_assoc]
  · rw [System.execAll_append, h.crt]
    exact h'.crt
  · rw [h'.serial, h.serial, List.flatMap_append, List.append_assoc]

theorem consPutc_spec {crt : Crt} (hcrt : cgaPutc d.crt c = some crt) :
    exists d', consPutc d c = some d' ∧ d'.crt = crt ∧ Printed d [c] d' := by
  refine ⟨⟨d.lpt ++ sent c, crt, d.serial ++ sent c⟩, ?_, rfl, ?_⟩
  · unfold consPutc
    simp only [hcrt, lptPutc_eq, serialPutc_eq, Option.bind_eq_bind, Option.bind_some]
  · constructor
    · rw [List.flatMap_singleton]
    · simp only [System.execAll, hcrt, Option.bind_some]
    · rw [List.flatMap_singleton]

theorem cputch_run {crt : Crt} {out : List Int} (cnt : BitVec 32)
    (hcrt : System.execAll cgaPutc d.crt (out.map (BitVec.ofInt 32)) = some crt) :
    exists d', emit (fun c dat => dat.bind (cputch c)) (some (d, cnt)) out =
        some (d', cnt + BitVec.ofNat 32 out.length) ∧
      d'.crt = crt ∧ Printed d (out.map (BitVec.ofInt 32)) d' := by
  induction out generalizing d cnt with
  | nil =>
      refine ⟨d, ?_, Option.some.inj hcrt, Printed.nil d⟩
      change some (d, cnt) = some (d, cnt + 0#32)
      rw [BitVec.add_zero]
  | cons c out ih =>
      rcases Option.bind_eq_some_iff.mp hcrt with ⟨next, hput, hrest⟩
      rcases consPutc_spec hput with ⟨mid, hmid, hnext, hprinted⟩
      rw [← hnext] at hrest
      rcases ih (cnt + 1) hrest with ⟨d', hrun, hcrt', hprinted'⟩
      refine ⟨d', ?_, hcrt', hprinted.trans hprinted'⟩
      have hcount : cnt + BitVec.ofNat 32 (out.length + 1) =
          cnt + 1 + BitVec.ofNat 32 out.length := by
        rw [BitVec.ofNat_add, BitVec.add_comm (BitVec.ofNat 32 out.length), ← BitVec.add_assoc]
        rfl
      rw [emit_cons, Option.bind_some, List.length_cons, hcount]
      unfold cputch
      simp only [hmid, Option.bind_eq_bind, Option.bind_some]
      exact hrun

end Devices

def printedChars (fmt : Text) (ap : List Arg) : List (BitVec 32) :=
  (formatted fmt ap).map (BitVec.ofInt 32)

theorem Shows.cprintf {d : Devices} {p : Sheet} (h : Shows d.crt p) (fmt : Text)
    (ap : List Arg) :
    exists d', cprintf d fmt ap = some (d', BitVec.ofNat 32 (printedChars fmt ap).length) ∧
      Printed d (printedChars fmt ap) d' ∧ Keeps d.crt d'.crt ∧
      Shows d'.crt (p.putAll CRT_COLS CRT_ROWS ((printedChars fmt ap).map stroke)) := by
  rcases h.putAll (printedChars fmt ap) with ⟨crt, hrun, hkeeps, _, hcrt⟩
  rcases cputch_run 0#32 hrun with ⟨d', hemit, hsame, hprinted⟩
  subst hsame
  refine ⟨d', ?_, hprinted, hkeeps, hcrt⟩
  · unfold Console.cprintf vcprintf
    have hprints := prints_formatted fmt ap _ (fun c dat => dat.bind (cputch c)) (some (d, 0#32))
    change vprintfmt _ fmt ap _ = _ at hprints
    change (vprintfmt _ fmt ap (some (d, 0#32))).bind _ = _
    rw [hprints, hemit, BitVec.zero_add]
    unfold printedChars
    rw [List.length_map]
    rfl

/-- Whatever is printed, on every device: `cprintf` stops without leaving the screen and counts
the characters; the two ports get the same bytes, and the screen is the window on the sheet on
which these characters were typed. -/
theorem cprintf_on_devices (d : Devices) (hpos : d.crt.pos < CRT_SIZE) (fmt : Text)
    (ap : List Arg) :
    exists d', cprintf d fmt ap = some (d', BitVec.ofNat 32 (printedChars fmt ap).length) ∧
      Printed d (printedChars fmt ap) d' ∧ Keeps d.crt d'.crt ∧
      Shows d'.crt (d.crt.sheet.putAll CRT_COLS CRT_ROWS ((printedChars fmt ap).map stroke)) :=
  (Shows.sheet hpos).cprintf fmt ap

def lastDevices : Devices := ⟨[], lastCell, []⟩

theorem cprintf_on_devices_error :
    lastDevices.crt.pos < CRT_SIZE ∧
    exists d', cprintf lastDevices errorNumberFormat [Arg.int 3] =
        some (d', BitVec.ofNat 32 (printedChars errorNumberFormat [Arg.int 3]).length) ∧
      Printed lastDevices (printedChars errorNumberFormat [Arg.int 3]) d' ∧
      Keeps lastDevices.crt d'.crt ∧
      Shows d'.crt (lastDevices.crt.sheet.putAll CRT_COLS CRT_ROWS
        ((printedChars errorNumberFormat [Arg.int 3]).map stroke)) :=
  ⟨by decide, cprintf_on_devices lastDevices (by decide) errorNumberFormat [Arg.int 3]⟩

end Console
end OsLabs
