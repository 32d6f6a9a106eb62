import OsLabs.Printfmt.Number

/-!
# Formatted printing

`vprintfmt` in `printfmt.c`.  Format strings and the strings that are printed are texts in
memory that is not written while they are read.  A position is an index into the text, and a
read behind the NUL is `none`.
-/

namespace OsLabs
namespace Printfmt

open Foundation

/-- A string of bytes; its memory ends with a NUL. -/
structure Text where
  chars : List Char
  nul_not_mem : nul ∉ chars
  byte : chars.all fun c => c.toNat < 256

def Text.at? (s : Text) (i : Nat) : Option Char := (s.chars ++ [nul])[i]?

abbrev Text.size (s : Text) : Nat := s.chars.length

/-- A character read through a `char *`, which is signed. -/
def signedOrd (c : Char) : Int := (BitVec.ofNat 8 c.toNat).toInt

/-!
# Arguments
-/

/-- An argument as it was passed; an `int`, a `long` and a pointer are one word. -/
inductive Arg where
  | int (value : BitVec 32)
  | longLong (value : BitVec 64)
  | pointer (value : BitVec 32)
  | string (p : Option Text)

def Arg.asInt : Arg -> Option (BitVec 32)
  | Arg.int value => some value
  | _ => none

def Arg.asLongLong : Arg -> Option (BitVec 64)
  | Arg.longLong value => some value
  | _ => none

def Arg.asPointer : Arg -> Option (BitVec 32)
  | Arg.pointer value => some value
  | _ => none

def Arg.asString : Arg -> Option (Option Text)
  | Arg.string p => some p
  | _ => none

/-- `va_arg`: the next argument and those behind it.  If the next one is missing or of
another type, C leaves open what is read. -/
def vaArg {alpha : Type} (read : Arg -> Option alpha) (unknown : alpha) :
    List Arg -> alpha × List Arg
  | [] => (unknown, [])
  | arg :: ap => ((read arg).getD unknown, ap)

def getuint (ap : List Arg) (lflag : BitVec 32) : BitVec 64 × List Arg :=
  if 2 ≤ lflag.toInt then
    vaArg Arg.asLongLong 0 ap
  else
    let (value, ap) := vaArg Arg.asInt 0 ap
    (value.setWidth 64, ap)

def getint (ap : List Arg) (lflag : BitVec 32) : BitVec 64 × List Arg :=
  if 2 ≤ lflag.toInt then
    vaArg Arg.asLongLong 0 ap
  else
    let (value, ap) := vaArg Arg.asInt 0 ap
    (value.signExtend 64, ap)

/-!
# Flags, width and precision
-/

/-- The variables of one escape sequence. -/
structure Escape where
  padc : Char
  width : BitVec 32
  precision : BitVec 32
  lflag : BitVec 32
  altflag : Bool

def Escape.start : Escape := ⟨' ', -1, -1, 0, false⟩

/-- The loop over the digits of a number: the number and the position behind it. -/
def readNumber (fmt : Text) : Nat -> Char -> BitVec 32 -> Nat -> Option (BitVec 32 × Nat)
  | 0, _, _, _ => none
  | fuel + 1, ch, precision, i => do
      let precision := precision * 10 + BitVec.ofNat 32 ch.toNat - BitVec.ofNat 32 '0'.toNat
      let ch <- fmt.at? i
      if ch.isDigit then readNumber fmt fuel ch precision (i + 1) else some (precision, i)

def Escape.processPrecision (e : Escape) : Escape :=
  if e.width.toInt < 0 then { e with width := e.precision, precision := -1 } else e

/-- From `reswitch` on up to a character that is no flag, no width and no length: that
character, the position behind it, and the arguments that are left. -/
def reswitch (fmt : Text) :
    Nat -> Nat -> Escape -> List Arg -> Option (Char × Nat × Escape × List Arg)
  | 0, _, _, _ => none
  | fuel + 1, i, e, ap => do
      let ch <- fmt.at? i
      match ch with
      | '-' => reswitch fmt fuel (i + 1) { e with padc := '-' } ap
      | '0' => reswitch fmt fuel (i + 1) { e with padc := '0' } ap
      | '*' =>
          let (precision, ap) := vaArg Arg.asInt 0 ap
          reswitch fmt fuel (i + 1) { e with precision := precision }.processPrecision ap
      | '.' =>
          let width := if e.width.toInt < 0 then 0 else e.width
          reswitch fmt fuel (i + 1) { e with width := width } ap
      | '#' => reswitch fmt fuel (i + 1) { e with altflag := true } ap
      | 'l' => reswitch fmt fuel (i + 1) { e with lflag := e.lflag + 1 } ap
      | _ =>
          if '1' ≤ ch ∧ ch ≤ '9' then do
            let (precision, j) <- readNumber fmt (fmt.size + 1) ch 0 (i + 1)
            reswitch fmt fuel j { e with precision := precision }.processPrecision ap
          else
            some (ch, i + 1, e, ap)

/-!
# Conversions
-/

def MAXERROR : Nat := 6

def E_INVAL : Nat := 3

/-- The array `error_string`.  Only the smallest `int` is still negative here; in 32-bit
addresses its index is that of entry 0. -/
def errorString (err : BitVec 32) : Option Text :=
  match err.toNat with
  | 1 => some ⟨"unspecified error".toList, by decide, by decide⟩
  | 2 => some ⟨"bad process".toList, by decide, by decide⟩
  | 3 => some ⟨"invalid parameter".toList, by decide, by decide⟩
  | 4 => some ⟨"out of memory".toList, by decide, by decide⟩
  | 5 => some ⟨"out of processes".toList, by decide, by decide⟩
  | 6 => some ⟨"segmentation fault".toList, by decide, by decide⟩
  | _ => none

def nullText : Text := ⟨"(null)".toList, by decide, by decide⟩

/-- The formats that `%e` hands to `printfmt`. -/
def errorNumberFormat : Text := ⟨"error %d".toList, by decide, by decide⟩

def errorTextFormat : Text := ⟨"%s".toList, by decide, by decide⟩

def strnlen : List Char -> Nat -> Nat
  | [], _ => 0
  | _, 0 => 0
  | _ :: s, len + 1 => strnlen s len + 1

/-- `for (fmt --; fmt[-1] != '%'; fmt --)`, from the value of `fmt` before the first test. -/
def recover (fmt : Text) : Nat -> Option Nat
  | 0 => none
  | i + 1 => do
      let ch <- fmt.at? i
      if ch = '%' then some (i + 1) else recover fmt i

/-- What is printed for a character of `%s`. -/
def shownChar (altflag : Bool) (ch : Char) : Int :=
  let c := signedOrd ch
  if altflag ∧ (c < ord ' ' ∨ ord '~' < c) then ord '?' else c

section Convert

variable {sink : Type} (putch : Int -> sink -> sink)

/-- The loop over the characters of `%s`; `width` and the data behind it. -/
def putString (altflag : Bool) :
    List Char -> BitVec 32 -> BitVec 32 -> sink -> BitVec 32 × sink
  | [], width, _, dat => (width, dat)
  | ch :: p, width, precision, dat =>
      if precision.toInt < 0 ∨ 0 ≤ (precision - 1).toInt then
        let precision := if precision.toInt < 0 then precision else precision - 1
        putString altflag p (width - 1) precision (putch (shownChar altflag ch) dat)
      else
        (width, dat)

def convertString (e : Escape) (p : Text) (dat : sink) : sink :=
  let (width, dat) :=
    if 0 < e.width.toInt ∧ e.padc ≠ '-' then
      let width := e.width - BitVec.ofNat 32 (strnlen p.chars e.precision.toNat)
      let dat := pad putch (ord e.padc) width.toInt.toNat dat
      (if 0 < width.toInt then 0 else width, dat)
    else
      (e.width, dat)
  let (width, dat) := putString putch e.altflag p.chars width e.precision dat
  pad putch (ord ' ') width.toInt.toNat dat

def convertError (printfmt : Text -> List Arg -> sink -> Option sink) (err : BitVec 32)
    (dat : sink) : Option sink :=
  let err := if err.toInt < 0 then -err else err
  match if (MAXERROR : Int) < err.toInt then none else errorString err with
  | none => printfmt errorNumberFormat [Arg.int err] dat
  | some p => printfmt errorTextFormat [Arg.string (some p)] dat

/-- From `number` on; a number has at most 64 digits. -/
def number (e : Escape) (num : BitVec 64) (base : BitVec 32) (dat : sink) : Option sink :=
  printnum putch 64 num base e.width (ord e.padc) dat

/-- The other cases of the switch, with the position behind `ch`. -/
def convert (printfmt : Text -> List Arg -> sink -> Option sink) (fmt : Text) (ch : Char)
    (i : Nat) (e : Escape) (ap : List Arg) (dat : sink) : Option (sink × Nat × List Arg) :=
  match ch with
  | 'c' =>
      let (c, ap) := vaArg Arg.asInt 0 ap
      some (putch c.toInt dat, i, ap)
  | 'e' => do
      let (err, ap) := vaArg Arg.asInt 0 ap
      let dat <- convertError printfmt err dat
      some (dat, i, ap)
  | 's' =>
      let (p, ap) := vaArg Arg.asString none ap
      some (convertString putch e (p.getD nullText) dat, i, ap)
  | 'd' => do
      let (num, ap) := getint ap e.lflag
      let dat := if num.toInt < 0 then putch (ord '-') dat else dat
      let num := if num.toInt < 0 then -num else num
      let dat <- number putch e num 10 dat
      some (dat, i, ap)
  | 'u' => do
      let (num, ap) := getuint ap e.lflag
      let dat <- number putch e num 10 dat
      some (dat, i, ap)
  | 'o' => do
      let (num, ap) := getuint ap e.lflag
      let dat <- number putch e num 8 dat
      some (dat, i, ap)
  | 'p' => do
      let (num, ap) := vaArg Arg.asPointer 0 ap
      let dat := putch (ord 'x') (putch (ord '0') dat)
      let dat <- number putch e (num.setWidth 64) 16 dat
      some (dat, i, ap)
  | 'x' => do
      let (num, ap) := getuint ap e.lflag
      let dat <- number putch e num 16 dat
      some (dat, i, ap)
  | '%' => some (putch (ord ch) dat, i, ap)
  | _ => do
      let j <- recover fmt (i - 1)
      some (putch (ord '%') dat, j, ap)

/-- The outer loop, from a position in the format on. -/
def vprintfmtLoop (printfmt : Text -> List Arg -> sink -> Option sink) (fmt : Text) :
    Nat -> Nat -> List Arg -> sink -> Option sink
  | 0, _, _, _ => none
  | fuel + 1, i, ap, dat => do
      let ch <- fmt.at? i
      if ch ≠ '%' then
        if ch = nul then
          some dat
        else
          vprintfmtLoop printfmt fmt fuel (i + 1) ap (putch (ord ch) dat)
      else do
        let (ch, j, e, ap) <- reswitch fmt (fmt.size + 1) (i + 1) Escape.start ap
        let (dat, k, ap) <- convert putch printfmt fmt ch j e ap dat
        vprintfmtLoop printfmt fmt fuel k ap dat

/-- `vprintfmt`, and `printfmt` on the arguments it was called with, for the given depth of
calls from `%e`. -/
def vprintfmtDepth : Nat -> Text -> List Arg -> sink -> Option sink
  | 0, _, _, _ => none
  | depth + 1, fmt, ap, dat =>
      vprintfmtLoop putch (vprintfmtDepth depth) fmt (fmt.size + 1) 0 ap dat

/-- The formats of `%e` have no `%e`, so two levels are enough. -/
def vprintfmt : Text -> List Arg -> sink -> Option sink := vprintfmtDepth putch 2

end Convert

example : vprintfmt (fun c s => s ++ [c]) ⟨"a%-3d|%05x|%s%e%".toList, by decide, by decide⟩
    [Arg.int (-7), Arg.int 255, Arg.string none, Arg.int (-3)] [] =
      some (chars "a---7|000ff|(null)invalid parameter%".toList) := by decide

end Printfmt
end OsLabs
