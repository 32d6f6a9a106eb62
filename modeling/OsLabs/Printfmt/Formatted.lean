import OsLabs.Printfmt.Model

/-!
# What a format stands for

The text of a format and its arguments, without a `putch`: literal characters, converted
arguments, and escape sequences that are not recognised, which stand for themselves.
-/

namespace OsLabs
namespace Printfmt

open Foundation

/-- The number of characters of a string that are shown. -/
def shownCount (p : List Char) (precision : BitVec 32) : Nat :=
  if precision.toInt < 0 then p.length else min p.length precision.toNat

/-- A string with its pads; the pads on the right are those that `width` still asks for. -/
def stringOutput (e : Escape) (p : Text) : List Int :=
  let count := shownCount p.chars e.precision
  let text := (p.chars.take count).map (shownChar e.altflag)
  if 0 < e.width.toInt ∧ e.padc ≠ '-' then
    let width := e.width - BitVec.ofNat 32 (strnlen p.chars e.precision.toNat)
    let rest := (if 0 < width.toInt then 0 else width) - BitVec.ofNat 32 count
    List.replicate width.toInt.toNat (ord e.padc) ++
      (text ++ List.replicate rest.toInt.toNat (ord ' '))
  else
    text ++ List.replicate (e.width - BitVec.ofNat 32 count).toInt.toNat (ord ' ')

def numberOutput (e : Escape) (num : BitVec 64) (base : BitVec 32) : List Int :=
  printed num base e.width (ord e.padc)

/-- The sign is in front of the pads. -/
def signedOutput (e : Escape) (num : BitVec 64) : List Int :=
  if num.toInt < 0 then ord '-' :: numberOutput e (-num) 10 else numberOutput e num 10

def errorOutput (err : BitVec 32) : List Int :=
  let err := if err.toInt < 0 then -err else err
  match if (MAXERROR : Int) < err.toInt then none else errorString err with
  | none => chars "error ".toList ++ signedOutput Escape.start (err.signExtend 64)
  | some p => stringOutput Escape.start p

/-- The characters that convert something or stand for `%`. -/
def conversions : List Char := ['c', 'e', 's', 'd', 'u', 'o', 'p', 'x', '%']

/-- The text of a conversion and the arguments behind it. -/
def converted (ch : Char) (e : Escape) (ap : List Arg) : List Int × List Arg :=
  match ch with
  | 'c' =>
      let (c, ap) := vaArg Arg.asInt 0 ap
      ([c.toInt], ap)
  | 'e' =>
      let (err, ap) := vaArg Arg.asInt 0 ap
      (errorOutput err, ap)
  | 's' =>
      let (p, ap) := vaArg Arg.asString none ap
      (stringOutput e (p.getD nullText), ap)
  | 'd' =>
      let (num, ap) := getint ap e.lflag
      (signedOutput e num, ap)
  | 'u' =>
      let (num, ap) := getuint ap e.lflag
      (numberOutput e num 10, ap)
  | 'o' =>
      let (num, ap) := getuint ap e.lflag
      (numberOutput e num 8, ap)
  | 'p' =>
      let (num, ap) := vaArg Arg.asPointer 0 ap
      (ord '0' :: ord 'x' :: numberOutput e (num.setWidth 64) 16, ap)
  | 'x' =>
      let (num, ap) := getuint ap e.lflag
      (numberOutput e num 16, ap)
  | _ => ([ord ch], ap)

def Text.slice (s : Text) (i j : Nat) : List Char := (s.chars.drop i).take (j - i)

def formattedFrom (fmt : Text) : Nat -> Nat -> List Arg -> List Int
  | 0, _, _ => []
  | fuel + 1, i, ap =>
      match fmt.chars[i]? with
      | none => []
      | some c =>
          if c = '%' then
            match reswitch fmt (fmt.size + 1) (i + 1) Escape.start ap with
            | none => []
            | some (ch, k, e, ap) =>
                if ch ∈ conversions then
                  (converted ch e ap).1 ++ formattedFrom fmt fuel k (converted ch e ap).2
                else
                  chars (fmt.slice i (min k fmt.size)) ++
                    formattedFrom fmt fuel (min k fmt.size) ap
          else
            ord c :: formattedFrom fmt fuel (i + 1) ap

def formatted (fmt : Text) (ap : List Arg) : List Int := formattedFrom fmt (fmt.size + 1) 0 ap

example : formatted ⟨"%04x %q %s".toList, by decide, by decide⟩
    [Arg.int 255, Arg.string none] = chars "00ff %q (null)".toList := by decide

end Printfmt
end OsLabs
