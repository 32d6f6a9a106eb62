import Mathlib.Data.BitVec
import Mathlib.Tactic.Ring
import OsLabs.Foundation.CText
import OsLabs.Foundation.Emission

/-!
# Numbers

`printnum` in `printfmt.c` and the division `do_div` from `x86.h`, which splits a 64-bit
dividend for the instruction `divl`.  An `int` is a word of 32 bits and wraps around.  The
function `putch` may be any function on any data.
-/

namespace OsLabs
namespace Printfmt

open Foundation

/-- The `int` that stands for a character. -/
def ord (c : Char) : Int := c.toNat

def chars (s : List Char) : List Int := s.map ord

/-- The dividend is in two registers.  The instruction faults if the quotient does not fit
into one. -/
def divl (upper low divisor : BitVec 32) : Option (BitVec 32 × BitVec 32) :=
  let dividend : BitVec 64 := upper ++ low
  let quotient := dividend / divisor.setWidth 64
  if divisor = 0 ∨ 2 ^ 32 ≤ quotient.toNat then
    none
  else
    some (quotient.setWidth 32, (dividend % divisor.setWidth 64).setWidth 32)

def doDiv (n : BitVec 64) (base : BitVec 32) : Option (BitVec 64 × BitVec 32) := do
  let low := n.extractLsb' 0 32
  let high := n.extractLsb' 32 32
  let upper := if high ≠ 0 then high % base else high
  let high := if high ≠ 0 then high / base else high
  let (low, mod) <- divl upper low base
  some (high ++ low, mod)

def digitCharacters : List Char := "0123456789abcdef".toList ++ [nul]

section Printnum

variable {sink : Type} (putch : Int -> sink -> sink)

/-- `for (; width > 0; width --) putch(padc, putdat)`, for the value of `width` if it is not
negative. -/
def pad (padc : Int) : Nat -> sink -> sink
  | 0, dat => dat
  | width + 1, dat => pad padc width (putch padc dat)

def printnum : Nat -> BitVec 64 -> BitVec 32 -> BitVec 32 -> Int -> sink -> Option sink
  | 0, _, _, _, _, _ => none
  | fuel + 1, num, base, width, padc, dat => do
      let (result, mod) <- doDiv num base
      let dat <-
        if base.toNat ≤ num.toNat then
          printnum fuel result base (width - 1) padc dat
        else
          some (pad putch padc (width - 1).toInt.toNat dat)
      let c <- digitCharacters[mod.toNat]?
      some (putch (ord c) dat)

end Printnum

/-!
# The division
-/

section Division

variable {b size high low : Nat}

theorem split_high : high * size + low = high % b * size + low + b * (high / b * size) := by
  calc
    high * size + low = (high % b + b * (high / b)) * size + low := by rw [Nat.mod_add_div]
    _ = high % b * size + low + b * (high / b * size) := by ring

theorem long_div (hb : 0 < b) :
    (high * size + low) / b = high / b * size + (high % b * size + low) / b := by
  rw [split_high (b := b), Nat.add_mul_div_left _ _ hb, Nat.add_comm]

theorem long_mod : (high * size + low) % b = (high % b * size + low) % b := by
  rw [split_high, Nat.add_mul_mod_self_left]

/-- What is left of the high digit is less than the divisor, so one digit is enough for the
second quotient. -/
theorem second_quotient_lt (hlow : low < size) (hhigh : high < b) :
    (high * size + low) / b < size := by
  have hsucc : (high + 1) * size ≤ b * size := Nat.mul_le_mul_right size hhigh
  have hexpand : (high + 1) * size = high * size + size := Nat.succ_mul high size
  apply Nat.div_lt_of_lt_mul
  lia

end Division

theorem toNat_pair (upper low : BitVec 32) :
    (upper ++ low : BitVec 64).toNat = upper.toNat * 2 ^ 32 + low.toNat := by
  rw [BitVec.toNat_append, ← Nat.shiftLeft_add_eq_or_of_lt low.isLt, Nat.shiftLeft_eq]

theorem divl_of_lt {upper low divisor : BitVec 32} (hlt : upper.toNat < divisor.toNat) :
    exists q r, divl upper low divisor = some (q, r) ∧
      q.toNat = (upper.toNat * 2 ^ 32 + low.toNat) / divisor.toNat ∧
      r.toNat = (upper.toNat * 2 ^ 32 + low.toNat) % divisor.toNat := by
  have hpos : 0 < divisor.toNat := Nat.zero_lt_of_lt hlt
  have hne : divisor ≠ 0 := by
    intro hzero
    rw [hzero] at hpos
    exact absurd hpos (Nat.lt_irrefl 0)
  have hwide : (divisor.setWidth 64).toNat = divisor.toNat :=
    BitVec.toNat_setWidth_of_le (by decide)
  have hfits := second_quotient_lt (b := divisor.toNat) low.isLt hlt
  have hmod := Nat.mod_lt (upper.toNat * 2 ^ 32 + low.toNat) hpos
  unfold divl
  rw [if_neg]
  · refine ⟨_, _, rfl, ?_, ?_⟩
    · rw [BitVec.toNat_setWidth, BitVec.toNat_udiv, toNat_pair, hwide, Nat.mod_eq_of_lt hfits]
    · rw [BitVec.toNat_setWidth, BitVec.toNat_umod, toNat_pair, hwide,
        Nat.mod_eq_of_lt (hmod.trans divisor.isLt)]
  · rintro (hzero | hlarge)
    · exact hne hzero
    · rw [BitVec.toNat_udiv, toNat_pair, hwide] at hlarge
      exact absurd hfits (Nat.not_lt.mpr hlarge)

/-- The division of a 64-bit number never faults and is exact. -/
theorem doDiv_spec (n : BitVec 64) {base : BitVec 32} (hbase : 0 < base.toNat) :
    exists q r, doDiv n base = some (q, r) ∧
      q.toNat = n.toNat / base.toNat ∧ r.toNat = n.toNat % base.toNat := by
  have hn : n.extractLsb' 32 32 ++ n.extractLsb' 0 32 = n :=
    @BitVec.extractLsb'_append_extractLsb' 32 32 n
  generalize hhigh : n.extractLsb' 32 32 = high at hn
  generalize hlow : n.extractLsb' 0 32 = low at hn
  -- For a high half of 0 the branch that is left out would change nothing.
  have hupper : (if high ≠ 0 then high % base else high) = high % base := by
    by_cases hzero : high = 0
    · rw [if_neg (not_not_intro hzero), hzero]
      exact BitVec.zero_umod.symm
    · rw [if_pos hzero]
  have hquotient : (if high ≠ 0 then high / base else high) = high / base := by
    by_cases hzero : high = 0
    · rw [if_neg (not_not_intro hzero), hzero]
      exact BitVec.zero_udiv.symm
    · rw [if_pos hzero]
  have hlt : (high % base).toNat < base.toNat := by
    rw [BitVec.toNat_umod]
    exact Nat.mod_lt _ hbase
  rcases @divl_of_lt (high % base) low base hlt with ⟨q, r, hdivl, hq, hr⟩
  rw [BitVec.toNat_umod] at hq hr
  refine ⟨high / base ++ q, r, ?_, ?_, ?_⟩
  · unfold doDiv
    simp only [hhigh, hlow, hupper, hquotient, hdivl, Option.bind_eq_bind, Option.bind_some]
  · rw [toNat_pair, BitVec.toNat_udiv, hq, ← hn, toNat_pair]
    exact (long_div hbase).symm
  · rw [hr, ← hn, toNat_pair]
    exact long_mod.symm

/-!
# The digits
-/

section Digits

variable {sink : Type} {putch : Int -> sink -> sink}

theorem pad_eq (padc : Int) (n : Nat) (dat : sink) :
    pad putch padc n dat = emit putch dat (List.replicate n padc) := by
  induction n generalizing dat with
  | zero => rfl
  | succ n ih =>
      rw [List.replicate_succ, emit_cons, ← ih]
      rfl

theorem digitCharacters_get {d : Nat} (hd : d < 16) :
    digitCharacters[d]? = some (Nat.digitChar d) := by
  have hall : forall d : Fin 16, digitCharacters[d.val]? = some (Nat.digitChar d) := by decide
  exact hall ⟨d, hd⟩

/-- The digits of a number, and how many there are. -/
def digits (base num : Nat) : List Int := chars (Nat.toDigits base num)

def digitCount (base num : Nat) : Nat := (Nat.toDigits base num).length

theorem digits_length (base num : Nat) : (digits base num).length = digitCount base num :=
  List.length_map ..

theorem digitCount_pos (base num : Nat) : 0 < digitCount base num := Nat.length_toDigits_pos

variable {base num : Nat}

theorem digits_of_lt (h : num < base) : digits base num = [ord (Nat.digitChar num)] := by
  unfold digits
  rw [Nat.toDigits_of_lt_base h]
  rfl

theorem digits_of_le (hbase : 1 < base) (h : base ≤ num) :
    digits base num = digits base (num / base) ++ [ord (Nat.digitChar (num % base))] := by
  unfold digits chars
  rw [Nat.toDigits_of_base_le hbase h, List.map_append]
  rfl

theorem digitCount_of_lt (h : num < base) : digitCount base num = 1 := by
  unfold digitCount
  rw [Nat.toDigits_of_lt_base h]
  rfl

theorem digitCount_of_le (hbase : 1 < base) (h : base ≤ num) :
    digitCount base num = digitCount base (num / base) + 1 := by
  unfold digitCount
  rw [Nat.toDigits_of_base_le hbase h, List.length_append]
  rfl

end Digits

/-- What `printnum` prints: `width` loses one for each digit and wraps around. -/
def printed (num : BitVec 64) (base width : BitVec 32) (padc : Int) : List Int :=
  List.replicate (width - BitVec.ofNat 32 (digitCount base.toNat num.toNat)).toInt.toNat padc ++
    digits base.toNat num.toNat

/-- One unit of fuel for each digit is enough. -/
theorem printnum_spec {sink : Type} (putch : Int -> sink -> sink) {fuel : Nat}
    {num : BitVec 64} {base width : BitVec 32} {padc : Int} {dat : sink}
    (hlow : 2 ≤ base.toNat) (hhigh : base.toNat ≤ 16)
    (hfuel : digitCount base.toNat num.toNat ≤ fuel) :
    printnum putch fuel num base width padc dat =
      some (emit putch dat (printed num base width padc)) := by
  induction fuel generalizing num width dat with
  | zero => exact absurd hfuel (Nat.not_le.mpr (digitCount_pos _ _))
  | succ fuel ih =>
      have hbase : 0 < base.toNat := by lia
      rcases doDiv_spec num hbase with ⟨q, r, hdiv, hq, hr⟩
      have hdigit : digitCharacters[r.toNat]? =
          some (Nat.digitChar (num.toNat % base.toNat)) := by
        rw [hr]
        exact digitCharacters_get ((Nat.mod_lt _ hbase).trans_le hhigh)
      unfold printnum printed
      simp only [hdiv, hdigit, Option.bind_eq_bind, Option.bind_some]
      by_cases hle : base.toNat ≤ num.toNat
      · have hcount := digitCount_of_le hlow hle
        rw [hcount] at hfuel
        rw [if_pos hle, @ih q (width - 1) dat (by rw [hq]; lia), Option.bind_some]
        unfold printed
        rw [hq, digits_of_le hlow hle, hcount, ← List.append_assoc, emit_concat]
        have hwidth : width - 1 - BitVec.ofNat 32 (digitCount base.toNat (num.toNat / base.toNat)) =
            width - BitVec.ofNat 32 (digitCount base.toNat (num.toNat / base.toNat) + 1) := by
          rw [BitVec.ofNat_add, sub_sub, add_comm]
          rfl
        rw [hwidth]
      · have hlt : num.toNat < base.toNat := Nat.not_le.mp hle
        rw [if_neg hle, pad_eq, digitCount_of_lt hlt, digits_of_lt hlt,
          Nat.mod_eq_of_lt hlt, emit_concat]
        rfl

/-!
# The width
-/

def padded (num base : Nat) (width padc : Int) : List Int :=
  List.replicate (width - digitCount base num).toNat padc ++ digits base num

theorem digitCount_le {num base : Nat} (hnum : num < 2 ^ 64) (hbase : 2 ≤ base) :
    digitCount base num ≤ 64 := by
  have hpow : 2 ^ 64 ≤ base ^ 64 := Nat.pow_le_pow_left hbase 64
  exact (Nat.length_toDigits_le_iff hbase (by decide)).mpr (hnum.trans_le hpow)

/-- Taking away `k` wraps around only next to the smallest `int`. -/
theorem pads_eq_iff {width : BitVec 32} {k : Nat} (hpos : 0 < k) (hk : k ≤ 64) :
    (width - BitVec.ofNat 32 k).toInt.toNat = (width.toInt - k).toNat <->
      -2 ^ 31 + (k : Int) ≤ width.toInt := by
  have hlow := width.le_toInt
  have hhigh := width.toInt_lt
  rw [BitVec.toInt_sub, BitVec.toInt_ofNat', Int.bmod_def, Int.bmod_def]
  lia

theorem printed_eq_iff (num : BitVec 64) {base : BitVec 32} (width : BitVec 32) (padc : Int)
    (hlow : 2 ≤ base.toNat) :
    printed num base width padc = padded num.toNat base.toNat width.toInt padc <->
      -2 ^ 31 + (digitCount base.toNat num.toNat : Int) ≤ width.toInt := by
  rw [← pads_eq_iff (digitCount_pos _ _) (digitCount_le num.isLt hlow)]
  unfold printed padded
  rw [List.append_left_inj, List.replicate_left_inj]

/-- For every number and base the division never faults and is exact, and `printnum` stops.
It prints the digits behind the pad characters that are missing, except for the widths next to
the smallest `int`, where `-- width` wraps around. -/
theorem printnum_exact (num : BitVec 64) (base width : BitVec 32) (padc : Int)
    (hlow : 2 ≤ base.toNat) (hhigh : base.toNat ≤ 16) :
    (exists q r, doDiv num base = some (q, r) ∧
      q.toNat = num.toNat / base.toNat ∧ r.toNat = num.toNat % base.toNat) ∧
    exists out,
      (forall fuel, digitCount base.toNat num.toNat ≤ fuel ->
        Emits (fun _ putch dat => printnum putch fuel num base width padc dat) out) ∧
      (out = padded num.toNat base.toNat width.toInt padc <->
        -2 ^ 31 + (digitCount base.toNat num.toNat : Int) ≤ width.toInt) := by
  refine ⟨doDiv_spec num (by lia), printed num base width padc, ?_,
    printed_eq_iff num width padc hlow⟩
  intro fuel hfuel sink putch dat
  exact printnum_spec putch hlow hhigh hfuel

/-- 255 in hexadecimal and a width of 4. -/
theorem printnum_exact_ff :
    2 ≤ (16 : BitVec 32).toNat ∧ (16 : BitVec 32).toNat ≤ 16 ∧
    (exists q r, doDiv 255 16 = some (q, r) ∧
      q.toNat = (255 : BitVec 64).toNat / (16 : BitVec 32).toNat ∧
      r.toNat = (255 : BitVec 64).toNat % (16 : BitVec 32).toNat) ∧
    exists out,
      (forall fuel, digitCount (16 : BitVec 32).toNat (255 : BitVec 64).toNat ≤ fuel ->
        Emits (fun _ putch dat => printnum putch fuel 255 16 4 32 dat) out) ∧
      (out = padded (255 : BitVec 64).toNat (16 : BitVec 32).toNat (4 : BitVec 32).toInt 32 <->
        -2 ^ 31 + (digitCount (16 : BitVec 32).toNat (255 : BitVec 64).toNat : Int) ≤
          (4 : BitVec 32).toInt) :=
  ⟨by decide, by decide, printnum_exact 255 16 4 32 (by decide) (by decide)⟩

/-- With the smallest `int` as its width, the number 5 is printed behind blanks. -/
theorem printnum_smallest_width :
    ¬ exists fuel, Emits (fun _ putch dat => printnum putch fuel 5 10 (BitVec.intMin 32) 32 dat)
      (padded 5 10 (BitVec.intMin 32).toInt 32) := by
  rintro ⟨fuel, hemits⟩
  cases fuel with
  | zero => exact absurd (hemits Nat (fun _ n => n) 0) (by decide)
  | succ fuel =>
      have hspec : Emits (fun _ putch dat =>
          printnum putch (fuel + 1) 5 10 (BitVec.intMin 32) 32 dat)
          (printed 5 10 (BitVec.intMin 32) 32) := by
        intro sink putch dat
        apply printnum_spec putch (by decide) (by decide)
        rw [digitCount_of_lt (by decide)]
        exact Nat.le_add_left 1 fuel
      have heq := hspec.unique hemits
      have hwidth := (printed_eq_iff 5 (BitVec.intMin 32) 32 (by decide)).mp heq
      rw [digitCount_of_lt (by decide)] at hwidth
      exact absurd hwidth (by decide)

end Printfmt
end OsLabs
