import Mathlib.Data.List.TakeWhile

/-!
# C strings

Character buffers, the strings in them and the conversions of `printf` and
`scanf` for decimal numbers.  A character stands for the byte with its number.
-/

namespace OsLabs
namespace Foundation

def nul : Char := Char.ofNat 0

def cString (buf : List Char) : List Char :=
  buf.takeWhile fun c => c ≠ nul

/-- The bytes that `strncpy` writes: the string, cut at `n` bytes or filled up to
them. -/
def strncpy (text : List Char) (n : Nat) : List Char :=
  (cString text).take n ++ List.replicate (n - (cString text).length) nul

def strncmpEq (s t : List Char) (n : Nat) : Bool :=
  decide ((cString s).take n = (cString t).take n)

def isspace (c : Char) : Bool :=
  c = ' ' || (9 ≤ c.toNat && c.toNat ≤ 13)

/-- The conversion `%d` of `printf`. -/
def formatInt (n : Int) : List Char :=
  if n < 0 then '-' :: Nat.toDigits 10 n.natAbs else Nat.toDigits 10 n.natAbs

def scanDigits (width : Nat) (s : List Char) : Option Nat :=
  let digits := (s.take width).takeWhile Char.isDigit
  if digits = [] then none else some (Nat.ofDigitChars 10 digits 0)

/-- The conversion `%d` of `scanf` with a field width.  White space before the
number does not count; a sign does. -/
def scanInt (width : Nat) (s : List Char) : Option Int :=
  match s.dropWhile isspace with
  | '-' :: rest => (scanDigits (width - 1) rest).map fun n : Nat => -(n : Int)
  | '+' :: rest => (scanDigits (width - 1) rest).map fun n : Nat => (n : Int)
  | rest => (scanDigits width rest).map fun n : Nat => (n : Int)

def startsWithDigit : List Char -> Bool
  | [] => false
  | c :: _ => c.isDigit

theorem cString_append {text : List Char} (htext : nul ∉ text) (rest : List Char) :
    cString (text ++ nul :: rest) = text := by
  unfold cString
  rw [List.takeWhile_append_of_pos, List.takeWhile_cons_of_neg, List.append_nil]
  · simp
  · intro c hc
    have hne : c ≠ nul := fun heq => htext (heq ▸ hc)
    simp [hne]

theorem cString_of_not_mem {text : List Char} (htext : nul ∉ text) : cString text = text := by
  unfold cString
  rw [List.takeWhile_eq_self_iff]
  intro c hc
  have hne : c ≠ nul := fun heq => htext (heq ▸ hc)
  simp [hne]

theorem cString_cString (buf : List Char) : cString (cString buf) = cString buf :=
  List.takeWhile_idem

theorem cString_strncpy {text : List Char} {n : Nat} (htext : nul ∉ text)
    (hlength : text.length < n) : cString (strncpy text n) = text := by
  have hrest : n - text.length = n - text.length - 1 + 1 := by lia
  unfold strncpy
  rw [cString_of_not_mem htext, List.take_of_length_le hlength.le, hrest, List.replicate_succ]
  exact cString_append htext _

/-!
# Reading back a number
-/

theorem not_isspace_of_isDigit {c : Char} (h : c.isDigit = true) : isspace c = false := by
  unfold isspace
  have hrange : 48 ≤ c.toNat ∧ c.toNat ≤ 57 := by
    simp only [Char.isDigit, Bool.and_eq_true, decide_eq_true_eq] at h
    exact ⟨UInt32.le_iff_toNat_le.mp h.left, UInt32.le_iff_toNat_le.mp h.right⟩
  have hblank : c ≠ ' ' := by
    intro heq
    rw [heq] at hrange
    exact absurd hrange.left (by decide)
  simp [hblank]
  lia

theorem isDigit_of_mem_toDigits_ten {n : Nat} {c : Char} (hc : c ∈ Nat.toDigits 10 n) :
    c.isDigit = true :=
  Nat.isDigit_of_mem_toDigits (by decide) (by decide) hc

theorem dropWhile_leftpad (w n : Nat) (text : List Char) :
    ((Nat.toDigits 10 n).leftpad w ' ' ++ text).dropWhile isspace = Nat.toDigits 10 n ++ text := by
  unfold List.leftpad
  rw [List.append_assoc, List.dropWhile_append_of_pos]
  · cases hdigits : Nat.toDigits 10 n with
    | nil => exact absurd hdigits Nat.toDigits_ne_nil
    | cons d ds =>
        have hd : d.isDigit = true :=
          isDigit_of_mem_toDigits_ten (n := n) (by rw [hdigits]; exact List.mem_cons_self)
        rw [List.cons_append, List.dropWhile_cons_of_neg]
        simp [not_isspace_of_isDigit hd]
  · intro c hc
    rw [List.eq_of_mem_replicate hc]
    rfl

theorem scanInt_of_digit {w : Nat} {s : List Char} {d : Char} {rest : List Char}
    (hskip : s.dropWhile isspace = d :: rest) (hd : d.isDigit = true) :
    scanInt w s = (scanDigits w (d :: rest)).map fun n : Nat => (n : Int) := by
  unfold scanInt
  rw [hskip]
  split
  · rename_i heq
    cases heq
    cases hd
  · rename_i heq
    cases heq
    cases hd
  · rfl

theorem scanInt_leftpad {w n : Nat} (hw : (Nat.toDigits 10 n).length ≤ w) (text : List Char) :
    scanInt w ((Nat.toDigits 10 n).leftpad w ' ' ++ text) =
      some (Nat.ofDigitChars 10
        ((text.take (w - (Nat.toDigits 10 n).length)).takeWhile Char.isDigit) n : Int) := by
  have hskip := dropWhile_leftpad w n text
  have hread : ((Nat.toDigits 10 n ++ text).take w).takeWhile Char.isDigit =
      Nat.toDigits 10 n ++
        (text.take (w - (Nat.toDigits 10 n).length)).takeWhile Char.isDigit := by
    rw [List.take_append, List.take_of_length_le hw, List.takeWhile_append_of_pos]
    intro c hc
    exact isDigit_of_mem_toDigits_ten hc
  have hvalue : scanDigits w (Nat.toDigits 10 n ++ text) =
      some (Nat.ofDigitChars 10
        ((text.take (w - (Nat.toDigits 10 n).length)).takeWhile Char.isDigit) n) := by
    unfold scanDigits
    simp only [hread]
    rw [if_neg, Nat.ofDigitChars_append, Nat.ofDigitChars_ten_toDigits]
    simp [Nat.toDigits_ne_nil]
  cases hdigits : Nat.toDigits 10 n with
  | nil => exact absurd hdigits Nat.toDigits_ne_nil
  | cons d ds =>
      have hd : d.isDigit = true :=
        isDigit_of_mem_toDigits_ten (n := n) (by rw [hdigits]; exact List.mem_cons_self)
      rw [hdigits, List.cons_append] at hskip hvalue
      rw [scanInt_of_digit hskip hd, hvalue]
      rfl

theorem lt_ofDigitChars {ds : List Char} {n : Nat} (hn : 0 < n) (hds : ds ≠ []) :
    n < Nat.ofDigitChars 10 ds n := by
  have hlen : 0 < ds.length := List.length_pos_iff.mpr hds
  rw [Nat.ofDigitChars_eq_ofDigitChars_zero]
  have hpow : 10 ≤ 10 ^ ds.length := Nat.le_self_pow (by lia) 10
  have hmul : 10 * n ≤ 10 ^ ds.length * n := Nat.mul_le_mul_right n hpow
  lia

/-- A padded number in front of a text is read back exactly if the text does not
continue it. -/
theorem scanInt_leftpad_iff {w n : Nat} (hn : 0 < n) (hw : (Nat.toDigits 10 n).length < w)
    (text : List Char) :
    scanInt w ((Nat.toDigits 10 n).leftpad w ' ' ++ text) = some (n : Int) <->
      startsWithDigit text = false := by
  rw [scanInt_leftpad hw.le]
  obtain ⟨k, hk⟩ : exists k, w - (Nat.toDigits 10 n).length = k + 1 :=
    ⟨w - (Nat.toDigits 10 n).length - 1, by lia⟩
  rw [hk]
  cases text with
  | nil => simp [startsWithDigit]
  | cons c rest =>
      rw [List.take_succ_cons]
      cases hc : c.isDigit with
      | false =>
          rw [List.takeWhile_cons_of_neg (by simp [hc])]
          simp [startsWithDigit, hc]
      | true =>
          rw [List.takeWhile_cons_of_pos (by simp [hc])]
          have hlt : n < Nat.ofDigitChars 10 (c :: (rest.take k).takeWhile Char.isDigit) n :=
            lt_ofDigitChars hn (List.cons_ne_nil _ _)
          constructor
          · intro heq
            have hval := Option.some.inj heq
            lia
          · intro hstart
            simp [startsWithDigit, hc] at hstart

end Foundation
end OsLabs
