import OsLabs.Printfmt.Termination

/-!
# Escape sequences for integers

The sequences `%[-0]*[width][l|ll](d|u|o|x)` as text, and how they are read.
-/

namespace OsLabs
namespace Printfmt

open Foundation

inductive Flag where
  | minus
  | zero
  deriving DecidableEq

def Flag.char : Flag -> Char
  | Flag.minus => '-'
  | Flag.zero => '0'

inductive FieldWidth where
  | absent
  | number (w : Nat) (hpos : 0 < w)
  | star (w : BitVec 32) (hnonneg : 0 ≤ w.toInt)

def FieldWidth.value : FieldWidth -> Nat
  | FieldWidth.absent => 0
  | FieldWidth.number w _ => w
  | FieldWidth.star w _ => w.toNat

def FieldWidth.text : FieldWidth -> List Char
  | FieldWidth.absent => []
  | FieldWidth.number w _ => Nat.toDigits 10 w
  | FieldWidth.star _ _ => ['*']

def FieldWidth.args : FieldWidth -> List Arg
  | FieldWidth.star w _ => [Arg.int w]
  | _ => []

inductive Integer where
  | int (value : BitVec 32)
  | long (value : BitVec 32)
  | longLong (value : BitVec 64)

def Integer.modifier : Integer -> List Char
  | Integer.int _ => []
  | Integer.long _ => ['l']
  | Integer.longLong _ => ['l', 'l']

/-- The number of letters `l`, as `lflag` keeps it. -/
def Integer.lflag : Integer -> BitVec 32
  | Integer.int _ => 0
  | Integer.long _ => 1
  | Integer.longLong _ => 2

def Integer.arg : Integer -> Arg
  | Integer.int value => Arg.int value
  | Integer.long value => Arg.int value
  | Integer.longLong value => Arg.longLong value

def Integer.signed : Integer -> Int
  | Integer.int value => value.toInt
  | Integer.long value => value.toInt
  | Integer.longLong value => value.toInt

def Integer.unsigned : Integer -> Nat
  | Integer.int value => value.toNat
  | Integer.long value => value.toNat
  | Integer.longLong value => value.toNat

inductive Conversion where
  | d
  | u
  | o
  | x

def Conversion.char : Conversion -> Char
  | Conversion.d => 'd'
  | Conversion.u => 'u'
  | Conversion.o => 'o'
  | Conversion.x => 'x'

structure Field where
  flags : List Flag
  width : FieldWidth
  value : Integer
  conversion : Conversion

def Field.text (f : Field) : List Char :=
  '%' :: (f.flags.map Flag.char ++
    (f.width.text ++ (f.value.modifier ++ [f.conversion.char])))

def Field.args (f : Field) : List Arg := f.width.args ++ [f.value.arg]

/-!
# Text at a position
-/

/-- The characters stand in the format from position `i` on. -/
def StandsAt (fmt : Text) (i : Nat) (s : List Char) : Prop := s <+: fmt.chars.drop i

section Text

variable {fmt : Text} {i : Nat} {c : Char} {s t : List Char}

theorem StandsAt.length_le (h : StandsAt fmt i s) : s.length ≤ fmt.size - i := by
  have hlength := List.IsPrefix.length_le h
  rw [List.length_drop] at hlength
  exact hlength

theorem StandsAt.head (h : StandsAt fmt i (c :: s)) : fmt.at? i = some c := by
  rcases h with ⟨rest, hrest⟩
  have hlt : i < fmt.size := by
    apply Nat.lt_of_not_le
    intro hle
    rw [List.drop_eq_nil_of_le hle] at hrest
    cases hrest
  rw [List.drop_eq_getElem_cons hlt, List.cons_append] at hrest
  rw [at?_of_lt hlt, ← (List.cons.inj hrest).left]

theorem StandsAt.append_right (h : StandsAt fmt i (s ++ t)) :
    StandsAt fmt (i + s.length) t := by
  rcases h with ⟨rest, hrest⟩
  refine ⟨rest, ?_⟩
  rw [← List.drop_drop, ← hrest, List.append_assoc, List.drop_left]

theorem StandsAt.tail (h : StandsAt fmt i (c :: s)) : StandsAt fmt (i + 1) s :=
  StandsAt.append_right (s := [c]) h

end Text

/-!
# Reading the sequence
-/

/-- The last flag decides. -/
def lastFlag (padc : Char) : List Flag -> Char
  | [] => padc
  | flag :: flags => lastFlag flag.char flags

def Reads (fmt : Text) (i : Nat) (e : Escape) (ap : List Arg)
    (result : Char × Nat × Escape × List Arg) : Prop :=
  forall fuel, fmt.size - i < fuel -> reswitch fmt fuel i e ap = some result

section Reading

variable {fmt : Text} {i : Nat} {e : Escape} {ap : List Arg} {s : List Char}
variable {result : Char × Nat × Escape × List Arg}

theorem Reads.step {j : Nat} {e' : Escape} {ap' : List Arg} (hlt : i < fmt.size) (hij : i < j)
    (hstep : forall fuel, reswitch fmt (fuel + 1) i e ap = reswitch fmt fuel j e' ap')
    (h : Reads fmt j e' ap' result) : Reads fmt i e ap result := by
  intro fuel hfuel
  cases fuel with
  | zero => lia
  | succ fuel =>
      rw [hstep]
      exact h fuel (by lia)

theorem Reads.flag (flag : Flag) (hat : fmt.at? i = some flag.char)
    (h : Reads fmt (i + 1) { e with padc := flag.char } ap result) : Reads fmt i e ap result := by
  cases flag with
  | minus =>
      apply Reads.step (lt_size_of_isFlag hat rfl) (Nat.lt_succ_self i) _ h
      intro fuel
      rw [reswitch, hat]
      rfl
  | zero =>
      apply Reads.step (lt_size_of_isFlag hat rfl) (Nat.lt_succ_self i) _ h
      intro fuel
      rw [reswitch, hat]
      rfl

theorem Reads.flags {flags : List Flag} (hat : StandsAt fmt i (flags.map Flag.char ++ s))
    (h : Reads fmt (i + flags.length) { e with padc := lastFlag e.padc flags } ap result) :
    Reads fmt i e ap result := by
  induction flags generalizing i e with
  | nil => exact h
  | cons flag flags ih =>
      rw [List.length_cons, Nat.add_comm flags.length, ← Nat.add_assoc] at h
      exact Reads.flag flag hat.head (ih hat.tail h)

theorem Reads.long (hat : fmt.at? i = some 'l')
    (h : Reads fmt (i + 1) { e with lflag := e.lflag + 1 } ap result) :
    Reads fmt i e ap result := by
  apply Reads.step (lt_size_of_isFlag hat rfl) (Nat.lt_succ_self i) _ h
  intro fuel
  rw [reswitch, hat]
  rfl

theorem Reads.star {w : BitVec 32} (hat : fmt.at? i = some '*')
    (h : Reads fmt (i + 1) { e with precision := w }.processPrecision ap result) :
    Reads fmt i e (Arg.int w :: ap) result := by
  apply Reads.step (lt_size_of_isFlag hat rfl) (Nat.lt_succ_self i) _ h
  intro fuel
  rw [reswitch, hat]
  rfl

theorem Reads.conversion (conversion : Conversion) (hat : fmt.at? i = some conversion.char) :
    Reads fmt i e ap (conversion.char, i + 1, e, ap) := by
  intro fuel hfuel
  cases fuel with
  | zero => lia
  | succ fuel =>
      cases conversion
      all_goals
        rw [reswitch, hat]
        rfl

/-!
# Numbers in a format
-/

theorem ofNat_step (n : Nat) {ch : Char} (hch : ch.isDigit = true) :
    BitVec.ofNat 32 n * 10 + BitVec.ofNat 32 ch.toNat - BitVec.ofNat 32 '0'.toNat =
      BitVec.ofNat 32 (10 * n + (ch.toNat - '0'.toNat)) := by
  have hzero : '0'.toNat ≤ ch.toNat := (Char.isDigit_iff_toNat.mp hch).left
  have hsum : 10 * n + ch.toNat = 10 * n + (ch.toNat - '0'.toNat) + '0'.toNat := by lia
  have hten : BitVec.ofNat 32 n * 10 = BitVec.ofNat 32 (10 * n) := by
    rw [mul_comm]
    exact BitVec.ofNat_mul_ofNat 10 n
  rw [hten, ← BitVec.ofNat_add, hsum, BitVec.ofNat_add, add_sub_cancel_right]

theorem readNumber_digits {fuel n : Nat} {ch c : Char} {ds : List Char}
    (hch : ch.isDigit = true) (hds : forall d, d ∈ ds -> d.isDigit = true)
    (hc : c.isDigit = false) (hat : StandsAt fmt i (ds ++ c :: s)) (hfuel : ds.length < fuel) :
    readNumber fmt fuel ch (BitVec.ofNat 32 n) i =
      some (BitVec.ofNat 32 (Nat.ofDigitChars 10 (ch :: ds) n), i + ds.length) := by
  induction ds generalizing i ch n fuel with
  | nil =>
      cases fuel with
      | zero => lia
      | succ fuel =>
          rw [readNumber, hat.head, Option.bind_eq_bind, Option.bind_some, hc, ofNat_step n hch]
          rfl
  | cons d ds ih =>
      cases fuel with
      | zero => lia
      | succ fuel =>
          have hd := hds d List.mem_cons_self
          have hds' : forall d', d' ∈ ds -> d'.isDigit = true :=
            fun d' hd' => hds d' (List.mem_cons_of_mem d hd')
          rw [readNumber, hat.head, Option.bind_eq_bind, Option.bind_some, hd, if_pos rfl,
            ofNat_step n hch, ih hd hds' hat.tail (Nat.lt_of_succ_lt_succ hfuel),
            List.length_cons, Nat.add_assoc, Nat.add_comm 1]
          rfl

theorem toDigits_head {n : Nat} (hpos : 0 < n) :
    exists d ds, Nat.toDigits 10 n = d :: ds ∧ '1' ≤ d ∧ d ≤ '9' := by
  induction n using Nat.strong_induction_on with
  | _ n ih =>
      by_cases hlt : n < 10
      · refine ⟨Nat.digitChar n, [], Nat.toDigits_of_lt_base hlt, ?_⟩
        have hall : forall n : Fin 10, 0 < n.val ->
            '1' ≤ Nat.digitChar n ∧ Nat.digitChar n ≤ '9' := by decide
        exact hall ⟨n, hlt⟩ hpos
      · have hle : 10 ≤ n := Nat.not_lt.mp hlt
        rcases ih (n / 10) (by lia) (by lia) with ⟨d, ds, hdigits, hd⟩
        refine ⟨d, ds ++ [Nat.digitChar (n % 10)], ?_, hd⟩
        rw [Nat.toDigits_of_base_le (by decide) hle, hdigits]
        rfl

def FieldWidth.read : FieldWidth -> BitVec 32
  | FieldWidth.absent => -1
  | FieldWidth.number w _ => BitVec.ofNat 32 w
  | FieldWidth.star w _ => w

theorem processPrecision_width (w : BitVec 32) (hwidth : e.width = -1) (hprec : e.precision = -1) :
    { e with precision := w }.processPrecision = { e with width := w } := by
  unfold Escape.processPrecision
  simp only [hwidth, hprec]
  rfl

theorem Reads.number {w : Nat} (hpos : 0 < w) {c : Char} (hc : c.isDigit = false)
    (hwidth : e.width = -1) (hprec : e.precision = -1)
    (hat : StandsAt fmt i (Nat.toDigits 10 w ++ c :: s))
    (h : Reads fmt (i + (Nat.toDigits 10 w).length) { e with width := BitVec.ofNat 32 w } ap
      result) :
    Reads fmt i e ap result := by
  rcases toDigits_head hpos with ⟨d, ds, hdigits, hd⟩
  have hall : forall c, c ∈ d :: ds -> c.isDigit = true := by
    intro c hmem
    rw [← hdigits] at hmem
    exact Nat.isDigit_of_mem_toDigits (by decide) (by decide) hmem
  have hvalue : Nat.ofDigitChars 10 (d :: ds) 0 = w := by
    rw [← hdigits]
    exact Nat.ofDigitChars_ten_toDigits
  rw [hdigits] at hat h
  have hsize := hat.length_le
  rw [List.length_append, List.length_cons, List.length_cons] at hsize
  have hread : readNumber fmt (fmt.size + 1) d 0 (i + 1) =
      some (BitVec.ofNat 32 w, i + 1 + ds.length) := by
    rw [← hvalue]
    exact readNumber_digits (hall d List.mem_cons_self)
      (fun c hmem => hall c (List.mem_cons_of_mem d hmem)) hc hat.tail (by lia)
  rw [List.length_cons, Nat.add_comm ds.length, ← Nat.add_assoc] at h
  have hlt := lt_size_of_isFlag hat.head (isFlag_of_isDigit (isDigit_of_between hd))
  apply Reads.step hlt (by lia) _ h
  intro fuel
  rw [reswitch, hat.head, Option.bind_eq_bind, Option.bind_some]
  split
  case h_7 =>
    rw [if_pos hd, hread, Option.bind_eq_bind, Option.bind_some]
    simp only [processPrecision_width _ hwidth hprec]
  all_goals exact absurd hd (by decide)

theorem Reads.width {c : Char} (hc : c.isDigit = false) (width : FieldWidth)
    (hwidth : e.width = -1) (hprec : e.precision = -1)
    (hat : StandsAt fmt i (width.text ++ c :: s))
    (h : Reads fmt (i + width.text.length) { e with width := width.read } ap result) :
    Reads fmt i e (width.args ++ ap) result := by
  cases width with
  | absent =>
      change Reads fmt i { e with width := -1 } ap result at h
      rw [← hwidth] at h
      exact h
  | number w hpos => exact Reads.number hpos hc hwidth hprec hat h
  | star w hnonneg =>
      apply Reads.star hat.head
      rw [processPrecision_width w hwidth hprec]
      exact h

theorem Reads.modifier (value : Integer) (hlflag : e.lflag = 0)
    (hat : StandsAt fmt i (value.modifier ++ s))
    (h : Reads fmt (i + value.modifier.length) { e with lflag := value.lflag } ap result) :
    Reads fmt i e ap result := by
  cases value with
  | int value =>
      change Reads fmt i { e with lflag := 0 } ap result at h
      rw [← hlflag] at h
      exact h
  | long value =>
      apply Reads.long hat.head
      rw [hlflag]
      exact h
  | longLong value =>
      apply Reads.long hat.head
      apply Reads.long hat.tail.head
      simp only [hlflag]
      exact h

end Reading

def Field.escape (f : Field) : Escape :=
  { padc := lastFlag ' ' f.flags
    width := f.width.read
    precision := -1
    lflag := f.value.lflag
    altflag := false }

theorem Field.behind_width (f : Field) :
    exists c s, f.value.modifier ++ [f.conversion.char] = c :: s ∧ c.isDigit = false := by
  cases f.value with
  | int value =>
      refine ⟨f.conversion.char, [], rfl, ?_⟩
      cases f.conversion <;> rfl
  | long value => exact ⟨'l', _, rfl, rfl⟩
  | longLong value => exact ⟨'l', _, rfl, rfl⟩

theorem Field.reads {fmt : Text} {i : Nat} (f : Field) (hat : StandsAt fmt i f.text)
    (ap : List Arg) :
    Reads fmt (i + 1) Escape.start (f.args ++ ap)
      (f.conversion.char, i + f.text.length, f.escape, f.value.arg :: ap) := by
  have hflags := hat.tail
  have hwidth := hflags.append_right
  have hmodifier := hwidth.append_right
  have hconversion := hmodifier.append_right
  rw [List.length_map] at hwidth hmodifier hconversion
  have hlength : f.text.length = 1 + f.flags.length + f.width.text.length +
      f.value.modifier.length + 1 := by
    unfold Field.text
    simp only [List.length_cons, List.length_append, List.length_map, List.length_nil]
    lia
  have hread : Reads fmt _ f.escape (f.value.arg :: ap) _ :=
    Reads.conversion f.conversion hconversion.head
  have hend : i + 1 + f.flags.length + f.width.text.length + f.value.modifier.length + 1 =
      i + f.text.length := by lia
  rw [hend] at hread
  have hargs : f.args ++ ap = f.width.args ++ (f.value.arg :: ap) := by
    unfold Field.args
    rw [List.append_assoc]
    rfl
  rcases f.behind_width with ⟨c, s, hc, hdigit⟩
  rw [hc] at hwidth
  rw [hargs]
  apply Reads.flags hflags
  apply Reads.width hdigit f.width rfl rfl hwidth
  exact Reads.modifier f.value rfl hmodifier hread

end Printfmt
end OsLabs
