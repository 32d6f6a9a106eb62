import OsLabs.Printfmt.Escapes

/-!
# Numeric fields

The layout of an integer in a field, and when `vprintfmt` prints it.
-/

namespace OsLabs
namespace Printfmt

open Foundation

def Field.negative (f : Field) : Bool :=
  match f.conversion with
  | Conversion.d => f.value.signed < 0
  | _ => false

def Field.magnitude (f : Field) : Nat :=
  match f.conversion with
  | Conversion.d => f.value.signed.natAbs
  | _ => f.value.unsigned

def Field.base (f : Field) : Nat :=
  match f.conversion with
  | Conversion.d => 10
  | Conversion.u => 10
  | Conversion.o => 8
  | Conversion.x => 16

def Field.sign (f : Field) : List Int := if f.negative then [ord '-'] else []

def Field.digits (f : Field) : List Int := Printfmt.digits f.base f.magnitude

/-- The natural text in the field: behind blanks, with zeros behind the sign, or in front of
blanks. -/
def Field.layout (f : Field) : List Int :=
  let fill := f.width.value - (f.sign.length + f.digits.length)
  if Flag.minus ∈ f.flags then
    f.sign ++ f.digits ++ List.replicate fill (ord ' ')
  else if Flag.zero ∈ f.flags then
    f.sign ++ List.replicate fill (ord '0') ++ f.digits
  else
    List.replicate fill (ord ' ') ++ f.sign ++ f.digits

def Field.count (f : Field) : Nat := digitCount f.base f.magnitude

def Field.pads (f : Field) : Nat := (f.width.read - BitVec.ofNat 32 f.count).toInt.toNat

def Field.output (f : Field) : List Int :=
  f.sign ++ (List.replicate f.pads (ord (lastFlag ' ' f.flags)) ++ f.digits)

/-!
# The value
-/

section Value

theorem getint_arg (ap : List Arg) (value : Integer) :
    exists num, getint (value.arg :: ap) value.lflag = (num, ap) ∧ num.toInt = value.signed := by
  cases value with
  | int value => exact ⟨value.signExtend 64, rfl, BitVec.toInt_signExtend_of_le (by decide)⟩
  | long value => exact ⟨value.signExtend 64, rfl, BitVec.toInt_signExtend_of_le (by decide)⟩
  | longLong value => exact ⟨value, rfl, rfl⟩

theorem getuint_arg (ap : List Arg) (value : Integer) :
    exists num, getuint (value.arg :: ap) value.lflag = (num, ap) ∧
      num.toNat = value.unsigned := by
  cases value with
  | int value => exact ⟨value.setWidth 64, rfl, BitVec.toNat_setWidth_of_le (by decide)⟩
  | long value => exact ⟨value.setWidth 64, rfl, BitVec.toNat_setWidth_of_le (by decide)⟩
  | longLong value => exact ⟨value, rfl, rfl⟩

theorem toNat_neg_of_neg {num : BitVec 64} (h : num.toInt < 0) :
    (-num).toNat = num.toInt.natAbs := by
  have hlt := num.isLt
  rw [BitVec.toInt_eq_toNat_cond] at h ⊢
  rw [BitVec.toNat_neg]
  lia

variable {ap : List Arg}

theorem Field.output_eq (f : Field) {num : BitVec 64} {base : BitVec 32}
    (hnum : num.toNat = f.magnitude) (hbase : base.toNat = f.base) :
    f.output = f.sign ++ numberOutput f.escape num base := by
  unfold Field.output Field.pads Field.count Field.digits numberOutput printed
  rw [hnum, hbase]
  rfl

theorem Field.converts_signed (f : Field) {depth i : Nat} {fmt : Text}
    (hconversion : f.conversion = Conversion.d) :
    Converts depth fmt 'd' i f.escape (f.value.arg :: ap) f.output i ap := by
  rcases getint_arg ap f.value with ⟨num, hget, hnum⟩
  have hconvert := @convert_signed depth i fmt f.escape (f.value.arg :: ap)
  rw [show f.escape.lflag = f.value.lflag from rfl, hget] at hconvert
  have hmagnitude : f.magnitude = num.toInt.natAbs := by
    unfold Field.magnitude
    rw [hconversion, hnum]
  have hnegative : f.negative = decide (num.toInt < 0) := by
    unfold Field.negative
    rw [hconversion, hnum]
  have hbase : (10 : BitVec 32).toNat = f.base := by
    unfold Field.base
    rw [hconversion]
    rfl
  by_cases hneg : num.toInt < 0
  · have habs : (-num).toNat = f.magnitude := (toNat_neg_of_neg hneg).trans hmagnitude.symm
    rw [signedOutput, if_pos hneg] at hconvert
    rw [f.output_eq habs hbase, Field.sign, hnegative, decide_eq_true hneg]
    exact hconvert
  · have habs : num.toNat = f.magnitude := by
      have hnonneg := toNat_of_nonneg hneg
      rw [hmagnitude]
      lia
    rw [signedOutput, if_neg hneg] at hconvert
    rw [f.output_eq habs hbase, Field.sign, hnegative, decide_eq_false hneg]
    exact hconvert

theorem Field.converts_unsigned (f : Field) (base : BitVec 32) {depth i : Nat} {fmt : Text}
    (hch : (f.conversion.char, base) ∈ [('u', 10), ('o', 8), ('x', (16 : BitVec 32))])
    (hnegative : f.negative = false) (hmagnitude : f.magnitude = f.value.unsigned)
    (hbase : base.toNat = f.base) :
    Converts depth fmt f.conversion.char i f.escape (f.value.arg :: ap) f.output i ap := by
  rcases getuint_arg ap f.value with ⟨num, hget, hnum⟩
  have hconvert := @convert_unsigned depth i fmt f.escape (f.value.arg :: ap) _ _ hch
  rw [show f.escape.lflag = f.value.lflag from rfl, hget] at hconvert
  rw [f.output_eq (hnum.trans hmagnitude.symm) hbase, Field.sign, hnegative]
  exact hconvert

theorem Field.converts (f : Field) {depth i : Nat} {fmt : Text} :
    Converts depth fmt f.conversion.char i f.escape (f.value.arg :: ap) f.output i ap := by
  rcases f with ⟨flags, width, value, conversion⟩
  cases conversion with
  | d => exact Field.converts_signed _ rfl
  | u => exact Field.converts_unsigned _ 10 (by simp [Conversion.char]) rfl rfl rfl
  | o => exact Field.converts_unsigned _ 8 (by simp [Conversion.char]) rfl rfl rfl
  | x => exact Field.converts_unsigned _ 16 (by simp [Conversion.char]) rfl rfl rfl

end Value

/-- A field in a format is printed as `output` says. -/
theorem Field.printsFrom (f : Field) {depth i : Nat} {fmt : Text} {ap : List Arg}
    {rest : List Int} (hat : StandsAt fmt i f.text)
    (hrest : PrintsFrom depth fmt (i + f.text.length) ap rest) :
    PrintsFrom depth fmt i (f.args ++ ap) (f.output ++ rest) := by
  have hpos : 0 < f.text.length := Nat.succ_pos _
  exact PrintsFrom.escape hat.head (f.reads hat ap _ (by lia)) f.converts (by lia) hrest

/-!
# The layout
-/

theorem lastFlag_eq {padc : Char} {flags : List Flag} (hminus : Flag.minus ∉ flags) :
    lastFlag padc flags = if Flag.zero ∈ flags then '0' else padc := by
  induction flags generalizing padc with
  | nil => rfl
  | cons flag flags ih =>
      have hrest : Flag.minus ∉ flags := fun hmem => hminus (List.mem_cons_of_mem flag hmem)
      cases flag with
      | minus => exact absurd List.mem_cons_self hminus
      | zero =>
          rw [lastFlag, ih hrest, if_pos List.mem_cons_self]
          exact ite_self '0'

theorem digits_concat {base num : Nat} (hlow : 1 < base) (hhigh : base ≤ 16) :
    exists front d, digits base num = front ++ [d] ∧ d ≠ ord ' ' := by
  have hne : forall d, d < 16 -> ord (Nat.digitChar d) ≠ ord ' ' := by
    intro d hd
    have hall : forall d : Fin 16, ord (Nat.digitChar d) ≠ ord ' ' := by decide
    exact hall ⟨d, hd⟩
  by_cases hlt : num < base
  · exact ⟨[], _, digits_of_lt hlt, hne num (hlt.trans_le hhigh)⟩
  · have hmod : num % base < 16 := (Nat.mod_lt num (by lia)).trans_le hhigh
    exact ⟨_, _, digits_of_le hlow (Nat.not_lt.mp hlt), hne _ hmod⟩

namespace Field

variable (f : Field)

theorem base_bounds : 2 ≤ f.base ∧ f.base ≤ 16 := by
  unfold base
  cases f.conversion <;> decide

theorem magnitude_lt : f.magnitude < 2 ^ 64 := by
  rcases getint_arg [] f.value with ⟨num, _, hnum⟩
  rcases getuint_arg [] f.value with ⟨num', _, hnum'⟩
  have hlow := num.le_toInt
  have hhigh := num.toInt_lt
  have hlt := num'.isLt
  unfold magnitude
  cases f.conversion <;> lia

theorem count_pos : 0 < f.count := digitCount_pos _ _

theorem count_le : f.count ≤ 64 := digitCount_le f.magnitude_lt f.base_bounds.left

theorem digits_length : f.digits.length = f.count := Printfmt.digits_length _ _

theorem sign_length : f.sign.length = if f.negative then 1 else 0 := by
  unfold sign
  cases f.negative <;> rfl

theorem sign_of_nonneg (hneg : f.negative = false) : f.sign = [] := by
  unfold sign
  rw [hneg]
  rfl

theorem layout_length :
    f.layout.length = max f.width.value (f.sign.length + f.digits.length) := by
  unfold layout
  split
  · rw [List.length_append, List.length_append, List.length_replicate]
    lia
  · split
    · rw [List.length_append, List.length_append, List.length_replicate]
      lia
    · rw [List.length_append, List.length_append, List.length_replicate]
      lia

theorem output_length : f.output.length = f.sign.length + (f.pads + f.count) := by
  unfold output
  rw [List.length_append, List.length_append, List.length_replicate, f.digits_length]

theorem read_of_pos (h : 0 < f.width.value) : f.width.read = BitVec.ofNat 32 f.width.value := by
  cases hwidth : f.width with
  | absent =>
      rw [hwidth] at h
      exact absurd h (Nat.lt_irrefl 0)
  | number w hpos => rfl
  | star w hnonneg => exact (BitVec.ofNat_toNat 32 w).trans (BitVec.setWidth_eq w) |>.symm

theorem read_le (h : f.width.value ≤ 64) :
    -1 ≤ f.width.read.toInt ∧ f.width.read.toInt ≤ f.width.value := by
  cases hwidth : f.width with
  | absent => decide
  | number w hpos =>
      rw [hwidth] at h
      change w ≤ 64 at h
      change -1 ≤ (BitVec.ofNat 32 w).toInt ∧ (BitVec.ofNat 32 w).toInt ≤ w
      rw [BitVec.toInt_ofNat', Int.bmod_def]
      lia
  | star w hnonneg =>
      rw [hwidth] at h
      change w.toNat ≤ 64 at h
      change -1 ≤ w.toInt ∧ w.toInt ≤ w.toNat
      rw [BitVec.toInt_eq_toNat_cond]
      lia

theorem pads_of_le (h : f.width.value ≤ f.count) : f.pads = 0 := by
  have hpos := f.count_pos
  have hcount := f.count_le
  rcases f.read_le (h.trans hcount) with ⟨hlow, hhigh⟩
  unfold pads
  rw [BitVec.toInt_sub, BitVec.toInt_ofNat', Int.bmod_def, Int.bmod_def]
  lia

theorem pads_of_lt (h : f.count < f.width.value) :
    f.pads = (((f.width.value - f.count : Nat) : Int).bmod (2 ^ 32)).toNat := by
  have hcount : f.count < 2 ^ 32 := f.count_le.trans_lt (by decide)
  unfold pads
  rw [f.read_of_pos (Nat.zero_lt_of_lt h), BitVec.ofNat_sub_ofNat_of_le _ _ hcount h.le,
    BitVec.toInt_ofNat']

theorem output_eq_layout_of_le (h : f.width.value ≤ f.count) : f.output = f.layout := by
  have hfill : f.width.value - (f.sign.length + f.digits.length) = 0 := by
    rw [f.digits_length]
    lia
  unfold output layout
  simp only [f.pads_of_le h, hfill, List.replicate_zero, List.append_nil, List.nil_append]
  rw [ite_self, ite_self]

/-- A sign is not counted, so the output is too long. -/
theorem output_ne_layout_of_negative (h : f.count < f.width.value) (hneg : f.negative = true) :
    f.output ≠ f.layout := by
  intro heq
  have hlength := congrArg List.length heq
  have hpads := f.pads_of_lt h
  rw [f.output_length, f.layout_length, f.sign_length, f.digits_length, hneg, if_pos rfl]
    at hlength
  rw [Int.bmod_def] at hpads
  lia

/-- The blanks on the right are missing. -/
theorem output_ne_layout_of_minus (h : f.count < f.width.value) (hneg : f.negative = false)
    (hminus : Flag.minus ∈ f.flags) : f.output ≠ f.layout := by
  rcases @digits_concat f.base f.magnitude f.base_bounds.left f.base_bounds.right with
    ⟨front, d, hdigits, hd⟩
  have hsign := f.sign_of_nonneg hneg
  have hfill : exists n, f.width.value - (f.sign.length + f.digits.length) = n + 1 := by
    rw [hsign, f.digits_length, List.length_nil, Nat.zero_add]
    exact ⟨f.width.value - f.count - 1, by lia⟩
  rcases hfill with ⟨n, hfill⟩
  intro heq
  unfold output layout at heq
  rw [if_pos hminus] at heq
  have hdigits' : f.digits = front ++ [d] := hdigits
  rw [hfill, List.replicate_succ', hdigits', ← List.append_assoc, ← List.append_assoc,
    ← List.append_assoc] at heq
  have hlast := List.append_inj_right' heq rfl
  exact hd (List.cons.inj hlast).left

theorem output_eq_layout_iff_of_left (h : f.count < f.width.value) (hneg : f.negative = false)
    (hminus : Flag.minus ∉ f.flags) :
    f.output = f.layout <-> f.width.value < 2 ^ 31 + f.count := by
  have hsign := f.sign_of_nonneg hneg
  have hlayout : f.layout =
      List.replicate (f.width.value - f.count) (ord (lastFlag ' ' f.flags)) ++ f.digits := by
    unfold layout
    rw [if_neg hminus, lastFlag_eq hminus, hsign, f.digits_length, List.length_nil, Nat.zero_add]
    split
    · rfl
    · rw [List.append_nil]
  have hpads := f.pads_of_lt h
  rw [Int.bmod_def] at hpads
  rw [hlayout, output, hsign, List.nil_append, List.append_left_inj, List.replicate_left_inj]
  lia

theorem output_eq_layout_iff :
    f.output = f.layout <->
      f.width.value ≤ f.count ∨
        f.width.value < 2 ^ 31 + f.count ∧ f.negative = false ∧ Flag.minus ∉ f.flags := by
  by_cases hle : f.width.value ≤ f.count
  · exact ⟨fun _ => Or.inl hle, fun _ => f.output_eq_layout_of_le hle⟩
  · have hlt := Nat.not_le.mp hle
    cases hneg : f.negative with
    | true =>
        have hne := f.output_ne_layout_of_negative hlt hneg
        simp [hle, hne]
    | false =>
        by_cases hminus : Flag.minus ∈ f.flags
        · have hne := f.output_ne_layout_of_minus hlt hneg hminus
          simp [hle, hne, hminus]
        · rw [f.output_eq_layout_iff_of_left hlt hneg hminus]
          simp [hle, hminus]

end Field

/-- Every escape sequence for an integer, anywhere in a format, is printed in the layout that
its flags and width ask for, if it is not wider than its digits, or has neither a sign nor a
minus flag and the blanks or zeros can be counted by an `int`.  In all other cases something
else is printed. -/
theorem numeric_field_exact (f : Field) (fmt : Text) (i : Nat) (ap : List Arg)
    (hat : StandsAt fmt i f.text) :
    exists out rest, PrintsFrom 1 fmt (i + f.text.length) ap rest ∧
      PrintsFrom 1 fmt i (f.args ++ ap) (out ++ rest) ∧
      (out = f.layout <->
        f.width.value ≤ f.count ∨
          f.width.value < 2 ^ 31 + f.count ∧ f.negative = false ∧ Flag.minus ∉ f.flags) := by
  have hlt := lt_size_of_ne hat.head (by decide)
  have hlength := hat.length_le
  have hrest : PrintsFrom 1 fmt (i + f.text.length) ap
      (formattedFrom fmt (fmt.size + 1) (i + f.text.length) ap) :=
    printsFrom_formatted (errorsEmit 0) (by lia) (by lia)
  exact ⟨f.output, _, hrest, f.printsFrom hat hrest, f.output_eq_layout_iff⟩

def fiveWide : Field :=
  ⟨[Flag.minus, Flag.zero], FieldWidth.number 5 (by decide), Integer.int 42, Conversion.d⟩

def fiveWideFormat : Text := ⟨"<%-05d>".toList, by decide, by decide⟩

theorem numeric_field_exact_five :
    StandsAt fiveWideFormat 1 fiveWide.text ∧
    exists out rest,
      PrintsFrom 1 fiveWideFormat (1 + fiveWide.text.length) [] rest ∧
      PrintsFrom 1 fiveWideFormat 1 (fiveWide.args ++ []) (out ++ rest) ∧
      (out = fiveWide.layout <->
        fiveWide.width.value ≤ fiveWide.count ∨
          fiveWide.width.value < 2 ^ 31 + fiveWide.count ∧ fiveWide.negative = false ∧
            Flag.minus ∉ fiveWide.flags) := by
  have hat : StandsAt fiveWideFormat 1 fiveWide.text := ⟨['>'], by decide⟩
  exact ⟨hat, numeric_field_exact fiveWide fiveWideFormat 1 [] hat⟩

def minusFortyTwo : Field :=
  ⟨[], FieldWidth.number 5 (by decide), Integer.int (-42), Conversion.d⟩

def minusFortyTwoFormat : Text := ⟨"%5d".toList, by decide, by decide⟩

/-- The sign is printed in front of the blanks and makes one character too many. -/
theorem sign_before_blanks :
    StandsAt minusFortyTwoFormat 0 minusFortyTwo.text ∧
    minusFortyTwo.layout = chars "  -42".toList ∧
    Prints minusFortyTwoFormat minusFortyTwo.args (chars "-   42".toList) ∧
    ¬ Prints minusFortyTwoFormat minusFortyTwo.args minusFortyTwo.layout := by
  have hprints : Prints minusFortyTwoFormat minusFortyTwo.args (chars "-   42".toList) := by
    intro sink putch dat
    rfl
  have hlayout : minusFortyTwo.layout = chars "  -42".toList := by decide
  refine ⟨⟨[], by decide⟩, hlayout, hprints, ?_⟩
  intro hother
  have heq := hprints.unique hother
  rw [hlayout] at heq
  exact absurd heq (by decide)

end Printfmt
end OsLabs
