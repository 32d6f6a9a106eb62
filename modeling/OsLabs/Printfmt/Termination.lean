import OsLabs.Printfmt.Formatted

/-!
# Every format is printed

`vprintfmt` stops on every format and prints what it stands for, whatever `putch` is: each
escape sequence ends behind its `%`, also the ones that are not recognised, which are printed
as they stand.
-/

namespace OsLabs
namespace Printfmt

open Foundation

/-!
# Reading a text
-/

section Reading

variable {fmt : Text} {i : Nat} {c : Char}

theorem at?_of_lt (h : i < fmt.size) : fmt.at? i = some fmt.chars[i] := by
  unfold Text.at?
  rw [List.getElem?_append_left h, List.getElem?_eq_getElem h]

theorem at?_size (fmt : Text) : fmt.at? fmt.size = some nul := by
  unfold Text.at?
  rw [List.getElem?_concat_length]

theorem at?_isSome (h : i ≤ fmt.size) : exists c, fmt.at? i = some c := by
  cases Nat.eq_or_lt_of_le h with
  | inl heq => exact ⟨nul, heq ▸ at?_size fmt⟩
  | inr hlt => exact ⟨_, at?_of_lt hlt⟩

theorem at?_le (hc : fmt.at? i = some c) : i ≤ fmt.size := by
  rcases List.getElem?_eq_some_iff.mp hc with ⟨hlt, _⟩
  rw [List.length_append, List.length_singleton] at hlt
  exact Nat.lt_succ_iff.mp hlt

theorem lt_size_of_ne (hc : fmt.at? i = some c) (hne : c ≠ nul) : i < fmt.size := by
  apply lt_of_le_of_ne (at?_le hc)
  intro heq
  rw [heq, at?_size] at hc
  exact hne (Option.some.inj hc).symm

theorem slice_self (fmt : Text) (i : Nat) : fmt.slice i i = [] := by
  unfold Text.slice
  rw [Nat.sub_self, List.take_zero]

theorem slice_cons {j : Nat} (hlt : i < fmt.size) (hij : i < j) (hc : fmt.chars[i] = c) :
    fmt.slice i j = c :: fmt.slice (i + 1) j := by
  unfold Text.slice
  rw [List.drop_eq_getElem_cons hlt, List.take_cons (by lia), Nat.sub_add_eq, hc]

end Reading

def isFlag (c : Char) : Bool := c ∈ ['-', '*', '.', '#', 'l'] || c.isDigit

def Flags (fmt : Text) (i j : Nat) : Prop :=
  forall k, i ≤ k -> k < j -> exists c, fmt.at? k = some c ∧ isFlag c

/-- The scan of an escape sequence from `i` on ends at the first character that is none of
them. -/
def Scanned (fmt : Text) (i : Nat) (scan : Option (Char × Nat × Escape × List Arg)) : Prop :=
  exists ch k e ap, scan = some (ch, k + 1, e, ap) ∧ i ≤ k ∧ fmt.at? k = some ch ∧ Flags fmt i k

section Scan

variable {fmt : Text} {i j : Nat} {c : Char}

theorem Flags.refl (fmt : Text) (i : Nat) : Flags fmt i i := by
  intro k hlow hhigh
  lia

theorem Flags.cons (hc : fmt.at? i = some c) (hflag : isFlag c) (h : Flags fmt (i + 1) j) :
    Flags fmt i j := by
  intro k hlow hhigh
  by_cases hk : k = i
  · exact ⟨c, hk ▸ hc, hflag⟩
  · exact h k (by lia) hhigh

theorem Flags.append {k : Nat} (h : Flags fmt i j) (h' : Flags fmt j k) : Flags fmt i k := by
  intro m hlow hhigh
  by_cases hm : m < j
  · exact h m hlow hm
  · exact h' m (by lia) hhigh

theorem isFlag_of_isDigit (hdigit : c.isDigit = true) : isFlag c := by
  unfold isFlag
  rw [hdigit, Bool.or_true]

theorem isDigit_of_between (h : '1' ≤ c ∧ c ≤ '9') : c.isDigit = true := by
  have hzero : '0'.toNat ≤ '1'.toNat := by decide
  exact Char.isDigit_iff_toNat.mpr ⟨hzero.trans h.left, h.right⟩

theorem lt_size_of_isFlag (hc : fmt.at? i = some c) (hflag : isFlag c) : i < fmt.size := by
  apply lt_size_of_ne hc
  intro hnul
  rw [hnul] at hflag
  exact absurd hflag (by decide)

theorem Scanned.cons {scan : Option (Char × Nat × Escape × List Arg)}
    (hflags : Flags fmt i j) (hij : i ≤ j) (h : Scanned fmt j scan) : Scanned fmt i scan := by
  rcases h with ⟨ch, k, e, ap, hscan, hjk, hat, hrest⟩
  exact ⟨ch, k, e, ap, hscan, hij.trans hjk, hat, hflags.append hrest⟩

theorem readNumber_spec {fuel i : Nat} {ch : Char} {precision : BitVec 32} (hi : i ≤ fmt.size)
    (hfuel : fmt.size - i < fuel) :
    exists value j, readNumber fmt fuel ch precision i = some (value, j) ∧
      i ≤ j ∧ j ≤ fmt.size ∧ Flags fmt i j := by
  induction fuel generalizing i ch precision with
  | zero => lia
  | succ fuel ih =>
      rcases at?_isSome hi with ⟨c, hc⟩
      unfold readNumber
      simp only [hc, Option.bind_eq_bind, Option.bind_some]
      cases hdigit : c.isDigit with
      | true =>
          have hflag := isFlag_of_isDigit hdigit
          have hlt := lt_size_of_isFlag hc hflag
          rw [if_pos rfl]
          rcases @ih (i + 1) c _ hlt (by lia) with ⟨value, j, hrun, hij, hj, hflags⟩
          exact ⟨value, j, hrun, by lia, hj, hflags.cons hc hflag⟩
      | false => exact ⟨_, i, rfl, Nat.le_refl i, hi, Flags.refl fmt i⟩

theorem reswitch_spec {fuel i : Nat} {e : Escape} {ap : List Arg} (hi : i ≤ fmt.size)
    (hfuel : fmt.size - i < fuel) : Scanned fmt i (reswitch fmt fuel i e ap) := by
  induction fuel generalizing i e ap with
  | zero => lia
  | succ fuel ih =>
      rcases at?_isSome hi with ⟨c, hc⟩
      have hnext : forall (e : Escape) (ap : List Arg), isFlag c ->
          Scanned fmt i (reswitch fmt fuel (i + 1) e ap) := by
        intro e ap hflag
        have hlt := lt_size_of_isFlag hc hflag
        exact Scanned.cons ((Flags.refl fmt (i + 1)).cons hc hflag) (Nat.le_succ i)
          (ih hlt (by lia))
      unfold reswitch
      simp only [hc, Option.bind_eq_bind, Option.bind_some]
      split
      · exact hnext _ _ rfl
      · exact hnext _ _ rfl
      · exact hnext _ _ rfl
      · exact hnext _ _ rfl
      · exact hnext _ _ rfl
      · exact hnext _ _ rfl
      · split
        · next hdigit =>
          have hflag := isFlag_of_isDigit (isDigit_of_between hdigit)
          have hlt := lt_size_of_isFlag hc hflag
          rcases @readNumber_spec fmt (fmt.size + 1) (i + 1) c 0 hlt (by lia) with
            ⟨value, j, hread, hij, hj, hflags⟩
          rw [hread, Option.bind_some]
          exact Scanned.cons (hflags.cons hc hflag) (by lia) (ih hj (by lia))
        · exact ⟨c, i, e, ap, rfl, Nat.le_refl i, hc, Flags.refl fmt i⟩

/-- There is no `%` between the start of an escape sequence and its end. -/
theorem recover_spec (hat : fmt.at? i = some '%') (hij : i < j) (hflags : Flags fmt (i + 1) j) :
    recover fmt j = some (i + 1) := by
  induction j with
  | zero => lia
  | succ j ih =>
      unfold recover
      by_cases hj : j = i
      · rw [hj, hat]
        rfl
      · rcases hflags j (by lia) (Nat.lt_succ_self j) with ⟨c, hc, hflag⟩
        have hne : c ≠ '%' := by
          intro heq
          rw [heq] at hflag
          exact absurd hflag (by decide)
        rw [hc, Option.bind_eq_bind, Option.bind_some, if_neg hne]
        exact ih (by lia) fun k hlow hhigh => hflags k hlow (by lia)

end Scan

/-!
# The output of a conversion
-/

/-- A conversion prints `out`, whatever `putch` is, and leaves the format at `j`. -/
def Converts (depth : Nat) (fmt : Text) (ch : Char) (i : Nat) (e : Escape) (ap : List Arg)
    (out : List Int) (j : Nat) (ap' : List Arg) : Prop :=
  forall (sink : Type) (putch : Int -> sink -> sink) (dat : sink),
    convert putch (vprintfmtDepth putch depth) fmt ch i e ap dat =
      some (emit putch dat out, j, ap')

def ErrorsEmit (depth : Nat) : Prop :=
  forall err, Emits
    (fun _ putch dat => convertError (vprintfmtDepth putch depth) err dat) (errorOutput err)

section Conversions

variable {depth i : Nat} {fmt : Text} {e : Escape} {ap : List Arg}

theorem toNat_of_nonneg {w : Nat} {x : BitVec w} (h : ¬ x.toInt < 0) :
    (x.toNat : Int) = x.toInt := by
  have hlt := x.isLt
  rw [BitVec.toInt_eq_toNat_cond] at h ⊢
  split at h
  · rw [if_pos ‹_›]
  · omega

theorem toInt_pred {x : BitVec 32} (h : ¬ x.toInt < 0) : (x - 1).toInt = x.toInt - 1 := by
  have hone : (1 : BitVec 32).toInt = 1 := rfl
  have hlt := x.toInt_lt
  rw [BitVec.toInt_sub, hone]
  apply Int.bmod_eq_of_le
  · omega
  · omega

theorem shownCount_nil (precision : BitVec 32) : shownCount [] precision = 0 := by
  unfold shownCount
  rw [List.length_nil, Nat.zero_min, ite_self]

theorem shownCount_cons {ch : Char} {p : List Char} {precision : BitVec 32}
    (h : precision.toInt < 0 ∨ 0 ≤ (precision - 1).toInt) :
    shownCount (ch :: p) precision =
      shownCount p (if precision.toInt < 0 then precision else precision - 1) + 1 := by
  unfold shownCount
  by_cases hneg : precision.toInt < 0
  · rw [if_pos hneg, if_pos hneg, if_pos hneg, List.length_cons]
  · have hnext := not_lt_of_ge (h.resolve_left hneg)
    have htoNat := toNat_of_nonneg hneg
    have htoNat' := toNat_of_nonneg hnext
    rw [toInt_pred hneg] at hnext htoNat'
    have hsucc : precision.toNat = (precision - 1).toNat + 1 := by omega
    rw [if_neg hneg, if_neg hneg, toInt_pred hneg, if_neg hnext, List.length_cons, hsucc,
      Nat.add_min_add_right]

theorem shownCount_stop {ch : Char} {p : List Char} {precision : BitVec 32}
    (h : ¬ (precision.toInt < 0 ∨ 0 ≤ (precision - 1).toInt)) :
    shownCount (ch :: p) precision = 0 := by
  rw [not_or] at h
  rcases h with ⟨hneg, hlast⟩
  have htoNat := toNat_of_nonneg hneg
  rw [toInt_pred hneg] at hlast
  have hzero : precision.toNat = 0 := by omega
  unfold shownCount
  rw [if_neg hneg, hzero, Nat.min_zero]

theorem putString_spec {sink : Type} (putch : Int -> sink -> sink) (altflag : Bool)
    (p : List Char) (width precision : BitVec 32) (dat : sink) :
    putString putch altflag p width precision dat =
      (width - BitVec.ofNat 32 (shownCount p precision),
        emit putch dat ((p.take (shownCount p precision)).map (shownChar altflag))) := by
  induction p generalizing width precision dat with
  | nil =>
      rw [shownCount_nil]
      exact Prod.ext (BitVec.sub_zero width).symm rfl
  | cons ch p ih =>
      unfold putString
      by_cases hshow : precision.toInt < 0 ∨ 0 ≤ (precision - 1).toInt
      · rw [if_pos hshow, ih, shownCount_cons hshow, List.take_succ_cons, List.map_cons,
          emit_cons, BitVec.ofNat_add, add_comm, ← sub_sub]
        rfl
      · rw [if_neg hshow, shownCount_stop hshow]
        exact Prod.ext (BitVec.sub_zero width).symm rfl

theorem convertString_spec {sink : Type} (putch : Int -> sink -> sink) (e : Escape) (p : Text)
    (dat : sink) : convertString putch e p dat = emit putch dat (stringOutput e p) := by
  unfold convertString stringOutput
  by_cases hpad : 0 < e.width.toInt ∧ e.padc ≠ '-'
  · simp only [if_pos hpad, putString_spec, pad_eq]
    rw [emit_append, emit_append]
  · simp only [if_neg hpad, putString_spec, pad_eq]
    rw [emit_append]

theorem number_spec {sink : Type} (putch : Int -> sink -> sink) (e : Escape) (num : BitVec 64)
    {base : BitVec 32} (dat : sink) (hlow : 2 ≤ base.toNat) (hhigh : base.toNat ≤ 16) :
    number putch e num base dat = some (emit putch dat (numberOutput e num base)) :=
  printnum_spec putch hlow hhigh (digitCount_le num.isLt hlow)

theorem convert_signed :
    Converts depth fmt 'd' i e ap (signedOutput e (getint ap e.lflag).1) i
      (getint ap e.lflag).2 := by
  intro sink putch dat
  unfold convert signedOutput
  by_cases hneg : (getint ap e.lflag).1.toInt < 0
  · simp only [if_pos hneg]
    rw [number_spec _ _ _ _ (by decide) (by decide)]
    rfl
  · simp only [if_neg hneg]
    rw [number_spec _ _ _ _ (by decide) (by decide)]
    rfl

theorem convert_unsigned {ch : Char} {base : BitVec 32}
    (hch : (ch, base) ∈ [('u', 10), ('o', 8), ('x', (16 : BitVec 32))]) :
    Converts depth fmt ch i e ap (numberOutput e (getuint ap e.lflag).1 base) i
      (getuint ap e.lflag).2 := by
  intro sink putch dat
  simp only [List.mem_cons, Prod.mk.injEq, List.not_mem_nil, or_false] at hch
  rcases hch with ⟨rfl, rfl⟩ | ⟨rfl, rfl⟩ | ⟨rfl, rfl⟩
  all_goals
    unfold convert
    simp only
    rw [number_spec _ _ _ _ (by decide) (by decide)]
    rfl

theorem convert_pointer :
    Converts depth fmt 'p' i e ap (converted 'p' e ap).1 i (converted 'p' e ap).2 := by
  intro sink putch dat
  unfold convert
  simp only
  rw [number_spec _ _ _ _ (by decide) (by decide)]
  rfl

theorem convert_error (herrors : ErrorsEmit depth) :
    Converts depth fmt 'e' i e ap (converted 'e' e ap).1 i (converted 'e' e ap).2 := by
  intro sink putch dat
  have hrun := herrors (vaArg Arg.asInt 0 ap).1 sink putch dat
  unfold convert
  simp only at hrun ⊢
  rw [hrun]
  rfl

theorem convert_string :
    Converts depth fmt 's' i e ap (converted 's' e ap).1 i (converted 's' e ap).2 := by
  intro sink putch dat
  unfold convert
  simp only
  rw [convertString_spec]
  rfl

theorem convert_known (herrors : ErrorsEmit depth) {ch : Char} (hch : ch ∈ conversions) :
    Converts depth fmt ch i e ap (converted ch e ap).1 i (converted ch e ap).2 := by
  simp only [conversions, List.mem_cons, List.not_mem_nil, or_false] at hch
  rcases hch with rfl | rfl | rfl | rfl | rfl | rfl | rfl | rfl | rfl
  · exact fun _ _ _ => rfl
  · exact convert_error herrors
  · exact convert_string
  · exact convert_signed
  · exact @convert_unsigned depth i fmt e ap 'u' 10 (by simp)
  · exact @convert_unsigned depth i fmt e ap 'o' 8 (by simp)
  · exact convert_pointer
  · exact @convert_unsigned depth i fmt e ap 'x' 16 (by simp)
  · exact fun _ _ _ => rfl

/-- The scan goes back behind the `%`, which is printed. -/
theorem convert_unknown {ch : Char} {j : Nat} (hch : ch ∉ conversions)
    (hrecover : recover fmt (i - 1) = some j) :
    Converts depth fmt ch i e ap [ord '%'] j ap := by
  intro sink putch dat
  unfold convert
  split
  case h_10 =>
    rw [hrecover]
    rfl
  all_goals exact absurd (by decide) hch

end Conversions

/-!
# The output of a format
-/

def PrintsFrom (depth : Nat) (fmt : Text) (i : Nat) (ap : List Arg) (out : List Int) : Prop :=
  forall fuel, fmt.size - i < fuel ->
    Emits (fun _ putch dat =>
      vprintfmtLoop putch (vprintfmtDepth putch depth) fmt fuel i ap dat) out

section Formats

variable {depth i : Nat} {fmt : Text} {ap : List Arg} {out rest : List Int}

theorem PrintsFrom.unique {out' : List Int} (h : PrintsFrom depth fmt i ap out)
    (h' : PrintsFrom depth fmt i ap out') : out = out' :=
  (h _ (Nat.lt_succ_self _)).unique (h' _ (Nat.lt_succ_self _))

theorem PrintsFrom.round
    (h : forall fuel, fmt.size - i ≤ fuel ->
      forall (sink : Type) (putch : Int -> sink -> sink) (dat : sink),
        vprintfmtLoop putch (vprintfmtDepth putch depth) fmt (fuel + 1) i ap dat =
          some (emit putch dat out)) :
    PrintsFrom depth fmt i ap out := by
  intro fuel hfuel
  cases fuel with
  | zero => lia
  | succ fuel => exact h fuel (Nat.lt_succ_iff.mp hfuel)

theorem PrintsFrom.stop (depth : Nat) (fmt : Text) (ap : List Arg) :
    PrintsFrom depth fmt fmt.size ap [] := by
  have hne : nul ≠ '%' := by decide
  apply PrintsFrom.round
  intro fuel _ sink putch dat
  rw [vprintfmtLoop, at?_size, Option.bind_eq_bind, Option.bind_some, if_pos hne, if_pos rfl]
  rfl

theorem PrintsFrom.char {c : Char} (hc : fmt.at? i = some c) (hne : c ≠ '%') (hnul : c ≠ nul)
    (hrest : PrintsFrom depth fmt (i + 1) ap rest) :
    PrintsFrom depth fmt i ap (ord c :: rest) := by
  have hlt := lt_size_of_ne hc hnul
  apply PrintsFrom.round
  intro fuel hfuel sink putch dat
  rw [vprintfmtLoop, hc, Option.bind_eq_bind, Option.bind_some, if_pos hne, if_neg hnul,
    emit_cons]
  exact hrest fuel (by lia) sink putch _

theorem PrintsFrom.escape {ch : Char} {j k : Nat} {e : Escape} {ap' ap'' : List Arg}
    (hat : fmt.at? i = some '%')
    (hscan : reswitch fmt (fmt.size + 1) (i + 1) Escape.start ap = some (ch, j, e, ap'))
    (hconvert : Converts depth fmt ch j e ap' out k ap'') (hik : i < k)
    (hrest : PrintsFrom depth fmt k ap'' rest) :
    PrintsFrom depth fmt i ap (out ++ rest) := by
  have hlt := lt_size_of_ne hat (by decide)
  apply PrintsFrom.round
  intro fuel hfuel sink putch dat
  rw [vprintfmtLoop, hat, Option.bind_eq_bind, Option.bind_some, if_neg (not_not_intro rfl),
    hscan, Option.bind_eq_bind, Option.bind_some]
  simp only [hconvert sink putch dat, Option.bind_eq_bind, Option.bind_some]
  rw [emit_append]
  exact hrest fuel (by lia) sink putch _

theorem PrintsFrom.literal {j : Nat} (hij : i ≤ j) (hj : j ≤ fmt.size)
    (hplain : forall k, i ≤ k -> k < j -> fmt.at? k ≠ some '%')
    (hrest : PrintsFrom depth fmt j ap rest) :
    PrintsFrom depth fmt i ap (chars (fmt.slice i j) ++ rest) := by
  induction hij using Nat.decreasingInduction with
  | self =>
      rw [slice_self]
      exact hrest
  | of_succ i hi ih =>
      have hlt : i < fmt.size := by lia
      have hc := at?_of_lt hlt
      have hslice := slice_cons hlt hi rfl
      have hne : fmt.chars[i] ≠ '%' := fun heq => hplain i (Nat.le_refl i) hi (heq ▸ hc)
      have hnul : fmt.chars[i] ≠ nul := fun heq => fmt.nul_not_mem (heq ▸ List.getElem_mem hlt)
      rw [hslice]
      exact PrintsFrom.char hc hne hnul (ih fun k hlow hhigh => hplain k (by lia) hhigh)

/-- An escape sequence that is not recognised is printed as it stands, up to its last
character or the end of the format. -/
theorem PrintsFrom.unrecognised {ch : Char} {k : Nat} {e : Escape} {ap' : List Arg}
    (hat : fmt.at? i = some '%')
    (hscan : reswitch fmt (fmt.size + 1) (i + 1) Escape.start ap = some (ch, k, e, ap'))
    (hch : ch ∉ conversions) (hrest : PrintsFrom depth fmt (min k fmt.size) ap' rest) :
    PrintsFrom depth fmt i ap (chars (fmt.slice i (min k fmt.size)) ++ rest) := by
  have hlt := lt_size_of_ne hat (by decide)
  rcases @reswitch_spec fmt (fmt.size + 1) (i + 1) Escape.start ap hlt (by lia) with
    ⟨ch', j, e', ap'', hscan', hij, hj, hflags⟩
  rw [hscan] at hscan'
  cases hscan'
  have hsize := at?_le hj
  have hrecover := recover_spec hat hij hflags
  have hplain : forall m, i + 1 ≤ m -> m < min (j + 1) fmt.size -> fmt.at? m ≠ some '%' := by
    intro m hlow hhigh heq
    by_cases hm : m < j
    · rcases hflags m hlow hm with ⟨c, hc, hflag⟩
      rw [heq] at hc
      cases hc
      exact absurd hflag (by decide)
    · have hmj : m = j := by lia
      rw [hmj, hj] at heq
      cases heq
      exact hch (by decide)
  have hslice : fmt.slice i (min (j + 1) fmt.size) =
      '%' :: fmt.slice (i + 1) (min (j + 1) fmt.size) := by
    rw [at?_of_lt hlt] at hat
    exact slice_cons hlt (by lia) (Option.some.inj hat)
  have hliteral := PrintsFrom.literal (by lia) (Nat.min_le_right _ _) hplain hrest
  have hconvert : Converts depth fmt ch (j + 1) e ap' [ord '%'] (i + 1) ap' :=
    convert_unknown hch hrecover
  have hall := PrintsFrom.escape hat hscan hconvert (Nat.lt_succ_self i) hliteral
  rw [hslice]
  exact hall

/-- Every escape sequence leaves the format behind its `%`. -/
theorem printsFrom_formatted (herrors : ErrorsEmit depth) {fuel : Nat} (hi : i ≤ fmt.size)
    (hfuel : fmt.size - i < fuel) :
    PrintsFrom depth fmt i ap (formattedFrom fmt fuel i ap) := by
  induction fuel generalizing i ap with
  | zero => lia
  | succ fuel ih =>
      unfold formattedFrom
      by_cases hend : i = fmt.size
      · rw [hend, List.getElem?_eq_none (Nat.le_refl _)]
        exact PrintsFrom.stop depth fmt ap
      · have hlt : i < fmt.size := lt_of_le_of_ne hi hend
        have hat := at?_of_lt hlt
        rw [List.getElem?_eq_getElem hlt]
        simp only
        by_cases hpercent : fmt.chars[i] = '%'
        · rw [hpercent] at hat
          rcases @reswitch_spec fmt (fmt.size + 1) (i + 1) Escape.start ap hlt (by lia) with
            ⟨ch, j, e, ap', hscan, hij, hj, hflags⟩
          have hjle := at?_le hj
          rw [if_pos hpercent, hscan]
          simp only
          by_cases hch : ch ∈ conversions
          · have hne : ch ≠ nul := by
              intro hnul
              rw [hnul] at hch
              exact absurd hch (by decide)
            have hjlt := lt_size_of_ne hj hne
            rw [if_pos hch]
            exact PrintsFrom.escape hat hscan (convert_known herrors hch) (by lia)
              (ih hjlt (by lia))
          · rw [if_neg hch]
            exact PrintsFrom.unrecognised hat hscan hch
              (ih (Nat.min_le_right _ _) (by lia))
        · have hnul : fmt.chars[i] ≠ nul :=
            fun heq => fmt.nul_not_mem (heq ▸ List.getElem_mem hlt)
          rw [if_neg hpercent]
          exact PrintsFrom.char hat hpercent hnul (ih hlt (by lia))

theorem PrintsFrom.depth_succ (h : PrintsFrom depth fmt 0 ap out) :
    Emits (fun _ putch dat => vprintfmtDepth putch (depth + 1) fmt ap dat) out :=
  h (fmt.size + 1) (Nat.lt_succ_self _)

end Formats

section Errors

variable (depth : Nat)

theorem errorNumber_prints (err : BitVec 32) :
    PrintsFrom depth errorNumberFormat 0 [Arg.int err]
      (chars "error ".toList ++ signedOutput Escape.start (err.signExtend 64)) := by
  have hplain : forall k, 0 ≤ k -> k < 6 -> errorNumberFormat.at? k ≠ some '%' := by
    intro k _ hk
    have hall : forall k : Fin 6, errorNumberFormat.at? k.val ≠ some '%' := by decide
    exact hall ⟨k, hk⟩
  have hscan : reswitch errorNumberFormat (errorNumberFormat.size + 1) 7 Escape.start
      [Arg.int err] = some ('d', 8, Escape.start, [Arg.int err]) := rfl
  have hstop : PrintsFrom depth errorNumberFormat 8 [] [] :=
    PrintsFrom.stop depth errorNumberFormat []
  have hescape := PrintsFrom.escape (i := 6) rfl hscan convert_signed (by decide) hstop
  have hall := PrintsFrom.literal (Nat.zero_le 6) (by decide) hplain hescape
  rw [List.append_nil] at hall
  exact hall

theorem errorText_prints (p : Text) :
    PrintsFrom depth errorTextFormat 0 [Arg.string (some p)] (stringOutput Escape.start p) := by
  have hscan : reswitch errorTextFormat (errorTextFormat.size + 1) 1 Escape.start
      [Arg.string (some p)] = some ('s', 2, Escape.start, [Arg.string (some p)]) := rfl
  have hstop : PrintsFrom depth errorTextFormat 2 [] [] :=
    PrintsFrom.stop depth errorTextFormat []
  have hall := PrintsFrom.escape rfl hscan convert_string (by decide) hstop
  rw [List.append_nil] at hall
  exact hall

/-- One level down from `%e` both formats that are used are printed. -/
theorem errorsEmit : ErrorsEmit (depth + 1) := by
  intro err sink putch dat
  unfold convertError errorOutput
  generalize (if err.toInt < 0 then -err else err) = value
  cases htext : if (MAXERROR : Int) < value.toInt then none else errorString value with
  | none =>
      simp only [htext]
      exact (errorNumber_prints depth value).depth_succ sink putch dat
  | some p =>
      simp only [htext]
      exact (errorText_prints depth p).depth_succ sink putch dat

end Errors

def Prints (fmt : Text) (ap : List Arg) (out : List Int) : Prop :=
  Emits (fun _ putch dat => vprintfmt putch fmt ap dat) out

theorem prints_of_printsFrom {fmt : Text} {ap : List Arg} {out : List Int}
    (h : PrintsFrom 1 fmt 0 ap out) : Prints fmt ap out := h.depth_succ

theorem prints_formatted (fmt : Text) (ap : List Arg) : Prints fmt ap (formatted fmt ap) :=
  prints_of_printsFrom
    (printsFrom_formatted (errorsEmit 0) (Nat.zero_le _) (Nat.lt_succ_self _))

end Printfmt
end OsLabs
