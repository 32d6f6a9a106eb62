import OsLabs.Printfmt.Fields

/-!
# Printing into a buffer

`vsnprintf` in `printfmt.c` and its `putch`.  The buffer is in the memory of the machine; the
`struct sprintbuf` and the texts that are printed are elsewhere.
-/

namespace OsLabs
namespace Printfmt

open Foundation

abbrev Memory := BitVec 32 -> BitVec 8

structure Sprintbuf where
  buf : BitVec 32
  ebuf : BitVec 32
  cnt : BitVec 32

def sprintputch (ch : Int) (dat : Sprintbuf × Memory) : Sprintbuf × Memory :=
  let b := { dat.1 with cnt := dat.1.cnt + 1 }
  if b.buf.toNat < b.ebuf.toNat then
    ({ b with buf := b.buf + 1 }, Function.update dat.2 b.buf (BitVec.ofInt 8 ch))
  else
    (b, dat.2)

def vsnprintf (mem : Memory) (str size : BitVec 32) (fmt : Text) (ap : List Arg) :
    Option (Int × Memory) :=
  let b : Sprintbuf := ⟨str, str + size - 1, 0⟩
  if str = 0 ∨ b.ebuf.toNat < b.buf.toNat then
    some (-(E_INVAL : Int), mem)
  else do
    let (b, mem) <- vprintfmt sprintputch fmt ap (b, mem)
    some (b.cnt.toInt, Function.update mem b.buf 0)

def address (str : BitVec 32) (k : Nat) : BitVec 32 := str + BitVec.ofNat 32 k

/-- The buffer holds as much of `out` as it can, and a NUL, and nothing else was written. -/
structure Truncates (mem mem' : Memory) (str size : BitVec 32) (out : List Int) : Prop where
  outside : forall a : BitVec 32, a.toNat < str.toNat ∨ str.toNat + size.toNat ≤ a.toNat ->
    mem' a = mem a
  chars : forall k c, k < size.toNat - 1 -> out[k]? = some c ->
    mem' (address str k) = BitVec.ofInt 8 c
  nul : mem' (address str (min out.length (size.toNat - 1))) = 0

/-!
# The buffer while it is filled
-/

structure Filled (mem : Memory) (str : BitVec 32) (room : Nat) (out : List Int)
    (b : Sprintbuf) (mem' : Memory) : Prop where
  buf : b.buf = address str (min out.length room)
  ebuf : b.ebuf = address str room
  cnt : b.cnt = BitVec.ofNat 32 out.length
  outside : forall a : BitVec 32, a.toNat < str.toNat ∨ str.toNat + room ≤ a.toNat ->
    mem' a = mem a
  chars : forall k c, k < room -> out[k]? = some c -> mem' (address str k) = BitVec.ofInt 8 c

section Filling

variable {mem : Memory} {str : BitVec 32} {room : Nat} {out : List Int}
variable {b : Sprintbuf} {mem' : Memory}

theorem address_zero (str : BitVec 32) : address str 0 = str := BitVec.add_zero str

theorem address_succ (str : BitVec 32) (k : Nat) : address str (k + 1) = address str k + 1 := by
  unfold address
  rw [BitVec.ofNat_add, add_assoc]
  rfl

theorem address_toNat {k : Nat} (h : str.toNat + k < 2 ^ 32) :
    (address str k).toNat = str.toNat + k := by
  unfold address
  rw [BitVec.toNat_add, BitVec.toNat_ofNat]
  lia

theorem Filled.start (mem : Memory) (str : BitVec 32) (room : Nat) :
    Filled mem str room [] ⟨str, address str room, 0⟩ mem := by
  constructor
  · rw [List.length_nil, Nat.zero_min, address_zero]
  · rfl
  · rfl
  · intro a _
    rfl
  · intro k c _ hc
    cases hc

theorem Filled.buf_toNat (hroom : str.toNat + room < 2 ^ 32) (h : Filled mem str room out b mem') :
    b.buf.toNat = str.toNat + min out.length room := by
  rw [h.buf, address_toNat (by lia)]

theorem Filled.store (hroom : str.toNat + room < 2 ^ 32) (h : Filled mem str room out b mem')
    (hlt : out.length < room) (c : Int) :
    Filled mem str room (out ++ [c]) ⟨b.buf + 1, b.ebuf, b.cnt + 1⟩
      (Function.update mem' b.buf (BitVec.ofInt 8 c)) := by
  have hbuf := h.buf_toNat hroom
  have hmin : min out.length room = out.length := Nat.min_eq_left hlt.le
  rw [hmin] at hbuf
  constructor
  · rw [List.length_append, List.length_singleton, Nat.min_eq_left hlt, address_succ, h.buf, hmin]
  · exact h.ebuf
  · rw [List.length_append, BitVec.ofNat_add, h.cnt]
    rfl
  · intro a ha
    have hne : a ≠ b.buf := by
      intro heq
      rw [heq, hbuf] at ha
      lia
    rw [Function.update_of_ne hne]
    exact h.outside a ha
  · intro k d hk hd
    by_cases hold : k < out.length
    · have hne : address str k ≠ b.buf := by
        intro heq
        have htoNat := congrArg BitVec.toNat heq
        rw [address_toNat (by lia), hbuf] at htoNat
        lia
      rw [List.getElem?_append_left hold] at hd
      rw [Function.update_of_ne hne]
      exact h.chars k d hk hd
    · rcases List.getElem?_eq_some_iff.mp hd with ⟨hlength, _⟩
      rw [List.length_append, List.length_singleton] at hlength
      have hlast : k = out.length := by lia
      rw [hlast, List.getElem?_concat_length] at hd
      rw [hlast, ← Option.some.inj hd, ← hmin, ← h.buf, Function.update_self]

theorem Filled.full (h : Filled mem str room out b mem') (hge : room ≤ out.length) (c : Int) :
    Filled mem str room (out ++ [c]) ⟨b.buf, b.ebuf, b.cnt + 1⟩ mem' := by
  constructor
  · rw [List.length_append, List.length_singleton, Nat.min_eq_right (by lia), h.buf,
      Nat.min_eq_right hge]
  · exact h.ebuf
  · rw [List.length_append, BitVec.ofNat_add, h.cnt]
    rfl
  · exact h.outside
  · intro k d hk hd
    rw [List.getElem?_append_left (by lia)] at hd
    exact h.chars k d hk hd

/-- Every character is counted, and stored as long as there is room. -/
theorem Filled.put {dat : Sprintbuf × Memory} (hroom : str.toNat + room < 2 ^ 32)
    (h : Filled mem str room out dat.1 dat.2) (c : Int) :
    Filled mem str room (out ++ [c]) (sprintputch c dat).1 (sprintputch c dat).2 := by
  have hbuf := h.buf_toNat hroom
  have hebuf : dat.1.ebuf.toNat = str.toNat + room := by
    rw [h.ebuf, address_toNat hroom]
  unfold sprintputch
  simp only [hbuf, hebuf]
  by_cases hlt : out.length < room
  · rw [if_pos (by lia)]
    exact h.store hroom hlt c
  · rw [if_neg (by lia)]
    exact h.full (Nat.not_lt.mp hlt) c

theorem Filled.all (mem : Memory) (hroom : str.toNat + room < 2 ^ 32) (out : List Int) :
    Filled mem str room out
      (emit sprintputch (⟨str, address str room, 0⟩, mem) out).1
      (emit sprintputch (⟨str, address str room, 0⟩, mem) out).2 :=
  emit_invariant
    (P := fun out (dat : Sprintbuf × Memory) => Filled mem str room out dat.1 dat.2)
    (Filled.start mem str room) (fun _ c _ h => h.put hroom c) out

theorem Filled.terminate {size : BitVec 32} (hpos : 0 < size.toNat)
    (hroom : str.toNat + (size.toNat - 1) < 2 ^ 32)
    (h : Filled mem str (size.toNat - 1) out b mem') :
    Truncates mem (Function.update mem' b.buf 0) str size out := by
  have hbuf := h.buf_toNat hroom
  constructor
  · intro a ha
    have hne : a ≠ b.buf := by
      intro heq
      rw [heq, hbuf] at ha
      lia
    rw [Function.update_of_ne hne]
    exact h.outside a (by lia)
  · intro k c hk hc
    rcases List.getElem?_eq_some_iff.mp hc with ⟨hlength, _⟩
    have hne : address str k ≠ b.buf := by
      intro heq
      have htoNat := congrArg BitVec.toNat heq
      rw [address_toNat (by lia), hbuf] at htoNat
      lia
    rw [Function.update_of_ne hne]
    exact h.chars k c hk hc
  · rw [← h.buf, Function.update_self]

end Filling

/-!
# The whole buffer
-/

/-- An escape sequence that is not recognised is printed as it stands. -/
def KeepsUnrecognised (fmt : Text) : Prop :=
  forall (i : Nat) (ap : List Arg) (ch : Char) (k : Nat) (e : Escape) (ap' : List Arg)
    (rest : List Int), fmt.at? i = some '%' ->
    reswitch fmt (fmt.size + 1) (i + 1) Escape.start ap = some (ch, k, e, ap') ->
    ch ∉ conversions -> PrintsFrom 1 fmt (min k fmt.size) ap' rest ->
    PrintsFrom 1 fmt i ap (chars (fmt.slice i (min k fmt.size)) ++ rest)

section Snprintf

variable (mem : Memory) {str size : BitVec 32} (fmt : Text) (ap : List Arg)

theorem vsnprintf_invalid (h : str = 0 ∨ size = 0) :
    vsnprintf mem str size fmt ap = some (-(E_INVAL : Int), mem) := by
  unfold vsnprintf
  rw [if_pos]
  by_cases hstr : str = 0
  · exact Or.inl hstr
  · have hpos : 0 < str.toNat := by
      apply Nat.pos_of_ne_zero
      intro hzero
      exact hstr (BitVec.eq_of_toNat_eq hzero)
    have hlt := str.isLt
    have hone : (1 : BitVec 32).toNat = 1 := rfl
    right
    rw [h.resolve_left hstr, add_zero, BitVec.toNat_sub, hone]
    lia

theorem ebuf_eq (hpos : 0 < size.toNat) : str + size - 1 = address str (size.toNat - 1) := by
  have hsize : BitVec.ofNat 32 (size.toNat - 1) = size - 1 := by
    rw [← BitVec.ofNat_sub_ofNat_of_le _ _ (by decide) hpos, BitVec.ofNat_toNat,
      BitVec.setWidth_eq]
    rfl
  rw [address, hsize, add_sub_assoc]

theorem vsnprintf_spec {out : List Int} (hprints : Prints fmt ap out) (hstr : str ≠ 0)
    (hpos : 0 < size.toNat) (hroom : str.toNat + (size.toNat - 1) < 2 ^ 32) :
    exists mem', vsnprintf mem str size fmt ap =
        some ((BitVec.ofNat 32 out.length).toInt, mem') ∧
      Truncates mem mem' str size out := by
  have hfilled := Filled.all mem hroom out
  have hrun : vprintfmt sprintputch fmt ap (⟨str, address str (size.toNat - 1), 0⟩, mem) =
      some (emit sprintputch (⟨str, address str (size.toNat - 1), 0⟩, mem) out) :=
    hprints _ _ _
  refine ⟨_, ?_, hfilled.terminate hpos hroom⟩
  unfold vsnprintf
  simp only [ebuf_eq hpos]
  rw [if_neg]
  · rw [hrun, Option.bind_eq_bind, Option.bind_some]
    simp only [hfilled.cnt]
  · rintro (hzero | hbehind)
    · exact hstr hzero
    · rw [address_toNat hroom] at hbehind
      lia

end Snprintf

theorem count_eq_iff (n : Nat) : (BitVec.ofNat 32 n).toInt = n <-> n < 2 ^ 31 := by
  rw [BitVec.toInt_ofNat', Int.bmod_def]
  lia

/-- For every format and arguments `vprintfmt` stops and prints what they stand for, and the
buffer and the memory around it are left as they should be: the text is cut at the end of the
buffer and a NUL put behind it.  The result is the number of its characters as long as an
`int` can count them. -/
theorem vsnprintf_exact (mem : Memory) (str size : BitVec 32) (fmt : Text) (ap : List Arg) :
    Prints fmt ap (formatted fmt ap) ∧ KeepsUnrecognised fmt ∧
      (str = 0 ∨ size = 0 -> vsnprintf mem str size fmt ap = some (-(E_INVAL : Int), mem)) ∧
      (str ≠ 0 -> 0 < size.toNat -> str.toNat + (size.toNat - 1) < 2 ^ 32 ->
        exists cnt mem', vsnprintf mem str size fmt ap = some (cnt, mem') ∧
          Truncates mem mem' str size (formatted fmt ap) ∧
          (cnt = (formatted fmt ap).length <-> (formatted fmt ap).length < 2 ^ 31)) := by
  have hprints := prints_formatted fmt ap
  refine ⟨hprints, ?_, vsnprintf_invalid mem fmt ap, ?_⟩
  · intro i ap ch k e ap' rest hat hscan hch hrest
    exact PrintsFrom.unrecognised hat hscan hch hrest
  · intro hstr hpos hroom
    rcases vsnprintf_spec mem fmt ap hprints hstr hpos hroom with ⟨mem', hrun, htruncates⟩
    exact ⟨_, mem', hrun, htruncates, count_eq_iff _⟩

/-- A buffer of four characters for a text of six. -/
theorem vsnprintf_exact_four :
    exists cnt mem', vsnprintf (fun _ => 0) 4096 4 minusFortyTwoFormat minusFortyTwo.args =
        some (cnt, mem') ∧
      Truncates (fun _ => 0) mem' 4096 4 (formatted minusFortyTwoFormat minusFortyTwo.args) ∧
      (cnt = (formatted minusFortyTwoFormat minusFortyTwo.args).length <->
        (formatted minusFortyTwoFormat minusFortyTwo.args).length < 2 ^ 31) := by
  rcases vsnprintf_exact (fun _ => 0) 4096 4 minusFortyTwoFormat minusFortyTwo.args with
    ⟨_, _, _, hvalid⟩
  exact hvalid (by decide) (by decide) (by decide)

/-- The widest field there is, and one character more. -/
def wideFormat : Text := ⟨"%2147483647d%d".toList, by decide, by decide⟩

def wideField : Field :=
  ⟨[], FieldWidth.number 2147483647 (by decide), Integer.int 1, Conversion.d⟩

def oneDigit : Field := ⟨[], FieldWidth.absent, Integer.int 1, Conversion.d⟩

/-- The count of 2147483648 characters is negative. -/
theorem count_wraps_around :
    Prints wideFormat [Arg.int 1, Arg.int 1] (formatted wideFormat [Arg.int 1, Arg.int 1]) ∧
    (formatted wideFormat [Arg.int 1, Arg.int 1]).length = 2147483648 ∧
    exists mem', vsnprintf (fun _ => 0) 4096 1 wideFormat [Arg.int 1, Arg.int 1] =
      some (-2147483648, mem') := by
  have hwide : StandsAt wideFormat 0 wideField.text := ⟨['%', 'd'], by decide⟩
  have hone : StandsAt wideFormat 12 oneDigit.text := ⟨[], by decide⟩
  have hend : PrintsFrom 1 wideFormat 14 [] [] := PrintsFrom.stop 1 wideFormat []
  have hsecond : PrintsFrom 1 wideFormat 12 [Arg.int 1] (oneDigit.output ++ []) :=
    oneDigit.printsFrom hone hend
  have hfirst : PrintsFrom 1 wideFormat 0 [Arg.int 1, Arg.int 1] (wideField.output ++
      (oneDigit.output ++ [])) := wideField.printsFrom hwide hsecond
  have hprints := prints_formatted wideFormat [Arg.int 1, Arg.int 1]
  have hlength : (formatted wideFormat [Arg.int 1, Arg.int 1]).length = 2147483648 := by
    rw [hprints.unique (prints_of_printsFrom hfirst), List.length_append, List.append_nil,
      wideField.output_length, oneDigit.output_length]
    decide
  rcases @vsnprintf_spec (fun _ => 0) 4096 1 _ _ _ hprints (by decide) (by decide)
    (by decide) with ⟨mem', hrun, _⟩
  rw [hlength] at hrun
  exact ⟨hprints, hlength, mem', hrun⟩

end Printfmt
end OsLabs
