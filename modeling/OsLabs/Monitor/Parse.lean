import Mathlib.Data.List.TakeWhile
import OsLabs.Foundation.Blocks
import OsLabs.Foundation.CText

/-!
# The command line of the kernel monitor

`parse` in `kmonitor.c` cuts a line into words: it overwrites the white space with NUL and
stores a pointer to each word.  The buffer is the line with its NUL; a read or a write outside
of it is `none`.  `argv` is the memory from the array on, and a cell of it is `none` until
something is stored there.
-/

namespace OsLabs
namespace Monitor

open Foundation
open Foundation.Block

def MAXARGS : Nat := 16

def WHITESPACE : List Char := [' ', '\t', '\n', '\r']

/-- `strchr`, as an index into the string. -/
def strchr : List Char -> Char -> Option Nat
  | [], _ => none
  | x :: s, c => if x = c then some 0 else (strchr s c).map fun i => i + 1

structure Parsed where
  buf : List Char
  argv : Nat -> Option Nat
  argc : Nat
  printed : List String

def tooManyArguments : String := "Too many arguments (max 16).\n"

/-- The loop over the white space; the buffer and the position behind it. -/
def skipWhitespace : Nat -> List Char -> Nat -> Option (List Char × Nat)
  | 0, _, _ => none
  | fuel + 1, buf, i => do
      let c <- buf[i]?
      if c ≠ nul ∧ strchr WHITESPACE c ≠ none then
        skipWhitespace fuel (buf.set i nul) (i + 1)
      else
        some (buf, i)

/-- The loop over a word; the position behind it. -/
def scanArg : Nat -> List Char -> Nat -> Option Nat
  | 0, _, _ => none
  | fuel + 1, buf, i => do
      let c <- buf[i]?
      if c ≠ nul ∧ strchr WHITESPACE c = none then scanArg fuel buf (i + 1) else some i

def parseLoop : Nat -> Parsed -> Nat -> Option Parsed
  | 0, _, _ => none
  | fuel + 1, p, i => do
      let (buf, i) <- skipWhitespace (p.buf.length + 1) p.buf i
      let c <- buf[i]?
      if c = nul then
        some { p with buf := buf }
      else
        let printed :=
          if p.argc = MAXARGS - 1 then p.printed ++ [tooManyArguments] else p.printed
        let argv := Function.update p.argv p.argc (some i)
        let next <- scanArg (buf.length + 1) buf i
        parseLoop fuel ⟨buf, argv, p.argc + 1, printed⟩ next

def parse (buf : List Char) : Option Parsed :=
  parseLoop (buf.length + 1) ⟨buf, fun _ => none, 0, []⟩ 0

/-!
# Lines and words
-/

abbrev Line := { chars : List Char // nul ∉ chars }

def isWhite (c : Char) : Bool := (strchr WHITESPACE c).isSome

def letters (line : Line) : Set Nat :=
  fun i => exists c, line.val[i]? = some c ∧ isWhite c = false

structure ListsWords (line : Line) (words : List Block) : Prop where
  mem_iff : forall b, b ∈ words <-> MaximalRun (letters line) b
  ascending : words.Pairwise fun b c => b.stop < c.head

/-- Nothing is stored behind the array, and if the words fit in, they are returned in order,
each as it stands in the line, and with a NUL behind it. -/
structure SplitsLine (line : Line) (words : List Block) (p : Parsed) : Prop where
  inside : forall k, MAXARGS ≤ k -> p.argv k = none
  argc : words.length ≤ MAXARGS -> p.argc = words.length
  argv : words.length ≤ MAXARGS -> forall k b, words[k]? = some b -> p.argv k = some b.head
  chars : words.length ≤ MAXARGS -> forall b, b ∈ words ->
    (forall i, b.head ≤ i -> i < b.stop -> p.buf[i]? = line.val[i]?) ∧
      p.buf[b.stop]? = some nul

/-!
# The buffer while it is parsed
-/

def blank (c : Char) : Char := if isWhite c then nul else c

def blanked (line : Line) (i : Nat) : List Char :=
  (line.val.take i).map blank ++ (line.val.drop i ++ [nul])

section Buffer

variable {line : Line} {i : Nat} {c : Char}

theorem strchr_ne_none_iff : strchr WHITESPACE c ≠ none <-> isWhite c = true := by
  rw [isWhite, Option.isSome_iff_ne_none]

theorem strchr_eq_none_iff : strchr WHITESPACE c = none <-> isWhite c = false := by
  rw [isWhite, Option.isSome_eq_false_iff, Option.isNone_iff_eq_none]

theorem blanked_length (line : Line) (i : Nat) :
    (blanked line i).length = line.val.length + 1 := by
  unfold blanked
  rw [List.length_append, List.length_append, List.length_map, List.length_take,
    List.length_drop, List.length_singleton]
  lia

theorem blanked_front {k : Nat} (hk : k < i) (hlt : k < line.val.length) :
    (blanked line i)[k]? = (line.val[k]?).map blank := by
  have hinside : k < ((line.val.take i).map blank).length := by
    rw [List.length_map, List.length_take]
    lia
  unfold blanked
  rw [List.getElem?_append_left hinside, List.getElem?_map, List.getElem?_take_of_lt hk]

theorem blanked_rest {k : Nat} (hi : i ≤ line.val.length) (hk : i ≤ k) :
    (blanked line i)[k]? = (line.val ++ [nul])[k]? := by
  have hlength : ((line.val.take i).map blank).length = i := by
    rw [List.length_map, List.length_take]
    lia
  have htake : (line.val.take i).length = i := by
    rw [List.length_take]
    lia
  have hleft : (blanked line i)[k]? = (line.val.drop i ++ [nul])[k - i]? := by
    unfold blanked
    rw [List.getElem?_append_right (by lia), hlength]
  have hright : (line.val.take i ++ (line.val.drop i ++ [nul]))[k]? =
      (line.val.drop i ++ [nul])[k - i]? := by
    rw [List.getElem?_append_right (by lia), htake]
  rw [hleft, ← hright, ← List.append_assoc, List.take_append_drop]

theorem blanked_at (hc : line.val[i]? = some c) : (blanked line i)[i]? = some c := by
  rcases List.getElem?_eq_some_iff.mp hc with ⟨hlt, _⟩
  rw [blanked_rest hlt.le (Nat.le_refl i), List.getElem?_append_left hlt, hc]

theorem blanked_end (line : Line) :
    (blanked line line.val.length)[line.val.length]? = some nul := by
  rw [blanked_rest (Nat.le_refl _) (Nat.le_refl _), List.getElem?_concat_length]

theorem blanked_succ (hc : line.val[i]? = some c) :
    blanked line (i + 1) = (blanked line i).set i (blank c) := by
  rcases List.getElem?_eq_some_iff.mp hc with ⟨hlt, hget⟩
  have hlength : ((line.val.take i).map blank).length = i := by
    rw [List.length_map, List.length_take]
    lia
  unfold blanked
  rw [List.take_succ_eq_append_getElem hlt, hget, List.map_append, List.map_singleton,
    List.drop_eq_getElem_cons hlt, List.set_append_right _ _ (by lia), hlength, Nat.sub_self,
    List.append_assoc]
  rfl

theorem blanked_succ_of_letter (hc : line.val[i]? = some c) (hletter : isWhite c = false) :
    blanked line (i + 1) = blanked line i := by
  rcases List.getElem?_eq_some_iff.mp (blanked_at hc) with ⟨hlt, hget⟩
  have hblank : blank c = (blanked line i)[i] := by
    rw [hget]
    unfold blank
    rw [hletter]
    rfl
  rw [blanked_succ hc, hblank, List.set_getElem_self]

theorem ne_nul (hc : line.val[i]? = some c) : c ≠ nul := by
  have hmem := List.mem_of_getElem? hc
  intro heq
  rw [heq] at hmem
  exact line.property hmem

theorem mem_letters_iff (hc : line.val[i]? = some c) :
    i ∈ letters line <-> isWhite c = false := by
  constructor
  · rintro ⟨d, hd, hletter⟩
    rw [hc] at hd
    cases hd
    exact hletter
  · intro hletter
    exact ⟨c, hc, hletter⟩

theorem not_mem_letters_end (line : Line) : line.val.length ∉ letters line := by
  rintro ⟨c, hc, _⟩
  rw [List.getElem?_eq_none (Nat.le_refl _)] at hc
  cases hc

theorem blanked_cases (hi : i ≤ line.val.length) :
    i = line.val.length ∧ (blanked line i)[i]? = some nul ∨
      exists c, line.val[i]? = some c ∧ (blanked line i)[i]? = some c ∧ c ≠ nul := by
  by_cases hend : i = line.val.length
  · refine Or.inl ⟨hend, ?_⟩
    rw [hend]
    exact blanked_end line
  · have hlt : i < line.val.length := lt_of_le_of_ne hi hend
    have hc := List.getElem?_eq_getElem hlt
    exact Or.inr ⟨line.val[i], hc, blanked_at hc, ne_nul hc⟩

end Buffer

/-!
# The loops
-/

section Loops

variable {line : Line}

theorem skipWhitespace_spec {fuel i : Nat} (hi : i ≤ line.val.length)
    (hfuel : line.val.length - i < fuel) :
    exists j, i ≤ j ∧ j ≤ line.val.length ∧
      skipWhitespace fuel (blanked line i) i = some (blanked line j, j) ∧
      (forall k, i ≤ k -> k < j -> k ∉ letters line) ∧
      (j = line.val.length ∨ j ∈ letters line) := by
  induction fuel generalizing i with
  | zero => lia
  | succ fuel ih =>
      unfold skipWhitespace
      rcases blanked_cases hi with ⟨hend, hread⟩ | ⟨c, hc, hread, hne⟩
      · refine ⟨i, Nat.le_refl i, hi, ?_, ?_, Or.inl hend⟩
        · simp [hread]
        · intro k hlow hhigh
          lia
      · simp only [hread, Option.bind_eq_bind, Option.bind_some]
        cases hwhite : isWhite c with
        | true =>
            have hlt := (List.getElem?_eq_some_iff.mp hc).1
            have hset := blanked_succ hc
            rw [blank, hwhite, if_pos rfl] at hset
            rcases ih hlt (by lia) with ⟨j, hij, hj, hrun, hskipped, hstop⟩
            refine ⟨j, by lia, hj, ?_, ?_, hstop⟩
            · rw [if_pos ⟨hne, strchr_ne_none_iff.mpr hwhite⟩, ← hset]
              exact hrun
            · intro k hlow hhigh
              by_cases hk : k = i
              · rw [hk, mem_letters_iff hc, hwhite]
                exact Bool.noConfusion
              · exact hskipped k (by lia) hhigh
        | false =>
            refine ⟨i, Nat.le_refl i, hi, ?_, ?_, Or.inr ((mem_letters_iff hc).mpr hwhite)⟩
            · rw [if_neg]
              rintro ⟨_, hsome⟩
              rw [strchr_ne_none_iff, hwhite] at hsome
              cases hsome
            · intro k hlow hhigh
              lia

theorem scanArg_spec {fuel i : Nat} (hi : i ≤ line.val.length)
    (hfuel : line.val.length - i < fuel) :
    exists j, i ≤ j ∧ j ≤ line.val.length ∧
      scanArg fuel (blanked line i) i = some j ∧ blanked line j = blanked line i ∧
      (forall k, i ≤ k -> k < j -> k ∈ letters line) ∧ j ∉ letters line := by
  induction fuel generalizing i with
  | zero => lia
  | succ fuel ih =>
      unfold scanArg
      rcases blanked_cases hi with ⟨hend, hread⟩ | ⟨c, hc, hread, hne⟩
      · refine ⟨i, Nat.le_refl i, hi, ?_, rfl, ?_, hend ▸ not_mem_letters_end line⟩
        · simp [hread]
        · intro k hlow hhigh
          lia
      · simp only [hread, Option.bind_eq_bind, Option.bind_some]
        cases hwhite : isWhite c with
        | true =>
            refine ⟨i, Nat.le_refl i, hi, ?_, rfl, ?_, ?_⟩
            · rw [if_neg]
              rintro ⟨_, hnone⟩
              rw [strchr_eq_none_iff, hwhite] at hnone
              cases hnone
            · intro k hlow hhigh
              lia
            · rw [mem_letters_iff hc, hwhite]
              exact Bool.noConfusion
        | false =>
            have hlt := (List.getElem?_eq_some_iff.mp hc).1
            have hkeep := blanked_succ_of_letter hc hwhite
            rcases ih hlt (by lia) with ⟨j, hij, hj, hrun, hsame, hword, hstop⟩
            rw [hkeep] at hrun hsame
            refine ⟨j, by lia, hj, ?_, hsame, ?_, hstop⟩
            · rw [if_pos ⟨hne, strchr_eq_none_iff.mpr hwhite⟩]
              exact hrun
            · intro k hlow hhigh
              by_cases hk : k = i
              · exact hk ▸ (mem_letters_iff hc).mpr hwhite
              · exact hword k (by lia) hhigh

structure Stored (line : Line) (i : Nat) (words : List Block) (p q : Parsed) : Prop where
  spaced : Spaced words
  cover_eq : forall k, k ∈ cover words <-> i ≤ k ∧ k ∈ letters line
  buf : q.buf = blanked line line.val.length
  argc : q.argc = p.argc + words.length
  old : forall k, k < p.argc ∨ p.argc + words.length ≤ k -> q.argv k = p.argv k
  new : forall k b, words[k]? = some b -> q.argv (p.argc + k) = some b.head

theorem Stored.none {i j : Nat} {p : Parsed}
    (hskipped : forall k, i ≤ k -> k < j -> k ∉ letters line) (hj : j = line.val.length) :
    Stored line i [] p { p with buf := blanked line j } where
  spaced := spaced_nil
  cover_eq := by
    intro k
    constructor
    · intro hk
      rw [cover_nil] at hk
      cases hk
    · rintro ⟨hlow, hletter⟩
      rcases hletter with ⟨c, hc, hwhite⟩
      rcases List.getElem?_eq_some_iff.mp hc with ⟨hlt, _⟩
      exact absurd ⟨c, hc, hwhite⟩ (hskipped k hlow (by lia))
  buf := by rw [hj]
  argc := rfl
  old := fun _ _ => rfl
  new := by simp

theorem Stored.cons {i j e : Nat} {words : List Block} {p q : Parsed} {printed : List String}
    {buf : List Char} (hij : i ≤ j) (hje : j < e)
    (hskipped : forall k, i ≤ k -> k < j -> k ∉ letters line)
    (hword : forall k, j ≤ k -> k < e -> k ∈ letters line) (hstop : e ∉ letters line)
    (h : Stored line e words
      ⟨buf, Function.update p.argv p.argc (some j), p.argc + 1, printed⟩ q) :
    Stored line i (Block.mk j (e - j) :: words) p q := by
  have hend : (Block.mk j (e - j)).stop = e := by
    rw [stop_mk]
    lia
  have hargc := h.argc
  simp only at hargc
  constructor
  · apply h.spaced.cons
    · change 0 < e - j
      lia
    · intro c hc
      have hpos := h.spaced.size_pos c hc
      have hin : c.head ∈ cover words := ⟨c, hc, by rw [mem_span, stop_eq]; lia⟩
      rcases (h.cover_eq _).mp hin with ⟨hle, hletter⟩
      have hne : c.head ≠ e := fun heq => hstop (heq ▸ hletter)
      lia
  · intro k
    rw [cover_cons, Set.mem_union, h.cover_eq, mem_span, hend]
    constructor
    · intro hk
      cases hk with
      | inl hin => exact ⟨hij.trans hin.left, hword k hin.left hin.right⟩
      | inr hrest => exact ⟨by lia, hrest.right⟩
    · rintro ⟨hlow, hletter⟩
      by_cases hbefore : k < j
      · exact absurd hletter (hskipped k hlow hbefore)
      · by_cases hin : k < e
        · exact Or.inl ⟨by change j ≤ k; lia, hin⟩
        · exact Or.inr ⟨by lia, hletter⟩
  · exact h.buf
  · rw [hargc, List.length_cons]
    lia
  · intro k hk
    rw [List.length_cons] at hk
    have hold := h.old k (by simp only; lia)
    simp only at hold
    rw [hold, Function.update_of_ne (by lia)]
  · intro k b hb
    cases k with
    | zero =>
        cases hb
        have hold := h.old p.argc (by simp only; lia)
        simp only [Function.update_self] at hold
        exact hold
    | succ k =>
        have hnew := h.new k b hb
        simp only at hnew
        rw [← hnew]
        congr 1
        lia

theorem parseLoop_spec {fuel i : Nat} {p : Parsed} (hi : i ≤ line.val.length)
    (hbuf : p.buf = blanked line i) (hfuel : line.val.length - i < fuel) :
    exists words q, parseLoop fuel p i = some q ∧ Stored line i words p q := by
  induction fuel generalizing i p with
  | zero => lia
  | succ fuel ih =>
      have hlength := blanked_length line i
      rcases @skipWhitespace_spec line ((blanked line i).length + 1) i hi (by lia) with
        ⟨j, hij, hj, hskip, hskipped, hat⟩
      unfold parseLoop
      simp only [hbuf, hskip, Option.bind_eq_bind, Option.bind_some]
      by_cases hend : j = line.val.length
      · have hread : (blanked line j)[j]? = some nul := by
          rw [hend]
          exact blanked_end line
        rw [hread, Option.bind_some, if_pos rfl]
        exact ⟨[], _, rfl, Stored.none hskipped hend⟩
      · have hletter : j ∈ letters line := by
          cases hat with
          | inl hbad => exact absurd hbad hend
          | inr hin => exact hin
        rcases hletter with ⟨c, hc, hwhite⟩
        have hlength' := blanked_length line j
        rcases @scanArg_spec line ((blanked line j).length + 1) j hj (by lia) with
          ⟨e, hje, he, hscan, hsame, hword, hstop⟩
        have hlt : j < e := by
          apply lt_of_le_of_ne hje
          intro heq
          exact hstop (heq ▸ ⟨c, hc, hwhite⟩)
        rw [blanked_at hc, Option.bind_some, if_neg (ne_nul hc), hscan, Option.bind_some]
        rcases @ih e ⟨blanked line j, Function.update p.argv p.argc (some j), p.argc + 1, _⟩ he
          hsame.symm (by lia) with ⟨words, q, hrun, hstored⟩
        exact ⟨_, q, hrun, hstored.cons hij hlt hskipped hword hstop⟩

end Loops

/-!
# The whole line
-/

section Words

variable {line : Line} {b : Block}

theorem word_kept (h : MaximalRun (letters line) b) {i : Nat} (hlow : b.head ≤ i)
    (hhigh : i < b.stop) : (blanked line line.val.length)[i]? = line.val[i]? := by
  rcases h.subset ⟨hlow, hhigh⟩ with ⟨c, hc, hwhite⟩
  rcases List.getElem?_eq_some_iff.mp hc with ⟨hlt, _⟩
  rw [blanked_front hlt hlt, hc, Option.map_some, blank, hwhite]
  rfl

/-- Behind a word there is white space that was overwritten, or the NUL of the line. -/
theorem word_ended (h : MaximalRun (letters line) b) :
    (blanked line line.val.length)[b.stop]? = some nul := by
  have hpos := h.size_pos
  have hlast : b.stop - 1 ∈ letters line := by
    apply h.subset
    rw [mem_span, stop_eq]
    lia
  rcases hlast with ⟨_, hc, _⟩
  rcases List.getElem?_eq_some_iff.mp hc with ⟨hlt, _⟩
  rw [stop_eq] at hlt
  by_cases hend : b.stop = line.val.length
  · rw [hend]
    exact blanked_end line
  · have hinside : b.stop < line.val.length := by
      rw [stop_eq] at hend ⊢
      lia
    have hc' := List.getElem?_eq_getElem hinside
    have hwhite : isWhite line.val[b.stop] = true := by
      by_contra hletter
      exact h.stop_not_mem ⟨_, hc', Bool.not_eq_true _ ▸ hletter⟩
    rw [blanked_front hinside hinside, hc', Option.map_some, blank, hwhite]
    rfl

end Words

/-- The words of a line are split off in place, and the array is large enough for them
exactly when there are at most `MAXARGS` of them. -/
theorem parse_exact (line : Line) :
    exists words p, ListsWords line words ∧ parse (line.val ++ [nul]) = some p ∧
      (SplitsLine line words p <-> words.length ≤ MAXARGS) := by
  have hlength := blanked_length line 0
  rcases @parseLoop_spec line ((blanked line 0).length + 1) 0
    ⟨blanked line 0, fun _ => none, 0, []⟩ (Nat.zero_le _) rfl (by lia) with
    ⟨words, p, hrun, hstored⟩
  have hcover : cover words = letters line := by
    ext k
    rw [hstored.cover_eq]
    exact and_iff_right (Nat.zero_le k)
  have hlists : ListsWords line words := by
    refine ⟨?_, hstored.spaced.gaps⟩
    intro b
    rw [hstored.spaced.mem_iff_maximalRun, hcover]
  refine ⟨words, p, hlists, hrun, ?_⟩
  constructor
  · intro hsplits
    by_contra hmany
    have hlt : MAXARGS < words.length := Nat.not_le.mp hmany
    have hstore := hstored.new MAXARGS _ (List.getElem?_eq_getElem hlt)
    have hnone := hsplits.inside (0 + MAXARGS) (by lia)
    rw [hnone] at hstore
    cases hstore
  · intro hfew
    have hargc := hstored.argc
    rw [Nat.zero_add] at hargc
    constructor
    · intro k hk
      exact hstored.old k (Or.inr (by simp only; lia))
    · intro _
      exact hargc
    · intro _ k b hb
      have hnew := hstored.new k b hb
      rw [Nat.zero_add] at hnew
      exact hnew
    · intro _ b hb
      have hmax := (hlists.mem_iff b).mp hb
      rw [hstored.buf]
      exact ⟨fun i hlow hhigh => word_kept hmax hlow hhigh, word_ended hmax⟩

def seventeenWords : Line :=
  ⟨(List.replicate 16 ['a', ' ']).flatten ++ ['a'], by decide⟩

/-- The pointer to the last of them is stored behind the array. -/
theorem parse_seventeen_words :
    exists p, parse (seventeenWords.val ++ [nul]) = some p ∧ p.argv 16 = some 32 ∧
      p.printed = [tooManyArguments] ∧
      forall words, ¬ SplitsLine seventeenWords words p := by
  have hstore : (parse (seventeenWords.val ++ [nul])).map
      (fun p => (p.argv 16, p.printed)) = some (some 32, [tooManyArguments]) := by
    decide +kernel
  rcases Option.map_eq_some_iff.mp hstore with ⟨p, hrun, hp⟩
  rw [Prod.mk.injEq] at hp
  refine ⟨p, hrun, hp.left, hp.right, ?_⟩
  intro words hsplits
  have hnone := hsplits.inside 16 (Nat.le_refl 16)
  rw [hp.left] at hnone
  cases hnone

end Monitor
end OsLabs
