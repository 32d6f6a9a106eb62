import Mathlib.Data.List.Basic
import OsLabs.Console.InputBuffer

/-!
# The keyboard

`kbd_proc_data` in `console.c` turns the bytes of the keyboard controller into characters.  It
keeps the shift keys, the lock keys and a pending escape byte in one word.
-/

namespace OsLabs
namespace Console

def NO : BitVec 8 := 0

def SHIFT : BitVec 32 := 1 <<< 0
def CTL : BitVec 32 := 1 <<< 1
def ALT : BitVec 32 := 1 <<< 2
def CAPSLOCK : BitVec 32 := 1 <<< 3
def NUMLOCK : BitVec 32 := 1 <<< 4
def SCROLLLOCK : BitVec 32 := 1 <<< 5
def E0ESC : BitVec 32 := 1 <<< 6

def KEY_HOME : BitVec 8 := 0xE0
def KEY_END : BitVec 8 := 0xE1
def KEY_UP : BitVec 8 := 0xE2
def KEY_DN : BitVec 8 := 0xE3
def KEY_LF : BitVec 8 := 0xE4
def KEY_RT : BitVec 8 := 0xE5
def KEY_PGUP : BitVec 8 := 0xE6
def KEY_PGDN : BitVec 8 := 0xE7
def KEY_INS : BitVec 8 := 0xE8
def KEY_DEL : BitVec 8 := 0xE9

def shiftcode (data : BitVec 8) : BitVec 32 :=
  match data.toNat with
  | 0x1D => CTL
  | 0x2A => SHIFT
  | 0x36 => SHIFT
  | 0x38 => ALT
  | 0x9D => CTL
  | 0xB8 => ALT
  | _ => 0

def togglecode (data : BitVec 8) : BitVec 32 :=
  match data.toNat with
  | 0x3A => CAPSLOCK
  | 0x45 => NUMLOCK
  | 0x46 => SCROLLLOCK
  | _ => 0

def bytes (s : String) : List (BitVec 8) := s.toList.map fun c => BitVec.ofNat 8 c.toNat

/-- The entries from 0x47 on: the keypad. -/
def keypad : List (BitVec 8) := bytes "789-456+1230."

/-- An array whose first entries are those of a list; the others have their index with them. -/
def entry (front : List (BitVec 8)) (others : List (Nat × BitVec 8)) (data : BitVec 8) : BitVec 8 :=
  match front[data.toNat]? with
  | some c => c
  | none => (others.lookup data.toNat).getD NO

/-- The entries that normalmap, shiftmap and ctlmap share. -/
def extended : List (Nat × BitVec 8) :=
  [(0xC8, KEY_UP), (0xC9, KEY_PGUP), (0xCB, KEY_LF), (0xCD, KEY_RT), (0xCF, KEY_END),
    (0xD0, KEY_DN), (0xD1, KEY_PGDN), (0xD2, KEY_INS), (0xD3, KEY_DEL)]

def normalmap : BitVec 8 -> BitVec 8 :=
  entry
    ([NO, 0x1B] ++ bytes "1234567890-=\x08\t" ++ bytes "qwertyuiop[]\n" ++ [NO] ++
      bytes "asdfghjkl;\x27\x60" ++ [NO] ++ bytes "\\zxcvbnm,./" ++ [NO] ++ bytes "*" ++ [NO] ++
      bytes " " ++ List.replicate 13 NO ++ keypad)
    ([(0xC7, KEY_HOME), (0x9C, 10), (0xB5, 47)] ++ extended)

def shiftmap : BitVec 8 -> BitVec 8 :=
  entry
    ([NO, 0x1B] ++ bytes "!@#$%^&*()_+\x08\t" ++ bytes "QWERTYUIOP\x7b\x7d\n" ++ [NO] ++
      bytes "ASDFGHJKL:\x22~" ++ [NO] ++ bytes "|ZXCVBNM<>?" ++ [NO] ++ bytes "*" ++ [NO] ++
      bytes " " ++ List.replicate 13 NO ++ keypad)
    ([(0xC7, KEY_HOME), (0x9C, 10), (0xB5, 47)] ++ extended)

/-- The macro `C`: the control characters of a string. -/
def controls (s : String) : List (BitVec 8) := (bytes s).map fun c => c - 64

def ctlmap : BitVec 8 -> BitVec 8 :=
  entry
    (List.replicate 16 NO ++ controls "QWERTYUIOP" ++ [NO, NO, 13, NO] ++ controls "ASDFGHJKL" ++
      [NO, NO, NO, NO] ++ controls "\\ZXCVBNM" ++ [NO, NO] ++ controls "/" ++ [NO, NO])
    ([(0x97, KEY_HOME), (0xB5, 47 - 64)] ++ extended)

def charcode (shift : BitVec 32) : BitVec 8 -> BitVec 8 :=
  match (shift &&& (CTL ||| SHIFT)).toNat with
  | 0 => normalmap
  | 1 => shiftmap
  | _ => ctlmap

def swapCase (c : BitVec 8) : BitVec 8 :=
  if 97 ≤ c.toNat ∧ c.toNat ≤ 122 then c + 65 - 97
  else if 65 ≤ c.toNat ∧ c.toNat ≤ 90 then c + 97 - 65
  else c

/-- `kbd_proc_data` for a byte of the controller: the new value of `shift`, the result, and
whether it asks for a reboot. -/
def kbdProcData (shift : BitVec 32) (data : BitVec 8) : BitVec 32 × BitVec 8 × Bool :=
  if data = 0xE0 then
    (shift ||| E0ESC, 0, false)
  else if data &&& 0x80 ≠ 0 then
    let data := if shift &&& E0ESC ≠ 0 then data else data &&& 0x7F
    (shift &&& ~~~(shiftcode data ||| E0ESC), 0, false)
  else
    let escaped := shift &&& E0ESC ≠ 0
    let data := if escaped then data ||| 0x80 else data
    let shift := if escaped then shift &&& ~~~E0ESC else shift
    let shift := shift ||| shiftcode data
    let shift := shift ^^^ togglecode data
    let c := charcode shift data
    let c := if shift &&& CAPSLOCK ≠ 0 then swapCase c else c
    (shift, c, ~~~shift &&& (CTL ||| ALT) = 0 ∧ c = KEY_DEL)

/-- The calls of `kbd_proc_data` for all bytes of an interrupt: the new value of `shift`, the
results, and how often a reboot was asked for. -/
def kbdDrain (shift : BitVec 32) : List (BitVec 8) -> BitVec 32 × List (BitVec 8) × Nat
  | [] => (shift, [], 0)
  | data :: scans =>
      let (shift, c, reboot) := kbdProcData shift data
      let (shift, cs, reboots) := kbdDrain shift scans
      (shift, c :: cs, (if reboot then 1 else 0) + reboots)

theorem kbdDrain_cons (shift : BitVec 32) (data : BitVec 8) (scans : List (BitVec 8)) :
    kbdDrain shift (data :: scans) =
      ((kbdDrain (kbdProcData shift data).1 scans).1,
        (kbdProcData shift data).2.1 :: (kbdDrain (kbdProcData shift data).1 scans).2.1,
        (if (kbdProcData shift data).2.2 then 1 else 0) +
          (kbdDrain (kbdProcData shift data).1 scans).2.2) := rfl

/-!
# Keys

A key has an index in the tables: its code, with bit 7 set if an escape byte comes before it.
-/

inductive KeyEvent where
  | press (key : BitVec 8)
  | release (key : BitVec 8)

def KeyEvent.key : KeyEvent -> BitVec 8
  | press key => key
  | release key => key

def KeyEvent.isPress : KeyEvent -> Bool
  | press _ => true
  | release _ => false

/-- What happened on the keyboard, and whether an escape byte is left at the end. -/
def keyEvents : Bool -> List (BitVec 8) -> List KeyEvent × Bool
  | esc, [] => ([], esc)
  | esc, data :: scans =>
      if data = 0xE0 then
        keyEvents true scans
      else
        let e :=
          if data &&& 0x80 ≠ 0 then KeyEvent.release (if esc then data else data &&& 0x7F)
          else KeyEvent.press (if esc then data ||| 0x80 else data)
        (e :: (keyEvents false scans).1, (keyEvents false scans).2)

/-- The last thing that happened to a key of this kind was that it was pressed. -/
def held (kind : BitVec 32) (past : List KeyEvent) : Bool :=
  match past.reverse.find? fun e => shiftcode e.key = kind with
  | some e => e.isPress
  | none => false

def locked (kind : BitVec 32) (past : List KeyEvent) : Bool :=
  (past.countP fun e => e.isPress ∧ togglecode e.key = kind) % 2 = 1

/-- The character of a key that is pressed; `past` is what happened up to that, including it. -/
def keyChar (past : List KeyEvent) (key : BitVec 8) : BitVec 8 :=
  let map := if held CTL past then ctlmap else if held SHIFT past then shiftmap else normalmap
  if locked CAPSLOCK past then swapCase (map key) else map key

def typedChars (past : List KeyEvent) : List KeyEvent -> List (BitVec 8)
  | [] => []
  | e :: es =>
      (if e.isPress then [keyChar (past ++ [e]) e.key] else []) ++ typedChars (past ++ [e]) es

def deleteKey : BitVec 8 := 0x53 ||| 0x80

/-- How often Del was pressed while control and alternate were held. -/
def reboots (past : List KeyEvent) : List KeyEvent -> Nat
  | [] => 0
  | e :: es =>
      (if e.isPress ∧ e.key = deleteKey ∧ held CTL (past ++ [e]) ∧ held ALT (past ++ [e]) then 1
        else 0) + reboots (past ++ [e]) es

/-!
# The word `shift`
-/

structure Remembers (past : List KeyEvent) (esc : Bool) (shift : BitVec 32) : Prop where
  held : forall j, j < 3 -> shift.getLsbD j = held (1 <<< j) past
  locked : forall j, 3 ≤ j -> j < 6 -> shift.getLsbD j = locked (1 <<< j) past
  esc : shift.getLsbD 6 = esc

section Bits

theorem and_bit {x : BitVec 32} {j : Nat} (hj : j < 32) :
    x &&& 1 <<< j ≠ 0 <-> x.getLsbD j = true := by
  have hbit : (1 <<< j : BitVec 32) = BitVec.twoPow 32 j := (BitVec.twoPow_eq 32 j).symm
  have hne : BitVec.twoPow 32 j ≠ 0#32 := by
    intro hzero
    have hself := congrArg (fun v => v.getLsbD j) hzero
    simp [hj] at hself
  rw [hbit, BitVec.and_twoPow]
  split
  · exact ⟨fun _ => by assumption, fun _ => hne⟩
  · rename_i hunset
    exact ⟨fun h => absurd rfl h, fun h => absurd h hunset⟩

theorem shiftcode_bit : forall (data : BitVec 8) (j : Fin 7),
    (shiftcode data).getLsbD j = decide (j.val < 3 ∧ shiftcode data = 1 <<< j.val) := by
  decide +kernel

theorem togglecode_bit : forall (data : BitVec 8) (j : Fin 7),
    (togglecode data).getLsbD j =
      decide (3 ≤ j.val ∧ j.val < 6 ∧ togglecode data = 1 <<< j.val) := by
  decide +kernel

theorem E0ESC_bit : forall j : Fin 7, E0ESC.getLsbD j = decide (j.val = 6) := by decide

theorem shiftcode_getLsbD {data : BitVec 8} {j : Nat} (hj : j < 3) :
    (shiftcode data).getLsbD j = decide (shiftcode data = 1 <<< j) := by
  have hbit := shiftcode_bit data ⟨j, by lia⟩
  rw [hbit]
  exact decide_eq_decide.mpr ⟨fun h => h.right, fun h => ⟨hj, h⟩⟩

theorem shiftcode_getLsbD_above {data : BitVec 8} {j : Nat} (hj : 3 ≤ j) (hle : j < 7) :
    (shiftcode data).getLsbD j = false := by
  have hbit := shiftcode_bit data ⟨j, hle⟩
  rw [hbit]
  exact decide_eq_false fun h => absurd h.left (by lia)

theorem togglecode_getLsbD {data : BitVec 8} {j : Nat} (hj : 3 ≤ j) (hlt : j < 6) :
    (togglecode data).getLsbD j = decide (togglecode data = 1 <<< j) := by
  have hbit := togglecode_bit data ⟨j, by lia⟩
  rw [hbit]
  exact decide_eq_decide.mpr ⟨fun h => h.right.right, fun h => ⟨hj, hlt, h⟩⟩

theorem togglecode_getLsbD_outside {data : BitVec 8} {j : Nat} (hj : j < 3 ∨ j = 6) :
    (togglecode data).getLsbD j = false := by
  have hbit := togglecode_bit data ⟨j, by lia⟩
  rw [hbit]
  exact decide_eq_false fun h => by
    rcases h with ⟨hlow, hhigh, _⟩
    dsimp only at *
    lia

theorem E0ESC_getLsbD {j : Nat} (hj : j < 6) : E0ESC.getLsbD j = false := by
  have hbit := E0ESC_bit ⟨j, by lia⟩
  rw [hbit]
  exact decide_eq_false (Nat.ne_of_lt hj)

end Bits

section History

variable {kind : BitVec 32} {past : List KeyEvent} {e : KeyEvent}

theorem held_concat :
    held kind (past ++ [e]) = if shiftcode e.key = kind then e.isPress else held kind past := by
  unfold held
  rw [List.reverse_append, List.reverse_singleton, List.singleton_append]
  by_cases hkind : shiftcode e.key = kind
  · have hfound : decide (shiftcode e.key = kind) = true := decide_eq_true hkind
    simp only [if_pos hkind, List.find?_cons, hfound]
  · have hother : decide (shiftcode e.key = kind) = false := decide_eq_false hkind
    simp only [if_neg hkind, List.find?_cons, hother]

theorem locked_concat :
    locked kind (past ++ [e]) =
      if e.isPress ∧ togglecode e.key = kind then !locked kind past else locked kind past := by
  unfold locked
  rw [List.countP_append, List.countP_singleton]
  by_cases hpress : e.isPress ∧ togglecode e.key = kind
  · rw [if_pos (decide_eq_true hpress), if_pos hpress, ← decide_not]
    exact decide_eq_decide.mpr (by lia)
  · rw [if_neg (by simpa using hpress), if_neg hpress, Nat.add_zero]

end History

section Step

variable {past : List KeyEvent} {esc : Bool} {shift : BitVec 32}

theorem Remembers.start : Remembers [] false 0 := by
  constructor
  · intro j _
    exact BitVec.getLsbD_zero
  · intro j _ _
    exact BitVec.getLsbD_zero
  · rfl

theorem Remembers.escaped (h : Remembers past esc shift) :
    shift &&& E0ESC ≠ 0 <-> esc = true := by
  rw [← h.esc]
  exact and_bit (by decide)

theorem Remembers.escape (h : Remembers past esc shift) :
    Remembers past true (shift ||| E0ESC) := by
  constructor
  · intro j hj
    rw [BitVec.getLsbD_or, E0ESC_getLsbD (by lia), Bool.or_false]
    exact h.held j hj
  · intro j hj hlt
    rw [BitVec.getLsbD_or, E0ESC_getLsbD (by lia), Bool.or_false]
    exact h.locked j hj hlt
  · rw [BitVec.getLsbD_or]
    exact Bool.or_true _

theorem Remembers.release (h : Remembers past esc shift) (key : BitVec 8) :
    Remembers (past ++ [KeyEvent.release key]) false
      (shift &&& ~~~(shiftcode key ||| E0ESC)) := by
  have hbit : forall j, j < 7 -> (shift &&& ~~~(shiftcode key ||| E0ESC)).getLsbD j =
      (shift.getLsbD j && !((shiftcode key).getLsbD j || E0ESC.getLsbD j)) := by
    intro j hj
    rw [BitVec.getLsbD_and, BitVec.getLsbD_not, BitVec.getLsbD_or, decide_eq_true (by lia),
      Bool.true_and]
  constructor
  · intro j hj
    rw [hbit j (by lia), E0ESC_getLsbD (by lia), shiftcode_getLsbD hj, held_concat, h.held j hj,
      Bool.or_false]
    change _ = if shiftcode key = 1 <<< j then false else _
    by_cases hkind : shiftcode key = 1 <<< j
    · rw [if_pos hkind, decide_eq_true hkind]
      exact Bool.and_false _
    · rw [if_neg hkind, decide_eq_false hkind]
      exact Bool.and_true _
  · intro j hj hlt
    rw [hbit j (by lia), E0ESC_getLsbD hlt, shiftcode_getLsbD_above hj (by lia), locked_concat,
      h.locked j hj hlt, if_neg (fun hpress => Bool.false_ne_true hpress.left)]
    exact Bool.and_true _
  · rw [hbit 6 (by decide), shiftcode_getLsbD_above (by decide) (by decide)]
    exact Bool.and_false _

def pressed (esc : Bool) (key : BitVec 8) (shift : BitVec 32) : BitVec 32 :=
  ((if esc then shift &&& ~~~E0ESC else shift) ||| shiftcode key) ^^^ togglecode key

theorem Remembers.unescaped (h : Remembers past esc shift) {j : Nat} (hj : j < 7) :
    (if esc then shift &&& ~~~E0ESC else shift).getLsbD j =
      if j < 6 then shift.getLsbD j else false := by
  have hcleared : (shift &&& ~~~E0ESC).getLsbD j = (shift.getLsbD j && !E0ESC.getLsbD j) := by
    rw [BitVec.getLsbD_and, BitVec.getLsbD_not, decide_eq_true (by lia), Bool.true_and]
  by_cases hlow : j < 6
  · rw [if_pos hlow]
    split
    · rw [hcleared, E0ESC_getLsbD hlow]
      exact Bool.and_true _
    · rfl
  · have hsix : j = 6 := by lia
    subst hsix
    rw [if_neg hlow]
    split
    · rw [hcleared]
      exact Bool.and_false _
    · rename_i hesc
      rw [h.esc]
      exact Bool.eq_false_iff.mpr hesc

theorem Remembers.press (h : Remembers past esc shift) (key : BitVec 8) :
    Remembers (past ++ [KeyEvent.press key]) false (pressed esc key shift) := by
  have hbit : forall j, j < 7 -> (pressed esc key shift).getLsbD j =
      (((if j < 6 then shift.getLsbD j else false) || (shiftcode key).getLsbD j) ^^
        (togglecode key).getLsbD j) := by
    intro j hj
    unfold pressed
    rw [BitVec.getLsbD_xor, BitVec.getLsbD_or, h.unescaped hj]
  constructor
  · intro j hj
    rw [hbit j (by lia), if_pos (by lia), shiftcode_getLsbD hj,
      togglecode_getLsbD_outside (Or.inl hj), held_concat, h.held j hj, Bool.xor_false]
    change _ = if shiftcode key = 1 <<< j then true else _
    by_cases hkind : shiftcode key = 1 <<< j
    · rw [if_pos hkind, decide_eq_true hkind]
      exact Bool.or_true _
    · rw [if_neg hkind, decide_eq_false hkind]
      exact Bool.or_false _
  · intro j hj hlt
    rw [hbit j (by lia), if_pos hlt, shiftcode_getLsbD_above hj (by lia),
      togglecode_getLsbD hj hlt, locked_concat, h.locked j hj hlt, Bool.or_false]
    change _ = if true = true ∧ togglecode key = 1 <<< j then _ else _
    by_cases hkind : togglecode key = 1 <<< j
    · rw [if_pos ⟨rfl, hkind⟩, decide_eq_true hkind]
      exact Bool.xor_true _
    · rw [if_neg (fun hpress => hkind hpress.right), decide_eq_false hkind]
      exact Bool.xor_false _
  · rw [hbit 6 (by decide), if_neg (by decide), shiftcode_getLsbD_above (by decide) (by decide),
      togglecode_getLsbD_outside (Or.inr rfl)]
    rfl

theorem testBit_mod_four (n : Nat) :
    n % 4 = (if n.testBit 1 then 2 else 0) + if n.testBit 0 then 1 else 0 := by
  rw [Nat.testBit_eq_decide_div_mod_eq, Nat.testBit_eq_decide_div_mod_eq]
  split
  · rename_i hone
    have hone' := of_decide_eq_true hone
    split
    · rename_i hzero
      have hzero' := of_decide_eq_true hzero
      lia
    · rename_i hzero
      have hzero' := of_decide_eq_false (Bool.eq_false_iff.mpr hzero)
      lia
  · rename_i hone
    have hone' := of_decide_eq_false (Bool.eq_false_iff.mpr hone)
    split
    · rename_i hzero
      have hzero' := of_decide_eq_true hzero
      lia
    · rename_i hzero
      have hzero' := of_decide_eq_false (Bool.eq_false_iff.mpr hzero)
      lia

theorem Remembers.charcode (h : Remembers past esc shift) :
    charcode shift = if Console.held CTL past then ctlmap
      else if Console.held SHIFT past then shiftmap else normalmap := by
  have hmask : (shift &&& (CTL ||| SHIFT)).toNat = shift.toNat % 4 := by
    rw [BitVec.toNat_and]
    exact Nat.and_two_pow_sub_one_eq_mod shift.toNat 2
  have hone : shift.toNat.testBit 1 = Console.held CTL past := h.held 1 (by decide)
  have hzero : shift.toNat.testBit 0 = Console.held SHIFT past := h.held 0 (by decide)
  unfold Console.charcode
  rw [hmask, testBit_mod_four, hone, hzero]
  cases Console.held CTL past with
  | true =>
      cases Console.held SHIFT past with
      | true => rfl
      | false => rfl
  | false =>
      cases Console.held SHIFT past with
      | true => rfl
      | false => rfl

theorem Remembers.capslock (h : Remembers past esc shift) :
    shift &&& CAPSLOCK ≠ 0 <-> Console.locked CAPSLOCK past = true := by
  have hthree := h.locked 3 (by decide) (by decide)
  change _ = Console.locked CAPSLOCK past at hthree
  rw [← hthree]
  exact and_bit (by decide)

theorem CTL_ALT_bit : forall j : Fin 32, (CTL ||| ALT).getLsbD j = decide (j.val = 1 ∨ j.val = 2) := by
  decide

theorem Remembers.ctlAlt (h : Remembers past esc shift) :
    ~~~shift &&& (CTL ||| ALT) = 0 <->
      Console.held CTL past = true ∧ Console.held ALT past = true := by
  have hctl : shift.getLsbD 1 = Console.held CTL past := h.held 1 (by decide)
  have halt : shift.getLsbD 2 = Console.held ALT past := h.held 2 (by decide)
  have hbit : forall j, j < 32 -> (~~~shift &&& (CTL ||| ALT)).getLsbD j =
      (!shift.getLsbD j && decide (j = 1 ∨ j = 2)) := by
    intro j hj
    rw [BitVec.getLsbD_and, BitVec.getLsbD_not, decide_eq_true hj, Bool.true_and]
    exact congrArg _ (CTL_ALT_bit ⟨j, hj⟩)
  rw [← hctl, ← halt]
  constructor
  · intro hzero
    have hone := hbit 1 (by decide)
    have htwo := hbit 2 (by decide)
    rw [hzero] at hone htwo
    constructor
    · simpa using hone
    · simpa using htwo
  · rintro ⟨hone, htwo⟩
    apply BitVec.eq_of_getLsbD_eq
    intro j hj
    rw [hbit j hj]
    by_cases hmask : j = 1 ∨ j = 2
    · rcases hmask with hj1 | hj2
      · rw [hj1, hone]
        rfl
      · rw [hj2, htwo]
        rfl
    · rw [decide_eq_false hmask, Bool.and_false]
      exact BitVec.getLsbD_zero.symm

theorem ctlmap_delete : forall key : BitVec 8,
    (ctlmap key = KEY_DEL <-> key = deleteKey) ∧
      (swapCase (ctlmap key) = KEY_DEL <-> key = deleteKey) := by
  decide +kernel

theorem keyChar_delete {key : BitVec 8} (hctl : held CTL past = true) :
    keyChar past key = KEY_DEL <-> key = deleteKey := by
  unfold keyChar
  rw [if_pos hctl]
  dsimp only
  split
  · exact (ctlmap_delete key).right
  · exact (ctlmap_delete key).left

theorem kbdProcData_release {data : BitVec 8} (h : Remembers past esc shift) (hne : data ≠ 0xE0)
    (hdata : data &&& 0x80 ≠ 0) :
    exists shift', kbdProcData shift data = (shift', 0, false) ∧
      Remembers (past ++ [KeyEvent.release (if esc then data else data &&& 0x7F)]) false shift' := by
  refine ⟨_, ?_, h.release _⟩
  unfold kbdProcData
  rw [if_neg hne, if_pos hdata]
  simp only [h.escaped]

theorem kbdProcData_press {data : BitVec 8} (h : Remembers past esc shift) (hne : data ≠ 0xE0)
    (hdata : ¬ data &&& 0x80 ≠ 0) (key : BitVec 8)
    (hkey : key = if esc then data ||| 0x80 else data) :
    exists shift', kbdProcData shift data =
        (shift', keyChar (past ++ [KeyEvent.press key]) key,
          decide (key = deleteKey ∧ held CTL (past ++ [KeyEvent.press key]) = true ∧
            held ALT (past ++ [KeyEvent.press key]) = true)) ∧
      Remembers (past ++ [KeyEvent.press key]) false shift' := by
  have hpress := h.press key
  have hchar : (if pressed esc key shift &&& CAPSLOCK ≠ 0 then
        swapCase (charcode (pressed esc key shift) key)
      else charcode (pressed esc key shift) key) =
      keyChar (past ++ [KeyEvent.press key]) key := by
    simp only [hpress.capslock, hpress.charcode]
    rfl
  refine ⟨pressed esc key shift, ?_, hpress⟩
  unfold kbdProcData
  rw [if_neg hne, if_neg hdata]
  simp only [h.escaped, ← hkey]
  change (pressed esc key shift, (if pressed esc key shift &&& CAPSLOCK ≠ 0 then
      swapCase (charcode (pressed esc key shift) key)
    else charcode (pressed esc key shift) key), decide (~~~pressed esc key shift &&& (CTL ||| ALT) = 0 ∧
      (if pressed esc key shift &&& CAPSLOCK ≠ 0 then
        swapCase (charcode (pressed esc key shift) key)
      else charcode (pressed esc key shift) key) = KEY_DEL)) = _
  rw [hchar]
  congr 2
  apply decide_eq_decide.mpr
  rw [hpress.ctlAlt]
  constructor
  · rintro ⟨⟨hctl, halt⟩, hdelete⟩
    exact ⟨(keyChar_delete hctl).mp hdelete, hctl, halt⟩
  · rintro ⟨hdelete, hctl, halt⟩
    exact ⟨⟨hctl, halt⟩, (keyChar_delete hctl).mpr hdelete⟩

end Step

/-!
# All bytes
-/

section Drain

variable {past : List KeyEvent} {esc : Bool} {shift : BitVec 32}

structure Drained (past : List KeyEvent) (esc : Bool) (events : List KeyEvent)
    (drained : BitVec 32 × List (BitVec 8) × Nat) : Prop where
  chars : nonzero drained.2.1 = nonzero (typedChars past events)
  reboots : drained.2.2 = reboots past events
  remembers : Remembers (past ++ events) esc drained.1

theorem nonzero_cons_zero (cs : List (BitVec 8)) : nonzero (0 :: cs) = nonzero cs := rfl

theorem nonzero_congr {c : BitVec 8} {cs cs' : List (BitVec 8)} (h : nonzero cs = nonzero cs') :
    nonzero (c :: cs) = nonzero (c :: cs') := by
  have hsplit : forall ds, nonzero (c :: ds) = nonzero [c] ++ nonzero ds :=
    fun ds => nonzero_append [c] ds
  rw [hsplit cs, hsplit cs', h]

theorem Remembers.drain (h : Remembers past esc shift) (scans : List (BitVec 8)) :
    Drained past (keyEvents esc scans).2 (keyEvents esc scans).1 (kbdDrain shift scans) := by
  induction scans generalizing past esc shift with
  | nil =>
      refine ⟨rfl, rfl, ?_⟩
      change Remembers (past ++ []) esc shift
      rw [List.append_nil]
      exact h
  | cons data scans ih =>
      by_cases hescape : data = 0xE0
      · have hdata : kbdProcData shift data = (shift ||| E0ESC, 0, false) := if_pos hescape
        have hrest := ih h.escape
        rw [kbdDrain_cons, hdata]
        unfold keyEvents
        rw [if_pos hescape]
        refine ⟨?_, ?_, hrest.remembers⟩
        · exact (nonzero_cons_zero _).trans hrest.chars
        · exact (Nat.zero_add _).trans hrest.reboots
      · rw [kbdDrain_cons]
        unfold keyEvents
        rw [if_neg hescape]
        by_cases hrelease : data &&& 0x80 ≠ 0
        · rcases kbdProcData_release h hescape hrelease with ⟨shift', hdata, hshift'⟩
          have hrest := ih hshift'
          rw [hdata, if_pos hrelease]
          refine ⟨?_, ?_, ?_⟩
          · exact (nonzero_cons_zero _).trans hrest.chars
          · refine (Nat.zero_add _).trans (hrest.reboots.trans ?_)
            exact (Nat.zero_add _).symm
          · have hremembers := hrest.remembers
            rw [List.append_assoc] at hremembers
            exact hremembers
        · rcases kbdProcData_press h hescape hrelease _ rfl with ⟨shift', hdata, hshift'⟩
          have hrest := ih hshift'
          rw [hdata, if_neg hrelease]
          refine ⟨?_, ?_, ?_⟩
          · exact nonzero_congr hrest.chars
          · change (if decide _ = true then 1 else 0) + _ = (if true = true ∧ _ then 1 else 0) + _
            rw [hrest.reboots]
            simp only [decide_eq_true_eq, true_and]
            rfl
          · have hremembers := hrest.remembers
            rw [List.append_assoc] at hremembers
            exact hremembers

end Drain

def scanCodes (e : KeyEvent) : List (BitVec 8) :=
  (if e.key &&& 0x80 ≠ 0 then [0xE0] else []) ++
    [if e.isPress then e.key &&& 0x7F else e.key ||| 0x80]

/-- No key has the code whose release would look like an escape byte. -/
def KeyEvent.Real (e : KeyEvent) : Prop := e.key &&& 0x7F ≠ 0x60

instance (e : KeyEvent) : Decidable e.Real := inferInstanceAs (Decidable (_ ≠ _))

theorem scanCodes_bytes : forall key : BitVec 8, key &&& 0x7F ≠ 0x60 ->
    (key &&& 0x7F ≠ 0xE0 ∧ ¬ (key &&& 0x7F) &&& 0x80 ≠ 0) ∧
      (key ||| 0x80 ≠ 0xE0 ∧ (key ||| 0x80) &&& 0x80 ≠ 0) ∧
      (key &&& 0x80 ≠ 0 -> (key &&& 0x7F) ||| 0x80 = key ∧ key ||| 0x80 = key) ∧
      (¬ key &&& 0x80 ≠ 0 -> key &&& 0x7F = key ∧ (key ||| 0x80) &&& 0x7F = key) := by
  decide +kernel

theorem keyEvents_press {esc : Bool} {data : BitVec 8} {scans : List (BitVec 8)}
    (hne : data ≠ 0xE0) (hdata : ¬ data &&& 0x80 ≠ 0) :
    keyEvents esc (data :: scans) =
      (KeyEvent.press (if esc then data ||| 0x80 else data) :: (keyEvents false scans).1,
        (keyEvents false scans).2) := by
  rw [keyEvents, if_neg hne, if_neg hdata]

theorem keyEvents_release {esc : Bool} {data : BitVec 8} {scans : List (BitVec 8)}
    (hne : data ≠ 0xE0) (hdata : data &&& 0x80 ≠ 0) :
    keyEvents esc (data :: scans) =
      (KeyEvent.release (if esc then data else data &&& 0x7F) :: (keyEvents false scans).1,
        (keyEvents false scans).2) := by
  rw [keyEvents, if_neg hne, if_pos hdata]

theorem keyEvents_escape {esc : Bool} {scans : List (BitVec 8)} :
    keyEvents esc (0xE0 :: scans) = keyEvents true scans := by
  rw [keyEvents, if_pos rfl]

theorem keyEvents_prefixed (ext : Prop) [Decidable ext] (data : BitVec 8)
    (scans : List (BitVec 8)) :
    keyEvents false ((if ext then [0xE0] else []) ++ [data] ++ scans) =
      keyEvents (decide ext) (data :: scans) := by
  by_cases hext : ext
  · rw [if_pos hext, decide_eq_true hext]
    exact keyEvents_escape
  · rw [if_neg hext, decide_eq_false hext]
    rfl

theorem keyEvents_scanCodes_append {e : KeyEvent} (hreal : e.Real) (scans : List (BitVec 8)) :
    keyEvents false (scanCodes e ++ scans) =
      (e :: (keyEvents false scans).1, (keyEvents false scans).2) := by
  rcases scanCodes_bytes e.key hreal with
    ⟨⟨hmake, hmakeBit⟩, ⟨hbreak, hbreakBit⟩, hextended, hplain⟩
  unfold scanCodes
  rw [keyEvents_prefixed]
  cases e with
  | press key =>
      have hkey : (if decide (key &&& 0x80 ≠ 0) then (key &&& 0x7F) ||| 0x80 else key &&& 0x7F) =
          key := by
        split
        · rename_i hext
          exact (hextended (of_decide_eq_true hext)).left
        · rename_i hext
          exact (hplain (of_decide_eq_false (Bool.eq_false_iff.mpr hext))).left
      refine (keyEvents_press hmake hmakeBit).trans ?_
      exact congrArg (fun k => (KeyEvent.press k :: _, _)) hkey
  | release key =>
      have hkey : (if decide (key &&& 0x80 ≠ 0) then key ||| 0x80 else (key ||| 0x80) &&& 0x7F) =
          key := by
        split
        · rename_i hext
          exact (hextended (of_decide_eq_true hext)).right
        · rename_i hext
          exact (hplain (of_decide_eq_false (Bool.eq_false_iff.mpr hext))).right
      refine (keyEvents_release hbreak hbreakBit).trans ?_
      exact congrArg (fun k => (KeyEvent.release k :: _, _)) hkey

theorem keyEvents_scanCodes {events : List KeyEvent} (hreal : forall e, e ∈ events -> e.Real)
    (scans : List (BitVec 8)) :
    keyEvents false (events.flatMap scanCodes ++ scans) =
      (events ++ (keyEvents false scans).1, (keyEvents false scans).2) := by
  induction events with
  | nil => rfl
  | cons e events ih =>
      have hrest := ih fun x hx => hreal x (List.mem_cons_of_mem e hx)
      rw [List.flatMap_cons, List.append_assoc, keyEvents_scanCodes_append
        (hreal e List.mem_cons_self), hrest]
      rfl

/-- Whatever the controller sends, the characters are those of the keys that were pressed, each
one in the state of the shift keys and of the caps lock at that time, and a reboot is asked for
exactly when Del was pressed and the last events of the control and of the alternate keys were
presses. -/
theorem keyboard_follows_history (scans : List (BitVec 8)) :
    Drained [] (keyEvents false scans).2 (keyEvents false scans).1 (kbdDrain 0 scans) ∧
      forall events, (forall e, e ∈ events -> e.Real) -> scans = events.flatMap scanCodes ->
        keyEvents false scans = (events, false) := by
  refine ⟨Remembers.start.drain scans, ?_⟩
  intro events hreal hscans
  have hread := keyEvents_scanCodes hreal []
  rw [List.append_nil, ← hscans] at hread
  rw [hread]
  exact congrArg (·, false) (List.append_nil events)

def ctrlAltDel : List KeyEvent :=
  [KeyEvent.press 0x9D, KeyEvent.press 0x38, KeyEvent.press deleteKey]

theorem keyboard_follows_history_reboot :
    (kbdDrain 0 (ctrlAltDel.flatMap scanCodes)).2.2 = 1 := by
  rcases keyboard_follows_history (ctrlAltDel.flatMap scanCodes) with ⟨hdrained, hread⟩
  rw [hdrained.reboots, hread ctrlAltDel (by decide) rfl]
  decide

end Console
end OsLabs
