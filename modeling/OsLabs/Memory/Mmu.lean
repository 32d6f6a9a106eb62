import Mathlib.Data.Nat.Bitwise

/-!
# Linear addresses and table entries

`mmu.h` and `memlayout.h`: the three parts of a linear address, the two parts
of a page directory or page table entry, and the windows of the kernel's
address space.  Addresses and entries are 32-bit words; a page number is the
natural number it denotes.
-/

namespace OsLabs
namespace Memory

def NPDEENTRY : Nat := 1024

def NPTEENTRY : Nat := 1024

def pdx (la : BitVec 32) : Nat := ((la >>> 22) &&& 0x3FF#32).toNat

def ptx (la : BitVec 32) : Nat := ((la >>> 12) &&& 0x3FF#32).toNat

/-- Page number field of an address. -/
def ppn (la : BitVec 32) : Nat := (la >>> 12).toNat

def pteAddr (pte : BitVec 32) : BitVec 32 := pte &&& ~~~0xFFF#32

def pdeAddr (pde : BitVec 32) : BitVec 32 := pteAddr pde

def PTE_P : BitVec 32 := 0x001#32

def PTE_W : BitVec 32 := 0x002#32

def PTE_U : BitVec 32 := 0x004#32

def present (entry : BitVec 32) : Bool := (entry &&& PTE_P) != 0#32

def flagBits (entry : BitVec 32) : BitVec 32 := entry &&& 0xFFF#32

def page2pa (page : Nat) : BitVec 32 := BitVec.ofNat 32 page <<< 12

/-!
# Reading the parts as numbers
-/

theorem pdx_eq (la : BitVec 32) : pdx la = la.toNat / 4194304 := by
  have hla := la.isLt
  unfold pdx
  rw [BitVec.toNat_and, BitVec.toNat_ushiftRight, Nat.shiftRight_eq_div_pow,
    show (0x3FF#32).toNat = 2 ^ 10 - 1 from rfl, Nat.and_two_pow_sub_one_eq_mod]
  lia

theorem ptx_eq (la : BitVec 32) : ptx la = la.toNat / 4096 % 1024 := by
  unfold ptx
  rw [BitVec.toNat_and, BitVec.toNat_ushiftRight, Nat.shiftRight_eq_div_pow,
    show (0x3FF#32).toNat = 2 ^ 10 - 1 from rfl, Nat.and_two_pow_sub_one_eq_mod]

theorem ppn_eq (la : BitVec 32) : ppn la = la.toNat / 4096 := by
  unfold ppn
  rw [BitVec.toNat_ushiftRight, Nat.shiftRight_eq_div_pow]

theorem pdx_lt (la : BitVec 32) : pdx la < NPDEENTRY := by
  have hla := la.isLt
  rw [pdx_eq]
  unfold NPDEENTRY
  lia

theorem ptx_lt (la : BitVec 32) : ptx la < NPTEENTRY := by
  rw [ptx_eq]
  unfold NPTEENTRY
  lia

theorem ppn_eq_iff (la lb : BitVec 32) :
    ppn la = ppn lb <-> pdx la = pdx lb ∧ ptx la = ptx lb := by
  simp only [ppn_eq, pdx_eq, ptx_eq]
  lia

/-!
# Entries made of a page number and flag bits
-/

theorem getLsbD_offsetMask (k : Nat) : (0xFFF#32).getLsbD k = decide (k < 12) := by
  rw [BitVec.getLsbD_ofNat, show (4095 : Nat) = 2 ^ 12 - 1 from rfl,
    Nat.testBit_two_pow_sub_one]
  by_cases h : k < 12
  · have h32 : k < 32 := by lia
    simp [h, h32]
  · simp [h]

theorem ppn_pteAddr (pte : BitVec 32) : ppn (pteAddr pte) = ppn pte := by
  unfold ppn pteAddr
  congr 1
  ext i hi
  rw [BitVec.getElem_ushiftRight, BitVec.getElem_ushiftRight, BitVec.getLsbD_and,
    BitVec.getLsbD_not, getLsbD_offsetMask]
  by_cases h : 12 + i < 32
  · simp [h]
  · rw [BitVec.getLsbD_of_ge pte _ (by lia), Bool.false_and]

theorem page2pa_toNat {page : Nat} (hpage : page < 2 ^ 20) :
    (page2pa page).toNat = page * 4096 := by
  unfold page2pa
  rw [BitVec.toNat_shiftLeft, BitVec.toNat_ofNat, Nat.shiftLeft_eq]
  lia

theorem page2pa_or_toNat {page : Nat} {flags : BitVec 32} (hpage : page < 2 ^ 20)
    (hflags : flags.toNat < 2 ^ 12) :
    (page2pa page ||| flags).toNat = page * 4096 + flags.toNat := by
  rw [BitVec.toNat_or, page2pa_toNat hpage, Nat.mul_comm,
    show (4096 : Nat) = 2 ^ 12 from rfl, Nat.two_pow_add_eq_or_of_lt hflags]

theorem ppn_page2pa {page : Nat} (hpage : page < 2 ^ 20) : ppn (page2pa page) = page := by
  rw [ppn_eq, page2pa_toNat hpage]
  lia

theorem ppn_page2pa_or {page : Nat} {flags : BitVec 32} (hpage : page < 2 ^ 20)
    (hflags : flags.toNat < 2 ^ 12) : ppn (page2pa page ||| flags) = page := by
  rw [ppn_eq, page2pa_or_toNat hpage hflags]
  lia

theorem flagBits_toNat (entry : BitVec 32) : (flagBits entry).toNat = entry.toNat % 4096 := by
  unfold flagBits
  rw [BitVec.toNat_and, show (0xFFF#32).toNat = 2 ^ 12 - 1 from rfl,
    Nat.and_two_pow_sub_one_eq_mod]

theorem flagBits_page2pa_or {page : Nat} {flags : BitVec 32} (hpage : page < 2 ^ 20)
    (hflags : flags.toNat < 2 ^ 12) : flagBits (page2pa page ||| flags) = flags := by
  apply BitVec.eq_of_toNat_eq
  rw [flagBits_toNat, page2pa_or_toNat hpage hflags]
  lia

theorem present_eq (entry : BitVec 32) : present entry = entry.getLsbD 0 := by
  have hmask : entry &&& 1#32 = if entry.getLsbD 0 then 1#32 else 0#32 := by
    ext i hi
    rw [BitVec.getElem_and, BitVec.getElem_one]
    by_cases h : i = 0
    · subst h
      cases hbit : entry.getLsbD 0 with
      | false => simpa using hbit
      | true => simpa using hbit
    · cases hbit : entry.getLsbD 0 with
      | false => simp [h]
      | true => simp [h]
  unfold present PTE_P
  rw [hmask]
  cases entry.getLsbD 0 with
  | false => rfl
  | true => rfl

@[simp] theorem present_zero : present 0#32 = false := rfl

theorem present_or_left {x y : BitVec 32} (h : present x = true) :
    present (x ||| y) = true := by
  rw [present_eq] at h ⊢
  rw [BitVec.getLsbD_or, h, Bool.true_or]

theorem present_or_right {x y : BitVec 32} (h : present y = true) :
    present (x ||| y) = true := by
  rw [BitVec.or_comm]
  exact present_or_left h

/-- The entry `page2pa(page) | PTE_P | perm`. -/
def leafEntry (page : Nat) (perm : BitVec 32) : BitVec 32 := page2pa page ||| PTE_P ||| perm

/-- The entry `pa | PTE_U | PTE_W | PTE_P` of a new page table. -/
def tableEntry (pa : BitVec 32) : BitVec 32 := pa ||| PTE_U ||| PTE_W ||| PTE_P

theorem present_leafEntry (page : Nat) (perm : BitVec 32) :
    present (leafEntry page perm) = true :=
  present_or_left (present_or_right rfl)

theorem present_tableEntry (pa : BitVec 32) : present (tableEntry pa) = true :=
  present_or_right rfl

theorem or_perm_toNat_lt {perm : BitVec 32} (hperm : perm.toNat < 2 ^ 12) :
    (PTE_P ||| perm).toNat < 2 ^ 12 := by
  rw [BitVec.toNat_or]
  exact Nat.or_lt_two_pow (by decide) hperm

theorem ppn_leafEntry {page : Nat} {perm : BitVec 32} (hpage : page < 2 ^ 20)
    (hperm : perm.toNat < 2 ^ 12) : ppn (leafEntry page perm) = page := by
  unfold leafEntry
  rw [BitVec.or_assoc]
  exact ppn_page2pa_or hpage (or_perm_toNat_lt hperm)

theorem flagBits_leafEntry {page : Nat} {perm : BitVec 32} (hpage : page < 2 ^ 20)
    (hperm : perm.toNat < 2 ^ 12) : flagBits (leafEntry page perm) = PTE_P ||| perm := by
  unfold leafEntry
  rw [BitVec.or_assoc]
  exact flagBits_page2pa_or hpage (or_perm_toNat_lt hperm)

theorem ppn_tableEntry {page : Nat} (hpage : page < 2 ^ 20) :
    ppn (tableEntry (page2pa page)) = page := by
  unfold tableEntry
  rw [BitVec.or_assoc, BitVec.or_assoc]
  exact ppn_page2pa_or hpage (by decide)

/-!
# The windows of the address space
-/

def KERNBASE : Nat := 0xC0000000

def KMEMSIZE : Nat := 0x38000000

def KERNTOP : Nat := KERNBASE + KMEMSIZE

def VPT : Nat := 0xFAC00000

def PTSIZE : Nat := 4096 * NPTEENTRY

/-- The directory index of the self-map window. -/
def selfIndex : Nat := 1003

def Admissible (la : BitVec 32) : Prop :=
  ¬ (KERNBASE ≤ la.toNat ∧ la.toNat < KERNTOP) ∧
    ¬ (VPT ≤ la.toNat ∧ la.toNat < VPT + PTSIZE)

instance (la : BitVec 32) : Decidable (Admissible la) :=
  inferInstanceAs (Decidable (_ ∧ _))

def kernelIndex (i : Nat) : Bool := decide (768 ≤ i ∧ i < 992)

def userIndex (i : Nat) : Bool :=
  decide (i < NPDEENTRY) && !kernelIndex i && decide (i ≠ selfIndex)

theorem userIndex_iff {i : Nat} :
    userIndex i = true <-> i < 1024 ∧ ¬ (768 ≤ i ∧ i < 992) ∧ i ≠ 1003 := by
  unfold userIndex kernelIndex NPDEENTRY selfIndex
  rw [Bool.and_eq_true, Bool.and_eq_true, Bool.not_eq_true', decide_eq_false_iff_not,
    decide_eq_true_eq, decide_eq_true_eq, and_assoc]

theorem admissible_iff (la : BitVec 32) : Admissible la <-> userIndex (pdx la) = true := by
  have hla := la.isLt
  rw [userIndex_iff, pdx_eq]
  unfold Admissible KERNBASE KERNTOP KERNBASE KMEMSIZE VPT PTSIZE NPTEENTRY
  lia

end Memory
end OsLabs
