import OsLabs.Memory.DefaultPmm
import OsLabs.Memory.Mmu

/-!
# The two-level page table

`pmm.c` and `pmm.h`: walking, extending and editing the page directory and the
page tables.  The words of every frame are kept in one map, so that a `pte_t *`
or `pde_t *` is a frame with an index into it; the kernel reaches a frame
through `KADDR`, which panics on an address beyond the physical memory.  The
page directory is given by its frame.

The functions return `none` where the kernel panics.
-/

namespace OsLabs
namespace Memory

open Foundation

structure EntryPtr where
  frame : Nat
  index : Nat
deriving DecidableEq

structure VmState where
  pmm : PmmState
  mem : EntryPtr -> BitVec 32

namespace VmState

def load (s : VmState) (ptr : EntryPtr) : BitVec 32 := s.mem ptr

def store (s : VmState) (ptr : EntryPtr) (entry : BitVec 32) : VmState :=
  { s with mem := Function.update s.mem ptr entry }

def clearFrame (s : VmState) (frame : Nat) : VmState :=
  { s with mem := fun ptr => if ptr.frame = frame then 0#32 else s.mem ptr }

def pageRef (s : VmState) (page : Nat) : Int := (s.pmm.pages page).ref

def setPageRef (s : VmState) (page : Nat) (val : Int) : VmState :=
  { s with pmm := s.pmm.modifyPage page fun p => { p with ref := val } }

def pageRefInc (s : VmState) (page : Nat) : VmState :=
  s.setPageRef page (s.pageRef page + 1)

def pageRefDec (s : VmState) (page : Nat) : VmState :=
  s.setPageRef page (s.pageRef page - 1)

@[simp] theorem load_store (s : VmState) (ptr q : EntryPtr) (entry : BitVec 32) :
    (s.store ptr entry).load q = if q = ptr then entry else s.load q := by
  simp [load, store, Function.update_apply]

@[simp] theorem store_pmm (s : VmState) (ptr : EntryPtr) (entry : BitVec 32) :
    (s.store ptr entry).pmm = s.pmm := rfl

@[simp] theorem load_clearFrame (s : VmState) (frame : Nat) (q : EntryPtr) :
    (s.clearFrame frame).load q = if q.frame = frame then 0#32 else s.load q := rfl

@[simp] theorem clearFrame_pmm (s : VmState) (frame : Nat) :
    (s.clearFrame frame).pmm = s.pmm := rfl

@[simp] theorem load_setPageRef (s : VmState) (page : Nat) (val : Int) (q : EntryPtr) :
    (s.setPageRef page val).load q = s.load q := rfl

@[simp] theorem setPageRef_npage (s : VmState) (page : Nat) (val : Int) :
    (s.setPageRef page val).pmm.npage = s.pmm.npage := rfl

@[simp] theorem pageRef_setPageRef (s : VmState) (page q : Nat) (val : Int) :
    (s.setPageRef page val).pageRef q = if q = page then val else s.pageRef q := by
  unfold pageRef setPageRef
  rw [PmmState.modifyPage_pages]
  by_cases h : q = page
  · rw [if_pos h, if_pos h]
  · rw [if_neg h, if_neg h]

theorem pageRef_pageRefInc (s : VmState) (page q : Nat) :
    (s.pageRefInc page).pageRef q = s.pageRef q + if page = q then 1 else 0 := by
  unfold pageRefInc
  rw [pageRef_setPageRef]
  by_cases h : q = page
  · rw [if_pos h, if_pos h.symm, h]
  · rw [if_neg h, if_neg fun heq => h heq.symm, Int.add_zero]

theorem pageRef_pageRefDec (s : VmState) (page q : Nat) :
    (s.pageRefDec page).pageRef q = s.pageRef q - if page = q then 1 else 0 := by
  unfold pageRefDec
  rw [pageRef_setPageRef]
  by_cases h : q = page
  · rw [if_pos h, if_pos h.symm, h]
  · rw [if_neg h, if_neg fun heq => h heq.symm, Int.sub_zero]

end VmState

open VmState

/-- The frame that the kernel reaches at `KADDR(pa)`. -/
def kaddr (s : VmState) (pa : BitVec 32) : Option Nat :=
  if s.pmm.npage ≤ ppn pa then none else some (ppn pa)

def pa2page (s : VmState) (pa : BitVec 32) : Option Nat :=
  if s.pmm.npage ≤ ppn pa then none else some (ppn pa)

def pte2page (s : VmState) (pte : BitVec 32) : Option Nat :=
  if present pte then pa2page s (pteAddr pte) else none

def allocPages (s : VmState) (n : Nat) : Option (VmState × Option Nat) :=
  match defaultAllocPages s.pmm n with
  | none => none
  | some (pmm, r) => some ({ s with pmm := pmm }, r)

def allocPage (s : VmState) : Option (VmState × Option Nat) := allocPages s 1

def freePages (s : VmState) (base n : Nat) : Option VmState :=
  match defaultFreePages s.pmm base n with
  | none => none
  | some pmm => some { s with pmm := pmm }

def freePage (s : VmState) (page : Nat) : Option VmState := freePages s page 1

/-- The value `get_pte` returns once the directory entry is present. -/
def tableEntryPtr (s : VmState) (pdep : EntryPtr) (la : BitVec 32) :
    Option (VmState × Option EntryPtr) :=
  match kaddr s (pdeAddr (s.load pdep)) with
  | none => none
  | some table => some (s, some (EntryPtr.mk table (ptx la)))

def getPte (s : VmState) (pgdir : Nat) (la : BitVec 32) (create : Bool) :
    Option (VmState × Option EntryPtr) :=
  let pdep := EntryPtr.mk pgdir (pdx la)
  if present (s.load pdep) then
    tableEntryPtr s pdep la
  else if !create then
    some (s, none)
  else
    match allocPage s with
    | none => none
    | some (s, none) => some (s, none)
    | some (s, some page) =>
        let s := s.setPageRef page 1
        let pa := page2pa page
        match kaddr s pa with
        | none => none
        | some frame =>
            let s := s.clearFrame frame
            let s := s.store pdep (tableEntry pa)
            tableEntryPtr s pdep la

/-- The page found at `la` and the pointer left in `*ptep_store`. -/
def getPage (s : VmState) (pgdir : Nat) (la : BitVec 32) :
    Option (Option Nat × Option EntryPtr) :=
  match getPte s pgdir la false with
  | none => none
  | some (_, none) => some (none, none)
  | some (s, some ptep) =>
      if present (s.load ptep) then
        match pte2page s (s.load ptep) with
        | none => none
        | some page => some (some page, some ptep)
      else
        some (none, some ptep)

/-!
`tlb_invalidate` flushes a cached translation and changes no memory, so it has
no counterpart here.
-/

def pageRemovePte (s : VmState) (ptep : EntryPtr) : Option VmState :=
  if present (s.load ptep) then
    match pte2page s (s.load ptep) with
    | none => none
    | some page =>
        let s := s.pageRefDec page
        if s.pageRef page = 0 then
          match freePage s page with
          | none => none
          | some s => some (s.store ptep 0#32)
        else
          some (s.store ptep 0#32)
  else
    some s

def pageRemove (s : VmState) (pgdir : Nat) (la : BitVec 32) : Option VmState :=
  match getPte s pgdir la false with
  | none => none
  | some (s, none) => some s
  | some (s, some ptep) => pageRemovePte s ptep

def E_NO_MEM : Int := 4

/-- What `page_insert` does to the entry that is already there. -/
def pageReplace (s : VmState) (page : Nat) (ptep : EntryPtr) : Option VmState :=
  if present (s.load ptep) then
    match pte2page s (s.load ptep) with
    | none => none
    | some p =>
        if p = page then
          some (s.pageRefDec page)
        else
          pageRemovePte s ptep
  else
    some s

def pageInsert (s : VmState) (pgdir page : Nat) (la perm : BitVec 32) :
    Option (VmState × Int) :=
  match getPte s pgdir la true with
  | none => none
  | some (s, none) => some (s, -E_NO_MEM)
  | some (s, some ptep) =>
      let s := s.pageRefInc page
      match pageReplace s page ptep with
      | none => none
      | some s => some (s.store ptep (leafEntry page perm), 0)

def lookup (s : VmState) (pgdir : Nat) (la : BitVec 32) :
    Option (Option (Nat × BitVec 32)) :=
  match getPage s pgdir la with
  | none => none
  | some (some page, some ptep) => some (some (page, flagBits (s.load ptep)))
  | some _ => some none

end Memory
end OsLabs
