import OsLabs.Foundation.Blocks
import OsLabs.Memory.Page

/-!
# The default physical memory manager

`default_pmm.c`: first-fit allocation of runs of pages over one free list.

The functions return `none` where the kernel panics on a failed assertion.  A
walk along the free list is given one unit of fuel for each page and one for
the header; a walk that needs more would not end, and is `none` as well.
-/

namespace OsLabs
namespace Memory

open Foundation
open ListEntryPtr

/-- The state of `default_pmm.c`: the descriptors and the `free_area`. -/
structure PmmState where
  npage : Nat
  pages : Nat -> Page
  links : ListLinks
  nrFree : Nat

namespace PmmState

def modifyPage (s : PmmState) (p : Nat) (f : Page -> Page) : PmmState :=
  { s with pages := Function.update s.pages p (f (s.pages p)) }

def withLinks (s : PmmState) (links : ListLinks) : PmmState :=
  { s with links := links }

def property (s : PmmState) (p : Nat) : Nat := (s.pages p).property

@[simp] theorem modifyPage_npage (s : PmmState) (p : Nat) (f : Page -> Page) :
    (s.modifyPage p f).npage = s.npage := rfl

@[simp] theorem modifyPage_links (s : PmmState) (p : Nat) (f : Page -> Page) :
    (s.modifyPage p f).links = s.links := rfl

@[simp] theorem modifyPage_nrFree (s : PmmState) (p : Nat) (f : Page -> Page) :
    (s.modifyPage p f).nrFree = s.nrFree := rfl

@[simp] theorem modifyPage_pages (s : PmmState) (p q : Nat) (f : Page -> Page) :
    (s.modifyPage p f).pages q = if q = p then f (s.pages p) else s.pages q := by
  simp [modifyPage, Function.update_apply]

theorem modifyPage_modifyPage (s : PmmState) (p : Nat) (f g : Page -> Page) :
    (s.modifyPage p f).modifyPage p g = s.modifyPage p fun page => g (f page) := by
  simp [modifyPage]

@[simp] theorem withLinks_npage (s : PmmState) (links : ListLinks) :
    (s.withLinks links).npage = s.npage := rfl

@[simp] theorem withLinks_pages (s : PmmState) (links : ListLinks) :
    (s.withLinks links).pages = s.pages := rfl

@[simp] theorem withLinks_links (s : PmmState) (links : ListLinks) :
    (s.withLinks links).links = links := rfl

@[simp] theorem withLinks_nrFree (s : PmmState) (links : ListLinks) :
    (s.withLinks links).nrFree = s.nrFree := rfl

end PmmState

open PmmState

def defaultInit (s : PmmState) : PmmState :=
  { s.withLinks (listInit s.links freeList) with nrFree := 0 }

/-!
# Adding a range of pages
-/

/-- The loop of `default_init_memmap` over the `k` pages from `p` on. -/
def initMemmapLoop (base n : Nat) : Nat -> Nat -> PmmState -> Option PmmState
  | 0, _, s => some s
  | k + 1, p, s =>
      if (s.pages p).pageReserved then
        let s := s.modifyPage p fun page => { page with flags := 0#32 }
        let s := s.modifyPage p fun page => { page with ref := 0 }
        if p = base then
          let s := s.modifyPage p fun page => { page with property := n }
          let s := s.modifyPage p Page.setPageProperty
          initMemmapLoop base n k (p + 1) s
        else
          let s := s.modifyPage p fun page => { page with property := 0 }
          initMemmapLoop base n k (p + 1) s
      else
        none

def defaultInitMemmap (s : PmmState) (base n : Nat) : Option PmmState :=
  if 0 < n then
    match initMemmapLoop base n n base s with
    | none => none
    | some s =>
        let s := s.withLinks (listAddBefore s.links freeList (pageLink base))
        some { s with nrFree := s.nrFree + n }
  else
    none

/-!
# Allocation
-/

/-- The first block after `le` with at least `n` pages; `some none` at the
end of the list. -/
def findFit (s : PmmState) (n : Nat) : Nat -> ListEntryPtr -> Option (Option Nat)
  | 0, _ => none
  | fuel + 1, le =>
      match listNext s.links le with
      | freeList => some none
      | pageLink p =>
          if n ≤ s.property p then
            some (some p)
          else
            findFit s n fuel (pageLink p)

/-- What `default_alloc_pages` does with the block it has chosen. -/
def takePages (s : PmmState) (page n : Nat) : PmmState :=
  let s := s.withLinks (listDel s.links (pageLink page))
  let s :=
    if n < s.property page then
      let p := page + n
      let rest := s.property page - n
      let s := s.modifyPage p fun q => { q with property := rest }
      let s := s.modifyPage p Page.setPageProperty
      s.withLinks (listAdd s.links freeList (pageLink p))
    else
      s
  let s := { s with nrFree := s.nrFree - n }
  s.modifyPage page Page.clearPageProperty

def defaultAllocPages (s : PmmState) (n : Nat) : Option (PmmState × Option Nat) :=
  if 0 < n then
    if s.nrFree < n then
      some (s, none)
    else
      match findFit s n (s.npage + 1) freeList with
      | none => none
      | some none => some (s, none)
      | some (some page) => some (takePages s page n, some page)
  else
    none

/-!
# Release
-/

/-- The loop of `default_free_pages` that resets the `k` pages from `p` on. -/
def freeResetLoop : Nat -> Nat -> PmmState -> Option PmmState
  | 0, _, s => some s
  | k + 1, p, s =>
      if !(s.pages p).pageReserved && !(s.pages p).pageProperty then
        let s := s.modifyPage p fun page => { page with flags := 0#32 }
        let s := s.modifyPage p fun page => { page with ref := 0 }
        freeResetLoop k (p + 1) s
      else
        none

/-- The pass that merges the released block with its neighbours.  The walk
goes on from the entry it has just unlinked. -/
def mergeLoop : Nat -> PmmState -> Nat -> ListEntryPtr -> Option (PmmState × Nat)
  | 0, _, _, _ => none
  | fuel + 1, s, base, le =>
      match listNext s.links le with
      | freeList => some (s, base)
      | pageLink p =>
          if base + s.property base = p then
            let grown := s.property base + s.property p
            let s := s.modifyPage base fun page => { page with property := grown }
            let s := s.modifyPage p Page.clearPageProperty
            let s := s.withLinks (listDel s.links (pageLink p))
            mergeLoop fuel s base (pageLink p)
          else if p + s.property p = base then
            let grown := s.property p + s.property base
            let s := s.modifyPage p fun page => { page with property := grown }
            let s := s.modifyPage base Page.clearPageProperty
            let s := s.withLinks (listDel s.links (pageLink p))
            mergeLoop fuel s p (pageLink p)
          else
            mergeLoop fuel s base (pageLink p)

/-- The entry in front of which the merged block is linked. -/
def findPlace (s : PmmState) (base : Nat) : Nat -> ListEntryPtr -> Option ListEntryPtr
  | 0, _ => none
  | fuel + 1, le =>
      match listNext s.links le with
      | freeList => some freeList
      | pageLink p =>
          if base + s.property base ≤ p then
            some (pageLink p)
          else
            findPlace s base fuel (pageLink p)

def defaultFreePages (s : PmmState) (base n : Nat) : Option PmmState :=
  if 0 < n then
    match freeResetLoop n base s with
    | none => none
    | some s =>
        let s := s.modifyPage base fun page => { page with property := n }
        let s := s.modifyPage base Page.setPageProperty
        match mergeLoop (s.npage + 1) s base freeList with
        | none => none
        | some (s, base) =>
            match findPlace s base (s.npage + 1) freeList with
            | none => none
            | some le =>
                let s := { s with nrFree := s.nrFree + n }
                some (s.withLinks (listAddBefore s.links le (pageLink base)))
  else
    none

def defaultNrFreePages (s : PmmState) : Nat := s.nrFree

/-!
# Reading the free list
-/

/-- The entries met from `le` on, up to the header. -/
def listedFrom (s : PmmState) : Nat -> ListEntryPtr -> List Nat
  | 0, _ => []
  | fuel + 1, le =>
      match listNext s.links le with
      | freeList => []
      | pageLink p => p :: listedFrom s fuel (pageLink p)

def listedHeads (s : PmmState) : List Nat := listedFrom s (s.npage + 1) freeList

def listedBlocks (s : PmmState) : List Block :=
  (listedHeads s).map fun p => Block.mk p (s.property p)

end Memory
end OsLabs
