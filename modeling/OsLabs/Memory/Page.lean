import OsLabs.Foundation.Links

/-!
# Page descriptors and the free list

The data the physical memory manager works on: the array of `struct Page`
descriptors of `memlayout.h`, the intrusive list nodes of `list.h`, and the
`free_area` of the default manager.

A `struct Page *` is its index in the `pages` array.  The `page_link` fields of
all descriptors and the list header are kept together in one map of links, so
that a `list_entry_t *` is either the header or the link of a page.
-/

namespace OsLabs
namespace Memory

open Foundation

/-!
# Flag words

`set_bit`, `clear_bit` and `test_bit` of `atomic.h` on one 32-bit word.
-/

def setBit (nr : Nat) (word : BitVec 32) : BitVec 32 := word ||| (1#32 <<< nr)

def clearBit (nr : Nat) (word : BitVec 32) : BitVec 32 := word &&& ~~~(1#32 <<< nr)

def testBit (nr : Nat) (word : BitVec 32) : Bool := word.getLsbD nr

theorem testBit_setBit {i j : Nat} (word : BitVec 32) (hi : i < 32) :
    testBit i (setBit j word) = (testBit i word || decide (i = j)) := by
  unfold testBit setBit
  rw [BitVec.getLsbD_or, BitVec.getLsbD_shiftLeft, BitVec.getLsbD_one]
  congr 1
  by_cases hij : i = j
  · subst hij
    simp [hi]
  · by_cases hlt : i < j
    · simp [hlt, hij]
    · have hsub : i - j ≠ 0 := by lia
      simp [hlt, hij, hsub]

theorem testBit_clearBit {i j : Nat} (word : BitVec 32) (hi : i < 32) :
    testBit i (clearBit j word) = (testBit i word && !decide (i = j)) := by
  unfold testBit clearBit
  rw [BitVec.getLsbD_and, BitVec.getLsbD_not, BitVec.getLsbD_shiftLeft,
    BitVec.getLsbD_one]
  congr 1
  by_cases hij : i = j
  · subst hij
    simp [hi]
  · by_cases hlt : i < j
    · simp [hlt, hij, hi]
    · have hsub : i - j ≠ 0 := by lia
      simp [hlt, hij, hsub, hi]

@[simp] theorem testBit_zero (i : Nat) : testBit i 0#32 = false := by
  simp [testBit]

/-!
# Descriptors
-/

structure Page where
  ref : Int
  flags : BitVec 32
  property : Nat
deriving DecidableEq

def PG_reserved : Nat := 0

def PG_property : Nat := 1

namespace Page

def setPageReserved (page : Page) : Page :=
  { page with flags := setBit PG_reserved page.flags }

def pageReserved (page : Page) : Bool := testBit PG_reserved page.flags

def setPageProperty (page : Page) : Page :=
  { page with flags := setBit PG_property page.flags }

def clearPageProperty (page : Page) : Page :=
  { page with flags := clearBit PG_property page.flags }

def pageProperty (page : Page) : Bool := testBit PG_property page.flags

@[simp] theorem setPageProperty_ref (page : Page) :
    page.setPageProperty.ref = page.ref := rfl

@[simp] theorem setPageProperty_property (page : Page) :
    page.setPageProperty.property = page.property := rfl

@[simp] theorem clearPageProperty_ref (page : Page) :
    page.clearPageProperty.ref = page.ref := rfl

@[simp] theorem clearPageProperty_property (page : Page) :
    page.clearPageProperty.property = page.property := rfl

@[simp] theorem pageProperty_setPageProperty (page : Page) :
    page.setPageProperty.pageProperty = true := by
  simp [pageProperty, setPageProperty, PG_property, testBit_setBit]

@[simp] theorem pageReserved_setPageProperty (page : Page) :
    page.setPageProperty.pageReserved = page.pageReserved := by
  simp [pageReserved, setPageProperty, PG_property, PG_reserved, testBit_setBit]

@[simp] theorem pageProperty_clearPageProperty (page : Page) :
    page.clearPageProperty.pageProperty = false := by
  simp [pageProperty, clearPageProperty, PG_property, testBit_clearBit]

@[simp] theorem pageReserved_clearPageProperty (page : Page) :
    page.clearPageProperty.pageReserved = page.pageReserved := by
  simp [pageReserved, clearPageProperty, PG_property, PG_reserved,
    testBit_clearBit]

end Page

/-!
# List entries
-/

inductive ListEntryPtr where
  | freeList
  | pageLink (page : Nat)
deriving DecidableEq, Repr

abbrev ListLinks := Links ListEntryPtr

def listInit (L : ListLinks) (elm : ListEntryPtr) : ListLinks :=
  (L.setNext elm elm).setPrev elm elm

/-- `__list_add`: insert a new entry between two known consecutive entries. -/
def listAddBetween (L : ListLinks) (elm prev next : ListEntryPtr) : ListLinks :=
  (((L.setPrev next elm).setNext prev elm).setNext elm next).setPrev elm prev

def listAddBefore (L : ListLinks) (listelm elm : ListEntryPtr) : ListLinks :=
  listAddBetween L elm (L.prev listelm) listelm

def listAddAfter (L : ListLinks) (listelm elm : ListEntryPtr) : ListLinks :=
  listAddBetween L elm listelm (L.next listelm)

def listAdd (L : ListLinks) (listelm elm : ListEntryPtr) : ListLinks :=
  listAddAfter L listelm elm

/-- `__list_del`: make the neighbours of an entry point to each other. -/
def listDelBetween (L : ListLinks) (prev next : ListEntryPtr) : ListLinks :=
  (L.setNext prev next).setPrev next prev

def listDel (L : ListLinks) (listelm : ListEntryPtr) : ListLinks :=
  listDelBetween L (L.prev listelm) (L.next listelm)

def listNext (L : ListLinks) (listelm : ListEntryPtr) : ListEntryPtr :=
  L.next listelm

open Links

theorem ring_listInit (L : ListLinks) (h : ListEntryPtr) :
    Ring (listInit L h) h [] where
  nodup := by simp
  chain := by simp [listInit, Linked]

theorem ring_listAddBetween {L : ListLinks} {h y : ListEntryPtr}
    {xs ys : List ListEntryPtr} (hr : Ring L h (xs ++ ys))
    (hfresh : y ∉ h :: (xs ++ ys)) :
    Ring (listAddBetween L y (lastFrom h xs) (firstTo ys h)) h (xs ++ y :: ys) :=
  hr.linkBetween hfresh

theorem ring_listAdd {L : ListLinks} {h y : ListEntryPtr}
    {ys : List ListEntryPtr} (hr : Ring L h ys) (hfresh : y ∉ h :: ys) :
    Ring (listAdd L h y) h (y :: ys) := by
  have hr' : Ring L h ([] ++ ys) := hr
  have hadd := ring_listAddBetween hr' hfresh
  rw [lastFrom_nil, ← hr.next_header] at hadd
  exact hadd

theorem ring_listAddBefore {L : ListLinks} {h y : ListEntryPtr}
    {xs ys : List ListEntryPtr} (hr : Ring L h (xs ++ ys))
    (hfresh : y ∉ h :: (xs ++ ys)) :
    Ring (listAddBefore L (firstTo ys h) y) h (xs ++ y :: ys) := by
  unfold listAddBefore
  rw [hr.prev_firstTo]
  exact ring_listAddBetween hr hfresh

theorem ring_listDel {L : ListLinks} {h x : ListEntryPtr}
    {xs ys : List ListEntryPtr} (hr : Ring L h (xs ++ x :: ys)) :
    Ring (listDel L x) h (xs ++ ys) :=
  hr.unlink

theorem listDel_next_self {L : ListLinks} {h x : ListEntryPtr}
    {xs ys : List ListEntryPtr} (hr : Ring L h (xs ++ x :: ys)) :
    (listDel L x).next x = firstTo ys h := by
  have hprev : lastFrom h xs ≠ x := by
    intro heq
    have hmem := lastFrom_mem h xs
    rw [heq] at hmem
    have hcat : ((h :: xs) ++ x :: ys).Nodup := by simpa using hr.nodup
    exact (List.nodup_append.mp hcat).right.right x hmem x (by simp) rfl
  unfold listDel listDelBetween
  rw [hr.prev_node, setPrev_next, setNext_next, if_neg hprev.symm, hr.next_node]

end Memory
end OsLabs
