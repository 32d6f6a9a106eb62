import Mathlib.Order.Interval.Set.Disjoint
import Mathlib.Order.Interval.Set.LinearOrder
import OsLabs.Memory.Allocator
import OsLabs.Memory.PageTable

/-!
# Detecting the physical memory

`page_init` of `pmm.c` reads the map that the BIOS has left, reserves all pages and
passes the usable ranges to `init_memmap`.  The bounds of the map are 64-bit words;
the rounding macros, addresses and page numbers are 32-bit words.  `none` is a panic.
-/

namespace OsLabs
namespace Memory

open Foundation
open Foundation.Block

def E820MAX : Nat := 20

def E820_ARM : BitVec 32 := 1#32

structure E820Entry where
  addr : BitVec 64
  size : BitVec 64
  type : BitVec 32
deriving DecidableEq

structure E820map where
  map : List E820Entry
  nr_map_le : map.length ≤ E820MAX

def roundDown (a : BitVec 32) : BitVec 32 := a - a % 4096#32

def roundUp (a : BitVec 32) : BitVec 32 := roundDown (a + 4096#32 - 1#32)

/-- The macros on a 64-bit word: it is cut to a `size_t` and widened again. -/
def wide (round : BitVec 32 -> BitVec 32) (a : BitVec 64) : BitVec 64 :=
  (round (a.setWidth 32)).setWidth 64

def E820Entry.stop (e : E820Entry) : BitVec 64 := e.addr + e.size

def kmemsize : BitVec 64 := BitVec.ofNat 64 KMEMSIZE

def maxpaStep (maxpa : BitVec 64) (e : E820Entry) : BitVec 64 :=
  if e.type = E820_ARM then
    if maxpa < e.stop ∧ e.addr < kmemsize then e.stop else maxpa
  else maxpa

/-- The first loop of `page_init`, with the bound that follows it. -/
def maxpaOf (map : List E820Entry) : BitVec 64 :=
  let maxpa := map.foldl maxpaStep 0#64
  if maxpa > kmemsize then kmemsize else maxpa

def npageOf (map : List E820Entry) : BitVec 32 := (maxpaOf map / 4096#64).setWidth 32

/-- `SetPageReserved` on the `k` pages from `i` on. -/
def reserveLoop : Nat -> Nat -> PmmState -> PmmState
  | 0, _, s => s
  | k + 1, i, s => reserveLoop k (i + 1) (s.modifyPage i Page.setPageReserved)

def paddr (kva : BitVec 32) : Option (BitVec 32) :=
  if kva.toNat < KERNBASE then none else some (kva - BitVec.ofNat 32 KERNBASE)

def sizeofPage : BitVec 32 := 20#32

/-- The end of the `pages` array, which begins behind the kernel. -/
def freememOf (kernelEnd npage : BitVec 32) : Option (BitVec 32) :=
  paddr (roundUp kernelEnd + sizeofPage * npage)

/-- The clipped and rounded bounds of a usable entry, if any page is left. -/
def usableRange (freemem : BitVec 32) (e : E820Entry) : Option (BitVec 64 × BitVec 64) :=
  let first := if e.addr < freemem.setWidth 64 then freemem.setWidth 64 else e.addr
  let stop := if e.stop > kmemsize then kmemsize else e.stop
  if first < stop then
    let first := wide roundUp first
    let stop := wide roundDown stop
    if first < stop then some (first, stop) else none
  else none

/-- The second loop of `page_init`, with the calls of `init_memmap` in order. -/
def memmapLoop (freemem : BitVec 32) :
    List E820Entry -> VmState -> Option (VmState × List Block)
  | [], s => some (s, [])
  | e :: es, s =>
      if e.type = E820_ARM then
        match usableRange freemem e with
        | none => memmapLoop freemem es s
        | some (first, stop) =>
            match pa2page s (first.setWidth 32) with
            | none => none
            | some base =>
                let n := (((stop - first) / 4096#64).setWidth 32).toNat
                match defaultInitMemmap s.pmm base n with
                | none => none
                | some pmm =>
                    (memmapLoop freemem es { s with pmm := pmm }).map fun result =>
                      (result.fst, Block.mk base n :: result.snd)
      else memmapLoop freemem es s

def reservedPmm (npage : BitVec 32) (pmm : PmmState) : PmmState :=
  reserveLoop npage.toNat 0 { pmm with npage := npage.toNat }

/-- `kernelEnd` is the linker's symbol `end`. -/
def pageInit (memmap : E820map) (kernelEnd : BitVec 32) (s : VmState) :
    Option (VmState × List Block) :=
  let npage := npageOf memmap.map
  let s := { s with pmm := reservedPmm npage s.pmm }
  match freememOf kernelEnd npage with
  | none => none
  | some freemem => memmapLoop freemem memmap.map s

/-!
# What the map says
-/

def E820Entry.span (e : E820Entry) : Set Nat :=
  Set.Ico e.addr.toNat (e.addr.toNat + e.size.toNat)

structure E820map.Sound (memmap : E820map) : Prop where
  nowrap : forall e, e ∈ memmap.map -> e.type = E820_ARM ->
    e.addr.toNat + e.size.toNat < 2 ^ 64
  disjoint : memmap.map.Pairwise fun e f =>
    e.type = E820_ARM -> f.type = E820_ARM -> Disjoint e.span f.span

/-- The frame lies in one usable entry, behind the kernel and below `KMEMSIZE`. -/
def UsableFrame (map : List E820Entry) (freemem : BitVec 32) (p : Nat) : Prop :=
  (exists e, e ∈ map ∧ e.type = E820_ARM ∧
    Set.Ico (p * 4096) ((p + 1) * 4096) ⊆ e.span) ∧
  freemem.toNat ≤ p * 4096 ∧ (p + 1) * 4096 ≤ KMEMSIZE

/-!
# The arithmetic of the rounding macros
-/

theorem roundDown_toNat (a : BitVec 32) : (roundDown a).toNat = a.toNat / 4096 * 4096 := by
  have hle : a % 4096#32 ≤ a := by
    rw [BitVec.le_def, BitVec.toNat_umod]
    exact Nat.mod_le _ _
  unfold roundDown
  rw [BitVec.toNat_sub_of_le hle, BitVec.toNat_umod]
  change a.toNat - a.toNat % 4096 = _
  lia

theorem roundUp_toNat {a : BitVec 32} (h : a.toNat + 4095 < 2 ^ 32) :
    (roundUp a).toNat = (a.toNat + 4095) / 4096 * 4096 := by
  have hsum : (a + 4096#32 - 1#32).toNat = a.toNat + 4095 := by
    bv_omega
  unfold roundUp
  rw [roundDown_toNat, hsum]

theorem wide_toNat (round : BitVec 32 -> BitVec 32) (a : BitVec 64) :
    (wide round a).toNat = (round (a.setWidth 32)).toNat := by
  unfold wide
  exact BitVec.toNat_setWidth_of_le (by decide)

theorem narrow_toNat {a : BitVec 64} (h : a.toNat < 2 ^ 32) : (a.setWidth 32).toNat = a.toNat := by
  rw [BitVec.toNat_setWidth, Nat.mod_eq_of_lt h]

/-- The first page of an entry behind the kernel. -/
def firstFrame (freemem : BitVec 32) (e : E820Entry) : Nat :=
  (max e.addr.toNat freemem.toNat + 4095) / 4096

/-- The end of the pages of an entry below `KMEMSIZE`. -/
def stopFrame (e : E820Entry) : Nat :=
  min (e.addr.toNat + e.size.toNat) KMEMSIZE / 4096

section Entry

variable {freemem : BitVec 32} {e : E820Entry}

theorem stop_toNat (hwrap : e.addr.toNat + e.size.toNat < 2 ^ 64) :
    e.stop.toNat = e.addr.toNat + e.size.toNat := by
  unfold E820Entry.stop
  rw [BitVec.toNat_add, Nat.mod_eq_of_lt hwrap]

theorem kmemsize_toNat : kmemsize.toNat = KMEMSIZE := rfl

theorem usableRange_spec (hwrap : e.addr.toNat + e.size.toNat < 2 ^ 64) :
    (usableRange freemem e = none ∧ stopFrame e ≤ firstFrame freemem e) ∨
    exists first stop, usableRange freemem e = some (first, stop) ∧
      firstFrame freemem e < stopFrame e ∧
      first.toNat = firstFrame freemem e * 4096 ∧ stop.toNat = stopFrame e * 4096 := by
  have hfirst : (if e.addr < freemem.setWidth 64 then freemem.setWidth 64 else e.addr).toNat =
      max e.addr.toNat freemem.toNat := by
    have hwide : (freemem.setWidth 64).toNat = freemem.toNat :=
      BitVec.toNat_setWidth_of_le (by decide)
    split
    · rename_i hlt
      rw [BitVec.lt_def, hwide] at hlt
      rw [hwide]
      lia
    · rename_i hge
      rw [BitVec.lt_def, hwide] at hge
      lia
  have hstop : (if e.stop > kmemsize then kmemsize else e.stop).toNat =
      min (e.addr.toNat + e.size.toNat) KMEMSIZE := by
    split
    · rename_i hgt
      rw [gt_iff_lt, BitVec.lt_def, kmemsize_toNat, stop_toNat hwrap] at hgt
      rw [kmemsize_toNat]
      lia
    · rename_i hle
      rw [gt_iff_lt, BitVec.lt_def, kmemsize_toNat, stop_toNat hwrap] at hle
      rw [stop_toNat hwrap]
      lia
  unfold usableRange firstFrame stopFrame
  generalize (if e.addr < freemem.setWidth 64 then freemem.setWidth 64 else e.addr) = first
    at hfirst ⊢
  generalize (if e.stop > kmemsize then kmemsize else e.stop) = stop at hstop ⊢
  rw [← hfirst, ← hstop]
  have hsmall : stop.toNat ≤ 0x38000000 := by
    rw [hstop]
    exact Nat.min_le_right _ _
  by_cases hlt : first < stop
  · have hlt' := hlt
    rw [BitVec.lt_def] at hlt'
    have hfirst' : (wide roundUp first).toNat = (first.toNat + 4095) / 4096 * 4096 := by
      have hnarrow : (first.setWidth 32).toNat = first.toNat := narrow_toNat (by lia)
      rw [wide_toNat, roundUp_toNat (by rw [hnarrow]; lia), hnarrow]
    have hstop' : (wide roundDown stop).toNat = stop.toNat / 4096 * 4096 := by
      rw [wide_toNat, roundDown_toNat, narrow_toNat (by lia)]
    simp only [if_pos hlt]
    by_cases hround : wide roundUp first < wide roundDown stop
    · rw [if_pos hround]
      rw [BitVec.lt_def, hfirst', hstop'] at hround
      exact Or.inr ⟨_, _, rfl, by lia, hfirst', hstop'⟩
    · rw [if_neg hround]
      rw [BitVec.lt_def, hfirst', hstop'] at hround
      exact Or.inl ⟨rfl, by lia⟩
  · simp only [if_neg hlt]
    rw [BitVec.lt_def] at hlt
    exact Or.inl ⟨trivial, by lia⟩

theorem stopFrame_le : stopFrame e * 4096 ≤ KMEMSIZE := by
  unfold stopFrame
  have hle := Nat.min_le_right (e.addr.toNat + e.size.toNat) KMEMSIZE
  lia

theorem mem_frames_iff {p : Nat} :
    firstFrame freemem e ≤ p ∧ p < stopFrame e <->
      Set.Ico (p * 4096) ((p + 1) * 4096) ⊆ e.span ∧ freemem.toNat ≤ p * 4096 ∧
        (p + 1) * 4096 ≤ KMEMSIZE := by
  have hsub : Set.Ico (p * 4096) ((p + 1) * 4096) ⊆ e.span <->
      e.addr.toNat ≤ p * 4096 ∧ (p + 1) * 4096 ≤ e.addr.toNat + e.size.toNat :=
    Set.Ico_subset_Ico_iff (by lia)
  rw [hsub]
  unfold firstFrame stopFrame
  constructor
  · rintro ⟨hfirst, hstop⟩
    have hmax := Nat.le_max_left e.addr.toNat freemem.toNat
    have hmax' := Nat.le_max_right e.addr.toNat freemem.toNat
    have hmin := Nat.min_le_left (e.addr.toNat + e.size.toNat) KMEMSIZE
    have hmin' := Nat.min_le_right (e.addr.toNat + e.size.toNat) KMEMSIZE
    exact ⟨⟨by lia, by lia⟩, by lia, by lia⟩
  · rintro ⟨⟨haddr, hend⟩, hfree, hmem⟩
    have hmax := Nat.max_le.mpr ⟨haddr, hfree⟩
    have hmin := Nat.le_min.mpr ⟨hend, hmem⟩
    exact ⟨by lia, by lia⟩

end Entry

/-!
# The calls of `init_memmap`
-/

def rangeOf (freemem : BitVec 32) (e : E820Entry) : List Block :=
  if e.type = E820_ARM ∧ firstFrame freemem e < stopFrame e then
    [Block.mk (firstFrame freemem e) (stopFrame e - firstFrame freemem e)]
  else []

def rangesOf (freemem : BitVec 32) (map : List E820Entry) : List Block :=
  map.flatMap (rangeOf freemem)

section Ranges

variable {freemem : BitVec 32} {e : E820Entry} {map : List E820Entry} {b : Block}

theorem mem_rangeOf : b ∈ rangeOf freemem e <->
    e.type = E820_ARM ∧ firstFrame freemem e < stopFrame e ∧
      b.head = firstFrame freemem e ∧ b.stop = stopFrame e := by
  unfold rangeOf
  by_cases h : e.type = E820_ARM ∧ firstFrame freemem e < stopFrame e
  · rw [if_pos h, List.mem_singleton]
    constructor
    · intro hb
      subst hb
      refine ⟨h.left, h.right, rfl, ?_⟩
      rw [stop_mk]
      lia
    · rintro ⟨_, _, hhead, hstop⟩
      cases b with
      | mk head size =>
          rw [stop_mk] at hstop
          simp only at hhead
          subst hhead
          congr 1
          lia
  · rw [if_neg h]
    constructor
    · intro hb
      cases hb
    · rintro ⟨htype, hlt, _⟩
      exact absurd ⟨htype, hlt⟩ h

theorem mem_cover_rangeOf {p : Nat} : p ∈ cover (rangeOf freemem e) <->
    e.type = E820_ARM ∧ firstFrame freemem e ≤ p ∧ p < stopFrame e := by
  constructor
  · rintro ⟨b, hb, hp⟩
    rcases mem_rangeOf.mp hb with ⟨htype, _, hhead, hstop⟩
    rw [mem_span, hhead, hstop] at hp
    exact ⟨htype, hp⟩
  · rintro ⟨htype, hfirst, hlast⟩
    have hlt := Nat.lt_of_le_of_lt hfirst hlast
    refine ⟨Block.mk (firstFrame freemem e) (stopFrame e - firstFrame freemem e), ?_, ?_⟩
    · exact mem_rangeOf.mpr ⟨htype, hlt, rfl, by rw [stop_mk]; lia⟩
    · rw [mem_span, stop_mk]
      simp only
      lia

theorem mem_cover_rangesOf {p : Nat} :
    p ∈ cover (rangesOf freemem map) <-> UsableFrame map freemem p := by
  have hflat : p ∈ cover (rangesOf freemem map) <->
      exists e, e ∈ map ∧ p ∈ cover (rangeOf freemem e) := by
    constructor
    · rintro ⟨b, hb, hp⟩
      rcases List.mem_flatMap.mp hb with ⟨e, he, hbe⟩
      exact ⟨e, he, b, hbe, hp⟩
    · rintro ⟨e, he, b, hb, hp⟩
      exact ⟨b, List.mem_flatMap.mpr ⟨e, he, hb⟩, hp⟩
  rw [hflat]
  constructor
  · rintro ⟨e, he, hp⟩
    rcases mem_cover_rangeOf.mp hp with ⟨htype, hbounds⟩
    rcases mem_frames_iff.mp hbounds with ⟨hspan, hrest⟩
    exact ⟨⟨e, he, htype, hspan⟩, hrest⟩
  · rintro ⟨⟨e, he, htype, hspan⟩, hrest⟩
    exact ⟨e, he, mem_cover_rangeOf.mpr ⟨htype, mem_frames_iff.mpr ⟨hspan, hrest⟩⟩⟩

theorem size_pos_of_mem_rangesOf (hb : b ∈ rangesOf freemem map) : 0 < b.size := by
  rcases List.mem_flatMap.mp hb with ⟨e, _, hbe⟩
  rcases mem_rangeOf.mp hbe with ⟨_, hlt, hhead, hstop⟩
  rw [stop_eq] at hstop
  lia

theorem apart_rangeOf {e f : E820Entry} {b c : Block}
    (hdisjoint : e.type = E820_ARM -> f.type = E820_ARM -> Disjoint e.span f.span)
    (hb : b ∈ rangeOf freemem e) (hc : c ∈ rangeOf freemem f) : Apart b c := by
  rcases mem_rangeOf.mp hb with ⟨hte, hle, hbhead, hbstop⟩
  rcases mem_rangeOf.mp hc with ⟨htf, hlf, hchead, hcstop⟩
  rw [stop_eq] at hbstop hcstop
  apply apart_of_disjoint (by lia) (by lia)
  rw [Set.disjoint_left]
  intro p hpb hpc
  rw [mem_span, hbhead, stop_eq, hbstop] at hpb
  rw [mem_span, hchead, stop_eq, hcstop] at hpc
  have hpe := (mem_frames_iff.mp hpb).left
  have hpf := (mem_frames_iff.mp hpc).left
  have hp : p * 4096 ∈ Set.Ico (p * 4096) ((p + 1) * 4096) := ⟨Nat.le_refl _, by lia⟩
  exact Set.disjoint_left.mp (hdisjoint hte htf) (hpe hp) (hpf hp)

theorem rangesOf_apart
    (hdisjoint : map.Pairwise fun e f =>
      e.type = E820_ARM -> f.type = E820_ARM -> Disjoint e.span f.span) :
    (rangesOf freemem map).Pairwise Apart := by
  unfold rangesOf
  rw [List.pairwise_flatMap]
  constructor
  · intro e _
    unfold rangeOf
    split
    · exact List.pairwise_singleton _ _
    · exact List.Pairwise.nil
  · apply hdisjoint.imp
    intro e f hef b hb c hc
    exact apart_rangeOf hef hb hc

end Ranges

/-!
# The highest page

Every range ends at or below `npage`, though the two loops compute their bounds
apart from each other.
-/

theorem le_maxpaStep (maxpa : BitVec 64) (e : E820Entry) :
    maxpa.toNat ≤ (maxpaStep maxpa e).toNat := by
  unfold maxpaStep
  split
  · split
    · rename_i h
      exact Nat.le_of_lt (BitVec.lt_def.mp h.left)
    · exact Nat.le_refl _
  · exact Nat.le_refl _

theorem stop_le_maxpaStep (maxpa : BitVec 64) {e : E820Entry} (htype : e.type = E820_ARM)
    (haddr : e.addr < kmemsize) : e.stop.toNat ≤ (maxpaStep maxpa e).toNat := by
  unfold maxpaStep
  rw [if_pos htype]
  split
  · exact Nat.le_refl _
  · rename_i h
    have hnot : ¬ maxpa < e.stop := fun hlt => h ⟨hlt, haddr⟩
    rw [BitVec.lt_def] at hnot
    lia

theorem le_foldl_maxpaStep (map : List E820Entry) (maxpa : BitVec 64) :
    maxpa.toNat ≤ (map.foldl maxpaStep maxpa).toNat := by
  induction map generalizing maxpa with
  | nil => exact Nat.le_refl _
  | cons e map ih => exact Nat.le_trans (le_maxpaStep maxpa e) (ih _)

theorem stop_le_foldl_maxpaStep {map : List E820Entry} {e : E820Entry} (he : e ∈ map)
    (htype : e.type = E820_ARM) (haddr : e.addr < kmemsize) (maxpa : BitVec 64) :
    e.stop.toNat ≤ (map.foldl maxpaStep maxpa).toNat := by
  induction map generalizing maxpa with
  | nil => cases he
  | cons f map ih =>
      rw [List.foldl_cons]
      cases List.mem_cons.mp he with
      | inl heq =>
          subst heq
          exact Nat.le_trans (stop_le_maxpaStep maxpa htype haddr) (le_foldl_maxpaStep map _)
      | inr hmem => exact ih hmem _

theorem maxpaOf_toNat (map : List E820Entry) :
    (maxpaOf map).toNat = min (map.foldl maxpaStep 0#64).toNat KMEMSIZE := by
  unfold maxpaOf
  simp only
  split
  · rename_i hgt
    rw [gt_iff_lt, BitVec.lt_def, kmemsize_toNat] at hgt
    rw [kmemsize_toNat]
    lia
  · rename_i hle
    rw [gt_iff_lt, BitVec.lt_def, kmemsize_toNat] at hle
    lia

theorem npageOf_toNat (map : List E820Entry) :
    (npageOf map).toNat = (maxpaOf map).toNat / 4096 := by
  have hdiv : (maxpaOf map / 4096#64).toNat = (maxpaOf map).toNat / 4096 :=
    BitVec.toNat_udiv
  have hle : (maxpaOf map).toNat ≤ 0x38000000 := by
    rw [maxpaOf_toNat]
    exact Nat.min_le_right _ _
  unfold npageOf
  rw [narrow_toNat (by lia), hdiv]

theorem stop_le_npageOf {freemem : BitVec 32} {map : List E820Entry} {b : Block}
    (hwrap : forall e, e ∈ map -> e.type = E820_ARM -> e.addr.toNat + e.size.toNat < 2 ^ 64)
    (hb : b ∈ rangesOf freemem map) : b.stop ≤ (npageOf map).toNat := by
  rcases List.mem_flatMap.mp hb with ⟨e, he, hbe⟩
  rcases mem_rangeOf.mp hbe with ⟨htype, hlt, _, hstop⟩
  have haddr : e.addr < kmemsize := by
    rw [BitVec.lt_def, kmemsize_toNat]
    have hle : stopFrame e * 4096 ≤ KMEMSIZE := stopFrame_le
    have hmax := Nat.le_max_left e.addr.toNat freemem.toNat
    unfold firstFrame at hlt
    lia
  have hmaxpa := stop_le_foldl_maxpaStep he htype haddr 0#64
  rw [stop_toNat (hwrap e he htype)] at hmaxpa
  rw [hstop, npageOf_toNat, maxpaOf_toNat]
  exact Nat.div_le_div_right (min_le_min_right KMEMSIZE hmaxpa)

/-!
# Reserving and passing the ranges
-/

@[simp] theorem pageReserved_setPageReserved (page : Page) :
    page.setPageReserved.pageReserved = true := by
  simp [Page.pageReserved, Page.setPageReserved, PG_reserved, testBit_setBit]

theorem reserveLoop_npage (k i : Nat) (s : PmmState) : (reserveLoop k i s).npage = s.npage := by
  induction k generalizing i s with
  | zero => rfl
  | succ k ih => exact ih (i + 1) _

theorem reserveLoop_reserved (k i : Nat) (s : PmmState) {p : Nat}
    (hp : i ≤ p ∧ p < i + k ∨ (s.pages p).pageReserved = true) :
    ((reserveLoop k i s).pages p).pageReserved = true := by
  induction k generalizing i s with
  | zero =>
      cases hp with
      | inl hp => lia
      | inr hp => exact hp
  | succ k ih =>
      apply ih (i + 1)
      rw [PmmState.modifyPage_pages]
      by_cases heq : p = i
      · rw [if_pos heq, pageReserved_setPageReserved]
        exact Or.inr rfl
      · rw [if_neg heq]
        cases hp with
        | inl hp => exact Or.inl (by lia)
        | inr hp => exact Or.inr hp

theorem reserveLoop_defaultInit (k i : Nat) (s : PmmState) :
    reserveLoop k i (defaultInit s) = defaultInit (reserveLoop k i s) := by
  induction k generalizing i s with
  | zero => rfl
  | succ k ih => exact ih (i + 1) (s.modifyPage i Page.setPageReserved)

theorem reservedPmm_npage (npage : BitVec 32) (s : PmmState) :
    (reservedPmm npage s).npage = npage.toNat :=
  reserveLoop_npage _ _ _

theorem reservedPmm_reserved {npage : BitVec 32} {s : PmmState} {p : Nat}
    (hp : p < npage.toNat) : ((reservedPmm npage s).pages p).pageReserved = true :=
  reserveLoop_reserved _ _ _ (Or.inl ⟨Nat.zero_le p, by lia⟩)

theorem reservedPmm_defaultInit (npage : BitVec 32) (s : PmmState) :
    reservedPmm npage (defaultInit s) = defaultInit (reservedPmm npage s) :=
  reserveLoop_defaultInit npage.toNat 0 { s with npage := npage.toNat }

theorem E820map.Sound.bootable {memmap : E820map} (hsound : memmap.Sound) (freemem : BitVec 32)
    (s : PmmState) :
    Bootable (reservedPmm (npageOf memmap.map) s) (rangesOf freemem memmap.map) where
  separated := ⟨fun _ hb => size_pos_of_mem_rangesOf hb, rangesOf_apart hsound.disjoint⟩
  reserved := by
    rintro p ⟨b, hb, hp⟩
    exact reservedPmm_reserved
      (Nat.lt_of_lt_of_le (mem_span.mp hp).right (stop_le_npageOf hsound.nowrap hb))
  bound := by
    intro b hb
    rw [reservedPmm_npage]
    exact stop_le_npageOf hsound.nowrap hb

theorem initMemmapLoop_npage {base n k p : Nat} {s s' : PmmState}
    (h : initMemmapLoop base n k p s = some s') : s'.npage = s.npage := by
  induction k generalizing p s with
  | zero =>
      cases h
      rfl
  | succ k ih =>
      unfold initMemmapLoop at h
      split at h
      · simp only at h
        split at h
        · exact (ih h).trans rfl
        · exact (ih h).trans rfl
      · cases h

theorem defaultInitMemmap_npage {s s' : PmmState} {base n : Nat}
    (h : defaultInitMemmap s base n = some s') : s'.npage = s.npage := by
  unfold defaultInitMemmap at h
  split at h
  · split at h
    · cases h
    · rename_i s1 hloop
      cases h
      change s1.npage = s.npage
      exact initMemmapLoop_npage hloop
  · cases h

theorem initMemmapLoop_reserved {base n k p : Nat} {s s' : PmmState}
    (h : initMemmapLoop base n k p s = some s') {q : Nat} (hq : p ≤ q ∧ q < p + k) :
    (s.pages q).pageReserved = true := by
  induction k generalizing p s with
  | zero => lia
  | succ k ih =>
      unfold initMemmapLoop at h
      split at h
      · rename_i hres
        by_cases heq : q = p
        · subst heq
          exact hres
        · have hrest : p + 1 ≤ q ∧ q < p + 1 + k := by lia
          simp only at h
          split at h
          · simpa [heq] using ih h hrest
          · simpa [heq] using ih h hrest
      · cases h

theorem defaultInitMemmap_asserts {s s' : PmmState} {base n : Nat}
    (h : defaultInitMemmap s base n = some s') :
    0 < n ∧ forall q, q ∈ (Block.mk base n).span -> (s.pages q).pageReserved = true := by
  unfold defaultInitMemmap at h
  split at h
  · rename_i hn
    refine ⟨hn, ?_⟩
    intro q hq
    split at h
    · cases h
    · rename_i s1 hloop
      exact initMemmapLoop_reserved hloop (mem_span.mp hq)
  · cases h

/-- Each call finds its pages reserved and a non-zero count. -/
theorem initMemmaps_asserts {s s' : PmmState} {pre post : List Block} {b : Block}
    (h : initMemmaps s (pre ++ b :: post) = some s') :
    exists t, initMemmaps s pre = some t ∧ t.npage = s.npage ∧ 0 < b.size ∧
      forall q, q ∈ b.span -> (t.pages q).pageReserved = true := by
  induction pre generalizing s with
  | nil =>
      rw [List.nil_append] at h
      unfold initMemmaps at h
      split at h
      · cases h
      · rename_i s1 hcall
        exact ⟨s, rfl, rfl, defaultInitMemmap_asserts hcall⟩
  | cons c pre ih =>
      rw [List.cons_append] at h
      unfold initMemmaps at h
      split at h
      · cases h
      · rename_i s1 hcall
        rcases ih h with ⟨t, hrun, hnpage, hrest⟩
        refine ⟨t, ?_, hnpage.trans (defaultInitMemmap_npage hcall), hrest⟩
        unfold initMemmaps
        rw [hcall]
        exact hrun

/-- While the ranges lie below `npage`, the second loop passes them on. -/
theorem memmapLoop_eq {freemem : BitVec 32} {map : List E820Entry} {s : VmState}
    (hwrap : forall e, e ∈ map -> e.type = E820_ARM -> e.addr.toNat + e.size.toNat < 2 ^ 64)
    (hbound : forall b, b ∈ rangesOf freemem map -> b.stop ≤ s.pmm.npage) :
    memmapLoop freemem map s = (initMemmaps s.pmm (rangesOf freemem map)).map fun pmm =>
      ({ s with pmm := pmm }, rangesOf freemem map) := by
  induction map generalizing s with
  | nil => rfl
  | cons e map ih =>
      have hwrap' := fun f hf => hwrap f (List.mem_cons_of_mem e hf)
      have hcons : rangesOf freemem (e :: map) = rangeOf freemem e ++ rangesOf freemem map := rfl
      rw [hcons] at hbound ⊢
      have hbound' : forall b, b ∈ rangesOf freemem map -> b.stop ≤ s.pmm.npage :=
        fun b hb => hbound b (List.mem_append_right _ hb)
      unfold memmapLoop
      by_cases htype : e.type = E820_ARM
      · rw [if_pos htype]
        cases @usableRange_spec freemem e (hwrap e List.mem_cons_self htype) with
        | inl hnone =>
            have hempty : rangeOf freemem e = [] := by
              unfold rangeOf
              exact if_neg (fun hboth => Nat.not_lt.mpr hnone.right hboth.right)
            rw [hnone.left, hempty, List.nil_append]
            exact ih hwrap' hbound'
        | inr hsome =>
            rcases hsome with ⟨first, stop, hrange, hlt, hfirst, hstop⟩
            have hone : rangeOf freemem e =
                [Block.mk (firstFrame freemem e) (stopFrame e - firstFrame freemem e)] := by
              unfold rangeOf
              exact if_pos ⟨htype, hlt⟩
            have hsmall : stopFrame e * 4096 ≤ 0x38000000 := stopFrame_le
            have hpage : pa2page s (first.setWidth 32) = some (firstFrame freemem e) := by
              have hle := hbound _ (List.mem_append_left _
                (mem_rangeOf.mpr ⟨htype, hlt, rfl, by rw [stop_mk]; lia⟩ :
                  Block.mk (firstFrame freemem e) (stopFrame e - firstFrame freemem e) ∈ _))
              rw [stop_mk] at hle
              unfold pa2page
              rw [ppn_eq, narrow_toNat (by lia), hfirst, Nat.mul_div_cancel _ (by decide),
                if_neg (by lia)]
            have hcount : (((stop - first) / 4096#64).setWidth 32).toNat =
                stopFrame e - firstFrame freemem e := by
              have hsub : (stop - first).toNat = stop.toNat - first.toNat :=
                BitVec.toNat_sub_of_le (by rw [BitVec.le_def]; lia)
              have hdiv : ((stop - first) / 4096#64).toNat =
                  stopFrame e - firstFrame freemem e := by
                rw [BitVec.toNat_udiv, hsub, hstop, hfirst, ← Nat.sub_mul]
                exact Nat.mul_div_cancel _ (by decide)
              rw [narrow_toNat (by lia), hdiv]
            rw [hrange, hone]
            simp only [hpage, hcount, List.singleton_append]
            unfold initMemmaps
            cases hcall : defaultInitMemmap s.pmm (firstFrame freemem e)
                (stopFrame e - firstFrame freemem e) with
            | none => rfl
            | some pmm =>
                have hnpage := defaultInitMemmap_npage hcall
                simp only
                have hrest := @ih { s with pmm := pmm } hwrap' (by rw [hnpage]; exact hbound')
                rw [hrest, Option.map_map]
                rfl
      · have hempty : rangeOf freemem e = [] := by
          unfold rangeOf
          exact if_neg (fun hboth => htype hboth.left)
        rw [if_neg htype, hempty, List.nil_append]
        exact ih hwrap' hbound'

/-- Booting ends without a panic.  The calls of `init_memmap` cover the usable
frames, each in one call, and each call finds its pages reserved. -/
theorem page_init_hands_out {memmap : E820map} (hsound : memmap.Sound) {kernelEnd : BitVec 32}
    {freemem : BitVec 32} (hfree : freememOf kernelEnd (npageOf memmap.map) = some freemem)
    {s0 : PmmState} {s : VmState} (hs : s.pmm = defaultInit s0) :
    exists s' calls, pageInit memmap kernelEnd s = some (s', calls) ∧
      (forall p, (exists b, b ∈ calls ∧ p ∈ b.span) <-> UsableFrame memmap.map freemem p) ∧
      (calls.Pairwise fun b c => Disjoint b.span c.span) ∧
      (forall p, UsableFrame memmap.map freemem p -> p < (npageOf memmap.map).toNat) ∧
      (forall pre b post, calls = pre ++ b :: post ->
        exists t, initMemmaps (reservedPmm (npageOf memmap.map) s.pmm) pre = some t ∧
          t.npage = (npageOf memmap.map).toNat ∧ 0 < b.size ∧
          forall p, p ∈ b.span -> (t.pages p).pageReserved = true) ∧
      initMemmaps (reservedPmm (npageOf memmap.map) s.pmm) calls = some s'.pmm := by
  have hboot := hsound.bootable freemem s0
  rcases hboot.boots with ⟨pmm, hrun, _⟩
  rw [← reservedPmm_defaultInit, ← hs] at hrun
  have hnpage := reservedPmm_npage (npageOf memmap.map) s.pmm
  refine ⟨{ s with pmm := pmm }, rangesOf freemem memmap.map, ?_, fun p => mem_cover_rangesOf,
    ?_, ?_, ?_, hrun⟩
  · unfold pageInit
    simp only [hfree]
    rw [memmapLoop_eq hsound.nowrap (by
      intro b hb
      rw [hnpage]
      exact stop_le_npageOf hsound.nowrap hb), hrun]
    rfl
  · exact hboot.separated.apart.imp fun h => h.disjoint
  · intro p hp
    rcases mem_cover_rangesOf.mpr hp with ⟨b, hb, hpb⟩
    exact Nat.lt_of_lt_of_le (mem_span.mp hpb).right (stop_le_npageOf hsound.nowrap hb)
  · intro pre b post hsplit
    rw [hsplit] at hrun
    rcases initMemmaps_asserts hrun with ⟨t, hpre, ht, hrest⟩
    exact ⟨t, hpre, ht.trans hnpage, hrest⟩

def holedMap : E820map where
  map :=
    [E820Entry.mk 0x0#64 0x9fc00#64 1#32, E820Entry.mk 0x9fc00#64 0x400#64 2#32,
      E820Entry.mk 0x100000#64 0x7ee0000#64 1#32]
  nr_map_le := by decide

theorem holedMap_sound : holedMap.Sound where
  nowrap := by decide
  disjoint := by
    have hdisjoint : Disjoint (E820Entry.mk 0x0#64 0x9fc00#64 1#32).span
        (E820Entry.mk 0x100000#64 0x7ee0000#64 1#32).span :=
      Set.Ico_disjoint_Ico.mpr (by decide)
    simp [holedMap, E820_ARM, hdisjoint]

theorem page_init_hands_out_holed :
    holedMap.Sound ∧ freememOf 0xC0110000#32 (npageOf holedMap.map) = some 0x1AFD80#32 ∧
      forall (s0 : PmmState) (s : VmState), s.pmm = defaultInit s0 ->
        exists s' calls, pageInit holedMap 0xC0110000#32 s = some (s', calls) ∧
          forall p, (exists b, b ∈ calls ∧ p ∈ b.span) <->
            UsableFrame holedMap.map 0x1AFD80#32 p := by
  have hfree : freememOf 0xC0110000#32 (npageOf holedMap.map) = some 0x1AFD80#32 := by decide
  refine ⟨holedMap_sound, hfree, ?_⟩
  intro s0 s hs
  rcases page_init_hands_out holedMap_sound hfree hs with ⟨s', calls, hrun, hcover, _⟩
  exact ⟨s', calls, hrun, hcover⟩

end Memory
end OsLabs
