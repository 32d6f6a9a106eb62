import OsLabs.Memory.KernelMap

/-!
# The self test of the kernel's map

`check_boot_pgdir` of `pmm.c` goes over the linear map, maps one page at two addresses, writes a
text through the first and reads it through both, and clears it through the address that the
kernel has for the page anyway.
-/

namespace OsLabs
namespace Memory

open Foundation
open Foundation.Block
open VmState

/-!
# Bytes behind an address
-/

/-- Byte `k` of a word. -/
def byteOf (word : BitVec 32) (k : Nat) : BitVec 8 := (word >>> (8 * k)).setWidth 8

def setByte (word : BitVec 32) (k : Nat) (byte : BitVec 8) : BitVec 32 :=
  (word &&& ~~~(0xFF#32 <<< (8 * k))) ||| (byte.setWidth 32 <<< (8 * k))

/-- `*(char *)la`. -/
def loadByte (s : VmState) (cr3 : Nat) (la : BitVec 32) : Option (BitVec 8) :=
  match translate s cr3 false la with
  | none => none
  | some (frame, offset) => some (byteOf (s.load (EntryPtr.mk frame (offset / 4))) (offset % 4))

/-- `*(char *)la = byte`. -/
def storeByte (s : VmState) (cr3 : Nat) (la : BitVec 32) (byte : BitVec 8) : Option VmState :=
  match translate s cr3 true la with
  | none => none
  | some (frame, offset) =>
      let ptr := EntryPtr.mk frame (offset / 4)
      some (s.store ptr (setByte (s.load ptr) (offset % 4) byte))

/-- `strcpy(dst, src)` for a text of the kernel, which is given without its terminator. -/
def strcpy (cr3 : Nat) : BitVec 32 -> List (BitVec 8) -> VmState -> Option VmState
  | dst, [], s => storeByte s cr3 dst 0#8
  | dst, c :: src, s =>
      match storeByte s cr3 dst c with
      | none => none
      | some s => strcpy cr3 (dst + 1#32) src s

def strcmp (s : VmState) (cr3 : Nat) : Nat -> BitVec 32 -> BitVec 32 -> Option Int
  | 0, _, _ => none
  | fuel + 1, s1, s2 =>
      match loadByte s cr3 s1, loadByte s cr3 s2 with
      | some a, some b =>
          if a ≠ b then some (if a < b then -1 else 1)
          else if a = 0#8 then some 0
          else strcmp s cr3 fuel (s1 + 1#32) (s2 + 1#32)
      | _, _ => none

def strlen (s : VmState) (cr3 : Nat) : Nat -> BitVec 32 -> Nat -> Option Nat
  | 0, _, _ => none
  | fuel + 1, la, cnt =>
      match loadByte s cr3 la with
      | none => none
      | some c => if c = 0#8 then some cnt else strlen s cr3 fuel (la + 1#32) (cnt + 1)

/-!
# The test
-/

/-- The loop of `check_boot_pgdir` over the linear map. -/
def checkLinear (s : VmState) (pgdir : Nat) : Nat -> BitVec 32 -> Option Unit
  | 0, _ => none
  | fuel + 1, i =>
      if i.toNat < s.pmm.npage then do
        let _ <- kaddr s i
        let ptep <- entryAt s pgdir (i + BitVec.ofNat 32 KERNBASE)
        guard (pteAddr (s.load ptep) = i)
        checkLinear s pgdir fuel (i + 4096#32)
      else
        some ()

def helloText : List (BitVec 8) :=
  "ucore: Hello world!!".toList.map fun c => BitVec.ofNat 8 c.toNat

def checkBootPgdir (s : VmState) (pgdir : Nat) : Option VmState := do
  checkLinear s pgdir (s.pmm.npage + 1) 0#32
  let pa <- paddr (page2kva pgdir)
  guard (pdeAddr (s.load (EntryPtr.mk pgdir (pdx vpt))) = pa)
  guard (s.load (EntryPtr.mk pgdir 0) = 0#32)
  let (s, p) <- allocUsed s
  let s <- insertOk s pgdir p 0x100#32 PTE_W
  guard (s.pageRef p = 1)
  let s <- insertOk s pgdir p (0x100#32 + 4096#32) PTE_W
  guard (s.pageRef p = 2)
  let s <- strcpy pgdir 0x100#32 helloText s
  let r <- strcmp s pgdir 4096 0x100#32 (0x100#32 + 4096#32)
  guard (r = 0)
  let _ <- kaddr s (page2pa p)
  let s <- storeByte s pgdir (page2kva p + 0x100#32) 0#8
  let n <- strlen s pgdir 4096 0x100#32 0
  guard (n = 0)
  let s <- freePage s p
  let table <- pde2page s (s.load (EntryPtr.mk pgdir 0))
  let s <- freePage s table
  some (s.store (EntryPtr.mk pgdir 0) 0#32)

variable {dom : Set Nat} {d i p t j : Nat} {s0 s s' : VmState} {taken : Set Nat}
  {m : Nat -> Option (Nat × BitVec 32)} {la : BitVec 32}

/-!
# Writing into a data page
-/

theorem byteOf_setByte (word : BitVec 32) {k : Nat} (hk : k < 4) (byte : BitVec 8) :
    byteOf (setByte word k byte) k = byte := by
  apply BitVec.eq_of_getLsbD_eq
  intro x hx
  have hin : 8 * k + x < 32 := by omega
  have hmask : (0xFF#32).getLsbD x = true := by
    have hcases : x = 0 ∨ x = 1 ∨ x = 2 ∨ x = 3 ∨ x = 4 ∨ x = 5 ∨ x = 6 ∨ x = 7 := by omega
    rcases hcases with rfl | rfl | rfl | rfl | rfl | rfl | rfl | rfl
    all_goals rfl
  unfold byteOf setByte
  simp [hx, hin, hmask, BitVec.getLsbD_ushiftRight]

structure SameBut (p : Nat) (s s' : VmState) : Prop where
  pmm_eq : s'.pmm = s.pmm
  load_eq : forall ptr, ptr.frame ≠ p -> s'.load ptr = s.load ptr

theorem SameBut.trans {s1 : VmState} (h : SameBut p s s1) (h' : SameBut p s1 s') :
    SameBut p s s' where
  pmm_eq := h'.pmm_eq.trans h.pmm_eq
  load_eq ptr hptr := (h'.load_eq ptr hptr).trans (h.load_eq ptr hptr)

theorem sameBut_store (s : VmState) (p j : Nat) (word : BitVec 32) :
    SameBut p s (s.store (EntryPtr.mk p j) word) where
  pmm_eq := rfl
  load_eq ptr hptr := by
    rw [load_store, if_neg]
    intro heq
    exact hptr (congrArg EntryPtr.frame heq)

theorem SameBut.pde_eq (h : SameBut p s s') (hpd : p ≠ d) (x : Nat) : pde s' d x = pde s d x :=
  h.load_eq _ hpd.symm

theorem SameBut.view_eq (h : SameBut p s s') (hinv : VmInv dom d s) (hpd : p ≠ d)
    (hnot : ¬ IsTable s d p) {k : Nat × Nat} (hk : k.fst < NPDEENTRY) :
    view s' d k = view s d k := by
  have hpde := h.pde_eq hpd
  unfold view
  congr 1
  cases hpresent : present (pde s d k.fst) with
  | false => rw [leaf_of_absent hpresent, leaf_of_absent (by rw [hpde]; exact hpresent)]
  | true =>
      have htable : tableOf s' d k.fst = tableOf s d k.fst := congrArg ppn (hpde k.fst)
      rw [leaf_of_present hpresent, leaf_of_present (by rw [hpde]; exact hpresent), htable]
      apply h.load_eq
      intro heq
      change tableOf s d k.fst = p at heq
      by_cases hself : k.fst = selfIndex
      · rw [hself] at hpresent heq
        rw [hinv.wellFormed.selfMap hpresent] at heq
        exact hpd heq.symm
      · exact hnot ⟨k.fst, hk, hself, hpresent, heq⟩

theorem SameBut.vmInv (h : SameBut p s s') (hinv : VmInv dom d s) (hpd : p ≠ d)
    (hnot : ¬ IsTable s d p) : VmInv dom d s' := by
  have hrep := hinv.represents
  rw [← h.pmm_eq] at hrep
  apply hinv.congr hrep
  · rw [h.pmm_eq]
  · rw [h.pmm_eq]
    rfl
  · exact h.pde_eq hpd
  · intro k hk
    exact h.view_eq hinv hpd hnot (userKeys_fst_lt hk)
  · intro q
    unfold pageRef
    rw [h.pmm_eq]

namespace ScratchTable

theorem ne_dir (h : ScratchTable dom d i t s0 taken m s) (hp : p ∈ taken) : p ≠ d := by
  intro heq
  apply h.base.wellFormed.dir_reserved
  rw [← heq]
  exact h.base.represents.cover_subset (h.taken_free hp)

theorem sameBut (h : ScratchTable dom d i t s0 taken m s) (hp : p ∈ taken) (hpt : p ≠ t)
    (hsame : SameBut p s s') : ScratchTable dom d i t s0 taken m s' := by
  have hpd := h.ne_dir hp
  have hnot := (h.dataPage hp hpt).notTable
  have hpde := hsame.pde_eq hpd
  have hview : forall k, k.fst < NPDEENTRY -> view s' d k = view s d k :=
    fun k hk => hsame.view_eq h.inv hpd hnot hk
  have href : forall q, s'.pageRef q = s.pageRef q := by
    intro q
    unfold pageRef
    rw [hsame.pmm_eq]
  constructor
  · exact h.base
  · exact hsame.vmInv h.inv hpd hnot
  · exact h.user
  · rw [hsame.pmm_eq, h.npage_eq]
  · exact h.table_mem
  · exact h.taken_free
  · rw [hpde, h.entry]
  · intro x hx
    rw [hpde, h.pde_eq x hx]
  · intro k hk hself
    rw [hview k hk, h.view_eq k hk hself]
  · exact h.mapped
  · unfold freePagesOf
    rw [hsame.pmm_eq]
    exact h.free_eq
  · intro q
    rw [mapCount_congr (fun k hk => hview k (userKeys_fst_lt hk)), h.count_eq]
  · rw [href, h.table_ref]
  · intro q hq
    rw [href, h.ref_eq q hq]
  · rw [hsame.pmm_eq]
    exact h.ascending

theorem paged (h : ScratchTable dom d i t s0 taken m s) (h0 : Paged d s0) : Paged d s := by
  constructor
  · rw [h.pde_eq _ (userIndex_ne_self h.user).symm]
    exact h0.selfMap
  · intro x hx hpresent
    by_cases hxi : x = i
    · rw [hxi, h.entry]
      exact tableEntry_writable _
    · rw [h.pde_eq x hxi] at hpresent ⊢
      exact h0.writable x hx hpresent
  · intro page hpage
    have hkernel := kernelKey hpage
    have hne : (keyOf (page2kva page)).fst ≠ i := by
      intro heq
      have huser := h.user
      rw [← heq] at huser
      unfold userIndex at huser
      rw [hkernel] at huser
      simp at huser
    rw [h.view_eq _ (pdx_lt _) (kernelIndex_ne_self hkernel), if_neg hne]
    exact h0.linear page hpage

theorem translate_eq (h : ScratchTable dom d i t s0 taken m s) (h0 : Paged d s0)
    (hla : pdx la = i) (hslot : m (ptx la) = some (p, PTE_P ||| PTE_W)) (write : Bool) :
    translate s d write la = some (p, la.toNat % 4096) := by
  have hview : view s d (keyOf la) = some (p, PTE_P ||| PTE_W) := by
    rw [h.view_eq _ (pdx_lt la)]
    · exact (if_pos hla).trans hslot
    · change pdx la ≠ selfIndex
      rw [hla]
      exact userIndex_ne_self h.user
  rw [translate_view (h.paged h0).writable, hview]
  unfold walked
  simp only
  rw [if_pos]
  rw [Bool.or_eq_true]
  exact Or.inr rfl

end ScratchTable

/-!
# Texts in the page
-/

section Texts

variable {offset fuel n : Nat} {a b : BitVec 32}

theorem loadByte_of (h : translate s d false la = some (p, offset)) :
    loadByte s d la = some (byteOf (s.load (EntryPtr.mk p (offset / 4))) (offset % 4)) := by
  unfold loadByte
  rw [h]

/-- What is stored through one address is read through every other address of the byte. -/
theorem storeByte_of (h : translate s d true la = some (p, offset)) (byte : BitVec 8) :
    exists s', storeByte s d la byte = some s' ∧ SameBut p s s' ∧
      forall x, translate s' d false x = some (p, offset) -> loadByte s' d x = some byte := by
  refine ⟨_, ?_, sameBut_store s p (offset / 4) (setByte
    (s.load (EntryPtr.mk p (offset / 4))) (offset % 4) byte), ?_⟩
  · unfold storeByte
    rw [h]
  · intro x hx
    rw [loadByte_of hx, load_store, if_pos rfl, byteOf_setByte _ (Nat.mod_lt _ (by decide))]

theorem next_in_page (h : la.toNat % 4096 + 1 < 4096) :
    (la + 1#32).toNat % 4096 = la.toNat % 4096 + 1 ∧ pdx (la + 1#32) = pdx la ∧
      ptx (la + 1#32) = ptx la := by
  have hlt := la.isLt
  have hnext : (la + 1#32).toNat = la.toNat + 1 := by
    rw [BitVec.toNat_add]
    change (la.toNat + 1) % 2 ^ 32 = _
    omega
  rw [pdx_eq, pdx_eq, ptx_eq, ptx_eq, hnext]
  omega

theorem strcpy_runs (h : ScratchTable dom d i t s0 taken m s) (h0 : Paged d s0)
    (dst : BitVec 32) (src : List (BitVec 8)) (hp : p ∈ taken) (hpt : p ≠ t) (hslot : m j = some (p, PTE_P ||| PTE_W)) (hpdx : pdx dst = i)
    (hptx : ptx dst = j) (hroom : dst.toNat % 4096 + src.length < 4096) :
    exists s', strcpy d dst src s = some s' ∧ SameBut p s s' ∧
      forall x, translate s' d false x = some (p, dst.toNat % 4096 + src.length) ->
        loadByte s' d x = some 0#8 := by
  have htranslate := h.translate_eq h0 hpdx (by rw [hptx]; exact hslot) true
  induction src generalizing dst s with
  | nil => exact storeByte_of htranslate 0#8
  | cons c src ih =>
      rw [List.length_cons] at hroom
      rcases storeByte_of htranslate c with ⟨s1, hstore, hsame, _⟩
      have h1 := h.sameBut hp hpt hsame
      rcases next_in_page (show dst.toNat % 4096 + 1 < 4096 by omega) with ⟨hoff, hd1, ht1⟩
      rw [hpdx] at hd1
      rw [hptx] at ht1
      have htranslate1 := h1.translate_eq h0 hd1 (by rw [ht1]; exact hslot) true
      rcases ih h1 (dst + 1#32) hd1 ht1 (by omega) htranslate1 with ⟨s2, hrun, hsame2, hend⟩
      refine ⟨s2, ?_, hsame.trans hsame2, ?_⟩
      · unfold strcpy
        rw [hstore]
        exact hrun
      · intro x hx
        apply hend x
        rw [hx, hoff, List.length_cons, Nat.add_assoc, Nat.add_comm 1]

theorem strcmp_same (h : ScratchTable dom d i t s0 taken m s) (h0 : Paged d s0)
    (ha : pdx a = i) (haslot : m (ptx a) = some (p, PTE_P ||| PTE_W)) (hb : pdx b = i)
    (hbslot : m (ptx b) = some (p, PTE_P ||| PTE_W)) (hoff : b.toNat % 4096 = a.toNat % 4096)
    (hroom : a.toNat % 4096 + n < 4096) (hfuel : n < fuel)
    (hend : forall x, translate s d false x = some (p, a.toNat % 4096 + n) ->
      loadByte s d x = some 0#8) : strcmp s d fuel a b = some 0 := by
  induction fuel generalizing n a b with
  | zero => cases hfuel
  | succ fuel ih =>
      have hta := h.translate_eq h0 ha haslot false
      have htb := h.translate_eq h0 hb hbslot false
      rw [hoff] at htb
      have hloada := loadByte_of hta
      unfold strcmp
      rw [loadByte_of htb, hloada]
      simp only
      rw [if_neg (fun hne => hne rfl)]
      split
      · rfl
      · rename_i hbyte
        cases n with
        | zero =>
            have hzero := hend a hta
            rw [hloada] at hzero
            exact absurd (Option.some.inj hzero) hbyte
        | succ n =>
            rcases next_in_page (show a.toNat % 4096 + 1 < 4096 by omega) with ⟨hoffa, ha1, ha2⟩
            rcases next_in_page (show b.toNat % 4096 + 1 < 4096 by omega) with ⟨hoffb, hb1, hb2⟩
            apply ih (by rw [ha1, ha]) (by rw [ha2]; exact haslot) (by rw [hb1, hb])
              (by rw [hb2]; exact hbslot) (by rw [hoffa, hoffb, hoff]) (n := n)
            · omega
            · exact Nat.lt_of_succ_lt_succ hfuel
            · intro x hx
              apply hend x
              rw [hx, hoffa, Nat.add_assoc, Nat.add_comm 1]

end Texts

/-!
# The linear map
-/

theorem pteAddr_toNat (entry : BitVec 32) : (pteAddr entry).toNat = ppn entry * 4096 := by
  have hpage := ppn_pteAddr entry
  have hoffset : flagBits (pteAddr entry) = 0#32 := by
    unfold flagBits pteAddr
    rw [BitVec.and_assoc, BitVec.and_comm (~~~0xFFF#32), BitVec.and_not_self]
    exact BitVec.and_zero
  have hzero := flagBits_toNat (pteAddr entry)
  rw [hoffset, BitVec.toNat_ofNat] at hzero
  rw [ppn_eq] at hpage
  omega

theorem Paged.entryAt_kernel (h : Paged d s) (hinv : VmInv dom d s) {i : BitVec 32} {k : Nat}
    (hi : i.toNat = k * 4096) (hk : k < KMEMSIZE / 4096) :
    exists ptep, entryAt s d (i + BitVec.ofNat 32 KERNBASE) = some ptep ∧
      pteAddr (s.load ptep) = i := by
  have hk20 : k < 2 ^ 20 := by
    unfold KMEMSIZE at hk
    omega
  have hpa : i = page2pa k := by
    apply BitVec.eq_of_toNat_eq
    rw [hi, page2pa_toNat hk20]
  have hla : i + BitVec.ofNat 32 KERNBASE = page2kva k := by
    unfold page2kva
    rw [hpa]
  have hview := h.linear k hk
  have hpresent : present (pde s d (pdx (page2kva k))) = true := by
    by_contra habsent
    rw [Bool.not_eq_true] at habsent
    unfold view at hview
    rw [leaf_of_absent habsent] at hview
    cases hview
  have hppn : ppn (leaf s d (keyOf (page2kva k))) = k := by
    unfold view decode at hview
    split at hview
    · exact congrArg Prod.fst (Option.some.inj hview)
    · cases hview
  refine ⟨entryPtr s d (keyOf (page2kva k)), ?_, ?_⟩
  · unfold entryAt
    rw [hla, hinv.wellFormed.getPte_present _ false hpresent]
  · rw [load_entryPtr (k := keyOf (page2kva k)) hpresent]
    apply BitVec.eq_of_toNat_eq
    rw [pteAddr_toNat, hppn, hi]

theorem checkLinear_runs (h : Paged d s) (hinv : VmInv dom d s) {fuel k : Nat} {i : BitVec 32}
    (hi : i.toNat = k * 4096) (hpos : 0 < fuel) (hfuel : s.pmm.npage < i.toNat + fuel) :
    checkLinear s d fuel i = some () := by
  have hnpage := hinv.wellFormed.npage_le
  unfold KMEMSIZE at hnpage
  induction fuel generalizing i k with
  | zero => cases hpos
  | succ fuel ih =>
      unfold checkLinear
      split
      · rename_i hlt
        rcases h.entryAt_kernel hinv hi (by unfold KMEMSIZE; omega) with ⟨ptep, hentry, haddr⟩
        have hnext : (i + 4096#32).toNat = (k + 1) * 4096 := by
          rw [BitVec.toNat_add, hi]
          change (k * 4096 + 4096) % 2 ^ 32 = _
          omega
        have hkaddr : kaddr s i = some (ppn i) := by
          apply kaddr_of_lt
          rw [ppn_eq]
          omega
        apply bind_step hkaddr
        apply bind_step hentry
        apply bind_step (guard_of haddr)
        apply ih hnext
        · omega
        · omega
      · rfl

/-!
# The whole test
-/

theorem Paged.restored (h : Paged d s) (hrestored : Restored dom d s s') : Paged d s' where
  selfMap := by
    rw [hrestored.pde_eq]
    exact h.selfMap
  writable := h.writable.congr hrestored.pde_eq
  linear page hpage := by
    rw [hrestored.view_eq _ (pdx_lt _)]
    exact h.linear page hpage

theorem Paged.self_entry (h : Paged d s) (hinv : VmInv dom d s) :
    paddr (page2kva d) = some (page2pa d) ∧
      pdeAddr (s.load (EntryPtr.mk d (pdx vpt))) = page2pa d := by
  have hd : d < KMEMSIZE / 4096 := hinv.wellFormed.dir_lt.trans_le hinv.wellFormed.npage_le
  have hd20 : d < 2 ^ 20 := hinv.wellFormed.tables.page_lt hinv.wellFormed.dir_lt
  constructor
  · unfold paddr
    rw [if_neg (by rw [page2kva_toNat hd]; omega)]
    unfold page2kva
    rw [BitVec.add_sub_cancel]
  · apply BitVec.eq_of_toNat_eq
    change (pteAddr (pde s d selfIndex)).toNat = _
    rw [pteAddr_toNat, page2pa_toNat hd20]
    congr 1
    exact hinv.wellFormed.selfMap h.selfMap

theorem Paged.translate_page (h : Paged d s) (hp : p < KMEMSIZE / 4096) (write : Bool) :
    translate s d write (page2kva p + 0x100#32) = some (p, 0x100) := by
  have hp20 : p < 2 ^ 20 := by
    unfold KMEMSIZE at hp
    omega
  have hvalue : (page2pa p + 0x100#32).toNat = p * 4096 + 0x100 := by
    unfold KMEMSIZE at hp
    rw [BitVec.toNat_add, page2pa_toNat hp20]
    change (p * 4096 + 0x100) % 2 ^ 32 = _
    omega
  have hsum : page2kva p + 0x100#32 = page2pa p + 0x100#32 + BitVec.ofNat 32 KERNBASE := by
    unfold page2kva
    rw [BitVec.add_assoc, BitVec.add_comm (BitVec.ofNat 32 KERNBASE), ← BitVec.add_assoc]
  rw [hsum, h.translate_kernel (by rw [hvalue]; unfold KMEMSIZE at hp ⊢; omega), ppn_eq, hvalue]
  congr 2
  · omega
  · omega

/-- With two free pages the test passes, and gives everything back. -/
theorem checkBootPgdir_passes (hinv : VmInv dom d s) (hpaged : Paged d s)
    (hzero : pde s d 0 = 0#32) (hfree : 2 ≤ (freePagesOf s).ncard) :
    exists s', checkBootPgdir s d = some s' ∧ Restored dom d s s' := by
  have habsent : present (pde s d (pdx 0x100#32)) = false := by
    rw [show pdx 0x100#32 = 0 from rfl, hzero]
    rfl
  rcases hinv.first_page 0x100#32 PTE_W (by decide) habsent (by decide) hfree with
    ⟨s1, p, t, s2, halloc, hinsert1, hp, hpt, h2⟩
  rw [show pdx 0x100#32 = 0 from rfl, ← twoSlots_none, show ptx 0x100#32 = 0 from rfl,
    twoSlots_first] at h2
  have hptaken : p ∈ ({p, t} : Set Nat) := Or.inl rfl
  rcases h2.insert (0x100#32 + 4096#32) PTE_W rfl hptaken hpt (by decide)
    (ScratchTable.left_of_empty rfl) with ⟨s3, hinsert2, h3⟩
  rw [show ptx (0x100#32 + 4096#32) = 1 from rfl, twoSlots_second] at h3
  rcases strcpy_runs h3 hpaged 0x100#32 helloText hptaken hpt
    (show twoSlots _ _ 0 = _ from rfl) rfl rfl (by decide) with ⟨s4, hcopy, hsame4, hend⟩
  have h4 := h3.sameBut hptaken hpt hsame4
  have hcompare : strcmp s4 d 4096 0x100#32 (0x100#32 + 4096#32) = some 0 :=
    strcmp_same h4 hpaged rfl rfl rfl rfl rfl (by decide) (by decide) hend
  have hpd : p < KMEMSIZE / 4096 :=
    (hinv.wellFormed.tables.free_lt hp).trans_le hinv.wellFormed.npage_le
  rcases storeByte_of ((h4.paged hpaged).translate_page hpd true) 0#8 with
    ⟨s5, hstore, hsame5, hread⟩
  have h5 := h4.sameBut hptaken hpt hsame5
  have hclear : loadByte s5 d 0x100#32 = some 0#8 := by
    apply hread
    exact h5.translate_eq hpaged rfl rfl false
  have hlength : strlen s5 d 4096 0x100#32 0 = some 0 := by
    unfold strlen
    rw [hclear]
    rfl
  have hpout : p ∉ cover (listedBlocks s5.pmm) := by
    intro hbad
    change p ∈ freePagesOf s5 at hbad
    rw [h5.free_eq] at hbad
    exact hbad.right hptaken
  rcases freePage_frees h5.inv.represents (hinv.represents.cover_subset hp) hpout with
    ⟨pmm1, bs1, hfree1, hrep1, hnpage1, hcover1, _, href1⟩
  have ht := h5.taken_free h5.table_mem
  have htout : t ∉ cover bs1 := by
    rw [hcover1]
    rintro (hbad | hbad)
    · exact hpt hbad.symm
    · change t ∈ freePagesOf s5 at hbad
      rw [h5.free_eq] at hbad
      exact hbad.right h5.table_mem
  rcases freePage_frees (s := { s5 with pmm := pmm1 }) hrep1 (hinv.represents.cover_subset ht)
    htout with ⟨pmm2, bs2, hfree2, hrep2, hnpage2, hcover2, _, href2⟩
  have htable : pde2page { s5 with pmm := pmm1 } (pde s5 d 0) = some t := by
    have hentry := h5.pde2page_entry
    unfold pde2page pa2page at hentry ⊢
    rw [show ({ s5 with pmm := pmm1 } : VmState).pmm.npage = s5.pmm.npage from hnpage1]
    exact hentry
  have hone : s2.pageRef p = 1 := by
    rw [h2.data_ref hp hpt, slots_twoSlots]
    simp
  have htwo : s3.pageRef p = 2 := by
    rw [h3.data_ref hp hpt, slots_twoSlots]
    simp
  have hkaddr : kaddr s4 (page2pa p) = some p := by
    have hp20 := hinv.free_lt hp
    rw [kaddr_of_lt]
    · rw [ppn_page2pa hp20]
    · rw [ppn_page2pa hp20, h4.npage_eq]
      exact hinv.wellFormed.tables.free_lt hp
  have hlinear : checkLinear s d (s.pmm.npage + 1) 0#32 = some () := by
    have hstart : (0#32).toNat = 0 * 4096 := by decide
    apply checkLinear_runs hpaged hinv hstart (Nat.succ_pos _)
    omega
  have hself := hpaged.self_entry hinv
  refine ⟨_, ?_, h5.restored hzero hrep2 (hnpage2.trans hnpage1) ?_ ?_⟩
  · unfold checkBootPgdir
    apply bind_step hlinear
    apply bind_step hself.left
    apply bind_step (guard_of hself.right)
    apply bind_step (guard_of hzero)
    apply bind_step halloc
    apply bind_step hinsert1
    apply bind_step (guard_of hone)
    apply bind_step (insertOk_of hinsert2)
    apply bind_step (guard_of htwo)
    apply bind_step hcopy
    apply bind_step hcompare
    apply bind_step (guard_of rfl)
    apply bind_step hkaddr
    apply bind_step hstore
    apply bind_step hlength
    apply bind_step (guard_of rfl)
    apply bind_step hfree1
    apply bind_step htable
    apply bind_step hfree2
    rfl
  · rw [hcover2, hcover1]
    change {t} ∪ ({p} ∪ freePagesOf s5) = _
    rw [← Set.union_assoc, Set.union_comm {t}, h5.free_eq]
    exact Set.union_sdiff_cancel h5.taken_free
  · intro q
    rw [href2 q]
    by_cases hqt : q = t
    · rw [if_pos hqt, hqt, hinv.free_ref ht]
    · rw [if_neg hqt]
      change (pmm1.pages q).ref = _
      rw [href1 q]
      by_cases hqp : q = p
      · rw [if_pos hqp, hqp, hinv.free_ref hp]
      · rw [if_neg hqp, h5.ref_eq q hqt, slots_twoSlots]
        simp [Ne.symm hqp]

theorem checkBootPgdir_free (hinv : VmInv dom d s) (hzero : pde s d 0 = 0#32)
    (hrun : checkBootPgdir s d = some s') : 2 ≤ (freePagesOf s).ncard := by
  have habsent : present (pde s d (pdx 0x100#32)) = false := by
    rw [show pdx 0x100#32 = 0 from rfl, hzero]
    rfl
  unfold checkBootPgdir at hrun
  rcases Option.bind_eq_some_iff.mp hrun with ⟨_, _, hrun⟩
  rcases Option.bind_eq_some_iff.mp hrun with ⟨_, _, hrun⟩
  rcases Option.bind_eq_some_iff.mp hrun with ⟨_, _, hrun⟩
  rcases Option.bind_eq_some_iff.mp hrun with ⟨_, _, hrun⟩
  rcases Option.bind_eq_some_iff.mp hrun with ⟨⟨s1, p⟩, halloc, hrun⟩
  rcases Option.bind_eq_some_iff.mp hrun with ⟨s2, hinsert, _⟩
  exact hinv.first_page_free habsent halloc hinsert

end Memory
end OsLabs
