import OsLabs.Foundation.Filtering
import OsLabs.Peterson.FilterLock

/-!
# At most one thread gets through the filter lock

A thread is registered at a level from its write to `waiting` there until it
exits, and it has passed the level when it goes on to the next one.  Two facts
hold along every run: if somebody other than `waiting[lev]` is registered at
`lev`, then `waiting[lev]` is held back at `lev`; and while `waiting[lev]` scans,
nobody that it has already looked at is registered at `lev`.

The scan covers the thread numbers below `num` only.  A thread with another
number is not seen by it; the facts hold along the runs in which such a thread is
below `lev` whenever a scan at `lev` comes to its end.
-/

namespace OsLabs
namespace Peterson

open Foundation

/-- The highest level at which a thread is registered. -/
def regHeight (num : Int) : LockPc -> Int
  | LockPc.setLevel lev | LockPc.setWaiting lev => lev - 1
  | LockPc.testWaiting lev | LockPc.testLevel lev _ | LockPc.retestWaiting lev _ => lev
  | LockPc.inside => num - 2
  | LockPc.exited => -1

/-- The highest level that a thread has passed. -/
def passHeight (num : Int) : LockPc -> Int
  | LockPc.setLevel lev | LockPc.setWaiting lev | LockPc.testWaiting lev
  | LockPc.testLevel lev _ | LockPc.retestWaiting lev _ => lev - 1
  | LockPc.inside => num - 2
  | LockPc.exited => -1

/-- What a thread has written to its entry of `level`. -/
def minLevel (num : Int) : LockPc -> Int
  | LockPc.setLevel lev => lev - 1
  | LockPc.setWaiting lev | LockPc.testWaiting lev | LockPc.testLevel lev _
  | LockPc.retestWaiting lev _ => lev
  | LockPc.inside => num - 2
  | LockPc.exited => -1

def InRange (num : Int) : LockPc -> Prop
  | LockPc.setLevel lev | LockPc.setWaiting lev | LockPc.testWaiting lev =>
      0 ≤ lev ∧ lev < num - 1
  | LockPc.testLevel lev k | LockPc.retestWaiting lev k =>
      0 ≤ lev ∧ lev < num - 1 ∧ 0 ≤ k ∧ k < num
  | LockPc.inside | LockPc.exited => True

/-- The level that a thread scans, and the end of what it has looked at. -/
def scanned : LockPc -> Option (Int × Int)
  | LockPc.testLevel lev k => some (lev, k)
  | LockPc.retestWaiting lev k => some (lev, k + 1)
  | _ => none

theorem passHeight_le_regHeight (num : Int) (pc : LockPc) :
    passHeight num pc ≤ regHeight num pc := by
  cases pc <;> simp [passHeight, regHeight]

theorem regHeight_le_passHeight (num : Int) (pc : LockPc) :
    regHeight num pc ≤ passHeight num pc + 1 := by
  cases pc <;> simp [passHeight, regHeight]

theorem regHeight_le_minLevel (num : Int) (pc : LockPc) :
    regHeight num pc ≤ minLevel num pc := by
  cases pc <;> simp [minLevel, regHeight]

section Control

variable {num lev : Int}

theorem enterLevel_heights (hlev : lev < num - 1) :
    regHeight num (enterLevel num (lev + 1)) = lev ∧
      passHeight num (enterLevel num (lev + 1)) = lev ∧
      minLevel num (enterLevel num (lev + 1)) = lev := by
  unfold enterLevel
  split
  · simp [regHeight, passHeight, minLevel]
  · simp only [regHeight, passHeight, minLevel]
    lia

theorem enterLevel_inRange (hlev : 0 ≤ lev) : InRange num (enterLevel num lev) := by
  unfold enterLevel
  split
  · rename_i hlt
    exact ⟨hlev, hlt⟩
  · trivial

theorem enterLevel_scanned : scanned (enterLevel num lev) = none := by
  unfold enterLevel
  split
  · rfl
  · rfl

theorem scanFrom_lt {k : Int} (hk : k < num) : scanFrom num lev k = LockPc.testLevel lev k :=
  if_pos hk

theorem scanFrom_end : scanFrom num lev num = enterLevel num (lev + 1) := by
  unfold scanFrom
  rw [if_neg (lt_irrefl num), if_pos rfl]

theorem scanFrom_next {k : Int} (hk : k < num) :
    scanFrom num lev (k + 1) = LockPc.testLevel lev (k + 1) ∧ k + 1 < num ∨
      scanFrom num lev (k + 1) = enterLevel num (lev + 1) ∧ k = num - 1 := by
  by_cases hend : k + 1 < num
  · exact Or.inl ⟨scanFrom_lt hend, hend⟩
  · have hlast : k = num - 1 := by lia
    rw [hlast, Int.sub_add_cancel]
    exact Or.inr ⟨scanFrom_end, rfl⟩

theorem scanned_nonneg {pc : LockPc} {l b : Int} (hrange : InRange num pc)
    (hscan : scanned pc = some (l, b)) : 0 ≤ l := by
  cases pc with
  | testLevel lev k =>
      cases hscan
      exact hrange.left
  | retestWaiting lev k =>
      cases hscan
      exact hrange.left
  | setLevel lev => cases hscan
  | setWaiting lev => cases hscan
  | testWaiting lev => cases hscan
  | inside => cases hscan
  | exited => cases hscan

end Control

/-- A thread that ends its scan has nobody registered at its level whose number it
does not look at. -/
def SeesAll (num : Int) (threads : Finset Int) (s : LockState) (i : Int) : Prop :=
  forall lev, s.pc i = LockPc.retestWaiting lev (num - 1) -> s.waiting lev = i ->
    forall j, j ∈ threads -> ¬ (0 ≤ j ∧ j < num) -> j ≠ i -> s.level j < lev

structure LockInv (num : Int) (threads : Finset Int) (s : LockState) : Prop where
  range : forall j, j ∈ threads -> InRange num (s.pc j)
  level : forall j, j ∈ threads -> minLevel num (s.pc j) ≤ s.level j
  held : forall l j, 0 ≤ l -> j ∈ threads -> l ≤ regHeight num (s.pc j) -> j ≠ s.waiting l ->
    s.waiting l ∈ threads ∧ l ≤ regHeight num (s.pc (s.waiting l)) ∧
      passHeight num (s.pc (s.waiting l)) < l
  clear : forall w l b, w ∈ threads -> scanned (s.pc w) = some (l, b) -> s.waiting l = w ->
    forall j, j ∈ threads -> 0 ≤ j -> j < b -> j ≠ w -> regHeight num (s.pc j) < l

/-!
# One step
-/

section Step

variable {num i : Int} {threads : Finset Int} {s t : LockState}

structure Progress (num : Int) (threads : Finset Int) (s : LockState) (i : Int)
    (t : LockState) : Prop where
  waiting : forall l, t.waiting l = s.waiting l ∨ t.waiting l = i
  rises : forall l, 0 ≤ l -> l ≤ regHeight num (t.pc i) ->
    l ≤ regHeight num (s.pc i) ∨ t.waiting l = i
  waits : forall l j, t.waiting l = i -> j ∈ threads -> j ≠ i ->
    l ≤ regHeight num (s.pc j) ->
    (s.waiting l = i -> l ≤ regHeight num (s.pc i) ∧ passHeight num (s.pc i) < l) ->
    l ≤ regHeight num (t.pc i) ∧ passHeight num (t.pc i) < l

theorem progress_goto {pc : LockPc} (hreg : regHeight num pc = regHeight num (s.pc i))
    (hpass : passHeight num pc = passHeight num (s.pc i)) :
    Progress num threads s i (s.goto i pc) := by
  constructor
  · intro l
    exact Or.inl rfl
  · intro l _ hl
    rw [goto_pc_self, hreg] at hl
    exact Or.inl hl
  · intro l j hturn _ _ _ hown
    rw [goto_pc_self, hreg, hpass]
    exact hown hturn

theorem progress_pass {lev : Int} {pc : LockPc} (hreg : regHeight num (s.pc i) = lev)
    (hpass : passHeight num (s.pc i) = lev - 1) (hreg' : regHeight num pc = lev)
    (halone : s.waiting lev = i -> forall j, j ∈ threads -> j ≠ i ->
      regHeight num (s.pc j) < lev) :
    Progress num threads s i (s.goto i pc) := by
  constructor
  · intro l
    exact Or.inl rfl
  · intro l _ hl
    rw [goto_pc_self, hreg', ← hreg] at hl
    exact Or.inl hl
  · intro l j hturn hj hne hl hown
    have hold := hown hturn
    rw [hreg, hpass] at hold
    have hlev : l = lev := by lia
    subst hlev
    have hlow := halone hturn j hj hne
    lia

theorem progress_climb {lev : Int} (hpc : s.pc i = LockPc.setLevel lev) :
    Progress num threads s i ((s.setLevel i lev).goto i (LockPc.setWaiting lev)) := by
  constructor
  · intro l
    exact Or.inl rfl
  · intro l _ hl
    rw [goto_pc_self] at hl
    rw [hpc]
    exact Or.inl hl
  · intro l j hturn _ _ _ hown
    rw [goto_pc_self]
    rw [hpc] at hown
    exact hown hturn

theorem progress_register {lev : Int} (hpc : s.pc i = LockPc.setWaiting lev) :
    Progress num threads s i ((s.setWaiting lev i).goto i (LockPc.testWaiting lev)) := by
  constructor
  · intro l
    rw [goto_waiting, setWaiting_waiting]
    split
    · exact Or.inr rfl
    · exact Or.inl rfl
  · intro l _ hl
    rw [goto_pc_self] at hl
    rw [goto_waiting, setWaiting_waiting, hpc]
    simp only [regHeight] at hl ⊢
    by_cases hlev : l = lev
    · exact Or.inr (if_pos hlev)
    · exact Or.inl (by lia)
  · intro l j hturn _ _ _ hown
    rw [goto_waiting, setWaiting_waiting] at hturn
    rw [goto_pc_self]
    rw [hpc] at hown
    simp only [regHeight, passHeight] at hown ⊢
    by_cases hlev : l = lev
    · lia
    · rw [if_neg hlev] at hturn
      have hold := hown hturn
      lia

theorem progress_leave (hpc : s.pc i = LockPc.inside) :
    Progress num threads s i ((s.setLevel i (-1)).goto i LockPc.exited) := by
  constructor
  · intro l
    exact Or.inl rfl
  · intro l hl hreg
    rw [goto_pc_self] at hreg
    simp only [regHeight] at hreg
    lia
  · intro l j hturn _ _ _ hown
    have hold := hown hturn
    rw [hpc] at hold
    simp only [regHeight, passHeight] at hold
    lia

theorem LockInv.progress (h : LockInv num threads s) (hi : i ∈ threads)
    (hsees : SeesAll num threads s i) (hmove : LockMove num s i t) :
    Progress num threads s i t := by
  have hrange := h.range i hi
  cases hmove with
  | climb hpc => exact progress_climb hpc
  | register hpc => exact progress_register hpc
  | scan hpc hturn =>
      rw [hpc] at hrange
      rw [scanFrom_lt (by unfold InRange at hrange; lia)]
      exact progress_goto (by rw [hpc]; rfl) (by rw [hpc]; rfl)
  | displaced hpc hturn =>
      rw [hpc] at hrange
      apply progress_pass (by rw [hpc]; rfl) (by rw [hpc]; rfl)
        (enterLevel_heights hrange.right).left
      intro hbad
      exact absurd hbad hturn
  | blocked hpc => exact progress_goto (by rw [hpc]; rfl) (by rw [hpc]; rfl)
  | clear hpc hlow => exact progress_goto (by rw [hpc]; rfl) (by rw [hpc]; rfl)
  | restart hpc => exact progress_goto (by rw [hpc]; rfl) (by rw [hpc]; rfl)
  | advance hpc hturn =>
      rename_i lev k
      rw [hpc] at hrange
      rcases hrange with ⟨_, hlev, _, hk⟩
      cases scanFrom_next hk with
      | inl hmore =>
          rw [hmore.left]
          exact progress_goto (by rw [hpc]; rfl) (by rw [hpc]; rfl)
      | inr hend =>
          rcases hend with ⟨hgoto, hlast⟩
          subst hlast
          rw [hgoto]
          apply progress_pass (by rw [hpc]; rfl) (by rw [hpc]; rfl)
            (enterLevel_heights hlev).left
          intro _ j hj hne
          by_cases hseen : 0 ≤ j ∧ j < num
          · apply h.clear i lev num hi _ hturn j hj hseen.left hseen.right hne
            rw [hpc]
            simp [scanned]
          · have hlow := hsees lev hpc hturn j hj hseen hne
            have hmin := h.level j hj
            have hle := regHeight_le_minLevel num (s.pc j)
            lia
  | leave hpc => exact progress_leave hpc

theorem LockInv.range_self (h : LockInv num threads s) (hi : i ∈ threads)
    (hmove : LockMove num s i t) : InRange num (t.pc i) := by
  have hrange := h.range i hi
  cases hmove with
  | climb hpc =>
      rw [hpc] at hrange
      rw [goto_pc_self]
      exact hrange
  | register hpc =>
      rw [hpc] at hrange
      rw [goto_pc_self]
      exact hrange
  | scan hpc hturn =>
      rw [hpc] at hrange
      rcases hrange with ⟨hnonneg, hlt⟩
      rw [goto_pc_self, scanFrom_lt (by lia)]
      exact ⟨hnonneg, hlt, le_refl 0, by lia⟩
  | displaced hpc hturn =>
      rw [hpc] at hrange
      rcases hrange with ⟨hnonneg, _⟩
      rw [goto_pc_self]
      exact enterLevel_inRange (by lia)
  | blocked hpc =>
      rw [hpc] at hrange
      rw [goto_pc_self]
      exact ⟨hrange.left, hrange.right.left⟩
  | clear hpc hlow =>
      rw [hpc] at hrange
      rw [goto_pc_self]
      exact hrange
  | restart hpc =>
      rw [hpc] at hrange
      rw [goto_pc_self]
      exact ⟨hrange.left, hrange.right.left⟩
  | advance hpc hturn =>
      rename_i lev k
      rw [hpc] at hrange
      rcases hrange with ⟨hnonneg, hlt, hk, hknum⟩
      rw [goto_pc_self]
      cases scanFrom_next hknum with
      | inl hmore =>
          rw [hmore.left]
          exact ⟨hnonneg, hlt, by lia, hmore.right⟩
      | inr hend =>
          rw [hend.left]
          exact enterLevel_inRange (by lia)
  | leave hpc =>
      rw [goto_pc_self]
      trivial

theorem LockInv.level_self (h : LockInv num threads s) (hi : i ∈ threads)
    (hmove : LockMove num s i t) : minLevel num (t.pc i) ≤ t.level i := by
  have hlevel := h.level i hi
  have hrange := h.range i hi
  cases hmove with
  | climb hpc => simp [minLevel]
  | register hpc =>
      rw [hpc] at hlevel
      simpa [minLevel] using hlevel
  | scan hpc hturn =>
      rw [hpc] at hlevel hrange
      rcases hrange with ⟨hnonneg, hlt⟩
      rw [goto_pc_self, scanFrom_lt (by lia)]
      exact hlevel
  | displaced hpc hturn =>
      rw [hpc] at hlevel hrange
      rw [goto_pc_self, (enterLevel_heights hrange.right).right.right]
      exact hlevel
  | blocked hpc =>
      rw [hpc] at hlevel
      rw [goto_pc_self]
      exact hlevel
  | clear hpc hlow =>
      rw [hpc] at hlevel
      rw [goto_pc_self]
      exact hlevel
  | restart hpc =>
      rw [hpc] at hlevel
      rw [goto_pc_self]
      exact hlevel
  | advance hpc hturn =>
      rename_i lev k
      rw [hpc] at hlevel hrange
      rcases hrange with ⟨hnonneg, hlt, hk, hknum⟩
      rw [goto_pc_self]
      cases scanFrom_next hknum with
      | inl hmore =>
          rw [hmore.left]
          exact hlevel
      | inr hend =>
          rw [hend.left, (enterLevel_heights hlt).right.right]
          exact hlevel
  | leave hpc => simp [minLevel]

theorem LockInv.held_step (h : LockInv num threads s) (hi : i ∈ threads)
    (hmove : LockMove num s i t) (hprog : Progress num threads s i t) :
    forall l j, 0 ≤ l -> j ∈ threads -> l ≤ regHeight num (t.pc j) -> j ≠ t.waiting l ->
      t.waiting l ∈ threads ∧ l ≤ regHeight num (t.pc (t.waiting l)) ∧
        passHeight num (t.pc (t.waiting l)) < l := by
  intro l j hl hj hreg hne
  by_cases hturn : t.waiting l = i
  · rw [hturn] at hne ⊢
    rw [hmove.pc_other hne] at hreg
    refine ⟨hi, hprog.waits l j hturn hj hne hreg ?_⟩
    intro hsame
    have hheld := h.held l j hl hj hreg (by rw [hsame]; exact hne)
    rw [hsame] at hheld
    exact hheld.right
  · have hsame : t.waiting l = s.waiting l := (hprog.waiting l).resolve_right hturn
    have hreg' : l ≤ regHeight num (s.pc j) := by
      by_cases hji : j = i
      · subst hji
        exact (hprog.rises l hl hreg).resolve_right hturn
      · rw [hmove.pc_other hji] at hreg
        exact hreg
    rw [hmove.pc_other hturn, hsame]
    exact h.held l j hl hj hreg' (by rw [← hsame]; exact hne)

theorem LockInv.clear_self (h : LockInv num threads s) (hi : i ∈ threads)
    (hmove : LockMove num s i t) {l b : Int} (hscan : scanned (t.pc i) = some (l, b))
    (hturn' : t.waiting l = i) {j : Int} (hj : j ∈ threads) (hnonneg : 0 ≤ j) (hlt : j < b)
    (hne : j ≠ i) : regHeight num (s.pc j) < l := by
  have hrange := h.range i hi
  cases hmove with
  | climb hpc =>
      rw [goto_pc_self] at hscan
      cases hscan
  | register hpc =>
      rw [goto_pc_self] at hscan
      cases hscan
  | scan hpc hturn =>
      rw [hpc] at hrange
      rcases hrange with ⟨_, hlev⟩
      rw [goto_pc_self, scanFrom_lt (by lia)] at hscan
      cases hscan
      lia
  | displaced hpc hturn =>
      rw [goto_pc_self, enterLevel_scanned] at hscan
      cases hscan
  | blocked hpc =>
      rw [goto_pc_self] at hscan
      cases hscan
  | clear hpc hlow =>
      rename_i lev k
      rw [goto_pc_self] at hscan
      cases hscan
      by_cases hjk : j = k
      · subst hjk
        have hmin := h.level j hj
        have hle := regHeight_le_minLevel num (s.pc j)
        have hlev := hlow.resolve_right hne
        lia
      · apply h.clear i l k hi _ hturn' j hj hnonneg (by lia) hne
        rw [hpc]
        rfl
  | restart hpc =>
      rw [goto_pc_self] at hscan
      cases hscan
  | advance hpc hturn =>
      rename_i lev k
      rw [hpc] at hrange
      rcases hrange with ⟨_, hlev, hk, hknum⟩
      rw [goto_pc_self] at hscan
      cases scanFrom_next hknum with
      | inl hmore =>
          rw [hmore.left] at hscan
          cases hscan
          apply h.clear i l (k + 1) hi _ hturn' j hj hnonneg hlt hne
          rw [hpc]
          rfl
      | inr hend =>
          rw [hend.left, enterLevel_scanned] at hscan
          cases hscan
  | leave hpc =>
      rw [goto_pc_self] at hscan
      cases hscan

theorem LockInv.clear_step (h : LockInv num threads s) (hi : i ∈ threads)
    (hmove : LockMove num s i t) (hprog : Progress num threads s i t) :
    forall w l b, w ∈ threads -> scanned (t.pc w) = some (l, b) -> t.waiting l = w ->
      forall j, j ∈ threads -> 0 ≤ j -> j < b -> j ≠ w -> regHeight num (t.pc j) < l := by
  intro w l b hw hscan hturn j hj hnonneg hlt hne
  by_cases hwi : w = i
  · subst hwi
    rw [hmove.pc_other hne]
    exact h.clear_self hi hmove hscan hturn hj hnonneg hlt hne
  · have hnot : t.waiting l ≠ i := by
      rw [hturn]
      exact hwi
    have hsame := (hprog.waiting l).resolve_right hnot
    rw [hmove.pc_other hwi] at hscan
    have hclear := h.clear w l b hw hscan (hsame.symm.trans hturn) j hj hnonneg hlt hne
    by_cases hji : j = i
    · subst hji
      have hl := scanned_nonneg (h.range w hw) hscan
      apply lt_of_not_ge
      intro hreg
      cases hprog.rises l hl hreg with
      | inl hold => lia
      | inr hbad => exact hnot hbad
    · rw [hmove.pc_other hji]
      exact hclear

/-- A step of the lock keeps the invariant. -/
theorem LockInv.step (h : LockInv num threads s) (hi : i ∈ threads)
    (hsees : SeesAll num threads s i) (hstep : lockStep num s i = some t) :
    LockInv num threads t := by
  have hmove := lockMove_of_step hstep
  have hprog := h.progress hi hsees hmove
  refine ⟨?_, ?_, h.held_step hi hmove hprog, h.clear_step hi hmove hprog⟩
  · intro j hj
    by_cases hji : j = i
    · subst hji
      exact h.range_self hi hmove
    · rw [hmove.pc_other hji]
      exact h.range j hj
  · intro j hj
    by_cases hji : j = i
    · subst hji
      exact h.level_self hi hmove
    · rw [hmove.pc_other hji, hmove.level_other hji]
      exact h.level j hj

theorem initialLock_inv (num : Int) (threads : Finset Int) :
    LockInv num threads (initialLock num) := by
  have hreg : forall j, regHeight num ((initialLock num).pc j) < 0 := by
    intro j
    change regHeight num (enterLevel num 0) < 0
    unfold enterLevel
    split
    · simp [regHeight]
    · simp only [regHeight]
      lia
  constructor
  · intro j _
    exact enterLevel_inRange (le_refl 0)
  · intro j _
    change minLevel num (enterLevel num 0) ≤ -1
    unfold enterLevel
    split
    · simp [minLevel]
    · simp only [minLevel]
      lia
  · intro l j hl _ hle
    have hlt := hreg j
    lia
  · intro w l b _ hscan
    change scanned (enterLevel num 0) = some (l, b) at hscan
    rw [enterLevel_scanned] at hscan
    cases hscan

end Step

/-!
# Exclusion
-/

def lockFilter (num : Int) (threads : Finset Int) (s : LockState) : LevelFilter Int where
  registered l := threads.filter fun j => (l : Int) ≤ regHeight num (s.pc j)
  passed l := threads.filter fun j => (l : Int) ≤ passHeight num (s.pc j)
  last l := s.waiting l

section Exclusion

variable {num : Int} {threads : Finset Int} {s : LockState}

theorem LockInv.lockFilter_holds (h : LockInv num threads s) :
    (lockFilter num threads s).Holds threads := by
  constructor
  · exact Finset.filter_subset _ _
  · intro l j hj
    rcases Finset.mem_filter.mp hj with ⟨hmem, hpass⟩
    have hle := passHeight_le_regHeight num (s.pc j)
    exact Finset.mem_filter.mpr ⟨hmem, by lia⟩
  · intro l j hj
    rcases Finset.mem_filter.mp hj with ⟨hmem, hreg⟩
    have hle := regHeight_le_passHeight num (s.pc j)
    exact Finset.mem_filter.mpr ⟨hmem, by lia⟩
  · intro l j hj hne
    rcases Finset.mem_filter.mp hj with ⟨hmem, hreg⟩
    rcases h.held l j (Int.natCast_nonneg l) hmem hreg hne with ⟨hthread, hheld, hpass⟩
    refine ⟨Finset.mem_filter.mpr ⟨hthread, hheld⟩, ?_⟩
    intro hbad
    exact absurd (Finset.mem_filter.mp hbad).right (not_le.mpr hpass)

theorem LockInv.exclusion (h : LockInv num threads s) (hcard : threads.card ≤ num.toNat)
    {i j : Int} (hi : i ∈ threads) (hj : j ∈ threads) (hiIn : s.pc i = LockPc.inside)
    (hjIn : s.pc j = LockPc.inside) : i = j := by
  by_cases hnum : num.toNat ≤ 1
  · exact Finset.card_le_one.mp (le_trans hcard hnum) i hi j hj
  · have hpassed : forall k, k ∈ threads -> s.pc k = LockPc.inside ->
        k ∈ (lockFilter num threads s).passed (num.toNat - 2) := by
      intro k hk hin
      refine Finset.mem_filter.mpr ⟨hk, ?_⟩
      rw [hin]
      simp only [passHeight]
      lia
    have hcount := h.lockFilter_holds.card_passed hcard (num.toNat - 2) (by lia)
    exact Finset.card_le_one.mp (by lia) i (hpassed i hi hiIn) j (hpassed j hj hjIn)

/-- No access of an unfinished thread is outside of the arrays. -/
theorem LockInv.can_step (h : LockInv num threads s) (hnum : num ≤ MAX_N) {i : Int}
    (hi : i ∈ threads) (hindex : LevelIndex i) (hpc : s.pc i ≠ LockPc.exited) :
    exists t, lockStep num s i = some t := by
  have hrange := h.range i hi
  unfold lockStep
  cases hcase : s.pc i with
  | setLevel lev => exact ⟨_, if_pos hindex⟩
  | setWaiting lev =>
      rw [hcase] at hrange
      exact ⟨_, if_pos ⟨hrange.left, by have hlt := hrange.right; lia⟩⟩
  | testWaiting lev =>
      rw [hcase] at hrange
      exact ⟨_, if_pos ⟨hrange.left, by have hlt := hrange.right; lia⟩⟩
  | testLevel lev k =>
      rw [hcase] at hrange
      rcases hrange with ⟨_, _, hk, hlt⟩
      exact ⟨_, if_pos ⟨hk, by lia⟩⟩
  | retestWaiting lev k =>
      rw [hcase] at hrange
      rcases hrange with ⟨hlev, hlt, _, _⟩
      exact ⟨_, if_pos ⟨hlev, by lia⟩⟩
  | inside => exact ⟨_, if_pos hindex⟩
  | exited => exact absurd hcase hpc

end Exclusion

end Peterson
end OsLabs
