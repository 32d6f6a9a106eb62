import OsLabs.Memory.Mmu

/-!
# Listing a page table

`get_pgtable_items` finds the next run of present entries with the same permissions, and
`print_pgdir` calls it until it returns zero.  The listing is the list of all maximal
runs.  A table is a map from indices to entries; `none` as a pointer is `NULL`.
-/

namespace OsLabs
namespace Memory

def PTE_USER : BitVec 32 := PTE_U ||| PTE_W ||| PTE_P

/-- The first loop, with `n` entries left below the bound. -/
def skipAbsent (table : Nat -> BitVec 32) : Nat -> Nat -> Nat
  | 0, start => start
  | n + 1, start => if present (table start) then start else skipAbsent table n (start + 1)

def skipSame (table : Nat -> BitVec 32) (perm : BitVec 32) : Nat -> Nat -> Nat
  | 0, start => start
  | n + 1, start =>
      if table start &&& PTE_USER = perm then skipSame table perm n (start + 1) else start

/-- `if (ptr != NULL) *ptr = val`. -/
def putStore (ptr : Option Nat) (val : Nat) : Option Nat :=
  ptr.map fun _ => val

/-- The permission returned, and what `left_store` and `right_store` point to then. -/
def getPgtableItems (_left right start : Nat) (table : Nat -> BitVec 32)
    (leftStore rightStore : Option Nat) : BitVec 32 × Option Nat × Option Nat :=
  if start ≥ right then
    (0#32, leftStore, rightStore)
  else
    let start := skipAbsent table (right - start) start
    if start < right then
      let leftStore := putStore leftStore start
      let perm := table start &&& PTE_USER
      let start := skipSame table perm (right - (start + 1)) (start + 1)
      (perm, leftStore, putStore rightStore start)
    else
      (0#32, leftStore, rightStore)

structure Item where
  left : Nat
  right : Nat
  perm : BitVec 32

/-- The loop of `print_pgdir` over the entries below `bound`.  `left` and `right` are its
variables; `none` is a loop that has not ended. -/
def listItems (table : Nat -> BitVec 32) (low bound : Nat) :
    Nat -> Nat -> Nat -> Option (List Item)
  | 0, _, _ => none
  | fuel + 1, left, right =>
      match getPgtableItems low bound right table (some left) (some right) with
      | (perm, some left, some right) =>
          if perm = 0#32 then some []
          else (listItems table low bound fuel left right).map fun items =>
            ⟨left, right, perm⟩ :: items
      | _ => none

/-- Every line for the directory `vpd`, with the lines for the tables `vpt` below it. -/
def printPgdir (vpd vpt : Nat -> BitVec 32) (left : Nat) : Option (List (Item × List Item)) :=
  (listItems vpd 0 NPDEENTRY (NPDEENTRY + 1) left 0).bind fun items =>
    items.mapM fun item =>
      (listItems vpt (item.left * NPTEENTRY) (item.right * NPTEENTRY)
        (item.right * NPTEENTRY + 1) item.left (item.left * NPTEENTRY)).map fun inner =>
          (item, inner)

/-!
# One call
-/

variable {table : Nat -> BitVec 32} {low bound start l r : Nat} {perm : BitVec 32}

theorem present_userBits (entry : BitVec 32) : present (entry &&& PTE_USER) = present entry := by
  rw [present_eq, present_eq, BitVec.getLsbD_and]
  have hbit : PTE_USER.getLsbD 0 = true := by decide
  rw [hbit, Bool.and_true]

theorem skipAbsent_spec (n start : Nat) : start ≤ skipAbsent table n start ∧
    skipAbsent table n start ≤ start + n ∧
    (forall x, start ≤ x -> x < skipAbsent table n start -> present (table x) = false) ∧
    (skipAbsent table n start < start + n ->
      present (table (skipAbsent table n start)) = true) := by
  induction n generalizing start with
  | zero =>
      refine ⟨Nat.le_refl _, Nat.le_refl _, ?_, ?_⟩
      · intro x hlow hhigh
        exact absurd hhigh (Nat.not_lt.mpr hlow)
      · intro hlt
        exact absurd hlt (Nat.lt_irrefl _)
  | succ n ih =>
      unfold skipAbsent
      cases hpresent : present (table start) with
      | true =>
          simp only [if_true]
          refine ⟨Nat.le_refl _, Nat.le_add_right _ _, ?_, fun _ => hpresent⟩
          intro x hlow hhigh
          exact absurd hhigh (Nat.not_lt.mpr hlow)
      | false =>
          rcases ih (start + 1) with ⟨hlow, hhigh, habsent, hfound⟩
          simp only [Bool.false_eq_true, if_false]
          refine ⟨by lia, by lia, ?_, ?_⟩
          · intro x hx hx'
            by_cases heq : x = start
            · rw [heq]
              exact hpresent
            · exact habsent x (by lia) hx'
          · intro hlt
            exact hfound (by lia)

theorem skipSame_spec (n start : Nat) : start ≤ skipSame table perm n start ∧
    skipSame table perm n start ≤ start + n ∧
    (forall x, start ≤ x -> x < skipSame table perm n start -> table x &&& PTE_USER = perm) ∧
    (skipSame table perm n start < start + n ->
      table (skipSame table perm n start) &&& PTE_USER ≠ perm) := by
  induction n generalizing start with
  | zero =>
      refine ⟨Nat.le_refl _, Nat.le_refl _, ?_, ?_⟩
      · intro x hlow hhigh
        exact absurd hhigh (Nat.not_lt.mpr hlow)
      · intro hlt
        exact absurd hlt (Nat.lt_irrefl _)
  | succ n ih =>
      unfold skipSame
      by_cases hsame : table start &&& PTE_USER = perm
      · rcases ih (start + 1) with ⟨hlow, hhigh, huniform, hother⟩
        rw [if_pos hsame]
        refine ⟨by lia, by lia, ?_, ?_⟩
        · intro x hx hx'
          by_cases heq : x = start
          · rw [heq]
            exact hsame
          · exact huniform x (by lia) hx'
        · intro hlt
          exact hother (by lia)
      · rw [if_neg hsame]
        refine ⟨Nat.le_refl _, Nat.le_add_right _ _, ?_, fun _ => hsame⟩
        intro x hlow hhigh
        exact absurd hhigh (Nat.not_lt.mpr hlow)

structure FirstRun (table : Nat -> BitVec 32) (start bound l r : Nat) (perm : BitVec 32) :
    Prop where
  start_le : start ≤ l
  nonempty : l < r
  le_bound : r ≤ bound
  absent : forall x, start ≤ x -> x < l -> present (table x) = false
  uniform : forall x, l ≤ x -> x < r -> table x &&& PTE_USER = perm
  present_perm : present perm = true
  maximal : r < bound -> table r &&& PTE_USER ≠ perm

theorem getPgtableItems_cases (low left right start : Nat) :
    (getPgtableItems low bound start table (some left) (some right) =
        (0#32, some left, some right) ∧
      forall x, start ≤ x -> x < bound -> present (table x) = false) ∨
    (exists l r perm, getPgtableItems low bound start table (some left) (some right) =
        (perm, some l, some r) ∧ FirstRun table start bound l r perm) := by
  unfold getPgtableItems
  by_cases hover : start ≥ bound
  · rw [if_pos hover]
    refine Or.inl ⟨rfl, ?_⟩
    intro x hlow hhigh
    lia
  · rw [if_neg hover]
    rcases @skipAbsent_spec table (bound - start) start with ⟨hlow, hhigh, habsent, hfound⟩
    by_cases hinside : skipAbsent table (bound - start) start < bound
    · simp only [if_pos hinside]
      have hpresent := hfound (by lia)
      obtain ⟨l, hl⟩ : exists l, l = skipAbsent table (bound - start) start := ⟨_, rfl⟩
      rw [← hl] at hlow habsent hinside hpresent ⊢
      rcases @skipSame_spec table (table l &&& PTE_USER) (bound - (l + 1)) (l + 1) with
        ⟨hlow', hhigh', huniform, hother⟩
      refine Or.inr ⟨l, _, _, rfl, hlow, by lia, by lia, habsent, ?_, ?_, ?_⟩
      · intro x hx hx'
        by_cases heq : x = l
        · rw [heq]
        · exact huniform x (by lia) hx'
      · rw [present_userBits]
        exact hpresent
      · intro hlt
        exact hother (by lia)
    · left
      refine ⟨if_neg hinside, ?_⟩
      intro x hx hx'
      exact habsent x hx (by lia)

theorem FirstRun.present (h : FirstRun table start bound l r perm) {x : Nat} (hx : l ≤ x)
    (hx' : x < r) : present (table x) = true := by
  rw [← present_userBits, h.uniform x hx hx']
  exact h.present_perm

theorem FirstRun.perm_ne_zero (h : FirstRun table start bound l r perm) : perm ≠ 0#32 := by
  intro hzero
  have hpresent := h.present_perm
  rw [hzero, present_zero] at hpresent
  cases hpresent

theorem getPgtableItems_zero_iff (low left right start : Nat) :
    (getPgtableItems low bound start table (some left) (some right)).fst = 0#32 <->
      forall x, start ≤ x -> x < bound -> present (table x) = false := by
  cases @getPgtableItems_cases table bound low left right start with
  | inl hnone =>
      constructor
      · intro _
        exact hnone.right
      · intro _
        rw [hnone.left]
  | inr hsome =>
      rcases hsome with ⟨l, r, perm, hrun, hfirst⟩
      rw [hrun]
      constructor
      · intro hzero
        exact absurd hzero hfirst.perm_ne_zero
      · intro habsent
        have hthere := hfirst.present (Nat.le_refl l) hfirst.nonempty
        rw [habsent l hfirst.start_le (hfirst.nonempty.trans_le hfirst.le_bound)] at hthere
        cases hthere

/-!
# The whole listing
-/

structure MaximalRuns (table : Nat -> BitVec 32) (low bound : Nat) (items : List Item) :
    Prop where
  inside : forall i, i ∈ items -> low ≤ i.left ∧ i.left < i.right ∧ i.right ≤ bound
  ascending : items.Pairwise fun i j => i.right ≤ j.left
  covers : forall x, low ≤ x -> x < bound ->
    (present (table x) = true <-> exists i, i ∈ items ∧ i.left ≤ x ∧ x < i.right)
  uniform : forall i, i ∈ items -> forall x, i.left ≤ x -> x < i.right ->
    table x &&& PTE_USER = i.perm
  maximal : items.Pairwise fun i j => i.right = j.left -> i.perm ≠ j.perm

theorem maximalRuns_nil (habsent : forall x, low ≤ x -> x < bound -> present (table x) = false) :
    MaximalRuns table low bound [] := by
  refine ⟨by simp, List.Pairwise.nil, ?_, by simp, List.Pairwise.nil⟩
  intro x hlow hhigh
  rw [habsent x hlow hhigh]
  simp

theorem FirstRun.cons {items : List Item} (h : FirstRun table low bound l r perm)
    (hrest : MaximalRuns table r bound items) :
    MaximalRuns table low bound (⟨l, r, perm⟩ :: items) := by
  have hstart := h.start_le
  have hnonempty := h.nonempty
  have hbound := h.le_bound
  constructor
  · intro i hi
    cases List.mem_cons.mp hi with
    | inl heq =>
        rw [heq]
        exact ⟨hstart, hnonempty, hbound⟩
    | inr hi =>
        have hin := hrest.inside i hi
        exact ⟨by lia, hin.right.left, hin.right.right⟩
  · rw [List.pairwise_cons]
    exact ⟨fun i hi => (hrest.inside i hi).left, hrest.ascending⟩
  · intro x hlow hhigh
    constructor
    · intro hpresent
      by_cases hbefore : x < l
      · rw [h.absent x hlow hbefore] at hpresent
        cases hpresent
      · by_cases hin : x < r
        · exact ⟨_, List.mem_cons_self, by lia, hin⟩
        · rcases (hrest.covers x (by lia) hhigh).mp hpresent with ⟨i, hi, hx⟩
          exact ⟨i, List.mem_cons_of_mem _ hi, hx⟩
    · rintro ⟨i, hi, hx, hx'⟩
      cases List.mem_cons.mp hi with
      | inl heq =>
          rw [heq] at hx hx'
          exact h.present hx hx'
      | inr hi =>
          have hin := hrest.inside i hi
          exact (hrest.covers x (by lia) hhigh).mpr ⟨i, hi, hx, hx'⟩
  · intro i hi x hx hx'
    cases List.mem_cons.mp hi with
    | inl heq =>
        rw [heq] at hx hx' ⊢
        exact h.uniform x hx hx'
    | inr hi => exact hrest.uniform i hi x hx hx'
  · rw [List.pairwise_cons]
    refine ⟨?_, hrest.maximal⟩
    intro i hi htouch heq
    have hin := hrest.inside i hi
    change r = i.left at htouch
    change perm = i.perm at heq
    apply h.maximal (by lia)
    rw [heq, htouch]
    exact hrest.uniform i hi i.left (Nat.le_refl _) hin.right.left

theorem listItems_spec {fuel left : Nat} (hfuel : bound - start < fuel) :
    exists items, listItems table low bound fuel left start = some items ∧
      MaximalRuns table start bound items := by
  induction fuel generalizing left start with
  | zero => cases hfuel
  | succ fuel ih =>
      unfold listItems
      cases @getPgtableItems_cases table bound low left start start with
      | inl hnone =>
          rw [hnone.left]
          exact ⟨[], rfl, maximalRuns_nil hnone.right⟩
      | inr hsome =>
          rcases hsome with ⟨l, r, perm, hrun, hfirst⟩
          have hstart := hfirst.start_le
          have hnonempty := hfirst.nonempty
          have hbound := hfirst.le_bound
          rcases @ih r l (by lia) with ⟨items, hitems, hruns⟩
          refine ⟨⟨l, r, perm⟩ :: items, ?_, hfirst.cons hruns⟩
          rw [hrun]
          simp only [if_neg hfirst.perm_ne_zero]
          rw [hitems]
          rfl

/-- Listing a table from the low end of a range ends, lists the maximal runs in the range,
and stops when no present entry is left. -/
theorem pgtable_items_maximal_runs (table : Nat -> BitVec 32) (low bound left : Nat) :
    (exists fuel items, listItems table low bound fuel left low = some items ∧
      MaximalRuns table low bound items) ∧
    forall left right start,
      (getPgtableItems low bound start table (some left) (some right)).fst = 0#32 <->
        forall x, start ≤ x -> x < bound -> present (table x) = false := by
  refine ⟨⟨bound - low + 1, ?_⟩, getPgtableItems_zero_iff low⟩
  exact listItems_spec (Nat.lt_succ_self _)

/-!
# The directory
-/

def DirectoryLine (vpt : Nat -> BitVec 32) (line : Item × List Item) : Prop :=
  MaximalRuns vpt (line.fst.left * NPTEENTRY) (line.fst.right * NPTEENTRY) line.snd

theorem mapM_lines {vpt : Nat -> BitVec 32} (items : List Item) : exists lines,
    (items.mapM fun item =>
      (listItems vpt (item.left * NPTEENTRY) (item.right * NPTEENTRY)
        (item.right * NPTEENTRY + 1) item.left (item.left * NPTEENTRY)).map fun inner =>
          (item, inner)) = some lines ∧
    lines.map Prod.fst = items ∧ forall line, line ∈ lines -> DirectoryLine vpt line := by
  induction items with
  | nil => exact ⟨[], rfl, rfl, by simp⟩
  | cons item items ih =>
      rcases ih with ⟨lines, hlines, hfst, hall⟩
      rcases @listItems_spec vpt (item.left * NPTEENTRY) (item.right * NPTEENTRY)
        (item.left * NPTEENTRY) (item.right * NPTEENTRY + 1) item.left (by lia) with
        ⟨inner, hinner, hruns⟩
      refine ⟨(item, inner) :: lines, ?_, ?_, ?_⟩
      · rw [List.mapM_cons, hinner, hlines]
        rfl
      · rw [List.map_cons, hfst]
      · intro line hline
        cases List.mem_cons.mp hline with
        | inl heq =>
            rw [heq]
            exact hruns
        | inr hline => exact hall line hline

/-- `print_pgdir` prints the maximal runs of the directory, each with the maximal runs of
its tables. -/
theorem printPgdir_lines (vpd vpt : Nat -> BitVec 32) (left : Nat) :
    exists lines, printPgdir vpd vpt left = some lines ∧
      MaximalRuns vpd 0 NPDEENTRY (lines.map Prod.fst) ∧
      forall line, line ∈ lines -> DirectoryLine vpt line := by
  rcases @listItems_spec vpd 0 NPDEENTRY 0 (NPDEENTRY + 1) left (Nat.lt_succ_self _) with
    ⟨items, hitems, hruns⟩
  rcases @mapM_lines vpt items with ⟨lines, hlines, hfst, hall⟩
  refine ⟨lines, ?_, ?_, hall⟩
  · unfold printPgdir
    rw [hitems, Option.bind_some]
    exact hlines
  · rw [hfst]
    exact hruns

end Memory
end OsLabs
