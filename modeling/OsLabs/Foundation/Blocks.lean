import Mathlib.Data.List.Pairwise
import Mathlib.Data.Set.Lattice
import Mathlib.Order.CompletePartialOrder
import Mathlib.Order.Interval.Set.Basic

/-!
# Families of blocks

A block is a run of consecutive numbers given by its head and its size.  This
module is about finite families of blocks: what they cover, when they are
separated, and when a family lists exactly the maximal runs of the set it
covers.
-/

namespace OsLabs
namespace Foundation

structure Block where
  head : Nat
  size : Nat
deriving DecidableEq, Repr

namespace Block

def stop (b : Block) : Nat := b.head + b.size

def span (b : Block) : Set Nat := Set.Ico b.head b.stop

@[simp] theorem stop_mk (h n : Nat) : (Block.mk h n).stop = h + n := rfl

theorem stop_eq (b : Block) : b.stop = b.head + b.size := rfl

@[simp] theorem mem_span {b : Block} {p : Nat} :
    p ∈ b.span <-> b.head ≤ p ∧ p < b.stop := Iff.rfl

def Apart (b c : Block) : Prop := b.stop ≤ c.head ∨ c.stop ≤ b.head

theorem Apart.symm {b c : Block} (h : Apart b c) : Apart c b := Or.symm h

instance : Std.Symm Apart where
  symm _ _ h := h.symm

theorem Apart.disjoint {b c : Block} (h : Apart b c) : Disjoint b.span c.span := by
  rw [Set.disjoint_left]
  intro p hb hc
  rw [mem_span] at hb hc
  rcases h with h | h
  · lia
  · lia

theorem apart_of_disjoint {b c : Block} (hb : 0 < b.size) (hc : 0 < c.size)
    (h : Disjoint b.span c.span) : Apart b c := by
  rw [Set.disjoint_left] at h
  unfold Apart
  by_contra hnot
  have hmax : max b.head c.head ∈ b.span := by
    rw [mem_span]
    unfold stop at *
    lia
  apply h hmax
  rw [mem_span]
  unfold stop at *
  lia

end Block

open Block

/-!
# Covers
-/

/-- The numbers that lie in some block of the family. -/
def cover (bs : List Block) : Set Nat := fun p => exists b, b ∈ bs ∧ p ∈ b.span

theorem mem_cover {bs : List Block} {p : Nat} :
    p ∈ cover bs <-> exists b, b ∈ bs ∧ p ∈ b.span := Iff.rfl

@[simp] theorem cover_nil : cover [] = ∅ := by
  ext p
  simp [mem_cover]

@[simp] theorem cover_cons (b : Block) (bs : List Block) :
    cover (b :: bs) = b.span ∪ cover bs := by
  ext p
  simp [mem_cover]

@[simp] theorem cover_append (bs cs : List Block) :
    cover (bs ++ cs) = cover bs ∪ cover cs := by
  induction bs with
  | nil => simp
  | cons b bs ih => simp [ih, Set.union_assoc]

theorem cover_perm {bs cs : List Block} (h : bs.Perm cs) : cover bs = cover cs := by
  ext p
  simp [mem_cover, h.mem_iff]

/-!
# Separated families
-/

/-- No block is empty and no two blocks overlap. -/
structure Separated (bs : List Block) : Prop where
  size_pos : forall b, b ∈ bs -> 0 < b.size
  apart : bs.Pairwise Apart

theorem separated_nil : Separated [] where
  size_pos := by simp
  apart := List.Pairwise.nil

theorem separated_cons {b : Block} {bs : List Block} :
    Separated (b :: bs) <->
      0 < b.size ∧ (forall c, c ∈ bs -> Apart b c) ∧ Separated bs := by
  constructor
  · intro h
    rcases List.pairwise_cons.mp h.apart with ⟨hhead, htail⟩
    exact ⟨h.size_pos b (by simp), hhead,
      ⟨fun c hc => h.size_pos c (by simp [hc]), htail⟩⟩
  · rintro ⟨hpos, hhead, htail⟩
    constructor
    · intro c hc
      rcases List.mem_cons.mp hc with rfl | hc
      · exact hpos
      · exact htail.size_pos c hc
    · exact List.pairwise_cons.mpr ⟨hhead, htail.apart⟩

theorem Separated.perm {bs cs : List Block} (h : Separated bs) (hp : bs.Perm cs) :
    Separated cs where
  size_pos b hb := h.size_pos b (hp.mem_iff.mpr hb)
  apart := (hp.pairwise_iff (fun hab => hab.symm)).mp h.apart

theorem Separated.sublist {bs cs : List Block} (h : Separated bs) (hsub : cs.Sublist bs) :
    Separated cs where
  size_pos b hb := h.size_pos b (hsub.subset hb)
  apart := h.apart.sublist hsub

theorem Separated.drop_second {b c : Block} {bs : List Block} (h : Separated (b :: c :: bs)) :
    Separated (b :: bs) :=
  h.sublist (List.Sublist.cons_cons b (List.sublist_cons_self c bs))

theorem Separated.disjoint_cover {b : Block} {bs : List Block} (h : Separated (b :: bs)) :
    Disjoint b.span (cover bs) := by
  rw [Set.disjoint_left]
  rintro p hb ⟨c, hc, hpc⟩
  have hapart := (separated_cons.mp h).right.left c hc
  exact Set.disjoint_left.mp hapart.disjoint hb hpc

theorem Separated.cons_of_disjoint {b : Block} {bs : List Block} (h : Separated bs)
    (hb : 0 < b.size) (hout : Disjoint b.span (cover bs)) : Separated (b :: bs) := by
  rw [separated_cons]
  refine ⟨hb, ?_, h⟩
  intro c hc
  have hsub : c.span ⊆ cover bs := fun p hp => ⟨c, hc, hp⟩
  exact apart_of_disjoint hb (h.size_pos c hc) (hout.mono_right hsub)

theorem Separated.apart_of_ne {bs : List Block} (h : Separated bs) {b c : Block}
    (hb : b ∈ bs) (hc : c ∈ bs) (hne : b ≠ c) : Apart b c :=
  h.apart.forall hb hc hne

theorem Separated.eq_of_mem_span {bs : List Block} (h : Separated bs) {b c : Block}
    {p : Nat} (hb : b ∈ bs) (hc : c ∈ bs) (hpb : p ∈ b.span) (hpc : p ∈ c.span) :
    b = c := by
  by_contra hne
  exact Set.disjoint_left.mp (h.apart_of_ne hb hc hne).disjoint hpb hpc

theorem Separated.head_mem_span {bs : List Block} (h : Separated bs) {b : Block}
    (hb : b ∈ bs) : b.head ∈ b.span := by
  have hpos := h.size_pos b hb
  rw [mem_span]
  unfold stop
  lia

theorem Separated.nodup_heads {bs : List Block} (h : Separated bs) :
    (bs.map Block.head).Nodup := by
  rw [List.Nodup, List.pairwise_map]
  apply h.apart.imp_of_mem
  intro b c hb hc hapart heq
  have hbpos := h.size_pos b hb
  have hcpos := h.size_pos c hc
  unfold Apart stop at hapart
  lia

/-!
# Joining two blocks

A block that ends where another begins can be joined with it.
-/

def Block.join (b c : Block) : Block := Block.mk b.head (b.size + c.size)

@[simp] theorem join_head (b c : Block) : (b.join c).head = b.head := rfl

@[simp] theorem join_size (b c : Block) : (b.join c).size = b.size + c.size := rfl

theorem join_stop {b c : Block} (h : b.stop = c.head) : (b.join c).stop = c.stop := by
  simp only [stop_eq, join_head, join_size] at h ⊢
  lia

theorem join_span {b c : Block} (h : b.stop = c.head) :
    (b.join c).span = b.span ∪ c.span := by
  ext p
  simp only [Set.mem_union, mem_span, join_stop h, join_head]
  simp only [stop_eq] at h ⊢
  lia

theorem Separated.join {b c : Block} {bs : List Block}
    (hsep : Separated (b :: c :: bs)) (h : b.stop = c.head) :
    Separated (b.join c :: bs) := by
  rcases separated_cons.mp hsep with ⟨hb, hbApart, hcs⟩
  rcases separated_cons.mp hcs with ⟨hc, hcApart, hbs⟩
  rw [separated_cons]
  refine ⟨by rw [join_size]; lia, ?_, hbs⟩
  intro d hd
  have hbd := hbApart d (List.mem_cons_of_mem c hd)
  have hcd := hcApart d hd
  have hdpos := hbs.size_pos d hd
  unfold Apart at hbd hcd ⊢
  rw [join_stop h, join_head]
  simp only [stop_eq] at h hbd hcd ⊢
  lia

/-!
# Maximal runs
-/

/-- `b` is a run of consecutive elements of `F` that cannot be extended. -/
structure MaximalRun (F : Set Nat) (b : Block) : Prop where
  size_pos : 0 < b.size
  subset : b.span ⊆ F
  stop_not_mem : b.stop ∉ F
  pred_not_mem : forall p, p + 1 = b.head -> p ∉ F

theorem MaximalRun.head_le {F : Set Nat} {b c : Block} {p : Nat}
    (hb : MaximalRun F b) (hc : MaximalRun F c)
    (hpb : p ∈ b.span) (hpc : p ∈ c.span) : b.head ≤ c.head := by
  by_contra hlt
  have hpred : b.head - 1 ∈ c.span := by
    rw [mem_span] at hpb hpc ⊢
    lia
  exact hb.pred_not_mem (b.head - 1) (by lia) (hc.subset hpred)

theorem MaximalRun.stop_le {F : Set Nat} {b c : Block} {p : Nat}
    (hb : MaximalRun F b) (hc : MaximalRun F c)
    (hpb : p ∈ b.span) (hpc : p ∈ c.span) : c.stop ≤ b.stop := by
  by_contra hlt
  have hnext : b.stop ∈ c.span := by
    rw [mem_span] at hpb hpc ⊢
    lia
  exact hb.stop_not_mem (hc.subset hnext)

theorem MaximalRun.eq_of_mem_span {F : Set Nat} {b c : Block} {p : Nat}
    (hb : MaximalRun F b) (hc : MaximalRun F c)
    (hpb : p ∈ b.span) (hpc : p ∈ c.span) : b = c := by
  have hhead : b.head = c.head :=
    Nat.le_antisymm (hb.head_le hc hpb hpc) (hc.head_le hb hpc hpb)
  have hstop : b.stop = c.stop :=
    Nat.le_antisymm (hc.stop_le hb hpc hpb) (hb.stop_le hc hpb hpc)
  cases b with
  | mk bh bn =>
      cases c with
      | mk ch cn =>
          simp only [stop_mk] at hhead hstop
          subst hhead
          congr 1
          lia

/-- No block of the family begins where another one ends. -/
def Coalesced (bs : List Block) : Prop :=
  forall b, b ∈ bs -> forall c, c ∈ bs -> b.stop ≠ c.head

theorem Coalesced.perm {bs cs : List Block} (h : Coalesced bs) (hp : bs.Perm cs) :
    Coalesced cs := by
  intro b hb c hc
  exact h b (hp.mem_iff.mpr hb) c (hp.mem_iff.mpr hc)

theorem Separated.maximalRun {bs : List Block} (h : Separated bs)
    (hco : Coalesced bs) {b : Block} (hb : b ∈ bs) :
    MaximalRun (cover bs) b where
  size_pos := h.size_pos b hb
  subset := fun p hp => ⟨b, hb, hp⟩
  stop_not_mem := by
    rintro ⟨c, hc, hspan⟩
    have hne : b ≠ c := by
      rintro rfl
      exact absurd hspan.right (Nat.lt_irrefl _)
    have htouch := hco b hb c hc
    rw [mem_span] at hspan
    have hpos := h.size_pos b hb
    rcases h.apart_of_ne hb hc hne with hbc | hcb
    · lia
    · unfold stop at *
      lia
  pred_not_mem := by
    rintro p hp ⟨c, hc, hspan⟩
    have hne : b ≠ c := by
      rintro rfl
      rw [mem_span] at hspan
      lia
    have htouch := hco c hc b hb
    rw [mem_span] at hspan
    have hpos := h.size_pos b hb
    rcases h.apart_of_ne hb hc hne with hbc | hcb
    · unfold stop at *
      lia
    · lia

theorem Separated.run_inside {bs : List Block} (h : Separated bs) (hco : Coalesced bs)
    {r : Block} (hpos : 0 < r.size) (hsub : r.span ⊆ cover bs) :
    exists b, b ∈ bs ∧ r.span ⊆ b.span := by
  have hhead : r.head ∈ r.span := by
    rw [mem_span]
    unfold stop
    lia
  rcases hsub hhead with ⟨b, hb, hspan⟩
  have hstop : r.stop ≤ b.stop := by
    by_contra hlt
    apply (h.maximalRun hco hb).stop_not_mem
    apply hsub
    rw [mem_span] at hspan ⊢
    lia
  refine ⟨b, hb, ?_⟩
  intro p hp
  rw [mem_span] at hspan hp ⊢
  lia

/-- A separated family without touching blocks is the set of maximal runs. -/
theorem Separated.mem_iff_maximalRun {bs : List Block} (h : Separated bs)
    (hco : Coalesced bs) (b : Block) :
    b ∈ bs <-> MaximalRun (cover bs) b := by
  constructor
  · intro hb
    exact h.maximalRun hco hb
  · intro hrun
    have hhead : b.head ∈ b.span := by
      have hpos := hrun.size_pos
      rw [mem_span]
      unfold stop
      lia
    rcases hrun.subset hhead with ⟨c, hc, hspan⟩
    have heq : b = c :=
      hrun.eq_of_mem_span (h.maximalRun hco hc) hhead hspan
    rw [heq]
    exact hc

/-!
# Blocks in order
-/

structure Spaced (bs : List Block) : Prop where
  size_pos : forall b, b ∈ bs -> 0 < b.size
  gaps : bs.Pairwise fun b c => b.stop < c.head

theorem spaced_nil : Spaced [] where
  size_pos := by simp
  gaps := List.Pairwise.nil

theorem Spaced.cons {b : Block} {bs : List Block} (h : Spaced bs) (hpos : 0 < b.size)
    (hgap : forall c, c ∈ bs -> b.stop < c.head) : Spaced (b :: bs) where
  size_pos := by
    intro c hc
    cases List.mem_cons.mp hc with
    | inl heq => exact heq ▸ hpos
    | inr hin => exact h.size_pos c hin
  gaps := List.pairwise_cons.mpr ⟨hgap, h.gaps⟩

theorem Spaced.separated {bs : List Block} (h : Spaced bs) : Separated bs where
  size_pos := h.size_pos
  apart := h.gaps.imp fun hgap => Or.inl hgap.le

theorem Spaced.coalesced {bs : List Block} (h : Spaced bs) : Coalesced bs := by
  intro b hb c hc
  have hbpos := h.size_pos b hb
  have hcpos := h.size_pos c hc
  by_cases hbc : b = c
  · rw [hbc, stop_eq]
    lia
  · have hgaps : bs.Pairwise fun b c => b.stop < c.head ∨ c.stop < b.head :=
      h.gaps.imp Or.inl
    have hsymm : Std.Symm fun b c : Block => b.stop < c.head ∨ c.stop < b.head :=
      ⟨fun _ _ hor => hor.symm⟩
    cases hgaps.forall hb hc hbc with
    | inl hlt => exact hlt.ne
    | inr hlt =>
        rw [stop_eq] at hlt ⊢
        lia

theorem Spaced.mem_iff_maximalRun {bs : List Block} (h : Spaced bs) (b : Block) :
    b ∈ bs <-> MaximalRun (cover bs) b :=
  h.separated.mem_iff_maximalRun h.coalesced b

end Foundation
end OsLabs
