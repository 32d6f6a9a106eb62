import Mathlib.Tactic.Tauto
import OsLabs.Bbs.Server

/-!
# Nicknames

The scan for an occupied nickname ends at the `max_sn` that `pipe_data` has got so
far, and a connection can get its nickname before `pipe_data` gets its number.
The nicknames stay different exactly in the runs in which no rename meets a
connection beyond the scan that has the same nickname.
-/

namespace OsLabs
namespace Bbs

open Foundation

variable {p : PipeData} {s t : State} {a : Action}

/-- No two named connections have the same nickname, and none has a reserved one. -/
structure NicknamesUnique (p : PipeData) : Prop where
  different : forall i j, i ≠ j -> p.stat i = Stat.normal -> p.stat j = Stat.normal ->
    p.nickname i ≠ p.nickname j
  not_console : forall i, p.stat i = Stat.normal -> p.nickname i ≠ console
  not_anonymous : forall i, p.stat i = Stat.normal -> p.nickname i ≠ anonymous

def Renames (p : PipeData) (sn : Nat) (msgBuf : List Char) : Prop :=
  (p.stat sn = Stat.accepted ∨ p.stat sn = Stat.normal) ∧
    msgBuf.getD 4 nul = '#' ∧ msgBuf.getD 5 nul = '1' ∧
    requestedNickname msgBuf ≠ anonymous ∧ occupied p (requestedNickname msgBuf) = false

/-- If the step is a rename, no other named connection beyond `max_sn` has the
nickname asked for. -/
def ScanCovers (s : State) (a : Action) : Prop :=
  a = Action.pipe -> s.drain = Drain.msg -> forall msgBuf rest sn,
    s.fdMsg = msgBuf :: rest -> frameSn msgBuf = some ((sn : Nat) : Int) ->
    Renames s.pipe sn msgBuf -> forall j, s.pipe.maxSn < j -> j ≠ sn ->
    s.pipe.stat j = Stat.normal -> s.pipe.nickname j ≠ requestedNickname msgBuf

/-- What a client sends is read back by `pipe_data` as sent by this client. -/
def DecodesRight : Action -> Prop
  | Action.recv sn recvBuf => (recvSendFrame sn recvBuf).bind frameSn = some (sn : Int)
  | _ => True

instance : DecidablePred DecodesRight
  | Action.recv sn recvBuf =>
      inferInstanceAs (Decidable ((recvSendFrame sn recvBuf).bind frameSn = some (sn : Int)))
  | Action.main => isTrue trivial
  | Action.forkFails => isTrue trivial
  | Action.send _ _ => isTrue trivial
  | Action.pipe => isTrue trivial
  | Action.stdin _ => isTrue trivial

/-!
# Messages
-/

theorem handleFrom_pipe (p : PipeData) (sn : Nat) (msgBuf : List Char) :
    (handleFrom p sn msgBuf).pipe = p ∨
    (handleFrom p sn msgBuf).pipe =
      { p with stat := Function.update p.stat sn Stat.ended } ∨
    (Renames p sn msgBuf ∧
      (handleFrom p sn msgBuf).pipe = renamed p sn (requestedNickname msgBuf)) := by
  unfold handleFrom
  split
  · exact Or.inl rfl
  · rename_i hstat
    have hserved : p.stat sn = Stat.accepted ∨ p.stat sn = Stat.normal := by tauto
    split
    · exact Or.inl rfl
    · split
      · rename_i hhash
        unfold command
        split
        · exact Or.inr (Or.inl rfl)
        · split
          · rename_i hone
            unfold rename
            dsimp only
            split
            · exact Or.inl rfl
            · rename_i hname
              split
              · exact Or.inl rfl
              · rename_i hfree
                exact Or.inr (Or.inr
                  ⟨⟨hserved, hhash, hone, hname, eq_false_of_ne_true hfree⟩, rfl⟩)
          · split
            · exact Or.inl rfl
            · exact Or.inl rfl
      · split
        · exact Or.inl rfl
        · exact Or.inl rfl

theorem Renames.handleFrom_pipe {sn : Nat} {msgBuf : List Char} (h : Renames p sn msgBuf) :
    (handleFrom p sn msgBuf).pipe = renamed p sn (requestedNickname msgBuf) := by
  rcases h with ⟨hserved, hhash, hone, hname, hfree⟩
  have hstat : ¬ (p.stat sn ≠ Stat.accepted ∧ p.stat sn ≠ Stat.normal) := by tauto
  have hzero : ¬ msgBuf.getD 5 nul = '0' := by
    rw [hone]
    decide
  unfold handleFrom
  rw [if_neg hstat, if_neg (fun hno => hno.right hhash), if_pos hhash]
  unfold command
  rw [if_neg hzero, if_pos hone]
  unfold rename
  simp only [if_neg hname, hfree, Bool.false_eq_true, if_false]

theorem handleStdin_pipe (p : PipeData) (stdinBuf : List Char) :
    (handleStdin p stdinBuf).fst = p ∨
    exists sn, (handleStdin p stdinBuf).fst =
      { p with stat := Function.update p.stat sn Stat.ended } := by
  unfold handleStdin
  split
  · unfold handleTo
    dsimp only
    split
    · split
      · exact Or.inr ⟨_, rfl⟩
      · exact Or.inl rfl
    · exact Or.inl rfl
  · split
    · exact Or.inl rfl
    · exact Or.inl rfl

theorem not_occupied_iff {name : List Char} :
    occupied p name = false <-> forall i, i ≤ p.maxSn -> p.nickname i ≠ name := by
  unfold occupied
  rw [List.any_eq_false]
  constructor
  · intro h i hi heq
    exact h i (List.mem_range.mpr (by lia)) (by simp [heq])
  · intro h i hi
    rw [List.mem_range] at hi
    simpa using h i (by lia)

/-!
# What keeps the nicknames different
-/

def Fewer (p p' : PipeData) : Prop :=
  p'.nickname = p.nickname ∧ forall i, p'.stat i = Stat.normal -> p.stat i = Stat.normal

theorem Fewer.refl (p : PipeData) : Fewer p p :=
  ⟨rfl, fun _ hi => hi⟩

theorem NicknamesUnique.of_fewer {p' : PipeData} (h : NicknamesUnique p) (hfewer : Fewer p p') :
    NicknamesUnique p' := by
  rcases hfewer with ⟨hname, hstat⟩
  constructor
  · intro i j hij hi hj
    rw [hname]
    exact h.different i j hij (hstat i hi) (hstat j hj)
  · intro i hi
    rw [hname]
    exact h.not_console i (hstat i hi)
  · intro i hi
    rw [hname]
    exact h.not_anonymous i (hstat i hi)

theorem fewer_update (p : PipeData) (sn : Nat) {x : Stat} (hx : x ≠ Stat.normal) :
    Fewer p { p with stat := Function.update p.stat sn x } := by
  refine ⟨rfl, ?_⟩
  intro i hi
  change Function.update p.stat sn x i = Stat.normal at hi
  rw [Function.update_apply] at hi
  by_cases hsn : i = sn
  · rw [if_pos hsn] at hi
    exact absurd hi hx
  · rw [if_neg hsn] at hi
    exact hi

theorem NicknamesUnique.renamed (h : NicknamesUnique p) {sn : Nat} {name : List Char}
    (hconsole : name ≠ console) (hanonymous : name ≠ anonymous)
    (hfree : forall j, j ≠ sn -> p.stat j = Stat.normal -> p.nickname j ≠ name) :
    NicknamesUnique (Bbs.renamed p sn name) := by
  have hself : (Bbs.renamed p sn name).nickname sn = name := Function.update_self ..
  have hother : forall j, j ≠ sn -> (Bbs.renamed p sn name).nickname j = p.nickname j :=
    fun j hj => Function.update_of_ne hj _ _
  have hstat : forall j, j ≠ sn -> (Bbs.renamed p sn name).stat j = Stat.normal ->
      p.stat j = Stat.normal := by
    intro j hj hnormal
    rw [← hnormal]
    exact (Function.update_of_ne hj _ _).symm
  constructor
  · intro i j hij hi hj
    by_cases hisn : i = sn
    · have hjsn : j ≠ sn := fun heq => hij (hisn.trans heq.symm)
      rw [hisn, hself, hother j hjsn]
      exact (hfree j hjsn (hstat j hjsn hj)).symm
    · rw [hother i hisn]
      by_cases hjsn : j = sn
      · rw [hjsn, hself]
        exact hfree i hisn (hstat i hisn hi)
      · rw [hother j hjsn]
        exact h.different i j hij (hstat i hisn hi) (hstat j hjsn hj)
  · intro i hi
    by_cases hisn : i = sn
    · rw [hisn, hself]
      exact hconsole
    · rw [hother i hisn]
      exact h.not_console i (hstat i hisn hi)
  · intro i hi
    by_cases hisn : i = sn
    · rw [hisn, hself]
      exact hanonymous
    · rw [hother i hisn]
      exact h.not_anonymous i (hstat i hisn hi)

theorem not_unique_renamed {sn j : Nat} {name : List Char} (hj : j ≠ sn)
    (hstat : p.stat j = Stat.normal) (hname : p.nickname j = name) :
    ¬ NicknamesUnique (Bbs.renamed p sn name) := by
  intro h
  apply h.different j sn hj
  · exact (Function.update_of_ne hj _ _).trans hstat
  · exact Function.update_self ..
  · have hself : (Bbs.renamed p sn name).nickname sn = name := Function.update_self ..
    have hother : (Bbs.renamed p sn name).nickname j = p.nickname j :=
      Function.update_of_ne hj _ _
    rw [hself, hother, hname]

/-!
# The processes together
-/

structure ServerInv (s : State) : Prop where
  console_eq : s.pipe.nickname 0 = console
  connect_pos : 1 ≤ s.connectSn
  connect_le : s.main = MainPc.writeStat ∨ s.main = MainPc.fork ∨ s.main = MainPc.writeMaxSn ->
    s.connectSn ≤ maxConnNum
  children : forall sn, s.child sn = ChildPc.running -> 1 ≤ sn ∧ sn ≤ maxConnNum
  frames : forall msgBuf, msgBuf ∈ s.fdMsg ->
    exists sn : Nat, 1 ≤ sn ∧ sn ≤ maxConnNum ∧ frameSn msgBuf = some (sn : Int)
  stats : forall m, m ∈ s.fdStat -> m.snd = Stat.accepted

theorem initial_inv : ServerInv initialState where
  console_eq := rfl
  connect_pos := Nat.zero_lt_one
  connect_le := by
    intro h
    rcases h with h | h | h
    · cases h
    · cases h
    · cases h
  children := by
    intro sn h
    cases h
  frames := by
    intro msgBuf h
    cases h
  stats := by
    intro m h
    cases h

theorem initial_unique : NicknamesUnique initialState.pipe where
  different := by
    intro i j _ h
    cases h
  not_console := by
    intro i h
    cases h
  not_anonymous := by
    intro i h
    cases h

theorem handleMsg_eq {sn : Nat} {msgBuf : List Char} (hmax : sn ≤ maxConnNum)
    (hsn : frameSn msgBuf = some (sn : Int)) :
    handleMsg p msgBuf = some (handleFrom p sn msgBuf) := by
  unfold handleMsg
  rw [hsn]
  simp only
  rw [if_pos ⟨by lia, by lia⟩, Int.toNat_natCast]

theorem handleFrom_console {sn : Nat} (hpos : 1 ≤ sn) (msgBuf : List Char) :
    (handleFrom p sn msgBuf).pipe.nickname 0 = p.nickname 0 := by
  rcases handleFrom_pipe p sn msgBuf with hpipe | hpipe | ⟨_, hpipe⟩
  · rw [hpipe]
  · rw [hpipe]
  · rw [hpipe]
    have hne : 0 ≠ sn := by lia
    exact Function.update_of_ne hne _ _

theorem ServerInv.main_step (h : ServerInv s) (hstep : mainStep s = some t) : ServerInv t := by
  have hpos := h.connect_pos
  unfold mainStep at hstep
  split at hstep
  · split at hstep
    · cases hstep
      exact { h with connect_le := by simp }
    · rename_i hle
      cases hstep
      exact { h with connect_le := fun _ => not_lt.mp hle }
  · rename_i hmain
    cases hstep
    have hle := h.connect_le (Or.inl hmain)
    refine { h with connect_le := fun _ => hle, stats := ?_ }
    intro m hm
    cases List.mem_append.mp hm with
    | inl hold => exact h.stats m hold
    | inr hnew => rw [List.mem_singleton.mp hnew]
  · rename_i hmain
    cases hstep
    have hle := h.connect_le (Or.inr (Or.inl hmain))
    refine { h with connect_le := fun _ => hle, children := ?_ }
    intro sn hsn
    change Function.update s.child s.connectSn ChildPc.running sn = ChildPc.running at hsn
    by_cases heq : sn = s.connectSn
    · rw [heq]
      exact ⟨hpos, hle⟩
    · rw [Function.update_of_ne heq] at hsn
      exact h.children sn hsn
  · cases hstep
    exact { h with connect_pos := Nat.le_succ_of_le hpos, connect_le := by simp }
  · cases hstep

theorem ServerInv.pipe_step (h : ServerInv s) (hstep : pipeStep s = some t) : ServerInv t := by
  unfold pipeStep at hstep
  split at hstep
  · split at hstep
    · cases hstep
      exact { h with }
    · cases hstep
      exact { h with }
  · split at hstep
    · cases hstep
      exact { h with }
    · rename_i heq
      cases hstep
      refine { h with stats := ?_ }
      intro m hm
      exact h.stats m (by rw [heq]; exact List.mem_cons_of_mem _ hm)
  · split at hstep
    · cases hstep
      exact { h with }
    · rename_i msgBuf rest heq
      rcases h.frames msgBuf (by rw [heq]; exact List.mem_cons_self) with ⟨sn, hpos, hmax, hsn⟩
      rw [handleMsg_eq hmax hsn] at hstep
      cases hstep
      refine { h with console_eq := ?_, frames := ?_ }
      · exact (handleFrom_console hpos msgBuf).trans h.console_eq
      · intro m hm
        exact h.frames m (by rw [heq]; exact List.mem_cons_of_mem _ hm)
  · cases hstep
    exact { h with }

theorem ServerInv.recv_step (h : ServerInv s) {sn : Nat} {recvBuf msgBuf : List Char}
    (hchild : s.child sn = ChildPc.running) (hframe : recvSendFrame sn recvBuf = some msgBuf)
    (hdecode : DecodesRight (Action.recv sn recvBuf)) :
    ServerInv { s with fdMsg := s.fdMsg ++ [msgBuf] } := by
  refine { h with frames := ?_ }
  intro m hm
  cases List.mem_append.mp hm with
  | inl hold => exact h.frames m hold
  | inr hnew =>
      rcases h.children sn hchild with ⟨hpos, hmax⟩
      rcases Option.bind_eq_some_iff.mp hdecode with ⟨msgBuf', hframe', hsn⟩
      rw [hframe] at hframe'
      cases hframe'
      rw [List.mem_singleton.mp hnew]
      exact ⟨sn, hpos, hmax, hsn⟩

theorem ServerInv.step (h : ServerInv s) (hdecode : DecodesRight a)
    (hstep : Bbs.step s a = some t) : ServerInv t := by
  cases a with
  | main => exact h.main_step hstep
  | forkFails =>
      simp only [Bbs.step] at hstep
      split at hstep
      · cases hstep
        exact { h with connect_le := by simp }
      · cases hstep
  | recv sn recvBuf =>
      simp only [Bbs.step] at hstep
      split at hstep
      · rename_i hchild
        rcases Option.map_eq_some_iff.mp hstep with ⟨msgBuf, hframe, ht⟩
        rw [← ht]
        exact h.recv_step hchild hframe hdecode
      · cases hstep
  | send sn ok =>
      simp only [Bbs.step] at hstep
      split at hstep
      · split at hstep
        · cases hstep
        · cases hstep
          refine { h with children := ?_ }
          intro i hi
          cases ok with
          | true => exact h.children i hi
          | false =>
              simp only [Bool.false_eq_true, if_false] at hi
              by_cases heq : i = sn
              · rw [heq, Function.update_self] at hi
                cases hi
              · rw [Function.update_of_ne heq] at hi
                exact h.children i hi
      · cases hstep
  | pipe => exact h.pipe_step hstep
  | stdin stdinBuf =>
      simp only [Bbs.step] at hstep
      split at hstep
      · cases hstep
        refine { h with console_eq := ?_ }
        rcases handleStdin_pipe s.pipe stdinBuf with hpipe | ⟨sn, hpipe⟩
        · simp only [hpipe]
          exact h.console_eq
        · simp only [hpipe]
          exact h.console_eq
      · cases hstep

/-!
# Runs
-/

theorem mainStep_pipe (hstep : mainStep s = some t) : t.pipe = s.pipe := by
  unfold mainStep at hstep
  split at hstep
  · split at hstep
    · cases hstep
      rfl
    · cases hstep
      rfl
  · cases hstep
    rfl
  · cases hstep
    rfl
  · cases hstep
    rfl
  · cases hstep

theorem ServerInv.pipeStep_pipe (h : ServerInv s) (hstep : pipeStep s = some t) :
    Fewer s.pipe t.pipe ∨
    (exists msgBuf rest, exists sn : Nat, s.drain = Drain.msg ∧ s.fdMsg = msgBuf :: rest ∧
      frameSn msgBuf = some (sn : Int) ∧ t.pipe = (handleFrom s.pipe sn msgBuf).pipe) := by
  unfold pipeStep at hstep
  split at hstep
  · left
    split at hstep
    · cases hstep
      exact Fewer.refl _
    · cases hstep
      exact Fewer.refl _
  · left
    split at hstep
    · cases hstep
      exact Fewer.refl _
    · rename_i sn stat rest heq
      cases hstep
      have hstat : stat = Stat.accepted :=
        h.stats (sn, stat) (by rw [heq]; exact List.mem_cons_self)
      apply fewer_update
      rw [hstat]
      decide
  · rename_i hdrain
    split at hstep
    · left
      cases hstep
      exact Fewer.refl _
    · right
      rename_i msgBuf rest heq
      rcases h.frames msgBuf (by rw [heq]; exact List.mem_cons_self) with ⟨sn, _, hmax, hsn⟩
      rw [handleMsg_eq hmax hsn] at hstep
      cases hstep
      exact ⟨msgBuf, rest, sn, hdrain, heq, hsn, rfl⟩
  · left
    cases hstep
    exact Fewer.refl _

theorem ServerInv.step_pipe (h : ServerInv s) (hstep : Bbs.step s a = some t) :
    Fewer s.pipe t.pipe ∨
    (exists msgBuf rest, exists sn : Nat, a = Action.pipe ∧ s.drain = Drain.msg ∧
      s.fdMsg = msgBuf :: rest ∧ frameSn msgBuf = some (sn : Int) ∧
      t.pipe = (handleFrom s.pipe sn msgBuf).pipe) := by
  cases a with
  | main =>
      left
      rw [mainStep_pipe hstep]
      exact Fewer.refl _
  | forkFails =>
      left
      simp only [Bbs.step] at hstep
      split at hstep
      · cases hstep
        exact Fewer.refl _
      · cases hstep
  | recv sn recvBuf =>
      left
      simp only [Bbs.step] at hstep
      split at hstep
      · rcases Option.map_eq_some_iff.mp hstep with ⟨msgBuf, _, ht⟩
        rw [← ht]
        exact Fewer.refl _
      · cases hstep
  | send sn ok =>
      left
      simp only [Bbs.step] at hstep
      split at hstep
      · split at hstep
        · cases hstep
        · cases hstep
          exact Fewer.refl _
      · cases hstep
  | stdin stdinBuf =>
      left
      simp only [Bbs.step] at hstep
      split at hstep
      · cases hstep
        rcases handleStdin_pipe s.pipe stdinBuf with hpipe | ⟨sn, hpipe⟩
        · simp only [hpipe]
          exact Fewer.refl _
        · simp only [hpipe]
          exact fewer_update _ _ (by decide)
      · cases hstep
  | pipe =>
      cases h.pipeStep_pipe hstep with
      | inl hfewer => exact Or.inl hfewer
      | inr hmsg =>
          rcases hmsg with ⟨msgBuf, rest, sn, hdrain, heq, hsn, ht⟩
          exact Or.inr ⟨msgBuf, rest, sn, rfl, hdrain, heq, hsn, ht⟩

theorem ServerInv.unique_step (h : ServerInv s) (hunique : NicknamesUnique s.pipe)
    (hcovers : ScanCovers s a) (hstep : Bbs.step s a = some t) : NicknamesUnique t.pipe := by
  rcases h.step_pipe hstep with hfewer | ⟨msgBuf, rest, sn, ha, hdrain, hmsg, hsn, ht⟩
  · exact hunique.of_fewer hfewer
  · rw [ht]
    rcases handleFrom_pipe s.pipe sn msgBuf with hpipe | hpipe | ⟨hrenames, hpipe⟩
    · rw [hpipe]
      exact hunique
    · rw [hpipe]
      exact hunique.of_fewer (fewer_update _ _ (by decide))
    · rw [hpipe]
      have hscan := not_occupied_iff.mp hrenames.right.right.right.right
      apply hunique.renamed
      · intro heq
        exact hscan 0 (Nat.zero_le _) (h.console_eq.trans heq.symm)
      · exact hrenames.right.right.right.left
      · intro j hj hnormal
        by_cases hle : j ≤ s.pipe.maxSn
        · exact hscan j hle
        · exact hcovers ha hdrain msgBuf rest sn hmsg hsn hrenames j (by lia) hj hnormal

/-- A rename that the scan does not cover leaves two connections with one nickname. -/
theorem ServerInv.covers_of_unique (h : ServerInv s) (hstep : Bbs.step s a = some t)
    (hunique : NicknamesUnique t.pipe) : ScanCovers s a := by
  intro ha hdrain msgBuf rest sn hmsg hsn hrenames j _ hj hnormal heq
  subst ha
  rcases h.frames msgBuf (by rw [hmsg]; exact List.mem_cons_self) with ⟨sn', _, hmax, hsn'⟩
  have hsame : sn' = sn := by
    rw [hsn] at hsn'
    have hcast := Option.some.inj hsn'
    lia
  subst hsame
  simp only [Bbs.step, pipeStep, hdrain, hmsg, handleMsg_eq hmax hsn] at hstep
  cases hstep
  change NicknamesUnique (handleFrom s.pipe sn' msgBuf).pipe at hunique
  rw [hrenames.handleFrom_pipe] at hunique
  exact not_unique_renamed hj hnormal heq hunique

/-- The nicknames stay different throughout a run exactly if every rename is
covered by the scan. -/
theorem ServerInv.run_iff {as : List Action} (h : ServerInv s)
    (hunique : NicknamesUnique s.pipe) (hdecode : forall a, a ∈ as -> DecodesRight a)
    (hrun : System.execAll Bbs.step s as = some t) :
    (forall bs u, bs <+: as -> System.execAll Bbs.step s bs = some u ->
      NicknamesUnique u.pipe) <->
    System.ExecMeets Bbs.step ScanCovers s as := by
  induction as generalizing s with
  | nil =>
      rw [System.forall_prefix_nil]
      exact ⟨fun _ => trivial, fun _ => hunique⟩
  | cons a as ih =>
      rcases Option.bind_eq_some_iff.mp hrun with ⟨v, hstep, hrest⟩
      have hv := h.step (hdecode a List.mem_cons_self) hstep
      have htail : forall b, b ∈ as -> DecodesRight b :=
        fun b hb => hdecode b (List.mem_cons_of_mem a hb)
      rw [System.forall_prefix_cons]
      constructor
      · rintro ⟨_, hall⟩
        have hafter : NicknamesUnique v.pipe := hall v hstep [] v List.nil_prefix rfl
        refine ⟨h.covers_of_unique hstep hafter, ?_⟩
        intro w hw
        rw [hstep] at hw
        cases hw
        exact (ih hv hafter htail hrest).mp (hall v hstep)
      · intro hmeets
        refine ⟨hunique, ?_⟩
        intro w hw
        rw [hstep] at hw
        cases hw
        have hafter := h.unique_step hunique hmeets.left hstep
        exact (ih hv hafter htail hrest).mpr (hmeets.right v hstep)

theorem nicknames_unique_exact {as : List Action} (hdecode : forall a, a ∈ as -> DecodesRight a)
    (hrun : System.execAll step initialState as = some t) :
    (forall bs u, bs <+: as -> System.execAll step initialState bs = some u ->
      NicknamesUnique u.pipe) <->
    System.ExecMeets step ScanCovers initialState as :=
  initial_inv.run_iff initial_unique hdecode hrun

/-- A connection is accepted and its process created; `max_sn` is not sent yet. -/
def connect : List Action :=
  [Action.main, Action.main, Action.main]

def askForBob (sn : Nat) : Action :=
  Action.recv sn ['#', '1', 'b', 'o', 'b', nul]

def askForAmy (sn : Nat) : Action :=
  Action.recv sn ['#', '1', 'a', 'm', 'y', nul]

/-- Two clients get nicknames; the second one first asks for that of the first. -/
def twoClients : List Action :=
  connect ++ [Action.main] ++ connect ++ [Action.main, askForBob 1, askForBob 2, askForAmy 2] ++
    List.replicate 9 Action.pipe

theorem nicknames_unique_exact_two_clients :
    exists t, System.execAll step initialState twoClients = some t ∧
      t.pipe.stat 1 = Stat.normal ∧ t.pipe.nickname 1 = ['b', 'o', 'b'] ∧
      t.pipe.stat 2 = Stat.normal ∧ t.pipe.nickname 2 = ['a', 'm', 'y'] ∧
      ((forall bs u, bs <+: twoClients -> System.execAll step initialState bs = some u ->
        NicknamesUnique u.pipe) <->
      System.ExecMeets step ScanCovers initialState twoClients) := by
  have hend : (System.execAll step initialState twoClients).map
      (fun t => (t.pipe.stat 1, t.pipe.nickname 1, t.pipe.stat 2, t.pipe.nickname 2)) =
      some (Stat.normal, ['b', 'o', 'b'], Stat.normal, ['a', 'm', 'y']) := by decide +kernel
  rcases Option.map_eq_some_iff.mp hend with ⟨t, hrun, hvalues⟩
  simp only [Prod.mk.injEq] at hvalues
  rcases hvalues with ⟨hone, hbob, htwo, hamy⟩
  have hdecode : forall a, a ∈ twoClients -> DecodesRight a := by decide +kernel
  exact ⟨t, hrun, hone, hbob, htwo, hamy, nicknames_unique_exact hdecode hrun⟩

/-- Two clients ask for the same nickname before `pipe_data` gets the number of the
second. -/
def race : List Action :=
  connect ++ [Action.main] ++ connect ++ List.replicate 5 Action.pipe ++
    [askForBob 2, askForBob 1, Action.pipe, Action.pipe]

theorem nickname_taken_twice :
    exists t, System.execAll step initialState race = some t ∧
      (forall a, a ∈ race -> DecodesRight a) ∧
      t.pipe.stat 1 = Stat.normal ∧ t.pipe.stat 2 = Stat.normal ∧
      t.pipe.nickname 1 = t.pipe.nickname 2 ∧ ¬ NicknamesUnique t.pipe := by
  have hend : (System.execAll step initialState race).map
      (fun t => (t.pipe.stat 1, t.pipe.stat 2, t.pipe.nickname 1, t.pipe.nickname 2)) =
      some (Stat.normal, Stat.normal, ['b', 'o', 'b'], ['b', 'o', 'b']) := by decide +kernel
  rcases Option.map_eq_some_iff.mp hend with ⟨t, hrun, hvalues⟩
  simp only [Prod.mk.injEq] at hvalues
  rcases hvalues with ⟨hone, htwo, hname1, hname2⟩
  have hdecode : forall a, a ∈ race -> DecodesRight a := by decide +kernel
  refine ⟨t, hrun, hdecode, hone, htwo, hname1.trans hname2.symm, ?_⟩
  intro hunique
  exact hunique.different 1 2 (by decide) hone htwo (hname1.trans hname2.symm)

end Bbs
end OsLabs
