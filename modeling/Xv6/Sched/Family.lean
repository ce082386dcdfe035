import Mathlib.Logic.Relation
import Xv6.Sched.Sequential

/-!
# Parents, kernel stacks and page directories

What `fork`, `exit` and `wait` know about the slots they work on: who the parent is and what has been
allocated. A slot that is set up or freed is touched by its owner only, the parent of a process is
changed by the parent only, and a process that is a `ZOMBIE` has given away all its children.
-/

namespace Xv6.Sched

open Machine Option

variable {s s' u : State} {c d : CpuId} {p q r A B : Slot} {t : Thread} {a : Act} {m : Main}
  {v : PState} {x y : Proc} {i i' : Intr} {w : Option Slot}

/-! ### What a slot has -/

structure Has (x : Proc) (parent : Option Slot) (kstack pgdir : Bool) : Prop where
  parent : x.parent = parent
  kstack : x.kstack = kstack
  pgdir : x.pgdir = pgdir

/-- The slots below `i` are not children of `A`. -/
def NoKids (s : State) (A : Slot) (i : Nat) : Prop :=
  ∀ j : Slot, j.val < i → (s.slot j).parent ≠ some A

/-- What process `A` knows in its outermost function. -/
def Main.Family (s : State) (A : Slot) : Main → Prop
  | .allocFound np | .pidOld np | .pidNew np _ | .pidNext np _ _ | .pidCas np _ _ _ | .setPid np _
  | .allocStack np | .allocDrop np | .forkDrop np => Has (s.slot np) none false false
  | .copyuvm np | .forkFree np => Has (s.slot np) none true false
  | .forkParent np => Has (s.slot np) none true true
  | .forkPid np | .forkPush np _ | .forkRun np _ | .waitPid np =>
    Has (s.slot np) (some A) true true
  | .waitFree q pid => Has (s.slot q) (some A) true true ∧ (s.slot q).pid = pid
  | .waitFreevm q pid => Has (s.slot q) (some A) false true ∧ (s.slot q).pid = pid
  | .waitClearPid q pid => Has (s.slot q) (some A) false false ∧ (s.slot q).pid = pid
  | .waitClearParent q _ => Has (s.slot q) (some A) false false ∧ (s.slot q).pid = 0
  | .waitClearKilled q _ | .waitUnused q _ =>
    Has (s.slot q) none false false ∧ (s.slot q).pid = 0
  | .waitNeg q | .waitZombie q | .waitReap q => (s.slot q).parent = some A
  | .exitClose | .exitPush | .exitCas | .exitParent | .exitWoke _ => A ≠ initproc
  | .exitLoop _ i => A ≠ initproc ∧ NoKids s A i.val
  | .exitGive _ i => A ≠ initproc ∧ NoKids s A i.val ∧ (s.slot i).parent = some A
  | .exitZombie _ i | .exitNegZombie _ i | .exitAgain _ i =>
    A ≠ initproc ∧ NoKids s A (i.val + 1)
  | .exitSched _ | .zombieExit _ => A ≠ initproc ∧ NoKids s A NPROC
  | _ => True

/-- A slot agrees with its state. -/
structure SlotOk (x : Proc) : Prop where
  free : x.state.stage = .free → Has x none false false
  live : x.state.stage = .live → x.kstack = true ∧ x.pgdir = true

/-- Two slots with the same parent, pid and memory. -/
structure SameKin (x y : Proc) : Prop where
  parent : y.parent = x.parent
  pid : y.pid = x.pid
  kstack : y.kstack = x.kstack
  pgdir : y.pgdir = x.pgdir

lemma SameKin.has {k g : Bool} (h : SameKin x y) (hx : Has x w k g) : Has y w k g :=
  ⟨h.parent.trans hx.parent, h.kstack.trans hx.kstack, h.pgdir.trans hx.pgdir⟩

lemma NoKids.of_new {n : Nat} (h : NoKids s A n)
    (hnew : ∀ q, (s'.slot q).parent = some A → (s.slot q).parent = some A) : NoKids s' A n :=
  fun j hj hparent => h j hj (hnew j hparent)

/-- What a process knows stays true while its own slot, its children and the slots that are not its
    children stay so. -/
lemma Main.Family.congr (h : m.Family s A)
    (hown : ∀ q v, m.owns = some (q, v) → SameKin (s.slot q) (s'.slot q))
    (hchild : ∀ q, (s.slot q).parent = some A → (s'.slot q).parent = some A)
    (hnew : A ≠ initproc → ∀ q, (s'.slot q).parent = some A → (s.slot q).parent = some A) :
    m.Family s' A := by
  cases m with
  | allocFound | pidOld | pidNew | pidNext | pidCas | setPid | allocStack | allocDrop | forkDrop
  | copyuvm | forkFree | forkParent | forkPid | forkPush | forkRun | waitPid => exact (hown _ _ rfl).has h
  | waitFree q pid | waitFreevm q pid | waitClearPid q pid | waitClearParent q pid
  | waitClearKilled q pid | waitUnused q pid =>
    exact ⟨(hown _ _ rfl).has h.1, (hown _ _ rfl).pid.trans h.2⟩
  | waitNeg q | waitZombie q | waitReap q => exact hchild q h
  | exitClose | exitPush | exitCas | exitParent | exitWoke => exact h
  | exitLoop | exitZombie | exitNegZombie | exitAgain | exitSched | zombieExit =>
    exact ⟨h.1, h.2.of_new (hnew h.1)⟩
  | exitGive w j => exact ⟨h.1, h.2.1.of_new (hnew h.1), hchild j h.2.2⟩
  | _ => trivial

/-- A slot that `A` sets up or frees has no other parent. -/
lemma Main.Family.parent_of_owns (h : m.Family s A) (howns : m.owns = some (q, v)) :
    (s.slot q).parent = none ∨ (s.slot q).parent = some A := by
  cases m with
  | allocFound | pidOld | pidNew | pidNext | pidCas | setPid | allocStack | allocDrop | forkDrop
  | copyuvm | forkFree | forkParent =>
    cases howns
    exact .inl h.parent
  | forkPid | forkPush | forkRun | waitPid =>
    cases howns
    exact .inr h.parent
  | waitFree | waitFreevm | waitClearPid | waitClearParent =>
    cases howns
    exact .inr h.1.parent
  | waitClearKilled | waitUnused =>
    cases howns
    exact .inl h.1.parent
  | _ => cases howns

/-! ### What a step of the outermost function does -/

/-- An act that changes no parent, pid or memory, and sets up no stack. -/
def Act.keepsKin : Act → Bool
  | .none | .state .. | .chan .. | .killed .. | .nextpid _ | .lock .. => true
  | _ => false

lemma Act.sameKin (h : a.keepsKin = true) (q : Slot) : SameKin (s.slot q) ((a.apply s).slot q) := by
  rw [a.slot_apply]
  split_ifs
  · cases a with
    | none | state | chan | killed | nextpid | lock => exact ⟨rfl, rfl, rfl, rfl⟩
    | _ => cases h
  · exact ⟨rfl, rfl, rfl, rfl⟩

/-- What a step of `A` in `m` changes in the family of slots. -/
inductive KinAct (s : State) (A : Slot) (m : Main) : Act → Prop
  | keep (a : Act) (h : a.keepsKin = true) : KinAct s A m a
  | own (a : Act) (q : Slot) (v : PState) (howns : m.owns = some (q, v)) (htarget : a.target = some q)
      (hstate : ∀ v, a ≠ .state q v)
      (hw : ∀ w, a = .parent q w → w = none ∨ w = some A ∧ (s.slot q).parent = none) :
      KinAct s A m a
  | give (q : Slot) (h : (s.slot q).parent = some A) : KinAct s A m (.parent q (some initproc))

/-- How a step of `A` to the calls `t` changes the state of slot `q`, which is `x`. -/
inductive StateAct (A : Slot) (t : Thread) (q : Slot) (x : Proc) : PState → Prop
  | alloc (hold : x.state = .unused) : StateAct A t q x .embryo
  | start (hold : x.state = .embryo) (h : Has x (some A) true true) : StateAct A t q x .runnable
  | reap (hold : x.state = .zombie) : StateAct A t q x .negUnused
  | free (hold : x.state.stage ≠ .live) (h : Has x none false false)
      (hpid : x.state = .negUnused → x.pid = 0) : StateAct A t q x .unused
  | turn (v : PState) (hold : x.state.stage = .live) (hv : v.stage = .live)
      (hdying : v.dying = true → q = A ∧ t.main.inExit = true) : StateAct A t q x v

/-- Memory that is allocated or freed for a slot: its kernel stack or its page directory. -/
inductive Event
  | stackMade (q : Slot)
  | stackFreed (q : Slot)
  | dirMade (q : Slot)
  | dirFreed (q : Slot)
  deriving DecidableEq

/-- What happens to memory in a step from `m` to `n`. -/
def Main.event (m n : Main) : Option Event :=
  match m with
  | .allocStack np => if n = .copyuvm np then some (.stackMade np) else none
  | .copyuvm np => if n = .forkParent np then some (.dirMade np) else none
  | .forkFree np => if n = .forkDrop np then some (.stackFreed np) else none
  | .waitFree q pid => if n = .waitFreevm q pid then some (.stackFreed q) else none
  | .waitFreevm q pid => if n = .waitClearPid q pid then some (.dirFreed q) else none
  | _ => none

def Act.event : Act → Option Event
  | .stack q => some (.stackMade q)
  | .free q => some (.stackFreed q)
  | .pgdir q true => some (.dirMade q)
  | .pgdir q false => some (.dirFreed q)
  | _ => Option.none

structure MainFamily (s : State) (A : Slot) (m : Main) (t : Thread) (a : Act) : Prop where
  next : t.main.Family (a.apply s) A
  act : KinAct s A m a
  state : ∀ q v, a = .state q v → StateAct A t q (s.slot q) v
  event : a.event = m.event t.main ∨
    ∃ q, a = .pgdir q false ∧ (s.slot q).pgdir = false ∧ m.event t.main = none

lemma slot_apply_target (h : a.target = some q) : (a.apply s).slot q = a.update (s.slot q) := by
  rw [a.slot_apply, if_pos h]

/-- A step that changes no slot. -/
lemma MainFamily.quiet (h : t.main.Family s A) (ha : a.target = none)
    (hm : m.event t.main = none) : MainFamily s A m t a := by
  have hkeeps : a.keepsKin = true := by cases a <;> first | rfl | cases ha
  have hevent : a.event = none := by cases a <;> first | rfl | cases ha
  refine ⟨?_, .keep a hkeeps, ?_, .inl (hevent.trans hm.symm)⟩
  · refine h.congr (fun q _ _ => Act.sameKin hkeeps q) (fun q hq => ?_) fun _ q hq => ?_
    · rwa [(Act.sameKin hkeeps q).parent]
    · rwa [(Act.sameKin hkeeps q).parent] at hq
  · rintro q v rfl
    cases ha

/-- A step that changes the state of slot `q` only. -/
lemma MainFamily.of_state (h : t.main.Family s A) (hact : StateAct A t q (s.slot q) v)
    (hm : m.event t.main = none) : MainFamily s A m t (.state q v) := by
  have hkin : ∀ r, SameKin (s.slot r) (((Act.state q v).apply s).slot r) := Act.sameKin rfl
  refine ⟨?_, .keep _ rfl, ?_, .inl hm.symm⟩
  · refine h.congr (fun r _ _ => hkin r) (fun r hr => ?_) fun _ r hr => ?_
    · rwa [(hkin r).parent]
    · rwa [(hkin r).parent] at hr
  · intro r w hr
    cases hr
    exact hact

/-- A step that changes the slot that `A` sets up or frees. -/
lemma MainFamily.owned (h : t.main.Family (a.apply s) A) (howns : m.owns = some (q, v))
    (htarget : a.target = some q) (hstate : ∀ v, a ≠ .state q v)
    (hw : ∀ w, a = .parent q w → w = none ∨ w = some A ∧ (s.slot q).parent = none)
    (hevent : a.event = m.event t.main ∨
      ∃ q, a = .pgdir q false ∧ (s.slot q).pgdir = false ∧ m.event t.main = none) :
    MainFamily s A m t a := by
  refine ⟨h, .own a q v howns htarget hstate hw, ?_, hevent⟩
  rintro r w rfl
  cases htarget
  exact absurd rfl (hstate w)

lemma noKids_slot0 : NoKids s A slot0.val := fun _ hj => absurd hj (Nat.not_lt_zero _)

lemma NoKids.succ {j : Slot} (h : NoKids s A j.val) (hj : (s.slot j).parent ≠ some A) :
    NoKids s A (j.val + 1) := by
  intro k hk
  rcases Nat.lt_succ_iff_lt_or_eq.mp hk with hlt | heq
  · exact h k hlt
  · rwa [Fin.ext heq]

lemma family_exitNext {j : Slot} (hinit : A ≠ initproc) (h : NoKids s A (j.val + 1)) :
    (exitNext w j).Family s A := by
  rw [exitNext]
  split
  · rename_i hk
    rw [nextSlot] at hk
    split_ifs at hk
    cases hk
    exact ⟨hinit, h⟩
  · rename_i hk
    rw [nextSlot] at hk
    split_ifs at hk with hlast
    refine ⟨hinit, fun k _ => h k ?_⟩
    have := k.isLt
    omega

lemma cas_exit (hm : t.main.inExit = true) (h : t.main.Family s A)
    (hevent : m.event t.main = none) : MainFamily s A m t (cas s A .running .negZombie) := by
  rw [cas]
  split_ifs with hold
  · exact .of_state h (.turn _ (by rw [hold]; rfl) rfl fun _ => ⟨rfl, hm⟩) hevent
  · exact .quiet h rfl hevent

lemma family_waitNext (q : Slot) (b : Bool) : (waitNext q b).Family s A := by
  rw [waitNext]
  split <;> trivial

lemma MainStep.family (hf : m.Family s A) (hslot : ∀ q, SlotOk (s.slot q)) (h : MainStep s A i m t a i') :
    MainFamily s A m t a := by
  cases h with
  | allocTake hfree =>
    have hstage := (hslot _).free (congrArg PState.stage hfree)
    exact .of_state hstage (.alloc hfree) rfl
  | allocDrop hold | forkDrop hold =>
    refine .of_state trivial (.free (by rw [hold]; decide) hf ?_) rfl
    rw [hold]
    intro h
    cases h
  | forkRun hold => exact .of_state trivial (.start hold hf) rfl
  | setPid =>
    refine .owned ?_ rfl rfl (fun _ h => by cases h) (fun _ h => by cases h) (.inl rfl)
    show Has _ _ _ _
    rw [slot_apply_target rfl]
    exact ⟨hf.parent, hf.kstack, hf.pgdir⟩
  | forkFree =>
    refine .owned ?_ rfl rfl (fun _ h => by cases h) (fun _ h => by cases h) (.inl (if_pos rfl).symm)
    show Has _ _ _ _
    rw [slot_apply_target rfl]
    exact ⟨hf.parent, rfl, hf.pgdir⟩
  | forkParent =>
    refine .owned ?_ rfl rfl (fun _ h => by cases h) (fun w h => ?_) (.inl rfl)
    · show Has _ _ _ _
      rw [slot_apply_target rfl]
      exact ⟨rfl, hf.kstack, hf.pgdir⟩
    · cases h
      exact .inr ⟨rfl, hf.parent⟩
  | exit hinit => exact .quiet hinit rfl rfl
  | exitCas => exact cas_exit rfl hf rfl
  | exitWoke => exact .quiet ⟨hf, noKids_slot0⟩ rfl rfl
  | exitKid hq => exact .quiet ⟨hf.1, hf.2, hq⟩ rfl rfl
  | exitLoop hq => exact .quiet (family_exitNext hf.1 (hf.2.succ hq)) rfl rfl
  | exitAlive | exitAgain => exact .quiet (family_exitNext hf.1 hf.2) rfl rfl
  | @exitGive w q =>
    obtain ⟨hinit, hkids, hq⟩ := hf
    refine ⟨⟨hinit, ?_⟩, .give q hq, (fun _ _ h => by cases h), .inl rfl⟩
    apply NoKids.succ
    · intro j hj
      rw [Act.parent_apply]
      · exact hkids j hj
      · intro v hv
        cases hv
        exact absurd hj (Nat.lt_irrefl _)
    · rw [parent_apply_parent]
      exact fun h => hinit (some.inj h).symm
  | @waitTest q k =>
    refine .quiet ?_ rfl rfl
    show Main.Family s A (ite _ _ _)
    split_ifs with hq
    · exact hq
    · exact family_waitNext q k
  | waitNeg =>
    refine .quiet ?_ rfl rfl
    show Main.Family s A (ite _ _ _)
    split_ifs <;> exact hf
  | @waitZombie q =>
    refine .quiet ?_ rfl rfl
    show Main.Family s A (ite _ _ _)
    split_ifs
    · exact hf
    · exact family_waitNext q true
  | waitReap hold =>
    have hmem := (hslot _).live (congrArg PState.stage hold)
    exact .of_state ⟨hf, hmem.1, hmem.2⟩ (.reap hold) rfl
  | waitPid => exact .quiet ⟨hf, rfl⟩ rfl rfl
  | waitFree =>
    refine .owned ?_ rfl rfl (fun _ h => by cases h) (fun _ h => by cases h) (.inl (if_pos rfl).symm)
    show Has _ _ _ _ ∧ _
    rw [slot_apply_target rfl]
    exact ⟨⟨hf.1.parent, rfl, hf.1.pgdir⟩, hf.2⟩
  | waitFreevm =>
    refine .owned ?_ rfl rfl (fun _ h => by cases h) (fun _ h => by cases h) (.inl (if_pos rfl).symm)
    show Has _ _ _ _ ∧ _
    rw [slot_apply_target rfl]
    exact ⟨⟨hf.1.parent, hf.1.kstack, rfl⟩, hf.2⟩
  | waitClearPid =>
    refine .owned ?_ rfl rfl (fun _ h => by cases h) (fun _ h => by cases h) (.inl rfl)
    show Has _ _ _ _ ∧ _
    rw [slot_apply_target rfl]
    exact ⟨⟨hf.1.parent, hf.1.kstack, hf.1.pgdir⟩, rfl⟩
  | waitClearParent =>
    refine .owned ?_ rfl rfl (fun _ h => by cases h) (fun w h => ?_) (.inl rfl)
    · show Has _ _ _ _ ∧ _
      rw [slot_apply_target rfl]
      exact ⟨⟨rfl, hf.1.kstack, hf.1.pgdir⟩, hf.2⟩
    · cases h
      exact .inl rfl
  | waitClearKilled =>
    refine .owned ?_ rfl rfl (fun _ h => by cases h) (fun _ h => by cases h) (.inl rfl)
    show Has _ _ _ _ ∧ _
    rw [slot_apply_target rfl]
    exact ⟨⟨hf.1.parent, hf.1.kstack, hf.1.pgdir⟩, hf.2⟩
  | waitUnused hold => exact .of_state trivial (.free (by rw [hold]; decide) hf.1 fun _ => hf.2) rfl
  | killSet => exact ⟨trivial, .keep _ rfl, (fun _ _ h => by cases h), .inl rfl⟩
  | killCas hold => exact .of_state trivial (.turn _ (by rw [hold]; rfl) rfl fun h => by cases h) rfl
  | _ => first | exact .quiet hf rfl rfl | exact .quiet trivial rfl rfl

lemma MainOp.family {o : Op} (hf : m.Family s A) (h : MainOp m o t a) : MainFamily s A m t a := by
  cases h with
  | stack =>
    refine .owned ?_ rfl rfl (fun _ h => by cases h) (fun _ h => by cases h) (.inl (if_pos rfl).symm)
    show Has _ _ _ _
    rw [slot_apply_target rfl]
    exact ⟨hf.parent, rfl, hf.pgdir⟩
  | dir =>
    refine .owned ?_ rfl rfl (fun _ h => by cases h) (fun _ h => by cases h) (.inl (if_pos rfl).symm)
    show Has _ _ _ _
    rw [slot_apply_target rfl]
    exact ⟨hf.parent, hf.kstack, rfl⟩
  | noDir =>
    refine .owned ?_ rfl rfl (fun _ h => by cases h) (fun _ h => by cases h) (.inr ⟨_, rfl, hf.pgdir, rfl⟩)
    show Has _ _ _ _
    rw [slot_apply_target rfl]
    exact ⟨hf.parent, hf.kstack, rfl⟩
  | call hm | sleep hm => rcases hm with rfl | ⟨v, rfl⟩ <;> exact .quiet hf rfl rfl
  | _ => exact .quiet hf rfl rfl

lemma MainMove.family (hf : m.Family s A) (hslot : ∀ q, SlotOk (s.slot q))
    (h : MainMove s A m t a) : MainFamily s A m t a := by
  rcases h with ⟨i, i', h⟩ | ⟨o, h⟩
  · exact h.family hf hslot
  · exact h.family hf

/-- `exit` does not return. -/
lemma MainEdge.inExit (h : MainEdge s A m t a) (hm : m.inExit = true) : t.main.inExit = true := by
  cases h with
  | plain _ _ _ _ hnot | take _ _ _ _ _ _ hnot | give _ _ _ _ _ _ _ hnot | drop _ _ _ hnot
  | call _ _ hnot | sleep _ _ _ hnot =>
    rw [hnot] at hm
    cases hm
  | exitParent | exitSched => rfl
  | exitLoop _ m' w _ _ _ hm' =>
    have hexit := exiting_of_woke hm'
    cases m' <;> first | exact hexit | rfl
  | _ => cases hm

/-! ### The two kinds of steps -/

/-- A slot without the calls on its kernel stack. -/
def Proc.data (x : Proc) : Proc := { x with thread := .new }

/-- Nothing happens to a slot but that its process runs, sleeps or wakes up. -/
structure Turn (x y : Proc) : Prop where
  kin : SameKin x y
  stage : y.state.stage = x.state.stage
  dying : y.state.dying = true → x.state.dying = true

/-- A step is one of the outermost function of a process, or it leaves the families alone. -/
inductive Moved (s : State) (d : CpuId) (s' : State) : Prop
  | quiet (hturn : ∀ q, Turn (s.slot q) (s'.slot q))
      (hmain : ∀ q, (s'.slot q).thread.main = (s.slot q).thread.main)
  | main (p : Slot) (t : Thread) (a : Act) (hcur : (s.cpu d).cur = some p)
      (hmove : MainMove s p (s.slot p).thread.main t a)
      (hdata : ∀ q, (s'.slot q).data = ((a.apply s).slot q).data)
      (hnew : ∀ q, a = .stack q → (s'.slot q).thread.main = .forkret)
      (hself : a ≠ .stack p → (s'.slot p).thread.main = t.main)
      (hother : ∀ q, a ≠ .stack q → q ≠ p → (s'.slot q).thread.main = (s.slot q).thread.main)

lemma data_update (a : Act) (h : y.data = x.data) : (a.update y).data = (a.update x).data := by
  obtain ⟨state, pid, parent, chan, killed, kstack, pgdir, thread⟩ := x
  cases h
  cases a <;> rfl

lemma Act.data_congr (a : Act) (h : (u.slot q).data = (s.slot q).data) :
    ((a.apply u).slot q).data = ((a.apply s).slot q).data := by
  rw [a.slot_apply, a.slot_apply]
  split_ifs
  · exact data_update a h
  · exact h

lemma data_setThread (s : State) (p q : Slot) (t : Thread) :
    ((setThread s p t).slot q).data = (s.slot q).data :=
  slot_setThread_field Proc.data s p q t fun _ => rfl

lemma turn_of_data (h : y.data = x.data) : Turn x y := by
  obtain ⟨state, pid, parent, chan, killed, kstack, pgdir, thread⟩ := x
  cases h
  exact ⟨⟨rfl, rfl, rfl, rfl⟩, rfl, id⟩

lemma Turn.of_data {z : Proc} (h : Turn x y) (hz : z.data = y.data) : Turn x z := by
  obtain ⟨state, pid, parent, chan, killed, kstack, pgdir, thread⟩ := y
  cases hz
  exact ⟨⟨h.kin.parent, h.kin.pid, h.kin.kstack, h.kin.pgdir⟩, h.stage, h.dying⟩

/-- An act that leaves the families alone. -/
structure Act.Turns (s : State) (a : Act) : Prop where
  turn : ∀ q, Turn (s.slot q) ((a.apply s).slot q)
  stack : ∀ q, a ≠ .stack q

lemma Act.turns_state (hstage : v.stage = (s.slot q).state.stage) (hdying : v.dying = false ∨
    (s.slot q).state.dying = true) : (Act.state q v).Turns s := by
  refine ⟨fun r => ?_, state_ne_stack q v⟩
  have hkin : SameKin (s.slot r) (((Act.state q v).apply s).slot r) := Act.sameKin rfl r
  by_cases hr : r = q
  · subst hr
    refine ⟨hkin, ?_, fun h => ?_⟩
    · rw [state_apply_state, hstage]
    · rw [state_apply_state] at h
      rcases hdying with hnot | hold
      · rw [hnot] at h
        cases h
      · exact hold
  · have hstate : (((Act.state q v).apply s).slot r).state = (s.slot r).state := by
      refine Act.state_apply _ s fun w hw => ?_
      cases hw
      exact hr rfl
    exact ⟨hkin, by rw [hstate], fun h => hstate ▸ h⟩

lemma Act.turns_quiet (h : a.target = Option.none) : a.Turns s := by
  refine ⟨fun q => ?_, ?_⟩
  · rw [a.slot_apply, if_neg (by rw [h]; intro h; cases h)]
    exact turn_of_data rfl
  · rintro q rfl
    cases h

lemma Act.turns_chan {w : Chan} : (Act.chan q w).Turns s := by
  refine ⟨fun r => ?_, fun r h => by cases h⟩
  rw [Act.slot_apply]
  split_ifs
  · exact ⟨⟨rfl, rfl, rfl, rfl⟩, rfl, id⟩
  · exact turn_of_data rfl

lemma cas_turns {old new : PState} (hstage : new.stage = old.stage)
    (hdying : new.dying = false ∨ old.dying = true) : (cas s q old new).Turns s := by
  rw [cas]
  split_ifs with hold
  · subst hold
    exact Act.turns_state hstage hdying
  · exact Act.turns_quiet rfl

lemma CallEdge.turns {po : Option Slot} {f : Call} {f' : Option Call}
    (h : CallEdge s po f f' a) : a.Turns s := by
  cases h with
  | quiet f' a ha => exact Act.turns_quiet ha
  | wake f' q hold => exact Act.turns_state (by rw [hold]; rfl) (.inl rfl)
  | yield => exact cas_turns rfl (.inl rfl)

lemma SleepEdge.turns {z : Sleep} {z' : Option Sleep} {f : Option Call}
    (h : SleepEdge s p z z' f a) : a.Turns s := by
  cases h with
  | chan | tidy => exact Act.turns_chan
  | cas => exact cas_turns rfl (.inl rfl)
  | start | pop | ret => exact Act.turns_quiet rfl

lemma SchedEdge.turns {k k' : Cpu} (h : SchedEdge s k k' a) : a.Turns s := by
  cases h with
  | take p _ hold | run p _ hold => exact Act.turns_state (by rw [hold]; rfl) (.inl rfl)
  | pub1 | pub2 => exact cas_turns rfl (.inl rfl)
  | pub3 => exact cas_turns rfl (.inr rfl)
  | idle | set | swtch => exact Act.turns_quiet rfl

/-- A step on the stack of `p` that stays in the outermost function. -/
lemma Act.Turns.moved (ha : a.Turns s) (hmain : t.main = (s.slot p).thread.main) {k : Cpu} :
    Moved s d (a.apply (setThread (setCpu s d k) p t)) := by
  refine .quiet (fun q => (ha.turn q).of_data (a.data_congr (data_setThread _ p q t))) fun q => ?_
  rw [a.thread_apply _ (ha.stack q)]
  by_cases hq : q = p
  · rw [hq, thread_setThread, hmain]
  · rw [slot_setThread_of_ne _ _ hq, slot_setCpu]

/-- A step on the stack of `scheduler`. -/
lemma Act.Turns.moved_sched (ha : a.Turns s) {k : Cpu} : Moved s d (a.apply (setCpu s d k)) := by
  refine .quiet (fun q => (ha.turn q).of_data (a.data_congr rfl)) fun q => ?_
  rw [a.thread_apply _ (ha.stack q), slot_setCpu]

lemma Rule.moved (h : Rule s d s') : Moved s d s' := by
  cases h with
  | panic | cpuIrq => exact .quiet (fun _ => turn_of_data rfl) fun _ => rfl
  | proc p t a i hcur h =>
    cases h with
    | call f f' a i hcall h =>
      apply (callStep_edge h).turns.moved
      rfl
    | sleep z z' f a _ _ _ h =>
      apply h.turns.moved
      rfl
    | main t a _ _ hmove =>
      refine .main p t a hcur hmove (fun q => a.data_congr (data_setThread _ p q t)) ?_ ?_ ?_
      · rintro q rfl
        rw [thread_apply_stack]
        rfl
      · intro hstack
        rw [a.thread_apply _ hstack, thread_setThread]
      · intro q hstack hq
        rw [a.thread_apply _ hstack, slot_setThread_of_ne _ _ hq, slot_setCpu]
    | interrupt | handler | trapEnd | leave =>
      apply Act.Turns.moved (Act.turns_quiet _)
      · rfl
      · rfl
  | out p =>
    refine .quiet (fun q => turn_of_data (data_setThread _ p q _)) fun q => ?_
    rw [swtchOut]
    by_cases hq : q = p
    · rw [hq, thread_setThread]
    · rw [slot_setThread_of_ne _ _ hq, slot_setCpu]
  | sched k a hcur hcall h => exact h.turns.moved_sched
  | cpuCall f f' a i hcur hcall h => exact (callStep_edge h).turns.moved_sched

/-! ### The invariant -/

/-- What holds of the families also when CPUs share a stack. -/
structure FamilyInv (s : State) : Prop where
  own : OwnInv s
  family : ∀ p, (s.slot p).thread.main.Family s p
  slot : ∀ q, SlotOk (s.slot q)

structure KinInv (s : State) : Prop where
  seq : SeqInv s
  family : ∀ p, (s.slot p).thread.main.Family s p
  dying : ∀ p, (s.slot p).state.dying = true → (s.slot p).thread.main.inExit = true
  slot : ∀ q, SlotOk (s.slot q)
  parent : ∀ q A, (s.slot q).parent = some A → (s.slot A).state.stage = .live
  init : (s.slot initproc).state.stage = .live

lemma KinInv.families (hinv : KinInv s) : FamilyInv s := ⟨hinv.seq.own, hinv.family, hinv.slot⟩

lemma zombieExit_family (h : (Main.zombieExit w).Family s B) :
    B ≠ initproc ∧ ∀ q, (s.slot q).parent ≠ some B :=
  ⟨h.1, fun q => h.2 q q.isLt⟩

/-- A `ZOMBIE` is not `initproc` and has no children. -/
lemma KinInv.of_zombie (hinv : KinInv s) (hok : StackSafe s) (h : (s.slot B).state = .zombie) :
    B ≠ initproc ∧ ∀ q, (s.slot q).parent ≠ some B := by
  have hoff : ∀ c, (s.cpu c).cur ≠ some B := fun c hc => (hok.off c B hc).2.2.1 h
  obtain ⟨w, hw⟩ := hinv.seq.zombieExit hoff (hinv.dying B (by rw [h]; rfl))
  have hfamily := hinv.family B
  rw [hw] at hfamily
  exact zombieExit_family hfamily

lemma slot_apply_of_ne (h : a.target ≠ some q) : (a.apply s).slot q = s.slot q := by
  rw [a.slot_apply, if_neg h]

/-- A step of `A` leaves alone what `B` sets up or frees. -/
lemma KinAct.own_other {n : Main} (h : KinAct s A m a) (hA : A ≠ B) (hB : n.Family s B)
    (hown : ∀ r u, m.owns = some (r, u) → n.owns.map Prod.fst ≠ some r)
    (hn : n.owns = some (q, v)) : SameKin (s.slot q) ((a.apply s).slot q) := by
  cases h with
  | keep a ha => exact Act.sameKin ha q
  | own a r u howns htarget =>
    rw [slot_apply_of_ne]
    · exact ⟨rfl, rfl, rfl, rfl⟩
    · intro hq
      apply hown r u howns
      rw [map_fst_owns hn, ← hq, htarget]
  | give r hr =>
    rw [slot_apply_of_ne]
    · exact ⟨rfl, rfl, rfl, rfl⟩
    · intro hq
      obtain rfl : r = q := some.inj hq
      rcases hB.parent_of_owns hn with hnone | hsome
      · cases hr.symm.trans hnone
      · exact hA (some.inj (hr.symm.trans hsome))

/-- A step of `A` takes no child from `B`. -/
lemma KinAct.child (h : KinAct s A m a) (hA : A ≠ B) (hfamily : m.Family s A)
    (hq : (s.slot q).parent = some B) : ((a.apply s).slot q).parent = some B := by
  cases h with
  | keep a ha => rw [(Act.sameKin ha q).parent, hq]
  | own a r u howns htarget =>
    rw [slot_apply_of_ne, hq]
    intro hr
    obtain rfl := some.inj (htarget.symm.trans hr)
    rcases hfamily.parent_of_owns howns with hnone | hsome
    · cases hq.symm.trans hnone
    · exact hA (some.inj (hsome.symm.trans hq))
  | give r hr =>
    rw [slot_apply_of_ne, hq]
    intro hrq
    obtain rfl : r = q := some.inj hrq
    exact hA (some.inj (hr.symm.trans hq))

/-- A step of `A` makes a slot its own child or a child of `initproc`. -/
lemma KinAct.new_child (h : KinAct s A m a) (hq : ((a.apply s).slot q).parent = some B) :
    (s.slot q).parent = some B ∨
      (B = A ∧ (s.slot q).parent = none ∨ B = initproc) ∧ ∀ r v, a ≠ .state r v := by
  by_cases hparent : ∃ w, a = .parent q w
  · obtain ⟨w, rfl⟩ := hparent
    rw [parent_apply_parent] at hq
    subst hq
    refine .inr ⟨?_, fun r v h => by cases h⟩
    cases h with
    | keep _ ha => cases ha
    | own _ r u howns htarget _ hw =>
      obtain rfl : q = r := some.inj htarget
      rcases hw _ rfl with hnone | hsome
      · cases hnone
      · exact .inl ⟨some.inj hsome.1, hsome.2⟩
    | give => exact .inr rfl
  · rw [a.parent_apply s fun w hw => hparent ⟨w, hw⟩] at hq
    exact .inl hq

/-- A step of `A` sets up a stack in a slot that it owns. -/
lemma KinAct.stack (h : KinAct s A m (.stack q)) : ∃ v, m.owns = some (q, v) := by
  cases h with
  | keep _ ha => cases ha
  | own _ r u howns htarget =>
    obtain rfl : q = r := some.inj htarget
    exact ⟨u, howns⟩

/-- A process stays one until it is reaped as a `ZOMBIE`. -/
lemma MainFamily.live (h : MainFamily s A m t a) (hq : (s.slot q).state.stage = .live) :
    ((a.apply s).slot q).state.stage = .live ∨ (s.slot q).state = .zombie := by
  by_cases hstate : ∃ v, a = .state q v
  · obtain ⟨v, rfl⟩ := hstate
    rw [state_apply_state]
    cases h.state q v rfl with
    | alloc hold | start hold =>
      rw [hold] at hq
      cases hq
    | reap hold => exact .inr hold
    | free hold => exact absurd hq hold
    | turn _ _ hv => exact .inl hv
  · rw [a.state_apply s fun v hv => hstate ⟨v, hv⟩]
    exact .inl hq

/-- A step of `A` changes the family of a slot that is not set up or freed only when it gives the slot,
    its child, to `initproc`. -/
lemma KinAct.settled (h : KinAct s A m a) (hown : OwnInv s) (hm : (s.slot A).thread.main = m)
    (hq : (s.slot q).state.Settled) : SameKin (s.slot q) ((a.apply s).slot q) ∨
      a = .parent q (some initproc) ∧ (s.slot q).parent = some A := by
  cases h with
  | keep _ ha => exact .inl (Act.sameKin ha q)
  | own _ r v howns htarget =>
    rw [slot_apply_of_ne]
    · exact .inl ⟨rfl, rfl, rfl, rfl⟩
    · intro hr
      obtain rfl := some.inj (htarget.symm.trans hr)
      exact hown.not_settled (hm ▸ howns) hq
  | give r hr =>
    by_cases hrq : (Act.parent r (some initproc)).target = some q
    · cases hrq
      exact .inr ⟨rfl, hr⟩
    · rw [slot_apply_of_ne hrq]
      exact .inl ⟨rfl, rfl, rfl, rfl⟩

lemma MainFamily.slotOk (h : MainFamily s A m t a) (hown : OwnInv s) (hm : (s.slot A).thread.main = m)
    (hslot : SlotOk (s.slot q)) : SlotOk ((a.apply s).slot q) := by
  by_cases hstate : ∃ v, a = .state q v
  · obtain ⟨v, rfl⟩ := hstate
    have hkin : SameKin (s.slot q) (((Act.state q v).apply s).slot q) := Act.sameKin rfl q
    constructor
    · rw [state_apply_state]
      intro hfree
      cases h.state q v rfl with
      | free _ hhas => exact hkin.has hhas
      | alloc | start | reap => cases hfree
      | turn _ _ hv => cases hfree.symm.trans hv
    · rw [state_apply_state, hkin.kstack, hkin.pgdir]
      intro hlive
      cases h.state q v rfl with
      | start _ hhas => exact ⟨hhas.kstack, hhas.pgdir⟩
      | turn _ hold => exact hslot.live hold
      | free | alloc | reap => cases hlive
  · have hsame := a.state_apply s fun v hv => hstate ⟨v, hv⟩
    constructor
    · rw [hsame]
      intro hfree
      rcases h.act.settled hown hm (PState.settled_of_stage (.inl hfree)) with hkin | ⟨-, hA⟩
      · exact hkin.has (hslot.free hfree)
      · cases hA.symm.trans (hslot.free hfree).parent
    · rw [hsame]
      intro hlive
      rcases h.act.settled hown hm (PState.settled_of_stage (.inr hlive)) with hkin | ⟨rfl, -⟩
      · rw [hkin.kstack, hkin.pgdir]
        exact hslot.live hlive
      · rw [slot_apply_target rfl]
        exact hslot.live hlive

section Data

variable (h : y.data = x.data)
include h

lemma sameKin_of_data : SameKin x y := (turn_of_data h).kin

lemma state_of_data : y.state = x.state := by
  obtain ⟨state, pid, parent, chan, killed, kstack, pgdir, thread⟩ := x
  cases h
  rfl

lemma SlotOk.of_data (hx : SlotOk x) : SlotOk y := by
  have hkin := sameKin_of_data h
  have hstate := state_of_data h
  constructor
  · rw [hstate]
    exact fun hfree => hkin.has (hx.free hfree)
  · rw [hstate, hkin.kstack, hkin.pgdir]
    exact hx.live

end Data

lemma Main.Family.of_kin (h : m.Family s A) (hkin : ∀ q, SameKin (s.slot q) (s'.slot q)) :
    m.Family s' A := by
  refine h.congr (fun q _ _ => hkin q) (fun q hq => ?_) fun _ q hq => ?_
  · rw [(hkin q).parent, hq]
  · rw [← (hkin q).parent, hq]

/-- A step of `p` in its outermost function keeps what the others know. -/
lemma FamilyInv.family_other (hinv : FamilyInv s) (hA : A ≠ B)
    (hact : KinAct s A (s.slot A).thread.main a) : (s.slot B).thread.main.Family (a.apply s) B := by
  refine (hinv.family B).congr (fun q v hq => ?_) (fun q hq => ?_) fun hB q hq => ?_
  · refine hact.own_other hA (hinv.family B) (fun r u hr hn => ?_) hq
    exact hA (hinv.own.once A B r (map_fst_owns hr) hn)
  · exact hact.child hA (hinv.family A) hq
  · rcases hact.new_child hq with hold | ⟨⟨hnew, _⟩ | hnew, _⟩
    · exact hold
    · exact absurd hnew.symm hA
    · exact absurd hnew hB

lemma FamilyInv.rule (hinv : FamilyInv s) (h : Rule s d s') : FamilyInv s' := by
  have hown := hinv.own.rule h
  cases h.moved with
  | quiet hturn hmain =>
    refine ⟨hown, fun p => ?_, fun q => ?_⟩
    · rw [hmain p]
      exact (hinv.family p).of_kin fun q => (hturn q).kin
    · constructor
      · rw [(hturn q).stage]
        exact fun hfree => (hturn q).kin.has ((hinv.slot q).free hfree)
      · rw [(hturn q).stage, (hturn q).kin.kstack, (hturn q).kin.pgdir]
        exact (hinv.slot q).live
  | main A t a hcur hmove hdata hnew hself hother =>
    have hfamily := hmove.family (hinv.family A) hinv.slot
    have hkin : ∀ q, SameKin ((a.apply s).slot q) (s'.slot q) := fun q => sameKin_of_data (hdata q)
    refine ⟨hown, fun p => ?_, fun q => ?_⟩
    · by_cases hstack : a = .stack p
      · rw [hnew p hstack]
        trivial
      · by_cases hp : p = A
        · subst hp
          rw [hself hstack]
          exact hfamily.next.of_kin hkin
        · rw [hother p hstack hp]
          exact (hinv.family_other (Ne.symm hp) hfamily.act).of_kin hkin
    · exact (hfamily.slotOk hinv.own rfl (hinv.slot q)).of_data (hdata q)

lemma KinInv.main_dying (hinv : KinInv s) (hfamily : MainFamily s A (s.slot A).thread.main t a)
    (hedge : MainEdge s A (s.slot A).thread.main t a)
    (hdata : ∀ q, (s'.slot q).data = ((a.apply s).slot q).data)
    (hself : a ≠ .stack A → (s'.slot A).thread.main = t.main)
    (hother : ∀ q, a ≠ .stack q → q ≠ A → (s'.slot q).thread.main = (s.slot q).thread.main)
    (hp : (s'.slot p).state.dying = true) : (s'.slot p).thread.main.inExit = true := by
  rw [state_of_data (hdata p)] at hp
  by_cases hstate : ∃ v, a = .state p v
  · obtain ⟨v, rfl⟩ := hstate
    rw [state_apply_state] at hp
    cases hfamily.state p v rfl with
    | turn _ _ _ hdying =>
      obtain ⟨rfl, hexit⟩ := hdying hp
      rw [hself (state_ne_stack p v p), hexit]
    | alloc | start | reap | free => cases hp
  · rw [a.state_apply s fun v hv => hstate ⟨v, hv⟩] at hp
    have hstack : a ≠ .stack p := by
      rintro rfl
      obtain ⟨v, hv⟩ := hfamily.act.stack
      exact hinv.seq.own.not_settled hv (PState.settled_of_dying hp)
    by_cases hpA : p = A
    · subst hpA
      rw [hself hstack]
      exact hedge.inExit (hinv.dying p hp)
    · rw [hother p hstack hpA]
      exact hinv.dying p hp

lemma KinInv.rule (hinv : KinInv s) (hok : StackSafe s) (h : Rule s d s') : KinInv s' := by
  have hseq := hinv.seq.rule hok h
  obtain ⟨_, hfam, hslot⟩ := hinv.families.rule h
  cases h.moved with
  | quiet hturn hmain =>
    refine ⟨hseq, hfam, fun p hp => ?_, hslot, fun q A hq => ?_, ?_⟩
    · rw [hmain p]
      exact hinv.dying p ((hturn p).dying hp)
    · rw [(hturn A).stage]
      exact hinv.parent q A ((hturn q).kin.parent ▸ hq)
    · rw [(hturn initproc).stage, hinv.init]
  | main A t a hcur hmove hdata hnew hself hother =>
    have hfamily := hmove.family (hinv.family A) hinv.slot
    -- a process that is not reaped as a zombie stays one
    have hlive : ∀ B, (s.slot B).state.stage = .live → (s.slot B).state ≠ .zombie →
        (s'.slot B).state.stage = .live := by
      intro B hB hne
      rw [state_of_data (hdata B)]
      exact (hfamily.live hB).resolve_right hne
    refine ⟨hseq, hfam, fun p hp => ?_, hslot, fun q B hq => ?_, ?_⟩
    · exact hinv.main_dying hfamily hmove.edge hdata hself hother hp
    · rw [(sameKin_of_data (hdata q)).parent] at hq
      rcases hfamily.act.new_child hq with hold | ⟨hB, hstate⟩
      · exact hlive B (hinv.parent q B hold) fun hz => (hinv.of_zombie hok hz).2 q hold
      · rw [state_of_data (hdata B), a.state_apply s (hstate B)]
        rcases hB with ⟨rfl, _⟩ | rfl
        · exact hinv.seq.on d B hcur
        · exact hinv.init
    · exact hlive initproc hinv.init fun hz => (hinv.of_zombie hok hz).1 rfl

lemma kinInv_boot : KinInv boot where
  seq := seqInv_boot
  family := by
    intro p
    rcases thread_boot p with h | h <;> rw [h] <;> trivial
  dying := by
    intro p hp
    rcases state_boot p with h | h <;> rw [h] at hp <;> cases hp
  slot := by
    intro q
    rw [slot_boot]
    split_ifs
    · refine ⟨?_, fun _ => ⟨rfl, rfl⟩⟩
      intro h
      cases h
    · refine ⟨fun _ => ⟨rfl, rfl, rfl⟩, ?_⟩
      intro h
      cases h
  parent := by
    intro q A hq
    rw [slot_boot] at hq
    split_ifs at hq <;> cases hq
  init := by
    rw [slot_boot, if_pos rfl]
    rfl

/-! ### The tree of processes -/

/-- Process `q` is `initproc` or a descendant of it. -/
def Descends (s : State) (q : Slot) : Prop :=
  Relation.ReflTransGen (fun A q => (s.slot q).parent = some A) initproc q

structure TreeInv (s : State) : Prop where
  kin : KinInv s
  root : (s.slot initproc).parent = none
  descends : ∀ q, (s.slot q).state.stage = .live → Descends s q

/-- The parent of a process stays, or it is `initproc` instead. -/
lemma KinInv.reparent (hinv : KinInv s) (hrule : Rule s d s') (hq : (s.slot q).state.stage = .live) :
    (s'.slot q).parent = (s.slot q).parent ∨
      (s.slot q).parent ≠ none ∧ (s'.slot q).parent = some initproc := by
  cases hrule.moved with
  | quiet hturn => exact .inl (hturn q).kin.parent
  | main A t a hcur hmove hdata =>
    rw [(sameKin_of_data (hdata q)).parent]
    have hact := (hmove.family (hinv.family A) hinv.slot).act
    rcases hact.settled hinv.seq.own rfl (PState.settled_of_stage (.inr hq)) with hkin | ⟨rfl, hA⟩
    · exact .inl hkin.parent
    · rw [parent_apply_parent, hA]
      exact .inr ⟨some_ne_none A, rfl⟩

/-- A new process is the child of the one that called `fork`. -/
lemma KinInv.started (hinv : KinInv s) (hrule : Rule s d s') (hq : (s'.slot q).state.stage = .live) :
    (s.slot q).state.stage = .live ∨
      ∃ A, (s'.slot q).parent = some A ∧ (s.slot A).state.stage = .live := by
  cases hrule.moved with
  | quiet hturn => exact .inl ((hturn q).stage ▸ hq)
  | main A t a hcur hmove hdata =>
    rw [state_of_data (hdata q)] at hq
    by_cases hstate : ∃ v, a = .state q v
    · obtain ⟨v, rfl⟩ := hstate
      rw [state_apply_state] at hq
      cases (hmove.family (hinv.family A) hinv.slot).state q v rfl with
      | start _ hhas =>
        refine .inr ⟨A, ?_, hinv.seq.on d A hcur⟩
        rw [(sameKin_of_data (hdata q)).parent, (Act.sameKin rfl q).parent, hhas.parent]
      | turn _ hold => exact .inl hold
      | alloc | reap | free => cases hq
    · rw [a.state_apply s fun v hv => hstate ⟨v, hv⟩] at hq
      exact .inl hq

lemma Descends.rule (h : Descends s q) (hinv : KinInv s) (hrule : Rule s d s')
    (hq : (s.slot q).state.stage = .live) : Descends s' q := by
  induction h with
  | refl => exact .refl
  | tail _ h ih =>
    rcases hinv.reparent hrule hq with hsame | ⟨-, hinit⟩
    · exact .tail (ih (hinv.parent _ _ h)) (hsame.trans h)
    · exact .single hinit

lemma TreeInv.rule (hinv : TreeInv s) (hok : StackSafe s) (hrule : Rule s d s') : TreeInv s' := by
  refine ⟨hinv.kin.rule hok hrule, ?_, fun q hq => ?_⟩
  · rcases hinv.kin.reparent hrule hinv.kin.init with hsame | ⟨hne, -⟩
    · rw [hsame, hinv.root]
    · exact absurd hinv.root hne
  · have hold : ∀ r, (s.slot r).state.stage = .live → Descends s' r :=
      fun r hr => (hinv.descends r hr).rule hinv.kin hrule hr
    rcases hinv.kin.started hrule hq with hlive | ⟨A, hparent, hA⟩
    · exact hold q hlive
    · exact .tail (hold A hA) hparent

lemma treeInv_boot : TreeInv boot := by
  refine ⟨kinInv_boot, ?_, fun q hq => ?_⟩
  · rw [slot_boot, if_pos rfl]
    rfl
  · rw [slot_boot] at hq
    split_ifs at hq with hinit
    · rw [hinit]
      exact .refl
    · cases hq

/-- If after each `swtch` only one of the three `cas` takes effect, the processes are a tree with root
    `initproc`, whatever the order of the steps. `exit` leaves no process below a `ZOMBIE`: the parent of
    each can still call `wait` for it. -/
theorem processes_tree (hrun : Reach step NoRepublish boot s) :
    (s.slot initproc).parent = none ∧ (s.slot initproc).state ≠ .zombie ∧
      (∀ q, (s.slot q).state.stage = .live → Descends s q) ∧
      ∀ q A, (s.slot q).parent = some A → (s.slot A).state.stage = .live ∧ (s.slot A).state ≠ .zombie := by
  have hinv : StackInv s ∧ TreeInv s := by
    refine hrun.invariant (I := fun s => StackInv s ∧ TreeInv s) ⟨stackInv_boot, treeInv_boot⟩ ?_
    intro _ _ _ hinv hok hstep
    exact ⟨hinv.1.rule hok (step_rule hstep), hinv.2.rule hinv.1.stackSafe (step_rule hstep)⟩
  obtain ⟨hstack, hkin, hroot, hdescends⟩ := hinv
  have hzombie : ∀ A, (s.slot A).state = .zombie → A ≠ initproc ∧ ∀ q, (s.slot q).parent ≠ some A :=
    fun A hz => hkin.of_zombie hstack.stackSafe hz
  exact ⟨hroot, fun hz => (hzombie initproc hz).1 rfl, hdescends,
    fun q A hq => ⟨hkin.parent q A hq, fun hz => (hzombie A hz).2 q hq⟩⟩

/-- The child forks and exits, and its own child goes to `initproc`. -/
theorem processes_tree_orphan : ∃ s q, (s.slot firstChild).state = .zombie ∧
    (s.slot q).state = .runnable ∧ (s.slot q).parent = some initproc ∧ Descends s q := by
  have hexec : ∃ s, Reach step NoRepublish boot s ∧ (s.slot firstChild).state = .zombie ∧
      (s.slot ⟨2, by decide⟩).state = .runnable ∧ (s.slot ⟨2, by decide⟩).parent = some initproc :=
    Reach.exists_of_exec (forkRun ++ List.replicate 9 (.run 1) ++ [.op 1 .fork] ++
      List.replicate 10 (.run 1) ++ [.op 1 (.alloc true), .op 1 (.alloc true)] ++
      List.replicate 5 (.run 1) ++ [.op 1 .exit, .run 1, .op 1 .closed] ++
      List.replicate 142 (.run 1)) (by decide +kernel)
  obtain ⟨s, hrun, hzombie, hstate, hparent⟩ := hexec
  refine ⟨s, _, hzombie, hstate, hparent, (processes_tree hrun).2.2.1 _ ?_⟩
  rw [hstate]
  rfl

end Xv6.Sched
