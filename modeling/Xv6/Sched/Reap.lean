import Xv6.Sched.Family

/-!
# Reaping

The life of each slot as a history variable: how often `fork` has started a process in it, how often
that process has called `exit` and been reaped, how often its kernel stack and page directory have
been freed, and what `wait` has seen of the child whose pid it returns. In every run in which a
process is one sequential thread, reaping is exact.
-/

namespace Xv6.Sched

open Machine Option

variable {s s' : State} {d : CpuId} {p q r A B : Slot} {t : Thread} {a : Act} {m n : Main}
  {u v : PState} {i i' : Intr} {l : Label}

/-! ### History -/

/-- What `wait` saw of a child when it reaped it. -/
structure Receipt where
  pid : Word
  parent : Option Slot
  /-- the process in the slot had called `exit` -/
  exited : Bool

structure Life where
  starts : Nat
  exits : Nat
  reaps : Nat
  /-- how often the last kernel stack and the last page directory have been freed -/
  stackFrees : Option Nat
  dirFrees : Option Nat
  /-- the slot is free, and `wait` has freed it -/
  reaped : Bool
  /-- the parent that `fork` stored -/
  maker : Option Slot
  /-- how often the slot of the parent had been reaped when it became the parent -/
  parentReaps : Nat
  /-- the child that the last call of `wait` has reaped -/
  got : Option Receipt

/-- The memory that a step allocates or frees. -/
def happens (s : State) (l : Label) (s' : State) : Option Event :=
  match (s.cpu l.cpu).cur with
  | some p => (s.slot p).thread.main.event (s'.slot p).thread.main
  | none => none

/-- How often something has been freed, after it is made, freed or neither. -/
def countFrees (made freed : Bool) (n : Option Nat) : Option Nat :=
  if made then some 0 else if freed then n.map (· + 1) else n

/-- The receipt of a process after a step from `m` to `n`. -/
def Main.receipt (m n : Main) (new : Slot → Receipt) (old : Option Receipt) : Option Receipt :=
  match m with
  | .wait => if n = .waitScan then none else old
  | .waitReap q => if n = .waitPid q then some (new q) else old
  | _ => old

def nextLife (s : State) (l : Label) (s' : State) (h : Slot → Life) (q : Slot) : Life where
  starts := (h q).starts +
    if (s.slot q).state = .embryo ∧ (s'.slot q).state = .runnable then 1 else 0
  exits := (h q).exits +
    if (s.slot q).state = .running ∧ (s'.slot q).state = .negZombie then 1 else 0
  reaps := (h q).reaps +
    if (s.slot q).state = .zombie ∧ (s'.slot q).state = .negUnused then 1 else 0
  stackFrees := countFrees (happens s l s' = some (.stackMade q))
    (happens s l s' = some (.stackFreed q)) (h q).stackFrees
  dirFrees := countFrees (happens s l s' = some (.dirMade q))
    (happens s l s' = some (.dirFreed q)) (h q).dirFrees
  reaped := (s.slot q).state = .negUnused && (s'.slot q).state = .unused ||
    (h q).reaped && (s'.slot q).state = .unused
  maker := if (s.slot q).parent = none then (s'.slot q).parent else (h q).maker
  parentReaps :=
    match (s'.slot q).parent with
    | some A => if (s.slot q).parent = some A then (h q).parentReaps else (h A).reaps
    | none => (h q).parentReaps
  got := (s.slot q).thread.main.receipt (s'.slot q).thread.main
    (fun c => ⟨(s.slot c).pid, (s.slot c).parent, (h c).exits = (h c).reaps + 1⟩) (h q).got

/-- The lives of the slots when the CPUs enter `scheduler`. -/
def bootLife (q : Slot) : Life :=
  if q = initproc then ⟨1, 0, 0, some 0, some 0, false, none, 0, none⟩
  else ⟨0, 0, 0, none, none, false, none, 0, none⟩

/-! ### Processes -/

/-- A process has been started and not yet reaped, and a dying one has called `exit`. -/
structure Counts (x : Proc) (z : Life) : Prop where
  starts : z.starts = z.reaps + if x.state.stage = .live then 1 else 0
  exits : z.exits = z.reaps + if x.state.dying then 1 else 0

lemma counts_next {h : Slot → Life} (hrule : Rule s l.cpu s') (hown : OwnInv s)
    (hinv : Counts (s.slot q) (h q)) : Counts (s'.slot q) (nextLife s l s' h q) := by
  obtain ⟨hstarts, hexits⟩ := hinv
  have hstep := hrule.state hown q
  refine ⟨?_, ?_⟩ <;> simp only [nextLife]
  · rw [hstarts]
    generalize (s.slot q).state = u at hstep ⊢
    generalize (s'.slot q).state = v at hstep ⊢
    rcases hstep with rfl | hedge
    · cases v <;> rfl
    · cases hedge <;> rfl
  · rw [hexits]
    generalize (s.slot q).state = u at hstep ⊢
    generalize (s'.slot q).state = v at hstep ⊢
    rcases hstep with rfl | hedge
    · cases v <;> rfl
    · cases hedge <;> rfl

/-! ### Memory -/

lemma Main.event_self (m : Main) : m.event m = none := by
  cases m <;> rfl

/-- The slot whose memory is allocated or freed is the one that the process sets up or frees. -/
lemma Main.owns_of_event {e : Event} (h : m.event n = some e) :
    ∃ q v, m.owns = some (q, v) ∧ (e = .stackMade q ∨ e = .stackFreed q ∨ e = .dirMade q ∨
      e = .dirFreed q) := by
  cases m with
  | allocStack q | copyuvm q | forkFree q | waitFree q | waitFreevm q =>
    simp only [Main.event, ite_none_right_eq_some, some.injEq] at h
    obtain ⟨_, rfl⟩ := h
    exact ⟨q, _, rfl, by simp⟩
  | _ => cases h

/-- Nothing is freed that is not there. -/
lemma Main.Family.freed (hf : m.Family s A) :
    (m.event n = some (.stackFreed q) → (s.slot q).kstack = true) ∧
      (m.event n = some (.dirFreed q) → (s.slot q).pgdir = true) := by
  cases m with
  | forkFree =>
    constructor <;> intro h <;>
      simp only [Main.event, ite_none_right_eq_some, some.injEq, reduceCtorEq,
        and_false, Event.stackFreed.injEq] at h
    obtain ⟨_, rfl⟩ := h
    exact hf.kstack
  | waitFree =>
    constructor <;> intro h <;>
      simp only [Main.event, ite_none_right_eq_some, some.injEq, reduceCtorEq,
        and_false, Event.stackFreed.injEq] at h
    obtain ⟨_, rfl⟩ := h
    exact hf.1.kstack
  | waitFreevm =>
    constructor <;> intro h <;>
      simp only [Main.event, ite_none_right_eq_some, some.injEq, reduceCtorEq,
        and_false, Event.dirFreed.injEq] at h
    obtain ⟨_, rfl⟩ := h
    exact hf.1.pgdir
  | allocStack | copyuvm =>
    constructor <;> intro h <;>
      simp only [Main.event, ite_none_right_eq_some, some.injEq, reduceCtorEq, and_false] at h
  | _ =>
    constructor <;> intro h <;> cases h

/-- What is there after it is made, freed or neither. -/
def hasAfter (made freed : Bool) (has : Bool) : Bool :=
  if made then true else if freed then false else has

lemma Act.kstack_apply (a : Act) : ((a.apply s).slot q).kstack =
    hasAfter (a.event = some (.stackMade q)) (a.event = some (.stackFreed q)) (s.slot q).kstack := by
  cases a with
  | stack r | free r =>
    rw [Act.slot_apply]
    by_cases hr : r = q <;> simp [hasAfter, Act.event, Act.target, Act.update, hr]
  | pgdir r v => cases v <;> exact Act.field_apply Proc.kstack _ s fun _ => rfl
  | _ => exact Act.field_apply Proc.kstack _ s fun _ => rfl

lemma Act.pgdir_apply (a : Act) : ((a.apply s).slot q).pgdir =
    hasAfter (a.event = some (.dirMade q)) (a.event = some (.dirFreed q)) (s.slot q).pgdir := by
  cases a with
  | pgdir r v =>
    rw [Act.slot_apply]
    by_cases hr : r = q <;> cases v <;> simp [hasAfter, Act.event, Act.target, Act.update, hr]
  | stack | free =>
    simp only [hasAfter, Act.event, some.injEq, reduceCtorEq, decide_false]
    exact Act.field_apply Proc.pgdir _ s fun _ => rfl
  | _ => exact Act.field_apply Proc.pgdir _ s fun _ => rfl

/-- What a step does to the memory of `q`. -/
structure MemStep (s : State) (l : Label) (s' : State) (q : Slot) : Prop where
  kstack : (s'.slot q).kstack = hasAfter (happens s l s' = some (.stackMade q))
    (happens s l s' = some (.stackFreed q)) (s.slot q).kstack
  pgdir : (s'.slot q).pgdir = hasAfter (happens s l s' = some (.dirMade q))
    (happens s l s' = some (.dirFreed q)) (s.slot q).pgdir
  stackFreed : happens s l s' = some (.stackFreed q) → (s.slot q).kstack = true
  dirFreed : happens s l s' = some (.dirFreed q) → (s.slot q).pgdir = true
  settled : (s.slot q).state.Settled → happens s l s' ≠ some (.stackMade q) ∧
    happens s l s' ≠ some (.stackFreed q) ∧ happens s l s' ≠ some (.dirMade q) ∧
    happens s l s' ≠ some (.dirFreed q)

lemma memStep_of_none (hkin : SameKin (s.slot q) (s'.slot q)) (h : happens s l s' = none) :
    MemStep s l s' q := by
  constructor <;> simp [h, hasAfter, hkin.kstack, hkin.pgdir]

/-- A process does not set up or free its own slot. -/
lemma KinInv.not_own_stack (hinv : KinInv s) (hcur : (s.cpu d).cur = some A)
    (hact : KinAct s A (s.slot A).thread.main a) : a ≠ .stack A := by
  rintro rfl
  obtain ⟨v, hv⟩ := hact.stack
  exact hinv.seq.own.not_settled hv (PState.settled_of_stage (.inr (hinv.seq.on d A hcur)))

lemma memStep_main (hinv : KinInv s) (hfamily : MainFamily s A (s.slot A).thread.main t a)
    (hdata : (s'.slot q).data = ((a.apply s).slot q).data)
    (hevent : happens s l s' = (s.slot A).thread.main.event t.main) : MemStep s l s' q := by
  have hkin := sameKin_of_data hdata
  have hfreed := (hinv.family A).freed (n := t.main) (q := q)
  rw [← hevent] at hfreed
  refine ⟨?_, ?_, hfreed.1, hfreed.2, fun hsettled => ?_⟩
  · rw [hkin.kstack, a.kstack_apply]
    rcases hfamily.event with he | ⟨r, rfl, _, hnone⟩
    · rw [he, hevent]
    · simp [hevent, hnone, Act.event]
  · rw [hkin.pgdir, a.pgdir_apply]
    rcases hfamily.event with he | ⟨r, rfl, hr, hnone⟩
    · rw [he, hevent]
    · by_cases hq : r = q
      · subst hq
        simp [hevent, hnone, Act.event, hasAfter, hr]
      · simp [hevent, hnone, Act.event, hasAfter, hq]
  · have hne : ∀ e, happens s l s' = some e → e ≠ .stackMade q ∧ e ≠ .stackFreed q ∧
        e ≠ .dirMade q ∧ e ≠ .dirFreed q := by
      intro e he
      obtain ⟨r, v, howns, hr⟩ := Main.owns_of_event (hevent.symm.trans he)
      have hrq : r ≠ q := by
        rintro rfl
        exact hinv.seq.own.not_settled howns hsettled
      rcases hr with rfl | rfl | rfl | rfl <;> simp [hrq]
    refine ⟨fun h => ?_, fun h => ?_, fun h => ?_, fun h => ?_⟩
    · exact (hne _ h).1 rfl
    · exact (hne _ h).2.1 rfl
    · exact (hne _ h).2.2.1 rfl
    · exact (hne _ h).2.2.2 rfl

lemma KinInv.memStep (hinv : KinInv s) (h : Rule s l.cpu s') : MemStep s l s' q := by
  cases h.moved with
  | quiet hturn hmain =>
    apply memStep_of_none (hturn q).kin
    rw [happens]
    split
    · rename_i p hcur
      rw [hmain, Main.event_self]
    · rfl
  | main A t a hcur hmove hdata hnew hself =>
    have hfamily := hmove.family (hinv.family A) hinv.slot
    apply memStep_main hinv hfamily (hdata q)
    rw [happens, hcur]
    dsimp only
    rw [hself (hinv.not_own_stack hcur hfamily.act)]

/-- What is there has not been freed, and what is not there has been freed once or was never there.
    A process has had both. -/
structure Freed (has : Bool) (g : Stage) (n : Option Nat) : Prop where
  there : has = true → n = some 0
  gone : has = false → n = none ∨ n = some 1
  freeing : g = .freeing → n ≠ none

lemma Freed.next {has made freed : Bool} {g g' : Stage} {n : Option Nat} (h : Freed has g n)
    (hfreed : freed = true → has = true) (hg : g' = .freeing → g = .freeing ∨ has = true) :
    Freed (hasAfter made freed has) g' (countFrees made freed n) := by
  cases made with
  | true => exact ⟨fun _ => rfl, (fun h => by cases h), (fun _ h => by cases h)⟩
  | false =>
    cases freed with
    | true =>
      obtain rfl := h.there (hfreed rfl)
      exact ⟨(fun h => by cases h), fun _ => .inr rfl, (fun _ h => by cases h)⟩
    | false =>
      refine ⟨h.there, h.gone, fun hfreeing => ?_⟩
      rcases hg hfreeing with hold | hhas
      · exact h.freeing hold
      · rw [h.there hhas]
        intro h
        cases h

/-! ### Receipts -/

/-- The child had called `exit`, and `p` was its parent. -/
def Receipt.Good (p : Slot) (x : Receipt) : Prop := x.parent = some p ∧ x.exited = true

/-- A value that `wait` of `p` may return: the pid of the child that it has reaped, or -1. -/
def Returns (p : Slot) (o : Option Receipt) (v : Word) : Prop :=
  match o with
  | some x => x.Good p ∧ x.pid = v
  | none => v = -1

/-- What `p` has in `wait`. -/
def Main.Got (s : State) (p : Slot) (o : Option Receipt) : Main → Prop
  | .waitScan | .waitTest .. | .waitNeg _ | .waitZombie _ | .waitReap _ | .waitKids _ => o = none
  | .waitPid q => ∃ x, o = some x ∧ x.Good p ∧ x.pid = (s.slot q).pid
  | .waitFree _ pid | .waitFreevm _ pid | .waitClearPid _ pid | .waitClearParent _ pid
  | .waitClearKilled _ pid | .waitUnused _ pid => ∃ x, o = some x ∧ x.Good p ∧ x.pid = pid
  | .waitPop v => Returns p o v
  | _ => True

/-- In `wait`, after its start. -/
def Main.inWait : Main → Bool
  | .waitScan | .waitTest .. | .waitNeg _ | .waitZombie _ | .waitReap _ | .waitKids _ | .waitPid _
  | .waitFree .. | .waitFreevm .. | .waitClearPid .. | .waitClearParent .. | .waitClearKilled ..
  | .waitUnused .. | .waitPop _ => true
  | _ => false

variable {o : Option Receipt} {new : Slot → Receipt}

lemma Main.got_of_not_inWait (h : m.inWait = false) : m.Got s p o := by
  cases m <;> trivial

lemma Main.Got.congr (h : m.Got s p o)
    (hpid : ∀ q v, m.owns = some (q, v) → (s'.slot q).pid = (s.slot q).pid) : m.Got s' p o := by
  cases m with
  | waitPid q =>
    obtain ⟨x, hx, hgood, hq⟩ := h
    exact ⟨x, hx, hgood, by rw [hpid q _ rfl, hq]⟩
  | _ => exact h

lemma Main.receipt_self (m : Main) : m.receipt m new o = o := by
  cases m <;> rfl

lemma not_inWait_exitNext {w : Option Slot} : (exitNext w q).inWait = false := by
  rw [exitNext]
  split <;> rfl

lemma got_waitNext (b : Bool) (h : o = none) : (waitNext q b).Got s p o := by
  rw [waitNext]
  split <;> exact h

lemma MainMove.got (hf : m.Family s p) (hgot : m.Got s p o)
    (hnew : ∀ q, (s.slot q).state = .zombie → (s.slot q).parent = some p →
      (new q).Good p ∧ (new q).pid = (s.slot q).pid)
    (h : MainMove s p m t a) : t.main.Got (a.apply s) p (m.receipt t.main new o) := by
  rcases h with ⟨i, i', h⟩ | ⟨op, h⟩
  · cases h with
    | exitLoop | exitAlive | exitAgain => exact Main.got_of_not_inWait not_inWait_exitNext
    | @waitTest q k =>
      show Main.Got s p o (ite _ _ _)
      split_ifs
      · exact hgot
      · exact got_waitNext k hgot
    | waitNeg =>
      show Main.Got s p o (ite _ _ _)
      split_ifs <;> exact hgot
    | waitZombie =>
      show Main.Got s p o (ite _ _ _)
      split_ifs
      · exact hgot
      · exact got_waitNext true hgot
    | @waitReap q hold =>
      obtain ⟨hgood, hpid⟩ := hnew q hold hf
      have hkin : SameKin (s.slot q) (((Act.state q .negUnused).apply s).slot q) := Act.sameKin rfl q
      exact ⟨new q, if_pos rfl, hgood, by rw [hkin.pid, hpid]⟩
    | waitUnused =>
      obtain ⟨x, rfl, hx⟩ := hgot
      exact hx
    | waitNone | waitSleep =>
      obtain rfl : o = none := hgot
      rfl
    | wait => rfl
    | _ => first | exact Main.got_of_not_inWait rfl | exact hgot
  · refine Main.got_of_not_inWait ?_
    cases h with
    | call hm | sleep hm => rcases hm with rfl | ⟨v, rfl⟩ <;> rfl
    | _ => rfl

/-! ### The invariant -/

/-- A slot that `wait` has freed. -/
structure Reaped (x : Proc) (z : Life) : Prop where
  state : x.state = .unused
  pid : x.pid = 0
  stack : z.stackFrees = some 1
  dir : z.dirFrees = some 1

structure LifeInv (s : State) (h : Slot → Life) : Prop where
  kin : KinInv s
  counts : ∀ q, Counts (s.slot q) (h q)
  stack : ∀ q, Freed (s.slot q).kstack (s.slot q).state.stage (h q).stackFrees
  dir : ∀ q, Freed (s.slot q).pgdir (s.slot q).state.stage (h q).dirFrees
  reaped : ∀ q, (h q).reaped = true → Reaped (s.slot q) (h q)
  maker : ∀ q A, (s.slot q).parent = some A → (h q).maker = some A ∨ A = initproc
  parent : ∀ q A, (s.slot q).parent = some A → (h q).parentReaps = (h A).reaps
  got : ∀ p, (s.slot p).thread.main.Got s p (h p).got

variable {h : Slot → Life}

/-- What is freed was a process. -/
lemma StateEdge.freeing (h : StateEdge s d q u v) (hv : v.stage = .freeing) : u.stage = .live := by
  cases h <;> first | rfl | cases hv

lemma LifeInv.freeing_before (hinv : LifeInv s h) (hrule : Rule s d s')
    (hq : (s'.slot q).state.stage = .freeing) :
    (s.slot q).state.stage = .freeing ∨ (s.slot q).kstack = true ∧ (s.slot q).pgdir = true := by
  rcases hrule.state hinv.kin.seq.own q with hsame | hedge
  · exact .inl (hsame ▸ hq)
  · exact .inr ((hinv.kin.slot q).live (hedge.freeing hq))

/-- Nobody changes the pid of a slot that is not set up or freed. -/
lemma FamilyInv.pid_settled (hinv : FamilyInv s) (hrule : Rule s d s')
    (hq : (s.slot q).state.Settled) : (s'.slot q).pid = (s.slot q).pid := by
  cases hrule.moved with
  | quiet hturn => exact (hturn q).kin.pid
  | main A t a hcur hmove hdata =>
    rw [(sameKin_of_data (hdata q)).pid]
    rcases (hmove.family (hinv.family A) hinv.slot).act.settled hinv.own rfl hq with hkin | ⟨rfl, -⟩
    · exact hkin.pid
    · exact Act.field_apply Proc.pid _ s fun _ => rfl

/-- When a slot becomes free in `wait`, everything in it has been cleared. -/
lemma FamilyInv.freed (hinv : FamilyInv s) (hrule : Rule s d s') (hq : (s.slot q).state = .negUnused)
    (hq' : (s'.slot q).state = .unused) : (s'.slot q).pid = 0 ∧ Has (s'.slot q) none false false := by
  cases hrule.moved with
  | quiet hturn =>
    have hstage := (hturn q).stage
    rw [hq, hq'] at hstage
    cases hstage
  | main A t a hcur hmove hdata =>
    have hfamily := hmove.family (hinv.family A) hinv.slot
    have hkin := sameKin_of_data (hdata q)
    rw [state_of_data (hdata q)] at hq'
    have hstate : ∃ v, a = .state q v := by
      by_contra hne
      rw [a.state_apply s fun v hv => hne ⟨v, hv⟩, hq] at hq'
      cases hq'
    obtain ⟨v, rfl⟩ := hstate
    rw [state_apply_state] at hq'
    subst hq'
    have hkeep : SameKin (s.slot q) (((Act.state q .unused).apply s).slot q) := Act.sameKin rfl q
    cases hfamily.state q _ rfl with
    | free _ hhas hpid => exact ⟨by rw [hkin.pid, hkeep.pid, hpid hq], hkin.has (hkeep.has hhas)⟩
    | turn _ hold => rw [hq] at hold; cases hold

lemma LifeInv.reaped_step (hinv : LifeInv s h) (hrule : Rule s l.cpu s')
    (hq : (nextLife s l s' h q).reaped = true) : Reaped (s'.slot q) (nextLife s l s' h q) := by
  have hmem : MemStep s l s' q := hinv.kin.memStep hrule
  simp only [nextLife, Bool.or_eq_true, Bool.and_eq_true, decide_eq_true_eq] at hq
  rcases hq with ⟨hold, hnew⟩ | ⟨hold, hnew⟩
  · obtain ⟨hpid, hhas⟩ := hinv.kin.families.freed hrule hold hnew
    have hstage : (s.slot q).state.stage = .freeing := by
      rw [hold]
      rfl
    have hstack : Freed false (s.slot q).state.stage (nextLife s l s' h q).stackFrees := by
      rw [← hhas.kstack, hmem.kstack]
      exact (hinv.stack q).next (fun hf => hmem.stackFreed (of_decide_eq_true hf)) .inl
    have hdir : Freed false (s.slot q).state.stage (nextLife s l s' h q).dirFrees := by
      rw [← hhas.pgdir, hmem.pgdir]
      exact (hinv.dir q).next (fun hf => hmem.dirFreed (of_decide_eq_true hf)) .inl
    exact ⟨hnew, hpid, (hstack.gone rfl).resolve_left (hstack.freeing hstage),
      (hdir.gone rfl).resolve_left (hdir.freeing hstage)⟩
  · obtain ⟨hstate, hpid, hstack, hdir⟩ := hinv.reaped q hold
    have hsettled : (s.slot q).state.Settled := by
      rw [hstate]
      exact ⟨by decide, by decide⟩
    obtain ⟨hne₁, hne₂, hne₃, hne₄⟩ := hmem.settled hsettled
    refine ⟨hnew, by rw [hinv.kin.families.pid_settled hrule hsettled, hpid], ?_, ?_⟩
    · simp [nextLife, countFrees, hne₁, hne₂, hstack]
    · simp [nextLife, countFrees, hne₃, hne₄, hdir]

/-- The parent of a process stays, is `initproc` instead, or is the one that made it. -/
lemma KinInv.parent_before (hinv : KinInv s) (hrule : Rule s d s') (hq : (s'.slot q).parent = some B) :
    (s.slot q).parent = some B ∨ ((s.slot q).parent = none ∨ B = initproc) ∧
      (s'.slot B).state = (s.slot B).state := by
  cases hrule.moved with
  | quiet hturn => exact .inl ((hturn q).kin.parent ▸ hq)
  | main A t a hcur hmove hdata =>
    rw [(sameKin_of_data (hdata q)).parent] at hq
    rcases (hmove.family (hinv.family A) hinv.slot).act.new_child hq with hold | ⟨hB, hstate⟩
    · exact .inl hold
    · refine .inr ⟨hB.imp And.right id, ?_⟩
      rw [state_of_data (hdata B), a.state_apply s (hstate B)]

lemma LifeInv.parent_step (hinv : LifeInv s h) (hok : StackSafe s) (hrule : Rule s l.cpu s')
    (hq : (s'.slot q).parent = some A) :
    (nextLife s l s' h q).parentReaps = (nextLife s l s' h A).reaps := by
  simp only [nextLife, hq]
  rcases hinv.kin.parent_before hrule hq with hold | ⟨hnew, hstate⟩
  · -- a parent that is reaped now would be a zombie, which has no children
    have hne : (s.slot A).state ≠ .zombie := fun hz => (hinv.kin.of_zombie hok hz).2 q hold
    rw [if_pos hold, hinv.parent q A hold, if_neg fun hz => hne hz.1, Nat.add_zero]
  · have hno : ¬ ((s.slot A).state = .zombie ∧ (s'.slot A).state = .negUnused) := by
      rintro ⟨hz, hneg⟩
      rw [hstate, hz] at hneg
      cases hneg
    rw [if_neg hno, Nat.add_zero]
    split_ifs with hold
    · exact hinv.parent q A hold
    · rfl

lemma LifeInv.maker_step (hinv : LifeInv s h) (hrule : Rule s l.cpu s') (hq : (s'.slot q).parent = some A) :
    (nextLife s l s' h q).maker = some A ∨ A = initproc := by
  simp only [nextLife]
  rcases hinv.kin.parent_before hrule hq with hold | ⟨hnone | hinit, _⟩
  · rw [if_neg (by rw [hold]; intro h; cases h)]
    exact hinv.maker q A hold
  · rw [if_pos hnone]
    exact .inl hq
  · exact .inr hinit

lemma LifeInv.got_step (hinv : LifeInv s h) (hrule : Rule s l.cpu s') :
    (s'.slot p).thread.main.Got s' p (nextLife s l s' h p).got := by
  cases hrule.moved with
  | quiet hturn hmain =>
    simp only [nextLife, hmain, Main.receipt_self]
    exact (hinv.got p).congr fun q _ _ => (hturn q).kin.pid
  | main A t a hcur hmove hdata hnew hself hother =>
    have hfamily := hmove.family (hinv.kin.family A) hinv.kin.slot
    by_cases hstack : a = .stack p
    · rw [hnew p hstack]
      trivial
    by_cases hp : p = A
    · subst hp
      simp only [nextLife]
      rw [hself hstack]
      refine (hmove.got (hinv.kin.family p) (hinv.got p) fun q hz hparent => ?_).congr fun q _ _ =>
        (sameKin_of_data (hdata q)).pid
      refine ⟨⟨hparent, ?_⟩, rfl⟩
      rw [decide_eq_true_eq, (hinv.counts q).exits, hz]
      rfl
    · simp only [nextLife]
      rw [hother p hstack hp, Main.receipt_self]
      refine (hinv.got p).congr fun q v hq => ?_
      rw [(sameKin_of_data (hdata q)).pid]
      refine (hfamily.act.own_other (Ne.symm hp) (hinv.kin.family p) (fun r u hr hn => ?_) hq).pid
      exact hp (hinv.kin.seq.own.once p A r hn (map_fst_owns hr))

lemma LifeInv.step (hinv : LifeInv s h) (hok : StackSafe s) (hrule : Rule s l.cpu s') :
    LifeInv s' (nextLife s l s' h) where
  kin := hinv.kin.rule hok hrule
  counts := fun q => counts_next hrule hinv.kin.seq.own (hinv.counts q)
  stack := by
    intro q
    have hmem : MemStep s l s' q := hinv.kin.memStep hrule
    rw [hmem.kstack]
    refine (hinv.stack q).next (fun hf => hmem.stackFreed (of_decide_eq_true hf)) fun hg => ?_
    exact (hinv.freeing_before hrule hg).imp_right And.left
  dir := by
    intro q
    have hmem : MemStep s l s' q := hinv.kin.memStep hrule
    rw [hmem.pgdir]
    refine (hinv.dir q).next (fun hf => hmem.dirFreed (of_decide_eq_true hf)) fun hg => ?_
    exact (hinv.freeing_before hrule hg).imp_right And.right
  reaped := fun _ hq => hinv.reaped_step hrule hq
  maker := fun _ _ hq => hinv.maker_step hrule hq
  parent := fun _ _ hq => hinv.parent_step hok hrule hq
  got := fun _ => hinv.got_step hrule

lemma lifeInv_boot : LifeInv boot bootLife where
  kin := kinInv_boot
  counts := by
    intro q
    rw [slot_boot, bootLife]
    split_ifs <;> exact ⟨rfl, rfl⟩
  stack := by
    intro q
    rw [slot_boot, bootLife]
    split_ifs
    · exact ⟨fun _ => rfl, (fun h => by cases h), (fun h => by cases h)⟩
    · exact ⟨(fun h => by cases h), fun _ => .inl rfl, (fun h => by cases h)⟩
  dir := by
    intro q
    rw [slot_boot, bootLife]
    split_ifs
    · exact ⟨fun _ => rfl, (fun h => by cases h), (fun h => by cases h)⟩
    · exact ⟨(fun h => by cases h), fun _ => .inl rfl, (fun h => by cases h)⟩
  reaped := by
    intro q hq
    rw [bootLife] at hq
    split_ifs at hq
  maker := by
    intro q A hq
    rw [slot_boot] at hq
    split_ifs at hq <;> cases hq
  parent := by
    intro q A hq
    rw [slot_boot] at hq
    split_ifs at hq <;> cases hq
  got := by
    intro p
    rcases thread_boot p with h | h <;> rw [h] <;> trivial

/-! ### Reaping is exact -/

structure ReapExact (s : State) (h : Slot → Life) : Prop where
  /-- what `wait` returns is the pid of a child of the caller that has called `exit`, or -1 -/
  returned : ∀ p v, (s.slot p).thread.main = .waitPop v → Returns p (h p).got v
  /-- a process exits at most once, and it is reaped at most once, after that -/
  once : ∀ q, (h q).reaps ≤ (h q).exits ∧ (h q).exits ≤ (h q).starts ∧
    (h q).starts ≤ (h q).reaps + 1
  /-- no kernel stack and no page directory is freed twice -/
  freed : ∀ q n, (h q).stackFrees = some n ∨ (h q).dirFrees = some n → n ≤ 1
  /-- a slot that `wait` has freed is `UNUSED` and cleared, with its memory freed once -/
  reaped : ∀ q, (h q).reaped = true → Reaped (s.slot q) (h q) ∧ (s.slot q).parent = none
  /-- a parent is a process that has not been reaped since, and it is the one that called `fork` or
      `initproc` -/
  parent : ∀ q A, (s.slot q).parent = some A → (s.slot A).state.stage = .live ∧
    (h q).parentReaps = (h A).reaps ∧ ((h q).maker = some A ∨ A = initproc)

lemma Freed.le {has : Bool} {g : Stage} {n : Option Nat} {k : Nat} (hfreed : Freed has g n)
    (hn : n = some k) : k ≤ 1 := by
  subst hn
  cases has with
  | true =>
    cases hfreed.there rfl
    exact Nat.zero_le 1
  | false =>
    rcases hfreed.gone rfl with hk | hk
    · cases hk
    · cases hk
      exact Nat.le_refl 1

lemma Counts.once {x : Proc} {z : Life} (hc : Counts x z) :
    z.reaps ≤ z.exits ∧ z.exits ≤ z.starts ∧ z.starts ≤ z.reaps + 1 := by
  obtain ⟨hstarts, hexits⟩ := hc
  rw [hstarts, hexits]
  cases x.state <;> simp [PState.stage, PState.dying]

lemma LifeInv.reapExact (hinv : LifeInv s h) : ReapExact s h where
  returned := by
    intro p v hmain
    have hgot := hinv.got p
    rwa [hmain] at hgot
  once := fun q => (hinv.counts q).once
  freed := by
    rintro q n (hn | hn)
    · exact (hinv.stack q).le hn
    · exact (hinv.dir q).le hn
  reaped := by
    intro q hq
    have hreaped := hinv.reaped q hq
    refine ⟨hreaped, ((hinv.kin.slot q).free ?_).parent⟩
    rw [hreaped.state]
    rfl
  parent := fun q A hq => ⟨hinv.kin.parent q A hq, hinv.parent q A hq, hinv.maker q A hq⟩

/-- In every run in which no CPU is on a stack that is published, so that each process is one
    sequential thread and a `ZOMBIE` has taken its last step, reaping is exact. -/
theorem reapExact_of_stackSafe {x : State × (Slot → Life)}
    (hrun : Reach (withHistory step nextLife) (fun y _ => StackSafe y.1) (boot, bootLife) x) :
    ReapExact x.1 x.2 := by
  have hinv : LifeInv x.1 x.2 := by
    refine hrun.invariant (I := fun y => LifeInv y.1 y.2) lifeInv_boot ?_
    rintro y l z hinv hok hstep
    obtain ⟨hst, hnext⟩ := withHistory_eq_some.mp hstep
    rw [hnext]
    exact hinv.step hok (step_rule hst)
  exact hinv.reapExact

/-- The first process forks, the child exits, and `wait` returns its pid. -/
theorem reapExact_after_wait : ∃ s h,
    Reach (withHistory step nextLife) (fun y _ => StackSafe y.1) (boot, bootLife) (s, h) ∧
      (s.slot initproc).thread.main = .waitPop 3 ∧ (s.slot firstChild).state = .unused ∧
      ReapExact s h := by
  have hexec : ∃ s, Reach step NoRepublish boot s ∧
      (s.slot initproc).thread.main = .waitPop 3 ∧ (s.slot firstChild).state = .unused :=
    Reach.exists_of_exec
      (forkRun ++ exitRun ++ [.op 0 .wait] ++ List.replicate 14 (.run 0)) (by decide +kernel)
  obtain ⟨s, hrun, hmain, hstate⟩ := hexec
  have hsafe : Reach step (fun s _ => StackSafe s) boot s :=
    hrun.strengthen stackInv_boot (fun _ _ _ hinv hok hstep => hinv.rule hok (step_rule hstep))
      fun _ _ hinv _ => hinv.stackSafe
  obtain ⟨h, hlife⟩ := Reach.withHistory hsafe bootLife
  exact ⟨s, h, hlife, hmain, hstate, reapExact_of_stackSafe hlife⟩

end Xv6.Sched
