import Xv6.Sched.Moves

/-!
# What the steps of each function do

For each step function a list of the changes it can make, in the terms that the later files need:
which slot is written, what happens to the states of processes, and where the code goes on.
-/

namespace Xv6.Sched

open Machine Option

variable {s : State} {c : CpuId} {p q : Slot} {t : Thread} {a : Act} {u : State} {r : Slot} {f : Call}
  {m : Main} {old new : PState}

/-! ### Fields after an update -/

@[simp] lemma cpu_setCpu (s : State) (c : CpuId) (k : Cpu) : (setCpu s c k).cpu c = k := by
  simp [setCpu]

lemma setCpu_self (s : State) (c : CpuId) : setCpu s c (s.cpu c) = s := by
  rw [setCpu, Function.update_eq_self]

lemma cpu_setCpu_of_ne (s : State) {c d : CpuId} (k : Cpu) (h : d ≠ c) :
    (setCpu s c k).cpu d = s.cpu d := by
  simp [setCpu, Function.update_of_ne h]

@[simp] lemma slot_setCpu (s : State) (c : CpuId) (k : Cpu) : (setCpu s c k).slot = s.slot := rfl

@[simp] lemma slot_setProc (s : State) (p : Slot) (x : Proc) : (setProc s p x).slot p = x := by
  simp [setProc]

lemma slot_setProc_of_ne (s : State) {p q : Slot} (x : Proc) (h : q ≠ p) :
    (setProc s p x).slot q = s.slot q := by
  simp [setProc, Function.update_of_ne h]

@[simp] lemma cpu_setThread (s : State) (p : Slot) (t : Thread) : (setThread s p t).cpu = s.cpu := rfl

@[simp] lemma slot_setThread (s : State) (p : Slot) (t : Thread) :
    (setThread s p t).slot p = { s.slot p with thread := t } := by
  simp [setThread]

lemma slot_setThread_of_ne (s : State) {p q : Slot} (t : Thread) (h : q ≠ p) :
    (setThread s p t).slot q = s.slot q := by
  rw [setThread, slot_setProc_of_ne _ _ h]

@[simp] lemma thread_setThread (s : State) (p : Slot) (t : Thread) :
    ((setThread s p t).slot p).thread = t := by
  rw [slot_setThread]

lemma slot_setThread_field {α : Type} (f : Proc → α) (s : State) (p q : Slot) (t : Thread)
    (h : ∀ x : Proc, f { x with thread := t } = f x) :
    f ((setThread s p t).slot q) = f (s.slot q) := by
  by_cases hq : q = p
  · rw [hq, slot_setThread, h]
  · rw [slot_setThread_of_ne s t hq]

@[simp] lemma state_setThread (s : State) (p q : Slot) (t : Thread) :
    ((setThread s p t).slot q).state = (s.slot q).state :=
  slot_setThread_field Proc.state s p q t fun _ => rfl

@[simp] lemma chan_setThread (s : State) (p q : Slot) (t : Thread) :
    ((setThread s p t).slot q).chan = (s.slot q).chan :=
  slot_setThread_field Proc.chan s p q t fun _ => rfl

@[simp] lemma parent_setThread (s : State) (p q : Slot) (t : Thread) :
    ((setThread s p t).slot q).parent = (s.slot q).parent :=
  slot_setThread_field Proc.parent s p q t fun _ => rfl

@[simp] lemma Act.cpu_apply (a : Act) (s : State) : (a.apply s).cpu = s.cpu := by
  cases a <;> rfl

lemma Act.slot_apply (a : Act) (s : State) (q : Slot) :
    (a.apply s).slot q = if a.target = some q then a.update (s.slot q) else s.slot q := by
  cases htarget : a.target with
  | none =>
    rw [if_neg (by simp)]
    cases a <;> first | rfl | cases htarget
  | some r =>
    have happly : a.apply s = setProc s r (a.update (s.slot r)) := by
      cases a <;> first | cases htarget; rfl | cases htarget
    rw [happly]
    by_cases hqr : q = r
    · rw [hqr, if_pos rfl, slot_setProc]
    · rw [if_neg fun h => hqr (some.inj h).symm, slot_setProc_of_ne _ _ hqr]

/-- An act changes no field but its own. -/
lemma Act.field_apply {α : Type} (f : Proc → α) (a : Act) (s : State)
    (h : a.target = some q → f (a.update (s.slot q)) = f (s.slot q)) :
    f ((a.apply s).slot q) = f (s.slot q) := by
  rw [a.slot_apply]
  split_ifs with hq
  · exact h hq
  · rfl

lemma Act.state_apply (a : Act) (s : State) (h : ∀ v, a ≠ .state q v) :
    ((a.apply s).slot q).state = (s.slot q).state := by
  refine a.field_apply Proc.state s fun hq => ?_
  cases a with
  | state r v =>
    cases hq
    exact absurd rfl (h v)
  | _ => rfl

lemma Act.thread_apply (a : Act) (s : State) (h : a ≠ .stack q) :
    ((a.apply s).slot q).thread = (s.slot q).thread := by
  refine a.field_apply Proc.thread s fun hq => ?_
  cases a with
  | stack =>
    cases hq
    exact absurd rfl h
  | _ => rfl

lemma Act.chan_apply (a : Act) (s : State) (h : ∀ v, a ≠ .chan q v) :
    ((a.apply s).slot q).chan = (s.slot q).chan := by
  refine a.field_apply Proc.chan s fun hq => ?_
  cases a with
  | chan r v =>
    cases hq
    exact absurd rfl (h v)
  | _ => rfl

lemma Act.parent_apply (a : Act) (s : State) (h : ∀ v, a ≠ .parent q v) :
    ((a.apply s).slot q).parent = (s.slot q).parent := by
  refine a.field_apply Proc.parent s fun hq => ?_
  cases a with
  | parent r v =>
    cases hq
    exact absurd rfl (h v)
  | _ => rfl

@[simp] lemma state_apply_state (s : State) (q : Slot) (v : PState) :
    (((Act.state q v).apply s).slot q).state = v := by
  simp [Act.slot_apply, Act.target, Act.update]

lemma cas_ne_chan (w : Chan) : cas s q old new ≠ .chan r w := by
  rw [cas]
  split_ifs <;> intro h <;> cases h

lemma cas_ne_parent (w : Option Slot) : cas s q old new ≠ .parent r w := by
  rw [cas]
  split_ifs <;> intro h <;> cases h

lemma none_ne_stack (q : Slot) : Act.none ≠ .stack q := by
  intro h
  cases h

lemma state_ne_stack (q : Slot) (v : PState) (r : Slot) : Act.state q v ≠ .stack r := by
  intro h
  cases h

@[simp] lemma Act.apply_none (s : State) : Act.none.apply s = s := rfl

@[simp] lemma thread_apply_state (s : State) (q r : Slot) (v : PState) :
    (((Act.state q v).apply s).slot r).thread = (s.slot r).thread :=
  Act.thread_apply _ s (state_ne_stack q v r)

@[simp] lemma chan_apply_chan (s : State) (q : Slot) (v : Chan) :
    (((Act.chan q v).apply s).slot q).chan = v := by
  simp [Act.slot_apply, Act.target, Act.update]

@[simp] lemma parent_apply_parent (s : State) (q : Slot) (v : Option Slot) :
    (((Act.parent q v).apply s).slot q).parent = v := by
  simp [Act.slot_apply, Act.target, Act.update]

@[simp] lemma thread_apply_stack (s : State) (q : Slot) :
    (((Act.stack q).apply s).slot q).thread = .new := by
  simp [Act.slot_apply, Act.target, Act.update]

lemma Act.state_congr (a : Act) (h : (u.slot q).state = (s.slot q).state) :
    ((a.apply u).slot q).state = ((a.apply s).slot q).state := by
  rw [a.slot_apply, a.slot_apply]
  split_ifs
  · cases a <;> first | rfl | exact h
  · exact h

lemma Act.chan_congr (a : Act) (h : (u.slot q).chan = (s.slot q).chan) :
    ((a.apply u).slot q).chan = ((a.apply s).slot q).chan := by
  rw [a.slot_apply, a.slot_apply]
  split_ifs
  · cases a <;> first | rfl | exact h
  · exact h

lemma Act.parent_congr (a : Act) (h : (u.slot q).parent = (s.slot q).parent) :
    ((a.apply u).slot q).parent = ((a.apply s).slot q).parent := by
  rw [a.slot_apply, a.slot_apply]
  split_ifs
  · cases a <;> first | rfl | exact h
  · exact h

lemma cas_eq_state {old new v : PState} (h : cas s q old new = .state r v) :
    r = q ∧ v = new ∧ (s.slot q).state = old := by
  rw [cas] at h
  split_ifs at h with hold
  cases h
  exact ⟨rfl, rfl, hold⟩

/-! ### Calls -/

/-- The calls that can give up the CPU. -/
def Call.switches : Call → Bool
  | .yield | .yieldCas | .yieldPop | .sched _ | .schedNeg _ | .schedSwtch .. | .schedBack .. => true
  | _ => false

/-- In `sched` up to its `swtch`. -/
def Call.leaving : Call → Bool
  | .sched _ | .schedNeg _ | .schedSwtch .. => true
  | _ => false

lemma Call.not_leaving (h : f.switches = false) : f.leaving = false := by
  cases f <;> first | rfl | cases h

/-- What the steps of a call do: they wake up a sleeping process, make the running one
    `NEG_RUNNABLE`, or leave the table alone. -/
inductive CallEdge (s : State) (po : Option Slot) (f : Call) : Option Call → Act → Prop
  | quiet (f' : Option Call) (a : Act) (ha : a.target = none)
      (hswitch : f'.any Call.switches = true → f.switches = true)
      (hleave : f'.any Call.leaving = f.leaving) : CallEdge s po f f' a
  | wake (f' : Option Call) (q : Slot) (h : (s.slot q).state = .sleeping)
      (hswitch : f'.any Call.switches = false) (hleave : f'.any Call.leaving = f.leaving) :
      CallEdge s po f f' (.state q .runnable)
  | yield (p : Slot) (hpo : po = some p) (hf : f = .yieldCas) :
      CallEdge s po f (some (.sched true)) (cas s p .running .negRunnable)

lemma wakeup1Next_quiet (b : Bool) (chan : Chan) (q : Slot) :
    (wakeup1Next b chan q).any Call.switches = false ∧ (wakeup1Next b chan q).any Call.leaving = false := by
  rw [wakeup1Next]
  split
  · exact ⟨rfl, rfl⟩
  · cases b <;> exact ⟨rfl, rfl⟩

lemma callStep_edge {po : Option Slot} {f' : Option Call} {i : Intr}
    (h : callStep s c po f = some (.go f' a i)) : CallEdge s po f f' a := by
  cases f with
  | wakeup1 b chan q =>
    cases h
    split_ifs
    · exact .quiet _ _ rfl (fun h => h) rfl
    · obtain ⟨hswitch, hleave⟩ := wakeup1Next_quiet b chan q
      exact .quiet _ _ rfl (fun h => absurd (hswitch.symm.trans h) Bool.false_ne_true) hleave
  | wakeup1Spin =>
    cases h
    split_ifs <;> exact .quiet _ _ rfl (fun h => h) rfl
  | wakeup1Cas b chan q =>
    cases h
    obtain ⟨hswitch, hleave⟩ := wakeup1Next_quiet b chan q
    rw [cas]
    split_ifs with hold
    · exact .wake _ q hold hswitch hleave
    · exact .quiet _ _ rfl (fun h => absurd (hswitch.symm.trans h) Bool.false_ne_true) hleave
  | yieldCas =>
    cases po with
    | none => simp [callStep] at h
    | some p =>
      cases h
      exact .yield p rfl rfl
  | sched | schedNeg =>
    cases po with
    | none => simp [callStep] at h
    | some =>
      simp only [callStep, some.injEq] at h
      split_ifs at h
      cases h
      exact .quiet _ _ rfl (fun _ => rfl) rfl
  | schedSwtch => cases po <;> simp [callStep] at h
  | schedBack b =>
    cases h
    cases b <;> exact .quiet _ _ rfl (fun _ => rfl) rfl
  | releasePop | yieldPop | wakeupPop =>
    obtain ⟨-, rfl, rfl⟩ := pop_eq_go (some.inj h)
    exact .quiet _ _ rfl (fun h => by cases h) rfl
  | acquire | acquireSpin | release =>
    simp only [callStep] at h
    split_ifs at h <;> cases h <;> exact .quiet _ _ rfl (fun h => h) rfl
  | acquireCpu | releaseFree | yield | wakeup =>
    cases h
    exact .quiet _ _ rfl (fun h => h) rfl

/-! ### `sleep` -/

/-- What the steps of a call of `sleep` do. -/
inductive SleepEdge (s : State) (p : Slot) (z : Sleep) : Option Sleep → Option Call → Act → Prop
  | start (f : Option Call) (hpc : z.pc = .start) (hf : f = none ∨ ∃ lk, f = some (.release lk)) :
      SleepEdge s p z (some { z with pc := .chan }) f .none
  | chan (hpc : z.pc = .chan) :
      SleepEdge s p z (some { z with pc := .cas }) none (.chan p z.chan)
  | cas (hpc : z.pc = .cas) :
      SleepEdge s p z (some { z with pc := .tidy }) (some (.sched false))
        (cas s p .running .negSleeping)
  | tidy (hpc : z.pc = .tidy) :
      SleepEdge s p z (some { z with pc := .pop }) none (.chan p .null)
  | pop (lk : Lock) (hpc : z.pc = .pop) :
      SleepEdge s p z (some { z with pc := .ret }) (some (.acquire lk)) .none
  | ret (hpc : z.pc = .pop ∨ z.pc = .ret) : SleepEdge s p z none none .none

lemma sleepStep_edge {z : Sleep} {x : Option Sleep × Option Call} {i : Intr}
    (h : sleepStep s c p z = .go x a i) : SleepEdge s p z x.1 x.2 a := by
  obtain ⟨chan, lk, pc⟩ := z
  cases pc with
  | start =>
    cases lk with
    | some lk =>
      cases h
      exact .start _ rfl (.inr ⟨lk, rfl⟩)
    | none =>
      cases h
      exact .start _ rfl (.inl rfl)
  | chan =>
    cases h
    exact .chan rfl
  | cas =>
    cases h
    exact .cas rfl
  | tidy =>
    cases h
    exact .tidy rfl
  | pop =>
    cases lk with
    | some lk =>
      obtain ⟨-, rfl, rfl⟩ := pop_eq_go h
      exact .pop lk rfl
    | none =>
      cases h
      exact .ret (.inl rfl)
  | ret =>
    cases h
    exact .ret (.inr rfl)

/-! ### System calls -/

/-- The slot that a process is setting up or freeing, and the state of that slot. -/
def Main.owns : Main → Option (Slot × PState)
  | .allocFound np | .pidOld np | .pidNew np _ | .pidNext np _ _ | .pidCas np _ _ _ | .setPid np _
  | .allocStack np | .allocDrop np | .copyuvm np | .forkFree np | .forkDrop np | .forkParent np
  | .forkPid np | .forkPush np _ | .forkRun np _ => some (np, .embryo)
  | .waitPid q | .waitFree q _ | .waitFreevm q _ | .waitClearPid q _ | .waitClearParent q _
  | .waitClearKilled q _ | .waitUnused q _ => some (q, .negUnused)
  | _ => none

/-- In `exit` between its call of `wakeup1` on the parent and its call of `sched`. -/
def Main.woke : Main → Option (Option Slot)
  | .exitWoke w | .exitLoop w _ | .exitGive w _ | .exitZombie w _ | .exitNegZombie w _
  | .exitAgain w _ | .exitSched w => some w
  | _ => none

/-- In `exit` after its `cas` and before its call of `sched`. -/
def Main.exiting (m : Main) : Bool := m = .exitParent || m.woke.isSome

/-- In `exit` after its `cas`, the call of `sched` at its end included. -/
def Main.inExit (m : Main) : Bool :=
  match m with
  | .zombieExit _ => true
  | m => m.exiting

lemma Main.not_exiting (h : m.inExit = false) : m.exiting = false := by
  cases m <;> first | rfl | exact h

/-- In the call of `wakeup1` on the parent in `exit`. -/
def Main.telling : Main → Bool
  | .exitWoke _ => true
  | _ => false

/-- In the scan of `wait`. -/
def Main.scanning : Main → Bool
  | .waitScan | .waitTest .. | .waitNeg _ | .waitZombie _ | .waitReap _ | .waitKids _ => true
  | _ => false

/-- What the steps of the outermost function of `p` do. -/
inductive MainEdge (s : State) (p : Slot) : Main → Thread → Act → Prop
  /-- a step that changes no state, and no slot but one that the process owns -/
  | plain (m m' : Main) (a : Act) (howns : m'.owns = m.owns) (hm : m.inExit = false)
      (hexit : m'.inExit = false) (hscan : m'.scanning = false)
      (ha : ∀ q, a.target = some q → (∃ v, m.owns = some (q, v) ∧ (∀ u, a ≠ .state q u) ∧
        ∀ u, a ≠ .chan q u) ∨ ∃ v, a = .killed q v) : MainEdge s p m (.at m') a
  | take (m m' : Main) (q : Slot) (v : PState) (howns : m.owns = none)
      (howns' : m'.owns = some (q, v)) (hm : m.inExit = false) (hexit : m'.inExit = false)
      (h : (s.slot q).state = .unused ∧ v = .embryo ∨ (s.slot q).state = .zombie ∧ v = .negUnused) :
      MainEdge s p m (.at m') (.state q v)
  | give (m m' : Main) (q : Slot) (u v : PState) (howns : m.owns = some (q, u))
      (howns' : m'.owns = none) (hm : m.inExit = false) (hexit : m'.inExit = false)
      (hscan : m'.scanning = false)
      (hv : u = .embryo ∧ (v = .unused ∨ v = .runnable) ∨ u = .negUnused ∧ v = .unused) :
      MainEdge s p m (.at m') (.state q v)
  | drop (m m' : Main) (howns' : m'.owns = none) (hm : m.inExit = false)
      (hexit : m'.inExit = false) (hscan : m'.scanning = false) : MainEdge s p m (.at m') .none
  | killCas (h : (s.slot p).state = .sleeping) :
      MainEdge s p .killCas (.at .killPop) (.state p .runnable)
  | exitCas : MainEdge s p .exitCas (.at .exitParent) (cas s p .running .negZombie)
  | exitParent :
      MainEdge s p .exitParent
        ⟨.exitWoke (s.slot p).parent, none, none,
          some (.wakeup1 false (.ofProc (s.slot p).parent) slot0)⟩ .none
  | exitLoop (m m' : Main) (w : Option Slot) (f : Option Call) (a : Act) (hm : m.woke = some w)
      (hm' : m'.woke = some w) (hwoke : m'.telling = false)
      (hf : f = none ∨ f = some (.wakeup1 false (.proc initproc) slot0))
      (ha : a = .none ∨ ∃ q, a = .parent q (some initproc)) :
      MainEdge s p m ⟨m', none, none, f⟩ a
  | exitSched (w : Option Slot) :
      MainEdge s p (.exitSched w) ⟨.zombieExit w, none, none, some (.sched false)⟩ .none
  | wait : MainEdge s p .wait (.at .waitScan) .none
  | waitScan : MainEdge s p .waitScan (.at (.waitTest slot0 false)) .none
  | waitTest (q : Slot) (havekids : Bool) :
      MainEdge s p (.waitTest q havekids)
        (.at (if (s.slot q).parent = some p then .waitNeg q else waitNext q havekids)) .none
  | waitNeg (q : Slot) :
      MainEdge s p (.waitNeg q)
        (.at (if (s.slot q).state = .negZombie then .waitReap q else .waitZombie q)) .none
  | waitZombie (q : Slot) :
      MainEdge s p (.waitZombie q)
        (.at (if (s.slot q).state = .zombie then .waitReap q else waitNext q true)) .none
  | waitAgain (q : Slot) : MainEdge s p (.waitReap q) (.at (.waitNeg q)) .none
  | waitSleep (havekids : Bool) :
      MainEdge s p (.waitKids havekids)
        ⟨.waitScan, some ⟨.proc p, none, .start⟩, none, none⟩ .none
  /-- a call that other code makes -/
  | call (m : Main) (f : Call) (hexit : m.inExit = false) (hscan : m.scanning = false)
      (hf : f.switches = false ∨ f = .yield) :
      MainEdge s p m ⟨m, none, none, some f⟩ .none
  | sleep (m : Main) (chan : Chan) (lk : Lock) (hexit : m.inExit = false)
      (hscan : m.scanning = false) :
      MainEdge s p m ⟨m, some ⟨chan, some lk, .start⟩, none, none⟩ .none

lemma MainEdge.none {m m' : Main} (howns : m'.owns = m.owns) (hm : m.inExit = false)
    (hexit : m'.inExit = false) (hscan : m'.scanning = false) : MainEdge s p m (.at m') .none :=
  .plain m m' _ howns hm hexit hscan fun _ h => by cases h

/-- A step at the slot that the process owns. -/
lemma MainEdge.owned {m m' : Main} {q : Slot} {v : PState} (howns : m.owns = some (q, v))
    (howns' : m'.owns = m.owns) (hm : m.inExit = false) (hexit : m'.inExit = false)
    (hscan : m'.scanning = false) (ha : a.target = some q) (hstate : ∀ u, a ≠ .state q u)
    (hchan : ∀ u, a ≠ .chan q u) : MainEdge s p m (.at m') a := by
  refine .plain m m' a howns' hm hexit hscan fun r hr => .inl ?_
  obtain rfl := some.inj (ha.symm.trans hr)
  exact ⟨v, howns, hstate, hchan⟩

lemma woke_exitNext (w : Option Slot) (q : Slot) : (exitNext w q).woke = some w := by
  rw [exitNext]
  split <;> rfl

lemma telling_exitNext (w : Option Slot) (q : Slot) : (exitNext w q).telling = false := by
  rw [exitNext]
  split <;> rfl

lemma MainStep.edge {i i' : Intr} (h : MainStep s p i m t a i') : MainEdge s p m t a := by
  cases h with
  | allocTake hfree => exact .take _ _ _ _ rfl rfl rfl rfl (.inl ⟨hfree, rfl⟩)
  | waitReap hz => exact .take _ _ _ _ rfl rfl rfl rfl (.inr ⟨hz, rfl⟩)
  | allocDrop | forkDrop => exact .give _ _ _ .embryo _ rfl rfl rfl rfl rfl (.inl ⟨rfl, .inl rfl⟩)
  | forkRun => exact .give _ _ _ .embryo _ rfl rfl rfl rfl rfl (.inl ⟨rfl, .inr rfl⟩)
  | waitUnused => exact .give _ _ _ .negUnused _ rfl rfl rfl rfl rfl (.inr ⟨rfl, rfl⟩)
  | allocLost | forkLost | waitNone => exact .drop _ _ rfl rfl rfl rfl
  | pidCas => exact .plain _ _ _ rfl rfl rfl rfl nofun
  | killSet =>
    refine .plain _ _ _ rfl rfl rfl rfl fun q hq => .inr ⟨true, ?_⟩
    cases hq
    rfl
  | setPid | forkFree | forkParent | waitFree | waitFreevm | waitClearPid | waitClearParent
  | waitClearKilled => exact .owned rfl rfl rfl rfl rfl rfl nofun nofun
  | exitWoke | exitKid | exitOther => exact .exitLoop _ _ _ none _ rfl rfl rfl (.inl rfl) (.inl rfl)
  | exitLoop | exitAlive | exitAgain =>
    exact .exitLoop _ _ _ none _ rfl (woke_exitNext _ _) (telling_exitNext _ _) (.inl rfl) (.inl rfl)
  | exitGive => exact .exitLoop _ _ _ none _ rfl rfl rfl (.inl rfl) (.inr ⟨_, rfl⟩)
  | exitZombie | exitNegZombie => exact .exitLoop _ _ _ _ _ rfl rfl rfl (.inr rfl) (.inl rfl)
  | exitCas => exact .exitCas
  | exitParent => exact .exitParent
  | exitSched => exact .exitSched _
  | wait => exact .wait
  | waitScan => exact .waitScan
  | waitTest => exact .waitTest _ _
  | waitNeg => exact .waitNeg _
  | waitZombie => exact .waitZombie _
  | waitAgain => exact .waitAgain _
  | waitSleep => exact .waitSleep _
  | killCas h => exact .killCas h
  | _ => exact .none rfl rfl rfl rfl

lemma Op.switches_of_call {o : Op} (h : o.call = some f) : f.switches = false := by
  cases o <;> cases h <;> rfl

lemma MainOp.edge {o : Op} (h : MainOp m o t a) : MainEdge s p m t a := by
  have hfree : m = .exitClose ∨ (∃ v, m = .code v) → m.inExit = false ∧ m.scanning = false := by
    rintro (rfl | ⟨v, rfl⟩) <;> exact ⟨rfl, rfl⟩
  cases h with
  | call hm hf => exact .call _ _ (hfree hm).1 (hfree hm).2 (.inl (Op.switches_of_call hf))
  | sleep hm => exact .sleep _ _ _ (hfree hm).1 (hfree hm).2
  | yield => exact .call _ _ rfl rfl (.inr rfl)
  | stack | dir | noDir => exact .owned rfl rfl rfl rfl rfl rfl nofun nofun
  | _ => exact .none rfl rfl rfl rfl

/-! ### The scheduler -/

/-- The process that a CPU holds: from the moment that `scheduler` has made it `NEG_RUNNING` until
    it has published its state after the `swtch` back. -/
def SchedPc.holds : SchedPc → Option Slot
  | .set p | .run p | .swtch p | .pub1 p | .pub2 p false | .pub3 p false => some p
  | _ => none

/-- What the steps of `scheduler` do. -/
inductive SchedEdge (s : State) (k : Cpu) : Cpu → Act → Prop
  | idle (k' : Cpu) (hpc : k.pc.holds = none) (hpc' : k'.pc.holds = none) (hcur : k'.cur = k.cur) :
      SchedEdge s k k' .none
  | take (p : Slot) (hpc : k.pc = .take p) (h : (s.slot p).state = .runnable) :
      SchedEdge s k { k with pc := .set p } (.state p .negRunning)
  | set (p : Slot) (hpc : k.pc = .set p) :
      SchedEdge s k { k with pc := .run p, proc := some p } .none
  | run (p : Slot) (hpc : k.pc = .run p) (h : (s.slot p).state = .negRunning) :
      SchedEdge s k { k with pc := .swtch p } (.state p .running)
  | swtch (p : Slot) (hpc : k.pc = .swtch p) :
      SchedEdge s k { k with pc := .pub1 p, cur := some p } .none
  | pub1 (p : Slot) (hpc : k.pc = .pub1 p) :
      SchedEdge s k { k with pc := .pub2 p (decide ((s.slot p).state = .negRunnable)) }
        (cas s p .negRunnable .runnable)
  | pub2 (p : Slot) (done : Bool) (hpc : k.pc = .pub2 p done) :
      SchedEdge s k { k with pc := .pub3 p (done || decide ((s.slot p).state = .negSleeping)) }
        (cas s p .negSleeping .sleeping)
  | pub3 (p : Slot) (done : Bool) (hpc : k.pc = .pub3 p done) :
      SchedEdge s k { k with pc := .clear p } (cas s p .negZombie .zombie)

lemma holds_schedNext (p : Slot) : (schedNext p).holds = none := by
  rw [schedNext]
  split <;> rfl

lemma schedStep_edge {k k' : Cpu} (h : schedStep s k = .ok (k', a)) : SchedEdge s k k' a := by
  obtain ⟨proc, cur, pc, irq, call, intr⟩ := k
  cases pc with
  | sti | pushcli =>
    cases h
    exact .idle _ rfl rfl rfl
  | test p =>
    cases h
    refine .idle _ rfl ?_ rfl
    split_ifs
    · rfl
    · exact holds_schedNext p
  | take p =>
    simp only [schedStep] at h
    split_ifs at h with hrun
    · cases h
      exact .take p rfl hrun
    · cases h
      exact .idle _ rfl (holds_schedNext p) rfl
  | set p =>
    cases h
    exact .set p rfl
  | run p =>
    simp only [schedStep] at h
    split_ifs at h with hneg
    cases h
    exact .run p rfl hneg
  | swtch p =>
    cases h
    exact .swtch p rfl
  | pub1 p =>
    cases h
    exact .pub1 p rfl
  | pub2 p done =>
    cases h
    exact .pub2 p done rfl
  | pub3 p done =>
    cases h
    exact .pub3 p done rfl
  | clear p =>
    cases h
    exact .idle _ rfl (holds_schedNext p) rfl
  | popcli =>
    simp only [schedStep] at h
    split at h
    · cases h
      exact .idle _ rfl rfl rfl
    · cases h

end Xv6.Sched
