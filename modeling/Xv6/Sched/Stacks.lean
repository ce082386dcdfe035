import Xv6.Sched.Owners

/-!
# Kernel stacks

A process that is on its way out of a CPU is in one of the states `NEG_RUNNABLE`, `NEG_SLEEPING` and
`NEG_ZOMBIE`, which nobody but the CPU itself takes it out of, with a `cas` after the `swtch`. But
`scheduler` tries the three `cas` one after the other: after one has taken effect, another CPU can
take the process and bring it into the state that a later one looks for.
-/

namespace Xv6.Sched

open Machine Option

variable {s s' u : State} {c d : CpuId} {p q r : Slot} {t t' : Thread} {a : Act} {l : Label}
  {m : Main} {k k' : Cpu} {x y : Proc} {v : PState} {b : Bool} {old new : PState}

/-! ### Leaving the CPU -/

/-- The states of a process that some CPU holds. -/
def PState.held : PState → Bool
  | .negRunning | .running | .negRunnable | .negSleeping | .negZombie => true
  | _ => false

/-- The states of a process that is about to leave its CPU. -/
def PState.leaving : PState → Bool
  | .negRunnable | .negSleeping | .negZombie => true
  | _ => false

/-- Past the `cas` that takes the process out of `RUNNING`, and not yet at the `swtch`. -/
def Thread.leaving (t : Thread) : Bool := t.call.any Call.leaving || t.main.exiting

/-- Between its `cas` and its call of `sched`, `exit` does not give up the CPU. -/
def Thread.Nested (t : Thread) : Prop :=
  t.main.exiting = true → t.sleep = none ∧ t.irq = none ∧ t.call.any Call.switches = false

lemma Thread.nested_of_not_exiting (h : t.main.exiting = false) : t.Nested := by
  intro hexit
  rw [h] at hexit
  cases hexit

lemma Thread.Nested.of_sleep {z : Sleep} (hn : t.Nested) (h : t.sleep = some z) :
    t.main.exiting = false := by
  rw [← Bool.not_eq_true]
  intro hexit
  cases h.symm.trans (hn hexit).1

lemma Thread.Nested.of_irq {i : Irq} (hn : t.Nested) (h : t.irq = some i) : t.main.exiting = false := by
  rw [← Bool.not_eq_true]
  intro hexit
  cases h.symm.trans (hn hexit).2.1

lemma Thread.Nested.of_switches {f : Call} (hn : t.Nested) (h : t.call = some f)
    (hf : f.switches = true) : t.main.exiting = false := by
  rw [← Bool.not_eq_true]
  intro hexit
  have hcall := (hn hexit).2.2
  rw [h, any_some, hf] at hcall
  cases hcall

lemma PState.held_of_leaving {v : PState} (h : v.leaving = true) : v.held = true := by
  cases v <;> first | rfl | cases h

lemma PState.not_held_of_not_settled {v : PState} (h : ¬ v.Settled) : v.held = false := by
  cases v <;> first | rfl | exact absurd ⟨by decide, by decide⟩ h

lemma PState.negZombie_of_leaving (h : v.leaving = true) (hrun : v ≠ .negRunnable)
    (hsleep : v ≠ .negSleeping) : v = .negZombie := by
  cases v <;> first | rfl | contradiction

lemma exiting_waitNext (q : Slot) (b : Bool) : (waitNext q b).exiting = false := by
  rw [waitNext]
  split <;> rfl

lemma exiting_of_interruptible (h : m.interruptible = true) : m.exiting = false := by
  cases m <;> first | rfl | cases h

lemma exiting_of_woke {w : Option Slot} (h : m.woke = some w) : m.exiting = true := by
  rw [Main.exiting, h, isSome_some, Bool.or_true]

lemma MainEdge.nested (h : MainEdge s p m t a) : t.Nested := by
  cases h with
  | plain _ _ _ _ _ hexit | take _ _ _ _ _ _ _ hexit | give _ _ _ _ _ _ _ _ hexit
  | drop _ _ _ _ hexit | call _ _ hexit | sleep _ _ _ hexit =>
    exact Thread.nested_of_not_exiting (Main.not_exiting hexit)
  | exitCas | exitParent => exact fun _ => ⟨rfl, rfl, rfl⟩
  | exitLoop _ m' w f a hm hm' _ hf =>
    intro _
    rcases hf with rfl | rfl <;> exact ⟨rfl, rfl, rfl⟩
  | waitTest q havekids =>
    apply Thread.nested_of_not_exiting
    rw [Thread.at]
    split_ifs
    · rfl
    · exact exiting_waitNext q havekids
  | waitNeg =>
    apply Thread.nested_of_not_exiting
    rw [Thread.at]
    split_ifs <;> rfl
  | waitZombie q =>
    apply Thread.nested_of_not_exiting
    rw [Thread.at]
    split_ifs
    · rfl
    · exact exiting_waitNext q true
  | _ => exact Thread.nested_of_not_exiting rfl

lemma ProcRule.nested (hn : t.Nested) (h : ProcRule s c p t t' a) : t'.Nested := by
  cases h with
  | call f f' a i hcall h =>
    cases callStep_edge h with
    | quiet _ _ _ hswitch =>
      intro hexit
      refine ⟨(hn hexit).1, (hn hexit).2.1, ?_⟩
      rw [← Bool.not_eq_true]
      intro hf'
      exact absurd hexit (by simp [hn.of_switches hcall (hswitch hf')])
    | wake _ _ _ hswitch => exact fun hexit => ⟨(hn hexit).1, (hn hexit).2.1, hswitch⟩
    | yield _ _ hf =>
      exact Thread.nested_of_not_exiting (hn.of_switches hcall (by rw [hf]; rfl))
  | sleep z z' f a _ _ hsleep => exact Thread.nested_of_not_exiting (hn.of_sleep hsleep)
  | main _ _ _ h => exact h.nested
  | interrupt _ hmain => exact Thread.nested_of_not_exiting (exiting_of_interruptible hmain)
  | handler f _ hirq | trapEnd f _ hirq | leave _ hirq =>
    exact Thread.nested_of_not_exiting (hn.of_irq hirq)

/-- An act does not touch a process that some CPU holds. -/
def Act.Unheld (s : State) (a : Act) : Prop :=
  ∀ q, (∃ v, a = .state q v) ∨ a = .stack q → (s.slot q).state.held = false

lemma Act.unheld_quiet (h : a.target = Option.none) : a.Unheld s := by
  rintro q (⟨v, rfl⟩ | rfl) <;> cases h

lemma Act.unheld_state {v : PState} (h : (s.slot q).state.held = false) : (Act.state q v).Unheld s := by
  rintro r (⟨_, hr⟩ | hr)
  · cases hr
    exact h
  · cases hr

/-- How a step on the stack of `p` can change whether it is leaving. -/
inductive LeaveEdge (s : State) (p : Slot) : Bool → Bool → Act → Prop
  | stay (b : Bool) (a : Act) (ha : a.Unheld s) : LeaveEdge s p b b a
  | go (v : PState) (hv : v.leaving = true) : LeaveEdge s p false true (cas s p .running v)

lemma leaving_at (m : Main) : (Thread.at m).leaving = m.exiting := rfl

lemma MainEdge.leaveEdge (hown : OwnInv s) (hmain : (s.slot p).thread.main = m)
    (h : MainEdge s p m t a) : LeaveEdge s p m.exiting t.leaving a := by
  have hunheld : ∀ {q v}, m.owns = some (q, v) → (s.slot q).state.held = false := by
    intro q v howns
    rw [← hmain] at howns
    exact PState.not_held_of_not_settled (hown.not_settled howns)
  cases h with
  | plain _ m' a _ hm hexit _ ha =>
    rw [Main.not_exiting hm, leaving_at, Main.not_exiting hexit]
    refine .stay _ _ ?_
    rintro q (⟨v, rfl⟩ | rfl)
    · rcases ha q rfl with ⟨_, _, hne, _⟩ | ⟨_, heq⟩
      · exact absurd rfl (hne v)
      · cases heq
    · rcases ha q rfl with ⟨v, howns, _⟩ | ⟨_, heq⟩
      · exact hunheld howns
      · cases heq
  | take _ m' q v _ _ hm hexit hold =>
    rw [Main.not_exiting hm, leaving_at, Main.not_exiting hexit]
    refine .stay _ _ (Act.unheld_state ?_)
    rcases hold with ⟨hold, _⟩ | ⟨hold, _⟩ <;> rw [hold] <;> rfl
  | give _ m' q u v howns _ hm hexit =>
    rw [Main.not_exiting hm, leaving_at, Main.not_exiting hexit]
    exact .stay _ _ (Act.unheld_state (hunheld howns))
  | drop _ m' _ hm hexit =>
    rw [Main.not_exiting hm, leaving_at, Main.not_exiting hexit]
    exact .stay _ _ (Act.unheld_quiet rfl)
  | killCas hold => exact .stay _ _ (Act.unheld_state (by rw [hold]; rfl))
  | exitCas => exact .go .negZombie rfl
  | exitLoop _ m' w f a hm hm' _ hf ha =>
    rw [Thread.leaving, exiting_of_woke hm, exiting_of_woke hm', Bool.or_true]
    refine .stay _ _ ?_
    rcases ha with rfl | ⟨q, rfl⟩
    · exact Act.unheld_quiet rfl
    · rintro q (⟨v, hv⟩ | hq)
      · cases hv
      · cases hq
  | waitTest | waitZombie =>
    rw [leaving_at]
    split_ifs
    · exact .stay _ _ (Act.unheld_quiet rfl)
    · rw [exiting_waitNext]
      exact .stay _ _ (Act.unheld_quiet rfl)
  | waitNeg =>
    rw [leaving_at]
    split_ifs <;> exact .stay _ _ (Act.unheld_quiet rfl)
  | call m f hexit _ hf =>
    have hleave : f.leaving = false := by
      rcases hf with hf | rfl
      · exact Call.not_leaving hf
      · rfl
    rw [Thread.leaving, any_some, hleave, Main.not_exiting hexit]
    exact .stay _ _ (Act.unheld_quiet rfl)
  | _ => exact .stay _ _ (Act.unheld_quiet rfl)

lemma ProcRule.leaveEdge (hown : OwnInv s) (hn : (s.slot p).thread.Nested)
    (h : ProcRule s c p (s.slot p).thread t a) : LeaveEdge s p (s.slot p).thread.leaving t.leaving a := by
  cases h with
  | call f f' a i hcall h =>
    rw [Thread.leaving, Thread.leaving, hcall, any_some]
    cases callStep_edge h with
    | quiet _ _ ha _ hleave =>
      rw [hleave]
      exact .stay _ _ (Act.unheld_quiet ha)
    | wake _ q hold _ hleave =>
      rw [hleave]
      exact .stay _ _ (Act.unheld_state (by rw [hold]; rfl))
    | yield _ hp hf =>
      cases hp
      rw [hn.of_switches hcall (by rw [hf]; rfl), hf]
      exact .go .negRunnable rfl
  | sleep z z' f a hcall _ hsleep h =>
    rw [Thread.leaving, Thread.leaving, hcall, hn.of_sleep hsleep]
    cases h with
    | start f _ hf =>
      rcases hf with rfl | ⟨lk, rfl⟩ <;> exact .stay _ _ (Act.unheld_quiet rfl)
    | cas => exact .go .negSleeping rfl
    | chan | tidy =>
      refine .stay _ _ ?_
      rintro q (⟨v, hv⟩ | hq)
      · cases hv
      · cases hq
    | pop | ret => exact .stay _ _ (Act.unheld_quiet rfl)
  | main t a ht h =>
    rw [ht]
    exact h.leaveEdge hown rfl
  | interrupt ht =>
    rw [ht, leaving_at, Thread.leaving]
    exact .stay _ _ (Act.unheld_quiet rfl)
  | handler f hcall hirq hf =>
    rw [Thread.leaving, Thread.leaving, hcall, any_some, Call.not_leaving hf]
    exact .stay _ _ (Act.unheld_quiet rfl)
  | trapEnd f hcall hirq hf =>
    rw [Thread.leaving, Thread.leaving, hcall]
    rcases hf with rfl | rfl <;> exact .stay _ _ (Act.unheld_quiet rfl)
  | leave hcall =>
    rw [Thread.leaving, Thread.leaving, hcall]
    exact .stay _ _ (Act.unheld_quiet rfl)

/-! ### The processes that the CPUs hold -/

/-- How a CPU holds `p`, with the state of `p` and whether it is leaving: it is about to switch to
    `p`, on its stack, or back from there with the state of `p` not published. -/
inductive Hold (k : Cpu) (p : Slot) : PState → Bool → Prop
  | set (hpc : k.pc = .set p) (hcur : k.cur = none) : Hold k p .negRunning false
  | run (hpc : k.pc = .run p) (hcur : k.cur = none) (hproc : k.proc = some p) :
      Hold k p .negRunning false
  | swtch (hpc : k.pc = .swtch p) (hcur : k.cur = none) (hproc : k.proc = some p) :
      Hold k p .running false
  | running (hpc : k.pc = .pub1 p) (hcur : k.cur = some p) (hproc : k.proc = some p) :
      Hold k p .running false
  | leaving (v : PState) (hpc : k.pc = .pub1 p) (hcur : k.cur = some p) (hproc : k.proc = some p)
      (hv : v.leaving = true) : Hold k p v true
  | pub1 (v : PState) (hpc : k.pc = .pub1 p) (hcur : k.cur = none) (hv : v.leaving = true) :
      Hold k p v false
  | pub2 (v : PState) (hpc : k.pc = .pub2 p false) (hcur : k.cur = none) (hv : v.leaving = true)
      (hv' : v ≠ .negRunnable) : Hold k p v false
  | pub3 (hpc : k.pc = .pub3 p false) (hcur : k.cur = none) : Hold k p .negZombie false

/-- The process that a CPU holds is in a state in which no other CPU touches it. -/
lemma Hold.held (h : Hold k p v b) : v.held = true := by
  cases h with
  | leaving _ _ _ _ hv | pub1 _ _ _ hv | pub2 _ _ _ hv => exact PState.held_of_leaving hv
  | _ => rfl

lemma Hold.state_leaving (h : Hold k p v true) : v.leaving = true := by
  cases h with
  | leaving _ _ _ _ hv => exact hv

lemma Hold.holds (h : Hold k p v b) : k.pc.holds = some p := by
  cases h with
  | set hpc | run hpc | swtch hpc | running hpc | leaving _ hpc | pub1 _ hpc | pub2 _ hpc
  | pub3 hpc => rw [hpc, SchedPc.holds]

/-- The process on whose stack a CPU is, is the one that `scheduler` has switched to. -/
lemma Hold.of_cur (h : Hold k q v b) (hp : k.cur = some p) :
    q = p ∧ k.pc = .pub1 p ∧ k.proc = some p ∧
      (b = true ∧ v.leaving = true ∨ b = false ∧ v = .running) := by
  cases h with
  | running hpc hcur hproc =>
    cases hcur.symm.trans hp
    exact ⟨rfl, hpc, hproc, .inr ⟨rfl, rfl⟩⟩
  | leaving _ hpc hcur hproc hv =>
    cases hcur.symm.trans hp
    exact ⟨rfl, hpc, hproc, .inl ⟨rfl, hv⟩⟩
  | set _ hcur | run _ hcur | swtch _ hcur | pub1 _ _ hcur | pub2 _ _ hcur | pub3 _ hcur =>
    cases hcur.symm.trans hp

/-- The state of the process that a CPU holds while it is on its own stack. -/
def SchedPc.HeldState (pc : SchedPc) (v : PState) : Prop :=
  match pc with
  | .set _ | .run _ => v = .negRunning
  | .swtch _ => v = .running
  | .pub1 _ => v.leaving = true
  | .pub2 _ _ => v.leaving = true ∧ v ≠ .negRunnable
  | _ => v = .negZombie

lemma Hold.off (h : Hold k p v b) (hp : k.cur = none) : b = false ∧ k.pc.HeldState v := by
  cases h with
  | set hpc | run hpc | swtch hpc | pub3 hpc =>
    rw [hpc]
    exact ⟨rfl, rfl⟩
  | running _ hcur | leaving _ _ hcur => cases hcur.symm.trans hp
  | pub1 _ hpc _ hv =>
    rw [hpc]
    exact ⟨rfl, hv⟩
  | pub2 _ hpc _ hv hv' =>
    rw [hpc]
    exact ⟨rfl, hv, hv'⟩

/-- `c->proc` is set before the `swtch`. -/
lemma Hold.proc (h : Hold k q v b) (hp : k.pc = .run p ∨ k.pc = .swtch p) : k.proc = some p := by
  cases h with
  | run hpc _ hproc | swtch hpc _ hproc =>
    rw [hpc] at hp
    rcases hp with hp | hp <;> cases hp
    exact hproc
  | set hpc | running hpc | leaving _ hpc | pub1 _ hpc | pub2 _ hpc | pub3 hpc =>
    rw [hpc] at hp
    rcases hp with hp | hp <;> cases hp

lemma Hold.congr (h : Hold k p v b) (hpc : k'.pc = k.pc) (hcur : k'.cur = k.cur)
    (hproc : k'.proc = k.proc) : Hold k' p v b := by
  cases h with
  | set h1 h2 => exact .set (hpc.trans h1) (hcur.trans h2)
  | run h1 h2 h3 => exact .run (hpc.trans h1) (hcur.trans h2) (hproc.trans h3)
  | swtch h1 h2 h3 => exact .swtch (hpc.trans h1) (hcur.trans h2) (hproc.trans h3)
  | running h1 h2 h3 => exact .running (hpc.trans h1) (hcur.trans h2) (hproc.trans h3)
  | leaving v h1 h2 h3 hv => exact .leaving v (hpc.trans h1) (hcur.trans h2) (hproc.trans h3) hv
  | pub1 v h1 h2 hv => exact .pub1 v (hpc.trans h1) (hcur.trans h2) hv
  | pub2 v h1 h2 hv hv' => exact .pub2 v (hpc.trans h1) (hcur.trans h2) hv hv'
  | pub3 h1 h2 => exact .pub3 (hpc.trans h1) (hcur.trans h2)

/-- A CPU that holds no process is on its own stack. -/
def Held (s : State) (k : Cpu) : Prop :=
  match k.pc.holds with
  | none => k.cur = none
  | some p => Hold k p (s.slot p).state (s.slot p).thread.leaving

lemma Held.hold (h : Held s k) (hpc : k.pc.holds = some p) :
    Hold k p (s.slot p).state (s.slot p).thread.leaving := by
  rwa [Held, hpc] at h

lemma Hold.to_held (h : Hold k p (s.slot p).state (s.slot p).thread.leaving) : Held s k := by
  rwa [Held, h.holds]

lemma held_none (hpc : k.pc.holds = none) (hcur : k.cur = none) : Held s k := by
  rwa [Held, hpc]

lemma Held.of_cur (h : Held s k) (hcur : k.cur = some p) :
    Hold k p (s.slot p).state (s.slot p).thread.leaving := by
  cases hpc : k.pc.holds with
  | none =>
    rw [Held, hpc] at h
    cases h.symm.trans hcur
  | some =>
    obtain ⟨rfl, _⟩ := (h.hold hpc).of_cur hcur
    exact h.hold hpc

/-! ### The invariant -/

structure StackInv (s : State) : Prop where
  own : OwnInv s
  nested : ∀ p, (s.slot p).thread.Nested
  leaving : ∀ p, (s.slot p).thread.leaving = true → (s.slot p).state.leaving = true
  held : ∀ c, Held s (s.cpu c)
  once : Exclusive fun c => (s.cpu c).pc.holds

/-- What a step does to a slot that its CPU does not hold: nothing that concerns the stacks, unless
    no CPU holds the process. -/
def Untouched (x y : Proc) : Prop :=
  y.state = x.state ∧ y.thread = x.thread ∨
    x.state.held = false ∧ (y.thread = x.thread ∨ y.thread = .new)

lemma Held.untouched (h : Held s k)
    (hslot : ∀ q, k.pc.holds = some q → Untouched (s.slot q) (s'.slot q)) : Held s' k := by
  rw [Held] at h ⊢
  split at h
  · exact h
  · rename_i q hq
    rcases hslot q hq with ⟨hstate, hthread⟩ | ⟨hfree, _⟩
    · rwa [hstate, hthread]
    · rw [h.held] at hfree
      cases hfree

lemma StackInv.unheld (hinv : StackInv s) (h : (s.slot p).state.held = false) :
    (∀ c, (s.cpu c).pc.holds ≠ some p) ∧ (s.slot p).thread.leaving = false := by
  constructor
  · intro c hc
    rw [((hinv.held c).hold hc).held] at h
    cases h
  · rw [← Bool.not_eq_true]
    intro hleave
    rw [PState.held_of_leaving (hinv.leaving p hleave)] at h
    cases h

/-- A step keeps the invariant if it keeps what concerns its own CPU. -/
lemma StackInv.update (hinv : StackInv s) (hown : OwnInv s')
    (hcpu : ∀ d, d ≠ c → s'.cpu d = s.cpu d)
    (hslot : ∀ q, (s.cpu c).pc.holds ≠ some q → Untouched (s.slot q) (s'.slot q))
    (hself : ∀ q, (s.cpu c).pc.holds = some q → (s'.slot q).thread.Nested ∧
      ((s'.slot q).thread.leaving = true → (s'.slot q).state.leaving = true))
    (hheld : Held s' (s'.cpu c))
    (hholds : ∀ q, (s'.cpu c).pc.holds = some q →
      (s.cpu c).pc.holds = some q ∨ (s.slot q).state.held = false) : StackInv s' where
  own := hown
  nested := by
    intro q
    by_cases hq : (s.cpu c).pc.holds = some q
    · exact (hself q hq).1
    · rcases hslot q hq with ⟨_, hthread⟩ | ⟨_, hthread | hthread⟩
      · rw [hthread]
        exact hinv.nested q
      · rw [hthread]
        exact hinv.nested q
      · rw [hthread]
        exact Thread.nested_of_not_exiting rfl
  leaving := by
    intro q hleave
    by_cases hq : (s.cpu c).pc.holds = some q
    · exact (hself q hq).2 hleave
    · rcases hslot q hq with ⟨hstate, hthread⟩ | ⟨hfree, hthread | hthread⟩
      · rw [hstate]
        rw [hthread] at hleave
        exact hinv.leaving q hleave
      · rw [hthread, (hinv.unheld hfree).2] at hleave
        cases hleave
      · rw [hthread] at hleave
        cases hleave
  held := by
    intro d
    by_cases hd : d = c
    · rw [hd]
      exact hheld
    · rw [hcpu d hd]
      exact (hinv.held d).untouched fun q hq => hslot q fun hc => hd (hinv.once d c q hq hc)
  once := by
    refine hinv.once.step (a := c) ?_ ?_
    · intro d hd q hq
      rwa [hcpu d hd] at hq
    · intro q hq
      exact (hholds q hq).imp id fun hfree => (hinv.unheld hfree).1

lemma Act.Unheld.untouched (ha : a.Unheld s) (hstate : (u.slot q).state = (s.slot q).state)
    (hthread : (u.slot q).thread = (s.slot q).thread) : Untouched (s.slot q) ((a.apply u).slot q) := by
  by_cases hstack : a = .stack q
  · refine .inr ⟨ha q (.inr hstack), .inr ?_⟩
    rw [hstack, thread_apply_stack]
  · rw [Untouched, a.thread_apply u hstack, hthread]
    by_cases hq : ∃ v, a = .state q v
    · exact .inr ⟨ha q (.inl hq), .inl rfl⟩
    · rw [a.state_apply u fun v hv => hq ⟨v, hv⟩, hstate]
      exact .inl ⟨rfl, rfl⟩

lemma cas_untouched (hq : q ≠ p) (hstate : (u.slot q).state = (s.slot q).state)
    (hthread : (u.slot q).thread = (s.slot q).thread) :
    Untouched (s.slot q) (((cas s p old new).apply u).slot q) := by
  refine .inl ⟨?_, ?_⟩
  · rw [Act.state_apply _ u fun v hv => hq (cas_eq_state hv).1, hstate]
  · rw [Act.thread_apply _ u fun h => ?_, hthread]
    rw [cas] at h
    split_ifs at h

lemma LeaveEdge.untouched {b b' : Bool} (h : LeaveEdge s p b b' a) (hq : q ≠ p)
    (hstate : (u.slot q).state = (s.slot q).state) (hthread : (u.slot q).thread = (s.slot q).thread) :
    Untouched (s.slot q) ((a.apply u).slot q) := by
  cases h with
  | stay b a ha => exact ha.untouched hstate hthread
  | go => exact cas_untouched hq hstate hthread

/-- A step on the stack of the process that the CPU holds. -/
lemma LeaveEdge.hold {b b' : Bool} (h : LeaveEdge s p b b' a) (hcur : k.cur = some p)
    (hold : Hold k p (s.slot p).state b) (hstate : (u.slot p).state = (s.slot p).state) :
    Hold k p ((a.apply u).slot p).state b' ∧ a ≠ .stack p := by
  cases h with
  | stay b a ha =>
    have hne : ∀ v, a ≠ .state p v := by
      intro v hv
      have hfree := ha p (.inl ⟨v, hv⟩)
      rw [hold.held] at hfree
      cases hfree
    constructor
    · rwa [a.state_apply u hne, hstate]
    · intro hstack
      have hfree := ha p (.inr hstack)
      rw [hold.held] at hfree
      cases hfree
  | go v hv =>
    obtain ⟨_, hpc, hproc, hb | hb⟩ := hold.of_cur hcur
    · cases hb.1
    · rw [cas, if_pos hb.2, state_apply_state]
      exact ⟨.leaving v hpc hcur hproc hv, state_ne_stack p v p⟩

lemma StackInv.proc {i : Intr} (hinv : StackInv s)
    (hown : OwnInv (a.apply (setThread (setCpu s c { s.cpu c with intr := i }) p t)))
    (hcur : (s.cpu c).cur = some p) (h : ProcRule s c p (s.slot p).thread t a) :
    StackInv (a.apply (setThread (setCpu s c { s.cpu c with intr := i }) p t)) := by
  have hold := (hinv.held c).of_cur hcur
  have hleave := h.leaveEdge hinv.own (hinv.nested p)
  obtain ⟨hold', hstack⟩ := hleave.hold
    (u := setThread (setCpu s c { s.cpu c with intr := i }) p t) hcur hold (by simp)
  have hthread : ((a.apply (setThread (setCpu s c { s.cpu c with intr := i }) p t)).slot p).thread
      = t := by
    rw [a.thread_apply _ hstack, slot_setThread]
  refine hinv.update hown (c := c) ?_ ?_ ?_ ?_ ?_
  · intro d hd
    rw [Act.cpu_apply, cpu_setThread, cpu_setCpu_of_ne _ _ hd]
  · intro q hq
    have hqp : q ≠ p := by
      rintro rfl
      exact hq hold.holds
    apply hleave.untouched hqp
    · simp
    · rw [slot_setThread_of_ne _ _ hqp, slot_setCpu]
  · intro q hq
    obtain rfl := some.inj (hold.holds.symm.trans hq)
    rw [hthread]
    refine ⟨h.nested (hinv.nested p), fun ht => ?_⟩
    rw [ht] at hold'
    exact hold'.state_leaving
  · apply Hold.to_held
    rw [hthread]
    simp only [Act.cpu_apply, cpu_setThread, cpu_setCpu]
    exact hold'.congr rfl rfl rfl
  · intro q hq
    simp only [Act.cpu_apply, cpu_setThread, cpu_setCpu] at hq
    exact .inl hq

/-- The `swtch` from a process to `scheduler`. -/
lemma StackInv.out {e : Bool} (hinv : StackInv s) (hown : OwnInv (swtchOut s c p b e))
    (hcur : (s.cpu c).cur = some p) (hcall : (s.slot p).thread.call = some (.schedSwtch b e)) :
    StackInv (swtchOut s c p b e) := by
  have hold := (hinv.held c).of_cur hcur
  obtain ⟨_, hpc, _, _⟩ := hold.of_cur hcur
  have hexit := (hinv.nested p).of_switches hcall rfl
  have hleave : (s.slot p).thread.leaving = true := by
    rw [Thread.leaving, hcall]
    rfl
  rw [hleave] at hold
  refine hinv.update hown (c := c) ?_ ?_ ?_ ?_ ?_
  · intro d hd
    rw [swtchOut, cpu_setThread, cpu_setCpu_of_ne _ _ hd]
  · intro q hq
    have hqp : q ≠ p := by
      rintro rfl
      exact hq hold.holds
    rw [swtchOut, slot_setThread_of_ne _ _ hqp, slot_setCpu]
    exact .inl ⟨rfl, rfl⟩
  · intro q hq
    obtain rfl := some.inj (hold.holds.symm.trans hq)
    rw [swtchOut, slot_setThread]
    refine ⟨Thread.nested_of_not_exiting hexit, fun _ => ?_⟩
    exact hold.state_leaving
  · apply Hold.to_held (p := p)
    simp only [swtchOut, cpu_setThread, cpu_setCpu, slot_setThread, slot_setCpu]
    rw [Thread.leaving, hexit]
    exact .pub1 _ hpc rfl hold.state_leaving
  · intro q hq
    rw [swtchOut, cpu_setThread, cpu_setCpu] at hq
    exact .inl hq

/-! ### Publishing once -/

/-- The next `cas` of `scheduler` would take effect, although one of the three already has. -/
def republishes (s : State) (k : Cpu) : Bool :=
  match k.pc with
  | .pub2 p done => done && decide ((s.slot p).state = .negSleeping)
  | .pub3 p done => done && decide ((s.slot p).state = .negZombie)
  | _ => false

/-- After a `swtch`, at most one `cas` of `scheduler` takes effect. -/
def NoRepublish (s : State) (l : Label) : Prop := republishes s (s.cpu l.cpu) = false

instance (s : State) (l : Label) : Decidable (NoRepublish s l) :=
  inferInstanceAs (Decidable (_ = false))

/-- A step of `scheduler`, which changes the state of no process but the one the CPU holds. -/
lemma StackInv.ownStack (hinv : StackInv s) (hcur : (s.cpu c).cur = none)
    (hown : OwnInv (a.apply (setCpu s c k))) (hstack : ∀ q, a ≠ .stack q)
    (hslot : ∀ q, (s.cpu c).pc.holds ≠ some q → Untouched (s.slot q) ((a.apply (setCpu s c k)).slot q))
    (hheld : Held (a.apply (setCpu s c k)) k)
    (hholds : ∀ q, k.pc.holds = some q → (s.cpu c).pc.holds = some q ∨ (s.slot q).state.held = false) :
    StackInv (a.apply (setCpu s c k)) := by
  refine hinv.update hown (c := c) ?_ hslot ?_ ?_ ?_
  · intro d hd
    rw [Act.cpu_apply, cpu_setCpu_of_ne _ _ hd]
  · intro q hq
    rw [a.thread_apply _ (hstack q), slot_setCpu]
    refine ⟨hinv.nested q, fun ht => ?_⟩
    rw [(((hinv.held c).hold hq).off hcur).1] at ht
    cases ht
  · rwa [Act.cpu_apply, cpu_setCpu]
  · rwa [Act.cpu_apply, cpu_setCpu]

/-- A step of `scheduler` that changes no slot that matters to the stacks. -/
lemma StackInv.quiet (hinv : StackInv s) (hcur : (s.cpu c).cur = none)
    (hown : OwnInv (a.apply (setCpu s c k))) (hstack : ∀ q, a ≠ .stack q) (ha : a.Unheld s)
    (hheld : Held (a.apply (setCpu s c k)) k)
    (hholds : ∀ q, k.pc.holds = some q → (s.cpu c).pc.holds = some q ∨ (s.slot q).state.held = false) :
    StackInv (a.apply (setCpu s c k)) :=
  hinv.ownStack hcur hown hstack (fun _ _ => ha.untouched rfl rfl) hheld hholds

lemma cas_ne_stack : cas s p old new ≠ .stack q := by
  rw [cas]
  split_ifs
  · exact state_ne_stack p new q
  · exact none_ne_stack q

/-- One of the last three `cas` of `scheduler`. -/
lemma StackInv.publish (hinv : StackInv s) (hcur : (s.cpu c).cur = none)
    (hown : OwnInv ((cas s p old new).apply (setCpu s c k)))
    (hp : (s.cpu c).pc.holds = some p ∨ (s.slot p).state ≠ old) (hk : k.cur = none)
    (hheld : (s.slot p).state = old ∧ k.pc.holds = none ∨ (s.slot p).state ≠ old ∧ Held s k ∧ ∀ q, k.pc.holds = some q → (s.cpu c).pc.holds = some q) :
    StackInv ((cas s p old new).apply (setCpu s c k)) := by
  refine hinv.ownStack hcur hown (fun q => cas_ne_stack) ?_ ?_ ?_
  · intro q hq
    by_cases hqp : q = p
    · subst hqp
      have hold : (s.slot q).state ≠ old := hp.resolve_left hq
      rw [cas, if_neg hold]
      exact .inl ⟨rfl, rfl⟩
    · exact cas_untouched hqp rfl rfl
  · rcases hheld with ⟨_, hnone⟩ | ⟨hold, h, _⟩
    · exact held_none hnone hk
    · rw [cas, if_neg hold]
      exact h
  · intro q hq
    rcases hheld with ⟨_, hnone⟩ | ⟨_, _, h⟩
    · cases hnone.symm.trans hq
    · exact .inl (h q hq)

lemma StackInv.sched (hinv : StackInv s) (hown : OwnInv (a.apply (setCpu s c k)))
    (hok : republishes s (s.cpu c) = false) (hcur : (s.cpu c).cur = none)
    (h : SchedEdge s (s.cpu c) k a) : StackInv (a.apply (setCpu s c k)) := by
  -- what the CPU knows about the process that it holds
  have hoff : ∀ p, (s.cpu c).pc.holds = some p →
      (s.slot p).thread.leaving = false ∧ (s.cpu c).pc.HeldState (s.slot p).state :=
    fun p hp => ((hinv.held c).hold hp).off hcur
  cases h with
  | idle k hpc hpc' hk =>
    refine hinv.quiet hcur hown none_ne_stack (Act.unheld_quiet rfl) (held_none hpc' (hk.trans hcur)) ?_
    intro q hq
    cases hpc'.symm.trans hq
  | take p hpc hrun =>
    have hfree : (s.slot p).state.held = false := by
      rw [hrun]
      rfl
    refine hinv.quiet hcur hown (state_ne_stack _ _) (Act.unheld_state hfree) ?_ ?_
    · apply Hold.to_held (p := p)
      rw [state_apply_state, thread_apply_state, slot_setCpu, (hinv.unheld hfree).2]
      exact .set rfl hcur
    · intro q hq
      cases hq
      exact .inr hfree
  | set p hpc =>
    have hholds : (s.cpu c).pc.holds = some p := by rw [hpc, SchedPc.holds]
    obtain ⟨hleave, hstate⟩ := hoff p hholds
    rw [hpc] at hstate
    refine hinv.quiet hcur hown none_ne_stack (Act.unheld_quiet rfl) ?_ ?_
    · apply Hold.to_held (p := p)
      rw [Act.apply_none, slot_setCpu, hleave, hstate]
      exact .run rfl hcur rfl
    · intro q hq
      cases hq
      exact .inl hholds
  | run p hpc =>
    have hholds : (s.cpu c).pc.holds = some p := by rw [hpc, SchedPc.holds]
    have hold := (hinv.held c).hold hholds
    refine hinv.ownStack hcur hown (state_ne_stack _ _) ?_ ?_ ?_
    · intro q hq
      refine .inl ⟨?_, ?_⟩
      · rw [Act.state_apply, slot_setCpu]
        intro v hv
        cases hv
        exact hq hholds
      · rw [thread_apply_state, slot_setCpu]
    · apply Hold.to_held (p := p)
      rw [state_apply_state, thread_apply_state, slot_setCpu, (hold.off hcur).1]
      exact .swtch rfl hcur (hold.proc (.inl hpc))
    · intro q hq
      cases hq
      exact .inl hholds
  | swtch p hpc =>
    have hholds : (s.cpu c).pc.holds = some p := by rw [hpc, SchedPc.holds]
    have hold := (hinv.held c).hold hholds
    obtain ⟨hleave, hstate⟩ := hoff p hholds
    rw [hpc] at hstate
    refine hinv.quiet hcur hown none_ne_stack (Act.unheld_quiet rfl) ?_ ?_
    · apply Hold.to_held (p := p)
      rw [Act.apply_none, slot_setCpu, hleave, hstate]
      exact .running rfl rfl (hold.proc (.inr hpc))
    · intro q hq
      cases hq
      exact .inl hholds
  | pub1 p hpc =>
    have hholds : (s.cpu c).pc.holds = some p := by rw [hpc, SchedPc.holds]
    obtain ⟨hleave, hstate⟩ := hoff p hholds
    rw [hpc] at hstate
    refine hinv.publish hcur hown (.inl hholds) hcur ?_
    by_cases hdone : (s.slot p).state = .negRunnable
    · rw [decide_eq_true hdone]
      exact .inl ⟨hdone, rfl⟩
    · rw [decide_eq_false hdone]
      refine .inr ⟨hdone, Hold.to_held (p := p) ?_, ?_⟩
      · rw [hleave]
        exact .pub2 _ rfl hcur hstate hdone
      · intro q hq
        cases hq
        exact hholds
  | pub2 p done hpc =>
    cases done with
    | true =>
      have hne : (s.slot p).state ≠ .negSleeping := by
        simpa [republishes, hpc] using hok
      refine hinv.publish hcur hown (.inr hne) hcur (.inr ⟨hne, held_none rfl hcur, ?_⟩)
      intro q hq
      cases hq
    | false =>
      have hholds : (s.cpu c).pc.holds = some p := by rw [hpc, SchedPc.holds]
      obtain ⟨hleave, hstate⟩ := hoff p hholds
      rw [hpc] at hstate
      refine hinv.publish hcur hown (.inl hholds) hcur ?_
      by_cases hdone : (s.slot p).state = .negSleeping
      · rw [decide_eq_true hdone]
        exact .inl ⟨hdone, rfl⟩
      · rw [decide_eq_false hdone]
        refine .inr ⟨hdone, Hold.to_held (p := p) ?_, ?_⟩
        · rw [hleave, PState.negZombie_of_leaving hstate.1 hstate.2 hdone]
          exact .pub3 rfl hcur
        · intro q hq
          cases hq
          exact hholds
  | pub3 p done hpc =>
    cases done with
    | true =>
      have hne : (s.slot p).state ≠ .negZombie := by
        simpa [republishes, hpc] using hok
      refine hinv.publish hcur hown (.inr hne) hcur (.inr ⟨hne, held_none rfl hcur, ?_⟩)
      intro q hq
      cases hq
    | false =>
      have hholds : (s.cpu c).pc.holds = some p := by rw [hpc, SchedPc.holds]
      obtain ⟨_, hstate⟩ := hoff p hholds
      rw [hpc] at hstate
      exact hinv.publish hcur hown (.inl hholds) hcur (.inl ⟨hstate, rfl⟩)

lemma Held.congr_cpu (h : Held s k) (hslot : s'.slot = s.slot) (hpc : k'.pc = k.pc)
    (hcur : k'.cur = k.cur) (hproc : k'.proc = k.proc) : Held s' k' := by
  rw [Held] at h ⊢
  rw [hpc, hslot]
  split at h
  · exact hcur.trans h
  · exact h.congr hpc hcur hproc

lemma CallEdge.unheld {f : Call} {f' : Option Call} (h : CallEdge s none f f' a) :
    a.Unheld s ∧ ∀ q, a ≠ .stack q := by
  cases h with
  | quiet f' a ha =>
    refine ⟨Act.unheld_quiet ha, ?_⟩
    rintro q rfl
    cases ha
  | wake f' q hold => exact ⟨Act.unheld_state (by rw [hold]; rfl), state_ne_stack q _⟩
  | yield p hp => cases hp

lemma StackInv.rule (hinv : StackInv s) (hok : republishes s (s.cpu c) = false)
    (h : Rule s c s') : StackInv s' := by
  have hown : OwnInv s' := hinv.own.rule h
  cases h with
  | panic => exact ⟨hown, hinv.nested, hinv.leaving, hinv.held, hinv.once⟩
  | proc p t a i hcur h => exact hinv.proc hown hcur h
  | out p b e hcur hcall => exact hinv.out hown hcur hcall
  | sched k a hcur _ h => exact hinv.sched hown hok hcur h
  | cpuCall f f' a i hcur hcall h =>
    obtain ⟨ha, hstack⟩ := (callStep_edge h).unheld
    refine hinv.quiet hcur hown hstack ha ?_ fun q hq => .inl hq
    refine Held.untouched ?_ fun q _ => ha.untouched rfl rfl
    exact (hinv.held c).congr_cpu rfl rfl rfl rfl
  | cpuIrq irq f i hcur =>
    refine hinv.quiet (a := .none) hcur hown none_ne_stack (Act.unheld_quiet rfl) ?_ fun q hq => .inl hq
    exact (hinv.held c).congr_cpu rfl rfl rfl rfl

lemma stackInv_boot : StackInv boot where
  own := ownInv_boot
  nested := by
    intro p
    rcases thread_boot p with h | h <;> rw [h] <;> exact Thread.nested_of_not_exiting rfl
  leaving := by
    intro p h
    rcases thread_boot p with hp | hp <;> rw [hp] at h <;> cases h
  held := fun c => rfl
  once := exclusive_none

lemma stackInv_of_noRepublish (h : Reach step NoRepublish boot s) : StackInv s :=
  h.invariant stackInv_boot fun _ _ _ hinv hok hstep => hinv.rule hok (step_rule hstep)

/-! ### Nobody else is on the stack -/

/-- No CPU is on the stack of a process that another CPU may take, wake up or free. -/
structure StackSafe (s : State) : Prop where
  off : ∀ c p, (s.cpu c).cur = some p → (s.slot p).state ≠ .runnable ∧
    (s.slot p).state ≠ .sleeping ∧ (s.slot p).state ≠ .zombie ∧ (s.slot p).state ≠ .unused
  once : ∀ c d p, (s.cpu c).cur = some p → (s.cpu d).cur = some p → c = d
  /-- `kfree(p->kstack)` in `wait` -/
  free : ∀ c p q pid, (s.slot p).thread.main = .waitFree q pid → (s.cpu c).cur ≠ some q

lemma StackInv.held_of_cur (hinv : StackInv s) (h : (s.cpu c).cur = some p) :
    (s.slot p).state.held = true :=
  ((hinv.held c).of_cur h).held

lemma StackInv.stackSafe (hinv : StackInv s) : StackSafe s := by
  constructor
  · intro c p hcur
    have hheld := hinv.held_of_cur hcur
    refine ⟨?_, ?_, ?_, ?_⟩ <;> intro hstate <;> rw [hstate] at hheld <;> cases hheld
  · intro c d p hc hd
    exact hinv.once c d p ((hinv.held c).of_cur hc).holds ((hinv.held d).of_cur hd).holds
  · intro c p q pid hmain hcur
    have hfree : (s.slot q).state = .negUnused := by
      apply hinv.own.state p q
      rw [hmain]
      rfl
    have hheld := hinv.held_of_cur hcur
    rw [hfree] at hheld
    cases hheld

/-- `scheduler` as the code has it: a process goes to sleep on the CPU that has taken it over, and
    the CPU that it left publishes it as `SLEEPING` while it still runs. -/
theorem sleeping_on_stack : ∃ s, Reach step Always boot s ∧
    (s.slot initproc).state = .sleeping ∧ (s.cpu 1).cur = some initproc := by
  refine Reach.exists_of_exec
    (List.replicate 8 (.run 0) ++ [.op 0 .yield] ++ List.replicate 6 (.run 0) ++
      List.replicate 9 (.run 1) ++ [.op 1 (.acquire 0)] ++ List.replicate 3 (.run 1) ++
      [.op 1 (.sleep (.addr 1) 0)] ++ List.replicate 6 (.run 1) ++ [.run 0]) ?_
  decide +kernel

/-- If after each `swtch` only one of the three `cas` takes effect, no CPU is on a stack that is
    published. -/
theorem stackSafe_of_noRepublish (h : Reach step NoRepublish boot s) : StackSafe s :=
  (stackInv_of_noRepublish h).stackSafe

/-- The process yields and the other CPU takes it over. -/
theorem stackSafe_after_yield : ∃ s, Reach step NoRepublish boot s ∧
    (s.cpu 1).cur = some initproc ∧ StackSafe s := by
  have hexec : ∃ s, Reach step NoRepublish boot s ∧ (s.cpu 1).cur = some initproc :=
    Reach.exists_of_exec
      (List.replicate 8 (.run 0) ++ [.op 0 .yield] ++ List.replicate 9 (.run 0) ++
        List.replicate 7 (.run 1)) (by decide +kernel)
  obtain ⟨s, hrun, hcur⟩ := hexec
  exact ⟨s, hrun, hcur, stackSafe_of_noRepublish hrun⟩

end Xv6.Sched
