import Xv6.Signal.Frames

/-!
# Returning from a handler

A delivery saves the trap frame and the mask in the one backup of the process, and `sigret` copies
them back. Two things go wrong. `syscall` stores the result of `sys_sigret` in the restored frame,
so that the interrupted program finds 0 in `eax`. And a delivery inside a handler overwrites the
backup, so that the second `sigret` goes back to where the first one went.
-/

namespace Xv6.Signal

open Machine Option

variable {s s' s₀ s₁ s₂ s₃ s₄ : State} {t t' : Thread} {l : Label} {a : Slot} {i : Signum}
  {code : Word → Byte} {c : Context}

/-! ### The backup -/

/-- The words of the process that `sigret` does not read. -/
def backupKept : Cell → Bool
  | .backup _ | .maskBackup => false
  | _ => true

/-- Nothing but a delivery and a `sigaction` out of bounds writes the backup. -/
lemma backup_effect (hpc : t.pc.delivering = false) (hsig : SigactionOn backupKept t) (he : Effect t t') :
    t'.proc.backup = t.proc.backup ∧ t'.proc.signalMaskBackup = t.proc.signalMaskBackup := by
  cases he with
  | exit p late hbackup hmask => exact ⟨hbackup, hmask⟩
  | deliver i v p hd =>
    rw [hd] at hpc
    cases hpc
  | sigaction p v pc hcall hnum hp =>
    rcases sysSigaction_eq hp with rfl | ⟨signum, act, c, mem, harg, hc, rfl⟩
    · exact ⟨rfl, rfl⟩
    · have hkept := hsig hcall hnum
      rw [signumOn_eq harg, hc] at hkept
      cases c with
      | backup => cases hkept
      | maskBackup => cases hkept
      | _ => exact ⟨rfl, rfl⟩
  | _ => exact ⟨rfl, rfl⟩

/-- `sigret` through `syscall`: the saved frame but for `eax`, and the saved mask. -/
lemma step_sigret (hs : step s (.syscall a .none) = some s') (hpc : (s.slot a).pc = .syscall)
    (hnum : (s.slot a).proc.tf.eax = SYS_sigret) :
    (s'.slot a).proc.tf = { (s.slot a).proc.backup with eax := 0 } ∧
      (s'.slot a).proc.signalMask = (s.slot a).proc.signalMaskBackup := by
  rw [step] at hs
  split_ifs at hs
  simp only [liveStep, syscallStep, hpc, if_true, localCall, hnum, map_some, some.injEq] at hs
  subst hs
  simp only [finish, setSlot_self]
  exact ⟨rfl, rfl⟩

/-- A delivery saves the frame and the mask. -/
lemma step_deliver {v : Word} (hpc : (s.slot a).pc = .deliverStore i v)
    (hs : step s (.run a) = some s') (hp : s'.panic = none) :
    (s'.slot a).proc.backup = (s.slot a).proc.tf ∧
      (s'.slot a).proc.signalMaskBackup = (s.slot a).proc.signalMask := by
  rw [step] at hs
  split_ifs at hs
  simp only [liveStep, runStep, hpc, signalsHandler, map_some, some.injEq, deliverBody] at hs
  cases hd : deliver (clear (s.slot a) i v).proc i with
  | error =>
    rw [hd] at hs
    subst hs
    cases hp
  | ok =>
    rw [hd] at hs
    subst hs
    obtain ⟨func, mask, mem, _, _, rfl⟩ := deliver_eq hd
    simp only [finish, setSlot_self]
    exact ⟨rfl, rfl⟩

/-! ### Transparency of a delivery -/

/-- No signal is delivered to the process in `a`, and it does not overwrite its backup by a
    `sigaction` out of bounds. -/
def NoDelivery (a : Slot) (s : State) (l : Label) : Prop :=
  l.slot = a → (s.slot a).pc.delivering = false ∧ SigactionOn backupKept (s.slot a)

instance (a : Slot) (s : State) (l : Label) : Decidable (NoDelivery a s l) :=
  inferInstanceAs (Decidable (_ → _ ∧ _))

/-- In `signalsHandler`, and not on the way to a delivery. -/
def Pc.passing : Pc → Bool
  | .scan .. | .stopLoad .. | .stopStore .. | .contLoad .. | .contStore .. | .scanEnd ..
  | .test .. | .ignoreLoad .. | .ignoreStore .. => true
  | _ => false

/-- The process in `a` goes through `signalsHandler` without a delivery. -/
def Passing (a : Slot) (s : State) (_ : Label) : Prop := (s.slot a).pc.passing = true

instance (a : Slot) (s : State) (l : Label) : Decidable (Passing a s l) :=
  inferInstanceAs (Decidable (_ = _))

/-- A signal `i` is delivered to the process in `a`; the handler runs, with no other delivery;
    `sigret` is called, and the process passes through `signalsHandler` to `iret`. All other
    processes take any steps meanwhile. -/
structure HandlerRun (a : Slot) (i : Signum) (s₀ s₁ s₂ s₃ s₄ : State) : Prop where
  pending : ∃ v, (s₀.slot a).pc = .deliverStore i v
  deliver : step s₀ (.run a) = some s₁
  delivered : s₁.panic = none
  handler : Reach step (NoDelivery a) s₁ s₂
  call : (s₂.slot a).pc = .syscall
  number : (s₂.slot a).proc.tf.eax = SYS_sigret
  sigret : step s₂ (.syscall a .none) = some s₃
  back : Reach step (Passing a) s₃ s₄
  iret : (s₄.slot a).pc = .iret

/-- The process goes on as if nothing had happened. -/
def Transparent (a : Slot) (s₀ s₄ : State) : Prop :=
  (s₄.slot a).proc.tf = (s₀.slot a).proc.tf ∧
    (s₄.slot a).proc.signalMask = (s₀.slot a).proc.signalMask

instance (a : Slot) (s₀ s₄ : State) : Decidable (Transparent a s₀ s₄) :=
  inferInstanceAs (Decidable (_ ∧ _))

lemma backup_run (hrun : Reach step (NoDelivery a) s s') :
    (s'.slot a).proc.backup = (s.slot a).proc.backup ∧
      (s'.slot a).proc.signalMaskBackup = (s.slot a).proc.signalMaskBackup := by
  let I : Slot → Thread → Prop := fun b t => b = a →
    t.proc.backup = (s.slot a).proc.backup ∧ t.proc.signalMaskBackup = (s.slot a).proc.signalMaskBackup
  have hinv : ∀ b, I b (s'.slot b) := by
    refine hrun.invariant (I := fun s => ∀ b, I b (s.slot b)) ?_ ?_
    · rintro b rfl
      exact ⟨rfl, rfl⟩
    · intro u l u' h hok hs
      refine (step_rule hs).forall_slot h ?_ ?_ ?_ ?_ ?_
      · rintro t _ ht rfl
        obtain ⟨hpc, hsig⟩ := hok rfl
        obtain ⟨hb, hm⟩ := backup_effect hpc hsig ht
        rw [hb, hm]
        exact h _ rfl
      · exact fun _ => h _
      · exact fun _ q _ _ => h q
      · exact fun _ _ _ _ ht => ht
      · exact fun child _ _ _ _ => h child
  exact hinv a rfl

lemma passing_effect (hpc : t.pc.passing = true) (he : Effect t t') :
    t'.pc = .zombie ∨ (t'.proc.tf = t.proc.tf ∧ t'.proc.signalMask = t.proc.signalMask) := by
  cases he with
  | goto | next | scan | clear => exact .inr ⟨rfl, rfl⟩
  | exit => exact .inl rfl
  | ret v pc hin =>
    cases hcases : t.pc <;> simp [hcases, Pc.passing, Pc.inCall] at hpc hin
  | deliver i v p h | user regs mem pc h | sigret pc h | sigprocmask mask v pc h | sigaction p v pc h
  | exec image pc h | other v sz mem pc h => simp [h, Pc.passing] at hpc

/-- On its way through `signalsHandler` without a delivery a process keeps frame and mask, or
    exits. -/
lemma passing_run (hrun : Reach step (Passing a) s s') :
    (s'.slot a).pc = .zombie ∨ ((s'.slot a).proc.tf = (s.slot a).proc.tf ∧
      (s'.slot a).proc.signalMask = (s.slot a).proc.signalMask) := by
  let I : Slot → Thread → Prop := fun b t => b = a →
    t.pc = .zombie ∨ (t.proc.tf = (s.slot a).proc.tf ∧ t.proc.signalMask = (s.slot a).proc.signalMask)
  have hinv : ∀ b, I b (s'.slot b) := by
    refine hrun.invariant (I := fun s => ∀ b, I b (s.slot b)) ?_ ?_
    · rintro b rfl
      exact .inr ⟨rfl, rfl⟩
    · intro u l u' h hok hs
      have hne : (u.slot a).pc ≠ .zombie := by
        intro hz
        simp [Passing, hz, Pc.passing] at hok
      refine (step_rule hs).forall_slot h ?_ ?_ ?_ ?_ ?_
      · rintro t _ ht rfl
        obtain ⟨htf, hmask⟩ := (h _ rfl).resolve_left hne
        rw [← htf, ← hmask]
        exact passing_effect hok ht
      · rintro hz rfl
        exact absurd hz hne
      · exact fun _ q _ _ => h q
      · rintro t v hin _ _ rfl
        cases hcases : (u.slot l.slot).pc <;> simp [Passing, hcases, Pc.passing, Pc.inCall] at hok hin
      · rintro child pc _ _ hunused rfl
        simp [Passing, hunused, Pc.passing] at hok
  exact hinv a rfl

/-- A delivery is transparent to the interrupted program exactly when the program had 0 in
    `eax`. -/
theorem transparent_iff_eax_zero (h : HandlerRun a i s₀ s₁ s₂ s₃ s₄) :
    Transparent a s₀ s₄ ↔ (s₀.slot a).proc.tf.eax = 0 := by
  obtain ⟨v, hpc⟩ := h.pending
  obtain ⟨hsaved, hmask⟩ := step_deliver hpc h.deliver h.delivered
  obtain ⟨hbackup, hmaskBackup⟩ := backup_run h.handler
  obtain ⟨htf, hsigmask⟩ := step_sigret h.sigret h.call h.number
  obtain ⟨hback, hbackmask⟩ := (passing_run h.back).resolve_left (by simp [h.iret])
  rw [hbackup, hsaved] at htf
  rw [hmaskBackup, hmask] at hsigmask
  rw [Transparent, hback, hbackmask, htf, hsigmask]
  constructor
  · rintro ⟨heq, _⟩
    exact (congrArg Trapframe.eax heq).symm
  · intro heax
    exact ⟨by rw [← heax], rfl⟩

/-- Find a handler run by executing labels. -/
lemma HandlerRun.exists_of_exec {P : State → State → Prop} [∀ s s', Decidable (P s s')]
    (ls body back : List Label) (v : Word)
    (h : (Machine.exec (guarded step Always) (boot code) ls).any (fun s₀ =>
      decide ((s₀.slot a).pc = .deliverStore i v) &&
      (step s₀ (.run a)).any fun s₁ => decide (s₁.panic = none) &&
      (Machine.exec (guarded step (NoDelivery a)) s₁ body).any fun s₂ =>
      decide ((s₂.slot a).pc = .syscall) && decide ((s₂.slot a).proc.tf.eax = SYS_sigret) &&
      (step s₂ (.syscall a .none)).any fun s₃ =>
      (Machine.exec (guarded step (Passing a)) s₃ back).any fun s₄ =>
      decide ((s₄.slot a).pc = .iret) && decide (P s₀ s₄)) = true) :
    ∃ s₀ s₁ s₂ s₃ s₄, Reach step Always (boot code) s₀ ∧ HandlerRun a i s₀ s₁ s₂ s₃ s₄ ∧ P s₀ s₄ := by
  simp only [any_eq_true, Bool.and_eq_true, decide_eq_true_eq] at h
  obtain ⟨s₀, h0, hpc, s₁, h1, hp, s₂, h2, ⟨hcall, hnum⟩, s₃, h3, s₄, h4, hiret, hP⟩ := h
  exact ⟨s₀, s₁, s₂, s₃, s₄, .of_exec h0,
    ⟨⟨v, hpc⟩, h1, hp, .of_exec h2, hcall, hnum, h3, .of_exec h4, hiret⟩, hP⟩

/-- A handler at 128 for signal 5, whose `struct sigaction` is at 64. -/
def handlerAt64 : List (Nat × Byte) := [(64, 128)]

/-- The handler runs and calls `sigret`. -/
def handlerBody : List Label :=
  [.run initproc, .user initproc (trapRegs T_SYSCALL 128 SYS_sigret) (memOf handlerAt64)]

/-- The child of the first process sends it signal 5, and a timer interrupt finds the first process
    with 7 in `eax`: after the handler it goes on with 0 there. -/
theorem interrupted_eax_lost :
    ∃ s₀ s₁ s₂ s₃ s₄, Reach step Always (boot fun _ => 0) s₀ ∧
      HandlerRun initproc 5 s₀ s₁ s₂ s₃ s₄ ∧ ¬ Transparent initproc s₀ s₄ :=
  HandlerRun.exists_of_exec
    (toUser initproc ++ call initproc 16 SYS_sigaction [5, 64, 0] handlerAt64 .none ++
      toUser initproc ++ call initproc 20 SYS_fork [] handlerAt64 (.fork (some childSlot)) ++
      toUser initproc ++ toUser childSlot ++
      call childSlot 24 SYS_kill [2, 5] handlerAt64 .none ++ runs childSlot 3 ++
      [.user initproc (trapRegs 32 24 7) (memOf handlerAt64)] ++ runs initproc 40)
    handlerBody (runs initproc 65) 32 (by decide +kernel)

/-- The first process sends itself signal 5, and the delivery finds the result 0 of `kill` in
    `eax`. -/
theorem transparent_after_kill :
    ∃ s₀ s₁ s₂ s₃ s₄, Reach step Always (boot fun _ => 0) s₀ ∧
      HandlerRun initproc 5 s₀ s₁ s₂ s₃ s₄ ∧ Transparent initproc s₀ s₄ := by
  have hrun : ∃ s₀ s₁ s₂ s₃ s₄, Reach step Always (boot fun _ => 0) s₀ ∧
      HandlerRun initproc 5 s₀ s₁ s₂ s₃ s₄ ∧ (s₀.slot initproc).proc.tf.eax = 0 :=
    HandlerRun.exists_of_exec (P := fun s₀ _ => (s₀.slot initproc).proc.tf.eax = 0)
      (toUser initproc ++ call initproc 16 SYS_sigaction [5, 64, 0] handlerAt64 .none ++
        toUser initproc ++ call initproc 20 SYS_kill [2, 5] handlerAt64 .none ++
        runs initproc 43)
      handlerBody (runs initproc 65) 32 (by decide +kernel)
  obtain ⟨s₀, s₁, s₂, s₃, s₄, hreach, hhandler, heax⟩ := hrun
  exact ⟨s₀, s₁, s₂, s₃, s₄, hreach, hhandler, (transparent_iff_eax_zero hhandler).mpr heax⟩

/-! ### Nested deliveries -/

/-- The context that `sigret` restores. -/
def savedContext (p : Proc) : Context := ⟨p.backup.eip, p.backup.esp, p.signalMaskBackup⟩

/-- `sigret` is called only to return from a delivery. -/
def WellNested (s : State) (l : Label) : Prop :=
  (s.slot l.slot).pc = .syscall → (s.slot l.slot).proc.tf.eax = SYS_sigret →
    (s.slot l.slot).hist.contexts ≠ []

instance (s : State) (l : Label) : Decidable (WellNested s l) :=
  inferInstanceAs (Decidable (_ → _ → _))

/-- The words other than those that hold the saved `eip`, `esp` and mask. -/
def contextKept : Cell → Bool
  | .backup k => k.val ≠ 14 && k.val ≠ 17
  | .maskBackup => false
  | _ => true

/-- No `sigaction` out of bounds overwrites the saved context. -/
def ContextKept (s : State) (l : Label) : Prop := SigactionOn contextKept (s.slot l.slot)

instance (s : State) (l : Label) : Decidable (ContextKept s l) :=
  inferInstanceAs (Decidable (SigactionOn _ _))

/-- The process in `a` is at a `sigret` that answers the delivery that interrupted `c`. -/
structure AtSigret (a : Slot) (s : State) (c : Context) : Prop where
  call : (s.slot a).pc = .syscall
  number : (s.slot a).proc.tf.eax = SYS_sigret
  context : (s.slot a).hist.contexts.head? = some c

lemma Trapframe.setWord_context (tf : Trapframe) {k : Fin 19} (v : Word)
    (hk : contextKept (.backup k) = true) :
    (tf.setWord k v).eip = tf.eip ∧ (tf.setWord k v).esp = tf.esp := by
  fin_cases k <;> first | exact ⟨rfl, rfl⟩ | simp [contextKept] at hk

/-- The backup holds the context that the last delivery interrupted. -/
structure LastInv (t : Thread) : Prop where
  saved : ∀ c, t.hist.last = some c → savedContext t.proc = c
  last : t.hist.contexts ≠ [] → t.hist.last ≠ none

lemma LastInv.effect (h : LastInv t) (hsig : SigactionOn contextKept t) (he : Effect t t') :
    LastInv t' := by
  cases he with
  | deliver i v p hpc hp =>
    obtain ⟨func, mask, mem, _, _, rfl⟩ := deliver_eq hp
    refine ⟨?_, by simp⟩
    intro c hc
    exact some.inj hc
  | sigret =>
    refine ⟨h.saved, ?_⟩
    intro hne
    apply h.last
    rintro hnil
    simp [hnil] at hne
  | exit p late hbackup hmask =>
    refine ⟨?_, h.last⟩
    simp only [savedContext, hbackup, hmask]
    exact h.saved
  | sigaction p v pc hpc hnum hp =>
    rcases sysSigaction_eq hp with rfl | ⟨signum, act, c, mem, harg, hc, rfl⟩
    · exact ⟨h.saved, h.last⟩
    · have hkept := hsig hpc hnum
      rw [signumOn_eq harg, hc] at hkept
      cases c with
      | maskBackup => cases hkept
      | backup =>
        obtain ⟨heip, hesp⟩ := Trapframe.setWord_context t.proc.backup act hkept
        refine ⟨?_, h.last⟩
        simp only [savedContext, Proc.set, heip, hesp]
        exact h.saved
      | _ => exact ⟨h.saved, h.last⟩
  | _ => exact ⟨h.saved, h.last⟩

/-- Nothing has been delivered yet. -/
lemma lastInv_zero {saved : Bool} {pc : Pc} {p : Proc} :
    LastInv { proc := p, pc := pc, hist := { Hist.zero with saved := saved } } := by
  constructor
  · intro c hc
    cases hc
  · intro h
    exact absurd rfl h

lemma lastInv_reach (hrun : Reach step ContextKept (boot code) s) (a : Slot) : LastInv (s.slot a) := by
  refine hrun.invariant (I := fun s => ∀ a, LastInv (s.slot a)) ?_ ?_ a
  · exact forall_boot lastInv_zero lastInv_zero
  · intro u l u' h hok hs
    refine (step_rule hs).forall_slot (I := fun _ => LastInv) h ?_ ?_ ?_ ?_ ?_
    · exact fun t _ ht => (h l.slot).effect hok ht
    · exact fun _ => ⟨(h l.slot).saved, (h l.slot).last⟩
    · exact fun _ q _ _ => ⟨(h q).saved, (h q).last⟩
    · exact fun t _ _ _ ht => ⟨ht.saved, ht.last⟩
    · exact fun child _ _ _ _ => lastInv_zero

/-- However deliveries nest, a `sigret` restores the context that the delivery it answers had
    interrupted exactly when the last delivery interrupted the same context. -/
theorem sigret_matches_iff (hrun : Reach step ContextKept (boot code) s) (hat : AtSigret a s c)
    (hs : step s (.syscall a .none) = some s') :
    context (s'.slot a).proc = c ↔ (s.slot a).hist.last = some c := by
  obtain ⟨hsaved, hlast⟩ := lastInv_reach hrun a
  obtain ⟨htf, hmask⟩ := step_sigret hs hat.call hat.number
  have hne : (s.slot a).hist.contexts ≠ [] := by
    intro hnil
    have hhead := hat.context
    simp [hnil] at hhead
  obtain ⟨d, hd⟩ := Option.ne_none_iff_exists'.mp (hlast hne)
  have hrestored : context (s'.slot a).proc = d := by
    rw [context, htf, hmask]
    exact hsaved d hd
  rw [hrestored, hd, Option.some.injEq]

/-- Handlers at 128 and 160 for signals 5 and 6. -/
def handlersAt64 : List (Nat × Byte) := [(64, 128), (72, 160)]

/-- Both handlers are installed, signal 5 is sent, its handler sends signal 6, and that one's
    handler returns; then the first handler calls `sigret`. -/
def nestedSignals : List Label :=
  toUser initproc ++ call initproc 16 SYS_sigaction [5, 64, 0] handlersAt64 .none ++
    toUser initproc ++ call initproc 20 SYS_sigaction [6, 72, 0] handlersAt64 .none ++
    toUser initproc ++ call initproc 24 SYS_kill [2, 5] handlersAt64 .none ++ runs initproc 45 ++
    call initproc 132 SYS_kill [2, 6] handlersAt64 .none ++ runs initproc 46 ++
    call initproc 160 SYS_sigret [] handlersAt64 .none ++ toUser initproc ++
    [.user initproc (trapRegs T_SYSCALL 136 SYS_sigret) (memOf handlersAt64)]

/-- After a nested delivery the outer `sigret` goes back into its own handler. -/
theorem nested_sigret_returns_into_handler :
    ∃ s s' c, Reach step WellNested (boot fun _ => 0) s ∧ AtSigret initproc s c ∧
      step s (.syscall initproc .none) = some s' ∧ context (s'.slot initproc).proc ≠ c := by
  have hrun : ∃ s, Reach step WellNested (boot fun _ => 0) s ∧
      ((s.slot initproc).pc = .syscall ∧ (s.slot initproc).proc.tf.eax = SYS_sigret ∧
        (s.slot initproc).hist.contexts.head? = some ⟨24, 1024, 0⟩) ∧
      (step s (.syscall initproc .none)).any (fun s' =>
        decide (context (s'.slot initproc).proc ≠ ⟨24, 1024, 0⟩)) = true :=
    Reach.exists_of_exec nestedSignals (by decide +kernel)
  obtain ⟨s, hreach, ⟨hcall, hnum, hctx⟩, hstep⟩ := hrun
  obtain ⟨s', hs, hne⟩ := (Option.any_eq_true ..).mp hstep
  exact ⟨s, s', _, hreach, ⟨hcall, hnum, hctx⟩, hs, of_decide_eq_true hne⟩

/-- Without nesting `sigret` goes back to where the signal came. -/
theorem sigret_matches_single :
    ∃ s s' c, Reach step ContextKept (boot fun _ => 0) s ∧ AtSigret initproc s c ∧
      step s (.syscall initproc .none) = some s' ∧ context (s'.slot initproc).proc = c := by
  have hrun : ∃ s, Reach step ContextKept (boot fun _ => 0) s ∧
      ((s.slot initproc).pc = .syscall ∧ (s.slot initproc).proc.tf.eax = SYS_sigret ∧
        (s.slot initproc).hist.contexts.head? = some ⟨20, 1024, 0⟩) ∧
      (s.slot initproc).hist.last = some ⟨20, 1024, 0⟩ ∧
      (step s (.syscall initproc .none)).isSome = true :=
    Reach.exists_of_exec
      (toUser initproc ++ call initproc 16 SYS_sigaction [5, 64, 0] handlerAt64 .none ++
        toUser initproc ++ call initproc 20 SYS_kill [2, 5] handlerAt64 .none ++
        runs initproc 44 ++ handlerBody)
      (by decide +kernel)
  obtain ⟨s, hreach, ⟨hcall, hnum, hctx⟩, hlast, hstep⟩ := hrun
  obtain ⟨s', hs⟩ := Option.isSome_iff_exists.mp hstep
  have hat : AtSigret initproc s ⟨20, 1024, 0⟩ := ⟨hcall, hnum, hctx⟩
  exact ⟨s, s', _, hreach, hat, hs, (sigret_matches_iff hreach hat hs).mpr hlast⟩

end Xv6.Signal
