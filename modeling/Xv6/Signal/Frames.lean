import Mathlib.Data.Fintype.Basic
import Mathlib.Tactic.FinCases
import Xv6.Signal.Pending

/-!
# The frames that `iret` takes

`sigret` copies the backup frame of the slot to the trap frame, whatever the backup holds. Where
no signal was ever delivered it is zero, and `iret` gets a null code selector. As long as `sigret`
is called only after a delivery, and no `sigaction` and no delivery writes outside the process's
own words, every frame that `iret` takes is a user frame.
-/

namespace Xv6.Signal

open Machine BitVec

variable {s s' : State} {t t' : Thread} {tf : Trapframe} {l : Label} {code : Word → Byte}

/-- A frame with which `iret` goes to user mode with interrupts on. -/
def UserFrame (tf : Trapframe) : Prop :=
  tf.cs = USER_CS ∧ tf.ss = USER_DS ∧ tf.eflags &&& FL_IF = FL_IF

instance (tf : Trapframe) : Decidable (UserFrame tf) := inferInstanceAs (Decidable (_ ∧ _))

/-- Every process that is about to execute `iret` has a user frame, and so far none has gone to
    kernel mode. -/
def IretSafe (s : State) : Prop :=
  (∀ a, (s.slot a).pc = .iret → UserFrame (s.slot a).proc.tf) ∧
    s.panic ≠ some .badIret ∧ s.panic ≠ some .wild

/-- The words that `sigaction` may name without harm to a frame: all but the selectors and the
    flags of the backup. -/
def framesKept : Cell → Bool
  | .backup k => k.val ≠ 15 && k.val ≠ 16 && k.val ≠ 18
  | _ => true

/-- At the store of a delivery. -/
def Pc.delivering : Pc → Bool
  | .deliverStore .. => true
  | _ => false

/-- The sixteen bytes below the user stack pointer are below the kernel's memory. -/
def StackInUser (tf : Trapframe) : Prop := 16 ≤ tf.esp.toNat ∧ tf.esp.toNat ≤ KERNBASE

/-- `sigret` is called in a slot in which a signal has been delivered; `sigaction` names none of
    the selectors and flags of the backup, nor anything outside of the process's signal fields; a
    signal is delivered onto a stack in user memory. -/
def FramesKept (s : State) (l : Label) : Prop :=
  ((s.slot l.slot).pc = .syscall → (s.slot l.slot).proc.tf.eax = SYS_sigret →
    (s.slot l.slot).hist.saved = true) ∧
  SigactionOn framesKept (s.slot l.slot) ∧
  ((s.slot l.slot).pc.delivering = true → StackInUser (s.slot l.slot).proc.tf)

instance (s : State) (l : Label) : Decidable (FramesKept s l) :=
  inferInstanceAs (Decidable ((_ → _ → _) ∧ _ ∧ (_ → _ ∧ _)))

/-- The first process calls `sigret` before any signal was delivered to it. -/
theorem sigret_without_delivery_null_selector :
    ∃ s, Reach step Always (boot fun _ => 0) s ∧ ¬ IretSafe s := by
  have hrun : ∃ s, Reach step Always (boot fun _ => 0) s ∧
      (s.slot initproc).pc = .iret ∧ (s.slot initproc).proc.tf.cs = 0 :=
    Reach.exists_of_exec
      (toUser initproc ++ call initproc 16 SYS_sigret [] [] .none)
      (by decide +kernel)
  obtain ⟨s, hreach, hpc, hcs⟩ := hrun
  refine ⟨s, hreach, fun hsafe => ?_⟩
  have hframe := (hsafe.1 initproc hpc).1
  rw [hcs] at hframe
  exact absurd hframe (by decide)

/-! ### Frames -/

/-- A user frame, with an I/O privilege level that keeps the interrupt flag from the program. -/
structure GoodFrame (tf : Trapframe) : Prop where
  cs : tf.cs = USER_CS
  ss : tf.ss = USER_DS
  interrupt : tf.eflags.getLsbD 9 = true
  iopl : tf.eflags.getLsbD 12 = false

lemma GoodFrame.userFrame (h : GoodFrame tf) : UserFrame tf := by
  refine ⟨h.cs, h.ss, ?_⟩
  have hif : FL_IF = BitVec.twoPow 32 9 := by decide
  rw [hif, and_twoPow, if_pos h.interrupt]

lemma userFlags_of_iopl {f : Word} (h : f.getLsbD 12 = false) : userFlags f = 0x244dd5 := by
  rw [userFlags, if_neg]
  intro heq
  have hbit := congrArg (fun w : Word => w.getLsbD 12) heq
  have hiopl : FL_IOPL.getLsbD 12 = true := by decide
  simp only [getLsbD_and, h, hiopl] at hbit
  cases hbit

/-- User code cannot make a bad frame of a good one. -/
lemma GoodFrame.userRun {p : Proc} (h : GoodFrame p.tf) (regs : Trapframe) (mem : Word → Byte) :
    GoodFrame (userRun p regs mem).tf := by
  have h9 : BitVec.getLsbD (0x244dd5 : Word) 9 = false := by decide
  have h12 : BitVec.getLsbD (0x244dd5 : Word) 12 = false := by decide
  refine ⟨h.cs, h.ss, ?_, ?_⟩
  · simp only [Signal.userRun, userFlags_of_iopl h.iopl, getLsbD_or, getLsbD_and,
      getLsbD_not, h.interrupt, h9]
    simp
  · simp only [Signal.userRun, userFlags_of_iopl h.iopl, getLsbD_or, getLsbD_and, getLsbD_not, h.iopl, h12]
    simp

lemma GoodFrame.setWord (h : GoodFrame tf) {k : Fin 19} (v : Word)
    (hk : framesKept (.backup k) = true) : GoodFrame (tf.setWord k v) := by
  obtain ⟨hcs, hss, hif, hiopl⟩ := h
  -- the three words that would change a selector or the flags are excluded
  fin_cases k <;> first | exact ⟨hcs, hss, hif, hiopl⟩ | simp [framesKept] at hk

/-! ### The invariant -/

/-- The frame of a process is good, and so is the backup once a delivery has written it. -/
structure FrameInv (t : Thread) : Prop where
  tf : Live t → GoodFrame t.proc.tf
  backup : t.hist.saved = true → GoodFrame t.proc.backup
  sz : Live t → t.proc.sz.toNat ≤ KERNBASE

lemma goodFrame_eax (h : GoodFrame tf) (v : Word) : GoodFrame { tf with eax := v } :=
  ⟨h.cs, h.ss, h.interrupt, h.iopl⟩

lemma FrameInv.effect (h : FrameInv t) (hlive : Live t)
    (hsigret : t.pc = .syscall → t.proc.tf.eax = SYS_sigret → t.hist.saved = true)
    (hsig : SigactionOn framesKept t) (he : Effect t t') : FrameInv t' := by
  have htf := h.tf hlive
  have hsz := h.sz hlive
  cases he with
  | goto | next | scan | clear => exact ⟨fun _ => htf, h.backup, fun _ => hsz⟩
  | user regs mem => exact ⟨fun _ => htf.userRun regs mem, h.backup, fun _ => hsz⟩
  | ret v | sigprocmask mask v => exact ⟨fun _ => goodFrame_eax htf v, h.backup, fun _ => hsz⟩
  | other v sz mem pc hpc hle => exact ⟨fun _ => goodFrame_eax htf v, h.backup, fun _ => hle⟩
  | exec image pc hpc hnum hle =>
    exact ⟨fun _ => ⟨htf.cs, htf.ss, htf.interrupt, htf.iopl⟩, h.backup, fun _ => hle⟩
  | sigret pc hpc hnum =>
    have hbackup := h.backup (hsigret hpc hnum)
    exact ⟨fun _ => goodFrame_eax hbackup 0, h.backup, fun _ => hsz⟩
  | deliver i v p hpc hp =>
    obtain ⟨func, mask, mem, _, _, rfl⟩ := deliver_eq hp
    exact ⟨fun _ => ⟨htf.cs, htf.ss, htf.interrupt, htf.iopl⟩, fun _ => htf, fun _ => hsz⟩
  | exit p late hbackup =>
    refine ⟨fun hl => absurd rfl hl.2, ?_, fun hl => absurd rfl hl.2⟩
    rw [hbackup]
    exact h.backup
  | sigaction p v pc hpc hnum hp =>
    rcases sysSigaction_eq hp with rfl | ⟨signum, act, c, mem, harg, hc, rfl⟩
    · exact ⟨fun _ => goodFrame_eax htf v, h.backup, fun _ => hsz⟩
    · have hkept := hsig hpc hnum
      rw [signumOn_eq harg, hc] at hkept
      cases c with
      | backup =>
        exact ⟨fun _ => goodFrame_eax htf v, fun hs => (h.backup hs).setWord act hkept, fun _ => hsz⟩
      | _ => exact ⟨fun _ => goodFrame_eax htf v, h.backup, fun _ => hsz⟩

lemma FrameInv.sysret (h : FrameInv t) (hlive : Live t) (v : Word) : FrameInv (sysret t v) :=
  ⟨fun _ => goodFrame_eax (h.tf hlive) v, h.backup, fun _ => h.sz hlive⟩

lemma frameInv_step (h : ∀ a, FrameInv (s.slot a)) (hok : FramesKept s l)
    (hs : step s l = some s') : ∀ a, FrameInv (s'.slot a) := by
  obtain ⟨hsigret, hsig, _⟩ := hok
  refine (step_rule hs).forall_slot (I := fun _ => FrameInv) h ?_ ?_ ?_ ?_ ?_
  · intro t hlive ht
    exact (h l.slot).effect hlive hsigret hsig ht
  · intro _
    exact ⟨fun hl => absurd rfl hl.1, (h l.slot).backup, fun hl => absurd rfl hl.1⟩
  · intro signum q v _
    exact ⟨(h q).tf, (h q).backup, (h q).sz⟩
  · intro t v _ hlive ht
    exact ht.sysret hlive v
  · intro child pc _ hlive _
    exact ⟨fun _ => goodFrame_eax ((h l.slot).tf hlive) 0, (h child).backup, fun _ => (h l.slot).sz hlive⟩

/-- A step that meets the condition does not end in kernel mode nor in kernel memory. -/
lemma panic_step (h : ∀ a, FrameInv (s.slot a)) (hok : FramesKept s l)
    (hs : step s l = some s') : s'.panic ≠ some .badIret ∧ s'.panic ≠ some .wild := by
  have hnone : s.panic = none := by
    rw [step] at hs
    split_ifs at hs with hp
    exact hp
  obtain ⟨_, hsig, hstack⟩ := hok
  cases step_rule hs with
  | slot | reap | kill | fork => simp [setSlot, hnone]
  | panic e he =>
    cases he with
    | trap => simp
    | initExiting => simp
    | badIret hpc hbad =>
      have hframe := (h l.slot).tf (by simp [Live, hpc])
      exact absurd ⟨hframe.cs, hframe.ss⟩ hbad
    | sigaction e hpc hnum herr =>
      rcases sysSigaction_error herr with rfl | rfl
      · simp
      · obtain ⟨signum, harg, hcell⟩ :=
          sysSigaction_wild ((h l.slot).sz (by simp [Live, hpc])) herr
        have hkept := hsig hpc hnum
        simp [signumOn_eq harg, hcell] at hkept
    | deliver i v e hpc herr =>
      rcases deliver_error herr with rfl | rfl
      · simp
      · have hin : StackInUser (s.slot l.slot).proc.tf := hstack (by rw [hpc]; rfl)
        rcases deliver_wild herr with hlow | hhigh
        · exact absurd hin.1 (Nat.not_le.mpr hlow)
        · exact absurd hin.2 (Nat.not_le.mpr hhigh)

lemma goodFrame_userinit : GoodFrame (userinit code 2).tf := by
  have hflags : FL_IF.getLsbD 9 = true ∧ FL_IF.getLsbD 12 = false := by decide
  exact ⟨rfl, rfl, hflags.1, hflags.2⟩

/-- In a run that meets the condition at every step, every frame that `iret` takes is a user
    frame. -/
theorem iretSafe_of_framesKept (hrun : Reach step FramesKept (boot code) s) : IretSafe s := by
  have hinv : (∀ a, FrameInv (s.slot a)) ∧ s.panic ≠ some .badIret ∧ s.panic ≠ some .wild := by
    refine hrun.invariant (I := fun s => (∀ a, FrameInv (s.slot a)) ∧
      s.panic ≠ some .badIret ∧ s.panic ≠ some .wild) ⟨?_, by simp [boot], by simp [boot]⟩ ?_
    · refine forall_boot ?_ ?_
      · exact ⟨fun hl => absurd rfl hl.1, by simp [Hist.zero], fun hl => absurd rfl hl.1⟩
      · exact ⟨fun _ => goodFrame_userinit, by simp [trapret, Hist.zero], fun _ => Nat.le_of_ble_eq_true rfl⟩
    · intro s l s' h hok hs
      exact ⟨frameInv_step h.1 hok hs, panic_step h.1 hok hs⟩
  refine ⟨?_, hinv.2⟩
  intro a hpc
  exact ((hinv.1 a).tf (by simp [Live, hpc])).userFrame

/-- The first process installs a handler for signal 5 at address 128, sends itself the signal and
    calls `sigret` from the handler. -/
def handledSignal : List Label :=
  toUser initproc ++ call initproc 16 SYS_sigaction [5, 64, 0] [(64, 128)] .none ++
    toUser initproc ++ call initproc 20 SYS_kill [2, 5] [(64, 128)] .none ++ runs initproc 45 ++
    call initproc 128 SYS_sigret [] [(64, 128)] .none

theorem iretSafe_after_handled_signal :
    ∃ s, Reach step FramesKept (boot fun _ => 0) s ∧
      ((s.slot initproc).pc = .iret ∧ (s.slot initproc).hist.saved = true) ∧ IretSafe s := by
  have hrun : ∃ s, Reach step FramesKept (boot fun _ => 0) s ∧
      (s.slot initproc).pc = .iret ∧ (s.slot initproc).hist.saved = true :=
    Reach.exists_of_exec (handledSignal ++ runs initproc 65) (by decide +kernel)
  obtain ⟨s, hreach, hend⟩ := hrun
  exact ⟨s, hreach, hend, iretSafe_of_framesKept hreach⟩

end Xv6.Signal
