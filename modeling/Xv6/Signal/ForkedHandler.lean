import Xv6.Signal.Sigret

/-!
# `fork` in a handler

`fork` copies the trap frame, the mask and the dispositions, and not the backup of the frame and of the
mask: the child has the backup that the process before it in the slot has left. A child that is
forked inside a handler goes back, by its `sigret`, to where that process was interrupted, or to a
zero frame.
-/

namespace Xv6.Signal

open Machine

variable {s s' p p' c c' : State} {a child : Slot} {code : Word → Byte}

/-- The process in `s.slot a` is about to call `sigret`. -/
def CallsSigret (s : State) (a : Slot) : Prop :=
  (s.slot a).pc = .syscall ∧ (s.slot a).proc.tf.eax = SYS_sigret

instance (s : State) (a : Slot) : Decidable (CallsSigret s a) :=
  inferInstanceAs (Decidable (_ ∧ _))

/-- Inside a handler the process in `a` forks a child. The parent goes on to its `sigret`, from `p` to
    `p'`, and the child goes on to its own, from `c` to `c'`, each with no other delivery to it; all
    other processes take any steps meanwhile. -/
structure ForkInHandler (a child : Slot) (s s' p p' c c' : State) : Prop where
  inHandler : (s.slot a).hist.contexts ≠ []
  fork : step s (.syscall a (.fork (some child))) = some s'
  parentRun : Reach step (NoDelivery a) s' p
  parentCall : CallsSigret p a
  parentSigret : step p (.syscall a .none) = some p'
  childRun : Reach step (NoDelivery child) s' c
  childCall : CallsSigret c child
  childSigret : step c (.syscall child .none) = some c'

/-- The child goes back to the context to which the parent goes back. -/
def SameReturn (a child : Slot) (p' c' : State) : Prop :=
  (c'.slot child).proc.tf = (p'.slot a).proc.tf ∧
    (c'.slot child).proc.signalMask = (p'.slot a).proc.signalMask

instance (a child : Slot) (p' c' : State) : Decidable (SameReturn a child p' c') :=
  inferInstanceAs (Decidable (_ ∧ _))

/-- The free slot holds the backup of the process in `a`, up to the word that `syscall` overwrites. -/
def SameBackup (s : State) (a child : Slot) : Prop :=
  { (s.slot child).proc.backup with eax := 0 } = { (s.slot a).proc.backup with eax := 0 } ∧
    (s.slot child).proc.signalMaskBackup = (s.slot a).proc.signalMaskBackup

/-- `fork` leaves the backups of the parent and of the slot as they are. -/
lemma step_fork (hs : step s (.syscall a (.fork (some child))) = some s') (b : Slot) :
    (s'.slot b).proc.backup = (s.slot b).proc.backup ∧
      (s'.slot b).proc.signalMaskBackup = (s.slot b).proc.signalMaskBackup := by
  rw [step] at hs
  split_ifs at hs
  simp only [liveStep, syscallStep] at hs
  split_ifs at hs
  rw [forkStep] at hs
  split_ifs at hs
  obtain rfl := Option.some.inj hs
  by_cases hb : b = a
  · subst hb
    rw [setSlot_self]
    exact ⟨rfl, rfl⟩
  · rw [setSlot_of_ne _ _ hb]
    by_cases hc : b = child
    · subst hc
      change ((setSlot s b _).slot b).proc.backup = _ ∧ ((setSlot s b _).slot b).proc.signalMaskBackup = _
      rw [setSlot_self]
      exact ⟨rfl, rfl⟩
    · change ((setSlot s child _).slot b).proc.backup = _ ∧
        ((setSlot s child _).slot b).proc.signalMaskBackup = _
      rw [setSlot_of_ne _ _ hc]
      exact ⟨rfl, rfl⟩

/-- Find a fork in a handler by executing labels. -/
lemma ForkInHandler.exists_of_exec {P : State → State → Prop} [∀ p' c', Decidable (P p' c')]
    (ls parent forked : List Label)
    (h : (Machine.exec (guarded step Always) (boot code) ls).any (fun s =>
      decide ((s.slot a).hist.contexts ≠ []) &&
      (step s (.syscall a (.fork (some child)))).any fun s' =>
      (Machine.exec (guarded step (NoDelivery a)) s' parent).any fun p =>
      decide (CallsSigret p a) && (step p (.syscall a .none)).any fun p' =>
      (Machine.exec (guarded step (NoDelivery child)) s' forked).any fun c =>
      decide (CallsSigret c child) && (step c (.syscall child .none)).any fun c' =>
      decide (P p' c')) = true) :
    ∃ s s' p p' c c', Reach step Always (boot code) s ∧ ForkInHandler a child s s' p p' c c' ∧ P p' c' := by
  simp only [Option.any_eq_true, Bool.and_eq_true, decide_eq_true_eq] at h
  obtain ⟨s, hs, hin, s', hfork, p, hp, hpc, p', hp', c, hc, hcc, c', hc', hP⟩ := h
  exact ⟨s, s', p, p', c, c', .of_exec hs, ⟨hin, hfork, .of_exec hp, hpc, hp', .of_exec hc, hcc, hc'⟩, hP⟩

/-- The first process sends itself signal 5 and comes to the handler. -/
def firstHandler : List Label :=
  call initproc 20 SYS_kill [2, 5] handlerAt64 .none ++ runs initproc 45 ++
    [.user initproc (trapRegs T_SYSCALL 128 SYS_fork) (memOf handlerAt64)]

/-- After a fork the process in `a` goes on to `sigret`. -/
def onToSigret (a : Slot) : List Label :=
  toUser a ++ [.user a (trapRegs T_SYSCALL 132 SYS_sigret) (memOf handlerAt64)]

/-- The first process forks in a handler, and the child gets a slot that was never used: it goes back
    to a zero frame. -/
theorem forked_handler_lost :
    ∃ s s' p p' c c', Reach step Always (boot fun _ => 0) s ∧
      ForkInHandler initproc childSlot s s' p p' c c' ∧ ¬ SameReturn initproc childSlot p' c' :=
  ForkInHandler.exists_of_exec
    (toUser initproc ++ call initproc 16 SYS_sigaction [5, 64, 0] handlerAt64 .none ++
      toUser initproc ++ firstHandler)
    (onToSigret initproc) (onToSigret childSlot) (by decide +kernel)

/-- The child goes back to the same context as the parent exactly when the slot that it was given held
    the parent's backup before the fork. -/
theorem forked_sigret_iff (h : ForkInHandler a child s s' p p' c c') :
    SameReturn a child p' c' ↔ SameBackup s a child := by
  obtain ⟨htf, hmask⟩ := step_sigret h.parentSigret h.parentCall.1 h.parentCall.2
  obtain ⟨htf', hmask'⟩ := step_sigret h.childSigret h.childCall.1 h.childCall.2
  obtain ⟨hbackup, hmaskBackup⟩ := backup_run h.parentRun
  obtain ⟨hbackup', hmaskBackup'⟩ := backup_run h.childRun
  obtain ⟨hfork, hmaskFork⟩ := step_fork h.fork a
  obtain ⟨hfork', hmaskFork'⟩ := step_fork h.fork child
  rw [SameReturn, SameBackup, htf, htf', hmask, hmask', hbackup, hbackup', hmaskBackup,
    hmaskBackup', hfork, hfork', hmaskFork, hmaskFork']

/-- An earlier child has been interrupted at the same place, with the same registers, and has left
    the same backup in the slot. -/
theorem forked_sigret_after_same_child :
    ∃ s s' p p' c c', Reach step Always (boot fun _ => 0) s ∧
      ForkInHandler initproc childSlot s s' p p' c c' ∧ SameBackup s initproc childSlot := by
  have hrun : ∃ s s' p p' c c', Reach step Always (boot fun _ => 0) s ∧
      ForkInHandler initproc childSlot s s' p p' c c' ∧ SameReturn initproc childSlot p' c' :=
    ForkInHandler.exists_of_exec
      (toUser initproc ++ call initproc 16 SYS_sigaction [5, 64, 0] handlerAt64 .none ++
        toUser initproc ++ call initproc 20 SYS_fork [] handlerAt64 (.fork (some childSlot)) ++
        toUser initproc ++ toUser childSlot ++
        -- the earlier child sends itself signal 5, and exits in the handler
        call childSlot 20 SYS_kill [3, 5] handlerAt64 .none ++ runs childSlot 46 ++
        call childSlot 128 SYS_exit [] handlerAt64 .none ++ [.reap childSlot] ++ firstHandler)
      (onToSigret initproc) (onToSigret childSlot) (by decide +kernel)
  obtain ⟨s, s', p, p', c, c', hreach, hfork, hsame⟩ := hrun
  exact ⟨s, s', p, p', c, c', hreach, hfork, (forked_sigret_iff hfork).mp hsame⟩

end Xv6.Signal
