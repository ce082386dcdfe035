import Xv6.Signal.Steps

/-!
# Lost signals

`p->pending_signals |= bit` in `kill` and `pending_signals &= ~(1 << i)` in `signalsHandler` are
loads and stores with nothing to keep other updates out in between, so an update that comes in
between is lost. A run in which no store finds a bit that its load did not see loses no signal.
-/

namespace Xv6.Signal

open Machine

variable {s s' : State} {t t' : Thread} {l : Label} {code : Word → Byte}

/-- The store to `pending_signals` that a process is about to make: the slot, the bit and the
    word that was loaded. -/
def Pc.rmw (a : Slot) : Pc → Option (Slot × Signum × Word)
  | .killStore signum q v => some (q, sigIndex signum, v)
  | .stopStore i _ v | .contStore i _ v | .ignoreStore i v | .deliverStore i v => some (a, i, v)
  | _ => none

lemma Pc.rmw_of_store {a : Slot} {pc : Pc} {i : Signum} {v : Word} (h : pc.store = some (i, v)) :
    pc.rmw a = some (a, i, v) := by
  cases pc with
  | stopStore | contStore | ignoreStore | deliverStore =>
    simp only [Pc.store, Option.some.injEq, Prod.mk.injEq] at h
    rw [Pc.rmw, h.1, h.2]
  | _ => simp [Pc.store] at h

/-- What `P` says of the word in memory, the bit and the loaded word at a store to
    `pending_signals`. -/
def AtStore (P : Word → Signum → Word → Prop) (s : State) (l : Label) : Prop :=
  match (s.slot l.slot).pc.rmw l.slot with
  | some (q, i, v) => P (s.slot q).proc.pendingSignals i v
  | none => True

instance (P : Word → Signum → Word → Prop) [∀ u i v, Decidable (P u i v)] (s : State)
    (l : Label) : Decidable (AtStore P s l) := by
  rw [AtStore]
  split <;> infer_instance

lemma AtStore.of_rmw {P : Word → Signum → Word → Prop} {q : Slot} {i : Signum} {v : Word}
    (h : AtStore P s l) (hpc : (s.slot l.slot).pc.rmw l.slot = some (q, i, v)) :
    P (s.slot q).proc.pendingSignals i v := by
  rw [AtStore, hpc] at h
  exact h

/-- The `signum` of a call of `sigaction`, if there is one, names one of the words in `ok`. -/
def signumOn (ok : Cell → Bool) (p : Proc) : Bool :=
  match p.argint 0 with
  | none => true
  | some signum => (cell signum).any ok

lemma signumOn_eq {ok : Cell → Bool} {p : Proc} {signum : Word} (harg : p.argint 0 = some signum) :
    signumOn ok p = (cell signum).any ok := by
  rw [signumOn, harg]

/-- A call of `sigaction` only with a `signum` that names one of the words in `ok`. -/
def SigactionOn (ok : Cell → Bool) (t : Thread) : Prop :=
  t.pc = .syscall → t.proc.tf.eax = SYS_sigaction → signumOn ok t.proc = true

instance (ok : Cell → Bool) (t : Thread) : Decidable (SigactionOn ok t) :=
  inferInstanceAs (Decidable (_ → _ → _))

/-- A store to `pending_signals` finds no bit there, other than its own, that it did not load;
    and no `sigaction` is used to overwrite `pending_signals`. -/
def NoStaleStore (s : State) (l : Label) : Prop :=
  AtStore (fun u i v => Included u (setBit v i)) s l ∧
  SigactionOn (fun c => decide (c ≠ .pending)) (s.slot l.slot)

instance (s : State) (l : Label) : Decidable (NoStaleStore s l) :=
  inferInstanceAs (Decidable (_ ∧ _))

/-- Every signal that `kill` has stored is pending, unless a clearing has taken it. -/
def Kept (t : Thread) : Prop := Included t.hist.sent t.proc.pendingSignals

instance (t : Thread) : Decidable (Kept t) := inferInstanceAs (Decidable (Included _ _))

/-! ### Lost bits -/

/-- The registers at a trap, with the stack pointer at 1024. -/
def trapRegs (trapno eip eax : Word) : Trapframe :=
  { Trapframe.zero with trapno := trapno, eip := eip, eax := eax, esp := 1024 }

/-- A user memory given by its bytes other than zero. -/
def memOf (bytes : List (Nat × Byte)) : Word → Byte := fun a => (bytes.lookup a.toNat).getD 0

/-- The process in `a` makes a system call with small arguments, over the given memory. -/
def call (a : Slot) (eip num : Word) (args : List Byte) (bytes : List (Nat × Byte)) (c : Choice) :
    List Label :=
  [.user a (trapRegs T_SYSCALL eip num)
      (memOf (args.mapIdx (fun k x => (1028 + 4 * k, x)) ++ bytes)),
    .syscall a c]

/-- Steps of the process in `a` in the kernel. -/
def runs (a : Slot) (n : Nat) : List Label := List.replicate n (.run a)

/-- With nothing pending it takes 66 steps from `trapret` to user mode. -/
def toUser (a : Slot) : List Label := runs a 66

/-- The slot that the first `fork` fills. -/
def childSlot : Slot := ⟨1, one_lt_NPROC⟩

/-- The first process has a child, and both call `kill` on the first process at the same time,
    with signals 5 and 7: signal 5 is lost. -/
theorem two_kills_lose_a_signal :
    ∃ s, Reach step Always (boot fun _ => 0) s ∧ ¬ Kept (s.slot initproc) :=
  Reach.exists_of_exec
    (toUser initproc ++ call initproc 16 SYS_fork [] [] (.fork (some childSlot)) ++
      toUser initproc ++ toUser childSlot ++
      call childSlot 20 SYS_kill [2, 5] [] .none ++ call initproc 20 SYS_kill [2, 7] [] .none ++
      -- both find the process and load its word, then both store
      runs childSlot 2 ++ runs initproc 2 ++ runs childSlot 1 ++ runs initproc 1)
    (by decide +kernel)

/-! ### No lost bits -/

lemma Kept.effect (h : Kept t)
    (hok : ∀ i v, t.pc.store = some (i, v) → Included t.proc.pendingSignals (setBit v i))
    (hsig : SigactionOn (fun c => decide (c ≠ .pending)) t) (he : Effect t t') : Kept t' := by
  cases he with
  | goto => exact h
  | next => exact h
  | scan => exact h
  | user => exact h
  | ret => exact h
  | sigret => exact h
  | sigprocmask => exact h
  | exec => exact h
  | other => exact h
  | exit => exact included_zero _
  | clear i v pc hpc => exact Included.clearBit h (hok i v hpc)
  | deliver i v p hpc hp =>
    obtain ⟨func, mask, mem, _, _, rfl⟩ := deliver_eq hp
    exact Included.clearBit h (hok i v (by rw [hpc]; rfl))
  | sigaction p v pc hpc hnum hp =>
    rcases sysSigaction_eq hp with rfl | ⟨signum, act, c, mem, harg, hc, rfl⟩
    · exact h
    · have hne := hsig hpc hnum
      rw [signumOn_eq harg, hc] at hne
      cases c with
      | pending => simp at hne
      | _ => exact h

lemma Kept.raise {signum v : Word} (h : Kept t)
    (hok : Included t.proc.pendingSignals (setBit v (sigIndex signum))) : Kept (raise t signum v) :=
  Included.setBit h hok

lemma kept_step (h : ∀ a, Kept (s.slot a)) (hok : NoStaleStore s l) (hs : step s l = some s') :
    ∀ a, Kept (s'.slot a) := by
  obtain ⟨hstore, hsig⟩ := hok
  refine (step_rule hs).forall_slot (I := fun _ => Kept) h ?_ (fun _ => h l.slot) ?_ ?_ ?_
  · intro t _ ht
    refine (h l.slot).effect ?_ hsig ht
    intro i v hpc
    exact hstore.of_rmw (Pc.rmw_of_store hpc)
  · intro signum q v hpc
    exact (h q).raise (hstore.of_rmw (i := sigIndex signum) (by rw [hpc]; rfl))
  · intro t v _ _ ht
    exact ht
  · intro child pc _ _ _
    exact included_zero _

/-- In a run without stale stores no signal is lost: whatever bit `kill` has stored in a process
    stays pending until `signalsHandler` has tested and cleared it or the process exits. -/
theorem kept_of_noStaleStore (hrun : Reach step NoStaleStore (boot code) s) (a : Slot) :
    Kept (s.slot a) := by
  refine hrun.invariant (I := fun s => ∀ a, Kept (s.slot a)) ?_ ?_ a
  · exact forall_boot (included_zero _) (included_zero _)
  · intro s l s' h hok hs
    exact kept_step h hok hs

/-- The first process sends signal 5 to itself. -/
theorem kept_after_one_kill :
    ∃ s, Reach step NoStaleStore (boot fun _ => 0) s ∧
      hasBit (s.slot initproc).hist.sent 5 = true ∧ Kept (s.slot initproc) := by
  have hrun : ∃ s, Reach step NoStaleStore (boot fun _ => 0) s ∧
      hasBit (s.slot initproc).hist.sent 5 = true :=
    Reach.exists_of_exec
      (toUser initproc ++ call initproc 16 SYS_kill [2, 5] [] .none ++ runs initproc 3)
      (by decide +kernel)
  obtain ⟨s, hreach, hsent⟩ := hrun
  exact ⟨s, hreach, hsent, kept_of_noStaleStore hreach initproc⟩

end Xv6.Signal
