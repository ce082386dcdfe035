import Xv6.Signal.Pending

/-!
# The two passes of `signalsHandler`

The scan takes out the signals that end, stop or continue the process, and the delivery loop takes
every signal that is left for one with a user handler. A signal that arrives between the two has
never been looked at by the scan: the delivery loop clears it, or enters the word that its
disposition happens to point to. When every such late signal is one that the scan would have left
alone, the delivery loop only enters user handlers.
-/

namespace Xv6.Signal

open Machine Option

variable {s s' : State} {t t' : Thread} {p : Proc} {l : Label} {i j : Signum} {n : Nat}
  {v : Word} {code : Word → Byte} {isStopped isCont : Bool} {signum : Word}

/-- The values of `sa_handler` that are not the address of a handler. -/
def reserved : List Word := [SIG_DFL, disp SIGKILL, disp SIGSTOP, disp SIGCONT]

/-- `func` is the `sa_handler` of a user's `struct sigaction` for signal `i`. -/
def UserHandler (p : Proc) (i : Signum) (func : Word) : Prop :=
  isSigact (p.signalHandlers i) = true ∧ p.fetch (p.signalHandlers i) = .ok func ∧
    func ∉ reserved

instance (p : Proc) (i : Signum) (func : Word) : Decidable (UserHandler p i func) :=
  inferInstanceAs (Decidable (_ ∧ _ ∧ _))

/-- The disposition is a pointer to a `struct sigaction` whose `sa_handler` is a handler. -/
def hasHandler (p : Proc) (i : Signum) : Bool :=
  isSigact (p.signalHandlers i) &&
    match p.fetch (p.signalHandlers i) with
    | .ok func => !reserved.contains func
    | .error _ => false

/-- The store that the delivery loop is about to make takes out neither `SIGKILL`, `SIGSTOP` nor
    `SIGCONT`, and if it is that of a delivery, the process goes to a user handler. -/
def DeliverySound (t : Thread) : Prop :=
  match t.pc with
  | .ignoreStore i _ => ¬ Special i
  | .deliverStore i _ => ¬ Special i ∧
    match signalsHandler t with
    | some (.next t') => UserHandler t.proc i t'.proc.tf.eip
    | _ => True
  | _ => True

instance (t : Thread) : Decidable (DeliverySound t) := by
  rw [DeliverySound]
  split
  · infer_instance
  · refine @instDecidableAnd _ _ inferInstance ?_
    split <;> infer_instance
  · infer_instance

/-- The update of `pending_signals` is atomic: the store finds the word that was loaded. -/
def AtomicUpdate : State → Label → Prop := AtStore fun u _ v => u = v

instance (s : State) (l : Label) : Decidable (AtomicUpdate s l) :=
  inferInstanceAs (Decidable (AtStore _ s l))

/-- A signal that the scan leaves to the delivery loop: masked, ignored, or with a user handler. -/
def Harmless (p : Proc) (i : Signum) : Prop :=
  ¬ Special i ∧
    (hasBit p.signalMask i = true ∨ p.signalHandlers i = SIG_IGN ∨ hasHandler p i = true)

instance (p : Proc) (i : Signum) : Decidable (Harmless p i) := inferInstanceAs (Decidable (_ ∧ _))

/-- A signal that the delivery loop finds and that `kill` stored after the scan had tested its
    bit is one that the scan would have left alone. -/
def LateHarmless (s : State) (l : Label) : Prop :=
  match (s.slot l.slot).pc with
  | .test i => hasBit (s.slot l.slot).proc.pendingSignals i = true →
      hasBit (s.slot l.slot).hist.late i = true → Harmless (s.slot l.slot).proc i
  | _ => True

instance (s : State) (l : Label) : Decidable (LateHarmless s l) := by
  rw [LateHarmless]
  split <;> infer_instance

/-! ### A late signal -/

/-- The child of the first process sends it `SIGKILL` after the scan has tested that bit: the
    delivery loop is about to clear the bit and to enter the word at address zero. -/
theorem late_sigkill_delivered :
    ∃ s, Reach step AtomicUpdate (boot fun _ => 0) s ∧ ¬ DeliverySound (s.slot initproc) :=
  Reach.exists_of_exec
    (toUser initproc ++ call initproc 16 SYS_fork [] [] (.fork (some childSlot)) ++
      toUser initproc ++ toUser childSlot ++ call childSlot 20 SYS_kill [2, 9] [] .none ++
      -- a timer interrupt, and the scan up to signal 10; then the `kill`; then the rest
      [.user initproc (trapRegs 32 20 0) (memOf [])] ++ runs initproc 10 ++ runs childSlot 3 ++
      runs initproc 34)
    (by decide +kernel)

/-! ### What the scan leaves -/

/-- A signal on which the scan does not act is harmless. -/
lemma harmless_of_scan (hkill : scanKills p i = .ok false) (hstop : scanStops p i = .ok false)
    (hcont : scanConts p i = .ok false) : Harmless p i := by
  obtain ⟨hk, hkd, hkw⟩ := scanKills_false hkill
  obtain ⟨hs, hsd, hsw⟩ := scanActs_false hstop
  obtain ⟨hc, hcd, hcw⟩ := scanActs_false hcont
  obtain ⟨hkill', hdfl⟩ := hkd hc hs
  refine ⟨by simp [Special, hk, hs, hc], .inr ?_⟩
  rcases isSigact_or (p.signalHandlers i) with hsig | h | h | h | h | h
  · right
    obtain ⟨w, hw, hw9, hw0⟩ := hkw hsig
    obtain ⟨_, hw', hw17⟩ := hsw hsig
    cases hw.symm.trans hw'
    obtain ⟨_, hw', hw19⟩ := hcw hsig
    cases hw.symm.trans hw'
    simp [hasHandler, hsig, hw, reserved, hw0, hw9, hw17, hw19]
  · exact absurd h hdfl
  · exact .inl h
  · exact absurd h hkill'
  · exact absurd h hsd
  · exact absurd h hcd

lemma userHandler_of_harmless {func : Word} (h : Harmless p i) (hign : isIgnored p i = .ok false)
    (hfunc : p.fetch (p.signalHandlers i) = .ok func) : UserHandler p i func := by
  rw [isIgnored] at hign
  split_ifs at hign with hmask hdisp
  · cases hign
  · cases hign
  rcases h.2 with h | h | h
  · exact absurd h hmask
  · exact absurd h hdisp
  · rw [hasHandler, hfunc, Bool.and_eq_true, Bool.not_eq_true', ← Bool.not_eq_true,
      List.contains_iff_mem] at h
    exact ⟨h.1, hfunc, h.2⟩

/-! ### Between the passes -/

/-- The pending signals below `n` are harmless, apart from late ones. -/
def SafeBelow (n : Nat) (t : Thread) : Prop :=
  ∀ j : Signum, j.val < n → hasBit t.proc.pendingSignals j = true →
    hasBit t.hist.late j = false → Harmless t.proc j

/-- What holds at each point of `signalsHandler`: the scan has checked the signals below the one
    it is at, and the delivery loop comes after the whole scan. -/
def ScanInv (t : Thread) : Prop :=
  match t.pc with
  | .scan i _ _ | .stopLoad i _ | .stopStore i _ _ | .contLoad i _ | .contStore i _ _ =>
    SafeBelow i t
  | .scanEnd _ _ | .test _ => SafeBelow 32 t
  | .ignoreLoad i | .ignoreStore i _ => SafeBelow 32 t ∧ Harmless t.proc i
  | .deliverLoad i | .deliverStore i _ =>
    SafeBelow 32 t ∧ Harmless t.proc i ∧ isIgnored t.proc i = .ok false
  | _ => True

lemma safeBelow_zero : SafeBelow 0 t := nofun

lemma scanInv_of_fresh (h : t.pc.fresh = true) : ScanInv t := by
  cases hpc : t.pc with
  | scan =>
    simp only [hpc, Pc.fresh, Bool.and_eq_true, beq_iff_eq] at h
    simp only [ScanInv, hpc, h.1.1]
    exact safeBelow_zero
  | stopLoad | stopStore | contLoad | contStore | scanEnd | test | ignoreLoad | ignoreStore
  | deliverLoad | deliverStore => simp [hpc, Pc.fresh] at h
  | _ => simp only [ScanInv, hpc]

lemma SafeBelow.succ (h : SafeBelow i t)
    (hi : hasBit t.proc.pendingSignals i = true → hasBit t.hist.late i = false →
      Harmless t.proc i) : SafeBelow (i + 1) t := by
  intro j hj hpend hlate
  rcases Nat.lt_succ_iff_lt_or_eq.mp hj with hlt | heq
  · exact h j hlt hpend hlate
  · obtain rfl := Fin.ext heq
    exact hi hpend hlate

/-- The test of a bit says nothing about the smaller ones. -/
lemma SafeBelow.tested (h : SafeBelow i t) :
    SafeBelow i { t with hist := { t.hist with late := clearBit t.hist.late i } } := by
  intro j hj hpend hlate
  have hne : i ≠ j := by
    rintro rfl
    exact absurd hj (Nat.lt_irrefl _)
  exact h j hj hpend ((hasBit_clearBit_of_ne _ hne).symm.trans hlate)

lemma SafeBelow.clear (h : SafeBelow n t) (hv : t.proc.pendingSignals = v) : SafeBelow n (clear t i v) := by
  intro j hj hpend hlate
  subst hv
  have hpend' : hasBit t.proc.pendingSignals j = true := by
    simp only [Signal.clear, hasBit_clearBit, Bool.and_eq_true] at hpend
    exact hpend.1
  exact h j hj hpend' hlate

lemma SafeBelow.clear_succ (h : SafeBelow i t) (hv : t.proc.pendingSignals = v) :
    SafeBelow (i + 1) (Signal.clear t i v) := by
  refine (h.clear hv).succ fun hpend _ => ?_
  simp [Signal.clear] at hpend

lemma SafeBelow.raise (h : SafeBelow n t) (hv : t.proc.pendingSignals = v) :
    SafeBelow n (raise t signum v) := by
  intro j hj hpend hlate
  subst hv
  simp only [Signal.raise, hasBit_setBit, Bool.or_eq_false_iff] at hlate
  simp only [Signal.raise, hasBit_setBit, hlate.2, Bool.or_false] at hpend
  exact h j hj hpend hlate.1

lemma scanInv_scanNext (h : SafeBelow (i + 1) t) :
    ScanInv { t with pc := scanNext i isStopped isCont } := by
  rw [scanNext]
  split_ifs with hi
  · exact h
  · intro j _ hpend hlate
    exact h j (by omega) hpend hlate

lemma scanInv_testNext (h : SafeBelow 32 t) : ScanInv { t with pc := testNext i } := by
  rw [testNext]
  split_ifs
  · exact h
  · trivial

lemma scanInv_scanCont (h : SafeBelow i t) (hi : scanConts t.proc i = .ok false → SafeBelow (i + 1) t)
    (ho : scanCont t i isStopped isCont = .next t') : ScanInv t' := by
  cases hc : scanConts t.proc i with
  | error => simp [scanCont, hc] at ho
  | ok b =>
    cases b with
    | true =>
      simp only [scanCont, hc, Outcome.next.injEq] at ho
      exact ho ▸ h
    | false =>
      simp only [scanCont, hc, Outcome.next.injEq] at ho
      exact ho ▸ scanInv_scanNext (hi hc)

/-- The body of the scan: a signal that it does not act on is harmless. -/
lemma scanInv_scanBody (h : SafeBelow i t) (ho : scanBody t i isStopped isCont = .next t') :
    ScanInv t' := by
  rw [scanBody] at ho
  split_ifs at ho with hact
  · cases hk : scanKills t.proc i with
    | error => simp [hk] at ho
    | ok b =>
      cases b with
      | true => simp [hk] at ho
      | false =>
        cases hs : scanStops t.proc i with
        | error => simp [hk, hs] at ho
        | ok b =>
          cases b with
          | true =>
            simp only [hk, hs, Outcome.next.injEq] at ho
            exact ho ▸ h
          | false =>
            simp only [hk, hs] at ho
            refine scanInv_scanCont h (fun hc => ?_) ho
            exact h.succ fun _ _ => harmless_of_scan hk hs hc
  · simp only [Outcome.next.injEq] at ho
    refine ho ▸ scanInv_scanNext (h.succ fun hpend _ => ?_)
    -- the bit is set, so it was left because of the mask
    have hmask : hasBit t.proc.signalMask i = true ∧ ¬ Special i := by
      simpa [hpend] using hact
    exact ⟨hmask.2, .inl hmask.1⟩

lemma scanInv_testBody (h : SafeBelow 32 t)
    (hlate : hasBit t.proc.pendingSignals i = true → hasBit t.hist.late i = true → Harmless t.proc i)
    (ho : testBody t i = .next t') : ScanInv t' := by
  cases hign : isIgnored t.proc i with
  | error => simp [testBody, hign] at ho
  | ok ignored =>
    by_cases hpend : hasBit t.proc.pendingSignals i = true
    · have hi : Harmless t.proc i := by
        cases hl : hasBit t.hist.late i with
        | false => exact h i i.isLt hpend hl
        | true => exact hlate hpend hl
      simp only [testBody, hign, hpend, if_true, Outcome.next.injEq] at ho
      subst ho
      cases ignored with
      | true => exact ⟨h, hi⟩
      | false => exact ⟨h, hi, hign⟩
    · simp only [testBody, hign] at ho
      rw [if_neg hpend, Outcome.next.injEq] at ho
      exact ho ▸ scanInv_testNext h

section

variable (h : ScanInv t) (hatomic : ∀ i v, t.pc.store = some (i, v) → t.proc.pendingSignals = v)
  (hlate : ∀ i, t.pc = .test i → hasBit t.proc.pendingSignals i = true →
    hasBit t.hist.late i = true → Harmless t.proc i)

include h hatomic hlate

/-- A step of `signalsHandler` keeps the invariant, when its own update of `pending_signals` is
    atomic and a late signal is harmless. -/
lemma ScanInv.handler (ho : signalsHandler t = some (.next t')) : ScanInv t' := by
  cases hpc : t.pc with
  | scan =>
    simp only [signalsHandler, hpc, some.injEq] at ho
    simp only [ScanInv, hpc] at h
    exact scanInv_scanBody h.tested (by rwa [hpc])
  | stopLoad | contLoad | ignoreLoad | deliverLoad =>
    simp only [signalsHandler, hpc, some.injEq, Outcome.next.injEq] at ho
    simp only [ScanInv, hpc] at h
    exact ho ▸ h
  | stopStore i isCont v =>
    simp only [signalsHandler, hpc, some.injEq] at ho
    simp only [ScanInv, hpc] at h
    have hv := hatomic i v (by rw [hpc]; rfl)
    exact scanInv_scanCont (h.clear hv) (fun _ => h.clear_succ hv) ho
  | contStore i isStopped v =>
    simp only [signalsHandler, hpc, some.injEq, Outcome.next.injEq] at ho
    simp only [ScanInv, hpc] at h
    have hv := hatomic i v (by rw [hpc]; rfl)
    exact ho ▸ scanInv_scanNext (h.clear_succ hv)
  | scanEnd =>
    simp only [signalsHandler, hpc, some.injEq, Outcome.next.injEq] at ho
    simp only [ScanInv, hpc] at h
    rw [← ho]
    split_ifs
    · exact safeBelow_zero
    · exact h
  | test i =>
    simp only [signalsHandler, hpc, some.injEq] at ho
    simp only [ScanInv, hpc] at h
    exact scanInv_testBody h (hlate i hpc) ho
  | ignoreStore i v =>
    simp only [signalsHandler, hpc, some.injEq, Outcome.next.injEq] at ho
    simp only [ScanInv, hpc] at h
    have hv := hatomic i v (by rw [hpc]; rfl)
    exact ho ▸ scanInv_testNext (h.1.clear hv)
  | deliverStore =>
    simp only [signalsHandler, hpc, some.injEq, deliverBody] at ho
    split at ho
    · cases ho
    · simp only [Outcome.next.injEq] at ho
      exact ho ▸ scanInv_of_fresh rfl
  | unused | zombie | user | syscall | killTest | killLoad | killStore | iret =>
    simp [signalsHandler, hpc] at ho

lemma ScanInv.effect (he : Effect t t') : ScanInv t' := by
  cases he with
  | next pc hnext | scan i pc hnext | clear i v pc hpc hnext => exact h.handler hatomic hlate hnext
  | deliver | exit => exact scanInv_of_fresh rfl
  | goto pc hfresh | user regs mem pc hpc hfresh | ret v pc hpc hfresh | sigret pc hpc hnum hfresh
  | sigprocmask mask v pc hpc hfresh | sigaction p v pc hpc hnum hp hfresh
  | exec image pc hpc hnum hsz hfresh | other v sz mem pc hpc hsz hfresh => exact scanInv_of_fresh hfresh

end

/-- `kill` marks the signals that it stores as late, and leaves the others as they are. -/
lemma ScanInv.raise (h : ScanInv t) (hv : t.proc.pendingSignals = v) : ScanInv (raise t signum v) := by
  cases hpc : t.pc with
  | scan | stopLoad | stopStore | contLoad | contStore | scanEnd | test =>
    simp only [ScanInv, hpc] at h
    simp only [ScanInv, Signal.raise, hpc]
    exact h.raise hv
  | ignoreLoad | ignoreStore | deliverLoad | deliverStore =>
    simp only [ScanInv, hpc] at h
    simp only [ScanInv, Signal.raise, hpc]
    exact ⟨h.1.raise hv, h.2⟩
  | _ => exact scanInv_of_fresh (by rw [Signal.raise, hpc]; rfl)

lemma LateHarmless.harmless (h : LateHarmless s l) (hpc : (s.slot l.slot).pc = .test i) :
    hasBit (s.slot l.slot).proc.pendingSignals i = true →
      hasBit (s.slot l.slot).hist.late i = true → Harmless (s.slot l.slot).proc i := by
  rw [LateHarmless, hpc] at h
  exact h

lemma scanInv_step (h : ∀ a, ScanInv (s.slot a)) (hatomic : AtomicUpdate s l)
    (hlate : LateHarmless s l) (hs : step s l = some s') : ∀ a, ScanInv (s'.slot a) := by
  refine (step_rule hs).forall_slot (I := fun _ => ScanInv) h ?_ ?_ ?_ ?_ ?_
  · intro t _ he
    refine (h l.slot).effect (fun i v hpc => ?_) (fun i hpc => hlate.harmless hpc) he
    exact AtStore.of_rmw hatomic (Pc.rmw_of_store hpc)
  · exact fun _ => scanInv_of_fresh rfl
  · intro signum q v hpc
    exact (h q).raise (AtStore.of_rmw hatomic (i := sigIndex signum) (by rw [hpc]; rfl))
  · exact fun t v _ _ _ => scanInv_of_fresh (fresh_trapret _)
  · exact fun child pc hfresh _ _ => scanInv_of_fresh hfresh

lemma ScanInv.deliverySound (h : ScanInv t) : DeliverySound t := by
  cases hpc : t.pc with
  | ignoreStore =>
    simp only [ScanInv, hpc] at h
    simp only [DeliverySound, hpc]
    exact h.2.1
  | deliverStore =>
    simp only [ScanInv, hpc] at h
    simp only [DeliverySound, hpc]
    refine ⟨h.2.1.1, ?_⟩
    split
    · rename_i ho
      simp only [signalsHandler, hpc, some.injEq, deliverBody] at ho
      split at ho
      · cases ho
      · rename_i hp
        obtain ⟨func, mask, mem, hfunc, _, rfl⟩ := deliver_eq hp
        simp only [Outcome.next.injEq] at ho
        exact ho ▸ userHandler_of_harmless h.2.1 h.2.2 hfunc
    · trivial
  | _ => simp only [DeliverySound, hpc]

/-- With atomic updates of `pending_signals`, and when every late signal is harmless, the delivery
    loop clears no `SIGKILL`, `SIGSTOP` or `SIGCONT` and enters user handlers only. -/
theorem deliverySound_of_lateHarmless
    (hrun : Reach step (fun s l => AtomicUpdate s l ∧ LateHarmless s l) (boot code) s) (a : Slot) :
    DeliverySound (s.slot a) := by
  refine (hrun.invariant (I := fun s => ∀ a, ScanInv (s.slot a)) ?_ ?_ a).deliverySound
  · exact forall_boot (scanInv_of_fresh rfl) (scanInv_of_fresh (fresh_trapret _))
  · intro s l s' h hok hs
    exact scanInv_step h hok.1 hok.2 hs

/-- A handler for signal 5 is installed, and the signal is sent and found by the delivery loop. -/
theorem deliverySound_with_handler :
    ∃ s, Reach step (fun s l => AtomicUpdate s l ∧ LateHarmless s l) (boot fun _ => 0) s ∧
      (∃ v, (s.slot initproc).pc = .deliverStore 5 v) ∧ DeliverySound (s.slot initproc) := by
  have hrun : ∃ s, Reach step (fun s l => AtomicUpdate s l ∧ LateHarmless s l)
      (boot fun _ => 0) s ∧ (s.slot initproc).pc = .deliverStore 5 32 :=
    Reach.exists_of_exec
      (toUser initproc ++ call initproc 16 SYS_sigaction [5, 64, 0] [(64, 128)] .none ++
        toUser initproc ++ call initproc 20 SYS_kill [2, 5] [(64, 128)] .none ++
        runs initproc 43)
      (by decide +kernel)
  obtain ⟨s, hreach, hpc⟩ := hrun
  exact ⟨s, hreach, ⟨32, hpc⟩, deliverySound_of_lateHarmless hreach initproc⟩

end Xv6.Signal
