import Xv6.Signal.Kernel
import Xv6.Signal.Spec

/-!
# What a step can do

Every step of the kernel changes one slot in one of a few ways, or stores a signal into a second
slot, or fills a second slot by `fork`, or panics. The invariants of the later files are proved
against this list and not against the step function.
-/

namespace Xv6.Signal

open Machine Option

variable {s s' : State} {t t' : Thread} {p q : Proc} {l : Label} {i : Signum} {v : Word} {a : Slot}
  {o : Outcome} {I : Slot → Thread → Prop}

/-- The process that takes a step. -/
def Label.slot : Label → Slot
  | .run p | .user p _ _ | .syscall p _ | .reap p => p

/-- The signal and the loaded word of a process that is about to store to `pending_signals` in
    `signalsHandler`. -/
def Pc.store : Pc → Option (Signum × Word)
  | .stopStore i _ v | .contStore i _ v | .ignoreStore i v | .deliverStore i v => some (i, v)
  | _ => none

/-- Inside a system call. -/
def Pc.inCall : Pc → Bool
  | .syscall | .killTest .. | .killLoad .. | .killStore .. => true
  | _ => false

/-- Not inside `signalsHandler`, or right at its start. -/
def Pc.fresh : Pc → Bool
  | .scan i isStopped isCont => i == signum0 && !isStopped && !isCont
  | .stopLoad .. | .stopStore .. | .contLoad .. | .contStore .. | .scanEnd .. | .test ..
  | .ignoreLoad .. | .ignoreStore .. | .deliverLoad .. | .deliverStore .. => false
  | _ => true

/-- The slot holds a process that has not exited. -/
def Live (t : Thread) : Prop := t.pc ≠ .unused ∧ t.pc ≠ .zombie

/-- What the steps of a process do to its own slot. -/
inductive Effect (t : Thread) : Thread → Prop
  | goto (pc : Pc) (hfresh : pc.fresh = true) : Effect t { t with pc := pc }
  /-- a branch in `signalsHandler`, or a load -/
  | next (pc : Pc) (h : signalsHandler t = some (.next { t with pc := pc })) :
      Effect t { t with pc := pc }
  /-- the test of a bit in the scan -/
  | scan (i : Signum) (pc : Pc)
      (h : signalsHandler t = some (.next
        { t with pc := pc, hist := { t.hist with late := clearBit t.hist.late i } })) :
      Effect t { t with pc := pc, hist := { t.hist with late := clearBit t.hist.late i } }
  | clear (i : Signum) (v : Word) (pc : Pc) (hpc : t.pc.store = some (i, v))
      (h : signalsHandler t = some (.next { clear t i v with pc := pc })) :
      Effect t { Signal.clear t i v with pc := pc }
  | deliver (i : Signum) (v : Word) (p : Proc) (hpc : t.pc = .deliverStore i v)
      (hp : deliver (Signal.clear t i v).proc i = .ok p) :
      Effect t
        { proc := p
          pc := .iret
          hist := { (Signal.clear t i v).hist with
            saved := true
            contexts := context t.proc :: t.hist.contexts
            last := some (context t.proc) } }
  | user (regs : Trapframe) (mem : Word → Byte) (pc : Pc) (hpc : t.pc = .user)
      (hfresh : pc.fresh = true) :
      Effect t { t with proc := userRun t.proc regs mem, pc := pc }
  /-- a system call that only returns -/
  | ret (v : Word) (pc : Pc) (hpc : t.pc.inCall = true) (hfresh : pc.fresh = true) :
      Effect t { t with proc := { t.proc with tf := { t.proc.tf with eax := v } }, pc := pc }
  | sigret (pc : Pc) (hpc : t.pc = .syscall) (hnum : t.proc.tf.eax = SYS_sigret)
      (hfresh : pc.fresh = true) :
      Effect t
        { proc := { Signal.sigret t.proc with tf := { t.proc.backup with eax := 0 } }
          pc := pc
          hist := { t.hist with contexts := t.hist.contexts.tail } }
  | sigprocmask (mask v : Word) (pc : Pc) (hpc : t.pc = .syscall) (hfresh : pc.fresh = true) :
      Effect t
        { t with
          proc := { t.proc with signalMask := mask, tf := { t.proc.tf with eax := v } }
          pc := pc }
  | sigaction (p : Proc) (v : Word) (pc : Pc) (hpc : t.pc = .syscall)
      (hnum : t.proc.tf.eax = SYS_sigaction) (hp : sysSigaction t.proc = .ok (p, v))
      (hfresh : pc.fresh = true) :
      Effect t { t with proc := { p with tf := { p.tf with eax := v } }, pc := pc }
  | exec (image : Image) (pc : Pc) (hpc : t.pc = .syscall) (hnum : t.proc.tf.eax = SYS_exec)
      (hsz : image.sz.toNat ≤ KERNBASE) (hfresh : pc.fresh = true) :
      Effect t
        { t with
          proc := { Signal.exec t.proc image with
            tf := { (Signal.exec t.proc image).tf with eax := 0 } }
          pc := pc }
  | other (v sz : Word) (mem : Word → Byte) (pc : Pc) (hpc : t.pc = .syscall)
      (hsz : sz.toNat ≤ KERNBASE) (hfresh : pc.fresh = true) :
      Effect t
        { t with
          proc := { t.proc with sz := sz, mem := mem, tf := { t.proc.tf with eax := v } }
          pc := pc }
  | exit (p : Proc) (late : Word) (hbackup : p.backup = t.proc.backup)
      (hmask : p.signalMaskBackup = t.proc.signalMaskBackup) :
      Effect t { proc := p, pc := .zombie, hist := { t.hist with sent := 0, late := late } }

/-- What `wait` leaves of a zombie. -/
def reaped (t : Thread) : Thread :=
  { t with pc := .unused, proc := { t.proc with pid := 0, killed := false } }

/-- What can make a process stop the kernel. -/
inductive PanicCause (t : Thread) : Panic → Prop
  | trap : PanicCause t .trap
  | initExiting : PanicCause t .initExiting
  | badIret (hpc : t.pc = .iret)
      (h : ¬ (t.proc.tf.cs = USER_CS ∧ t.proc.tf.ss = USER_DS)) : PanicCause t .badIret
  | sigaction (e : Panic) (hpc : t.pc = .syscall) (hnum : t.proc.tf.eax = SYS_sigaction)
      (h : sysSigaction t.proc = .error e) : PanicCause t e
  | deliver (i : Signum) (v : Word) (e : Panic) (hpc : t.pc = .deliverStore i v)
      (h : deliver (clear t i v).proc i = .error e) : PanicCause t e

/-- What a step does to the state. -/
inductive Rule (s : State) (a : Slot) : State → Prop
  | panic (e : Panic) (h : PanicCause (s.slot a) e) : Rule s a { s with panic := some e }
  | slot (t : Thread) (hlive : Live (s.slot a)) (h : Effect (s.slot a) t) :
      Rule s a (setSlot s a t)
  | reap (hpc : (s.slot a).pc = .zombie) : Rule s a (setSlot s a (reaped (s.slot a)))
  | kill (signum : Word) (q : Slot) (v : Word) (hpc : (s.slot a).pc = .killStore signum q v) :
      Rule s a (setSlot (setSlot s q (raise (s.slot q) signum v)) a
        (sysret ((setSlot s q (raise (s.slot q) signum v)).slot a) 0))
  | fork (child : Slot) (pc : Pc) (hpc : (s.slot a).pc = .syscall)
      (hchild : (s.slot child).pc = .unused) (hfresh : pc.fresh = true) :
      Rule s a (setSlot { setSlot s child
          { proc := forkChild (s.slot a).proc (s.slot child).proc (s.nextpid + 1)
            pc := pc
            hist := { Hist.zero with saved := (s.slot child).hist.saved } } with
          nextpid := s.nextpid + 1 } a
        (sysret (s.slot a) (s.nextpid + 1)))

/-! ### The steps of one process -/

/-- The outcomes that a step from `t` can have. -/
def Outcome.Of (t : Thread) : Outcome → Prop
  | .next t' => Effect t t'
  | .exit t' => t'.proc.backup = t.proc.backup ∧
      t'.proc.signalMaskBackup = t.proc.signalMaskBackup ∧
      ∃ late, t'.hist = { t.hist with late := late }
  | .panic e => PanicCause t e

lemma scanCont_cases (t : Thread) (i : Signum) (isStopped isCont : Bool) :
    scanCont t i isStopped isCont = .panic .trap ∨
      ∃ pc, (pc = .contLoad i isStopped ∨ pc = scanNext i isStopped isCont) ∧
        scanCont t i isStopped isCont = .next { t with pc := pc } := by
  rw [scanCont]
  cases hc : scanConts t.proc i with
  | error => exact .inl (by rw [scanActs_error hc])
  | ok b =>
    cases b with
    | true => exact .inr ⟨_, .inl rfl, rfl⟩
    | false => exact .inr ⟨_, .inr rfl, rfl⟩

/-- Where the scan goes on after the tests of signal `i`. -/
inductive Scanned (i : Signum) (isStopped isCont : Bool) : Pc → Prop
  | stop : Scanned i isStopped isCont (.stopLoad i isCont)
  | cont : Scanned i isStopped isCont (.contLoad i isStopped)
  | next : Scanned i isStopped isCont (scanNext i isStopped isCont)

lemma scanBody_cases (t : Thread) (i : Signum) (isStopped isCont : Bool) :
    scanBody t i isStopped isCont = .panic .trap ∨
      scanBody t i isStopped isCont = .exit { t with proc := { t.proc with killed := true } } ∨
      ∃ pc, Scanned i isStopped isCont pc ∧ scanBody t i isStopped isCont = .next { t with pc := pc } := by
  rw [scanBody]
  split_ifs
  · cases hk : scanKills t.proc i with
    | error => exact .inl (by rw [scanKills_error hk])
    | ok kills =>
      cases kills with
      | true => exact .inr (.inl rfl)
      | false =>
        cases hst : scanStops t.proc i with
        | error => exact .inl (by rw [scanActs_error hst])
        | ok stops =>
          cases stops with
          | true => exact .inr (.inr ⟨_, .stop, rfl⟩)
          | false =>
            rcases scanCont_cases t i isStopped isCont with he | ⟨pc, rfl | rfl, he⟩
            · exact .inl he
            · exact .inr (.inr ⟨_, .cont, he⟩)
            · exact .inr (.inr ⟨_, .next, he⟩)
  · exact .inr (.inr ⟨_, .next, rfl⟩)

lemma testBody_eq (t : Thread) (i : Signum) :
    testBody t i = .panic .trap ∨ ∃ pc, testBody t i = .next { t with pc := pc } := by
  rw [testBody]
  cases hig : isIgnored t.proc i with
  | error => exact .inl (by rw [isIgnored_error hig])
  | ok =>
    simp only
    split_ifs <;> exact .inr ⟨_, rfl⟩

lemma deliverBody_of (hpc : t.pc = .deliverStore i v) : (deliverBody t i v).Of t := by
  rw [deliverBody]
  cases hp : deliver (clear t i v).proc i with
  | error e => exact .deliver i v e hpc hp
  | ok p => exact .deliver i v p hpc hp

lemma signalsHandler_of (ho : signalsHandler t = some o) : o.Of t := by
  have hdef := ho
  cases hpc : t.pc with
  | scan i isStopped isCont =>
    simp only [signalsHandler, hpc, some.injEq] at hdef
    rcases scanBody_cases { t with hist := { t.hist with late := clearBit t.hist.late i } } i
      isStopped isCont with he | he | ⟨pc, -, he⟩ <;> rw [hpc, hdef] at he
    · rw [he]
      exact .trap
    · rw [he]
      exact ⟨rfl, rfl, _, rfl⟩
    · subst he
      exact .scan i pc ho
  | stopStore i isCont v =>
    simp only [signalsHandler, hpc, some.injEq] at hdef
    rcases scanCont_cases (clear t i v) i true isCont with he | ⟨pc, -, he⟩
    · rw [← hdef, he]
      exact .trap
    · rw [hdef] at he
      subst he
      exact .clear i v pc (by rw [hpc]; rfl) ho
  | contStore i isStopped v | ignoreStore i v =>
    simp only [signalsHandler, hpc] at hdef
    cases hdef
    exact .clear i v _ (by rw [hpc]; rfl) ho
  | test i =>
    simp only [signalsHandler, hpc, some.injEq] at hdef
    rcases testBody_eq t i with he | ⟨pc, he⟩
    · rw [← hdef, he]
      exact .trap
    · rw [hdef] at he
      subst he
      exact .next pc ho
  | deliverStore =>
    simp only [signalsHandler, hpc] at hdef
    cases hdef
    exact deliverBody_of hpc
  | stopLoad | contLoad | scanEnd | ignoreLoad | deliverLoad =>
    simp only [signalsHandler, hpc] at hdef
    cases hdef
    exact .next _ ho
  | unused | zombie | user | syscall | killTest | killLoad | killStore | iret =>
    simp [signalsHandler, hpc] at ho

lemma fresh_trapret (t : Thread) : (trapret t).pc.fresh = true := by
  rw [trapret]
  split_ifs
  · rfl
  · rfl

lemma live_of_signalsHandler (ho : signalsHandler t = some o) : Live t := by
  constructor
  all_goals
    intro hpc
    simp [signalsHandler, hpc] at ho

lemma trap_of (hpc : t.pc = .user) (regs : Trapframe) (mem : Word → Byte) :
    (trap { t with proc := userRun t.proc regs mem }).Of t := by
  rw [trap]
  split_ifs
  · exact ⟨rfl, rfl, _, rfl⟩
  · exact .user regs mem _ hpc rfl
  · exact ⟨rfl, rfl, _, rfl⟩
  · exact .user regs mem _ hpc (fresh_trapret _)
  · exact ⟨rfl, rfl, _, rfl⟩

lemma sysKill_of (hpc : t.pc = .syscall) : Effect t (sysKill t) := by
  have hin : t.pc.inCall = true := by rw [hpc]; rfl
  rw [sysKill]
  split
  · split_ifs
    · exact .ret (-1) _ hin (fresh_trapret _)
    · exact .goto _ rfl
  · exact .ret (-1) _ hin (fresh_trapret _)

lemma sysSigprocmask_of (hpc : t.pc = .syscall) :
    Effect t (sysret { t with proc := (sysSigprocmask t.proc).1 } (sysSigprocmask t.proc).2) := by
  rw [sysSigprocmask]
  split
  · exact .ret (-1) _ (by rw [hpc]; rfl) (fresh_trapret _)
  · exact .sigprocmask _ _ _ hpc (fresh_trapret _)

lemma localCall_of {c : Choice} (hpc : t.pc = .syscall) (ho : localCall t c = some o) : o.Of t := by
  have hin : t.pc.inCall = true := by rw [hpc]; rfl
  cases c with
  | none =>
    simp only [localCall] at ho
    split_ifs at ho with h1 h2 h3 h4 h5 h6
    · cases ho
      exact .sigret _ hpc h1 (fresh_trapret _)
    · cases ho
      exact sysSigprocmask_of hpc
    · cases hp : sysSigaction t.proc with
      | error e =>
        simp only [hp] at ho
        cases ho
        exact .sigaction e hpc h3 hp
      | ok r =>
        obtain ⟨p, v⟩ := r
        simp only [hp] at ho
        cases ho
        exact .sigaction p v _ hpc h3 hp (fresh_trapret _)
    · cases ho
      exact sysKill_of hpc
    · cases ho
      exact ⟨rfl, rfl, _, rfl⟩
    · cases ho
      exact .ret (-1) _ hin (fresh_trapret _)
  | fork child =>
    cases child with
    | none =>
      simp only [localCall] at ho
      split_ifs at ho
      cases ho
      exact .ret (-1) _ hin (fresh_trapret _)
    | some => simp [localCall] at ho
  | exec image =>
    cases image with
    | none =>
      simp only [localCall] at ho
      split_ifs at ho
      cases ho
      exact .ret (-1) _ hin (fresh_trapret _)
    | some image =>
      simp only [localCall] at ho
      split_ifs at ho with hcond
      cases ho
      exact .exec image _ hpc hcond.1 hcond.2 (fresh_trapret _)
  | other ret sz =>
    simp only [localCall] at ho
    split_ifs at ho with hcond
    cases ho
    exact .other ret sz _ _ hpc hcond.2.2.1 (fresh_trapret _)

/-! ### The steps of the kernel -/

lemma finish_rule (hlive : Live (s.slot a)) (ho : o.Of (s.slot a)) : Rule s a (finish s a o) := by
  cases o with
  | next t => exact .slot t hlive ho
  | panic e => exact .panic e ho
  | exit t =>
    obtain ⟨hbackup, hmask, late, hhist⟩ := ho
    rw [finish, exit]
    split_ifs
    · exact .panic _ .initExiting
    · rw [hhist]
      exact .slot _ hlive (.exit t.proc late hbackup hmask)

lemma killStep_rule (hs : killStep s a = some s') : Rule s a s' := by
  cases hpc : (s.slot a).pc with
  | killTest =>
    have hlive : Live (s.slot a) := by simp [Live, hpc]
    simp only [killStep, hpc] at hs
    split_ifs at hs
    · exact some.inj hs ▸ .slot _ hlive (.goto _ rfl)
    · exact some.inj hs ▸ .slot _ hlive (.goto _ rfl)
    · exact some.inj hs ▸ .slot _ hlive (.ret (-1) _ (by rw [hpc]; rfl) (fresh_trapret _))
  | killLoad =>
    have hlive : Live (s.slot a) := by simp [Live, hpc]
    simp only [killStep, hpc] at hs
    exact some.inj hs ▸ .slot _ hlive (.goto _ rfl)
  | killStore signum q v =>
    simp only [killStep, hpc] at hs
    cases hs
    exact .kill signum q v hpc
  | _ => simp [killStep, hpc] at hs

lemma iretStep_rule (hpc : (s.slot a).pc = .iret) : Rule s a (iretStep s a) := by
  rw [iretStep]
  split_ifs with h
  · exact .slot _ (by simp [Live, hpc]) (.goto _ rfl)
  · exact .panic _ (.badIret hpc h)

lemma runStep_rule (hs : runStep s a = some s') : Rule s a s' := by
  have hhandler : (signalsHandler (s.slot a)).map (finish s a) = some s' → Rule s a s' := by
    intro h
    obtain ⟨o, ho, rfl⟩ := map_eq_some_iff.mp h
    exact finish_rule (live_of_signalsHandler ho) (signalsHandler_of ho)
  cases hpc : (s.slot a).pc with
  | killTest | killLoad | killStore =>
    simp only [runStep, hpc] at hs
    exact killStep_rule hs
  | iret =>
    simp only [runStep, hpc, some.injEq] at hs
    exact hs ▸ iretStep_rule hpc
  | _ =>
    simp only [runStep, hpc] at hs
    exact hhandler hs

lemma forkStep_rule {a child : Slot} (hpc : (s.slot a).pc = .syscall)
    (hs : forkStep s a child = some s') : Rule s a s' := by
  rw [forkStep] at hs
  split_ifs at hs with hcond
  exact some.inj hs ▸ .fork child _ hpc hcond.2 (fresh_trapret _)

lemma syscallStep_rule {c : Choice} (hs : syscallStep s a c = some s') : Rule s a s' := by
  have hlocal : ∀ c, (s.slot a).pc = .syscall →
      (localCall (s.slot a) c).map (finish s a) = some s' → Rule s a s' := by
    intro c hpc h
    obtain ⟨o, ho, rfl⟩ := map_eq_some_iff.mp h
    exact finish_rule (by simp [Live, hpc]) (localCall_of hpc ho)
  cases c with
  | fork child =>
    cases child with
    | some =>
      simp only [syscallStep] at hs
      split_ifs at hs with hpc
      exact forkStep_rule hpc hs
    | none =>
      simp only [syscallStep] at hs
      split_ifs at hs with hpc
      exact hlocal _ hpc hs
  | none | exec | other =>
    simp only [syscallStep] at hs
    split_ifs at hs with hpc
    exact hlocal _ hpc hs

/-- Every step is one of the rules. -/
lemma step_rule (hs : step s l = some s') : Rule s l.slot s' := by
  rw [step] at hs
  split_ifs at hs
  cases l with
  | run => exact runStep_rule hs
  | user a regs mem =>
    simp only [liveStep] at hs
    split_ifs at hs with hpc
    have hlive : Live (s.slot a) := by simp [Live, hpc]
    exact some.inj hs ▸ finish_rule hlive (trap_of hpc regs mem)
  | syscall => exact syscallStep_rule hs
  | reap =>
    simp only [liveStep] at hs
    split_ifs at hs with hpc
    exact some.inj hs ▸ .reap hpc

/-! ### Invariants of all slots -/

@[simp] lemma setSlot_self (s : State) (a : Slot) (t : Thread) : (setSlot s a t).slot a = t := by
  simp [setSlot]

lemma setSlot_of_ne (s : State) {a b : Slot} (t : Thread) (h : b ≠ a) :
    (setSlot s a t).slot b = s.slot b := by
  simp [setSlot, Function.update_of_ne h]

lemma forall_setSlot (h : ∀ b, I b (s.slot b)) (ht : I a t) : ∀ b, I b ((setSlot s a t).slot b) := by
  intro b
  by_cases hb : b = a
  · subst hb
    rw [setSlot_self]
    exact ht
  · rw [setSlot_of_ne s t hb]
    exact h b

lemma forall_boot {I : Thread → Prop} {code : Word → Byte} (hzero : I ⟨.zero, .unused, .zero⟩)
    (hinit : I (trapret ⟨userinit code 2, .unused, .zero⟩)) : ∀ b, I ((boot code).slot b) :=
  forall_setSlot (I := fun _ => I) (s := ⟨fun _ => ⟨.zero, .unused, .zero⟩, 2, none⟩) (fun _ => hzero) hinit

/-- The store of a signal leaves every process where it is. -/
lemma pc_raise (s : State) (a q : Slot) (signum v : Word) :
    ((setSlot s q (raise (s.slot q) signum v)).slot a).pc = (s.slot a).pc := by
  by_cases ha : a = q
  · subst ha
    rw [setSlot_self]
    rfl
  · rw [setSlot_of_ne _ _ ha]

/-- What holds of every slot still does after a step when the effects of the step on a slot, the
    store of a signal, the return from a system call, `fork` and `wait` keep it. -/
lemma Rule.forall_slot (hr : Rule s a s')
    (h : ∀ b, I b (s.slot b))
    (heffect : ∀ t, Live (s.slot a) → Effect (s.slot a) t → I a t)
    (hreap : (s.slot a).pc = .zombie → I a (reaped (s.slot a)))
    (hraise : ∀ signum q v, (s.slot a).pc = .killStore signum q v → I q (raise (s.slot q) signum v))
    (hret : ∀ t v, (s.slot a).pc.inCall = true → Live t → I a t → I a (sysret t v))
    (hfork : ∀ child pc, pc.fresh = true → Live (s.slot a) → (s.slot child).pc = .unused →
      I child
      { proc := forkChild (s.slot a).proc (s.slot child).proc (s.nextpid + 1)
        pc := pc
        hist := { Hist.zero with saved := (s.slot child).hist.saved } }) :
    ∀ b, I b (s'.slot b) := by
  cases hr with
  | panic => exact h
  | slot t hlive ht => exact forall_setSlot h (heffect t hlive ht)
  | reap hpc => exact forall_setSlot h (hreap hpc)
  | kill signum q v hpc =>
    have hq := forall_setSlot h (hraise signum q v hpc) (a := q)
    refine forall_setSlot hq (hret _ 0 (by rw [hpc]; rfl) ?_ (hq a))
    rw [Live, pc_raise, hpc]
    simp
  | fork child pc hpc hchild hfresh =>
    have hlive : Live (s.slot a) := by simp [Live, hpc]
    have hc := forall_setSlot h (hfork child pc hfresh hlive hchild) (a := child)
    exact forall_setSlot (s := { setSlot s child _ with nextpid := _ }) hc
      (hret _ _ (by rw [hpc]; rfl) hlive (h a))

end Xv6.Signal
