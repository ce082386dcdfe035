import Xv6.Machine.Run
import Xv6.Sched.Table
import Xv6.Signal.Proc

/-!
# The kernel as far as signals go

Any number of processes take steps in any order. In user mode a process may do anything that the
hardware lets it do; a trap brings it into the kernel, where it runs a system call or takes an
interrupt and leaves through `trapret`, that is through `signalsHandler` and `iret`. The words that
two processes share are `pid` and `pending_signals`: every access to them is a step of its own, and
`|=` and `&=` on `pending_signals` are a load and a store.
-/

namespace Xv6.Signal

open Machine

/-! ### States -/

/-- Where a process is. -/
inductive Pc
  | unused
  | zombie
  | user
  /-- in `trap`, at the call of `syscall` -/
  | syscall
  /-- in `kill`: the test of `p->pid`, and the two halves of `p->pending_signals |= bit` -/
  | killTest (pid signum : Word) (q : Slot)
  | killLoad (signum : Word) (q : Slot)
  | killStore (signum : Word) (q : Slot) (v : Word)
  /-- in the scan of `signalsHandler`, at signal `i` -/
  | scan (i : Signum) (isStopped isCont : Bool)
  | stopLoad (i : Signum) (isCont : Bool)
  | stopStore (i : Signum) (isCont : Bool) (v : Word)
  | contLoad (i : Signum) (isStopped : Bool)
  | contStore (i : Signum) (isStopped : Bool) (v : Word)
  | scanEnd (isStopped isCont : Bool)
  /-- in the delivery loop, at signal `i` -/
  | test (i : Signum)
  | ignoreLoad (i : Signum)
  | ignoreStore (i : Signum) (v : Word)
  | deliverLoad (i : Signum)
  | deliverStore (i : Signum) (v : Word)
  | iret
  deriving DecidableEq

/-- The user context that a delivery interrupts. -/
structure Context where
  eip : Word
  esp : Word
  mask : Word
  deriving DecidableEq

/-- History of a slot: no step reads it. -/
structure Hist where
  /-- the bits that `kill` has stored and no clearing of that bit has taken since -/
  sent : Word
  /-- the bits that `kill` has stored since the scan last tested them -/
  late : Word
  /-- some delivery in this slot has saved a frame -/
  saved : Bool
  /-- the contexts interrupted by deliveries to which no `sigret` has answered yet -/
  contexts : List Context
  /-- the context that the last delivery interrupted -/
  last : Option Context
  deriving DecidableEq

def Hist.zero : Hist := ⟨0, 0, false, [], none⟩

structure Thread where
  proc : Proc
  pc : Pc
  hist : Hist

structure State where
  slot : Slot → Thread
  nextpid : Word
  panic : Option Panic

/-! ### Leaving the kernel -/

/-- `trapret` calls `signalsHandler`, which returns at once for a frame from kernel mode. -/
def trapret (t : Thread) : Thread :=
  { t with pc := if t.proc.tf.cs &&& 3 = 3 then .scan signum0 false false else .iret }

/-- `syscall` stores the result and returns. -/
def sysret (t : Thread) (v : Word) : Thread :=
  trapret { t with proc := { t.proc with tf := { t.proc.tf with eax := v } } }

/-! ### `signalsHandler` -/

/-- How a step of one process ends. -/
inductive Outcome
  | next (t : Thread)
  | exit (t : Thread)
  | panic (e : Panic)

def scanNext (i : Signum) (isStopped isCont : Bool) : Pc :=
  if h : i.val + 1 < 32 then .scan ⟨i.val + 1, h⟩ isStopped isCont else .scanEnd isStopped isCont

def testNext (i : Signum) : Pc := if h : i.val + 1 < 32 then .test ⟨i.val + 1, h⟩ else .iret

/-- The store of `pending_signals &= ~(1 << i)` when `v` was loaded. -/
def clear (t : Thread) (i : Signum) (v : Word) : Thread :=
  { t with
    proc := { t.proc with pendingSignals := clearBit v i }
    hist := { t.hist with sent := clearBit t.hist.sent i } }

/-- The end of the body of the scan: the tests for `SIGCONT`. -/
def scanCont (t : Thread) (i : Signum) (isStopped isCont : Bool) : Outcome :=
  match scanConts t.proc i with
  | .error e => .panic e
  | .ok true => .next { t with pc := .contLoad i isStopped }
  | .ok false => .next { t with pc := scanNext i isStopped isCont }

def scanBody (t : Thread) (i : Signum) (isStopped isCont : Bool) : Outcome :=
  if hasBit t.proc.pendingSignals i = true ∧
      (hasBit t.proc.signalMask i = false ∨ Special i) then
    match scanKills t.proc i with
    | .error e => .panic e
    | .ok true => .exit { t with proc := { t.proc with killed := true } }
    | .ok false =>
      match scanStops t.proc i with
      | .error e => .panic e
      | .ok true => .next { t with pc := .stopLoad i isCont }
      | .ok false => scanCont t i isStopped isCont
  else .next { t with pc := scanNext i isStopped isCont }

/-- The body of the delivery loop up to the store. -/
def testBody (t : Thread) (i : Signum) : Outcome :=
  match isIgnored t.proc i with
  | .error e => .panic e
  | .ok ignored =>
    if hasBit t.proc.pendingSignals i = true then
      .next { t with pc := if ignored then .ignoreLoad i else .deliverLoad i }
    else .next { t with pc := testNext i }

/-- The frame and the mask as they are when a delivery saves them. -/
def context (p : Proc) : Context := ⟨p.tf.eip, p.tf.esp, p.signalMask⟩

/-- The store of a delivery and what follows it up to the `return`. -/
def deliverBody (t : Thread) (i : Signum) (v : Word) : Outcome :=
  match deliver (clear t i v).proc i with
  | .error e => .panic e
  | .ok p => .next
    { proc := p
      pc := .iret
      hist := { (clear t i v).hist with
        saved := true
        contexts := context t.proc :: t.hist.contexts
        last := some (context t.proc) } }

/-- The next step of a process in `signalsHandler`. -/
def signalsHandler (t : Thread) : Option Outcome :=
  match t.pc with
  | .scan i isStopped isCont =>
    some (scanBody { t with hist := { t.hist with late := clearBit t.hist.late i } } i
      isStopped isCont)
  | .stopLoad i isCont => some (.next { t with pc := .stopStore i isCont t.proc.pendingSignals })
  | .stopStore i isCont v => some (scanCont (clear t i v) i true isCont)
  | .contLoad i isStopped =>
    some (.next { t with pc := .contStore i isStopped t.proc.pendingSignals })
  | .contStore i isStopped v =>
    some (.next { clear t i v with pc := scanNext i isStopped true })
  | .scanEnd isStopped isCont =>
    some (.next { t with pc := if isStopped && !isCont then .scan signum0 true false else .test signum0 })
  | .test i => some (testBody t i)
  | .ignoreLoad i => some (.next { t with pc := .ignoreStore i t.proc.pendingSignals })
  | .ignoreStore i v => some (.next { clear t i v with pc := testNext i })
  | .deliverLoad i => some (.next { t with pc := .deliverStore i t.proc.pendingSignals })
  | .deliverStore i v => some (deliverBody t i v)
  | _ => none

/-! ### User mode -/

/-- The flags that code at privilege level 3 can change: the interrupt flag only when the I/O
    privilege level lets it. -/
def userFlags (eflags : Word) : Word :=
  if eflags &&& FL_IOPL = FL_IOPL then 0x244dd5 ||| FL_IF else 0x244dd5

/-- User code runs until a trap, with any registers and memory but with the selectors and the
    protected flags that it was entered with. -/
def userRun (p : Proc) (regs : Trapframe) (mem : Word → Byte) : Proc :=
  { p with
    tf := { regs with
      cs := p.tf.cs
      ss := p.tf.ss
      eflags := (regs.eflags &&& userFlags p.tf.eflags) |||
        (p.tf.eflags &&& ~~~(userFlags p.tf.eflags)) }
    mem := fun a => if p.mapped a then mem a else p.mem a }

def T_SYSCALL : Word := 64

/-- The trap numbers of the interrupts that `trap` knows. -/
def irqs : List Word := [32, 33, 36, 39, 46, 47, 63]

/-- `trap` on a frame from user mode. A trap that is neither a system call nor an interrupt kills
    the process. -/
def trap (t : Thread) : Outcome :=
  if t.proc.tf.trapno = T_SYSCALL then
    if t.proc.killed then .exit t else .next { t with pc := .syscall }
  else if t.proc.tf.trapno ∈ irqs then
    if t.proc.killed then .exit t else .next (trapret t)
  else .exit { t with proc := { t.proc with killed := true } }

/-! ### System calls -/

def SYS_fork : Word := 1
def SYS_exit : Word := 2
def SYS_kill : Word := 6
def SYS_exec : Word := 7
def SYS_sbrk : Word := 12
def SYS_sigprocmask : Word := 22
def SYS_sigaction : Word := 23
def SYS_sigret : Word := 24

/-- What parts of the kernel outside this model decide: whether `fork` finds a slot and memory,
    what `exec` loads, and what the other system calls return and do to the user memory. -/
inductive Choice
  | none
  | fork (child : Option Slot)
  | exec (image : Option Image)
  | other (ret : Word) (sz : Word) (mem : Word → Byte)

/-- `sys_kill` up to the loop over the table. -/
def sysKill (t : Thread) : Thread :=
  match t.proc.argint 0, t.proc.argint 1 with
  | some pid, some signum =>
    if BitVec.slt 32 signum then sysret t (-1)
    else { t with pc := .killTest pid signum Sched.slot0 }
  | _, _ => sysret t (-1)

/-- The system calls that touch only the calling process. -/
def localCall (t : Thread) (c : Choice) : Option Outcome :=
  match c with
  | .none =>
    if t.proc.tf.eax = SYS_sigret then
      some (.next (sysret
        { t with
          proc := sigret t.proc
          hist := { t.hist with contexts := t.hist.contexts.tail } } 0))
    else if t.proc.tf.eax = SYS_sigprocmask then
      some (.next (sysret { t with proc := (sysSigprocmask t.proc).1 } (sysSigprocmask t.proc).2))
    else if t.proc.tf.eax = SYS_sigaction then
      match sysSigaction t.proc with
      | .error e => some (.panic e)
      | .ok (p, v) => some (.next (sysret { t with proc := p } v))
    else if t.proc.tf.eax = SYS_kill then some (.next (sysKill t))
    else if t.proc.tf.eax = SYS_exit then some (.exit t)
    else if t.proc.tf.eax = 0 ∨ t.proc.tf.eax > SYS_sigret then
      some (.next (sysret t (-1))) -- unknown sys call
    else none
  | .fork none => if t.proc.tf.eax = SYS_fork then some (.next (sysret t (-1))) else none
  | .fork (some _) => none
  | .exec none => if t.proc.tf.eax = SYS_exec then some (.next (sysret t (-1))) else none
  | .exec (some image) =>
    if t.proc.tf.eax = SYS_exec ∧ image.sz.toNat ≤ KERNBASE then
      some (.next (sysret { t with proc := exec t.proc image } 0))
    else none
  | .other ret sz mem =>
    if t.proc.tf.eax ∉ [0, SYS_fork, SYS_exit, SYS_kill, SYS_exec, SYS_sigprocmask,
        SYS_sigaction, SYS_sigret] ∧ t.proc.tf.eax < SYS_sigret ∧ sz.toNat ≤ KERNBASE ∧
        (t.proc.tf.eax = SYS_sbrk ∨ sz = t.proc.sz) then
      some (.next (sysret { t with proc := { t.proc with
        sz := sz
        mem := fun a => if a.toNat < PGROUNDUP sz.toNat then mem a else t.proc.mem a } } ret))
    else none

/-! ### The machine -/

inductive Label
  /-- the next step of a process in the kernel -/
  | run (p : Slot)
  /-- the process runs in user mode until a trap -/
  | user (p : Slot) (regs : Trapframe) (mem : Word → Byte)
  | syscall (p : Slot) (c : Choice)
  /-- some parent's `wait` frees the slot of a zombie -/
  | reap (p : Slot)

def setSlot (s : State) (p : Slot) (t : Thread) : State :=
  { s with slot := Function.update s.slot p t }

/-- `exit`, up to what `wait` does. -/
def exit (s : State) (p : Slot) (t : Thread) : State :=
  if p = initproc then { s with panic := some .initExiting }
  else setSlot s p { t with pc := .zombie, hist := { t.hist with sent := 0 } }

def finish (s : State) (p : Slot) : Outcome → State
  | .next t => setSlot s p t
  | .exit t => exit s p t
  | .panic e => { s with panic := some e }

/-- The store of `p->pending_signals |= bit` when `v` was loaded. -/
def raise (t : Thread) (signum v : Word) : Thread :=
  { t with
    proc := { t.proc with pendingSignals := setBit v (sigIndex signum) }
    hist := { t.hist with
      sent := setBit t.hist.sent (sigIndex signum)
      late := setBit t.hist.late (sigIndex signum) } }

def killStep (s : State) (p : Slot) : Option State :=
  match (s.slot p).pc with
  | .killTest pid signum q =>
    if (s.slot q).proc.pid = pid then
      some (setSlot s p { s.slot p with pc := .killLoad signum q })
    else if h : q.val + 1 < NPROC then
      some (setSlot s p { s.slot p with pc := .killTest pid signum ⟨q.val + 1, h⟩ })
    else some (setSlot s p (sysret (s.slot p) (-1)))
  | .killLoad signum q =>
    some (setSlot s p
      { s.slot p with pc := .killStore signum q (s.slot q).proc.pendingSignals })
  | .killStore signum q v =>
    let s' := setSlot s q (raise (s.slot q) signum v)
    some (setSlot s' p (sysret (s'.slot p) 0))
  | _ => none

/-- `iret`: with the user selectors the process is in user mode. -/
def iretStep (s : State) (p : Slot) : State :=
  if (s.slot p).proc.tf.cs = USER_CS ∧ (s.slot p).proc.tf.ss = USER_DS then
    setSlot s p { s.slot p with pc := .user }
  else { s with panic := some .badIret }

def runStep (s : State) (p : Slot) : Option State :=
  match (s.slot p).pc with
  | .killTest .. | .killLoad .. | .killStore .. => killStep s p
  | .iret => some (iretStep s p)
  | _ => (signalsHandler (s.slot p)).map (finish s p)

/-- A successful `fork` into the free slot `child`. -/
def forkStep (s : State) (p child : Slot) : Option State :=
  if (s.slot p).proc.tf.eax = SYS_fork ∧ (s.slot child).pc = .unused then
    let np : Thread :=
      { proc := forkChild (s.slot p).proc (s.slot child).proc (s.nextpid + 1)
        pc := .unused
        hist := { Hist.zero with saved := (s.slot child).hist.saved } }
    some (setSlot { setSlot s child (trapret np) with nextpid := s.nextpid + 1 } p
      (sysret (s.slot p) (s.nextpid + 1)))
  else none

def syscallStep (s : State) (p : Slot) (c : Choice) : Option State :=
  if (s.slot p).pc = .syscall then
    match c with
    | .fork (some child) => forkStep s p child
    | c => (localCall (s.slot p) c).map (finish s p)
  else none

def liveStep (s : State) : Label → Option State
  | .run p => runStep s p
  | .user p regs mem =>
    if (s.slot p).pc = .user then
      some (finish s p (trap { s.slot p with proc := userRun (s.slot p).proc regs mem }))
    else none
  | .syscall p c => syscallStep s p c
  | .reap p =>
    if (s.slot p).pc = .zombie then
      some (setSlot s p
        { s.slot p with
          pc := .unused
          proc := { (s.slot p).proc with pid := 0, killed := false } })
    else none

/-- After a panic nothing happens. -/
def step (s : State) (l : Label) : Option State :=
  if s.panic = none then liveStep s l else none

/-- The kernel after `userinit`, with the first process about to enter user mode for the first
    time. -/
def boot (code : Word → Byte) : State where
  slot := Function.update (fun _ => ⟨.zero, .unused, .zero⟩) initproc
    (trapret ⟨userinit code 2, .unused, .zero⟩)
  nextpid := 2
  panic := none

end Xv6.Signal
