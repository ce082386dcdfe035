import Xv6.Driver.Console
import Xv6.File.Pipe
import Xv6.Sched.Kill
import Xv6.Signal.Proc

/-!
# System calls that wait

The loops of `sys_sleep`, `pipewrite`, `piperead` and `consoleread` in processes that the scheduler runs,
with `kill` in other processes. A process calls `sleep`, `wakeup`, `acquire` and `release` of the scheduler's
files; between two such calls the code of these functions works on data that a lock protects, and that is
one step. `wait` is one of the functions of the scheduler's files.

What the other code does is left open: it may call `sleep` and `wakeup` on any channel, and with the lock of
the clock, the console or a pipe it may change what the lock protects, as `trap`, `consoleintr` and
`pipeclose` do.
-/

namespace Xv6.Blocking

open Machine

open Sched (CpuId Lock Chan nextSlot slot0)

open Kill (codeOn sigBit)

open Signal (SIGKILL)

abbrev PipeId := Nat

/-! ### Channels and locks -/

/-- `&ticks` -/
def ticksChan : Chan := .addr 0

/-- `&input.r` -/
def inputChan : Chan := .addr 1

/-- `&p->nread` -/
def nreadChan (a : PipeId) : Chan := .addr (2 * a + 2)

/-- `&p->nwrite` -/
def nwriteChan (a : PipeId) : Chan := .addr (2 * a + 3)

def tickslock : Lock := 0

/-- `cons.lock` -/
def consLock : Lock := 1

/-- `p->lock` of a pipe -/
def pipeLock (a : PipeId) : Lock := a + 2

/-! ### The machine -/

/-- Where a process is in one of the functions here. -/
inductive Frame
  /-- `kill`: the test of `p->pid`, and the load and the store of `p->pending_signals |= bit` -/
  | killTest (pid signum : Word) (q : Slot)
  | killLoad (signum : Word) (q : Slot)
  | killStore (signum : Word) (q : Slot) (old : Word)
  /-- `sys_sleep` with the lock, and at the top of its loop -/
  | sysSleep (n : Word)
  | sleepLoop (n ticks0 : Word)
  /-- `pipewrite` with the lock, and before its call of `sleep` -/
  | pipewrite (a : PipeId) (addr : Nat → Byte) (n : Int) (i : Nat)
  | writeSleep (a : PipeId) (addr : Nat → Byte) (n : Int) (i : Nat)
  /-- `piperead` with the lock -/
  | piperead (a : PipeId) (n : Int)
  /-- `consoleread` with the lock -/
  | consoleread (dst : List Byte) (n target : Nat)
  /-- before the call of `release`, and before the return -/
  | release (lk : Lock) (ret : Int)
  | ret (v : Int)

structure State where
  sched : Sched.State
  /-- `pending_signals` -/
  pending : Slot → Word
  frame : Slot → Option Frame
  /-- what the last of these calls has returned -/
  ret : Slot → Int
  ticks : Word
  pipe : PipeId → Pipes.Pipe
  input : Console.Input

def goto (y : State) (p : Slot) (f : Frame) : State :=
  { y with frame := Function.update y.frame p (some f) }

def finish (y : State) (p : Slot) (v : Int) : State :=
  { y with frame := Function.update y.frame p none, ret := Function.update y.ret p v }

/-- The process calls a function of the scheduler's files and goes on at `f`. -/
def callOut (y : State) (c : CpuId) (p : Slot) (o : Sched.Op) (f : Frame) : Option State :=
  (Sched.step y.sched (.op c o)).map fun s => { goto y p f with sched := s }

def setPipe (y : State) (a : PipeId) (x : Pipes.Pipe) : State :=
  { y with pipe := Function.update y.pipe a x }

def killed (y : State) (p : Slot) : Bool := (y.sched.slot p).killed

/-! ### The functions -/

/-- The loop of `sys_sleep`, up to the next call. -/
def sleepLoop (y : State) (c : CpuId) (p : Slot) (n ticks0 : Word) : Option State :=
  if y.ticks - ticks0 < n then
    if killed y p then callOut y c p (.release tickslock) (.ret (-1))
    else if hasBit (y.pending p) SIGKILL then callOut y c p (.release tickslock) (.ret 0)
    else callOut y c p (.sleep ticksChan tickslock) (.sleepLoop n ticks0)
  else callOut y c p (.release tickslock) (.ret 0)

/-- The loop of `pipewrite`, up to the next call. -/
def pipewrite (y : State) (c : CpuId) (p : Slot) (a : PipeId) (addr : Nat → Byte) (n : Int) (i : Nat) :
    Option State :=
  let r := Pipes.writeLoop (killed y p) addr (n.toNat - i) i (y.pipe a)
  let y := setPipe y a r.2.1
  match r.2.2 with
  | .done => callOut y c p (.wakeup (nreadChan a)) (.release (pipeLock a) n)
  | .broken => callOut y c p (.release (pipeLock a)) (.ret (-1))
  | .sleep => callOut y c p (.wakeup (nreadChan a)) (.writeSleep a addr n r.1)

/-- The loops of `piperead`, up to the next call. -/
def piperead (y : State) (c : CpuId) (p : Slot) (a : PipeId) (n : Int) : Option State :=
  if Pipes.readWaits (y.pipe a) then
    if killed y p then callOut y c p (.release (pipeLock a)) (.ret (-1))
    else callOut y c p (.sleep (nreadChan a) (pipeLock a)) (.piperead a n)
  else
    let r := Pipes.readLoop n.toNat (y.pipe a)
    callOut (setPipe y a r.2) c p (.wakeup (nwriteChan a)) (.release (pipeLock a) r.1.length)

/-- The loops of `consoleread`, up to the next call. -/
def consoleread (y : State) (c : CpuId) (p : Slot) (dst : List Byte) (n target : Nat) :
    Option State :=
  let o := Console.readLoop (killed y p) target n dst y.input
  let y := { y with input := o.input }
  match o.fin with
  | .done => callOut y c p (.release consLock) (.ret (target - o.n))
  | .killed => callOut y c p (.release consLock) (.ret (-1))
  | .sleep => callOut y c p (.sleep inputChan consLock) (.consoleread o.dst o.n target)

/-- The process goes on in its function. -/
def frameStep (y : State) (c : CpuId) (p : Slot) : Frame → Option State
  | .killTest pid signum q =>
    if (y.sched.slot q).pid = pid then some (goto y p (.killLoad signum q))
    else
      match nextSlot q with
      | some q => some (goto y p (.killTest pid signum q))
      | none => some (finish y p (-1))
  | .killLoad signum q => some (goto y p (.killStore signum q (y.pending q)))
  | .killStore signum q old =>
    some { finish y p 0 with
      pending := Function.update y.pending q (setBit old (sigBit signum)) }
  | .sysSleep n => some (goto y p (.sleepLoop n y.ticks))
  | .sleepLoop n ticks0 => sleepLoop y c p n ticks0
  | .pipewrite a addr n i => pipewrite y c p a addr n i
  | .writeSleep a addr n i =>
    callOut y c p (.sleep (nwriteChan a) (pipeLock a)) (.pipewrite a addr n i)
  | .piperead a n => piperead y c p a n
  | .consoleread dst n target => consoleread y c p dst n target
  | .release lk v => callOut y c p (.release lk) (.ret v)
  | .ret v => some (finish y p v)

inductive Call
  | kill (pid signum : Word)
  | sleep (n : Word)
  | pipewrite (a : PipeId) (addr : Nat → Byte) (n : Int)
  | piperead (a : PipeId) (n : Int)
  | consoleread (n : Int)

/-- The start of a call, up to its first step. -/
def enter (y : State) (c : CpuId) (p : Slot) : Call → Option State
  | .kill pid signum =>
    some (if BitVec.slt 32 signum then finish y p (-1) else goto y p (.killTest pid signum slot0))
  | .sleep n => callOut y c p (.acquire tickslock) (.sysSleep n)
  | .pipewrite a addr n => callOut y c p (.acquire (pipeLock a)) (.pipewrite a addr n 0)
  | .piperead a n => callOut y c p (.acquire (pipeLock a)) (.piperead a n)
  | .consoleread n => callOut y c p (.acquire consLock) (.consoleread [] n.toNat n.toNat)

/-- The CPU is in an interrupt handler, outside the functions of the scheduler's files. -/
def inHandler (s : Sched.State) (c : CpuId) : Bool :=
  match (s.cpu c).cur with
  | some p => (s.slot p).thread.irq = some .handler && (s.slot p).thread.call = none
  | none => (s.cpu c).irq = some .handler && (s.cpu c).call = none

/-- Kernel code outside the functions of the scheduler's files, in a system call or in `exit`. -/
def isCode : Sched.Main → Bool
  | .code _ | .exitClose => true
  | _ => false

/-- The process on a CPU that runs kernel code outside the functions here and those of the scheduler's
    files. -/
def otherOn (y : State) (c : CpuId) : Option Slot :=
  (y.sched.cpu c).cur.filter fun p =>
    (y.sched.slot p).thread = .at (y.sched.slot p).thread.main &&
      isCode (y.sched.slot p).thread.main && (y.frame p).isNone

inductive Label
  | sched (l : Sched.Label)
  /-- the process on the CPU makes a call -/
  | call (c : CpuId) (k : Call)
  /-- the process on the CPU goes on in its call -/
  | run (c : CpuId)
  /-- the process on the CPU stores to its own `pending_signals`, in `signalsHandler` or `sigaction` -/
  | store (c : CpuId) (v : Word)
  /-- `ticks++` in `trap` -/
  | tick (c : CpuId)
  /-- the keys that `consoleintr` gets -/
  | keys (c : CpuId) (cs : List Byte)
  /-- `pipeclose` -/
  | pipeclose (c : CpuId) (a : PipeId) (writable : Bool)

/-- A process that is in one of the functions here makes no other call. -/
def busy (y : State) : Sched.Label → Bool
  | .op c _ =>
    match codeOn y.sched c with
    | none => false
    | some p => (y.frame p).isSome
  | _ => false

/-- A new stack has no call in progress. -/
def keepFrame (s : Sched.State) (frame : Slot → Option Frame) (q : Slot) : Option Frame :=
  if (s.slot q).thread = .new then none else frame q

/-- `allocproc` clears `pending_signals` when it has found a slot. -/
def clearPending (y : State) (l : Sched.Label) : Slot → Word :=
  Kill.clearPending ⟨y.sched, y.pending, fun _ => none⟩ l

def step (y : State) : Label → Option State
  | .sched l =>
    if busy y l then none
    else
      (Sched.step y.sched l).map fun s =>
        { y with sched := s, pending := clearPending y l, frame := keepFrame s y.frame }
  | .call c k =>
    match codeOn y.sched c with
    | none => none
    | some p =>
      match y.frame p with
      | none => enter y c p k
      | some _ => none
  | .run c =>
    match codeOn y.sched c with
    | none => none
    | some p =>
      match y.frame p with
      | none => none
      | some f => frameStep y c p f
  | .store c v =>
    match otherOn y c with
    | none => none
    | some p => some { y with pending := Function.update y.pending p v }
  | .tick c =>
    if inHandler y.sched c && Sched.holding y.sched c tickslock then
      some { y with ticks := y.ticks + 1 }
    else none
  | .keys c cs =>
    if inHandler y.sched c && Sched.holding y.sched c consLock then
      some { y with input := (Console.keyLoop y.input cs).1 }
    else none
  | .pipeclose c a writable =>
    match otherOn y c with
    | none => none
    | some _ =>
      if Sched.holding y.sched c (pipeLock a) then
        some (setPipe y a
          (if writable then { y.pipe a with writeopen := false }
            else { y.pipe a with readopen := false }))
      else none

/-- The kernel after `userinit`, with pipes as `pipealloc` makes them, in pages with any contents. -/
def boot (data : PipeId → Fin Pipes.PIPESIZE → Byte) : State where
  sched := Sched.boot
  pending := fun _ => 0
  frame := fun _ => none
  ret := fun _ => 0
  ticks := 0
  pipe := fun a => ⟨data a, 0, 0, true, true⟩
  input := Console.boot.input

end Xv6.Blocking
