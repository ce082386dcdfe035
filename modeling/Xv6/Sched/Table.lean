import Xv6.Machine.Bytes

/-!
# The process table and the CPUs

The data that the scheduler and the functions around it work on: the slots of `ptable` with their
kernel stacks, the CPUs and the spinlocks. A kernel stack is given by the calls in progress on it,
so `swtch` only changes the stack that a CPU is on.
-/

namespace Xv6

def NPROC : Nat := 64

/-- A slot of `ptable.proc`. -/
abbrev Slot := Fin NPROC

/-- `initproc`: `userinit` takes the first slot. -/
def initproc : Slot := ⟨0, by decide⟩

lemma one_lt_NPROC : 1 < NPROC := by decide

namespace Sched

open Machine

/-- Where the loops over `ptable.proc` start. -/
def slot0 : Slot := ⟨0, by decide⟩

/-- The next slot of a loop over `ptable.proc`. -/
def nextSlot (i : Slot) : Option Slot :=
  if h : i.val + 1 < NPROC then some ⟨i.val + 1, h⟩ else none

abbrev CpuId := Nat

abbrev Lock := Nat

/-- `enum procstate`. -/
inductive PState
  | unused
  | embryo
  | sleeping
  | runnable
  | running
  | zombie
  | negUnused
  | negSleeping
  | negRunnable
  | negRunning
  | negZombie
  deriving DecidableEq

/-- What a process sleeps on: the null pointer, a slot of the table or some other address. -/
inductive Chan
  | null
  | proc (p : Slot)
  | addr (a : Nat)
  deriving DecidableEq

/-- A `struct proc *` as a channel. -/
def Chan.ofProc : Option Slot → Chan
  | none => .null
  | some p => .proc p

structure Spinlock where
  locked : Bool
  cpu : Option CpuId
  deriving DecidableEq

inductive Panic
  /-- `popcli - interruptible` -/
  | popcliInterruptible
  | popcli
  | acquire
  | release
  /-- `sched locks` -/
  | schedLocks
  /-- `sched running` -/
  | schedRunning
  /-- `sched -running` -/
  | schedNegRunning
  /-- `sched interruptible` -/
  | schedInterruptible
  /-- `scheduler:: assert p->state == -RUNNING violated` -/
  | scheduler
  /-- `assert p->state == EMBRYO violated` -/
  | notEmbryo
  /-- `assert p->state==UNUSED is violated` -/
  | notUnused
  /-- `init exiting` -/
  | initExiting
  /-- `zombie exit` -/
  | zombieExit
  deriving DecidableEq

/-! ### Interrupts -/

/-- The fields `ncli` and `intena` of a CPU, and its interrupt flag. -/
structure Intr where
  ncli : Int
  intena : Bool
  flag : Bool
  deriving DecidableEq

def pushcli (i : Intr) : Intr where
  ncli := i.ncli + 1
  intena := if i.ncli = 0 then i.flag else i.intena
  flag := false

def popcli (i : Intr) : Except Panic Intr :=
  if i.flag then .error .popcliInterruptible
  else if i.ncli - 1 < 0 then .error .popcli
  else .ok { i with ncli := i.ncli - 1, flag := decide (i.ncli - 1 = 0) && i.intena }

/-! ### Calls in progress -/

/-- The innermost call of a function that does not call the ones below, at its next access to
    shared memory. -/
inductive Call
  | acquire (lk : Lock)
  | acquireSpin (lk : Lock)
  | acquireCpu (lk : Lock)
  | release (lk : Lock)
  | releaseFree (lk : Lock)
  | releasePop
  | yield
  | yieldCas
  | yieldPop
  /-- `sched`, called by `yield` or not: the tests for `RUNNING` and `NEG_RUNNING`, the `swtch`
      with the saved `intena`, and the return from it -/
  | sched (inYield : Bool)
  | schedNeg (inYield : Bool)
  | schedSwtch (inYield intena : Bool)
  | schedBack (inYield intena : Bool)
  | wakeup (chan : Chan)
  /-- `wakeup1`, called by `wakeup` or not: the test of `p->chan`, the loop while the state is
      `NEG_SLEEPING`, and the `cas` to `RUNNABLE` -/
  | wakeup1 (inWakeup : Bool) (chan : Chan) (p : Slot)
  | wakeup1Spin (inWakeup : Bool) (chan : Chan) (p : Slot)
  | wakeup1Cas (inWakeup : Bool) (chan : Chan) (p : Slot)
  | wakeupPop
  deriving DecidableEq

inductive SleepPc
  | start
  /-- the store of `p->chan`, which is also where `release(lk)` returns to -/
  | chan
  | cas
  /-- `p->chan = 0`, where `sched` returns to -/
  | tidy
  | pop
  | ret
  deriving DecidableEq

/-- A call of `sleep(chan, lk)`. -/
structure Sleep where
  chan : Chan
  lk : Option Lock
  pc : SleepPc
  deriving DecidableEq

/-- An interrupt: in the handler, or on the way out of `trap`. -/
inductive Irq
  | handler
  | leave
  deriving DecidableEq

/-- The system call, or other outermost function, of a process. -/
inductive Main
  /-- user code, or kernel code other than the functions here; `ret` is the value that the last
      call returned -/
  | code (ret : Word)
  | forkret
  /-- `fork` and the `allocproc` in it -/
  | allocproc
  | allocTake (p : Slot)
  | allocNone
  | allocFound (np : Slot)
  | pidOld (np : Slot)
  | pidNew (np : Slot) (old : Word)
  | pidNext (np : Slot) (old pid : Word)
  | pidCas (np : Slot) (old pid next : Word)
  | setPid (np : Slot) (pid : Word)
  | allocStack (np : Slot)
  | allocDrop (np : Slot)
  | copyuvm (np : Slot)
  | forkFree (np : Slot)
  | forkDrop (np : Slot)
  | forkParent (np : Slot)
  | forkPid (np : Slot)
  | forkPush (np : Slot) (pid : Word)
  | forkRun (np : Slot) (pid : Word)
  | forkPop (pid : Word)
  /-- `exit`; `woke` is history: the parent that `wakeup1` was called on -/
  | exit
  | exitClose
  | exitPush
  | exitCas
  | exitParent
  | exitWoke (woke : Option Slot)
  | exitLoop (woke : Option Slot) (p : Slot)
  | exitGive (woke : Option Slot) (p : Slot)
  | exitZombie (woke : Option Slot) (p : Slot)
  | exitNegZombie (woke : Option Slot) (p : Slot)
  | exitAgain (woke : Option Slot) (p : Slot)
  | exitSched (woke : Option Slot)
  | zombieExit (woke : Option Slot)
  /-- `wait` -/
  | wait
  | waitScan
  | waitTest (p : Slot) (havekids : Bool)
  | waitNeg (p : Slot)
  | waitZombie (p : Slot)
  | waitReap (p : Slot)
  | waitPid (p : Slot)
  | waitFree (p : Slot) (pid : Word)
  | waitFreevm (p : Slot) (pid : Word)
  | waitClearPid (p : Slot) (pid : Word)
  | waitClearParent (p : Slot) (pid : Word)
  | waitClearKilled (p : Slot) (pid : Word)
  | waitUnused (p : Slot) (pid : Word)
  | waitKids (havekids : Bool)
  | waitPop (ret : Word)
  /-- `kill_handler` -/
  | killHandler
  | killSet
  | killCas
  | killPop
  deriving DecidableEq

/-- The calls on a kernel stack, from the outermost to the innermost. -/
structure Thread where
  main : Main
  sleep : Option Sleep
  irq : Option Irq
  call : Option Call
  deriving DecidableEq

/-- A stack with one function on it. -/
def Thread.at (m : Main) : Thread := ⟨m, none, none, none⟩

/-- The stack that `allocproc` sets up. -/
def Thread.new : Thread := .at .forkret

structure Proc where
  state : PState
  pid : Word
  parent : Option Slot
  chan : Chan
  killed : Bool
  /-- `p->kstack` is not null -/
  kstack : Bool
  /-- `p->pgdir` points to a page directory that has not been freed -/
  pgdir : Bool
  thread : Thread
  deriving DecidableEq

/-- Where a CPU is in `scheduler`. The last three `cas` are `pub1`, `pub2` and `pub3`; `done` is
    history: one of the earlier ones has taken effect since the `swtch`. -/
inductive SchedPc
  | sti
  | pushcli
  | test (p : Slot)
  | take (p : Slot)
  | set (p : Slot)
  | run (p : Slot)
  | swtch (p : Slot)
  | pub1 (p : Slot)
  | pub2 (p : Slot) (done : Bool)
  | pub3 (p : Slot) (done : Bool)
  | clear (p : Slot)
  | popcli
  deriving DecidableEq

structure Cpu where
  /-- `c->proc` -/
  proc : Option Slot
  /-- the process on whose kernel stack the CPU is, unless it is on the stack of `scheduler` -/
  cur : Option Slot
  /-- where `scheduler` is, or where it goes on after the `swtch` back -/
  pc : SchedPc
  /-- an interrupt taken in `scheduler`, and the innermost call there -/
  irq : Option Irq
  call : Option Call
  intr : Intr
  deriving DecidableEq

structure State where
  cpu : CpuId → Cpu
  slot : Slot → Proc
  lock : Lock → Spinlock
  nextpid : Word
  panic : Option Panic

end Sched

end Xv6
