import Xv6.Machine.Run
import Xv6.Sched.Table

/-!
# Scheduling, sleeping, exiting and waiting

Any number of CPUs take steps in any order. A step is one access to memory that CPUs share (a load,
a store, a `cas` or an `xchg`) or one `swtch`, with what the code does on its own CPU around it. On
the stack of a process the innermost call goes on; on its own stack a CPU runs `scheduler`. Code
outside the functions here may acquire and release locks, wake up any channel, sleep on any channel
with a lock, and make the system calls, whenever it likes. `myproc()`, and the variables that hold
its value, stand for the process on whose stack the CPU is.

Interrupts come where the code runs with interrupts on: outside the functions here, in `fork`
outside `pushcli` and `popcli`, and in `scheduler` between `sti` and `pushcli`.
-/

namespace Xv6.Sched

open Machine

/-! ### Memory -/

/-- What a step changes in memory that CPUs share. -/
inductive Act
  | none
  | state (q : Slot) (v : PState)
  | chan (q : Slot) (v : Chan)
  | parent (q : Slot) (v : Option Slot)
  | killed (q : Slot) (v : Bool)
  | pid (q : Slot) (v : Word)
  | nextpid (v : Word)
  /-- `kfree(q->kstack); q->kstack = 0` -/
  | free (q : Slot)
  /-- a new stack, set up to start at `forkret` -/
  | stack (q : Slot)
  /-- `q->pgdir` gets a page directory, or `freevm(q->pgdir)` -/
  | pgdir (q : Slot) (v : Bool)
  | lock (lk : Lock) (v : Spinlock)

def setProc (s : State) (q : Slot) (x : Proc) : State :=
  { s with slot := Function.update s.slot q x }

def setCpu (s : State) (c : CpuId) (x : Cpu) : State :=
  { s with cpu := Function.update s.cpu c x }

def setThread (s : State) (p : Slot) (t : Thread) : State :=
  setProc s p { s.slot p with thread := t }

def Act.target : Act → Option Slot
  | .state q _ | .chan q _ | .parent q _ | .killed q _ | .pid q _ | .free q | .stack q
  | .pgdir q _ => some q
  | .none | .nextpid _ | .lock .. => Option.none

/-- What an act does to the slot that it writes to. -/
def Act.update (x : Proc) : Act → Proc
  | .state _ v => { x with state := v }
  | .chan _ v => { x with chan := v }
  | .parent _ v => { x with parent := v }
  | .killed _ v => { x with killed := v }
  | .pid _ v => { x with pid := v }
  | .free _ => { x with kstack := false }
  | .stack _ => { x with kstack := true, thread := .new }
  | .pgdir _ v => { x with pgdir := v }
  | .none | .nextpid _ | .lock .. => x

def Act.apply (s : State) (a : Act) : State :=
  match a, a.target with
  | a, some q => setProc s q (a.update (s.slot q))
  | .nextpid v, Option.none => { s with nextpid := v }
  | .lock lk v, Option.none => { s with lock := Function.update s.lock lk v }
  | _, Option.none => s

/-- `cas(&q->state, old, new)`. -/
def cas (s : State) (q : Slot) (old new : PState) : Act :=
  if (s.slot q).state = old then .state q new else .none

/-- How a step of a thread ends: with the calls on its stack, what it stores and the CPU's
    interrupt state, or with a panic. -/
inductive Res (α : Type)
  | go (x : α) (a : Act) (i : Intr)
  | panic (e : Panic)

def Res.map {α β : Type} (f : α → β) : Res α → Res β
  | .go x a i => .go (f x) a i
  | .panic e => .panic e

/-- A step that is a `popcli`. -/
def pop {α : Type} (i : Intr) (x : α) : Res α :=
  match popcli i with
  | .ok i => .go x .none i
  | .error e => .panic e

/-! ### Spinlocks, `yield`, `sched` and `wakeup` -/

/-- `holding`. Only this CPU itself can change what it says. -/
def holding (s : State) (c : CpuId) (lk : Lock) : Bool :=
  (s.lock lk).locked && (s.lock lk).cpu == some c

/-- Where `sched` returns to. -/
def schedRet (inYield : Bool) : Option Call := if inYield then some .yieldPop else none

/-- The end of the body of the loop of `wakeup1`. -/
def wakeup1Next (inWakeup : Bool) (chan : Chan) (p : Slot) : Option Call :=
  match nextSlot p with
  | some q => some (.wakeup1 inWakeup chan q)
  | none => if inWakeup then some .wakeupPop else none

/-- The innermost call on the stack of `p`, or on the stack of `scheduler`, unless it is at the
    `swtch` of `sched`. -/
def callStep (s : State) (c : CpuId) (p : Option Slot) (f : Call) : Option (Res (Option Call)) :=
  let i := (s.cpu c).intr
  match f, p with
  | .acquire lk, _ =>
    some (if holding s c lk then .panic .acquire
      else .go (some (.acquireSpin lk)) .none (pushcli i))
  | .acquireSpin lk, _ =>
    some (if (s.lock lk).locked then .go (some (.acquireSpin lk)) .none i
      else .go (some (.acquireCpu lk)) (.lock lk { s.lock lk with locked := true }) i)
  | .acquireCpu lk, _ => some (.go none (.lock lk { s.lock lk with cpu := some c }) i)
  | .release lk, _ =>
    some (if holding s c lk then
        .go (some (.releaseFree lk)) (.lock lk { s.lock lk with cpu := none }) i
      else .panic .release)
  | .releaseFree lk, _ =>
    some (.go (some .releasePop) (.lock lk { s.lock lk with locked := false }) i)
  | .releasePop, _ => some (pop i none)
  | .yield, _ => some (.go (some .yieldCas) .none (pushcli i))
  | .yieldCas, some p => some (.go (some (.sched true)) (cas s p .running .negRunnable) i)
  | .yieldPop, _ => some (pop i none)
  | .sched b, some p =>
    some (if i.ncli ≠ 1 then .panic .schedLocks
      else if (s.slot p).state = .running then .panic .schedRunning
      else .go (some (.schedNeg b)) .none i)
  | .schedNeg b, some p =>
    some (if (s.slot p).state = .negRunning then .panic .schedNegRunning
      else if i.flag then .panic .schedInterruptible
      else .go (some (.schedSwtch b i.intena)) .none i)
  | .schedBack b e, _ => some (.go (schedRet b) .none { i with intena := e })
  | .wakeup chan, _ => some (.go (some (.wakeup1 true chan slot0)) .none (pushcli i))
  | .wakeup1 b chan q, _ =>
    some (.go (if (s.slot q).chan = chan then some (.wakeup1Spin b chan q)
      else wakeup1Next b chan q) .none i)
  | .wakeup1Spin b chan q, _ =>
    some (.go (some (if (s.slot q).state = .negSleeping then .wakeup1Spin b chan q
      else .wakeup1Cas b chan q)) .none i)
  | .wakeup1Cas b chan q, _ =>
    some (.go (wakeup1Next b chan q) (cas s q .sleeping .runnable) i)
  | .wakeupPop, _ => some (pop i none)
  | _, _ => none

/-! ### `sleep` -/

def sleepStep (s : State) (c : CpuId) (p : Slot) (z : Sleep) :
    Res (Option Sleep × Option Call) :=
  let i := (s.cpu c).intr
  match z.pc with
  | .start =>
    match z.lk with
    | some lk => .go (some { z with pc := .chan }, some (.release lk)) .none (pushcli i)
    | none => .go (some { z with pc := .chan }, none) .none i
  | .chan => .go (some { z with pc := .cas }, none) (.chan p z.chan) i
  | .cas =>
    .go (some { z with pc := .tidy }, some (.sched false)) (cas s p .running .negSleeping) i
  | .tidy => .go (some { z with pc := .pop }, none) (.chan p .null) i
  | .pop =>
    match z.lk with
    | some lk => pop i (some { z with pc := .ret }, some (.acquire lk))
    | none => .go (none, none) .none i
  | .ret => .go (none, none) .none i

/-! ### System calls -/

/-- The next iteration of the loop of `exit` over the table. -/
def exitNext (woke : Option Slot) (p : Slot) : Main :=
  match nextSlot p with
  | some q => .exitLoop woke q
  | none => .exitSched woke

/-- The next iteration of the loop of `wait` over the table. -/
def waitNext (p : Slot) (havekids : Bool) : Main :=
  match nextSlot p with
  | some q => .waitTest q havekids
  | none => .waitKids havekids

/-- A step of `fork`, or of `forkret` in the new process. -/
def forkStep (s : State) (p : Slot) (i : Intr) : Main → Option (Res Thread)
  | .forkret => some (pop i (.at (.code 0)))
  | .allocproc => some (.go (.at (.allocTake slot0)) .none (pushcli i))
  | .allocTake q =>
    some (if (s.slot q).state = .unused then .go (.at (.allocFound q)) (.state q .embryo) i
      else
        match nextSlot q with
        | some q => .go (.at (.allocTake q)) .none i
        | none => .go (.at .allocNone) .none i)
  | .allocNone => some (pop i (.at (.code (-1))))
  | .allocFound np => some (pop i (.at (.pidOld np)))
  | .pidOld np => some (.go (.at (.pidNew np s.nextpid)) .none i)
  | .pidNew np old => some (.go (.at (.pidNext np old (s.nextpid + 1))) .none i)
  | .pidNext np old pid => some (.go (.at (.pidCas np old pid (s.nextpid + 1))) .none i)
  | .pidCas np old pid next =>
    some (if s.nextpid = old then .go (.at (.setPid np pid)) (.nextpid next) i
      else .go (.at (.pidOld np)) .none i)
  | .setPid np pid => some (.go (.at (.allocStack np)) (.pid np pid) i)
  | .allocDrop np => some (.go (.at (.code (-1))) (cas s np .embryo .unused) i)
  | .forkFree np => some (.go (.at (.forkDrop np)) (.free np) i)
  | .forkDrop np => some (.go (.at (.code (-1))) (cas s np .embryo .unused) i)
  | .forkParent np => some (.go (.at (.forkPid np)) (.parent np (some p)) i)
  | .forkPid np => some (.go (.at (.forkPush np (s.slot np).pid)) .none i)
  | .forkPush np pid => some (.go (.at (.forkRun np pid)) .none (pushcli i))
  | .forkRun np pid =>
    some (if (s.slot np).state = .embryo then .go (.at (.forkPop pid)) (.state np .runnable) i
      else .panic .notEmbryo)
  | .forkPop pid => some (pop i (.at (.code pid)))
  | _ => none

def exitStep (s : State) (p : Slot) (i : Intr) : Main → Option (Res Thread)
  | .exit => some (if p = initproc then .panic .initExiting else .go (.at .exitClose) .none i)
  | .exitPush => some (.go (.at .exitCas) .none (pushcli i))
  | .exitCas => some (.go (.at .exitParent) (cas s p .running .negZombie) i)
  | .exitParent =>
    some (.go
      { Thread.at (.exitWoke (s.slot p).parent) with
        call := some (.wakeup1 false (.ofProc (s.slot p).parent) slot0) } .none i)
  | .exitWoke w => some (.go (.at (.exitLoop w slot0)) .none i)
  | .exitLoop w q =>
    some (.go (.at (if (s.slot q).parent = some p then .exitGive w q else exitNext w q)) .none i)
  | .exitGive w q => some (.go (.at (.exitZombie w q)) (.parent q (some initproc)) i)
  | .exitZombie w q =>
    some (if (s.slot q).state = .zombie then
        .go
          { Thread.at (.exitAgain w q) with
            call := some (.wakeup1 false (.proc initproc) slot0) } .none i
      else .go (.at (.exitNegZombie w q)) .none i)
  | .exitNegZombie w q =>
    some (if (s.slot q).state = .negZombie then
        .go
          { Thread.at (.exitAgain w q) with
            call := some (.wakeup1 false (.proc initproc) slot0) } .none i
      else .go (.at (exitNext w q)) .none i)
  | .exitAgain w q => some (.go (.at (exitNext w q)) .none i)
  | .exitSched w =>
    some (.go { Thread.at (.zombieExit w) with call := some (.sched false) } .none i)
  | .zombieExit _ => some (.panic .zombieExit)
  | _ => none

def waitStep (s : State) (p : Slot) (i : Intr) : Main → Option (Res Thread)
  | .wait => some (.go (.at .waitScan) .none (pushcli i))
  | .waitScan => some (.go (.at (.waitTest slot0 false)) .none i)
  | .waitTest q havekids =>
    some (.go (.at (if (s.slot q).parent = some p then .waitNeg q else waitNext q havekids)) .none i)
  | .waitNeg q =>
    some (.go (.at (if (s.slot q).state = .negZombie then .waitReap q else .waitZombie q)) .none i)
  | .waitZombie q =>
    some (.go (.at (if (s.slot q).state = .zombie then .waitReap q else waitNext q true)) .none i)
  | .waitReap q =>
    some (if (s.slot q).state = .zombie then .go (.at (.waitPid q)) (.state q .negUnused) i
      else .go (.at (.waitNeg q)) .none i)
  | .waitPid q => some (.go (.at (.waitFree q (s.slot q).pid)) .none i)
  | .waitFree q pid => some (.go (.at (.waitFreevm q pid)) (.free q) i)
  | .waitFreevm q pid => some (.go (.at (.waitClearPid q pid)) (.pgdir q false) i)
  | .waitClearPid q pid => some (.go (.at (.waitClearParent q pid)) (.pid q 0) i)
  | .waitClearParent q pid => some (.go (.at (.waitClearKilled q pid)) (.parent q none) i)
  | .waitClearKilled q pid => some (.go (.at (.waitUnused q pid)) (.killed q false) i)
  | .waitUnused q pid =>
    some (if (s.slot q).state = .negUnused then .go (.at (.waitPop pid)) (.state q .unused) i
      else .panic .notUnused)
  | .waitKids havekids =>
    some (if !havekids || (s.slot p).killed then .go (.at (.waitPop (-1))) .none i
      else .go { Thread.at .waitScan with sleep := some ⟨.proc p, none, .start⟩ } .none i)
  | .waitPop v => some (pop i (.at (.code v)))
  | _ => none

/-- A step of `kill_handler`, which ends in a call of `exit`. -/
def killStep (s : State) (p : Slot) (i : Intr) : Main → Option (Res Thread)
  | .killHandler => some (.go (.at .killSet) .none (pushcli i))
  | .killSet => some (.go (.at .killCas) (.killed p true) i)
  | .killCas => some (.go (.at .killPop) (cas s p .sleeping .runnable) i)
  | .killPop => some (pop i (.at .exit))
  | _ => none

/-- A step of the outermost function. -/
def mainStep (s : State) (p : Slot) (i : Intr) (m : Main) : Option (Res Thread) :=
  ((forkStep s p i m).or (exitStep s p i m)).or ((waitStep s p i m).or (killStep s p i m))

/-- A step on the stack of `p` other than a `swtch`. -/
def procStep (s : State) (c : CpuId) (p : Slot) : Option (Res Thread) :=
  let t := (s.slot p).thread
  let i := (s.cpu c).intr
  match t.call with
  | some f => (callStep s c (some p) f).map (Res.map fun f => { t with call := f })
  | none =>
    match t.irq with
    | some .handler => none
    | some .leave => some (.go { t with irq := none } .none { i with flag := true })
    | none =>
      match t.sleep with
      | some z => some ((sleepStep s c p z).map fun x => { t with sleep := x.1, call := x.2 })
      | none => mainStep s p i t.main

/-! ### Code outside these functions -/

inductive Op
  | acquire (lk : Lock)
  | release (lk : Lock)
  | wakeup (chan : Chan)
  | sleep (chan : Chan) (lk : Lock)
  | yield
  | fork
  /-- whether `kalloc` or `copyuvm` succeeds in `fork` -/
  | alloc (ok : Bool)
  | exit
  /-- the files are closed in `exit` -/
  | closed
  | wait
  | killHandler
  /-- the end of an interrupt handler -/
  | trapEnd (timer : Bool)

/-- The calls that any code may make. -/
def Op.call : Op → Option Call
  | .acquire lk => some (.acquire lk)
  | .release lk => some (.release lk)
  | .wakeup chan => some (.wakeup chan)
  | _ => none

/-- The end of `trap`: on a timer interrupt a running process yields. -/
def trapEnd (s : State) (p : Option Slot) (timer : Bool) : Option Call :=
  match p with
  | none => none
  | some p => if timer ∧ (s.slot p).state = .running then some .yield else none

/-- What kernel code outside these functions can do in a system call, or in `exit` while it closes
    the files. -/
def codeOp (t : Thread) : Op → Option Thread
  | .sleep chan lk => some { t with sleep := some ⟨chan, some lk, .start⟩ }
  | o => o.call.map fun f => { t with call := some f }

/-- The system calls, and `yield` from `signalsHandler`. -/
def syscallOp (t : Thread) : Op → Option Thread
  | .fork => some (.at .allocproc)
  | .exit => some (.at .exit)
  | .wait => some (.at .wait)
  | .killHandler => some (.at .killHandler)
  | .yield => some { t with call := some .yield }
  | o => codeOp t o

/-- `exit` closes the files. -/
def closeOp : Op → Option Thread
  | .closed => some (.at .exitPush)
  | o => codeOp (.at .exitClose) o

/-- `kalloc` and `copyuvm` in `fork` succeed or not. -/
def allocOp (m : Main) (o : Op) : Option (Thread × Act) :=
  match m, o with
  | .allocStack np, .alloc true => some (.at (.copyuvm np), .stack np)
  | .allocStack np, .alloc false => some (.at (.allocDrop np), .none)
  | .copyuvm np, .alloc true => some (.at (.forkParent np), .pgdir np true)
  | .copyuvm np, .alloc false => some (.at (.forkFree np), .pgdir np false)
  | _, _ => none

/-- What the code in `m` can do beyond its own steps. -/
def mainOp (m : Main) (o : Op) : Option (Thread × Act) :=
  match m with
  | .code _ => (syscallOp (.at m) o).map fun t => (t, .none)
  | .exitClose => (closeOp o).map fun t => (t, .none)
  | m => allocOp m o

def procOp (s : State) (p : Slot) (o : Op) : Option (Thread × Act) :=
  let t := (s.slot p).thread
  match t.call, t.irq, t.sleep with
  | none, some .handler, _ =>
    match o with
    | .trapEnd timer =>
      some ({ t with irq := some .leave, call := trapEnd s (some p) timer }, .none)
    | o => o.call.map fun f => ({ t with call := some f }, .none)
  | none, none, none => mainOp t.main o
  | _, _, _ => none

/-- Interrupts are on in `m` when no lock is held. -/
def Main.interruptible : Main → Bool
  | .code _ | .allocproc | .pidOld _ | .pidNew .. | .pidNext .. | .pidCas .. | .setPid ..
  | .allocStack _ | .allocDrop _ | .copyuvm _ | .forkFree _ | .forkDrop _ | .forkParent _
  | .forkPid _ | .forkPush .. | .exit | .exitClose | .exitPush | .wait | .killHandler => true
  | _ => false

/-! ### The scheduler -/

/-- The next iteration of the loop of `scheduler` over the table. -/
def schedNext (p : Slot) : SchedPc :=
  match nextSlot p with
  | some q => .test q
  | none => .popcli

/-- A `cas` of `scheduler` that makes the state of `p` visible to the other CPUs. -/
def publish (s : State) (p : Slot) (old new : PState) : Act × Bool :=
  (cas s p old new, decide ((s.slot p).state = old))

def schedStep (s : State) (k : Cpu) : Except Panic (Cpu × Act) :=
  match k.pc with
  | .sti => .ok ({ k with pc := .pushcli, intr := { k.intr with flag := true } }, .none)
  | .pushcli => .ok ({ k with pc := .test slot0, intr := pushcli k.intr }, .none)
  | .test p =>
    .ok ({ k with pc := if (s.slot p).state = .runnable then .take p else schedNext p }, .none)
  | .take p =>
    if (s.slot p).state = .runnable then .ok ({ k with pc := .set p }, .state p .negRunning)
    else .ok ({ k with pc := schedNext p }, .none)
  | .set p => .ok ({ k with pc := .run p, proc := some p }, .none)
  | .run p =>
    if (s.slot p).state = .negRunning then .ok ({ k with pc := .swtch p }, .state p .running)
    else .error .scheduler
  | .swtch p => .ok ({ k with pc := .pub1 p, cur := some p }, .none)
  | .pub1 p =>
    let (a, done) := publish s p .negRunnable .runnable
    .ok ({ k with pc := .pub2 p done }, a)
  | .pub2 p done =>
    let (a, now) := publish s p .negSleeping .sleeping
    .ok ({ k with pc := .pub3 p (done || now) }, a)
  | .pub3 p _ => .ok ({ k with pc := .clear p }, (publish s p .negZombie .zombie).1)
  | .clear p => .ok ({ k with pc := schedNext p, proc := none }, .none)
  | .popcli =>
    match popcli k.intr with
    | .ok i => .ok ({ k with pc := .sti, intr := i }, .none)
    | .error e => .error e

/-! ### The machine -/

inductive Label
  /-- the next step of a CPU -/
  | run (c : CpuId)
  /-- the code that a CPU is in makes a call -/
  | op (c : CpuId) (o : Op)
  | interrupt (c : CpuId)

/-- The outcome of a step on the stack of `p`. -/
def procResult (s : State) (c : CpuId) (p : Slot) : Res Thread → State
  | .go t a i => a.apply (setThread (setCpu s c { s.cpu c with intr := i }) p t)
  | .panic e => { s with panic := some e }

/-- `swtch` from the stack of `p` to the stack of `scheduler`. -/
def swtchOut (s : State) (c : CpuId) (p : Slot) (inYield intena : Bool) : State :=
  setThread (setCpu s c { s.cpu c with cur := none }) p
    { (s.slot p).thread with call := some (.schedBack inYield intena) }

/-- The outcome of a step of a call on the stack of `scheduler`. -/
def cpuResult (s : State) (c : CpuId) : Res (Option Call) → State
  | .go f a i => a.apply (setCpu s c { s.cpu c with call := f, intr := i })
  | .panic e => { s with panic := some e }

/-- A step on the stack of `scheduler`. -/
def cpuStep (s : State) (c : CpuId) : Option State :=
  let k := s.cpu c
  match k.call with
  | some f => (callStep s c none f).map (cpuResult s c)
  | none =>
    match k.irq with
    | some .handler => none
    | some .leave => some (setCpu s c { k with irq := none, intr := { k.intr with flag := true } })
    | none =>
      match schedStep s k with
      | .ok (k, a) => some (a.apply (setCpu s c k))
      | .error e => some { s with panic := some e }

/-- What an interrupt handler that runs on the stack of `scheduler` can do. -/
def cpuOp (s : State) (c : CpuId) (o : Op) : Option State :=
  let k := s.cpu c
  match k.call, k.irq with
  | none, some .handler =>
    match o with
    | .trapEnd timer =>
      some (setCpu s c { k with irq := some .leave, call := trapEnd s none timer })
    | o => o.call.map fun f => setCpu s c { k with call := some f }
  | _, _ => none

/-- The CPU takes an interrupt: the gate turns interrupts off. -/
def interruptStep (s : State) (c : CpuId) : Option State :=
  let k := s.cpu c
  let off := { k.intr with flag := false }
  match k.cur with
  | some p =>
    let t := (s.slot p).thread
    if k.intr.flag ∧ t.main.interruptible ∧ t.sleep = none ∧ t.irq = none ∧ t.call = none then
      some (setThread (setCpu s c { k with intr := off }) p { t with irq := some .handler })
    else none
  | none =>
    if k.intr.flag ∧ k.pc = .pushcli ∧ k.irq = none ∧ k.call = none then
      some (setCpu s c { k with irq := some .handler, intr := off })
    else none

def liveStep (s : State) : Label → Option State
  | .run c =>
    match (s.cpu c).cur with
    | some p =>
      match (s.slot p).thread.call with
      | some (.schedSwtch b e) => some (swtchOut s c p b e)
      | _ => (procStep s c p).map (procResult s c p)
    | none => cpuStep s c
  | .op c o =>
    match (s.cpu c).cur with
    | some p => (procOp s p o).map fun x => x.2.apply (setThread s p x.1)
    | none => cpuOp s c o
  | .interrupt c => interruptStep s c

/-- After a panic nothing happens. -/
def step (s : State) (l : Label) : Option State :=
  if s.panic = none then liveStep s l else none

/-- A free slot, as in the zeroed table. -/
def Proc.zero : Proc := ⟨.unused, 0, none, .null, false, false, false, .at (.code 0)⟩

/-- The kernel when the CPUs enter `scheduler`: `userinit` has made the first process. -/
def boot : State where
  cpu := fun _ => ⟨none, none, .sti, none, none, ⟨0, false, false⟩⟩
  slot := Function.update (fun _ => .zero) initproc
    { Proc.zero with state := .runnable, pid := 2, kstack := true, pgdir := true, thread := .new }
  lock := fun _ => ⟨false, none⟩
  nextpid := 2
  panic := none

end Xv6.Sched
