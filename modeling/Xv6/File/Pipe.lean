import Xv6.Machine.Bytes
import Xv6.Machine.Ring
import Xv6.Machine.Run

/-!
# Pipes

`pipewrite`, `piperead` and `pipeclose` on one pipe, called by any number of processes. A step is a
critical section under `p->lock`: from `acquire`, or the return from `sleep`, to the next `sleep` or
`release`. A process that sleeps goes on after a `wakeup` on its channel; as `killed` can be set at
any time here, a killed process goes on too.
-/

namespace Xv6.Pipes

open Machine

def PIPESIZE : Nat := 512

instance : NeZero PIPESIZE := ⟨by decide⟩

/-- `struct pipe`. -/
structure Pipe where
  data : Fin PIPESIZE → Byte
  nread : Word
  nwrite : Word
  readopen : Bool
  writeopen : Bool

/-- `p->data[p->nwrite++ % PIPESIZE] = b`. -/
def Pipe.put (p : Pipe) (b : Byte) : Pipe :=
  { p with data := Function.update p.data (Ring.index PIPESIZE p.nwrite) b, nwrite := p.nwrite + 1 }

/-- `p->data[p->nread++ % PIPESIZE]`. -/
def Pipe.get (p : Pipe) : Byte × Pipe :=
  (p.data (Ring.index PIPESIZE p.nread), { p with nread := p.nread + 1 })

/-- `p->nwrite == p->nread + PIPESIZE`. -/
def Pipe.full (p : Pipe) : Bool := p.nwrite = p.nread + BitVec.ofNat 32 PIPESIZE

/-- `p->nread == p->nwrite`. -/
def Pipe.empty (p : Pipe) : Bool := p.nread = p.nwrite

/-! ### The loops -/

/-- How a critical section of `pipewrite` ends: all is written, the pipe is full and nobody will read
    it (or the writer is killed), or it is full and the writer sleeps. -/
inductive WriteEnd
  | done
  | broken
  | sleep

/-- The loop of `pipewrite` from `i` on, with `k` bytes left: where it stops and how. -/
def writeLoop (killed : Bool) (addr : Nat → Byte) : (k i : Nat) → Pipe → Nat × Pipe × WriteEnd
  | 0, i, p => (i, p, .done)
  | k + 1, i, p =>
    if p.full then (i, p, if !p.readopen || killed then .broken else .sleep)
    else writeLoop killed addr k (i + 1) (p.put (addr i))

/-- The loop of `piperead` for `k` bytes. -/
def readLoop : (k : Nat) → Pipe → List Byte × Pipe
  | 0, p => ([], p)
  | k + 1, p =>
    if p.empty then ([], p)
    else
      let (bs, p') := readLoop k p.get.2
      (p.get.1 :: bs, p')

/-! ### Processes -/

abbrev ProcId := Nat

/-- A process: outside the functions here, with what the last call returned, or before the next
    critical section of a call. -/
inductive Pc
  | user (ret : Int)
  | write (addr : Nat → Byte) (n : Int) (i : Nat) (asleep : Bool)
  | read (n : Int) (asleep : Bool)

structure State where
  pipe : Pipe
  pc : ProcId → Pc
  killed : ProcId → Bool
  /-- the pipe has been given back with `kfree` -/
  freed : Bool

/-- The channels `&p->nread` and `&p->nwrite`. -/
inductive Chan
  | nread
  | nwrite

def Pc.wakeup (chan : Chan) (pc : Pc) : Pc :=
  match chan, pc with
  | .nread, .read n _ => .read n false
  | .nwrite, .write addr n i _ => .write addr n i false
  | _, pc => pc

/-- `wakeup(chan)`. -/
def wakeup (chan : Chan) (s : State) : State := { s with pc := fun q => (s.pc q).wakeup chan }

def setPc (s : State) (q : ProcId) (x : Pc) : State := { s with pc := Function.update s.pc q x }

/-- The result of the loop of `pipewrite` for a process at `i`. -/
def writeResult (s : State) (q : ProcId) (addr : Nat → Byte) (n : Int) (i : Nat) :
    Nat × Pipe × WriteEnd :=
  writeLoop (s.killed q) addr (n.toNat - i) i s.pipe

/-- A critical section of `pipewrite`. -/
def pipewrite (s : State) (q : ProcId) (addr : Nat → Byte) (n : Int) (i : Nat) : State :=
  let r := writeResult s q addr n i
  let s := { s with pipe := r.2.1 }
  match r.2.2 with
  | .done => setPc (wakeup .nread s) q (.user n)
  | .broken => setPc s q (.user (-1))
  | .sleep => setPc (wakeup .nread s) q (.write addr n r.1 true)

/-- `piperead` finds the pipe empty and open for writing. -/
def readWaits (p : Pipe) : Bool := p.empty && p.writeopen

/-- A critical section of `piperead`. -/
def piperead (s : State) (q : ProcId) (n : Int) : State :=
  if readWaits s.pipe then setPc s q (if s.killed q then .user (-1) else .read n true)
  else
    let r := readLoop n.toNat s.pipe
    setPc (wakeup .nwrite { s with pipe := r.2 }) q (.user r.1.length)

def pipeclose (s : State) (writable : Bool) : State :=
  let s :=
    if writable then wakeup .nread { s with pipe := { s.pipe with writeopen := false } }
    else wakeup .nwrite { s with pipe := { s.pipe with readopen := false } }
  { s with freed := !s.pipe.readopen && !s.pipe.writeopen }

inductive Label
  /-- a process calls `pipewrite` or `piperead` -/
  | pipewrite (q : ProcId) (addr : Nat → Byte) (n : Int)
  | piperead (q : ProcId) (n : Int)
  /-- the next critical section of a process -/
  | run (q : ProcId)
  | kill (q : ProcId)
  | pipeclose (writable : Bool)

def liveStep (s : State) : Label → Option State
  | .pipewrite q addr n =>
    match s.pc q with
    | .user _ => some (setPc s q (.write addr n 0 false))
    | _ => none
  | .piperead q n =>
    match s.pc q with
    | .user _ => some (setPc s q (.read n false))
    | _ => none
  | .run q =>
    match s.pc q with
    | .write addr n i false => some (pipewrite s q addr n i)
    | .read n false => some (piperead s q n)
    | _ => none
  | .kill q =>
    some { s with
      killed := Function.update s.killed q true,
      pc := Function.update s.pc q (((s.pc q).wakeup .nread).wakeup .nwrite) }
  | .pipeclose writable => some (pipeclose s writable)

def step (s : State) (l : Label) : Option State := if s.freed then none else liveStep s l

/-- After `pipealloc`, in a page with any contents. -/
def alloc (data : Fin PIPESIZE → Byte) : State where
  pipe := ⟨data, 0, 0, true, true⟩
  pc := fun _ => .user 0
  killed := fun _ => false
  freed := false

end Xv6.Pipes
