import Mathlib.Logic.Function.Basic
import Xv6.Machine.Bits
import Xv6.Machine.Bytes

/-!
# Processes and their signals

The part of `struct proc` that signals are about, with the trap frame and the user memory of the
process, and the functions of `proc.c`, `sysproc.c` and `exec.c` that change it: `sigaction`,
`sigprocmask`, `sigret`, the delivery of a signal to a user handler, and what `allocproc`, `fork`
and `exec` do to it.
-/

namespace Xv6.Signal

open Machine

/-! ### Signals and dispositions -/

abbrev Signum := Fin 32

def SIGKILL : Signum := 9
def SIGSTOP : Signum := 17
def SIGCONT : Signum := 19

def SIG_DFL : Word := 0
def SIG_IGN : Word := 1

/-- Where the loops over the signals start. -/
def signum0 : Signum := 0

/-- A signal number where the code stores it as a disposition, `(void *) SIGKILL`. -/
def disp (i : Signum) : Word := BitVec.ofNat 32 i.val

/-- `is_sigact`: a stored disposition that is a pointer to a `struct sigaction`. -/
def isSigact (a : Word) : Bool := !(a == 0 || a == 1 || a == 9 || a == 17 || a == 19)

/-- The three signals that the scan acts on whatever the mask says. -/
def Special (i : Signum) : Prop := i = SIGKILL ∨ i = SIGSTOP ∨ i = SIGCONT

instance (i : Signum) : Decidable (Special i) := inferInstanceAs (Decidable (_ ∨ _))

/-- The bit of `1 << signum`: the processor shifts by the low five bits of the count. -/
def sigIndex (signum : Word) : Signum := ⟨signum.toNat % 32, Nat.mod_lt _ (by decide)⟩

/-! ### Trap frames -/

/-- `struct trapframe`. -/
structure Trapframe where
  edi : Word
  esi : Word
  ebp : Word
  oesp : Word
  ebx : Word
  edx : Word
  ecx : Word
  eax : Word
  gs : BitVec 16
  padding1 : BitVec 16
  fs : BitVec 16
  padding2 : BitVec 16
  es : BitVec 16
  padding3 : BitVec 16
  ds : BitVec 16
  padding4 : BitVec 16
  trapno : Word
  err : Word
  eip : Word
  cs : BitVec 16
  padding5 : BitVec 16
  eflags : Word
  esp : Word
  ss : BitVec 16
  padding6 : BitVec 16
  deriving DecidableEq

/-- The frame of a zeroed `struct trapframe`. -/
def Trapframe.zero : Trapframe :=
  ⟨0, 0, 0, 0, 0, 0, 0, 0, 0, 0, 0, 0, 0, 0, 0, 0, 0, 0, 0, 0, 0, 0, 0, 0, 0⟩

/-- Word `k` of the frame. -/
def Trapframe.word (tf : Trapframe) : Fin 19 → Word
  | 0 => tf.edi
  | 1 => tf.esi
  | 2 => tf.ebp
  | 3 => tf.oesp
  | 4 => tf.ebx
  | 5 => tf.edx
  | 6 => tf.ecx
  | 7 => tf.eax
  | 8 => tf.padding1 ++ tf.gs
  | 9 => tf.padding2 ++ tf.fs
  | 10 => tf.padding3 ++ tf.es
  | 11 => tf.padding4 ++ tf.ds
  | 12 => tf.trapno
  | 13 => tf.err
  | 14 => tf.eip
  | 15 => tf.padding5 ++ tf.cs
  | 16 => tf.eflags
  | 17 => tf.esp
  | _ => tf.padding6 ++ tf.ss -- word 18, the last

/-- Store a word at word index `k` of the frame. -/
def Trapframe.setWord (tf : Trapframe) (k : Fin 19) (v : Word) : Trapframe :=
  match k with
  | 0 => { tf with edi := v }
  | 1 => { tf with esi := v }
  | 2 => { tf with ebp := v }
  | 3 => { tf with oesp := v }
  | 4 => { tf with ebx := v }
  | 5 => { tf with edx := v }
  | 6 => { tf with ecx := v }
  | 7 => { tf with eax := v }
  | 8 => { tf with gs := v.extractLsb' 0 16, padding1 := v.extractLsb' 16 16 }
  | 9 => { tf with fs := v.extractLsb' 0 16, padding2 := v.extractLsb' 16 16 }
  | 10 => { tf with es := v.extractLsb' 0 16, padding3 := v.extractLsb' 16 16 }
  | 11 => { tf with ds := v.extractLsb' 0 16, padding4 := v.extractLsb' 16 16 }
  | 12 => { tf with trapno := v }
  | 13 => { tf with err := v }
  | 14 => { tf with eip := v }
  | 15 => { tf with cs := v.extractLsb' 0 16, padding5 := v.extractLsb' 16 16 }
  | 16 => { tf with eflags := v }
  | 17 => { tf with esp := v }
  | _ => { tf with ss := v.extractLsb' 0 16, padding6 := v.extractLsb' 16 16 }

/-- `(SEG_UCODE << 3) | DPL_USER`. -/
def USER_CS : BitVec 16 := (3 <<< 3) ||| 3

/-- `(SEG_UDATA << 3) | DPL_USER`. -/
def USER_DS : BitVec 16 := (4 <<< 3) ||| 3

/-- `FL_IF` of `mmu.h`. -/
def FL_IF : Word := 0x200

/-- The bits of `eflags` that hold the I/O privilege level. -/
def FL_IOPL : Word := 0x3000

/-! ### Processes -/

def PGSIZE : Nat := 4096
def KERNBASE : Nat := 0x80000000

def PGROUNDUP (sz : Nat) : Nat := (sz + PGSIZE - 1) / PGSIZE * PGSIZE

/-- How the kernel stops. -/
inductive Panic
  /-- a fault in the kernel: `panic("trap")` -/
  | trap
  /-- a store to kernel memory outside the fields of this model -/
  | wild
  /-- `iret` to a frame that is not a user frame -/
  | badIret
  /-- `panic("init exiting")` -/
  | initExiting
  deriving DecidableEq

structure Proc where
  pid : Word
  sz : Word
  mem : Word → Byte
  killed : Bool
  tf : Trapframe
  pendingSignals : Word
  signalMask : Word
  signalHandlers : Signum → Word
  backup : Trapframe
  signalMaskBackup : Word

/-- The process table is zero when the kernel starts. -/
def Proc.zero : Proc where
  pid := 0
  sz := 0
  mem := fun _ => 0
  killed := false
  tf := .zero
  pendingSignals := 0
  signalMask := 0
  signalHandlers := fun _ => 0
  backup := .zero
  signalMaskBackup := 0

/-! ### User memory -/

/-- The address is on a page of the process's memory. -/
def Proc.mapped (p : Proc) (a : Word) : Bool := a.toNat < PGROUNDUP p.sz.toNat

/-- The four bytes at `a`. -/
def Proc.word (p : Proc) (a : Word) : Word :=
  p.mem (a + 3) ++ p.mem (a + 2) ++ p.mem (a + 1) ++ p.mem a

/-- The kernel reads the word at a user address; outside the process's pages that is a fault.
    Dispositions are either the small constants or pointers that `argptr` checked against `sz`,
    so no kernel address is read. -/
def Proc.fetch (p : Proc) (a : Word) : Except Panic Word :=
  if p.mapped a && p.mapped (a + 3) then .ok (p.word a) else .error .trap

/-- The kernel stores a byte at an address that the user program chose. -/
def Proc.storeByte (p : Proc) (a : Word) (b : Byte) : Except Panic Proc :=
  if p.mapped a then .ok { p with mem := Function.update p.mem a b }
  else if a.toNat ≥ KERNBASE then .error .wild
  else .error .trap

/-- `memmove` to an address that the user program chose. -/
def Proc.store (p : Proc) (a : Word) : List Byte → Except Panic Proc
  | [] => .ok p
  | b :: bs => do
    let p' ← p.storeByte a b
    p'.store (a + 1) bs

def wordBytes (v : Word) : List Byte :=
  [v.extractLsb' 0 8, v.extractLsb' 8 8, v.extractLsb' 16 8, v.extractLsb' 24 8]

/-! ### System-call arguments -/

def Proc.fetchint (p : Proc) (a : Word) : Option Word :=
  if a ≥ p.sz ∨ a + 4 > p.sz then none else some (p.word a)

def Proc.argint (p : Proc) (n : Nat) : Option Word :=
  p.fetchint (p.tf.esp + 4 + 4 * BitVec.ofNat 32 n)

/-- `argptr` for a block of `size` bytes. -/
def Proc.argptr (p : Proc) (n : Nat) (size : Word) : Option Word :=
  match p.argint n with
  | none => none
  | some i => if i ≥ p.sz ∨ i + size > p.sz then none else some i

/-! ### Dispositions and masks -/

/-- The words of `struct proc` that `signal_handlers[signum]` names for the values of `signum`
    around 0..31: the array is not checked against its bounds. -/
inductive Cell
  | pending
  | mask
  | handler (i : Signum)
  | backup (k : Fin 19)
  | maskBackup
  deriving DecidableEq

/-- The word that `signal_handlers[signum]` names, `none` when it is outside of these fields. -/
def cell (signum : Word) : Option Cell :=
  if h : signum.toNat < 32 then some (.handler ⟨signum.toNat, h⟩)
  else if h : 32 ≤ signum.toNat ∧ signum.toNat < 51 then
    some (.backup ⟨signum.toNat - 32, by omega⟩)
  else if signum = 51 then some .maskBackup
  else if signum = -1 then some .mask
  else if signum = -2 then some .pending
  else none

def Proc.get (p : Proc) : Cell → Word
  | .pending => p.pendingSignals
  | .mask => p.signalMask
  | .handler i => p.signalHandlers i
  | .backup k => p.backup.word k
  | .maskBackup => p.signalMaskBackup

def Proc.set (p : Proc) (c : Cell) (v : Word) : Proc :=
  match c with
  | .pending => { p with pendingSignals := v }
  | .mask => { p with signalMask := v }
  | .handler i => { p with signalHandlers := Function.update p.signalHandlers i v }
  | .backup k => { p with backup := p.backup.setWord k v }
  | .maskBackup => { p with signalMaskBackup := v }

/-- `*oldact = *signal_handlers[signum]`, when `oldact` is not null. -/
def copyOld (p : Proc) (c : Cell) (oldact : Word) : Except Panic Proc :=
  if oldact = 0 then .ok p
  else do
    let saHandler ← p.fetch (p.get c)
    let sigmask ← p.fetch (p.get c + 4)
    p.store oldact (wordBytes saHandler ++ wordBytes sigmask)

/-- `sigaction`, with its result. -/
def sigaction (p : Proc) (signum act oldact : Word) : Except Panic (Proc × Word) :=
  if signum = disp SIGKILL ∨ signum = disp SIGSTOP then .ok (p, -1)
  else
    match cell signum with
    | none => .error .wild
    | some c => do
      let p' ← copyOld p c oldact
      .ok (p'.set c act, 0)

def sysSigaction (p : Proc) : Except Panic (Proc × Word) :=
  match p.argint 0, p.argptr 1 8, p.argptr 2 8 with
  | some signum, some act, some oldact => sigaction p signum act oldact
  | _, _, _ => .ok (p, -1)

/-- `sigprocmask`, with its result. -/
def sigprocmask (p : Proc) (sigmask : Word) : Proc × Word :=
  ({ p with signalMask := sigmask }, p.signalMask)

def sysSigprocmask (p : Proc) : Proc × Word :=
  match p.argint 0 with
  | none => (p, -1)
  | some sigmask => sigprocmask p sigmask

def sigret (p : Proc) : Proc := { p with tf := p.backup, signalMask := p.signalMaskBackup }

/-! ### The tests of `signalsHandler` -/

/-- The tests of the scan that end the process. -/
def scanKills (p : Proc) (i : Signum) : Except Panic Bool :=
  if i = SIGKILL then .ok true
  else if (p.signalHandlers i = disp SIGKILL ∨ p.signalHandlers i = SIG_DFL) ∧
      (i ≠ SIGCONT ∧ i ≠ SIGSTOP) then .ok true
  else if isSigact (p.signalHandlers i) then do
    let saHandler ← p.fetch (p.signalHandlers i)
    .ok (saHandler == disp SIGKILL || saHandler == SIG_DFL)
  else .ok false

/-- The tests of the scan for a signal `k` that stops or continues the process. -/
def scanActs (k : Signum) (p : Proc) (i : Signum) : Except Panic Bool :=
  if i = k then .ok true
  else if p.signalHandlers i = disp k then .ok true
  else if isSigact (p.signalHandlers i) then do
    let saHandler ← p.fetch (p.signalHandlers i)
    .ok (saHandler == disp k)
  else .ok false

def scanStops : Proc → Signum → Except Panic Bool := scanActs SIGSTOP
def scanConts : Proc → Signum → Except Panic Bool := scanActs SIGCONT

/-- `is_ignored` of the delivery loop. -/
def isIgnored (p : Proc) (i : Signum) : Except Panic Bool :=
  if hasBit p.signalMask i then .ok true
  else if p.signalHandlers i = SIG_IGN then .ok true
  else do
    let saHandler ← p.fetch (p.signalHandlers i)
    .ok (saHandler == SIG_IGN)

/-! ### Delivery -/

/-- The code between `call_sigret` and `call_sigret_end`:
    `movl $24, %eax; int $64; ret`. -/
def callSigret : List Byte := [0xb8, 0x18, 0, 0, 0, 0xcd, 0x40, 0xc3]

/-- `code_length + (code_length % 8)`. -/
def codeRoom : Word := BitVec.ofNat 32 (callSigret.length + callSigret.length % 8)

def handlerMask (p : Proc) (i : Signum) : Except Panic Word :=
  if isSigact (p.signalHandlers i) then p.fetch (p.signalHandlers i + 4) else .ok p.signalMask

/-- The delivery of signal `i`, after its bit has been cleared: save the frame and the mask, copy
    the code that calls `sigret` to the user stack, push its address and the signal number, and
    go to the handler. -/
def deliver (p : Proc) (i : Signum) : Except Panic Proc := do
  let func ← p.fetch (p.signalHandlers i)
  let mask ← handlerMask p i
  let callSigretAdd := p.tf.esp - codeRoom
  let q ← p.store callSigretAdd callSigret
  let q ← q.store (callSigretAdd - 4) (wordBytes (BitVec.ofNat 32 i.val))
  let q ← q.store (callSigretAdd - 8) (wordBytes callSigretAdd)
  .ok
    { q with
      backup := p.tf
      signalMaskBackup := p.signalMask
      signalMask := mask
      tf := { p.tf with esp := callSigretAdd - 8, eip := func } }

/-! ### Process creation and `exec` -/

/-- What `allocproc` writes to a free slot. The backup frame and mask stay as they are. -/
def allocproc (p : Proc) (pid : Word) : Proc :=
  { p with
    pid := pid
    signalHandlers := fun _ => SIG_DFL
    pendingSignals := 0
    signalMask := 0 }

/-- The child of `fork` in the slot `np`. -/
def forkChild (p np : Proc) (pid : Word) : Proc :=
  { allocproc np pid with
    sz := p.sz
    mem := p.mem
    tf := { p.tf with eax := 0 }
    signalMask := p.signalMask
    signalHandlers := p.signalHandlers }

/-- The first process, as `userinit` makes it with the given code. -/
def userinit (code : Word → Byte) (pid : Word) : Proc :=
  { allocproc .zero pid with
    sz := BitVec.ofNat 32 PGSIZE
    mem := code
    tf := { Trapframe.zero with
      cs := USER_CS, ds := USER_DS, es := USER_DS, ss := USER_DS
      eflags := FL_IF, esp := BitVec.ofNat 32 PGSIZE, eip := 0 } }

/-- What `exec` has read from the executable. -/
structure Image where
  sz : Word
  mem : Word → Byte
  entry : Word
  sp : Word

/-- The end of a successful `exec`. -/
def exec (p : Proc) (image : Image) : Proc :=
  { p with
    sz := image.sz
    mem := image.mem
    tf := { p.tf with eip := image.entry, esp := image.sp }
    signalHandlers := fun i =>
      if p.signalHandlers i ≠ SIG_IGN then SIG_DFL else p.signalHandlers i }

end Xv6.Signal
