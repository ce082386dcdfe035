import Xv6.Fs.Log

/-!
# The disk drivers

`iderw`, `idestart` and `ideintr` of `ide.c` with a disk that executes one command at a time, and the
synchronous `iderw` of `memide.c`. A step of the first is a critical section under `idelock`, a command
that the disk executes, or an action of a process on a buffer that it has locked. The disk reports no
errors and raises one interrupt for each command.
-/

namespace Xv6.Ide

open Machine
open Log (Block)

def FSSIZE : Nat := 1000

abbrev ProcId := Nat
abbrev BufId := Nat

/-- `struct buf`, as far as the drivers use it. -/
structure Buf where
  /-- `B_VALID` -/
  valid : Bool
  /-- `B_DIRTY` -/
  dirty : Bool
  dev : Word
  blockno : Word
  data : Block
  /-- the process that holds `b->lock` -/
  lock : Option ProcId

inductive Panic
  /-- `iderw: buf not locked` -/
  | notLocked
  /-- `iderw: nothing to do` -/
  | nothingToDo
  /-- `iderw: ide disk 1 not present` -/
  | notPresent
  /-- `incorrect blockno` -/
  | incorrectBlockno
  /-- `iderw: request not for disk 1` -/
  | notDisk1
  /-- `iderw: block out of range` -/
  | outOfRange
  deriving DecidableEq

/-- The test of `iderw` for a request that the flags do not ask for. -/
def Buf.clean (b : Buf) : Bool := b.valid && !b.dirty

/-! ### `memide.c` -/

abbrev Disk := Nat → Block

/-- The transfer between the disk and the buffer, and the flags after it. -/
def memTransfer (disk : Disk) (b : Buf) : Disk × Buf :=
  if b.dirty then
    (Function.update disk b.blockno.toNat b.data, { b with valid := true, dirty := false })
  else (disk, { b with valid := true, data := disk b.blockno.toNat })

/-- `iderw(b)` of `memide.c`, called by `q`. -/
def memiderw (disksize : Nat) (disk : Disk) (q : ProcId) (b : Buf) : Except Panic (Disk × Buf) :=
  if b.lock ≠ some q then .error .notLocked
  else if b.clean then .error .nothingToDo
  else if b.dev ≠ 1 then .error .notDisk1
  else if disksize ≤ b.blockno.toNat then .error .outOfRange
  else .ok (memTransfer disk b)

/-! ### The disk -/

/-- What `idestart` writes to the ports `0x1f3` to `0x1f6`. The bits of the last are disjoint. -/
structure Regs where
  r3 : Nat
  r4 : Nat
  r5 : Nat
  r6 : Nat

def regs (dev sector : Nat) : Regs where
  r3 := sector % 0x100
  r4 := sector / 0x100 % 0x100
  r5 := sector / 0x10000 % 0x100
  r6 := 0xe0 + dev % 2 * 0x10 + sector / 0x1000000 % 0x10

/-- A command: which disk, which sector, and the data if it is a write. -/
structure Cmd where
  unit : Nat
  sector : Nat
  out : Option Block

/-- The command that the disk takes from its ports. -/
def Regs.cmd (r : Regs) (out : Option Block) : Cmd where
  unit := r.r6 / 0x10 % 2
  sector := r.r3 + r.r4 * 0x100 + r.r5 * 0x10000 + r.r6 % 0x10 * 0x1000000
  out := out

inductive Device
  | idle
  | busy (c : Cmd)
  /-- the interrupt is raised; `data` is what the data port holds -/
  | done (data : Block)

/-- The disks after a command, and the data port. -/
def Cmd.exec (disk : Nat → Disk) (c : Cmd) : (Nat → Disk) × Block :=
  match c.out with
  | some data => (Function.update disk c.unit (Function.update (disk c.unit) c.sector data), data)
  | none => (disk, disk c.unit c.sector)

/-! ### `ide.c` -/

/-- A process: outside `iderw`, waiting in it for a buffer, or returned from it. -/
inductive Pc
  | user
  | waiting (b : BufId) (asleep : Bool)
  | returned (b : BufId)
  deriving DecidableEq

structure State where
  buf : BufId → Buf
  /-- `idequeue` -/
  queue : List BufId
  disk : Nat → Disk
  device : Device
  pc : ProcId → Pc
  havedisk1 : Bool
  panic : Option Panic

/-- `BSIZE/SECTOR_SIZE`. -/
def sectorPerBlock : Nat := 1

/-- The command that `idestart` issues. -/
def Buf.cmd (b : Buf) : Cmd :=
  (regs b.dev.toNat (b.blockno.toNat * sectorPerBlock)).cmd (if b.dirty then some b.data else none)

def idestart (b : Buf) : Except Panic Device :=
  if FSSIZE ≤ b.blockno.toNat then .error .incorrectBlockno else .ok (.busy b.cmd)

def setPc (s : State) (q : ProcId) (x : Pc) : State := { s with pc := Function.update s.pc q x }

def setBuf (s : State) (i : BufId) (x : Buf) : State := { s with buf := Function.update s.buf i x }

/-- The tests at the top of `iderw`. -/
def iderwTest (s : State) (q : ProcId) (b : Buf) : Option Panic :=
  if b.lock ≠ some q then some .notLocked
  else if b.clean then some .nothingToDo
  else if b.dev ≠ 0 ∧ !s.havedisk1 then some .notPresent
  else none

/-- `iderw(b)` up to its call of `sleep`: the flags still ask for the request. -/
def iderw (s : State) (q : ProcId) (i : BufId) : State :=
  match iderwTest s q (s.buf i) with
  | some e => { s with panic := some e }
  | none =>
    -- the disk is started if `b` is the first
    match if s.queue = [] then idestart (s.buf i) else .ok s.device with
    | .error e => { s with panic := some e }
    | .ok device => setPc { s with queue := s.queue ++ [i], device := device } q (.waiting i true)

/-- What `ideintr` does to the buffer of the request. -/
def Buf.finish (b : Buf) (data : Block) : Buf :=
  { b with data := if b.dirty then b.data else data, valid := true, dirty := false }

def Pc.wakeup (i : BufId) : Pc → Pc
  | .waiting b asleep => .waiting b (asleep && b ≠ i)
  | pc => pc

/-- `ideintr`, with `data` at the data port. -/
def ideintr (s : State) (data : Block) : State :=
  match s.queue with
  | [] => { s with device := .idle }
  | i :: rest =>
    let s' : State :=
      { setBuf s i ((s.buf i).finish data) with
        queue := rest, pc := fun q => (s.pc q).wakeup i, device := .idle }
    match rest with
    | [] => s'
    | j :: _ =>
      match idestart (s'.buf j) with
      | .error e => { s with panic := some e }
      | .ok device => { s' with device := device }

inductive Label
  /-- `acquiresleep(&b->lock)` on a free buffer, and `releasesleep(&b->lock)` -/
  | acquiresleep (q : ProcId) (i : BufId)
  | releasesleep (q : ProcId) (i : BufId)
  /-- a process changes a buffer that it has locked -/
  | edit (q : ProcId) (i : BufId) (valid dirty : Bool) (dev blockno : Word) (data : Block)
  | iderw (q : ProcId) (i : BufId)
  /-- a process in `iderw` goes on after `sleep` -/
  | run (q : ProcId)
  /-- a process goes on after `iderw` -/
  | leave (q : ProcId)
  /-- the disk executes its command -/
  | disk
  | ideintr

/-- A process outside `iderw` does something with a buffer that it holds. -/
def withBuf (s : State) (q : ProcId) (i : BufId) (x : Buf) : Option State :=
  match s.pc q with
  | .user => if (s.buf i).lock = some q then some (setBuf s i x) else none
  | _ => none

def liveStep (s : State) : Label → Option State
  | .acquiresleep q i =>
    match s.pc q with
    | .user =>
      if (s.buf i).lock = none then some (setBuf s i { s.buf i with lock := some q }) else none
    | _ => none
  | .releasesleep q i => withBuf s q i { s.buf i with lock := none }
  | .edit q i valid dirty dev blockno data => withBuf s q i ⟨valid, dirty, dev, blockno, data, some q⟩
  | .iderw q i =>
    match s.pc q with
    | .user => some (iderw s q i)
    | _ => none
  | .run q =>
    match s.pc q with
    | .waiting i false =>
      some (setPc s q (if (s.buf i).clean then .returned i else .waiting i true))
    | _ => none
  | .leave q =>
    match s.pc q with
    | .returned _ => some (setPc s q .user)
    | _ => none
  | .disk =>
    match s.device with
    | .busy c => some { s with disk := (c.exec s.disk).1, device := .done (c.exec s.disk).2 }
    | _ => none
  | .ideintr =>
    match s.device with
    | .done data => some (ideintr s data)
    | _ => none

def step (s : State) (l : Label) : Option State := if s.panic = none then liveStep s l else none

/-- No requests: any disks, and buffers that nobody has locked. -/
structure Start (s : State) : Prop where
  lock : ∀ i, (s.buf i).lock = none
  queue : s.queue = []
  device : s.device = .idle
  pc : ∀ q, s.pc q = .user

/-- Empty disks, and buffers for block 5 of disk 1. -/
def emptyDisks : State where
  buf := fun _ => ⟨false, false, 1, 5, fun _ => 0, none⟩
  queue := []
  disk := fun _ _ _ => 0
  device := .idle
  pc := fun _ => .user
  havedisk1 := true
  panic := none

lemma start_emptyDisks : Start emptyDisks := ⟨fun _ => rfl, rfl, rfl, fun _ => rfl⟩

end Xv6.Ide
