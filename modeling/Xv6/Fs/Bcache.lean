import Xv6.Driver.Ide
import Xv6.Machine.Links

/-!
# The buffer cache

`bio.c` on top of the disk driver. The buffers with their flags, sleep-locks and data are those of the
driver, and the calls of `iderw`, `acquiresleep` and `releasesleep` are its steps. A step is a critical
section under `bcache.lock`, or an action of a process on a buffer that it has locked.
-/

namespace Xv6.Bcache

open Machine
open Log (Block)
open Ide (ProcId BufId Buf Disk)

def NBUF : Nat := 30

/-- A `struct buf *`. -/
inductive Ptr
  | head
  | buf (i : BufId)
  deriving DecidableEq

inductive Panic
  /-- `bget: no buffers` -/
  | noBuffers
  | bwrite
  | brelse
  deriving DecidableEq

/-- Where a process is. The arguments of `bread` are kept until it returns. -/
inductive Pc
  /-- outside the functions of the cache, with any number of locked buffers -/
  | user
  /-- `bget` has released `bcache.lock` and calls `acquiresleep` -/
  | locking (dev blockno : Word) (i : BufId)
  /-- `bget` has returned to `bread` -/
  | checking (dev blockno : Word) (i : BufId)
  /-- in the `iderw` of `bread` -/
  | reading (dev blockno : Word) (i : BufId)
  /-- `bread` has returned -/
  | returned (dev blockno : Word) (i : BufId)
  /-- in the `iderw` of `bwrite` -/
  | writing (i : BufId)
  /-- `brelse` has released the sleep-lock -/
  | releasing (i : BufId)
  deriving DecidableEq

structure State where
  ide : Ide.State
  /-- at most one more than there are processes, so it does not overflow -/
  refcnt : BufId → Nat
  links : Links Ptr
  pc : ProcId → Pc
  panic : Option Panic

abbrev State.buf (s : State) (i : BufId) : Buf := s.ide.buf i

def setPc (s : State) (q : ProcId) (x : Pc) : State := { s with pc := Function.update s.pc q x }

def setRefcnt (s : State) (i : BufId) (n : Nat) : State :=
  { s with refcnt := Function.update s.refcnt i n }

/-! ### `binit` -/

def binitLoop (k : Links Ptr) : Nat → Links Ptr
  | 0 => k
  | n + 1 => (binitLoop k n).linkAfter .head (.buf n)

def binit : Links Ptr := binitLoop ⟨fun _ => .head, fun _ => .head⟩ NBUF

/-! ### `bget` -/

/-- A test of the loops of `bget`. -/
def test (t : BufId → Bool) : Ptr → Option BufId
  | .head => none
  | .buf i => Option.guard t i

def isBlock (s : State) (dev blockno : Word) (i : BufId) : Bool :=
  (s.buf i).dev = dev && (s.buf i).blockno = blockno

def unused (s : State) (i : BufId) : Bool := s.refcnt i = 0 && !(s.buf i).dirty

/-- `b->dev = dev; b->blockno = blockno; b->flags = 0` -/
def reset (b : Buf) (dev blockno : Word) : Buf :=
  { b with dev := dev, blockno := blockno, valid := false, dirty := false }

/-- The buffer is for another block now. -/
def recycle (s : State) (dev blockno : Word) (i : BufId) : State :=
  setRefcnt { s with ide := Ide.setBuf s.ide i (reset (s.buf i) dev blockno) } i 1

/-- `bget(dev, blockno)` up to `acquiresleep`; `none` if one of the loops does not end. -/
def bget (s : State) (q : ProcId) (dev blockno : Word) : Option State :=
  match scan s.links.next .head (test (isBlock s dev blockno)) (NBUF + 1) (s.links.next .head) with
  | none => none
  | some (some i) =>
    some (setPc (setRefcnt s i (s.refcnt i + 1)) q (.locking dev blockno i))
  | some none =>
    match scan s.links.prev .head (test (unused s)) (NBUF + 1) (s.links.prev .head) with
    | none => none
    | some (some i) => some (setPc (recycle s dev blockno i) q (.locking dev blockno i))
    | some none => some { s with panic := some .noBuffers }

/-! ### The steps -/

inductive Label
  /-- a process calls `bread(dev, blockno)` -/
  | bread (q : ProcId) (dev blockno : Word)
  | acquiresleep (q : ProcId)
  /-- `bread` looks at `B_VALID` and calls `iderw` if it is not set -/
  | check (q : ProcId)
  /-- a process in `iderw` goes on after `sleep`, and returns from it -/
  | run (q : ProcId)
  | leave (q : ProcId)
  /-- the caller of `bread` goes on -/
  | resume (q : ProcId)
  /-- a process changes the data of a buffer that it has locked -/
  | modify (q : ProcId) (i : BufId) (data : Block)
  | logWrite (q : ProcId) (i : BufId)
  | bwrite (q : ProcId) (i : BufId)
  /-- `brelse(b)` up to `releasesleep`, and its critical section -/
  | brelse (q : ProcId) (i : BufId)
  | unref (q : ProcId)
  /-- the disk executes its command -/
  | disk
  | ideintr

/-- A step of the driver, after which process `q` is at `x`. A panic stops it where it was. -/
def drive (s : State) (l : Ide.Label) (q : ProcId) (x : Pc) : Option State :=
  match Ide.step s.ide l with
  | none => none
  | some t =>
    if t.panic = none then some (setPc { s with ide := t } q x) else some { s with ide := t }

/-- A step of the driver in which no process of the cache moves. -/
def driveOnly (s : State) (l : Ide.Label) : Option State :=
  match Ide.step s.ide l with
  | none => none
  | some t => some { s with ide := t }

/-- The driver's step by which process `q` changes a buffer that it has locked. -/
def edit (q : ProcId) (i : BufId) (b : Buf) : Ide.Label :=
  .edit q i b.valid b.dirty b.dev b.blockno b.data

/-- `b->flags |= B_DIRTY` -/
def setDirty (s : State) (q : ProcId) (i : BufId) : Option State :=
  driveOnly s (edit q i { s.buf i with dirty := true })

/-- The effect of `log_write(b)` on the cache. The tests before it only depend on the log. -/
def logWrite (s : State) (q : ProcId) (i : BufId) : Option State := setDirty s q i

def bwrite (s : State) (q : ProcId) (i : BufId) : Option State :=
  if (s.buf i).lock ≠ some q then some { s with panic := some .bwrite }
  else
    match setDirty s q i with
    | none => none
    | some s => drive s (.iderw q i) q (.writing i)

def brelse (s : State) (q : ProcId) (i : BufId) : Option State :=
  if (s.buf i).lock ≠ some q then some { s with panic := some .brelse }
  else drive s (.releasesleep q i) q (.releasing i)

/-- The critical section of `brelse`. -/
def unref (s : State) (i : BufId) : State :=
  let s := setRefcnt s i (s.refcnt i - 1)
  if s.refcnt i = 0 then { s with links := (s.links.unlink (.buf i)).linkAfter .head (.buf i) } else s

def liveStep (s : State) : Label → Option State
  | .bread q dev blockno =>
    match s.pc q with
    | .user => bget s q dev blockno
    | _ => none
  | .acquiresleep q =>
    match s.pc q with
    | .locking dev blockno i => drive s (.acquiresleep q i) q (.checking dev blockno i)
    | _ => none
  | .check q =>
    match s.pc q with
    | .checking dev blockno i =>
      if (s.buf i).valid then some (setPc s q (.returned dev blockno i))
      else drive s (.iderw q i) q (.reading dev blockno i)
    | _ => none
  | .run q => driveOnly s (.run q)
  | .leave q =>
    match s.pc q with
    | .reading dev blockno i => drive s (.leave q) q (.returned dev blockno i)
    | .writing _ => drive s (.leave q) q .user
    | _ => none
  | .resume q =>
    match s.pc q with
    | .returned _ _ _ => some (setPc s q .user)
    | _ => none
  | .modify q i data =>
    match s.pc q with
    | .user => driveOnly s (edit q i { s.buf i with data := data })
    | _ => none
  | .logWrite q i =>
    match s.pc q with
    | .user => logWrite s q i
    | _ => none
  | .bwrite q i =>
    match s.pc q with
    | .user => bwrite s q i
    | _ => none
  | .brelse q i =>
    match s.pc q with
    | .user => brelse s q i
    | _ => none
  | .unref q =>
    match s.pc q with
    | .releasing i => some (setPc (unref s i) q .user)
    | _ => none
  | .disk => driveOnly s .disk
  | .ideintr => driveOnly s .ideintr

def step (s : State) (l : Label) : Option State := if s.panic = none then liveStep s l else none

/-- After `binit`, with any disks. -/
def boot (disk : Nat → Disk) (havedisk1 : Bool) : State where
  ide :=
    { buf := fun _ => ⟨false, false, 0, 0, fun _ => 0, none⟩
      queue := []
      disk := disk
      device := .idle
      pc := fun _ => .user
      havedisk1 := havedisk1
      panic := none }
  refcnt := fun _ => 0
  links := binit
  pc := fun _ => .user
  panic := none

/-! ### What was stored -/

/-- The block on the disk that the driver selects by the low bit of `dev`. -/
def onDisk (disk : Nat → Disk) (dev blockno : Word) : Block := disk (dev.toNat % 2) blockno.toNat

structure Hist where
  /-- what was last stored for a block with `log_write` or `bwrite`, and what was on the disk before -/
  contents : Word → Word → Block
  /-- the data was changed and neither `log_write` nor `bwrite` was called since -/
  unsaved : BufId → Bool
  /-- the devices that `bread` was called for -/
  devs : List Word

def Hist.zero (disk : Nat → Disk) : Hist :=
  ⟨onDisk disk, fun _ => false, []⟩

def Hist.store (h : Hist) (i : BufId) (b : Buf) : Hist :=
  { h with
    contents := fun dev blockno =>
      if dev = b.dev ∧ blockno = b.blockno then b.data else h.contents dev blockno
    unsaved := Function.update h.unsaved i false }

def nextHist (s : State) (l : Label) (_ : State) (h : Hist) : Hist :=
  match l with
  | .bread _ dev _ => { h with devs := dev :: h.devs }
  | .modify _ i _ => { h with unsaved := Function.update h.unsaved i true }
  | .logWrite _ i => h.store i (s.buf i)
  | .bwrite q i => if (s.buf i).lock = some q then h.store i (s.buf i) else h
  | _ => h

/-- The buffers that a process changes are stored before they are released. -/
def Saves (x : State × Hist) : Label → Prop
  | .brelse _ i => x.2.unsaved i = false
  | _ => True

instance (x : State × Hist) : (l : Label) → Decidable (Saves x l)
  | .brelse _ _ => inferInstanceAs (Decidable (_ = false))
  | .bread .. | .acquiresleep _ | .check _ | .run _ | .leave _ | .resume _ | .modify .. | .logWrite ..
  | .bwrite .. | .unref _ | .disk | .ideintr => isTrue trivial

/-- No other device number was used for the disk of `dev`. -/
def Hist.Sole (h : Hist) (dev : Word) : Prop :=
  ∀ d ∈ h.devs, d.toNat % 2 = dev.toNat % 2 → d = dev

end Xv6.Bcache
