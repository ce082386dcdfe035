import Xv6.Machine.Bytes
import Xv6.Machine.RedoLog
import Xv6.Machine.Run

/-!
# The log of `log.c`

The state of the disk, of the buffer cache as far as the log needs it, and of the log, and the
steps of the operations (`begin_op`, `log_write`, `end_op`), of the process inside `commit` and of
the one inside `recover_from_log`. Each write of a disk block is one step, and so is each critical
section under `log.lock`; the test at the top of `log_write` is outside the lock and is a step of
its own. A crash may strike between any two steps.
-/

namespace Xv6.Log

open Machine

/-! ### Sizes and disk layout -/

/-- `BSIZE` of `fs.h`. -/
def BSIZE : Nat := 512

/-- `MAXOPBLOCKS` of `param.h`: the blocks any one operation writes. -/
def MAXOPBLOCKS : Nat := 10

/-- `LOGSIZE` of `param.h`: data blocks in the on-disk log. -/
def LOGSIZE : Nat := MAXOPBLOCKS * 3

abbrev Block := Bytes BSIZE
abbrev BlockNo := Word
abbrev Disk := BlockNo → Block
abbrev OpId := Nat

/-- What `initlog` takes from the superblock: `log.start` and `log.size`. The header array has
    `LOGSIZE` entries, so a log area of more than that and the header block is never used. -/
structure Layout where
  start : Nat
  size : Nat
  size_pos : 0 < size
  in_range : start + size ≤ 0x100000000
  fits : size ≤ LOGSIZE + 1

/-- Block `i` of the log area; block 0 is the header. -/
def Layout.addr (L : Layout) (i : Nat) : BlockNo := BitVec.ofNat 32 (L.start + i)

/-- The blocks of the log area, `[start, start + size)`. -/
def Layout.InLog (L : Layout) (b : BlockNo) : Prop :=
  L.start ≤ b.toNat ∧ b.toNat < L.start + L.size

/-- A block outside the log area. -/
def Layout.Home (L : Layout) (b : BlockNo) : Prop := ¬ L.InLog b

instance (L : Layout) (b : BlockNo) : Decidable (L.InLog b) :=
  inferInstanceAs (Decidable (_ ∧ _))

instance (L : Layout) (b : BlockNo) : Decidable (L.Home b) :=
  inferInstanceAs (Decidable (¬ _))

/-- The layout `mkfs` writes: `nlog = LOGSIZE` and `sb.logstart = 2`. -/
def mkfsLayout : Layout where
  start := 2
  size := LOGSIZE
  size_pos := by decide
  in_range := by decide
  fits := by decide

/-! ### The log header -/

/-- The loop of `write_head`: `hb->block[i] = log.lh.block[i]`. -/
def putBlocks (hb : Block) : Nat → List BlockNo → Block
  | _, [] => hb
  | i, b :: bs => putBlocks (hb.putInt (i + 1) b) (i + 1) bs

/-- The header block that `write_head` writes; what stood past the entries stays. -/
def headOf (hb : Block) (lh : List BlockNo) : Block :=
  putBlocks (hb.putInt 0 (BitVec.ofNat 32 lh.length)) 0 lh

/-- The entries that `read_head` takes from a header block. `n` is a signed integer. -/
def entriesOf (hb : Block) : List BlockNo :=
  (List.range (hb.getInt 0).toInt.toNat).map fun i => hb.getInt (i + 1)

/-! ### States -/

/-- A cached block: `b->data` and whether `B_DIRTY` is set. -/
structure Buf where
  data : Block
  dirty : Bool

/-- Where the process in `commit` or in `recover_from_log` is. -/
inductive Pc
  | idle
  | commit
  | writeLog (tail : Nat)
  | writeHead
  | installTrans (tail : Nat)
  | clearHead
  | endCommit
  | readHead
  | recInstallTrans (tail : Nat)
  | recClearHead
  deriving DecidableEq

/-- Inside `recover_from_log`. -/
def Pc.recovering : Pc → Bool
  | .readHead | .recInstallTrans _ | .recClearHead => true
  | _ => false

/-- The panics of `log.c`. -/
inductive Panic
  | tooBig
  | outsideTrans
  | logCommitting
  deriving DecidableEq

/-- The text that `panic` prints. -/
def Panic.message : Panic → String
  | .tooBig => "too big a transaction"
  | .outsideTrans => "log_write outside of trans"
  | .logCommitting => "log.committing"

/-- One completed call of `log_write`: the operation, the block and its contents. -/
structure Record where
  op : OpId
  blockno : BlockNo
  data : Block

def Record.write (r : Record) : BlockNo × Block := (r.blockno, r.data)

structure State where
  disk : Disk
  /-- the blocks in the buffer cache -/
  cache : BlockNo → Option Buf
  /-- buffers whose sleep-lock an operation holds -/
  held : List (BlockNo × OpId)
  /-- buffers changed since their last `log_write` -/
  changed : List BlockNo
  /-- `log.lh.block[0 .. log.lh.n)` -/
  lh : List BlockNo
  outstanding : Nat
  committing : Bool
  pc : Pc
  /-- calls of `log_write` between the test at the top and the critical section -/
  logging : OpId → Option BlockNo
  panic : Option Panic
  /-- the operations between `begin_op` and `end_op` -/
  active : List OpId
  -- What follows is history: no step reads it.
  nextOp : OpId
  /-- the calls of `log_write` since the last commit -/
  calls : List (OpId × BlockNo)
  /-- the completed calls since the last commit -/
  group : List Record
  /-- the groups whose commit has finished its first `write_head` -/
  commits : List (List Record)
  records : List Record

/-- The machine when `recover_from_log` is about to start, over a disk with the given history. -/
def boot (disk : Disk) : State where
  disk := disk
  cache := fun _ => none
  held := []
  changed := []
  lh := []
  outstanding := 0
  committing := false
  pc := .readHead
  logging := fun _ => none
  panic := none
  active := []
  nextOp := 0
  calls := []
  group := []
  commits := []
  records := []

/-- A crash loses everything but the disk. -/
def crash (s : State) : State :=
  { boot s.disk with nextOp := s.nextOp, commits := s.commits, records := s.records }

/-! ### Buffers -/

/-- `bread`: the cached contents, or those on disk. -/
def bread (s : State) (b : BlockNo) : Block :=
  match s.cache b with
  | some buf => buf.data
  | none => s.disk b

/-- The cache after `bread`. -/
def load (s : State) (b : BlockNo) : State :=
  match s.cache b with
  | some _ => s
  | none => { s with cache := Function.update s.cache b (some ⟨s.disk b, false⟩) }

/-- `bwrite`: write the block, which also clears `B_DIRTY`. -/
def bwrite (s : State) (b : BlockNo) (d : Block) : State :=
  { s with
    disk := Function.update s.disk b d
    cache := Function.update s.cache b (some ⟨d, false⟩) }

/-! ### Operations -/

/-- The critical section of `begin_op`; `none` is the `sleep`. -/
def beginOp (s : State) : Option State :=
  if s.committing then none
  else if s.lh.length + (s.outstanding + 1) * MAXOPBLOCKS > LOGSIZE then none
  else some
    { s with
      outstanding := s.outstanding + 1
      active := s.nextOp :: s.active
      nextOp := s.nextOp + 1 }

/-- An operation takes the buffer of a block. Operations use blocks outside the log area only:
    inodes, the bitmap and data blocks. -/
def opBread (L : Layout) (s : State) (o : OpId) (b : BlockNo) : Option State :=
  if o ∈ s.active ∧ s.logging o = none ∧ L.Home b ∧ ∀ x ∈ s.held, x.1 ≠ b then
    some { load s b with held := (b, o) :: s.held }
  else none

/-- An operation changes a buffer it holds. -/
def modify (s : State) (o : OpId) (b : BlockNo) (d : Block) : Option State :=
  match s.cache b with
  | none => none
  | some buf =>
    if (b, o) ∈ s.held ∧ s.logging o = none then
      some
        { s with
          cache := Function.update s.cache b (some { buf with data := d })
          changed := b :: s.changed }
    else none

/-- The two tests at the top of `log_write`, outside `log.lock`. -/
def logWriteCheck (L : Layout) (s : State) (o : OpId) (b : BlockNo) : Option State :=
  if (b, o) ∈ s.held ∧ s.logging o = none then
    if s.lh.length ≥ LOGSIZE ∨ s.lh.length + 1 ≥ L.size then
      some { s with panic := some .tooBig, calls := s.calls ++ [(o, b)] }
    else if s.outstanding < 1 then
      some { s with panic := some .outsideTrans, calls := s.calls ++ [(o, b)] }
    else some
      { s with
        logging := Function.update s.logging o (some b)
        calls := s.calls ++ [(o, b)] }
  else none

/-- The loop of `log_write`: absorb a block that is logged already, else append it. -/
def absorb : List BlockNo → BlockNo → List BlockNo
  | [], b => [b]
  | x :: xs, b => if x = b then b :: xs else x :: absorb xs b

/-- The critical section of `log_write`. -/
def logWrite (s : State) (o : OpId) (b : BlockNo) : Option State :=
  match s.cache b with
  | none => none
  | some buf =>
    if s.logging o = some b then
      some
        { s with
          lh := absorb s.lh b
          cache := Function.update s.cache b (some { buf with dirty := true })
          changed := s.changed.filter (· ≠ b)
          logging := Function.update s.logging o none
          group := s.group ++ [⟨o, b, buf.data⟩]
          records := s.records ++ [⟨o, b, buf.data⟩] }
    else none

/-- `brelse` of a buffer whose changes are all logged. -/
def brelse (s : State) (o : OpId) (b : BlockNo) : Option State :=
  if (b, o) ∈ s.held ∧ s.logging o = none ∧ b ∉ s.changed then
    some { s with held := s.held.filter (· ≠ (b, o)) }
  else none

/-- The critical section of `end_op`. -/
def endOp (s : State) (o : OpId) : Option State :=
  if o ∈ s.active ∧ s.logging o = none ∧ ∀ x ∈ s.held, x.2 ≠ o then
    if s.committing then some
      { s with
        outstanding := s.outstanding - 1
        active := s.active.erase o
        panic := some .logCommitting }
    else if s.outstanding - 1 = 0 then some
      { s with
        outstanding := s.outstanding - 1
        active := s.active.erase o
        committing := true
        pc := .commit }
    else some { s with outstanding := s.outstanding - 1, active := s.active.erase o }
  else none

/-! ### Commit and recovery -/

/-- The next step of the process in `commit` or in `recover_from_log`. -/
def proceed (L : Layout) (s : State) : Option State :=
  match s.pc with
  | .idle => none
  | .commit => some { s with pc := if s.lh.length > 0 then .writeLog 0 else .endCommit }
  | .writeLog tail =>
    match s.lh[tail]? with
    | some b => some { bwrite (load s b) (L.addr (tail + 1)) (bread s b) with
        pc := .writeLog (tail + 1) }
    | none => some { s with pc := .writeHead }
  | .writeHead =>
    some { bwrite s (L.addr 0) (headOf (bread s (L.addr 0)) s.lh) with
      pc := .installTrans 0, calls := [], group := [], commits := s.commits ++ [s.group] }
  | .installTrans tail =>
    match s.lh[tail]? with
    | some b => some { bwrite (load s (L.addr (tail + 1))) b (bread s (L.addr (tail + 1))) with
        pc := .installTrans (tail + 1) }
    | none => some { s with lh := [], pc := .clearHead }
  | .clearHead =>
    some { bwrite s (L.addr 0) (headOf (bread s (L.addr 0)) s.lh) with pc := .endCommit }
  | .endCommit => some { s with committing := false, pc := .idle }
  | .readHead =>
    some { load s (L.addr 0) with
      lh := entriesOf (bread s (L.addr 0)), pc := .recInstallTrans 0 }
  | .recInstallTrans tail =>
    match s.lh[tail]? with
    | some b => some { bwrite (load s (L.addr (tail + 1))) b (bread s (L.addr (tail + 1))) with
        pc := .recInstallTrans (tail + 1) }
    | none => some { s with lh := [], pc := .recClearHead }
  | .recClearHead =>
    some { bwrite s (L.addr 0) (headOf (bread s (L.addr 0)) s.lh) with pc := .idle }

/-! ### The machine -/

inductive Label
  | beginOp
  | opBread (o : OpId) (b : BlockNo)
  | modify (o : OpId) (b : BlockNo) (d : Block)
  | logWriteCheck (o : OpId) (b : BlockNo)
  | logWrite (o : OpId) (b : BlockNo)
  | brelse (o : OpId) (b : BlockNo)
  | endOp (o : OpId)
  /-- the process in `commit` or `recover_from_log` -/
  | proceed
  /-- some other process reads a block into the cache -/
  | fill (b : BlockNo)
  /-- `bget` recycles the buffer of a block: not `B_DIRTY` and not in use -/
  | evict (b : BlockNo)
  | crash

/-- `bget` takes the buffer of `b` for another block. -/
def evict (s : State) (b : BlockNo) : Option State :=
  match s.cache b with
  | none => none
  | some buf =>
    if buf.dirty = false ∧ ∀ x ∈ s.held, x.1 ≠ b then
      some { s with cache := Function.update s.cache b none }
    else none

/-- The steps of a machine that has not panicked. While the first process recovers the log there
    are no operations. -/
def liveStep (L : Layout) (s : State) : Label → Option State
  | .beginOp => if s.pc.recovering then none else beginOp s
  | .opBread o b => opBread L s o b
  | .modify o b d => modify s o b d
  | .logWriteCheck o b => logWriteCheck L s o b
  | .logWrite o b => logWrite s o b
  | .brelse o b => brelse s o b
  | .endOp o => endOp s o
  | .proceed => proceed L s
  | .fill b => some (load s b)
  | .evict b => evict s b
  | .crash => some (crash s)

/-- After a panic nothing happens but a reboot. -/
def step (L : Layout) (s : State) (l : Label) : Option State :=
  match s.panic, l with
  | _, .crash => some (crash s)
  | some _, _ => none
  | none, l => liveStep L s l

end Xv6.Log
