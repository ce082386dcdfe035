import Xv6.Fs.Blocks

/-!
# `mkfs`

The program that builds the file system image. The image is a file of `FSSIZE` blocks; a block past its end
cannot be read. An input file is its name and what the calls of `read` return for it, one buffer after
another. Numbers are stored in little-endian order by `xint` and `xshort`, whatever the host.
-/

namespace Xv6.Mkfs

open Machine
open Log (Block BSIZE LOGSIZE)
open Blocks (Disk Superblock Dinode Dirent NDIRECT MAXFILE IPB BPB ROOTINO T_DIR T_FILE dinodeSize
  direntSize setBlock getDinode putDinode markUsed newDirent span slash)

def FSSIZE : Nat := 1000
def NINODES : Nat := 200

def nbitmap : Nat := FSSIZE / (BSIZE * 8) + 1
def ninodeblocks : Nat := NINODES / IPB + 1
def nlog : Nat := LOGSIZE

/-- How many blocks come before the data blocks. -/
def nmeta : Nat := 2 + nlog + ninodeblocks + nbitmap

def sb : Superblock where
  size := FSSIZE
  nblocks := FSSIZE - nmeta
  ninodes := NINODES
  nlog := nlog
  logstart := 2
  inodestart := 2 + nlog
  bmapstart := 2 + nlog + ninodeblocks

structure State where
  image : Disk
  freeinode : Nat
  freeblock : Nat

/-- Why `mkfs` stops. -/
inductive Exit
  | assertion
  /-- `rsect` reads past the end of the image -/
  | read
  deriving DecidableEq

abbrev Build := StateT State (Except Exit)

def assert (c : Bool) : Build Unit := if c then pure () else throw .assertion

def wsect (sec : Nat) (buf : Block) : Build Unit :=
  modify fun s => { s with image := setBlock s.image sec buf }

def rsect (sec : Nat) : Build Block := do
  let s ← get
  if sec < FSSIZE then pure (s.image sec) else throw .read

def winode (inum : Nat) (din : Dinode) : Build Unit := do
  let buf ← rsect (sb.IBLOCK inum)
  wsect (sb.IBLOCK inum) (putDinode buf (inum % IPB) din)

def rinode (inum : Nat) : Build Dinode := do
  let buf ← rsect (sb.IBLOCK inum)
  pure (getDinode buf (inum % IPB))

def ialloc (type : Short) : Build Nat := do
  let s ← get
  let inum := s.freeinode
  set { s with freeinode := inum + 1 }
  winode inum { Dinode.zero with type := type, nlink := 1 }
  pure inum

/-- `freeblock++` -/
def newBlock : Build Nat := do
  let s ← get
  set { s with freeblock := s.freeblock + 1 }
  pure s.freeblock

/-- Address `k` of the inode, set to a new block if it is zero. -/
def ensureAddr (din : Dinode) (k : Nat) : Build Dinode := do
  if din.addr k = 0 then do
    let b ← newBlock
    pure (din.setAddr k (BitVec.ofNat 32 b))
  else pure din

/-- Entry `k` of the indirect block `a`, set to a new block if it is zero. -/
def ensureEntry (a k : Nat) : Build Nat := do
  let indirect ← rsect a
  if indirect.getInt k = 0 then do
    let b ← newBlock
    wsect a (indirect.putInt k (BitVec.ofNat 32 b))
    pure (BitVec.ofNat 32 b).toNat
  else pure (indirect.getInt k).toNat

/-- The inode, and the block `x` for block `fbn` of the file. -/
def fileBlock (din : Dinode) (fbn : Nat) : Build (Dinode × Nat) := do
  if fbn < NDIRECT then do
    let din ← ensureAddr din fbn
    pure (din, (din.addr fbn).toNat)
  else do
    let din ← ensureAddr din NDIRECT
    let x ← ensureEntry (din.addr NDIRECT).toNat (fbn - NDIRECT)
    pure (din, x)

/-- The loop of `iappend`; it copies at least one byte each time. The result is the inode and the offset. -/
def appendLoop : Nat → Dinode → (Nat → Byte) → Nat → Nat → Build (Dinode × Nat)
  | 0, din, _, off, _ => pure (din, off)
  | fuel + 1, din, p, off, n =>
    if n = 0 then pure (din, off)
    else do
      let fbn := off / BSIZE
      assert (fbn < MAXFILE)
      let (din, x) ← fileBlock din fbn
      let n1 := span off n
      let buf ← rsect x
      wsect x (buf.overwrite (off % BSIZE) n1 p)
      appendLoop fuel din (fun j => p (n1 + j)) (off + n1) (n - n1)

def iappend (inum : Nat) (p : Nat → Byte) (n : Nat) : Build Unit := do
  let din ← rinode inum
  let (din, off) ← appendLoop n din p din.size.toNat n
  winode inum { din with size := BitVec.ofNat 32 off }

/-- `balloc`: the bitmap with the first `used` blocks marked. -/
def balloc (used : Nat) : Build Unit := do
  assert (used < BSIZE * 8)
  wsect sb.bmapstart ((List.range used).foldl markUsed fun _ => 0)

/-- An input file. -/
structure Input where
  /-- `argv[i]` -/
  arg : List Byte
  arg_ne_zero : ∀ c ∈ arg, c ≠ 0
  /-- what the calls of `read` return, up to the end of the file -/
  reads : List (List Byte)
  reads_le : ∀ buf ∈ reads, 0 < buf.length ∧ buf.length ≤ BSIZE

def underscore : Byte := 0x5f

/-- The name in the image: one leading underscore is dropped. -/
def Input.name (f : Input) : List Byte :=
  if f.arg.head? = some underscore then f.arg.tail else f.arg

/-- The loop over the buffers of a file. -/
def appendAll (inum : Nat) : List (List Byte) → Build Unit
  | [] => pure ()
  | buf :: bufs => do
    iappend inum (fun j => buf.getD j 0) buf.length
    appendAll inum bufs

def addFile (f : Input) : Build Unit := do
  assert (!f.arg.contains slash)
  let inum ← ialloc T_FILE
  iappend ROOTINO (newDirent f.name inum).bytes direntSize
  appendAll inum f.reads

def addFiles : List Input → Build Unit
  | [] => pure ()
  | f :: fs => do
    addFile f
    addFiles fs

def dot : List Byte := [0x2e]
def dotdot : List Byte := [0x2e, 0x2e]

/-- The size of the root directory is rounded up to whole blocks. -/
def fixRoot : Build Unit := do
  let din ← rinode ROOTINO
  let off := (din.size.toNat / BSIZE + 1) * BSIZE
  winode ROOTINO { din with size := BitVec.ofNat 32 off }

/-- The blocks are zero but for the super block. -/
def emptyImage : Disk := fun sec => if sec = 1 then Bytes.overwrite (fun _ => 0) 0 28 sb.bytes else fun _ => 0

def start : State := ⟨emptyImage, 1, nmeta⟩

def build (files : List Input) : Build Unit := do
  let rootino ← ialloc T_DIR
  assert (rootino = ROOTINO)
  iappend rootino (newDirent dot rootino).bytes direntSize
  iappend rootino (newDirent dotdot rootino).bytes direntSize
  addFiles files
  fixRoot
  let s ← get
  balloc s.freeblock

/-- `main`: the image, if `mkfs` builds one. -/
def main (files : List Input) : Option Disk :=
  match build files start with
  | .ok (_, s) => some s.image
  | .error _ => none

end Xv6.Mkfs
