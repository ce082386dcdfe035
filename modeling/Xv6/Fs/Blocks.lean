import Mathlib.Logic.Function.Basic
import Xv6.Fs.Format
import Xv6.Machine.Hoare

/-!
# Files over disk blocks

The allocator of blocks, the inodes with their block addresses, the contents of files and directories and
the path lookup of `fs.c`, over the bytes of the disk. A block has the contents that `bread` gives, and
`log_write` notes its number in the log of the transaction. The functions run one system call at a time,
without the locks.
-/

namespace Xv6.Blocks

open Machine
open Log (Block BSIZE)

def NINODE : Nat := 50
def NDEV : Nat := 10

abbrev EntryId := Nat
abbrev Name := List Byte

/-- `struct inode` -/
structure Inode where
  inum : Nat
  ref : Nat
  valid : Bool
  /-- the copy of the inode on the disk -/
  din : Dinode

/-- An entry of `devsw`, with what the functions of the device return. -/
structure Device where
  read : Word → Option (List Byte)
  write : (Nat → Byte) → Word → Option Word

structure State where
  sb : Superblock
  disk : Disk
  /-- `log.lh.block`, the blocks of the transaction -/
  logged : List Nat
  icache : EntryId → Inode
  devsw : Nat → Option Device

inductive Panic
  /-- `balloc: out of blocks` -/
  | outOfBlocks
  /-- `freeing free block` -/
  | freeing
  /-- `ialloc: no inodes` -/
  | noInodes
  /-- `iget: no inodes` -/
  | noEntries
  | ilock
  /-- `ilock: no type` -/
  | noType
  | iunlock
  /-- `bmap: out of range` -/
  | outOfRange
  /-- `dirlookup not DIR` -/
  | notDir
  /-- `dirlookup read` and `dirlink read` -/
  | read
  | dirlink
  /-- `unlink: nlink < 1` -/
  | nlink
  /-- `isdirempty: readi` -/
  | isdirempty
  /-- `unlink: writei` -/
  | writei
  /-- `create dots` -/
  | dots
  /-- `create: dirlink` -/
  | createDirlink
  deriving DecidableEq

abbrev Op := StateT State (Except Panic)

/-! ### Blocks -/

def bread (b : Nat) : Op Block := do
  let s ← get
  pure (s.disk b)

/-- The state after a block has been changed and given to `log_write`. -/
def logBlock (s : State) (b : Nat) (f : Block → Block) : State :=
  { s with
    disk := setBlock s.disk b (f (s.disk b))
    logged := if b ∈ s.logged then s.logged else s.logged ++ [b] }

/-- A change of the buffer of block `b`, and `log_write`. -/
def logWrite (b : Nat) (f : Block → Block) : Op Unit := modify fun s => logBlock s b f

def bzero (b : Nat) : Op Unit := logWrite b fun _ _ => 0

def freeBlock (s : State) : Option Nat :=
  (List.range s.sb.size).find? fun b => !used s.sb s.disk b

def balloc : Op Nat := do
  let s ← get
  match freeBlock s with
  | none => throw .outOfBlocks
  | some b => do
    logWrite (s.sb.BBLOCK b) fun bp => markUsed bp (b % BPB)
    bzero b
    pure b

def bfree (b : Nat) : Op Unit := do
  let s ← get
  if used s.sb s.disk b then logWrite (s.sb.BBLOCK b) fun bp => markFree bp (b % BPB)
  else throw .freeing

/-! ### Inodes -/

def setEntry (s : State) (e : EntryId) (x : Inode) : State :=
  { s with icache := Function.update s.icache e x }

def modifyEntry (e : EntryId) (f : Inode → Inode) : Op Unit :=
  modify fun s => setEntry s e (f (s.icache e))

/-- A change of the fields of `ip` that are copied from the disk. -/
def modifyDin (e : EntryId) (f : Dinode → Dinode) : Op Unit :=
  modifyEntry e fun x => { x with din := f x.din }

def iupdate (e : EntryId) : Op Unit := do
  let s ← get
  let ip := s.icache e
  logWrite (s.sb.IBLOCK ip.inum) fun bp => putDinode bp (ip.inum % IPB) ip.din

def iget (inum : Nat) : Op EntryId := do
  let s ← get
  match (List.range NINODE).find? fun e => 0 < (s.icache e).ref ∧ (s.icache e).inum = inum with
  | some e => do
    modifyEntry e fun x => { x with ref := x.ref + 1 }
    pure e
  | none =>
    -- recycle an entry
    match (List.range NINODE).find? fun e => (s.icache e).ref = 0 with
    | some e => do
      modifyEntry e fun x => { x with inum := inum, ref := 1, valid := false }
      pure e
    | none => throw .noEntries

def idup (e : EntryId) : Op EntryId := do
  modifyEntry e fun x => { x with ref := x.ref + 1 }
  pure e

def ialloc (type : Short) : Op EntryId := do
  let s ← get
  match (List.range s.sb.ninodes).find? fun i => 1 ≤ i ∧ (dinodes s.sb s.disk i).type = 0 with
  | none => throw .noInodes
  | some i => do
    logWrite (s.sb.IBLOCK i) fun bp => putDinode bp (i % IPB) { Dinode.zero with type := type }
    iget i

/-- `ilock` without the lock. -/
def ilock (e : EntryId) : Op Unit := do
  let s ← get
  let ip := s.icache e
  if ip.ref < 1 then throw .ilock
  else if ip.valid then pure ()
  else do
    let d := dinodes s.sb s.disk ip.inum
    modifyEntry e fun x => { x with din := d, valid := true }
    if d.type = 0 then throw .noType else pure ()

/-! ### Contents -/

/-- The block of a direct address, allocated if there is none. -/
def bmapAddr (e : EntryId) (k : Nat) : Op Nat := do
  let s ← get
  let addr := (s.icache e).din.addr k
  if addr = 0 then do
    let b ← balloc
    modifyDin e fun d => d.setAddr k (BitVec.ofNat 32 b)
    pure b
  else pure addr.toNat

/-- Entry `k` of the indirect block `a`, allocated if there is none. -/
def bmapEntry (a k : Nat) : Op Nat := do
  let bp ← bread a
  if bp.getInt k = 0 then do
    let b ← balloc
    logWrite a fun bp => bp.putInt k (BitVec.ofNat 32 b)
    pure b
  else pure (bp.getInt k).toNat

def bmap (e : EntryId) (bn : Nat) : Op Nat := do
  if bn < NDIRECT then bmapAddr e bn
  else if bn - NDIRECT < NINDIRECT then do
    let a ← bmapAddr e NDIRECT
    bmapEntry a (bn - NDIRECT)
  else throw .outOfRange

/-- The loop of `itrunc` over the direct blocks. -/
def truncDirect (e : EntryId) : List Nat → Op Unit
  | [] => pure ()
  | i :: is => do
    let s ← get
    let addr := (s.icache e).din.addr i
    if addr = 0 then truncDirect e is
    else do
      bfree addr.toNat
      modifyDin e fun d => d.setAddr i 0
      truncDirect e is

/-- The loop of `itrunc` over the entries of the indirect block `a`. -/
def truncEntries (a : Nat) : List Nat → Op Unit
  | [] => pure ()
  | j :: js => do
    let bp ← bread a
    if bp.getInt j = 0 then truncEntries a js
    else do
      bfree (bp.getInt j).toNat
      truncEntries a js

def truncIndirect (e : EntryId) : Op Unit := do
  let s ← get
  let addr := (s.icache e).din.addr NDIRECT
  if addr = 0 then pure ()
  else do
    truncEntries addr.toNat (List.range NINDIRECT)
    bfree addr.toNat
    modifyDin e fun d => d.setAddr NDIRECT 0

def itrunc (e : EntryId) : Op Unit := do
  truncDirect e (List.range NDIRECT)
  truncIndirect e
  modifyDin e fun d => { d with size := 0 }
  iupdate e

/-- `iput` frees an inode without links and without other references. -/
def ifree (e : EntryId) : Op Unit := do
  let s ← get
  let ip := s.icache e
  if ip.valid ∧ ip.din.nlink = 0 ∧ ip.ref = 1 then do
    itrunc e
    modifyDin e fun d => { d with type := 0 }
    iupdate e
    modifyEntry e fun x => { x with valid := false }
  else pure ()

def iput (e : EntryId) : Op Unit := do
  ifree e
  modifyEntry e fun x => { x with ref := x.ref - 1 }

/-- The bytes `[o, o + m)` of a block. -/
def slice (bp : Block) (o m : Nat) : List Byte := (List.range m).map fun j => bp.byte (o + j)

/-- How many bytes the loops of `readi` and `writei` copy at once. -/
def span (off n : Nat) : Nat := min n (BSIZE - off % BSIZE)

/-- The loop of `readi`; it copies at least one byte each time. -/
def readLoop (e : EntryId) : Nat → Nat → Nat → Op (List Byte)
  | 0, _, _ => pure []
  | fuel + 1, off, n =>
    if n = 0 then pure []
    else do
      let b ← bmap e (off / BSIZE)
      let bp ← bread b
      let m := span off n
      let rest ← readLoop e fuel (off + m) (n - m)
      pure (slice bp (off % BSIZE) m ++ rest)

/-- `devsw[ip->major]`, where `major` is signed. -/
def device (s : State) (d : Dinode) : Option Device :=
  if d.major.toInt < 0 ∨ (NDEV : Int) ≤ d.major.toInt then none else s.devsw d.major.toNat

/-- `readi`: the bytes that are read, or nothing for the result -1. -/
def readi (e : EntryId) (off n : Word) : Op (Option (List Byte)) := do
  let s ← get
  let d := (s.icache e).din
  if d.type = T_DEV then
    match device s d with
    | none => pure none
    | some dev => pure (dev.read n)
  else if d.size < off ∨ off + n < off then pure none
  else do
    let n := if d.size < off + n then d.size - off else n
    let data ← readLoop e n.toNat off.toNat n.toNat
    pure (some data)

/-- The loop of `writei`. -/
def writeLoop (e : EntryId) : Nat → (Nat → Byte) → Nat → Nat → Op Unit
  | 0, _, _, _ => pure ()
  | fuel + 1, src, off, n =>
    if n = 0 then pure ()
    else do
      let b ← bmap e (off / BSIZE)
      let m := span off n
      logWrite b fun bp => bp.overwrite (off % BSIZE) m src
      writeLoop e fuel (fun j => src (m + j)) (off + m) (n - m)

/-- `writei`: `n`, or nothing for the result -1. -/
def writei (e : EntryId) (src : Nat → Byte) (off n : Word) : Op (Option Word) := do
  let s ← get
  let d := (s.icache e).din
  if d.type = T_DEV then
    match device s d with
    | none => pure none
    | some dev => pure (dev.write src n)
  else if d.size < off ∨ off + n < off then pure none
  else if BitVec.ofNat 32 (MAXFILE * BSIZE) < off + n then pure none
  else do
    writeLoop e n.toNat src off.toNat n.toNat
    let s ← get
    if 0 < n ∧ (s.icache e).din.size < off + n then do
      modifyDin e fun d => { d with size := off + n }
      iupdate e
      pure (some n)
    else pure (some n)

/-! ### Directories -/

/-- A string that ends before its first zero byte. -/
def cstr (name : Name) (i : Nat) : Byte := name.getD i 0

def strncmpEq (p q : Nat → Byte) : Nat → Bool
  | 0 => true
  | n + 1 =>
    if p 0 ≠ 0 ∧ p 0 = q 0 then strncmpEq (fun i => p (i + 1)) (fun i => q (i + 1)) n
    else p 0 = q 0

/-- `namecmp(name, de.name) == 0` -/
def namecmpEq (name : Name) (de : Dirent) : Bool :=
  strncmpEq (cstr name) (fun i => if h : i < DIRSIZ then de.name ⟨i, h⟩ else 0) DIRSIZ

/-- `readi(dp, &de, off, sizeof(de))`, where fewer bytes are a panic. -/
def readDirent (dp : EntryId) (off : Nat) (p : Panic) : Op Dirent := do
  match ← readi dp (BitVec.ofNat 32 off) (BitVec.ofNat 32 direntSize) with
  | none => throw p
  | some data =>
    if data.length = direntSize then pure (.ofBytes fun j => data.getD j 0)
    else throw p

/-- `writei(dp, &de, off, sizeof(de))`, where any other result is a panic. -/
def writeDirent (dp : EntryId) (off : Nat) (de : Dirent) (p : Panic) : Op Unit := do
  let r ← writei dp de.bytes (BitVec.ofNat 32 off) (BitVec.ofNat 32 direntSize)
  if r = some (BitVec.ofNat 32 direntSize) then pure () else throw p

/-- How many entries the loops over a directory visit. -/
def direntCount (d : Dinode) : Nat := (d.size.toNat + direntSize - 1) / direntSize

/-- The loop of `dirlookup`: the position and the inode of the first entry with the name. -/
def lookupLoop (dp : EntryId) (name : Name) : List Nat → Op (Option (Nat × Nat))
  | [] => pure none
  | i :: is => do
    let de ← readDirent dp (direntSize * i) .read
    if de.inum = 0 then lookupLoop dp name is
    else if namecmpEq name de then pure (some (direntSize * i, de.inum.toNat))
    else lookupLoop dp name is

/-- `dirlookup`: the inode, and the byte offset of the entry. -/
def dirlookup (dp : EntryId) (name : Name) : Op (Option (EntryId × Nat)) := do
  let s ← get
  let d := (s.icache dp).din
  if d.type ≠ T_DIR then throw .notDir
  else
    match ← lookupLoop dp name (List.range (direntCount d)) with
    | none => pure none
    | some (off, inum) => do
      let ip ← iget inum
      pure (some (ip, off))

/-- The loop of `dirlink`: the offset of the first empty entry, or the end. -/
def emptyLoop (dp : EntryId) (last : Nat) : List Nat → Op Nat
  | [] => pure last
  | i :: is => do
    let de ← readDirent dp (direntSize * i) .read
    if de.inum = 0 then pure (direntSize * i) else emptyLoop dp last is

/-- The entry that `dirlink` writes; `strncpy` pads the name with zeros. -/
def newDirent (name : Name) (inum : Nat) : Dirent := ⟨BitVec.ofNat 16 inum, fun i => cstr name i.val⟩

/-- `dirlink`; `false` if the name is there already. -/
def dirlink (dp : EntryId) (name : Name) (inum : Nat) : Op Bool := do
  match ← dirlookup dp name with
  | some (ip, _) => do
    iput ip
    pure false
  | none => do
    let s ← get
    let n := direntCount (s.icache dp).din
    let off ← emptyLoop dp (direntSize * n) (List.range n)
    writeDirent dp off (newDirent name inum) .dirlink
    pure true

/-! ### Paths -/

def slash : Byte := 0x2f

/-- `skipelem`: the first element of the path, and the path after it. -/
def skipelem (path : List Byte) : Option (Name × List Byte) :=
  match path.dropWhile (· = slash) with
  | [] => none
  | c :: cs =>
    some (((c :: cs).takeWhile (· ≠ slash)).take DIRSIZ,
      ((c :: cs).dropWhile (· ≠ slash)).dropWhile (· = slash))

/-- The elements that the loop of `namex` takes off the path. -/
def elems : Nat → List Byte → List Name
  | 0, _ => []
  | n + 1, path =>
    match skipelem path with
    | none => []
    | some (name, rest) => name :: elems n rest

def iunlockput (e : EntryId) : Op Unit := iput e

def namexLoop (parent : Bool) (ip : EntryId) : List Name → Op (Option (EntryId × Name))
  | [] =>
    if parent then do
      iput ip
      pure none
    else pure (some (ip, []))
  | name :: rest => do
    ilock ip
    let s ← get
    if (s.icache ip).din.type ≠ T_DIR then do
      iunlockput ip
      pure none
    else if parent ∧ rest = [] then pure (some (ip, name))
    else
      match ← dirlookup ip name with
      | none => do
        iunlockput ip
        pure none
      | some (next, _) => do
        iunlockput ip
        namexLoop parent next rest

/-- `namex` for a process with the current directory `cwd`. -/
def namex (cwd : EntryId) (path : List Byte) (parent : Bool) : Op (Option (EntryId × Name)) := do
  let ip ← if path.head? = some slash then iget ROOTINO else idup cwd
  namexLoop parent ip (elems path.length path)

def namei (cwd : EntryId) (path : List Byte) : Op (Option EntryId) := do
  let r ← namex cwd path false
  pure (r.map Prod.fst)

def nameiparent (cwd : EntryId) (path : List Byte) : Op (Option (EntryId × Name)) :=
  namex cwd path true

end Xv6.Blocks
