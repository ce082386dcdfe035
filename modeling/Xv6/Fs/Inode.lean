import Mathlib.Logic.Function.Basic
import Xv6.Machine.Bytes

/-!
# Inodes and names

The inode cache, the directories and the path lookup of `fs.c`, with the tables of open files and of
processes that refer to inodes. The functions run one system call at a time: a sleep-lock is a flag, and
a process that waits for a lock that it holds itself never goes on.

The inode cache is write-through, so the fields of a valid entry are those of the inode on the disk. The
contents of a directory are the list of its entries. The device of every inode is the root device.
-/

namespace Xv6.Fs

open Machine

def NINODE : Nat := 50
def NFILE : Nat := 100
def NOFILE : Nat := 16
def NPROC : Nat := 64
def ROOTDEV : Word := 1
def ROOTINO : Nat := 1
def DIRSIZ : Nat := 14

/-- How many entries a file of `MAXFILE` blocks has room for. -/
def MAXDIRENT : Nat := (12 + 512 / 4) * 512 / 16

abbrev EntryId := Nat
abbrev FileId := Nat
abbrev PipeId := Nat
abbrev ProcId := Nat
abbrev Name := List Char

inductive FileType
  /-- not allocated -/
  | free
  | dir
  | file
  | dev
  deriving DecidableEq

/-- `struct dirent`; the entry is empty if `inum` is 0. -/
structure Dirent where
  inum : Nat
  name : Name
  deriving DecidableEq

/-- An inode on the disk, with the entries of a directory as its contents. The disk has room for fewer
    than `2^15` entries, so that `nlink` does not overflow. -/
structure Inode where
  type : FileType
  nlink : Int
  entries : List Dirent

/-- `struct inode` -/
structure Ientry where
  dev : Word
  inum : Nat
  ref : Nat
  valid : Bool
  /-- the sleep-lock is held by the running process -/
  locked : Bool

inductive FdType
  | none
  | pipe
  | inode
  deriving DecidableEq

/-- `struct file` -/
structure File where
  type : FdType
  ref : Nat
  writable : Bool
  pipe : PipeId
  ip : EntryId

structure Pipe where
  readopen : Bool
  writeopen : Bool

inductive ProcState
  | unused
  | embryo
  | live
  | zombie
  deriving DecidableEq

structure Proc where
  state : ProcState
  ofile : Nat → Option FileId
  cwd : Option EntryId

structure State where
  /-- `sb.ninodes` -/
  ninodes : Nat
  inode : Nat → Inode
  icache : EntryId → Ientry
  file : FileId → File
  /-- the pages that hold a pipe -/
  pipe : PipeId → Option Pipe
  proc : ProcId → Proc

inductive Panic
  | filedup
  | fileclose
  /-- `iget: no inodes` -/
  | noEntries
  /-- `ialloc: no inodes` -/
  | noInodes
  | ilock
  /-- `ilock: no type` -/
  | noType
  | iunlock
  /-- `dirlookup not DIR` -/
  | notDir
  | dirlink
  /-- `unlink: nlink < 1` -/
  | nlink
  /-- `create dots` -/
  | dots
  /-- `create: dirlink` -/
  | createDirlink
  /-- `init exiting` -/
  | initExiting
  deriving DecidableEq

/-- Why a system call does not return. -/
inductive Stop
  | panic (p : Panic)
  /-- the process waits for a sleep-lock that it holds -/
  | deadlock
  /-- a null pointer is followed -/
  | fault
  deriving DecidableEq

abbrev Call := StateT State (Except Stop)

def panic {α : Type} (p : Panic) : Call α := throw (.panic p)

/-! ### Entries of the inode cache -/

def State.at (s : State) (e : EntryId) : Inode := s.inode (s.icache e).inum

def setEntry (s : State) (e : EntryId) (x : Ientry) : State :=
  { s with icache := Function.update s.icache e x }

def setInode (s : State) (inum : Nat) (x : Inode) : State :=
  { s with inode := Function.update s.inode inum x }

def modifyEntry (e : EntryId) (f : Ientry → Ientry) : Call Unit :=
  modify fun s => setEntry s e (f (s.icache e))

def iupdate (e : EntryId) (f : Inode → Inode) : Call Unit :=
  modify fun s => setInode s (s.icache e).inum (f (s.at e))

def acquiresleep (e : EntryId) : Call Unit := do
  let s ← get
  if (s.icache e).locked then throw .deadlock
  else modifyEntry e fun x => { x with locked := true }

def releasesleep (e : EntryId) : Call Unit := modifyEntry e fun x => { x with locked := false }

def iget (dev : Word) (inum : Nat) : Call EntryId := do
  let s ← get
  match (List.range NINODE).find? fun e =>
      0 < (s.icache e).ref && (s.icache e).dev = dev && (s.icache e).inum = inum with
  | some e => do
    modifyEntry e fun x => { x with ref := x.ref + 1 }
    pure e
  | none =>
    -- recycle an entry
    match (List.range NINODE).find? fun e => (s.icache e).ref = 0 with
    | some e => do
      modifyEntry e fun x => { x with dev := dev, inum := inum, ref := 1, valid := false }
      pure e
    | none => panic .noEntries

def idup (e : EntryId) : Call EntryId := do
  modifyEntry e fun x => { x with ref := x.ref + 1 }
  pure e

/-- `ilock` reads the inode from the disk if it has not been read. -/
def readInode (e : EntryId) : Call Unit := do
  let s ← get
  if (s.icache e).valid then pure ()
  else if (s.at e).type = .free then panic .noType
  else modifyEntry e fun x => { x with valid := true }

def ilock (e : EntryId) : Call Unit := do
  let s ← get
  if (s.icache e).ref < 1 then panic .ilock
  else do
    acquiresleep e
    readInode e

def iunlock (e : EntryId) : Call Unit := do
  let s ← get
  if !(s.icache e).locked || (s.icache e).ref < 1 then panic .iunlock
  else releasesleep e

/-- `iput` truncates and frees an inode without links and without other references. -/
def ifree (e : EntryId) : Call Unit := do
  let s ← get
  if (s.icache e).valid ∧ (s.at e).nlink = 0 ∧ (s.icache e).ref = 1 then do
    iupdate e fun x => { x with type := .free, entries := [] }
    modifyEntry e fun x => { x with valid := false }
  else pure ()

def iput (e : EntryId) : Call Unit := do
  acquiresleep e
  ifree e
  releasesleep e
  modifyEntry e fun x => { x with ref := x.ref - 1 }

def iunlockput (e : EntryId) : Call Unit := do
  iunlock e
  iput e

def ialloc (dev : Word) (type : FileType) : Call EntryId := do
  let s ← get
  match (List.range s.ninodes).find? fun inum => 1 ≤ inum ∧ (s.inode inum).type = .free with
  | some inum => do
    set (setInode s inum ⟨type, 0, []⟩)
    iget dev inum
  | none => panic .noInodes

/-! ### Directories -/

/-- The loop of `dirlookup`: the position and the inode of the first entry with the name. -/
def lookup (name : Name) : List Dirent → Nat → Option (Nat × Nat)
  | [], _ => none
  | de :: es, off =>
    if de.inum ≠ 0 ∧ de.name = name then some (off, de.inum) else lookup name es (off + 1)

def dirlookup (dp : EntryId) (name : Name) : Call (Option (EntryId × Nat)) := do
  let s ← get
  if (s.at dp).type ≠ .dir then panic .notDir
  else
    match lookup name (s.at dp).entries 0 with
    | none => pure none
    | some (off, inum) => do
      let ip ← iget (s.icache dp).dev inum
      pure (some (ip, off))

/-- `writei` of one entry. -/
def put (es : List Dirent) (off : Nat) (de : Dirent) : List Dirent :=
  if off < es.length then es.set off de else es ++ [de]

/-- `dirlink`; `false` if the name is there already. -/
def dirlink (dp : EntryId) (name : Name) (inum : Nat) : Call Bool := do
  match ← dirlookup dp name with
  | some (ip, _) => do
    iput ip
    pure false
  | none => do
    let s ← get
    -- the first empty entry, or the end of the directory
    let off := (s.at dp).entries.findIdx fun de => de.inum = 0
    if MAXDIRENT ≤ off then panic .dirlink
    else do
      iupdate dp fun x => { x with entries := put x.entries off ⟨inum, name⟩ }
      pure true

/-! ### Paths -/

/-- `skipelem`: the first element of the path, and the path after it. -/
def skipelem (path : List Char) : Option (Name × List Char) :=
  match path.dropWhile (· = '/') with
  | [] => none
  | c :: cs =>
    some (((c :: cs).takeWhile (· ≠ '/')).take DIRSIZ,
      ((c :: cs).dropWhile (· ≠ '/')).dropWhile (· = '/'))

/-- The elements that the loop of `namex` takes off the path. -/
def elems : Nat → List Char → List Name
  | 0, _ => []
  | n + 1, path =>
    match skipelem path with
    | none => []
    | some (name, rest) => name :: elems n rest

def namexLoop (parent : Bool) (ip : EntryId) : List Name → Call (Option (EntryId × Name))
  | [] =>
    if parent then do
      iput ip
      pure none
    else pure (some (ip, []))
  | name :: rest => do
    ilock ip
    let s ← get
    if (s.at ip).type ≠ .dir then do
      iunlockput ip
      pure none
    else if parent ∧ rest = [] then do
      -- stop one level early
      iunlock ip
      pure (some (ip, name))
    else
      match ← dirlookup ip name with
      | none => do
        iunlockput ip
        pure none
      | some (next, _) => do
        iunlockput ip
        namexLoop parent next rest

/-- The directory where the lookup starts. -/
def namexStart (p : ProcId) (path : List Char) : Call EntryId := do
  if path.head? = some '/' then iget ROOTDEV ROOTINO
  else do
    let s ← get
    match (s.proc p).cwd with
    | none => throw .fault
    | some e => idup e

def namex (p : ProcId) (path : List Char) (parent : Bool) : Call (Option (EntryId × Name)) := do
  let ip ← namexStart p path
  namexLoop parent ip (elems path.length path)

def namei (p : ProcId) (path : List Char) : Call (Option EntryId) := do
  let r ← namex p path false
  pure (r.map Prod.fst)

def nameiparent (p : ProcId) (path : List Char) : Call (Option (EntryId × Name)) := namex p path true

end Xv6.Fs
