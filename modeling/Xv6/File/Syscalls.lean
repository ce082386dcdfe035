import Xv6.Fs.Inode

/-!
# The system calls on files

`file.c`, `sysfile.c`, `pipealloc` and `pipeclose`, and what `fork`, `exec` and `exit` do with open files and
current directories. The arguments have been fetched. Where memory may run out, or where `exec` may
find that a file is no program, the outcome is an argument of the call.
-/

namespace Xv6.Fs

open Machine

/-! ### `file.c` -/

def setFile (s : State) (f : FileId) (x : File) : State :=
  { s with file := Function.update s.file f x }

def setProc (s : State) (p : ProcId) (x : Proc) : State :=
  { s with proc := Function.update s.proc p x }

def setPipe (s : State) (pp : PipeId) (x : Option Pipe) : State :=
  { s with pipe := Function.update s.pipe pp x }

def filealloc : Call (Option FileId) := do
  let s ← get
  match (List.range NFILE).find? fun f => (s.file f).ref = 0 with
  | some f => do
    set (setFile s f { s.file f with ref := 1 })
    pure (some f)
  | none => pure none

def filedup (f : FileId) : Call FileId := do
  let s ← get
  if (s.file f).ref < 1 then panic .filedup
  else do
    set (setFile s f { s.file f with ref := (s.file f).ref + 1 })
    pure f

/-- The page is given back when both ends are closed. -/
def pipeclose (pp : PipeId) (writable : Bool) : Call Unit := do
  let s ← get
  match s.pipe pp with
  | none => throw .fault
  | some x =>
    let x : Pipe := if writable then { x with writeopen := false } else { x with readopen := false }
    set (setPipe s pp (if !x.readopen && !x.writeopen then none else some x))

/-- What `fileclose` does for the last reference, with the file as it was. -/
def closeLast (ff : File) : Call Unit :=
  match ff.type with
  | .pipe => pipeclose ff.pipe ff.writable
  | .inode => iput ff.ip
  | .none => pure ()

def fileclose (f : FileId) : Call Unit := do
  let s ← get
  if (s.file f).ref < 1 then panic .fileclose
  else if 1 < (s.file f).ref then set (setFile s f { s.file f with ref := (s.file f).ref - 1 })
  else do
    set (setFile s f { s.file f with ref := 0, type := .none })
    closeLast (s.file f)

/-! ### Descriptors -/

def setOfile (s : State) (p : ProcId) (fd : Nat) (f : Option FileId) : State :=
  setProc s p { s.proc p with ofile := Function.update (s.proc p).ofile fd f }

def fdalloc (p : ProcId) (f : FileId) : Call (Option Nat) := do
  let s ← get
  match (List.range NOFILE).find? fun fd => (s.proc p).ofile fd = none with
  | some fd => do
    set (setOfile s p fd (some f))
    pure (some fd)
  | none => pure none

def argfd (p : ProcId) (fd : Nat) : Call (Option FileId) := do
  let s ← get
  pure (if fd < NOFILE then (s.proc p).ofile fd else none)

def sysDup (p : ProcId) (fd : Nat) : Call Unit := do
  match ← argfd p fd with
  | none => pure ()
  | some f =>
    match ← fdalloc p f with
    | none => pure ()
    | some _ => do
      let _ ← filedup f

def sysClose (p : ProcId) (fd : Nat) : Call Unit := do
  match ← argfd p fd with
  | none => pure ()
  | some f => do
    modify fun s => setOfile s p fd none
    fileclose f

/-! ### Pipes -/

/-- The end of a pipe. -/
def setEnd (f : FileId) (pp : PipeId) (writable : Bool) : Call Unit :=
  modify fun s => setFile s f { s.file f with type := .pipe, writable := writable, pipe := pp }

/-- `pipealloc`, where `kalloc` gives `page`. -/
def pipealloc (page : Option PipeId) : Call (Option (FileId × FileId)) := do
  match ← filealloc with
  | none => pure none
  | some f0 =>
    match ← filealloc with
    | none => do
      fileclose f0
      pure none
    | some f1 =>
      match page with
      | none => do
        fileclose f0
        fileclose f1
        pure none
      | some pp => do
        modify fun s => setPipe s pp (some ⟨true, true⟩)
        setEnd f0 pp false
        setEnd f1 pp true
        pure (some (f0, f1))

def sysPipe (p : ProcId) (page : Option PipeId) : Call Unit := do
  match ← pipealloc page with
  | none => pure ()
  | some (rf, wf) =>
    match ← fdalloc p rf with
    | none => do
      fileclose rf
      fileclose wf
    | some fd0 =>
      match ← fdalloc p wf with
      | none => do
        modify fun s => setOfile s p fd0 none
        fileclose rf
        fileclose wf
      | some _ => pure ()

/-! ### `sysfile.c` -/

/-- `sys_link` after `namei` has found `ip`: the label `bad`. -/
def linkBad (ip : EntryId) : Call Unit := do
  ilock ip
  iupdate ip fun x => { x with nlink := x.nlink - 1 }
  iunlockput ip

/-- `sys_link` with `dp` locked. -/
def linkInto (dp ip : EntryId) (name : Name) : Call Unit := do
  let s ← get
  if (s.icache dp).dev ≠ (s.icache ip).dev then do
    iunlockput dp
    linkBad ip
  else do
    let done ← dirlink dp name (s.icache ip).inum
    iunlockput dp
    if done then iput ip else linkBad ip

def sysLink (p : ProcId) (old new : List Char) : Call Unit := do
  match ← namei p old with
  | none => pure ()
  | some ip => do
    ilock ip
    let s ← get
    if (s.at ip).type = .dir then iunlockput ip
    else do
      iupdate ip fun x => { x with nlink := x.nlink + 1 }
      iunlock ip
      match ← nameiparent p new with
      | none => linkBad ip
      | some (dp, name) => do
        ilock dp
        linkInto dp ip name

def dot : Name := ['.']
def dotdot : Name := ['.', '.']

def isdirempty (es : List Dirent) : Bool := (es.drop 2).all fun de => de.inum = 0

/-- `sys_unlink` with `dp` and the inode `ip` of its entry at `off` locked. -/
def unlinkEntry (dp ip : EntryId) (off : Nat) : Call Unit := do
  let s ← get
  if (s.at ip).nlink < 1 then panic .nlink
  else if (s.at ip).type = .dir ∧ !isdirempty (s.at ip).entries then do
    iunlockput ip
    iunlockput dp
  else do
    iupdate dp fun x => { x with entries := put x.entries off ⟨0, []⟩ }
    iupdate dp fun x => if (s.at ip).type = .dir then { x with nlink := x.nlink - 1 } else x
    iunlockput dp
    iupdate ip fun x => { x with nlink := x.nlink - 1 }
    iunlockput ip

def sysUnlink (p : ProcId) (path : List Char) : Call Unit := do
  match ← nameiparent p path with
  | none => pure ()
  | some (dp, name) => do
    ilock dp
    if name = dot ∨ name = dotdot then iunlockput dp
    else
      match ← dirlookup dp name with
      | none => iunlockput dp
      | some (ip, off) => do
        ilock ip
        unlinkEntry dp ip off

/-- The entries `.` and `..` of a new directory. -/
def createDots (dp ip : EntryId) (type : FileType) : Call Unit := do
  let s ← get
  if type = .dir then do
    iupdate dp fun x => { x with nlink := x.nlink + 1 }
    let done ← dirlink ip dot (s.icache ip).inum
    if done then do
      let done ← dirlink ip dotdot (s.icache dp).inum
      if done then pure () else panic .dots
    else panic .dots
  else pure ()

/-- `create` with `dp` locked, when there is no entry with the name. -/
def createNew (dp : EntryId) (name : Name) (type : FileType) : Call EntryId := do
  let s ← get
  let ip ← ialloc (s.icache dp).dev type
  ilock ip
  iupdate ip fun x => { x with nlink := 1 }
  createDots dp ip type
  let t ← get
  let done ← dirlink dp name (t.icache ip).inum
  if done then do
    iunlockput dp
    pure ip
  else panic .createDirlink

/-- `create`; the inode is returned locked. -/
def create (p : ProcId) (path : List Char) (type : FileType) : Call (Option EntryId) := do
  match ← nameiparent p path with
  | none => pure none
  | some (dp, name) => do
    ilock dp
    match ← dirlookup dp name with
    | some (ip, _) => do
      iunlockput dp
      ilock ip
      let s ← get
      if type = .file ∧ (s.at ip).type = .file then pure (some ip)
      else do
        iunlockput ip
        pure none
    | none => do
      let ip ← createNew dp name type
      pure (some ip)

def O_RDONLY : Word := 0x000
def O_WRONLY : Word := 0x001
def O_RDWR : Word := 0x002
def O_CREATE : Word := 0x200

/-- The locked inode for `sys_open`. -/
def openInode (p : ProcId) (path : List Char) (omode : Word) : Call (Option EntryId) := do
  if omode &&& O_CREATE ≠ 0 then create p path .file
  else
    match ← namei p path with
    | none => pure none
    | some ip => do
      ilock ip
      let s ← get
      if (s.at ip).type = .dir ∧ omode ≠ O_RDONLY then do
        iunlockput ip
        pure none
      else pure (some ip)

def sysOpen (p : ProcId) (path : List Char) (omode : Word) : Call Unit := do
  match ← openInode p path omode with
  | none => pure ()
  | some ip =>
    match ← filealloc with
    | none => iunlockput ip
    | some f =>
      match ← fdalloc p f with
      | none => do
        fileclose f
        iunlockput ip
      | some _ => do
        iunlock ip
        modify fun s => setFile s f
          { s.file f with
            type := .inode, ip := ip, writable := omode &&& O_WRONLY ≠ 0 || omode &&& O_RDWR ≠ 0 }

/-- `sys_mkdir` and `sys_mknod` -/
def sysCreate (p : ProcId) (path : List Char) (type : FileType) : Call Unit := do
  match ← create p path type with
  | none => pure ()
  | some ip => iunlockput ip

def sysChdir (p : ProcId) (path : List Char) : Call Unit := do
  match ← namei p path with
  | none => pure ()
  | some ip => do
    ilock ip
    let s ← get
    if (s.at ip).type ≠ .dir then iunlockput ip
    else do
      iunlock ip
      match (s.proc p).cwd with
      | none => throw .fault
      | some old => do
        iput old
        modify fun s => setProc s p { s.proc p with cwd := some ip }

/-! ### Processes -/

/-- `exec`: the inode is released whether it is a program or not. -/
def exec (p : ProcId) (path : List Char) : Call Unit := do
  match ← namei p path with
  | none => pure ()
  | some ip => do
    ilock ip
    iunlockput ip

/-- The loop of `fork` over the descriptors. -/
def copyFiles (p np : ProcId) : List Nat → Call Unit
  | [] => pure ()
  | fd :: fds => do
    let s ← get
    match (s.proc p).ofile fd with
    | none => copyFiles p np fds
    | some f => do
      let _ ← filedup f
      modify fun s => setOfile s np fd (some f)
      copyFiles p np fds

/-- `fork`, where `ok` says that there is memory for the child. -/
def fork (p : ProcId) (ok : Bool) : Call Unit := do
  let s ← get
  match (List.range NPROC).find? fun q => (s.proc q).state = .unused with
  | none => pure ()
  | some np =>
    if ok then do
      modify fun s => setProc s np { s.proc np with state := .embryo }
      copyFiles p np (List.range NOFILE)
      match (s.proc p).cwd with
      | none => throw .fault
      | some e => do
        let _ ← idup e
        modify fun s => setProc s np { s.proc np with state := .live, cwd := some e }
    else pure ()

/-- The loop of `exit` over the descriptors. -/
def closeFiles (p : ProcId) : List Nat → Call Unit
  | [] => pure ()
  | fd :: fds => do
    let s ← get
    match (s.proc p).ofile fd with
    | none => closeFiles p fds
    | some f => do
      fileclose f
      modify fun s => setOfile s p fd none
      closeFiles p fds

def initproc : ProcId := 0

def exit (p : ProcId) : Call Unit := do
  if p = initproc then panic .initExiting
  else do
    closeFiles p (List.range NOFILE)
    let s ← get
    match (s.proc p).cwd with
    | none => throw .fault
    | some e => do
      iput e
      modify fun s => setProc s p { s.proc p with state := .zombie, cwd := none }

/-! ### Runs -/

inductive Label
  | dup (p : ProcId) (fd : Nat)
  | close (p : ProcId) (fd : Nat)
  | pipe (p : ProcId) (page : Option PipeId)
  | link (p : ProcId) (old new : List Char)
  | unlink (p : ProcId) (path : List Char)
  | open (p : ProcId) (path : List Char) (omode : Word)
  | mkdir (p : ProcId) (path : List Char)
  | mknod (p : ProcId) (path : List Char)
  | chdir (p : ProcId) (path : List Char)
  | exec (p : ProcId) (path : List Char)
  | fork (p : ProcId) (ok : Bool)
  | exit (p : ProcId)
  /-- the parent of `p` waits for it -/
  | wait (p : ProcId)

/-- The process that makes the call. -/
def Label.proc : Label → ProcId
  | .dup p _ | .close p _ | .pipe p _ | .link p _ _ | .unlink p _ | .open p _ _ | .mkdir p _
  | .mknod p _ | .chdir p _ | .exec p _ | .fork p _ | .exit p | .wait p => p

def syscall : Label → Call Unit
  | .dup p fd => sysDup p fd
  | .close p fd => sysClose p fd
  | .pipe p page => sysPipe p page
  | .link p old new => sysLink p old new
  | .unlink p path => sysUnlink p path
  | .open p path omode => sysOpen p path omode
  | .mkdir p path => sysCreate p path .dir
  | .mknod p path => sysCreate p path .dev
  | .chdir p path => sysChdir p path
  | .exec p path => exec p path
  | .fork p ok => fork p ok
  | .exit p => exit p
  | .wait p => modify fun s => setProc s p { s.proc p with state := .unused }

/-- Whether the call can be made: by a process that runs, `kalloc` gives a free page, and a process that is
    waited for has exited. -/
def enabled (s : State) : Label → Bool
  | .wait p => (s.proc p).state = .zombie
  | .pipe p (some pp) => (s.proc p).state = .live && (s.pipe pp).isNone
  | l => (s.proc l.proc).state = .live

/-- One system call. There is no next state if it does not return. -/
def step (s : State) (l : Label) : Option State :=
  if enabled s l then
    match syscall l s with
    | .ok (_, s') => some s'
    | .error _ => none
  else none

/-- The first process after `userinit`, on a disk with these inodes. -/
def boot (ninodes : Nat) (inode : Nat → Inode) : State where
  ninodes := ninodes
  inode := inode
  icache := fun e =>
    if e = 0 then ⟨ROOTDEV, ROOTINO, 1, false, false⟩ else ⟨0, 0, 0, false, false⟩
  file := fun _ => ⟨.none, 0, false, 0, 0⟩
  pipe := fun _ => none
  proc := fun p =>
    if p = initproc then ⟨.live, fun _ => none, some 0⟩ else ⟨.unused, fun _ => none, none⟩

end Xv6.Fs
