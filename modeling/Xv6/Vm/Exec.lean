import Xv6.Vm.PageTables

/-!
# `exec`

`exec.c` over the address spaces of `vm.c`. The path has been resolved to a file or to nothing. The state
has the memory, the fields of the process that `exec` changes, how many transactions are open, and the
reference count and the lock of the executable's inode. Opening the file and the transaction may wait, which
does not show here.
-/

namespace Xv6.Vm

open Machine

def MAXARG : Nat := 32

def ELF_MAGIC : Word := 0x464C457F

def ELF_PROG_LOAD : Word := 1

def SIG_DFL : Word := 0

def SIG_IGN : Word := 1

/-- A string without its NUL, whose length and NUL fit in a word. -/
structure CString where
  chars : List Byte
  nul_free : ∀ c ∈ chars, c ≠ 0
  length_lt : chars.length < 0xFFFFFFFF

structure Trapframe where
  eip : Word
  esp : Word

structure Proc where
  pgdir : Frame
  sz : Word
  tf : Trapframe
  name : Bytes 16
  signal_handlers : Fin 32 → Word
  kstack : Option Frame

structure State where
  kmem : Kmem
  curproc : Proc
  /-- `log.outstanding` -/
  outstanding : Nat
  /-- `ip->ref` -/
  ref : Nat
  /-- this process holds `ip->lock` -/
  locked : Bool

inductive Panic
  | vm (e : Stop)
  | ilock
  | iunlock
  | kstack

abbrev Run := StateT State (Except Panic)

/-- An operation on the memory. -/
def onKmem {α : Type} (m : Op α) : Run α :=
  zoom State.kmem (fun s t => { s with kmem := t }) Panic.vm m

variable (k : Kernel)

/-! ### Files -/

def begin_op : Run Unit := modify fun s => { s with outstanding := s.outstanding + 1 }

def end_op : Run Unit := modify fun s => { s with outstanding := s.outstanding - 1 }

/-- What the path names, with a new reference to its inode. -/
def namei (ip : Option File) : Run (Option File) := do
  match ip with
  | none => return none
  | some ip =>
    modify fun s => { s with ref := s.ref + 1 }
    return some ip

def ilock : Run Unit := do
  if (← get).ref < 1 then throw .ilock
  else modify fun s => { s with locked := true }

def iunlock : Run Unit := do
  let s ← get
  if !s.locked ∨ s.ref < 1 then throw .iunlock
  else modify fun s => { s with locked := false }

def iput : Run Unit := modify fun s => { s with ref := s.ref - 1 }

def iunlockput : Run Unit := do
  iunlock
  iput

structure Elfhdr where
  magic : Word
  entry : Word
  phoff : Word
  phnum : Short

def Elfhdr.ofBytes (b : Nat → Byte) : Elfhdr := ⟨wordAt b 0, wordAt b 24, wordAt b 28, shortAt b 44⟩

structure Proghdr where
  type : Word
  off : Word
  vaddr : Word
  filesz : Word
  memsz : Word

def Proghdr.ofBytes (b : Nat → Byte) : Proghdr :=
  ⟨wordAt b 0, wordAt b 4, wordAt b 8, wordAt b 16, wordAt b 20⟩

/-- The record of `n` bytes at `off`, if there are so many. -/
def File.readRecord (ip : File) (off n : Word) : Option (Nat → Byte) :=
  match ip.readi off n with
  | none => none
  | some (n', b) => if n' ≠ n then none else some b

def File.readElfhdr (ip : File) : Option Elfhdr :=
  match ip.readRecord 0 52 with
  | none => none
  | some b => if (Elfhdr.ofBytes b).magic ≠ ELF_MAGIC then none else some (Elfhdr.ofBytes b)

def File.readProghdr (ip : File) (off : Word) : Option Proghdr :=
  (ip.readRecord off 32).map Proghdr.ofBytes

/-! ### The new image -/

/-- The loop over `n` program headers from `off` on; `none` if it goes to `bad`. -/
def loadSegments (pgdir : Frame) (ip : File) : Nat → Word → Word → Op (Option Word)
  | 0, _, sz => return some sz
  | n + 1, off, sz =>
    match ip.readProghdr off with
    | none => return none
    | some ph =>
      if ph.type ≠ ELF_PROG_LOAD then loadSegments pgdir ip n (off + 32) sz
      else if ph.memsz < ph.filesz then return none
      else if ph.vaddr + ph.memsz < ph.vaddr then return none
      else do
        let sz ← allocuvm k pgdir sz (ph.vaddr + ph.memsz)
        if sz = 0 then return none
        else if ph.vaddr.toNat % 4096 ≠ 0 then return none
        else if ← loaduvm pgdir sz ph.vaddr ip ph.off ph.filesz then
          loadSegments pgdir ip n (off + 32) sz
        else return none

/-- The stack pointer after a block of `n` bytes has been pushed. -/
def push (sp : Word) (n : Nat) : Word := (sp - BitVec.ofNat 32 n) &&& ~~~3

/-- `ustack[3 + MAXARG + 1]` -/
abbrev Ustack := Bytes 144

/-- The loop over the argument strings; `none` if it goes to `bad`. -/
def pushStrings (pgdir : Frame) :
    List CString → Nat → Word → Ustack → Op (Option (Nat × Word × Ustack))
  | [], argc, sp, ustack => return some (argc, sp, ustack)
  | a :: argv, argc, sp, ustack => do
    if argc ≥ MAXARG then return none
    else
      let sp := push sp (a.chars.length + 1)
      if ← copyout pgdir sp (fun j => a.chars.getD j 0) (BitVec.ofNat 32 (a.chars.length + 1)) then
        pushStrings pgdir argv (argc + 1) sp (ustack.putInt (3 + argc) sp)
      else return none

/-- The words below the strings: a return address, `argc`, `argv` and the end of the array. -/
def finish (argc : Nat) (sp : Word) (ustack : Ustack) : Ustack :=
  (((ustack.putInt (3 + argc) 0).putInt 0 0xffffffff).putInt 1 (BitVec.ofNat 32 argc)).putInt 2
    (sp - BitVec.ofNat 32 ((argc + 1) * 4))

/-- The two pages for the stack and what is on it: the size and the stack pointer. -/
def buildStack (pgdir : Frame) (sz : Word) (argv : List CString) : Op (Option (Word × Word)) := do
  let sz ← allocuvm k pgdir sz (sz + 2 * PGSIZE)
  if sz = 0 then return none
  else
    clearpteu pgdir (sz - 2 * PGSIZE)
    match ← pushStrings pgdir argv 0 sz fun _ => 0 with
    | none => return none
    | some (argc, sp, ustack) =>
      let ustack := finish argc sp ustack
      let sp := sp - BitVec.ofNat 32 ((3 + argc + 1) * 4)
      if ← copyout pgdir sp ustack.byte (BitVec.ofNat 32 ((3 + argc + 1) * 4)) then
        return some (sz, sp)
      else return none

/-! ### The process -/

/-- The part of the path after the last slash; `last` is the part found so far. -/
def lastElem (last : List Byte) : List Byte → List Byte
  | [] => last
  | c :: s => lastElem (if c = chr '/' then s else last) s

/-- `safestrcpy` copies the NUL too, if there is room, and then writes another one. -/
def safestrcpy {n : Nat} (s : Bytes n) (t : List Byte) : Bytes n := fun j =>
  if j.val < min (n - 1) (t.length + 1) then t.getD j 0
  else if j.val = min (n - 1) (t.length + 1) then 0
  else s j

def switchuvm : Run Unit := do
  match (← get).curproc.kstack with
  | none => throw .kstack
  | some _ => return ()

/-- The process after the new image has been committed. -/
def Proc.commit (p : Proc) (path : List Byte) (entry : Word) (pgdir : Frame) (sz sp : Word) : Proc :=
  { p with
    pgdir := pgdir
    sz := sz
    tf := ⟨entry, sp⟩
    name := safestrcpy p.name (lastElem path path)
    signal_handlers := fun i =>
      if p.signal_handlers i ≠ SIG_IGN then SIG_DFL else p.signal_handlers i }

def commit (path : List Byte) (entry : Word) (pgdir : Frame) (sz sp : Word) : Run Unit := do
  let oldpgdir := (← get).curproc.pgdir
  modify fun s => { s with curproc := s.curproc.commit path entry pgdir sz sp }
  switchuvm
  onKmem (freevm k (some oldpgdir))

/-- `if (pgdir) freevm(pgdir)` -/
def freeNew (pgdir : Option Frame) : Run Unit :=
  match pgdir with
  | none => pure ()
  | some _ => onKmem (freevm k pgdir)

/-- The label `bad`; `ip` says whether the inode is still locked. -/
def bad (pgdir : Option Frame) (ip : Bool) : Run Bool := do
  freeNew k pgdir
  if ip then
    iunlockput
    end_op
    return false
  else return false

/-- The rest of `exec` after all segments are loaded. -/
def startImage (path : List Byte) (argv : List CString) (entry : Word) (pgdir : Frame) (sz : Word) :
    Run Bool := do
  iunlockput
  end_op
  match ← onKmem (buildStack k pgdir (PGROUNDUP sz) argv) with
  | none => bad k (some pgdir) false
  | some (sz, sp) =>
    commit k path entry pgdir sz sp
    return true

/-- `exec`: whether it returns 0. -/
def exec (file : Option File) (path : List Byte) (argv : List CString) : Run Bool := do
  begin_op
  match ← namei file with
  | none =>
    end_op
    return false
  | some ip =>
    ilock
    match ip.readElfhdr with
    | none => bad k none true
    | some elf =>
      match ← onKmem (setupkvm k) with
      | none => bad k none true
      | some pgdir =>
        match ← onKmem (loadSegments k pgdir ip elf.phnum.toNat elf.phoff 0) with
        | none => bad k (some pgdir) true
        | some sz => startImage k path argv elf.entry pgdir sz

end Xv6.Vm
