import Xv6.Machine.Loop
import Xv6.Vm.Layout

/-!
# Address spaces

The page allocator of `kalloc.c` and the functions of `vm.c` that build, change, copy and free an address
space. The link that a free page holds in its first word is in `freelist`. Panics stop the run, and so do
three things the C code would do without noticing: a read through the null pointer that `walkpgdir` may
return, a loop whose variable passes the largest address, and a store by `loaduvm` outside the address space
it loads.
-/

namespace Xv6.Vm

open Machine

abbrev Page := Bytes 4096

/-- Physical memory and the free pages of it. -/
structure Kmem where
  page : Frame → Page
  freelist : List Frame

inductive Stop
  | kfree
  | remap
  | phystop
  | freevm
  | clearpteu
  | loaduvmAligned
  | loaduvmExist
  | copyuvmExist
  | copyuvmPresent
  /-- a read of the entry at the null pointer -/
  | null
  /-- the variable of a loop passes the largest address -/
  | wrap
  /-- a store outside the address space that is being loaded -/
  | stray

abbrev Op := StateT Kmem (Except Stop)

/-- Where the linker has put the kernel: the symbols `data` and `end`. -/
structure Kernel where
  data : Word
  end_ : Word
  data_aligned : data.toNat % 4096 = 0
  text_pos : KERNLINK < data
  data_le : data ≤ end_
  end_lt : end_ < P2V PHYSTOP

variable (k : Kernel)

/-! ### `kalloc.c` -/

def kalloc : Op (Option Frame) :=
  modifyGet fun s => match s.freelist with
    | [] => (none, s)
    | r :: next => (some r, { s with freelist := next })

def memset (v : Frame) (b : Byte) : Op Unit :=
  modify fun s => { s with page := Function.update s.page v fun _ => b }

def kfree (v : Frame) : Op Unit :=
  if P2V v.addr < k.end_ ∨ v.addr ≥ PHYSTOP then throw .kfree
  else do
    memset v 1
    modify fun s => { s with freelist := v :: s.freelist }

/-! ### Page tables -/

/-- A pointer to an entry: the page it is in and its index there. -/
abbrev Entry := Frame × Nat

def getEntry (e : Entry) : Op Word := do return ((← get).page e.1).getInt e.2

def putEntry (e : Entry) (v : Word) : Op Unit :=
  modify fun s => { s with page := Function.update s.page e.1 ((s.page e.1).putInt e.2 v) }

def walkpgdir (pgdir : Frame) (va : Word) (alloc : Bool) : Op (Option Entry) := do
  let pde ← getEntry (pgdir, PDX va)
  if present pde then
    return some (PTE_ADDR pde, PTX va)
  else if !alloc then
    return none
  else
    match ← kalloc with
    | none => return none
    | some pgtab =>
      memset pgtab 0
      putEntry (pgdir, PDX va) (pgtab.addr ||| PTE_P ||| PTE_W ||| PTE_U)
      return some (pgtab, PTX va)

/-- The body of the loop of `mappages`; `false` if it returns `-1`. -/
def mapPage (pgdir : Frame) (a pa perm : Word) : Op Bool := do
  match ← walkpgdir pgdir a true with
  | none => return false
  | some pte =>
    if present (← getEntry pte) then throw .remap
    else
      putEntry pte (pa ||| perm ||| PTE_P)
      return true

/-- The loop from `a` on, when `last` is `n` pages after it. -/
def mapLoop (pgdir : Frame) (perm : Word) : Nat → Word → Word → Op Bool
  | 0, a, pa => mapPage pgdir a pa perm
  | n + 1, a, pa => do
    if ← mapPage pgdir a pa perm then
      mapLoop pgdir perm n (a + PGSIZE) (pa + PGSIZE)
    else
      return false

def mappages (pgdir : Frame) (va size pa perm : Word) : Op Bool :=
  let a := PGROUNDDOWN va
  let last := PGROUNDDOWN (va + size - 1)
  mapLoop pgdir perm (pageNo (last - a)) a pa

/-! ### User memory -/

/-- The body of the loop of `deallocuvm`: what is in `a` before `a += PGSIZE`. -/
def deallocPage (pgdir : Frame) (a : Word) : Op Word := do
  match ← walkpgdir pgdir a false with
  | none => return PGADDR (BitVec.ofNat 32 (PDX a) + 1) 0 0 - PGSIZE
  | some pte =>
    let v ← getEntry pte
    if present v then
      if PTE_ADDR v = 0 then throw .kfree
      else
        kfree k (PTE_ADDR v)
        putEntry pte 0
        return a
    else
      return a

def deallocuvm (pgdir : Frame) (oldsz newsz : Word) : Op Word :=
  if newsz ≥ oldsz then pure oldsz
  else do
    let _ ← forBelow .wrap oldsz
      (fun a => do return some ((← deallocPage k pgdir a) + PGSIZE)) (PGROUNDUP newsz)
    return newsz

/-- The body of the loop of `allocuvm`; `none` if it returns 0. -/
def allocPage (pgdir : Frame) (oldsz newsz a : Word) : Op (Option Word) := do
  match ← kalloc with
  | none =>
    let _ ← deallocuvm k pgdir newsz oldsz
    return none
  | some mem =>
    memset mem 0
    if ← mappages pgdir a PGSIZE mem.addr (PTE_W ||| PTE_U) then
      return some (a + PGSIZE)
    else
      let _ ← deallocuvm k pgdir newsz oldsz
      kfree k mem
      return none

def allocuvm (pgdir : Frame) (oldsz newsz : Word) : Op Word :=
  if newsz ≥ KERNBASE then pure 0
  else if newsz < oldsz then pure oldsz
  else do
    if ← forBelow .wrap newsz (allocPage k pgdir oldsz newsz) (PGROUNDUP oldsz) then
      return newsz
    else
      return 0

/-- The body of the loop of `freevm`. -/
def freeTable (pgdir : Frame) (i : Word) : Op (Option Word) := do
  let pde ← getEntry (pgdir, i.toNat)
  if present pde then
    kfree k (PTE_ADDR pde)
    return some (i + 1)
  else
    return some (i + 1)

/-- `freevm`; 0 is the null pointer. -/
def freevm (pgdir : Option Frame) : Op Unit := do
  match pgdir with
  | none => throw .freevm
  | some pgdir =>
    let _ ← deallocuvm k pgdir KERNBASE 0
    let _ ← forBelow .wrap NPDENTRIES (freeTable k pgdir) 0
    kfree k pgdir

def clearpteu (pgdir : Frame) (uva : Word) : Op Unit := do
  match ← walkpgdir pgdir uva false with
  | none => throw .clearpteu
  | some pte => putEntry pte ((← getEntry pte) &&& ~~~PTE_U)

/-! ### The kernel's part -/

structure Kmap where
  virt : Word
  phys_start : Word
  phys_end : Word
  perm : Word

def Kernel.kmap : List Kmap :=
  [⟨KERNBASE, 0, EXTMEM, PTE_W⟩,
   ⟨KERNLINK, V2P KERNLINK, V2P k.data, 0⟩,
   ⟨k.data, V2P k.data, PHYSTOP, PTE_W⟩,
   ⟨DEVSPACE, DEVSPACE, 0, PTE_W⟩]

/-- The loop of `setupkvm`; `false` if `mappages` fails. -/
def kmapLoop (pgdir : Frame) : List Kmap → Op Bool
  | [] => return true
  | m :: rest => do
    if ← mappages pgdir m.virt (m.phys_end - m.phys_start) m.phys_start m.perm then
      kmapLoop pgdir rest
    else
      return false

def setupkvm : Op (Option Frame) := do
  match ← kalloc with
  | none => return none
  | some pgdir =>
    memset pgdir 0
    if P2V PHYSTOP > DEVSPACE then throw .phystop
    else if ← kmapLoop pgdir k.kmap then
      return some pgdir
    else
      freevm k (some pgdir)
      return none

/-! ### Copies -/

/-- The body of the loop of `copyuvm`; `none` if it goes to `bad`. -/
def copyPage (pgdir d : Frame) (i : Word) : Op (Option Word) := do
  match ← walkpgdir pgdir i false with
  | none => throw .copyuvmExist
  | some pte =>
    let v ← getEntry pte
    if !present v then throw .copyuvmPresent
    else
      match ← kalloc with
      | none => return none
      | some mem =>
        modify fun s => { s with page := Function.update s.page mem (s.page (PTE_ADDR v)) }
        if ← mappages d i PGSIZE mem.addr (PTE_FLAGS v) then
          return some (i + PGSIZE)
        else
          kfree k mem
          return none

def copyuvm (pgdir : Frame) (sz : Word) : Op (Option Frame) := do
  match ← setupkvm k with
  | none => return none
  | some d =>
    if ← forBelow .wrap sz (copyPage k pgdir d) 0 then
      return some d
    else
      freevm k (some d)
      return none

def uva2ka (pgdir : Frame) (uva : Word) : Op (Option Frame) := do
  match ← walkpgdir pgdir uva false with
  | none => throw .null
  | some pte =>
    let v ← getEntry pte
    if !present v then return none
    else if !user v then return none
    else return some (PTE_ADDR v)

/-- `memmove` of `n` bytes to the page, from offset `o` on. -/
def store (f : Frame) (o n : Nat) (bytes : Nat → Byte) : Op Unit :=
  modify fun s => { s with page := Function.update s.page f ((s.page f).overwrite o n bytes) }

/-- The part of `[va, va + len)` on the first page. -/
def chunk (va len : Word) : Word :=
  let n := PGSIZE - (va - PGROUNDDOWN va)
  if n > len then len else n

lemma chunk_pos (va : Word) {len : Word} (h : 0 < len) : 0 < (chunk va len).toNat ∧ chunk va len ≤ len := by
  have hdown := toNat_PGROUNDDOWN va
  rw [pageNo] at hdown
  rw [chunk, PGSIZE]
  split <;> bv_omega

/-- `copyout` of `len` bytes of the buffer, from byte `buf` of it on. -/
def copyoutFrom (pgdir : Frame) (p : Nat → Byte) (va len : Word) (buf : Nat) : Op Bool :=
  if _h : 0 < len then do
    let va0 := PGROUNDDOWN va
    match ← uva2ka pgdir va0 with
    | none => return false
    | some pa0 =>
      let n := chunk va len
      store pa0 (va - va0).toNat n.toNat fun j => p (buf + j)
      copyoutFrom pgdir p (va0 + PGSIZE) (len - n) (buf + n.toNat)
  else return true
termination_by len.toNat
decreasing_by
  have hn := chunk_pos va _h
  bv_omega

def copyout (pgdir : Frame) (va : Word) (p : Nat → Byte) (len : Word) : Op Bool :=
  copyoutFrom pgdir p va len 0

/-! ### Loading a program -/

/-- The bytes of a file. -/
structure File where
  size : Word
  data : Nat → Byte

/-- `readi` of a file that is not a device: how many bytes it copies, and the bytes. -/
def File.readi (ip : File) (off n : Word) : Option (Word × (Nat → Byte)) :=
  if off > ip.size ∨ off + n < off then none
  else
    let n := if off + n > ip.size then ip.size - off else n
    some (n, fun j => ip.data (off.toNat + j))

/-- The body of the loop of `loaduvm`; `none` if it returns `-1`. The address space has size `lim`. -/
def loadPage (pgdir : Frame) (lim addr : Word) (ip : File) (offset sz i : Word) :
    Op (Option Word) := do
  match ← walkpgdir pgdir (addr + i) false with
  | none => throw .loaduvmExist
  | some pte =>
    let v ← getEntry pte
    let n := if sz - i < PGSIZE then sz - i else PGSIZE
    match ip.readi (offset + i) n with
    | none => return none
    | some (n', bytes) =>
      if present v ∧ (addr + i).toNat + n'.toNat ≤ lim.toNat ∧ addr + i < KERNBASE then
        store (PTE_ADDR v) 0 n'.toNat bytes
        if n' = n then
          return some (i + PGSIZE)
        else
          return none
      else
        throw .stray

def loaduvm (pgdir : Frame) (lim addr : Word) (ip : File) (offset sz : Word) : Op Bool :=
  if addr.toNat % 4096 ≠ 0 then throw .loaduvmAligned
  else forBelow .wrap sz (loadPage pgdir lim addr ip offset sz) 0

/-! ### `proc.c` -/

/-- `growproc` of a process of size `sz`: the new size, or `none` if it returns `-1`. -/
def growproc (pgdir : Frame) (sz n : Word) : Op (Option Word) :=
  if (0 : Word).slt n then do
    let sz ← allocuvm k pgdir sz (sz + n)
    return if sz = 0 then none else some sz
  else if n.slt 0 then do
    let sz ← deallocuvm k pgdir sz (sz + n)
    return if sz = 0 then none else some sz
  else
    pure (some sz)

end Xv6.Vm
