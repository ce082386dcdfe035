import Mathlib.Logic.Function.Basic
import Xv6.Machine.Hoare
import Xv6.Vm.Growproc

/-!
# `malloc` and `free`

The allocator of `umalloc.c`. Memory gives the header at every address; the pointer type of the source is an
address, and `p + n` on it is `n` headers further. A loop that goes along the free list takes a bound on its
rounds and stops with an error if it is not over by then. `sbrk` moves the size of the process as `growproc`
does; whether there are pages for it is decided by the next entry of a list.
-/

namespace Xv6.Umalloc

open Machine Vm

structure Header where
  ptr : Word
  size : Word
deriving DecidableEq, Repr

structure State where
  mem : Word → Header
  freep : Word
  /-- the size of the process -/
  sz : Word
  /-- whether the kernel has enough pages, for the coming calls of `sbrk` -/
  pages : List Bool

inductive Stop
  /-- the bound on the rounds is reached -/
  | unfinished

abbrev Op := StateT State (Except Stop)

def State.ptr (s : State) (p : Word) : Word := (s.mem p).ptr

def State.size (s : State) (p : Word) : Word := (s.mem p).size

def State.setPtr (s : State) (p v : Word) : State :=
  { s with mem := Function.update s.mem p { s.mem p with ptr := v } }

def State.setSize (s : State) (p n : Word) : State :=
  { s with mem := Function.update s.mem p { s.mem p with size := n } }

/-- `p + n` for a pointer to a header. -/
def advance (p n : Word) : Word := p + 8 * n

/-! ### `sbrk` -/

/-- The size that `growproc` gives a process of size `sz`; `none` if it returns `-1`. -/
def growSize (avail : Bool) (sz n : Word) : Option Word :=
  if (0 : Word).slt n then
    if sz + n ≥ KERNBASE then none
    else if sz + n < sz then if sz = 0 then none else some sz
    else if avail ∧ sz + n ≠ 0 then some (sz + n)
    else none
  else if n.slt 0 then
    let sz' := if sz + n ≥ sz then sz else sz + n
    if sz' = 0 then none else some sz'
  else some sz

/-- The old size, or `-1`. -/
def sbrk (n : Word) : Op Word := do
  let s ← get
  match growSize (s.pages.headD false) s.sz n with
  | none =>
    set { s with pages := s.pages.tail }
    return -1
  | some sz =>
    set { s with sz := sz, pages := s.pages.tail }
    return s.sz

/-! ### `free` -/

/-- The loop of `free` from `p` on. -/
def search (s : State) (bp : Word) : Nat → Word → Option Word
  | 0, _ => none
  | fuel + 1, p =>
    if p < bp ∧ bp < s.ptr p then some p
    else if s.ptr p ≤ p ∧ (p < bp ∨ bp < s.ptr p) then some p
    else search s bp fuel (s.ptr p)

/-- The block is joined with the one behind `p` in the list, or put before it. -/
def joinNext (s : State) (bp p : Word) : State :=
  if advance bp (s.size bp) = s.ptr p then
    let s := s.setSize bp (s.size bp + s.size (s.ptr p))
    s.setPtr bp (s.ptr (s.ptr p))
  else
    s.setPtr bp (s.ptr p)

/-- The block is joined with `p`, or put behind it. -/
def joinPrev (s : State) (bp p : Word) : State :=
  if advance p (s.size p) = bp then
    let s := s.setSize p (s.size p + s.size bp)
    s.setPtr p (s.ptr bp)
  else
    s.setPtr p bp

def free (fuel : Nat) (ap : Word) : Op Unit := do
  let bp := ap - 8
  let s ← get
  match search s bp fuel s.freep with
  | none => throw .unfinished
  | some p => set { joinPrev (joinNext s bp p) bp p with freep := p }

/-! ### `malloc` -/

def morecore (fuel : Nat) (nu : Word) : Op Word := do
  let nu := if nu < 4096 then 4096 else nu
  let p ← sbrk (nu * 8)
  if p = -1 then
    return 0
  else
    modify fun s => s.setSize p nu
    free fuel (advance p 1)
    return (← get).freep

/-- The block at `p`, behind `prevp` in the list, is taken, or the end of it. -/
def take (nunits prevp p : Word) : Op Word := do
  let s ← get
  if s.size p = nunits then
    set { s.setPtr prevp (s.ptr p) with freep := prevp }
    return advance p 1
  else
    let s := s.setSize p (s.size p - nunits)
    let p := advance p (s.size p)
    set { s.setSize p nunits with freep := prevp }
    return advance p 1

/-- The loop of `malloc`. -/
def scan (nunits : Word) : Nat → Word → Word → Op Word
  | 0, _, _ => throw .unfinished
  | fuel + 1, prevp, p => do
    let s ← get
    if s.size p ≥ nunits then
      take nunits prevp p
    else if p = s.freep then
      let p ← morecore fuel nunits
      if p = 0 then
        return 0
      else
        scan nunits fuel p ((← get).ptr p)
    else
      scan nunits fuel p (s.ptr p)

def nunits (nbytes : Word) : Word := (nbytes + 8 - 1) / 8 + 1

/-- `malloc`, where `base` is the address of the static header of that name. -/
def malloc (base : Word) (fuel : Nat) (nbytes : Word) : Op Word := do
  if (← get).freep = 0 then
    modify fun s => { (s.setPtr base base).setSize base 0 with freep := base }
  let s ← get
  scan (nunits nbytes) fuel s.freep (s.ptr s.freep)

/-! ### `growproc` -/

variable {k : Kernel} {U : Set Frame} {m : Kmem} {d : Frame} {sz n : Word} {E : Vm.Stop → Prop}

/-- `growproc` on page tables gives this size, for one of the two values of `avail`. -/
lemma growproc_ends (h : AddressSpace k U m d sz) : Ends (growproc k d sz n) m E fun r t =>
    (∃ avail, r = growSize avail sz n) ∧ (∃ A ⊆ Users, Keeps Users A U d m t) ∧
      ((n.slt 0 = true → sz + n ≠ 0) → AddressSpace k U t d (r.getD sz)) := by
  have hsame : ∃ A ⊆ Users, Keeps Users A U d m m := ⟨∅, Set.empty_subset _, Keeps.refl⟩
  have hget : (if sz = 0 then none else some sz).getD sz = sz := by split_ifs <;> rfl
  unfold growproc growSize
  by_cases hpos : (0 : Word).slt n = true
  · simp only [if_pos hpos]
    by_cases hbig : sz + n ≥ KERNBASE
    · rw [allocuvm, if_pos hbig]
      exact Ends.pure ⟨⟨true, by simp [hbig]⟩, hsame, fun _ => h⟩
    by_cases hsmall : sz + n < sz
    · rw [allocuvm, if_neg hbig, if_pos hsmall]
      exact Ends.pure ⟨⟨true, by simp [hbig, hsmall]⟩, hsame, fun _ => by rwa [hget]⟩
    have hle : sz ≤ sz + n := BitVec.not_lt.mp hsmall
    have hnew : sz + n < KERNBASE := BitVec.not_le.mp hbig
    refine Ends.bind (allocuvm_ends h.space h.allocatable hle hnew
      fun p hp => .inl (h.absent (BitVec.le_of_lt hnew) p hp)) ?_
    rintro r t ⟨hspace, hkeeps, hr⟩
    refine Ends.pure ⟨?_, ⟨_, fun v hv => mem_users (BitVec.le_of_lt hnew) hv, hkeeps⟩, fun _ => ?_⟩
    · rcases hr with ⟨rfl, -⟩ | ⟨rfl, -⟩
      · refine ⟨true, ?_⟩
        rw [if_neg hbig, if_neg hsmall]
        by_cases hzero : sz + n = 0
        · rw [if_pos hzero, if_neg fun hboth => hboth.2 hzero]
        · rw [if_neg hzero, if_pos ⟨rfl, hzero⟩]
      · exact ⟨false, by simp [hbig, hsmall]⟩
    · rcases hr with ⟨rfl, hzero⟩ | ⟨rfl, habs, -⟩
      · have hgrown := (h.grow hle (BitVec.le_of_lt hnew) hspace hkeeps hzero).1
        split_ifs with hz
        · rwa [hz, ← show sz = 0 by bv_omega] at hgrown
        · exact hgrown
      · exact (h.undo hspace hkeeps habs).1
  · simp only [if_neg hpos]
    by_cases hneg : n.slt 0 = true
    · simp only [if_pos hneg]
      by_cases hge : sz + n ≥ sz
      · rw [deallocuvm, if_pos hge]
        exact Ends.pure ⟨⟨true, by simp [hge]⟩, hsame, fun _ => by rwa [hget]⟩
      · have hlt : sz + n < sz := BitVec.not_le.mp hge
        refine Ends.bind (deallocuvm_ends h.space h.allocatable hlt h.size_le) ?_
        rintro r t ⟨rfl, hspace, hkeeps, habs⟩
        refine Ends.pure ⟨⟨true, by simp [hge]⟩, ⟨_, fun v hv => mem_users h.size_le hv, hkeeps⟩, fun hn => ?_⟩
        rw [if_neg (hn hneg)]
        exact (h.shrink hlt hspace hkeeps habs).1
    · simp only [if_neg hneg]
      exact Ends.pure ⟨⟨true, rfl⟩, hsame, fun _ => h⟩

end Xv6.Umalloc
