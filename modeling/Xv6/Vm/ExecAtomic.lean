import Xv6.Vm.ArgumentStack

/-!
# `exec` is atomic

`exec` builds the new address space out of free pages only, while the old one stays as it is. It either
frees what it has taken and leaves the process alone, or hands the process over and frees the old address
space.
-/

namespace Xv6.Vm

open Machine

-- otherwise unification would run the programs
attribute [local irreducible] Ends

variable {k : Kernel} {G : Set Nat} {U V : Set Frame} {s t : State} {m m' : Kmem} {d : Frame}
  {E : Panic → Prop} {sz : Word} {file : Option File} {path : List Byte} {argv : List CString}
  {ptr : Nat → Word}

/-- A process that may call `exec`: `V` is the set of its pages and the free ones. -/
structure Ready (k : Kernel) (V : Set Frame) (s : State) : Prop where
  space : AddressSpace k V s.kmem s.curproc.pgdir s.curproc.sz
  kstack : s.curproc.kstack ≠ none
  unlocked : s.locked = false

/-- The pages that are free. -/
def freeSet (s : State) : Set Frame := {f | f ∈ s.kmem.freelist}

lemma Ready.free (h : Ready k V s) : Free (freeSet s) s.kmem :=
  pool_of_free h.space.space.nodup fun _ _ hfalse => hfalse

lemma Ready.allocatable (h : Ready k V s) : ∀ f ∈ freeSet s, k.Allocatable f :=
  fun f hf => h.space.allocatable f (h.space.space.mem_of_free hf)

/-- The process and all pages in use are as they were, and the same pages are free. -/
structure Untouched (s t : State) : Prop where
  curproc : t.curproc = s.curproc
  free : ∀ f, f ∈ t.kmem.freelist ↔ f ∈ s.kmem.freelist
  used : ∀ f ∉ s.kmem.freelist, t.kmem.page f = s.kmem.page f

/-! ### Two address spaces -/

/-- The pages of the old address space are not free, so a new one does not change them. -/
lemma held_old {old : Frame} {free : List Frame} (h : Pool V (Held Users m.page old) free)
    (hout : ∀ f ∉ {f | f ∈ free}, m'.page f = m.page f) (x : Place) (f : Frame) :
    Held Users m'.page old x f ↔ Held Users m.page old x f := by
  refine held_congr ?_ ?_ x f
  · exact hout old (h.notMem (show Held Users m.page old .dir old from rfl))
  · intro i tab ht
    exact hout tab (h.notMem (show Held Users m.page old (.table i) tab from ht))

/-- The old address space after a failed attempt. -/
lemma AddressSpace.untouched {old : Frame} (h : AddressSpace k V m old sz)
    (hfree : Free {f | f ∈ m.freelist} m') (hout : ∀ f ∉ {f | f ∈ m.freelist}, m'.page f = m.page f) :
    AddressSpace k V m' old sz := by
  have hmem : ∀ f, f ∈ m'.freelist ↔ f ∈ m.freelist := by
    intro f
    have hiff := hfree.mem_iff (f := f)
    exact ⟨fun hf => hiff.mpr (Or.inr hf), fun hf => (hiff.mp hf).resolve_left fun ⟨_, hfalse⟩ => hfalse⟩
  refine ⟨?_, h.allocatable, h.size_le, ?_⟩
  · exact (h.space.reorder hfree.nodup hmem).congr (held_old h.space hout)
  · intro p hp
    have hpte : pteOf m'.page old p = pteOf m.page old p := by
      refine pteOf_congr ?_ ?_ p
      · exact hout old (h.space.notMem (show Held Users m.page old .dir old from rfl))
      · intro i tab ht
        exact hout tab (h.space.notMem (show Held Users m.page old (.table i) tab from ht))
    rw [hpte]
    exact h.mapped p hp

/-- The pages of an address space are as they were. -/
structure SamePages (d : Frame) (m m' : Kmem) : Prop where
  dir : m'.page d = m.page d
  table : ∀ i tab, tableOf m.page d i = some tab → m'.page tab = m.page tab
  page : ∀ p ∈ Users, ∀ f, pageOf m.page d p = some f → m'.page f = m.page f

lemma SamePages.pte (h : SamePages d m m') (p : Nat) : pteOf m'.page d p = pteOf m.page d p :=
  pteOf_congr h.dir h.table p

lemma SamePages.image (h : SamePages d m m') (hi : Image k G U m d sz) (hspace : Space Users V m' d)
    (hV : ∀ f ∈ V, k.Allocatable f) : Image k G V m' d sz where
  space := hspace
  allocatable := hV
  size_le := hi.size_le
  mapped p := by
    rw [h.pte]
    exact hi.mapped p
  kernel p := by
    rw [h.pte]
    exact hi.kernel p
  guard p := by
    rw [h.pte]
    exact hi.guard p

lemma SamePages.userByte (h : SamePages d m m') (hu : UserSpace U m d) : userByte m' d = userByte m d := by
  funext x
  rw [Vm.userByte, Vm.userByte, h.pte, pageOf_congr (h.pte _)]
  split
  · rename_i huser
    cases hf : pageOf m.page d (pageNo x) with
    | none => rfl
    | some f =>
      have hmem := hu.mem_users ⟨(pageOf_eq_some.mp hf).1, huser⟩
      rw [Option.map_some, Option.map_some, h.page _ hmem f hf]
  · rfl

lemma Passed.congr {esp : Word} (h : Passed m d sz esp argv ptr) (hbyte : userByte m' d = userByte m d) :
    Passed m' d sz esp argv ptr := by
  have hword : userWord m' d = userWord m d := by
    funext x
    rw [userWord, userWord, hbyte]
  refine ⟨?_, ?_, ?_, ?_, ?_, ?_, h.page, h.top, h.above, h.order⟩
  · rw [hword, h.pc]
  · rw [hword, h.argc]
  · rw [hword, h.array]
  · intro i hi
    rw [hword, h.pointer i hi]
  · rw [hword, h.last]
  · intro i a ha
    obtain ⟨haligned, htop, hbytes⟩ := h.string i a ha
    refine ⟨haligned, htop, ?_⟩
    rw [hbyte]
    exact hbytes

/-- The old address space is freed, and the new one stays. -/
lemma handover_ends {old : Frame} {free : List Frame} {E : Stop → Prop}
    (hold : Pool V (Held Users m.page old) free) (hV : ∀ f ∈ V, k.Allocatable f)
    (hnew : Space Users {f | f ∈ free} m' d) (hout : ∀ f ∉ {f | f ∈ free}, m'.page f = m.page f) :
    Ends (freevm k (some old)) m' E fun _ u => Space Users V u d ∧ SamePages d m' u ∧
      ∀ f ∉ V, u.page f = m'.page f := by
  have hrest := (hold.rest hnew).congr (held_old hold hout)
  have hsub : ∀ f ∈ {f | (∃ x, Held Users m.page old x f) ∨ f ∈ m'.freelist}, k.Allocatable f := by
    rintro f (⟨x, hx⟩ | hf)
    · exact hV f (hold.mem_of_own hx)
    · exact hV f (hold.mem_of_free (hnew.mem_of_free hf))
  refine (freevm_ends hrest hsub).post ?_
  rintro _ u ⟨hfree, hsame⟩
  have hkeep : ∀ x f, Held Users m'.page d x f → u.page f = m'.page f :=
    fun x f hx => hsame f (hold.notMem_rest hnew hx)
  have hpages : SamePages d m' u :=
    ⟨hkeep .dir d rfl, fun i tab ht => hkeep (.table i) tab ht, fun p hp f hf => hkeep (.page p) f ⟨hp, hf⟩⟩
  refine ⟨?_, hpages, fun f hf => hsame f fun hmem => hf ?_⟩
  · exact (Pool.handover (fun _ _ h => h) hold hnew hfree).congr (held_congr hpages.dir hpages.table)
  · rcases hmem with ⟨x, hx⟩ | hfree
    · exact hold.mem_of_own hx
    · exact hold.mem_of_free (hnew.mem_of_free hfree)

/-! ### Files and transactions -/

lemma onKmem_ends {α : Type} {op : Op α} {Q : α → Kmem → Prop} (h : Ends op s.kmem (fun e => E (.vm e)) Q) :
    Ends (onKmem op) s E fun a t => ∃ m, t = { s with kmem := m } ∧ Q a m :=
  Ends.zoom (h.post fun _ m hQ => ⟨m, rfl, hQ⟩)

lemma namei_none_ends : Ends (namei none) s E fun r t => r = none ∧ t = s := Ends.pure ⟨rfl, rfl⟩

lemma namei_some_ends (ip : File) : Ends (namei (some ip)) s E fun r t =>
    r = some ip ∧ t = { s with ref := s.ref + 1 } := by
  refine Ends.bind (Ends.modify (Q := fun _ t => t = { s with ref := s.ref + 1 }) rfl) ?_
  rintro _ t rfl
  exact Ends.pure ⟨rfl, rfl⟩

lemma ilock_ends (h : 0 < s.ref) : Ends ilock s E fun _ t => t = { s with locked := true } :=
  Ends.get_bind (Ends.ite (fun hlt => absurd hlt (Nat.not_lt.mpr h)) fun _ => Ends.modify rfl)

lemma iunlockput_ends (hlock : s.locked = true) (href : 0 < s.ref) : Ends iunlockput s E fun _ t =>
    t = { s with locked := false, ref := s.ref - 1 } := by
  refine Ends.bind (Q := fun _ t => t = { s with locked := false }) (Ends.get_bind (Ends.ite ?_ ?_)) ?_
  · rintro (hfree | hlt)
    · rw [hlock] at hfree
      cases hfree
    · exact absurd hlt (Nat.not_lt.mpr href)
  · exact fun _ => Ends.modify rfl
  · rintro _ t rfl
    exact Ends.modify rfl

/-- After `bad`, when the inode is still locked. -/
def closed (s : State) (ip : Bool) : State :=
  if ip then { s with locked := false, ref := s.ref - 1, outstanding := s.outstanding - 1 } else s

/-- `bad` frees the new pages and closes the file. -/
lemma bad_ends {pgdir : Option Frame} {ip : Bool} (hU : ∀ f ∈ U, k.Allocatable f)
    (hfree : (pgdir = none ∧ Free U s.kmem) ∨ ∃ d, pgdir = some d ∧ Space Users U s.kmem d)
    (hip : ip = true → s.locked = true ∧ 0 < s.ref) :
    Ends (bad k pgdir ip) s E fun r t => r = false ∧ ∃ m, t = closed { s with kmem := m } ip ∧ Free U m ∧
      ∀ f ∉ U, m.page f = s.kmem.page f := by
  refine Ends.bind (Q := fun _ t => ∃ m, t = { s with kmem := m } ∧ Free U m ∧
    ∀ f ∉ U, m.page f = s.kmem.page f) ?_ ?_
  · rcases hfree with ⟨rfl, hfree⟩ | ⟨d, rfl, hspace⟩
    · exact Ends.pure ⟨s.kmem, rfl, hfree, fun _ _ => rfl⟩
    · exact onKmem_ends (freevm_ends hspace hU)
  · rintro _ t ⟨m, rfl, hfree, hout⟩
    cases ip with
    | false => exact Ends.pure ⟨rfl, m, rfl, hfree, hout⟩
    | true =>
      obtain ⟨hlock, href⟩ := hip rfl
      refine Ends.bind (iunlockput_ends hlock href) ?_
      rintro _ t rfl
      refine Ends.bind (Ends.modify (Q := fun _ t => t = closed { s with kmem := m } true) rfl) ?_
      rintro _ t rfl
      exact Ends.pure ⟨rfl, m, rfl, hfree, hout⟩

/-! ### `exec` -/

/-- What `exec` leaves. -/
structure Executed (k : Kernel) (V : Set Frame) (argv : List CString) (s : State) (r : Bool) (t : State) :
    Prop where
  outstanding : t.outstanding = s.outstanding
  ref : t.ref = s.ref
  ready : Ready k V t
  outside : ∀ f ∉ V, t.kmem.page f = s.kmem.page f
  failed : r = false → Untouched s t
  image : r = true → Image k {pageNo t.curproc.sz - 2} V t.kmem t.curproc.pgdir t.curproc.sz ∧
    t.curproc.sz.toNat % 4096 = 0
  passed : r = true → ∃ ptr, Passed t.kmem t.curproc.pgdir t.curproc.sz t.curproc.tf.esp argv ptr

/-- An executable without segments, and enough memory for its stack. -/
def Loadable (file : Option File) (argv : List CString) (U : Set Frame) : Prop :=
  ∃ ip elf, file = some ip ∧ ip.readElfhdr = some elf ∧ elf.phnum = 0 ∧ Spacious U 0 ∧ Fits argv ∧
    argv.length ≤ MAXARG

lemma executed_failed (h : Ready k V s) (hfree : Free (freeSet s) t.kmem)
    (hout : ∀ f ∉ freeSet s, t.kmem.page f = s.kmem.page f) (hproc : t.curproc = s.curproc)
    (hop : t.outstanding = s.outstanding) (href : t.ref = s.ref) (hlock : t.locked = false) :
    Executed k V argv s false t where
  outstanding := hop
  ref := href
  ready := by
    refine ⟨?_, ?_, hlock⟩
    · rw [hproc]
      exact h.space.untouched hfree hout
    · rw [hproc]
      exact h.kstack
  outside f hf := hout f fun hmem => hf (h.space.space.mem_of_free hmem)
  failed _ := by
    refine ⟨hproc, ?_, hout⟩
    intro f
    have hiff := hfree.mem_iff (f := f)
    exact ⟨fun hf => hiff.mpr (Or.inr hf), fun hf => (hiff.mp hf).resolve_left fun ⟨_, hfalse⟩ => hfalse⟩
  image h := by cases h
  passed h := by cases h

/-- The end of `exec`: the process gets the new image. -/
lemma switchuvm_ends {y : State} (h : y.curproc.kstack ≠ none) : Ends switchuvm y E fun _ t => t = y := by
  refine Ends.get_bind ?_
  cases hk : y.curproc.kstack with
  | none => exact absurd hk h
  | some => exact Ends.pure rfl

lemma commit_ends {entry esp : Word} (h : Ready k V s)
    (himage : Image k {pageNo sz - 2} (freeSet s) m d sz) (hal : sz.toNat % 4096 = 0)
    (hpassed : Passed m d sz esp argv ptr) (hout : ∀ f ∉ freeSet s, m.page f = s.kmem.page f) :
    Ends (do commit k path entry d sz esp; return true) { s with kmem := m } E fun r t =>
      Executed k V argv s r t ∧ r = true := by
  refine Ends.bind (Q := fun _ t => Executed k V argv s true t) ?_ fun _ _ h => Ends.pure ⟨h, rfl⟩
  refine Ends.get_bind (Ends.bind (Ends.modify (Q := fun _ t => t = { s with
    kmem := m, curproc := s.curproc.commit path entry d sz esp }) rfl) ?_)
  rintro _ t rfl
  refine Ends.bind (switchuvm_ends h.kstack) ?_
  rintro _ t rfl
  have hfree : Ends (freevm k (some s.curproc.pgdir)) m (fun e => E (.vm e)) fun _ u =>
      Space Users V u d ∧ SamePages d m u ∧ ∀ f ∉ V, u.page f = m.page f :=
    handover_ends h.space.space h.space.allocatable himage.space hout
  refine (onKmem_ends hfree).post ?_
  rintro _ t ⟨u, rfl, hspace, hpages, hrest⟩
  have himage' := hpages.image himage hspace h.space.allocatable
  refine ⟨rfl, rfl, ⟨himage'.toAddressSpace, h.kstack, h.unlocked⟩, ?_, (fun h => by cases h),
    fun _ => ⟨himage', hal⟩, fun _ => ⟨ptr, ?_⟩⟩
  · intro f hf
    rw [hrest f hf, hout f fun hmem => hf (h.space.space.mem_of_free hmem)]
  · exact hpassed.congr (hpages.userByte himage.userSpace)

/-- From the loaded segments on. -/
lemma startImage_ends {entry : Word} (h : Ready k V s) (himage : Image k ∅ (freeSet s) m d sz)
    (hsz : sz < KERNBASE) (hout : ∀ f ∉ freeSet s, m.page f = s.kmem.page f)
    (hnull : ¬ Fits argv → E (.vm .null)) :
    Ends (startImage k path argv entry d sz) { s with
      kmem := m, outstanding := s.outstanding + 1, ref := s.ref + 1, locked := true } E fun r t =>
      Executed k V argv s r t ∧
        (r = false → ¬ (Spacious (freeSet s) (PGROUNDUP sz) ∧ Fits argv ∧ argv.length ≤ MAXARG)) := by
  have hround := toNat_PGROUNDUP_le (BitVec.le_of_lt hsz)
  have hsz' : sz.toNat < 2147483648 := hsz
  refine Ends.bind (iunlockput_ends rfl (Nat.succ_pos _)) ?_
  rintro _ t rfl
  refine Ends.bind (Ends.modify (Q := fun _ t => t = { s with kmem := m }) ?_) ?_
  · rw [← h.unlocked]
    rfl
  rintro _ t rfl
  refine Ends.bind (onKmem_ends (buildStack_ends (himage.roundUp hsz) (by omega) hnull)) ?_
  rintro r t ⟨m', rfl, hout', hspace, hnone, hsome⟩
  have hout₂ : ∀ f ∉ freeSet s, m'.page f = s.kmem.page f :=
    fun f hf => (hout' f hf).trans (hout f hf)
  cases r with
  | none =>
    have hbad : Ends (bad k (some d) false) { s with kmem := m' } E _ :=
      bad_ends h.allocatable (Or.inr ⟨d, rfl, hspace⟩) fun h => by cases h
    refine hbad.post ?_
    rintro _ t ⟨rfl, m'', rfl, hfree, hout₃⟩
    refine ⟨executed_failed h hfree ?_ rfl rfl rfl h.unlocked, fun _ => hnone rfl⟩
    exact fun f hf => (hout₃ f hf).trans (hout₂ f hf)
  | some x =>
    obtain ⟨himage', hal, ptr, hpassed⟩ := hsome x.1 x.2 rfl
    refine (commit_ends h himage' hal hpassed hout₂).post ?_
    rintro r t ⟨hdone, rfl⟩
    exact ⟨hdone, fun h => by cases h⟩

/-- Whatever the file contains, `exec` is atomic; a panic is possible only where `copyout` meets arguments
that do not fit. -/
lemma exec_ends (h : Ready k V s) (hnull : ¬ Fits argv → E (.vm .null)) :
    Ends (exec k file path argv) s E fun r t =>
      Executed k V argv s r t ∧ (r = false → ¬ Loadable file argv (freeSet s)) := by
  have hU := h.allocatable
  refine Ends.bind (Ends.modify (Q := fun _ t => t = { s with outstanding := s.outstanding + 1 }) rfl) ?_
  rintro _ t rfl
  cases file with
  | none =>
    refine Ends.bind namei_none_ends ?_
    rintro _ t ⟨rfl, rfl⟩
    refine Ends.bind (Ends.modify (Q := fun _ t => t = s) rfl) ?_
    rintro _ t rfl
    refine Ends.pure ⟨?_, ?_⟩
    · exact executed_failed h h.free (fun _ _ => rfl) rfl rfl rfl h.unlocked
    · rintro - ⟨ip, elf, hfile, -⟩
      cases hfile
  | some ip =>
    refine Ends.bind (namei_some_ends ip) ?_
    rintro _ t ⟨rfl, rfl⟩
    refine Ends.bind (ilock_ends (Nat.succ_pos _)) ?_
    rintro _ t rfl
    -- all ways to `bad` while the file is open
    have hbad : ∀ {m : Kmem} {pgdir : Option Frame}, (∀ f ∉ freeSet s, m.page f = s.kmem.page f) →
        ((pgdir = none ∧ Free (freeSet s) m) ∨ ∃ d, pgdir = some d ∧ Space Users (freeSet s) m d) →
        ¬ Loadable (some ip) argv (freeSet s) → Ends (bad k pgdir true) { s with
          kmem := m, outstanding := s.outstanding + 1, ref := s.ref + 1, locked := true } E fun r t =>
          Executed k V argv s r t ∧ (r = false → ¬ Loadable (some ip) argv (freeSet s)) := by
      intro m pgdir hout hfree hload
      refine (bad_ends hU hfree fun _ => ⟨rfl, Nat.succ_pos _⟩).post ?_
      rintro _ t ⟨rfl, m', rfl, hfree', hout'⟩
      refine ⟨executed_failed h hfree' ?_ rfl rfl rfl rfl, fun _ => hload⟩
      exact fun f hf => (hout' f hf).trans (hout f hf)
    cases hhdr : ip.readElfhdr with
    | none =>
      refine hbad (fun _ _ => rfl) (Or.inl ⟨rfl, h.free⟩) ?_
      rintro ⟨_, elf, hfile, helf, -⟩
      cases hfile
      rw [hhdr] at helf
      cases helf
    | some =>
      refine Ends.bind (onKmem_ends (setupkvm_ends h.free hU)) ?_
      rintro r t ⟨m, rfl, hout, ⟨rfl, hfree, hmany⟩ | ⟨d, rfl, hspace, hpte, -⟩⟩
      · refine hbad hout (Or.inl ⟨rfl, hfree⟩) ?_
        rintro ⟨_, _, -, -, -, hspacious, -⟩
        exact hspacious.not_few hmany
      refine Ends.bind (onKmem_ends (loadSegments_ends (image_kernel hspace hU hpte) (by decide))) ?_
      rintro r t ⟨m₁, rfl, hout₁, hspace₁, hempty, hsome⟩
      have hout₁' : ∀ f ∉ freeSet s, m₁.page f = s.kmem.page f :=
        fun f hf => (hout₁ f hf).trans (hout f hf)
      cases r with
      | none =>
        refine hbad hout₁' (Or.inr ⟨d, rfl, hspace₁⟩) ?_
        rintro ⟨_, elf', hfile, helf, hnum, -⟩
        cases hfile
        rw [hhdr] at helf
        cases helf
        cases hempty (by rw [hnum]; rfl)
      | some sz =>
        obtain ⟨himage, hsz⟩ := hsome sz rfl
        refine (startImage_ends h himage hsz hout₁' hnull).post ?_
        rintro r t ⟨hdone, hfalse⟩
        refine ⟨hdone, ?_⟩
        rintro hr ⟨_, elf', hfile, helf, hnum, hspacious, hfits, hmax⟩
        cases hfile
        rw [hhdr] at helf
        cases helf
        cases hempty (by rw [hnum]; rfl)
        exact hfalse hr ⟨hspacious, hfits, hmax⟩

/-! ### The results -/

/-- For every file and every argument vector that fits on the stack, `exec` does not panic, closes the file
and its transaction, and either leaves the process and the pages in use as they were, with the same pages
free, or gives the process exactly the pages below its new size, of which only the one below the stack is
not for the user. -/
theorem exec_atomic (h : Ready k V s) (hfits : Fits argv) :
    Ends (exec k file path argv) s (fun _ => False) fun r t =>
      t.outstanding = s.outstanding ∧ t.ref = s.ref ∧ Ready k V t ∧
      ((r = false ∧ Untouched s t) ∨
        (r = true ∧ Image k {pageNo t.curproc.sz - 2} V t.kmem t.curproc.pgdir t.curproc.sz)) := by
  refine (exec_ends h fun hnot => absurd hfits hnot).imp (fun _ h => h) ?_
  rintro r t ⟨hdone, -⟩
  refine ⟨hdone.outstanding, hdone.ref, hdone.ready, ?_⟩
  cases r with
  | false => exact Or.inl ⟨rfl, hdone.failed rfl⟩
  | true => exact Or.inr ⟨rfl, (hdone.image rfl).1⟩

/-- A program that `exec` has started finds all its arguments on its stack page. -/
theorem exec_passes_arguments (h : Ready k V s) (hrun : exec k file path argv s = .ok (true, t)) :
    t.curproc.sz.toNat % 4096 = 0 ∧
      ∃ ptr, Passed t.kmem t.curproc.pgdir t.curproc.sz t.curproc.tf.esp argv ptr := by
  obtain ⟨hdone, -⟩ := (exec_ends (E := fun _ => True) h fun _ => trivial).of_ok hrun
  exact ⟨(hdone.image rfl).2, hdone.passed rfl⟩


/-! ### A small program -/

/-- An executable with a header and no segments. -/
def emptyProgram : File where
  size := 52
  data j := if j = 0 then 0x7F else if j = 1 then 0x45 else if j = 2 then 0x4C else if j = 3 then 0x46 else 0

/-- The arguments `ls` and the empty string. -/
def lsArgs : List CString :=
  [⟨[chr 'l', chr 's'], by decide, by decide⟩, ⟨[], by decide, by decide⟩]

/-- A process without user memory. -/
def emptyProcess (d : Frame) : Proc where
  pgdir := d
  sz := 0
  tf := ⟨0, 0⟩
  name _ := 0
  signal_handlers _ := 0
  kstack := some 0x3FF

/-- With enough free pages there is a process for which `exec` of the program succeeds. -/
lemma exec_emptyProgram : ∃ V s t, Ready smallKernel V s ∧
    exec smallKernel (some emptyProgram) [chr '/', chr 'l', chr 's'] lsArgs s = .ok (true, t) := by
  have hmax : 4096 ≤ 0xD000 := by decide
  obtain ⟨d, m, -, -, hspace, hpte, -⟩ := setupkvm_freePages hmax (by decide)
  have himage := image_kernel hspace (freePages_allocatable hmax) hpte
  let s : State := ⟨m, emptyProcess d, 0, 0, false⟩
  have hready : Ready smallKernel _ s := ⟨himage.toAddressSpace, Option.some_ne_none _, rfl⟩
  have hload : Loadable (some emptyProgram) lsArgs (freeSet s) := by
    refine ⟨_, _, rfl, rfl, rfl, ⟨by decide, ?_⟩, by decide, by decide⟩
    intro hfew
    have hnone : ∀ p ∈ Users, present (pteOf m.page d p) = true → p < 0 := fun p hp hpres =>
      absurd ((himage.mapped p hp).mp hpres) (Nat.not_lt_zero _)
    exact freePages_not_atMost hmax (by decide) (atMost_of_free hspace hfew hnone)
  have hends : Ends (exec smallKernel (some emptyProgram) [chr '/', chr 'l', chr 's'] lsArgs) s
      (fun _ => False) _ := exec_ends hready fun hnot => absurd (by decide) hnot
  obtain ⟨r, t, hrun, -, hr⟩ := hends.exists_ok
  refine ⟨_, s, t, hready, ?_⟩
  cases r with
  | false => exact absurd hload (hr rfl)
  | true => exact hrun

theorem exec_atomic_emptyProgram : ∃ V s, Ready smallKernel V s ∧ Fits lsArgs ∧
    Ends (exec smallKernel (some emptyProgram) [chr '/', chr 'l', chr 's'] lsArgs) s (fun _ => False)
      fun r t => t.outstanding = s.outstanding ∧ t.ref = s.ref ∧ Ready smallKernel V t ∧
        ((r = false ∧ Untouched s t) ∨
          (r = true ∧
            Image smallKernel {pageNo t.curproc.sz - 2} V t.kmem t.curproc.pgdir t.curproc.sz)) := by
  obtain ⟨V, s, -, hready, -⟩ := exec_emptyProgram
  exact ⟨V, s, hready, by decide, exec_atomic hready (by decide)⟩

theorem exec_passes_arguments_ls : ∃ V s t, Ready smallKernel V s ∧
    exec smallKernel (some emptyProgram) [chr '/', chr 'l', chr 's'] lsArgs s = .ok (true, t) ∧
    t.curproc.sz.toNat % 4096 = 0 ∧
    ∃ ptr, Passed t.kmem t.curproc.pgdir t.curproc.sz t.curproc.tf.esp lsArgs ptr := by
  obtain ⟨V, s, t, hready, hrun⟩ := exec_emptyProgram
  exact ⟨V, s, t, hready, hrun, exec_passes_arguments hready hrun⟩

end Xv6.Vm
