import Xv6.Machine.Run
import Xv6.Umalloc.Allocator
import Xv6.Vm.CopyUvm
import Xv6.Vm.ExecAtomic

/-!
# Whose page it is

The memory of all processes together. Kernel stacks and pipes are single pages; `fork`, `growproc`, `exec` and
`wait` work on address spaces, in any order, one call at a time. A call changes the pages of one holder and free
pages only, so every page stays in one place and no process reaches a page of another.
-/

namespace Xv6.Vm

open Machine Function

-- otherwise unification would run the programs
attribute [local irreducible] Ends

inductive Thing
  /-- a kernel stack or a pipe -/
  | page (f : Frame)
  | proc (c : Proc)

structure World where
  kmem : Kmem
  thing : Nat → Option Thing
  /-- a call has panicked -/
  stopped : Bool

inductive Call
  /-- in `allocproc` and `pipealloc` -/
  | kalloc (a : Nat)
  /-- in `fork`, `wait` and `pipeclose` -/
  | kfree (a : Nat)
  /-- in the `fork` of `p`, for the process `np` with the kernel stack `a` -/
  | copyuvm (p np a : Nat)
  | growproc (p : Nat) (n : Word)
  | exec (p : Nat) (file : Option File) (path : List Byte) (argv : List CString)
  /-- in `wait`, for the child `p` -/
  | freevm (p : Nat)

/-- The thing whose pages a call takes or gives. -/
def Call.holder : Call → Nat
  | .kalloc a | .kfree a | .copyuvm _ a _ | .growproc a _ | .exec a _ _ _ | .freevm a => a

def World.put (w : World) (a : Nat) (x : Option Thing) (m : Kmem) : World :=
  { w with kmem := m, thing := update w.thing a x }

def World.after {ε : Type} (w : World) (a : Nat) : Except ε (Option Thing × Kmem) → Option World
  | .ok (x, m) => some (w.put a x m)
  | .error _ => some { w with stopped := true }

variable (k : Kernel)

def World.call (w : World) : Call → Option World
  | .kalloc a =>
    match w.thing a with
    | none => w.after a ((kalloc w.kmem).map fun r => (r.1.map .page, r.2))
    | some _ => none
  | .kfree a =>
    match w.thing a with
    | some (.page f) => w.after a ((kfree k f w.kmem).map fun r => (none, r.2))
    | _ => none
  | .copyuvm p np a =>
    match w.thing p, w.thing np, w.thing a with
    | some (.proc c), none, some (.page f) => w.after np ((copyuvm k c.pgdir c.sz w.kmem).map fun r =>
      (r.1.map fun d => .proc { c with pgdir := d, kstack := some f }, r.2))
    | _, _, _ => none
  | .growproc p n =>
    match w.thing p with
    | some (.proc c) => w.after p ((growproc k c.pgdir c.sz n w.kmem).map fun r =>
      (some (.proc { c with sz := r.1.getD c.sz }), r.2))
    | _ => none
  | .exec p file path argv =>
    match w.thing p with
    | some (.proc c) => w.after p ((exec k file path argv ⟨w.kmem, c, 0, 0, false⟩).map fun r =>
      (some (.proc r.2.curproc), r.2.kmem))
    | _ => none
  | .freevm p =>
    match w.thing p with
    | some (.proc c) => w.after p ((freevm k (some c.pgdir) w.kmem).map fun r => (none, r.2))
    | _ => none

def World.step (w : World) (l : Call) : Option World := if w.stopped then none else w.call k l

/-- What the callers see to: `growproc` does not shrink a process to nothing, where it reports an error after
the pages are gone, and the arguments of `exec` fit on the stack. -/
def Allowed (w : World) : Call → Prop
  | .growproc p n => ∀ c, w.thing p = some (.proc c) → n.slt 0 = true → c.sz + n ≠ 0
  | .exec _ _ _ argv => Fits argv
  | _ => True

/-- The first process alone. -/
def World.first (m : Kmem) (c : Proc) : World := ⟨m, update (fun _ => none) 0 (some (.proc c)), false⟩

/-! ### Holders -/

/-- A single page has the place of a directory. -/
def Thing.Holds (m : Kmem) : Thing → Place → Frame → Prop
  | .page f, y, g => y = .dir ∧ g = f
  | .proc c, y, g => Held Users m.page c.pgdir y g

def World.Holds (w : World) (z : Nat × Place) (f : Frame) : Prop := ∃ b ∈ w.thing z.1, b.Holds w.kmem z.2 f

/-- The pages of one thing and the free pages. -/
abbrev World.share (w : World) (a : Nat) : Set Frame :=
  Machine.share w.Holds (fun y => (a, y)) w.kmem.freelist

variable {k} {U : Set Frame} {w w' : World} {a b p q : Nat} {x : Option Thing} {c : Proc} {m : Kmem}
  {f : Frame} {l : Call} {n : Word} {y : Place} {v : Nat}

/-- The pages below the size are mapped and the kernel's pages are not for the user. -/
structure Proper (m : Kmem) (c : Proc) : Prop where
  size_le : c.sz ≤ KERNBASE
  mapped : ∀ v ∈ Users, present (pteOf m.page c.pgdir v) = true ↔ 4096 * v < c.sz.toNat
  kernel : ∀ v ∉ Users, user (pteOf m.page c.pgdir v) = false
  kstack : c.kstack ≠ none

/-- Every page of `U` is free once or held once. -/
structure Isolated (k : Kernel) (U : Set Frame) (w : World) : Prop where
  running : w.stopped = false
  pool : Pool U w.Holds w.kmem.freelist
  allocatable : ∀ f ∈ U, k.Allocatable f
  proper : ∀ p c, w.thing p = some (.proc c) → Proper w.kmem c

/-- What a call for `a` may do: `a` becomes `x` and the memory `m`. -/
structure Only (w : World) (a : Nat) (x : Option Thing) (m : Kmem) : Prop where
  pool : Pool (w.share a) (fun y f => ∃ b ∈ x, b.Holds m y f) m.freelist
  outside : ∀ f ∉ w.share a, m.page f = w.kmem.page f
  proper : ∀ c, x = some (.proc c) → Proper m c

lemma Only.of_free (hfree : Free (w.share a) m) (hout : ∀ f ∉ w.share a, m.page f = w.kmem.page f) :
    Only w a none m :=
  ⟨hfree.congr (by simp), hout, fun c hc => by cases hc⟩

lemma Only.of_space (h : AddressSpace k (w.share a) m c.pgdir c.sz)
    (hkernel : ∀ v ∉ Users, user (pteOf m.page c.pgdir v) = false) (hstack : c.kstack ≠ none)
    (hout : ∀ f ∉ w.share a, m.page f = w.kmem.page f) : Only w a (some (.proc c)) m := by
  refine ⟨h.space.congr (by simp [Thing.Holds]), hout, ?_⟩
  rintro _ ⟨⟩
  exact ⟨h.size_le, h.mapped, hkernel, hstack⟩

lemma Only.after {σ ε α : Type} {op : StateT σ (Except ε) α} {s : σ} {g : α × σ → Option Thing × Kmem}
    (hstep : w.after a ((op s).map g) = some w')
    (h : Ends op s (fun _ => False) fun r t => Only w a (g (r, t)).1 (g (r, t)).2) :
    ∃ x m, Only w a x m ∧ w' = w.put a x m := by
  obtain ⟨r, t, hrun, ho⟩ := h.exists_ok
  rw [hrun] at hstep
  exact ⟨_, _, ho, (Option.some.inj hstep).symm⟩

section Isolated

variable (h : Isolated k U w)

include h

lemma Isolated.part (a : Nat) : Pool (w.share a) (fun y => w.Holds (a, y)) w.kmem.freelist :=
  h.pool.part fun _ _ heq => (Prod.mk.inj heq).2

lemma Isolated.allocatable_share : ∀ f ∈ w.share a, k.Allocatable f :=
  fun f hf => h.allocatable f (h.pool.share_subset hf)

lemma Isolated.free (ha : w.thing a = none) : Free (w.share a) w.kmem :=
  (h.part a).congr (by simp [World.Holds, ha])

lemma Isolated.addressSpace (hc : w.thing p = some (.proc c)) :
    AddressSpace k (w.share p) w.kmem c.pgdir c.sz where
  space := (h.part p).congr (by simp [World.Holds, Thing.Holds, hc])
  allocatable := h.allocatable_share
  size_le := (h.proper p c hc).size_le
  mapped := (h.proper p c hc).mapped

/-! ### The calls -/

lemma Isolated.kalloc (ha : w.thing a = none) :
    Ends kalloc w.kmem (fun _ => False) fun r t => Only w a (r.map .page) t := by
  have hfree := h.free ha
  refine (kalloc_ends hfree).post ?_
  rintro r t (⟨rfl, rfl, -⟩ | ⟨f, rfl, hf, hpage, hpool⟩)
  · exact .of_free hfree fun _ _ => rfl
  · refine ⟨?_, fun g _ => by rw [hpage], fun c hc => by cases hc⟩
    rw [← Set.insert_sdiff_self_of_mem hf]
    exact hpool.take (x := .dir) (fun hin => hin.2 rfl) (by simp [Thing.Holds])

lemma Isolated.kfree (ha : w.thing a = some (.page f)) :
    Ends (kfree k f) w.kmem (fun _ => False) fun _ t => Only w a none t := by
  have hown : w.Holds (a, .dir) f := ⟨_, ha, rfl, rfl⟩
  have hmem : f ∈ w.share a := .inl ⟨.dir, hown⟩
  have hdrop : Free (w.share a \ {f}) w.kmem :=
    (h.part a).drop (x := .dir) hown (by simp [World.Holds, Thing.Holds, ha])
  refine (kfree_ends hdrop (fun hin => hin.2 rfl) (h.allocatable_share f hmem)).post ?_
  rintro _ t ⟨hpage, -, hpool⟩
  rw [Set.insert_sdiff_self_of_mem hmem] at hpool
  refine .of_free hpool fun g hg => ?_
  rw [hpage, update_of_ne]
  rintro rfl
  exact hg hmem

lemma Isolated.copyuvm (hc : w.thing p = some (.proc c)) (hq : w.thing q = none) :
    Ends (copyuvm k c.pgdir c.sz) w.kmem (fun _ => False) fun r t =>
      Only w q (r.map fun d => .proc { c with pgdir := d, kstack := some f }) t := by
  have hshare : w.share q = {f | f ∈ w.kmem.freelist} := by
    ext f
    simp [share, World.Holds, hq]
  have hparent := (h.addressSpace hc).parent
  rw [← hshare] at hparent
  refine (copyuvm_ends (h.free hq) h.allocatable_share hparent).post ?_
  rintro r t ⟨hout, ⟨rfl, hfree⟩ | ⟨d, rfl, hspace, hcopy⟩⟩
  · exact .of_free hfree hout
  · refine .of_space ⟨hspace, h.allocatable_share, hparent.size_le, fun v hv => ?_⟩ (fun v hv => ?_)
      (Option.some_ne_none f) hout
    · rcases Nat.lt_or_ge (4096 * v) c.sz.toNat with hlt | hge
      · obtain ⟨_, f', -, hf', -⟩ := hcopy.fresh v hlt
        exact iff_of_true (pageOf_eq_some.mp hf').1 hlt
      · have habs := pageOf_eq_none.mp (hcopy.absent v hv hge)
        exact iff_of_false (Bool.eq_false_iff.mp habs) (Nat.not_lt.mpr hge)
    · rw [hcopy.kernel v hv]
      exact kpte_not_user k v

lemma Isolated.growproc (hc : w.thing p = some (.proc c)) (hn : n.slt 0 = true → c.sz + n ≠ 0) :
    Ends (growproc k c.pgdir c.sz n) w.kmem (fun _ => False) fun r t =>
      Only w p (some (.proc { c with sz := r.getD c.sz })) t := by
  have hp := h.proper p c hc
  refine (Umalloc.growproc_ends (h.addressSpace hc)).post ?_
  rintro r t ⟨-, ⟨A, hA, hkeeps⟩, hspace⟩
  refine .of_space (hspace hn) (fun v hv => ?_) hp.kstack hkeeps.outside
  rw [hkeeps.pte v fun hmem => hv (hA hmem)]
  exact hp.kernel v hv

lemma Isolated.exec {file : Option File} {path : List Byte} {argv : List CString}
    (hc : w.thing p = some (.proc c)) (hfits : Fits argv) :
    Ends (exec k file path argv) ⟨w.kmem, c, 0, 0, false⟩ (fun _ => False) fun _ t =>
      Only w p (some (.proc t.curproc)) t.kmem := by
  have hp := h.proper p c hc
  have hready : Ready k (w.share p) ⟨w.kmem, c, 0, 0, false⟩ := ⟨h.addressSpace hc, hp.kstack, rfl⟩
  refine (exec_ends hready fun hnot => hnot hfits).post ?_
  rintro r t ⟨hx, -⟩
  refine .of_space hx.ready.space (fun v hv => ?_) hx.ready.kstack hx.outside
  cases r with
  | true => exact (hx.image rfl).1.kernel v hv
  | false =>
    rw [(hx.failed rfl).curproc, hready.space.parent.pteOf_eq (hx.failed rfl).used]
    exact hp.kernel v hv

lemma Isolated.freevm (hc : w.thing p = some (.proc c)) :
    Ends (freevm k (some c.pgdir)) w.kmem (fun _ => False) fun _ t => Only w p none t :=
  (freevm_ends (h.addressSpace hc).space h.allocatable_share).post fun _ _ ht => .of_free ht.1 ht.2

/-- A call does not panic, and changes the pages of one thing and free pages only. -/
lemma Isolated.step (hl : Allowed w l) (hstep : w.step k l = some w') :
    ∃ x m, Only w l.holder x m ∧ w' = w.put l.holder x m := by
  rw [World.step, h.running, if_neg Bool.false_ne_true] at hstep
  cases l <;> simp only [World.call] at hstep <;> split at hstep <;>
    try with_reducible exact absurd hstep.symm (Option.some_ne_none _)
  · exact Only.after hstep (h.kalloc ‹_›)
  · exact Only.after hstep (h.kfree ‹_›)
  · exact Only.after hstep (h.copyuvm ‹_› ‹_›)
  · exact Only.after hstep (h.growproc ‹_› (hl _ ‹_›))
  · exact Only.after hstep (h.exec ‹_› hl)
  · exact Only.after hstep (h.freevm ‹_›)

/-! ### The others -/

variable (ho : Only w a x m) (hne : p ≠ a)

include ho hne

lemma Only.page (hf : w.Holds (p, y) f) : m.page f = w.kmem.page f :=
  ho.outside f (h.pool.notMem_share (fun _ heq => hne (congrArg Prod.fst heq).symm) hf)

variable (hc : w.thing p = some (.proc c))

include hc

lemma Only.pte (v : Nat) : pteOf m.page c.pgdir v = pteOf w.kmem.page c.pgdir v :=
  pteOf_congr (ho.page h hne (y := .dir) ⟨_, hc, rfl⟩) (fun i _ ht => ho.page h hne (y := .table i) ⟨_, hc, ht⟩) v

lemma Only.held : Held Users m.page c.pgdir y f ↔ Held Users w.kmem.page c.pgdir y f :=
  held_congr (ho.page h hne (y := .dir) ⟨_, hc, rfl⟩) (fun i _ ht => ho.page h hne (y := .table i) ⟨_, hc, ht⟩) y f

end Isolated

/-- A call keeps every page in one place. -/
lemma Only.isolated (ho : Only w a x m) (h : Isolated k U w) : Isolated k U (w.put a x m) where
  running := h.running
  pool := by
    refine h.pool.replace ho.pool (by simp [World.Holds, World.put]) ?_
    rintro ⟨b, y⟩ f hne
    have hba : b ≠ a := fun hb => hne y (by rw [hb])
    simp only [World.Holds, World.put, update_of_ne hba]
    refine exists_congr fun z => and_congr_right fun hz => ?_
    cases z with
    | page => exact Iff.rfl
    | proc => exact ho.held h hba hz
  allocatable := h.allocatable
  proper p c hc := by
    by_cases hp : p = a
    · subst hp
      exact ho.proper c (by simpa [World.put] using hc)
    · have hc : w.thing p = some (.proc c) := by simpa [World.put, hp] using hc
      obtain ⟨hsize, hmapped, hkernel, hstack⟩ := h.proper p c hc
      refine ⟨hsize, ?_, ?_, hstack⟩ <;> intro v hv <;> rw [World.put, ho.pte h hp hc]
      · exact hmapped v hv
      · exact hkernel v hv

/-! ### Runs -/

lemma first_isolated (h : AddressSpace k U m c.pgdir c.sz)
    (hkernel : ∀ v ∉ Users, user (pteOf m.page c.pgdir v) = false) (hstack : c.kstack ≠ none) :
    Isolated k U (World.first m c) where
  running := rfl
  pool := by
    refine (h.space.embed (g := fun y => (0, y))).congr ?_
    rintro ⟨p, y⟩ g
    cases p <;> simp [World.Holds, World.first, Thing.Holds]
  allocatable := h.allocatable
  proper p c' hc := by
    cases p with
    | zero =>
      cases hc
      exact ⟨h.size_le, h.mapped, hkernel, hstack⟩
    | succ => simp [World.first] at hc

lemma Isolated.run (h : Isolated k U w) (hrun : Reach (World.step k) Allowed w w') : Isolated k U w' := by
  refine hrun.invariant h ?_
  intro s l s' hs hl hstep
  obtain ⟨x, m, ho, rfl⟩ := hs.step hl hstep
  exact ho.isolated hs

/-- In every run no call panics, and every page stays in one place: it is free or belongs to one kernel stack,
pipe or address space. -/
theorem pages_conserved (h : Isolated k U w) (hrun : Reach (World.step k) Allowed w w') :
    w'.stopped = false ∧ w'.kmem.freelist.Nodup ∧ ∀ g, g ∈ U ↔
      (g ∈ w'.kmem.freelist ∧ ∀ z, ¬ w'.Holds z g) ∨ (g ∉ w'.kmem.freelist ∧ ∃! z, w'.Holds z g) := by
  have hw := h.run hrun
  refine ⟨hw.running, hw.pool.nodup, fun g => ?_⟩
  rw [hw.pool.mem_iff]
  constructor
  · rintro (⟨z, hz⟩ | hfree)
    · exact Or.inr ⟨hw.pool.notMem hz, z, hz, fun z' hz' => hw.pool.inj hz' hz⟩
    · exact Or.inl ⟨hfree, fun z hz => hw.pool.notMem hz hfree⟩
  · rintro (⟨hfree, -⟩ | ⟨-, z, hz, -⟩)
    · exact Or.inr hfree
    · exact Or.inl ⟨z, hz⟩

/-- A call for another process, a kernel stack or a pipe leaves the memory of a process as it is. -/
theorem other_memory_unchanged {w₀ : World} (h : Isolated k U w₀) (hrun : Reach (World.step k) Allowed w₀ w)
    (hl : Allowed w l) (hstep : w.step k l = some w') (hc : w.thing p = some (.proc c)) (hne : p ≠ l.holder) :
    w'.thing p = some (.proc c) ∧ (∀ v, pteOf w'.kmem.page c.pgdir v = pteOf w.kmem.page c.pgdir v) ∧
      ∀ v ∈ Users, SamePage c.pgdir w.kmem w'.kmem v := by
  have hw := h.run hrun
  obtain ⟨x, m, ho, rfl⟩ := hw.step hl hstep
  have hpte := ho.pte hw hne hc
  refine ⟨(update_of_ne hne ..).trans hc, hpte, fun v hv => ⟨hpte v, fun g hg => ?_⟩⟩
  exact ho.page hw hne (y := .page v) ⟨_, hc, hv, hg⟩

/-! ### One process -/

/-- A process of one page. -/
def oneProcess : World := .first onePage { emptyProcess 0x400 with sz := 4096 }

lemma oneProcess_isolated : Isolated smallKernel {0x402, 0x401, 0x400, 0x403} oneProcess := by
  refine first_isolated onePage_addressSpace (fun v hv => ?_) (Option.some_ne_none _)
  have hne : v ≠ 0 := by
    rintro rfl
    exact hv (show 0 < 524288 by decide)
  exact (congrArg user ((onePage_pte v).trans (if_neg hne))).trans (by decide)

/-- The free page becomes a pipe. -/
lemma oneProcess_pipe : ∃ w, oneProcess.step smallKernel (.kalloc 1) = some w ∧
    Reach (World.step smallKernel) Allowed oneProcess w :=
  ⟨_, rfl, .single (l := .kalloc 1) trivial rfl⟩

theorem pages_conserved_pipe : ∃ w, Reach (World.step smallKernel) Allowed oneProcess w ∧
    w.stopped = false ∧ w.kmem.freelist.Nodup := by
  obtain ⟨w, -, hrun⟩ := oneProcess_pipe
  have hw := pages_conserved oneProcess_isolated hrun
  exact ⟨w, hrun, hw.1, hw.2.1⟩

theorem other_memory_unchanged_pipe : ∃ w, oneProcess.step smallKernel (.kalloc 1) = some w ∧
    ∀ v ∈ Users, SamePage 0x400 onePage w.kmem v := by
  obtain ⟨w, hstep, -⟩ := oneProcess_pipe
  have hw := other_memory_unchanged (p := 0) (c := { emptyProcess 0x400 with sz := 4096 }) (l := .kalloc 1)
    oneProcess_isolated .refl trivial hstep rfl (by decide)
  exact ⟨w, hstep, hw.2.2⟩

end Xv6.Vm
