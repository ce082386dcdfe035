import Xv6.Driver.IdeRefinement
import Xv6.Fs.BcacheList

/-!
# The contents of the buffers

Which buffers the processes in the cache have locked, and which contents a block has: those of a buffer
that is valid and stored, and those of the disk if no buffer of the block is dirty. For each kind of
change of a buffer or a process there is one lemma.
-/

namespace Xv6.Bcache

open Machine Function
open Log (Block)
open Ide (ProcId BufId Buf Disk)

variable {s s' : State} {h : Hist} {l : Label} {q q' : ProcId} {i j : BufId} {b : Buf} {x : Pc}
  {y : Ide.Pc} {dev blockno : Word} {data : Block} {buf : BufId → Buf} {refcnt : BufId → Nat}
  {ids : List BufId} {pc : ProcId → Pc} {ide : ProcId → Ide.Pc} {unsaved : BufId → Bool}
  {disk : Nat → Disk} {device : Ide.Device} {queue rest : List BufId}

/-! ### The processes -/

/-- The buffer that a process in the cache has locked for its call. -/
def Pc.holds : Pc → Option BufId
  | .checking _ _ i | .reading _ _ i | .returned _ _ i | .writing i => some i
  | .user | .locking .. | .releasing _ => none

/-- The buffer that it is in `iderw` with. -/
def Pc.inside : Pc → Option BufId
  | .reading _ _ i | .writing i => some i
  | .user | .locking .. | .checking .. | .returned .. | .releasing _ => none

/-- The buffer that it has locked and that may not be valid yet. -/
def Pc.fills : Pc → Option BufId
  | .checking _ _ i | .reading _ _ i => some i
  | .user | .locking .. | .returned .. | .writing _ | .releasing _ => none

/-- The block that it has called `bread` for, and the buffer from `bget`. -/
def Pc.block : Pc → Option (Word × Word × BufId)
  | .locking dev blockno i | .checking dev blockno i | .reading dev blockno i
  | .returned dev blockno i => some (dev, blockno, i)
  | .user | .writing _ | .releasing _ => none

structure ProcInv (buf : BufId → Buf) (ide : ProcId → Ide.Pc) (pc : ProcId → Pc) : Prop where
  inside : ∀ q, (ide q).inside = (pc q).inside
  holds : ∀ q i, (pc q).holds = some i → (buf i).lock = some q
  block : ∀ q dev blockno i, (pc q).block = some (dev, blockno, i) →
    (buf i).dev = dev ∧ (buf i).blockno = blockno
  filled : ∀ q i, (buf i).lock = some q → (buf i).valid = true ∨ (pc q).fills = some i
  done : ∀ q i, ide q = .returned i → (buf i).clean = true
  dirty : ∀ i, (buf i).dirty = true → (buf i).valid = true

section

variable (hinv : ProcInv buf ide pc)

include hinv

/-- A process that is outside the cache has read the buffers that it has locked. -/
lemma ProcInv.valid_of_lock (hpc : pc q = .user)
    (hlock : (buf i).lock = some q) : (buf i).valid = true := by
  rcases hinv.filled q i hlock with hvalid | hfills
  · exact hvalid
  · rw [hpc] at hfills
    cases hfills

/-- One process moves. -/
lemma ProcInv.move (hinside : y.inside = x.inside)
    (hholds : ∀ i, x.holds = some i → (buf i).lock = some q)
    (hblock : ∀ dev blockno i, x.block = some (dev, blockno, i) →
      (buf i).dev = dev ∧ (buf i).blockno = blockno)
    (hfills : ∀ i, (pc q).fills = some i → (buf i).valid = true ∨ x.fills = some i)
    (hdone : ∀ i, y = .returned i → (buf i).clean = true) :
    ProcInv buf (update ide q y) (update pc q x) := by
  refine ⟨fun q' => ?_, fun q' i hi => ?_, fun q' dev blockno i hi => ?_, fun q' i hi => ?_,
    fun q' i hi => ?_, hinv.dirty⟩
  all_goals by_cases hq : q' = q
  · subst hq
    rw [update_self, update_self, hinside]
  · rw [update_of_ne hq, update_of_ne hq, hinv.inside]
  · subst hq
    rw [update_self] at hi
    exact hholds i hi
  · rw [update_of_ne hq] at hi
    exact hinv.holds q' i hi
  · subst hq
    rw [update_self] at hi
    exact hblock dev blockno i hi
  · rw [update_of_ne hq] at hi
    exact hinv.block q' dev blockno i hi
  · subst hq
    rw [update_self]
    rcases hinv.filled q' i hi with hvalid | hold
    · exact .inl hvalid
    · exact hfills i hold
  · rw [update_of_ne hq]
    exact hinv.filled q' i hi
  · subst hq
    rw [update_self] at hi
    exact hdone i hi
  · rw [update_of_ne hq] at hi
    exact hinv.done q' i hi

lemma ProcInv.setPc (hinside : x.inside = (pc q).inside)
    (hholds : ∀ i, x.holds = some i → (buf i).lock = some q)
    (hblock : ∀ dev blockno i, x.block = some (dev, blockno, i) →
      (buf i).dev = dev ∧ (buf i).blockno = blockno)
    (hfills : ∀ i, (pc q).fills = some i → (buf i).valid = true ∨ x.fills = some i) :
    ProcInv buf ide (update pc q x) := by
  have hmove := hinv.move (y := ide q) ((hinv.inside q).trans hinside.symm) hholds hblock hfills
    (hinv.done q)
  rwa [update_eq_self] at hmove

/-- One buffer changes. -/
lemma ProcInv.setBuf (hholds : ∀ q, (pc q).holds = some i → b.lock = some q)
    (hblock : ∀ q dev blockno, (pc q).block = some (dev, blockno, i) → b.dev = dev ∧ b.blockno = blockno)
    (hfilled : ∀ q, b.lock = some q → b.valid = true ∨ (pc q).fills = some i)
    (hdone : ∀ q, ide q = .returned i → b.clean = true) (hdirty : b.dirty = true → b.valid = true) :
    ProcInv (update buf i b) ide pc := by
  refine ⟨hinv.inside, fun q j hj => ?_, fun q dev blockno j hj => ?_, fun q j hj => ?_,
    fun q j hj => ?_, fun j hj => ?_⟩
  all_goals by_cases hji : j = i
  · subst hji
    rw [update_self]
    exact hholds q hj
  · rw [update_of_ne hji]
    exact hinv.holds q j hj
  · subst hji
    rw [update_self]
    exact hblock q dev blockno hj
  · rw [update_of_ne hji]
    exact hinv.block q dev blockno j hj
  · subst hji
    rw [update_self] at hj ⊢
    exact hfilled q hj
  · rw [update_of_ne hji] at hj ⊢
    exact hinv.filled q j hj
  · subst hji
    rw [update_self]
    exact hdone q hj
  · rw [update_of_ne hji]
    exact hinv.done q j hj
  · subst hji
    rw [update_self] at hj ⊢
    exact hdirty hj
  · rw [update_of_ne hji] at hj ⊢
    exact hinv.dirty j hj

end

/-! ### The contents -/

/-- A buffer that was changed and not stored is locked by a process outside the cache. -/
def SaveInv (buf : BufId → Buf) (pc : ProcId → Pc) (unsaved : BufId → Bool) : Prop :=
  ∀ i, unsaved i = true → ∃ q, (buf i).lock = some q ∧ (pc q).holds ≠ some i

section

variable (hinv : SaveInv buf pc unsaved)

include hinv

lemma SaveInv.setPc
    (hx : ∀ i, x.holds = some i → (pc q).holds = some i ∨ unsaved i = false) :
    SaveInv buf (update pc q x) unsaved := by
  intro i hi
  obtain ⟨q', hlock, hne⟩ := hinv i hi
  refine ⟨q', hlock, fun hholds => ?_⟩
  by_cases hq : q' = q
  · subst hq
    rw [update_self] at hholds
    rcases hx i hholds with hold | hsaved
    · exact hne hold
    · cases hi.symm.trans hsaved
  · rw [update_of_ne hq] at hholds
    exact hne hholds

lemma SaveInv.setBuf (hb : b.lock = (buf i).lock ∨ unsaved i = false) :
    SaveInv (update buf i b) pc unsaved := by
  intro j hj
  obtain ⟨q, hlock, hne⟩ := hinv j hj
  refine ⟨q, ?_, hne⟩
  by_cases hji : j = i
  · subst hji
    rcases hb with hsame | hsaved
    · rw [update_self, hsame, hlock]
    · cases hj.symm.trans hsaved
  · rw [update_of_ne hji, hlock]

/-- A buffer with which a process is in the cache is stored. -/
lemma SaveInv.saved (hlock : (buf i).lock = some q)
    (hq : (pc q).holds = some i) : unsaved i = false := by
  cases hi : unsaved i with
  | false => rfl
  | true =>
    obtain ⟨q', hlock', hne⟩ := hinv i hi
    obtain rfl := Option.some.inj (hlock.symm.trans hlock')
    exact absurd hq hne

lemma SaveInv.saved_of_free (hlock : (buf i).lock = none) :
    unsaved i = false := by
  cases hi : unsaved i with
  | false => rfl
  | true =>
    obtain ⟨q', hlock', _⟩ := hinv i hi
    cases hlock.symm.trans hlock'

end

structure DataInv (buf : BufId → Buf) (refcnt : BufId → Nat) (disk : Nat → Disk) (h : Hist) :
    Prop where
  devs : ∀ i, Live buf refcnt i → (buf i).dev ∈ h.devs
  cached : ∀ i, (buf i).valid = true → h.unsaved i = false → h.Sole (buf i).dev →
    (buf i).data = h.contents (buf i).dev (buf i).blockno
  disk : ∀ dev blockno, h.Sole dev →
    (∀ i, (buf i).dev = dev → (buf i).blockno = blockno → (buf i).dirty = false) →
    onDisk disk dev blockno = h.contents dev blockno

/-- What the disk has done for the first request when it raises the interrupt. -/
def Port (buf : BufId → Buf) (disk : Nat → Disk) (device : Ide.Device) (queue : List BufId) : Prop :=
  ∀ data i rest, device = .done data → queue = i :: rest →
    onDisk disk (buf i).dev (buf i).blockno = if (buf i).dirty then (buf i).data else data

lemma Port.setBuf (hport : Port buf disk device queue) (hne : ∀ rest, queue ≠ i :: rest) :
    Port (update buf i b) disk device queue := by
  intro data j rest hdevice hqueue
  have hji : j ≠ i := by
    rintro rfl
    exact hne rest hqueue
  rw [update_of_ne hji]
  exact hport data j rest hdevice hqueue

lemma Hist.Sole.of_cons {d : Word} (hsole : Hist.Sole { h with devs := d :: h.devs } dev) :
    h.Sole dev :=
  fun d hd => hsole d (List.mem_cons_of_mem _ hd)

/-- Nothing is stored, and no data appears. -/
lemma DataInv.mono {buf' : BufId → Buf} {refcnt' : BufId → Nat} (hinv : DataInv buf refcnt disk h)
    (hsame : ∀ j, SameBlock (buf' j) (buf j)) (hdirty : ∀ j, (buf' j).dirty = (buf j).dirty)
    (hlive : ∀ j, Live buf' refcnt' j → Live buf refcnt j)
    (hdata : ∀ j, (buf' j).valid = true → unsaved j = false →
      (buf j).valid = true ∧ h.unsaved j = false ∧ (buf' j).data = (buf j).data) :
    DataInv buf' refcnt' disk { h with unsaved := unsaved } where
  devs := by
    intro j hj
    rw [(hsame j).1]
    exact hinv.devs j (hlive j hj)
  cached := by
    intro j hvalid hsaved hsole
    obtain ⟨hvalid, hsaved, heq⟩ := hdata j hvalid hsaved
    rw [(hsame j).1] at hsole ⊢
    rw [(hsame j).2, heq]
    exact hinv.cached j hvalid hsaved hsole
  disk := by
    intro dev blockno hsole hclean
    refine hinv.disk dev blockno hsole fun j hdev hblock => ?_
    rw [← hdirty j]
    exact hclean j ((hsame j).1.trans hdev) ((hsame j).2.trans hblock)

/-- `bread` is called for a device, and a buffer that is not dirty may become one of its buffers. -/
lemma DataInv.bread (hinv : DataInv buf refcnt disk h) {n : Nat} (hdev : b.dev = dev)
    (hb : b = buf i ∨ (b.valid = false ∧ b.dirty = false ∧ (buf i).dirty = false)) :
    DataInv (update buf i b) (update refcnt i n) disk { h with devs := dev :: h.devs } where
  devs := by
    intro j hj
    by_cases hji : j = i
    · subst hji
      rw [update_self, hdev]
      exact List.mem_cons_self
    · rw [Live, update_of_ne hji, update_of_ne hji] at hj
      rw [update_of_ne hji]
      exact List.mem_cons_of_mem _ (hinv.devs j hj)
  cached := by
    intro j hvalid hsaved hsole
    by_cases hji : j = i
    · subst hji
      rw [update_self] at hvalid hsole ⊢
      rcases hb with rfl | ⟨hinvalid, _, _⟩
      · exact hinv.cached j hvalid hsaved hsole.of_cons
      · cases hvalid.symm.trans hinvalid
    · rw [update_of_ne hji] at hvalid hsole ⊢
      exact hinv.cached j hvalid hsaved hsole.of_cons
  disk := by
    intro dev' blockno' hsole hclean
    refine hinv.disk dev' blockno' hsole.of_cons fun j hdev' hblock' => ?_
    have hj := hclean j
    by_cases hji : j = i
    · subst hji
      rcases hb with rfl | ⟨_, _, hold⟩
      · rw [update_self] at hj
        exact hj hdev' hblock'
      · exact hold
    · rw [update_of_ne hji] at hj
      exact hj hdev' hblock'

/-- The data of a buffer is stored: `B_DIRTY` is set. -/
lemma DataInv.store (hinv : DataInv buf refcnt disk h) (hvalid : (buf i).valid = true)
    (hunique : ∀ j, (buf j).valid = true → SameBlock (buf j) (buf i) → j = i) :
    DataInv (update buf i { buf i with dirty := true }) refcnt disk (h.store i (buf i)) where
  devs := by
    intro j hj
    by_cases hji : j = i
    · subst hji
      rw [update_self]
      exact hinv.devs j (.inl hvalid)
    · rw [Live, update_of_ne hji] at hj
      rw [update_of_ne hji]
      exact hinv.devs j hj
  cached := by
    intro j hj hsaved hsole
    simp only [Hist.store] at hsaved ⊢
    by_cases hji : j = i
    · subst hji
      rw [update_self, if_pos ⟨rfl, rfl⟩]
    · rw [update_of_ne hji] at hj hsaved hsole ⊢
      have hne : ¬ ((buf j).dev = (buf i).dev ∧ (buf j).blockno = (buf i).blockno) :=
        fun hsame => hji (hunique j hj hsame)
      rw [if_neg hne]
      exact hinv.cached j hj hsaved hsole
  disk := by
    intro dev blockno hsole hclean
    have hne : ¬ (dev = (buf i).dev ∧ blockno = (buf i).blockno) := by
      rintro ⟨rfl, rfl⟩
      have hi := hclean i
      rw [update_self] at hi
      cases hi rfl rfl
    simp only [Hist.store]
    rw [if_neg hne]
    refine hinv.disk dev blockno hsole fun j hdev hblock => ?_
    by_cases hji : j = i
    · subst hji
      exact absurd ⟨hdev.symm, hblock.symm⟩ hne
    · have hj := hclean j
      rw [update_of_ne hji] at hj
      exact hj hdev hblock

/-! ### The disk -/

/-- What the command of a request does to the blocks. -/
lemma onDisk_exec (hblock : b.blockno.toNat < Ide.FSSIZE) (disk : Nat → Disk) (dev blockno : Word) :
    onDisk (b.cmd.exec disk).1 dev blockno =
      if b.dirty ∧ dev.toNat % 2 = b.dev.toNat % 2 ∧ blockno = b.blockno then b.data
      else onDisk disk dev blockno := by
  rw [Ide.cmd_eq hblock, Ide.Cmd.exec]
  cases b.dirty with
  | false => simp
  | true =>
    simp only [if_true, onDisk, true_and, ← BitVec.toNat_inj]
    by_cases hdev : dev.toNat % 2 = b.dev.toNat % 2
    · rw [hdev, update_self]
      by_cases hno : blockno.toNat = b.blockno.toNat
      · rw [hno, update_self, if_pos ⟨rfl, rfl⟩]
      · rw [update_of_ne hno, if_neg fun hboth => hno hboth.2]
    · rw [update_of_ne hdev, if_neg fun hboth => hdev hboth.1]

lemma exec_port (hblock : b.blockno.toNat < Ide.FSSIZE) (disk : Nat → Disk) :
    onDisk (b.cmd.exec disk).1 b.dev b.blockno = if b.dirty then b.data else (b.cmd.exec disk).2 := by
  rw [onDisk_exec hblock, Ide.cmd_eq hblock, Ide.Cmd.exec]
  cases b.dirty <;> simp [onDisk]

lemma DataInv.exec (hinv : DataInv buf refcnt disk h) (hblock : (buf i).blockno.toNat < Ide.FSSIZE)
    (hlive : Live buf refcnt i) : DataInv buf refcnt ((buf i).cmd.exec disk).1 h where
  devs := hinv.devs
  cached := hinv.cached
  disk := by
    intro dev blockno hsole hclean
    rw [onDisk_exec hblock, if_neg]
    · exact hinv.disk dev blockno hsole hclean
    · rintro ⟨hdirty, hunit, rfl⟩
      have hdev := hsole _ (hinv.devs i hlive) hunit.symm
      rw [hclean i hdev rfl] at hdirty
      cases hdirty

/-- The interrupt for a request: the buffer and the disk have the contents of the block. -/
lemma DataInv.finish (hinv : DataInv buf refcnt disk h) (hlive : Live buf refcnt i)
    (hdirty : (buf i).dirty = true → (buf i).valid = true)
    (hunique : ∀ j, (buf j).dirty = true → SameBlock (buf j) (buf i) → j = i)
    (hsaved : h.unsaved i = false)
    (hport : onDisk disk (buf i).dev (buf i).blockno = if (buf i).dirty then (buf i).data else data) :
    DataInv (update buf i ((buf i).finish data)) refcnt disk h := by
  have hdata : ((buf i).finish data).data = onDisk disk (buf i).dev (buf i).blockno := hport.symm
  have hcontents : h.Sole (buf i).dev →
      onDisk disk (buf i).dev (buf i).blockno = h.contents (buf i).dev (buf i).blockno := by
    intro hsole
    cases hd : (buf i).dirty with
    | true =>
      rw [hport, hd, if_pos rfl]
      exact hinv.cached i (hdirty hd) hsaved hsole
    | false =>
      refine hinv.disk _ _ hsole fun j hdev hblock => ?_
      cases hj : (buf j).dirty with
      | false => rfl
      | true =>
        obtain rfl := hunique j hj ⟨hdev, hblock⟩
        exact hj.symm.trans hd
  refine ⟨fun j hj => ?_, fun j hj hsaved' hsole => ?_, fun dev blockno hsole hclean => ?_⟩
  · by_cases hji : j = i
    · subst hji
      rw [update_self]
      exact hinv.devs j hlive
    · rw [Live, update_of_ne hji] at hj
      rw [update_of_ne hji]
      exact hinv.devs j hj
  · by_cases hji : j = i
    · subst hji
      rw [update_self] at hsole ⊢
      rw [hdata]
      exact hcontents hsole
    · rw [update_of_ne hji] at hj hsole ⊢
      exact hinv.cached j hj hsaved' hsole
  · by_cases hi : (buf i).dev = dev ∧ (buf i).blockno = blockno
    · obtain ⟨rfl, rfl⟩ := hi
      exact hcontents hsole
    · refine hinv.disk dev blockno hsole fun j hdev hblock => ?_
      have hji : j ≠ i := by
        rintro rfl
        exact hi ⟨hdev, hblock⟩
      have hj := hclean j
      rw [update_of_ne hji] at hj
      exact hj hdev hblock

end Xv6.Bcache
