import Xv6.Fs.BcacheInvariant

/-!
# Coherence of the buffer cache

`bread` returns what was last stored for a block with `log_write` or `bwrite`, and before that what is on
the disk. A buffer is only recycled when nobody refers to it and it is not dirty, so the contents are not
lost, and nobody who waits for its sleep-lock gets another block.
-/

namespace Xv6.Bcache

open Machine Function Option
open Log (Block)
open Ide (ProcId BufId Buf Disk)

variable {s s' : State} {h : Hist} {l : Label} {q q' : ProcId} {i j : BufId} {b : Buf} {x : Pc}
  {y : Ide.Pc} {dev blockno : Word} {data : Block} {buf : BufId → Buf} {refcnt : BufId → Nat}
  {ids : List BufId} {pc : ProcId → Pc} {ide : ProcId → Ide.Pc} {unsaved : BufId → Bool}
  {disk : Nat → Disk} {device : Ide.Device} {queue rest : List BufId}

/-! ### The steps -/

structure CacheInv (s : State) (h : Hist) : Prop where
  ide : Ide.Sound s.ide
  ring : ∃ ids, RingInv s.links s.ide.buf s.refcnt ids
  refs : RefInv s.ide.buf s.refcnt s.pc
  procs : ProcInv s.ide.buf s.ide.pc s.pc
  save : SaveInv s.ide.buf s.pc h.unsaved
  data : DataInv s.ide.buf s.refcnt s.ide.disk h
  port : Port s.ide.buf s.ide.disk s.ide.device s.ide.queue

section

variable (hinv : CacheInv s h)

include hinv

lemma CacheInv.unique (hi : Live s.ide.buf s.refcnt i)
    (hj : Live s.ide.buf s.refcnt j) (hsame : SameBlock (s.ide.buf i) (s.ide.buf j)) : i = j := by
  obtain ⟨ids, hring⟩ := hinv.ring
  exact hring.unique hi hj hsame

lemma CacheInv.live_of_lock (hlock : (s.ide.buf i).lock = some q) : Live s.ide.buf s.refcnt i :=
  .inr (hinv.refs.locked hlock)

/-- Nobody is in `iderw` with a buffer that is free, or whose holder is elsewhere. -/
lemma CacheInv.outside (hlock : ∀ q, (s.ide.buf i).lock = some q → (s.pc q).inside = none) (q : ProcId) :
    (s.ide.pc q).inside ≠ some i := by
  intro hq
  have hnone := hlock q (hinv.ide.lock hq)
  rw [← hinv.procs.inside, hq] at hnone
  cases hnone

lemma CacheInv.not_queued (hout : ∀ q, (s.ide.pc q).inside ≠ some i)
    (rest : List BufId) : s.ide.queue ≠ i :: rest := by
  intro hqueue
  obtain ⟨q, hq, _⟩ := hinv.ide.head hqueue
  exact hout q hq

lemma CacheInv.panic (e : Option Panic) : CacheInv { s with panic := e } h :=
  ⟨hinv.ide, hinv.ring, hinv.refs, hinv.procs, hinv.save, hinv.data, hinv.port⟩

/-- The driver panics. -/
lemma CacheInv.drivePanic {t : Ide.State} {e : Option Ide.Panic}
    (hsound : Ide.Sound t) (ht : t = { s.ide with panic := e }) : CacheInv { s with ide := t } h := by
  subst ht
  exact ⟨hsound, hinv.ring, hinv.refs, hinv.procs, hinv.save, hinv.data, hinv.port⟩

end

lemma drive_eq_some {l : Ide.Label} (hdrive : drive s l q x = some s') :
    ∃ t, Ide.step s.ide l = some t ∧
      ((t.panic = none ∧ s' = setPc { s with ide := t } q x) ∨
        (t.panic ≠ none ∧ s' = { s with ide := t })) := by
  rw [drive] at hdrive
  split at hdrive
  · cases hdrive
  · rename_i t ht
    refine ⟨t, ht, ?_⟩
    split_ifs at hdrive with hpanic
    · exact .inl ⟨hpanic, (some.inj hdrive).symm⟩
    · exact .inr ⟨hpanic, (some.inj hdrive).symm⟩

lemma driveOnly_eq_some {l : Ide.Label} (hdrive : driveOnly s l = some s') :
    ∃ t, Ide.step s.ide l = some t ∧ s' = { s with ide := t } := by
  rw [driveOnly] at hdrive
  split at hdrive
  · cases hdrive
  · rename_i t ht
    exact ⟨t, ht, (some.inj hdrive).symm⟩

/-! ### `bget` -/

lemma CacheInv.hit (hinv : CacheInv s h) (hpc : s.pc q = .user)
    (hring : RingInv s.links s.ide.buf s.refcnt ids) (hfind : ids.find? (isBlock s dev blockno) = some i) :
    CacheInv (setPc (setRefcnt s i (s.refcnt i + 1)) q (.locking dev blockno i))
      { h with devs := dev :: h.devs } := by
  have hblock := List.find?_some hfind
  simp only [isBlock, Bool.and_eq_true, decide_eq_true_eq] at hblock
  refine ⟨hinv.ide, ⟨ids, hring.hit hfind _⟩, hinv.refs.take (by rw [hpc]; rfl) rfl,
    hinv.procs.setPc (by rw [hpc]; rfl) (fun _ h => by cases h) ?_ ?_,
    hinv.save.setPc (fun _ h => by cases h), ?_, hinv.port⟩
  · intro dev' blockno' i' heq
    cases heq
    exact hblock
  · intro i' hfills
    rw [hpc] at hfills
    cases hfills
  · have hdata := hinv.data.bread (i := i) (n := s.refcnt i + 1) hblock.1 (.inl rfl)
    rwa [update_eq_self] at hdata

lemma CacheInv.recycle (hinv : CacheInv s h) (hpc : s.pc q = .user)
    (hring : RingInv s.links s.ide.buf s.refcnt ids) (hnone : ids.find? (isBlock s dev blockno) = none)
    (hfind : ids.reverse.find? (unused s) = some i) :
    CacheInv (setPc (Bcache.recycle s dev blockno i) q (.locking dev blockno i))
      { h with devs := dev :: h.devs } := by
  have hunused := List.find?_some hfind
  simp only [unused, Bool.and_eq_true, decide_eq_true_eq, Bool.not_eq_true'] at hunused
  obtain ⟨hrefcnt, hclean⟩ := hunused
  have hmem : i ∈ ids := List.mem_reverse.mp (List.mem_of_find?_eq_some hfind)
  -- nobody refers to the buffer
  have hfree : (s.ide.buf i).lock = none := by
    cases hlock : (s.ide.buf i).lock with
    | none => rfl
    | some => exact absurd hrefcnt (hinv.refs.locked hlock)
  have hpins : ∀ q', (s.pc q').pins ≠ some i := fun q' h => hinv.refs.pinned h hrefcnt
  have hholds : ∀ q', (s.pc q').holds ≠ some i := by
    intro q' h
    cases hfree.symm.trans (hinv.procs.holds q' i h)
  have hout : ∀ q', (s.ide.pc q').inside ≠ some i := by
    refine hinv.outside fun q' h => ?_
    cases hfree.symm.trans h
  have hblock : ∀ q' dev blockno, (s.pc q').block ≠ some (dev, blockno, i) := by
    intro q' dev' blockno' h
    have hp := hpins q'
    have hh := hholds q'
    cases hcase : s.pc q' <;> rw [hcase] at h hp hh <;> cases h
    · exact hp rfl
    · exact hh rfl
    · exact hh rfl
    · exact hh rfl
  have hsave : SaveInv (update s.ide.buf i (reset (s.ide.buf i) dev blockno)) s.pc
      h.unsaved := hinv.save.setBuf (.inl rfl)
  have hprocs : ProcInv (update s.ide.buf i (reset (s.ide.buf i) dev blockno))
      s.ide.pc s.pc := by
    refine hinv.procs.setBuf (fun q' h => absurd h (hholds q'))
      (fun q' dev blockno h => absurd h (hblock q' dev blockno)) ?_ ?_ (fun h => by cases h)
    · intro q' h
      cases hfree.symm.trans h
    · intro q' h
      have hin := hout q'
      rw [h] at hin
      exact absurd rfl hin
  refine ⟨hinv.ide.setBuf hout _, ⟨ids, hring.recycle hmem ?_ 1⟩, ?_,
    hprocs.setPc (by rw [hpc]; rfl) (fun _ h => by cases h) ?_ ?_,
    hsave.setPc (fun _ h => by cases h),
    hinv.data.bread rfl (.inr ⟨rfl, rfl, hclean⟩), hinv.port.setBuf (hinv.not_queued hout)⟩
  · intro j hj heq
    have hne := List.find?_eq_none.mp hnone j hj
    simp only [isBlock, Bool.and_eq_true, decide_eq_true_eq] at hne
    exact hne heq
  · have hrefs := hinv.refs.take (q := q) (x := .locking dev blockno i) (by rw [hpc]; rfl) rfl
    rw [hrefcnt] at hrefs
    exact hrefs.setBuf rfl
  · intro dev' blockno' i' heq
    cases heq
    rw [update_self]
    exact ⟨rfl, rfl⟩
  · intro i' hfills
    rw [hpc] at hfills
    cases hfills

lemma CacheInv.bget (hinv : CacheInv s h) (hpc : s.pc q = .user)
    (hstep : bget s q dev blockno = some s') : CacheInv s' { h with devs := dev :: h.devs } := by
  obtain ⟨ids, hring⟩ := hinv.ring
  rw [Bcache.bget, hring.scan_next, hring.scan_prev] at hstep
  cases hnext : ids.find? (isBlock s dev blockno) with
  | some =>
    rw [hnext] at hstep
    exact some.inj hstep ▸ hinv.hit hpc hring hnext
  | none =>
    rw [hnext] at hstep
    cases hprev : ids.reverse.find? (unused s) with
    | some =>
      rw [hprev] at hstep
      exact some.inj hstep ▸ hinv.recycle hpc hring hnext hprev
    | none =>
      rw [hprev] at hstep
      refine some.inj hstep ▸ CacheInv.panic ?_ _
      refine ⟨hinv.ide, hinv.ring, hinv.refs, hinv.procs, hinv.save, ?_, hinv.port⟩
      exact ⟨fun i hi => List.mem_cons_of_mem _ (hinv.data.devs i hi),
        fun i hvalid hsaved hsole => hinv.data.cached i hvalid hsaved hsole.of_cons,
        fun dev blockno hsole => hinv.data.disk dev blockno hsole.of_cons⟩

/-! ### The sleep-locks -/

/-- The buffers differ in the sleep-lock only. -/
structure Agrees (b c : Buf) : Prop where
  same : SameBlock b c
  valid : b.valid = c.valid
  dirty : b.dirty = c.dirty
  data : b.data = c.data

lemma CacheInv.setLock (hinv : CacheInv s h) (hb : Agrees b (s.ide.buf i))
    (hout : ∀ q, (s.ide.pc q).inside ≠ some i)
    (hrefs : RefInv (update s.ide.buf i b) s.refcnt (update s.pc q x))
    (hprocs : ProcInv (update s.ide.buf i b) s.ide.pc (update s.pc q x))
    (hx : ∀ i, x.holds = some i → h.unsaved i = false) (hsaved : h.unsaved i = false) :
    CacheInv (setPc { s with ide := Ide.setBuf s.ide i b } q x) h := by
  obtain ⟨ids, hring⟩ := hinv.ring
  have hall : ∀ j, Agrees (update s.ide.buf i b j) (s.ide.buf j) :=
    (forall_update_iff _ (p := fun j c => Agrees c (s.ide.buf j))).mpr
      ⟨hb, fun j _ => ⟨⟨rfl, rfl⟩, rfl, rfl, rfl⟩⟩
  have hlive : ∀ j, Live (update s.ide.buf i b) s.refcnt j → Live s.ide.buf s.refcnt j := by
    intro j hj
    rwa [Live, (hall j).valid] at hj
  refine ⟨hinv.ide.setBuf hout _, ⟨ids, hring.mono (fun j => (hall j).same) hlive⟩, hrefs, hprocs,
    (hinv.save.setBuf (.inr hsaved)).setPc fun j hj => .inr (hx j hj),
    hinv.data.mono (fun j => (hall j).same) (fun j => (hall j).dirty) hlive fun j hvalid hj => ?_,
    hinv.port.setBuf (hinv.not_queued hout)⟩
  exact ⟨(hall j).valid.symm.trans hvalid, hj, (hall j).data⟩

lemma ProcInv.acquire (hinv : ProcInv buf ide pc) (hpc : pc q = .locking dev blockno i)
    (hlock : (buf i).lock = none) : ProcInv (update buf i { buf i with lock := some q }) ide
      (update pc q (.checking dev blockno i)) := by
  refine ⟨fun q' => ?_, fun q' j hj => ?_, fun q' dev' blockno' j hj => ?_, fun q' j hj => ?_,
    fun q' j hj => ?_, fun j hj => ?_⟩
  · rw [hinv.inside]
    by_cases hq : q' = q
    · subst hq
      rw [update_self, hpc]
      rfl
    · rw [update_of_ne hq]
  · by_cases hq : q' = q
    · subst hq
      rw [update_self] at hj
      cases hj
      rw [update_self]
    · rw [update_of_ne hq] at hj
      have hold := hinv.holds q' j hj
      have hji : j ≠ i := by
        rintro rfl
        cases hlock.symm.trans hold
      rw [update_of_ne hji, hold]
  · have hold : (buf j).dev = dev' ∧ (buf j).blockno = blockno' := by
      refine hinv.block q' dev' blockno' j ?_
      by_cases hq : q' = q
      · subst hq
        rw [update_self] at hj
        rw [hpc]
        exact hj
      · rwa [update_of_ne hq] at hj
    by_cases hji : j = i
    · subst hji
      rw [update_self]
      exact hold
    · rwa [update_of_ne hji]
  · by_cases hji : j = i
    · subst hji
      rw [update_self] at hj
      obtain rfl : q = q' := some.inj hj
      rw [update_self, update_self]
      exact .inr rfl
    · rw [update_of_ne hji] at hj ⊢
      have hold := hinv.filled q' j hj
      by_cases hq : q' = q
      · subst hq
        rw [hpc] at hold
        rcases hold with hvalid | hfills
        · exact .inl hvalid
        · cases hfills
      · rwa [update_of_ne hq]
  · have hold := hinv.done q' j hj
    by_cases hji : j = i
    · subst hji
      rw [update_self]
      exact hold
    · rwa [update_of_ne hji]
  · by_cases hji : j = i
    · subst hji
      rw [update_self] at hj ⊢
      exact hinv.dirty j hj
    · rw [update_of_ne hji] at hj ⊢
      exact hinv.dirty j hj

lemma CacheInv.acquiresleep (hinv : CacheInv s h) (hpc : s.pc q = .locking dev blockno i)
    (hlock : (s.ide.buf i).lock = none) :
    CacheInv (setPc { s with ide := Ide.setBuf s.ide i { s.ide.buf i with lock := some q } } q
      (.checking dev blockno i)) h := by
  have hsaved := hinv.save.saved_of_free hlock
  have hout : ∀ q', (s.ide.pc q').inside ≠ some i := by
    refine hinv.outside fun q' h => ?_
    cases hlock.symm.trans h
  refine hinv.setLock ⟨⟨rfl, rfl⟩, rfl, rfl, rfl⟩ hout
    (hinv.refs.lock (by rw [hpc]; rfl) rfl hlock (by intro h; cases h))
    (hinv.procs.acquire hpc hlock) (fun j hj => ?_) hsaved
  cases hj
  exact hsaved

lemma CacheInv.releasesleep (hinv : CacheInv s h) (hpc : s.pc q = .user)
    (hlock : (s.ide.buf i).lock = some q) (hsaved : h.unsaved i = false) :
    CacheInv (setPc { s with ide := Ide.setBuf s.ide i { s.ide.buf i with lock := none } } q
      (.releasing i)) h := by
  have hout : ∀ q', (s.ide.pc q').inside ≠ some i := by
    refine hinv.outside fun q' h => ?_
    obtain rfl := some.inj (hlock.symm.trans h)
    rw [hpc]
    rfl
  have hprocs : ProcInv s.ide.buf s.ide.pc (update s.pc q (.releasing i)) := by
    refine hinv.procs.setPc (by rw [hpc]; rfl) (fun _ h => by cases h) (fun _ _ _ h => by cases h) ?_
    intro j hj
    rw [hpc] at hj
    cases hj
  have hrefs : RefInv (update s.ide.buf i { s.ide.buf i with lock := none }) s.refcnt
      (update s.pc q (.releasing i)) := by
    refine hinv.refs.unlock (by rw [hpc]; rfl) rfl ?_ rfl
    rw [hlock]
    exact some_ne_none q
  refine hinv.setLock ⟨⟨rfl, rfl⟩, rfl, rfl, rfl⟩ hout hrefs
    (hprocs.setBuf ?_ (fun q' dev' blockno' h => hprocs.block q' dev' blockno' i h)
      (fun _ h => by cases h) (fun q' h => hprocs.done q' i h) (hprocs.dirty i))
    (fun _ h => by cases h) hsaved
  -- the holder is not in a call of the cache for this buffer
  intro q' hq'
  obtain rfl := some.inj (hlock.symm.trans (hprocs.holds q' i hq'))
  rw [update_self] at hq'
  cases hq'

/-! ### The data of a locked buffer -/

/-- The holder changes the data or sets `B_DIRTY`. -/
lemma CacheInv.edit {h' : Hist} (hinv : CacheInv s h) (hpc : s.pc q = .user)
    (hlock : (s.ide.buf i).lock = some q) (hsame : SameBlock b (s.ide.buf i))
    (hvalid : b.valid = (s.ide.buf i).valid) (hblock : b.lock = (s.ide.buf i).lock)
    (hsave : SaveInv (update s.ide.buf i b) s.pc h'.unsaved)
    (hdata : DataInv (update s.ide.buf i b) s.refcnt s.ide.disk h') :
    CacheInv { s with ide := Ide.setBuf s.ide i b } h' := by
  obtain ⟨ids, hring⟩ := hinv.ring
  have hp := hinv.procs
  have hout : ∀ q', (s.ide.pc q').inside ≠ some i := by
    refine hinv.outside fun q' h => ?_
    obtain rfl := some.inj (hlock.symm.trans h)
    rw [hpc]
    rfl
  refine ⟨hinv.ide.setBuf hout _, ⟨ids, hring.mono (sameBlock_update hsame) ?_⟩,
    hinv.refs.setBuf hblock, hp.setBuf (fun q' h => ?_) (fun q' dev' blockno' h => ?_) (fun q' h => ?_) (fun q' h => ?_)
      (fun _ => hvalid.trans (hp.valid_of_lock hpc hlock)), hsave, hdata,
    hinv.port.setBuf (hinv.not_queued hout)⟩
  · intro j hj
    rcases live_update_buf hj with rfl | hj
    · exact hinv.live_of_lock hlock
    · exact hj
  · rw [hblock]
    exact hp.holds q' i h
  · rw [hsame.1, hsame.2]
    exact hp.block q' dev' blockno' i h
  · rw [hvalid]
    exact hp.filled q' i (hblock.symm.trans h)
  · have hin := hout q'
    rw [h] at hin
    exact absurd rfl hin

lemma CacheInv.modify (hinv : CacheInv s h) (hpc : s.pc q = .user) (hlock : (s.ide.buf i).lock = some q)
    (data : Block) : CacheInv { s with ide := Ide.setBuf s.ide i { s.ide.buf i with data := data } }
      { h with unsaved := update h.unsaved i true } := by
  refine hinv.edit hpc hlock ⟨rfl, rfl⟩ rfl rfl ?_ (hinv.data.mono (sameBlock_update ⟨rfl, rfl⟩) ?_ ?_ ?_)
  · intro j hj
    dsimp only at hj
    by_cases hji : j = i
    · subst hji
      refine ⟨q, ?_, ?_⟩
      · rw [update_self]
        exact hlock
      · rw [hpc]
        exact (some_ne_none j).symm
    · rw [update_of_ne hji] at hj ⊢
      exact hinv.save j hj
  · exact (forall_update_iff _ (p := fun j c => Buf.dirty c = (s.ide.buf j).dirty)).mpr
      ⟨rfl, fun _ _ => rfl⟩
  · intro j hj
    rcases live_update_buf hj with rfl | hj
    · exact hinv.live_of_lock hlock
    · exact hj
  · intro j hvalid hj
    by_cases hji : j = i
    · subst hji
      rw [update_self] at hj
      cases hj
    · rw [update_of_ne hji] at hj hvalid ⊢
      exact ⟨hvalid, hj, rfl⟩

lemma CacheInv.store (hinv : CacheInv s h) (hpc : s.pc q = .user) (hlock : (s.ide.buf i).lock = some q) :
    CacheInv { s with ide := Ide.setBuf s.ide i { s.ide.buf i with dirty := true } }
      (h.store i (s.ide.buf i)) := by
  have hvalid := hinv.procs.valid_of_lock hpc hlock
  refine hinv.edit hpc hlock ⟨rfl, rfl⟩ rfl rfl ?_ (hinv.data.store hvalid fun j hj hsame => ?_)
  · intro j hj
    simp only [Hist.store] at hj
    by_cases hji : j = i
    · subst hji
      rw [update_self] at hj
      cases hj
    · rw [update_of_ne hji] at hj ⊢
      exact hinv.save j hj
  · exact hinv.unique (.inl hj) (.inl hvalid) hsame

/-! ### The driver -/

/-- `iderw` puts the request into the queue. -/
lemma CacheInv.iderw {l : Ide.Label} (hinv : CacheInv s h) (hl : l = .iderw q i)
    (hdrive : drive s l q x = some s') (hinside : x.inside = some i) (hpins : x.pins = (s.pc q).pins)
    (hholds : x.holds = some i) (hfills : ∀ j, (s.pc q).fills = some j → x.fills = some j)
    (hblock : ∀ y, x.block = some y → (s.pc q).block = some y) (hsaved : h.unsaved i = false) :
    CacheInv s' h := by
  obtain ⟨t, ht, hcases⟩ := drive_eq_some hdrive
  have hsound := hinv.ide.step ht
  subst hl
  obtain ⟨_, rfl⟩ := Ide.step_iderw ht
  rcases Ide.iderw_cases s.ide q i with ⟨e, heq⟩ | ⟨v, htest, hv, heq⟩
  · rcases hcases with ⟨hpanic, rfl⟩ | ⟨_, rfl⟩
    · rw [heq] at hpanic
      cases hpanic
    · exact hinv.drivePanic hsound heq
  · have hpanic : (Ide.iderw s.ide q i).panic = none := by
      rw [heq, Ide.panic_setPc]
      exact (Ide.step_panic ht).1
    rcases hcases with ⟨_, rfl⟩ | ⟨hne, _⟩
    swap
    · exact absurd hpanic hne
    rw [heq] at hsound ⊢
    obtain ⟨hlock, _⟩ := Ide.iderwTest_none htest
    refine ⟨hsound, hinv.ring, hinv.refs.setPc hpins, hinv.procs.move hinside.symm ?_ ?_ ?_ ?_,
      hinv.save.setPc ?_, hinv.data, ?_⟩
    · intro j hj
      obtain rfl := some.inj (hholds.symm.trans hj)
      exact hlock
    · exact fun dev blockno j hj => hinv.procs.block q dev blockno j (hblock _ hj)
    · exact fun j hj => .inr (hfills j hj)
    · intro j hj
      cases hj
    · intro j hj
      obtain rfl := some.inj (hholds.symm.trans hj)
      exact .inr hsaved
    · -- the first request of the queue is the same, or the disk has just been started
      intro data j rest hdevice hqueue
      cases hold : s.ide.queue with
      | nil =>
        rw [hold, if_pos rfl] at hv
        obtain ⟨rfl, _⟩ := Ide.idestart_ok hv
        cases hdevice
      | cons j' rest' =>
        rw [hold, if_neg (List.cons_ne_nil j' rest')] at hv
        cases hv
        have hcons : s.ide.queue ++ [i] = j :: rest := hqueue
        rw [hold] at hcons
        obtain ⟨rfl, -⟩ := List.cons.inj hcons
        exact hinv.port data j' rest' hdevice hold

lemma CacheInv.run (hinv : CacheInv s h) (hdrive : driveOnly s (.run q) = some s') : CacheInv s' h := by
  obtain ⟨t, ht, rfl⟩ := driveOnly_eq_some hdrive
  have hsound := hinv.ide.step ht
  obtain ⟨i, hpc, rfl⟩ := Ide.step_run ht
  have hprocs := hinv.procs.move (q := q) (x := s.pc q)
    (y := if (s.ide.buf i).clean then .returned i else .waiting i true) ?_
    (hinv.procs.holds q) (hinv.procs.block q) (fun _ hj => .inr hj) ?_
  · rw [update_eq_self] at hprocs
    exact ⟨hsound, hinv.ring, hinv.refs, hprocs, hinv.save, hinv.data, hinv.port⟩
  · rw [← hinv.procs.inside, hpc]
    split_ifs <;> rfl
  · intro j hj
    split_ifs at hj with hclean
    cases hj
    exact hclean

/-- `iderw` returns, and the buffer is valid. -/
lemma CacheInv.leave (hinv : CacheInv s h) (hdrive : drive s (.leave q) q x = some s')
    (hinside : x.inside = none) (hpins : x.pins = (s.pc q).pins)
    (hholds : ∀ j, x.holds = some j → (s.pc q).holds = some j)
    (hfills : (s.pc q).fills = none ∨ (s.pc q).fills = (s.pc q).inside)
    (hblock : ∀ y, x.block = some y → (s.pc q).block = some y) : CacheInv s' h := by
  obtain ⟨t, ht, hcases⟩ := drive_eq_some hdrive
  have hsound := hinv.ide.step ht
  obtain ⟨i, hpc, rfl⟩ := Ide.step_leave ht
  rcases hcases with ⟨_, rfl⟩ | ⟨hne, _⟩
  swap
  · exact absurd (Ide.step_panic ht).1 hne
  refine ⟨hsound, hinv.ring, hinv.refs.setPc hpins, hinv.procs.move hinside.symm ?_ ?_ ?_ ?_,
    hinv.save.setPc fun j hj => .inl (hholds j hj), hinv.data, hinv.port⟩
  · exact fun j hj => hinv.procs.holds q j (hholds j hj)
  · exact fun dev blockno j hj => hinv.procs.block q dev blockno j (hblock _ hj)
  · intro j hj
    rcases hfills with hnone | hsame
    · cases hnone.symm.trans hj
    · rw [hsame, ← hinv.procs.inside, hpc] at hj
      cases hj
      have hclean := hinv.procs.done q i hpc
      rw [Ide.Buf.clean, Bool.and_eq_true] at hclean
      exact .inl hclean.1
  · intro j hj
    cases hj

lemma CacheInv.execute (hinv : CacheInv s h) (hdrive : driveOnly s .disk = some s') : CacheInv s' h := by
  obtain ⟨t, ht, rfl⟩ := driveOnly_eq_some hdrive
  have hsound := hinv.ide.step ht
  obtain ⟨c, hdevice, rfl⟩ := Ide.step_disk ht
  obtain ⟨i, rest, hqueue, rfl, hblock⟩ := hinv.ide.busy hdevice
  obtain ⟨q, hq, _⟩ := hinv.ide.head hqueue
  refine ⟨hsound, hinv.ring, hinv.refs, hinv.procs, hinv.save,
    hinv.data.exec hblock (hinv.live_of_lock (hinv.ide.lock hq)), ?_⟩
  intro data j rest' hdone hj
  cases hdone
  obtain ⟨rfl, -⟩ := List.cons.inj (hqueue.symm.trans hj)
  exact exec_port hblock s.ide.disk

lemma holds_of_inside (hx : x.inside = some i) : x.holds = some i := by
  cases x <;> first | exact hx | cases hx

lemma CacheInv.ideintr (hinv : CacheInv s h) (hdrive : driveOnly s .ideintr = some s') : CacheInv s' h := by
  obtain ⟨t, ht, rfl⟩ := driveOnly_eq_some hdrive
  have hsound := hinv.ide.step ht
  obtain ⟨data, hdevice, rfl⟩ := Ide.step_ideintr ht
  obtain ⟨i, rest, hqueue, ⟨e, heq⟩ | ⟨v, hv, heq⟩⟩ := hinv.ide.ideintr hdevice
  · exact hinv.drivePanic hsound heq
  · obtain ⟨ids, hring⟩ := hinv.ring
    obtain ⟨q, hq, _⟩ := hinv.ide.head hqueue
    have hlock := hinv.ide.lock hq
    have hlive := hinv.live_of_lock hlock
    have hp := hinv.procs
    have hholds : (s.pc q).holds = some i := holds_of_inside ((hp.inside q).symm.trans hq)
    rw [heq] at hsound ⊢
    have hbuf : ProcInv (update s.ide.buf i ((s.ide.buf i).finish data)) s.ide.pc s.pc :=
      hp.setBuf (fun q' h => hp.holds q' i h) (fun q' dev blockno h => hp.block q' dev blockno i h)
        (fun _ _ => .inl rfl) (fun _ _ => rfl) (fun _ => rfl)
    refine ⟨hsound, ⟨ids, hring.mono (sameBlock_update ⟨rfl, rfl⟩) ?_⟩, hinv.refs.setBuf rfl,
      ⟨fun q' => ?_, hbuf.holds, hbuf.block, hbuf.filled, fun q' j hj => ?_, hbuf.dirty⟩,
      hinv.save.setBuf (.inl rfl),
      hinv.data.finish hlive (hp.dirty i) (fun j hj hsame => ?_) (hinv.save.saved hlock hholds)
        (hinv.port data i rest hdevice hqueue),
      fun data _ _ hdone => absurd hdone (hv data)⟩
    · intro j hj
      rcases live_update_buf hj with rfl | hj
      · exact hlive
      · exact hj
    · rw [← hp.inside]
      exact Ide.inside_wakeup _
    · exact hbuf.done q' j (Ide.returned_of_wakeup hj)
    · exact hinv.unique (.inl (hp.dirty j hj)) hlive hsame

/-! ### `brelse` and the return of `bread` -/

lemma CacheInv.unref (hinv : CacheInv s h) (hpc : s.pc q = .releasing i) :
    CacheInv (setPc (unref s i) q .user) h := by
  obtain ⟨ids, hring⟩ := hinv.ring
  have hpins : (s.pc q).pins = some i := by
    rw [hpc]
    rfl
  have hlive : ∀ j, Live s.ide.buf (update s.refcnt i (s.refcnt i - 1)) j →
      Live s.ide.buf s.refcnt j := by
    intro j hj
    rcases live_update_refcnt hj with rfl | hj
    · exact .inr (hinv.refs.pinned hpins)
    · exact hj
  have hprocs : ProcInv s.ide.buf s.ide.pc (update s.pc q .user) := by
    refine hinv.procs.setPc (by rw [hpc]; rfl) (fun _ h => by cases h) (fun _ _ _ h => by cases h) ?_
    intro j hj
    rw [hpc] at hj
    cases hj
  have hsave : SaveInv s.ide.buf (update s.pc q .user) h.unsaved :=
    hinv.save.setPc fun _ h => by cases h
  have hdata : DataInv s.ide.buf (update s.refcnt i (s.refcnt i - 1)) s.ide.disk h :=
    hinv.data.mono (fun _ => ⟨rfl, rfl⟩) (fun _ => rfl) hlive fun _ hvalid hj => ⟨hvalid, hj, rfl⟩
  have hrefs := hinv.refs.drop (x := .user) hpins rfl
  rw [Bcache.unref]
  split_ifs
  · obtain ⟨ids', hfront⟩ := hring.toFront (i := i) (.inr (hinv.refs.pinned hpins))
    exact ⟨hinv.ide, ⟨ids', hfront.mono (fun _ => ⟨rfl, rfl⟩) hlive⟩, hrefs, hprocs, hsave, hdata,
      hinv.port⟩
  · exact ⟨hinv.ide, ⟨ids, hring.mono (fun _ => ⟨rfl, rfl⟩) hlive⟩, hrefs, hprocs, hsave, hdata, hinv.port⟩

/-- A process goes on with the buffer that it has locked. -/
lemma CacheInv.move (hinv : CacheInv s h) (hinside : x.inside = (s.pc q).inside)
    (hpins : x.pins = (s.pc q).pins) (hholds : ∀ j, x.holds = some j → (s.pc q).holds = some j)
    (hblock : ∀ y, x.block = some y → (s.pc q).block = some y)
    (hfills : ∀ j, (s.pc q).fills = some j → (s.ide.buf j).valid = true) : CacheInv (setPc s q x) h :=
  ⟨hinv.ide, hinv.ring, hinv.refs.setPc hpins,
    hinv.procs.setPc hinside (fun j hj => hinv.procs.holds q j (hholds j hj))
      (fun dev blockno j hj => hinv.procs.block q dev blockno j (hblock _ hj))
      (fun j hj => .inl (hfills j hj)),
    hinv.save.setPc fun j hj => .inl (hholds j hj), hinv.data, hinv.port⟩

lemma setDirty_eq_some (hstep : setDirty s q i = some s') :
    (s.ide.buf i).lock = some q ∧
      s' = { s with ide := Ide.setBuf s.ide i { s.ide.buf i with dirty := true } } := by
  obtain ⟨t, ht, rfl⟩ := driveOnly_eq_some hstep
  obtain ⟨_, hlock, rfl⟩ := Ide.withBuf_eq_some (Ide.step_panic ht).2
  refine ⟨hlock, ?_⟩
  rw [← hlock]

lemma CacheInv.bwrite (hinv : CacheInv s h) (hpc : s.pc q = .user) (hstep : bwrite s q i = some s') :
    CacheInv s' (if (s.buf i).lock = some q then h.store i (s.buf i) else h) := by
  rw [Bcache.bwrite] at hstep
  split_ifs at hstep with hlock
  · rw [if_neg hlock]
    exact some.inj hstep ▸ hinv.panic _
  · rw [if_pos (not_not.mp hlock)]
    split at hstep
    · cases hstep
    · rename_i hdirty
      obtain ⟨_, rfl⟩ := setDirty_eq_some hdirty
      refine (hinv.store hpc (not_not.mp hlock)).iderw rfl hstep rfl ?_ rfl ?_ ?_ ?_
      · exact (congrArg Pc.pins hpc).symm
      · intro j hj
        rw [show _ = Pc.user from hpc] at hj
        cases hj
      · intro y hy
        cases hy
      · exact update_self ..

lemma CacheInv.step {x : State × Hist} (hinv : CacheInv x.1 x.2) (hok : Saves x l)
    (hstep : step x.1 l = some s') : CacheInv s' (nextHist x.1 l s' x.2) := by
  obtain ⟨s, h⟩ := x
  dsimp only at hinv hstep ⊢
  rw [Bcache.step] at hstep
  split_ifs at hstep
  cases l with
  | bread =>
    simp only [liveStep] at hstep
    split at hstep
    · rename_i hpc
      exact hinv.bget hpc hstep
    · cases hstep
  | acquiresleep =>
    simp only [liveStep] at hstep
    split at hstep
    · rename_i hpc
      obtain ⟨t, ht, hcases⟩ := drive_eq_some hstep
      obtain ⟨_, hlock, rfl⟩ := Ide.step_acquiresleep ht
      rcases hcases with ⟨_, rfl⟩ | ⟨hne, _⟩
      · exact hinv.acquiresleep hpc hlock
      · exact absurd (Ide.step_panic ht).1 hne
    · cases hstep
  | check q =>
    simp only [liveStep] at hstep
    split at hstep
    · rename_i i hpc
      split_ifs at hstep with hvalid
      · refine some.inj hstep ▸ hinv.move ?_ ?_ ?_ ?_ ?_ <;> rw [hpc]
        · rfl
        · rfl
        · exact fun _ h => h
        · exact fun _ h => h
        · intro j hj
          cases hj
          exact hvalid
      · have hholds : (s.pc q).holds = some i := by
          rw [hpc]
          rfl
        refine hinv.iderw rfl hstep rfl ?_ rfl ?_ ?_
          (hinv.save.saved (hinv.procs.holds q i hholds) hholds) <;> rw [hpc]
        · rfl
        · exact fun _ h => h
        · exact fun _ h => h
    · cases hstep
  | run => exact hinv.run hstep
  | leave =>
    simp only [liveStep] at hstep
    split at hstep
    · rename_i hpc
      refine hinv.leave hstep rfl ?_ ?_ ?_ ?_ <;> rw [hpc]
      · rfl
      · exact fun _ h => h
      · exact .inr rfl
      · exact fun _ h => h
    · rename_i hpc
      refine hinv.leave hstep rfl ?_ ?_ ?_ ?_
      · rw [hpc]
        rfl
      · intro j hj
        cases hj
      · rw [hpc]
        exact .inl rfl
      · intro y hy
        cases hy
    · cases hstep
  | resume =>
    simp only [liveStep] at hstep
    split at hstep
    · rename_i hpc
      refine some.inj hstep ▸ hinv.move ?_ ?_ (fun _ h => by cases h) (fun _ h => by cases h) ?_
        <;> rw [hpc]
      · rfl
      · rfl
      · intro j hj
        cases hj
    · cases hstep
  | modify q i data =>
    simp only [liveStep] at hstep
    split at hstep
    · rename_i hpc
      obtain ⟨t, ht, rfl⟩ := driveOnly_eq_some hstep
      obtain ⟨_, hlock, rfl⟩ := Ide.withBuf_eq_some (Ide.step_panic ht).2
      rw [← hlock]
      exact hinv.modify hpc hlock data
    · cases hstep
  | logWrite =>
    simp only [liveStep] at hstep
    split at hstep
    · rename_i hpc
      obtain ⟨hlock, rfl⟩ := setDirty_eq_some hstep
      exact hinv.store hpc hlock
    · cases hstep
  | bwrite =>
    simp only [liveStep] at hstep
    split at hstep
    · rename_i hpc
      exact hinv.bwrite hpc hstep
    · cases hstep
  | brelse =>
    simp only [liveStep] at hstep
    split at hstep
    · rename_i hpc
      rw [brelse] at hstep
      split_ifs at hstep with hlock
      · exact some.inj hstep ▸ hinv.panic _
      · obtain ⟨t, ht, hcases⟩ := drive_eq_some hstep
        obtain ⟨_, hlock, rfl⟩ := Ide.withBuf_eq_some (Ide.step_panic ht).2
        rcases hcases with ⟨_, rfl⟩ | ⟨hne, _⟩
        · exact hinv.releasesleep hpc hlock hok
        · exact absurd (Ide.step_panic ht).1 hne
    · cases hstep
  | unref =>
    simp only [liveStep] at hstep
    split at hstep
    · rename_i hpc
      exact some.inj hstep ▸ hinv.unref hpc
    · cases hstep
  | disk => exact hinv.execute hstep
  | ideintr => exact hinv.ideintr hstep

/-! ### A dirty buffer keeps its block -/

section

variable (hsound : Ide.Sound s.ide)

include hsound

lemma ideStep_same {l : Ide.Label} {t : Ide.State}
    (ht : Ide.step s.ide l = some t)
    (hedit : ∀ q i valid dirty dev blockno data, l = .edit q i valid dirty dev blockno data →
      dev = (s.ide.buf i).dev ∧ blockno = (s.ide.buf i).blockno) (j : BufId) :
    SameBlock (t.buf j) (s.ide.buf j) := by
  cases l with
  | acquiresleep =>
    obtain ⟨_, _, rfl⟩ := Ide.step_acquiresleep ht
    refine sameBlock_update ?_ j
    exact ⟨rfl, rfl⟩
  | releasesleep =>
    obtain ⟨_, _, rfl⟩ := Ide.withBuf_eq_some (Ide.step_panic ht).2
    refine sameBlock_update ?_ j
    exact ⟨rfl, rfl⟩
  | edit =>
    obtain ⟨_, _, rfl⟩ := Ide.withBuf_eq_some (Ide.step_panic ht).2
    exact sameBlock_update (hedit _ _ _ _ _ _ _ rfl) j
  | iderw q i =>
    obtain ⟨_, rfl⟩ := Ide.step_iderw ht
    rcases Ide.iderw_cases s.ide q i with ⟨e, heq⟩ | ⟨v, _, _, heq⟩ <;> rw [heq] <;> exact ⟨rfl, rfl⟩
  | run =>
    obtain ⟨_, _, rfl⟩ := Ide.step_run ht
    exact ⟨rfl, rfl⟩
  | leave =>
    obtain ⟨_, _, rfl⟩ := Ide.step_leave ht
    exact ⟨rfl, rfl⟩
  | disk =>
    obtain ⟨_, _, rfl⟩ := Ide.step_disk ht
    exact ⟨rfl, rfl⟩
  | ideintr =>
    obtain ⟨data, hdevice, rfl⟩ := Ide.step_ideintr ht
    obtain ⟨i, rest, _, ⟨e, heq⟩ | ⟨v, _, heq⟩⟩ := hsound.ideintr hdevice <;> rw [heq]
    · exact ⟨rfl, rfl⟩
    · refine sameBlock_update ?_ j
      exact ⟨rfl, rfl⟩

lemma drive_same {l : Ide.Label} (hdrive : drive s l q x = some s')
    (hedit : ∀ q i valid dirty dev blockno data, l ≠ .edit q i valid dirty dev blockno data)
    (j : BufId) : SameBlock (s'.ide.buf j) (s.ide.buf j) := by
  obtain ⟨t, ht, ⟨_, rfl⟩ | ⟨_, rfl⟩⟩ := drive_eq_some hdrive
  all_goals exact ideStep_same hsound ht (fun _ _ _ _ _ _ _ hl => absurd hl (hedit _ _ _ _ _ _ _)) j

lemma driveOnly_same {l : Ide.Label} (hdrive : driveOnly s l = some s')
    (hedit : ∀ q i valid dirty dev blockno data, l ≠ .edit q i valid dirty dev blockno data)
    (j : BufId) : SameBlock (s'.ide.buf j) (s.ide.buf j) := by
  obtain ⟨t, ht, rfl⟩ := driveOnly_eq_some hdrive
  exact ideStep_same hsound ht (fun _ _ _ _ _ _ _ hl => absurd hl (hedit _ _ _ _ _ _ _)) j

/-- The holder of a buffer does not change its block. -/
lemma edit_same (hdrive : driveOnly s (edit q i b) = some s')
    (hb : SameBlock b (s.ide.buf i)) (j : BufId) : SameBlock (s'.ide.buf j) (s.ide.buf j) := by
  obtain ⟨t, ht, rfl⟩ := driveOnly_eq_some hdrive
  refine ideStep_same hsound ht (fun _ _ _ _ _ _ _ hl => ?_) j
  cases hl
  exact hb

end

lemma bget_same (hring : RingInv s.links s.ide.buf s.refcnt ids) (hstep : bget s q dev blockno = some s')
    (hdirty : (s.ide.buf j).dirty = true) : SameBlock (s'.ide.buf j) (s.ide.buf j) := by
  rw [Bcache.bget, hring.scan_next, hring.scan_prev] at hstep
  cases hnext : ids.find? (isBlock s dev blockno) with
  | some =>
    rw [hnext] at hstep
    cases hstep
    exact ⟨rfl, rfl⟩
  | none =>
    rw [hnext] at hstep
    cases hprev : ids.reverse.find? (unused s) with
    | none =>
      rw [hprev] at hstep
      cases hstep
      exact ⟨rfl, rfl⟩
    | some i =>
      rw [hprev] at hstep
      cases hstep
      have hunused := List.find?_some hprev
      simp only [unused, Bool.and_eq_true, Bool.not_eq_true'] at hunused
      have hji : j ≠ i := by
        rintro rfl
        cases hdirty.symm.trans hunused.2
      show SameBlock (update s.ide.buf i _ j) _
      rw [update_of_ne hji]
      exact ⟨rfl, rfl⟩

lemma CacheInv.same_of_dirty (hinv : CacheInv s h) (hstep : Bcache.step s l = some s')
    (hdirty : (s.ide.buf j).dirty = true) : SameBlock (s'.ide.buf j) (s.ide.buf j) := by
  obtain ⟨ids, hring⟩ := hinv.ring
  have hrefl : SameBlock (s.ide.buf j) (s.ide.buf j) := ⟨rfl, rfl⟩
  rw [Bcache.step] at hstep
  split_ifs at hstep
  cases l with
  | bread =>
    simp only [liveStep] at hstep
    split at hstep
    · exact bget_same hring hstep hdirty
    · cases hstep
  | acquiresleep | leave =>
    simp only [liveStep] at hstep
    split at hstep
    all_goals first | exact drive_same hinv.ide hstep (fun _ _ _ _ _ _ _ h => by cases h) j | cases hstep
  | check =>
    simp only [liveStep] at hstep
    split at hstep
    · split_ifs at hstep
      · cases hstep
        exact hrefl
      · exact drive_same hinv.ide hstep (fun _ _ _ _ _ _ _ h => by cases h) j
    · cases hstep
  | resume =>
    simp only [liveStep] at hstep
    split at hstep
    · cases hstep
      exact hrefl
    · cases hstep
  | modify | logWrite =>
    simp only [liveStep] at hstep
    split at hstep
    · exact edit_same hinv.ide hstep ⟨rfl, rfl⟩ j
    · cases hstep
  | bwrite =>
    simp only [liveStep] at hstep
    split at hstep
    · rename_i hpc
      rw [Bcache.bwrite] at hstep
      split_ifs at hstep with hlock
      · cases hstep
        exact hrefl
      · split at hstep
        · cases hstep
        · rename_i s₁ hset
          have hfirst : SameBlock (s₁.ide.buf j) (s.ide.buf j) := edit_same hinv.ide hset ⟨rfl, rfl⟩ j
          obtain ⟨_, rfl⟩ := setDirty_eq_some hset
          have hthen := drive_same (hinv.store hpc (not_not.mp hlock)).ide hstep
            (fun _ _ _ _ _ _ _ h => by cases h) j
          exact ⟨hthen.1.trans hfirst.1, hthen.2.trans hfirst.2⟩
    · cases hstep
  | brelse =>
    simp only [liveStep] at hstep
    split at hstep
    · rw [brelse] at hstep
      split_ifs at hstep
      · cases hstep
        exact hrefl
      · exact drive_same hinv.ide hstep (fun _ _ _ _ _ _ _ h => by cases h) j
    · cases hstep
  | unref =>
    simp only [liveStep] at hstep
    split at hstep
    · cases hstep
      simp only [setPc, Bcache.unref]
      split_ifs <;> exact hrefl
    · cases hstep
  | run | disk | ideintr => exact driveOnly_same hinv.ide hstep (fun _ _ _ _ _ _ _ h => by cases h) j

/-! ### Coherence -/

lemma cacheInv_boot (disk : Nat → Disk) (havedisk1 : Bool) :
    CacheInv (boot disk havedisk1) (.zero disk) := by
  refine ⟨⟨_, _, Ide.ideInv_start ⟨fun _ => rfl, rfl, rfl, fun _ => rfl⟩⟩,
    ⟨_, ringInv_boot disk havedisk1⟩, refInv_boot disk havedisk1, ?_, (fun _ h => by cases h), ?_, ?_⟩
  · exact ⟨fun _ => rfl, (fun _ _ h => by cases h), (fun _ _ _ _ h => by cases h),
      (fun _ _ h => by cases h), (fun _ _ h => by cases h), (fun _ h => by cases h)⟩
  · refine ⟨?_, (fun _ h => by cases h), fun _ _ _ _ => rfl⟩
    rintro i (hvalid | hrefcnt)
    · cases hvalid
    · exact absurd rfl hrefcnt
  · intro data i rest hdone
    cases hdone

structure Coherent (s : State) (h : Hist) : Prop where
  /-- one circular list with the head and each buffer once -/
  list : ∃ ids : List BufId, ids.Perm (List.range NBUF) ∧ s.links.Circle .head (ids.map .buf)
  /-- a block has one buffer that is valid or referenced -/
  unique : ∀ i j, ((s.buf i).valid = true ∨ s.refcnt i ≠ 0) → ((s.buf j).valid = true ∨ s.refcnt j ≠ 0) →
    (s.buf i).dev = (s.buf j).dev → (s.buf i).blockno = (s.buf j).blockno → i = j
  /-- a dirty buffer is not recycled -/
  pinned : ∀ l s', step s l = some s' → ∀ i, (s.buf i).dirty = true →
    (s'.buf i).dev = (s.buf i).dev ∧ (s'.buf i).blockno = (s.buf i).blockno
  /-- `bread` returns the buffer of the block, locked, with what was last stored -/
  bread : ∀ q dev blockno i, s.pc q = .returned dev blockno i →
    (s.buf i).lock = some q ∧ (s.buf i).dev = dev ∧ (s.buf i).blockno = blockno ∧
      (h.Sole dev → (s.buf i).data = h.contents dev blockno)

lemma CacheInv.coherent (hinv : CacheInv s h) : Coherent s h := by
  obtain ⟨ids, hring⟩ := hinv.ring
  refine ⟨⟨ids, hring.perm, hring.circle⟩, fun i j hi hj hdev hblock => ?_, fun l s' hstep i hi => ?_,
    fun q dev blockno i hpc => ?_⟩
  · exact hring.unique hi hj ⟨hdev, hblock⟩
  · exact hinv.same_of_dirty hstep hi
  · have hholds : (s.pc q).holds = some i := by
      rw [hpc]
      rfl
    have hlock := hinv.procs.holds q i hholds
    obtain ⟨rfl, rfl⟩ := hinv.procs.block q dev blockno i (by rw [hpc]; rfl)
    refine ⟨hlock, rfl, rfl, hinv.data.cached i ?_ (hinv.save.saved hlock hholds)⟩
    rcases hinv.procs.filled q i hlock with hvalid | hfills
    · exact hvalid
    · rw [hpc] at hfills
      cases hfills

/-- In every run in which what is changed is stored before it is released, the cache is coherent. -/
theorem coherent_of_saves {disk : Nat → Disk} {havedisk1 : Bool} {x : State × Hist}
    (hrun : Reach (withHistory step nextHist) Saves (boot disk havedisk1, .zero disk) x) :
    Coherent x.1 x.2 := by
  refine CacheInv.coherent (hrun.invariant (I := fun y => CacheInv y.1 y.2)
    (cacheInv_boot disk havedisk1) ?_)
  rintro y l z hinv hok hstep
  obtain ⟨hst, hnext⟩ := withHistory_eq_some.mp hstep
  rw [hnext]
  exact hinv.step hok hst

/-- A process waits for the buffer of a block that another one changes and gives to `log_write`. -/
theorem coherent_after_logWrite : ∃ x : State × Hist,
    Reach (withHistory step nextHist) Saves (boot (fun _ _ _ => 0) true, .zero fun _ _ _ => 0) x ∧
      x.1.pc 1 = .returned 1 5 0 ∧ (x.1.buf 0).dirty = true ∧ Coherent x.1 x.2 := by
  have hexec : ∃ x : State × Hist,
      Reach (withHistory step nextHist) Saves (boot (fun _ _ _ => 0) true, .zero fun _ _ _ => 0) x ∧
        x.1.pc 1 = .returned 1 5 0 ∧ (x.1.buf 0).dirty = true :=
    Reach.exists_of_exec
      [.bread 0 1 5, .acquiresleep 0, .check 0, .disk, .ideintr, .run 0, .leave 0, .resume 0,
        .modify 0 0 fun _ => 7, .bread 1 1 5, .logWrite 0 0, .brelse 0 0, .acquiresleep 1, .unref 0,
        .check 1] (by decide +kernel)
  obtain ⟨x, hrun, hpc, hdirty⟩ := hexec
  exact ⟨x, hrun, hpc, hdirty, coherent_of_saves hrun⟩

end Xv6.Bcache
