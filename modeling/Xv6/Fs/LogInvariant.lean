import Xv6.Fs.LogFormat

/-!
# The invariant of the log

At every moment the log on disk covers the store of the finished commits (`DiskInv`), so a crash
loses nothing that was committed. The rest of the invariant is what the steps need to keep it so:
clean buffers agree with the disk, no operation runs during a commit, and the log header in memory
lists what the current group of operations has logged.
-/

namespace Xv6.Log

open Machine RedoLog Function List
open Option (some)

variable {L : Layout} {disk₀ : Disk} {s s' : State} {o : OpId} {b : BlockNo} {lh : List BlockNo}

/-! ### The invariant -/

/-- The store that the finished commits make of the initial disk. -/
def spec (disk₀ : Disk) (s : State) : Disk :=
  replay (s.commits.flatten.map Record.write) disk₀

/-- The store as the current group sees it. -/
def view (disk₀ : Disk) (s : State) : Disk :=
  replay (s.group.map Record.write) (spec disk₀ s)

/-- The crash invariant: installing the log on disk gives the committed store. -/
structure DiskInv (L : Layout) (disk target : Disk) : Prop where
  covers : Covers L.Home (logEntries L disk) disk target
  fits : (entriesOf (disk (L.addr 0))).length < L.size
  home : ∀ b ∈ entriesOf (disk (L.addr 0)), L.Home b

/-- A buffer that is neither dirty nor being changed holds what the disk holds. -/
structure CacheInv (L : Layout) (s : State) : Prop where
  coherent : ∀ b buf, s.cache b = some buf → buf.dirty = false → b ∉ s.changed →
    buf.data = s.disk b
  dirty : ∀ b buf, s.cache b = some buf → buf.dirty = true → L.Home b ∧ s.pc.recovering = false

/-- Who runs: no operation is between `begin_op` and `end_op` while a commit or a recovery is
    under way, and only operations hold buffers. -/
structure OpsInv (L : Layout) (s : State) : Prop where
  quiet : s.pc ≠ .idle → s.active = []
  busy : s.pc ≠ .idle → s.pc.recovering = false → s.committing = true
  count : s.outstanding = s.active.length
  held : ∀ x ∈ s.held, x.2 ∈ s.active ∧ L.Home x.1
  changed : ∀ b ∈ s.changed, b ∈ s.held.map Prod.fst
  logging : ∀ o b, s.logging o = some b → (b, o) ∈ s.held

/-- The program points at which the log header in memory lists the current group. -/
def Pc.collecting : Pc → Bool
  | .installTrans _ | .readHead | .recInstallTrans _ => false
  | _ => true

/-- What the processes see through the cache. -/
structure ViewInv (L : Layout) (disk₀ : Disk) (s : State) : Prop where
  bread : s.pc.recovering = false → ∀ b, L.Home b → b ∉ s.changed → bread s b = view disk₀ s b
  home : ∀ r ∈ s.group, L.Home r.blockno
  lh : s.pc.collecting = true → ∀ b, b ∈ s.lh ↔ ∃ r ∈ s.group, r.blockno = b

/-- How far the commit or the recovery has come. -/
def Phase (L : Layout) (disk₀ : Disk) (s : State) : Prop :=
  match s.pc with
  | .idle | .commit | .endCommit => entriesOf (s.disk (L.addr 0)) = []
  | .writeLog tail =>
    entriesOf (s.disk (L.addr 0)) = [] ∧
      ∀ i < tail, ∀ b, s.lh[i]? = some b → s.disk (L.addr (i + 1)) = view disk₀ s b
  | .writeHead =>
    entriesOf (s.disk (L.addr 0)) = [] ∧
      ∀ i b, s.lh[i]? = some b → s.disk (L.addr (i + 1)) = view disk₀ s b
  | .installTrans tail | .recInstallTrans tail =>
    s.group = [] ∧ entriesOf (s.disk (L.addr 0)) = s.lh ∧
      ∀ i < tail, ∀ b, s.lh[i]? = some b → s.disk b = spec disk₀ s b
  | .clearHead | .recClearHead =>
    s.group = [] ∧ s.lh = [] ∧ ∀ b, L.Home b → s.disk b = spec disk₀ s b
  | .readHead => s.group = []

attribute [simp] Pc.recovering Pc.collecting

structure Inv (L : Layout) (disk₀ : Disk) (s : State) : Prop where
  disk : DiskInv L s.disk (spec disk₀ s)
  cache : CacheInv L s
  ops : OpsInv L s
  view : ViewInv L disk₀ s
  phase : Phase L disk₀ s

/-! ### Consequences -/

lemma OpsInv.idle (h : OpsInv L s) (ho : o ∈ s.active) : s.pc = .idle := by
  by_contra hne
  simp [h.quiet hne] at ho

lemma OpsInv.held_nil (h : OpsInv L s) (hne : s.pc ≠ .idle) : s.held = [] := by
  apply eq_nil_iff_forall_not_mem.mpr
  intro x hx
  have hact := (h.held x hx).1
  simp [h.quiet hne] at hact

lemma OpsInv.changed_nil (h : OpsInv L s) (hne : s.pc ≠ .idle) : s.changed = [] := by
  apply eq_nil_iff_forall_not_mem.mpr
  intro b hb
  have hmem := h.changed b hb
  simp [h.held_nil hne] at hmem

lemma OpsInv.changed_home (h : OpsInv L s) (hb : b ∈ s.changed) : L.Home b := by
  obtain ⟨x, hx, rfl⟩ := mem_map.mp (h.changed b hb)
  exact (h.held x hx).2

/-- A block of the log area is read as it is on disk. -/
lemma Inv.bread_inLog (h : Inv L disk₀ s) (hb : L.InLog b) : Log.bread s b = s.disk b := by
  rw [Log.bread]
  cases hc : s.cache b with
  | none => rfl
  | some buf =>
    cases hd : buf.dirty with
    | true => exact absurd hb (h.cache.dirty b buf hc hd).1
    | false =>
      exact h.cache.coherent b buf hc hd fun hch => h.ops.changed_home hch hb

/-- During recovery every block is read as it is on disk. -/
lemma Inv.bread_recovering (h : Inv L disk₀ s) (hrec : s.pc.recovering = true) (b : BlockNo) :
    Log.bread s b = s.disk b := by
  have hne : s.pc ≠ .idle := by
    intro heq
    simp [heq] at hrec
  rw [Log.bread]
  cases hc : s.cache b with
  | none => rfl
  | some buf =>
    cases hd : buf.dirty with
    | true =>
      cases hrec.symm.trans (h.cache.dirty b buf hc hd).2
    | false =>
      exact h.cache.coherent b buf hc hd (by simp [h.ops.changed_nil hne])

lemma ViewInv.lh_home (h : ViewInv L disk₀ s) (hpc : s.pc.collecting = true) (hb : b ∈ s.lh) :
    L.Home b := by
  obtain ⟨r, hr, rfl⟩ := (h.lh hpc b).mp hb
  exact h.home r hr

/-- A block that the current group has not logged is the committed one. -/
lemma ViewInv.view_of_notMem (h : ViewInv L disk₀ s) (hpc : s.pc.collecting = true)
    (hb : b ∉ s.lh) : Log.view disk₀ s b = spec disk₀ s b := by
  rw [Log.view]
  apply replay_of_notMem
  intro hmem
  simp only [map_map, mem_map] at hmem
  obtain ⟨r, hr, hrb⟩ := hmem
  exact hb ((h.lh hpc b).mpr ⟨r, hr, hrb⟩)

lemma view_of_nil (hg : s.group = []) : view disk₀ s = spec disk₀ s := by
  simp [view, hg]

/-! ### Steps of operations -/

/-- A step that changes the buffer of one block. -/
lemma CacheInv.update {v : Option Buf} (h : CacheInv L s) (hcache : s'.cache = Function.update s.cache b v)
    (hdisk : ∀ a, a ≠ b → s'.disk a = s.disk a) (hchanged : ∀ a ∈ s.changed, a ≠ b → a ∈ s'.changed)
    (hpc : s'.pc = s.pc)
    (hclean : ∀ buf, v = some buf → buf.dirty = false → b ∉ s'.changed → buf.data = s'.disk b)
    (hdirty : ∀ buf, v = some buf → buf.dirty = true → L.Home b ∧ s.pc.recovering = false) :
    CacheInv L s' := by
  have hself : s'.cache b = v := by rw [hcache, update_self]
  have hother : ∀ a, a ≠ b → s'.cache a = s.cache a := fun a ha => by rw [hcache, update_of_ne ha]
  constructor
  · intro a buf ha hd hch
    by_cases hab : a = b
    · subst hab
      exact hclean buf (hself.symm.trans ha) hd hch
    · rw [hdisk a hab]
      exact h.coherent a buf ((hother a hab).symm.trans ha) hd fun hmem => hch (hchanged a hmem hab)
  · intro a buf ha hd
    rw [hpc]
    by_cases hab : a = b
    · subst hab
      exact hdirty buf (hself.symm.trans ha) hd
    · exact h.dirty a buf ((hother a hab).symm.trans ha) hd

lemma CacheInv.load (h : CacheInv L s) (b : BlockNo) : CacheInv L (load s b) := by
  rw [Log.load]
  cases hb : s.cache b with
  | some => exact h
  | none =>
    refine h.update rfl (fun _ _ => rfl) (fun _ ha _ => ha) rfl ?_ ?_
    · rintro _ ⟨⟩ _ _
      rfl
    · rintro _ ⟨⟩ ⟨⟩

/-- Reading a block into the cache changes nothing else. -/
lemma load_eq (s : State) (b : BlockNo) : ∃ c, load s b = { s with cache := c } := by
  rw [load]
  cases s.cache b with
  | some => exact ⟨s.cache, rfl⟩
  | none => exact ⟨_, rfl⟩

lemma Inv.load (h : Inv L disk₀ s) (b : BlockNo) : Inv L disk₀ (load s b) := by
  have hcache := h.cache.load b
  have hview : ∀ c, Log.bread (Log.load s b) c = Log.bread s c := bread_load s b
  obtain ⟨c, hc⟩ := load_eq s b
  rw [hc] at hcache hview ⊢
  refine ⟨h.disk, hcache, ⟨h.ops.quiet, h.ops.busy, h.ops.count,
    h.ops.held, h.ops.changed, h.ops.logging⟩, ⟨?_, h.view.home, h.view.lh⟩, h.phase⟩
  intro hrec a ha hch
  rw [hview a]
  exact h.view.bread hrec a ha hch

lemma Inv.beginOp (h : Inv L disk₀ s) (hrec : s.pc.recovering = false)
    (hs : beginOp s = some s') : Inv L disk₀ s' := by
  rw [Log.beginOp] at hs
  split_ifs at hs with hcom hroom
  cases hs
  have hidle : s.pc = .idle := by
    by_contra hne
    exact hcom (h.ops.busy hne hrec)
  refine ⟨h.disk, ⟨h.cache.coherent, h.cache.dirty⟩,
    ⟨fun hne => absurd hidle hne, h.ops.busy, ?_, ?_, h.ops.changed, h.ops.logging⟩,
    ⟨h.view.bread, h.view.home, h.view.lh⟩, h.phase⟩
  · simp [h.ops.count]
  · intro x hx
    exact ⟨mem_cons_of_mem _ (h.ops.held x hx).1, (h.ops.held x hx).2⟩

lemma Inv.opBread (h : Inv L disk₀ s) (hs : opBread L s o b = some s') : Inv L disk₀ s' := by
  rw [Log.opBread] at hs
  split_ifs at hs with hcond
  obtain ⟨hact, _, hhome, _⟩ := hcond
  cases hs
  have hl := h.load b
  obtain ⟨c, hc⟩ := load_eq s b
  rw [hc] at hl ⊢
  refine ⟨hl.disk, ⟨hl.cache.coherent, hl.cache.dirty⟩,
    ⟨hl.ops.quiet, hl.ops.busy, hl.ops.count, ?_, ?_, ?_⟩,
    ⟨hl.view.bread, hl.view.home, hl.view.lh⟩, hl.phase⟩
  · intro x hx
    rcases mem_cons.mp hx with rfl | hx
    · exact ⟨hact, hhome⟩
    · exact h.ops.held x hx
  · intro a ha
    exact mem_cons_of_mem _ (h.ops.changed a ha)
  · intro p a ha
    exact mem_cons_of_mem _ (h.ops.logging p a ha)

lemma Inv.modify {d : Block} (h : Inv L disk₀ s) (hs : modify s o b d = some s') : Inv L disk₀ s' := by
  rw [Log.modify] at hs
  cases hb : s.cache b with
  | none => simp [hb] at hs
  | some =>
    simp only [hb] at hs
    split_ifs at hs with hcond
    obtain ⟨hheld, _⟩ := hcond
    cases hs
    have hidle := h.ops.idle (h.ops.held _ hheld).1
    refine ⟨h.disk, h.cache.update rfl (fun _ _ => rfl) (fun _ ha _ => mem_cons_of_mem _ ha) rfl ?_ ?_,
      ⟨h.ops.quiet, h.ops.busy, h.ops.count, h.ops.held, ?_, h.ops.logging⟩,
      ⟨?_, h.view.home, h.view.lh⟩, h.phase⟩
    · intro _ _ _ hch
      exact absurd mem_cons_self hch
    · exact fun _ _ _ => ⟨(h.ops.held _ hheld).2, by simp [hidle]⟩
    · intro a ha
      rcases mem_cons.mp ha with rfl | ha
      · exact mem_map_of_mem hheld
      · exact h.ops.changed a ha
    · intro hrec a ha hch
      simp only [mem_cons, not_or] at hch
      refine Eq.trans ?_ (h.view.bread hrec a ha hch.2)
      simp [Log.bread, update_of_ne hch.1]

lemma logWriteCheck_eq (hs : logWriteCheck L s o b = some s') :
    ((b, o) ∈ s.held ∧ s.logging o = none) ∧
      (∃ p, s' = { s with panic := some p, calls := s.calls ++ [(o, b)] }) ∨
    ((b, o) ∈ s.held ∧ s.logging o = none) ∧
      (s.lh.length < LOGSIZE ∧ s.lh.length + 1 < L.size ∧ 1 ≤ s.outstanding) ∧
      s' = { s with
        logging := update s.logging o (some b), calls := s.calls ++ [(o, b)] } := by
  rw [logWriteCheck] at hs
  split_ifs at hs with hcond hbig hout
  · exact .inl ⟨hcond, _, (some.inj hs).symm⟩
  · exact .inl ⟨hcond, _, (some.inj hs).symm⟩
  · simp only [not_or, ge_iff_le, Nat.not_le] at hbig
    exact .inr ⟨hcond, ⟨hbig.1, hbig.2, by omega⟩, (some.inj hs).symm⟩

lemma Inv.logWriteCheck (h : Inv L disk₀ s) (hs : logWriteCheck L s o b = some s') : Inv L disk₀ s' := by
  rcases logWriteCheck_eq hs with ⟨_, p, rfl⟩ | ⟨⟨hheld, _⟩, _, rfl⟩
  · exact ⟨h.disk, ⟨h.cache.coherent, h.cache.dirty⟩,
      ⟨h.ops.quiet, h.ops.busy, h.ops.count, h.ops.held, h.ops.changed, h.ops.logging⟩,
      ⟨h.view.bread, h.view.home, h.view.lh⟩, h.phase⟩
  · refine ⟨h.disk, ⟨h.cache.coherent, h.cache.dirty⟩,
      ⟨h.ops.quiet, h.ops.busy, h.ops.count, h.ops.held, h.ops.changed, ?_⟩,
      ⟨h.view.bread, h.view.home, h.view.lh⟩, h.phase⟩
    intro p a ha
    by_cases hp : p = o
    · subst hp
      simp only [update_self, some.injEq] at ha
      exact ha ▸ hheld
    · simp only [update_of_ne hp] at ha
      exact h.ops.logging p a ha

lemma mem_absorb {b c : BlockNo} : c ∈ absorb lh b ↔ c ∈ lh ∨ c = b := by
  induction lh with
  | nil => simp [absorb]
  | cons x xs ih =>
    simp only [absorb]
    split_ifs with hx
    · subst hx
      simp only [mem_cons]
      tauto
    · simp only [mem_cons, ih]
      tauto

lemma Inv.logWrite (h : Inv L disk₀ s) (hs : logWrite s o b = some s') : Inv L disk₀ s' := by
  rw [Log.logWrite] at hs
  cases hb : s.cache b with
  | none => simp [hb] at hs
  | some =>
    simp only [hb] at hs
    split_ifs at hs with hlog
    cases hs
    have hheld := h.ops.logging o b hlog
    have hidle := h.ops.idle (h.ops.held _ hheld).1
    have hhome := (h.ops.held _ hheld).2
    -- `b` is dirty from now on; for the others nothing changed
    refine ⟨h.disk, h.cache.update rfl (fun _ _ => rfl) (fun a ha hab => by simp [ha, hab]) rfl ?_ ?_,
      ⟨h.ops.quiet, h.ops.busy, h.ops.count, h.ops.held, ?_, ?_⟩, ⟨?_, ?_, ?_⟩, ?_⟩
    · rintro _ ⟨⟩ ⟨⟩
    · exact fun _ _ _ => ⟨hhome, by simp [hidle]⟩
    · intro a ha
      exact h.ops.changed a (mem_filter.mp ha).1
    · intro p a ha
      by_cases hp : p = o
      · subst hp
        simp at ha
      · simp only [update_of_ne hp] at ha
        exact h.ops.logging p a ha
    · -- the group's last write to `b` is what the buffer holds
      intro hrec a ha hch
      simp only [Log.view, map_append, map_cons, map_nil, Record.write, replay_concat]
      by_cases hab : a = b
      · subst hab
        simp [Log.bread]
      · rw [update_of_ne hab]
        refine Eq.trans ?_ (h.view.bread hrec a ha fun hmem => hch (by simp [hmem, hab]))
        simp [Log.bread, update_of_ne hab]
    · intro r hr
      rcases mem_append.mp hr with hr | hr
      · exact h.view.home r hr
      · simp only [mem_singleton] at hr
        exact hr ▸ hhome
    · intro hpc a
      rw [mem_absorb, h.view.lh hpc a]
      simp only [mem_append, mem_singleton]
      constructor
      · rintro (⟨r, hr, hra⟩ | rfl)
        · exact ⟨r, .inl hr, hra⟩
        · exact ⟨_, .inr rfl, rfl⟩
      · rintro ⟨r, hr | rfl, hra⟩
        · exact .inl ⟨r, hr, hra⟩
        · exact .inr hra.symm
    · have hphase := h.phase
      simp only [Phase, hidle] at hphase ⊢
      exact hphase

lemma Inv.brelse (h : Inv L disk₀ s) (hs : brelse s o b = some s') : Inv L disk₀ s' := by
  rw [Log.brelse] at hs
  split_ifs at hs with hcond
  obtain ⟨hheld, hlog, hch⟩ := hcond
  cases hs
  refine ⟨h.disk, ⟨h.cache.coherent, h.cache.dirty⟩,
    ⟨h.ops.quiet, h.ops.busy, h.ops.count, ?_, ?_, ?_⟩,
    ⟨h.view.bread, h.view.home, h.view.lh⟩, h.phase⟩
  · intro x hx
    exact h.ops.held x (mem_filter.mp hx).1
  · intro a ha
    obtain ⟨x, hx, rfl⟩ := mem_map.mp (h.ops.changed a ha)
    apply mem_map_of_mem
    apply mem_filter.mpr
    refine ⟨hx, ?_⟩
    simp only [ne_eq, decide_not, Bool.not_eq_eq_eq_not, Bool.not_true, decide_eq_false_iff_not]
    rintro rfl
    exact hch ha
  · intro p a ha
    apply mem_filter.mpr
    refine ⟨h.ops.logging p a ha, ?_⟩
    simp only [ne_eq, decide_eq_true_eq, Prod.mk.injEq, not_and]
    rintro rfl rfl
    simp [hlog] at ha

lemma endOp_eq (hs : endOp s o = some s') :
    (o ∈ s.active ∧ s.logging o = none ∧ ∀ x ∈ s.held, x.2 ≠ o) ∧
      ((s.committing = true ∧ s' = { s with
          outstanding := s.outstanding - 1, active := s.active.erase o,
          panic := some .logCommitting }) ∨
       (s.committing = false ∧ s.outstanding - 1 = 0 ∧ s' = { s with
          outstanding := s.outstanding - 1, active := s.active.erase o,
          committing := true, pc := .commit }) ∨
       (s.committing = false ∧ s.outstanding - 1 ≠ 0 ∧ s' = { s with
          outstanding := s.outstanding - 1, active := s.active.erase o })) := by
  rw [endOp] at hs
  split_ifs at hs with hcond hcom hzero
  · exact ⟨hcond, .inl ⟨hcom, (some.inj hs).symm⟩⟩
  · exact ⟨hcond, .inr (.inl ⟨by simpa using hcom, hzero, (some.inj hs).symm⟩)⟩
  · exact ⟨hcond, .inr (.inr ⟨by simpa using hcom, hzero, (some.inj hs).symm⟩)⟩

lemma Inv.endOp (h : Inv L disk₀ s) (hs : endOp s o = some s') : Inv L disk₀ s' := by
  obtain ⟨⟨hact, hlog, hfree⟩, hcases⟩ := endOp_eq hs
  have hidle := h.ops.idle hact
  have hheld : ∀ x ∈ s.held, x.2 ∈ s.active.erase o ∧ L.Home x.1 := by
    intro x hx
    exact ⟨(mem_erase_of_ne (hfree x hx)).mpr (h.ops.held x hx).1, (h.ops.held x hx).2⟩
  have hcount : s.outstanding - 1 = (s.active.erase o).length := by
    rw [length_erase_of_mem hact, h.ops.count]
  rcases hcases with ⟨_, rfl⟩ | ⟨_, hzero, rfl⟩ | ⟨_, _, rfl⟩
  · exact ⟨h.disk, ⟨h.cache.coherent, h.cache.dirty⟩,
      ⟨fun hne => absurd hidle hne, h.ops.busy, hcount, hheld, h.ops.changed, h.ops.logging⟩,
      ⟨h.view.bread, h.view.home, h.view.lh⟩, h.phase⟩
  · -- the last operation: nobody holds a buffer any more, and the commit starts
    have hnil : s.active.erase o = [] := length_eq_zero_iff.mp (hcount ▸ hzero)
    have hphase := h.phase
    have hrec : s.pc.recovering = false := by simp [hidle]
    have hcol : s.pc.collecting = true := by simp [hidle]
    simp only [Phase, hidle] at hphase
    exact ⟨h.disk,
      ⟨h.cache.coherent, fun a buf ha hd => ⟨(h.cache.dirty a buf ha hd).1, rfl⟩⟩,
      ⟨fun _ => hnil, fun _ _ => rfl, hcount, hheld, h.ops.changed, h.ops.logging⟩,
      ⟨fun _ => h.view.bread hrec, h.view.home, fun _ => h.view.lh hcol⟩, hphase⟩
  · exact ⟨h.disk, ⟨h.cache.coherent, h.cache.dirty⟩,
      ⟨fun hne => absurd hidle hne, h.ops.busy, hcount, hheld, h.ops.changed, h.ops.logging⟩,
      ⟨h.view.bread, h.view.home, h.view.lh⟩, h.phase⟩

lemma Inv.evict (h : Inv L disk₀ s) (hs : evict s b = some s') : Inv L disk₀ s' := by
  rw [Log.evict] at hs
  cases hb : s.cache b with
  | none => simp [hb] at hs
  | some buf =>
    simp only [hb] at hs
    split_ifs at hs with hcond
    obtain ⟨hclean, hfree⟩ := hcond
    cases hs
    have hnch : b ∉ s.changed := by
      intro hch
      obtain ⟨x, hx, hxb⟩ := mem_map.mp (h.ops.changed b hch)
      exact hfree x hx hxb
    refine ⟨h.disk, h.cache.update rfl (fun _ _ => rfl) (fun _ ha _ => ha) rfl ?_ ?_,
      ⟨h.ops.quiet, h.ops.busy, h.ops.count, h.ops.held, h.ops.changed, h.ops.logging⟩,
      ⟨?_, h.view.home, h.view.lh⟩, h.phase⟩
    · rintro _ ⟨⟩
    · rintro _ ⟨⟩
    · -- the disk still holds what a clean buffer held
      intro hrec a ha hch
      refine Eq.trans ?_ (h.view.bread hrec a ha hch)
      by_cases hab : a = b
      · subst hab
        simp [Log.bread, hb, h.cache.coherent a buf hb hclean hnch]
      · simp [Log.bread, update_of_ne hab]

/-! ### Disk writes and the crash invariant -/

section DiskWrites

variable {disk target target' : Disk} {i : Nat} {l : Label}

/-- Before the commit point a write to a log block means nothing. -/
lemma DiskInv.writeLog (h : DiskInv L disk target) (hempty : entriesOf (disk (L.addr 0)) = [])
    (hi : i + 1 < L.size) (d : Block) :
    DiskInv L (update disk (L.addr (i + 1)) d) target ∧
      update disk (L.addr (i + 1)) d (L.addr 0) = disk (L.addr 0) := by
  have hne : L.addr 0 ≠ L.addr (i + 1) := by
    intro heq
    have := L.addr_injective L.size_pos hi heq
    omega
  have hhdr : update disk (L.addr (i + 1)) d (L.addr 0) = disk (L.addr 0) :=
    update_of_ne hne _ _
  refine ⟨⟨?_, ?_, ?_⟩, hhdr⟩
  · have hcov := h.covers
    rw [logEntries_of_empty hempty] at hcov
    rw [logEntries_of_empty (by rw [hhdr, hempty])]
    apply hcov.congr
    intro a ha
    exact update_of_ne (ha.ne_addr hi) _ _
  · rw [hhdr]
    exact h.fits
  · rw [hhdr]
    exact h.home

/-- The commit point: writing the header makes the logged blocks part of the store. -/
lemma DiskInv.writeHead (hb : Block) (hdisk : ∀ a, L.Home a → disk a = target a)
    (hlen : lh.length < L.size) (hhome : ∀ a ∈ lh, L.Home a)
    (hcopy : ∀ i a, lh[i]? = some a → disk (L.addr (i + 1)) = target' a)
    (hrest : ∀ a, L.Home a → a ∉ lh → target' a = target a) :
    DiskInv L (update disk (L.addr 0) (headOf hb lh)) target' := by
  have hfits := L.fits
  have hread : entriesOf (update disk (L.addr 0) (headOf hb lh) (L.addr 0)) = lh := by
    rw [update_self, entriesOf_headOf hb (by omega)]
  have hkeep : ∀ a, L.Home a →
      update disk (L.addr 0) (headOf hb lh) a = target a := by
    intro a ha
    rw [update_of_ne (ha.ne_addr L.size_pos)]
    exact hdisk a ha
  refine ⟨Covers.commit hkeep ?_ ?_, by rw [hread]; exact hlen, by rw [hread]; exact hhome⟩
  · intro e he
    obtain ⟨i, hget, hdata⟩ := mem_logEntries.mp he
    rw [hread] at hget
    have hi : i < lh.length := (List.getElem?_eq_some_iff.mp hget).1
    have hne : L.addr (i + 1) ≠ L.addr 0 := by
      intro heq
      have := L.addr_injective (by omega) L.size_pos heq
      omega
    rw [hdata, update_of_ne hne]
    exact hcopy i e.1 hget
  · intro a ha hna
    rw [logEntries_fst, hread] at hna
    exact hrest a ha hna

/-- Installing one entry of the log on disk. -/
lemma DiskInv.install (h : DiskInv L disk target) (hget : (entriesOf (disk (L.addr 0)))[i]? = some b) :
    DiskInv L (update disk b (disk (L.addr (i + 1)))) target ∧
      update disk b (disk (L.addr (i + 1))) (L.addr 0) = disk (L.addr 0) ∧
      disk (L.addr (i + 1)) = target b := by
  have hmem : b ∈ entriesOf (disk (L.addr 0)) := mem_of_getElem? hget
  have hbhome := h.home b hmem
  have hlog : ∀ j < L.size,
      update disk b (disk (L.addr (i + 1))) (L.addr j) = disk (L.addr j) := by
    intro j hj
    exact update_of_ne (hbhome.ne_addr hj).symm _ _
  have hentry : (b, disk (L.addr (i + 1))) ∈ logEntries L disk :=
    mem_logEntries.mpr ⟨i, hget, rfl⟩
  refine ⟨⟨?_, ?_, ?_⟩, hlog 0 L.size_pos, h.covers.entry _ hentry⟩
  · rw [logEntries_congr h.fits hlog]
    exact h.covers.install hentry
  · rw [hlog 0 L.size_pos]
    exact h.fits
  · rw [hlog 0 L.size_pos]
    exact h.home

/-- Once every entry is installed the log on disk can go. -/
lemma DiskInv.clear (hb : Block) (hdisk : ∀ a, L.Home a → disk a = target a) :
    DiskInv L (update disk (L.addr 0) (headOf hb [])) target ∧
      entriesOf (update disk (L.addr 0) (headOf hb []) (L.addr 0)) = [] := by
  refine ⟨DiskInv.writeHead hb hdisk L.size_pos (by simp) (by simp) (fun _ _ _ => rfl), ?_⟩
  rw [update_self, entriesOf_headOf hb (by simp)]

end DiskWrites

lemma CacheInv.bwrite (h : CacheInv L s) (b : BlockNo) (d : Block) : CacheInv L (bwrite s b d) := by
  refine h.update rfl (fun _ ha => update_of_ne ha _ _) (fun _ ha _ => ha) rfl ?_ ?_
  · rintro _ ⟨⟩ _ _
    exact (update_self b d s.disk).symm
  · rintro _ ⟨⟩ ⟨⟩

/-! ### Steps of the commit and of the recovery -/

/-- While no operation runs, the processes see the view of the group. -/
lemma Inv.bread_view (h : Inv L disk₀ s) (hne : s.pc ≠ .idle) (hrec : s.pc.recovering = false)
    (hb : L.Home b) : Log.bread s b = Log.view disk₀ s b :=
  h.view.bread hrec b hb (by simp [h.ops.changed_nil hne])

/-- A step of the commit or of the recovery, which concerns no operation. -/
lemma Inv.goOn {pc : Pc} {c : BlockNo → Option Buf} {d : Disk} (h : Inv L disk₀ s)
    (hne : s.pc ≠ .idle) (hpc : pc.recovering = s.pc.recovering) (hdisk : DiskInv L d (spec disk₀ s))
    (hcache : CacheInv L { s with cache := c, disk := d })
    (hbread : s.pc.recovering = false → ∀ a, L.Home a →
      Log.bread { s with cache := c, disk := d } a = Log.view disk₀ s a)
    (hlh : pc.collecting = true → ∀ b, b ∈ lh ↔ ∃ r ∈ s.group, r.blockno = b)
    (hphase : Phase L disk₀ { s with pc := pc, cache := c, disk := d, lh := lh }) :
    Inv L disk₀ { s with pc := pc, cache := c, disk := d, lh := lh } where
  disk := hdisk
  cache := ⟨hcache.coherent, fun a buf ha hd => (hcache.dirty a buf ha hd).imp_right hpc.trans⟩
  ops := ⟨fun _ => h.ops.quiet hne, fun _ hrec => h.ops.busy hne (hpc.symm.trans hrec), h.ops.count,
    h.ops.held, h.ops.changed, h.ops.logging⟩
  view := ⟨fun hrec a ha _ => hbread (hpc.symm.trans hrec) a ha, h.view.home, hlh⟩
  phase := hphase

lemma spec_commit (s : State) (pc : Pc) :
    spec disk₀ { s with pc := pc, calls := [], group := [], commits := s.commits ++ [s.group] } =
      view disk₀ s := by
  simp [spec, view, replay_append]

section

variable (h : Inv L disk₀ s)

include h

lemma Inv.proceed_commit (hpc : s.pc = .commit) (hs : proceed L s = some s') : Inv L disk₀ s' := by
  have hne : s.pc ≠ .idle := by simp [hpc]
  have hlh := h.view.lh (by simp [hpc])
  have hphase := h.phase
  simp only [Phase, hpc] at hphase
  simp only [proceed, hpc] at hs
  cases hs
  by_cases hlen : s.lh.length > 0
  · simp only [hlen, if_true]
    exact h.goOn hne (by simp [hpc]) h.disk h.cache (fun hrec a => h.bread_view hne hrec) (fun _ => hlh)
      ⟨hphase, by simp⟩
  · simp only [hlen, if_false]
    exact h.goOn hne (by simp [hpc]) h.disk h.cache (fun hrec a => h.bread_view hne hrec) (fun _ => hlh)
      hphase

lemma Inv.proceed_writeLog {tail : Nat} (hfit : s.lh.length < L.size)
    (hpc : s.pc = .writeLog tail) (hs : proceed L s = some s') : Inv L disk₀ s' := by
  have hne : s.pc ≠ .idle := by simp [hpc]
  have hcol : s.pc.collecting = true := by simp [hpc]
  have hphase := h.phase
  simp only [Phase, hpc] at hphase
  obtain ⟨hempty, hcopied⟩ := hphase
  simp only [proceed, hpc] at hs
  cases hget : s.lh[tail]? with
  | none =>
    simp only [hget] at hs
    cases hs
    refine h.goOn hne (by simp [hpc]) h.disk h.cache (fun hrec a => h.bread_view hne hrec)
      (fun _ => h.view.lh hcol) ⟨hempty, ?_⟩
    intro i a hi
    have hlt : i < s.lh.length := (List.getElem?_eq_some_iff.mp hi).1
    have htail : s.lh.length ≤ tail := List.getElem?_eq_none_iff.mp hget
    exact hcopied i (by omega) a hi
  | some b =>
    simp only [hget] at hs
    cases hs
    have htail : tail < s.lh.length := (List.getElem?_eq_some_iff.mp hget).1
    have hmem : b ∈ s.lh := mem_of_getElem? hget
    have hc := (h.cache.load b).bwrite (L.addr (tail + 1)) (Log.bread s b)
    have hl := h.load b
    obtain ⟨c, hceq⟩ := load_eq s b
    rw [hceq] at hc hl ⊢
    have hroom : tail + 1 < L.size := by omega
    obtain ⟨hdisk, hhdr⟩ := h.disk.writeLog hempty hroom (Log.bread s b)
    refine h.goOn hne (by simp [hpc]) hdisk hc ?_ (fun _ => h.view.lh hcol) ⟨?_, ?_⟩
    · intro hrec a ha
      refine (bread_bwrite_of_ne _ _ (ha.ne_addr hroom)).trans ?_
      exact hl.bread_view hne hrec ha
    · exact (congrArg entriesOf hhdr).trans hempty
    · intro i hi a ha
      by_cases hit : i = tail
      · subst hit
        have hab : b = a := some.inj (hget.symm.trans ha)
        subst hab
        exact (update_self ..).trans (h.bread_view hne (by simp [hpc]) (h.view.lh_home hcol hmem))
      · have hne' : L.addr (i + 1) ≠ L.addr (tail + 1) := by
          intro heq
          have := L.addr_injective (by omega) (by omega) heq
          omega
        exact (update_of_ne hne' _ _).trans (hcopied i (by omega) a ha)

lemma Inv.proceed_writeHead (hfit : s.lh.length < L.size)
    (hpc : s.pc = .writeHead) (hs : proceed L s = some s') : Inv L disk₀ s' := by
  have hne : s.pc ≠ .idle := by simp [hpc]
  have hrec : s.pc.recovering = false := by simp [hpc]
  have hcol : s.pc.collecting = true := by simp [hpc]
  have hphase := h.phase
  simp only [Phase, hpc] at hphase
  obtain ⟨hempty, hcopied⟩ := hphase
  simp only [proceed, hpc] at hs
  cases hs
  have hcov := h.disk.covers
  rw [logEntries_of_empty hempty, covers_nil] at hcov
  have hc := h.cache.bwrite (L.addr 0) (headOf (Log.bread s (L.addr 0)) s.lh)
  have hdisk : DiskInv L
      (update s.disk (L.addr 0) (headOf (Log.bread s (L.addr 0)) s.lh))
      (Log.view disk₀ s) :=
    DiskInv.writeHead _ hcov hfit (fun a ha => h.view.lh_home hcol ha) hcopied
      (fun a _ hna => h.view.view_of_notMem hcol hna)
  have hspec : spec disk₀
      { bwrite s (L.addr 0) (headOf (Log.bread s (L.addr 0)) s.lh) with
        pc := .installTrans 0, calls := [], group := [], commits := s.commits ++ [s.group] } =
      Log.view disk₀ s := spec_commit s .writeHead
  refine ⟨hspec ▸ hdisk, ⟨hc.coherent, fun a buf ha hd => ⟨(hc.dirty a buf ha hd).1, rfl⟩⟩,
    ⟨fun _ => h.ops.quiet hne, fun _ _ => h.ops.busy hne hrec, h.ops.count, h.ops.held,
      h.ops.changed, h.ops.logging⟩,
    ⟨?_, by simp, by simp⟩, rfl, ?_, by simp⟩
  · intro _ a ha hch
    rw [view_of_nil rfl, hspec]
    refine (bread_bwrite_of_ne s _ (ha.ne_addr L.size_pos)).trans ?_
    exact h.view.bread hrec a ha hch
  · have hfits := L.fits
    simp only [bwrite, update_self]
    exact entriesOf_headOf _ (by omega)

/-- One round of `install_trans`, in `commit` or in `recover_from_log`. -/
lemma Inv.install {tail : Nat} (hhead : entriesOf (s.disk (L.addr 0)) = s.lh)
    (hdone : ∀ i < tail, ∀ a, s.lh[i]? = some a → s.disk a = spec disk₀ s a) (hget : s.lh[tail]? = some b) :
    ∃ c, bwrite (Log.load s (L.addr (tail + 1))) b (Log.bread s (L.addr (tail + 1))) =
        { s with cache := c, disk := update s.disk b (spec disk₀ s b) } ∧
      CacheInv L { s with cache := c, disk := update s.disk b (spec disk₀ s b) } ∧
      DiskInv L (update s.disk b (spec disk₀ s b)) (spec disk₀ s) ∧
      entriesOf (update s.disk b (spec disk₀ s b) (L.addr 0)) = s.lh ∧
      (∀ i < tail + 1, ∀ a, s.lh[i]? = some a → update s.disk b (spec disk₀ s b) a = spec disk₀ s a) ∧
      ∀ a, Log.bread
          { s with cache := c, disk := update s.disk b (spec disk₀ s b) } a =
        if a = b then spec disk₀ s b else Log.bread s a := by
  have htail : tail < s.lh.length := (List.getElem?_eq_some_iff.mp hget).1
  have hfits := h.disk.fits
  rw [hhead] at hfits
  have hcopy : Log.bread s (L.addr (tail + 1)) = s.disk (L.addr (tail + 1)) :=
    h.bread_inLog (L.inLog_addr (by omega))
  obtain ⟨hdisk, hhdr, hval⟩ := h.disk.install (hhead.symm ▸ hget)
  rw [hval] at hdisk hhdr
  have hc := (h.cache.load (L.addr (tail + 1))).bwrite b (Log.bread s (L.addr (tail + 1)))
  have hview : ∀ a, Log.bread (bwrite (Log.load s (L.addr (tail + 1))) b
      (Log.bread s (L.addr (tail + 1)))) a = if a = b then spec disk₀ s b else Log.bread s a := by
    intro a
    split_ifs with hab
    · rw [hab, bread_bwrite_self, hcopy, hval]
    · rw [bread_bwrite_of_ne _ _ hab, bread_load]
  obtain ⟨c, hceq⟩ := load_eq s (L.addr (tail + 1))
  rw [hceq] at hc hview ⊢
  simp only [Log.bwrite, hcopy, hval] at hc hview ⊢
  refine ⟨_, rfl, hc, hdisk, (congrArg entriesOf hhdr).trans hhead, ?_, hview⟩
  intro i hi a ha
  by_cases hab : a = b
  · subst hab
    exact update_self ..
  · rw [update_of_ne hab]
    apply hdone i _ a ha
    by_contra hlt
    have heq : i = tail := by omega
    subst heq
    exact hab (some.inj (ha.symm.trans hget))

/-- When `install_trans` has gone through the whole log, the disk holds the committed store. -/
lemma Inv.installed {tail : Nat}
    (hhead : entriesOf (s.disk (L.addr 0)) = s.lh)
    (hdone : ∀ i < tail, ∀ a, s.lh[i]? = some a → s.disk a = spec disk₀ s a)
    (hget : s.lh[tail]? = none) : ∀ a, L.Home a → s.disk a = spec disk₀ s a := by
  apply h.disk.covers.installed
  intro e he
  obtain ⟨i, hi, _⟩ := mem_logEntries.mp he
  rw [hhead] at hi
  have hlt : i < s.lh.length := (List.getElem?_eq_some_iff.mp hi).1
  have htail : s.lh.length ≤ tail := List.getElem?_eq_none_iff.mp hget
  exact hdone i (by omega) e.1 hi

/-- `install_trans` is the same in `commit` and in `recover_from_log`. -/
lemma Inv.proceed_installTrans {tail : Nat}
    (hpc : s.pc = .installTrans tail ∨ s.pc = .recInstallTrans tail) (hs : proceed L s = some s') :
    Inv L disk₀ s' := by
  have hne : s.pc ≠ .idle := by rcases hpc with hpc | hpc <;> simp [hpc]
  have hphase : s.group = [] ∧ entriesOf (s.disk (L.addr 0)) = s.lh ∧
      ∀ i < tail, ∀ b, s.lh[i]? = some b → s.disk b = spec disk₀ s b := by
    rcases hpc with hpc | hpc <;> simpa only [Phase, hpc] using h.phase
  obtain ⟨hgroup, hhead, hdone⟩ := hphase
  cases hget : s.lh[tail]? with
  | none =>
    have hall := h.installed hhead hdone hget
    rcases hpc with hpc | hpc <;>
      simp only [proceed, hpc, hget] at hs <;> cases hs <;>
      exact h.goOn hne (by simp [hpc]) h.disk h.cache (fun hrec a => h.bread_view hne hrec)
        (fun _ a => by simp [hgroup]) ⟨hgroup, rfl, hall⟩
  | some b =>
    obtain ⟨c, heq, hc, hdisk, hhdr, hinst, hview⟩ := h.install hhead hdone hget
    have hbread : s.pc.recovering = false → ∀ a, L.Home a → Log.bread
        { s with cache := c, disk := update s.disk b (spec disk₀ s b) } a = Log.view disk₀ s a := by
      intro hrec a ha
      rw [hview a, h.bread_view hne hrec ha, view_of_nil hgroup]
      split_ifs with hab
      · rw [hab]
      · rfl
    rcases hpc with hpc | hpc <;>
      simp only [proceed, hpc, hget, heq] at hs <;> cases hs <;>
      exact h.goOn hne (by simp [hpc]) hdisk hc hbread (by simp) ⟨hgroup, hhdr, hinst⟩

lemma Inv.proceed_clearHead (hpc : s.pc = .clearHead) (hs : proceed L s = some s') : Inv L disk₀ s' := by
  have hne : s.pc ≠ .idle := by simp [hpc]
  have hphase := h.phase
  simp only [Phase, hpc] at hphase
  obtain ⟨hgroup, hlh, hall⟩ := hphase
  simp only [proceed, hpc] at hs
  cases hs
  rw [hlh]
  obtain ⟨hdisk, hempty⟩ := DiskInv.clear (Log.bread s (L.addr 0)) hall
  refine h.goOn hne (by simp [hpc]) hdisk (h.cache.bwrite _ _) ?_ (fun _ => h.view.lh (by simp [hpc])) hempty
  intro hrec a ha
  refine (bread_bwrite_of_ne s _ (ha.ne_addr L.size_pos)).trans ?_
  exact h.bread_view hne hrec ha

lemma Inv.proceed_endCommit (hpc : s.pc = .endCommit) (hs : proceed L s = some s') : Inv L disk₀ s' := by
  have hphase := h.phase
  simp only [Phase, hpc] at hphase
  simp only [proceed, hpc] at hs
  cases hs
  exact ⟨h.disk, ⟨h.cache.coherent, fun a buf ha hd => ⟨(h.cache.dirty a buf ha hd).1, rfl⟩⟩,
    ⟨fun hidle => absurd rfl hidle, fun hidle => absurd rfl hidle, h.ops.count, h.ops.held,
      h.ops.changed, h.ops.logging⟩,
    ⟨fun _ => h.view.bread (by simp [hpc]), h.view.home, fun _ => h.view.lh (by simp [hpc])⟩, hphase⟩

lemma Inv.proceed_readHead (hpc : s.pc = .readHead) (hs : proceed L s = some s') : Inv L disk₀ s' := by
  have hne : s.pc ≠ .idle := by simp [hpc]
  have hphase := h.phase
  simp only [Phase, hpc] at hphase
  simp only [proceed, hpc, h.bread_inLog (L.inLog_addr L.size_pos)] at hs
  cases hs
  have hl := h.load (L.addr 0)
  obtain ⟨c, hc⟩ := load_eq s (L.addr 0)
  rw [hc] at hl ⊢
  exact h.goOn hne (by simp [hpc]) hl.disk hl.cache (by simp [hpc]) (by simp) ⟨hphase, rfl, by simp⟩

lemma Inv.proceed_recClearHead (hpc : s.pc = .recClearHead)
    (hs : proceed L s = some s') : Inv L disk₀ s' := by
  have hrec : s.pc.recovering = true := by simp [hpc]
  have hphase := h.phase
  simp only [Phase, hpc] at hphase
  obtain ⟨hgroup, hlh, hall⟩ := hphase
  simp only [proceed, hpc, hlh] at hs
  cases hs
  obtain ⟨hdisk, hempty⟩ := DiskInv.clear (Log.bread s (L.addr 0)) hall
  have hc := h.cache.bwrite (L.addr 0) (headOf (Log.bread s (L.addr 0)) [])
  refine ⟨hdisk, ⟨hc.coherent, fun a buf ha hd => ⟨(hc.dirty a buf ha hd).1, rfl⟩⟩,
    ⟨fun hidle => absurd rfl hidle, fun hidle => absurd rfl hidle, h.ops.count, h.ops.held,
      h.ops.changed, h.ops.logging⟩,
    ⟨?_, h.view.home, fun _ => h.view.lh (by simp [hpc])⟩, hempty⟩
  -- the cache is clean, so the processes will see the recovered disk
  intro _ a ha hch
  refine (bread_bwrite_of_ne s _ (ha.ne_addr L.size_pos)).trans ?_
  rw [h.bread_recovering hrec a, hall a ha]
  exact (congrFun (view_of_nil hgroup) a).symm

lemma Inv.crash : Inv L disk₀ (crash s) :=
  ⟨h.disk, ⟨by simp [Log.crash, boot], by simp [Log.crash, boot]⟩,
    ⟨fun _ => rfl, by simp [Log.crash, boot], rfl, by simp [Log.crash, boot],
      by simp [Log.crash, boot], by simp [Log.crash, boot]⟩,
    ⟨by simp [Log.crash, boot], by simp [Log.crash, boot], by simp [Log.crash, boot]⟩, rfl⟩

end

lemma inv_boot (hempty : entriesOf (disk₀ (L.addr 0)) = []) : Inv L disk₀ (boot disk₀) := by
  have hdisk : DiskInv L disk₀ (spec disk₀ (boot disk₀)) := by
    refine ⟨?_, by simp [hempty, L.size_pos], by simp [hempty]⟩
    rw [logEntries_of_empty hempty, covers_nil]
    intro a _
    rfl
  exact ⟨hdisk, ⟨by simp [boot], by simp [boot]⟩,
    ⟨fun _ => rfl, by simp [boot], rfl, by simp [boot], by simp [boot], by simp [boot]⟩,
    ⟨by simp [boot], by simp [boot], by simp [boot]⟩, rfl⟩

/-- `write_log` and `write_head` are reached with a log that fits; the recovery always does. -/
lemma Inv.proceed (h : Inv L disk₀ s) (hfit : s.pc.recovering = true ∨ s.lh.length < L.size)
    (hs : proceed L s = some s') : Inv L disk₀ s' := by
  cases hpc : s.pc with
  | idle => simp [Log.proceed, hpc] at hs
  | commit => exact h.proceed_commit hpc hs
  | writeLog => exact h.proceed_writeLog (by simpa [hpc] using hfit) hpc hs
  | writeHead => exact h.proceed_writeHead (by simpa [hpc] using hfit) hpc hs
  | installTrans => exact h.proceed_installTrans (.inl hpc) hs
  | clearHead => exact h.proceed_clearHead hpc hs
  | endCommit => exact h.proceed_endCommit hpc hs
  | readHead => exact h.proceed_readHead hpc hs
  | recInstallTrans => exact h.proceed_installTrans (.inr hpc) hs
  | recClearHead => exact h.proceed_recClearHead hpc hs

lemma liveStep_of_step (hs : step L s l = some s') : liveStep L s l = some s' := by
  cases l with
  | crash => simpa [step, liveStep] using hs
  | _ =>
    cases hp : s.panic with
    | some => simp [step, hp] at hs
    | none => simpa [step, hp] using hs

/-- Every step keeps the invariant as long as the log fits its area. -/
lemma Inv.step (h : Inv L disk₀ s) (hfit : s.pc.recovering = true ∨ s.lh.length < L.size)
    (hs : step L s l = some s') : Inv L disk₀ s' := by
  have hl := liveStep_of_step hs
  cases l with
  | beginOp =>
    simp only [liveStep] at hl
    split_ifs at hl with hrec
    exact h.beginOp (by simpa using hrec) hl
  | opBread => exact h.opBread hl
  | modify => exact h.modify hl
  | logWriteCheck => exact h.logWriteCheck hl
  | logWrite => exact h.logWrite hl
  | brelse => exact h.brelse hl
  | endOp => exact h.endOp hl
  | proceed => exact h.proceed hfit hl
  | fill b => exact some.inj hl ▸ h.load b
  | evict => exact h.evict hl
  | crash => exact some.inj hl ▸ h.crash

/-! ### What a step can do -/

/-- A step that logs and commits nothing. -/
structure SameHistory (s s' : State) : Prop where
  records : s'.records = s.records
  group : s'.group = s.group
  commits : s'.commits = s.commits
  nextOp : s'.nextOp = s.nextOp
  active : ∀ o ∈ s'.active, o ∈ s.active

lemma SameHistory.of_load (s : State) (b : BlockNo) : SameHistory s (load s b) := by
  obtain ⟨c, hc⟩ := load_eq s b
  rw [hc]
  exact ⟨rfl, rfl, rfl, rfl, fun _ ho => ho⟩

/-- The first `write_head` of a commit moves the group to the finished commits; the other steps
    of a commit or a recovery leave the history alone. -/
lemma proceed_history (hs : proceed L s = some s') :
    SameHistory s s' ∨
      (s.pc = .writeHead ∧ s'.records = s.records ∧ s'.nextOp = s.nextOp ∧
        s'.active = s.active ∧ s'.group = [] ∧ s'.commits = s.commits ++ [s.group]) := by
  cases hpc : s.pc with
  | idle => simp [proceed, hpc] at hs
  | commit | endCommit | clearHead | recClearHead =>
    simp only [proceed, hpc] at hs
    cases hs
    exact .inl ⟨rfl, rfl, rfl, rfl, fun _ ho => ho⟩
  | writeHead =>
    simp only [proceed, hpc] at hs
    cases hs
    exact .inr ⟨rfl, rfl, rfl, rfl, rfl, rfl⟩
  | readHead =>
    simp only [proceed, hpc] at hs
    cases hs
    obtain ⟨h1, h2, h3, h4, h5⟩ := SameHistory.of_load s (L.addr 0)
    exact .inl ⟨h1, h2, h3, h4, h5⟩
  | writeLog tail | installTrans tail | recInstallTrans tail =>
    simp only [proceed, hpc] at hs
    cases hget : s.lh[tail]? with
    | none =>
      simp only [hget] at hs
      cases hs
      exact .inl ⟨rfl, rfl, rfl, rfl, fun _ ho => ho⟩
    | some =>
      simp only [hget] at hs
      cases hs
      obtain ⟨h1, h2, h3, h4, h5⟩ := SameHistory.of_load s _
      exact .inl ⟨h1, h2, h3, h4, h5⟩

/-- A step that leaves the log and the calls of `log_write` alone. -/
structure Quiet (s s' : State) : Prop extends SameHistory s s' where
  lh : s'.lh = s.lh
  calls : s'.calls = s.calls
  logging : s'.logging = s.logging
  pc : s'.pc = s.pc ∨ s.active ≠ []
  panic : s'.panic = s.panic ∨ s'.panic = some .logCommitting

lemma Quiet.of_load (s : State) (b : BlockNo) : Quiet s (load s b) := by
  obtain ⟨c, hc⟩ := load_eq s b
  rw [hc]
  exact ⟨⟨rfl, rfl, rfl, rfl, fun _ ho => ho⟩, rfl, rfl, rfl, .inl rfl, .inl rfl⟩

lemma Quiet.endOp (hs : endOp s o = some s') : Quiet s s' := by
  obtain ⟨⟨ho, _⟩, hcases⟩ := endOp_eq hs
  have hne : s.active ≠ [] := ne_nil_of_mem ho
  have hact : ∀ p ∈ s.active.erase o, p ∈ s.active := fun _ hp => mem_of_mem_erase hp
  rcases hcases with ⟨_, rfl⟩ | ⟨_, _, rfl⟩ | ⟨_, _, rfl⟩
  · exact ⟨⟨rfl, rfl, rfl, rfl, hact⟩, rfl, rfl, rfl, .inl rfl, .inr rfl⟩
  · exact ⟨⟨rfl, rfl, rfl, rfl, hact⟩, rfl, rfl, rfl, .inr hne, .inl rfl⟩
  · exact ⟨⟨rfl, rfl, rfl, rfl, hact⟩, rfl, rfl, rfl, .inl rfl, .inl rfl⟩

lemma logWrite_eq (hs : logWrite s o b = some s') :
    ∃ buf, s.cache b = some buf ∧ s.logging o = some b ∧ s' = { s with
      lh := absorb s.lh b
      cache := update s.cache b (some { buf with dirty := true })
      changed := s.changed.filter (· ≠ b)
      logging := update s.logging o none
      group := s.group ++ [⟨o, b, buf.data⟩]
      records := s.records ++ [⟨o, b, buf.data⟩] } := by
  rw [logWrite] at hs
  cases hb : s.cache b with
  | none => simp [hb] at hs
  | some buf =>
    simp only [hb] at hs
    split_ifs at hs with hlog
    exact ⟨buf, rfl, hlog, (some.inj hs).symm⟩

/-- A step is quiet or one of the five that matter to the log. -/
lemma step_cases (hs : step L s l = some s') :
    Quiet s s' ∨ s' = crash s ∨ (s.pc.recovering = false ∧ beginOp s = some s') ∨
      (∃ o b, l = .logWriteCheck o b ∧ logWriteCheck L s o b = some s') ∨
      (∃ o b, logWrite s o b = some s') ∨ proceed L s = some s' := by
  have hl := liveStep_of_step hs
  cases l with
  | beginOp =>
    simp only [liveStep] at hl
    split_ifs at hl with hrec
    exact .inr (.inr (.inl ⟨by simpa using hrec, hl⟩))
  | logWriteCheck o b => exact .inr (.inr (.inr (.inl ⟨o, b, rfl, hl⟩)))
  | logWrite o b => exact .inr (.inr (.inr (.inr (.inl ⟨o, b, hl⟩))))
  | proceed => exact .inr (.inr (.inr (.inr (.inr hl))))
  | crash => exact .inr (.inl (some.inj hl).symm)
  | endOp => exact .inl (Quiet.endOp hl)
  | fill b => exact .inl (some.inj hl ▸ Quiet.of_load s b)
  | opBread o b =>
    simp only [liveStep, opBread] at hl
    split_ifs at hl
    obtain ⟨⟨h1, h2, h3, h4, h5⟩, h6, h7, h8, h9, h10⟩ := Quiet.of_load s b
    exact .inl (some.inj hl ▸ ⟨⟨h1, h2, h3, h4, h5⟩, h6, h7, h8, h9, h10⟩)
  | modify o b =>
    simp only [liveStep, modify] at hl
    cases hb : s.cache b with
    | none => simp [hb] at hl
    | some =>
      simp only [hb] at hl
      split_ifs at hl
      exact .inl (some.inj hl ▸ ⟨⟨rfl, rfl, rfl, rfl, fun _ ho => ho⟩, rfl, rfl, rfl, .inl rfl, .inl rfl⟩)
  | brelse =>
    simp only [liveStep, brelse] at hl
    split_ifs at hl
    exact .inl (some.inj hl ▸ ⟨⟨rfl, rfl, rfl, rfl, fun _ ho => ho⟩, rfl, rfl, rfl, .inl rfl, .inl rfl⟩)
  | evict b =>
    simp only [liveStep, evict] at hl
    cases hb : s.cache b with
    | none => simp [hb] at hl
    | some =>
      simp only [hb] at hl
      split_ifs at hl
      exact .inl (some.inj hl ▸ ⟨⟨rfl, rfl, rfl, rfl, fun _ ho => ho⟩, rfl, rfl, rfl, .inl rfl, .inl rfl⟩)

end Xv6.Log
