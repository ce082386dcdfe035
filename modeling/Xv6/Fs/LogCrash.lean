import Xv6.Fs.LogInvariant

/-!
# Crash atomicity

However the operations interleave and wherever the machine crashes, during a commit or during a
recovery, `recover_from_log` leaves on disk exactly the groups of operations whose commit had
finished its first `write_head`, each of them whole.
-/

namespace Xv6.Log

open Machine RedoLog List

variable {L : Layout} {disk₀ : Disk} {s s' : State} {o : OpId}

/-! ### Operations and commits -/

/-- The completed `log_write` calls of one operation. -/
def opRecords (o : OpId) (rs : List Record) : List Record := rs.filter fun r => r.op = o

/-- Of the writes `all` that operation `o` has logged, `done` has all or none. -/
def AllOrNone (o : OpId) (all done : List Record) : Prop :=
  opRecords o done = opRecords o all ∨ opRecords o done = []

@[simp] lemma opRecords_nil (o : OpId) : opRecords o [] = [] := rfl

lemma opRecords_append (o : OpId) (rs rs' : List Record) :
    opRecords o (rs ++ rs') = opRecords o rs ++ opRecords o rs' :=
  filter_append ..

lemma opRecords_of_fresh {rs : List Record} {n : OpId} (h : ∀ r ∈ rs, r.op < n) : opRecords n rs = [] := by
  apply filter_eq_nil_iff.mpr
  intro r hr
  simpa only [decide_eq_true_eq] using Nat.ne_of_lt (h r hr)

/-- An operation's writes are all in the current group, all in the finished commits, or lost. -/
structure HistInv (s : State) : Prop where
  fresh : ∀ r ∈ s.records, r.op < s.nextOp
  group : ∀ r ∈ s.group, r ∈ s.records
  active : ∀ o ∈ s.active, o < s.nextOp ∧ opRecords o s.group = opRecords o s.records
  fate : ∀ o,
    (opRecords o s.group = opRecords o s.records ∧ opRecords o s.commits.flatten = []) ∨
    (opRecords o s.group = [] ∧ AllOrNone o s.records s.commits.flatten)

lemma HistInv.commits_of_active (h : HistInv s) (ho : o ∈ s.active) :
    opRecords o s.commits.flatten = [] := by
  rcases h.fate o with ⟨_, hnone⟩ | ⟨hgroup, hall | hnone⟩
  · exact hnone
  · rw [hall, ← (h.active o ho).2, hgroup]
  · exact hnone

lemma HistInv.allOrNone (h : HistInv s) (o : OpId) : AllOrNone o s.records s.commits.flatten := by
  rcases h.fate o with ⟨_, hnone⟩ | ⟨_, hall⟩
  · exact .inr hnone
  · exact hall

lemma histInv_boot (disk : Disk) : HistInv (boot disk) :=
  ⟨by simp [boot], by simp [boot], by simp [boot], fun o => .inl (by simp [boot])⟩

section

variable (h : HistInv s)

include h

lemma HistInv.crash : HistInv (crash s) :=
  ⟨h.fresh, by simp [Log.crash, boot], by simp [Log.crash, boot], fun o => .inr ⟨rfl, h.allOrNone o⟩⟩

lemma HistInv.beginOp (hs : beginOp s = some s') : HistInv s' := by
  rw [Log.beginOp] at hs
  split_ifs at hs
  cases hs
  refine ⟨fun r hr => Nat.lt_succ_of_lt (h.fresh r hr), h.group, ?_, h.fate⟩
  intro o ho
  rcases mem_cons.mp ho with rfl | ho
  · have hgroup : ∀ r ∈ s.group, r.op < s.nextOp := fun r hr => h.fresh r (h.group r hr)
    exact ⟨Nat.lt_succ_self _, (opRecords_of_fresh hgroup).trans (opRecords_of_fresh h.fresh).symm⟩
  · exact ⟨Nat.lt_succ_of_lt (h.active o ho).1, (h.active o ho).2⟩

lemma HistInv.logWriteCheck {b : BlockNo} (hs : logWriteCheck L s o b = some s') : HistInv s' := by
  rcases logWriteCheck_eq hs with ⟨_, p, rfl⟩ | ⟨_, _, rfl⟩
  all_goals exact ⟨h.fresh, h.group, h.active, h.fate⟩

lemma HistInv.logWrite {b : BlockNo} (ho : o ∈ s.active) (hs : logWrite s o b = some s') : HistInv s' := by
  obtain ⟨buf, _, _, rfl⟩ := logWrite_eq hs
  refine ⟨?_, ?_, ?_, ?_⟩
  · intro r hr
    rcases mem_append.mp hr with hr | hr
    · exact h.fresh r hr
    · rw [mem_singleton.mp hr]
      exact (h.active o ho).1
  · intro r hr
    simp only [mem_append] at hr ⊢
    exact hr.imp_left (h.group r)
  · intro p hp
    simp only [opRecords_append, (h.active p hp).2]
    exact ⟨(h.active p hp).1, trivial⟩
  · intro p
    simp only [opRecords_append]
    by_cases hp : p = o
    · subst hp
      rw [(h.active p ho).2]
      exact .inl ⟨rfl, h.commits_of_active ho⟩
    · have hnil : opRecords p [⟨o, b, buf.data⟩] = [] := by
        simp [opRecords, Ne.symm hp]
      simp only [AllOrNone, opRecords_append, hnil, append_nil]
      exact h.fate p

lemma HistInv.same (hsame : SameHistory s s') : HistInv s' := by
  refine ⟨?_, ?_, ?_, ?_⟩
  · rw [hsame.records, hsame.nextOp]
    exact h.fresh
  · rw [hsame.group, hsame.records]
    exact h.group
  · intro o ho
    rw [hsame.nextOp, hsame.group, hsame.records]
    exact h.active o (hsame.active o ho)
  · rw [hsame.group, hsame.records, hsame.commits]
    exact h.fate

lemma HistInv.proceed (hops : OpsInv L s) (hs : proceed L s = some s') : HistInv s' := by
  rcases proceed_history hs with hsame | ⟨hpc, hrec, hnext, hact, hgroup, hcom⟩
  · exact h.same hsame
  · -- no operation is active here, so the group is complete
    have hnil : s.active = [] := hops.quiet (by simp [hpc])
    refine ⟨by rw [hrec, hnext]; exact h.fresh, by simp [hgroup], by simp [hact, hnil], ?_⟩
    intro o
    simp only [hgroup, hrec, hcom, flatten_append, flatten_singleton, AllOrNone,
      opRecords_append, opRecords_nil]
    rcases h.fate o with ⟨hall, hnone⟩ | ⟨hnone, hall⟩
    · exact .inr ⟨trivial, .inl (by rw [hnone, hall, nil_append])⟩
    · exact .inr ⟨trivial, by rw [hnone, append_nil]; exact hall⟩

lemma HistInv.step {l : Label} (hops : OpsInv L s) (hs : step L s l = some s') : HistInv s' := by
  rcases step_cases hs with hq | rfl | ⟨_, hb⟩ | ⟨o, b, _, hc⟩ | ⟨o, b, hw⟩ | hp
  · exact h.same hq.toSameHistory
  · exact h.crash
  · exact h.beginOp hb
  · exact h.logWriteCheck hc
  · obtain ⟨_, _, hlog, _⟩ := logWrite_eq hw
    exact h.logWrite (hops.held _ (hops.logging o b hlog)).1 hw
  · exact h.proceed hops hp

end

/-! ### Recovery -/

/-- A step taken while the header in memory has at most `nlog - 1` entries. -/
def LogFits (L : Layout) (s : State) (_ : Label) : Prop := s.lh.length ≤ L.size - 1

/-- A step taken inside `recover_from_log`. -/
def Recovering (s : State) (_ : Label) : Prop := s.pc.recovering = true

instance (L : Layout) (s : State) (l : Label) : Decidable (LogFits L s l) :=
  inferInstanceAs (Decidable (_ ≤ _))

instance (s : State) (l : Label) : Decidable (Recovering s l) :=
  inferInstanceAs (Decidable (_ = _))

lemma reach_inv (hempty : entriesOf (disk₀ (L.addr 0)) = [])
    (hrun : Reach (step L) (LogFits L) (boot disk₀) s) : Inv L disk₀ s ∧ HistInv s := by
  refine hrun.invariant (I := fun s => Inv L disk₀ s ∧ HistInv s) ⟨inv_boot hempty, histInv_boot disk₀⟩ ?_
  intro s l s' ⟨hinv, hhist⟩ hfit hs
  have hlt : s.lh.length < L.size := Nat.lt_of_le_pred L.size_pos hfit
  exact ⟨hinv.step (.inr hlt) hs, hhist.step hinv.ops hs⟩

/-- A recovery commits nothing and no operation runs during it. -/
lemma step_recovering {l : Label} (hinv : Inv L disk₀ s) (hrec : s.pc.recovering = true)
    (hs : step L s l = some s') : s'.commits = s.commits ∧ s'.records = s.records := by
  have hidle : s.pc ≠ .idle := by
    rintro hpc
    simp [hpc] at hrec
  have hheld := hinv.ops.held_nil hidle
  rcases step_cases hs with hq | rfl | ⟨hno, _⟩ | ⟨o, b, _, hc⟩ | ⟨o, b, hw⟩ | hp
  · exact ⟨hq.commits, hq.records⟩
  · exact ⟨rfl, rfl⟩
  · cases hrec.symm.trans hno
  · rcases logWriteCheck_eq hc with ⟨_, p, rfl⟩ | ⟨_, _, rfl⟩
    · exact ⟨rfl, rfl⟩
    · exact ⟨rfl, rfl⟩
  · obtain ⟨_, _, hlog, _⟩ := logWrite_eq hw
    have hmem := hinv.ops.logging o b hlog
    simp [hheld] at hmem
  · rcases proceed_history hp with hsame | ⟨hpc, _⟩
    · exact ⟨hsame.commits, hsame.records⟩
    · simp [hpc] at hrec

/-- A recovery, crashes during it included, keeps the invariant and the history. -/
lemma recovery_inv (hinv : Inv L disk₀ s) (hrec : Reach (step L) Recovering s s') :
    Inv L disk₀ s' ∧ s'.commits = s.commits ∧ s'.records = s.records := by
  refine hrec.invariant (I := fun t => Inv L disk₀ t ∧ t.commits = s.commits ∧
    t.records = s.records) ⟨hinv, rfl, rfl⟩ ?_
  intro t l t' ⟨ht, hcom, hre⟩ hok hs
  obtain ⟨hcom', hre'⟩ := step_recovering ht hok hs
  exact ⟨ht.step (.inl hok) hs, hcom'.trans hcom, hre'.trans hre⟩

lemma step_proceed (hp : s.panic = none) : step L s .proceed = proceed L s := by
  simp [step, hp, liveStep]

/-- From the loop of `install_trans` a recovery comes to its end. -/
lemma recInstall_completes (hp : s.panic = none) (tail : Nat) (hpc : s.pc = .recInstallTrans tail) :
    ∃ s', Reach (step L) Recovering s s' ∧ s'.pc = .idle := by
  -- induction on the entries that are left
  obtain ⟨n, hn⟩ : ∃ n, n = s.lh.length - tail := ⟨_, rfl⟩
  have hok : Recovering s .proceed := by simp [Recovering, hpc]
  induction n generalizing s tail with
  | zero =>
    have hget : s.lh[tail]? = none := List.getElem?_eq_none (Nat.le_of_sub_eq_zero hn.symm)
    have h1 : step L s .proceed = some { s with lh := [], pc := .recClearHead } := by
      rw [step_proceed hp]
      simp only [proceed, hpc, hget]
    refine ⟨_, (Reach.single hok h1).tail (l := .proceed) rfl (step_proceed hp), rfl⟩
  | succ n ih =>
    have hlt : tail < s.lh.length := by omega
    have hget : s.lh[tail]? = some s.lh[tail] := List.getElem?_eq_getElem hlt
    have h1 := step_proceed (L := L) hp
    simp only [proceed, hpc, hget] at h1
    obtain ⟨c, hc⟩ := load_eq s (L.addr (tail + 1))
    rw [hc] at h1
    have hrest := ih (s := { bwrite { s with cache := c } s.lh[tail]
      (bread s (L.addr (tail + 1))) with pc := .recInstallTrans (tail + 1) })
      hp (tail + 1) rfl (by simp only [bwrite]; omega) rfl
    obtain ⟨s', hreach, hidle⟩ := hrest
    exact ⟨s', (Reach.single hok h1).trans hreach, hidle⟩

/-- A recovery that is not interrupted comes to its end. -/
lemma recovery_completes (s : State) : ∃ s', Reach (step L) Recovering (crash s) s' ∧ s'.pc = .idle := by
  have h1 : step L (crash s) .proceed = proceed L (crash s) := step_proceed rfl
  obtain ⟨c, hc⟩ := load_eq (crash s) (L.addr 0)
  simp only [proceed, crash, boot] at h1
  obtain ⟨s', hreach, hidle⟩ := recInstall_completes (L := L) (s := { load (crash s) (L.addr 0) with
    lh := entriesOf (bread (crash s) (L.addr 0)), pc := .recInstallTrans 0 }) (by rw [hc]; rfl) 0 rfl
  have hok : Recovering (crash s) .proceed := rfl
  exact ⟨s', (Reach.single hok h1).trans hreach, hidle⟩

/-- Crash atomicity. Let `s` be any state of a run of operations, commits, crashes and recoveries
    that starts from an empty log and keeps the header within the log area. A crash in `s` is
    followed by a recovery that completes, and however often it is itself cut short by crashes,
    afterwards the blocks outside the log hold exactly the finished commits, in order; of each
    operation all the logged writes are among them or none, all of them when its group is one of
    the finished commits; and the log on disk is empty. -/
theorem crash_atomicity (hempty : entriesOf (disk₀ (L.addr 0)) = [])
    (hrun : Reach (step L) (LogFits L) (boot disk₀) s) :
    (∃ s', Reach (step L) Recovering (crash s) s' ∧ s'.pc = .idle) ∧
    ∀ s', Reach (step L) Recovering (crash s) s' → s'.pc = .idle →
      (∀ b, L.Home b → s'.disk b = replay (s.commits.flatten.map Record.write) disk₀ b) ∧
      (∀ o, AllOrNone o s.records s.commits.flatten) ∧
      (∀ g ∈ s.commits, ∀ r ∈ g,
        opRecords r.op s.commits.flatten = opRecords r.op s.records) ∧
      entriesOf (s'.disk (L.addr 0)) = [] := by
  obtain ⟨hinv, hhist⟩ := reach_inv hempty hrun
  refine ⟨recovery_completes s, ?_⟩
  intro s' hrec hidle
  obtain ⟨hinv', hcom, _⟩ := recovery_inv hinv.crash hrec
  have hhead : entriesOf (s'.disk (L.addr 0)) = [] := by
    simpa only [Phase, hidle] using hinv'.phase
  refine ⟨?_, hhist.allOrNone, ?_, hhead⟩
  · intro b hb
    have hcov := hinv'.disk.covers
    rw [logEntries_of_empty hhead, covers_nil] at hcov
    rw [hcov b hb, spec, hcom]
    rfl
  · intro g hg r hr
    rcases hhist.allOrNone r.op with hall | hnone
    · exact hall
    · have hmem : r ∈ opRecords r.op s.commits.flatten := by
        simp only [opRecords, List.mem_filter, decide_true, and_true]
        exact List.mem_flatten_of_mem hg hr
      simp [hnone] at hmem

/-- One block written by one operation, and a crash right after the `write_head` of its commit:
    the block has not been installed, and the recovery installs it. -/
theorem crash_atomicity_after_write_head :
    ∃ s, Reach (step mkfsLayout) (LogFits mkfsLayout) (boot fun _ _ => 0) s ∧
      (s.disk 100).byte 0 = 0 ∧
      ∃ s', Reach (step mkfsLayout) Recovering (crash s) s' ∧ s'.pc = .idle ∧
        (s'.disk 100).byte 0 = 7 := by
  have hrun : ∃ s, Reach (step mkfsLayout) (LogFits mkfsLayout) (boot fun _ _ => 0) s ∧
      (s.disk 100).byte 0 = 0 ∧
      (replay (s.commits.flatten.map Record.write) (fun _ _ => 0) 100).byte 0 = 7 :=
    Reach.exists_of_exec
      [.proceed, .proceed, .proceed, .beginOp, .opBread 0 100, .modify 0 100 (fun _ => 7),
        .logWriteCheck 0 100, .logWrite 0 100, .brelse 0 100, .endOp 0, .proceed, .proceed,
        .proceed, .proceed] (by decide +kernel)
  obtain ⟨s, hreach, hold, hnew⟩ := hrun
  obtain ⟨⟨s', hrec, hidle⟩, hall⟩ := crash_atomicity (by decide +kernel) hreach
  refine ⟨s, hreach, hold, s', hrec, hidle, ?_⟩
  rw [(hall s' hrec hidle).1 100 (by decide)]
  exact hnew

end Xv6.Log
