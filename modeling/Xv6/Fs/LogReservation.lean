import Mathlib.Data.Finset.Card
import Mathlib.Data.Finset.Dedup
import Xv6.Fs.LogCrash

/-!
# The reservation of log space

`begin_op` admits an operation when `LOGSIZE` blocks hold what has been logged and `MAXOPBLOCKS`
for every running operation, while `log_write` panics at `log.size - 1` and `mkfs` makes
`log.size` equal to `LOGSIZE`, header block included. So three full operations are admitted and do
not fit. The log is used as intended as long as the group stays below `log.size`.
-/

namespace Xv6.Log

open Machine List

variable {L : Layout} {disk₀ : Disk} {s s' : State} {o : OpId} {b : BlockNo}

/-! ### Blocks of a group -/

/-- The blocks that the current group has called `log_write` on. -/
def calledBlocks (s : State) : Finset BlockNo := (s.calls.map Prod.snd).toFinset

/-- The blocks whose `log_write` in the current group is complete. -/
def loggedBlocks (s : State) : Finset BlockNo := (s.group.map Record.blockno).toFinset

/-- The blocks that one operation has called `log_write` on. -/
def opBlocks (s : State) (o : OpId) : Finset BlockNo :=
  ((s.calls.filter fun c => c.1 = o).map Prod.snd).toFinset

/-- Each operation calls `log_write` on at most `MAXOPBLOCKS` distinct blocks. -/
def OpLimit (s : State) : Label → Prop
  | .logWriteCheck o b => (insert b (opBlocks s o)).card ≤ MAXOPBLOCKS
  | _ => True

/-- `log_write` is called only while fewer than `nlog - 1` blocks are logged, and on a block with
    which the group has at most `nlog - 1` blocks. -/
def GroupFits (L : Layout) (s : State) : Label → Prop
  | .logWriteCheck _ b =>
    (loggedBlocks s).card + 1 < L.size ∧ (insert b (calledBlocks s)).card < L.size
  | _ => True

instance (s : State) : (l : Label) → Decidable (OpLimit s l)
  | .logWriteCheck o b => inferInstanceAs (Decidable ((insert b (opBlocks s o)).card ≤ MAXOPBLOCKS))
  | .beginOp | .opBread .. | .modify .. | .logWrite .. | .brelse .. | .endOp .. | .proceed
  | .fill .. | .evict .. | .crash => isTrue trivial

instance (L : Layout) (s : State) : (l : Label) → Decidable (GroupFits L s l)
  | .logWriteCheck _ b => inferInstanceAs
      (Decidable ((loggedBlocks s).card + 1 < L.size ∧ (insert b (calledBlocks s)).card < L.size))
  | .beginOp | .opBread .. | .modify .. | .logWrite .. | .brelse .. | .endOp .. | .proceed
  | .fill .. | .evict .. | .crash => isTrue trivial

/-- What the reservation is for: `log_write` does not panic, the header array does not overflow
    and `write_log` stays inside the log area. -/
structure ReservationSound (L : Layout) (s : State) : Prop where
  panic : s.panic ≠ some .tooBig
  length : s.lh.length ≤ LOGSIZE
  write : ∀ tail b, s.pc = .writeLog tail → s.lh[tail]? = some b → L.InLog (L.addr (tail + 1))

/-- Three operations of `MAXOPBLOCKS` blocks each are admitted together, and the thirtieth
    `log_write` panics. -/
theorem three_full_operations_too_big :
    ∃ s, Reach (step mkfsLayout) OpLimit (boot fun _ _ => 0) s ∧
      ¬ ReservationSound mkfsLayout s := by
  have hrun : ∃ s, Reach (step mkfsLayout) OpLimit (boot fun _ _ => 0) s ∧
      s.panic = some .tooBig :=
    Reach.exists_of_exec
      ([.proceed, .proceed, .proceed, .beginOp, .beginOp, .beginOp] ++
        (List.range 29).flatMap (fun i =>
          [.opBread (i / MAXOPBLOCKS) (BitVec.ofNat 32 (100 + i)),
            .logWriteCheck (i / MAXOPBLOCKS) (BitVec.ofNat 32 (100 + i)),
            .logWrite (i / MAXOPBLOCKS) (BitVec.ofNat 32 (100 + i))]) ++
        [.opBread 2 129, .logWriteCheck 2 129])
      (by decide +kernel)
  obtain ⟨s, hreach, hpanic⟩ := hrun
  exact ⟨s, hreach, fun hsound => hsound.panic hpanic⟩

/-! ### The invariant -/

/-- How the header in memory, the calls in progress and the group hang together. -/
structure CallsInv (L : Layout) (s : State) : Prop where
  nodup : s.pc.collecting = true → s.lh.Nodup
  called : s.pc.collecting = true → ∀ b ∈ s.lh, b ∈ calledBlocks s
  inProgress : ∀ o b, s.logging o = some b → b ∈ calledBlocks s
  fits : (calledBlocks s).card < L.size
  length : s.lh.length < L.size
  panic : s.panic ≠ some .tooBig

lemma callsInv_boot (disk : Disk) : CallsInv L (boot disk) := by
  refine ⟨by simp [boot], by simp [boot], by simp [boot], ?_, ?_, by simp [boot]⟩
  · exact L.size_pos
  · exact L.size_pos

lemma CallsInv.crash : CallsInv L (crash s) := by
  obtain ⟨h1, h2, h3, h4, h5, h6⟩ := callsInv_boot (L := L) s.disk
  exact ⟨h1, h2, h3, h4, h5, h6⟩

lemma CallsInv.quiet (h : CallsInv L s) (hinv : Inv L disk₀ s) (hq : Quiet s s') : CallsInv L s' := by
  have hcol : s'.pc.collecting = true → s.pc.collecting = true := by
    intro hc
    rcases hq.pc with hpc | hact
    · rwa [← hpc]
    · obtain ⟨o, ho⟩ := exists_mem_of_ne_nil _ hact
      rw [hinv.ops.idle ho]
      rfl
  have hcalled : calledBlocks s' = calledBlocks s := by rw [calledBlocks, hq.calls, calledBlocks]
  refine ⟨?_, ?_, ?_, by rw [hcalled]; exact h.fits, by rw [hq.lh]; exact h.length, ?_⟩
  · rw [hq.lh]
    exact fun hc => h.nodup (hcol hc)
  · rw [hq.lh, hcalled]
    exact fun hc => h.called (hcol hc)
  · rw [hq.logging, hcalled]
    exact h.inProgress
  · rcases hq.panic with hp | hp
    · rw [hp]
      exact h.panic
    · simp [hp]

lemma CallsInv.beginOp (h : CallsInv L s) (hs : beginOp s = some s') : CallsInv L s' := by
  rw [Log.beginOp] at hs
  split_ifs at hs
  exact Option.some.inj hs ▸ ⟨h.nodup, h.called, h.inProgress, h.fits, h.length, h.panic⟩

lemma calledBlocks_call (s : State) (o : OpId) (b : BlockNo) :
    ((s.calls ++ [(o, b)]).map Prod.snd).toFinset = insert b (calledBlocks s) := by
  ext a
  simp [calledBlocks]

/-- The header lists the blocks that are logged, each once. -/
lemma CallsInv.length_eq (h : CallsInv L s) (hinv : Inv L disk₀ s)
    (hpc : s.pc.collecting = true) : s.lh.length = (loggedBlocks s).card := by
  rw [← toFinset_card_of_nodup (h.nodup hpc)]
  congr 1
  ext b
  simp only [mem_toFinset, loggedBlocks, mem_map]
  exact hinv.view.lh hpc b

lemma CallsInv.logWriteCheck (h : CallsInv L s) (hinv : Inv L disk₀ s)
    (hok : GroupFits L s (.logWriteCheck o b)) (hs : logWriteCheck L s o b = some s') : CallsInv L s' := by
  obtain ⟨hlogged, hcalled⟩ := hok
  rw [Log.logWriteCheck] at hs
  split_ifs at hs with hcond hbig hout
  · -- the test fails: there would be `nlog - 1` blocks logged
    have hidle := hinv.ops.idle (hinv.ops.held _ hcond.1).1
    have hlen := h.length_eq hinv (by simp [hidle])
    have hsize := L.fits
    omega
  · have hact := (hinv.ops.held _ hcond.1).1
    rw [hinv.ops.count] at hout
    have hpos := length_pos_of_mem hact
    omega
  · cases hs
    have hsub : ∀ a ∈ calledBlocks s, a ∈ insert b (calledBlocks s) :=
      fun a ha => Finset.mem_insert_of_mem ha
    refine ⟨h.nodup, ?_, ?_, ?_, h.length, h.panic⟩
    · rw [calledBlocks, calledBlocks_call]
      exact fun hc a ha => hsub a (h.called hc a ha)
    · rw [calledBlocks, calledBlocks_call]
      intro p a ha
      by_cases hp : p = o
      · subst hp
        simp only [Function.update_self, Option.some.injEq] at ha
        exact ha ▸ Finset.mem_insert_self ..
      · simp only [Function.update_of_ne hp] at ha
        exact hsub a (h.inProgress p a ha)
    · rw [calledBlocks, calledBlocks_call]
      exact hcalled

lemma nodup_absorb {lh : List BlockNo} (h : lh.Nodup) (b : BlockNo) : (absorb lh b).Nodup := by
  induction lh with
  | nil => simp [absorb]
  | cons x xs ih =>
    obtain ⟨hx, hxs⟩ := nodup_cons.mp h
    simp only [absorb]
    split_ifs with hxb
    · exact hxb ▸ h
    · refine nodup_cons.mpr ⟨?_, ih hxs⟩
      rw [mem_absorb]
      rintro (hmem | rfl)
      · exact hx hmem
      · exact hxb rfl

lemma CallsInv.logWrite (h : CallsInv L s) (hinv : Inv L disk₀ s)
    (hs : logWrite s o b = some s') : CallsInv L s' := by
  obtain ⟨buf, _, hlog, rfl⟩ := logWrite_eq hs
  have hidle := hinv.ops.idle (hinv.ops.held _ (hinv.ops.logging o b hlog)).1
  have hcol : s.pc.collecting = true := by simp [hidle]
  have hnodup := nodup_absorb (h.nodup hcol) b
  have hcalled : ∀ a ∈ absorb s.lh b, a ∈ calledBlocks s := by
    intro a ha
    rcases mem_absorb.mp ha with ha | rfl
    · exact h.called hcol a ha
    · exact h.inProgress o a hlog
  refine ⟨fun _ => hnodup, fun _ => hcalled, ?_, h.fits, ?_, h.panic⟩
  · intro p a ha
    by_cases hp : p = o
    · simp [hp] at ha
    · simp only [Function.update_of_ne hp] at ha
      exact h.inProgress p a ha
  · show (absorb s.lh b).length < L.size
    rw [← toFinset_card_of_nodup hnodup]
    have hsub : (absorb s.lh b).toFinset ⊆ calledBlocks s :=
      fun a ha => hcalled a (mem_toFinset.mp ha)
    exact Nat.lt_of_le_of_lt (Finset.card_le_card hsub) h.fits

/-- Between two operations no call of `log_write` is in progress. -/
lemma logging_none_of_busy (hinv : Inv L disk₀ s) (hpc : s.pc ≠ .idle) (o : OpId) : s.logging o = none := by
  cases hlog : s.logging o with
  | none => rfl
  | some b =>
    have hheld := hinv.ops.logging o b hlog
    simp [hinv.ops.held_nil hpc] at hheld

lemma CallsInv.proceed (h : CallsInv L s) (hinv : Inv L disk₀ s)
    (hs : proceed L s = some s') : CallsInv L s' := by
  cases hpc : s.pc with
  | idle => simp [Log.proceed, hpc] at hs
  | commit | endCommit | clearHead | recClearHead =>
    have hcol : s.pc.collecting = true := by simp [hpc]
    simp only [Log.proceed, hpc] at hs
    cases hs
    exact ⟨fun _ => h.nodup hcol, fun _ => h.called hcol, h.inProgress, h.fits, h.length, h.panic⟩
  | writeLog tail =>
    have hcol : s.pc.collecting = true := by simp [hpc]
    simp only [Log.proceed, hpc] at hs
    cases hget : s.lh[tail]? with
    | none =>
      simp only [hget] at hs
      cases hs
      exact ⟨fun _ => h.nodup hcol, fun _ => h.called hcol, h.inProgress, h.fits, h.length, h.panic⟩
    | some b =>
      obtain ⟨c, hc⟩ := load_eq s b
      simp only [hget, hc] at hs
      cases hs
      exact ⟨fun _ => h.nodup hcol, fun _ => h.called hcol, h.inProgress, h.fits, h.length, h.panic⟩
  | writeHead =>
    have hnone := logging_none_of_busy hinv (by simp [hpc])
    simp only [Log.proceed, hpc] at hs
    cases hs
    refine ⟨by simp, by simp, ?_, L.size_pos, h.length, h.panic⟩
    intro o b hlog
    simp [bwrite, hnone o] at hlog
  | readHead =>
    have hfits := hinv.disk.fits
    rw [← hinv.bread_inLog (L.inLog_addr L.size_pos)] at hfits
    obtain ⟨c, hc⟩ := load_eq s (L.addr 0)
    simp only [Log.proceed, hpc, hc] at hs
    cases hs
    exact ⟨by simp, by simp, h.inProgress, h.fits, hfits, h.panic⟩
  | installTrans tail | recInstallTrans tail =>
    simp only [Log.proceed, hpc] at hs
    cases hget : s.lh[tail]? with
    | none =>
      simp only [hget] at hs
      cases hs
      exact ⟨by simp, by simp, h.inProgress, h.fits, L.size_pos, h.panic⟩
    | some =>
      obtain ⟨c, hc⟩ := load_eq s (L.addr (tail + 1))
      simp only [hget, hc] at hs
      cases hs
      exact ⟨by simp, by simp, h.inProgress, h.fits, h.length, h.panic⟩

lemma CallsInv.step {l : Label} (h : CallsInv L s) (hinv : Inv L disk₀ s)
    (hok : GroupFits L s l) (hs : step L s l = some s') : CallsInv L s' := by
  rcases step_cases hs with hq | rfl | ⟨_, hb⟩ | ⟨o, b, rfl, hc⟩ | ⟨o, b, hw⟩ | hp
  · exact h.quiet hinv hq
  · exact .crash
  · exact h.beginOp hb
  · exact h.logWriteCheck hinv hok hc
  · exact h.logWrite hinv hw
  · exact h.proceed hinv hp

/-- As long as every call of `log_write` meets `GroupFits`, the reservation is sound. -/
theorem reservation_sound_of_groupFits (hempty : entriesOf (disk₀ (L.addr 0)) = [])
    (hrun : Reach (step L) (GroupFits L) (boot disk₀) s) : ReservationSound L s := by
  have hinv : Inv L disk₀ s ∧ CallsInv L s := by
    refine hrun.invariant (I := fun s => Inv L disk₀ s ∧ CallsInv L s)
      ⟨inv_boot hempty, callsInv_boot disk₀⟩ ?_
    intro s l s' ⟨hinv, hcalls⟩ hok hs
    exact ⟨hinv.step (.inr hcalls.length) hs, hcalls.step hinv hok hs⟩
  obtain ⟨_, hcalls⟩ := hinv
  refine ⟨hcalls.panic, ?_, ?_⟩
  · exact Nat.le_of_lt_succ (Nat.lt_of_lt_of_le hcalls.length L.fits)
  · intro tail b _ hget
    have htail : tail < s.lh.length := (List.getElem?_eq_some_iff.mp hget).1
    exact L.inLog_addr (Nat.lt_of_le_of_lt htail hcalls.length)

/-- Two full operations and nine blocks of a third fit. -/
theorem reservation_sound_29 :
    ∃ s, Reach (step mkfsLayout) (GroupFits mkfsLayout) (boot fun _ _ => 0) s ∧
      s.lh.length = 29 ∧ ReservationSound mkfsLayout s := by
  have hrun : ∃ s, Reach (step mkfsLayout) (GroupFits mkfsLayout) (boot fun _ _ => 0) s ∧
      s.lh.length = 29 :=
    Reach.exists_of_exec
      ([.proceed, .proceed, .proceed, .beginOp, .beginOp, .beginOp] ++
        (List.range 29).flatMap (fun i =>
          [.opBread (i / MAXOPBLOCKS) (BitVec.ofNat 32 (100 + i)),
            .logWriteCheck (i / MAXOPBLOCKS) (BitVec.ofNat 32 (100 + i)),
            .logWrite (i / MAXOPBLOCKS) (BitVec.ofNat 32 (100 + i))]))
      (by decide +kernel)
  obtain ⟨s, hreach, hlen⟩ := hrun
  exact ⟨s, hreach, hlen, reservation_sound_of_groupFits (by decide +kernel) hreach⟩

end Xv6.Log
