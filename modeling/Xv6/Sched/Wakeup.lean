import Xv6.Sched.Sleepers

/-!
# Lost wakeups

`sleep` gives up `lk` before it stores `p->chan` and makes the process `NEG_SLEEPING`. A `wakeup`
that looks at the process in between finds nobody to wake up. It is the only way to lose a wakeup:
a `wakeup1` that looks at the process earlier or later waits for `NEG_SLEEPING` to pass.
-/

namespace Xv6.Sched

open Machine Option

variable {s s' : State} {c d : CpuId} {p q r : Slot} {t t' : Thread} {a : Act} {l : Label}
  {v : PState} {z z' : Sleep} {f : Call} {f' : Option Call} {po : Option Slot} {i : Intr}
  {past safe past' safe' : Prop} {chan : Chan} {b : Bool} {v' : PState}

/-! ### The innermost call on a CPU -/

/-- The innermost call on the stack that a CPU is on. -/
def State.call (s : State) (c : CpuId) : Option Call :=
  match (s.cpu c).cur with
  | some p => (s.slot p).thread.call
  | none => (s.cpu c).call

lemma State.call_of_cur (h : (s.cpu c).cur = some p) : s.call c = (s.slot p).thread.call := by
  rw [State.call, h]

lemma State.call_of_off (h : (s.cpu c).cur = none) : s.call c = (s.cpu c).call := by
  rw [State.call, h]

/-- What a step of CPU `d` does to a call on CPU `c` that does not give up the CPU. -/
inductive CallMove (s : State) (c d : CpuId) (f : Call) (s' : State) : Prop
  | same (h : s'.call c = some f)
  | lost (h : s'.call c = none)
  | step (po : Option Slot) (f' : Option Call) (a : Act) (i : Intr) (hcall : s.call d = some f)
      (h : callStep s d po f = some (.go f' a i)) (h' : s'.call c = f')
      (hstate : ∀ q, (s'.slot q).state = ((a.apply s).slot q).state)

lemma Rule.cpu_ne (h : Rule s d s') (hc : c ≠ d) : s'.cpu c = s.cpu c := by
  cases h with
  | panic => rfl
  | proc => rw [Act.cpu_apply, cpu_setThread, cpu_setCpu_of_ne _ _ hc]
  | out => rw [swtchOut, cpu_setThread, cpu_setCpu_of_ne _ _ hc]
  | sched | cpuCall => rw [Act.cpu_apply, cpu_setCpu_of_ne _ _ hc]
  | cpuIrq => exact cpu_setCpu_of_ne _ _ hc

/-- A call on the stack of a process, whichever CPU carries it on. -/
lemma Rule.callMove_proc (h : Rule s d s') (hcur : (s.cpu c).cur = some p)
    (hcur' : (s'.cpu c).cur = some p) (hf : s.call c = some f) (hswitch : f.switches = false) :
    CallMove s c d f s' := by
  rw [State.call_of_cur hcur] at hf
  cases h.thread p with
  | same h =>
    apply CallMove.same
    rw [State.call_of_cur hcur', h, hf]
  | new h =>
    apply CallMove.lost
    rw [State.call_of_cur hcur', h]
    rfl
  | out b e hcall =>
    cases hf.symm.trans hcall
    cases hswitch
  | step a hd h hstate =>
    generalize ht' : (s'.slot p).thread = t' at h
    cases h with
    | call g g' a i hg h =>
      obtain rfl := some.inj (hf.symm.trans hg)
      refine .step (some p) g' a i ?_ h ?_ hstate
      · rw [State.call_of_cur hd, hf]
      · rw [State.call_of_cur hcur', ht']
    | sleep y y' g a hcall | handler g hcall | trapEnd g hcall | leave hcall =>
      cases hf.symm.trans hcall
    | main t a ht | interrupt ht =>
      rw [ht] at hf
      cases hf

lemma Rule.callMove (h : Rule s d s') (hf : s.call c = some f) (hswitch : f.switches = false) :
    CallMove s c d f s' := by
  cases hcur : (s.cpu c).cur with
  | some =>
    refine h.callMove_proc hcur ?_ hf hswitch
    by_cases hcd : c = d
    · subst hcd
      rw [State.call_of_cur hcur] at hf
      cases h with
      | panic => exact hcur
      | proc => rwa [Act.cpu_apply, cpu_setThread, cpu_setCpu]
      | out r b e hr hcall =>
        obtain rfl := some.inj (hcur.symm.trans hr)
        cases hf.symm.trans hcall
        cases hswitch
      | sched k a hr | cpuCall g g' a i hr | cpuIrq irq g i hr => cases hcur.symm.trans hr
    · rwa [h.cpu_ne hcd]
  | none =>
    by_cases hcd : c = d
    · subst hcd
      have hcall' := hf
      rw [State.call_of_off hcur] at hf
      cases h with
      | panic => exact .same hcall'
      | proc r t a i hr | out r b e hr => cases hcur.symm.trans hr
      | sched k a hr hcall | cpuIrq irq g i hr hcall => cases hf.symm.trans hcall
      | cpuCall g g' a i hr hcall h =>
        obtain rfl := some.inj (hf.symm.trans hcall)
        refine .step none g' a i hcall' h ?_ fun q => a.state_congr rfl
        rw [State.call, Act.cpu_apply, cpu_setCpu, hr]
    · apply CallMove.same
      rw [State.call_of_off hcur] at hf
      rw [State.call, h.cpu_ne hcd, hcur, hf]

/-! ### A pass of `wakeup1` -/

/-- Inside `wakeup1(chan)`, or inside `wakeup(chan)` if `b`. -/
def Call.sweeps (b : Bool) (chan : Chan) : Call → Bool
  | .wakeup w => b && w = chan
  | .wakeup1 b' w _ | .wakeup1Spin b' w _ | .wakeup1Cas b' w _ => b' = b && w = chan
  | .wakeupPop => b
  | _ => false

/-- How far a pass of `wakeup1` has come with slot `p`, whose state is `v`: it has still to look at
    it, or it has found it `past` the point where a wakeup is missed, or `p` is `safe`. -/
def Swept (p : Slot) (past safe : Prop) (v : PState) : Call → Prop
  | .wakeup _ => True
  | .wakeup1 _ _ j => j ≤ p ∨ safe
  | .wakeup1Spin _ _ j => j < p ∨ j = p ∧ past ∨ safe
  | .wakeup1Cas _ _ j => j < p ∨ j = p ∧ past ∧ v ≠ .negSleeping ∨ safe
  | _ => safe

/-- What a step leaves of a pass. -/
def SweptNext (p : Slot) (past safe : Prop) (v : PState) (b : Bool) (chan : Chan) :
    Option Call → Prop
  | some f => f.sweeps b chan = true ∧ Swept p past safe v f
  | none => safe

lemma Swept.mono (h : Swept p past safe v f) (hpast : past → past') (hsafe : safe → safe')
    (hneg : past → v ≠ .negSleeping → v' ≠ .negSleeping ∨ safe') : Swept p past' safe' v' f := by
  cases f with
  | wakeup => trivial
  | wakeup1 => exact h.imp id hsafe
  | wakeup1Spin => exact h.imp id (Or.imp (And.imp id hpast) hsafe)
  | wakeup1Cas =>
    rcases h with hlt | ⟨heq, hp, hv⟩ | h
    · exact .inl hlt
    · exact .inr ((hneg hp hv).imp (fun hv' => ⟨heq, hpast hp, hv'⟩) id)
    · exact .inr (.inr (hsafe h))
  | _ => exact hsafe h

lemma sweptNext_next {past safe : Prop} {j : Slot} (h : j < p ∨ safe) :
    SweptNext p past safe v b chan (wakeup1Next b chan j) := by
  rw [wakeup1Next, nextSlot]
  by_cases hj : j.val + 1 < NPROC
  · rw [dif_pos hj]
    refine ⟨by simp [Call.sweeps], h.imp (fun hlt => ?_) id⟩
    exact Nat.succ_le_of_lt hlt
  · rw [dif_neg hj]
    have hsafe : safe := by
      refine h.resolve_left fun hlt => hj ?_
      exact Nat.lt_of_le_of_lt (Nat.succ_le_of_lt hlt) p.isLt
    cases b
    · exact hsafe
    · exact ⟨rfl, hsafe⟩

/-- One step of the pass. It must not look at `p` before `p` is past, and a process that is past and
    not asleep on the channel is safe. -/
lemma Swept.step (h : Swept p past safe (s.slot p).state f) (hf : f.sweeps b chan = true)
    (hcall : callStep s d po f = some (.go f' a i)) (hv' : v' = ((a.apply s).slot p).state)
    (hpast : past → past') (hsafe : safe → safe')
    (htest : f = .wakeup1 b chan p → past ∧ ((s.slot p).chan ≠ chan → safe))
    (hawake : past' → v' ≠ .negSleeping → v' ≠ .sleeping → safe') :
    SweptNext p past' safe' v' b chan f' := by
  cases f with
  | wakeup =>
    cases hcall
    simp only [Call.sweeps, Bool.and_eq_true, decide_eq_true_eq] at hf
    obtain ⟨rfl, rfl⟩ := hf
    exact ⟨by simp [Call.sweeps], .inl (Nat.zero_le _)⟩
  | wakeup1 =>
    cases hcall
    have hfam := hf
    simp only [Call.sweeps, Bool.and_eq_true, decide_eq_true_eq] at hf
    obtain ⟨rfl, rfl⟩ := hf
    split_ifs with hchan
    · refine ⟨hfam, ?_⟩
      rcases h with hle | h
      · rcases Fin.lt_or_eq_of_le hle with hlt | rfl
        · exact .inl hlt
        · exact .inr (.inl ⟨rfl, hpast (htest rfl).1⟩)
      · exact .inr (.inr (hsafe h))
    · apply sweptNext_next
      rcases h with hle | h
      · rcases Fin.lt_or_eq_of_le hle with hlt | rfl
        · exact .inl hlt
        · exact .inr (hsafe ((htest rfl).2 hchan))
      · exact .inr (hsafe h)
  | wakeup1Spin =>
    cases hcall
    rw [Act.apply_none] at hv'
    subst hv'
    split_ifs with hneg
    · exact ⟨hf, Swept.mono h hpast hsafe fun _ hv => .inl hv⟩
    · refine ⟨hf, h.imp id (Or.imp ?_ hsafe)⟩
      rintro ⟨rfl, hp⟩
      exact ⟨rfl, hpast hp, hneg⟩
  | wakeup1Cas b' w j =>
    cases hcall
    simp only [Call.sweeps, Bool.and_eq_true, decide_eq_true_eq] at hf
    obtain ⟨rfl, rfl⟩ := hf
    apply sweptNext_next
    rcases h with hlt | ⟨rfl, hp, hneg⟩ | h
    · exact .inl hlt
    · right
      by_cases hold : (s.slot j).state = .sleeping
      · rw [cas, if_pos hold, state_apply_state] at hv'
        subst hv'
        exact hawake (hpast hp) (by decide) (by decide)
      · rw [cas, if_neg hold, Act.apply_none] at hv'
        subst hv'
        exact hawake (hpast hp) hneg hold
    · exact .inr (hsafe h)
  | wakeupPop =>
    obtain ⟨-, rfl, rfl⟩ := pop_eq_go (some.inj hcall)
    exact hsafe h
  | _ => cases hf

/-! ### Watching a call of `sleep` -/

/-- What has happened since `p` called `sleep(chan, lk)`: it has released `lk` there; then CPU `c`
    has acquired `lk`; then `c` has called `wakeup(chan)`; then that call has returned. -/
inductive Phase
  | idle
  | released
  | acquired
  | waking
  | woken
  deriving DecidableEq

/-- A process, a channel and a lock to watch, and another CPU. -/
structure Watch where
  p : Slot
  c : CpuId
  chan : Chan
  lk : Lock

/-- Inside `sleep(chan, lk)`. -/
def Watch.sleeps (w : Watch) (s : State) : Bool :=
  match (s.slot w.p).thread.sleep with
  | some z => z.chan = w.chan && z.lk = some w.lk
  | none => false

/-- The store `lk->locked = 0` of the `release(lk)` in `sleep`. -/
def Watch.releases (w : Watch) (s s' : State) : Bool :=
  match (s'.slot w.p).thread.sleep with
  | some z =>
    z.pc = .chan && (s.slot w.p).thread.call = some (.releaseFree w.lk) &&
      (s'.slot w.p).thread.call = some .releasePop
  | none => false

/-- The `xchg` of `acquire(lk)` that gets the lock. -/
def Watch.acquires (w : Watch) (s s' : State) : Bool :=
  s.call w.c = some (.acquireSpin w.lk) && s'.call w.c = some (.acquireCpu w.lk)

/-- The phase after a step. It ends with the call of `sleep`. -/
def Watch.next (w : Watch) (s : State) (_ : Label) (s' : State) (f : Phase) : Phase :=
  if w.sleeps s' then
    match f with
    | .idle => if w.releases s s' then .released else .idle
    | .released => if w.acquires s s' then .acquired else .released
    | .acquired => if s'.call w.c = some (.wakeup w.chan) then .waking else .acquired
    | .waking =>
      if (s'.call w.c).any (Call.sweeps true w.chan) then .waking
      else if s.call w.c = some .wakeupPop then .woken
      else .acquired
    | .woken => .woken
  else .idle

/-- `NEG_SLEEPING` or `SLEEPING` in `sleep`, on its channel. -/
def Asleep (x : Proc) : Prop :=
  match x.thread.sleep with
  | some z => z.pc = .tidy ∧ (x.state = .negSleeping ∨ x.state = .sleeping)
  | none => False

instance (x : Proc) : Decidable (Asleep x) :=
  match h : x.thread.sleep with
  | some z =>
    decidable_of_iff (z.pc = .tidy ∧ (x.state = .negSleeping ∨ x.state = .sleeping))
      (by rw [Asleep, h])
  | none => isFalse (by rw [Asleep, h]; exact id)

/-- A step that looks at a process which has released `lk` in `sleep(chan, lk)` and has not done its
    `cas`, to wake up `chan`. -/
def misses (s : State) (c : CpuId) : Bool :=
  match s.call c with
  | some (.wakeup1 _ chan q) =>
    match (s.slot q).thread.sleep with
    | some z => z.chan = chan && z.lk.isSome && (s.slot q).thread.window
    | none => false
  | _ => false

def NoMiss (s : State) (l : Label) : Prop := misses s l.cpu = false

instance (s : State) (l : Label) : Decidable (NoMiss s l) :=
  inferInstanceAs (Decidable (_ = false))

/-! ### The invariant -/

/-- Past the `cas` in `sleep`. -/
def Thread.pastCas (t : Thread) : Prop := ∃ z, t.sleep = some z ∧ z.pc.past = true

/-- Past the `cas` in `sleep`, and woken up. -/
def Awake (x : Proc) : Prop := x.thread.pastCas ∧ ¬ Asleep x

lemma Asleep.of_sleep {x : Proc} (hz : x.thread.sleep = some z) :
    Asleep x ↔ z.pc = .tidy ∧ (x.state = .negSleeping ∨ x.state = .sleeping) := by
  rw [Asleep, hz]

/-- Past the `cas` a process does not go back to sleep in the same call. -/
lemma Rule.state_of_past (hown : OwnInv s) (h : Rule s d s') (hp : (s.slot p).thread.pastCas) :
    ((s'.slot p).state = .negSleeping → (s.slot p).state = .negSleeping) ∧
      ((s'.slot p).state = .sleeping → (s.slot p).state = .negSleeping ∨ (s.slot p).state = .sleeping) := by
  obtain ⟨z, hz, hpast⟩ := hp
  rcases h.state hown p with heq | hedge
  · rw [heq]
    exact ⟨id, .inr⟩
  · generalize (s.slot p).state = v at hedge
    generalize (s'.slot p).state = v' at hedge
    cases hedge with
    | sleep y _ hy hpc =>
      obtain rfl := some.inj (hz.symm.trans hy)
      rw [hpc] at hpast
      cases hpast
    | sleeping =>
      refine ⟨fun h => ?_, fun _ => .inl rfl⟩
      cases h
    | _ =>
      constructor
      · intro h
        cases h
      · intro h
        cases h

lemma Rule.awake (hown : OwnInv s) (hsleep : SleepInv s) (h : Rule s d s')
    (hz' : (s'.slot p).thread.sleep = some z') (hp : Awake (s.slot p)) : Awake (s'.slot p) := by
  obtain ⟨⟨z, hz, hpast⟩, hawake⟩ := hp
  have hkeep := h.sleepKeep hsleep hz hz'
  obtain ⟨hneg, hsleeping⟩ := h.state_of_past hown ⟨z, hz, hpast⟩
  refine ⟨⟨z', hz', hkeep.past hpast⟩, fun hasleep => hawake ?_⟩
  rw [Asleep.of_sleep hz'] at hasleep
  rw [Asleep.of_sleep hz]
  refine ⟨?_, hasleep.2.elim (fun h => .inl (hneg h)) hsleeping⟩
  rcases hkeep.tidy hasleep.1 with htidy | hcas
  · exact htidy
  · rw [hcas] at hpast
    cases hpast

structure WatchInv (w : Watch) (s : State) (f : Phase) : Prop where
  own : OwnInv s
  sleep : SleepInv s
  released : f ≠ .idle → ∃ z, (s.slot w.p).thread.sleep = some z ∧ z.chan = w.chan ∧
    z.lk = some w.lk ∧ ((s.slot w.p).thread.window = true ∨ z.pc.past = true)
  waking : f = .waking → ∃ g, s.call w.c = some g ∧ g.sweeps true w.chan = true ∧
    Swept w.p (s.slot w.p).thread.pastCas (Awake (s.slot w.p)) (s.slot w.p).state g
  woken : f = .woken → Awake (s.slot w.p)

variable {w : Watch} {g : Phase}

lemma Watch.sleeps_eq_true (h : w.sleeps s = true) :
    ∃ z, (s.slot w.p).thread.sleep = some z ∧ z.chan = w.chan ∧ z.lk = some w.lk := by
  rw [Watch.sleeps] at h
  split at h
  · rename_i z hz
    rw [Bool.and_eq_true, decide_eq_true_eq, decide_eq_true_eq] at h
    exact ⟨z, hz, h.1, h.2⟩
  · cases h

lemma Watch.sleeps_of_next (h : w.next s l s' g ≠ .idle) : w.sleeps s' = true := by
  by_contra hs
  exact h (if_neg hs)

lemma Watch.window_of_releases (h : w.releases s s' = true) : (s'.slot w.p).thread.window = true := by
  rw [Watch.releases] at h
  split at h
  · rename_i hz
    simp only [Bool.and_eq_true, decide_eq_true_eq] at h
    simp [Thread.window, hz, h.1.1, h.2]
  · cases h

lemma WatchInv.released_step (hinv : WatchInv w s g) (h : Rule s d s') (hg : w.next s l s' g ≠ .idle) :
    ∃ z, (s'.slot w.p).thread.sleep = some z ∧ z.chan = w.chan ∧ z.lk = some w.lk ∧
      ((s'.slot w.p).thread.window = true ∨ z.pc.past = true) := by
  have hs' := Watch.sleeps_of_next hg
  obtain ⟨z', hz', hchan', hlk'⟩ := Watch.sleeps_eq_true hs'
  refine ⟨z', hz', hchan', hlk', ?_⟩
  by_cases hidle : g = .idle
  · subst hidle
    rw [Watch.next, if_pos hs'] at hg
    refine .inl (Watch.window_of_releases (w := w) (s := s) ?_)
    by_contra hrel
    exact hg (if_neg hrel)
  · obtain ⟨z, hz, _, _, hwin | hpast⟩ := hinv.released hidle
    · exact (h.sleepKeep hinv.sleep hz hz').window hwin
    · exact .inr ((h.sleepKeep hinv.sleep hz hz').past hpast)

lemma Call.switches_of_sweeps (h : f.sweeps b chan = true) : f.switches = false := by
  cases f <;> first | rfl | cases h

lemma WatchInv.waking_step (hinv : WatchInv w s .waking) (hok : misses s d = false)
    (h : Rule s d s') (hz' : (s'.slot w.p).thread.sleep = some z')
    (hcall : (s'.call w.c).any (Call.sweeps true w.chan) = true) :
    ∃ g, s'.call w.c = some g ∧ g.sweeps true w.chan = true ∧
      Swept w.p (s'.slot w.p).thread.pastCas (Awake (s'.slot w.p)) (s'.slot w.p).state g := by
  obtain ⟨f, hf, hfam, hswept⟩ := hinv.waking rfl
  obtain ⟨z, hz, hchan, hlk, hrel⟩ := hinv.released (by decide)
  have hpast : (s.slot w.p).thread.pastCas → (s'.slot w.p).thread.pastCas := by
    rintro ⟨y, hy, hp⟩
    obtain rfl := some.inj (hz.symm.trans hy)
    exact ⟨z', hz', (h.sleepKeep hinv.sleep hz hz').past hp⟩
  have hawake := h.awake hinv.own hinv.sleep hz'
  cases h.callMove hf (Call.switches_of_sweeps hfam) with
  | same hsame =>
    refine ⟨f, hsame, hfam, hswept.mono hpast hawake fun hp hv => .inl fun hv' => hv ?_⟩
    exact (h.state_of_past hinv.own hp).1 hv'
  | lost hlost =>
    rw [hlost] at hcall
    cases hcall
  | step po f' a i hd hstep hf' hstate =>
    have hnext : SweptNext w.p (s'.slot w.p).thread.pastCas (Awake (s'.slot w.p))
        (s'.slot w.p).state true w.chan f' := by
      refine hswept.step hfam hstep (hstate w.p) hpast hawake ?_ ?_
      · rintro rfl
        -- the process is not in the window, so it is past the `cas`
        have hwin : (s.slot w.p).thread.window = false := by
          simpa [misses, hd, hz, hchan, hlk] using hok
        have hp : z.pc.past = true := by
          refine hrel.resolve_left fun h => ?_
          rw [hwin] at h
          cases h
        refine ⟨⟨z, hz, hp⟩, fun hne => ⟨⟨z, hz, hp⟩, fun hasleep => hne ?_⟩⟩
        rw [Asleep.of_sleep hz] at hasleep
        rw [(hinv.sleep w.p z hz).2 (.inr hasleep.1), hchan]
      · intro hp hneg hsleeping
        refine ⟨hp, fun hasleep => ?_⟩
        rw [Asleep.of_sleep hz'] at hasleep
        exact hasleep.2.elim hneg hsleeping
    cases f' with
    | none =>
      rw [hf'] at hcall
      cases hcall
    | some g => exact ⟨g, hf', hnext.1, hnext.2⟩

lemma WatchInv.step (hinv : WatchInv w s g) (hok : misses s l.cpu = false)
    (h : Rule s l.cpu s') : WatchInv w s' (w.next s l s' g) where
  own := hinv.own.rule h
  sleep := hinv.sleep.rule h
  released := hinv.released_step h
  waking := by
    intro hg
    have hs' : w.sleeps s' = true := Watch.sleeps_of_next (by rw [hg]; decide)
    obtain ⟨z', hz', _, _⟩ := Watch.sleeps_eq_true hs'
    rw [Watch.next.eq_def, if_pos hs'] at hg
    cases g with
    | idle | released =>
      dsimp only at hg
      split_ifs at hg
    | acquired =>
      dsimp only at hg
      split_ifs at hg with hcall
      exact ⟨_, hcall, by simp [Call.sweeps], trivial⟩
    | waking =>
      dsimp only at hg
      split_ifs at hg with hcall
      exact hinv.waking_step hok h hz' hcall
    | woken => cases hg
  woken := by
    intro hg
    have hs' : w.sleeps s' = true := Watch.sleeps_of_next (by rw [hg]; decide)
    obtain ⟨z', hz', _, _⟩ := Watch.sleeps_eq_true hs'
    rw [Watch.next.eq_def, if_pos hs'] at hg
    cases g with
    | idle | released | acquired =>
      dsimp only at hg
      split_ifs at hg
    | waking =>
      dsimp only at hg
      split_ifs at hg with hcall hpop
      obtain ⟨f, hf, _, hswept⟩ := hinv.waking rfl
      obtain rfl := some.inj (hpop.symm.trans hf)
      exact h.awake hinv.own hinv.sleep hz' hswept
    | woken => exact h.awake hinv.own hinv.sleep hz' (hinv.woken rfl)

lemma watchInv_boot : WatchInv w boot .idle where
  own := ownInv_boot
  sleep := sleepInv_boot
  released := fun h => absurd rfl h
  waking := fun h => by cases h
  woken := fun h => by cases h

/-! ### Wakeups that are and are not lost -/

/-- The first process, a channel, a lock, and an interrupt handler on CPU 1. -/
def watchInit : Watch := ⟨initproc, 1, .addr 1, 0⟩

/-- The first process calls `sleep`, up to the `release` in it. -/
def sleepRun : List Label :=
  List.replicate 8 (.run 0) ++ [.op 0 (.acquire 0)] ++ List.replicate 3 (.run 0) ++
    [.op 0 (.sleep (.addr 1) 0)] ++ List.replicate 3 (.run 0)

/-- An interrupt handler on CPU 1 acquires the lock and calls `wakeup`. -/
def wakeupRun : List Label :=
  [.run 1, .interrupt 1, .op 1 (.acquire 0)] ++ List.replicate 3 (.run 1) ++
    [.op 1 (.wakeup (.addr 1))] ++ List.replicate 66 (.run 1)

/-- The whole `wakeup` runs between the `release` and the store of `p->chan`: the process then goes
    to sleep and stays asleep. -/
theorem wakeup_lost : ∃ x : State × Phase,
    Reach (withHistory step watchInit.next) (fun x l => Always x.1 l) (boot, .idle) x ∧
      x.2 = .woken ∧ Asleep (x.1.slot watchInit.p) ∧ (x.1.slot watchInit.p).state = .sleeping := by
  refine Reach.exists_of_exec (sleepRun ++ wakeupRun ++ List.replicate 8 (.run 0)) ?_
  decide +kernel

/-- If no `wakeup1` looks into the window, a process that released `lk` in `sleep(chan, lk)` before
    another CPU acquired `lk` and called `wakeup(chan)` is awake when that call has returned. -/
theorem not_asleep_after_wakeup
    (h : Reach (withHistory step w.next) (fun x l => NoMiss x.1 l) (boot, .idle) (s, .woken)) :
    ¬ Asleep (s.slot w.p) := by
  have hinv : WatchInv w s .woken := by
    refine h.invariant (I := fun x => WatchInv w x.1 x.2) watchInv_boot ?_
    intro x l y hinv hok hstep
    obtain ⟨hrule, hnext⟩ := withHistory_eq_some.mp hstep
    rw [hnext]
    exact hinv.step hok (step_rule hrule)
  exact (hinv.woken rfl).2

/-- The `wakeup` comes when the process is `SLEEPING`. -/
theorem not_asleep_after_late_wakeup : ∃ s,
    Reach (withHistory step watchInit.next) (fun x l => NoMiss x.1 l) (boot, .idle) (s, .woken) ∧
      (s.slot watchInit.p).state = .runnable ∧ ¬ Asleep (s.slot watchInit.p) := by
  have hexec : ∃ x : State × Phase,
      Reach (withHistory step watchInit.next) (fun x l => NoMiss x.1 l) (boot, .idle) x ∧
        (x.1.slot watchInit.p).state = .runnable ∧ x.2 = .woken :=
    Reach.exists_of_exec
      (sleepRun ++ List.replicate 8 (.run 0) ++ wakeupRun ++ List.replicate 2 (.run 1))
      (by decide +kernel)
  obtain ⟨⟨s, _⟩, hrun, hstate, rfl⟩ := hexec
  exact ⟨s, hrun, hstate, not_asleep_after_wakeup hrun⟩

end Xv6.Sched
