import Xv6.Sched.Owners

/-!
# Processes inside `sleep`

What one step, of any CPU, can do to a process that is inside a call of `sleep`: the call goes on in
its order, and past the `cas` to `NEG_SLEEPING` the process never goes back to sleep in this call.
-/

namespace Xv6.Sched

open Machine Option

variable {s s' u : State} {c d : CpuId} {p q r : Slot} {t t' : Thread} {a : Act} {l : Label}
  {m : Main} {k k' : Cpu} {v : PState} {z z' : Sleep} {w : Chan} {po : Option Slot} {f' : Option Call}

/-! ### The thread of a process -/

/-- What a step of CPU `d` does to the thread of `p`. -/
inductive ThreadEdge (s : State) (d : CpuId) (p : Slot) (s' : State) : Prop
  | same (h : (s'.slot p).thread = (s.slot p).thread)
  | new (h : (s'.slot p).thread = .new)
  | step (a : Act) (hcur : (s.cpu d).cur = some p)
      (h : ProcRule s d p (s.slot p).thread (s'.slot p).thread a)
      (hstate : ∀ q, (s'.slot q).state = ((a.apply s).slot q).state)
  | out (b e : Bool) (hcall : (s.slot p).thread.call = some (.schedSwtch b e))
      (h : (s'.slot p).thread = { (s.slot p).thread with call := some (.schedBack b e) })
      (hcur : (s.cpu d).cur = some p)

lemma Rule.thread (h : Rule s d s') (p : Slot) : ThreadEdge s d p s' := by
  cases h with
  | panic => exact .same rfl
  | proc r t a i hcur =>
    by_cases hstack : a = .stack p
    · apply ThreadEdge.new
      rw [hstack, thread_apply_stack]
    · by_cases hp : p = r
      · subst hp
        refine .step a hcur ?_ fun q => ?_
        · rwa [a.thread_apply _ hstack, slot_setThread]
        · exact a.state_congr (by simp)
      · apply ThreadEdge.same
        rw [a.thread_apply _ hstack, slot_setThread_of_ne _ _ hp, slot_setCpu]
  | out r b e hcur hcall =>
    by_cases hp : p = r
    · subst hp
      refine .out b e hcall ?_ hcur
      rw [swtchOut, slot_setThread]
    · apply ThreadEdge.same
      rw [swtchOut, slot_setThread_of_ne _ _ hp, slot_setCpu]
  | sched k a | cpuCall f f' a =>
    by_cases hstack : a = .stack p
    · apply ThreadEdge.new
      rw [hstack, thread_apply_stack]
    · apply ThreadEdge.same
      rw [a.thread_apply _ hstack, slot_setCpu]
  | cpuIrq => exact .same rfl

/-! ### The state of a process -/

/-- The arrows of the state diagram, with the code that takes them where the process itself does. -/
inductive StateEdge (s : State) (d : CpuId) (q : Slot) : PState → PState → Prop
  | alloc : StateEdge s d q .unused .embryo
  | drop : StateEdge s d q .embryo .unused
  | start : StateEdge s d q .embryo .runnable
  | take : StateEdge s d q .runnable .negRunning
  | run (hpc : (s.cpu d).pc = .run q) : StateEdge s d q .negRunning .running
  | yield (hcur : (s.cpu d).cur = some q) : StateEdge s d q .running .negRunnable
  | sleep (z : Sleep) (hcur : (s.cpu d).cur = some q) (hz : (s.slot q).thread.sleep = some z)
      (hpc : z.pc = .cas) : StateEdge s d q .running .negSleeping
  | exit (hcur : (s.cpu d).cur = some q) (hmain : (s.slot q).thread = .at .exitCas) :
      StateEdge s d q .running .negZombie
  | runnable : StateEdge s d q .negRunnable .runnable
  | sleeping : StateEdge s d q .negSleeping .sleeping
  | zombie : StateEdge s d q .negZombie .zombie
  | wake : StateEdge s d q .sleeping .runnable
  | reap : StateEdge s d q .zombie .negUnused
  | free : StateEdge s d q .negUnused .unused

/-- What an act does to the state of each slot. -/
def Act.Diagram (s : State) (d : CpuId) (a : Act) : Prop :=
  ∀ q v, a = .state q v → StateEdge s d q (s.slot q).state v

lemma Act.diagram_quiet (h : ∀ q v, a ≠ .state q v) : a.Diagram s d := by
  intro q v hq
  exact absurd hq (h q v)

lemma Act.diagram_state {old : PState} (hold : (s.slot q).state = old)
    (h : StateEdge s d q old v) : (Act.state q v).Diagram s d := by
  intro r w hr
  cases hr
  rwa [hold]

lemma cas_diagram {old new : PState} (h : StateEdge s d q old new) : (cas s q old new).Diagram s d := by
  intro r w hr
  obtain ⟨rfl, rfl, hold⟩ := cas_eq_state hr
  rwa [hold]

lemma Act.Diagram.edge (ha : a.Diagram s d) (q : Slot)
    (hstate : (s'.slot q).state = ((a.apply s).slot q).state) :
    (s'.slot q).state = (s.slot q).state ∨ StateEdge s d q (s.slot q).state (s'.slot q).state := by
  rw [hstate]
  by_cases hq : ∃ v, a = .state q v
  · obtain ⟨v, rfl⟩ := hq
    rw [state_apply_state]
    exact .inr (ha q v rfl)
  · rw [a.state_apply s fun v hv => hq ⟨v, hv⟩]
    exact .inl rfl

lemma CallEdge.diagram {f : Call} (hpo : ∀ p, po = some p → (s.cpu d).cur = some p)
    (h : CallEdge s po f f' a) : a.Diagram s d := by
  cases h with
  | quiet f' a ha =>
    apply Act.diagram_quiet
    rintro q v rfl
    cases ha
  | wake f' q hold => exact Act.diagram_state hold .wake
  | yield p hp => exact cas_diagram (.yield (hpo p hp))

lemma MainEdge.diagram (hown : OwnInv s) (hcur : (s.cpu d).cur = some p)
    (ht : (s.slot p).thread = .at m) (h : MainEdge s p m t a) : a.Diagram s d := by
  cases h with
  | plain _ m' a _ _ _ _ ha =>
    apply Act.diagram_quiet
    rintro q v rfl
    rcases ha q rfl with ⟨_, _, hne, _⟩ | ⟨_, heq⟩
    · exact hne v rfl
    · cases heq
  | take _ m' q v _ _ _ _ hold =>
    rcases hold with ⟨hold, rfl⟩ | ⟨hold, rfl⟩
    · exact Act.diagram_state hold .alloc
    · exact Act.diagram_state hold .reap
  | give _ m' q u v howns _ _ _ _ hv =>
    have hold : (s.slot q).state = u := by
      apply hown.state p q u
      rw [ht]
      exact howns
    rcases hv with ⟨rfl, rfl | rfl⟩ | ⟨rfl, rfl⟩
    · exact Act.diagram_state hold .drop
    · exact Act.diagram_state hold .start
    · exact Act.diagram_state hold .free
  | killCas hold => exact Act.diagram_state hold .wake
  | exitCas => exact cas_diagram (.exit hcur ht)
  | exitLoop _ m' w f a _ _ _ _ ha =>
    apply Act.diagram_quiet
    rintro q v rfl
    rcases ha with ha | ⟨_, ha⟩ <;> cases ha
  | _ => exact Act.diagram_quiet fun q v h => by cases h

lemma ProcRule.diagram (hown : OwnInv s) (hcur : (s.cpu d).cur = some p)
    (h : ProcRule s d p (s.slot p).thread t a) : a.Diagram s d := by
  cases h with
  | call f f' a i hcall h =>
    refine (callStep_edge h).diagram fun q hq => ?_
    cases hq
    exact hcur
  | sleep z z' f a _ _ hz h =>
    cases h with
    | cas hpc => exact cas_diagram (.sleep z hcur hz hpc)
    | _ => exact Act.diagram_quiet fun q v h => by cases h
  | main t a ht h => exact h.diagram hown hcur ht
  | _ => exact Act.diagram_quiet fun q v h => by cases h

lemma SchedEdge.diagram (h : SchedEdge s (s.cpu d) k' a) : a.Diagram s d := by
  cases h with
  | take p _ hold => exact Act.diagram_state hold .take
  | run p hpc hold => exact Act.diagram_state hold (.run hpc)
  | pub1 => exact cas_diagram .runnable
  | pub2 => exact cas_diagram .sleeping
  | pub3 => exact cas_diagram .zombie
  | _ => exact Act.diagram_quiet fun q v h => by cases h

/-- Every step follows the state diagram. -/
lemma Rule.state (hown : OwnInv s) (h : Rule s d s') (q : Slot) :
    (s'.slot q).state = (s.slot q).state ∨ StateEdge s d q (s.slot q).state (s'.slot q).state := by
  cases h with
  | panic => exact .inl rfl
  | proc p t a i hcur h => exact (h.diagram hown hcur).edge q (a.state_congr (by simp))
  | out => exact .inl (by rw [swtchOut, state_setThread, slot_setCpu])
  | sched k a hcur hcall h => exact h.diagram.edge q (a.state_congr rfl)
  | cpuCall f f' a i hcur hcall h =>
    have hdiagram : a.Diagram s d := by
      refine (callStep_edge h).diagram fun p hp => ?_
      cases hp
    exact hdiagram.edge q (a.state_congr rfl)
  | cpuIrq => exact .inl rfl

/-! ### Calls of `sleep` -/

/-- Past the `cas` of `sleep`. -/
def SleepPc.past : SleepPc → Bool
  | .tidy | .pop | .ret => true
  | _ => false

/-- Between `release(lk)` and the `cas` of `sleep`. -/
def Thread.window (t : Thread) : Bool :=
  match t.sleep with
  | some z => z.pc = .cas || z.pc = .chan && (t.call = none || t.call = some .releasePop)
  | none => false

/-- What a step does to a process that is and stays inside `sleep`. -/
structure SleepKeep (s s' : State) (p : Slot) (z z' : Sleep) : Prop where
  main : (s'.slot p).thread.main = (s.slot p).thread.main
  chan : z'.chan = z.chan
  lk : z'.lk = z.lk
  window : (s.slot p).thread.window = true → (s'.slot p).thread.window = true ∨ z'.pc.past = true
  past : z.pc.past = true → z'.pc.past = true
  tidy : z'.pc = .tidy → z.pc = .tidy ∨ z.pc = .cas

/-- An interrupt handler does not sleep. While `sleep` has not tidied up, `p->chan` is its channel. -/
def SleepOk (t : Thread) (w : Chan) : Prop :=
  ∀ z, t.sleep = some z → t.irq = none ∧ (z.pc = .cas ∨ z.pc = .tidy → w = z.chan)

def SleepInv (s : State) : Prop := ∀ p, SleepOk (s.slot p).thread (s.slot p).chan

lemma SleepKeep.refl (hmain : (s'.slot p).thread.main = (s.slot p).thread.main)
    (ht : (s'.slot p).thread.window = (s.slot p).thread.window) (hz : z' = z) : SleepKeep s s' p z z' := by
  subst hz
  exact ⟨hmain, rfl, rfl, fun h => .inl (ht.trans h), id, .inl⟩

lemma SleepEdge.keep {f : Option Call} (hmain : (s'.slot p).thread.main = (s.slot p).thread.main)
    (hz : (s.slot p).thread.sleep = some z) (hz' : (s'.slot p).thread.sleep = some z')
    (h : SleepEdge s p z (some z') f a) : SleepKeep s s' p z z' := by
  cases h with
  | start f hpc =>
    refine ⟨hmain, rfl, rfl, fun hwin => ?_, fun hpast => ?_, fun htidy => ?_⟩
    · simp [Thread.window, hz, hpc] at hwin
    · rw [hpc] at hpast
      cases hpast
    · cases htidy
  | chan hpc =>
    refine ⟨hmain, rfl, rfl, fun hwin => .inl ?_, fun hpast => ?_, fun htidy => ?_⟩
    · simp [Thread.window, hz']
    · rw [hpc] at hpast
      cases hpast
    · cases htidy
  | cas hpc => exact ⟨hmain, rfl, rfl, fun _ => .inr rfl, fun _ => rfl, fun _ => .inr hpc⟩
  | tidy | pop => exact ⟨hmain, rfl, rfl, fun _ => .inr rfl, fun _ => rfl, fun htidy => by cases htidy⟩

/-- A step keeps a call of `sleep`, or carries it on. -/
lemma Rule.sleepKeep (hinv : SleepInv s) (h : Rule s d s') (hz : (s.slot p).thread.sleep = some z)
    (hz' : (s'.slot p).thread.sleep = some z') : SleepKeep s s' p z z' := by
  obtain ⟨hirq, _⟩ := hinv p z hz
  cases h.thread p with
  | same h =>
    rw [h, hz] at hz'
    exact .refl (by rw [h]) (by rw [h]) (some.inj hz').symm
  | new h =>
    rw [h] at hz'
    cases hz'
  | out b e hcall h =>
    rw [h, hz] at hz'
    refine .refl (by rw [h]) ?_ (some.inj hz').symm
    rw [h]
    simp [Thread.window, hz, hcall]
  | step a hcur h =>
    generalize ht' : (s'.slot p).thread = t' at h hz'
    cases h with
    | call f f' a i hcall h =>
      have heq : z = z' := some.inj (hz.symm.trans hz')
      subst heq
      refine ⟨by rw [ht'], rfl, rfl, fun hwin => .inl ?_, id, .inl⟩
      -- in the window the only call is the end of `release`
      rw [ht']
      simp only [Thread.window, hz, hcall] at hwin ⊢
      by_cases hpc : z.pc = .cas
      · simp [hpc]
      · simp only [hpc, decide_false, Bool.false_or, Bool.and_eq_true, decide_eq_true_eq,
          reduceCtorEq, some.injEq] at hwin
        obtain ⟨hchan, rfl⟩ := hwin
        obtain ⟨-, rfl, -⟩ := pop_eq_go (some.inj h)
        simp [hchan]
    | sleep y y' f a _ _ hy h =>
      obtain rfl := some.inj (hz.symm.trans hy)
      have hz'' : y' = some z' := hz'
      subst hz''
      exact h.keep (by rw [ht']) hz (by rw [ht'])
    | main t a ht | interrupt ht =>
      rw [ht] at hz
      cases hz
    | handler f _ hirq' | trapEnd f _ hirq' | leave _ hirq' => cases hirq.symm.trans hirq'

lemma MainEdge.sleep_start (h : MainEdge s p m t a) (hz : t.sleep = some z) : z.pc = .start := by
  cases h with
  | waitSleep | sleep =>
    cases hz
    rfl
  | _ => cases hz

/-- A call of `sleep` begins at its start. -/
lemma Rule.sleep_of_sleep (h : Rule s d s') (hz' : (s'.slot p).thread.sleep = some z')
    (hpc : z'.pc ≠ .start) : ∃ z, (s.slot p).thread.sleep = some z := by
  cases h.thread p with
  | same h | out b e hcall h =>
    rw [h] at hz'
    exact ⟨z', hz'⟩
  | new h =>
    rw [h] at hz'
    cases hz'
  | step a hcur h =>
    generalize (s'.slot p).thread = t' at h hz'
    cases h with
    | call => exact ⟨z', hz'⟩
    | sleep y y' f a _ _ hy => exact ⟨y, hy⟩
    | main t a ht h => exact absurd (h.sleep_start hz') hpc
    | interrupt => cases hz'
    | handler => exact ⟨z', hz'⟩
    | trapEnd => exact ⟨z', hz'⟩
    | leave => exact ⟨z', hz'⟩

/-! ### The channel of a sleeping process -/

lemma sleepOk_none (h : t.sleep = none) : SleepOk t w := by
  intro z hz
  cases h.symm.trans hz

lemma sleepOk_start (hz : t.sleep = some z) (hirq : t.irq = none) (hcas : z.pc ≠ .cas)
    (htidy : z.pc ≠ .tidy) : SleepOk t w := by
  intro y hy
  obtain rfl := some.inj (hz.symm.trans hy)
  exact ⟨hirq, fun h => absurd h (not_or.mpr ⟨hcas, htidy⟩)⟩

lemma CallEdge.chan_ne {f : Call} (h : CallEdge s po f f' a) (q : Slot) (w : Chan) : a ≠ .chan q w := by
  cases h with
  | quiet f' a ha =>
    rintro rfl
    cases ha
  | wake =>
    intro h
    cases h
  | yield => exact cas_ne_chan w

lemma MainEdge.chan_ne (h : MainEdge s p m t a) (q : Slot) (w : Chan) : a ≠ .chan q w := by
  cases h with
  | plain _ m' a _ _ _ _ ha =>
    rintro rfl
    rcases ha q rfl with ⟨_, _, _, hne⟩ | ⟨_, heq⟩
    · exact hne w rfl
    · cases heq
  | exitCas => exact cas_ne_chan w
  | exitLoop _ m' v f a _ _ _ _ ha =>
    rintro rfl
    rcases ha with ha | ⟨_, ha⟩ <;> cases ha
  | _ =>
    intro h
    cases h

/-- A system call does not call `sleep` in the middle. -/
lemma MainEdge.sleepOk (h : MainEdge s p m t a) : SleepOk t w := by
  cases h with
  | waitSleep | sleep => exact sleepOk_start rfl rfl (by intro h; cases h) (by intro h; cases h)
  | _ => exact sleepOk_none rfl

/-- `p->chan` is written by the process itself only, in `sleep`. -/
lemma ProcRule.chan_ne (h : ProcRule s d p t t' a) (hq : q ≠ p) (w : Chan) : a ≠ .chan q w := by
  cases h with
  | call f f' a i _ h => exact (callStep_edge h).chan_ne q w
  | sleep z z' f a _ _ _ h =>
    cases h with
    | cas => exact cas_ne_chan w
    | chan | tidy =>
      intro h
      cases h
      exact hq rfl
    | start | pop | ret =>
      intro h
      cases h
  | main t a _ h => exact h.chan_ne q w
  | _ =>
    intro h
    cases h

lemma ProcRule.sleepOk (hok : SleepOk (s.slot p).thread (s.slot p).chan)
    (h : ProcRule s d p (s.slot p).thread t a) : SleepOk t ((a.apply s).slot p).chan := by
  cases h with
  | call f f' a i _ h =>
    rw [a.chan_apply s ((callStep_edge h).chan_ne p)]
    exact hok
  | sleep z z' f a _ hirq hz h =>
    cases h with
    | start | tidy | pop => exact sleepOk_start rfl rfl (by intro h; cases h) (by intro h; cases h)
    | chan =>
      rw [chan_apply_chan]
      intro y hy
      cases hy
      exact ⟨rfl, fun _ => rfl⟩
    | cas hpc =>
      rw [Act.chan_apply _ s cas_ne_chan]
      intro y hy
      cases hy
      exact ⟨rfl, fun _ => (hok z hz).2 (.inl hpc)⟩
    | ret => exact sleepOk_none rfl
  | main t a _ h => exact h.sleepOk
  | interrupt => exact sleepOk_none rfl
  | handler f _ hirq | trapEnd f _ hirq | leave _ hirq =>
    intro z hz
    cases hirq.symm.trans (hok z hz).1

lemma SchedEdge.chan_ne (h : SchedEdge s k k' a) (q : Slot) (w : Chan) : a ≠ .chan q w := by
  cases h with
  | pub1 | pub2 | pub3 => exact cas_ne_chan w
  | _ =>
    intro h
    cases h

lemma sleepOk_apply (hok : SleepOk (s.slot q).thread (s.slot q).chan)
    (ha : ∀ w, a ≠ .chan q w) : SleepOk ((a.apply s).slot q).thread ((a.apply s).slot q).chan := by
  by_cases hstack : a = .stack q
  · apply sleepOk_none
    rw [hstack, thread_apply_stack]
    rfl
  · rw [a.thread_apply s hstack, a.chan_apply s ha]
    exact hok

lemma SleepInv.rule (hinv : SleepInv s) (h : Rule s d s') : SleepInv s' := by
  intro q
  cases h with
  | panic => exact hinv q
  | proc p t a i hcur h =>
    by_cases hq : q = p
    · subst hq
      by_cases hstack : a = .stack q
      · apply sleepOk_none
        rw [hstack, thread_apply_stack]
        rfl
      · rw [a.thread_apply _ hstack, thread_setThread, a.chan_congr (s := s) (by simp)]
        exact h.sleepOk (hinv q)
    · apply sleepOk_apply _ (h.chan_ne hq)
      rw [slot_setThread_of_ne _ _ hq, slot_setCpu]
      exact hinv q
  | out p =>
    rw [swtchOut, chan_setThread]
    by_cases hq : q = p
    · subst hq
      rw [slot_setThread]
      exact hinv q
    · rw [slot_setThread_of_ne _ _ hq, slot_setCpu]
      exact hinv q
  | sched k a hcur hcall h => exact sleepOk_apply (hinv q) (h.chan_ne q)
  | cpuCall f f' a i hcur hcall h => exact sleepOk_apply (hinv q) ((callStep_edge h).chan_ne q)
  | cpuIrq => exact hinv q

lemma sleepInv_boot : SleepInv boot := by
  intro p
  rcases thread_boot p with h | h <;> exact sleepOk_none (by rw [h]; rfl)

end Xv6.Sched
