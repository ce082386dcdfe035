import Xv6.Sched.Stacks
import Xv6.Sched.Wakeup

/-!
# Waiting for a child

`wait` looks at the children one after the other and then calls `sleep` without a lock. A child that
calls `exit` after `wait` has passed it, and whose `wakeup1` looks at the parent before the parent is
`NEG_SLEEPING`, is never waited for. Otherwise `wait` sees it: the scan does not pass a child that is
`NEG_ZOMBIE` or `ZOMBIE`.
-/

namespace Xv6.Sched

open Machine

variable {s s' : State} {c d : CpuId} {p q r k : Slot} {t t' : Thread} {a : Act} {l : Label}
  {m : Main} {v v' : PState} {z z' : Sleep} {f : Call} {f' : Option Call} {i : Intr}

/-! ### The scan of `wait` -/

/-- `NEG_ZOMBIE` or `ZOMBIE`. -/
def PState.dying : PState → Bool
  | .negZombie | .zombie => true
  | _ => false

/-- The scan has passed slot `k`, whose state is `v`: the tests that are left do not see it. -/
def Main.passed (k : Slot) (v : PState) : Main → Bool
  | .waitTest j _ | .waitNeg j | .waitReap j => k < j
  | .waitZombie j => k < j || j = k && v ≠ .zombie
  | .waitKids _ => true
  | _ => false

/-- In `wait`, past slot `k` and not past the `cas` of `sleep`. -/
def Thread.passed (k : Slot) (v : PState) (t : Thread) : Bool :=
  match t.sleep with
  | none => t.main.passed k v
  | some z => t.main = .waitScan && !z.pc.past

def passed (s : State) (q k : Slot) : Bool := (s.slot q).thread.passed k (s.slot k).state

/-- `NEG_SLEEPING` or `SLEEPING` inside `wait`. -/
def AsleepInWait (x : Proc) : Prop := x.thread.main = .waitScan ∧ Asleep x

/-- In `wait`, if at all, `q` is going to look at `k`. -/
def Attentive (s : State) (q k : Slot) : Prop :=
  passed s q k = false ∧ ¬ AsleepInWait (s.slot q)

lemma Main.passed_of_not_scanning (h : m.scanning = false) : m.passed k v = false := by
  cases m <;> first | rfl | cases h

lemma Main.not_scanning_of_woke {w : Option Slot} (h : m.woke = some w) : m.scanning = false := by
  cases m <;> first | rfl | cases h

lemma PState.zombie_of_dying (h : v.dying = true) (hne : v ≠ .negZombie) : v = .zombie := by
  cases v <;> first | rfl | contradiction

lemma Main.not_scanning_of_owns (h : m.owns = some (q, v)) : m.scanning = false := by
  cases m <;> first | rfl | cases h

/-- A child that dies further is not easier to pass. -/
lemma Main.passed_mono (h : m.passed k v = false) (hv : v' = v ∨ v' = .zombie) : m.passed k v' = false := by
  rcases hv with rfl | rfl
  · exact h
  · cases m with
    | waitZombie =>
      simp only [Main.passed, Bool.or_eq_false_iff] at h ⊢
      exact ⟨h.1, by simp⟩
    | _ => exact h

lemma passed_waitNext (hjk : q < k) (b : Bool) : (waitNext q b).passed k v = false := by
  have hnext : q.val + 1 < NPROC := Nat.lt_of_le_of_lt hjk k.isLt
  rw [waitNext, nextSlot, dif_pos hnext]
  exact decide_eq_false (Nat.not_lt.mpr hjk)

lemma lt_of_not_passed {j : Slot} (h : ¬ k < j) (hne : j ≠ k) : j < k :=
  (Fin.lt_or_eq_of_le (Fin.not_lt.mp h)).resolve_right hne

lemma Thread.passed_at (m : Main) : (Thread.at m).passed k v = m.passed k v := rfl

/-- The scan does not pass a child that is `NEG_ZOMBIE` or `ZOMBIE`. -/
lemma mainEdge_passed (h : MainEdge s q m t a) (hparent : (s.slot k).parent = some q)
    (hk : (s.slot k).state.dying = true) (hm : m.passed k (s.slot k).state = false) :
    t.passed k (s.slot k).state = false := by
  cases h with
  | plain _ _ _ _ _ _ hscan | give _ _ _ _ _ _ _ _ _ hscan | drop _ _ _ _ _ hscan
  | call _ _ _ hscan => exact Main.passed_of_not_scanning hscan
  | take _ _ _ _ _ howns =>
    exact Main.passed_of_not_scanning (Main.not_scanning_of_owns howns)
  | exitLoop _ m' w f a _ hm' =>
    exact Main.passed_of_not_scanning (Main.not_scanning_of_woke hm')
  | waitScan => exact decide_eq_false (Nat.not_lt_zero k.val)
  | waitTest j havekids =>
    have hjk : ¬ k < j := of_decide_eq_false hm
    rw [Thread.passed_at]
    split_ifs with hj
    · exact hm
    · have hne : j ≠ k := by
        rintro rfl
        exact hj hparent
      exact passed_waitNext (lt_of_not_passed hjk hne) havekids
  | waitNeg j =>
    rw [Thread.passed_at]
    split_ifs with hj
    · exact hm
    · rw [Main.passed, Bool.or_eq_false_iff]
      refine ⟨hm, ?_⟩
      -- at `k` itself the state is `ZOMBIE`
      by_cases hjk : j = k
      · subst hjk
        rw [PState.zombie_of_dying hk hj]
        simp
      · simp [hjk]
  | waitZombie j =>
    rw [Main.passed, Bool.or_eq_false_iff] at hm
    obtain ⟨hjk, hzombie⟩ := hm
    rw [Thread.passed_at]
    split_ifs with hj
    · exact hjk
    · have hne : j ≠ k := by
        rintro rfl
        simp [hj] at hzombie
      exact passed_waitNext (lt_of_not_passed (of_decide_eq_false hjk) hne) true
  | waitAgain => exact hm
  | waitSleep => cases hm
  | sleep m chan lk _ hscan =>
    have hne : m ≠ .waitScan := by
      rintro rfl
      cases hscan
    exact Bool.and_eq_false_iff.mpr (.inl (decide_eq_false hne))
  | _ => rfl

lemma Thread.passed_mono (h : t.passed k v = false) (hv : v' = v ∨ v' = .zombie) :
    t.passed k v' = false := by
  rw [Thread.passed] at h ⊢
  split at h
  · exact Main.passed_mono h hv
  · exact h

lemma sleepEdge_passed {y : Option Sleep} {g : Option Call} (h : SleepEdge s p z y g a)
    (hz : t.sleep = some z) (hmain : t.main.passed k v = false) (ht : t.passed k v = false) :
    (Thread.mk t.main y none g).passed k v = false := by
  rw [Thread.passed, hz, Bool.and_eq_false_iff] at ht
  rw [Thread.passed]
  cases h with
  | start g hpc | chan hpc =>
    rw [hpc] at ht
    exact Bool.and_eq_false_iff.mpr (ht.imp id fun h => by cases h)
  | cas | tidy | pop => exact Bool.and_eq_false_iff.mpr (.inr rfl)
  | ret => exact hmain

/-- `sleep` is called by `wait` on its own channel, or outside the scan. -/
def WaitSleep (p : Slot) (t : Thread) : Prop :=
  ∀ z, t.sleep = some z → t.main = .waitScan ∧ z.chan = .proc p ∨ t.main.scanning = false

lemma WaitSleep.passed (h : WaitSleep p t) (hz : t.sleep = some z) : t.main.passed k v = false := by
  rcases h z hz with ⟨hmain, _⟩ | hscan
  · rw [hmain]
    rfl
  · exact Main.passed_of_not_scanning hscan

/-- While the child is dying, no step makes the parent pass it. -/
lemma ProcRule.passed (h : ProcRule s d q t t' a) (hw : WaitSleep q t)
    (hparent : (s.slot k).parent = some q) (hk : (s.slot k).state.dying = true)
    (ht : t.passed k (s.slot k).state = false) : t'.passed k (s.slot k).state = false := by
  cases h with
  | call => exact ht
  | sleep z y g a _ _ hz h => exact sleepEdge_passed h hz (hw.passed hz) ht
  | main t' a hat h =>
    rw [hat] at ht
    exact mainEdge_passed h hparent hk ht
  | interrupt hat =>
    rw [hat] at ht
    exact ht
  | handler | trapEnd | leave => exact ht

lemma Rule.passed (h : Rule s d s') (hw : WaitSleep q (s.slot q).thread)
    (hparent : (s.slot k).parent = some q) (hk : (s.slot k).state.dying = true)
    (hk' : (s'.slot k).state = (s.slot k).state ∨ (s'.slot k).state = .zombie)
    (ht : Sched.passed s q k = false) : Sched.passed s' q k = false := by
  refine Thread.passed_mono ?_ hk'
  cases h.thread q with
  | same h | out b e hcall h =>
    rw [h]
    exact ht
  | new h =>
    rw [h]
    rfl
  | step a hcur h => exact h.passed hw hparent hk ht

/-! ### Sleeping in `wait` -/

lemma ProcRule.waitSleep (h : ProcRule s d p t t' a) (hw : WaitSleep p t) : WaitSleep p t' := by
  cases h with
  | call => exact hw
  | sleep z y g a _ _ hz h =>
    intro z' hz'
    cases h with
    | ret => cases hz'
    | _ =>
      cases hz'
      exact hw z hz
  | main t' a hat h =>
    intro z hz
    generalize t.main = m at h
    cases h with
    | waitSleep =>
      cases hz
      exact .inl ⟨rfl, rfl⟩
    | sleep _ _ _ _ hscan => exact .inr hscan
    | _ => cases hz
  | interrupt =>
    intro z hz
    cases hz
  | handler | trapEnd | leave => exact hw

lemma Rule.waitSleep (h : Rule s d s') (hw : ∀ p, WaitSleep p (s.slot p).thread) (p : Slot) :
    WaitSleep p (s'.slot p).thread := by
  cases h.thread p with
  | same h | out b e hcall h =>
    rw [h]
    exact hw p
  | new h =>
    rw [h]
    intro z hz
    cases hz
  | step a hcur h => exact h.waitSleep (hw p)

lemma Rule.nested (h : Rule s d s') (hn : ∀ p, (s.slot p).thread.Nested) (p : Slot) :
    (s'.slot p).thread.Nested := by
  cases h.thread p with
  | same h =>
    rw [h]
    exact hn p
  | new h =>
    rw [h]
    exact Thread.nested_of_not_exiting rfl
  | out b e hcall h =>
    rw [h]
    exact Thread.nested_of_not_exiting ((hn p).of_switches hcall rfl)
  | step a hcur h => exact h.nested (hn p)

/-- A parent that is going to look at a dying child does not fall asleep in `wait` before. -/
lemma Rule.attentive (hown : OwnInv s) (hsleep : SleepInv s)
    (hw : WaitSleep q (s.slot q).thread) (h : Rule s d s')
    (hparent : (s.slot k).parent = some q) (hk : (s.slot k).state.dying = true)
    (hk' : (s'.slot k).state = (s.slot k).state ∨ (s'.slot k).state = .zombie)
    (ha : Attentive s q k) : Attentive s' q k := by
  refine ⟨h.passed hw hparent hk hk' ha.1, ?_⟩
  rintro ⟨hmain', hasleep⟩
  apply ha.2
  rw [Asleep] at hasleep
  split at hasleep
  · rename_i hz'
    obtain ⟨htidy, hstate⟩ := hasleep
    obtain ⟨z, hz⟩ := h.sleep_of_sleep hz' (by rw [htidy]; decide)
    have hkeep := h.sleepKeep hsleep hz hz'
    have hmain : (s.slot q).thread.main = .waitScan := hkeep.main.symm.trans hmain'
    rcases hkeep.tidy htidy with hpc | hpc
    · obtain ⟨hneg, hsleeping⟩ := h.state_of_past hown ⟨z, hz, by rw [hpc]; rfl⟩
      refine ⟨hmain, (Asleep.of_sleep hz).mpr ⟨hpc, ?_⟩⟩
      exact hstate.elim (fun h => .inl (hneg h)) hsleeping
    · -- at the `cas` of `sleep` the parent would have passed the child
      have hpassed := ha.1
      simp [Sched.passed, Thread.passed, hz, hmain, hpc, SleepPc.past] at hpassed
  · exact hasleep.elim

/-! ### Parents -/

/-- A parent is changed to `initproc`, or by the process that sets up or frees the slot. -/
def Act.Reparents (s : State) (a : Act) : Prop :=
  ∀ q w, a = .parent q w → w = some initproc ∨ ¬ (s.slot q).state.Settled

lemma Act.reparents_of_ne (h : ∀ q w, a ≠ .parent q w) : a.Reparents s := by
  intro q w hq
  exact absurd hq (h q w)

lemma CallEdge.reparents {po : Option Slot} (h : CallEdge s po f f' a) : a.Reparents s := by
  apply Act.reparents_of_ne
  intro q w
  cases h with
  | quiet f' a ha =>
    rintro rfl
    cases ha
  | wake =>
    intro h
    cases h
  | yield => exact cas_ne_parent w

lemma ProcRule.reparents (hown : OwnInv s) (h : ProcRule s d p (s.slot p).thread t a) : a.Reparents s := by
  cases h with
  | call g g' a i hcall h => exact (callStep_edge h).reparents
  | sleep z y g a _ _ hz h =>
    apply Act.reparents_of_ne
    intro q w
    cases h with
    | cas => exact cas_ne_parent w
    | _ =>
      intro h
      cases h
  | main t a ht h =>
    generalize hm : (s.slot p).thread.main = m at h
    cases h with
    | plain _ m' a _ _ _ _ ha =>
      rintro q w rfl
      rcases ha q rfl with ⟨v, howns, _⟩ | ⟨_, heq⟩
      · rw [← hm] at howns
        exact .inr (hown.not_settled howns)
      · cases heq
    | exitLoop _ m' w f a _ _ _ _ ha =>
      rintro q w rfl
      rcases ha with ha | ⟨r, ha⟩
      · cases ha
      · cases ha
        exact .inl rfl
    | exitCas => exact Act.reparents_of_ne fun q w => cas_ne_parent w
    | _ =>
      apply Act.reparents_of_ne
      intro q w h
      cases h
  | _ =>
    apply Act.reparents_of_ne
    intro q w h
    cases h

lemma SchedEdge.parent_ne {k k' : Cpu} (h : SchedEdge s k k' a) (q : Slot) (w : Option Slot) :
    a ≠ .parent q w := by
  cases h with
  | pub1 | pub2 | pub3 => exact cas_ne_parent w
  | _ =>
    intro h
    cases h

lemma Act.Reparents.parent (ha : a.Reparents s) (q : Slot)
    (hparent : (s'.slot q).parent = ((a.apply s).slot q).parent) :
    (s'.slot q).parent = (s.slot q).parent ∨ (s'.slot q).parent = some initproc ∨
      ¬ (s.slot q).state.Settled := by
  rw [hparent]
  by_cases hq : ∃ w, a = .parent q w
  · obtain ⟨w, rfl⟩ := hq
    rw [parent_apply_parent]
    exact .inr (ha q w rfl)
  · rw [a.parent_apply s fun w hw => hq ⟨w, hw⟩]
    exact .inl rfl

lemma Rule.parent (hown : OwnInv s) (h : Rule s d s') (q : Slot) :
    (s'.slot q).parent = (s.slot q).parent ∨ (s'.slot q).parent = some initproc ∨
      ¬ (s.slot q).state.Settled := by
  cases h with
  | panic => exact .inl rfl
  | proc p t a i hcur h => exact (h.reparents hown).parent q (a.parent_congr (by simp))
  | out => exact .inl (by rw [swtchOut, parent_setThread, slot_setCpu])
  | sched k a hcur hcall h =>
    exact (Act.reparents_of_ne h.parent_ne).parent q (a.parent_congr rfl)
  | cpuCall g g' a i hcur hcall h => exact (callStep_edge h).reparents.parent q (a.parent_congr rfl)
  | cpuIrq => exact .inl rfl

/-! ### The child's call of `wakeup1` -/

/-- The parent that `exit` has called `wakeup1` on. -/
def Main.told : Main → Option Slot
  | .zombieExit w => w
  | m => m.woke.join

lemma Main.told_of_not_inExit (h : m.inExit = false) : m.told = none := by
  cases m <;> first | rfl | cases h

lemma Main.told_of_woke {w : Option Slot} (h : m.woke = some w) : m.told = w := by
  cases m <;> first | cases h; rfl | cases h

lemma Main.not_telling (hexit : m.exiting = false) : m.telling = false := by
  cases m <;> first | rfl | cases hexit

lemma Main.told_of_interruptible (h : m.interruptible = true) : m.told = none := by
  cases m <;> first | rfl | cases h

lemma Main.told_waitNext (b : Bool) : (waitNext q b).told = none := by
  rw [waitNext]
  split <;> rfl

/-- What a step does to a process in `exit` that has called `wakeup1` on its parent `q`, or calls it
    in this step. -/
inductive ToldEdge (s : State) (d : CpuId) (k q : Slot) (s' : State) : Prop
  | start (hmain : (s.slot k).thread.main = .exitParent) (hparent : (s.slot k).parent = some q)
      (hmain' : (s'.slot k).thread.main.telling = true)
      (hcall' : (s'.slot k).thread.call = some (.wakeup1 false (.proc q) slot0))
  | same (htold : (s.slot k).thread.main.told = some q)
      (hmain : (s'.slot k).thread.main = (s.slot k).thread.main)
      (hcall : (s'.slot k).thread.call = (s.slot k).thread.call)
  | call (f : Call) (f' : Option Call) (a : Act) (i : Intr)
      (htold : (s.slot k).thread.main.told = some q)
      (hmain : (s'.slot k).thread.main = (s.slot k).thread.main)
      (hcur : (s.cpu d).cur = some k) (hcall : (s.slot k).thread.call = some f)
      (h : callStep s d (some k) f = some (.go f' a i)) (hcall' : (s'.slot k).thread.call = f')
      (hstate : ∀ r, (s'.slot r).state = ((a.apply s).slot r).state)
  | move (htold : (s.slot k).thread.main.told = some q)
      (htelling : (s'.slot k).thread.main.telling = false)
      (hcall : (s.slot k).thread.main.telling = true → (s.slot k).thread.call = none)

/-- The steps of the outermost function that go on in `exit` after `wakeup1`. -/
lemma MainEdge.told (h : MainEdge s k m t a) (hq : t.main.told = some q) :
    m = .exitParent ∧ (s.slot k).parent = some q ∧ t.main.telling = true ∧
        t.call = some (.wakeup1 false (.proc q) slot0) ∨
      m.told = some q ∧ t.main.telling = false := by
  cases h with
  | plain _ m' _ _ _ hexit | take _ m' _ _ _ _ _ hexit | give _ m' _ _ _ _ _ _ hexit
  | drop _ m' _ _ hexit =>
    rw [Thread.at, Main.told_of_not_inExit hexit] at hq
    cases hq
  | exitParent =>
    have hparent : (s.slot k).parent = some q := hq
    refine .inl ⟨rfl, hparent, rfl, ?_⟩
    rw [hparent]
    rfl
  | exitLoop _ m' w f a hm hm' hwoke =>
    refine .inr ⟨?_, hwoke⟩
    rw [Main.told_of_woke hm, ← hq, Main.told_of_woke hm']
  | exitSched => exact .inr ⟨hq, rfl⟩
  | waitTest | waitZombie =>
    rw [Thread.at] at hq
    split_ifs at hq
    · cases hq
    · rw [Main.told_waitNext] at hq
      cases hq
  | waitNeg =>
    rw [Thread.at] at hq
    split_ifs at hq <;> cases hq
  | call _ _ hexit | sleep _ _ _ hexit =>
    rw [Main.told_of_not_inExit hexit] at hq
    cases hq
  | _ => cases hq

lemma ToldEdge.of_main (hn : (s.slot k).thread.main.exiting = false)
    (htold : (s.slot k).thread.main.told = some q)
    (hmain : (s'.slot k).thread.main = (s.slot k).thread.main) : ToldEdge s d k q s' := by
  have htelling := Main.not_telling hn
  refine .move htold (by rw [hmain, htelling]) fun h => ?_
  rw [htelling] at h
  cases h

lemma Rule.told (h : Rule s d s') (hn : (s.slot k).thread.Nested)
    (hq : (s'.slot k).thread.main.told = some q) : ToldEdge s d k q s' := by
  cases h.thread k with
  | same h =>
    rw [h] at hq
    exact .same hq (by rw [h]) (by rw [h])
  | new h =>
    rw [h] at hq
    cases hq
  | out b e hcall h =>
    rw [h] at hq
    exact .of_main (hn.of_switches hcall rfl) hq (by rw [h])
  | step a hcur h hstate =>
    generalize ht' : (s'.slot k).thread = t' at h hq
    cases h with
    | call g g' a i hcall h =>
      exact .call g g' a i hq (by rw [ht']) hcur hcall h (by rw [ht']) hstate
    | sleep y y' g a _ _ hy => exact .of_main (hn.of_sleep hy) hq (by rw [ht'])
    | main t a ht h =>
      rcases h.told hq with ⟨hmain, hparent, htelling, hcall⟩ | ⟨htold, htelling⟩
      · exact .start hmain hparent (by rw [ht', htelling]) (by rw [ht', hcall])
      · exact .move htold (by rw [ht', htelling]) fun _ => by rw [ht]; rfl
    | interrupt ht hmain =>
      rw [Main.told_of_interruptible hmain] at hq
      cases hq
    | handler g _ hirq | trapEnd g _ hirq | leave _ hirq => exact .of_main (hn.of_irq hirq) hq (by rw [ht'])

/-- How far the child `k` has come with waking up its parent `q`. -/
def Told (s : State) (q k : Slot) : Prop :=
  if (s.slot k).thread.main.telling then
    SweptNext q (passed s q k = false) (Attentive s q k) (s.slot q).state false (.proc q)
      (s.slot k).thread.call
  else Attentive s q k

structure WaitInv (s : State) : Prop where
  own : OwnInv s
  sleep : SleepInv s
  nested : ∀ p, (s.slot p).thread.Nested
  wait : ∀ p, WaitSleep p (s.slot p).thread
  arg : ∀ k q, (s.slot k).thread.main.told = some q → (s.slot k).state.dying = true →
    (s.slot k).parent = some q ∨ (s.slot k).parent = some initproc
  told : ∀ q k, (s.slot k).thread.main.told = some q → (s.slot k).parent = some q →
    (s.slot k).state.dying = true → Told s q k

/-- A dying process was dying before, unless this step is its `cas`. -/
lemma Rule.dying (hown : OwnInv s) (h : Rule s d s') (hk : (s'.slot k).state.dying = true) :
    (s.slot k).state.dying = true ∧
        ((s'.slot k).state = (s.slot k).state ∨ (s'.slot k).state = .zombie) ∨
      (s.slot k).thread = .at .exitCas := by
  rcases h.state hown k with heq | hedge
  · exact .inl ⟨heq ▸ hk, .inl heq⟩
  · generalize (s.slot k).state = v at hedge ⊢
    generalize (s'.slot k).state = v' at hedge hk ⊢
    cases hedge with
    | exit _ hmain => exact .inr hmain
    | zombie => exact .inl ⟨rfl, .inr rfl⟩
    | _ => cases hk

lemma Main.eq_exitWoke (h : m.told = some q) (htelling : m.telling = true) : m = .exitWoke (some q) := by
  cases m with
  | exitWoke w =>
    have hw : w = some q := h
    rw [hw]
  | _ => cases htelling

/-- The child tests the slot of its parent, in its call of `wakeup1` on it, when the parent has passed
    the child in `wait` and is not yet `NEG_SLEEPING`. -/
def missesParent (s : State) (c : CpuId) : Bool :=
  match (s.cpu c).cur with
  | some k =>
    match (s.slot k).thread.main with
    | .exitWoke (some q) =>
      match (s.slot k).thread.call with
      | some (.wakeup1 _ _ j) => j = q && (s.slot k).parent = some q && passed s q k
      | _ => false
    | _ => false
  | none => false

def NoMissedParent (s : State) (l : Label) : Prop := missesParent s l.cpu = false

instance (s : State) (l : Label) : Decidable (NoMissedParent s l) :=
  inferInstanceAs (Decidable (_ = false))

lemma PState.settled_of_dying (h : v.dying = true) : v.Settled := by
  cases v <;> first | exact ⟨by decide, by decide⟩ | cases h

/-- A child that has called `wakeup1` on `q` after a step had called it before, or calls it now. -/
lemma WaitInv.before (hinv : WaitInv s) (h : Rule s d s')
    (hq : (s'.slot k).thread.main.told = some q) (hk : (s'.slot k).state.dying = true) :
    (s.slot k).state.dying = true ∧
      ((s'.slot k).state = (s.slot k).state ∨ (s'.slot k).state = .zombie) ∧
      ((s'.slot k).parent = (s.slot k).parent ∨ (s'.slot k).parent = some initproc) ∧
      ((s.slot k).parent = some q ∨ (s.slot k).parent = some initproc) := by
  have hdying : (s.slot k).state.dying = true ∧
      ((s'.slot k).state = (s.slot k).state ∨ (s'.slot k).state = .zombie) := by
    refine (h.dying hinv.own hk).resolve_right fun hcas => ?_
    -- `exit` is not yet past its `cas`
    cases h.told (hinv.nested k) hq with
    | start hmain =>
      rw [hcas] at hmain
      cases hmain
    | same htold | call _ _ _ _ htold | move htold =>
      rw [hcas] at htold
      cases htold
  refine ⟨hdying.1, hdying.2, ?_, ?_⟩
  · rcases h.parent hinv.own k with hparent | hparent | hsettled
    · exact .inl hparent
    · exact .inr hparent
    · exact absurd (PState.settled_of_dying hdying.1) hsettled
  · cases h.told (hinv.nested k) hq with
    | start _ hparent => exact .inl hparent
    | same htold | call _ _ _ _ htold | move htold => exact hinv.arg k q htold hdying.1

lemma Asleep.exists {x : Proc} (h : Asleep x) :
    ∃ z, x.thread.sleep = some z ∧ z.pc = .tidy ∧ (x.state = .negSleeping ∨ x.state = .sleeping) := by
  rw [Asleep] at h
  split at h
  · rename_i z hz
    exact ⟨z, hz, h⟩
  · exact h.elim

/-- A parent asleep in `wait` is on its own channel. -/
lemma WaitInv.chan_of_asleep (hinv : WaitInv s) (h : AsleepInWait (s.slot q)) :
    (s.slot q).chan = .proc q := by
  obtain ⟨hmain, hasleep⟩ := h
  obtain ⟨z, hz, htidy, _⟩ := hasleep.exists
  rw [(hinv.sleep q z hz).2 (.inr htidy)]
  rcases hinv.wait q z hz with ⟨_, hchan⟩ | hscan
  · exact hchan
  · rw [hmain] at hscan
    cases hscan

/-- A parent that has not passed the child goes to sleep elsewhere, if at all. -/
lemma Rule.negSleeping_of_not_passed (hown : OwnInv s) (h : Rule s d s')
    (hp : Sched.passed s q k = false) (hne : (s.slot q).state ≠ .negSleeping)
    (hneg : (s'.slot q).state = .negSleeping) : Attentive s q k := by
  refine ⟨hp, fun hasleep => ?_⟩
  obtain ⟨z, hz, htidy, _⟩ := hasleep.2.exists
  rcases h.state hown q with heq | hedge
  · exact hne (heq.symm.trans hneg)
  · rw [hneg] at hedge
    generalize (s.slot q).state = v at hedge
    cases hedge with
    | sleep y _ hy hpc =>
      obtain rfl := Option.some.inj (hz.symm.trans hy)
      cases htidy.symm.trans hpc

lemma WaitInv.told_step (hinv : WaitInv s) (hok : missesParent s d = false) (h : Rule s d s')
    (hq : (s'.slot k).thread.main.told = some q) (hparent' : (s'.slot k).parent = some q)
    (hk' : (s'.slot k).state.dying = true) : Told s' q k := by
  obtain ⟨hk, hstate, hchange, hparent⟩ := hinv.before h hq hk'
  have hparent : (s.slot k).parent = some q := by
    rcases hchange with hsame | hinit
    · rw [← hsame, hparent']
    · rw [hparent'] at hinit
      rw [← hinit, or_self] at hparent
      exact hparent
  have hpassed := h.passed (hinv.wait q) hparent hk hstate
  have hatt := h.attentive hinv.own hinv.sleep (hinv.wait q) hparent hk hstate
  have hneg : passed s q k = false → (s.slot q).state ≠ .negSleeping →
      (s'.slot q).state ≠ .negSleeping ∨ Attentive s' q k := by
    intro hp hne
    by_cases hstate : (s'.slot q).state = .negSleeping
    · exact .inr (hatt (h.negSleeping_of_not_passed hinv.own hp hne hstate))
    · exact .inl hstate
  cases h.told (hinv.nested k) hq with
  | start hmain _ htelling hcall =>
    rw [Told, if_pos htelling, hcall]
    exact ⟨by simp [Call.sweeps], .inl (Nat.zero_le _)⟩
  | same htold hmain hcall =>
    have hold := hinv.told q k htold hparent hk
    rw [Told] at hold ⊢
    rw [hmain, hcall]
    split_ifs at hold ⊢ with htelling
    · cases hf : (s.slot k).thread.call with
      | none =>
        rw [hf] at hold
        exact hatt hold
      | some =>
        rw [hf] at hold
        exact ⟨hold.1, hold.2.mono hpassed hatt hneg⟩
    · exact hatt hold
  | call f f' a i htold hmain hcur hcall hstep hcall' hact =>
    have hold := hinv.told q k htold hparent hk
    rw [Told] at hold ⊢
    rw [hmain, hcall']
    split_ifs at hold ⊢ with htelling
    · rw [hcall] at hold
      refine hold.2.step hold.1 hstep (hact q) hpassed hatt ?_ ?_
      · rintro rfl
        have hp : passed s q k = false := by
          simpa [missesParent, hcur, Main.eq_exitWoke htold htelling, hcall, hparent] using hok
        exact ⟨hp, fun hne => ⟨hp, fun hasleep => hne (hinv.chan_of_asleep hasleep)⟩⟩
      · intro hp hnotneg hnotsleeping
        refine ⟨hp, fun hasleep => ?_⟩
        obtain ⟨_, _, _, hstate⟩ := hasleep.2.exists
        exact hstate.elim hnotneg hnotsleeping
    · exact hatt hold
  | move htold htelling hcall =>
    have hold := hinv.told q k htold hparent hk
    rw [Told] at hold ⊢
    rw [if_neg (by rw [htelling]; decide)]
    split_ifs at hold with hwas
    · rw [hcall hwas] at hold
      exact hatt hold
    · exact hatt hold

lemma WaitInv.rule (hinv : WaitInv s) (hok : missesParent s d = false) (h : Rule s d s') : WaitInv s' where
  own := hinv.own.rule h
  sleep := hinv.sleep.rule h
  nested := h.nested hinv.nested
  wait := h.waitSleep hinv.wait
  arg := by
    intro k q hq hk
    obtain ⟨_, _, hchange, hparent⟩ := hinv.before h hq hk
    rcases hchange with hsame | hinit
    · rwa [hsame]
    · exact .inr hinit
  told := fun _ _ hq hparent hk => hinv.told_step hok h hq hparent hk

lemma waitInv_boot : WaitInv boot where
  own := ownInv_boot
  sleep := sleepInv_boot
  nested := by
    intro p
    rcases thread_boot p with h | h <;> rw [h] <;> exact Thread.nested_of_not_exiting rfl
  wait := by
    intro p z hz
    rcases thread_boot p with h | h <;> rw [h] at hz <;> cases hz
  arg := by
    intro k q hq
    rcases thread_boot k with h | h <;> rw [h] at hq <;> cases hq
  told := by
    intro q k hq
    rcases thread_boot k with h | h <;> rw [h] at hq <;> cases hq

/-! ### Parents that sleep on -/

/-- The call of `wakeup1` on the parent `q` in the `exit` of `k` has returned. -/
def WokeParent (s : State) (q k : Slot) : Prop :=
  (s.slot k).thread.main.told = some q ∧
    ((s.slot k).thread.main.telling = true → (s.slot k).thread.call = none)

instance (s : State) (q k : Slot) : Decidable (WokeParent s q k) :=
  inferInstanceAs (Decidable (_ ∧ (_ → _)))

/-- The parent `q` is `SLEEPING` in `wait` on its own channel, its child `k` is `NEG_ZOMBIE` or
    `ZOMBIE`, and the child's call of `wakeup1` on the parent has returned. -/
structure Overslept (s : State) (q k : Slot) : Prop where
  main : (s.slot q).thread.main = .waitScan
  asleep : Asleep (s.slot q)
  state : (s.slot q).state = .sleeping
  chan : (s.slot q).chan = .proc q
  parent : (s.slot k).parent = some q
  dying : (s.slot k).state = .negZombie ∨ (s.slot k).state = .zombie
  woke : WokeParent s q k

instance (s : State) (q k : Slot) : Decidable (Overslept s q k) :=
  decidable_of_iff
    ((s.slot q).thread.main = .waitScan ∧ Asleep (s.slot q) ∧ (s.slot q).state = .sleeping ∧
      (s.slot q).chan = .proc q ∧ (s.slot k).parent = some q ∧
      ((s.slot k).state = .negZombie ∨ (s.slot k).state = .zombie) ∧ WokeParent s q k)
    ⟨fun ⟨h1, h2, h3, h4, h5, h6, h7⟩ => ⟨h1, h2, h3, h4, h5, h6, h7⟩,
      fun ⟨h1, h2, h3, h4, h5, h6, h7⟩ => ⟨h1, h2, h3, h4, h5, h6, h7⟩⟩

def firstChild : Slot := ⟨1, one_lt_NPROC⟩

/-- The first process calls `fork`. -/
def forkRun : List Label :=
  List.replicate 8 (.run 0) ++ [.op 0 .fork] ++ List.replicate 9 (.run 0) ++
    [.op 0 (.alloc true), .op 0 (.alloc true)] ++ List.replicate 5 (.run 0)

/-- It calls `wait`, up to the call of `sleep`. -/
def waitRun : List Label := [.op 0 .wait] ++ List.replicate 69 (.run 0)

/-- The child runs on CPU 1 and calls `exit`. -/
def exitRun : List Label :=
  List.replicate 9 (.run 1) ++ [.op 1 .exit, .run 1, .op 1 .closed] ++ List.replicate 139 (.run 1)

/-- The child exits between the scan of `wait` and the stores of `sleep`. The parent goes to sleep
    next to a `ZOMBIE`. -/
theorem parent_oversleeps :
    ∃ s, Reach step Always boot s ∧ Overslept s initproc firstChild := by
  refine Reach.exists_of_exec (forkRun ++ waitRun ++ exitRun ++ List.replicate 8 (.run 0)) ?_
  decide +kernel

/-- If no child looks at its parent after the scan of `wait` has passed the child and before the
    parent is `NEG_SLEEPING`, no parent sleeps past the exit of a child. -/
theorem not_overslept_of_noMissedParent (h : Reach step NoMissedParent boot s) (q k : Slot) :
    ¬ Overslept s q k := by
  have hinv : WaitInv s :=
    h.invariant waitInv_boot fun _ _ _ hinv hok hstep => hinv.rule hok (step_rule hstep)
  intro hbad
  have hdying : (s.slot k).state.dying = true := by
    rcases hbad.dying with hk | hk <;> rw [hk] <;> rfl
  have htold := hinv.told q k hbad.woke.1 hbad.parent hdying
  have hatt : Attentive s q k := by
    rw [Told] at htold
    split_ifs at htold with htelling
    · rwa [hbad.woke.2 htelling] at htold
    · exact htold
  exact hatt.2 ⟨hbad.main, hbad.asleep⟩

/-- The child exits when the parent is `SLEEPING`. -/
theorem not_overslept_after_late_exit : ∃ s, Reach step NoMissedParent boot s ∧
    WokeParent s initproc firstChild ∧ (s.slot firstChild).state = .negZombie ∧
      ¬ Overslept s initproc firstChild := by
  have hexec : ∃ s, Reach step NoMissedParent boot s ∧ WokeParent s initproc firstChild ∧
      (s.slot firstChild).state = .negZombie :=
    Reach.exists_of_exec (forkRun ++ waitRun ++ List.replicate 8 (.run 0) ++ exitRun)
      (by decide +kernel)
  obtain ⟨s, hrun, hwoke, hstate⟩ := hexec
  exact ⟨s, hrun, hwoke, hstate, not_overslept_of_noMissedParent hrun _ _⟩

end Xv6.Sched
