import Mathlib.Data.Finset.Card
import Xv6.Sched.Stacks

/-!
# Nested `pushcli`

How many calls of `pushcli` are pending on a stack, by the functions in progress there. A spinlock that a CPU
has acquired counts for one more. `swtch` takes place with one call pending on either side, so that the `popcli`
of the code that goes on undoes the `pushcli` of the code that has left the CPU.
-/

namespace Xv6.Sched

open Machine Option

variable {s s' : State} {c : CpuId} {p : Slot} {t t' : Thread} {a : Act} {i i' : Intr} {m : Main}
  {f : Call} {f' : Option Call} {e : Panic} {z : Sleep} {d : Int} {po : Option Slot} {lk : Lock} {b : Bool}

/-- The panics about interrupts, and the one in `sched` about `RUNNING`. -/
def Panic.cli : Panic → Bool
  | .popcliInterruptible | .popcli | .schedLocks | .schedRunning | .schedInterruptible => true
  | _ => false

/-! ### `pushcli` and `popcli` -/

/-- What a step does to the interrupt state of its CPU, with the change of the number of pending calls. -/
inductive IntrEdge (i : Intr) : Intr → Int → Prop
  | same : IntrEdge i i 0
  | push : IntrEdge i (pushcli i) 1
  | pop {i' : Intr} (h : popcli i = .ok i') : IntrEdge i i' (-1)
  /-- into an interrupt handler, or out of it -/
  | gate (b : Bool) (h : i.ncli = 0) : IntrEdge i { i with flag := b } 0

lemma popcli_eq_ok (h : popcli i = .ok i') :
    i.flag = false ∧ 0 < i.ncli ∧
      i' = { i with ncli := i.ncli - 1, flag := decide (i.ncli - 1 = 0) && i.intena } := by
  simp only [popcli] at h
  split_ifs at h with hflag hneg
  cases h
  exact ⟨by simpa using hflag, by omega, rfl⟩

/-- `popcli` panics only if it is not matched. -/
lemma popcli_ne_error (hflag : i.flag = true → i.ncli = 0) (hpos : 0 < i.ncli) : popcli i ≠ .error e := by
  have hoff : ¬ i.flag = true := fun hon => Int.ne_of_gt hpos (hflag hon)
  rw [popcli, if_neg hoff, if_neg (by omega)]
  intro h
  cases h

section

variable (h : IntrEdge i i' d)

include h

lemma IntrEdge.ncli : i'.ncli = i.ncli + d := by
  cases h with
  | same | gate => simp
  | push => rfl
  | pop h =>
    obtain ⟨-, -, rfl⟩ := popcli_eq_ok h
    rfl

/-- Interrupts are on only if no call is pending. -/
lemma IntrEdge.flag (hflag : i.flag = true → i.ncli = 0) :
    i'.flag = true → i'.ncli = 0 := by
  cases h with
  | same => exact hflag
  | push =>
    intro hon
    cases hon
  | pop h =>
    obtain ⟨-, -, rfl⟩ := popcli_eq_ok h
    intro hon
    rw [Bool.and_eq_true, decide_eq_true_eq] at hon
    exact hon.1
  | gate b h => exact fun _ => h

/-- `intena` is set by the outermost `pushcli` only. -/
lemma IntrEdge.intena (hne : i.ncli ≠ 0) : i'.intena = i.intena := by
  cases h with
  | same => rfl
  | push => exact if_neg hne
  | pop h =>
    obtain ⟨-, -, rfl⟩ := popcli_eq_ok h
    rfl
  | gate => rfl

/-- The outermost `pushcli` saves the interrupt flag. -/
lemma IntrEdge.pushed (hzero : i.ncli = 0) (hne : i'.ncli ≠ 0) :
    i'.intena = i.flag := by
  cases h with
  | same => exact absurd hzero hne
  | push => exact if_pos hzero
  | pop h =>
    obtain ⟨-, hpos, -⟩ := popcli_eq_ok h
    exact absurd hzero (Int.ne_of_gt hpos)
  | gate b h => exact absurd h hne

/-- The `popcli` that leaves no call pending restores it. -/
lemma IntrEdge.popped (hpos : 0 < i.ncli) (hzero : i'.ncli = 0) :
    i'.flag = i.intena := by
  cases h with
  | same => exact absurd hzero (Int.ne_of_gt hpos)
  | push => exact absurd hzero (Int.ne_of_gt (Int.lt_add_one_of_le hpos.le))
  | pop h =>
    obtain ⟨-, -, rfl⟩ := popcli_eq_ok h
    have hlast : i.ncli - 1 = 0 := hzero
    rw [decide_eq_true hlast, Bool.true_and]
  | gate b h => exact absurd h (Int.ne_of_gt hpos)

end

lemma pop_eq_panic {α : Type} {x : α} (h : pop i x = .panic e) : popcli i = .error e := by
  rw [pop] at h
  split at h
  · cases h
  · rename_i he
    cases h
    exact he

/-! ### Pending calls -/

/-- The functions that a call belongs to. -/
inductive Call.Kind
  | acquire
  | release
  | yield
  | sched
  | wakeup
  /-- `wakeup1` on its own -/
  | wakeup1
  deriving DecidableEq

def Call.kind : Call → Call.Kind
  | .acquire _ | .acquireSpin _ | .acquireCpu _ => .acquire
  | .release _ | .releaseFree _ | .releasePop => .release
  | .yield | .yieldCas | .yieldPop => .yield
  | .sched b | .schedNeg b | .schedSwtch b _ | .schedBack b _ => if b then .yield else .sched
  | .wakeup _ | .wakeupPop => .wakeup
  | .wakeup1 b _ _ | .wakeup1Spin b _ _ | .wakeup1Cas b _ _ => if b then .wakeup else .wakeup1

/-- The calls of `pushcli` that are pending in a call, but for a lock that has been acquired. -/
def Call.depth : Call → Nat
  | .acquireSpin _ | .releasePop | .yieldCas | .yieldPop | .wakeupPop => 1
  | .sched b | .schedNeg b | .schedSwtch b _ | .schedBack b _ => if b then 1 else 0
  | .wakeup1 b _ _ | .wakeup1Spin b _ _ | .wakeup1Cas b _ _ => if b then 1 else 0
  | _ => 0

def Sleep.depth (z : Sleep) : Nat :=
  match z.lk, z.pc with
  | some _, .chan | some _, .cas | some _, .tidy | some _, .pop => 1
  | _, _ => 0

def Main.depth : Main → Nat
  | .forkret | .allocTake _ | .allocNone | .allocFound _ | .forkRun .. | .forkPop _ => 1
  | .exitCas | .exitParent | .exitWoke _ | .exitLoop .. | .exitGive .. | .exitZombie .. | .exitNegZombie ..
  | .exitAgain .. | .exitSched _ | .zombieExit _ => 1
  | .waitScan | .waitTest .. | .waitNeg _ | .waitZombie _ | .waitReap _ | .waitPid _ | .waitFree ..
  | .waitFreevm .. | .waitClearPid .. | .waitClearParent .. | .waitClearKilled .. | .waitUnused ..
  | .waitKids _ | .waitPop _ => 1
  | .killSet | .killCas | .killPop => 1
  | _ => 0

def callDepth (f : Option Call) : Nat := f.elim 0 Call.depth

def Thread.depth (t : Thread) : Nat := t.main.depth + t.sleep.elim 0 Sleep.depth + callDepth t.call

/-- Code that may hold spinlocks of its own. -/
def Main.free : Main → Bool
  | .code _ | .exitClose => true
  | _ => false

/-- The calls that `sleep` makes, by where it is. -/
def Sleep.calls (z : Sleep) : Option Call.Kind → Bool
  | none => true
  | some .release => z.lk.isSome && decide (z.pc = .chan)
  | some .acquire => z.lk.isSome && decide (z.pc = .ret)
  | some .sched => decide (z.pc = .tidy)
  | _ => false

/-- Which functions call which on a kernel stack. -/
def Thread.wf (t : Thread) : Bool :=
  match t.irq, t.sleep, t.call.map Call.kind with
  | some .handler, none, k => t.main.interruptible && decide (k ≠ some .yield ∧ k ≠ some .sched ∧
      k ≠ some .wakeup1)
  | some .leave, none, k => t.main.interruptible && decide (k = none ∨ k = some .yield)
  | some _, some _, _ => false
  | none, some z, k => z.calls k && if z.lk.isSome then t.main.free else decide (t.main = .waitScan)
  | none, none, none => true
  | none, none, some .sched => decide (t.main.depth = 1)
  | none, none, some .wakeup1 => decide (t.main.depth = 1)
  | none, none, some _ => t.main.free

/-- How many spinlocks the CPU owns in `sleep`. -/
def Sleep.owned (z : Sleep) (f : Option Call) : Nat :=
  match z.lk, z.pc, f with
  | none, _, _ => 0
  | some _, .start, _ => 1
  | some _, .chan, some (.release _) | some _, .chan, some (.releaseFree _) => 1
  | some _, .ret, none | some _, .ret, some (.acquireCpu _) => 1
  | _, _, _ => 0

/-- How many spinlocks the CPU owns, where the code says so. -/
def Thread.owned (t : Thread) : Option Nat :=
  match t.irq, t.sleep with
  | some .handler, _ => none
  | some .leave, _ => some 0
  | none, some z => some (z.owned t.call)
  | none, none => if t.main.free && decide (t.call.map Call.kind ≠ some .yield) then none else some 0

/-- The value of `intena` that belongs to a stack: `sched` keeps it over the `swtch`. -/
def savedIntena (f : Option Call) (i : Intr) : Bool :=
  match f with
  | some (.schedSwtch _ e) | some (.schedBack _ e) => e
  | _ => i.intena

/-- A history variable of a process: the interrupt flag before its outermost `pushcli`. -/
def nextSaved (i i' : Intr) (x : Option Bool) : Option Bool :=
  if i.ncli = 0 ∧ i'.ncli ≠ 0 then some i.flag else x

/-- A CPU that owns `n` spinlocks, on the stack with thread `t`. -/
structure Good (t : Thread) (n : Nat) (i : Intr) (x : Option Bool) : Prop where
  wf : t.wf = true
  ncli : i.ncli = n + t.depth
  flag : i.flag = true → i.ncli = 0
  owned : ∀ k, t.owned = some k → n = k
  saved : i.ncli ≠ 0 → t = .new ∨ x = some (savedIntena t.call i)

lemma Good.nonneg {n : Nat} {x : Option Bool} (h : Good t n i x) : 0 ≤ i.ncli := by
  rw [h.ncli]
  exact Int.add_nonneg (Int.natCast_nonneg n) (Int.natCast_nonneg _)

lemma Good.move {n n' : Nat} {x : Option Bool} (h : Good t n i x) (hi : IntrEdge i i' d)
    (hwf : t'.wf = true) (hdepth : (n' + t'.depth : Int) = n + t.depth + d)
    (howned : ∀ k, t'.owned = some k → n' = k) (hnew : t = .new → i'.ncli = 0)
    (ht : savedIntena t.call i = i.intena) (ht' : savedIntena t'.call i' = i'.intena) :
    Good t' n' i' (nextSaved i i' x) where
  wf := hwf
  ncli := by rw [hi.ncli, h.ncli, hdepth]
  flag := hi.flag h.flag
  owned := howned
  saved := by
    intro hne
    rw [nextSaved, ht']
    split_ifs with hpush
    · rw [hi.pushed hpush.1 hne]
      exact .inr rfl
    · have hne0 : i.ncli ≠ 0 := fun hzero => hpush ⟨hzero, hne⟩
      rcases h.saved hne0 with h | h
      · exact absurd (hnew h) hne
      · rw [h, ht, hi.intena hne0]
        exact .inr rfl

/-! ### Calls -/

/-- Whether an act writes to a lock. -/
def Act.locks : Act → Bool
  | .lock .. => true
  | _ => false

/-- Between the two stores of `acquire` or of `release` to the lock. -/
def Call.midway : Call → Bool
  | .acquireCpu _ | .releaseFree _ => true
  | _ => false

/-- What the steps of a call do to interrupts and locks. -/
inductive CallCli (s : State) (c : CpuId) (i : Intr) (f : Call) : Option Call → Act → Intr → Prop
  | move {f' : Option Call} {a : Act} {i' : Intr} (d : Int) (hi : IntrEdge i i' d)
      (hdepth : (callDepth f' : Int) = f.depth + d) (hkind : ∀ g, f' = some g → g.kind = f.kind)
      (howned : ∀ z : Sleep, z.calls (some f.kind) = true → z.owned f' = z.owned (some f))
      (ha : a.locks = false) (hf : savedIntena (some f) i = i.intena)
      (hf' : savedIntena f' i' = i'.intena) (hmid : f'.any Call.midway = false) :
      CallCli s c i f f' a i'
  | own (lk : Lock) (hf : f = .acquireSpin lk) (hfree : (s.lock lk).locked = false) :
      CallCli s c i f (some (.acquireCpu lk)) (.lock lk { s.lock lk with locked := true }) i
  | hold (lk : Lock) (hf : f = .acquireCpu lk) :
      CallCli s c i f none (.lock lk { s.lock lk with cpu := some c }) i
  | unhold (lk : Lock) (hf : f = .release lk) (hold : holding s c lk = true) :
      CallCli s c i f (some (.releaseFree lk)) (.lock lk { s.lock lk with cpu := none }) i
  | disown (lk : Lock) (hf : f = .releaseFree lk) :
      CallCli s c i f (some .releasePop) (.lock lk { s.lock lk with locked := false }) i
  | back (b e : Bool) (hf : f = .schedBack b e) :
      CallCli s c i f (schedRet b) .none { i with intena := e }

lemma locks_cas (q : Slot) (old new : PState) : (cas s q old new).locks = false := by
  rw [cas]
  split_ifs <;> rfl

lemma Sleep.owned_tidy (h : z.calls (some .sched) = true) (f : Option Call) : z.owned f = 0 := by
  obtain ⟨chan, lk, pc⟩ := z
  obtain rfl : pc = .tidy := of_decide_eq_true h
  cases lk <;> rfl

lemma Sleep.owned_chan (h : z.calls (some .release) = true) : z.owned none = 0 ∧
    z.owned (some .releasePop) = 0 := by
  obtain ⟨chan, lk, pc⟩ := z
  obtain ⟨-, rfl⟩ : lk.isSome = true ∧ pc = .chan := by simpa [Sleep.calls] using h
  cases lk <;> exact ⟨rfl, rfl⟩

lemma Sleep.owned_ret (h : z.calls (some .acquire) = true) :
    z.owned (some (.acquireCpu lk)) + 0 = z.owned (some (.acquireSpin lk)) + 1 := by
  obtain ⟨chan, r, pc⟩ := z
  obtain ⟨hlk, rfl⟩ : r.isSome = true ∧ pc = .ret := by simpa [Sleep.calls] using h
  cases r <;> first | rfl | cases hlk

lemma Sleep.owned_acquired (h : z.calls (some .acquire) = true) :
    z.owned none = z.owned (some (.acquireCpu lk)) := by
  obtain ⟨chan, r, pc⟩ := z
  obtain ⟨hlk, rfl⟩ : r.isSome = true ∧ pc = .ret := by simpa [Sleep.calls] using h
  cases r <;> rfl

lemma Sleep.owned_released (h : z.calls (some .release) = true) :
    z.owned (some .releasePop) + 1 = z.owned (some (.releaseFree lk)) + 0 := by
  obtain ⟨chan, r, pc⟩ := z
  obtain ⟨hlk, rfl⟩ : r.isSome = true ∧ pc = .chan := by simpa [Sleep.calls] using h
  cases r <;> first | rfl | cases hlk

lemma wakeup1Next_cli (b : Bool) (chan : Chan) (q : Slot) :
    (callDepth (wakeup1Next b chan q) : Int) = if b then 1 else 0 := by
  rw [wakeup1Next]
  split <;> cases b <;> rfl

lemma wakeup1Next_kind {chan : Chan} {q : Slot} {g : Call} (h : wakeup1Next b chan q = some g) :
    g.kind = if b then .wakeup else .wakeup1 := by
  rw [wakeup1Next] at h
  split at h
  · cases h
    cases b <;> rfl
  · cases b <;> cases h
    rfl

lemma Call.of_wakeup1 (h : f.kind = if b then .wakeup else .wakeup1) :
    savedIntena (some f) i = i.intena ∧ f.midway = false := by
  cases f with
  | acquireCpu | releaseFree => cases b <;> cases h
  | schedSwtch b' | schedBack b' => cases b <;> cases b' <;> cases h
  | _ => exact ⟨rfl, rfl⟩

/-- A step within `wakeup1`. -/
lemma CallCli.wakeup1 (hkind : f.kind = if b then .wakeup else .wakeup1)
    (hdepth : f.depth = if b then 1 else 0) (hf' : ∀ g, f' = some g → g.kind = f.kind)
    (hdepth' : (callDepth f' : Int) = if b then 1 else 0) (ha : a.locks = false) :
    CallCli s c i f f' a i := by
  refine .move 0 .same ?_ hf' ?_ ha (Call.of_wakeup1 hkind).1 ?_ ?_
  · rw [hdepth', hdepth]
    cases b <;> rfl
  · intro z hz
    rw [hkind] at hz
    cases b <;> cases hz
  · cases f' with
    | none => rfl
    | some g => exact (Call.of_wakeup1 ((hf' g rfl).trans hkind)).1
  · cases f' with
    | none => rfl
    | some g => exact (@Call.of_wakeup1 i _ _ ((hf' g rfl).trans hkind)).2

lemma callStep_cli (h : callStep s c po f = some (.go f' a i')) : CallCli s c (s.cpu c).intr f f' a i' := by
  cases f with
  | acquire lk =>
    simp only [callStep, some.injEq] at h
    split_ifs at h
    cases h
    refine .move 1 .push rfl ?_ (fun z _ => ?_) rfl rfl rfl rfl
    · rintro g ⟨rfl⟩
      rfl
    · obtain ⟨chan, lk, pc⟩ := z
      cases lk <;> cases pc <;> rfl
  | acquireSpin lk =>
    simp only [callStep] at h
    split_ifs at h with hlocked <;> cases h
    · refine .move 0 .same rfl ?_ (fun z _ => rfl) rfl rfl rfl rfl
      rintro g ⟨rfl⟩
      rfl
    · exact .own lk rfl (by simpa using hlocked)
  | acquireCpu lk =>
    cases h
    exact .hold lk rfl
  | release lk =>
    simp only [callStep, some.injEq] at h
    split_ifs at h with hhold
    cases h
    exact .unhold lk rfl hhold
  | releaseFree lk =>
    cases h
    exact .disown lk rfl
  | releasePop =>
    obtain ⟨hi, rfl, rfl⟩ := pop_eq_go (some.inj h)
    refine .move (-1) (.pop hi) rfl (fun g hg => by cases hg) (fun z hz => ?_) rfl rfl rfl rfl
    rw [(Sleep.owned_chan hz).1, (Sleep.owned_chan hz).2]
  | yieldPop | wakeupPop =>
    obtain ⟨hi, rfl, rfl⟩ := pop_eq_go (some.inj h)
    exact .move (-1) (.pop hi) rfl (fun g hg => by cases hg) (fun z hz => by cases hz) rfl rfl rfl rfl
  | yield | wakeup =>
    cases h
    refine .move 1 .push rfl ?_ (fun z hz => by cases hz) rfl rfl rfl rfl
    rintro g ⟨rfl⟩
    rfl
  | yieldCas =>
    cases po with
    | none => simp [callStep] at h
    | some =>
      cases h
      refine .move 0 .same rfl ?_ (fun z hz => by cases hz) (locks_cas _ _ _) rfl rfl rfl
      rintro g ⟨rfl⟩
      rfl
  | sched b | schedNeg b =>
    cases po with
    | none => simp [callStep] at h
    | some =>
      simp only [callStep, some.injEq] at h
      split_ifs at h
      cases h
      refine .move 0 .same (by rw [Int.add_zero]; rfl) ?_ (fun z hz => ?_) rfl rfl rfl rfl
      · rintro g ⟨rfl⟩
        rfl
      · cases b with
        | true => cases hz
        | false => rw [Sleep.owned_tidy hz, Sleep.owned_tidy hz]
  | schedSwtch => cases po <;> simp [callStep] at h
  | schedBack b e =>
    cases h
    exact .back b e rfl
  | wakeup1 b chan q =>
    cases h
    split_ifs
    · exact .wakeup1 (b := b) rfl rfl (by rintro g ⟨rfl⟩; rfl) (by cases b <;> rfl) rfl
    · exact .wakeup1 (b := b) rfl rfl (fun g hg => wakeup1Next_kind hg) (wakeup1Next_cli b chan q) rfl
  | wakeup1Spin b =>
    cases h
    split_ifs <;> exact .wakeup1 (b := b) rfl rfl (by rintro g ⟨rfl⟩; rfl) (by cases b <;> rfl) rfl
  | wakeup1Cas b chan q =>
    cases h
    exact .wakeup1 (b := b) rfl rfl (fun g hg => wakeup1Next_kind hg) (wakeup1Next_cli b chan q)
      (locks_cas _ _ _)

lemma callStep_panic (h : callStep s c po f = some (.panic e)) :
    e = .acquire ∨ e = .release ∨ e = .schedNegRunning ∨
      popcli (s.cpu c).intr = .error e ∧ f.depth = 1 ∨
      e = .schedLocks ∧ (s.cpu c).intr.ncli ≠ 1 ∧ (∃ b, f = .sched b) ∨
      e = .schedInterruptible ∧ (s.cpu c).intr.flag = true ∧ (∃ b, f = .schedNeg b) ∨
      e = .schedRunning ∧ ∃ p b, po = some p ∧ f = .sched b ∧ (s.slot p).state = .running := by
  cases f with
  | acquire | acquireSpin | release =>
    simp only [callStep] at h
    split_ifs at h <;> cases h <;> simp
  | releasePop | yieldPop | wakeupPop =>
    simp only [callStep, some.injEq] at h
    exact .inr (.inr (.inr (.inl ⟨pop_eq_panic h, rfl⟩)))
  | sched =>
    cases po with
    | none => simp [callStep] at h
    | some =>
      simp only [callStep] at h
      split_ifs at h with hncli hrun <;> cases h
      · simp [hncli]
      · simp [hrun]
  | schedNeg =>
    cases po with
    | none => simp [callStep] at h
    | some =>
      simp only [callStep] at h
      split_ifs at h with hneg hflag <;> cases h
      · simp
      · simp [hflag]
  | yieldCas | schedSwtch => cases po <;> simp [callStep] at h
  | _ => simp [callStep] at h

/-! ### Steps on the stack of a process -/

lemma nextSaved_self (i : Intr) (x : Option Bool) : nextSaved i i x = x := by
  rw [nextSaved, if_neg]
  rintro ⟨hzero, hne⟩
  exact hne hzero

lemma Thread.ne_new (h : t.call ≠ none ∨ t.irq ≠ none ∨ t.sleep ≠ none) : t ≠ .new := by
  rintro rfl
  simp [Thread.new, Thread.at] at h

lemma Thread.wf_call (h : t.wf = true) (hcall : t.call = some f)
    (hkind : ∀ g, f' = some g → g.kind = f.kind) : { t with call := f' }.wf = true := by
  obtain ⟨m, sleep, irq, call⟩ := t
  obtain rfl : call = some f := hcall
  cases f' with
  | some g =>
    rw [Thread.wf] at h ⊢
    simp only [map_some, hkind g rfl] at h ⊢
    exact h
  | none =>
    cases irq with
    | none =>
      cases sleep with
      | none => rfl
      | some =>
        simp only [Thread.wf, Bool.and_eq_true] at h ⊢
        exact ⟨rfl, h.2⟩
    | some r =>
      cases sleep with
      | none =>
        cases r <;> simp only [Thread.wf, Bool.and_eq_true] at h ⊢ <;> exact ⟨h.1, rfl⟩
      | some => cases r <;> cases h

lemma Main.depth_of_interruptible (h : m.interruptible = true) : m.depth = 0 := by
  cases m <;> first | rfl | cases h

lemma Main.depth_of_free (h : m.free = true) : m.depth = 0 := by
  cases m <;> first | rfl | cases h

lemma Call.depth_of_yield (h : f.kind = .yield) (hpush : f ≠ .yield) : f.depth = 1 := by
  cases f with
  | yield => exact absurd rfl hpush
  | yieldCas | yieldPop => rfl
  | sched b | schedNeg b | schedSwtch b | schedBack b => cases b <;> first | rfl | cases h
  | wakeup1 b | wakeup1Spin b | wakeup1Cas b => cases b <;> cases h
  | _ => cases h

lemma Call.depth_of_sched (h : f.kind = .sched) : f.depth = 0 := by
  cases f with
  | sched b | schedNeg b | schedSwtch b | schedBack b => cases b <;> first | rfl | cases h
  | wakeup1 b | wakeup1Spin b | wakeup1Cas b => cases b <;> cases h
  | _ => cases h

/-- `yield` is called with no lock and no `pushcli` pending. -/
lemma Thread.of_yield (h : t.wf = true) (hcall : t.call = some f) (hf : f.kind = .yield) :
    t.owned = some 0 ∧ t.depth = f.depth := by
  obtain ⟨m, sleep, irq, call⟩ := t
  obtain rfl : call = some f := hcall
  cases irq with
  | none =>
    cases sleep with
    | some =>
      simp only [Thread.wf, map_some, hf, Bool.and_eq_true] at h
      cases h.1
    | none =>
      simp only [Thread.wf, map_some, hf] at h
      simp [Thread.owned, Thread.depth, hf, Main.depth_of_free h, callDepth]
  | some r =>
    cases sleep with
    | some => cases r <;> cases h
    | none =>
      cases r with
      | handler => simp [Thread.wf, hf] at h
      | leave =>
        simp only [Thread.wf, Bool.and_eq_true] at h
        simp [Thread.owned, Thread.depth, Main.depth_of_interruptible h.1, callDepth]

/-- `sched` on its own is called by `sleep` and by `exit`, which have one `pushcli` pending. -/
lemma Thread.of_sched (h : t.wf = true) (hcall : t.call = some f) (hf : f.kind = .sched) :
    t.owned = some 0 ∧ t.depth = 1 := by
  obtain ⟨m, sleep, irq, call⟩ := t
  obtain rfl : call = some f := hcall
  cases irq with
  | some r =>
    cases sleep with
    | some => cases r <;> cases h
    | none => cases r <;> simp [Thread.wf, hf] at h
  | none =>
    cases sleep with
    | none =>
      simp only [Thread.wf, map_some, hf, decide_eq_true_eq] at h
      have hfree : ¬ m.free = true := by
        intro hm
        rw [Main.depth_of_free hm] at h
        cases h
      simp [Thread.owned, Thread.depth, hfree, h, callDepth, Call.depth_of_sched hf]
    | some z =>
      simp only [Thread.wf, map_some, hf, Bool.and_eq_true] at h
      refine ⟨congrArg some (Sleep.owned_tidy h.1 _), ?_⟩
      obtain ⟨chan, lk, pc⟩ := z
      obtain rfl : pc = .tidy := of_decide_eq_true h.1
      cases lk with
      | some =>
        have hm : m.free = true := h.2
        simp [Thread.depth, Main.depth_of_free hm, callDepth, Call.depth_of_sched hf, Sleep.depth]
      | none =>
        have hm : m = .waitScan := by simpa using h.2
        have hdepth : m.depth = 1 := by
          rw [hm]
          rfl
        simp [Thread.depth, hdepth, callDepth, Call.depth_of_sched hf, Sleep.depth]

/-- The calls that acquire or release a lock. -/
def Call.Kind.isLock : Call.Kind → Bool
  | .acquire | .release => true
  | _ => false

/-- The locks that the code of a stack has acquired, over a step of a call on it. -/
lemma Good.owned_call {n n' j k : Nat} {x : Option Bool} (h : Good t n i x) (hcall : t.call = some f)
    (hkind : ∀ g, f' = some g → g.kind = f.kind)
    (hz : ∀ z : Sleep, z.calls (some f.kind) = true → z.owned f' + j = z.owned (some f) + k)
    (hn : n' + j = n + k) (hlock : j = k ∨ f.kind.isLock = true) :
    ∀ r, { t with call := f' }.owned = some r → n' = r := by
  have hwf := h.wf
  have howned := h.owned
  obtain ⟨m, sleep, irq, call⟩ := t
  obtain rfl : call = some f := hcall
  intro r hr
  -- where no lock is owned, no lock is acquired or released
  have hquiet : n = 0 → f.kind.isLock = false → r = 0 → n' = r := by
    intro hzero hno hr
    rcases hlock with hlock | hlock
    · omega
    · rw [hno] at hlock
      cases hlock
  cases irq with
  | some irq =>
    cases irq with
    | handler => cases hr
    | leave =>
      obtain rfl : 0 = r := some.inj hr
      cases sleep with
      | some => cases hwf
      | none =>
        refine hquiet (howned 0 rfl) ?_ rfl
        simp only [Thread.wf, map_some, Bool.and_eq_true, decide_eq_true_eq, some.injEq,
          reduceCtorEq, false_or] at hwf
        rw [hwf.2]
        rfl
  | none =>
    cases sleep with
    | some z =>
      obtain rfl : z.owned f' = r := some.inj hr
      simp only [Thread.wf, map_some, Bool.and_eq_true] at hwf
      have hold := howned (z.owned (some f)) rfl
      have hstep := hz z hwf.1
      omega
    | none =>
      simp only [Thread.owned] at hr
      split_ifs at hr with hfree
      obtain rfl : 0 = r := some.inj hr
      rw [Bool.and_eq_true, decide_eq_true_eq, not_and, not_not] at hfree
      have hnot : m.free = true → f.kind = .yield := by
        intro hm
        obtain ⟨g, hg, hgk⟩ := map_eq_some_iff.mp (hfree hm)
        rw [← hkind g hg, hgk]
      refine hquiet (howned 0 ?_) ?_ rfl
      · simp only [Thread.owned, map_some]
        rw [if_neg]
        rw [Bool.and_eq_true, decide_eq_true_eq, not_and, not_not]
        intro hm
        rw [hnot hm]
      · cases hm : m.free with
        | true => rw [hnot hm]; rfl
        | false =>
          cases hf : f.kind <;> first | rfl | skip
          all_goals
            simp only [Thread.wf, map_some, hf] at hwf
            rw [hm] at hwf
            cases hwf

section

variable {n : Nat} {x : Option Bool} {m' : Main} {y : Option Sleep × Option Call} {o : Op}

/-- A step of a call that leaves the locks alone. -/
lemma Good.call_move (h : Good t n i x) (hcall : t.call = some f) (hi : IntrEdge i i' d)
    (hdepth : (callDepth f' : Int) = f.depth + d) (hkind : ∀ g, f' = some g → g.kind = f.kind)
    (howned : ∀ z : Sleep, z.calls (some f.kind) = true → z.owned f' = z.owned (some f))
    (hf : savedIntena (some f) i = i.intena) (hf' : savedIntena f' i' = i'.intena) :
    Good { t with call := f' } n i' (nextSaved i i' x) := by
  refine h.move hi (Thread.wf_call h.wf hcall hkind) ?_ ?_ ?_ ?_ hf'
  · have hold : callDepth t.call = f.depth := by
      rw [hcall]
      rfl
    simp only [Thread.depth, hold]
    omega
  · exact h.owned_call (j := 0) (k := 0) hcall hkind howned rfl (.inl rfl)
  · exact fun hnew => absurd hnew (Thread.ne_new (.inl (by simp [hcall])))
  · rwa [hcall]

/-- A step of a call that acquires or releases a lock: what it no longer counts as a pending `pushcli` it
    counts as a lock, or the other way round. -/
lemma Good.call_lock {n' : Nat} (h : Good t n i x) (hcall : t.call = some f)
    (hdepth : n' + callDepth f' = n + f.depth) (hkind : ∀ g, f' = some g → g.kind = f.kind)
    (hlock : f.kind.isLock = true)
    (howned : ∀ z : Sleep, z.calls (some f.kind) = true →
      z.owned f' + callDepth f' = z.owned (some f) + f.depth)
    (hf : savedIntena (some f) i = i.intena) (hf' : savedIntena f' i = i.intena) :
    Good { t with call := f' } n' i x := by
  have hgood : Good { t with call := f' } n' i (nextSaved i i x) := h.move .same (Thread.wf_call h.wf hcall hkind) ?_
    (h.owned_call hcall hkind howned hdepth (.inr hlock)) ?_ ?_ hf'
  · rwa [nextSaved_self] at hgood
  · have hold : callDepth t.call = f.depth := by
      rw [hcall]
      rfl
    simp only [Thread.depth, hold]
    omega
  · exact fun hnew => absurd hnew (Thread.ne_new (.inl (by simp [hcall])))
  · rwa [hcall]

/-- `sched` restores `intena` when it is back on a CPU. -/
lemma Good.call_back {b e : Bool} (h : Good t n i x) (hcall : t.call = some (.schedBack b e)) :
    Good { t with call := schedRet b } n { i with intena := e } x := by
  have hkind : ∀ g, schedRet b = some g → g.kind = (Call.schedBack b e).kind := by
    intro g hg
    cases b <;> cases hg
    rfl
  have howned : ∀ z : Sleep, z.calls (some (Call.schedBack b e).kind) = true →
      z.owned (schedRet b) = z.owned (some (.schedBack b e)) := by
    intro z hz
    cases b with
    | true => cases hz
    | false => rw [Sleep.owned_tidy hz, Sleep.owned_tidy hz]
  refine ⟨Thread.wf_call h.wf hcall hkind, ?_, h.flag,
    h.owned_call (j := 0) (k := 0) hcall hkind howned rfl (.inl rfl), fun hne => ?_⟩
  · have hdepth : callDepth (schedRet b) = callDepth t.call := by
      rw [hcall]
      cases b <;> rfl
    simp only [Thread.depth, hdepth]
    exact h.ncli
  · rcases h.saved hne with hnew | hsaved
    · exact absurd hnew (Thread.ne_new (.inl (by simp [hcall])))
    · rw [hsaved, hcall]
      cases b <;> exact .inr rfl

/-- The panics of a call are not about interrupts. -/
lemma Good.call_panic (h : Good t n (s.cpu c).intr x) (hcall : t.call = some f)
    (hrun : ∀ p b, po = some p → f = .sched b → (s.slot p).state ≠ .running)
    (hsched : ∀ b, f = .sched b ∨ f = .schedNeg b → (s.cpu c).intr.ncli = 1)
    (hstep : callStep s c po f = some (.panic e)) : e.cli = false := by
  rcases callStep_panic hstep with rfl | rfl | rfl | ⟨hpop, hdepth⟩ | ⟨-, hne, b, hf⟩ |
    ⟨-, hflag, b, hf⟩ | ⟨-, p, b, hp, hf, hstate⟩
  · rfl
  · rfl
  · rfl
  · refine absurd hpop (popcli_ne_error h.flag ?_)
    have hcount := h.ncli
    simp only [Thread.depth, hcall, callDepth, elim_some, hdepth] at hcount
    omega
  · exact absurd (hsched b (.inl hf)) hne
  · have hzero := h.flag hflag
    rw [hsched b (.inr hf)] at hzero
    cases hzero
  · exact absurd hstate (hrun p b hp hf)

/-- `sched` is called with one `pushcli` pending, and no lock. -/
lemma Good.sched (h : Good t n i x) (hcall : t.call = some f) (hf : f.kind = .yield ∨ f.kind = .sched)
    (hpush : f ≠ .yield) : n = 0 ∧ i.ncli = 1 := by
  have hbase : t.owned = some 0 ∧ t.depth = 1 := by
    rcases hf with hf | hf
    · obtain ⟨howned, hdepth⟩ := Thread.of_yield h.wf hcall hf
      rw [hdepth, Call.depth_of_yield hf hpush]
      exact ⟨howned, rfl⟩
    · exact Thread.of_sched h.wf hcall hf
  have hzero := h.owned 0 hbase.1
  refine ⟨hzero, ?_⟩
  rw [h.ncli, hbase.2, hzero]
  rfl

/-- A step of `sleep`. -/
lemma Good.sleep (h : Good t n (s.cpu c).intr x) (ht : t = ⟨t.main, some z, none, none⟩)
    (hstep : sleepStep s c p z = .go y a i') :
    Good ⟨t.main, y.1, none, y.2⟩ n i' (nextSaved (s.cpu c).intr i' x) ∧ a.locks = false ∧
      y.2.any Call.midway = false := by
  have hne : t ≠ .new := by
    rw [ht]
    exact Thread.ne_new (.inr (.inr (by simp)))
  have hcall : savedIntena t.call (s.cpu c).intr = (s.cpu c).intr.intena := by
    rw [ht]
    rfl
  have hmove : ∀ {d : Int} {t' : Thread}, IntrEdge (s.cpu c).intr i' d → t'.wf = true →
      (t'.depth : Int) = t.depth + d → (∀ k, t'.owned = some k → n = k) →
      savedIntena t'.call i' = i'.intena → Good t' n i' (nextSaved (s.cpu c).intr i' x) := by
    intro d t' hi hwf hdepth howned hcall'
    exact h.move hi hwf (by omega) howned (fun hnew => absurd hnew hne) hcall hcall'
  have hwf := h.wf
  have howned := h.owned
  rw [ht] at hwf howned hmove
  generalize t.main = m at hwf howned hmove ⊢
  obtain ⟨chan, lk, pc⟩ := z
  cases lk with
  | some =>
    have hm : m.free = true := by
      simp only [Thread.wf, Bool.and_eq_true] at hwf
      exact hwf.2
    cases pc with
    | start =>
      cases hstep
      exact ⟨hmove .push hm rfl howned rfl, rfl, rfl⟩
    | chan | tidy =>
      cases hstep
      exact ⟨hmove .same hm (by simp [Thread.depth, Sleep.depth, callDepth]) howned rfl, rfl, rfl⟩
    | cas =>
      simp only [sleepStep, Res.go.injEq] at hstep
      obtain ⟨rfl, rfl, rfl⟩ := hstep
      exact ⟨hmove .same hm rfl howned rfl, locks_cas _ _ _, rfl⟩
    | pop =>
      obtain ⟨hi, rfl, rfl⟩ := pop_eq_go hstep
      refine ⟨hmove (.pop hi) hm ?_ howned rfl, rfl, rfl⟩
      simp [Thread.depth, Sleep.depth, callDepth, Call.depth, Main.depth_of_free hm]
    | ret =>
      cases hstep
      refine ⟨hmove .same rfl rfl ?_ rfl, rfl, rfl⟩
      intro k hk
      simp [Thread.owned, hm] at hk
  | none =>
    have hm : m = .waitScan := by
      simp only [Thread.wf, Bool.and_eq_true] at hwf
      exact of_decide_eq_true hwf.2
    subst hm
    cases pc with
    | start | chan | tidy | pop | ret =>
      cases hstep
      exact ⟨hmove .same rfl rfl howned rfl, rfl, rfl⟩
    | cas =>
      simp only [sleepStep, Res.go.injEq] at hstep
      obtain ⟨rfl, rfl, rfl⟩ := hstep
      exact ⟨hmove .same rfl rfl howned rfl, locks_cas _ _ _, rfl⟩

lemma sleepStep_intr (h : sleepStep s c p z = .go y a i') : ∃ d, IntrEdge (s.cpu c).intr i' d := by
  obtain ⟨chan, lk, pc⟩ := z
  cases pc with
  | start =>
    cases lk with
    | none =>
      cases h
      exact ⟨0, .same⟩
    | some =>
      cases h
      exact ⟨1, .push⟩
  | pop =>
    cases lk with
    | none =>
      cases h
      exact ⟨0, .same⟩
    | some => exact ⟨-1, .pop (pop_eq_go h).1⟩
  | _ =>
    cases h
    exact ⟨0, .same⟩

lemma Good.sleep_panic (h : Good t n (s.cpu c).intr x) (ht : t = ⟨t.main, some z, none, none⟩)
    (hstep : sleepStep s c p z = .panic e) : e.cli = false := by
  obtain ⟨chan, lk, pc⟩ := z
  cases lk with
  | none => cases pc <;> cases hstep
  | some =>
    cases pc with
    | pop =>
      refine absurd (pop_eq_panic hstep) (popcli_ne_error h.flag ?_)
      have hcount := h.ncli
      rw [ht] at hcount
      simp only [Thread.depth, elim_some, Sleep.depth] at hcount
      omega
    | _ => cases hstep

/-! ### Steps of the outermost function -/

/-- What a step of the outermost function does to interrupts: it ends without a lock. -/
structure MainCli (m : Main) (i : Intr) (t : Thread) (a : Act) (i' : Intr) (d : Int) : Prop where
  intr : IntrEdge i i' d
  depth : (t.depth : Int) = m.depth + d
  wf : t.wf = true
  owned : t.owned = none ∨ t.owned = some 0
  free : m.free = false
  locks : a.locks = false
  saved : savedIntena t.call i' = i'.intena
  mid : t.call.any Call.midway = false
  new : m = .forkret → d = -1

lemma owned_at (m : Main) : (Thread.at m).owned = none ∨ (Thread.at m).owned = some 0 := by
  cases hfree : m.free <;> simp [Thread.at, Thread.owned, hfree]

lemma MainCli.at (hi : IntrEdge i i' d) (hdepth : (m'.depth : Int) = m.depth + d) (hfree : m.free = false)
    (ha : a.locks = false) (hnew : m = .forkret → d = -1) : MainCli m i (.at m') a i' d :=
  ⟨hi, hdepth, rfl, owned_at m', hfree, ha, rfl, rfl, hnew⟩

lemma MainCli.same (hdepth : m'.depth = m.depth) (hfree : m.free = false) (ha : a.locks = false)
    (hnew : m ≠ .forkret) : MainCli m i (.at m') a i 0 :=
  .at .same (by rw [hdepth, Int.add_zero]) hfree ha fun h => absurd h hnew

lemma MainCli.pop (h : popcli i = .ok i') (hdepth : m.depth = 1) (hdepth' : m'.depth = 0)
    (hfree : m.free = false) : MainCli m i (.at m') .none i' (-1) :=
  .at (.pop h) (by rw [hdepth, hdepth']; rfl) hfree rfl fun _ => rfl

lemma MainCli.push (hdepth : m.depth = 0) (hdepth' : m'.depth = 1) (hfree : m.free = false)
    (hnew : m ≠ .forkret) : MainCli m i (.at m') .none (pushcli i) 1 :=
  .at .push (by rw [hdepth, hdepth']; rfl) hfree rfl fun h => absurd h hnew

lemma depth_exitNext (w : Option Slot) (q : Slot) : (exitNext w q).depth = 1 := by
  rw [exitNext]
  split <;> rfl

lemma depth_waitNext (q : Slot) (b : Bool) : (waitNext q b).depth = 1 := by
  rw [waitNext]
  split <;> rfl

lemma MainStep.cli (h : MainStep s p i m t a i') : ∃ d, MainCli m i t a i' d := by
  cases h with
  | forkret hi | allocNone hi | allocFound hi | forkPop hi | waitPop hi | killPop hi =>
    exact ⟨-1, .pop hi rfl rfl rfl⟩
  | allocproc | forkPush | exitPush | wait | killHandler => exact ⟨1, .push rfl rfl rfl (by simp)⟩
  | exitCas => exact ⟨0, .same rfl rfl (locks_cas _ _ _) (by simp)⟩
  | exitParent | exitSched | exitZombie | exitNegZombie | waitSleep =>
    exact ⟨0, .same, rfl, rfl, .inr rfl, rfl, rfl, rfl, rfl, fun h => by cases h⟩
  | exitLoop | exitAlive | exitAgain => exact ⟨0, .same (depth_exitNext _ _) rfl rfl (by simp)⟩
  | waitTest | waitNeg | waitZombie =>
    refine ⟨0, .same ?_ rfl rfl (by simp)⟩
    split_ifs <;> first | rfl | exact depth_waitNext _ _
  | _ => exact ⟨0, .same rfl rfl rfl (by simp)⟩

/-- The panics of the outermost function. -/
lemma mainStep_panic (h : mainStep s p i m = some (.panic e)) :
    e.cli = false ∨ popcli i = .error e ∧ m.depth = 1 := by
  cases m with
  | forkret | allocNone | allocFound | forkPop | waitPop | killPop =>
    exact .inr ⟨pop_eq_panic (some.inj h), rfl⟩
  | exit | forkRun | waitUnused =>
    simp only [mainStep, forkStep, exitStep, waitStep, killStep, none_or, or_none, some.injEq] at h
    split_ifs at h
    cases h
    exact .inl rfl
  | exitZombie | exitNegZombie | waitReap | waitKids | pidCas =>
    simp only [mainStep, forkStep, exitStep, waitStep, killStep, none_or, or_none, some.injEq] at h
    split_ifs at h
  | allocTake =>
    simp only [mainStep, forkStep, exitStep, waitStep, killStep, or_none, some.injEq] at h
    split_ifs at h
    split at h <;> cases h
  | zombieExit =>
    cases h
    exact .inl rfl
  | _ => simp [mainStep, forkStep, exitStep, waitStep, killStep] at h

lemma Good.main (h : Good (.at m) n i x) (hstep : MainStep s p i m t a i') :
    Good t n i' (nextSaved i i' x) ∧ a.locks = false ∧ t.call.any Call.midway = false := by
  obtain ⟨d, hcli⟩ := hstep.cli
  have hzero : n = 0 := by
    apply h.owned 0
    simp [Thread.at, Thread.owned, hcli.free]
  have hdepth : (Thread.at m).depth = m.depth := rfl
  refine ⟨h.move hcli.intr hcli.wf ?_ ?_ ?_ rfl hcli.saved, hcli.locks, hcli.mid⟩
  · rw [hcli.depth, hdepth, Int.add_assoc]
  · intro k hk
    rcases hcli.owned with hnone | hsome
    · cases hnone.symm.trans hk
    · rw [hzero]
      exact some.inj (hsome.symm.trans hk)
  · intro hnew
    obtain rfl : m = .forkret := congrArg Thread.main hnew
    rw [hcli.intr.ncli, h.ncli, hzero, hcli.new rfl]
    rfl

lemma Good.main_panic (h : Good (.at m) n i x) (hstep : mainStep s p i m = some (.panic e)) :
    e.cli = false := by
  rcases mainStep_panic hstep with he | ⟨hpop, hdepth⟩
  · exact he
  · refine absurd hpop (popcli_ne_error h.flag ?_)
    have hcount : i.ncli = n + m.depth := h.ncli
    rw [hcount, hdepth]
    omega

/-! ### Code outside these functions -/

/-- How the rest of the kernel calls these functions: `sleep` with one spinlock, the others with none. -/
def Op.Disciplined (o : Op) (i : Intr) : Prop :=
  match o with
  | .sleep .. => i.ncli = 1
  | .yield | .fork | .exit | .closed | .wait | .killHandler | .trapEnd _ => i.ncli = 0
  | _ => True

/-- A step that changes the calls on the stack only. -/
lemma Good.enter (h : Good t n i x) (hne : t ≠ .new) (hcall : t.call = none) (hwf : t'.wf = true)
    (hdepth : t'.depth = t.depth) (howned : ∀ k, t'.owned = some k → n = k)
    (hsaved : savedIntena t'.call i = i.intena) : Good t' n i x := by
  have hgood := h.move .same hwf (by rw [hdepth, Int.add_zero]) howned (fun hnew => absurd hnew hne)
    (by rw [hcall]; rfl) hsaved
  rwa [nextSaved_self] at hgood

lemma at_ne_new (h : m ≠ .forkret) : Thread.at m ≠ .new :=
  fun hnew => h (congrArg Thread.main hnew)

/-- The start of a function, with no `pushcli` pending. -/
lemma Good.enter_at (h : Good (.at m) n i x) (hm : m ≠ .forkret) (hzero : n = 0)
    (hdepth : m'.depth = m.depth) : Good (.at m') n i x := by
  refine h.enter (at_ne_new hm) rfl rfl hdepth ?_ rfl
  intro k hk
  rcases owned_at m' with hnone | hsome
  · cases hnone.symm.trans hk
  · rw [hzero]
    exact some.inj (hsome.symm.trans hk)

lemma Good.zero_of_ncli (h : Good t n i x) (hzero : i.ncli = 0) : n = 0 := by
  have hcount := h.ncli
  omega

lemma Op.kind_of_call (h : o.call = some f) :
    (f.kind = .acquire ∨ f.kind = .release ∨ f.kind = .wakeup) ∧ f.depth = 0 ∧
      savedIntena (some f) i = i.intena ∧ f.midway = false := by
  cases o <;> cases h
  · exact ⟨.inl rfl, rfl, rfl, rfl⟩
  · exact ⟨.inr (.inl rfl), rfl, rfl, rfl⟩
  · exact ⟨.inr (.inr rfl), rfl, rfl, rfl⟩

lemma Good.mainOp (h : Good (.at m) n i x) (ho : o.Disciplined i) (hstep : MainOp m o t a) :
    Good t n i x ∧ a.locks = false ∧ t.call.any Call.midway = false := by
  have hfree : m = .exitClose ∨ (∃ v, m = .code v) → m.free = true ∧ Thread.at m ≠ .new := by
    rintro (rfl | ⟨v, rfl⟩) <;> exact ⟨rfl, at_ne_new (by simp)⟩
  cases hstep with
  | @call _ _ f hm hf =>
    obtain ⟨hm, hne⟩ := hfree hm
    obtain ⟨hkind, hdepth, hsaved, hmid⟩ := @Op.kind_of_call i f o hf
    refine ⟨h.enter hne rfl ?_ ?_ ?_ hsaved, rfl, hmid⟩
    · rcases hkind with hkind | hkind | hkind <;> simp only [Thread.wf, map_some, hkind] <;> exact hm
    · simp [Thread.depth, Thread.at, callDepth, hdepth]
    · intro k hk
      rcases hkind with hkind | hkind | hkind <;> simp [Thread.owned, hm, hkind] at hk
  | sleep hm =>
    obtain ⟨hm, hne⟩ := hfree hm
    refine ⟨h.enter hne rfl hm rfl ?_ rfl, rfl, rfl⟩
    intro k hk
    have hcount := h.ncli
    have hone : i.ncli = 1 := ho
    have hdepth : (Thread.at m).depth = 0 := Main.depth_of_free hm
    obtain rfl : 1 = k := some.inj hk
    omega
  | yield =>
    refine ⟨h.enter (at_ne_new (by simp)) rfl rfl rfl ?_ rfl, rfl, rfl⟩
    intro k hk
    rw [h.zero_of_ncli ho]
    exact some.inj hk
  | fork | exit | wait | killHandler | closed =>
    exact ⟨h.enter_at (by simp) (h.zero_of_ncli ho) rfl, rfl, rfl⟩
  | stack | noStack | dir | noDir => exact ⟨h.enter_at (by simp) (h.owned 0 rfl) rfl, rfl, rfl⟩

/-! ### Interrupts -/

lemma Good.handler (h : Good t n i x) (hcall : t.call = none) (hirq : t.irq = some .handler)
    (hf : o.call = some f) : Good { t with call := some f } n i x := by
  obtain ⟨hkind, hdepth, hsaved, -⟩ := @Op.kind_of_call i f o hf
  have hne : t ≠ .new := Thread.ne_new (.inr (.inl (by simp [hirq])))
  have hwf := h.wf
  refine h.enter hne hcall ?_ ?_ ?_ hsaved
  · obtain ⟨m, sleep, irq, call⟩ := t
    obtain rfl : irq = some .handler := hirq
    cases sleep with
    | some => cases hwf
    | none =>
      simp only [Thread.wf, Bool.and_eq_true] at hwf ⊢
      refine ⟨hwf.1, ?_⟩
      rcases hkind with hkind | hkind | hkind <;> simp [hkind]
  · simp [Thread.depth, hcall, callDepth, hdepth]
  · intro k hk
    simp [Thread.owned, hirq] at hk

lemma Good.trapEnd (h : Good t n i x) (hcall : t.call = none) (hirq : t.irq = some .handler)
    (hzero : i.ncli = 0) (hf : f' = none ∨ f' = some .yield) :
    Good { t with irq := some .leave, call := f' } n i x := by
  have hne : t ≠ .new := Thread.ne_new (.inr (.inl (by simp [hirq])))
  have hwf := h.wf
  refine h.enter hne hcall ?_ ?_ ?_ ?_
  · obtain ⟨m, sleep, irq, call⟩ := t
    obtain rfl : irq = some .handler := hirq
    cases sleep with
    | some => cases hwf
    | none =>
      simp only [Thread.wf, Bool.and_eq_true] at hwf ⊢
      refine ⟨hwf.1, ?_⟩
      rcases hf with rfl | rfl <;> rfl
  · rcases hf with rfl | rfl <;> simp [Thread.depth, hcall, callDepth, Call.depth]
  · intro k hk
    rw [h.zero_of_ncli hzero]
    exact some.inj hk
  · rcases hf with rfl | rfl <;> rfl

/-- The return from an interrupt turns interrupts on. -/
lemma Good.leave (h : Good t n i x) (hcall : t.call = none) (hirq : t.irq = some .leave) :
    Good { t with irq := none } n { i with flag := true } x := by
  have hwf := h.wf
  have hcount := h.ncli
  obtain ⟨m, sleep, irq, call⟩ := t
  obtain rfl : call = none := hcall
  obtain rfl : irq = some .leave := hirq
  have hn : n = 0 := h.owned 0 rfl
  cases sleep with
  | some => cases hwf
  | none =>
    simp only [Thread.wf, Bool.and_eq_true] at hwf
    have hzero : i.ncli = 0 := by
      rw [hcount, hn]
      simp [Thread.depth, callDepth, Main.depth_of_interruptible hwf.1]
    have hgood : Good (.at m) n _ (nextSaved i _ x) := h.move (.gate true hzero) rfl
      (by rw [Int.add_zero]; rfl) ?_ (fun hnew => by cases hnew) rfl rfl
    · rwa [nextSaved, if_neg fun h => h.2 hzero] at hgood
    · intro k hk
      rcases owned_at m with hnone | hsome
      · cases hnone.symm.trans hk
      · rw [hn]
        exact some.inj (hsome.symm.trans hk)

lemma Good.interrupt (h : Good (.at m) n i x) (hm : m.interruptible = true) (hflag : i.flag = true) :
    Good ⟨m, none, some .handler, none⟩ n { i with flag := false } x := by
  have hzero := h.flag hflag
  have hgood : Good ⟨m, none, some .handler, none⟩ n _ (nextSaved i _ x) := h.move (.gate false hzero) ?_
    (by rw [Int.add_zero]; rfl) (fun k hk => by cases hk) ?_ rfl rfl
  · rwa [nextSaved, if_neg fun h => h.2 hzero] at hgood
  · simp [Thread.wf, hm]
  · intro hnew
    obtain rfl : m = .forkret := congrArg Thread.main hnew
    cases hm

end

end Xv6.Sched
