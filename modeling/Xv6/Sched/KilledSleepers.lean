import Xv6.Sched.Blocking
import Xv6.Sched.Sequential

/-!
# Killing a process that sleeps

`kill` sets a bit in `pending_signals` and wakes nobody up. Of the loops that wait, only that of
`sys_sleep` looks at the bit; the others look at `killed`, which a process sets itself, on its way to
user space. So a process that sleeps in one of the others stays there. A process in `sys_sleep` leaves
its loop at the next clock tick, unless another `kill` stores an old value over the bit.
-/

namespace Xv6.Blocking

open Machine Function Option

open Sched (CpuId Lock Chan Rule OwnInv SleepInv Asleep Swept)

open Kill (codeOn sigBit slot1)

open Signal (SIGKILL)

variable {y y' y₁ : State} {l : Label} {s s' : Sched.State} {c d : CpuId} {p q k : Slot} {o : Sched.Op}
  {f : Frame} {w : Word} {z z' : Sched.Sleep} {x : Option Sched.Sleep × Option Sched.Call} {n ticks0 : Word}

/-! ### Calls of the scheduler's functions -/

/-- What a call leaves on the stack. -/
def onStack : Sched.Op → Option (Option Sched.Sleep × Option Sched.Call)
  | .acquire lk => some (none, some (.acquire lk))
  | .release lk => some (none, some (.release lk))
  | .wakeup chan => some (none, some (.wakeup chan))
  | .sleep chan lk => some (some ⟨chan, some lk, .start⟩, none)
  | _ => none

lemma codeOn_eq_some (h : codeOn s c = some p) :
    (s.cpu c).cur = some p ∧ ∃ w, (s.slot p).thread = .at (.code w) := by
  rw [codeOn] at h
  split at h
  · cases h
  · rename_i hcur
    split at h
    · rename_i w ht
      cases h
      exact ⟨hcur, w, ht⟩
    · cases h

lemma codeOn_of (hcur : (s.cpu c).cur = some p) (ht : (s.slot p).thread = .at (.code w)) :
    codeOn s c = some p := by
  simp only [codeOn, hcur, ht, Sched.Thread.at]

lemma syscallOp_code (ho : onStack o = some x) :
    Sched.syscallOp (.at (.code w)) o = some ⟨.code w, x.1, none, x.2⟩ := by
  cases o with
  | acquire | release | wakeup | sleep =>
    cases ho
    rfl
  | _ => cases ho

lemma step_op (hcur : (s.cpu c).cur = some p) (ht : (s.slot p).thread = .at (.code w))
    (ho : onStack o = some x) (hlive : s.panic = none) :
    Sched.step s (.op c o) = some (Sched.setThread s p ⟨.code w, x.1, none, x.2⟩) := by
  have hop : Sched.procOp s p o = some (⟨.code w, x.1, none, x.2⟩, .none) := by
    have hmain : Sched.mainOp (.code w) o =
        (Sched.syscallOp (.at (.code w)) o).map fun t => (t, .none) := rfl
    rw [Sched.procOp.eq_def, ht]
    refine hmain.trans ?_
    rw [syscallOp_code (x := x) ho, map_some]
  rw [Sched.step, if_pos hlive, Sched.liveStep]
  simp only [hcur, hop, map_some, Sched.Act.apply_none]

/-! ### What a step can do -/

/-- The CPU that takes a step. -/
def Label.cpu : Label → CpuId
  | .sched l => l.cpu
  | .call c _ | .run c | .store c _ | .tick c | .keys c _ | .pipeclose c _ _ => c

/-- Two states that differ in the data of the waiting loops only. -/
structure SameTable (y y' : State) : Prop where
  sched : y'.sched = y.sched
  pending : y'.pending = y.pending
  frame : y'.frame = y.frame

/-- What a step does to the processes, their calls and their signals. -/
inductive Move (y : State) (l : Label) : State → Prop
  | sched (k : Sched.Label) (y' : State) (hl : l.cpu = k.cpu) (hbusy : busy y k = false)
      (h : Sched.step y.sched k = some y'.sched) (hpending : y'.pending = clearPending y k)
      (hframe : y'.frame = keepFrame y'.sched y.frame) : Move y l y'
  /-- a process makes a call of the scheduler's files; in the loop of `sys_sleep` it goes on waiting only
      when it sees no `SIGKILL` -/
  | call (c : CpuId) (p : Slot) (o : Sched.Op) (f : Frame)
      (x : Option Sched.Sleep × Option Sched.Call) (y' : State) (hl : l.cpu = c)
      (hcode : codeOn y.sched c = some p) (h : Sched.step y.sched (.op c o) = some y'.sched)
      (ho : onStack o = some x) (hpending : y'.pending = y.pending)
      (hframe : y'.frame = Function.update y.frame p (some f))
      (hloop : ∀ n ticks0, f = .sleepLoop n ticks0 →
        o = .sleep ticksChan tickslock ∧ hasBit (y.pending p) SIGKILL = false) : Move y l y'
  /-- a process goes on in its function -/
  | own (c : CpuId) (p : Slot) (x : Option Frame) (y' : State) (hcode : codeOn y.sched c = some p)
      (hsched : y'.sched = y.sched) (hpending : y'.pending = y.pending)
      (hframe : y'.frame = Function.update y.frame p x)
      (hloop : ∀ n ticks0, y.frame p ≠ some (.sleepLoop n ticks0)) : Move y l y'
  /-- the store of `kill` -/
  | raise (c : CpuId) (k : Slot) (signum : Word) (q : Slot) (old : Word) (y' : State)
      (hl : l = .run c) (hcode : codeOn y.sched c = some k) (hk : y.frame k = some (.killStore signum q old))
      (hsched : y'.sched = y.sched)
      (hpending : y'.pending = Function.update y.pending q (setBit old (sigBit signum)))
      (hframe : y'.frame = Function.update y.frame k none) : Move y l y'
  /-- a store of a process to its own `pending_signals` -/
  | mask (p : Slot) (v : Word) (y' : State) (hp : y.frame p = none) (hsched : y'.sched = y.sched)
      (hpending : y'.pending = Function.update y.pending p v) (hframe : y'.frame = y.frame) :
      Move y l y'
  | data (y' : State) (h : SameTable y y') : Move y l y'

lemma callOut_move (hsame : SameTable y y₁) (hl : l.cpu = c) (hcode : codeOn y.sched c = some p)
    (ho : onStack o = some x)
    (hloop : ∀ n ticks0, f = .sleepLoop n ticks0 → o = .sleep ticksChan tickslock ∧ hasBit (y.pending p) SIGKILL = false)
    (h : callOut y₁ c p o f = some y') : Move y l y' := by
  obtain ⟨s, hs, rfl⟩ := map_eq_some_iff.mp h
  rw [hsame.sched] at hs
  exact .call c p o f x _ hl hcode hs ho hsame.pending (by rw [← hsame.frame]; rfl) hloop

/-- A call after which the process is not in the loop of `sys_sleep`. -/
lemma callOut_move' (hsame : SameTable y y₁) (hl : l.cpu = c) (hcode : codeOn y.sched c = some p)
    (ho : onStack o = some x) (hf : ∀ n ticks0, f ≠ .sleepLoop n ticks0)
    (h : callOut y₁ c p o f = some y') : Move y l y' :=
  callOut_move hsame hl hcode ho (fun n ticks0 heq => absurd heq (hf n ticks0)) h

lemma SameTable.refl (y : State) : SameTable y y := ⟨rfl, rfl, rfl⟩

lemma SameTable.setPipe (y : State) (a : PipeId) (x : Pipes.Pipe) :
    SameTable y (setPipe y a x) := ⟨rfl, rfl, rfl⟩

lemma SameTable.input (y : State) (i : Console.Input) : SameTable y { y with input := i } :=
  ⟨rfl, rfl, rfl⟩

section

variable (hcode : codeOn y.sched c = some p)

include hcode

lemma sleepLoop_move (h : sleepLoop y c p n ticks0 = some y') : Move y (.run c) y' := by
  rw [sleepLoop] at h
  split_ifs at h with hticks hkilled hbit
  · exact callOut_move' (.refl y) rfl hcode rfl (fun _ _ h => by cases h) h
  · exact callOut_move' (.refl y) rfl hcode rfl (fun _ _ h => by cases h) h
  · exact callOut_move (.refl y) rfl hcode rfl (fun _ _ _ => ⟨rfl, by simpa using hbit⟩) h
  · exact callOut_move' (.refl y) rfl hcode rfl (fun _ _ h => by cases h) h

lemma pipewrite_move {a : PipeId} {addr : Nat → Byte} {n : Int} {i : Nat}
    (h : pipewrite y c p a addr n i = some y') : Move y (.run c) y' := by
  simp only [pipewrite] at h
  split at h
  all_goals exact callOut_move' (.setPipe y a _) rfl hcode rfl (fun _ _ h => by cases h) h

lemma piperead_move {a : PipeId} {n : Int} (h : piperead y c p a n = some y') : Move y (.run c) y' := by
  rw [piperead] at h
  split_ifs at h
  · exact callOut_move' (.refl y) rfl hcode rfl (fun _ _ h => by cases h) h
  · exact callOut_move' (.refl y) rfl hcode rfl (fun _ _ h => by cases h) h
  · exact callOut_move' (.setPipe y a _) rfl hcode rfl (fun _ _ h => by cases h) h

lemma consoleread_move {dst : List Byte} {n target : Nat}
    (h : consoleread y c p dst n target = some y') : Move y (.run c) y' := by
  simp only [consoleread] at h
  split at h
  all_goals exact callOut_move' (.input y _) rfl hcode rfl (fun _ _ h => by cases h) h

lemma frameStep_move (hf : y.frame p = some f) (h : frameStep y c p f = some y') : Move y (.run c) y' := by
  have hown : (∀ n ticks0, f ≠ .sleepLoop n ticks0) →
      ∀ n ticks0, y.frame p ≠ some (.sleepLoop n ticks0) := by
    intro hne n ticks0 heq
    exact hne n ticks0 (some.inj (hf.symm.trans heq))
  cases f with
  | killTest =>
    have hne := hown fun _ _ h => by cases h
    simp only [frameStep] at h
    split_ifs at h
    · cases h
      exact .own c p _ _ hcode rfl rfl rfl hne
    · split at h
      · cases h
        exact .own c p _ _ hcode rfl rfl rfl hne
      · cases h
        exact .own c p none _ hcode rfl rfl rfl hne
  | killLoad | sysSleep =>
    cases h
    exact .own c p _ _ hcode rfl rfl rfl (hown fun _ _ h => by cases h)
  | killStore signum r old =>
    cases h
    exact .raise c p signum r old _ rfl hcode hf rfl rfl rfl
  | sleepLoop => exact sleepLoop_move hcode h
  | pipewrite => exact pipewrite_move hcode h
  | writeSleep | release => exact callOut_move' (.refl y) rfl hcode rfl (fun _ _ h => by cases h) h
  | piperead => exact piperead_move hcode h
  | consoleread => exact consoleread_move hcode h
  | ret =>
    cases h
    exact .own c p none _ hcode rfl rfl rfl (hown fun _ _ h => by cases h)

lemma enter_move {e : Call} (hp : y.frame p = none)
    (h : enter y c p e = some y') : Move y (.call c e) y' := by
  have hne : ∀ n ticks0, y.frame p ≠ some (.sleepLoop n ticks0) := by
    intro n ticks0 heq
    cases hp.symm.trans heq
  cases e with
  | kill pid signum =>
    rw [enter, some.injEq] at h
    by_cases hlarge : BitVec.slt 32 signum = true
    · rw [if_pos hlarge] at h
      exact h ▸ .own c p none _ hcode rfl rfl rfl hne
    · rw [if_neg hlarge] at h
      exact h ▸ .own c p _ _ hcode rfl rfl rfl hne
  | sleep | pipewrite | piperead | consoleread =>
    exact callOut_move' (.refl y) rfl hcode rfl (fun _ _ h => by cases h) h

end

lemma frame_of_otherOn (h : otherOn y c = some p) : y.frame p = none := by
  obtain ⟨_, hp⟩ := filter_eq_some_iff.mp h
  rw [Bool.and_eq_true, isNone_iff_eq_none] at hp
  exact hp.2

/-- Every step is one of the moves. -/
lemma step_move (h : step y l = some y') : Move y l y' := by
  cases l with
  | sched l =>
    simp only [step] at h
    split_ifs at h with hbusy
    obtain ⟨s, hs, rfl⟩ := map_eq_some_iff.mp h
    exact .sched l _ rfl (by simpa using hbusy) hs rfl rfl
  | call =>
    simp only [step] at h
    split at h
    · cases h
    · rename_i hcode
      split at h
      · rename_i hp
        exact enter_move hcode hp h
      · cases h
  | run =>
    simp only [step] at h
    split at h
    · cases h
    · rename_i hcode
      split at h
      · cases h
      · rename_i hf
        exact frameStep_move hcode hf h
  | store c v =>
    simp only [step] at h
    split at h
    · cases h
    · rename_i p hp
      cases h
      exact .mask p v _ (frame_of_otherOn hp) rfl rfl rfl
  | tick | keys =>
    simp only [step] at h
    split_ifs at h
    cases h
    exact .data _ ⟨rfl, rfl, rfl⟩
  | pipeclose c a =>
    simp only [step] at h
    split at h
    · cases h
    · split_ifs at h
      all_goals
        cases h
        exact .data _ (.setPipe y a _)

/-! ### Processes in the middle of a call -/

/-- A step leaves a process in its code, and a call of `sleep` does not begin by itself. -/
lemma code_of_step {l : Sched.Label} (h : Sched.step s l = some s')
    (hmain : (s.slot q).thread.main = .code w) (hop : ∀ c o, l = .op c o → codeOn s c ≠ some q)
    (hnew : (s'.slot q).thread ≠ .new) :
    (s'.slot q).thread.main = .code w ∧
      ((s'.slot q).thread.sleep.isSome → (s.slot q).thread.sleep.isSome) := by
  by_cases hat : (s.cpu l.cpu).cur = some q ∧ (s.slot q).thread = .at (.code w)
  · obtain ⟨hcur, ht⟩ := hat
    have hmove := (Sched.step_move h).2
    generalize hc : l.cpu = c at hcur hmove
    cases hmove with
    | @proc p r hp hr =>
      -- such code takes no step of its own
      obtain rfl := some.inj (hcur.symm.trans hp)
      rw [Sched.procStep.eq_def, ht] at hr
      cases hr
    | @out p b e hp hcall =>
      obtain rfl := some.inj (hcur.symm.trans hp)
      rw [ht] at hcall
      cases hcall
    | op => exact absurd (codeOn_of hcur ht) (hop c _ rfl)
    | @interrupt p m hp hm =>
      obtain rfl := some.inj (hcur.symm.trans hp)
      rw [ht] at hm
      cases hm
      rw [Sched.slot_setThread, ht]
      exact ⟨rfl, id⟩
    | cpuCall hoff | cpuLeave hoff | sched hoff | schedPanic hoff | cpuHandler hoff | cpuTrapEnd hoff
    | cpuInterrupt hoff => cases hcur.symm.trans hoff
  · cases (Sched.step_rule h).thread q with
    | same heq | out b e hcall heq =>
      rw [heq]
      exact ⟨hmain, id⟩
    | new heq => exact absurd heq hnew
    | step a hcur hrule =>
      generalize (s'.slot q).thread = t' at hrule
      cases hrule with
      | call => exact ⟨hmain, id⟩
      | sleep z z' f a hcall hirq hz =>
        rw [hz]
        exact ⟨hmain, fun _ => rfl⟩
      | main t' a ht | interrupt ht =>
        rw [hmain] at ht
        exact absurd ⟨hcur, ht⟩ hat
      | handler | trapEnd | leave => exact ⟨hmain, id⟩

/-- A process that is in one of the functions here is in its code, and sleeps in `sys_sleep` on
    `&ticks`. -/
structure Inv (y : State) : Prop where
  own : OwnInv y.sched
  sleep : SleepInv y.sched
  code : ∀ q f, y.frame q = some f → ∃ w, (y.sched.slot q).thread.main = .code w
  chan : ∀ q n ticks0, y.frame q = some (.sleepLoop n ticks0) →
    ∀ z, (y.sched.slot q).thread.sleep = some z → z.chan = ticksChan

lemma Move.rule (h : Move y l y') : y'.sched = y.sched ∨ ∃ d, Rule y.sched d y'.sched := by
  cases h with
  | sched k _ _ _ hstep | call c p o f x _ _ _ hstep => exact .inr ⟨_, Sched.step_rule hstep⟩
  | own c p x _ _ hsched | raise c k signum q old _ _ _ _ hsched | mask p v _ _ hsched =>
    exact .inl hsched
  | data _ hsame => exact .inl hsame.sched

/-- The slot of another process, and its call, when `p` makes a call. -/
lemma slot_of_call (hcode : codeOn s c = some p) (h : Sched.step s (.op c o) = some s')
    (ho : onStack o = some x) : ∃ w, s' = Sched.setThread s p ⟨.code w, x.1, none, x.2⟩ := by
  obtain ⟨hcur, w, ht⟩ := codeOn_eq_some hcode
  rw [step_op hcur ht ho (Sched.step_move h).1] at h
  exact ⟨w, (some.inj h).symm⟩

lemma not_op_of_busy {l : Sched.Label} (hbusy : busy y l = false) (hq : y.frame q = some f) :
    ∀ c o, l = .op c o → codeOn y.sched c ≠ some q := by
  rintro c o rfl hcode
  simp [busy, hcode, hq] at hbusy

lemma keepFrame_eq_some {frame : Slot → Option Frame} (h : keepFrame s frame q = some f) :
    (s.slot q).thread ≠ .new ∧ frame q = some f := by
  rw [keepFrame] at h
  split_ifs at h with hnew
  exact ⟨hnew, h⟩

/-- The process in slot `x` is in its code, and sleeps in `sys_sleep` on `&ticks`. -/
def InCode (x : Sched.Proc) (f : Frame) : Prop :=
  (∃ w, x.thread.main = .code w) ∧
    ∀ n ticks0 z, f = .sleepLoop n ticks0 → x.thread.sleep = some z → z.chan = ticksChan

lemma Inv.inCode (hinv : Inv y) (hq : y.frame q = some f) : InCode (y.sched.slot q) f := by
  refine ⟨hinv.code q f hq, ?_⟩
  rintro n ticks0 z rfl hz
  exact hinv.chan q n ticks0 hq z hz

lemma Inv.inCode_move (hinv : Inv y) (h : Move y l y') (hq : y'.frame q = some f) :
    InCode (y'.sched.slot q) f := by
  cases h with
  | sched k _ _ hbusy hstep _ hframe =>
    rw [hframe] at hq
    obtain ⟨hnew, hq⟩ := keepFrame_eq_some hq
    obtain ⟨w, hw⟩ := hinv.code q f hq
    obtain ⟨hmain, hkeep⟩ := code_of_step hstep hw (not_op_of_busy hbusy hq) hnew
    refine ⟨⟨w, hmain⟩, ?_⟩
    rintro n ticks0 z' rfl hz'
    obtain ⟨z, hz⟩ := isSome_iff_exists.mp (hkeep (by rw [hz']; rfl))
    rw [((Sched.step_rule hstep).sleepKeep hinv.sleep hz hz').chan]
    exact hinv.chan q n ticks0 hq z hz
  | call c p o g x _ _ hcode hstep ho _ hframe hloop =>
    obtain ⟨w, hs⟩ := slot_of_call hcode hstep ho
    by_cases hqp : q = p
    · rw [hframe, hqp, update_self] at hq
      rw [InCode, hs, hqp, Sched.thread_setThread]
      refine ⟨⟨w, rfl⟩, ?_⟩
      rintro n ticks0 z rfl hz
      obtain ⟨rfl, _⟩ := hloop n ticks0 (some.inj hq)
      cases ho
      cases hz
      rfl
    · rw [hframe, update_of_ne hqp] at hq
      rw [hs, Sched.slot_setThread_of_ne _ _ hqp]
      exact hinv.inCode hq
  | own c p x _ hcode hsched _ hframe | raise c p _ _ _ _ _ hcode _ hsched _ hframe =>
    by_cases hqp : q = p
    · obtain ⟨_, w, ht⟩ := codeOn_eq_some hcode
      rw [InCode, hsched, hqp, ht]
      refine ⟨⟨w, rfl⟩, ?_⟩
      rintro n ticks0 z rfl hz
      cases hz
    · rw [hframe, update_of_ne hqp] at hq
      rw [hsched]
      exact hinv.inCode hq
  | mask p v _ _ hsched _ hframe =>
    rw [hframe] at hq
    rw [hsched]
    exact hinv.inCode hq
  | data _ hsame =>
    rw [hsame.frame] at hq
    rw [hsame.sched]
    exact hinv.inCode hq

lemma Inv.move (hinv : Inv y) (h : Move y l y') : Inv y' where
  own := by
    rcases h.rule with heq | ⟨d, hrule⟩
    · rw [heq]
      exact hinv.own
    · exact hinv.own.rule hrule
  sleep := by
    rcases h.rule with heq | ⟨d, hrule⟩
    · rw [heq]
      exact hinv.sleep
    · exact hinv.sleep.rule hrule
  code := fun _ _ hq => (hinv.inCode_move h hq).1
  chan := fun _ _ _ hq _ hz => (hinv.inCode_move h hq).2 _ _ _ rfl hz

lemma inv_boot (data : PipeId → Fin Pipes.PIPESIZE → Byte) : Inv (boot data) where
  own := Sched.ownInv_boot
  sleep := Sched.sleepInv_boot
  code := fun q f hq => by cases hq
  chan := fun q n ticks0 hq => by cases hq

/-! ### A process that has been killed in `sys_sleep` -/

/-- A process, neither about to be freed nor exiting. -/
def Alive (x : Sched.Proc) : Prop := x.state.stage = .live ∧ x.state.dying = false

lemma alive_of_rule (hown : OwnInv s) (h : Rule s d s') (hmain : (s.slot p).thread.main = .code w)
    (halive : Alive (s.slot p)) : Alive (s'.slot p) := by
  rw [Alive] at halive ⊢
  rcases h.state hown p with heq | hedge
  · rwa [heq]
  · generalize (s.slot p).state = u at hedge halive
    generalize (s'.slot p).state = v at hedge
    cases hedge with
    | exit hcur ht =>
      rw [ht] at hmain
      cases hmain
    | alloc | drop | start | zombie | reap | free => exact absurd halive (by decide)
    | _ => decide

lemma clearPending_cases (y : State) (l : Sched.Label) :
    clearPending y l = y.pending ∨ ∃ r np, (y.sched.slot r).thread.main = .allocFound np ∧
      clearPending y l = update y.pending np 0 := by
  cases l with
  | op | interrupt => exact .inl rfl
  | run =>
    rw [clearPending, Kill.clearPending]
    split
    · exact .inl rfl
    · rename_i r hcur
      split
      · rename_i np ht
        exact .inr ⟨r, np, by rw [ht], rfl⟩
      · exact .inl rfl

lemma clearPending_of_alive {l : Sched.Label} (hown : OwnInv y.sched)
    (halive : Alive (y.sched.slot p)) : clearPending y l p = y.pending p := by
  rcases clearPending_cases y l with h | ⟨r, np, hr, h⟩
  · rw [h]
  · rw [h]
    refine update_of_ne ?_ _ _
    rintro rfl
    -- the slot that `allocproc` has found is `EMBRYO`
    have hstate := hown.state r p .embryo (by rw [hr]; rfl)
    rw [Alive, hstate] at halive
    cases halive.1

/-- In the loop of `sys_sleep`, with a `SIGKILL` that came after its last call of `sleep`. -/
structure Marked (y : State) (p : Slot) : Prop where
  loop : ∃ n ticks0, y.frame p = some (.sleepLoop n ticks0)
  bit : hasBit (y.pending p) SIGKILL = true
  alive : Alive (y.sched.slot p)
  past : ∀ z, (y.sched.slot p).thread.sleep = some z → z.pc.past = true

/-- In the loop of `sys_sleep`. -/
def waiting (y : State) (p : Slot) : Bool :=
  match y.frame p with
  | some (.sleepLoop _ _) => true
  | _ => false

lemma waiting_iff : waiting y p = true ↔ ∃ n ticks0, y.frame p = some (.sleepLoop n ticks0) := by
  rw [waiting]
  split
  · rename_i n ticks0 hp
    exact ⟨fun _ => ⟨n, ticks0, hp⟩, fun _ => rfl⟩
  · rename_i hne
    constructor
    · intro h
      cases h
    · rintro ⟨n, ticks0, hp⟩
      exact absurd hp (hne n ticks0)

/-- The call of `kill` that the process on a CPU is about to end with its store. -/
def storeAt (y : State) : Label → Option (Word × Slot × Word)
  | .run c =>
    match (codeOn y.sched c).bind y.frame with
    | some (.killStore signum q old) => some (signum, q, old)
    | _ => none
  | _ => none

/-- A step that is a store of `kill` finds no bit, other than its own, that its load did not see. -/
def NoStale (y : State) (l : Label) : Prop :=
  ∀ x ∈ storeAt y l, Included (y.pending x.2.1) (setBit x.2.2 (sigBit x.1))

instance (y : State) (l : Label) : Decidable (NoStale y l) :=
  decidable_of_iff
    ((storeAt y l).all fun x => decide (Included (y.pending x.2.1) (setBit x.2.2 (sigBit x.1))))
    (by simp [NoStale, Option.all_eq_true])

lemma storeAt_run {signum old : Word} (hcode : codeOn y.sched c = some k)
    (hk : y.frame k = some (.killStore signum q old)) : storeAt y (.run c) = some (signum, q, old) := by
  simp only [storeAt, hcode, bind_some, hk]

lemma storeAt_eq_some {x : Word × Slot × Word} (h : storeAt y l = some x) :
    ∃ c k, l = .run c ∧ codeOn y.sched c = some k ∧ y.frame k = some (.killStore x.1 x.2.1 x.2.2) := by
  cases l with
  | run c =>
    simp only [storeAt] at h
    split at h
    · rename_i hbind
      obtain ⟨k, hcode, hk⟩ := bind_eq_some_iff.mp hbind
      cases h
      exact ⟨c, k, rfl, hcode, hk⟩
    · cases h
  | _ => cases h

lemma Marked.keep (hm : Marked y p) (hframe : y'.frame p = y.frame p)
    (hbit : hasBit (y'.pending p) SIGKILL = true) (hslot : y'.sched.slot p = y.sched.slot p) :
    Marked y' p where
  loop := by rw [hframe]; exact hm.loop
  bit := hbit
  alive := by rw [hslot]; exact hm.alive
  past := by rw [hslot]; exact hm.past

/-- A step of the scheduler's machine. -/
lemma Marked.sched (hm : Marked y p) (hinv : Inv y) {k : Sched.Label} (hbusy : busy y k = false)
    (hstep : Sched.step y.sched k = some y'.sched) (hpending : y'.pending = clearPending y k)
    (hframe : y'.frame = keepFrame y'.sched y.frame) (hwait : waiting y' p = true) : Marked y' p := by
  obtain ⟨n, ticks0, hp⟩ := hm.loop
  obtain ⟨w, hw⟩ := hinv.code p _ hp
  obtain ⟨n', ticks0', hp'⟩ := waiting_iff.mp hwait
  have hnew : (y'.sched.slot p).thread ≠ .new := by
    rw [hframe] at hp'
    exact (keepFrame_eq_some hp').1
  have hrule := Sched.step_rule hstep
  refine ⟨⟨n', ticks0', hp'⟩, ?_, alive_of_rule hinv.own hrule hw hm.alive, fun z' hz' => ?_⟩
  · rw [hpending, clearPending_of_alive hinv.own hm.alive]
    exact hm.bit
  · have hsleep := (code_of_step hstep hw (not_op_of_busy hbusy hp) hnew).2 (by rw [hz']; rfl)
    obtain ⟨z, hz⟩ := isSome_iff_exists.mp hsleep
    exact (hrule.sleepKeep hinv.sleep hz hz').past (hm.past z hz)

lemma Marked.move (hm : Marked y p) (hinv : Inv y) (h : Move y l y') (hok : NoStale y l)
    (hwait : waiting y' p = true) : Marked y' p := by
  obtain ⟨n, ticks0, hp⟩ := hm.loop
  cases h with
  | sched k _ _ hbusy hstep hpending hframe => exact hm.sched hinv hbusy hstep hpending hframe hwait
  | call c r o f x _ _ hcode hstep ho hpending hframe hloop =>
    have hpr : p ≠ r := by
      rintro rfl
      -- the loop goes on only without the bit
      obtain ⟨n', ticks0', hp'⟩ := waiting_iff.mp hwait
      rw [hframe, update_self] at hp'
      have hbit := (hloop n' ticks0' (some.inj hp')).2
      cases hm.bit.symm.trans hbit
    obtain ⟨w', hs⟩ := slot_of_call hcode hstep ho
    apply hm.keep
    · rw [hframe, update_of_ne hpr]
    · rw [hpending]
      exact hm.bit
    · rw [hs, Sched.slot_setThread_of_ne _ _ hpr]
  | own c r x _ hcode hsched hpending hframe hloop =>
    have hpr : p ≠ r := by
      rintro rfl
      exact hloop n ticks0 hp
    apply hm.keep
    · rw [hframe, update_of_ne hpr]
    · rw [hpending]
      exact hm.bit
    · rw [hsched]
  | raise c k signum q old _ hl hcode hk hsched hpending hframe =>
    have hpk : p ≠ k := by
      rintro rfl
      cases hp.symm.trans hk
    apply hm.keep
    · rw [hframe, update_of_ne hpk]
    · rw [hpending]
      by_cases hpq : p = q
      · subst hl hpq
        rw [update_self]
        exact hok _ (storeAt_run hcode hk) SIGKILL hm.bit
      · rw [update_of_ne hpq]
        exact hm.bit
    · rw [hsched]
  | mask r v _ hr hsched hpending hframe =>
    have hpr : p ≠ r := by
      rintro rfl
      cases hr.symm.trans hp
    apply hm.keep
    · rw [hframe]
    · rw [hpending, update_of_ne hpr]
      exact hm.bit
    · rw [hsched]
  | data _ hsame =>
    apply hm.keep
    · rw [hsame.frame]
    · rw [hsame.pending]
      exact hm.bit
    · rw [hsame.sched]

/-! ### The next clock tick -/

/-- Not in the `sleep` of its channel, or woken up there. -/
lemma not_asleep_of_rule (hown : OwnInv s) (hsleep : SleepInv s) (h : Rule s d s')
    (hpast : ∀ z, (s.slot p).thread.sleep = some z → z.pc.past = true)
    (hpast' : ∀ z, (s'.slot p).thread.sleep = some z → z.pc.past = true)
    (hawake : ¬ Asleep (s.slot p)) : ¬ Asleep (s'.slot p) := by
  intro hasleep
  cases hz' : (s'.slot p).thread.sleep with
  | none =>
    rw [Asleep, hz'] at hasleep
    exact hasleep
  | some z' =>
    have hstart : z'.pc ≠ .start := by
      intro hpc
      have hp := hpast' z' hz'
      rw [hpc] at hp
      cases hp
    obtain ⟨z, hz⟩ := h.sleep_of_sleep hz' hstart
    exact (h.awake hown hsleep hz' ⟨⟨z, hz, hpast z hz⟩, hawake⟩).2 hasleep

/-- How far a `wakeup` on a CPU has come with a process that does not go to sleep again. -/
def Sweeping (s : Sched.State) (c : CpuId) (chan : Chan) (p : Slot) : Prop :=
  ∃ g, s.call c = some g ∧ g.sweeps true chan = true ∧
    Swept p True (¬ Asleep (s.slot p)) (s.slot p).state g

lemma not_negSleeping_of_rule (hown : OwnInv s) (h : Rule s d s')
    (hpast : ∀ z, (s.slot p).thread.sleep = some z → z.pc.past = true)
    (hv : (s.slot p).state ≠ .negSleeping) : (s'.slot p).state ≠ .negSleeping := by
  intro hv'
  rcases h.state hown p with heq | hedge
  · exact hv (heq.symm.trans hv')
  · rw [hv'] at hedge
    generalize (s.slot p).state = u at hedge
    cases hedge with
    | sleep z hcur hz hpc =>
      have hp := hpast z hz
      rw [hpc] at hp
      cases hp

lemma Sweeping.rule {chan : Chan} (hsweep : Sweeping s c chan p) (hown : OwnInv s) (hsleep : SleepInv s)
    (h : Rule s d s') (hpast : ∀ z, (s.slot p).thread.sleep = some z → z.pc.past = true)
    (hpast' : ∀ z, (s'.slot p).thread.sleep = some z → z.pc.past = true)
    (hchan : ∀ z, (s.slot p).thread.sleep = some z → z.chan = chan)
    (hcall : (s'.call c).any (Sched.Call.sweeps true chan) = true) : Sweeping s' c chan p := by
  obtain ⟨g, hg, hfam, hswept⟩ := hsweep
  have hawake := not_asleep_of_rule hown hsleep h hpast hpast'
  cases h.callMove hg (Sched.Call.switches_of_sweeps hfam) with
  | same hsame =>
    refine ⟨g, hsame, hfam, hswept.mono id hawake fun _ hv => .inl ?_⟩
    exact not_negSleeping_of_rule hown h hpast hv
  | lost hlost =>
    rw [hlost] at hcall
    cases hcall
  | step po g' a i hd hstep hg' hstate =>
    have hnext : Sched.SweptNext p True (¬ Asleep (s'.slot p)) (s'.slot p).state true chan g' := by
      refine hswept.step hfam hstep (hstate p) id hawake (fun _ => ⟨trivial, ?_⟩) ?_
      · intro hne hasleep
        cases hz : (s.slot p).thread.sleep with
        | none =>
          rw [Asleep, hz] at hasleep
          exact hasleep
        | some z =>
          rw [Asleep.of_sleep hz] at hasleep
          exact hne (((hsleep p z hz).2 (.inr hasleep.1)).trans (hchan z hz))
      · intro _ hneg hne hasleep
        cases hz : (s'.slot p).thread.sleep with
        | none =>
          rw [Asleep, hz] at hasleep
          exact hasleep
        | some =>
          rw [Asleep.of_sleep hz] at hasleep
          exact hasleep.2.elim hneg hne
    cases g' with
    | none =>
      rw [hg'] at hcall
      cases hcall
    | some g' => exact ⟨g', hg', hnext.1, hnext.2⟩

/-- What has happened since `p` went to sleep in `sys_sleep`: a `kill` with `SIGKILL` has returned 0; then
    CPU `c` has called `wakeup(&ticks)`; then that call has returned. -/
inductive Phase
  | idle
  | killed
  | waking
  | woken
  deriving DecidableEq

/-- A process to watch, and a CPU. -/
structure Watch where
  p : Slot
  c : CpuId

/-- The phase after a step. It ends when the process leaves its loop. -/
def Watch.next (w : Watch) (y : State) (l : Label) (y' : State) (f : Phase) : Phase :=
  if waiting y' w.p then
    match f with
    | .idle =>
      if (storeAt y l).any (fun x => x.2.1 = w.p && sigBit x.1 = SIGKILL) ∧
          Asleep (y.sched.slot w.p) then .killed
      else .idle
    | .killed => if y'.sched.call w.c = some (.wakeup ticksChan) then .waking else .killed
    | .waking =>
      if (y'.sched.call w.c).any (Sched.Call.sweeps true ticksChan) then .waking
      else if y.sched.call w.c = some .wakeupPop then .woken
      else .killed
    | .woken => .woken
  else .idle

structure WatchInv (w : Watch) (y : State) (f : Phase) : Prop where
  inv : Inv y
  marked : f ≠ .idle → Marked y w.p
  waking : f = .waking → Sweeping y.sched w.c ticksChan w.p
  woken : f = .woken → ¬ Asleep (y.sched.slot w.p)

variable {g : Watch} {f : Phase}

lemma waiting_of_next (h : g.next y l y' f ≠ .idle) : waiting y' g.p = true := by
  by_contra hwait
  exact h (if_neg hwait)

/-- A process that sleeps is past the `cas` in `sleep`, and alive. -/
lemma past_of_asleep {x : Sched.Proc} (h : Asleep x) :
    Alive x ∧ ∀ z, x.thread.sleep = some z → z.pc.past = true := by
  cases hz : x.thread.sleep with
  | none =>
    rw [Asleep, hz] at h
    exact h.elim
  | some =>
    obtain ⟨hpc, hstate⟩ := (Asleep.of_sleep hz).mp h
    refine ⟨?_, fun z' hz' => ?_⟩
    · rw [Alive]
      rcases hstate with hstate | hstate <;> rw [hstate] <;> decide
    · cases hz'
      rw [hpc]
      rfl

/-- The store of `kill` at a process that sleeps in `sys_sleep`. -/
lemma marked_of_kill (h : step y l = some y') (hasleep : Asleep (y.sched.slot p))
    (hkill : (storeAt y l).any (fun x => x.2.1 = p && sigBit x.1 = SIGKILL) = true)
    (hwait : waiting y' p = true) : Marked y' p := by
  cases hstore : storeAt y l with
  | none =>
    rw [hstore] at hkill
    cases hkill
  | some x =>
    obtain ⟨signum, q, old⟩ := x
    rw [hstore, any_some, Bool.and_eq_true, decide_eq_true_eq, decide_eq_true_eq] at hkill
    obtain ⟨rfl, hbit⟩ := hkill
    obtain ⟨c, k, rfl, hcode, hk⟩ := storeAt_eq_some hstore
    simp only [step, hcode, hk, frameStep] at h
    cases h
    obtain ⟨halive, hpast⟩ := past_of_asleep hasleep
    refine ⟨waiting_iff.mp hwait, ?_, halive, hpast⟩
    have hpending : update y.pending q (setBit old (sigBit signum)) q =
        setBit old (sigBit signum) := update_self _ _ _
    dsimp only
    rw [hpending, ← hbit]
    exact hasBit_setBit_self _ _

lemma WatchInv.marked_step (hinv : WatchInv g y f) (hok : NoStale y l) (h : step y l = some y')
    (hf : g.next y l y' f ≠ .idle) : Marked y' g.p := by
  have hwait := waiting_of_next hf
  by_cases hidle : f = .idle
  · subst hidle
    rw [Watch.next, if_pos hwait] at hf
    by_cases hkill : (storeAt y l).any (fun x => x.2.1 = g.p && sigBit x.1 = SIGKILL) = true ∧
        Asleep (y.sched.slot g.p)
    · exact marked_of_kill h hkill.2 hkill.1 hwait
    · exact absurd (if_neg hkill) hf
  · exact (hinv.marked hidle).move hinv.inv (step_move h) hok hwait

/-- A process that has been woken up stays awake. -/
lemma WatchInv.awake_step (hinv : WatchInv g y f) (hf : f ≠ .idle) (hmove : Move y l y')
    (hmark : Marked y' g.p) (hawake : ¬ Asleep (y.sched.slot g.p)) : ¬ Asleep (y'.sched.slot g.p) := by
  rcases hmove.rule with heq | ⟨d, hrule⟩
  · rwa [heq]
  · exact not_asleep_of_rule hinv.inv.own hinv.inv.sleep hrule (hinv.marked hf).past hmark.past hawake

lemma WatchInv.sweeping_step (hinv : WatchInv g y .waking) (hmove : Move y l y') (hmark : Marked y' g.p)
    (hcall : (y'.sched.call g.c).any (Sched.Call.sweeps true ticksChan) = true) :
    Sweeping y'.sched g.c ticksChan g.p := by
  have hm := hinv.marked (by decide)
  rcases hmove.rule with heq | ⟨d, hrule⟩
  · rw [heq]
    exact hinv.waking rfl
  · obtain ⟨n, ticks0, hp⟩ := hm.loop
    exact (hinv.waking rfl).rule hinv.inv.own hinv.inv.sleep hrule hm.past hmark.past
      (hinv.inv.chan g.p n ticks0 hp) hcall

lemma WatchInv.step (hinv : WatchInv g y f) (hok : NoStale y l) (h : step y l = some y') :
    WatchInv g y' (g.next y l y' f) where
  inv := hinv.inv.move (step_move h)
  marked := hinv.marked_step hok h
  waking := by
    intro hf
    have hne : g.next y l y' f ≠ .idle := by rw [hf]; decide
    have hmark := hinv.marked_step hok h hne
    rw [Watch.next.eq_def, if_pos (waiting_of_next hne)] at hf
    cases f with
    | idle =>
      dsimp only at hf
      split_ifs at hf
    | killed =>
      dsimp only at hf
      split_ifs at hf with hcall
      exact ⟨_, hcall, by simp [Sched.Call.sweeps], trivial⟩
    | waking =>
      dsimp only at hf
      split_ifs at hf with hcall
      exact hinv.sweeping_step (step_move h) hmark hcall
    | woken => cases hf
  woken := by
    intro hf
    have hne : g.next y l y' f ≠ .idle := by rw [hf]; decide
    have hmark := hinv.marked_step hok h hne
    rw [Watch.next.eq_def, if_pos (waiting_of_next hne)] at hf
    cases f with
    | idle | killed =>
      dsimp only at hf
      split_ifs at hf
    | waking =>
      dsimp only at hf
      split_ifs at hf with hcall hpop
      obtain ⟨u, hu, _, hswept⟩ := hinv.waking rfl
      obtain rfl := some.inj (hpop.symm.trans hu)
      exact hinv.awake_step (by decide) (step_move h) hmark hswept
    | woken => exact hinv.awake_step (by decide) (step_move h) hmark (hinv.woken rfl)

lemma watchInv_boot (data : PipeId → Fin Pipes.PIPESIZE → Byte) : WatchInv g (boot data) .idle where
  inv := inv_boot data
  marked := fun h => absurd rfl h
  waking := fun h => by cases h
  woken := fun h => by cases h

/-! ### Leaving the loop -/

/-- The loop of `sys_sleep` ends when it sees the bit. -/
lemma Marked.leaves (hm : Marked y p) (hcode : codeOn y.sched c = some p) (hlive : y.sched.panic = none) :
    ∃ y' v, Blocking.step y (.run c) = some y' ∧ y'.frame p = some (.ret v) := by
  obtain ⟨n, ticks0, hp⟩ := hm.loop
  obtain ⟨hcur, w, ht⟩ := codeOn_eq_some hcode
  have hout : ∀ v, ∃ y' v', callOut y c p (.release tickslock) (.ret v) = some y' ∧
      y'.frame p = some (.ret v') := by
    intro v
    rw [callOut, step_op hcur ht rfl hlive]
    exact ⟨_, v, rfl, update_self _ _ _⟩
  simp only [Blocking.step, hcode, hp, frameStep, sleepLoop, hm.bit]
  split_ifs
  · exact hout _
  · exact hout _
  · exact hout _

/-- A process that was asleep in `sys_sleep` when `kill` stored `SIGKILL` there leaves its loop as soon as it
    runs, and it is awake when a `wakeup(&ticks)` called since then has returned. -/
theorem sleeper_interrupted {data : PipeId → Fin Pipes.PIPESIZE → Byte}
    (hrun : Reach (withHistory step g.next) (fun x l => NoStale x.1 l) (boot data, .idle) (y, f))
    (hf : f ≠ .idle) :
    (f = .woken → ¬ Asleep (y.sched.slot g.p)) ∧
      ∀ c, codeOn y.sched c = some g.p → y.sched.panic = none →
        ∃ y' v, step y (.run c) = some y' ∧ y'.frame g.p = some (.ret v) := by
  have hinv : WatchInv g y f := by
    refine hrun.invariant (I := fun x => WatchInv g x.1 x.2) (watchInv_boot data) ?_
    intro x l x' hinv hok hstep
    obtain ⟨hst, hnext⟩ := withHistory_eq_some.mp hstep
    rw [hnext]
    exact hinv.step hok hst
  exact ⟨hinv.woken, fun _ hcode hlive => (hinv.marked hf).leaves hcode hlive⟩

def runs (c : CpuId) (n : Nat) : List Label := List.replicate n (.sched (.run c))

/-- The first process forks, and its child gets on CPU 1. -/
def forkRun : List Label :=
  runs 0 8 ++ [.sched (.op 0 .fork)] ++ runs 0 9 ++
    [.sched (.op 0 (.alloc true)), .sched (.op 0 (.alloc true))] ++ runs 0 5 ++ runs 1 9

/-- The child calls `kill` for its parent, up to the store. -/
def killRun : List Label := [.call 1 (.kill 2 9), .run 1, .run 1]

/-- The first process calls `sleep(100)` and goes to sleep. -/
def sleepRun : List Label :=
  [.call 0 (.sleep 100)] ++ runs 0 3 ++ [.run 0, .run 0] ++ runs 0 11

/-- A timer interrupt on CPU 2. -/
def tickRun : List Label :=
  [.sched (.run 2), .sched (.interrupt 2), .sched (.op 2 (.acquire tickslock))] ++ runs 2 3 ++
    [.tick 2, .sched (.op 2 (.wakeup ticksChan))] ++ runs 2 68 ++
    [.sched (.op 2 (.release tickslock))] ++ runs 2 3

/-- After the tick the first process gets back into its loop and leaves it. -/
theorem sleeper_interrupted_at_tick : ∃ y,
    Reach (withHistory step (Watch.next ⟨initproc, 2⟩)) (fun x l => NoStale x.1 l)
      (boot fun _ _ => 0, .idle) (y, .woken) ∧
    ¬ Asleep (y.sched.slot initproc) ∧ codeOn y.sched 0 = some initproc ∧
    ∃ y' v, step y (.run 0) = some y' ∧ y'.frame initproc = some (.ret v) := by
  have hexec : ∃ x : State × Phase,
      Reach (withHistory step (Watch.next ⟨initproc, 2⟩)) (fun x l => NoStale x.1 l)
        (boot fun _ _ => 0, .idle) x ∧
      (codeOn x.1.sched 0 = some initproc ∧ x.1.sched.panic = none) ∧ x.2 = .woken :=
    Reach.exists_of_exec
      (forkRun ++ sleepRun ++ killRun ++ [.run 1] ++ tickRun ++ runs 0 80) (by decide +kernel)
  obtain ⟨⟨y, f⟩, hrun, ⟨hcode, hlive⟩, hwoken⟩ := hexec
  cases hwoken
  obtain ⟨hawake, hleaves⟩ := sleeper_interrupted hrun (by decide)
  exact ⟨y, hrun, hawake rfl, hcode, hleaves 0 hcode hlive⟩

/-! ### A reader that is not interrupted -/

/-- A step of another CPU. -/
lemma Move.cpu (h : Move y l y') (hc : c ≠ l.cpu) : y'.sched.cpu c = y.sched.cpu c := by
  cases h with
  | sched k _ hl _ hstep | call d p o f x _ hl _ hstep => exact (Sched.step_rule hstep).cpu_ne (hl ▸ hc)
  | own d p x _ _ hsched | raise d k signum q old _ _ _ _ hsched | mask p v _ _ hsched => rw [hsched]
  | data _ hsame => rw [hsame.sched]

/-- Only the first two CPUs take steps. -/
def OnTwo (_ : State) (l : Label) : Prop := l.cpu < 2

instance (y : State) (l : Label) : Decidable (OnTwo y l) := inferInstanceAs (Decidable (_ < _))

lemma call_of_onTwo {data : PipeId → Fin Pipes.PIPESIZE → Byte}
    (h : Reach step OnTwo (boot data) y) (hc : 2 ≤ c) : y.sched.call c = none := by
  have hcpu : y.sched.cpu c = Sched.boot.cpu c := by
    refine h.invariant (I := fun y => y.sched.cpu c = Sched.boot.cpu c) rfl ?_
    intro x l x' hx hok hstep
    rw [(step_move hstep).cpu (Nat.ne_of_gt (Nat.lt_of_lt_of_le hok hc)), hx]
  rw [Sched.State.call, hcpu]
  rfl

def reading (y : State) (p : Slot) : Bool :=
  match y.frame p with
  | some (.piperead _ _) => true
  | _ => false

/-- The first process reads from an empty pipe and goes to sleep. -/
def readRun : List Label := [.call 0 (.piperead 0 1)] ++ runs 0 3 ++ [.run 0] ++ runs 0 11

/-- The child writes no bytes to the pipe, and the first process gets back into its loop. -/
def emptyWriteRun : List Label :=
  [.call 1 (.pipewrite 0 (fun _ => 0) 0)] ++ runs 1 3 ++ [.run 1] ++ runs 1 68 ++ [.run 1] ++
    runs 1 3 ++ [.run 1] ++ runs 0 80

/-- A process sleeps in `piperead` when `kill` stores `SIGKILL` there and returns 0. Then it is `SLEEPING` and no
    CPU is in a `wakeup`; and when it runs again, after somebody has written nothing, it calls `sleep` again. -/
theorem killed_reader_sleeps_again : ∃ y y' x x',
    Reach step Always (boot fun _ _ => 0) y ∧
    (reading y initproc ∧ Asleep (y.sched.slot initproc)) ∧ storeAt y (.run 1) = some (9, initproc, 0) ∧
    step y (.run 1) = some y' ∧ y'.ret slot1 = 0 ∧
    ((y'.sched.slot initproc).state = .sleeping ∧ ∀ c, y'.sched.call c = none) ∧
    Reach step Always y' x ∧ (codeOn x.sched 0 = some initproc ∧ hasBit (x.pending initproc) SIGKILL) ∧
    step x (.run 0) = some x' ∧ reading x' initproc ∧
      (x'.sched.slot initproc).thread.sleep = some ⟨nreadChan 0, some (pipeLock 0), .start⟩ := by
  obtain ⟨y, hy, ⟨hread, hasleep, hstate⟩, hstore, hcode, hidle⟩ : ∃ y,
      exec (guarded step OnTwo) (boot fun _ _ => 0) (forkRun ++ readRun ++ killRun) = some y ∧
      (reading y initproc ∧ Asleep (y.sched.slot initproc) ∧
        (y.sched.slot initproc).state = .sleeping) ∧
      storeAt y (.run 1) = some (9, initproc, 0) ∧ codeOn y.sched 1 = some slot1 ∧
      y.sched.call 0 = none ∧ y.sched.call 1 = none := exists_exec (by decide +kernel)
  obtain ⟨x, hx, hresumed⟩ : ∃ x,
      exec (guarded step OnTwo) (boot fun _ _ => 0)
        (forkRun ++ readRun ++ killRun ++ .run 1 :: emptyWriteRun) = some x ∧
      codeOn x.sched 0 = some initproc ∧ hasBit (x.pending initproc) SIGKILL :=
    exists_exec (by decide +kernel)
  obtain ⟨x', hx', hagain⟩ : ∃ x',
      exec (guarded step OnTwo) (boot fun _ _ => 0)
        (forkRun ++ readRun ++ killRun ++ .run 1 :: emptyWriteRun ++ [.run 0]) = some x' ∧
      reading x' initproc ∧ (x'.sched.slot initproc).thread.sleep =
        some ⟨nreadChan 0, some (pipeLock 0), .start⟩ := exists_exec (by decide +kernel)
  rw [exec_append, hx, Option.bind_some, exec_cons] at hx'
  obtain ⟨_, hstep', hlast⟩ := Option.bind_eq_some_iff.mp hx'
  cases hlast
  rw [exec_append, hy, Option.bind_some, exec_cons] at hx
  obtain ⟨y', hstep, hrest⟩ := Option.bind_eq_some_iff.mp hx
  have hkill := step_of_guarded hstep
  obtain ⟨c, k, hl, hk, hframe⟩ := storeAt_eq_some hstore
  cases hl
  obtain rfl := Option.some.inj (hcode.symm.trans hk)
  have hy' := hkill
  simp only [step, hcode, hframe, frameStep, Option.some.injEq] at hy'
  refine ⟨y, y', x, x', (Reach.of_exec hy).mono fun _ _ _ => trivial, ⟨hread, hasleep⟩, hstore, hkill, ?_,
    ⟨?_, fun c => ?_⟩, (Reach.of_exec hrest).mono fun _ _ _ => trivial, hresumed,
    step_of_guarded hstep', hagain⟩
  · have hret : Function.update y.ret slot1 0 slot1 = 0 := Function.update_self _ _ _
    rw [← hy']
    exact hret
  · rw [← hy']
    exact hstate
  · rw [← hy']
    have hcall : y.sched.call c = none := by
      match c with
      | 0 => exact hidle.1
      | 1 => exact hidle.2
      | c + 2 => exact call_of_onTwo (Reach.of_exec hy) (Nat.le_add_left 2 c)
    exact hcall

end Xv6.Blocking
