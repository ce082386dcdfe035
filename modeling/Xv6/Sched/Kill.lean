import Xv6.Machine.Bits
import Xv6.Sched.Family

/-!
# `kill` and the life of a slot

`kill` looks for a slot with the pid and then updates `pending_signals` there, without a lock. Here it
runs next to the scheduler, `fork`, `exit` and `wait` of the other files; the test of `p->pid` and the
update are separate steps. In between, `wait` can free the slot and `allocproc` can give it to another
process.
-/

namespace Xv6.Kill

open Machine Option

open Sched (CpuId nextSlot slot0)

/-! ### The machine -/

/-- A call of `kill` in progress: at the test of `p->pid`, or at the update after it. -/
inductive Pc
  | test (pid signum : Word) (q : Slot)
  | update (pid signum : Word) (q : Slot)
  deriving DecidableEq

structure State where
  sched : Sched.State
  /-- `pending_signals` -/
  pending : Slot → Word
  /-- the calls of `kill` by the processes -/
  kill : Slot → Option Pc

inductive Label
  | sched (l : Sched.Label)
  /-- the process on the CPU calls `kill` -/
  | kill (c : CpuId) (pid signum : Word)
  /-- the next step of `kill` in the process on the CPU -/
  | run (c : CpuId)

/-- The process on a CPU that runs kernel code outside of the functions of the scheduler. -/
def codeOn (s : Sched.State) (c : CpuId) : Option Slot :=
  match (s.cpu c).cur with
  | none => none
  | some p =>
    match (s.slot p).thread with
    | ⟨.code _, none, none, none⟩ => some p
    | _ => none

def setKill (y : State) (p : Slot) (x : Option Pc) : State :=
  { y with kill := Function.update y.kill p x }

/-- `1 << signum`: the processor shifts by the low five bits. -/
def sigBit (signum : Word) : Fin 32 := ⟨signum.toNat % 32, shift_lt signum⟩

def killStep (y : State) (p : Slot) : Option State :=
  match y.kill p with
  | none => none
  | some (.test pid signum q) =>
    if (y.sched.slot q).pid = pid then some (setKill y p (some (.update pid signum q)))
    else some (setKill y p ((nextSlot q).map fun q => .test pid signum q))
  | some (.update _ signum q) =>
    some { setKill y p none with
      pending := Function.update y.pending q (setBit (y.pending q) (sigBit signum)) }

/-- `allocproc` clears `pending_signals` when it has found a slot. -/
def clearPending (y : State) : Sched.Label → Slot → Word
  | .run c =>
    match (y.sched.cpu c).cur with
    | none => y.pending
    | some p =>
      match (y.sched.slot p).thread with
      | ⟨.allocFound np, none, none, none⟩ => Function.update y.pending np 0
      | _ => y.pending
  | _ => y.pending

/-- A process that is in `kill` makes no other call. -/
def busy (y : State) : Sched.Label → Bool
  | .op c _ =>
    match codeOn y.sched c with
    | none => false
    | some p => (y.kill p).isSome
  | _ => false

def step (y : State) : Label → Option State
  | .sched l =>
    if busy y l then none
    else (Sched.step y.sched l).map fun s => { y with sched := s, pending := clearPending y l }
  | .kill c pid signum =>
    match codeOn y.sched c with
    | none => none
    | some p =>
      if y.kill p = none ∧ BitVec.slt 32 signum = false then
        some (setKill y p (some (.test pid signum slot0)))
      else none
  | .run c =>
    match codeOn y.sched c with
    | none => none
    | some p => killStep y p

def boot : State := ⟨Sched.boot, fun _ => 0, fun _ => none⟩

/-! ### Slots that `kill` has found -/

/-- Some `kill` has found slot `q` and has not updated it yet. -/
def Found (y : State) (q : Slot) : Prop := ∃ k pid signum, y.kill k = some (.update pid signum q)

/-- The slot of a `kill` that is at the update. -/
def Pc.found : Pc → Option Slot
  | .test .. => none
  | .update _ _ q => some q

lemma found_iff (y : State) (q : Slot) : Found y q ↔ ∃ k, (y.kill k).bind Pc.found = some q := by
  constructor
  · rintro ⟨k, pid, signum, hk⟩
    exact ⟨k, by rw [hk]; rfl⟩
  · rintro ⟨k, hk⟩
    obtain ⟨x, hx, hq⟩ := bind_eq_some_iff.mp hk
    cases x with
    | test => cases hq
    | update pid signum =>
      cases hq
      exact ⟨k, pid, signum, hx⟩

instance (y : State) (q : Slot) : Decidable (Found y q) := decidable_of_iff _ (found_iff y q).symm

/-- The slot whose pid is written next: by `allocproc`, or by `wait`. -/
def writesPid : Sched.Main → Option Slot
  | .setPid np _ => some np
  | .waitClearPid q _ => some q
  | _ => none

/-- The slot whose pid the process on a CPU is about to write. -/
def pidWrite (s : Sched.State) (c : CpuId) : Option Slot :=
  (s.cpu c).cur.bind fun p => writesPid (s.slot p).thread.main

/-- The pid that a process is about to write is not that of a slot that `kill` has found. -/
def NoReuse (y : State) : Label → Prop
  | .sched (.run c) => ∀ q ∈ pidWrite y.sched c, ¬ Found y q
  | _ => True

instance (y : State) (l : Label) : Decidable (NoReuse y l) :=
  match l with
  | .sched (.run _) => inferInstanceAs (Decidable (∀ _ ∈ _, _))
  | .sched (.op ..) | .sched (.interrupt _) | .kill .. | .run _ => isTrue trivial

/-! ### The pid of a slot -/

variable {y y' : State} {l : Label} {s s' : Sched.State} {c : CpuId} {p q : Slot} {m : Sched.Main}
  {t : Sched.Thread} {v : Word}

/-- Only `allocproc` and `wait` write a pid. -/
lemma mainMove_pid (h : Sched.MainMove s p m t (.pid q v)) : writesPid m = some q := by
  rcases h with ⟨i, i', h⟩ | ⟨o, h⟩
  · generalize ha : Sched.Act.pid q v = a at h
    cases h with
    | exitCas =>
      rw [Sched.cas] at ha
      split_ifs at ha
    | _ => first | cases ha; rfl | cases ha
  · cases h

lemma pid_of_rule (h : Sched.Rule s c s') (hq : pidWrite s c ≠ some q) :
    (s'.slot q).pid = (s.slot q).pid := by
  cases h.moved with
  | quiet hturn => exact (hturn q).kin.pid
  | main p t a hcur hmove hdata =>
    rw [(Sched.sameKin_of_data (hdata q)).pid]
    refine a.field_apply Sched.Proc.pid s fun htarget => ?_
    cases a with
    | pid =>
      cases htarget
      rw [pidWrite, hcur] at hq
      exact absurd (mainMove_pid hmove) hq
    | _ => rfl

/-! ### Steps -/

/-- Every `kill` that is at the update is at a slot with its pid. -/
def Aimed (y : State) : Prop :=
  ∀ k pid signum q, y.kill k = some (.update pid signum q) → (y.sched.slot q).pid = pid

lemma Aimed.set {x : Option Pc} (h : Aimed y)
    (hx : ∀ pid signum q, x = some (.update pid signum q) → (y.sched.slot q).pid = pid) :
    Aimed (setKill y p x) := by
  intro k pid signum q hk
  simp only [setKill] at hk
  by_cases hkp : k = p
  · rw [hkp, Function.update_self] at hk
    exact hx pid signum q hk
  · rw [Function.update_of_ne hkp] at hk
    exact h k pid signum q hk

lemma Aimed.kill (h : Aimed y) (hstep : killStep y p = some y') : Aimed y' := by
  rw [killStep] at hstep
  split at hstep
  · cases hstep
  · rename_i pid signum q hp
    split_ifs at hstep with hpid
    · cases hstep
      refine h.set ?_
      rintro _ _ _ ⟨⟩
      exact hpid
    · cases hstep
      refine h.set fun pid' signum' q' hq' => ?_
      obtain ⟨r, _, hr⟩ := map_eq_some_iff.mp hq'
      cases hr
  · cases hstep
    exact h.set (p := p) (x := none) fun _ _ _ hx => by cases hx

lemma pid_setThread (s : Sched.State) (p q : Slot) (t : Sched.Thread) :
    ((Sched.setThread s p t).slot q).pid = (s.slot q).pid :=
  Sched.slot_setThread_field Sched.Proc.pid s p q t fun _ => rfl

/-- The code around the functions writes no pid. -/
lemma pid_of_op {o : Sched.Op} {x : Sched.Thread × Sched.Act} (h : Sched.ProcOp s p t o x) :
    ((x.2.apply (Sched.setThread s p x.1)).slot q).pid = (s.slot q).pid := by
  rw [← pid_setThread s p q x.1]
  cases h with
  | handler | trapEnd => rfl
  | main ht h =>
    obtain ⟨u, a⟩ := x
    refine a.field_apply Sched.Proc.pid _ fun htarget => ?_
    generalize t.main = m at h
    cases h <;> rfl

/-- The pid that a step of the scheduler writes is not that of a slot that `kill` has found. -/
lemma NoReuse.keep {l : Sched.Label} (h : NoReuse y (.sched l)) (hstep : Sched.step y.sched l = some s')
    (hq : Found y q) : (s'.slot q).pid = (y.sched.slot q).pid := by
  have hmove := (Sched.step_move hstep).2
  cases l with
  | run => exact pid_of_rule hmove.rule fun hwrite => h q hwrite hq
  | op =>
    cases hmove with
    | op hcur hop => exact pid_of_op hop
    | cpuHandler | cpuTrapEnd => rfl
  | interrupt =>
    cases hmove with
    | interrupt => exact pid_setThread _ _ _ _
    | cpuInterrupt => rfl

lemma Aimed.step (h : Aimed y) (hok : NoReuse y l) (hstep : step y l = some y') : Aimed y' := by
  cases l with
  | sched =>
    simp only [Kill.step] at hstep
    split_ifs at hstep
    obtain ⟨s', hs', rfl⟩ := map_eq_some_iff.mp hstep
    intro k pid signum q hk
    rw [hok.keep hs' ⟨k, pid, signum, hk⟩]
    exact h k pid signum q hk
  | kill =>
    simp only [Kill.step] at hstep
    split at hstep
    · cases hstep
    · split_ifs at hstep
      cases hstep
      exact h.set fun _ _ _ hx => by cases hx
  | run =>
    simp only [Kill.step] at hstep
    split at hstep
    · cases hstep
    · exact h.kill hstep

lemma aimed_boot : Aimed boot := by
  intro k pid signum q hk
  cases hk

/-! ### A signal for another process -/

/-- The slots of the second and the third process. -/
def slot1 : Slot := ⟨1, one_lt_NPROC⟩

lemma two_lt_NPROC : 2 < NPROC := by decide

def slot2 : Slot := ⟨2, two_lt_NPROC⟩

def runs (c : CpuId) (n : Nat) : List Label := List.replicate n (.sched (.run c))

/-- The first process calls `fork`, which looks at `n` slots. -/
def forks (n : Nat) : List Label :=
  [.sched (.op 0 .fork)] ++ runs 0 (n + 7) ++
    [.sched (.op 0 (.alloc true)), .sched (.op 0 (.alloc true))] ++ runs 0 5

/-- The first process makes two children; the first of them runs on CPU 1 and calls `kill` for the
    other, and finds its slot. -/
def findRun : List Label :=
  runs 0 8 ++ forks 2 ++ forks 3 ++ runs 1 9 ++ [.kill 1 4 9, .run 1, .run 1, .run 1]

/-- The other child exits on CPU 2, and its parent reaps it. -/
def reuseRun : List Label :=
  runs 2 10 ++ [.sched (.op 2 .exit), .sched (.run 2), .sched (.op 2 .closed)] ++ runs 2 139 ++
    [.sched (.op 0 .wait)] ++ runs 0 18 ++ forks 3

/-- The slot has been given to a new process, with pid 5, when the bit is set there. -/
theorem kill_hits_new_process : ∃ y y', Reach step Always boot y ∧
    (y.kill slot1 = some (.update 4 9 slot2) ∧ (y.sched.slot slot2).pid = 5 ∧
      (y.sched.slot slot2).state = .runnable) ∧
    step y (.run 1) = some y' ∧ hasBit (y'.pending slot2) (sigBit 9) = true := by
  have hexec : ∃ y, Reach step Always boot y ∧
      ((y.kill slot1 = some (.update 4 9 slot2) ∧ (y.sched.slot slot2).pid = 5 ∧
        (y.sched.slot slot2).state = .runnable) ∧ codeOn y.sched 1 = some slot1) :=
    Reach.exists_of_exec (findRun ++ reuseRun) (by decide +kernel)
  obtain ⟨y, hrun, hy, hcode⟩ := hexec
  have hstep : step y (.run 1) = some { setKill y slot1 none with
      pending := Function.update y.pending slot2 (setBit (y.pending slot2) (sigBit 9)) } := by
    simp only [step, hcode, killStep, hy.1]
  refine ⟨y, _, hrun, hy, hstep, ?_⟩
  simp only [Function.update_self]
  exact hasBit_setBit_self _ _

/-- When no pid is written in a slot that a `kill` has found and not yet updated, every update is in the
    slot of the process that the signal was sent to. -/
theorem aimed_of_noReuse (hrun : Reach step NoReuse boot y) {k : Slot} {pid signum : Word} {q : Slot}
    (hk : y.kill k = some (.update pid signum q)) : (y.sched.slot q).pid = pid :=
  hrun.invariant (I := Aimed) aimed_boot (fun _ _ _ h hok hstep => h.step hok hstep) k pid signum q hk

/-- The bit is set in the slot that `kill` has found. -/
theorem aimed_of_noReuse_found : ∃ y, Reach step NoReuse boot y ∧
    y.kill slot1 = some (.update 4 9 slot2) ∧ (y.sched.slot slot2).pid = 4 := by
  have hexec : ∃ y, Reach step NoReuse boot y ∧ y.kill slot1 = some (.update 4 9 slot2) :=
    Reach.exists_of_exec findRun (by decide +kernel)
  obtain ⟨y, hrun, hk⟩ := hexec
  exact ⟨y, hrun, hk, aimed_of_noReuse hrun hk⟩

end Xv6.Kill
