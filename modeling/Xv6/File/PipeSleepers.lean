import Xv6.File.PipeStream

/-!
# Who sleeps on a pipe

A reader sleeps while the pipe is empty and open for writing, and a writer while it is full and open for
reading, so they never sleep at the same time. There is one way to miss a reader: a writer that is killed
returns from the middle of its loop, after it has stored bytes and before the `wakeup`.
-/

namespace Xv6.Pipes

open Machine Function

variable {s s' : State} {p : Pipe} {q : ProcId} {addr : Nat → Byte} {n : Int} {i : Nat} {l : Label}
  {c d : Chan} {x : Pc}

def Pc.asleep : Chan → Pc → Bool
  | .nread, .read _ asleep => asleep
  | .nwrite, .write _ _ _ asleep => asleep
  | _, _ => false

/-- The condition under which a process goes to sleep on a channel. -/
def Pipe.blocks (p : Pipe) : Chan → Bool
  | .nread => readWaits p
  | .nwrite => p.full && p.readopen

/-- A writer stores bytes and returns without a `wakeup`. -/
def missesReader (s : State) : Label → Bool
  | .run q =>
    match s.pc q with
    | .write addr n i false =>
      let r := writeResult s q addr n i
      match r.2.2 with
      | .broken => i < r.1
      | _ => false
    | _ => false
  | _ => false

def NoMissedReader (s : State) (l : Label) : Prop := missesReader s l = false

instance (s : State) (l : Label) : Decidable (NoMissedReader s l) :=
  inferInstanceAs (Decidable (_ = false))

/-- The loop stores nothing, or it stores something in a pipe that is not full. A writer that goes to sleep
    has filled the pipe. -/
lemma writeLoop_cases (killed : Bool) (addr : Nat → Byte) (k i : Nat) (p : Pipe) :
    ((writeLoop killed addr k i p).1 = i ∧ (writeLoop killed addr k i p).2.1 = p ∨
      i < (writeLoop killed addr k i p).1 ∧ p.full = false) ∧
    ((writeLoop killed addr k i p).2.2 = .sleep →
      (writeLoop killed addr k i p).2.1.blocks .nwrite = true) := by
  induction k generalizing i p with
  | zero => exact ⟨.inl ⟨rfl, rfl⟩, fun h => by cases h⟩
  | succ k ih =>
    rw [writeLoop]
    by_cases hfull : p.full = true
    · rw [if_pos hfull]
      refine ⟨.inl ⟨rfl, rfl⟩, fun h => ?_⟩
      cases hopen : p.readopen <;> simp [Pipe.blocks, hfull, hopen] at h ⊢
    · rw [if_neg hfull]
      obtain ⟨hmoves, hsleep⟩ := ih (i + 1) (p.put (addr i))
      refine ⟨.inr ⟨?_, Bool.eq_false_of_not_eq_true hfull⟩, hsleep⟩
      rcases hmoves with ⟨heq, -⟩ | ⟨hlt, -⟩ <;> omega

/-- Whoever sleeps has a reason to. -/
def SleepOk (s : State) : Prop := ∀ q c, (s.pc q).asleep c = true → s.pipe.blocks c = true

lemma asleep_wakeup_self (c : Chan) (x : Pc) : (x.wakeup c).asleep c = false := by
  cases c <;> cases x <;> rfl

lemma asleep_of_wakeup (h : (x.wakeup c).asleep d = true) : x.asleep d = true := by
  cases c <;> cases d <;> cases x <;> first | exact h | cases h

lemma SleepOk.setPc (h : SleepOk s) (hx : ∀ c, x.asleep c = true → s.pipe.blocks c = true) :
    SleepOk (setPc s q x) := by
  intro r c (hr : Pc.asleep c (update s.pc q x r) = true)
  by_cases hrq : r = q
  · subst hrq
    rw [update_self] at hr
    exact hx c hr
  · rw [update_of_ne hrq] at hr
    exact h r c hr

/-- The pipe changes, and whoever sleeps on `c` is woken up. -/
lemma SleepOk.wakeup (h : SleepOk s) (hp : ∀ d, d ≠ c → s.pipe.blocks d = true → p.blocks d = true) :
    SleepOk (wakeup c { s with pipe := p }) := by
  intro r d hr
  refine hp d ?_ (h r d (asleep_of_wakeup hr))
  rintro rfl
  cases (asleep_wakeup_self d (s.pc r)).symm.trans hr

lemma SleepOk.pipewrite (h : SleepOk s) (hq : s.pc q = .write addr n i false)
    (hok : NoMissedReader s (.run q)) : SleepOk (pipewrite s q addr n i) := by
  obtain ⟨hmoves, hsleep⟩ := writeLoop_cases (s.killed q) addr (n.toNat - i) i s.pipe
  have hwake : SleepOk (Pipes.wakeup .nread { s with pipe := (writeResult s q addr n i).2.1 }) := by
    refine h.wakeup fun d hd hblocks => ?_
    rcases hmoves with ⟨-, hsame⟩ | ⟨-, hnot⟩
    · rwa [writeResult, hsame]
    · cases d with
      | nread => exact absurd rfl hd
      | nwrite => simp [Pipe.blocks, hnot] at hblocks
  simp only [NoMissedReader, missesReader, hq] at hok
  rw [Pipes.pipewrite]
  cases hend : (writeResult s q addr n i).2.2 with
  | done => exact hwake.setPc fun c hc => by cases c <;> cases hc
  | sleep =>
    refine hwake.setPc fun c hc => ?_
    cases c with
    | nread => cases hc
    | nwrite => exact hsleep hend
  | broken =>
    rw [hend] at hok
    have hsame : (writeResult s q addr n i).2.1 = s.pipe :=
      (hmoves.resolve_right fun hlt => of_decide_eq_false hok hlt.1).2
    rw [hsame]
    exact h.setPc fun c hc => by cases c <;> cases hc

lemma SleepOk.piperead (h : SleepOk s) : SleepOk (piperead s q n) := by
  rw [Pipes.piperead]
  split_ifs with hwaits
  · exact h.setPc fun c hc => by cases c <;> cases hc
  · refine h.setPc fun c hc => ?_
    cases c with
    | nread => exact hwaits
    | nwrite => cases hc
  · refine SleepOk.setPc (h.wakeup fun d hd hblocks => ?_) fun c hc => by cases c <;> cases hc
    cases d with
    | nread => exact absurd hblocks hwaits
    | nwrite => exact absurd rfl hd

lemma SleepOk.step (h : SleepOk s) (hok : NoMissedReader s l) (hstep : step s l = some s') : SleepOk s' := by
  rw [Pipes.step] at hstep
  split_ifs at hstep
  cases l with
  | pipewrite | piperead =>
    simp only [liveStep] at hstep
    split at hstep
    · cases hstep
      exact h.setPc fun c hc => by cases c <;> cases hc
    · cases hstep
  | run =>
    simp only [liveStep] at hstep
    split at hstep
    · rename_i hq
      cases hstep
      exact h.pipewrite hq hok
    · cases hstep
      exact h.piperead
    · cases hstep
  | kill q =>
    cases hstep
    exact h.setPc fun c hc => h q c (asleep_of_wakeup (asleep_of_wakeup hc))
  | pipeclose writable =>
    cases hstep
    -- the other channel's condition does not change
    cases writable
    all_goals
      refine h.wakeup fun d hd hblocks => ?_
      cases d <;> first | exact hblocks | exact absurd rfl hd

/-- A writer that was killed fills the pipe and returns, and the reader sleeps on. -/
theorem reader_oversleeps : ∃ s, Reach step Always (alloc fun _ => 0) s ∧
    (s.pc 0).asleep .nread = true ∧ s.pipe.full = true :=
  Reach.exists_of_exec [.piperead 0 1, .run 0, .kill 1, .pipewrite 1 (fun _ => 7) 513, .run 1]
    (by decide +kernel)

end Xv6.Pipes
