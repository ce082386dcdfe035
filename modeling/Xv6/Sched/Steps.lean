import Xv6.Sched.Edges

/-!
# What a step can do

Every step is a step of some CPU: on the stack of a process, on the stack of `scheduler`, or a
`swtch` between the two. The invariants of the later files are proved against this list.
-/

namespace Xv6.Sched

open Machine Option

variable {s s' : State} {c : CpuId} {p q : Slot} {t : Thread} {a : Act} {l : Label}

/-! ### The steps of the machine -/

/-- The CPU that takes a step. -/
def Label.cpu : Label → CpuId
  | .run c | .op c _ | .interrupt c => c

/-- A step of the outermost function of `p`, of its own or by the code around it. -/
def MainMove (s : State) (p : Slot) (m : Main) (t : Thread) (a : Act) : Prop :=
  (∃ i i', MainStep s p i m t a i') ∨ ∃ o, MainOp m o t a

lemma MainMove.edge {m : Main} (h : MainMove s p m t a) : MainEdge s p m t a := by
  rcases h with ⟨i, i', h⟩ | ⟨o, h⟩
  · exact h.edge
  · exact h.edge

/-- What the steps on the stack of `p` do to the calls on it. -/
inductive ProcRule (s : State) (c : CpuId) (p : Slot) (t : Thread) : Thread → Act → Prop
  | call (f : Call) (f' : Option Call) (a : Act) (i : Intr) (hcall : t.call = some f)
      (h : callStep s c (some p) f = some (.go f' a i)) :
      ProcRule s c p t { t with call := f' } a
  | sleep (z : Sleep) (z' : Option Sleep) (f : Option Call) (a : Act)
      (hcall : t.call = none) (hirq : t.irq = none) (hsleep : t.sleep = some z)
      (h : SleepEdge s p z z' f a) :
      ProcRule s c p t ⟨t.main, z', none, f⟩ a
  | main (t' : Thread) (a : Act) (ht : t = .at t.main) (h : MainEdge s p t.main t' a)
      (hmove : MainMove s p t.main t' a) : ProcRule s c p t t' a
  | interrupt (ht : t = .at t.main) (hmain : t.main.interruptible = true) :
      ProcRule s c p t ⟨t.main, none, some .handler, none⟩ .none
  | handler (f : Call) (hcall : t.call = none) (hirq : t.irq = some .handler)
      (hf : f.switches = false) :
      ProcRule s c p t ⟨t.main, t.sleep, some .handler, some f⟩ .none
  | trapEnd (f : Option Call) (hcall : t.call = none) (hirq : t.irq = some .handler)
      (hf : f = none ∨ f = some .yield) :
      ProcRule s c p t ⟨t.main, t.sleep, some .leave, f⟩ .none
  | leave (hcall : t.call = none) (hirq : t.irq = some .leave) :
      ProcRule s c p t ⟨t.main, t.sleep, none, none⟩ .none

/-- What a step of a CPU does to the state. -/
inductive Rule (s : State) (c : CpuId) : State → Prop
  | panic (e : Panic) : Rule s c { s with panic := some e }
  | proc (p : Slot) (t : Thread) (a : Act) (i : Intr) (hcur : (s.cpu c).cur = some p)
      (h : ProcRule s c p (s.slot p).thread t a) :
      Rule s c (a.apply (setThread (setCpu s c { s.cpu c with intr := i }) p t))
  /-- `swtch` to the scheduler -/
  | out (p : Slot) (b e : Bool) (hcur : (s.cpu c).cur = some p)
      (hcall : (s.slot p).thread.call = some (.schedSwtch b e)) :
      Rule s c (swtchOut s c p b e)
  | sched (k : Cpu) (a : Act) (hcur : (s.cpu c).cur = none) (hcall : (s.cpu c).call = none)
      (h : SchedEdge s (s.cpu c) k a) : Rule s c (a.apply (setCpu s c k))
  /-- an interrupt handler on the stack of `scheduler` -/
  | cpuCall (f : Call) (f' : Option Call) (a : Act) (i : Intr) (hcur : (s.cpu c).cur = none)
      (hcall : (s.cpu c).call = some f) (h : callStep s c none f = some (.go f' a i)) :
      Rule s c (a.apply (setCpu s c { s.cpu c with call := f', intr := i }))
  | cpuIrq (irq : Option Irq) (f : Option Call) (i : Intr) (hcur : (s.cpu c).cur = none)
      (hcall : (s.cpu c).call = none) :
      Rule s c (setCpu s c { s.cpu c with irq := irq, call := f, intr := i })

/-- A step on the stack of a process is one of a call, the end of a handler, or one of `sleep` or of the
    outermost function. -/
inductive ProcStep (s : State) (c : CpuId) (p : Slot) (t : Thread) (r : Res Thread) : Prop
  | call (f : Call) (r' : Res (Option Call)) (hcall : t.call = some f)
      (h : callStep s c (some p) f = some r') (hr : r'.map (fun f => { t with call := f }) = r)
  | leave (hcall : t.call = none) (hirq : t.irq = some .leave)
      (hr : .go { t with irq := none } .none { (s.cpu c).intr with flag := true } = r)
  | sleep (z : Sleep) (r' : Res (Option Sleep × Option Call)) (hcall : t.call = none) (hirq : t.irq = none)
      (hsleep : t.sleep = some z) (h : sleepStep s c p z = r')
      (hr : r'.map (fun x => { t with sleep := x.1, call := x.2 }) = r)
  | main (ht : t = .at t.main) (h : mainStep s p (s.cpu c).intr t.main = some r)

lemma procStep_cases {r : Res Thread} (h : procStep s c p = some r) :
    ProcStep s c p (s.slot p).thread r := by
  cases hcall : (s.slot p).thread.call with
  | some f =>
    simp only [procStep, hcall, map_eq_some_iff] at h
    obtain ⟨r', h, hr⟩ := h
    exact .call f r' hcall h hr
  | none =>
    cases hirq : (s.slot p).thread.irq with
    | some irq =>
      cases irq with
      | handler => simp [procStep, hcall, hirq] at h
      | leave =>
        simp only [procStep, hcall, hirq, some.injEq] at h
        exact .leave hcall hirq (by rw [hcall]; exact h)
    | none =>
      cases hsleep : (s.slot p).thread.sleep with
      | some z =>
        simp only [procStep, hcall, hirq, hsleep, some.injEq] at h
        exact .sleep z _ hcall hirq hsleep rfl (by rw [hirq]; exact h)
      | none =>
        simp only [procStep, hcall, hirq, hsleep] at h
        exact .main (by rw [Thread.at, ← hcall, ← hirq, ← hsleep]) h

lemma procStep_procRule {i : Intr} (h : procStep s c p = some (.go t a i)) :
    ProcRule s c p (s.slot p).thread t a := by
  cases procStep_cases h with
  | call f r hcall hr hmap =>
    cases r with
    | panic => cases hmap
    | go f' =>
      cases hmap
      exact .call f f' a i hcall hr
  | leave hcall hirq hr =>
    cases hr
    rw [hcall]
    exact .leave hcall hirq
  | sleep z r hcall hirq hsleep hz hmap =>
    cases r with
    | panic => cases hmap
    | go x =>
      cases hmap
      rw [hirq]
      exact .sleep z x.1 x.2 a hcall hirq hsleep (sleepStep_edge hz)
  | main ht hr =>
    have hmove : MainMove s p (s.slot p).thread.main t a := .inl ⟨_, _, mainStep_cases hr⟩
    exact .main t a ht hmove.edge hmove

/-- The code of a process makes a call, in an interrupt handler or not, or the handler ends. -/
inductive ProcOp (s : State) (p : Slot) (t : Thread) : Op → Thread × Act → Prop
  | handler {o f} : t.call = none → t.irq = some .handler → o.call = some f →
      ProcOp s p t o (⟨t.main, t.sleep, some .handler, some f⟩, .none)
  | trapEnd {timer f} : t.call = none → t.irq = some .handler → f = none ∨ f = some .yield →
      ProcOp s p t (.trapEnd timer) (⟨t.main, t.sleep, some .leave, f⟩, .none)
  | main {o x} : t = .at t.main → MainOp t.main o x.1 x.2 → ProcOp s p t o x

lemma trapEnd_eq (po : Option Slot) (timer : Bool) :
    trapEnd s po timer = none ∨ trapEnd s po timer = some .yield := by
  cases po with
  | none => exact .inl rfl
  | some =>
    simp only [trapEnd]
    split_ifs
    · exact .inr rfl
    · exact .inl rfl

lemma procOp_cases {o : Op} {x : Thread × Act} (h : procOp s p o = some x) :
    ProcOp s p (s.slot p).thread o x := by
  cases hcall : (s.slot p).thread.call with
  | some => simp [procOp, hcall] at h
  | none =>
    cases hirq : (s.slot p).thread.irq with
    | some irq =>
      cases irq with
      | leave => simp [procOp, hcall, hirq] at h
      | handler =>
        cases o with
        | trapEnd =>
          simp only [procOp, hcall, hirq] at h
          cases h
          exact .trapEnd hcall hirq (trapEnd_eq _ _)
        | _ =>
          simp only [procOp, hcall, hirq, map_eq_some_iff] at h
          obtain ⟨f, hf, rfl⟩ := h
          exact .handler hcall hirq hf
    | none =>
      cases hsleep : (s.slot p).thread.sleep with
      | some => simp [procOp, hcall, hirq, hsleep] at h
      | none =>
        simp only [procOp, hcall, hirq, hsleep] at h
        exact .main (by rw [Thread.at, ← hcall, ← hirq, ← hsleep]) (mainOp_cases h)

/-- A step on the stack of a process, or on that of `scheduler`. -/
inductive Move (s : State) (c : CpuId) : Label → State → Prop
  | proc {p r} : (s.cpu c).cur = some p → procStep s c p = some r → Move s c (.run c) (procResult s c p r)
  | out {p b e} : (s.cpu c).cur = some p → (s.slot p).thread.call = some (.schedSwtch b e) →
      Move s c (.run c) (swtchOut s c p b e)
  | op {p o x} : (s.cpu c).cur = some p → ProcOp s p (s.slot p).thread o x →
      Move s c (.op c o) (x.2.apply (setThread s p x.1))
  | interrupt {p m} : (s.cpu c).cur = some p → (s.slot p).thread = .at m → m.interruptible = true →
      (s.cpu c).intr.flag = true → Move s c (.interrupt c)
        (setThread (setCpu s c { s.cpu c with intr := { (s.cpu c).intr with flag := false } }) p
          ⟨m, none, some .handler, none⟩)
  | cpuCall {f r} : (s.cpu c).cur = none → (s.cpu c).call = some f → callStep s c none f = some r →
      Move s c (.run c) (cpuResult s c r)
  | cpuLeave : (s.cpu c).cur = none → (s.cpu c).call = none → (s.cpu c).irq = some .leave →
      Move s c (.run c)
        (setCpu s c { s.cpu c with irq := none, call := none, intr := { (s.cpu c).intr with flag := true } })
  | sched {k a} : (s.cpu c).cur = none → (s.cpu c).call = none → (s.cpu c).irq = none →
      schedStep s (s.cpu c) = .ok (k, a) → Move s c (.run c) (a.apply (setCpu s c k))
  | schedPanic {e} : (s.cpu c).cur = none → (s.cpu c).irq = none → schedStep s (s.cpu c) = .error e →
      Move s c (.run c) { s with panic := some e }
  | cpuHandler {o f} : (s.cpu c).cur = none → (s.cpu c).call = none → (s.cpu c).irq = some .handler →
      o.call = some f → Move s c (.op c o) (setCpu s c { s.cpu c with irq := some .handler, call := some f })
  | cpuTrapEnd {timer} : (s.cpu c).cur = none → (s.cpu c).call = none → (s.cpu c).irq = some .handler →
      Move s c (.op c (.trapEnd timer)) (setCpu s c { s.cpu c with irq := some .leave, call := none })
  | cpuInterrupt : (s.cpu c).cur = none → (s.cpu c).call = none → (s.cpu c).irq = none →
      (s.cpu c).pc = .pushcli → (s.cpu c).intr.flag = true → Move s c (.interrupt c) (setCpu s c
        { s.cpu c with irq := some .handler, call := none, intr := { (s.cpu c).intr with flag := false } })

lemma cpuStep_move (hcur : (s.cpu c).cur = none) (h : cpuStep s c = some s') : Move s c (.run c) s' := by
  cases hcall : (s.cpu c).call with
  | some =>
    simp only [cpuStep, hcall, map_eq_some_iff] at h
    obtain ⟨r, hr, rfl⟩ := h
    exact .cpuCall hcur hcall hr
  | none =>
    cases hirq : (s.cpu c).irq with
    | some irq =>
      cases irq with
      | handler => simp [cpuStep, hcall, hirq] at h
      | leave =>
        simp only [cpuStep, hcall, hirq] at h
        cases h
        exact .cpuLeave hcur hcall hirq
    | none =>
      simp only [cpuStep, hcall, hirq] at h
      split at h
      · rename_i hk
        exact some.inj h ▸ .sched hcur hcall hirq hk
      · rename_i he
        exact some.inj h ▸ .schedPanic hcur hirq he

lemma cpuOp_move {o : Op} (hcur : (s.cpu c).cur = none) (h : cpuOp s c o = some s') : Move s c (.op c o) s' := by
  cases hcall : (s.cpu c).call with
  | some => simp [cpuOp, hcall] at h
  | none =>
    cases hirq : (s.cpu c).irq with
    | none => simp [cpuOp, hcall, hirq] at h
    | some irq =>
      cases irq with
      | leave => simp [cpuOp, hcall, hirq] at h
      | handler =>
        cases o with
        | trapEnd =>
          simp only [cpuOp, hcall, hirq, some.injEq] at h
          exact h ▸ .cpuTrapEnd hcur hcall hirq
        | _ =>
          simp only [cpuOp, hcall, hirq, map_eq_some_iff] at h
          obtain ⟨f, hf, rfl⟩ := h
          exact .cpuHandler hcur hcall hirq hf

lemma interruptStep_move (h : interruptStep s c = some s') : Move s c (.interrupt c) s' := by
  rw [interruptStep] at h
  split at h
  · rename_i p hcur
    dsimp only at h
    split_ifs at h with hcond
    obtain ⟨hflag, hmain, hsleep, hirq, hcall⟩ := hcond
    have ht : (s.slot p).thread = .at (s.slot p).thread.main := by
      rw [Thread.at, ← hcall, ← hirq, ← hsleep]
    rw [hsleep, hcall, some.injEq] at h
    exact h ▸ .interrupt hcur ht hmain hflag
  · rename_i hcur
    split_ifs at h with hcond
    obtain ⟨hflag, hpc, hirq, hcall⟩ := hcond
    rw [hcall, some.injEq] at h
    exact h ▸ .cpuInterrupt hcur hcall hirq hpc hflag

lemma step_move (h : step s l = some s') : s.panic = none ∧ Move s l.cpu l s' := by
  rw [step] at h
  split_ifs at h with hlive
  refine ⟨hlive, ?_⟩
  cases l with
  | interrupt => exact interruptStep_move h
  | op c =>
    cases hcur : (s.cpu c).cur with
    | none =>
      simp only [liveStep, hcur] at h
      exact cpuOp_move hcur h
    | some =>
      simp only [liveStep, hcur, map_eq_some_iff] at h
      obtain ⟨x, hx, rfl⟩ := h
      exact .op hcur (procOp_cases hx)
  | run c =>
    cases hcur : (s.cpu c).cur with
    | none =>
      simp only [liveStep, hcur] at h
      exact cpuStep_move hcur h
    | some =>
      simp only [liveStep, hcur] at h
      split at h
      · rename_i hcall
        exact some.inj h ▸ .out hcur hcall
      · obtain ⟨r, hr, rfl⟩ := map_eq_some_iff.mp h
        exact .proc hcur hr

lemma ProcOp.rule {o : Op} {x : Thread × Act} (h : ProcOp s p t o x) : ProcRule s c p t x.1 x.2 := by
  cases h with
  | handler hcall hirq hf => exact .handler _ hcall hirq (Op.switches_of_call hf)
  | trapEnd hcall hirq hf => exact .trapEnd _ hcall hirq hf
  | main ht h =>
    have hmove : MainMove s p t.main x.1 x.2 := .inr ⟨o, h⟩
    exact .main x.1 x.2 ht hmove.edge hmove

lemma Move.rule (h : Move s c l s') : Rule s c s' := by
  cases h with
  | @proc p r hcur h =>
    cases r with
    | panic e => exact .panic e
    | go t a i => exact .proc p t a i hcur (procStep_procRule h)
  | out hcur hcall => exact .out _ _ _ hcur hcall
  | op hcur h =>
    have hrule := Rule.proc _ _ _ (s.cpu c).intr hcur h.rule
    rwa [setCpu_self] at hrule
  | interrupt hcur ht hmain =>
    refine .proc _ _ .none _ hcur ?_
    rw [ht]
    exact .interrupt rfl hmain
  | @cpuCall f r hcur hcall h =>
    cases r with
    | panic e => exact .panic e
    | go f' a i => exact .cpuCall f f' a i hcur hcall h
  | sched hcur hcall _ h => exact .sched _ _ hcur hcall (schedStep_edge h)
  | schedPanic => exact .panic _
  | cpuLeave hcur hcall | cpuHandler hcur hcall | cpuTrapEnd hcur hcall | cpuInterrupt hcur hcall =>
    exact .cpuIrq _ _ _ hcur hcall

/-- Every step is one of the rules. -/
lemma step_rule (h : step s l = some s') : Rule s l.cpu s' := (step_move h).2.rule

/-! ### The first state -/

lemma slot_boot (p : Slot) :
    boot.slot p = if p = initproc then
        { Proc.zero with
          state := .runnable, pid := 2, kstack := true, pgdir := true, thread := .new }
      else .zero := by
  simp [boot, Function.update_apply]

/-- At the start no function that the later files are about has been called. -/
lemma thread_boot (p : Slot) :
    (boot.slot p).thread = .at .forkret ∨ (boot.slot p).thread = .at (.code 0) := by
  rw [slot_boot]
  split_ifs
  · exact .inl rfl
  · exact .inr rfl

lemma state_boot (p : Slot) : (boot.slot p).state = .runnable ∨ (boot.slot p).state = .unused := by
  rw [slot_boot]
  split_ifs
  · exact .inl rfl
  · exact .inr rfl

end Xv6.Sched
