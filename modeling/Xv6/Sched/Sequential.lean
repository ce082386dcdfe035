import Xv6.Sched.Wait

/-!
# Processes as sequential threads

When no CPU is on the stack of a process that another CPU may take, wake up or free (`StackSafe` in
every state before a step), a process is one thread: it is on a CPU, or about to be, or it waits at
its `swtch`. In particular a `ZOMBIE` is at the end of `exit`.
-/

namespace Xv6.Sched

open Machine

variable {s s' : State} {c d e : CpuId} {p q r : Slot} {t t' : Thread} {a : Act} {m : Main}
  {u v : PState}

/-! ### The life of a slot -/

/-- A slot is free, set up by `fork`, a process, or freed by `wait`. -/
inductive Stage
  | free
  | setup
  | live
  | freeing
  deriving DecidableEq

def PState.stage : PState → Stage
  | .unused => .free
  | .embryo => .setup
  | .negUnused => .freeing
  | _ => .live

lemma PState.settled_of_stage (h : v.stage = .free ∨ v.stage = .live) : v.Settled := by
  constructor <;> rintro rfl <;> rcases h with h | h <;> cases h

/-- A process stays one until it is a `ZOMBIE`. -/
lemma StateEdge.live (h : StateEdge s d p u v) (hu : u.stage = .live) (hne : u ≠ .zombie) :
    v.stage = .live := by
  cases h <;> first | rfl | exact absurd rfl hne | cases hu

/-! ### Where the scheduler is -/

/-- The process that `scheduler` is about to switch to. -/
def SchedPc.takes : SchedPc → Option Slot
  | .set p | .run p | .swtch p => some p
  | _ => none

def SchedPc.takenState : SchedPc → PState
  | .swtch _ => .running
  | _ => .negRunning

lemma takes_of_holds {pc : SchedPc} (h : pc.holds = none) : pc.takes = none := by
  cases pc <;> first | rfl | cases h

lemma takenState_cases (pc : SchedPc) : pc.takenState = .negRunning ∨ pc.takenState = .running := by
  cases pc <;> first | exact .inl rfl | exact .inr rfl

/-- At the `swtch` of `sched`, unless it is outside `exit`. -/
def Thread.Parked (t : Thread) : Prop :=
  (∃ b e, t.call = some (.schedBack b e)) ∨ t.main.inExit = false

structure SeqInv (s : State) : Prop where
  own : OwnInv s
  nested : ∀ p, (s.slot p).thread.Nested
  on : ∀ c p, (s.cpu c).cur = some p → (s.slot p).state.stage = .live
  idle : ∀ c p, (s.cpu c).pc.takes = some p → (s.cpu c).cur = none
  taken : ∀ c p, (s.cpu c).pc.takes = some p → (s.slot p).state = (s.cpu c).pc.takenState
  off : ∀ c d p, (s.cpu c).pc.takes = some p → (s.cpu d).cur ≠ some p
  once : Exclusive fun c => (s.cpu c).pc.takes
  parked : ∀ p, (∀ c, (s.cpu c).cur ≠ some p) → (s.slot p).thread.Parked

/-- What a step of CPU `d` does to the CPU. -/
inductive CpuEdge (s : State) (d : CpuId) (s' : State) : Prop
  | same (hcur : (s'.cpu d).cur = (s.cpu d).cur) (hpc : (s'.cpu d).pc = (s.cpu d).pc)
      (hstate : ∀ p, (s.cpu d).pc.takes = some p → (s'.slot p).state = (s.slot p).state)
  | out (p : Slot) (b e : Bool) (hcur : (s.cpu d).cur = some p) (hcur' : (s'.cpu d).cur = none)
      (hpc : (s'.cpu d).pc = (s.cpu d).pc)
      (hthread : (s'.slot p).thread.call = some (.schedBack b e))
  | idle (hcur : (s.cpu d).cur = none) (hcur' : (s'.cpu d).cur = none)
      (hpc : (s'.cpu d).pc.takes = none)
  | take (p : Slot) (hcur : (s.cpu d).cur = none) (hcur' : (s'.cpu d).cur = none)
      (hold : (s.slot p).state = .runnable) (hpc : (s'.cpu d).pc = .set p)
      (hstate : (s'.slot p).state = .negRunning)
  | go (p : Slot) (hcur : (s.cpu d).cur = none) (hcur' : (s'.cpu d).cur = none)
      (hpc : (s.cpu d).pc.takes = some p) (hpc' : (s'.cpu d).pc.takes = some p)
      (hstate : (s'.slot p).state = (s'.cpu d).pc.takenState)
  | swtch (p : Slot) (hpc : (s.cpu d).pc = .swtch p) (hcur' : (s'.cpu d).cur = some p)
      (hpc' : (s'.cpu d).pc.takes = none)

lemma SeqInv.taken_ne (hinv : SeqInv s) (hp : (s.cpu c).pc.takes = some p)
    (hneg : v ≠ .negRunning) (hrun : v ≠ .running) : (s.slot p).state ≠ v := by
  rw [hinv.taken c p hp]
  rcases takenState_cases (s.cpu c).pc with h | h <;> rw [h]
  · exact hneg.symm
  · exact hrun.symm

lemma takes_swtch (h : (s.cpu d).pc = .swtch p) : (s.cpu d).pc.takes = some p := by
  rw [h]
  rfl

lemma takes_run (h : (s.cpu d).pc = .run p) : (s.cpu d).pc.takes = some p := by
  rw [h]
  rfl

/-- An interrupt handler on the stack of `scheduler` wakes up sleeping processes only. -/
lemma CallEdge.state_taken {f : Call} {f' : Option Call} (h : CallEdge s none f f' a)
    (hp : (s.slot p).state ≠ .sleeping) : ∀ v, a ≠ .state p v := by
  cases h with
  | quiet f' a ha =>
    rintro v rfl
    cases ha
  | wake f' q hold =>
    intro v hv
    cases hv
    exact hp hold
  | yield q hq => cases hq

section

variable (hinv : SeqInv s)

include hinv

lemma SeqInv.cpuEdge (h : Rule s d s') : CpuEdge s d s' := by
  cases h with
  | panic => exact .same rfl rfl fun _ _ => rfl
  | proc p t a i hcur =>
    refine .same (by simp) (by simp) fun q hq => ?_
    cases hcur.symm.trans (hinv.idle d q hq)
  | out p b e hcur =>
    refine .out p b e hcur ?_ ?_ ?_
    · rw [swtchOut, cpu_setThread, cpu_setCpu]
    · rw [swtchOut, cpu_setThread, cpu_setCpu]
    · rw [swtchOut, thread_setThread]
  | sched k a hcur hcall h =>
    have hcpu : (a.apply (setCpu s d k)).cpu d = k := by rw [Act.cpu_apply, cpu_setCpu]
    cases h with
    | idle k hpc hpc' hk =>
      exact .idle hcur (by rw [hcpu, hk, hcur]) (by rw [hcpu]; exact takes_of_holds hpc')
    | take p hpc hold =>
      exact .take p hcur (by rw [hcpu]; exact hcur) hold (by rw [hcpu]) (state_apply_state _ _ _)
    | set p hpc =>
      refine .go p hcur (by rw [hcpu]; exact hcur) (by rw [hpc]; rfl) (by rw [hcpu]; rfl) ?_
      rw [hcpu, Act.apply_none, slot_setCpu, hinv.taken d p (by rw [hpc]; rfl), hpc]
      rfl
    | run p hpc =>
      refine .go p hcur (by rw [hcpu]; exact hcur) (by rw [hpc]; rfl) (by rw [hcpu]; rfl) ?_
      rw [hcpu, state_apply_state]
      rfl
    | swtch p hpc => exact .swtch p hpc (by rw [hcpu]) (by rw [hcpu]; rfl)
    | pub1 | pub2 | pub3 =>
      exact .idle hcur (by rw [hcpu]; exact hcur) (by rw [hcpu]; rfl)
  | cpuCall f f' a i hcur hcall h =>
    refine .same (by simp) (by simp) fun p hp => ?_
    have hsleep := hinv.taken_ne (v := .sleeping) hp (by decide) (by decide)
    rw [a.state_apply _ ((callStep_edge h).state_taken hsleep), slot_setCpu]
  | cpuIrq => exact .same (by simp) (by simp) fun _ _ => rfl

/-- A CPU that is on the stack of `p` after a step was there before, or has just switched to it. -/
lemma SeqInv.cur_before (h : Rule s d s') (hcur : (s'.cpu c).cur = some p) :
    (s.cpu c).cur = some p ∨ c = d ∧ (s.cpu d).pc = .swtch p ∧ (s'.cpu d).pc.takes = none := by
  by_cases hc : c = d
  · subst hc
    cases hinv.cpuEdge h with
    | same hsame => exact .inl (hsame ▸ hcur)
    | swtch q hpc hcur' hpc' =>
      obtain rfl := Option.some.inj (hcur'.symm.trans hcur)
      exact .inr ⟨rfl, hpc, hpc'⟩
    | out _ _ _ _ hcur' | idle _ hcur' | take _ _ hcur' | go _ _ hcur' =>
      cases hcur'.symm.trans hcur
  · rw [h.cpu_ne hc] at hcur
    exact .inl hcur

/-- What a CPU is about to switch to after a step it was before, or it has just taken it. -/
lemma SeqInv.takes_before (h : Rule s d s') (htakes : (s'.cpu c).pc.takes = some p) :
    (s.cpu c).pc.takes = some p ∨ c = d ∧ (s.slot p).state = .runnable := by
  by_cases hc : c = d
  · subst hc
    cases hinv.cpuEdge h with
    | same _ hpc | out _ _ _ _ _ hpc => exact .inl (hpc ▸ htakes)
    | take q _ _ hold hpc =>
      rw [hpc] at htakes
      cases htakes
      exact .inr ⟨rfl, hold⟩
    | go q _ _ hpc hpc' => exact .inl (hpc.trans (hpc'.symm.trans htakes))
    | idle _ _ hpc | swtch _ _ _ hpc => cases hpc.symm.trans htakes
  · rw [h.cpu_ne hc] at htakes
    exact .inl htakes

/-- Only the CPU that has taken a process changes its state. -/
lemma SeqInv.state_taken (h : Rule s d s') (hc : c ≠ d)
    (hp : (s.cpu c).pc.takes = some p) : (s'.slot p).state = (s.slot p).state := by
  refine (h.state hinv.own p).resolve_right fun hedge => ?_
  have hstate := hinv.taken c p hp
  generalize (s.slot p).state = v at hedge hstate
  generalize (s'.slot p).state = v' at hedge
  cases hedge with
  | run hpc => exact hc (hinv.once c d p hp (takes_run hpc))
  | yield hcur | sleep _ hcur | exit hcur => exact hinv.off c d p hp hcur
  | _ => rcases takenState_cases (s.cpu c).pc with h | h <;> rw [h] at hstate <;> cases hstate

lemma SeqInv.parked_step (h : Rule s d s')
    (hoff : ∀ c, (s'.cpu c).cur ≠ some p) : (s'.slot p).thread.Parked := by
  by_cases hon : ∃ c, (s.cpu c).cur = some p
  · -- the CPU has just left the stack
    obtain ⟨c, hcur⟩ := hon
    have hc : c = d := by
      by_contra hc
      apply hoff c
      rw [h.cpu_ne hc, hcur]
    subst hc
    cases hinv.cpuEdge h with
    | same hsame => exact absurd (hsame.trans hcur) (hoff c)
    | out q b e hq _ _ hthread =>
      obtain rfl := Option.some.inj (hq.symm.trans hcur)
      exact .inl ⟨b, e, hthread⟩
    | idle hnone | take _ hnone | go _ hnone => cases hnone.symm.trans hcur
    | swtch q hpc => cases hcur.symm.trans (hinv.idle c q (takes_swtch hpc))
  · have hold := hinv.parked p fun c hc => hon ⟨c, hc⟩
    cases h.thread p with
    | same hsame => rwa [hsame]
    | new hnew =>
      rw [hnew]
      exact .inr rfl
    | step a hcur | out _ _ _ _ hcur => exact absurd ⟨d, hcur⟩ hon

lemma SeqInv.rule (hok : StackSafe s) (h : Rule s d s') : SeqInv s' where
  own := hinv.own.rule h
  nested := h.nested hinv.nested
  on := by
    intro c p hcur'
    have hold : (s.slot p).state.stage = .live ∧ (s.slot p).state ≠ .zombie := by
      rcases hinv.cur_before h hcur' with hcur | ⟨_, hpc, _⟩
      · exact ⟨hinv.on c p hcur, (hok.off c p hcur).2.2.1⟩
      · rw [hinv.taken d p (takes_swtch hpc), hpc]
        exact ⟨rfl, fun h => by cases h⟩
    rcases h.state hinv.own p with hsame | hedge
    · rw [hsame, hold.1]
    · exact hedge.live hold.1 hold.2
  idle := by
    intro c p htakes
    by_cases hc : c = d
    · subst hc
      cases hinv.cpuEdge h with
      | same hcur hpc =>
        rw [hcur]
        exact hinv.idle c p (hpc ▸ htakes)
      | out _ _ _ _ hcur' | idle _ hcur' | take _ _ hcur' | go _ _ hcur' => exact hcur'
      | swtch _ _ _ hpc => cases hpc.symm.trans htakes
    · rw [h.cpu_ne hc] at htakes ⊢
      exact hinv.idle c p htakes
  taken := by
    intro c p htakes
    by_cases hc : c = d
    · subst hc
      cases hinv.cpuEdge h with
      | same hcur hpc hstate =>
        rw [hpc] at htakes ⊢
        rw [hstate p htakes, hinv.taken c p htakes]
      | out q _ _ hcur _ hpc =>
        rw [hpc] at htakes
        cases hcur.symm.trans (hinv.idle c p htakes)
      | take q _ _ _ hpc hstate =>
        rw [hpc] at htakes ⊢
        cases htakes
        exact hstate
      | go q _ _ _ hpc hstate =>
        obtain rfl := Option.some.inj (hpc.symm.trans htakes)
        exact hstate
      | idle _ _ hpc | swtch _ _ _ hpc => cases hpc.symm.trans htakes
    · rw [h.cpu_ne hc] at htakes ⊢
      rw [hinv.state_taken h hc htakes, hinv.taken c p htakes]
  off := by
    intro c e p htakes hcur
    rcases hinv.takes_before h htakes with hbefore | ⟨rfl, hrun⟩
    · rcases hinv.cur_before h hcur with hon | ⟨rfl, hpc, hnone⟩
      · exact hinv.off c e p hbefore hon
      · obtain rfl := hinv.once c e p hbefore (takes_swtch hpc)
        cases hnone.symm.trans htakes
    · rcases hinv.cur_before h hcur with hon | ⟨rfl, hpc, hnone⟩
      · exact (hok.off e p hon).1 hrun
      · cases hnone.symm.trans htakes
  once := by
    refine hinv.once.step (a := d) (fun c hc p hp => ?_) fun p hp => ?_
    · rwa [h.cpu_ne hc] at hp
    · rcases hinv.takes_before h hp with hbefore | ⟨_, hrun⟩
      · exact .inl hbefore
      · exact .inr fun c hc => hinv.taken_ne hc (by decide) (by decide) hrun
  parked := fun _ hoff => hinv.parked_step h hoff

end

lemma seqInv_boot : SeqInv boot where
  own := ownInv_boot
  nested := waitInv_boot.nested
  on := by
    intro c p h
    cases h
  idle := by
    intro c p h
    cases h
  taken := by
    intro c p h
    cases h
  off := by
    intro c d p h
    cases h
  once := exclusive_none
  parked := by
    intro p _
    rcases thread_boot p with h | h <;> rw [h] <;> exact .inr rfl

/-- Off the CPU, a process that has called `exit` is at the end of it. -/
lemma SeqInv.zombieExit (hinv : SeqInv s) (hoff : ∀ c, (s.cpu c).cur ≠ some p)
    (hexit : (s.slot p).thread.main.inExit = true) : ∃ w, (s.slot p).thread.main = .zombieExit w := by
  rcases hinv.parked p hoff with ⟨b, e, hcall⟩ | hnot
  · have hnested := (hinv.nested p).of_switches hcall rfl
    generalize (s.slot p).thread.main = m at hexit hnested
    cases m with
    | zombieExit w => exact ⟨w, rfl⟩
    | _ => exact absurd hexit (by rw [Bool.not_eq_true]; exact hnested)
  · rw [hnot] at hexit
    cases hexit

end Xv6.Sched
