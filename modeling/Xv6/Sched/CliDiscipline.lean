import Xv6.Sched.Interrupts
import Xv6.Sched.Family

/-!
# Interrupts over context switches

`ncli` and `intena` belong to a CPU, while the calls of `pushcli` that are pending belong to a stack, which may
go on on another CPU. At each `swtch` exactly one call is pending on the CPU, so the count is right for the stack
that goes on. `sched` keeps `intena` in a variable of its own.
-/

namespace Xv6.Sched

open Machine Option
open Function (update_eq_self update_of_ne update_self)

variable {s s' : State} {c d : CpuId} {p q : Slot} {t t' : Thread} {a : Act} {i i' : Intr} {m : Main}
  {f : Call} {f' : Option Call} {e : Panic} {n : Nat} {x : Option Bool} {lk : Lock}
  {O O' : CpuId → Finset Lock} {l : Label} {o : Op} {k : Cpu}

/-! ### The spinlocks that a CPU owns -/

/-- What a CPU that owns the locks `o` has stored when it is between the two stores to a lock. -/
def Midway (L : Lock → Spinlock) (o : Finset Lock) : Option Call → Prop
  | some (.acquireCpu lk) => lk ∈ o
  | some (.releaseFree lk) => lk ∈ o ∧ (L lk).cpu = none
  | _ => True

lemma midway_of_not {L : Lock → Spinlock} {o : Finset Lock} (h : f'.any Call.midway = false) :
    Midway L o f' := by
  cases f' with
  | none => trivial
  | some f => cases f <;> trivial

lemma Midway.congr {L L' : Lock → Spinlock} {o : Finset Lock} (h : Midway L o f')
    (hL : ∀ lk ∈ o, L' lk = L lk) : Midway L' o f' := by
  cases f' with
  | none => trivial
  | some f =>
    cases f with
    | acquireCpu => exact h
    | releaseFree lk => exact ⟨h.1, (congrArg Spinlock.cpu (hL lk h.1)).trans h.2⟩
    | _ => trivial

/-- `O c` are the spinlocks that CPU `c` has locked. -/
structure LockInv (s : State) (O : CpuId → Finset Lock) : Prop where
  disjoint : ∀ c d lk, lk ∈ O c → lk ∈ O d → c = d
  locked : ∀ lk, (s.lock lk).locked = true ↔ ∃ c, lk ∈ O c
  cpu : ∀ lk c, (s.lock lk).cpu = some c → lk ∈ O c
  mid : ∀ c, Midway s.lock (O c) (s.call c)

/-- A step that leaves the locks alone. -/
lemma LockInv.quiet (h : LockInv s O) (hlock : s'.lock = s.lock) (hother : ∀ d, d ≠ c → s'.call d = s.call d)
    (hself : (s'.call c).any Call.midway = false) : LockInv s' O where
  disjoint := h.disjoint
  locked := by
    rw [hlock]
    exact h.locked
  cpu := by
    rw [hlock]
    exact h.cpu
  mid := by
    intro d
    by_cases hdc : d = c
    · subst hdc
      exact midway_of_not hself
    · rw [hother d hdc, hlock]
      exact h.mid d

/-- A step that writes to lock `lk`, which no other CPU has locked. -/
lemma LockInv.write {v : Spinlock} (h : LockInv s O) (hlock : s'.lock = Function.update s.lock lk v)
    (hother : ∀ d, d ≠ c → s'.call d = s.call d) (hO : ∀ d, d ≠ c → O' d = O d)
    (hc : ∀ r, r ≠ lk → (r ∈ O' c ↔ r ∈ O c)) (hfree : ∀ d, d ≠ c → lk ∉ O d)
    (hlocked : v.locked = true ↔ lk ∈ O' c) (hcpu : ∀ d, v.cpu = some d → d = c ∧ lk ∈ O' c)
    (hmid : Midway s'.lock (O' c) (s'.call c)) : LockInv s' O' := by
  have hne : ∀ r, r ≠ lk → s'.lock r = s.lock r := by
    intro r hr
    rw [hlock, update_of_ne hr]
  have heq : s'.lock lk = v := by rw [hlock, update_self]
  -- the other locks have the owners that they had
  have hmem : ∀ d r, r ≠ lk → (r ∈ O' d ↔ r ∈ O d) := by
    intro d r hr
    by_cases hd : d = c
    · rw [hd]
      exact hc r hr
    · rw [hO d hd]
  have hmine : ∀ d, lk ∈ O' d → d = c := by
    intro d hd
    by_contra hdc
    rw [hO d hdc] at hd
    exact hfree d hdc hd
  refine ⟨?_, ?_, ?_, ?_⟩
  · intro d e r hd he
    by_cases hr : r = lk
    · subst hr
      rw [hmine d hd, hmine e he]
    · exact h.disjoint d e r ((hmem d r hr).mp hd) ((hmem e r hr).mp he)
  · intro r
    by_cases hr : r = lk
    · subst hr
      rw [heq, hlocked]
      constructor
      · exact fun hr => ⟨c, hr⟩
      · rintro ⟨d, hd⟩
        rwa [hmine d hd] at hd
    · rw [hne r hr, h.locked r]
      exact exists_congr fun d => (hmem d r hr).symm
  · intro r d hd
    by_cases hr : r = lk
    · subst hr
      rw [heq] at hd
      obtain ⟨rfl, hin⟩ := hcpu d hd
      exact hin
    · rw [hne r hr] at hd
      exact (hmem d r hr).mpr (h.cpu r d hd)
  · intro d
    by_cases hdc : d = c
    · rw [hdc]
      exact hmid
    · rw [hother d hdc, hO d hdc]
      refine (h.mid d).congr fun r hr => hne r ?_
      rintro rfl
      exact hfree d hdc hr

lemma LockInv.free_of_mem (h : LockInv s O) (hlk : lk ∈ O c) : ∀ d, d ≠ c → lk ∉ O d :=
  fun d hd hin => hd (h.disjoint d c lk hin hlk)

lemma Act.lock_congr {u : State} (a : Act) (h : u.lock = s.lock) : (a.apply u).lock = (a.apply s).lock := by
  cases a with
  | lock lk v => exact congrArg (fun g => Function.update g lk v) h
  | _ => exact h

lemma Act.panic_apply (a : Act) (s : State) : (a.apply s).panic = s.panic := by
  cases a <;> rfl

lemma Act.lock_apply (ha : a.locks = false) : (a.apply s).lock = s.lock := by
  cases a <;> first | rfl | cases ha

/-- A step of a call on CPU `c`, which may acquire or release a lock. -/
lemma CallCli.good (hcli : CallCli s c i f f' a i') (h : LockInv s O) (hgood : Good t (O c).card i x)
    (ht : t.call = some f) (hcall : s.call c = some f) (hlock : s'.lock = (a.apply s).lock)
    (hcall' : s'.call c = f') (hother : ∀ d, d ≠ c → s'.call d = s.call d) :
    ∃ O', LockInv s' O' ∧ (∀ d, d ≠ c → O' d = O d) ∧
      Good { t with call := f' } (O' c).card i' (nextSaved i i' x) := by
  cases hcli with
  | move d hi hdepth hkind howned ha hf hf' hne =>
    rw [Act.lock_apply ha] at hlock
    refine ⟨O, h.quiet hlock hother ?_, fun _ _ => rfl, hgood.call_move ht hi hdepth hkind howned hf hf'⟩
    rw [hcall']
    exact hne
  | own lk hf hfree =>
    subst hf
    have hout : ∀ d, lk ∉ O d := by
      intro d hd
      rw [(h.locked lk).mpr ⟨d, hd⟩] at hfree
      cases hfree
    refine ⟨Function.update O c (insert lk (O c)), ?_, fun d hd => update_of_ne hd _ _, ?_⟩
    · refine h.write hlock hother (fun d hd => update_of_ne hd _ _) ?_ (fun d _ => hout d) ?_ ?_ ?_
      · intro r hr
        rw [update_self, Finset.mem_insert, or_iff_right hr]
      · simp
      · intro d hd
        exact absurd (h.cpu lk d hd) (hout d)
      · simp [hcall', Midway]
    · rw [nextSaved_self, update_self, Finset.card_insert_of_notMem (hout c)]
      refine hgood.call_lock ht rfl ?_ rfl (fun z hz => ?_) rfl rfl
      · rintro g ⟨rfl⟩
        rfl
      · exact Sleep.owned_ret hz
  | hold lk hf =>
    subst hf
    have hin : lk ∈ O c := by
      have hmid := h.mid c
      rwa [hcall] at hmid
    refine ⟨O, ?_, fun _ _ => rfl, ?_⟩
    · refine h.write hlock hother (fun _ _ => rfl) (fun _ _ => Iff.rfl) (h.free_of_mem hin) ?_ ?_ ?_
      · exact iff_of_true ((h.locked lk).mpr ⟨c, hin⟩) hin
      · intro d hd
        cases hd
        exact ⟨rfl, hin⟩
      · rw [hcall']
        trivial
    · rw [nextSaved_self]
      exact hgood.call_lock ht rfl (fun g hg => by cases hg) rfl (fun z hz => Sleep.owned_acquired hz) rfl rfl
  | unhold lk hf hhold =>
    subst hf
    have hin : lk ∈ O c := by
      rw [holding, Bool.and_eq_true, beq_iff_eq] at hhold
      exact h.cpu lk c hhold.2
    refine ⟨O, ?_, fun _ _ => rfl, ?_⟩
    · refine h.write hlock hother (fun _ _ => rfl) (fun _ _ => Iff.rfl) (h.free_of_mem hin) ?_ ?_ ?_
      · exact iff_of_true ((h.locked lk).mpr ⟨c, hin⟩) hin
      · intro d hd
        cases hd
      · have hsame : s'.lock lk = { s.lock lk with cpu := none } := by rw [hlock]; exact update_self _ _ _
        rw [hcall']
        exact ⟨hin, by rw [hsame]⟩
    · rw [nextSaved_self]
      refine hgood.call_lock ht rfl ?_ rfl (fun z hz => ?_) rfl rfl
      · rintro g ⟨rfl⟩
        rfl
      · obtain ⟨chan, lk', pc⟩ := z
        cases lk' <;> cases pc <;> rfl
  | disown lk hf =>
    subst hf
    obtain ⟨hin, hnone⟩ : lk ∈ O c ∧ (s.lock lk).cpu = none := by
      have hmid := h.mid c
      rwa [hcall] at hmid
    refine ⟨Function.update O c ((O c).erase lk), ?_, fun d hd => update_of_ne hd _ _, ?_⟩
    · refine h.write hlock hother (fun d hd => update_of_ne hd _ _) ?_ (h.free_of_mem hin) ?_ ?_ ?_
      · intro r hr
        rw [update_self, Finset.mem_erase, and_iff_right hr]
      · simp
      · intro d hd
        cases hnone.symm.trans hd
      · rw [hcall']
        trivial
    · rw [nextSaved_self, update_self]
      refine hgood.call_lock ht (Finset.card_erase_add_one hin) ?_ rfl (fun z hz => ?_) rfl rfl
      · rintro g ⟨rfl⟩
        rfl
      · exact Sleep.owned_released hz
  | back b e hf =>
    subst hf
    refine ⟨O, h.quiet hlock hother ?_, fun _ _ => rfl, ?_⟩
    · rw [hcall']
      cases b <;> rfl
    · rw [nextSaved, if_neg fun h => h.2 h.1]
      exact hgood.call_back ht

/-! ### The stack of `scheduler` -/

/-- `scheduler` has one `pushcli` pending over its loop, as `wait` has over its own. -/
def SchedPc.main : SchedPc → Main
  | .sti | .pushcli => .wait
  | _ => .waitScan

/-- The stack of `scheduler` as that of a process in `wait`. -/
def Cpu.thread (k : Cpu) : Thread := ⟨k.pc.main, none, k.irq, k.call⟩

lemma main_schedNext (p : Slot) : (schedNext p).main = .waitScan := by
  rw [schedNext]
  split <;> rfl

/-- On the stack of `scheduler` nothing is saved, so that the count is all there is to keep. -/
lemma Good.sched_move {m' : Main} {d : Int} (h : Good (.at m) n i x) (hm : m.free = false)
    (hi : IntrEdge i i' d) (hdepth : (m'.depth : Int) = m.depth + d) : ∃ y, Good (.at m') n i' y := by
  have hzero : n = 0 := by
    apply h.owned 0
    simp [Thread.at, Thread.owned, hm]
  refine ⟨some (savedIntena none i'), rfl, ?_, hi.flag h.flag, ?_, fun _ => .inr rfl⟩
  · have hold : i.ncli = n + m.depth := h.ncli
    have hnew : (Thread.at m').depth = m'.depth := rfl
    rw [hi.ncli, hold, hnew, hdepth, Int.add_assoc]
  · intro k hk
    rcases owned_at m' with hnone | hsome
    · cases hnone.symm.trans hk
    · rw [hzero]
      exact some.inj (hsome.symm.trans hk)

/-- A step of `scheduler` itself. -/
structure SchedCli (k k' : Cpu) (a : Act) (d : Int) : Prop where
  intr : IntrEdge k.intr k'.intr d
  depth : (k'.pc.main.depth : Int) = k.pc.main.depth + d
  irq : k'.irq = k.irq
  call : k'.call = k.call
  locks : a.locks = false

lemma schedStep_cli {k k' : Cpu} (hzero : k.pc = .sti → k.intr.ncli = 0)
    (h : schedStep s k = .ok (k', a)) : ∃ d, SchedCli k k' a d := by
  have hsame : ∀ {k' : Cpu} {a : Act}, k'.pc.main = k.pc.main → k'.intr = k.intr → k'.irq = k.irq →
      k'.call = k.call → a.locks = false → ∃ d, SchedCli k k' a d := by
    intro k' a hpc hintr hirq hcall ha
    refine ⟨0, ?_, ?_, hirq, hcall, ha⟩
    · rw [hintr]
      exact .same
    · rw [hpc, Int.add_zero]
  obtain ⟨proc, cur, pc, irq, call, intr⟩ := k
  cases pc with
  | sti =>
    cases h
    exact ⟨0, .gate true (hzero rfl), rfl, rfl, rfl, rfl⟩
  | pushcli =>
    cases h
    exact ⟨1, .push, rfl, rfl, rfl, rfl⟩
  | test p =>
    cases h
    refine hsame ?_ rfl rfl rfl rfl
    split_ifs
    · rfl
    · exact main_schedNext p
  | take p =>
    simp only [schedStep] at h
    split_ifs at h <;> cases h
    · exact hsame rfl rfl rfl rfl rfl
    · exact hsame (main_schedNext p) rfl rfl rfl rfl
  | run =>
    simp only [schedStep] at h
    split_ifs at h
    cases h
    exact hsame rfl rfl rfl rfl rfl
  | set | swtch =>
    cases h
    exact hsame rfl rfl rfl rfl rfl
  | pub1 | pub2 | pub3 =>
    cases h
    exact hsame rfl rfl rfl rfl (locks_cas _ _ _)
  | clear p =>
    cases h
    exact hsame (main_schedNext p) rfl rfl rfl rfl
  | popcli =>
    simp only [schedStep] at h
    split at h
    · rename_i hi
      cases h
      exact ⟨-1, .pop hi, rfl, rfl, rfl, rfl⟩
    · cases h

lemma schedStep_error (h : schedStep s k = .error e) :
    e.cli = false ∨ popcli k.intr = .error e ∧ k.pc.main.depth = 1 := by
  obtain ⟨proc, cur, pc, irq, call, intr⟩ := k
  cases pc with
  | run =>
    simp only [schedStep] at h
    split_ifs at h
    cases h
    exact .inl rfl
  | popcli =>
    simp only [schedStep] at h
    split at h
    · cases h
    · rename_i he
      cases h
      exact .inr ⟨he, rfl⟩
  | take =>
    simp only [schedStep] at h
    split_ifs at h
  | _ => cases h

/-! ### Other CPUs and new processes -/

/-- A step of CPU `c` leaves the stacks alone that the other CPUs are on. -/
lemma StackInv.thread_other (hinv : StackInv s) (h : Rule s c s') (hd : d ≠ c)
    (hq : (s.cpu d).cur = some q) : (s'.slot q).thread = (s.slot q).thread := by
  have hheld := hinv.held_of_cur hq
  have hne : ∀ p, (s.cpu c).cur = some p → q ≠ p := by
    rintro p hp rfl
    exact hd (hinv.stackSafe.once d c q hq hp)
  have huntouched : ∀ {y : Proc}, Untouched (s.slot q) y → y.thread = (s.slot q).thread := by
    rintro y (⟨-, hy⟩ | ⟨hfree, -⟩)
    · exact hy
    · rw [hheld] at hfree
      cases hfree
  cases h with
  | panic => rfl
  | proc p t a i hcur h =>
    refine huntouched ((h.leaveEdge hinv.own (hinv.nested p)).untouched (hne p hcur) (by simp) ?_)
    rw [slot_setThread_of_ne _ _ (hne p hcur), slot_setCpu]
  | out p b e hcur => rw [swtchOut, slot_setThread_of_ne _ _ (hne p hcur), slot_setCpu]
  | sched k a hcur hcall h => rw [a.thread_apply _ (h.turns.stack q), slot_setCpu]
  | cpuCall f f' a i hcur hcall h => exact huntouched ((callStep_edge h).unheld.1.untouched rfl rfl)
  | cpuIrq => rfl

lemma StackInv.call_other (hinv : StackInv s) (h : Rule s c s') (hd : d ≠ c) : s'.call d = s.call d := by
  rw [State.call, State.call, h.cpu_ne hd]
  cases hq : (s.cpu d).cur with
  | none => rfl
  | some => exact congrArg Thread.call (hinv.thread_other h hd hq)

/-- A step that changes the state of a slot does not change its stack, and a new stack starts at `forkret`. -/
structure StackKept (x y : Proc) : Prop where
  kept : y.state = x.state ∨ y.kstack = x.kstack
  new : y.kstack = true → x.kstack = true ∨ y.thread = .new

lemma Act.stackKept (a : Act) (s : State) (q : Slot) : StackKept (s.slot q) ((a.apply s).slot q) := by
  rw [a.slot_apply]
  split_ifs
  · cases a with
    | stack => exact ⟨.inl rfl, fun _ => .inr rfl⟩
    | free => exact ⟨.inl rfl, fun h => by cases h⟩
    | _ => exact ⟨.inr rfl, .inl⟩
  · exact ⟨.inr rfl, .inl⟩

lemma StackKept.of_eq {x y z : Proc} (h : StackKept x y) (hstate : x.state = z.state)
    (hkstack : x.kstack = z.kstack) : StackKept z y where
  kept := by
    rw [← hstate, ← hkstack]
    exact h.kept
  new := by
    rw [← hkstack]
    exact h.new

lemma Rule.stackKept (h : Rule s c s') (q : Slot) : StackKept (s.slot q) (s'.slot q) := by
  have hkstack : ∀ (u : State) (p : Slot) (t : Thread),
      ((setThread u p t).slot q).kstack = (u.slot q).kstack :=
    fun u p t => slot_setThread_field Proc.kstack u p q t fun _ => rfl
  cases h with
  | panic | cpuIrq => exact ⟨.inl rfl, .inl⟩
  | proc p t a => exact (a.stackKept _ q).of_eq (by simp) (hkstack _ _ _)
  | out p b e =>
    have hsame := hkstack (setCpu s c { s.cpu c with cur := none }) p
      { (s.slot p).thread with call := some (.schedBack b e) }
    exact ⟨.inr hsame, fun h => .inl (hsame.symm.trans h)⟩
  | sched k a | cpuCall f f' a => exact (a.stackKept _ q).of_eq rfl rfl

/-! ### The invariant -/

/-- A process that is not on a CPU: it has not run yet, or it is at its `swtch`. -/
def Parked (t : Thread) (x : Option Bool) : Prop :=
  t = .new ∨ ∃ b e, t.call = some (.schedBack b e) ∧ t.wf = true ∧ x = some e

/-- What holds of a CPU that owns `n` spinlocks. -/
structure CpuInv (s : State) (h : Slot → Option Bool) (n : Nat) (k : Cpu) : Prop where
  on : ∀ p, k.cur = some p → Good (s.slot p).thread n k.intr (h p)
  idle : k.cur = none → ∃ x, Good k.thread n k.intr x
  quiet : k.irq = none → k.call = none
  handler : k.irq ≠ none → k.pc = .pushcli

structure CliInv (s : State) (h : Slot → Option Bool) (O : CpuId → Finset Lock) : Prop where
  stack : StackInv s
  kin : KinInv s
  locks : LockInv s O
  fresh : ∀ p, (s.slot p).state = .embryo → (s.slot p).kstack = true → (s.slot p).thread = .new
  cpus : ∀ c, CpuInv s h (O c).card (s.cpu c)
  parked : ∀ p, (∀ c, (s.cpu c).cur ≠ some p) → (s.slot p).state.stage = .live →
    Parked (s.slot p).thread (h p)
  panic : ∀ e, s.panic = some e → e.cli = false

variable {h h' : Slot → Option Bool} {y : Thread × Act}

lemma CliInv.fresh_step (hinv : CliInv s h O) (hrule : Rule s c s') (hstate : (s'.slot p).state = .embryo)
    (hkstack : (s'.slot p).kstack = true) : (s'.slot p).thread = .new := by
  have hkept := hrule.stackKept p
  rcases hkept.new hkstack with hold | hnew
  · -- the slot had its stack before, so it was not free
    have hembryo : (s.slot p).state = .embryo := by
      rcases hkept.kept with hsame | hsame
      · rw [← hsame, hstate]
      · rcases hrule.state hinv.kin.seq.own p with hsame | hedge
        · rw [← hsame, hstate]
        · rw [hstate] at hedge
          generalize hv : (s.slot p).state = v at hedge
          cases hedge with
          | alloc =>
            have hfree := ((hinv.kin.slot p).free (by rw [hv]; rfl)).kstack
            rw [hold] at hfree
            cases hfree
    have hoff : (s.cpu c).cur ≠ some p := by
      intro hcur
      have hlive := hinv.kin.seq.on c p hcur
      rw [hembryo] at hlive
      cases hlive
    cases hrule.thread p with
    | same hsame => rw [hsame, hinv.fresh p hembryo hold]
    | new hnew => exact hnew
    | step a hcur | out b e hcall hthread hcur => exact absurd hcur hoff
  · exact hnew

/-- A process that no CPU was on stays where it is, and a new one is at the start of `forkret`. -/
lemma CliInv.parked_step (hinv : CliInv s h O) (hrule : Rule s c s') (hkin : KinInv s')
    (hoff : ∀ d, (s.cpu d).cur ≠ some p) (hlive : (s'.slot p).state.stage = .live) :
    Parked (s'.slot p).thread (h p) := by
  cases hrule.thread p with
  | new hnew => exact .inl hnew
  | step a hcur | out b e hcall hthread hcur => exact absurd hcur (hoff c)
  | same hsame =>
    rw [hsame]
    by_cases hold : (s.slot p).state.stage = .live
    · exact hinv.parked p hoff hold
    · left
      have hne : (s'.slot p).state ≠ (s.slot p).state := by
        intro heq
        rw [heq] at hlive
        exact hold hlive
      have hedge := (hrule.state hinv.kin.seq.own p).resolve_left hne
      have hkstack : (s.slot p).kstack = true := by
        rw [← (hrule.stackKept p).kept.resolve_left hne]
        exact ((hkin.slot p).live hlive).1
      refine hinv.fresh p ?_ hkstack
      generalize (s.slot p).state = u at hedge hold
      generalize (s'.slot p).state = v at hedge hlive
      cases hedge <;> first | rfl | exact absurd rfl hold | cases hlive

/-- A step keeps the invariant if it keeps what concerns its own CPU. -/
lemma CliInv.update (hinv : CliInv s h O) (hok : republishes s (s.cpu c) = false) (hrule : Rule s c s')
    (hpanic : ∀ e, s'.panic = some e → e.cli = false) (hlocks : LockInv s' O')
    (hO : ∀ d, d ≠ c → O' d = O d) (hh : ∀ q, (s.cpu c).cur ≠ some q → h' q = h q)
    (hcpu : CpuInv s' h' (O' c).card (s'.cpu c))
    (hpark : ∀ p, (s.cpu c).cur = some p → (s'.cpu c).cur ≠ some p → Parked (s'.slot p).thread (h' p)) :
    CliInv s' h' O' := by
  have hsafe := hinv.stack.stackSafe
  have hkin : KinInv s' := hinv.kin.rule hsafe hrule
  refine ⟨hinv.stack.rule hok hrule, hkin, hlocks, fun p => hinv.fresh_step hrule, ?_, ?_, hpanic⟩
  · intro d
    by_cases hd : d = c
    · rw [hd]
      exact hcpu
    · rw [hrule.cpu_ne hd, hO d hd]
      obtain ⟨hon, hidle, hquiet, hhandler⟩ := hinv.cpus d
      refine ⟨?_, hidle, hquiet, hhandler⟩
      intro p hcur
      rw [hinv.stack.thread_other hrule hd hcur, hh p fun hp => hd (hsafe.once d c p hcur hp)]
      exact hon p hcur
  · intro p hoff hlive
    by_cases hp : (s.cpu c).cur = some p
    · exact hpark p hp (hoff c)
    · rw [hh p hp]
      refine hinv.parked_step hrule hkin (fun d hd => ?_) hlive
      by_cases hdc : d = c
      · rw [hdc] at hd
        exact hp hd
      · apply hoff d
        rw [hrule.cpu_ne hdc, hd]

/-! ### Steps of a CPU -/

lemma CliInv.halt (hinv : CliInv s h O) (hok : republishes s (s.cpu c) = false) (he : e.cli = false) :
    CliInv { s with panic := some e } h O := by
  obtain ⟨hon, hidle, hquiet, hhandler⟩ := hinv.cpus c
  refine hinv.update hok (.panic e) ?_ ?_ (fun _ _ => rfl) (fun _ _ => rfl) ⟨hon, hidle, hquiet, hhandler⟩
    fun p hp hne => absurd hp hne
  · intro e' he'
    cases he'
    exact he
  · exact ⟨hinv.locks.disjoint, hinv.locks.locked, hinv.locks.cpu, hinv.locks.mid⟩

/-- Nobody sets up a stack for a process that is on a CPU. -/
lemma CliInv.ne_stack (hinv : CliInv s h O) (hcur : (s.cpu c).cur = some p)
    (hproc : ProcRule s c p (s.slot p).thread t a) : a ≠ .stack p :=
  ((hproc.leaveEdge hinv.stack.own (hinv.stack.nested p)).hold (u := s) hcur
    ((hinv.stack.held c).of_cur hcur) rfl).2

lemma CliInv.call_proc (hinv : CliInv s h O) (hcur : (s.cpu c).cur = some p)
    (hproc : ProcRule s c p (s.slot p).thread t a) : (procResult s c p (.go t a i')).call c = t.call := by
  rw [procResult, State.call_of_cur (p := p), a.thread_apply _ (hinv.ne_stack hcur hproc), thread_setThread]
  rw [Act.cpu_apply, cpu_setThread, cpu_setCpu]
  exact hcur

/-- The interrupt flag before the outermost `pushcli` of each process, recorded at each step. -/
def savedNext (s : State) (l : Label) (s' : State) (h : Slot → Option Bool) : Slot → Option Bool :=
  match (s.cpu l.cpu).cur with
  | none => h
  | some p => Function.update h p (nextSaved (s.cpu l.cpu).intr (s'.cpu l.cpu).intr (h p))

lemma savedNext_of_cur (hcur : (s.cpu l.cpu).cur = some p) :
    savedNext s l s' h = Function.update h p (nextSaved (s.cpu l.cpu).intr (s'.cpu l.cpu).intr (h p)) := by
  rw [savedNext, hcur]

lemma savedNext_of_off (hcur : (s.cpu l.cpu).cur = none) : savedNext s l s' h = h := by
  rw [savedNext, hcur]

lemma savedNext_of_intr (hintr : (s'.cpu l.cpu).intr = (s.cpu l.cpu).intr) : savedNext s l s' h = h := by
  rw [savedNext, hintr]
  split
  · rfl
  · rw [nextSaved_self, update_eq_self]

/-- The call of a process that has not given up the CPU does not panic in `sched`. -/
lemma CliInv.proc_panic (hinv : CliInv s h O) (hcur : (s.cpu c).cur = some p)
    (hstep : procStep s c p = some (.panic e)) : e.cli = false := by
  have hgood := (hinv.cpus c).on p hcur
  cases procStep_cases hstep with
  | call f r hcall hr hmap =>
    cases r with
    | go => cases hmap
    | panic =>
      cases hmap
      refine hgood.call_panic hcall ?_ ?_ hr
      · rintro q b hq rfl hrun
        cases hq
        have hleave := hinv.stack.leaving p (by rw [Thread.leaving, hcall]; rfl)
        rw [hrun] at hleave
        cases hleave
      · intro b hf
        refine (hgood.sched hcall ?_ ?_).2
        · rcases hf with rfl | rfl <;> cases b <;> first | exact .inl rfl | exact .inr rfl
        · rcases hf with rfl | rfl <;> simp
  | leave _ _ hr => cases hr
  | sleep z r hcall hirq hsleep hz hmap =>
    cases r with
    | go => cases hmap
    | panic =>
      cases hmap
      exact hgood.sleep_panic (by rw [← hcall, ← hirq, ← hsleep]) hz
  | main ht hr =>
    rw [ht] at hgood
    exact hgood.main_panic hr

/-- A step on the stack of a process that leaves the locks alone. -/
lemma CliInv.quiet_locks (hinv : CliInv s h O) (hcur : (s.cpu c).cur = some p)
    (hproc : ProcRule s c p (s.slot p).thread t a) (ha : a.locks = false)
    (hmid : t.call.any Call.midway = false) : LockInv (procResult s c p (.go t a i')) O := by
  refine hinv.locks.quiet ?_ (fun d hd => hinv.stack.call_other (.proc p t a i' hcur hproc) hd) ?_
  · exact (a.lock_congr rfl).trans (Act.lock_apply ha)
  · rwa [hinv.call_proc hcur hproc]

/-- A step on the stack of a process that does not panic. -/
lemma CliInv.proc_go (hinv : CliInv s h O) (hcur : (s.cpu c).cur = some p)
    (hstep : procStep s c p = some (.go t a i')) :
    ∃ O', LockInv (procResult s c p (.go t a i')) O' ∧
      (∀ d, d ≠ c → O' d = O d) ∧
      Good t (O' c).card i' (nextSaved (s.cpu c).intr i' (h p)) := by
  have hgood := (hinv.cpus c).on p hcur
  have hproc := procStep_procRule hstep
  have hrule := Rule.proc p t a i' hcur hproc
  have hquiet : a.locks = false → t.call.any Call.midway = false →
      LockInv (procResult s c p (.go t a i')) O :=
    hinv.quiet_locks hcur hproc
  cases procStep_cases hstep with
  | call f r hcall hr hmap =>
    cases r with
    | panic => cases hmap
    | go =>
      cases hmap
      exact (callStep_cli hr).good hinv.locks hgood hcall (by rw [State.call_of_cur hcur, hcall])
        (a.lock_congr rfl) (hinv.call_proc hcur hproc) fun d hd => hinv.stack.call_other hrule hd
  | leave hcall hirq hr =>
    cases hr
    refine ⟨O, hquiet rfl (by rw [hcall]; rfl), fun _ _ => rfl, ?_⟩
    rw [nextSaved, if_neg fun h => h.2 h.1]
    exact hgood.leave hcall hirq
  | sleep z r hcall hirq hsleep hz hmap =>
    cases r with
    | panic => cases hmap
    | go =>
      cases hmap
      obtain ⟨hgood', ha, hmid⟩ := hgood.sleep (by rw [← hcall, ← hirq, ← hsleep]) hz
      exact ⟨O, hquiet ha hmid, fun _ _ => rfl, by rw [hirq]; exact hgood'⟩
  | main ht hr =>
    rw [ht] at hgood
    obtain ⟨hgood', ha, hmid⟩ := hgood.main (mainStep_cases hr)
    exact ⟨O, hquiet ha hmid, fun _ _ => rfl, hgood'⟩

/-- While a CPU is on the stack of a process, its own stack is at the `swtch`. -/
lemma CliInv.at_swtch (hinv : CliInv s h O) (hcur : (s.cpu c).cur = some p) :
    (s.cpu c).pc = .pub1 p ∧ (s.cpu c).irq = none ∧ (s.cpu c).call = none := by
  obtain ⟨-, hpc, -⟩ := ((hinv.stack.held c).of_cur hcur).of_cur hcur
  have hirq : (s.cpu c).irq = none := by
    by_contra hne
    rw [(hinv.cpus c).handler hne] at hpc
    cases hpc
  exact ⟨hpc, hirq, (hinv.cpus c).quiet hirq⟩

/-- The code of a process makes a call, or its interrupt handler ends. -/
lemma Good.op (hgood : Good t n i x) (ho : o.Disciplined i) (hstep : ProcOp s p t o y) :
    Good y.1 n i x ∧ y.2.locks = false ∧ y.1.call.any Call.midway = false := by
  cases hstep with
  | handler hcall hirq hf =>
    have hhandler := hgood.handler hcall hirq hf
    rw [hirq] at hhandler
    exact ⟨hhandler, rfl, (Op.kind_of_call (i := i) hf).2.2.2⟩
  | trapEnd hcall hirq hf =>
    refine ⟨hgood.trapEnd hcall hirq ho hf, rfl, ?_⟩
    rcases hf with rfl | rfl <;> rfl
  | main ht h =>
    rw [ht] at hgood
    exact hgood.mainOp ho h

lemma CliInv.cpu_quiet_locks (hinv : CliInv s h O) (hrule : Rule s c (a.apply (setCpu s c k)))
    (hk : k.cur = none) (ha : a.locks = false) (hmid : k.call.any Call.midway = false) :
    LockInv (a.apply (setCpu s c k)) O := by
  have hcpu : (a.apply (setCpu s c k)).cpu c = k := by rw [Act.cpu_apply, cpu_setCpu]
  refine hinv.locks.quiet ?_ (fun d hd => hinv.stack.call_other hrule hd) ?_
  · exact (a.lock_congr rfl).trans (Act.lock_apply ha)
  · rwa [State.call_of_off (by rw [hcpu, hk]), hcpu]

/-- The stack of `scheduler` is not in an interrupt. -/
lemma CliInv.idle_at (hinv : CliInv s h O) (hcur : (s.cpu c).cur = none) (hirq : (s.cpu c).irq = none) :
    ∃ x, Good (.at (s.cpu c).pc.main) (O c).card (s.cpu c).intr x := by
  obtain ⟨x, hgood⟩ := (hinv.cpus c).idle hcur
  rw [Cpu.thread, hirq, (hinv.cpus c).quiet hirq] at hgood
  exact ⟨x, hgood⟩

lemma free_schedMain (pc : SchedPc) : pc.main.free = false := by
  cases pc <;> rfl

/-- A process that `scheduler` switches to finds the count that it left. -/
lemma CliInv.resume (hinv : CliInv s h O) (hcur : (s.cpu c).cur = none) (hirq : (s.cpu c).irq = none)
    (hpc : (s.cpu c).pc = .swtch p) :
    Good (s.slot p).thread (O c).card (s.cpu c).intr (h p) ∧
      (s.slot p).thread.call.any Call.midway = false := by
  obtain ⟨x, hgood⟩ := hinv.idle_at hcur hirq
  rw [hpc] at hgood
  have hzero : (O c).card = 0 := hgood.owned 0 rfl
  have hone : (s.cpu c).intr.ncli = 1 := by
    rw [hgood.ncli, hzero]
    rfl
  rw [hzero]
  have htakes := takes_swtch hpc
  have hlive : (s.slot p).state.stage = .live := by
    rw [hinv.kin.seq.taken c p htakes, hpc]
    rfl
  rcases hinv.parked p (fun d => hinv.kin.seq.off c d p htakes) hlive with hnew | ⟨b, e, hcall, hwf, hsaved⟩
  · rw [hnew]
    exact ⟨⟨rfl, hone, hgood.flag, fun k hk => some.inj hk, fun _ => .inl rfl⟩, rfl⟩
  · have hbase : (s.slot p).thread.owned = some 0 ∧ (s.slot p).thread.depth = 1 := by
      cases b with
      | true =>
        obtain ⟨howned, hdepth⟩ := Thread.of_yield hwf hcall rfl
        exact ⟨howned, hdepth.trans rfl⟩
      | false => exact Thread.of_sched hwf hcall rfl
    refine ⟨⟨hwf, ?_, hgood.flag, ?_, fun _ => .inr ?_⟩, by rw [hcall]; rfl⟩
    · rw [hone, hbase.2]
      rfl
    · intro k hk
      exact some.inj (hbase.1.symm.trans hk)
    · rw [hsaved, hcall]
      rfl

/-! ### On the stack of a process -/

section Process

variable (hinv : CliInv s h O) (hok : republishes s (s.cpu c) = false) (hlive : s.panic = none)
  (hcur : (s.cpu c).cur = some p)

include hinv hok hlive hcur

/-- A step on the stack of a process. -/
lemma CliInv.proc (hproc : ProcRule s c p (s.slot p).thread t a)
    (hlocks : LockInv (procResult s c p (.go t a i')) O')
    (hO : ∀ d, d ≠ c → O' d = O d) (hgood : Good t (O' c).card i' x) :
    CliInv (procResult s c p (.go t a i')) (Function.update h p x) O' := by
  have hrule := Rule.proc p t a i' hcur hproc
  have hcpu : (procResult s c p (.go t a i')).cpu c = { s.cpu c with intr := i' } := by
    rw [procResult, Act.cpu_apply, cpu_setThread, cpu_setCpu]
  refine hinv.update hok hrule ?_ hlocks hO ?_ ?_ ?_
  · intro e he
    rw [procResult, Act.panic_apply] at he
    cases hlive.symm.trans he
  · intro q hq
    refine update_of_ne ?_ _ _
    rintro rfl
    exact hq hcur
  · rw [hcpu]
    refine ⟨?_, (fun hnone => by cases hcur.symm.trans hnone), (hinv.cpus c).quiet, (hinv.cpus c).handler⟩
    intro q hq
    obtain rfl := some.inj (hcur.symm.trans hq)
    rw [procResult, a.thread_apply _ (hinv.ne_stack hcur hproc), thread_setThread, update_self]
    exact hgood
  · intro q hq hne
    rw [hcpu] at hne
    exact absurd hq hne

lemma CliInv.run_proc {r : Res Thread} (hstep : procStep s c p = some r) : ∃ O', CliInv (procResult s c p r)
    (savedNext s (.run c) (procResult s c p r) h) O' := by
  cases r with
  | panic e =>
    have hsaved : savedNext s (.run c) (procResult s c p (.panic e)) h = h := savedNext_of_intr rfl
    rw [hsaved]
    exact ⟨O, hinv.halt hok (hinv.proc_panic hcur hstep)⟩
  | go t a i' =>
    obtain ⟨O', hlocks, hO, hgood⟩ := hinv.proc_go hcur hstep
    refine ⟨O', ?_⟩
    rw [savedNext_of_cur (l := .run c) hcur]
    have hcpu : ((procResult s c p (.go t a i')).cpu c).intr = i' := by
      rw [procResult, Act.cpu_apply, cpu_setThread, cpu_setCpu]
    simp only [Label.cpu, hcpu]
    exact hinv.proc hok hlive hcur (procStep_procRule hstep) hlocks hO hgood

/-- The `swtch` to `scheduler`. -/
lemma CliInv.out {b e : Bool} (hcall : (s.slot p).thread.call = some (.schedSwtch b e)) : CliInv
    (swtchOut s c p b e) h O := by
  have hgood := (hinv.cpus c).on p hcur
  obtain ⟨hpc, hirq, hnone⟩ := hinv.at_swtch hcur
  have hrule := Rule.out p b e hcur hcall
  have hcpu : (swtchOut s c p b e).cpu c = { s.cpu c with cur := none } := by
    rw [swtchOut, cpu_setThread, cpu_setCpu]
  have hkind : (Call.schedSwtch b e).kind = .yield ∨ (Call.schedSwtch b e).kind = .sched := by
    cases b
    · exact .inr rfl
    · exact .inl rfl
  obtain ⟨hzero, hone⟩ := hgood.sched hcall hkind (by simp)
  refine hinv.update hok hrule ?_ ?_ (fun _ _ => rfl) (fun _ _ => rfl) ?_ ?_
  · intro e' he
    cases hlive.symm.trans he
  · refine hinv.locks.quiet rfl (fun d hd => hinv.stack.call_other hrule hd) ?_
    rw [State.call_of_off (by rw [hcpu]), hcpu, hnone]
    rfl
  · rw [hcpu]
    refine ⟨(fun q hq => by cases hq), fun _ => ?_, (hinv.cpus c).quiet, (hinv.cpus c).handler⟩
    refine ⟨some (savedIntena none (s.cpu c).intr), ?_, ?_, hgood.flag, ?_, fun _ => .inr ?_⟩
    · simp [Cpu.thread, hpc, hirq, hnone, Thread.wf]
    · simp only [Cpu.thread, hpc, hirq, hnone, hone, hzero]
      rfl
    · intro k hk
      simp only [Cpu.thread, hpc, hirq, hnone] at hk
      rw [hzero]
      exact some.inj hk
    · simp only [Cpu.thread, hnone]
  · intro q hq _
    obtain rfl := some.inj (hcur.symm.trans hq)
    rw [swtchOut, thread_setThread]
    refine .inr ⟨b, e, rfl, Thread.wf_call hgood.wf hcall ?_, ?_⟩
    · rintro g ⟨rfl⟩
      rfl
    · rcases hgood.saved (by rw [hone]; decide) with hnew | hsaved
      · exact absurd hnew (Thread.ne_new (.inl (by simp [hcall])))
      · rw [hsaved, hcall]
        rfl

lemma CliInv.op_proc (ho : o.Disciplined (s.cpu c).intr) (hop : ProcOp s p (s.slot p).thread o y) :
    CliInv (y.2.apply (setThread s p y.1)) h O := by
  have hproc := hop.rule (c := c)
  obtain ⟨hgood, ha, hmid⟩ := ((hinv.cpus c).on p hcur).op ho hop
  have hinv' := hinv.proc hok hlive hcur hproc (hinv.quiet_locks hcur hproc ha hmid) (fun _ _ => rfl) hgood
  rwa [procResult, setCpu_self, update_eq_self] at hinv'

/-- The handler, taken on the stack of a process. -/
lemma CliInv.interrupt_proc (ht : (s.slot p).thread = .at m) (hmain : m.interruptible = true)
    (hflag : (s.cpu c).intr.flag = true) :
    CliInv (setThread (setCpu s c { s.cpu c with intr := { (s.cpu c).intr with flag := false } }) p
      ⟨m, none, some .handler, none⟩) h O := by
  have hproc : ProcRule s c p (s.slot p).thread ⟨m, none, some .handler, none⟩ .none := by
    rw [ht]
    exact .interrupt rfl hmain
  have hgood := (hinv.cpus c).on p hcur
  rw [ht] at hgood
  have hinv' := hinv.proc hok hlive hcur hproc (hinv.quiet_locks hcur hproc rfl rfl) (fun _ _ => rfl)
    (hgood.interrupt hmain hflag)
  rwa [update_eq_self] at hinv'

end Process

/-! ### On the stack of `scheduler` -/

section Scheduler

variable (hinv : CliInv s h O) (hok : republishes s (s.cpu c) = false) (hlive : s.panic = none)
  (hcur : (s.cpu c).cur = none)

include hinv hok hlive hcur

/-- A step on the stack of `scheduler` that stays there. -/
lemma CliInv.cpu (hrule : Rule s c (a.apply (setCpu s c k))) (hk : k.cur = none)
    (hlocks : LockInv (a.apply (setCpu s c k)) O') (hO : ∀ d, d ≠ c → O' d = O d)
    (hgood : Good k.thread (O' c).card k.intr x) (hquiet : k.irq = none → k.call = none)
    (hhandler : k.irq ≠ none → k.pc = .pushcli) : CliInv (a.apply (setCpu s c k)) h O' := by
  have hcpu : (a.apply (setCpu s c k)).cpu c = k := by rw [Act.cpu_apply, cpu_setCpu]
  refine hinv.update hok hrule ?_ hlocks hO (fun _ _ => rfl) ?_ ?_
  · intro e he
    rw [Act.panic_apply] at he
    cases hlive.symm.trans he
  · rw [hcpu]
    exact ⟨(fun q hq => by cases hk.symm.trans hq), fun _ => ⟨x, hgood⟩, hquiet, hhandler⟩
  · intro q hq
    cases hcur.symm.trans hq

/-- A call in an interrupt handler on the stack of `scheduler`. -/
lemma CliInv.run_cpuCall (hcall : (s.cpu c).call = some f) {r : Res (Option Call)}
    (hstep : callStep s c none f = some r) : ∃ O', CliInv (cpuResult s c r) h O' := by
  obtain ⟨x, hgood⟩ := (hinv.cpus c).idle hcur
  cases r with
  | panic =>
    refine ⟨O, hinv.halt hok (hgood.call_panic hcall (fun q b hq => by cases hq) ?_ hstep)⟩
    intro b hf
    rcases hf with rfl | rfl <;> simp [callStep] at hstep
  | go f' a i' =>
    have hrule := Rule.cpuCall f f' a i' hcur hcall hstep
    have hcpu : (a.apply (setCpu s c { s.cpu c with call := f', intr := i' })).cpu c =
        { s.cpu c with call := f', intr := i' } := by rw [Act.cpu_apply, cpu_setCpu]
    have hself : (a.apply (setCpu s c { s.cpu c with call := f', intr := i' })).call c = f' := by
      rw [State.call_of_off (by rw [hcpu, hcur]), hcpu]
    have hlock : (a.apply (setCpu s c { s.cpu c with call := f', intr := i' })).lock = (a.apply s).lock :=
      a.lock_congr rfl
    obtain ⟨O', hlocks, hO, hgood'⟩ := (callStep_cli hstep).good hinv.locks hgood hcall
      (by rw [State.call_of_off hcur, hcall]) hlock hself fun d hd => hinv.stack.call_other hrule hd
    refine ⟨O', hinv.cpu hok hlive hcur hrule hcur hlocks hO hgood' ?_ (hinv.cpus c).handler⟩
    intro hirq
    cases hcall.symm.trans ((hinv.cpus c).quiet hirq)

lemma CliInv.swtch (hirq : (s.cpu c).irq = none)
    (hrule : Rule s c (setCpu s c { s.cpu c with pc := .pub1 p, cur := some p }))
    (hgood : Good (s.slot p).thread (O c).card (s.cpu c).intr (h p))
    (hmid : (s.slot p).thread.call.any Call.midway = false) :
    CliInv (setCpu s c { s.cpu c with pc := .pub1 p, cur := some p }) h O := by
  have hcpu := cpu_setCpu s c { s.cpu c with pc := .pub1 p, cur := some p }
  refine hinv.update hok hrule ?_ ?_ (fun _ _ => rfl) (fun _ _ => rfl) ?_ ?_
  · intro e he
    cases hlive.symm.trans he
  · refine hinv.locks.quiet rfl (fun d hd => hinv.stack.call_other hrule hd) ?_
    rwa [State.call_of_cur (p := p) (by rw [hcpu])]
  · rw [hcpu]
    refine ⟨?_, (fun hnone => by cases hnone), (hinv.cpus c).quiet, fun hne => absurd hirq hne⟩
    rintro q ⟨rfl⟩
    exact hgood
  · intro q hq
    cases hcur.symm.trans hq

/-- A step of `scheduler`. -/
lemma CliInv.run_sched (hirq : (s.cpu c).irq = none) (hstep : schedStep s (s.cpu c) = .ok (k, a)) :
    CliInv (a.apply (setCpu s c k)) h O := by
  have hcall := (hinv.cpus c).quiet hirq
  obtain ⟨x, hgood⟩ := hinv.idle_at hcur hirq
  have hrule := Rule.sched k a hcur hcall (schedStep_edge hstep)
  have hsti : (s.cpu c).pc = .sti → (s.cpu c).intr.ncli = 0 := by
    intro hpc
    rw [hpc] at hgood
    have hzero : (O c).card = 0 := hgood.owned 0 rfl
    rw [hgood.ncli, hzero]
    rfl
  obtain ⟨d, hcli⟩ := schedStep_cli hsti hstep
  have hkirq : k.irq = none := hcli.irq.trans hirq
  have hkcall : k.call = none := hcli.call.trans hcall
  obtain ⟨y, hgood'⟩ := hgood.sched_move (free_schedMain _) hcli.intr hcli.depth
  have hthread : k.thread = .at k.pc.main := by rw [Cpu.thread, hkirq, hkcall, Thread.at]
  rw [← hthread] at hgood'
  cases hkcur : k.cur with
  | none =>
    refine hinv.cpu hok hlive hcur hrule hkcur ?_ (fun _ _ => rfl) hgood' (fun _ => hkcall)
      fun hne => absurd hkirq hne
    exact hinv.cpu_quiet_locks hrule hkcur hcli.locks (by rw [hkcall]; rfl)
  | some p =>
    -- the `swtch`
    obtain ⟨hpc, rfl, rfl⟩ : (s.cpu c).pc = .swtch p ∧ a = .none ∧
        k = { s.cpu c with pc := .pub1 p, cur := some p } := by
      cases schedStep_edge hstep with
      | swtch q hq =>
        cases hkcur
        exact ⟨hq, rfl, rfl⟩
      | idle k' _ _ hk' =>
        rw [hk', hcur] at hkcur
        cases hkcur
      | _ => cases hcur.symm.trans hkcur
    obtain ⟨hresume, hmid⟩ := hinv.resume hcur hirq hpc
    exact hinv.swtch hok hlive hcur hirq hrule hresume hmid

/-- An interrupt on the stack of `scheduler`. -/
lemma CliInv.cpu_irq {irq : Option Irq} (hcall : (s.cpu c).call = none)
    (hgood : Good ⟨(s.cpu c).pc.main, none, irq, f'⟩ (O c).card i' x) (hmid : f'.any Call.midway = false)
    (hquiet : irq = none → f' = none) (hhandler : irq ≠ none → (s.cpu c).pc = .pushcli) :
    CliInv (setCpu s c { s.cpu c with irq := irq, call := f', intr := i' }) h O := by
  have hrule := Rule.cpuIrq irq f' i' hcur hcall
  exact hinv.cpu (a := .none) hok hlive hcur hrule hcur (hinv.cpu_quiet_locks (a := .none) hrule hcur rfl hmid)
    (fun _ _ => rfl) hgood hquiet hhandler

omit hlive in
/-- The panic of `popcli` in `scheduler`. -/
lemma CliInv.sched_panic (hirq : (s.cpu c).irq = none) (herr : schedStep s (s.cpu c) = .error e) :
    CliInv { s with panic := some e } h O := by
  refine hinv.halt hok ?_
  obtain ⟨x, hgood⟩ := hinv.idle_at hcur hirq
  rcases schedStep_error herr with he | ⟨hpop, hdepth⟩
  · exact he
  · refine absurd hpop (popcli_ne_error hgood.flag ?_)
    have hcount : (s.cpu c).intr.ncli = (O c).card + (s.cpu c).pc.main.depth := hgood.ncli
    omega

end Scheduler

/-! ### Every step -/

/-- The lock that a call is made with. -/
def Op.lock : Op → Option Lock
  | .sleep _ lk => some lk
  | _ => none

/-- The code calls these functions as the rest of the kernel does. -/
def Disciplined (s : State) : Label → Prop
  | .op c o => o.Disciplined (s.cpu c).intr ∧ o.lock.all (holding s c) = true
  | .run _ | .interrupt _ => True

instance (o : Op) (i : Intr) : Decidable (o.Disciplined i) :=
  match o with
  | .sleep .. => inferInstanceAs (Decidable (_ = _))
  | .yield | .fork | .exit | .closed | .wait | .killHandler | .trapEnd _ => inferInstanceAs (Decidable (_ = _))
  | .acquire _ | .release _ | .wakeup _ | .alloc _ => isTrue trivial

instance (s : State) (l : Label) : Decidable (Disciplined s l) :=
  match l with
  | .op _ _ => inferInstanceAs (Decidable (_ ∧ _))
  | .run _ | .interrupt _ => isTrue trivial

lemma CliInv.step (hinv : CliInv s h O) (hok : NoRepublish s l) (hdis : Disciplined s l)
    (hstep : step s l = some s') : ∃ O', CliInv s' (savedNext s l s' h) O' := by
  obtain ⟨hlive, hmove⟩ := step_move hstep
  have hoff : (s.cpu l.cpu).cur = none → savedNext s l s' h = h := savedNext_of_off
  generalize hc : l.cpu = c at hmove hoff
  cases hmove with
  | proc hcur h => exact hinv.run_proc hok hlive hcur h
  | @out p b e hcur hcall =>
    have hsaved : savedNext s (.run c) (swtchOut s c p b e) h = h := by
      apply savedNext_of_intr
      rw [Label.cpu, swtchOut, cpu_setThread, cpu_setCpu]
    rw [hsaved]
    exact ⟨O, hinv.out hok hlive hcur hcall⟩
  | @op p o x hcur hop =>
    have hsaved : savedNext s (.op c o) (x.2.apply (setThread s p x.1)) h = h := by
      apply savedNext_of_intr
      rw [Act.cpu_apply, cpu_setThread]
    rw [hsaved]
    exact ⟨O, hinv.op_proc hok hlive hcur hdis.1 hop⟩
  | interrupt hcur ht hmain hflag =>
    rw [savedNext_of_cur (l := .interrupt c) hcur, Label.cpu, cpu_setThread, cpu_setCpu, nextSaved,
      if_neg fun h => h.2 h.1, update_eq_self]
    exact ⟨O, hinv.interrupt_proc hok hlive hcur ht hmain hflag⟩
  | cpuCall hcur hcall h =>
    rw [hoff hcur]
    exact hinv.run_cpuCall hok hlive hcur hcall h
  | cpuLeave hcur hcall hirq =>
    obtain ⟨x, hgood⟩ := (hinv.cpus c).idle hcur
    have hleave := hgood.leave hcall hirq
    have hnone : (s.cpu c).thread.call = none := hcall
    rw [hnone] at hleave
    rw [hoff hcur]
    exact ⟨O, hinv.cpu_irq hok hlive hcur hcall hleave rfl (fun _ => rfl) fun hne => absurd rfl hne⟩
  | sched hcur hcall hirq h =>
    rw [hoff hcur]
    exact ⟨O, hinv.run_sched hok hlive hcur hirq h⟩
  | schedPanic hcur hirq h =>
    rw [hoff hcur]
    exact ⟨O, hinv.sched_panic hok hcur hirq h⟩
  | cpuHandler hcur hcall hirq hf =>
    obtain ⟨x, hgood⟩ := (hinv.cpus c).idle hcur
    have hhandler := hgood.handler hcall hirq hf
    have hirq' : (s.cpu c).thread.irq = some .handler := hirq
    rw [hirq'] at hhandler
    rw [hoff hcur]
    exact ⟨O, hinv.cpu_irq hok hlive hcur hcall hhandler (Op.kind_of_call (i := (s.cpu c).intr) hf).2.2.2
      (fun h => by cases h) fun _ => (hinv.cpus c).handler (by simp [hirq])⟩
  | cpuTrapEnd hcur hcall hirq =>
    obtain ⟨x, hgood⟩ := (hinv.cpus c).idle hcur
    rw [hoff hcur]
    exact ⟨O, hinv.cpu_irq hok hlive hcur hcall (hgood.trapEnd hcall hirq hdis.1 (.inl rfl)) rfl
      (fun h => by cases h) fun _ => (hinv.cpus c).handler (by simp [hirq])⟩
  | cpuInterrupt hcur hcall hirq hpc hflag =>
    obtain ⟨x, hgood⟩ := hinv.idle_at hcur hirq
    rw [hoff hcur]
    exact ⟨O, hinv.cpu_irq hok hlive hcur hcall (hgood.interrupt (by rw [hpc]; rfl) hflag) rfl
      (fun h => by cases h) fun _ => hpc⟩

lemma cliInv_boot : CliInv boot (fun _ => none) fun _ => ∅ where
  stack := stackInv_boot
  kin := kinInv_boot
  locks := by
    constructor
    · intro c d lk h
      cases h
    · intro lk
      simp [boot]
    · intro lk c h
      cases h
    · exact fun c => trivial
  fresh := by
    intro p hstate
    rw [slot_boot] at hstate
    split_ifs at hstate <;> cases hstate
  cpus c := ⟨(fun p h => by cases h), (fun _ => ⟨none, rfl, rfl, fun _ => rfl, fun _ hk => some.inj hk,
    fun h => absurd rfl h⟩), fun _ => rfl, fun h => absurd rfl h⟩
  parked := by
    intro p _ hlive
    rw [slot_boot] at hlive ⊢
    split_ifs at hlive ⊢
    · exact .inl rfl
    · cases hlive
  panic := by
    intro e h
    cases h

/-! ### The discipline -/

/-- A CPU is about to do a `swtch`, in either direction. -/
def AtSwtch (s : State) (c : CpuId) : Prop :=
  match (s.cpu c).cur with
  | some p => ∃ b e, (s.slot p).thread.call = some (.schedSwtch b e)
  | none => ∃ p, (s.cpu c).pc = .swtch p

/-- What the code relies on for interrupts. `h` are the interrupt flags before the outermost `pushcli` of each
    process, recorded at each step. -/
structure CliSafe (s : State) (h : Slot → Option Bool) : Prop where
  swtch : ∀ c, AtSwtch s c → (s.cpu c).intr.ncli = 1
  panic : ∀ e, s.panic = some e → e.cli = false
  /-- the `popcli` that matches the outermost `pushcli`; that of `forkret` matches none of the process -/
  restore : ∀ l s' p, step s l = some s' → (s.cpu l.cpu).cur = some p → (s.cpu l.cpu).intr.ncli ≠ 0 →
    (s'.cpu l.cpu).intr.ncli = 0 →
    (s.slot p).thread = .new ∨ h p = some (s'.cpu l.cpu).intr.flag

lemma CliInv.swtch_ncli (hinv : CliInv s h O) (hat : AtSwtch s c) : (s.cpu c).intr.ncli = 1 := by
  cases hcur : (s.cpu c).cur with
  | some p =>
    rw [AtSwtch, hcur] at hat
    obtain ⟨b, e, hcall⟩ := hat
    refine (((hinv.cpus c).on p hcur).sched hcall ?_ (by simp)).2
    cases b
    · exact .inr rfl
    · exact .inl rfl
  | none =>
    rw [AtSwtch, hcur] at hat
    obtain ⟨p, hpc⟩ := hat
    have hirq : (s.cpu c).irq = none := by
      by_contra hne
      rw [(hinv.cpus c).handler hne] at hpc
      cases hpc
    obtain ⟨x, hgood⟩ := hinv.idle_at hcur hirq
    rw [hpc] at hgood
    have hzero : (O c).card = 0 := hgood.owned 0 rfl
    rw [hgood.ncli, hzero]
    rfl

/-- Only `pushcli` and `popcli` change the number of pending calls. -/
lemma procStep_intr (hstep : procStep s c p = some (.go t a i')) :
    (∃ d, IntrEdge (s.cpu c).intr i' d ∧
      savedIntena (s.slot p).thread.call (s.cpu c).intr = (s.cpu c).intr.intena) ∨
      i'.ncli = (s.cpu c).intr.ncli := by
  cases procStep_cases hstep with
  | call f r hcall hr hmap =>
    rw [hcall]
    cases r with
    | panic => cases hmap
    | go =>
      cases hmap
      cases callStep_cli hr with
      | move d hi _ _ _ _ hf => exact .inl ⟨d, hi, hf⟩
      | _ => exact .inr rfl
  | leave _ _ hr =>
    cases hr
    exact .inr rfl
  | sleep z r hcall _ _ hz hmap =>
    rw [hcall]
    cases r with
    | panic => cases hmap
    | go =>
      cases hmap
      obtain ⟨d, hi⟩ := sleepStep_intr hz
      exact .inl ⟨d, hi, rfl⟩
  | main ht hr =>
    rw [ht]
    obtain ⟨d, hcli⟩ := (mainStep_cases hr).cli
    exact .inl ⟨d, hcli.intr, rfl⟩

lemma Good.restore (hgood : Good t n i x) {k : Int} (hi : IntrEdge i i' k)
    (hsaved : savedIntena t.call i = i.intena) (hne : i.ncli ≠ 0) (hzero : i'.ncli = 0) :
    t = .new ∨ x = some i'.flag := by
  have hpos : 0 < i.ncli := lt_of_le_of_ne hgood.nonneg (Ne.symm hne)
  rw [hi.popped hpos hzero, ← hsaved]
  exact hgood.saved hne

lemma CliInv.restore (hinv : CliInv s h O) (hstep : Sched.step s l = some s')
    (hcur : (s.cpu l.cpu).cur = some p) (hne : (s.cpu l.cpu).intr.ncli ≠ 0)
    (hzero : (s'.cpu l.cpu).intr.ncli = 0) :
    (s.slot p).thread = .new ∨ h p = some (s'.cpu l.cpu).intr.flag := by
  have hmove := (step_move hstep).2
  generalize l.cpu = c at hcur hne hzero hmove ⊢
  cases hmove with
  | @proc q r hq hr =>
    obtain rfl := some.inj (hcur.symm.trans hq)
    cases r with
    | panic => exact absurd hzero hne
    | go t a i' =>
      have hcpu : ((procResult s c p (.go t a i')).cpu c).intr = i' := by
        rw [procResult, Act.cpu_apply, cpu_setThread, cpu_setCpu]
      rw [hcpu] at hzero ⊢
      rcases procStep_intr hr with ⟨d, hi, hsaved⟩ | hsame
      · exact ((hinv.cpus c).on p hcur).restore hi hsaved hne hzero
      · exact absurd (hsame.symm.trans hzero) hne
  | out =>
    rw [swtchOut, cpu_setThread, cpu_setCpu] at hzero
    exact absurd hzero hne
  | op =>
    rw [Act.cpu_apply, cpu_setThread] at hzero
    exact absurd hzero hne
  | interrupt =>
    rw [cpu_setThread, cpu_setCpu] at hzero
    exact absurd hzero hne
  | cpuCall hoff | cpuLeave hoff | sched hoff | schedPanic hoff | cpuHandler hoff | cpuTrapEnd hoff
  | cpuInterrupt hoff => cases hcur.symm.trans hoff

lemma CliInv.safe (hinv : CliInv s h O) : CliSafe s h where
  swtch := fun _ => hinv.swtch_ncli
  panic := hinv.panic
  restore := fun _ _ _ hstep hcur hne hzero => hinv.restore hstep hcur hne hzero

/-- `scheduler` as the code has it: while a process is still in `sched` on CPU 1, CPU 0 publishes it as `SLEEPING`,
    an interrupt handler on CPU 2 wakes it up and CPU 3 makes it `RUNNING`. -/
theorem schedRunning_reached : ∃ s, Reach step Disciplined boot s ∧ s.panic = some .schedRunning := by
  refine Reach.exists_of_exec
    (List.replicate 8 (.run 0) ++ [.op 0 .yield] ++ List.replicate 6 (.run 0) ++
      List.replicate 9 (.run 1) ++ [.op 1 (.acquire 0)] ++ List.replicate 3 (.run 1) ++
      [.op 1 (.sleep (.addr 1) 0)] ++ List.replicate 6 (.run 1) ++ [.run 0] ++
      [.run 2, .interrupt 2, .op 2 (.wakeup (.addr 1))] ++ List.replicate 4 (.run 2) ++
      List.replicate 6 (.run 3) ++ [.run 1]) ?_
  decide +kernel

/-- If after each `swtch` only one of the three `cas` takes effect, and the rest of the kernel calls these
    functions as it should, calls of `pushcli` are matched over all context switches. -/
theorem cliSafe_of_noRepublish {x : State × (Slot → Option Bool)}
    (hrun : Reach (withHistory step savedNext) (fun y l => NoRepublish y.1 l ∧ Disciplined y.1 l)
      (boot, fun _ => none) x) : CliSafe x.1 x.2 := by
  have hinv : ∃ O, CliInv x.1 x.2 O := by
    refine hrun.invariant (I := fun y => ∃ O, CliInv y.1 y.2 O) ⟨_, cliInv_boot⟩ ?_
    rintro y l z ⟨O, hinv⟩ ⟨hok, hdis⟩ hstep
    obtain ⟨hst, hnext⟩ := withHistory_eq_some.mp hstep
    rw [hnext]
    exact hinv.step hok hdis hst
  obtain ⟨O, hinv⟩ := hinv
  exact hinv.safe

/-- The process yields, goes on on the other CPU and sleeps there with a lock. -/
theorem cliSafe_at_sleep : ∃ s h,
    Reach (withHistory step savedNext) (fun y l => NoRepublish y.1 l ∧ Disciplined y.1 l)
      (boot, fun _ => none) (s, h) ∧
      (s.cpu 1).cur = some initproc ∧ (s.slot initproc).thread.call = some (.schedSwtch false true) ∧
      CliSafe s h := by
  have hexec : ∃ s, Reach step (fun s l => NoRepublish s l ∧ Disciplined s l) boot s ∧
      (s.cpu 1).cur = some initproc ∧ (s.slot initproc).thread.call = some (.schedSwtch false true) :=
    Reach.exists_of_exec
      (List.replicate 8 (.run 0) ++ [.op 0 .yield] ++ List.replicate 9 (.run 0) ++
        List.replicate 9 (.run 1) ++ [.op 1 (.acquire 0)] ++ List.replicate 3 (.run 1) ++
        [.op 1 (.sleep (.addr 1) 0)] ++ List.replicate 8 (.run 1)) (by decide +kernel)
  obtain ⟨s, hrun, hcur, hcall⟩ := hexec
  obtain ⟨h, hhist⟩ := @Reach.withHistory _ _ _ _ _ _ _ savedNext hrun fun _ => none
  exact ⟨s, h, hhist, hcur, hcall, cliSafe_of_noRepublish hhist⟩

end Xv6.Sched
