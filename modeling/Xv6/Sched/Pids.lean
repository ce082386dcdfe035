import Xv6.Sched.Kill
import Xv6.Sched.Reap

/-!
# Which processes `kill` finds

`kill` compares `p->pid` in every slot, whatever its state. The pids of slots that hold no process
thus decide what it returns: `wait` clears the pid of the slot that it frees, and `fork` leaves the
pid in place when it fails and gives its slot back.
-/

namespace Xv6.Sched

open Machine

variable {s s' : State} {l : Label} {q : Slot} {dropped : List Word}

/-! ### The pids of free slots -/

/-- The pids of the failed calls of `fork`: those in the slots that go back to `UNUSED`. -/
def nextDropped (s : State) (_ : Label) (s' : State) (dropped : List Word) : List Word :=
  ((List.finRange NPROC).filter fun q =>
      (s.slot q).state = .embryo ∧ (s'.slot q).state = .unused).map (fun q => (s'.slot q).pid) ++
    dropped

lemma mem_nextDropped_of_mem {v : Word} (h : v ∈ dropped) : v ∈ nextDropped s l s' dropped :=
  List.mem_append_right _ h

lemma mem_nextDropped_of_drop (hold : (s.slot q).state = .embryo)
    (hnew : (s'.slot q).state = .unused) : (s'.slot q).pid ∈ nextDropped s l s' dropped := by
  refine List.mem_append_left _ (List.mem_map_of_mem (List.mem_filter.mpr ?_))
  exact ⟨List.mem_finRange q, decide_eq_true ⟨hold, hnew⟩⟩

structure PidInv (s : State) (dropped : List Word) : Prop where
  families : FamilyInv s
  free : ∀ q, (s.slot q).state = .unused → (s.slot q).pid = 0 ∨ (s.slot q).pid ∈ dropped

lemma PidInv.free_step (hinv : PidInv s dropped) (hrule : Rule s l.cpu s')
    (hq : (s'.slot q).state = .unused) :
    (s'.slot q).pid = 0 ∨ (s'.slot q).pid ∈ nextDropped s l s' dropped := by
  rcases hrule.state hinv.families.own q with hsame | hedge
  · rw [hq] at hsame
    have hsettled : (s.slot q).state.Settled := by
      rw [← hsame]
      exact ⟨by decide, by decide⟩
    rw [hinv.families.pid_settled hrule hsettled]
    exact (hinv.free q hsame.symm).imp_right mem_nextDropped_of_mem
  · rw [hq] at hedge
    generalize hold : (s.slot q).state = u at hedge
    cases hedge with
    | drop => exact .inr (mem_nextDropped_of_drop hold hq)
    | free => exact .inl (hinv.families.freed hrule hold hq).1

lemma PidInv.step (hinv : PidInv s dropped) (hrule : Rule s l.cpu s') :
    PidInv s' (nextDropped s l s' dropped) :=
  ⟨hinv.families.rule hrule, fun _ hq => hinv.free_step hrule hq⟩

lemma pidInv_boot : PidInv boot [] := by
  refine ⟨kinInv_boot.families, fun q hq => .inl ?_⟩
  rw [slot_boot] at hq ⊢
  split_ifs at hq ⊢
  cases hq
  rfl

lemma pidInv_reach {x : State × List Word}
    (hrun : Reach (withHistory step nextDropped) Always (boot, []) x) : PidInv x.1 x.2 := by
  refine hrun.invariant (I := fun y => PidInv y.1 y.2) pidInv_boot ?_
  rintro y l z hinv - hstep
  obtain ⟨hst, hnext⟩ := withHistory_eq_some.mp hstep
  rw [hnext]
  exact hinv.step (step_rule hst)

end Xv6.Sched

namespace Xv6.Kill

open Machine

open Sched (CpuId nextSlot slot0 nextDropped)

/-! ### A call of `kill` without steps of others -/

variable {s : Sched.State} {pending : Slot → Word} {pid signum : Word} {p q : Slot} {y : State}
  {c : CpuId}

/-- The loop of `kill` from slot `n` on: the first slot with the pid. -/
def slotFrom (s : Sched.State) (pid : Word) (n : Nat) : Option Slot :=
  ((List.finRange NPROC).drop n).find? fun q => (s.slot q).pid = pid

/-- The end of `kill`: what it returns, and `pending_signals` then. -/
def send (pending : Slot → Word) (signum : Word) : Option Slot → Word × (Slot → Word)
  | some q => (0, Function.update pending q (setBit (pending q) (sigBit signum)))
  | none => (-1, pending)

def kill (s : Sched.State) (pending : Slot → Word) (pid signum : Word) : Word × (Slot → Word) :=
  if BitVec.slt 32 signum then (-1, pending) else send pending signum (slotFrom s pid 0)

/-! ### What `kill` is to do -/

/-- Slot `q` holds a process with this pid. -/
def Holds (s : Sched.State) (q : Slot) (pid : Word) : Prop :=
  (s.slot q).pid = pid ∧ (s.slot q).state ≠ .unused ∧ (s.slot q).state ≠ .negUnused

instance (s : Sched.State) (q : Slot) (pid : Word) : Decidable (Holds s q pid) :=
  inferInstanceAs (Decidable (_ ∧ _))

def ValidSignum (signum : Word) : Prop := 0 ≤ signum.toInt ∧ signum.toInt < 32

instance (signum : Word) : Decidable (ValidSignum signum) := inferInstanceAs (Decidable (_ ∧ _))

/-- `kill` adds the signal to a process with the pid, or it returns -1 and changes nothing. -/
structure KillExact (s : Sched.State) (pending : Slot → Word) (pid signum : Word) : Prop where
  ret : (kill s pending pid signum).1 = 0 ↔ ValidSignum signum ∧ ∃ q, Holds s q pid
  sent : (kill s pending pid signum).1 = 0 → ∃ q, Holds s q pid ∧
    ∃ i : Fin 32, (i.val : Int) = signum.toInt ∧
      (kill s pending pid signum).2 = Function.update pending q (setBit (pending q) i)
  failed : (kill s pending pid signum).1 ≠ 0 → kill s pending pid signum = (-1, pending)

lemma sigBit_of_valid (h : ValidSignum signum) : ((sigBit signum).val : Int) = signum.toInt := by
  obtain ⟨hle, hlt⟩ := h
  have hsmall : 2 * signum.toNat < 4294967296 := by
    by_contra hge
    rw [BitVec.toInt_eq_toNat_cond, if_neg hge] at hle
    have := signum.isLt
    omega
  rw [BitVec.toInt_eq_toNat_cond, if_pos hsmall] at hlt ⊢
  simp only [sigBit]
  omega

lemma slotFrom_zero_eq_some (h : slotFrom s pid 0 = some q) : (s.slot q).pid = pid := by
  rw [slotFrom] at h
  exact of_decide_eq_true (List.find?_some (p := fun q => decide ((s.slot q).pid = pid)) h)

lemma slotFrom_zero_eq_none (h : slotFrom s pid 0 = none) (q : Slot) : (s.slot q).pid ≠ pid :=
  fun hq => List.find?_eq_none.mp h q (List.mem_finRange q) (decide_eq_true hq)

lemma killExact_of_failed (hkill : kill s pending pid signum = (-1, pending))
    (hno : ¬ (ValidSignum signum ∧ ∃ q, Holds s q pid)) : KillExact s pending pid signum := by
  have hne : (kill s pending pid signum).1 ≠ 0 := by
    rw [hkill]
    exact (by decide : (-1 : Word) ≠ 0)
  exact ⟨⟨fun h => absurd h hne, fun h => absurd h hno⟩, fun h => absurd h hne, fun _ => hkill⟩

/-- A call with a good signal number is exact when every slot with the pid holds a process. -/
lemma killExact_of_valid (hsignum : ValidSignum signum)
    (hlive : ∀ q, (s.slot q).pid = pid → Holds s q pid) : KillExact s pending pid signum := by
  have hkill : kill s pending pid signum = send pending signum (slotFrom s pid 0) := by
    have hle : BitVec.slt 32 signum = false := by
      rw [BitVec.slt_eq_decide, decide_eq_false_iff_not, Int.not_lt]
      exact Int.le_of_lt hsignum.2
    rw [kill, hle]
    rfl
  cases hslot : slotFrom s pid 0 with
  | none =>
    rw [hslot] at hkill
    refine killExact_of_failed hkill ?_
    rintro ⟨_, q, hq⟩
    exact slotFrom_zero_eq_none hslot q hq.1
  | some q =>
    have hq : Holds s q pid := hlive q (slotFrom_zero_eq_some hslot)
    rw [hslot] at hkill
    refine ⟨?_, ?_, ?_⟩ <;> rw [hkill]
    · exact ⟨fun _ => ⟨hsignum, q, hq⟩, fun _ => rfl⟩
    · exact fun _ => ⟨q, hq, sigBit signum, sigBit_of_valid hsignum, rfl⟩
    · exact fun h => absurd rfl h

lemma killExact_of_gt (hsignum : 32 < signum.toInt) : KillExact s pending pid signum := by
  have hlt : BitVec.slt 32 signum = true := by
    rw [BitVec.slt_eq_decide, decide_eq_true_eq]
    exact hsignum
  refine killExact_of_failed (by rw [kill, hlt]; rfl) ?_
  rintro ⟨⟨_, hle⟩, _⟩
  omega

/-! ### Slots without a process -/

/-- The first process runs and calls `fork`, which gets no kernel stack. -/
def failedForkRun : List Sched.Label :=
  List.replicate 8 (.run 0) ++ [.op 0 .fork] ++ List.replicate 9 (.run 0) ++
    [.op 0 (.alloc false), .run 0]

lemma not_killExact (hret : (kill s pending pid signum).1 = 0) (hnone : ∀ q, ¬ Holds s q pid) :
    ¬ KillExact s pending pid signum := by
  intro h
  obtain ⟨_, q, hq⟩ := h.ret.mp hret
  exact hnone q hq

end Xv6.Kill
