import Xv6.Machine.Exclusive
import Xv6.Sched.Steps

/-!
# Slots in transit

A slot in state `EMBRYO` belongs to the process that is setting it up in `fork`, and a slot in state
`NEG_UNUSED` to the process that is freeing it in `wait`: nobody else changes its state.
-/

namespace Xv6.Sched

open Machine

variable {s s' : State} {c : CpuId} {p q r : Slot} {t t' : Thread} {a : Act} {l : Label} {m : Main}
  {v : PState}

/-- A state in which a slot belongs to nobody in this sense. -/
def PState.Settled (v : PState) : Prop := v ≠ .embryo ∧ v ≠ .negUnused

/-- What a process owns is in the state that it made it, and has no second owner. -/
structure OwnInv (s : State) : Prop where
  state : ∀ p q v, (s.slot p).thread.main.owns = some (q, v) → (s.slot q).state = v
  once : Exclusive fun p => (s.slot p).thread.main.owns.map Prod.fst

lemma not_settled_of_owns (h : m.owns = some (q, v)) : ¬ v.Settled := by
  rintro ⟨hembryo, hunused⟩
  cases m <;> cases h <;> contradiction

/-- How a step changes what a process owns. -/
inductive OwnEdge (s : State) :
    Option (Slot × PState) → Option (Slot × PState) → Act → Prop
  | keep (o : Option (Slot × PState)) (a : Act)
      (h : ∀ q v, a = .state q v → (s.slot q).state.Settled) : OwnEdge s o o a
  | take (q : Slot) (v : PState) (h : (s.slot q).state.Settled) :
      OwnEdge s none (some (q, v)) (.state q v)
  | give (q : Slot) (u v : PState) : OwnEdge s (some (q, u)) none (.state q v)
  | drop (o : Option (Slot × PState)) : OwnEdge s o none .none

lemma OwnEdge.none (o : Option (Slot × PState)) : OwnEdge s o o .none :=
  .keep o _ fun _ _ h => by cases h

lemma cas_settled {old new : PState} (hold : old.Settled) :
    ∀ q v, cas s p old new = .state q v → (s.slot q).state.Settled := by
  intro q v h
  obtain ⟨rfl, rfl, hstate⟩ := cas_eq_state h
  exact hstate ▸ hold

lemma waitNext_owns (q : Slot) (b : Bool) : (waitNext q b).owns = none := by
  rw [waitNext]
  split <;> rfl

lemma owns_of_woke {w : Option Slot} (h : m.woke = some w) : m.owns = none := by
  cases m <;> first | rfl | cases h

lemma MainEdge.own (h : MainEdge s p m t a) : OwnEdge s m.owns t.main.owns a := by
  cases h with
  | plain _ m' a howns _ _ _ ha =>
    rw [Thread.at, howns]
    refine .keep _ _ fun q v hq => ?_
    subst hq
    rcases ha q rfl with ⟨_, _, hne, _⟩ | ⟨_, heq⟩
    · exact absurd rfl (hne v)
    · cases heq
  | take _ m' q v howns howns' _ _ hold =>
    rw [Thread.at, howns, howns']
    apply OwnEdge.take q v
    rcases hold with ⟨hold, _⟩ | ⟨hold, _⟩
    all_goals
      rw [hold]
      exact ⟨by decide, by decide⟩
  | give _ m' q u v howns howns' =>
    rw [Thread.at, howns, howns']
    exact .give q u v
  | drop _ m' howns' =>
    rw [Thread.at, howns']
    exact .drop _
  | killCas hold =>
    refine .keep _ _ fun q v hq => ?_
    cases hq
    rw [hold]
    exact ⟨by decide, by decide⟩
  | exitCas => exact .keep _ _ (cas_settled ⟨by decide, by decide⟩)
  | exitLoop _ m' w f a hm hm' _ _ ha =>
    rw [owns_of_woke hm, owns_of_woke hm']
    refine .keep _ _ fun q v hq => ?_
    subst hq
    rcases ha with ha | ⟨_, ha⟩ <;> cases ha
  | waitTest | waitZombie =>
    rw [Thread.at]
    split_ifs
    · exact .none _
    · rw [waitNext_owns]
      exact .none _
  | waitNeg =>
    rw [Thread.at]
    split_ifs <;> exact .none _
  | _ => exact .none _

lemma CallEdge.settled {po : Option Slot} {f : Call} {f' : Option Call}
    (h : CallEdge s po f f' a) : ∀ q v, a = .state q v → (s.slot q).state.Settled := by
  cases h with
  | quiet f' a ha =>
    rintro q v rfl
    cases ha
  | wake f' q hold =>
    intro r v hr
    cases hr
    rw [hold]
    exact ⟨by decide, by decide⟩
  | yield => exact cas_settled ⟨by decide, by decide⟩

lemma ProcRule.own (h : ProcRule s c p t t' a) : OwnEdge s t.main.owns t'.main.owns a := by
  cases h with
  | call f f' a i _ h => exact .keep _ _ (callStep_edge h).settled
  | sleep z z' f a _ _ _ h =>
    cases h with
    | cas => exact .keep _ _ (cas_settled ⟨by decide, by decide⟩)
    | _ => exact .keep _ _ fun _ _ h => by cases h
  | main _ _ _ h => exact h.own
  | _ => exact .none _

lemma SchedEdge.settled {k k' : Cpu} (h : SchedEdge s k k' a) :
    ∀ q v, a = .state q v → (s.slot q).state.Settled := by
  cases h with
  | take _ _ hold | run _ _ hold =>
    intro q v hq
    cases hq
    rw [hold]
    exact ⟨by decide, by decide⟩
  | pub1 | pub2 | pub3 => exact cas_settled ⟨by decide, by decide⟩
  | _ =>
    intro q v hq
    cases hq

/-! ### The invariant -/

lemma OwnInv.not_settled (hinv : OwnInv s) (h : (s.slot p).thread.main.owns = some (q, v)) :
    ¬ (s.slot q).state.Settled := by
  rw [hinv.state p q v h]
  exact not_settled_of_owns h

lemma map_fst_owns (h : m.owns = some (q, v)) : m.owns.map Prod.fst = some q := by
  rw [h, Option.map_some]

variable {o o' : Option (Slot × PState)}

/-- A step of `p` leaves alone the state of a slot that another process owns. -/
lemma OwnInv.state_ne (hinv : OwnInv s) (hp : (s.slot p).thread.main.owns = o) (hedge : OwnEdge s o o' a)
    (hr : r ≠ p) (hown : (s.slot r).thread.main.owns = some (q, v)) : ∀ u, a ≠ .state q u := by
  rintro u rfl
  cases hedge with
  | keep _ _ h => exact hinv.not_settled hown (h q u rfl)
  | take _ _ h => exact hinv.not_settled hown h
  | give =>
    exact hr (hinv.once r p q (map_fst_owns hown) (map_fst_owns hp))

/-- What `p` owns after a step it owned before, or it has just taken it. -/
lemma OwnInv.self (hinv : OwnInv s) (hp : (s.slot p).thread.main.owns = o)
    (hedge : OwnEdge s o (some (q, v)) a) :
    o = some (q, v) ∧ (∀ u, a ≠ .state q u) ∨ (s.slot q).state.Settled ∧ a = .state q v := by
  cases hedge with
  | keep _ _ h => exact .inl ⟨rfl, fun u hu => hinv.not_settled hp (h q u hu)⟩
  | take _ _ h => exact .inr ⟨h, rfl⟩

/-- A step on the stack of `p`. The other processes take nothing. -/
lemma OwnInv.edge {s₁ : State} (hinv : OwnInv s) (hp : (s.slot p).thread.main.owns = o)
    (hedge : OwnEdge s o o' a) (hstate : ∀ q, (s₁.slot q).state = (s.slot q).state)
    (hself : ∀ x, ((a.apply s₁).slot p).thread.main.owns = some x → o' = some x)
    (hother : ∀ r, r ≠ p → ∀ x, ((a.apply s₁).slot r).thread.main.owns = some x →
      (s.slot r).thread.main.owns = some x) : OwnInv (a.apply s₁) := by
  constructor
  · intro r q v hown
    by_cases hr : r = p
    · subst hr
      obtain rfl := hself _ hown
      rcases hinv.self hp hedge with ⟨rfl, hne⟩ | ⟨_, rfl⟩
      · rw [a.state_apply _ hne, hstate, hinv.state r q v hp]
      · rw [state_apply_state]
    · have hold := hother r hr _ hown
      rw [a.state_apply _ (hinv.state_ne hp hedge hr hold), hstate, hinv.state r q v hold]
  · refine hinv.once.step (a := p) ?_ ?_
    · intro r hr q hown
      obtain ⟨x, hx, rfl⟩ := Option.map_eq_some_iff.mp hown
      exact map_fst_owns (hother r hr x hx)
    · intro q hown
      obtain ⟨⟨_, v⟩, hx, rfl⟩ := Option.map_eq_some_iff.mp hown
      obtain rfl := hself _ hx
      rcases hinv.self hp hedge with ⟨rfl, _⟩ | ⟨hsettled, _⟩
      · exact .inl (map_fst_owns hp)
      · refine .inr fun r hr => ?_
        obtain ⟨⟨_, w⟩, hw, rfl⟩ := Option.map_eq_some_iff.mp hr
        exact hinv.not_settled hw hsettled

/-- A new stack owns nothing. -/
lemma owns_apply {x : Slot × PState} (h : ((a.apply s).slot q).thread.main.owns = some x) :
    (s.slot q).thread.main.owns = some x := by
  by_cases ha : a = .stack q
  · rw [ha, thread_apply_stack] at h
    cases h
  · rwa [a.thread_apply s ha] at h

/-- A step on the stack of `scheduler`. -/
lemma OwnInv.settled {s₁ : State} (hinv : OwnInv s) (hslot : s₁.slot = s.slot)
    (h : ∀ q v, a = .state q v → (s.slot q).state.Settled) : OwnInv (a.apply s₁) := by
  refine hinv.edge (p := initproc) rfl (.keep _ _ h) (fun q => by rw [hslot]) ?_ ?_
  · intro x hx
    rw [← hslot]
    exact owns_apply hx
  · intro r _ x hx
    rw [← hslot]
    exact owns_apply hx

lemma OwnInv.rule (hinv : OwnInv s) (h : Rule s c s') : OwnInv s' := by
  cases h with
  | panic | cpuIrq => exact ⟨hinv.state, hinv.once⟩
  | proc p t a i _ h =>
    refine hinv.edge rfl h.own (fun q => by simp) ?_ ?_
    · intro x hx
      simpa using owns_apply hx
    · intro r hr x hx
      simpa [slot_setThread_of_ne _ _ hr] using owns_apply hx
  | out p =>
    refine hinv.edge (a := .none) (p := p) rfl (.none _) (fun q => state_setThread _ p q _) ?_ ?_
    · intro x hx
      simpa using owns_apply hx
    · intro r hr x hx
      simpa [slot_setThread_of_ne _ _ hr] using owns_apply hx
  | sched k a _ _ h => exact hinv.settled rfl h.settled
  | cpuCall f f' a i _ _ h => exact hinv.settled rfl (callStep_edge h).settled

lemma ownInv_boot : OwnInv boot := by
  have hnone : ∀ p, (boot.slot p).thread.main.owns = none := by
    intro p
    rcases thread_boot p with h | h <;> rw [h] <;> rfl
  constructor
  · intro p q v h
    rw [hnone] at h
    cases h
  · simp only [hnone]
    exact exclusive_none

end Xv6.Sched
