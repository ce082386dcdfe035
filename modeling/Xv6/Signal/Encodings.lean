import Xv6.Signal.Lockstep

/-!
# The two encodings of a disposition

A disposition such as `SIG_IGN` is stored as the constant, or behind a pointer to a struct whose
`sa_handler` is the constant. The exemption of `SIGCONT` from the signals that end a process stands in
the test of the constant only, so `SIGCONT` with a default disposition continues a process in the one
encoding and ends it in the other. In all other cases the two encodings give the same call of
`signalsHandler`.
-/

namespace Xv6.Signal

open Machine Function List
open Option (some)

variable {p : Proc} {t t' : Thread} {i j : Signum} {d ptr : Word} {l : Event} {x y : Handler}
  {isStopped isCont : Bool} {handlers : Signum → Word} {pc : Pc}

/-- The constants that stand for dispositions. -/
def constants : List Word := [SIG_DFL, SIG_IGN, disp SIGKILL, disp SIGSTOP, disp SIGCONT]

/-- The process with the stored disposition `w` for signal `i`. -/
def encode (p : Proc) (i : Signum) (w : Word) : Proc :=
  { p with signalHandlers := Function.update p.signalHandlers i w }

/-- The two calls are at the same place with the same process but for the dispositions, or have ended
    in the same way. -/
inductive SameCall (handlers : Signum → Word) : Handler → Handler → Prop
  | run (t : Thread) : SameCall handlers (.run t) (.run (t.twin t.proc.mem handlers))
  | exited (t : Thread) : SameCall handlers (.exited t) (.exited (t.twin t.proc.mem handlers))
  | fault (e : Panic) : SameCall handlers (.fault e) (.fault e)

/-- Signals arrive while the process yields. Signal `i` does not arrive where the scan will not look
    at it again. -/
def SeenByScan (i : Signum) : Handler → Event → Prop
  | .run t, .arrive signals => t.pc = .scanEnd true true → hasBit signals i = false
  | _, _ => True

instance (i : Signum) : (x : Handler) → (l : Event) → Decidable (SeenByScan i x l)
  | .run _, .arrive _ => inferInstanceAs (Decidable (_ → _))
  | .run _, .run | .exited _, _ | .fault _, _ => inferInstanceAs (Decidable True)

/-- The calls of `signalsHandler` from `t` with the two stored dispositions of `i` go the same way,
    whatever signals arrive. -/
def EncodingsAgree (t : Thread) (i : Signum) (d ptr : Word) : Prop :=
  ∀ ls : List Event, Option.Rel (SameCall (Function.update t.proc.signalHandlers i ptr))
    (Machine.exec (guarded handlerStep (SeenByScan i)) (.run { t with proc := encode t.proc i d }) ls)
    (Machine.exec (guarded handlerStep (SeenByScan i)) (.run { t with proc := encode t.proc i ptr }) ls)

/-! ### The tests -/

lemma isSigact_constant (hd : d ∈ constants) : isSigact d = false := by
  simp only [constants, mem_cons, not_mem_nil, or_false] at hd
  rcases hd with rfl | rfl | rfl | rfl | rfl <;> decide

/-- The tests of a signal look at its own disposition only. -/
lemma same_of_disposition (h : handlers j = p.signalHandlers j) :
    SameScan p (p.twin p.mem handlers) j ∧ SameDelivery p (p.twin p.mem handlers) j := by
  have hdisp : (p.twin p.mem handlers).signalHandlers j = p.signalHandlers j := h
  have hfetch : ∀ a, (p.twin p.mem handlers).fetch a = p.fetch a := fun _ => rfl
  refine ⟨⟨?_, ?_, ?_⟩, ⟨?_, ?_, ?_⟩⟩
  · simp only [scanKills, hdisp, hfetch]
  · simp only [scanStops, scanActs, hdisp, hfetch]
  · simp only [scanConts, scanActs, hdisp, hfetch]
  · simp only [isIgnored, hdisp, hfetch]
    rfl
  · rw [hdisp, hfetch]
  · simp only [handlerMask, hdisp, hfetch]
    rfl

lemma encode_disp (p : Proc) (i : Signum) (w : Word) : (encode p i w).signalHandlers i = w :=
  update_self ..

/-- The tests of the scan agree, but for `SIGCONT` with a disposition that ends the process. -/
lemma sameScan_encode (hd : d ∈ constants) (hptr : isSigact ptr = true) (hread : p.fetch ptr = .ok d)
    (hkill : i ≠ SIGKILL) (hcont : i = SIGCONT → d ≠ SIG_DFL ∧ d ≠ disp SIGKILL) (hstop : i ≠ SIGSTOP) :
    SameScan (encode p i d) (encode p i ptr) i := by
  have hfetch : (encode p i ptr).fetch ptr = .ok d := hread
  have hconst := isSigact_constant hd
  have hne : ∀ w ∈ constants, ptr ≠ w := by
    rintro w hw rfl
    rw [isSigact_constant hw] at hptr
    cases hptr
  have hacts : ∀ k, disp k ∈ constants →
      scanActs k (encode p i ptr) i = scanActs k (encode p i d) i := by
    intro k hk
    simp only [scanActs, encode_disp, hne _ hk, hptr, hconst, hfetch, if_false, if_true,
      Bool.false_eq_true, bind, Except.bind]
    split_ifs with _ hdk
    · rfl
    · rw [hdk, beq_self_eq_true]
    · rw [beq_eq_false_iff_ne.mpr hdk]
  refine ⟨?_, hacts SIGSTOP (by decide), hacts SIGCONT (by decide)⟩
  have hdfl := hne SIG_DFL (by decide)
  have hk := hne (disp SIGKILL) (by decide)
  simp only [scanKills, encode_disp, hkill, hdfl, hk, hptr, hconst, hfetch, if_false, if_true,
    Bool.false_eq_true, bind, Except.bind, or_self, false_and]
  split_ifs with hends
  · rcases hends.1 with rfl | rfl <;> rfl
  · have hends' : d ≠ disp SIGKILL ∧ d ≠ SIG_DFL := by
      by_cases hc : i = SIGCONT
      · exact (hcont hc).symm
      · constructor <;> rintro rfl <;> exact hends ⟨by simp, hc, hstop⟩
    rw [beq_eq_false_iff_ne.mpr hends'.1, beq_eq_false_iff_ne.mpr hends'.2]
    rfl

/-- A process with a page has its first page, where the constants are read. -/
lemma fetch_constant (hd : d ∈ constants) (hread : p.fetch ptr = .ok d) : ∃ v, p.fetch d = .ok v := by
  have hpage : PGSIZE ≤ PGROUNDUP p.sz.toNat := by
    rw [Proc.fetch] at hread
    split_ifs at hread with hmapped
    simp only [Bool.and_eq_true, Proc.mapped, decide_eq_true_eq] at hmapped
    have hpos := hmapped.1
    simp only [PGROUNDUP, PGSIZE] at hpos ⊢
    omega
  have hlow : ∀ w : Word, w.toNat < PGSIZE → p.mapped w = true := fun w hw =>
    decide_eq_true (Nat.lt_of_lt_of_le hw hpage)
  refine ⟨p.word d, ?_⟩
  simp only [constants, mem_cons, not_mem_nil, or_false] at hd
  rw [Proc.fetch]
  rcases hd with rfl | rfl | rfl | rfl | rfl <;> rw [hlow _ (by decide), hlow _ (by decide)] <;> rfl

/-- Both encodings can be read, and they agree that a signal is ignored when it is masked or has
    the disposition `SIG_IGN`. -/
lemma isIgnored_encode (hd : d ∈ constants) (hread : p.fetch ptr = .ok d) :
    (∃ b, isIgnored (encode p i d) i = .ok b) ∧ (∃ b, isIgnored (encode p i ptr) i = .ok b) ∧
      (hasBit p.signalMask i = true ∨ d = SIG_IGN →
        isIgnored (encode p i d) i = .ok true ∧ isIgnored (encode p i ptr) i = .ok true) := by
  obtain ⟨v, hv⟩ := fetch_constant hd hread
  have hfetch : (encode p i ptr).fetch ptr = .ok d := hread
  have hfetchd : (encode p i d).fetch d = .ok v := hv
  have hmask : ∀ w, (encode p i w).signalMask = p.signalMask := fun _ => rfl
  simp only [isIgnored, encode_disp, hmask, hfetch, hfetchd]
  refine ⟨?_, ?_, ?_⟩
  · split_ifs <;> exact ⟨_, rfl⟩
  · split_ifs <;> exact ⟨_, rfl⟩
  · intro h
    by_cases hm : hasBit p.signalMask i = true
    · simp only [hm, if_true, and_self]
    · obtain rfl := h.resolve_left hm
      simp only [hm, if_false, if_true, Bool.false_eq_true, bind, Except.bind, beq_self_eq_true, true_and]
      split_ifs <;> rfl

/-! ### One process -/

/-- The scan has dealt with signal `i` and will not come back to it. -/
def PastScan (i : Signum) : Pc → Prop
  | .scan j _ _ | .stopLoad j _ | .stopStore j _ _ | .contLoad j _ | .contStore j _ _ => i < j
  | .scanEnd isStopped isCont => ¬ (isStopped = true ∧ isCont = false)
  | .test _ | .ignoreLoad _ | .ignoreStore _ _ | .deliverLoad _ | .deliverStore _ _ => True
  | _ => False

/-- The signal that is about to be delivered. -/
def Pc.delivery : Pc → Option Signum
  | .deliverLoad i | .deliverStore i _ => some i
  | _ => none

/-- In a call that started with the process `p`: only the pending signals have changed. After the scan
    signal `i` is pending only if the delivery loop ignores it. -/
structure Resolved (p : Proc) (i : Signum) (t : Thread) : Prop where
  proc : t.proc = { p with pendingSignals := t.proc.pendingSignals }
  past : PastScan i t.pc → hasBit t.proc.pendingSignals i = true →
    hasBit p.signalMask i = true ∨ p.signalHandlers i = SIG_IGN
  loaded : ∀ j v, t.pc.store = some (j, v) → v = t.proc.pendingSignals
  delivery : t.pc.delivery ≠ some i

lemma Resolved.signalMask (h : Resolved p i t) : t.proc.signalMask = p.signalMask := by
  rw [h.proc]

lemma Resolved.signalHandlers (h : Resolved p i t) : t.proc.signalHandlers = p.signalHandlers := by
  rw [h.proc]

lemma past_scanNext (h : PastScan i (scanNext j isStopped isCont)) : i ≤ j := by
  rw [scanNext] at h
  split_ifs at h with hlt
  · exact Nat.le_of_lt_succ h
  · exact Fin.le_def.mpr (by have := i.isLt; omega)

/-- A pending signal with a constant for its disposition, on which none of the tests of the scan
    acts, is ignored. -/
lemma ignored_of_tests (hd : p.signalHandlers i ∈ constants) (hkills : scanKills p i = .ok false)
    (hstops : scanStops p i = .ok false) (hconts : scanConts p i = .ok false) :
    p.signalHandlers i = SIG_IGN := by
  obtain ⟨hstop, hnotStop, _⟩ := scanActs_false hstops
  obtain ⟨hcont, hnotCont, _⟩ := scanActs_false hconts
  obtain ⟨hnotKill, hnotDfl⟩ := (scanKills_false hkills).2.1 hcont hstop
  simp only [constants, mem_cons, not_mem_nil, or_false] at hd
  tauto

/-- Neither a store to `pending_signals` nor a delivery comes next. -/
def Pc.plain (pc : Pc) : Prop := pc.store = none ∧ pc.delivery = none

lemma plain_scanNext (j : Signum) (isStopped isCont : Bool) : (scanNext j isStopped isCont).plain := by
  rw [scanNext]
  split_ifs <;> exact ⟨rfl, rfl⟩

lemma plain_testNext (j : Signum) : (testNext j).plain := by
  rw [testNext]
  split_ifs <;> exact ⟨rfl, rfl⟩

lemma Resolved.goto {hist : Hist} (h : Resolved p i t) (hplain : pc.plain)
    (hpast : PastScan i pc → hasBit t.proc.pendingSignals i = true → hasBit p.signalMask i = true ∨ p.signalHandlers i = SIG_IGN) :
    Resolved p i { t with pc := pc, hist := hist } := by
  refine ⟨h.proc, hpast, ?_, ?_⟩
  · intro j v hstore
    rw [show pc.store = none from hplain.1] at hstore
    cases hstore
  · rw [show pc.delivery = none from hplain.2]
    exact nofun

lemma Resolved.load (h : Resolved p i t) (hstore : pc.store = some (j, t.proc.pendingSignals))
    (hdelivery : pc.delivery = t.pc.delivery) (hpast : PastScan i pc → PastScan i t.pc) :
    Resolved p i { t with pc := pc } := by
  refine ⟨h.proc, fun hp => h.past (hpast hp), ?_, ?_⟩
  · intro k v hk
    rw [show pc.store = _ from hstore] at hk
    cases hk
    rfl
  · rw [show pc.delivery = _ from hdelivery]
    exact h.delivery

lemma Resolved.clear {v : Word} (h : Resolved p i t) (hstore : t.pc.store = some (j, v))
    (hplain : pc.plain) (hpast : PastScan i pc → i ≠ j → PastScan i t.pc) :
    Resolved p i { Signal.clear t j v with pc := pc } := by
  obtain rfl := h.loaded j v hstore
  have hproc := congrArg
    (fun r : Proc => { r with pendingSignals := clearBit t.proc.pendingSignals j }) h.proc
  refine ⟨hproc, ?_, ?_, ?_⟩
  · intro hp hbit
    have hbit' : hasBit (clearBit t.proc.pendingSignals j) i = true := hbit
    have hne : j ≠ i := by
      rintro rfl
      rw [hasBit_clearBit_self] at hbit'
      cases hbit'
    rw [hasBit_clearBit_of_ne _ hne] at hbit'
    exact h.past (hpast hp hne.symm) hbit'
  · intro k w hk
    rw [show pc.store = none from hplain.1] at hk
    cases hk
  · rw [show pc.delivery = none from hplain.2]
    exact nofun

lemma lt_of_past_scanNext (h : PastScan i (scanNext j isStopped isCont)) (hne : i ≠ j) : i < j :=
  Nat.lt_of_le_of_ne (past_scanNext h) fun heq => hne (Fin.ext heq)

lemma Resolved.scan (hd : p.signalHandlers i ∈ constants)
    (h : Resolved p i t) (hpc : t.pc = .scan j isStopped isCont)
    (ho : scanBody { t with hist := { t.hist with late := clearBit t.hist.late j } } j
      isStopped isCont = .next t') : Resolved p i t' := by
  have hpast : i < j → hasBit t.proc.pendingSignals i = true →
      hasBit p.signalMask i = true ∨ p.signalHandlers i = SIG_IGN := by
    intro hlt
    refine h.past ?_
    rw [hpc]
    exact hlt
  have hmask := h.signalMask
  have hdisp := h.signalHandlers
  simp only [scanBody] at ho
  split_ifs at ho with hpend
  · cases hkills : scanKills t.proc j with
    | error =>
      rw [hkills] at ho
      cases ho
    | ok kills =>
      cases kills with
      | true =>
        rw [hkills] at ho
        cases ho
      | false =>
        cases hstops : scanStops t.proc j with
        | error =>
          rw [hkills, hstops] at ho
          cases ho
        | ok stops =>
          cases stops with
          | true =>
            rw [hkills, hstops] at ho
            cases ho
            exact h.goto ⟨rfl, rfl⟩ hpast
          | false =>
            rw [hkills, hstops] at ho
            simp only [scanCont] at ho
            cases hconts : scanConts t.proc j with
            | error =>
              rw [hconts] at ho
              cases ho
            | ok conts =>
              cases conts with
              | true =>
                rw [hconts] at ho
                cases ho
                exact h.goto ⟨rfl, rfl⟩ hpast
              | false =>
                rw [hconts] at ho
                cases ho
                refine h.goto (plain_scanNext ..) ?_
                intro hp hbit
                by_cases hne : i = j
                · -- no test has acted on `i`, so its disposition is `SIG_IGN`
                  subst hne
                  rw [← hdisp] at hd ⊢
                  exact .inr (ignored_of_tests hd hkills hstops hconts)
                · exact hpast (lt_of_past_scanNext hp hne) hbit
  · cases ho
    refine h.goto (plain_scanNext ..) ?_
    intro hp hbit
    by_cases hne : i = j
    · -- `i` is pending and was not tested, so it is masked
      subst hne
      left
      have hpend' : ¬ (hasBit t.proc.pendingSignals i = true ∧
        (hasBit t.proc.signalMask i = false ∨ Special i)) := hpend
      rw [← hmask]
      by_contra hm
      exact hpend' ⟨hbit, .inl (Bool.eq_false_iff.mpr hm)⟩
    · exact hpast (lt_of_past_scanNext hp hne) hbit

/-- The end of the scan of one signal, after it has stopped the process. -/
lemma Resolved.scanCont {isCont : Bool} {v : Word} (h : Resolved p i t)
    (hpc : t.pc = .stopStore j isCont v)
    (ho : scanCont (Signal.clear t j v) j true isCont = .next t') : Resolved p i t' := by
  have hpast : i < j → PastScan i t.pc := by
    intro hlt
    rw [hpc]
    exact hlt
  rcases scanCont_cases (Signal.clear t j v) j true isCont with he | ⟨pc, rfl | rfl, he⟩ <;>
    rw [he] at ho <;> cases ho
  · exact h.clear (by rw [hpc]; rfl) ⟨rfl, rfl⟩ fun hlt _ => hpast hlt
  · exact h.clear (by rw [hpc]; rfl) (plain_scanNext ..) fun hp hne =>
      hpast (lt_of_past_scanNext hp hne)

/-- The delivery loop at one signal. -/
lemma Resolved.test (h : Resolved p i t) (hpc : t.pc = .test j)
    (hign : hasBit p.signalMask i = true ∨ p.signalHandlers i = SIG_IGN → isIgnored t.proc i = .ok true)
    (ho : testBody t j = .next t') : Resolved p i t' := by
  have hpast : hasBit t.proc.pendingSignals i = true →
      hasBit p.signalMask i = true ∨ p.signalHandlers i = SIG_IGN := by
    refine h.past ?_
    rw [hpc]
    trivial
  rw [testBody] at ho
  cases hj : isIgnored t.proc j with
  | error =>
    rw [hj] at ho
    cases ho
  | ok =>
    simp only [hj] at ho
    split_ifs at ho with hpend hig
    · cases ho
      exact h.goto ⟨rfl, rfl⟩ fun _ => hpast
    · cases ho
      refine ⟨h.proc, fun _ => hpast, fun _ _ hstore => (by cases hstore), ?_⟩
      intro hdelivery
      obtain rfl : j = i := some.inj hdelivery
      rw [hign (hpast hpend)] at hj
      exact hig (Except.ok.inj hj).symm
    · cases ho
      exact h.goto (plain_testNext j) fun _ => hpast

/-- Every step of the call, up to its end. -/
lemma Resolved.step (hd : p.signalHandlers i ∈ constants) (h : Resolved p i t)
    (hign : hasBit p.signalMask i = true ∨ p.signalHandlers i = SIG_IGN → isIgnored t.proc i = .ok true)
    (ho : signalsHandler t = some (.next t')) : Resolved p i t' ∨ t'.pc = .iret := by
  rw [signalsHandler] at ho
  cases hpc : t.pc with
  | scan =>
    simp only [hpc, some.injEq] at ho
    refine .inl (h.scan hd hpc ?_)
    rw [hpc]
    exact ho
  | stopLoad | contLoad | ignoreLoad | deliverLoad =>
    simp only [hpc, some.injEq] at ho
    cases ho
    exact .inl (h.load rfl (by rw [hpc]; rfl) (by rw [hpc]; exact id))
  | stopStore =>
    simp only [hpc, some.injEq] at ho
    exact .inl (h.scanCont hpc ho)
  | contStore =>
    simp only [hpc, some.injEq] at ho
    cases ho
    refine .inl (h.clear (by rw [hpc]; rfl) (plain_scanNext ..) ?_)
    intro hp hne
    rw [hpc]
    exact lt_of_past_scanNext hp hne
  | scanEnd =>
    simp only [hpc, some.injEq] at ho
    cases ho
    refine .inl (@Resolved.goto p t i _ t.hist h ?_ ?_)
    · split_ifs <;> exact ⟨rfl, rfl⟩
    · intro hp
      refine h.past ?_
      rw [hpc]
      split_ifs at hp with hagain
      · exact absurd hp (Nat.not_lt_zero _)
      · rintro ⟨rfl, rfl⟩
        exact hagain rfl
  | test =>
    simp only [hpc, some.injEq] at ho
    exact .inl (h.test hpc hign ho)
  | ignoreStore j =>
    simp only [hpc, some.injEq] at ho
    cases ho
    refine .inl (h.clear (by rw [hpc]; rfl) (plain_testNext j) ?_)
    intro _ _
    rw [hpc]
    trivial
  | deliverStore j v =>
    simp only [hpc, some.injEq, deliverBody] at ho
    cases hdel : deliver (Signal.clear t j v).proc j with
    | error =>
      rw [hdel] at ho
      cases ho
    | ok =>
      rw [hdel] at ho
      cases ho
      exact .inr rfl
  | _ => simp [hpc] at ho

lemma Resolved.arrive {signals : Word} (h : Resolved p i t) (hyields : t.pc.yields = true)
    (hseen : t.pc = .scanEnd true true → hasBit signals i = false) : Resolved p i (arrive t signals) := by
  have hproc := congrArg
    (fun r : Proc => { r with pendingSignals := t.proc.pendingSignals ||| signals }) h.proc
  cases hpc : t.pc with
  | scanEnd isStopped isCont =>
    refine ⟨hproc, ?_, ?_, h.delivery⟩
    · intro hp hbit
      have hp' : PastScan i t.pc := hp
      rw [hpc] at hyields hp'
      cases isStopped with
      | false => cases hyields
      | true =>
        cases isCont with
        | false => exact absurd ⟨rfl, rfl⟩ hp'
        | true =>
          have hor : hasBit (t.proc.pendingSignals ||| signals) i = true := hbit
          rw [hasBit_or, hseen hpc, Bool.or_false] at hor
          exact h.past hp hor
    · intro j v hstore
      have hstore' : t.pc.store = some (j, v) := hstore
      rw [hpc] at hstore'
      cases hstore'
  | _ => simp [hpc, Pc.yields] at hyields

/-! ### Both processes -/

section Encodings

variable (hd : d ∈ constants) (hptr : isSigact ptr = true) (hread : p.fetch ptr = .ok d)
  (hkill : i ≠ SIGKILL) (hstop : i ≠ SIGSTOP)
  (hcont : i = SIGCONT → d ≠ SIG_DFL ∧ d ≠ disp SIGKILL)

include hd hread

/-- The delivery loop at signal `i`. -/
lemma testBody_encode (h : Resolved (encode p i d) i t) (hpc : t.pc = .test i) :
    SameOutcome (fun _ => False) (update p.signalHandlers i ptr) (testBody t i)
      (testBody (t.twin t.proc.mem (update p.signalHandlers i ptr)) i) := by
  obtain ⟨⟨b, hb⟩, ⟨b', hb'⟩, hboth⟩ := isIgnored_encode (i := i) hd hread
  have hfirst : isIgnored t.proc i = isIgnored (encode p i d) i := by
    rw [h.proc]
    rfl
  have hsecond : isIgnored (t.twin t.proc.mem (update p.signalHandlers i ptr)).proc i =
      isIgnored (encode p i ptr) i := by
    rw [Thread.twin, h.proc]
    rfl
  by_cases hpend : hasBit t.proc.pendingSignals i = true
  · have hign := h.past (by rw [hpc]; trivial) hpend
    rw [encode_disp] at hign
    obtain ⟨hp, hq⟩ := hboth hign
    refine testBody_same (fun _ _ => rfl) ?_
    exact (hsecond.trans hq).trans (hfirst.trans hp).symm
  · have hpend' : ¬ hasBit (t.twin t.proc.mem
        (update p.signalHandlers i ptr)).proc.pendingSignals i = true := hpend
    rw [testBody, testBody, hfirst, hb, hsecond, hb']
    simp only [if_neg hpend, if_neg hpend']
    exact .next _ _ fun _ _ => rfl

include hptr hkill hstop hcont

/-- One step of the two calls. -/
lemma signalsHandler_encode (h : Resolved (encode p i d) i t) :
    Option.Rel (SameOutcome (fun _ => False) (update p.signalHandlers i ptr))
      (signalsHandler t)
      (signalsHandler (t.twin t.proc.mem (update p.signalHandlers i ptr))) := by
  have hm : AgreeOff (fun _ => False) t.proc.mem t.proc.mem := fun _ _ => rfl
  have hscan : SameScan t.proc (t.proc.twin t.proc.mem (update p.signalHandlers i ptr)) i := by
    have hsame := sameScan_encode hd hptr hread hkill hcont hstop
    rw [h.proc]
    exact ⟨hsame.kills, hsame.stops, hsame.conts⟩
  cases hsig : t.pc.signal with
  | none =>
    obtain ⟨q, pc, hist⟩ := t
    cases pc with
    | scanEnd => exact .some (.next _ _ hm)
    | unused | zombie | user | syscall | killTest | killLoad | killStore | iret => exact .none
    | _ => cases hsig
  | some j =>
    by_cases hj : j = i
    · subst hj
      refine signalsHandler_twin hsig hm hscan (testBody_encode hd hread h) ?_
      intro v hpc
      exact absurd (by rw [hpc]; rfl) h.delivery
    · have hdisp : update p.signalHandlers i ptr j = t.proc.signalHandlers j := by
        rw [h.signalHandlers, update_of_ne hj]
        exact (update_of_ne hj ..).symm
      obtain ⟨hs, hdel⟩ := same_of_disposition hdisp
      exact sameSteps_twin hm hs hdel t.pc t.hist hsig

end Encodings

/-- The two calls, of which the first is at a state that `Resolved` describes, or both have ended. -/
inductive Paired (p : Proc) (i : Signum) (handlers : Signum → Word) : Handler → Handler → Prop
  | call (t : Thread) (h : Resolved p i t) :
      Paired p i handlers (.run t) (.run (t.twin t.proc.mem handlers))
  | ended (x y : Handler) (h : SameCall handlers x y)
      (hx : ∀ l, handlerStep x l = none) (hy : ∀ l, handlerStep y l = none) :
      Paired p i handlers x y

lemma Paired.sameCall (h : Paired p i handlers x y) : SameCall handlers x y := by
  cases h with
  | call t => exact .run t
  | ended _ _ h => exact h

lemma handlerStep_iret (hpc : t.pc = .iret) (l : Event) : handlerStep (.run t) l = none := by
  cases l with
  | run => simp [handlerStep, signalsHandler, hpc]
  | arrive => simp [handlerStep, hpc, Pc.yields]

section Encodings

variable (hd : d ∈ constants) (hptr : isSigact ptr = true) (hread : p.fetch ptr = .ok d)
  (hkill : i ≠ SIGKILL) (hstop : i ≠ SIGSTOP)
  (hcont : i = SIGCONT → d ≠ SIG_DFL ∧ d ≠ disp SIGKILL)

include hd hptr hread hkill hstop hcont

lemma Paired.step (h : Paired (encode p i d) i (update p.signalHandlers i ptr) x y) (l : Event) :
    Option.Rel (Paired (encode p i d) i (update p.signalHandlers i ptr))
      (guarded handlerStep (SeenByScan i) x l) (guarded handlerStep (SeenByScan i) y l) := by
  cases h with
  | ended x y h hx hy =>
    simp only [guarded, hx, hy, ite_self]
    exact .none
  | call t h =>
    cases l with
    | arrive signals =>
      by_cases hseen : SeenByScan i (.run t) (.arrive signals)
      · have hseen' : SeenByScan i (.run (t.twin t.proc.mem (update p.signalHandlers i ptr)))
            (.arrive signals) := hseen
        simp only [guarded, if_pos hseen, if_pos hseen', handlerStep]
        by_cases hyields : t.pc.yields = true
        · have hyields' : (t.twin t.proc.mem (update p.signalHandlers i ptr)).pc.yields = true := hyields
          rw [if_pos hyields, if_pos hyields']
          exact .some (.call (arrive t signals) (h.arrive hyields hseen))
        · have hyields' : ¬ (t.twin t.proc.mem (update p.signalHandlers i ptr)).pc.yields = true := hyields
          rw [if_neg hyields, if_neg hyields']
          exact .none
      · have hseen' : ¬ SeenByScan i (.run (t.twin t.proc.mem
            (update p.signalHandlers i ptr))) (.arrive signals) := hseen
        simp only [guarded, if_neg hseen, if_neg hseen']
        exact .none
    | run =>
      have hign : hasBit (encode p i d).signalMask i = true ∨
          (encode p i d).signalHandlers i = SIG_IGN → isIgnored t.proc i = .ok true := by
        intro hign
        rw [encode_disp] at hign
        rw [h.proc]
        exact ((isIgnored_encode (i := i) hd hread).2.2 hign).1
      have hdisp : (encode p i d).signalHandlers i ∈ constants := by
        rw [encode_disp]
        exact hd
      have hsame := signalsHandler_encode hd hptr hread hkill hstop hcont h
      simp only [guarded, SeenByScan, handlerStep]
      generalize ho : signalsHandler t = o at hsame
      generalize signalsHandler (t.twin t.proc.mem (update p.signalHandlers i ptr)) = o'
        at hsame
      cases hsame with
      | none => exact .none
      | some hsame =>
        refine .some ?_
        cases hsame with
        | next t' mem hm =>
          obtain rfl : mem = t'.proc.mem := funext fun x => hm x id
          rcases h.step hdisp hign ho with h' | hiret
          · exact .call t' h'
          · exact .ended _ _ (.run t') (handlerStep_iret hiret) (handlerStep_iret hiret)
        | exit t' mem hm =>
          obtain rfl : mem = t'.proc.mem := funext fun x => hm x id
          exact .ended _ _ (.exited t') (fun _ => rfl) fun _ => rfl
        | panic e => exact .ended _ _ (.fault e) (fun _ => rfl) fun _ => rfl

end Encodings

/-! ### Whole calls -/

/-- A process with the given signal pending and one word of its memory set. -/
def withPending (i : Signum) (word : Byte) : Thread where
  proc := { userinit (memOf [(64, word)]) 2 with pendingSignals := setBit 0 i }
  pc := .scan signum0 false false
  hist := .zero

def Handler.hasExited : Handler → Bool
  | .exited _ => true
  | _ => false

end Xv6.Signal
