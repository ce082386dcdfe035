import Xv6.Signal.Steps

/-!
# Stop, continue and kill

One call of `signalsHandler`, where signals arrive only while it yields. A process with a pending
`SIGKILL` exits in the scan, whatever its mask and its handlers; a process that has been stopped stays
in the scans until one of them sees a continue or a fatal signal.

A scan reads `sa_handler` through the disposition of every signal that it finds pending. A disposition
whose page has been given back since `sigaction` is a fault in the kernel.
-/

namespace Xv6.Signal

open Machine Option

/-- A call of `signalsHandler`: in progress, or ended by `exit` or a fault in the kernel. -/
inductive Handler
  | run (t : Thread)
  | exited (t : Thread)
  | fault (e : Panic)

inductive Event
  | run
  /-- signals arrive while the process yields -/
  | arrive (signals : Word)

def Handler.of : Outcome → Handler
  | .next t => .run t
  | .exit t => .exited t
  | .panic e => .fault e

/-- At the `yield` of `signalsHandler`. -/
def Pc.yields : Pc → Bool
  | .scanEnd true _ => true
  | _ => false

def arrive (t : Thread) (signals : Word) : Thread :=
  { t with proc := { t.proc with pendingSignals := t.proc.pendingSignals ||| signals } }

def handlerStep : Handler → Event → Option Handler
  | .run t, .run => (signalsHandler t).map Handler.of
  | .run t, .arrive signals => if t.pc.yields then some (.run (arrive t signals)) else none
  | _, _ => none

/-- The call has returned to `trapret`. -/
def Handler.Returned : Handler → Prop
  | .run t => t.pc = .iret
  | _ => False

variable {t t' : Thread} {i : Signum} {isStopped isCont : Bool} {x y : Handler} {l : Event}
  {p : Proc} {pending : Word} {pc : Pc}

/-! ### The scan -/

inductive ScanStep (t : Thread) : Handler → Prop
  | fault : ScanStep t (.fault .trap)
  | exit (i : Signum) (isStopped isCont : Bool) (t' : Thread) :
      t.pc = .scan i isStopped isCont → ScanStep t (.exited t')
  | scan (i : Signum) (isStopped isCont : Bool) (pc : Pc) (hist : Hist) :
      t.pc = .scan i isStopped isCont → Scanned i isStopped isCont pc →
      ScanStep t (.run { t with pc := pc, hist := hist })
  | stopLoad (i : Signum) (isCont : Bool) : t.pc = .stopLoad i isCont →
      ScanStep t (.run { t with pc := .stopStore i isCont t.proc.pendingSignals })
  | stopStore (i : Signum) (isCont : Bool) (v : Word) (pc : Pc) : t.pc = .stopStore i isCont v →
      pc = .contLoad i true ∨ pc = scanNext i true isCont →
      ScanStep t (.run { clear t i v with pc := pc })
  | contLoad (i : Signum) (isStopped : Bool) : t.pc = .contLoad i isStopped →
      ScanStep t (.run { t with pc := .contStore i isStopped t.proc.pendingSignals })
  | contStore (i : Signum) (isStopped : Bool) (v : Word) : t.pc = .contStore i isStopped v →
      ScanStep t (.run { clear t i v with pc := scanNext i isStopped true })
  | scanEnd (isStopped isCont : Bool) : t.pc = .scanEnd isStopped isCont →
      ScanStep t (.run { t with
        pc := if isStopped && !isCont then .scan signum0 true false else .test signum0 })

/-- In the scans, before the delivery loop. -/
def Pc.scanning : Pc → Bool
  | .scan .. | .stopLoad .. | .stopStore .. | .contLoad .. | .contStore .. | .scanEnd .. => true
  | _ => false

lemma handlerStep_run (hscan : t.pc.scanning = true) (hstep : handlerStep (.run t) .run = some y) :
    ScanStep t y := by
  obtain ⟨o, ho, rfl⟩ := map_eq_some_iff.mp hstep
  cases hpc : t.pc with
  | scan i isStopped isCont =>
    simp only [signalsHandler, hpc] at ho
    cases ho
    rcases scanBody_cases { t with hist := { t.hist with late := clearBit t.hist.late i } } i
      isStopped isCont with he | he | ⟨pc, hnext, he⟩
    · rw [hpc] at he
      rw [he]
      exact .fault
    · rw [hpc] at he
      rw [he]
      exact .exit i isStopped isCont _ hpc
    · rw [hpc] at he
      rw [he]
      exact .scan i isStopped isCont pc _ hpc hnext
  | stopStore i isCont v =>
    simp only [signalsHandler, hpc] at ho
    cases ho
    rcases scanCont_cases (clear t i v) i true isCont with he | ⟨pc, hnext, he⟩
    · rw [he]
      exact .fault
    · rw [he]
      exact .stopStore i isCont v pc hpc hnext
  | stopLoad i isCont =>
    simp only [signalsHandler, hpc] at ho
    cases ho
    exact .stopLoad i isCont hpc
  | contLoad i isStopped =>
    simp only [signalsHandler, hpc] at ho
    cases ho
    exact .contLoad i isStopped hpc
  | contStore i isStopped v =>
    simp only [signalsHandler, hpc] at ho
    cases ho
    exact .contStore i isStopped v hpc
  | scanEnd isStopped isCont =>
    simp only [signalsHandler, hpc] at ho
    cases ho
    exact .scanEnd isStopped isCont hpc
  | _ => simp [hpc, Pc.scanning] at hscan

/-! ### Kill -/

/-- The scan has not come to `SIGKILL`. -/
def BeforeKill (pending : Word) : Pc → Prop
  | .scan i _ _ => i.val ≤ SIGKILL.val
  | .stopLoad i _ | .contLoad i _ => i.val < SIGKILL.val
  | .stopStore i _ v | .contStore i _ v => i.val < SIGKILL.val ∧ v = pending
  | _ => False

/-- `SIGKILL` is pending, and the scan has not come to it. -/
def Doomed : Handler → Prop
  | .run t => hasBit t.proc.pendingSignals SIGKILL = true ∧ BeforeKill t.proc.pendingSignals t.pc
  | .exited _ | .fault _ => True

lemma sigkill_lt : SIGKILL.val + 1 < 32 := by decide

lemma scanNext_of_lt (hi : i.val < SIGKILL.val) (isStopped isCont : Bool) :
    ∃ j : Signum, j.val = i.val + 1 ∧ scanNext i isStopped isCont = .scan j isStopped isCont := by
  have hlt : i.val + 1 < 32 := Nat.lt_trans (Nat.succ_lt_succ hi) sigkill_lt
  exact ⟨⟨i.val + 1, hlt⟩, rfl, dif_pos hlt⟩

lemma BeforeKill.scanning (h : BeforeKill pending pc) : pc.scanning = true := by
  cases pc <;> first | rfl | exact h.elim

lemma BeforeKill.not_yields (h : BeforeKill pending pc) : pc.yields = false := by
  cases pc <;> first | rfl | exact h.elim

lemma hasBit_clear_sigkill {v : Word} (hi : i.val < SIGKILL.val) (hv : hasBit v SIGKILL = true) :
    hasBit (clearBit v i) SIGKILL = true := by
  have hne : i ≠ SIGKILL := by
    rintro rfl
    exact Nat.lt_irrefl _ hi
  rwa [hasBit_clearBit_of_ne v hne]

/-- The test for signal 9 ends the process. -/
lemma scanBody_sigkill (h : hasBit t.proc.pendingSignals SIGKILL = true) :
    scanBody t SIGKILL isStopped isCont = .exit { t with proc := { t.proc with killed := true } } := by
  rw [scanBody, if_pos ⟨h, .inr (.inl rfl)⟩]
  rfl

lemma handlerStep_sigkill (hpc : t.pc = .scan SIGKILL isStopped isCont)
    (h : hasBit t.proc.pendingSignals SIGKILL = true) :
    ∃ t', handlerStep (.run t) .run = some (.exited t') := by
  refine ⟨{ t with
    proc := { t.proc with killed := true }
    hist := { t.hist with late := clearBit t.hist.late SIGKILL } }, ?_⟩
  simp only [handlerStep, signalsHandler, hpc, map_some]
  rw [scanBody_sigkill]
  · rfl
  · exact h

lemma beforeKill_scanNext (hi : i.val < SIGKILL.val) :
    BeforeKill pending (scanNext i isStopped isCont) := by
  obtain ⟨j, hj, hnext⟩ := scanNext_of_lt hi isStopped isCont
  rw [hnext]
  exact (hj ▸ hi : j.val ≤ SIGKILL.val)

lemma Doomed.step (h : Doomed x) (hstep : handlerStep x l = some y) : Doomed y := by
  cases x with
  | exited => cases hstep
  | fault => cases hstep
  | run =>
    obtain ⟨hkill, hpc⟩ := h
    cases l with
    | arrive =>
      rw [handlerStep, hpc.not_yields] at hstep
      cases hstep
    | run =>
      cases handlerStep_run hpc.scanning hstep with
      | fault => trivial
      | exit => trivial
      | scan i isStopped isCont pc hist hi hnext =>
        have hle : i.val ≤ SIGKILL.val := by rwa [hi] at hpc
        rcases Nat.lt_or_eq_of_le hle with hlt | heq
        · refine ⟨hkill, ?_⟩
          cases hnext with
          | stop => exact hlt
          | cont => exact hlt
          | next => exact beforeKill_scanNext hlt
        · -- at signal 9 the process exits
          obtain rfl : i = SIGKILL := Fin.ext heq
          obtain ⟨t', ht'⟩ := handlerStep_sigkill hi hkill
          rw [ht'] at hstep
          cases hstep
      | stopLoad i isCont hi | contLoad i isStopped hi =>
        rw [hi] at hpc
        exact ⟨hkill, hpc, rfl⟩
      | stopStore i isCont v pc hi hnext =>
        rw [hi] at hpc
        obtain ⟨hlt, rfl⟩ := hpc
        refine ⟨hasBit_clear_sigkill hlt hkill, ?_⟩
        rcases hnext with rfl | rfl
        · exact hlt
        · exact beforeKill_scanNext hlt
      | contStore i isStopped v hi =>
        rw [hi] at hpc
        obtain ⟨hlt, rfl⟩ := hpc
        exact ⟨hasBit_clear_sigkill hlt hkill, beforeKill_scanNext hlt⟩
      | scanEnd isStopped isCont hi =>
        rw [hi] at hpc
        exact hpc.elim

/-- Every disposition that is a pointer points into the memory of the process. -/
def Readable (p : Proc) : Prop :=
  ∀ i, isSigact (p.signalHandlers i) = true →
    p.mapped (p.signalHandlers i) = true ∧ p.mapped (p.signalHandlers i + 3) = true

instance (p : Proc) : Decidable (Readable p) := inferInstanceAs (Decidable (∀ _, _))

lemma Readable.fetch (h : Readable p) (hi : isSigact (p.signalHandlers i) = true) :
    p.fetch (p.signalHandlers i) = .ok (p.word (p.signalHandlers i)) := by
  rw [Proc.fetch, (h i hi).1, (h i hi).2]
  rfl

lemma Readable.scanKills (h : Readable p) (i : Signum) : ∃ b, scanKills p i = .ok b := by
  rw [Signal.scanKills]
  split_ifs with hkill hdfl hact
  · exact ⟨_, rfl⟩
  · exact ⟨_, rfl⟩
  · rw [h.fetch hact]
    exact ⟨_, rfl⟩
  · exact ⟨_, rfl⟩

lemma Readable.scanActs (h : Readable p) (k i : Signum) : ∃ b, scanActs k p i = .ok b := by
  rw [Signal.scanActs]
  split_ifs with hk heq hact
  · exact ⟨_, rfl⟩
  · exact ⟨_, rfl⟩
  · rw [h.fetch hact]
    exact ⟨_, rfl⟩
  · exact ⟨_, rfl⟩

lemma Readable.scanCont (h : Readable t.proc) : scanCont t i isStopped isCont ≠ .panic .trap := by
  obtain ⟨b, hb⟩ := h.scanActs SIGCONT i
  rw [Signal.scanCont, scanConts, hb]
  cases b <;> exact fun h => by cases h

lemma Readable.scanBody (h : Readable t.proc) : scanBody t i isStopped isCont ≠ .panic .trap := by
  rw [Signal.scanBody]
  split_ifs
  · obtain ⟨kills, hkills⟩ := h.scanKills i
    obtain ⟨stops, hstops⟩ := h.scanActs SIGSTOP i
    rw [hkills, scanStops, hstops]
    cases kills with
    | true => exact fun h => by cases h
    | false =>
      cases stops with
      | true => exact fun h => by cases h
      | false => exact h.scanCont
  · exact fun h => by cases h

lemma Readable.no_fault (h : Readable t.proc) (hscan : t.pc.scanning = true) :
    handlerStep (.run t) .run ≠ some (.fault .trap) := by
  intro hstep
  obtain ⟨o, ho, hfault⟩ := map_eq_some_iff.mp hstep
  cases o with
  | next => cases hfault
  | exit => cases hfault
  | panic =>
    cases hfault
    cases hpc : t.pc with
    | scan =>
      simp only [signalsHandler, hpc, some.injEq] at ho
      exact Readable.scanBody (by exact h) ho
    | stopStore i isCont v =>
      simp only [signalsHandler, hpc, some.injEq] at ho
      exact Readable.scanCont (t := clear t i v) h ho
    | stopLoad | contLoad | contStore | scanEnd => simp [signalsHandler, hpc] at ho
    | _ => simp [hpc, Pc.scanning] at hscan

/-- How many steps the scan may still take before the test for signal 9. -/
def scanRank : Pc → Nat
  | .scan i _ _ => 5 * (SIGKILL.val - i.val) + 4
  | .stopLoad i _ => 5 * (SIGKILL.val - i.val) + 3
  | .stopStore i _ _ => 5 * (SIGKILL.val - i.val) + 2
  | .contLoad i _ => 5 * (SIGKILL.val - i.val) + 1
  | .contStore i _ _ => 5 * (SIGKILL.val - i.val)
  | _ => 0

lemma scanRank_scanNext (hi : i.val < SIGKILL.val) (isStopped isCont : Bool) :
    scanRank (scanNext i isStopped isCont) + 1 = 5 * (SIGKILL.val - i.val) := by
  obtain ⟨j, hj, hnext⟩ := scanNext_of_lt hi isStopped isCont
  rw [hnext, scanRank, hj]
  omega

/-- The scan comes closer to signal 9. -/
lemma ScanStep.rank (h : ScanStep t (.run t')) (hpc : BeforeKill t.proc.pendingSignals t.pc)
    (hne : ∀ b c, t.pc ≠ .scan SIGKILL b c) : scanRank t'.pc < scanRank t.pc := by
  cases h with
  | scan i isStopped isCont pc hist hi hnext =>
    have hle : i.val ≤ SIGKILL.val := by rwa [hi] at hpc
    have hlt : i.val < SIGKILL.val := by
      refine Nat.lt_of_le_of_ne hle fun heq => ?_
      obtain rfl : i = SIGKILL := Fin.ext heq
      exact hne _ _ hi
    rw [hi]
    cases hnext with
    | stop => exact Nat.lt_succ_self _
    | cont => exact Nat.add_lt_add_left (by decide) _
    | next =>
      have hrank := scanRank_scanNext hlt isStopped isCont
      simp only [scanRank] at hrank ⊢
      omega
  | stopLoad i isCont hi | contLoad i isStopped hi =>
    rw [hi]
    exact Nat.lt_succ_self _
  | stopStore i isCont v pc hi hnext =>
    rw [hi] at hpc ⊢
    rcases hnext with rfl | rfl
    · exact Nat.lt_succ_self _
    · have hrank := scanRank_scanNext hpc.1 true isCont
      simp only [scanRank] at hrank ⊢
      omega
  | contStore i isStopped v hi =>
    rw [hi] at hpc ⊢
    have hrank := scanRank_scanNext hpc.1 isStopped true
    simp only [scanRank] at hrank ⊢
    omega
  | scanEnd isStopped isCont hi =>
    rw [hi] at hpc
    exact hpc.elim

/-- The scan changes nothing that the dispositions depend on. -/
lemma ScanStep.readable (h : ScanStep t (.run t')) (hread : Readable t.proc) : Readable t'.proc := by
  cases h <;> exact hread

lemma handlerStep_isSome (hscan : t.pc.scanning = true) : ∃ y, handlerStep (.run t) .run = some y := by
  cases hpc : t.pc with
  | scan | stopLoad | stopStore | contLoad | contStore | scanEnd =>
    exact ⟨_, by simp only [handlerStep, signalsHandler, hpc]; rfl⟩
  | _ => simp [hpc, Pc.scanning] at hscan

/-- The call goes on by itself until the process exits. -/
def Exits (x : Handler) : Prop := ∃ t, Reach handlerStep (fun _ l => l = .run) x (.exited t)

lemma Doomed.exits (h : Doomed (.run t)) (hread : Readable t.proc) : Exits (.run t) := by
  -- by induction on the steps that the scan may still take
  induction hrank : scanRank t.pc using Nat.strongRecOn generalizing t with
  | _ n ih =>
    subst hrank
    obtain ⟨y, hy⟩ := handlerStep_isSome h.2.scanning
    have hdoomed := h.step hy
    have hscan := handlerStep_run h.2.scanning hy
    cases y with
    | exited t' => exact ⟨t', .single rfl hy⟩
    | fault =>
      cases hscan
      exact absurd hy (hread.no_fault h.2.scanning)
    | run t' =>
      have hne : ∀ b c, t.pc ≠ .scan SIGKILL b c := by
        intro b c hpc
        obtain ⟨u, hu⟩ := handlerStep_sigkill hpc h.1
        rw [hu] at hy
        cases hy
      obtain ⟨u, hu⟩ := ih _ (hscan.rank h.2 hne) hdoomed (hscan.readable hread) rfl
      have hone : Reach handlerStep (fun _ l => l = .run) (.run t) (.run t') := .single rfl hy
      exact ⟨u, hone.trans hu⟩

/-- A call that leads to a fault does not exit. -/
lemma not_exits_of_fault {e : Panic} {n : Nat}
    (h : Machine.exec handlerStep x (List.replicate n .run) = some (.fault e)) : ¬ Exits x := by
  induction n generalizing x with
  | zero =>
    cases h
    rintro ⟨t, ht⟩
    rcases ht.head_cases with heq | ⟨l, u, _, hu, _⟩
    · cases heq
    · cases hu
  | succ n ih =>
    rw [List.replicate_succ, exec_cons] at h
    obtain ⟨y, hy, hrest⟩ := bind_eq_some_iff.mp h
    rintro ⟨t, ht⟩
    rcases ht.head_cases with rfl | ⟨l, u, rfl, hu, hrun⟩
    · cases hy
    · rw [hy] at hu
      cases hu
      exact ih hrest ⟨t, hrun⟩

/-- A process with one page whose disposition of signal 5 is on a page that it has given back, with
    signals 5 and 9 pending. -/
def shrunk : Thread where
  proc :=
    { userinit (fun _ => 0) 2 with
      pendingSignals := 0x220
      signalHandlers := fun i => if i.val = 5 then 0x2000 else SIG_DFL }
  pc := .scan signum0 false false
  hist := .zero

/-- The scan reads the disposition of signal 5 before it comes to `SIGKILL`. -/
theorem sigkill_faults : shrunk.pc = .scan signum0 false false ∧
    hasBit shrunk.proc.pendingSignals SIGKILL = true ∧ ¬ Exits (.run shrunk) := by
  refine ⟨rfl, by decide, ?_⟩
  have hfault : Machine.exec handlerStep (.run shrunk) (List.replicate 6 .run) =
      some (.fault .trap) := rfl
  exact not_exits_of_fault hfault

lemma Doomed.not_returned (h : Doomed x) (hrun : Reach handlerStep Always x y) : ¬ y.Returned := by
  have hy : Doomed y := hrun.invariant (I := Doomed) h fun _ _ _ h _ hstep => h.step hstep
  cases y with
  | run t =>
    intro hret
    have hpc := hy.2
    rw [show t.pc = .iret from hret] at hpc
    exact hpc
  | exited => exact id
  | fault => exact id

/-! ### Stop and continue -/

/-- What a stopped process keeps. -/
structure Saved where
  tf : Trapframe
  signalMask : Word
  backup : Trapframe
  signalMaskBackup : Word
  deriving DecidableEq

def saved (p : Proc) : Saved := ⟨p.tf, p.signalMask, p.backup, p.signalMaskBackup⟩

/-- History of a call: what the process had when a scan consumed a stop, unless that scan or a later one
    has seen a continue, and whether the scan in progress has seen one. -/
structure Stop where
  stopped : Option Saved
  cont : Bool

def nextStop (x : Handler) (l : Event) (_ : Handler) (h : Stop) : Stop :=
  match x, l with
  | .run t, .run =>
    match t.pc with
    | .stopStore .. =>
      if h.cont then h else { h with stopped := some (h.stopped.getD (saved t.proc)) }
    | .contStore .. => ⟨none, true⟩
    | .scanEnd .. => { h with cont := false }
    | _ => h
  | _, _ => h

/-- The flags of `signalsHandler` say what it has seen. -/
def Flags (h : Stop) : Pc → Prop
  | .scan _ isStopped isCont | .scanEnd isStopped isCont =>
    isCont = h.cont ∧ (h.stopped ≠ none → isStopped = true)
  | .stopLoad _ isCont | .stopStore _ isCont _ => isCont = h.cont
  | .contLoad _ isStopped | .contStore _ isStopped _ => h.stopped ≠ none → isStopped = true
  | _ => h.stopped = none

structure StopInv (t : Thread) (h : Stop) : Prop where
  kept : ∀ v, h.stopped = some v → saved t.proc = v
  cont : h.cont = true → h.stopped = none
  flags : Flags h t.pc

variable {h : Stop}

lemma flags_scanNext (hcont : isCont = h.cont) (hstop : h.stopped ≠ none → isStopped = true) :
    Flags h (scanNext i isStopped isCont) := by
  rw [scanNext]
  split_ifs
  · exact ⟨hcont, hstop⟩
  · exact ⟨hcont, hstop⟩

lemma flags_of_not_scanning (hpc : pc.scanning = false) : Flags h pc ↔ h.stopped = none := by
  cases pc <;> first | exact Iff.rfl | cases hpc

/-- The delivery loop does not go back to the scan. -/
lemma handlerStep_test (hpc : t.pc.scanning = false) (hstep : handlerStep (.run t) l = some (.run t')) :
    t'.pc.scanning = false ∧ nextStop (.run t) l (.run t') h = h := by
  cases l with
  | arrive =>
    simp only [handlerStep] at hstep
    split_ifs at hstep
    cases hstep
    exact ⟨hpc, rfl⟩
  | run =>
    obtain ⟨o, ho, hof⟩ := map_eq_some_iff.mp hstep
    cases o with
    | exit => cases hof
    | panic => cases hof
    | next =>
      cases hof
      have htest : ∀ i, (testNext i).scanning = false := by
        intro i
        rw [testNext]
        split_ifs <;> rfl
      cases hpc' : t.pc with
      | test i =>
        simp only [signalsHandler, hpc', some.injEq, testBody] at ho
        refine ⟨?_, by simp only [nextStop, hpc']⟩
        split at ho
        · cases ho
        · split_ifs at ho <;> cases ho
          · rfl
          · rfl
          · exact htest i
      | ignoreLoad | deliverLoad =>
        simp only [signalsHandler, hpc'] at ho
        cases ho
        exact ⟨rfl, by simp only [nextStop, hpc']⟩
      | ignoreStore i =>
        simp only [signalsHandler, hpc'] at ho
        cases ho
        exact ⟨htest i, by simp only [nextStop, hpc']⟩
      | deliverStore =>
        simp only [signalsHandler, hpc', some.injEq, deliverBody] at ho
        split at ho
        · cases ho
        · cases ho
          exact ⟨rfl, by simp only [nextStop, hpc']⟩
      | scan | stopLoad | stopStore | contLoad | contStore | scanEnd => simp [hpc', Pc.scanning] at hpc
      | _ => simp [signalsHandler, hpc'] at ho

/-- A stop is consumed. -/
lemma StopInv.stop {v : Word} (h' : StopInv t h) (hpc : t.pc = .stopStore i isCont v)
    (hnext : pc = .contLoad i true ∨ pc = scanNext i true isCont) : StopInv { clear t i v with pc := pc }
      (if h.cont then h else { h with stopped := some (h.stopped.getD (saved t.proc)) }) := by
  have hflag : isCont = h.cont := by
    have hflags := h'.flags
    rwa [hpc] at hflags
  split_ifs with hcont
  · refine ⟨h'.kept, h'.cont, ?_⟩
    rcases hnext with rfl | rfl
    · exact fun _ => rfl
    · exact flags_scanNext hflag fun _ => rfl
  · refine ⟨fun w hw => ?_, fun h => absurd h hcont, ?_⟩
    · cases hw
      show saved t.proc = _
      cases hstopped : h.stopped with
      | none => rfl
      | some v => exact h'.kept v hstopped
    · rcases hnext with rfl | rfl
      · exact fun _ => rfl
      · exact flags_scanNext hflag fun _ => rfl

lemma StopInv.scan (h' : StopInv t h) (hstep : ScanStep t (.run t')) :
    StopInv t' (nextStop (.run t) .run (.run t') h) := by
  have hflags := h'.flags
  cases hstep with
  | scan i isStopped isCont pc hist hpc hnext =>
    rw [hpc] at hflags
    rw [nextStop, hpc]
    refine ⟨h'.kept, h'.cont, ?_⟩
    cases hnext with
    | stop => exact hflags.1
    | cont => exact hflags.2
    | next => exact flags_scanNext hflags.1 hflags.2
  | stopLoad i isCont hpc | contLoad i isStopped hpc =>
    rw [hpc] at hflags
    rw [nextStop, hpc]
    exact ⟨h'.kept, h'.cont, hflags⟩
  | stopStore i isCont v pc hpc hnext =>
    rw [nextStop, hpc]
    exact h'.stop hpc hnext
  | contStore i isStopped v hpc =>
    simp only [nextStop, hpc]
    exact ⟨fun v hv => (by cases hv), fun _ => rfl, flags_scanNext rfl fun hne => absurd rfl hne⟩
  | scanEnd isStopped isCont hpc =>
    rw [hpc] at hflags
    simp only [nextStop, hpc]
    refine ⟨h'.kept, fun h => (by cases h), ?_⟩
    show Flags _ (if isStopped && !isCont then .scan signum0 true false else .test signum0)
    split_ifs with hagain
    · exact ⟨rfl, fun _ => rfl⟩
    · -- a process that is stopped, and has seen no continue, scans again
      show h.stopped = none
      by_contra hne
      have hstopped := hflags.2 hne
      cases hcont : h.cont with
      | true => exact hne (h'.cont hcont)
      | false =>
        rw [hstopped, hflags.1, hcont] at hagain
        exact hagain rfl

lemma StopInv.step (h' : StopInv t h) (hstep : handlerStep (.run t) l = some (.run t')) :
    StopInv t' (nextStop (.run t) l (.run t') h) := by
  cases hpc : t.pc.scanning with
  | false =>
    obtain ⟨hpc', heq⟩ := handlerStep_test (h := h) hpc hstep
    have hnone := (flags_of_not_scanning hpc).mp h'.flags
    rw [heq]
    refine ⟨fun v hv => ?_, h'.cont, (flags_of_not_scanning hpc').mpr hnone⟩
    rw [hnone] at hv
    cases hv
  | true =>
    cases l with
    | run => exact h'.scan (handlerStep_run hpc hstep)
    | arrive =>
      simp only [handlerStep] at hstep
      split_ifs at hstep
      cases hstep
      exact ⟨h'.kept, h'.cont, h'.flags⟩

/-- A stopped process has not returned, and has what it had. -/
lemma StopInv.stopped {v : Saved} (h' : StopInv t h) (hv : h.stopped = some v) :
    t.pc ≠ .iret ∧ saved t.proc = v := by
  refine ⟨fun hpc => ?_, h'.kept v hv⟩
  have hflags := h'.flags
  rw [hpc] at hflags
  rw [show h.stopped = none from hflags] at hv
  cases hv

/-! ### Whole calls -/

/-- The invariant of a call of `signalsHandler`. -/
def CallInv (x : Handler × Stop) : Prop := ∀ t, x.1 = .run t → StopInv t x.2

lemma CallInv.step {x y : Handler × Stop} (hinv : CallInv x)
    (hstep : withHistory handlerStep nextStop x l = some y) : CallInv y := by
  obtain ⟨hst, hnext⟩ := withHistory_eq_some.mp hstep
  intro t ht
  rw [hnext, ht]
  rw [ht] at hst
  obtain ⟨x, h⟩ := x
  cases x with
  | run u => exact (hinv u rfl).step hst
  | exited => cases hst
  | fault => cases hst

/-- In every call of `signalsHandler`, with any mask, handlers and memory and any signals that arrive
    while it yields: when `SIGKILL` is pending at the start of a scan and the dispositions can be read,
    the process exits and does not return; when a scan has consumed a stop, the call does not return and
    the frame, the masks and the backup stay as they are until a scan sees a continue or the process
    exits. -/
theorem stop_and_kill {t₀ : Thread} (h₀ : t₀.pc = .scan signum0 false false)
    {x : Handler × Stop}
    (hrun : Reach (withHistory handlerStep nextStop) Always (.run t₀, ⟨none, false⟩) x) :
    (∀ t isStopped isCont, x.1 = .run t → t.pc = .scan signum0 isStopped isCont →
      hasBit t.proc.pendingSignals SIGKILL = true → Readable t.proc →
        Exits (.run t) ∧ ∀ y, Reach handlerStep Always (.run t) y → ¬ y.Returned) ∧
      ∀ t v, x.1 = .run t → x.2.stopped = some v → t.pc ≠ .iret ∧ saved t.proc = v := by
  have hinv : CallInv x := by
    refine hrun.invariant (I := CallInv) ?_ fun _ _ _ hinv _ hstep => hinv.step hstep
    rintro t ht
    cases ht
    refine ⟨fun v hv => (by cases hv), fun _ => rfl, ?_⟩
    rw [h₀]
    exact ⟨rfl, fun h => absurd rfl h⟩
  refine ⟨fun t isStopped isCont _ hpc hkill hread => ?_, fun t v ht hv => (hinv t ht).stopped hv⟩
  have hdoomed : Doomed (.run t) := by
    refine ⟨hkill, ?_⟩
    rw [hpc]
    exact Nat.zero_le _
  exact ⟨hdoomed.exits hread, fun y hy => hdoomed.not_returned hy⟩

/-- A process with `SIGSTOP` pending. -/
def stopping : Thread where
  proc := { userinit (fun _ => 0) 2 with pendingSignals := 0x20000 }
  pc := .scan signum0 false false
  hist := .zero

/-- At the start of a scan with `SIGKILL` pending. -/
def Handler.killed : Handler → Bool
  | .run t => t.pc = .scan signum0 true false && hasBit t.proc.pendingSignals SIGKILL &&
    decide (Readable t.proc)
  | _ => false

/-- A stopped process gets `SIGKILL`: it keeps its frame until then, and exits. -/
theorem stop_and_kill_stopped : ∃ t v, saved t.proc = v ∧ v.tf = stopping.proc.tf ∧
    Exits (.run t) := by
  have hexec : ∃ x : Handler × Stop,
      Reach (withHistory handlerStep nextStop) Always (.run stopping, ⟨none, false⟩) x ∧
        (x.1.killed = true ∧ x.2.stopped = some (saved stopping.proc)) :=
    Reach.exists_of_exec
      (List.replicate 34 .run ++ [.arrive 0x200, .run]) (by decide +kernel)
  obtain ⟨⟨x, h⟩, hrun, hkilled, hstopped⟩ := hexec
  cases x with
  | exited t => cases hkilled
  | fault e => cases hkilled
  | run t =>
    simp only [Handler.killed, Bool.and_eq_true, decide_eq_true_eq] at hkilled
    obtain ⟨⟨hpc, hkill⟩, hread⟩ := hkilled
    obtain ⟨hexits, hkept⟩ := stop_and_kill rfl hrun
    exact ⟨t, _, (hkept t _ rfl hstopped).2, rfl, (hexits t _ _ rfl hpc hkill hread).1⟩

end Xv6.Signal
