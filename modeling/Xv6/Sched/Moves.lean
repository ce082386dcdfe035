import Xv6.Sched.Kernel

/-!
# The steps of the outermost functions

Every branch of `fork`, `exit`, `wait` and `kill_handler`, and what the code around them can do, with the
condition for it. What the later files say about such a step they read off these lists.
-/

namespace Xv6.Sched

open Option

/-- A step of the outermost function of `p`. -/
inductive MainStep (s : State) (p : Slot) (i : Intr) : Main → Thread → Act → Intr → Prop
  | forkret {i'} : popcli i = .ok i' → MainStep s p i .forkret (.at (.code 0)) .none i'
  | allocproc : MainStep s p i .allocproc (.at (.allocTake slot0)) .none (pushcli i)
  | allocTake {q} : (s.slot q).state = .unused →
      MainStep s p i (.allocTake q) (.at (.allocFound q)) (.state q .embryo) i
  | allocNext {q r} : MainStep s p i (.allocTake q) (.at (.allocTake r)) .none i
  | allocLast {q} : MainStep s p i (.allocTake q) (.at .allocNone) .none i
  | allocNone {i'} : popcli i = .ok i' → MainStep s p i .allocNone (.at (.code (-1))) .none i'
  | allocFound {np i'} : popcli i = .ok i' → MainStep s p i (.allocFound np) (.at (.pidOld np)) .none i'
  | pidOld {np} : MainStep s p i (.pidOld np) (.at (.pidNew np s.nextpid)) .none i
  | pidNew {np old} : MainStep s p i (.pidNew np old) (.at (.pidNext np old (s.nextpid + 1))) .none i
  | pidNext {np old pid} :
      MainStep s p i (.pidNext np old pid) (.at (.pidCas np old pid (s.nextpid + 1))) .none i
  | pidCas {np old pid next} :
      MainStep s p i (.pidCas np old pid next) (.at (.setPid np pid)) (.nextpid next) i
  | pidAgain {np old pid next} : MainStep s p i (.pidCas np old pid next) (.at (.pidOld np)) .none i
  | setPid {np pid} : MainStep s p i (.setPid np pid) (.at (.allocStack np)) (.pid np pid) i
  | allocDrop {np} : (s.slot np).state = .embryo →
      MainStep s p i (.allocDrop np) (.at (.code (-1))) (.state np .unused) i
  | allocLost {np} : MainStep s p i (.allocDrop np) (.at (.code (-1))) .none i
  | forkFree {np} : MainStep s p i (.forkFree np) (.at (.forkDrop np)) (.free np) i
  | forkDrop {np} : (s.slot np).state = .embryo →
      MainStep s p i (.forkDrop np) (.at (.code (-1))) (.state np .unused) i
  | forkLost {np} : MainStep s p i (.forkDrop np) (.at (.code (-1))) .none i
  | forkParent {np} : MainStep s p i (.forkParent np) (.at (.forkPid np)) (.parent np (some p)) i
  | forkPid {np} : MainStep s p i (.forkPid np) (.at (.forkPush np (s.slot np).pid)) .none i
  | forkPush {np pid} : MainStep s p i (.forkPush np pid) (.at (.forkRun np pid)) .none (pushcli i)
  | forkRun {np pid} : (s.slot np).state = .embryo →
      MainStep s p i (.forkRun np pid) (.at (.forkPop pid)) (.state np .runnable) i
  | forkPop {pid i'} : popcli i = .ok i' → MainStep s p i (.forkPop pid) (.at (.code pid)) .none i'
  | exit : p ≠ initproc → MainStep s p i .exit (.at .exitClose) .none i
  | exitPush : MainStep s p i .exitPush (.at .exitCas) .none (pushcli i)
  | exitCas : MainStep s p i .exitCas (.at .exitParent) (cas s p .running .negZombie) i
  | exitParent : MainStep s p i .exitParent ⟨.exitWoke (s.slot p).parent, none, none,
      some (.wakeup1 false (.ofProc (s.slot p).parent) slot0)⟩ .none i
  | exitWoke {w} : MainStep s p i (.exitWoke w) (.at (.exitLoop w slot0)) .none i
  | exitKid {w q} : (s.slot q).parent = some p → MainStep s p i (.exitLoop w q) (.at (.exitGive w q)) .none i
  | exitLoop {w q} : (s.slot q).parent ≠ some p → MainStep s p i (.exitLoop w q) (.at (exitNext w q)) .none i
  | exitGive {w q} : MainStep s p i (.exitGive w q) (.at (.exitZombie w q)) (.parent q (some initproc)) i
  | exitZombie {w q} : MainStep s p i (.exitZombie w q) ⟨.exitAgain w q, none, none,
      some (.wakeup1 false (.proc initproc) slot0)⟩ .none i
  | exitOther {w q} : MainStep s p i (.exitZombie w q) (.at (.exitNegZombie w q)) .none i
  | exitNegZombie {w q} : MainStep s p i (.exitNegZombie w q) ⟨.exitAgain w q, none, none,
      some (.wakeup1 false (.proc initproc) slot0)⟩ .none i
  | exitAlive {w q} : MainStep s p i (.exitNegZombie w q) (.at (exitNext w q)) .none i
  | exitAgain {w q} : MainStep s p i (.exitAgain w q) (.at (exitNext w q)) .none i
  | exitSched {w} : MainStep s p i (.exitSched w) ⟨.zombieExit w, none, none, some (.sched false)⟩ .none i
  | wait : MainStep s p i .wait (.at .waitScan) .none (pushcli i)
  | waitScan : MainStep s p i .waitScan (.at (.waitTest slot0 false)) .none i
  | waitTest {q k} : MainStep s p i (.waitTest q k)
      (.at (if (s.slot q).parent = some p then .waitNeg q else waitNext q k)) .none i
  | waitNeg {q} : MainStep s p i (.waitNeg q)
      (.at (if (s.slot q).state = .negZombie then .waitReap q else .waitZombie q)) .none i
  | waitZombie {q} : MainStep s p i (.waitZombie q)
      (.at (if (s.slot q).state = .zombie then .waitReap q else waitNext q true)) .none i
  | waitReap {q} : (s.slot q).state = .zombie →
      MainStep s p i (.waitReap q) (.at (.waitPid q)) (.state q .negUnused) i
  | waitAgain {q} : MainStep s p i (.waitReap q) (.at (.waitNeg q)) .none i
  | waitPid {q} : MainStep s p i (.waitPid q) (.at (.waitFree q (s.slot q).pid)) .none i
  | waitFree {q pid} : MainStep s p i (.waitFree q pid) (.at (.waitFreevm q pid)) (.free q) i
  | waitFreevm {q pid} : MainStep s p i (.waitFreevm q pid) (.at (.waitClearPid q pid)) (.pgdir q false) i
  | waitClearPid {q pid} : MainStep s p i (.waitClearPid q pid) (.at (.waitClearParent q pid)) (.pid q 0) i
  | waitClearParent {q pid} :
      MainStep s p i (.waitClearParent q pid) (.at (.waitClearKilled q pid)) (.parent q none) i
  | waitClearKilled {q pid} :
      MainStep s p i (.waitClearKilled q pid) (.at (.waitUnused q pid)) (.killed q false) i
  | waitUnused {q pid} : (s.slot q).state = .negUnused →
      MainStep s p i (.waitUnused q pid) (.at (.waitPop pid)) (.state q .unused) i
  | waitNone {k} : MainStep s p i (.waitKids k) (.at (.waitPop (-1))) .none i
  | waitSleep {k} :
      MainStep s p i (.waitKids k) ⟨.waitScan, some ⟨.proc p, none, .start⟩, none, none⟩ .none i
  | waitPop {v i'} : popcli i = .ok i' → MainStep s p i (.waitPop v) (.at (.code v)) .none i'
  | killHandler : MainStep s p i .killHandler (.at .killSet) .none (pushcli i)
  | killSet : MainStep s p i .killSet (.at .killCas) (.killed p true) i
  | killCas : (s.slot p).state = .sleeping → MainStep s p i .killCas (.at .killPop) (.state p .runnable) i
  | killAwake : MainStep s p i .killCas (.at .killPop) .none i
  | killPop {i'} : popcli i = .ok i' → MainStep s p i .killPop (.at .exit) .none i'

/-- What the code around the outermost functions does in a system call, or in `exit` while the files are closed. -/
inductive MainOp : Main → Op → Thread → Act → Prop
  | call {m o f} : m = .exitClose ∨ (∃ v, m = .code v) → o.call = some f → MainOp m o ⟨m, none, none, some f⟩ .none
  | sleep {m chan lk} : m = .exitClose ∨ (∃ v, m = .code v) →
      MainOp m (.sleep chan lk) ⟨m, some ⟨chan, some lk, .start⟩, none, none⟩ .none
  | yield {v} : MainOp (.code v) .yield ⟨.code v, none, none, some .yield⟩ .none
  | fork {v} : MainOp (.code v) .fork (.at .allocproc) .none
  | exit {v} : MainOp (.code v) .exit (.at .exit) .none
  | wait {v} : MainOp (.code v) .wait (.at .wait) .none
  | killHandler {v} : MainOp (.code v) .killHandler (.at .killHandler) .none
  | closed : MainOp .exitClose .closed (.at .exitPush) .none
  | stack {np} : MainOp (.allocStack np) (.alloc true) (.at (.copyuvm np)) (.stack np)
  | noStack {np} : MainOp (.allocStack np) (.alloc false) (.at (.allocDrop np)) .none
  | dir {np} : MainOp (.copyuvm np) (.alloc true) (.at (.forkParent np)) (.pgdir np true)
  | noDir {np} : MainOp (.copyuvm np) (.alloc false) (.at (.forkFree np)) (.pgdir np false)

variable {s : State} {p : Slot} {i i' : Intr} {m : Main} {t : Thread} {a : Act} {o : Op}

lemma pop_eq_go {α : Type} {x y : α} (h : pop i x = .go y a i') : popcli i = .ok i' ∧ y = x ∧ a = .none := by
  rw [pop] at h
  split at h
  · rename_i hj
    cases h
    exact ⟨hj, rfl, rfl⟩
  · cases h

lemma mainStep_cases (h : mainStep s p i m = some (.go t a i')) : MainStep s p i m t a i' := by
  cases m with
  | forkret | allocNone | allocFound | forkPop | waitPop | killPop =>
    obtain ⟨hi, rfl, rfl⟩ := pop_eq_go (some.inj h)
    constructor
    exact hi
  | allocTake =>
    simp only [mainStep, forkStep, exitStep, waitStep, killStep, or_none, some.injEq] at h
    split_ifs at h with hfree
    · cases h
      exact .allocTake hfree
    · split at h <;> cases h <;> constructor
  | allocDrop | forkDrop | killCas =>
    cases h
    rw [cas]
    split_ifs <;> constructor <;> assumption
  | pidCas | forkRun | exit | exitLoop | exitZombie | exitNegZombie | waitReap | waitUnused | waitKids =>
    simp only [mainStep, forkStep, exitStep, waitStep, killStep, none_or, or_none, some.injEq] at h
    split_ifs at h <;> cases h <;> constructor <;> assumption
  | code | allocStack | copyuvm | exitClose | zombieExit => cases h
  | _ =>
    cases h
    constructor

lemma codeOp_cases (hm : m = .exitClose ∨ ∃ v, m = .code v) (h : codeOp (.at m) o = some t) :
    MainOp m o t .none := by
  cases o with
  | sleep =>
    cases h
    exact .sleep hm
  | _ =>
    simp only [codeOp, map_eq_some_iff] at h
    obtain ⟨f, hf, rfl⟩ := h
    exact .call hm hf

lemma mainOp_cases (h : mainOp m o = some (t, a)) : MainOp m o t a := by
  cases m with
  | code v =>
    obtain ⟨t', ht, heq⟩ := map_eq_some_iff.mp h
    cases heq
    cases o with
    | fork | exit | wait | killHandler =>
      cases ht
      constructor
    | yield =>
      cases ht
      exact .yield
    | _ => exact codeOp_cases (.inr ⟨v, rfl⟩) ht
  | exitClose =>
    obtain ⟨t', ht, heq⟩ := map_eq_some_iff.mp h
    cases heq
    cases o with
    | closed =>
      cases ht
      constructor
    | _ => exact codeOp_cases (.inl rfl) ht
  | allocStack | copyuvm =>
    cases o with
    | alloc ok => cases ok <;> cases h <;> constructor
    | _ => cases h
  | _ => cases h

end Xv6.Sched
