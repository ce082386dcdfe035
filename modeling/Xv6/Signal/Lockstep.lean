import Xv6.Signal.Stop
import Xv6.Signal.UserStack

/-!
# Two calls of `signalsHandler` side by side

Two processes that differ in their dispositions and in part of their memory. A step of
`signalsHandler` that works on a signal looks at its disposition through a few tests only; where these
tests give the same answers, the steps of the two processes end in the same way.
-/

namespace Xv6.Signal

open Machine Function

variable {F : Word → Prop} {p q : Proc} {t : Thread} {i : Signum} {mem : Word → Byte}
  {handlers : Signum → Word}

/-- The process with another memory and other dispositions. -/
def Proc.twin (p : Proc) (mem : Word → Byte) (handlers : Signum → Word) : Proc :=
  { p with mem := mem, signalHandlers := handlers }

def Thread.twin (t : Thread) (mem : Word → Byte) (handlers : Signum → Word) : Thread :=
  { t with proc := t.proc.twin mem handlers }

/-- The memories are the same outside of `F`. -/
def AgreeOff (F : Word → Prop) (m m' : Word → Byte) : Prop := ∀ x, ¬ F x → m' x = m x

/-- The two processes end a step in the same way: only the dispositions, which are `handlers` in the
    second process, and the memory in `F` may differ. -/
inductive SameOutcome (F : Word → Prop) (handlers : Signum → Word) : Outcome → Outcome → Prop
  | next (t : Thread) (mem : Word → Byte) (h : AgreeOff F t.proc.mem mem) :
      SameOutcome F handlers (.next t) (.next (t.twin mem handlers))
  | exit (t : Thread) (mem : Word → Byte) (h : AgreeOff F t.proc.mem mem) :
      SameOutcome F handlers (.exit t) (.exit (t.twin mem handlers))
  | panic (e : Panic) : SameOutcome F handlers (.panic e) (.panic e)

/-- The tests of the scan give the same answers. -/
structure SameScan (p q : Proc) (i : Signum) : Prop where
  kills : scanKills q i = scanKills p i
  stops : scanStops q i = scanStops p i
  conts : scanConts q i = scanConts p i

/-- The delivery loop finds the same: whether the signal is ignored, the handler and its mask. -/
structure SameDelivery (p q : Proc) (i : Signum) : Prop where
  ignored : isIgnored q i = isIgnored p i
  func : q.fetch (q.signalHandlers i) = p.fetch (p.signalHandlers i)
  mask : handlerMask q i = handlerMask p i

/-! ### Stores -/

/-- The results of a store, or of a delivery, in the two processes. -/
inductive SameStore (F : Word → Prop) (handlers : Signum → Word) :
    Except Panic Proc → Except Panic Proc → Prop
  | ok (p : Proc) (mem : Word → Byte) (h : AgreeOff F p.mem mem) :
      SameStore F handlers (.ok p) (.ok (p.twin mem handlers))
  | error (e : Panic) : SameStore F handlers (.error e) (.error e)

lemma SameStore.bind {x y : Except Panic Proc} {f g : Proc → Except Panic Proc}
    (h : SameStore F handlers x y)
    (hf : ∀ p mem, AgreeOff F p.mem mem → SameStore F handlers (f p) (g (p.twin mem handlers))) :
    SameStore F handlers (x >>= f) (y >>= g) := by
  cases h with
  | ok p mem hm => exact hf p mem hm
  | error e => exact .error e

lemma AgreeOff.update {m m' : Word → Byte} (h : AgreeOff F m m') (a : Word) (b : Byte) :
    AgreeOff F (update m a b) (update m' a b) := by
  intro x hx
  by_cases hxa : x = a
  · subst hxa
    rw [update_self, update_self]
  · rw [update_of_ne hxa, update_of_ne hxa, h x hx]

lemma store_same (hm : AgreeOff F p.mem mem) (a : Word) (bs : List Byte) :
    SameStore F handlers (p.store a bs) ((p.twin mem handlers).store a bs) := by
  induction bs generalizing p mem a with
  | nil => exact .ok p mem hm
  | cons b bs ih =>
    refine SameStore.bind ?_ fun r mem' hr => ih hr (a + 1)
    have hmapped : (p.twin mem handlers).mapped a = p.mapped a := rfl
    rw [Proc.storeByte, Proc.storeByte, hmapped]
    split_ifs
    · exact .ok _ _ (hm.update a b)
    · exact .error _
    · exact .error _

lemma storeAll_same (hm : AgreeOff F p.mem mem) (ws : List UserStore) :
    SameStore F handlers (p.storeAll ws) ((p.twin mem handlers).storeAll ws) := by
  induction ws generalizing p mem with
  | nil => exact .ok p mem hm
  | cons w ws ih => exact (store_same hm w.start w.bytes).bind fun r mem' hr => ih hr

/-- Two deliveries to the same handler. -/
lemma deliver_same (hm : AgreeOff F p.mem mem) (h : SameDelivery p (p.twin mem handlers) i) :
    SameStore F handlers (deliver p i) (deliver (p.twin mem handlers) i) := by
  rw [deliver_eq_storeAll, deliver_eq_storeAll, h.func, h.mask]
  cases p.fetch (p.signalHandlers i) with
  | error e => exact .error e
  | ok =>
    cases handlerMask p i with
    | error e => exact .error e
    | ok =>
      refine (storeAll_same hm (deliveryStores p i)).bind fun r mem' hr => ?_
      exact .ok _ mem' hr

/-! ### Steps -/

section

variable (hm : AgreeOff F t.proc.mem mem)

include hm

lemma scanCont_same (h : SameScan t.proc (t.proc.twin mem handlers) i) (isStopped isCont : Bool) :
    SameOutcome F handlers (scanCont t i isStopped isCont)
      (scanCont (t.twin mem handlers) i isStopped isCont) := by
  have hconts : scanConts (t.twin mem handlers).proc i = scanConts t.proc i := h.conts
  rw [scanCont, scanCont, hconts]
  cases scanConts t.proc i with
  | error e => exact .panic e
  | ok b =>
    cases b with
    | true => exact .next _ _ hm
    | false => exact .next _ _ hm

lemma scanBody_same (h : SameScan t.proc (t.proc.twin mem handlers) i) (isStopped isCont : Bool) :
    SameOutcome F handlers (scanBody t i isStopped isCont)
      (scanBody (t.twin mem handlers) i isStopped isCont) := by
  have hkills : scanKills (t.twin mem handlers).proc i = scanKills t.proc i := h.kills
  have hstops : scanStops (t.twin mem handlers).proc i = scanStops t.proc i := h.stops
  rw [scanBody, scanBody, hkills, hstops]
  have hcond : (hasBit (t.twin mem handlers).proc.pendingSignals i = true ∧
      (hasBit (t.twin mem handlers).proc.signalMask i = false ∨ Special i)) =
      (hasBit t.proc.pendingSignals i = true ∧ (hasBit t.proc.signalMask i = false ∨ Special i)) := rfl
  simp only [hcond]
  split_ifs
  · cases scanKills t.proc i with
    | error e => exact .panic e
    | ok kills =>
      cases kills with
      | true => exact .exit _ _ hm
      | false =>
        cases scanStops t.proc i with
        | error e => exact .panic e
        | ok stops =>
          cases stops with
          | true => exact .next _ _ hm
          | false => exact scanCont_same hm h isStopped isCont
  · exact .next _ _ hm

lemma testBody_same (h : isIgnored (t.proc.twin mem handlers) i = isIgnored t.proc i) :
    SameOutcome F handlers (testBody t i) (testBody (t.twin mem handlers) i) := by
  have hignored : isIgnored (t.twin mem handlers).proc i = isIgnored t.proc i := h
  rw [testBody, testBody, hignored]
  cases isIgnored t.proc i with
  | error e => exact .panic e
  | ok =>
    have hpend : hasBit (t.twin mem handlers).proc.pendingSignals i = hasBit t.proc.pendingSignals i := rfl
    simp only [hpend]
    split_ifs <;> exact .next _ _ hm

lemma deliverBody_same (h : SameDelivery t.proc (t.proc.twin mem handlers) i) (v : Word) :
    SameOutcome F handlers (deliverBody t i v) (deliverBody (t.twin mem handlers) i v) := by
  have hdeliver : SameStore F handlers (deliver (clear t i v).proc i)
      (deliver (clear (t.twin mem handlers) i v).proc i) :=
    deliver_same (p := (clear t i v).proc) hm ⟨h.ignored, h.func, h.mask⟩
  rw [deliverBody, deliverBody]
  generalize deliver (clear t i v).proc i = x at hdeliver ⊢
  generalize deliver (clear (t.twin mem handlers) i v).proc i = y at hdeliver ⊢
  cases hdeliver with
  | ok p mem' hm' => exact .next _ _ hm'
  | error e => exact .panic e

end

/-- The signal that a step of `signalsHandler` works on. -/
def Pc.signal : Pc → Option Signum
  | .scan i _ _ | .stopLoad i _ | .stopStore i _ _ | .contLoad i _ | .contStore i _ _ | .test i
  | .ignoreLoad i | .ignoreStore i _ | .deliverLoad i | .deliverStore i _ => some i
  | _ => none

/-- A step that works on signal `i`. -/
lemma signalsHandler_twin {pc : Pc} {hist : Hist} (hpc : pc.signal = some i)
    (hm : AgreeOff F p.mem mem) (hscan : SameScan p (p.twin mem handlers) i)
    (htest : pc = .test i → SameOutcome F handlers (testBody ⟨p, pc, hist⟩ i)
      (testBody ⟨p.twin mem handlers, pc, hist⟩ i))
    (hdeliver : ∀ v, pc = .deliverStore i v → SameDelivery p (p.twin mem handlers) i) :
    Option.Rel (SameOutcome F handlers) (signalsHandler ⟨p, pc, hist⟩)
      (signalsHandler ⟨p.twin mem handlers, pc, hist⟩) := by
  cases pc with
  | scan j isStopped isCont =>
    obtain rfl : j = i := Option.some.inj hpc
    exact .some (scanBody_same (t := ⟨p, _, _⟩) hm hscan isStopped isCont)
  | stopStore j isCont v =>
    obtain rfl : j = i := Option.some.inj hpc
    exact .some (scanCont_same (t := clear ⟨p, .stopStore j isCont v, hist⟩ j v) hm
      ⟨hscan.kills, hscan.stops, hscan.conts⟩ true isCont)
  | test j =>
    obtain rfl : j = i := Option.some.inj hpc
    exact .some (htest rfl)
  | deliverStore j v =>
    obtain rfl : j = i := Option.some.inj hpc
    exact .some (deliverBody_same (t := ⟨p, _, _⟩) hm (hdeliver v rfl) v)
  | stopLoad | contLoad | contStore | ignoreLoad | ignoreStore | deliverLoad =>
    exact .some (.next _ _ hm)
  | _ => cases hpc

/-- The steps of `signalsHandler` that work on signal `i` end in the same way. -/
def SameSteps (F : Word → Prop) (p q : Proc) (i : Signum) : Prop :=
  ∀ (pc : Pc) (hist : Hist), pc.signal = some i →
    Option.Rel (SameOutcome F q.signalHandlers) (signalsHandler ⟨p, pc, hist⟩)
      (signalsHandler ⟨q, pc, hist⟩)

lemma sameSteps_twin (hm : AgreeOff F p.mem mem) (hscan : SameScan p (p.twin mem handlers) i)
    (hdeliver : SameDelivery p (p.twin mem handlers) i) : SameSteps F p (p.twin mem handlers) i := by
  intro pc hist hpc
  exact signalsHandler_twin hpc hm hscan
    (fun _ => testBody_same (t := ⟨p, pc, hist⟩) hm hdeliver.ignored) fun _ _ => hdeliver

end Xv6.Signal
