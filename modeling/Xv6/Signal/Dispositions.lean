import Xv6.Signal.Lockstep
import Xv6.Signal.Sigaction

/-!
# Dispositions

A disposition is one of a few constants or a pointer into the memory of the process. `sigaction`
stores the pointer and not what it points to, and reads the old disposition as a pointer whatever it
is; `exec` knows the constant `SIG_IGN` only. So a disposition can be saved and restored, stays what it
was when it was installed, and survives `exec` only under conditions on how it is stored.
-/

namespace Xv6.Signal

open Machine Option Function

variable {p q r : Proc} {i : Signum} {signum act oldact new : Word} {isStopped isCont : Bool}
  {mem : Word → Byte}

/-- Two processes whose dispositions of `i` are pointers to equal structs. -/
lemma same_of_structs (hp : isSigact (p.signalHandlers i) = true)
    (hq : isSigact (q.signalHandlers i) = true) (hmask : q.signalMask = p.signalMask)
    (hfunc : q.fetch (q.signalHandlers i) = p.fetch (p.signalHandlers i))
    (hsigmask : q.fetch (q.signalHandlers i + 4) = p.fetch (p.signalHandlers i + 4)) :
    SameScan p q i ∧ SameDelivery p q i := by
  have hne : ∀ a : Word, isSigact a = true →
      a ≠ SIG_DFL ∧ a ≠ SIG_IGN ∧ a ≠ disp SIGKILL ∧ a ≠ disp SIGSTOP ∧ a ≠ disp SIGCONT := by
    intro a ha
    refine ⟨?_, ?_, ?_, ?_, ?_⟩ <;> rintro rfl <;> exact absurd ha (by decide)
  obtain ⟨hp0, hp1, hp9, hp17, hp19⟩ := hne _ hp
  obtain ⟨hq0, hq1, hq9, hq17, hq19⟩ := hne _ hq
  refine ⟨⟨?_, ?_, ?_⟩, ⟨?_, hfunc, ?_⟩⟩
  · simp only [scanKills, hp0, hp9, hq0, hq9, hp, hq, hfunc]
  · simp only [scanStops, scanActs, hp17, hq17, hp, hq, hfunc]
  · simp only [scanConts, scanActs, hp19, hq19, hp, hq, hfunc]
  · simp only [isIgnored, hmask, hp1, hq1, hfunc]
  · simp only [handlerMask, hp, hq, hsigmask, if_true]

lemma SigactMapped.fetch_eq {b : Word} (hp : SigactMapped p b) (hq : SigactMapped q act)
    (hfunc : loadWord q.mem act = loadWord p.mem b)
    (hmask : loadWord q.mem (act + 4) = loadWord p.mem (b + 4)) :
    q.fetch act = p.fetch b ∧ q.fetch (act + 4) = p.fetch (b + 4) := by
  rw [hp.fetch.1, hp.fetch.2, hq.fetch.1, hq.fetch.2]
  simp only [word_eq_loadWord, hfunc, hmask, and_self]

/-! ### Saving and restoring -/

/-- `sigaction(signum, new, old)`, then `sigaction(signum, old, null)`. -/
def restore (p : Proc) (signum new old : Word) : Except Panic Proc := do
  let (p₁, _) ← sigaction p signum new old
  let (q, _) ← sigaction p₁ signum old 0
  .ok q

/-- A later moment, without the two calls (`p'`) and with them (`q'`): the two processes have the
    same signals, mask, frame and other dispositions, and the structs that the two dispositions
    of `i` point to are still there with the bytes that they had after the calls. -/
structure Later (p q : Proc) (i : Signum) (old : Word) (p' q' : Proc) : Prop where
  twin : q' = p'.twin q'.mem q'.signalHandlers
  mem : AgreeOff (InBlock old 8) p'.mem q'.mem
  others : ∀ j, j ≠ i → q'.signalHandlers j = p'.signalHandlers j
  before : p'.signalHandlers i = p.signalHandlers i
  after : q'.signalHandlers i = q.signalHandlers i
  mapped : SigactMapped p' (p.signalHandlers i) ∧ SigactMapped p' old
  keptBefore : ∀ x, InBlock (p.signalHandlers i) 8 x → p'.mem x = p.mem x
  keptAfter : ∀ x, InBlock old 8 x → q'.mem x = q.mem x

/-- The four bytes at `a` and at `a + 4` are in the block of eight. -/
lemma inBlock_words {a x : Word} :
    (InBlock a 4 x → InBlock a 8 x) ∧ (InBlock (a + 4) 4 x → InBlock a 8 x) := by
  simp only [InBlock]
  constructor
  · intro h
    omega
  · intro h
    bv_omega

lemma loadWord_kept {m m' : Word → Byte} {a : Word} (h : ∀ x, InBlock a 8 x → m' x = m x) :
    loadWord m' a = loadWord m a ∧ loadWord m' (a + 4) = loadWord m (a + 4) :=
  ⟨loadWord_congr fun x hx => h x (inBlock_words.1 hx), loadWord_congr fun x hx => h x (inBlock_words.2 hx)⟩

/-- What the two calls leave: the old disposition has become a pointer to a copy of the struct. -/
lemma restore_eq (hset : Settable signum) (hread : SigactMapped p (p.signalHandlers (sigIndex signum)))
    (hold : oldact.toNat + 8 ≤ p.sz.toNat) (hne : oldact ≠ 0) :
    restore p signum new oldact = .ok (p.twin
      (blit p.mem oldact
        (wordBytes (p.word (p.signalHandlers (sigIndex signum))) ++
          wordBytes (p.word (p.signalHandlers (sigIndex signum) + 4))))
      (update p.signalHandlers (sigIndex signum) oldact)) := by
  have hfirst : sigaction p signum new oldact = .ok (_, 0) :=
    sigaction_settable hset (copyOld_blit (c := .handler (sigIndex signum)) hold hne hread)
  have hnull : ∀ r : Proc, copyOld r (.handler (sigIndex signum)) 0 = .ok r := fun _ => rfl
  have hsecond : ∀ r : Proc, sigaction r signum oldact 0 = .ok (_, 0) :=
    fun r => sigaction_settable hset (hnull r)
  rw [restore, hfirst]
  simp only [bind, Except.bind, hsecond, update_idem]
  rfl

lemma scanBody_kills {t : Thread} (hpend : hasBit t.proc.pendingSignals i = true)
    (hmask : hasBit t.proc.signalMask i = false) (hkills : scanKills t.proc i = .ok true) :
    ∃ t', scanBody t i isStopped isCont = .exit t' := by
  rw [scanBody, if_pos ⟨hpend, .inl hmask⟩, hkills]
  exact ⟨_, rfl⟩

lemma scanBody_ne_exit {t t' : Thread} (hkills : scanKills t.proc i = .ok false) :
    scanBody t i isStopped isCont ≠ .exit t' := by
  rw [scanBody, hkills]
  split_ifs
  · cases scanStops t.proc i with
    | error => exact fun h => by cases h
    | ok stops =>
      cases stops with
      | true => exact fun h => by cases h
      | false =>
        rcases scanCont_cases t i isStopped isCont with he | ⟨pc, -, he⟩
        · exact fun h => by cases he.symm.trans h
        · exact fun h => by cases he.symm.trans h
  · exact fun h => by cases h

/-- A signal that ends one of two processes and not the other. -/
lemma not_sameSteps {F : Word → Prop} {p q : Proc} (hpend : hasBit p.pendingSignals i = true)
    (hmask : hasBit p.signalMask i = false) (hp : scanKills p i = .ok true)
    (hq : scanKills q i = .ok false) : ¬ SameSteps F p q i := by
  intro h
  have hsame := h (.scan i false false) Hist.zero rfl
  simp only [signalsHandler] at hsame
  cases hsame with
  | some hsame =>
    have hkills : ∃ t, scanBody
        ⟨p, .scan i false false, { Hist.zero with late := clearBit Hist.zero.late i }⟩
        i false false = .exit t := scanBody_kills hpend hmask hp
    obtain ⟨t, ht⟩ := hkills
    rw [ht] at hsame
    generalize hy : scanBody _ i false false = y at hsame
    cases hsame with
    | exit => exact scanBody_ne_exit hq hy

/-- The first process after it has installed a handler for signal 5 with a struct at 64. -/
def withHandler : Proc :=
  { userinit (memOf [(64, 128)]) 2 with
    signalHandlers := Function.update (fun _ => 0) (sigIndex 5) 64 }

/-- What a user program does to its memory: a store, or `sbrk`, for which there may not be enough
    memory. -/
inductive UserOp
  | store (x : Word) (b : Byte)
  | sbrk (n : Word) (memory : Bool)

/-- `growproc`. When a process gives back all of its memory the pages are gone although `sz` stays as
    it is, and the process cannot go on. -/
def growproc (p : Proc) (n : Word) (memory : Bool) : Option Proc :=
  if BitVec.slt 0 n then
    if (p.sz + n).toNat ≥ KERNBASE ∨ memory = false ∨ p.sz + n < p.sz then some p
    else some { p with
      sz := p.sz + n
      mem := fun a => if p.mapped a then p.mem a else 0 }
  else if BitVec.slt n 0 then
    if p.sz + n ≥ p.sz then some p
    else if p.sz + n = 0 then none
    else some { p with sz := p.sz + n }
  else some p

/-- A store outside of the process's pages is a fault of the user program. -/
def userOp (p : Proc) : UserOp → Option Proc
  | .store x b => if p.mapped x then some { p with mem := Function.update p.mem x b } else none
  | .sbrk n memory => growproc p n memory

/-- The tests of signal `j` read the process's own memory only: they do not fault, and the bytes
    elsewhere make no difference. -/
structure ReadsOwn (p : Proc) (j : Signum) : Prop where
  kills : ∃ b, scanKills p j = .ok b
  stops : ∃ b, scanStops p j = .ok b
  conts : ∃ b, scanConts p j = .ok b
  ignored : ∃ b, isIgnored p j = .ok b
  func : ∃ v, p.fetch (p.signalHandlers j) = .ok v
  mask : ∃ v, handlerMask p j = .ok v
  same : ∀ mem, (∀ x, x.toNat < p.sz.toNat → mem x = p.mem x) →
    SameScan p (p.twin mem p.signalHandlers) j ∧ SameDelivery p (p.twin mem p.signalHandlers) j

/-- A delivery in `r` uses the handler and the mask that `act` pointed to in `p`, and
    `signalsHandler` reads nothing outside of the memory of `r`. -/
structure Snapshot (p : Proc) (act : Word) (i : Signum) (r : Proc) : Prop where
  delivered : ∀ r', deliver r i = .ok r' →
    r'.tf.eip = p.word act ∧ r'.signalMask = p.word (act + 4)
  reads : ∀ j, ReadsOwn r j

/-- The structs of all dispositions, and what the constants are read as, are in the process's
    memory. -/
def Fits (p : Proc) : Prop := ∀ j, (p.signalHandlers j).toNat + 8 ≤ p.sz.toNat

instance (p : Proc) : Decidable (Fits p) := inferInstanceAs (Decidable (∀ _, _))

/-- The program leaves the struct at `act` alone and gives back no memory that a disposition points
    to. -/
def KeepsStructs (act : Word) (p : Proc) : UserOp → Prop
  | .store x _ => ¬ InBlock act 8 x
  | .sbrk n memory => (growproc p n memory).all (fun r => decide (Fits r)) = true

instance (act : Word) (p : Proc) : (op : UserOp) → Decidable (KeepsStructs act p op)
  | .store _ _ => inferInstanceAs (Decidable (¬ _))
  | .sbrk _ _ => inferInstanceAs (Decidable (_ = _))

/-- What the user program keeps: the dispositions, and the struct at `act`. -/
structure StructKept (act : Word) (q r : Proc) : Prop where
  handlers : r.signalHandlers = q.signalHandlers
  fits : Fits r
  mem : ∀ x, InBlock act 8 x → r.mem x = q.mem x

lemma growproc_eq {n : Word} {memory : Bool} (h : growproc p n memory = some r) :
    r.signalHandlers = p.signalHandlers ∧ ∀ x, p.mapped x = true → r.mem x = p.mem x := by
  rw [growproc] at h
  split_ifs at h <;> obtain rfl := some.inj h
  · exact ⟨rfl, fun _ _ => rfl⟩
  · refine ⟨rfl, fun x hx => ?_⟩
    exact if_pos hx
  · exact ⟨rfl, fun _ _ => rfl⟩
  · exact ⟨rfl, fun _ _ => rfl⟩
  · exact ⟨rfl, fun _ _ => rfl⟩

lemma lt_of_inBlock {b x : Word} (hx : InBlock b 8 x) (hle : b.toNat + 8 ≤ p.sz.toNat) :
    x.toNat < p.sz.toNat := by
  rw [inBlock_iff (by omega)] at hx
  omega

lemma structKept_step {op : UserOp} (hact : q.signalHandlers i = act) (h : StructKept act q r)
    (hok : KeepsStructs act r op) (hop : userOp r op = some p) : StructKept act q p := by
  cases op with
  | store x b =>
    simp only [userOp] at hop
    split_ifs at hop
    obtain rfl := some.inj hop
    refine ⟨h.handlers, h.fits, ?_⟩
    intro y hy
    have hne : y ≠ x := by
      rintro rfl
      exact hok hy
    exact (update_of_ne hne b r.mem).trans (h.mem y hy)
  | sbrk n memory =>
    have hgrow : growproc r n memory = some p := hop
    obtain ⟨hhandlers, hmem⟩ := growproc_eq hgrow
    simp only [KeepsStructs, hgrow, all_some, decide_eq_true_eq] at hok
    refine ⟨hhandlers.trans h.handlers, hok, ?_⟩
    intro y hy
    have hle : act.toNat + 8 ≤ r.sz.toNat := by
      have hfit := h.fits i
      rwa [h.handlers, hact] at hfit
    rw [hmem y (mapped_of_lt (lt_of_inBlock hy hle)), h.mem y hy]

lemma structKept_run (hact : q.signalHandlers i = act) (hfits : Fits q)
    (hrun : Reach userOp (KeepsStructs act) q r) : StructKept act q r := by
  refine hrun.invariant (I := StructKept act q) ⟨rfl, hfits, fun _ _ => rfl⟩ ?_
  intro r op r' h hok hop
  exact structKept_step hact h hok hop

/-- The two words of a struct in the process's memory, in a memory that is the same there. -/
lemma fetch_twin {b : Word} (hle : b.toNat + 8 ≤ p.sz.toNat)
    (hmem : ∀ x, x.toNat < p.sz.toNat → mem x = p.mem x) (handlers : Signum → Word) :
    ((p.twin mem handlers).fetch b = p.fetch b ∧ p.fetch b = .ok (p.word b)) ∧
      (p.twin mem handlers).fetch (b + 4) = p.fetch (b + 4) ∧
      p.fetch (b + 4) = .ok (p.word (b + 4)) := by
  have h4 : (b + 4).toNat = b.toNat + 4 := by bv_omega
  have hwords : loadWord mem b = loadWord p.mem b ∧
      loadWord mem (b + 4) = loadWord p.mem (b + 4) :=
    loadWord_kept fun x hx => hmem x (lt_of_inBlock hx hle)
  have hfirst := fetch_of_le (p := p) (a := b) (by omega)
  have hsecond := fetch_of_le (p := p) (a := b + 4) (by omega)
  refine ⟨⟨?_, hfirst⟩, ?_, hsecond⟩
  · rw [hfirst, fetch_of_le (p := p.twin mem handlers) (a := b) (by change _ ≤ p.sz.toNat; omega),
      word_eq_loadWord, word_eq_loadWord]
    exact congrArg _ hwords.1
  · rw [hsecond,
      fetch_of_le (p := p.twin mem handlers) (a := b + 4) (by change _ ≤ p.sz.toNat; omega),
      word_eq_loadWord, word_eq_loadWord]
    exact congrArg _ hwords.2

lemma readsOwn_of_le {j : Signum} (hle : (p.signalHandlers j).toNat + 8 ≤ p.sz.toNat) : ReadsOwn p j := by
  obtain ⟨⟨_, hfunc⟩, _, hmask⟩ := fetch_twin hle (fun _ _ => rfl) p.signalHandlers
  have hacts : ∀ k, ∃ b, scanActs k p j = .ok b := by
    intro k
    rw [scanActs, hfunc]
    split_ifs <;> exact ⟨_, rfl⟩
  refine ⟨?_, hacts SIGSTOP, hacts SIGCONT, ?_, ⟨_, hfunc⟩, ?_, ?_⟩
  · rw [scanKills, hfunc]
    split_ifs <;> exact ⟨_, rfl⟩
  · rw [isIgnored, hfunc]
    split_ifs <;> exact ⟨_, rfl⟩
  · rw [handlerMask, hmask]
    split_ifs <;> exact ⟨_, rfl⟩
  · intro mem hmem
    obtain ⟨⟨hfunc', _⟩, hmask', _⟩ := fetch_twin hle hmem p.signalHandlers
    have hsame : (p.twin mem p.signalHandlers).signalHandlers = p.signalHandlers := rfl
    refine ⟨⟨?_, ?_, ?_⟩, ⟨?_, hfunc', ?_⟩⟩
    · simp only [scanKills, hsame, hfunc']
    · simp only [scanStops, scanActs, hsame, hfunc']
    · simp only [scanConts, scanActs, hsame, hfunc']
    · simp only [isIgnored, hsame, hfunc']
      rfl
    · simp only [handlerMask, hsame, hmask']
      rfl

/-- What a call leaves when the new struct does not overlap `oldact`. -/
lemma installed (hset : Settable signum)
    (hold : oldact = 0 ∨ ∀ x, ¬ (InBlock act 8 x ∧ InBlock oldact 8 x))
    (hcall : sigaction p signum act oldact = .ok (q, 0)) :
    ∃ mem, q = p.twin mem (update p.signalHandlers (sigIndex signum) act) ∧
      ∀ x, InBlock act 8 x → mem x = p.mem x := by
  rw [sigaction, if_neg (not_or.mpr hset.2), cell_of_lt hset.1] at hcall
  obtain ⟨p', hcopy, hcall⟩ := bind_eq_ok.mp hcall
  obtain ⟨mem, rfl⟩ := copyOld_eq hcopy
  obtain ⟨rfl, _⟩ := Prod.mk.inj (Except.ok.inj hcall)
  refine ⟨mem, rfl, ?_⟩
  intro x hx
  exact copyOld_off hcopy (hold.imp_right fun hapart hin => hapart x ⟨hx, hin⟩)

lemma Fits.update (h : Fits p) (hact : act.toNat + 8 ≤ p.sz.toNat) :
    Fits (p.twin mem (update p.signalHandlers i act)) := by
  intro j
  change (Function.update p.signalHandlers i act j).toNat + 8 ≤ p.sz.toNat
  by_cases hj : j = i
  · subst hj
    rw [update_self]
    exact hact
  · rw [update_of_ne hj]
    exact h j

/-- The program changes the struct after the call, and a delivery uses what is there now. -/
theorem stored_handler_changes :
    ∃ s q r, Reach step Always (boot fun _ => 0) s ∧
      sigaction (s.slot initproc).proc 5 64 0 = .ok (q, 0) ∧
      Reach userOp Always q r ∧ ¬ Snapshot (s.slot initproc).proc 64 5 r := by
  have hrun : ∃ s, Reach step Always (boot fun _ => 0) s ∧
      (s.slot initproc).proc.word 64 = 128 ∧
      (((sigaction (s.slot initproc).proc 5 64 0).toOption.bind fun x =>
        if x.2 = 0 then userOp x.1 (.store 64 160) else none).bind fun r =>
          (deliver r 5).toOption).map (fun r' => r'.tf.eip) = some 160 :=
    Reach.exists_of_exec
      (toUser initproc ++ (call initproc 16 SYS_sigaction [5, 64, 0] [(64, 128)] .none).take 1)
      (by decide +kernel)
  obtain ⟨s, hreach, hword, heip⟩ := hrun
  obtain ⟨r', hr', heip⟩ := Option.map_eq_some_iff.mp heip
  obtain ⟨r, hr, hr'⟩ := Option.bind_eq_some_iff.mp hr'
  obtain ⟨⟨q, v⟩, hq, hr⟩ := Option.bind_eq_some_iff.mp hr
  split_ifs at hr with hv
  obtain rfl : v = 0 := hv
  refine ⟨s, q, r, hreach, eq_ok_of_toOption hq, .single trivial hr, ?_⟩
  intro hsnap
  have hfunc := (hsnap.delivered r' (eq_ok_of_toOption hr')).1
  rw [heip, hword] at hfunc
  exact absurd hfunc (by decide)

/-- As long as the program leaves the struct alone and gives back no memory that a disposition points
    to, a handler is the one that was installed. -/
theorem snapshot_of_keepsStructs (hset : Settable signum) (hact : act.toNat + 8 ≤ p.sz.toNat)
    (hptr : isSigact act = true) (hfits : Fits p)
    (hold : oldact = 0 ∨ ∀ x, ¬ (InBlock act 8 x ∧ InBlock oldact 8 x))
    (hcall : sigaction p signum act oldact = .ok (q, 0))
    (hrun : Reach userOp (KeepsStructs act) q r) : Snapshot p act (sigIndex signum) r := by
  obtain ⟨mem, rfl, hmem⟩ := installed hset hold hcall
  have hkept : StructKept act (p.twin mem (Function.update p.signalHandlers (sigIndex signum) act)) r := by
    refine structKept_run (i := sigIndex signum) (Function.update_self ..) ?_ hrun
    exact hfits.update hact
  have hdisp : r.signalHandlers (sigIndex signum) = act := by
    rw [hkept.handlers]
    exact Function.update_self ..
  have hle : act.toNat + 8 ≤ r.sz.toNat := by
    have hfit := hkept.fits (sigIndex signum)
    rwa [hdisp] at hfit
  have hwords : loadWord r.mem act = loadWord p.mem act ∧
      loadWord r.mem (act + 4) = loadWord p.mem (act + 4) :=
    loadWord_kept fun x hx => (hkept.mem x hx).trans (hmem x hx)
  obtain ⟨⟨_, hfunc⟩, _, hmask⟩ := fetch_twin hle (fun _ _ => rfl) r.signalHandlers
  refine ⟨?_, fun j => readsOwn_of_le (hkept.fits j)⟩
  intro r' hr'
  obtain ⟨func, mask, mem', hfetch, hsigmask, rfl⟩ := deliver_eq hr'
  rw [hdisp, hfunc] at hfetch
  rw [handlerMask, hdisp, if_pos hptr, hmask] at hsigmask
  simp only [word_eq_loadWord] at hfetch hsigmask ⊢
  exact ⟨(Except.ok.inj hfetch).symm.trans hwords.1,
    (Except.ok.inj hsigmask).symm.trans hwords.2⟩

theorem snapshot_withHandler :
    ∃ q r, sigaction withHandler 6 64 0 = .ok (q, 0) ∧ userOp q (.store 512 7) = some r ∧
      Snapshot withHandler 64 (sigIndex 6) r := by
  have hcall : sigaction withHandler 6 64 0 = .ok (_, 0) := sigaction_settable (by decide) rfl
  have hstore : ∀ q : Proc, q.sz = withHandler.sz →
      userOp q (.store 512 7) = some { q with mem := Function.update q.mem 512 7 } := by
    intro q hq
    simp only [userOp, Proc.mapped, hq]
    exact if_pos (by decide)
  refine ⟨_, _, hcall, hstore _ rfl, ?_⟩
  exact snapshot_of_keepsStructs (by decide) (by decide) (by decide) (by decide) (.inl rfl) hcall
    (.single (l := .store 512 7) (by decide) (hstore _ rfl))

/-! ### `exec` -/

/-- The disposition of the signal makes the delivery loop ignore it, whatever the mask. -/
def Ignored (p : Proc) (i : Signum) : Prop := isIgnored { p with signalMask := 0 } i = .ok true

lemma ignored_iff :
    Ignored p i ↔ p.signalHandlers i = SIG_IGN ∨ p.fetch (p.signalHandlers i) = .ok SIG_IGN := by
  have hfetch : Proc.fetch { p with signalMask := 0 } (p.signalHandlers i) =
      p.fetch (p.signalHandlers i) := rfl
  have hmask : hasBit (0 : Word) i = false := hasBit_zero i
  simp only [Ignored, isIgnored, hmask, Bool.false_eq_true, if_false, hfetch]
  split_ifs with hign
  · simp [hign]
  · cases p.fetch (p.signalHandlers i) with
    | error | ok => simp [hign, bind, Except.bind]

/-- After a successful `exec` the ignored signals are ignored and the others have the default
    disposition, with the same mask and pending signals; after a failed one no disposition has
    changed. -/
def ExecKeepsIgnored (p : Proc) (image : Option Image) (q : Proc) : Prop :=
  match image with
  | some _ =>
    (∀ i, Ignored p i → Ignored q i) ∧ (∀ i, ¬ Ignored p i → q.signalHandlers i = SIG_DFL) ∧
      q.signalMask = p.signalMask ∧ q.pendingSignals = p.pendingSignals
  | none => q.signalHandlers = p.signalHandlers

lemma step_exec {s s' : State} {a : Slot} {image : Option Image}
    (hs : step s (.syscall a (.exec image)) = some s') :
    ∃ v, s'.slot a = sysret
      { s.slot a with proc := (image.map (exec (s.slot a).proc)).getD (s.slot a).proc } v := by
  rw [step] at hs
  split_ifs at hs
  simp only [liveStep, syscallStep] at hs
  split_ifs at hs
  obtain ⟨o, ho, rfl⟩ := map_eq_some_iff.mp hs
  cases image with
  | none =>
    simp only [localCall] at ho
    split_ifs at ho
    obtain rfl := some.inj ho
    exact ⟨-1, setSlot_self ..⟩
  | some =>
    simp only [localCall] at ho
    split_ifs at ho
    obtain rfl := some.inj ho
    exact ⟨0, setSlot_self ..⟩

end Xv6.Signal
