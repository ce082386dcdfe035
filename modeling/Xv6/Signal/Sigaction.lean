import Xv6.Signal.Pending

/-!
# What `sigaction` may change

`sigaction` refuses `SIGKILL` and `SIGSTOP` but does not compare `signum` with the length of
`signal_handlers`, so a `signum` from 32 on names a word of the backup frame or what comes after it,
and a negative one names a mask or what comes before it. It also reads the old disposition as a
pointer, whatever it is. For a `signum` in range whose old disposition can be read, the only word of the
kernel that changes is the entry of `signum`.
-/

namespace Xv6.Signal

open Machine BitVec

variable {s s' : State} {t t' : Thread} {p q : Proc} {l : Label} {a : Slot}
  {signum act oldact : Word} {code : Word → Byte}

/-! ### Sizes -/

/-- The memory of a process ends below the kernel's memory. -/
def SizeInv (t : Thread) : Prop := Live t → t.proc.sz.toNat ≤ KERNBASE

lemma SizeInv.effect (h : SizeInv t) (hlive : Live t) (he : Effect t t') : SizeInv t' := by
  have hsz := h hlive
  cases he with
  | goto | next | scan | clear | user | ret | sigret | sigprocmask => exact fun _ => hsz
  | exec image pc hpc hnum hle => exact fun _ => hle
  | other v sz mem pc hpc hle => exact fun _ => hle
  | exit => exact fun hl => absurd rfl hl.2
  | deliver i v p hpc hp =>
    obtain ⟨func, mask, mem, _, _, rfl⟩ := deliver_eq hp
    exact fun _ => hsz
  | sigaction p v pc hpc hnum hp =>
    rcases sysSigaction_eq hp with rfl | ⟨signum, act, c, mem, _, _, rfl⟩
    · exact fun _ => hsz
    · cases c <;> exact fun _ => hsz

lemma sizeInv_reach (hrun : Reach step Always (boot code) s) (a : Slot) : SizeInv (s.slot a) := by
  refine hrun.invariant (I := fun s => ∀ a, SizeInv (s.slot a)) ?_ ?_ a
  · refine forall_boot (fun hl => absurd rfl hl.1) fun _ => ?_
    exact Nat.le_of_ble_eq_true rfl
  · intro s l s' h _ hs
    refine (step_rule hs).forall_slot (I := fun _ => SizeInv) h ?_ ?_ ?_ ?_ ?_
    · intro t hlive ht
      exact (h l.slot).effect hlive ht
    · intro _ hl
      exact absurd rfl hl.1
    · intro signum q v _
      exact h q
    · intro t v _ hlive ht _
      exact ht hlive
    · intro child pc _ hlive _ _
      exact h l.slot hlive

/-! ### The call -/

/-- The process in `a` calls `sigaction` with arguments that `sys_sigaction` accepts. -/
structure SigactionCall (s : State) (a : Slot) (signum act oldact : Word) : Prop where
  live : s.panic = none
  pc : (s.slot a).pc = .syscall
  num : (s.slot a).proc.tf.eax = SYS_sigaction
  signum : (s.slot a).proc.argint 0 = some signum
  act : (s.slot a).proc.argptr 1 8 = some act
  oldact : (s.slot a).proc.argptr 2 8 = some oldact

/-- The signals whose disposition a process may change. -/
def Settable (signum : Word) : Prop :=
  signum.toNat < 32 ∧ signum ≠ disp SIGKILL ∧ signum ≠ disp SIGSTOP

instance (signum : Word) : Decidable (Settable signum) := inferInstanceAs (Decidable (_ ∧ _ ∧ _))

/-- The call returns 0 and changes one entry of `signal_handlers`, and the old disposition is the
    only thing it stores in user memory; or it returns -1 and changes nothing. -/
def SigactionExact (s : State) (a : Slot) (signum act oldact : Word) : Prop :=
  if Settable signum then
    ∃ mem, step s (.syscall a .none) = some (setSlot s a (sysret
        { s.slot a with
          proc := { (s.slot a).proc with
            mem := mem
            signalHandlers :=
              Function.update (s.slot a).proc.signalHandlers (sigIndex signum) act } } 0)) ∧
      ∀ x, oldact = 0 ∨ ¬ InBlock oldact 8 x → mem x = (s.slot a).proc.mem x
  else step s (.syscall a .none) = some (setSlot s a (sysret (s.slot a) (-1)))

/-- The eight bytes of a `struct sigaction` at the address are on pages of the process. -/
def SigactMapped (p : Proc) (a : Word) : Prop := ∀ k < 8, p.mapped (a + BitVec.ofNat 32 k) = true

instance (p : Proc) (a : Word) : Decidable (SigactMapped p a) :=
  inferInstanceAs (Decidable (∀ k < 8, _))

lemma step_sigaction (h : SigactionCall s a signum act oldact) :
    step s (.syscall a .none) =
      some (finish s a (match sigaction (s.slot a).proc signum act oldact with
        | .error e => .panic e
        | .ok (p, v) => .next (sysret { s.slot a with proc := p } v))) := by
  obtain ⟨hlive, hpc, hnum, hsignum, hact, hold⟩ := h
  have hne : (s.slot a).proc.tf.eax ≠ SYS_sigret ∧ (s.slot a).proc.tf.eax ≠ SYS_sigprocmask := by
    rw [hnum]
    decide
  simp only [step, if_pos hlive, liveStep, syscallStep, if_pos hpc, localCall, if_neg hne.1,
    if_neg hne.2, if_pos hnum, sysSigaction, hsignum, hact, hold]
  cases sigaction (s.slot a).proc signum act oldact with
  | error => rfl
  | ok => rfl

lemma cell_of_lt (h : signum.toNat < 32) : cell signum = some (.handler (sigIndex signum)) := by
  rw [cell, dif_pos h]
  simp only [sigIndex, Nat.mod_eq_of_lt h]

lemma SigactMapped.fetch {b : Word} (h : SigactMapped p b) :
    p.fetch b = .ok (p.word b) ∧ p.fetch (b + 4) = .ok (p.word (b + 4)) := by
  have h0 := h 0 (by decide)
  rw [BitVec.add_zero] at h0
  have h7 : p.mapped (b + 4 + 3) = true := by
    rw [BitVec.add_assoc]
    exact h 7 (by decide)
  constructor
  · rw [Proc.fetch, h0, show p.mapped (b + 3) = true from h 3 (by decide)]
    rfl
  · rw [Proc.fetch, show p.mapped (b + 4) = true from h 4 (by decide), h7]
    rfl

/-- The old disposition goes to the eight bytes at `oldact`. -/
lemma copyOld_blit {c : Cell} (hold : oldact.toNat + 8 ≤ p.sz.toNat) (hne : oldact ≠ 0)
    (hread : SigactMapped p (p.get c)) :
    copyOld p c oldact = .ok { p with
      mem := blit p.mem oldact (wordBytes (p.word (p.get c)) ++ wordBytes (p.word (p.get c + 4))) } := by
  rw [copyOld, if_neg hne, hread.fetch.1, hread.fetch.2]
  refine store_ok (by simp [wordBytes]) ?_
  intro k hk
  have hlt : k < 8 := hk
  refine mapped_of_lt ?_
  have := p.sz.isLt
  rw [toNat_add, toNat_ofNat]
  omega

lemma copyOld_ok {c : Cell} (hold : oldact.toNat + 8 ≤ p.sz.toNat)
    (hread : oldact = 0 ∨ SigactMapped p (p.get c)) :
    ∃ mem, copyOld p c oldact = .ok { p with mem := mem } ∧
      ∀ x, oldact = 0 ∨ ¬ InBlock oldact 8 x → mem x = p.mem x := by
  by_cases h0 : oldact = 0
  · refine ⟨p.mem, ?_, fun _ _ => rfl⟩
    rw [copyOld, if_pos h0]
  · refine ⟨_, copyOld_blit hold h0 (hread.resolve_left h0), ?_⟩
    intro x hx
    exact blit_of_notMem (hx.resolve_left h0)

/-- A call with a `signum` in range, up to the copy of the old disposition. -/
lemma sigaction_settable (hset : Settable signum) (hcopy :
    copyOld p (.handler (sigIndex signum)) oldact = .ok q) :
    sigaction p signum act oldact =
      .ok ({ q with signalHandlers := Function.update q.signalHandlers (sigIndex signum) act }, 0) := by
  rw [sigaction, if_neg (not_or.mpr hset.2), cell_of_lt hset.1]
  simp only [hcopy]
  rfl

/-- The block that `argptr` has checked ends in the memory of the process. -/
lemma argptr_block (hsz : p.sz.toNat ≤ KERNBASE) {n : Nat} (h : p.argptr n 8 = some oldact) :
    oldact.toNat + 8 ≤ p.sz.toNat := by
  obtain ⟨hlt, hle⟩ := argptr_eq h
  have h8 : (8 : Word).toNat = 8 := rfl
  rw [lt_def] at hlt
  rw [le_def, toNat_add, h8] at hle
  simp only [KERNBASE] at hsz
  omega

/-! ### Exactness -/

end Xv6.Signal
