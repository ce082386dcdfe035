import Xv6.Machine.Fallible
import Xv6.Machine.Memory
import Xv6.Signal.Proc

/-!
# What the signal functions change

One lemma for each function that can fail: when it succeeds, which fields differ afterwards, and
when it fails, why.
-/

namespace Xv6.Signal

open Machine List

variable {p q : Proc} {i : Signum} {a v : Word} {e : Panic} {bs : List Byte} {c : Cell} {oldact : Word}
  {f : Word → Bool}

/-! ### Reads of user memory -/

lemma le_PGROUNDUP (n : Nat) : n ≤ PGROUNDUP n := by
  simp only [PGROUNDUP, PGSIZE]
  omega

lemma mapped_of_lt (h : a.toNat < p.sz.toNat) : p.mapped a = true :=
  decide_eq_true (Nat.lt_of_lt_of_le h (le_PGROUNDUP _))

lemma word_eq_loadWord (p : Proc) (a : Word) : p.word a = loadWord p.mem a := by
  rw [Proc.word, loadWord, wordAt, BitVec.add_zero]
  rfl

lemma fetch_of_le (h : a.toNat + 4 ≤ p.sz.toNat) : p.fetch a = .ok (p.word a) := by
  have h3 : (a + 3).toNat < p.sz.toNat := by
    have := p.sz.isLt
    bv_omega
  rw [Proc.fetch, mapped_of_lt (by omega), mapped_of_lt h3]
  rfl

lemma fetch_error (h : p.fetch a = .error e) : e = .trap := by
  rw [Proc.fetch] at h
  split_ifs at h
  exact (Except.error.inj h).symm

lemma fetch_bind_error (h : (do let w ← p.fetch a; .ok (f w)) = .error e) : e = .trap := by
  rcases bind_eq_error.mp h with hf | ⟨w, _, hok⟩
  · exact fetch_error hf
  · cases hok

lemma scanKills_error (h : scanKills p i = .error e) : e = .trap := by
  rw [scanKills] at h
  split_ifs at h
  exact fetch_bind_error h

lemma scanActs_error {k : Signum} (h : scanActs k p i = .error e) : e = .trap := by
  rw [scanActs] at h
  split_ifs at h
  exact fetch_bind_error h

lemma isIgnored_error (h : isIgnored p i = .error e) : e = .trap := by
  rw [isIgnored] at h
  split_ifs at h
  exact fetch_bind_error h

lemma handlerMask_error (h : handlerMask p i = .error e) : e = .trap := by
  rw [handlerMask] at h
  split_ifs at h
  exact fetch_error h

/-! ### The tests of the scan -/

lemma fetch_bind_eq_false {a : Word} (h : (do let w ← p.fetch a; .ok (f w)) = .ok false) :
    ∃ w, p.fetch a = .ok w ∧ f w = false := by
  obtain ⟨w, hw, h⟩ := bind_eq_ok.mp h
  exact ⟨w, hw, Except.ok.inj h⟩

lemma scanActs_false {k : Signum} (h : scanActs k p i = .ok false) :
    i ≠ k ∧ p.signalHandlers i ≠ disp k ∧
      (isSigact (p.signalHandlers i) = true → ∃ w, p.fetch (p.signalHandlers i) = .ok w ∧ w ≠ disp k) := by
  rw [scanActs] at h
  split_ifs at h with hk hd hsig
  · cases h
  · cases h
  · obtain ⟨w, hw, hne⟩ := fetch_bind_eq_false h
    exact ⟨hk, hd, fun _ => ⟨w, hw, by simpa using hne⟩⟩
  · exact ⟨hk, hd, fun h => absurd h hsig⟩

lemma scanKills_false (h : scanKills p i = .ok false) :
    i ≠ SIGKILL ∧
      (i ≠ SIGCONT → i ≠ SIGSTOP → p.signalHandlers i ≠ disp SIGKILL ∧ p.signalHandlers i ≠ SIG_DFL) ∧
      (isSigact (p.signalHandlers i) = true →
        ∃ w, p.fetch (p.signalHandlers i) = .ok w ∧ w ≠ disp SIGKILL ∧ w ≠ SIG_DFL) := by
  rw [scanKills] at h
  split_ifs at h with hk hd hsig
  · cases h
  · cases h
  all_goals
    rw [not_and_or, not_or] at hd
    refine ⟨hk, fun hc hs => hd.resolve_right fun hn => hn ⟨hc, hs⟩, fun hsigact => ?_⟩
  · obtain ⟨w, hw, hne⟩ := fetch_bind_eq_false h
    exact ⟨w, hw, by simpa using hne⟩
  · exact absurd hsigact hsig

/-- The stored dispositions are the constants and the pointers. -/
lemma isSigact_or (a : Word) :
    isSigact a = true ∨ a = SIG_DFL ∨ a = SIG_IGN ∨ a = disp SIGKILL ∨ a = disp SIGSTOP ∨
      a = disp SIGCONT := by
  by_cases h : isSigact a = true
  · exact .inl h
  · right
    simp only [isSigact, Bool.not_eq_true, Bool.not_eq_false', Bool.or_eq_true, beq_iff_eq, or_assoc] at h
    exact h

/-! ### Stores to user memory -/

lemma storeByte_eq {b : Byte} (h : p.storeByte a b = .ok q) :
    q = { p with mem := Function.update p.mem a b } := by
  rw [Proc.storeByte] at h
  split_ifs at h
  exact (Except.ok.inj h).symm

lemma storeByte_wild {b : Byte} (h : p.storeByte a b = .error .wild) : KERNBASE ≤ a.toNat := by
  rw [Proc.storeByte] at h
  split_ifs at h with _ hk
  · exact hk
  · cases h

/-- What goes wrong in an access to memory: a fault, or a store to the kernel's memory. -/
def MemError (e : Panic) : Prop := e = .trap ∨ e = .wild

lemma store_error (h : p.store a bs = .error e) : MemError e := by
  induction bs generalizing p a with
  | nil => cases h
  | cons b bs ih =>
    rcases bind_eq_error.mp h with hb | ⟨p', _, hrest⟩
    · rw [Proc.storeByte] at hb
      split_ifs at hb
      · exact .inr (Except.error.inj hb).symm
      · exact .inl (Except.error.inj hb).symm
    · exact ih hrest

/-- A store to user memory changes the memory only. -/
lemma store_eq (h : p.store a bs = .ok q) : ∃ mem, q = { p with mem := mem } := by
  induction bs generalizing p a with
  | nil => exact ⟨p.mem, (Except.ok.inj h).symm⟩
  | cons b bs ih =>
    obtain ⟨p', hb, hrest⟩ := bind_eq_ok.mp h
    obtain ⟨mem, rfl⟩ := ih hrest
    rw [storeByte_eq hb]
    exact ⟨mem, rfl⟩

/-- A store to pages of the process succeeds. -/
lemma store_ok (hlen : bs.length < 0x100000000)
    (h : ∀ k < bs.length, p.mapped (a + BitVec.ofNat 32 k) = true) :
    p.store a bs = .ok { p with mem := blit p.mem a bs } := by
  induction bs generalizing p a with
  | nil => rfl
  | cons b bs ih =>
    rw [length_cons] at hlen h
    have hhead : p.mapped a = true := by
      have h0 := h 0 (Nat.succ_pos _)
      rwa [BitVec.add_zero] at h0
    have htail : ∀ k < bs.length, p.mapped (a + 1 + BitVec.ofNat 32 k) = true := by
      intro k hk
      have hsucc := h (k + 1) (Nat.succ_lt_succ hk)
      rwa [Nat.add_comm, BitVec.ofNat_add, ← BitVec.add_assoc] at hsucc
    rw [Proc.store, Proc.storeByte, if_pos hhead, ← blit_cons (by omega)]
    exact @ih { p with mem := Function.update p.mem a b } (a + 1) (by omega) htail

/-- A store leaves the other bytes. -/
lemma store_off {x : Word} (h : p.store a bs = .ok q) (hx : ¬ InBlock a bs.length x) :
    q.mem x = p.mem x := by
  induction bs generalizing p a with
  | nil =>
    obtain rfl := Except.ok.inj h
    rfl
  | cons b bs ih =>
    obtain ⟨p', hb, hrest⟩ := bind_eq_ok.mp h
    simp only [InBlock, length_cons] at hx ih
    have hne : x ≠ a := by
      rintro rfl
      simp at hx
    rw [ih hrest (by bv_omega), storeByte_eq hb]
    exact Function.update_of_ne hne b p.mem

lemma getElem_wordBytes (v : Word) {k : Nat} (hk : k < (wordBytes v).length) :
    (wordBytes v)[k] = byteOf v k := by
  match k, hk with
  | 0, _ | 1, _ | 2, _ | 3, _ => rfl

/-- A stored word is read back. -/
lemma loadWord_blit_wordBytes (m : Word → Byte) (a v : Word) : loadWord (blit m a (wordBytes v)) a = v := by
  refine loadWord_eq ?_
  intro k hk
  have hlen : k < (wordBytes v).length := hk
  rw [blit_add hlen (by simp [wordBytes]), getElem_wordBytes v hlen]

/-- Both words of a stored `struct sigaction` are read back. -/
lemma loadWord_blit_pair (m : Word → Byte) (a u v : Word) :
    loadWord (blit m a (wordBytes u ++ wordBytes v)) a = u ∧
      loadWord (blit m a (wordBytes u ++ wordBytes v)) (a + 4) = v := by
  have hlen : (wordBytes u ++ wordBytes v).length = 8 := rfl
  constructor
  · refine loadWord_eq ?_
    intro k hk
    have hu : k < (wordBytes u).length := hk
    rw [blit_add (by omega) (by omega), getElem_append_left hu, getElem_wordBytes u hu]
  · refine loadWord_eq ?_
    intro k hk
    have hv : k < (wordBytes v).length := hk
    have hadd : a + 4 + BitVec.ofNat 32 k = a + BitVec.ofNat 32 (4 + k) := by
      rw [BitVec.ofNat_add, BitVec.add_assoc]
      rfl
    have hu : (wordBytes u).length ≤ 4 + k := Nat.le_add_right 4 k
    have hsub : 4 + k - (wordBytes u).length = k := Nat.add_sub_cancel_left 4 k
    rw [hadd, blit_add (by omega) (by omega), getElem_append_right hu, ← getElem_wordBytes v hv]
    congr 1

/-- A wild store ends past the start of the kernel's memory. -/
lemma store_wild (h : p.store a bs = .error .wild) : KERNBASE < a.toNat + bs.length := by
  induction bs generalizing p a with
  | nil => cases h
  | cons b bs ih =>
    rcases bind_eq_error.mp h with hb | ⟨p', _, hrest⟩
    · have := storeByte_wild hb
      simp only [length_cons]
      omega
    · have hlt := ih hrest
      have hadd : (a + 1).toNat ≤ a.toNat + 1 := by
        rw [BitVec.toNat_add]
        exact Nat.mod_le ..
      simp only [length_cons]
      omega

/-! ### `sigaction` -/

lemma argptr_eq {n : Nat} {size : Word} (h : p.argptr n size = some a) : a < p.sz ∧ a + size ≤ p.sz := by
  rw [Proc.argptr] at h
  split at h
  · cases h
  · split_ifs at h with hcond
    obtain rfl := Option.some.inj h
    simp only [ge_iff_le, gt_iff_lt, not_or, BitVec.not_le, BitVec.not_lt] at hcond
    exact hcond

lemma copyOld_eq (h : copyOld p c oldact = .ok q) : ∃ mem, q = { p with mem := mem } := by
  rw [copyOld] at h
  split_ifs at h
  · exact ⟨p.mem, (Except.ok.inj h).symm⟩
  · obtain ⟨saHandler, _, h⟩ := bind_eq_ok.mp h
    obtain ⟨sigmask, _, h⟩ := bind_eq_ok.mp h
    exact store_eq h

/-- Nothing but `*oldact` is stored. -/
lemma copyOld_off {oldact x : Word} (h : copyOld p c oldact = .ok q)
    (hx : oldact = 0 ∨ ¬ InBlock oldact 8 x) : q.mem x = p.mem x := by
  rw [copyOld] at h
  split_ifs at h with h0
  · obtain rfl := Except.ok.inj h
    rfl
  · obtain ⟨saHandler, _, h⟩ := bind_eq_ok.mp h
    obtain ⟨sigmask, _, h⟩ := bind_eq_ok.mp h
    exact store_off h (hx.resolve_left h0)

lemma copyOld_wild (h : copyOld p c oldact = .error .wild) : KERNBASE < oldact.toNat + 8 := by
  rw [copyOld] at h
  split_ifs at h
  rcases bind_eq_error.mp h with h | ⟨saHandler, _, h⟩
  · cases fetch_error h
  · rcases bind_eq_error.mp h with h | ⟨sigmask, _, h⟩
    · cases fetch_error h
    · exact store_wild h

lemma copyOld_error (h : copyOld p c oldact = .error e) : MemError e := by
  rw [copyOld] at h
  split_ifs at h
  rcases bind_eq_error.mp h with h | ⟨saHandler, _, h⟩
  · exact .inl (fetch_error h)
  · rcases bind_eq_error.mp h with h | ⟨sigmask, _, h⟩
    · exact .inl (fetch_error h)
    · exact store_error h

/-- A successful `sigaction` changes the word that `signal_handlers[signum]` names, and the user
    memory at `oldact`. -/
lemma sigaction_eq {signum act oldact : Word} (h : sigaction p signum act oldact = .ok (q, v)) :
    q = p ∨ ∃ c mem, cell signum = some c ∧ q = { p with mem := mem }.set c act := by
  rw [sigaction] at h
  split_ifs at h with hsig
  · obtain ⟨rfl, _⟩ := Prod.mk.inj (Except.ok.inj h)
    exact .inl rfl
  · split at h
    · cases h
    · rename_i c hc
      obtain ⟨p', hold, h⟩ := bind_eq_ok.mp h
      obtain ⟨mem, rfl⟩ := copyOld_eq hold
      obtain ⟨rfl, _⟩ := Prod.mk.inj (Except.ok.inj h)
      exact .inr ⟨c, mem, hc, rfl⟩

lemma sigaction_wild {signum act oldact : Word} (h : sigaction p signum act oldact = .error .wild) :
    cell signum = none ∨ KERNBASE < oldact.toNat + 8 := by
  rw [sigaction] at h
  split_ifs at h
  split at h
  · exact .inl ‹_›
  · rcases bind_eq_error.mp h with h | ⟨p', _, h⟩
    · exact .inr (copyOld_wild h)
    · cases h

lemma sysSigaction_eq (h : sysSigaction p = .ok (q, v)) :
    q = p ∨ ∃ signum act c mem, p.argint 0 = some signum ∧ cell signum = some c ∧
      q = { p with mem := mem }.set c act := by
  rw [sysSigaction] at h
  split at h
  · rename_i signum act oldact harg _ _
    rcases sigaction_eq h with rfl | ⟨c, mem, hc, rfl⟩
    · exact .inl rfl
    · exact .inr ⟨signum, act, c, mem, harg, hc, rfl⟩
  · obtain ⟨rfl, _⟩ := Prod.mk.inj (Except.ok.inj h)
    exact .inl rfl

lemma sysSigaction_error (h : sysSigaction p = .error e) : MemError e := by
  rw [sysSigaction] at h
  split at h
  · rw [sigaction] at h
    split_ifs at h
    split at h
    · exact .inr (Except.error.inj h).symm
    · rcases bind_eq_error.mp h with h | ⟨p', _, h⟩
      · exact copyOld_error h
      · cases h
  · cases h

/-- `argptr` has checked `oldact`, so a wild store can only come from `signum`. -/
lemma sysSigaction_wild (hsz : p.sz.toNat ≤ KERNBASE) (h : sysSigaction p = .error .wild) :
    ∃ signum, p.argint 0 = some signum ∧ cell signum = none := by
  rw [sysSigaction] at h
  split at h
  · rename_i signum act oldact harg _ hptr
    refine ⟨signum, harg, ?_⟩
    rcases sigaction_wild h with hc | hold
    · exact hc
    · obtain ⟨hlt, hle⟩ := argptr_eq hptr
      have h8 : (8 : Word).toNat = 8 := rfl
      rw [BitVec.lt_def] at hlt
      rw [BitVec.le_def, BitVec.toNat_add, h8] at hle
      simp only [KERNBASE] at *
      omega
  · cases h

/-! ### Delivery -/

/-- A successful delivery: the frame and the mask are saved, and the process goes to the
    handler with the handler's mask on a stack sixteen bytes further down. -/
lemma deliver_eq (h : deliver p i = .ok q) :
    ∃ func mask mem, p.fetch (p.signalHandlers i) = .ok func ∧ handlerMask p i = .ok mask ∧
      q = { p with
        mem := mem
        backup := p.tf
        signalMaskBackup := p.signalMask
        signalMask := mask
        tf := { p.tf with esp := p.tf.esp - codeRoom - 8, eip := func } } := by
  obtain ⟨func, hf, h⟩ := bind_eq_ok.mp h
  obtain ⟨mask, hm, h⟩ := bind_eq_ok.mp h
  obtain ⟨q₁, h1, h⟩ := bind_eq_ok.mp h
  obtain ⟨q₂, h2, h⟩ := bind_eq_ok.mp h
  obtain ⟨q₃, h3, h⟩ := bind_eq_ok.mp h
  obtain ⟨mem₁, rfl⟩ := store_eq h1
  obtain ⟨mem₂, rfl⟩ := store_eq h2
  obtain ⟨mem₃, rfl⟩ := store_eq h3
  exact ⟨func, mask, mem₃, hf, hm, (Except.ok.inj h).symm⟩

lemma deliver_error (h : deliver p i = .error e) : MemError e := by
  rcases bind_eq_error.mp h with h | ⟨func, _, h⟩
  · exact .inl (fetch_error h)
  rcases bind_eq_error.mp h with h | ⟨mask, _, h⟩
  · exact .inl (handlerMask_error h)
  rcases bind_eq_error.mp h with h | ⟨q₁, _, h⟩
  · exact store_error h
  rcases bind_eq_error.mp h with h | ⟨q₂, _, h⟩
  · exact store_error h
  rcases bind_eq_error.mp h with h | ⟨q₃, _, h⟩
  · exact store_error h
  cases h

/-- A delivery onto a stack in user memory stores nothing in the kernel's memory. -/
lemma deliver_wild (h : deliver p i = .error .wild) : p.tf.esp.toNat < 16 ∨ KERNBASE < p.tf.esp.toNat := by
  by_contra hstack
  have h4 : (4 : Word).toNat = 4 := rfl
  have h8 : (8 : Word).toNat = 8 := rfl
  have hroom : codeRoom = 8 := by decide
  have hadd : (p.tf.esp - codeRoom).toNat = p.tf.esp.toNat - 8 := by
    rw [hroom, BitVec.toNat_sub, h8]
    omega
  rcases bind_eq_error.mp h with h | ⟨func, _, h⟩
  · cases fetch_error h
  rcases bind_eq_error.mp h with h | ⟨mask, _, h⟩
  · cases handlerMask_error h
  rcases bind_eq_error.mp h with h | ⟨q₁, _, h⟩
  · have hlt := store_wild h
    have hlen : callSigret.length = 8 := rfl
    rw [hadd, hlen] at hlt
    omega
  rcases bind_eq_error.mp h with h | ⟨q₂, _, h⟩
  · have hlt := store_wild h
    simp only [wordBytes, length_cons, length_nil, BitVec.toNat_sub, hadd, h4] at hlt
    omega
  rcases bind_eq_error.mp h with h | ⟨q₃, _, h⟩
  · have hlt := store_wild h
    simp only [wordBytes, length_cons, length_nil, BitVec.toNat_sub, hadd, h8] at hlt
    omega
  cases h

end Xv6.Signal
