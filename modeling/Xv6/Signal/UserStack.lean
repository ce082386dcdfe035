import Xv6.Signal.Pending

/-!
# The user stack at a delivery

A delivery stores the code that calls `sigret`, the signal number and a return address below the
stack pointer that the user program had. Nothing compares that stack pointer with the size of the
process, so the stores go wherever it points. With sixteen bytes of the process's memory below it
they stay in that memory, apart from each other, and the handler finds them there.
-/

namespace Xv6.Signal

open Machine List

variable {p q : Proc} {i : Signum} {func mask : Word} {ws : List UserStore} {w : UserStore}

/-! ### The stores -/

/-- A store of the kernel to user memory. -/
structure UserStore where
  start : Word
  bytes : List Byte

def UserStore.Writes (w : UserStore) (x : Word) : Prop := InBlock w.start w.bytes.length x

def Proc.storeAll (p : Proc) : List UserStore → Except Panic Proc
  | [] => .ok p
  | w :: ws => do
    let q ← p.store w.start w.bytes
    q.storeAll ws

/-- Where a delivery puts the code that calls `sigret`. -/
def callSigretAdd (p : Proc) : Word := p.tf.esp - codeRoom

def codeStore (p : Proc) : UserStore := ⟨callSigretAdd p, callSigret⟩

def signumStore (p : Proc) (i : Signum) : UserStore :=
  ⟨callSigretAdd p - 4, wordBytes (BitVec.ofNat 32 i.val)⟩

def returnStore (p : Proc) : UserStore := ⟨callSigretAdd p - 8, wordBytes (callSigretAdd p)⟩

/-- The stores of a delivery, in their order. -/
def deliveryStores (p : Proc) (i : Signum) : List UserStore :=
  [codeStore p, signumStore p i, returnStore p]

/-- A delivery, with its stores as a list. -/
lemma deliver_eq_storeAll (p : Proc) (i : Signum) :
    deliver p i =
      (do
        let func ← p.fetch (p.signalHandlers i)
        let mask ← handlerMask p i
        let q ← p.storeAll (deliveryStores p i)
        .ok
          { q with
            backup := p.tf
            signalMaskBackup := p.signalMask
            signalMask := mask
            tf := { p.tf with esp := callSigretAdd p - 8, eip := func } }) := by
  simp only [deliver, deliveryStores, codeStore, signumStore, returnStore, callSigretAdd,
    Proc.storeAll, bind_assoc]
  rfl

/-- What the handler finds: at the stack pointer the address of the complete code, above it the
    signal number. -/
structure AtHandler (p : Proc) (i : Signum) (func : Word) (q : Proc) : Prop where
  eip : q.tf.eip = func
  code : ∀ k (hk : k < callSigret.length),
    q.mem (q.word q.tf.esp + BitVec.ofNat 32 k) = callSigret[k]
  signum : q.word (q.tf.esp + 4) = BitVec.ofNat 32 i.val
  /-- no other byte of the memory has changed -/
  kept : ∀ x, (∀ w ∈ deliveryStores p i, ¬ w.Writes x) → q.mem x = p.mem x

/-- The stores of a delivery write only to the process's own memory below the stack pointer that
    the user program had, each to bytes of its own, and the handler finds what it needs there. -/
structure StackSafe (p : Proc) (i : Signum) : Prop where
  below : ∀ w ∈ deliveryStores p i, ∀ x, w.Writes x →
    x.toNat < p.sz.toNat ∧ x.toNat < p.tf.esp.toNat
  apart : (deliveryStores p i).Pairwise fun v w => ∀ x, ¬ (v.Writes x ∧ w.Writes x)
  entry : ∀ func mask, p.fetch (p.signalHandlers i) = .ok func → handlerMask p i = .ok mask →
    ∃ q, deliver p i = .ok q ∧ AtHandler p i func q

/-- The user stack pointer has sixteen bytes of the process's memory below it. -/
def StackRoom (p : Proc) : Prop := 16 ≤ p.tf.esp.toNat ∧ p.tf.esp.toNat ≤ p.sz.toNat

/-! ### Where the stores go -/

/-- The address `16 - k` bytes below the stack pointer. -/
lemma toNat_stack (h : StackRoom p) :
    (callSigretAdd p).toNat = p.tf.esp.toNat - 8 ∧
      (callSigretAdd p - 4).toNat = p.tf.esp.toNat - 12 ∧
      (callSigretAdd p - 8).toNat = p.tf.esp.toNat - 16 := by
  have hroom : codeRoom = 8 := by decide
  have hesp := h.1
  rw [callSigretAdd, hroom]
  refine ⟨?_, ?_, ?_⟩ <;> bv_omega

/-- The bytes that the three stores write. -/
lemma writes_iff (h : StackRoom p) (x : Word) :
    ((codeStore p).Writes x ↔ p.tf.esp.toNat - 8 ≤ x.toNat ∧ x.toNat < p.tf.esp.toNat) ∧
      ((signumStore p i).Writes x ↔ p.tf.esp.toNat - 12 ≤ x.toNat ∧ x.toNat < p.tf.esp.toNat - 8) ∧
      ((returnStore p).Writes x ↔ p.tf.esp.toNat - 16 ≤ x.toNat ∧ x.toNat < p.tf.esp.toNat - 12) := by
  obtain ⟨hcode, hsignum, hreturn⟩ := toNat_stack h
  obtain ⟨hlow, _⟩ := h
  refine ⟨?_, ?_, ?_⟩
  · change InBlock (callSigretAdd p) 8 x ↔ _
    rw [inBlock_iff (by omega), hcode]
    omega
  · change InBlock (callSigretAdd p - 4) 4 x ↔ _
    rw [inBlock_iff (by omega), hsignum]
    omega
  · change InBlock (callSigretAdd p - 8) 4 x ↔ _
    rw [inBlock_iff (by omega), hreturn]
    omega

lemma below_of_stackRoom (h : StackRoom p) (hw : w ∈ deliveryStores p i) {x : Word} (hx : w.Writes x) :
    x.toNat < p.sz.toNat ∧ x.toNat < p.tf.esp.toNat := by
  obtain ⟨hcode, hsignum, hreturn⟩ := writes_iff (i := i) h x
  obtain ⟨hlow, hhigh⟩ := h
  simp only [deliveryStores, mem_cons, not_mem_nil, or_false] at hw
  rcases hw with rfl | rfl | rfl
  · rw [hcode] at hx
    omega
  · rw [hsignum] at hx
    omega
  · rw [hreturn] at hx
    omega

lemma apart_of_stackRoom (h : StackRoom p) :
    (deliveryStores p i).Pairwise fun v w => ∀ x, ¬ (v.Writes x ∧ w.Writes x) := by
  simp only [deliveryStores, pairwise_cons, mem_cons, not_mem_nil, or_false,
    forall_eq_or_imp, forall_eq, IsEmpty.forall_iff, implies_true, List.Pairwise.nil, and_true]
  refine ⟨⟨?_, ?_⟩, ?_⟩
  · rintro x ⟨hv, hw⟩
    rw [(writes_iff (i := i) h x).1] at hv
    rw [(writes_iff h x).2.1] at hw
    omega
  · rintro x ⟨hv, hw⟩
    rw [(writes_iff (i := i) h x).1] at hv
    rw [(writes_iff (i := i) h x).2.2] at hw
    omega
  · rintro x ⟨hv, hw⟩
    rw [(writes_iff h x).2.1] at hv
    rw [(writes_iff (i := i) h x).2.2] at hw
    omega

/-! ### What the handler finds -/

/-- The memory after the stores. -/
def storedMem (m : Word → Byte) (ws : List UserStore) : Word → Byte :=
  ws.foldl (fun m w => blit m w.start w.bytes) m

/-- Stores to the process's own memory do not fail. -/
lemma storeAll_ok (hlen : ∀ w ∈ ws, w.bytes.length < 0x100000000)
    (h : ∀ w ∈ ws, ∀ x, w.Writes x → x.toNat < p.sz.toNat) :
    p.storeAll ws = .ok { p with mem := storedMem p.mem ws } := by
  induction ws generalizing p with
  | nil => rfl
  | cons w ws ih =>
    simp only [mem_cons, forall_eq_or_imp] at hlen h
    have hstore : p.store w.start w.bytes =
        .ok { p with mem := blit p.mem w.start w.bytes } := by
      refine store_ok hlen.1 ?_
      intro k hk
      exact mapped_of_lt (h.1 _ (inBlock_add hk (by omega)))
    rw [Proc.storeAll, hstore]
    exact @ih { p with mem := blit p.mem w.start w.bytes } hlen.2 h.2

lemma storedMem_of_notMem {m : Word → Byte} {x : Word} (h : ∀ w ∈ ws, ¬ w.Writes x) :
    storedMem m ws x = m x := by
  induction ws generalizing m with
  | nil => rfl
  | cons w ws ih =>
    simp only [mem_cons, forall_eq_or_imp] at h
    rw [storedMem, foldl_cons]
    exact (ih h.2).trans (blit_of_notMem h.1)

lemma length_lt_of_mem (hw : w ∈ deliveryStores p i) : w.bytes.length < 0x100000000 := by
  simp only [deliveryStores, mem_cons, not_mem_nil, or_false] at hw
  rcases hw with rfl | rfl | rfl <;> simp [codeStore, signumStore, returnStore, callSigret, wordBytes]

/-- The return address is the last store, so it is read back. -/
lemma word_return (m : Word → Byte) :
    loadWord (storedMem m (deliveryStores p i)) (callSigretAdd p - 8) = callSigretAdd p :=
  loadWord_blit_wordBytes _ _ _

/-- The store of the return address leaves the signal number. -/
lemma word_signum (h : StackRoom p) (m : Word → Byte) :
    loadWord (storedMem m (deliveryStores p i)) (callSigretAdd p - 4) = BitVec.ofNat 32 i.val := by
  refine (loadWord_congr (m := storedMem m [codeStore p, signumStore p i]) ?_).trans
    (loadWord_blit_wordBytes _ _ _)
  intro x hx
  refine blit_of_notMem ?_
  intro hreturn
  have hin := ((writes_iff (i := i) h x).2.1).mp hx
  have hout := ((writes_iff (i := i) h x).2.2).mp hreturn
  omega

/-- The other two stores leave the code. -/
lemma byte_code (h : StackRoom p) (m : Word → Byte) {k : Nat} (hk : k < callSigret.length) :
    storedMem m (deliveryStores p i) (callSigretAdd p + BitVec.ofNat 32 k) = callSigret[k] := by
  have hin : p.tf.esp.toNat - 8 ≤ (callSigretAdd p + BitVec.ofNat 32 k).toNat :=
    (((writes_iff (i := i) h _).1).mp (inBlock_add hk (by simp [codeStore, callSigret]))).1
  suffices hother : ∀ w ∈ [signumStore p i, returnStore p],
      ¬ w.Writes (callSigretAdd p + BitVec.ofNat 32 k) from
    (storedMem_of_notMem hother).trans (blit_add hk (by decide))
  intro w hw hx
  simp only [mem_cons, not_mem_nil, or_false] at hw
  rcases hw with rfl | rfl
  · have hout := ((writes_iff (i := i) h _).2.1).mp hx
    omega
  · have hout := ((writes_iff (i := i) h _).2.2).mp hx
    omega

lemma entry_of_stackRoom (h : StackRoom p) (hfunc : p.fetch (p.signalHandlers i) = .ok func)
    (hmask : handlerMask p i = .ok mask) : ∃ q, deliver p i = .ok q ∧ AtHandler p i func q := by
  have hstores : p.storeAll (deliveryStores p i) =
      .ok { p with mem := storedMem p.mem (deliveryStores p i) } :=
    storeAll_ok (fun w hw => length_lt_of_mem hw) fun w hw x hx => (below_of_stackRoom h hw hx).1
  rw [deliver_eq_storeAll, hfunc, hmask, hstores]
  refine ⟨_, rfl, rfl, ?_, ?_, ?_⟩
  · intro k hk
    rw [word_eq_loadWord]
    exact (congrArg (fun a => storedMem p.mem (deliveryStores p i) (a + BitVec.ofNat 32 k))
      (word_return p.mem)).trans (byte_code h p.mem hk)
  · rw [word_eq_loadWord]
    have hesp : callSigretAdd p - 8 + 4 = callSigretAdd p - 4 := by bv_omega
    exact (congrArg (loadWord (storedMem p.mem (deliveryStores p i))) hesp).trans (word_signum h p.mem)
  · intro x hx
    exact storedMem_of_notMem hx

/-! ### The stack pointer -/

instance (p : Proc) : Decidable (StackRoom p) := inferInstanceAs (Decidable (_ ∧ _))

/-- The highest byte of the code and the lowest one of the return address are in the process's
    memory below the stack pointer, so there is room. -/
lemma StackSafe.stackRoom (h : StackSafe p i) : StackRoom p := by
  have hadd : callSigretAdd p = p.tf.esp - 8 := rfl
  have hhigh := h.below (codeStore p) (by simp [deliveryStores]) (p.tf.esp - 1) (by
    change (p.tf.esp - 1 - callSigretAdd p).toNat < 8
    rw [hadd]
    bv_omega)
  have hlow := h.below (returnStore p) (by simp [deliveryStores]) (p.tf.esp - 16) (by
    change (p.tf.esp - 16 - (callSigretAdd p - 8)).toNat < 4
    rw [hadd]
    bv_omega)
  rw [StackRoom]
  constructor <;> bv_omega

/-- The child of the first process sets its stack pointer to an address in the kernel's memory. The
    first process sends it signal 5, for which both have a handler, and the next interrupt of the
    child delivers the signal: the kernel stores to its own memory. -/
theorem delivery_outside_user_memory :
    ∃ s s', Reach step Always (boot fun _ => 0) s ∧ (s.slot childSlot).pc = .deliverStore 5 32 ∧
      step s (.run childSlot) = some s' ∧ s'.panic = some .wild ∧
      ¬ StackSafe (clear (s.slot childSlot) 5 32).proc 5 := by
  have hrun : ∃ s, Reach step Always (boot fun _ => 0) s ∧
      (s.slot childSlot).pc = .deliverStore 5 32 ∧
      ((step s (.run childSlot)).bind State.panic) = some .wild ∧
      ¬ StackRoom (clear (s.slot childSlot) 5 32).proc :=
    Reach.exists_of_exec
      (toUser initproc ++ call initproc 16 SYS_sigaction [5, 64, 0] [(64, 128)] .none ++
        toUser initproc ++ call initproc 20 SYS_fork [] [(64, 128)] (.fork (some childSlot)) ++
        toUser initproc ++ toUser childSlot ++
        call initproc 24 SYS_kill [3, 5] [(64, 128)] .none ++ runs initproc 4 ++
        [.user childSlot { trapRegs 32 24 0 with esp := 0x80001000 } (memOf [(64, 128)])] ++
        runs childSlot 40)
      (by decide +kernel)
  obtain ⟨s, hreach, hpc, hwild, hroom⟩ := hrun
  obtain ⟨s', hstep, hpanic⟩ := Option.bind_eq_some_iff.mp hwild
  exact ⟨s, s', hreach, hpc, hstep, hpanic, fun hsafe => hroom hsafe.stackRoom⟩

/-- A delivery is safe exactly when the user stack pointer has sixteen bytes of the process's
    memory below it. -/
theorem stackSafe_iff_stackRoom (p : Proc) (i : Signum) : StackSafe p i ↔ StackRoom p := by
  constructor
  · intro h
    exact h.stackRoom
  · intro h
    exact ⟨fun w hw x hx => below_of_stackRoom h hw hx, apart_of_stackRoom h,
      fun func mask hfunc hmask => entry_of_stackRoom h hfunc hmask⟩

end Xv6.Signal
