import Xv6.Machine.Hoare
import Xv6.Machine.Memory

/-!
# System-call arguments

The functions of `syscall.c` that fetch the arguments of a system call from user memory, and the loop of
`sys_exec` that fetches an argument vector. A load is checked: at an address that is not below `sz` it is an
error. So is a store to `argv` at an index that is not below `MAXARG`. No run ends with such an error,
whatever the user program has put in its registers and memory.
-/

namespace Xv6.Syscall

open Machine Function

def KERNBASE : Word := 0x80000000
def MAXARG : Nat := 32

/-- What the functions read of the process that makes the call. -/
structure User where
  sz : Word
  mem : Word → Byte
  /-- `tf->esp` -/
  esp : Word

inductive Fault
  /-- a load at an address that is not in the process's memory -/
  | load (a : Word)
  /-- a store outside `argv` -/
  | argv (i : Nat)

/-- The variables of `sys_exec`. -/
structure Locals where
  path : Word
  argv : Nat → Word

abbrev Fetch := StateT Locals (Except Fault)

variable (u : User)

/-! ### `syscall.c` -/

def load (a : Word) : Fetch Byte := if a < u.sz then pure (u.mem a) else throw (.load a)

/-- `fetchint`; the result is what is stored at `*ip`. -/
def fetchint (addr : Word) : Fetch (Option Word) :=
  if addr ≥ u.sz ∨ addr + 4 > u.sz then pure none
  else do
    let b0 ← load u addr
    let b1 ← load u (addr + 1)
    let b2 ← load u (addr + 2)
    let b3 ← load u (addr + 3)
    pure (some (b3 ++ b2 ++ b1 ++ b0))

/-- The loop of `fetchstr`, with `s` where it is. -/
def fetchstrLoop (pp s : Word) : Fetch (Option Word) :=
  if h : s < u.sz then do
    let b ← load u s
    if b = 0 then pure (some (s - pp)) else fetchstrLoop pp (s + 1)
  else pure none
termination_by u.sz.toNat - s.toNat
decreasing_by
  bv_omega

/-- `fetchstr`, where `put` is the store to `*pp`; the result is the length. -/
def fetchstr (addr : Word) (put : Word → Fetch Unit) : Fetch (Option Word) :=
  if addr ≥ u.sz then pure none
  else do
    put addr
    fetchstrLoop u addr addr

def argint (n : Word) : Fetch (Option Word) := fetchint u (u.esp + 4 + 4 * n)

/-- `argptr`; the result is what is stored at `*pp`. -/
def argptr (n size : Word) : Fetch (Option Word) := do
  match ← argint u n with
  | none => pure none
  | some i => pure (if size.slt 0 ∨ i ≥ u.sz ∨ i + size > u.sz then none else some i)

def argstr (n : Word) (put : Word → Fetch Unit) : Fetch (Option Word) := do
  match ← argint u n with
  | none => pure none
  | some addr => fetchstr u addr put

/-! ### `sys_exec` -/

def putPath (v : Word) : Fetch Unit := modify fun s => { s with path := v }

/-- `argv[i] = v`. -/
def putArg (i : Nat) (v : Word) : Fetch Unit :=
  if i < MAXARG then modify fun s => { s with argv := Function.update s.argv i v }
  else throw (.argv i)

/-- The loop of `sys_exec` from `i` on; `false` if the call returns `-1`. -/
def fetchArgv (uargv : Word) (i : Nat) : Fetch Bool :=
  if i ≥ MAXARG then pure false
  else do
    match ← fetchint u (uargv + 4 * BitVec.ofNat 32 i) with
    | none => pure false
    | some uarg =>
      if uarg = 0 then do
        putArg i 0
        pure true
      else do
        match ← fetchstr u uarg (putArg i) with
        | none => pure false
        | some _ => fetchArgv uargv (i + 1)
termination_by MAXARG - i

/-- `sys_exec` up to the call of `exec`; `false` if it returns `-1`. -/
def sysExec : Fetch Bool := do
  match ← argstr u 0 putPath with
  | none => pure false
  | some _ =>
    match ← argint u 1 with
    | none => pure false
    | some uargv => do
      modify fun s => { s with argv := fun i => if i < MAXARG then 0 else s.argv i }
      fetchArgv u uargv 0

/-! ### Fetching integers -/

variable {u}

/-- No load leaves the process's memory, and no store leaves `argv`. -/
abbrev Safe {α : Type} (m : Fetch α) (s : Locals) (Q : α → Locals → Prop) : Prop :=
  Ends m s (fun _ => False) Q

variable {s : Locals}

lemma load_safe {a : Word} (h : a < u.sz) : Safe (load u a) s fun b t => b = u.mem a ∧ t = s := by
  rw [load, if_pos h]
  exact Ends.pure ⟨rfl, rfl⟩

/-- An integer is read from four bytes below `sz`. -/
lemma fetchint_safe (hsz : u.sz < KERNBASE) (addr : Word) : Safe (fetchint u addr) s fun r t =>
    t = s ∧ ∀ v, r = some v → addr.toNat + 4 ≤ u.sz.toNat ∧ v = loadWord u.mem addr := by
  refine Ends.ite (fun _ => Ends.pure ⟨rfl, nofun⟩) ?_
  intro hin
  rw [KERNBASE] at hsz
  -- the sum does not wrap, since `addr` is below `sz` and `sz` is below `KERNBASE`
  have hend : addr.toNat + 4 ≤ u.sz.toNat := by bv_omega
  refine Ends.bind (load_safe (by bv_omega)) ?_
  rintro b0 t ⟨rfl, rfl⟩
  refine Ends.bind (load_safe (by bv_omega)) ?_
  rintro b1 t ⟨rfl, rfl⟩
  refine Ends.bind (load_safe (by bv_omega)) ?_
  rintro b2 t ⟨rfl, rfl⟩
  refine Ends.bind (load_safe (by bv_omega)) ?_
  rintro b3 t ⟨rfl, rfl⟩
  refine Ends.pure ⟨rfl, ?_⟩
  intro v hv
  cases hv
  refine ⟨hend, ?_⟩
  simp only [loadWord, wordAt, Nat.zero_add, BitVec.add_zero]
  rfl

lemma argint_safe (hsz : u.sz < KERNBASE) (n : Word) : Safe (argint u n) s fun r t =>
    t = s ∧ ∀ v, r = some v → (u.esp + 4 + 4 * n).toNat + 4 ≤ u.sz.toNat ∧
      v = loadWord u.mem (u.esp + 4 + 4 * n) :=
  fetchint_safe hsz _

lemma argptr_safe (hsz : u.sz < KERNBASE) (n size : Word) : Safe (argptr u n size) s fun r t =>
    t = s ∧ ∀ p, r = some p → 0 ≤ size.toInt ∧ p.toNat + size.toInt ≤ u.sz.toNat := by
  refine Ends.bind (argint_safe hsz n) ?_
  rintro (_ | i) t ⟨rfl, -⟩
  · exact Ends.pure ⟨rfl, nofun⟩
  refine Ends.pure ⟨rfl, ?_⟩
  intro p hp
  rw [Option.ite_none_left_eq_some] at hp
  obtain ⟨hin, hi⟩ := hp
  cases hi
  simp only [not_or, Bool.not_eq_true] at hin
  obtain ⟨hslt, hlt, hend⟩ := hin
  have hmsb : size.msb = false := by
    rw [BitVec.slt_eq_decide] at hslt
    simpa [BitVec.msb_eq_toInt] using hslt
  have htoInt : size.toInt = size.toNat := BitVec.toInt_eq_toNat_of_msb hmsb
  have hsize : size.toNat < 0x80000000 := BitVec.toNat_lt_of_msb_false hmsb
  rw [KERNBASE] at hsz
  -- both summands are below `KERNBASE`, so the sum does not wrap
  have hsum : i.toNat + size.toNat ≤ u.sz.toNat := by bv_omega
  omega

/-! ### Fetching strings -/

/-- There is a string of this length at `p`, with its NUL below `sz`. -/
structure User.StringAt (u : User) (p len : Word) : Prop where
  inside : p.toNat + len.toNat < u.sz.toNat
  nul : u.mem (p + len) = 0
  first : ∀ a, p ≤ a → a < p + len → u.mem a ≠ 0

/-- The loop finds the first NUL from `q` on. -/
lemma fetchstrLoop_safe (pp q : Word) : Safe (fetchstrLoop u pp q) s fun r t =>
    t = s ∧ ∀ len, r = some len → q ≤ pp + len ∧ pp + len < u.sz ∧ u.mem (pp + len) = 0 ∧
      ∀ a, q ≤ a → a < pp + len → u.mem a ≠ 0 := by
  induction q using fetchstrLoop.induct u with
  | case1 q hq ih =>
    rw [fetchstrLoop, dif_pos hq]
    refine Ends.bind (load_safe hq) ?_
    rintro b t ⟨rfl, rfl⟩
    refine Ends.ite ?_ ?_
    · intro hnul
      refine Ends.pure ⟨rfl, ?_⟩
      intro len hlen
      cases hlen
      have hat : pp + (q - pp) = q := by bv_omega
      rw [hat]
      exact ⟨BitVec.le_refl q, hq, hnul, fun a hle hlt => absurd hlt (BitVec.not_lt.mpr hle)⟩
    · intro hne
      refine ih.post ?_
      rintro r t ⟨rfl, hr⟩
      refine ⟨rfl, ?_⟩
      intro len hlen
      obtain ⟨hle, hlt, hnul, hfirst⟩ := hr len hlen
      refine ⟨by bv_omega, hlt, hnul, ?_⟩
      intro a hqa ha
      rcases eq_or_ne a q with rfl | hneq
      · exact hne
      · exact hfirst a (by bv_omega) ha
  | case2 q hq =>
    rw [fetchstrLoop, dif_neg hq]
    exact Ends.pure ⟨rfl, nofun⟩

lemma fetchstr_safe {addr : Word} {put : Word → Fetch Unit} {Q : Locals → Prop}
    (hput : Safe (put addr) s fun _ t => Q t) : Safe (fetchstr u addr put) s fun r t =>
    (r = none ∧ t = s) ∨ (Q t ∧ ∀ len, r = some len → u.StringAt addr len) := by
  refine Ends.ite (fun _ => Ends.pure (Or.inl ⟨rfl, rfl⟩)) ?_
  intro hin
  refine Ends.bind hput ?_
  intro _ t ht
  refine (fetchstrLoop_safe addr addr).post ?_
  rintro r t ⟨rfl, hr⟩
  refine Or.inr ⟨ht, ?_⟩
  intro len hlen
  obtain ⟨hle, hlt, hnul, hfirst⟩ := hr len hlen
  exact ⟨by bv_omega, hnul, hfirst⟩

lemma putPath_safe (v : Word) : Safe (putPath v) s fun _ t => t.path = v ∧ t.argv = s.argv :=
  Ends.modify ⟨rfl, rfl⟩

lemma argstr_safe (hsz : u.sz < KERNBASE) (n : Word) : Safe (argstr u n putPath) s fun r t =>
    t.argv = s.argv ∧ ∀ len, r = some len → u.StringAt t.path len := by
  refine Ends.bind (argint_safe hsz n) ?_
  rintro (_ | addr) t ⟨rfl, -⟩
  · exact Ends.pure ⟨rfl, nofun⟩
  refine (fetchstr_safe (putPath_safe addr)).post ?_
  rintro r t' (⟨rfl, rfl⟩ | ⟨⟨rfl, hargv⟩, hr⟩)
  · exact ⟨rfl, nofun⟩
  · exact ⟨hargv, hr⟩

/-! ### The argument vector -/

lemma putArg_safe {i : Nat} (hi : i < MAXARG) (v : Word) :
    Safe (putArg i v) s fun _ t => t.path = s.path ∧ t.argv = update s.argv i v := by
  rw [putArg, if_pos hi]
  exact Ends.modify ⟨rfl, rfl⟩

/-- The first `i` entries of `argv` are strings and the others are 0. -/
structure User.Vector (u : User) (argv : Nat → Word) (i : Nat) : Prop where
  strings : ∀ j < i, ∃ len, u.StringAt (argv j) len
  zero : ∀ j, i ≤ j → j < MAXARG → argv j = 0

lemma User.Vector.update {argv : Nat → Word} {i : Nat} {v len : Word} (h : u.Vector argv i)
    (hv : u.StringAt v len) : u.Vector (update argv i v) (i + 1) := by
  constructor
  case strings =>
    intro j hj
    rcases Nat.lt_succ_iff_lt_or_eq.mp hj with hlt | rfl
    · rw [update_of_ne (Nat.ne_of_lt hlt)]
      exact h.strings j hlt
    · rw [update_self]
      exact ⟨len, hv⟩
  case zero =>
    intro j hij hj
    rw [update_of_ne (by omega)]
    exact h.zero j (by omega) hj

/-- What the loop of `sys_exec` leaves when it ends. -/
structure Fetched (u : User) (s : Locals) (ok : Bool) (t : Locals) : Prop where
  path : t.path = s.path
  outside : ∀ j, MAXARG ≤ j → t.argv j = s.argv j
  vector : ok = true → ∃ argc < MAXARG, u.Vector t.argv argc

lemma Fetched.refl : Fetched u s false s := ⟨rfl, fun _ _ => rfl, nofun⟩

lemma Fetched.of_update {i : Nat} {v : Word} {ok : Bool} {t t' : Locals} (hi : i < MAXARG)
    (hpath : t.path = s.path) (hargv : t.argv = update s.argv i v)
    (h : Fetched u t ok t') : Fetched u s ok t' := by
  refine ⟨h.path.trans hpath, ?_, h.vector⟩
  intro j hj
  rw [h.outside j hj, hargv, update_of_ne (by omega)]

lemma fetchArgv_safe (hsz : u.sz < KERNBASE) (uargv : Word) (i : Nat) (h : u.Vector s.argv i) :
    Safe (fetchArgv u uargv i) s (Fetched u s) := by
  induction i using fetchArgv.induct generalizing s with
  | case1 i hi =>
    rw [fetchArgv, if_pos hi]
    exact Ends.pure Fetched.refl
  | case2 i hi ih =>
    have hlt : i < MAXARG := Nat.lt_of_not_le hi
    rw [fetchArgv, if_neg hi]
    refine Ends.bind (fetchint_safe hsz _) ?_
    rintro (_ | uarg) t ⟨rfl, -⟩
    · exact Ends.pure Fetched.refl
    refine Ends.ite ?_ ?_
    · intro _
      refine Ends.bind (putArg_safe hlt 0) ?_
      rintro _ t' ⟨hpath, hargv⟩
      refine Ends.pure (Fetched.of_update hlt hpath hargv ⟨rfl, fun _ _ => rfl, ?_⟩)
      intro _
      have hsame : t'.argv = t.argv := by
        rw [hargv, update_eq_self_iff]
        exact (h.zero i (Nat.le_refl i) hlt).symm
      rw [hsame]
      exact ⟨i, hlt, h⟩
    · intro _
      refine Ends.bind (fetchstr_safe (putArg_safe hlt uarg)) ?_
      rintro (_ | len) t' (⟨hnone, rfl⟩ | ⟨⟨hpath, hargv⟩, hr⟩)
      · exact Ends.pure Fetched.refl
      · exact Ends.pure (Fetched.of_update hlt hpath hargv Fetched.refl)
      · cases hnone
      · have hnext : u.Vector t'.argv (i + 1) := hargv ▸ h.update (hr len rfl)
        refine (ih hnext).post ?_
        intro ok t'' hf
        exact Fetched.of_update hlt hpath hargv hf

lemma sysExec_safe (hsz : u.sz < KERNBASE) : Safe (sysExec u) s fun ok t =>
    (∀ j, MAXARG ≤ j → t.argv j = s.argv j) ∧
      (ok = true → (∃ len, u.StringAt t.path len) ∧ ∃ argc < MAXARG, u.Vector t.argv argc) := by
  refine Ends.bind (argstr_safe hsz 0) ?_
  rintro (_ | len) t ⟨hargv, hpath⟩
  · exact Ends.pure ⟨fun j _ => congrFun hargv j, nofun⟩
  refine Ends.bind (argint_safe hsz 1) ?_
  rintro (_ | uargv) t' ⟨rfl, -⟩
  · exact Ends.pure ⟨fun j _ => congrFun hargv j, nofun⟩
  refine Ends.bind (Ends.modify (Q := fun _ t => t.path = t'.path ∧
    t.argv = fun j => if j < MAXARG then 0 else t'.argv j) ⟨rfl, rfl⟩) ?_
  rintro _ t ⟨hp, hz⟩
  have hvec : u.Vector t.argv 0 := by
    refine ⟨nofun, ?_⟩
    intro j _ hj
    rw [hz]
    exact if_pos hj
  refine (fetchArgv_safe hsz uargv 0 hvec).post ?_
  intro ok t'' hf
  refine ⟨?_, ?_⟩
  · intro j hj
    rw [hf.outside j hj, hz, ← hargv]
    exact if_neg (Nat.not_lt.mpr hj)
  · intro hok
    rw [hf.path, hp]
    exact ⟨⟨len, hpath len rfl⟩, hf.vector hok⟩

/-- Whatever a process below `KERNBASE` passes, the fetches load below `sz` and store inside `argv` only,
and they accept an argument only if it lies below `sz` as integers. -/
theorem arguments_validated (u : User) (hsz : u.sz < KERNBASE) (s : Locals) :
    (∀ n, Safe (argint u n) s fun r t => t = s ∧ ∀ v, r = some v →
      (u.esp + 4 + 4 * n).toNat + 4 ≤ u.sz.toNat ∧ v = loadWord u.mem (u.esp + 4 + 4 * n)) ∧
    (∀ n size, Safe (argptr u n size) s fun r t => t = s ∧ ∀ p, r = some p →
      0 ≤ size.toInt ∧ p.toNat + size.toInt ≤ u.sz.toNat) ∧
    (∀ n, Safe (argstr u n putPath) s fun r t => t.argv = s.argv ∧ ∀ len, r = some len →
      u.StringAt t.path len) ∧
    Safe (sysExec u) s fun ok t => (∀ j, MAXARG ≤ j → t.argv j = s.argv j) ∧
      (ok = true → (∃ len, u.StringAt t.path len) ∧ ∃ argc < MAXARG, u.Vector t.argv argc) :=
  ⟨argint_safe hsz, argptr_safe hsz, argstr_safe hsz, sysExec_safe hsz⟩

/-- A process of one page with zeros in its memory, in a call with the stack pointer at 4092: the word
that `argint` would read for argument 0 is the first one past the memory. -/
theorem arguments_validated_at_end :
    let u : User := ⟨0x1000, fun _ => 0, 0xffc⟩
    u.sz < KERNBASE ∧ Safe (argint u 0) ⟨0, fun _ => 0⟩ fun r t => t = ⟨0, fun _ => 0⟩ ∧
      ∀ v, r = some v → (u.esp + 4 + 4 * 0).toNat + 4 ≤ u.sz.toNat ∧
        v = loadWord u.mem (u.esp + 4 + 4 * 0) :=
  ⟨by decide, (arguments_validated _ (by decide) _).1 0⟩

end Xv6.Syscall
