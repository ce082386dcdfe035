import Xv6.Vm.Loading

/-!
# The stack of a new program

`exec` puts the argument strings on the stack from the top of the page down, and below them a return
address, `argc`, `argv` and the array of pointers. A block that does not fit on the page reaches into the
page below it, which is not for the user, so `copyout` refuses it.
-/

namespace Xv6.Vm

open Machine List
open BitVec (add_assoc add_zero ofNat_add toNat_ofNat toNat_sub)

variable {k : Kernel} {G : Set Nat} {U : Set Frame} {s t : Kmem} {d f : Frame} {E : Stop → Prop}
  {sz sp va len x : Word} {n : Nat} {r : Bool} {bytes : Nat → Byte} {a : CString}
  {done argv : List CString} {ustack : Ustack}

/-! ### What the user reads -/

/-- The byte at `x`, if the user may read it. -/
def userByte (s : Kmem) (d : Frame) (x : Word) : Option Byte :=
  if user (pteOf s.page d (pageNo x)) then
    (pageOf s.page d (pageNo x)).map fun f => (s.page f).byte (x.toNat % 4096)
  else none

def userWord (s : Kmem) (d : Frame) (x : Word) : Option Word := do
  let b₀ ← userByte s d x
  let b₁ ← userByte s d (x + 1)
  let b₂ ← userByte s d (x + 2)
  let b₃ ← userByte s d (x + 3)
  return b₃ ++ b₂ ++ b₁ ++ b₀

lemma CopiedOut.stores (h : UserSpace U s d) (hc : CopiedOut d va len bytes s r t) : Stores U d s t where
  freelist := hc.freelist
  table := hc.table
  pte := hc.pte
  outside f hf := by
    by_contra hne
    obtain ⟨o, ho⟩ := Function.ne_iff.mp hne
    obtain ⟨x, -, husable, hpage, -⟩ := hc.only f o ho
    exact hf (h.space.page_mem (h.mem_users husable) hpage)

/-- Outside of its block, `copyout` changes nothing that the user can read. -/
lemma CopiedOut.userByte_of_notMem (h : UserSpace U s d) (hc : CopiedOut d va len bytes s r t)
    (hx : ¬ InBlock va len.toNat x) : userByte t d x = userByte s d x := by
  rw [userByte, userByte, hc.pte, hc.page_eq]
  split
  · rename_i huser
    cases hf : pageOf s.page d (pageNo x) with
    | none => rfl
    | some f =>
      refine congrArg some ?_
      by_contra hne
      have ho : x.toNat % 4096 < 4096 := Nat.mod_lt _ (by decide)
      simp only [Bytes.byte, dif_pos ho] at hne
      obtain ⟨y, hy, husable, hpage, hoff⟩ := hc.only f _ hne
      have hmem : pageNo x ∈ Users := h.mem_users ⟨(pageOf_eq_some.mp hf).1, huser⟩
      have hsame : pageNo y = pageNo x := page_inj h.space (h.mem_users husable) hpage hmem hf
      exact hx (eq_of_page hsame hoff ▸ hy)
  · rfl

lemma CopiedOut.userByte_of_lt (hc : CopiedOut d va len bytes s true t) {j : Nat} (hj : j < len.toNat) :
    userByte t d (va + BitVec.ofNat 32 j) = some (bytes j) := by
  obtain ⟨f, hf, hbyte⟩ := hc.done rfl j hj
  have husable := hc.returns.mp rfl _ (inBlock_add hj (Nat.le_of_lt len.isLt))
  rw [userByte, hc.pte, if_pos husable.2, hc.page_eq, hf, Option.map_some, hbyte]

lemma userWord_eq {b : Bytes n} {i : Nat}
    (h : ∀ j < 4, userByte s d (x + BitVec.ofNat 32 j) = some (b.byte (4 * i + j))) :
    userWord s d x = some (b.getInt i) := by
  have h₀ := h 0 (by omega)
  rw [add_zero, Nat.add_zero] at h₀
  have h₁ : userByte s d (x + 1) = _ := h 1 (by omega)
  have h₂ : userByte s d (x + 2) = _ := h 2 (by omega)
  have h₃ : userByte s d (x + 3) = _ := h 3 (by omega)
  rw [userWord, h₀, h₁, h₂, h₃]
  rfl

/-! ### The stack page and the page below it -/

lemma Image.clear (h : Image k ∅ U s d sz) {uva : Word} (hspace : Space Users U t d)
    (hkeeps : Keeps Users {pageNo uva} U d s t)
    (hpte : pteOf t.page d (pageNo uva) = pteOf s.page d (pageNo uva) &&& ~~~PTE_U) :
    Image k {pageNo uva} U t d sz where
  space := hspace
  allocatable := h.allocatable
  size_le := h.size_le
  mapped p hp := by
    rcases eq_or_ne p (pageNo uva) with rfl | hne
    · rw [hpte, present_clear_U]
      exact h.mapped _ hp
    · rw [hkeeps.pte p hne]
      exact h.mapped p hp
  kernel p hp := by
    rcases eq_or_ne p (pageNo uva) with rfl | hne
    · rw [hpte]
      exact user_clear_U _
    · rw [hkeeps.pte p hne]
      exact h.kernel p hp
  guard p hp hlt := by
    rcases eq_or_ne p (pageNo uva) with rfl | hne
    · rw [hpte, user_clear_U]
      exact ⟨fun _ => rfl, fun _ => rfl⟩
    · rw [hkeeps.pte p hne, h.guard p hp hlt]
      exact ⟨fun h => absurd h (Set.notMem_empty p), fun h => absurd h hne⟩

section Stack

variable (h : Image k {pageNo sz - 2} U s d sz) (hal : sz.toNat % 4096 = 0) (htwo : 8192 ≤ sz.toNat)

include h hal htwo

lemma usable_stack (hge : sz.toNat ≤ x.toNat + 4096) (hlt : x.toNat < sz.toNat) : Usable s d x := by
  have hle : sz.toNat ≤ 2147483648 := h.size_le
  have hmem : pageNo x ∈ Users := by
    show pageNo x < 524288
    rw [pageNo]
    omega
  have hbelow : 4096 * pageNo x < sz.toNat := by
    rw [pageNo]
    omega
  refine ⟨(h.mapped _ hmem).mpr hbelow, ?_⟩
  refine Bool.eq_true_of_not_eq_false fun hfalse => ?_
  have hguard : pageNo x = pageNo sz - 2 := (h.guard _ hmem hbelow).mp hfalse
  rw [pageNo, pageNo] at hguard
  omega

lemma not_usable_guard (hge : sz.toNat ≤ x.toNat + 8192) (hlt : x.toNat + 4096 < sz.toNat) :
    ¬ Usable s d x := by
  have hle : sz.toNat ≤ 2147483648 := h.size_le
  intro husable
  have hguard : pageNo x = pageNo sz - 2 := by
    rw [pageNo, pageNo]
    omega
  have hmem : pageNo x ∈ Users := by
    show pageNo x < 524288
    rw [pageNo]
    omega
  have hbelow : 4096 * pageNo x < sz.toNat := by
    rw [pageNo]
    omega
  have hfalse := (h.guard _ hmem hbelow).mpr hguard
  rw [husable.2] at hfalse
  cases hfalse

end Stack

/-! ### Pushing one block -/

/-- The bytes that a block of `n` bytes takes on the stack. -/
def round4 (n : Nat) : Nat := (n + 3) / 4 * 4

lemma toNat_push (sp : Word) (n : Nat) : (push sp n).toNat = (sp - BitVec.ofNat 32 n).toNat / 4 * 4 :=
  toNat_and_mask (n := 2) (by decide) _

section Push

variable (hsp : sp.toNat % 4 = 0) (hpos : 0 < n) (hn : n < 0x100000000)

include hsp hn

lemma toNat_push_of_le (hroom : round4 n ≤ sp.toNat) : (push sp n).toNat = sp.toNat - round4 n := by
  rw [round4] at hroom ⊢
  rw [toNat_push, toNat_sub, toNat_ofNat]
  omega

include hpos

/-- Every block contains the last word below `sp` and, counting down from there, `round4 n` bytes. -/
lemma inBlock_push {y : Nat} (hy : 4 ≤ y) (hle : y ≤ round4 n) :
    InBlock (push sp n) n (sp - BitVec.ofNat 32 y) := by
  rw [round4] at hle
  rw [InBlock, toNat_sub, toNat_push, toNat_sub, toNat_sub, toNat_ofNat, toNat_ofNat]
  omega

/-- `copyout` of a block to the stack returns 0 exactly when the block fits on the page. -/
lemma push_ends {b : Nat → Byte} (h : Image k {pageNo sz - 2} U s d sz) (hal : sz.toNat % 4096 = 0)
    (htwo : 8192 ≤ sz.toNat) (hle : sp.toNat ≤ sz.toNat) (hge : sz.toNat ≤ sp.toNat + 4096)
    (hnull : sp.toNat + 4096 < sz.toNat + round4 n → E .null) :
    Ends (copyout d (push sp n) b (BitVec.ofNat 32 n)) s E fun r t =>
      CopiedOut d (push sp n) (BitVec.ofNat 32 n) b s r t ∧
      (r = true ↔ sz.toNat + round4 n ≤ sp.toNat + 4096) := by
  have hlen : (BitVec.ofNat 32 n).toNat = n := by
    rw [toNat_ofNat]
    omega
  have hround : n ≤ round4 n ∧ 4 ≤ round4 n := by
    rw [round4]
    omega
  have hiff : (∀ x, InBlock (push sp n) n x → Usable s d x) ↔ sz.toNat + round4 n ≤ sp.toNat + 4096 := by
    constructor
    · intro hall
      by_contra hbig
      -- the block contains a byte of the page below the stack
      have hmod : round4 n % 4 = 0 := by
        rw [round4]
        omega
      have hin := inBlock_push hsp hpos hn (y := sp.toNat + 4100 - sz.toNat) (by omega) (by omega)
      refine not_usable_guard h hal htwo ?_ ?_ (hall _ hin) <;>
      · rw [toNat_sub, toNat_ofNat]
        have hlt := sp.isLt
        omega
    · intro hroom x hx
      have hto := toNat_push_of_le hsp hn (by omega)
      rw [inBlock_iff (by omega)] at hx
      exact usable_stack h hal htwo (by omega) (by omega)
  refine (copyoutFrom_ends h.userSpace ?_).post ?_
  · intro x hx hnone
    rw [hlen] at hx
    refine hnull (Nat.not_le.mp fun hroom => ?_)
    have husable := hiff.mpr hroom x hx
    rw [Usable, pteOf_of_none hnone] at husable
    cases husable.1
  · intro r t hc
    have hc' : CopiedOut d (push sp n) (BitVec.ofNat 32 n) b s r t := by
      simpa only [Nat.zero_add] using hc
    refine ⟨hc', ?_⟩
    rw [hc'.returns, hlen]
    exact hiff

end Push

/-! ### The strings -/

/-- The string is at `p`, below `sz`. -/
structure StringAt (s : Kmem) (d : Frame) (sz p : Word) (a : CString) : Prop where
  aligned : p.toNat % 4 = 0
  top : p.toNat + a.chars.length + 1 ≤ sz.toNat
  bytes : ∀ j ≤ a.chars.length, userByte s d (p + BitVec.ofNat 32 j) = some (a.chars.getD j 0)

/-- The bytes that the strings take on the stack. -/
def stringBytes : List CString → Nat
  | [] => 0
  | a :: argv => round4 (a.chars.length + 1) + stringBytes argv

@[simp] lemma stringBytes_append (done argv : List CString) :
    stringBytes (done ++ argv) = stringBytes done + stringBytes argv := by
  induction done with
  | nil => simp [stringBytes]
  | cons a done ih => simp [stringBytes, ih, Nat.add_assoc]

/-- The strings that have been pushed, and the pointers to them. -/
structure Pushed (s : Kmem) (d : Frame) (sz : Word) (done : List CString) (sp : Word)
    (ustack : Ustack) : Prop where
  aligned : sp.toNat % 4 = 0
  total : sp.toNat + stringBytes done = sz.toNat
  page : stringBytes done ≤ 4096
  string : ∀ i a, done[i]? = some a → StringAt s d sz (ustack.getInt (3 + i)) a ∧
    sp.toNat ≤ (ustack.getInt (3 + i)).toNat
  order : ∀ i j b, i < j → done[j]? = some b →
    (ustack.getInt (3 + j)).toNat + b.chars.length + 1 ≤ (ustack.getInt (3 + i)).toNat

lemma pushed_nil (hal : sz.toNat % 4096 = 0) : Pushed s d sz [] sz ustack where
  aligned := by omega
  total := rfl
  page := by decide
  string i a h := by cases h
  order i j b _ h := by cases h

/-- A block below `sp` leaves a string above `sp`. -/
lemma StringAt.copied {p : Word} (h : StringAt s d sz p a) (hp : sp.toNat ≤ p.toNat)
    (hs : UserSpace U s d) (hc : CopiedOut d va len bytes s r t)
    (hva : va.toNat + len.toNat ≤ sp.toNat) : StringAt t d sz p a where
  aligned := h.aligned
  top := h.top
  bytes j hj := by
    have htop := h.top
    have hlt := sz.isLt
    have hadd : (p + BitVec.ofNat 32 j).toNat = p.toNat + j := by
      rw [BitVec.toNat_add, toNat_ofNat]
      omega
    rw [← h.bytes j hj]
    refine hc.userByte_of_notMem hs ?_
    have hpl := p.isLt
    rw [inBlock_iff (by omega)]
    omega

lemma getElem?_concat {b : CString} {i : Nat} (h : (done ++ [a])[i]? = some b) :
    (i < done.length ∧ done[i]? = some b) ∨ (i = done.length ∧ b = a) := by
  rcases Nat.lt_or_ge i done.length with hi | hi
  · rw [List.getElem?_append_left hi] at h
    exact Or.inl ⟨hi, h⟩
  · rw [List.getElem?_append_right hi, List.getElem?_singleton] at h
    split at h
    · cases h
      exact Or.inr ⟨by omega, rfl⟩
    · cases h

lemma Pushed.push (h : Pushed s d sz done sp ustack) (hmax : done.length < MAXARG)
    (hs : UserSpace U s d)
    (hroom : sz.toNat + round4 (a.chars.length + 1) ≤ sp.toNat + 4096)
    (hc : CopiedOut d (push sp (a.chars.length + 1)) (BitVec.ofNat 32 (a.chars.length + 1))
      (fun j => a.chars.getD j 0) s true t) (hsz : 8192 ≤ sz.toNat) :
    Pushed t d sz (done ++ [a]) (Vm.push sp (a.chars.length + 1))
      (ustack.putInt (3 + done.length) (Vm.push sp (a.chars.length + 1))) := by
  have htotal := h.total
  have hsp := h.aligned
  have hround : a.chars.length + 1 ≤ round4 (a.chars.length + 1) ∧
      round4 (a.chars.length + 1) % 4 = 0 := by
    rw [round4]
    omega
  have hto := toNat_push_of_le (n := a.chars.length + 1) hsp (by omega) (by omega)
  have hn : (BitVec.ofNat 32 (a.chars.length + 1)).toNat = a.chars.length + 1 := by
    rw [toNat_ofNat]
    omega
  have hself : (ustack.putInt (3 + done.length) (Vm.push sp (a.chars.length + 1))).getInt
      (3 + done.length) = Vm.push sp (a.chars.length + 1) := by
    refine Bytes.getInt_putInt_self _ _ ?_
    rw [MAXARG] at hmax
    omega
  have hother : ∀ i < done.length, (ustack.putInt (3 + done.length)
      (Vm.push sp (a.chars.length + 1))).getInt (3 + i) = ustack.getInt (3 + i) := by
    intro i hi
    exact Bytes.getInt_putInt_of_ne _ _ (by omega)
  constructor
  case aligned => omega
  case total =>
    rw [stringBytes_append, stringBytes, stringBytes]
    omega
  case page =>
    rw [stringBytes_append, stringBytes, stringBytes]
    omega
  case string =>
    intro i b hb
    rcases getElem?_concat hb with ⟨hi, hb⟩ | ⟨rfl, rfl⟩
    · rw [hother i hi]
      obtain ⟨hstr, hge⟩ := h.string i b hb
      exact ⟨hstr.copied hge hs hc (by omega), by omega⟩
    · rw [hself]
      refine ⟨⟨by omega, by omega, ?_⟩, Nat.le_refl _⟩
      intro j hj
      exact hc.userByte_of_lt (by omega)
  case order =>
    intro i j b hij hb
    rcases getElem?_concat hb with ⟨hj, hb⟩ | ⟨rfl, rfl⟩
    · rw [hother i (by omega), hother j hj]
      exact h.order i j b hij hb
    · obtain ⟨-, hge⟩ := h.string i done[i] (List.getElem?_eq_getElem hij)
      rw [hother i hij, hself]
      omega

/-- All strings are pushed, if there is room for them and they are not too many. -/
lemma pushStrings_ends (hp : Pushed s d sz done sp ustack) (h : Image k {pageNo sz - 2} U s d sz)
    (hal : sz.toNat % 4096 = 0) (htwo : 8192 ≤ sz.toNat) (hmax : done.length ≤ MAXARG)
    (hnull : 4096 < stringBytes (done ++ argv) → E .null) :
    Ends (pushStrings d argv done.length sp ustack) s E fun r t => Stores U d s t ∧
      (r = none → 4096 < stringBytes (done ++ argv) ∨ MAXARG < (done ++ argv).length) ∧
      ∀ argc sp' ustack', r = some (argc, sp', ustack') →
        argc = (done ++ argv).length ∧ argc ≤ MAXARG ∧ Pushed t d sz (done ++ argv) sp' ustack' := by
  induction argv generalizing s done sp ustack with
  | nil =>
    rw [append_nil]
    refine Ends.pure ⟨Stores.refl, (fun h => by cases h), ?_⟩
    intro argc sp' ustack' heq
    cases heq
    exact ⟨rfl, hmax, hp⟩
  | cons a argv ih =>
    rw [pushStrings]
    refine Ends.ite ?_ fun hargc => ?_
    · intro hargc
      refine Ends.pure ⟨Stores.refl, fun _ => Or.inr ?_, fun _ _ _ h => by cases h⟩
      rw [length_append, length_cons]
      omega
    have hlen := a.length_lt
    have htotal := hp.total
    have hpage := hp.page
    have hsum : stringBytes (done ++ a :: argv) =
        stringBytes done + (round4 (a.chars.length + 1) + stringBytes argv) := by
      rw [stringBytes_append, stringBytes]
    refine Ends.bind (push_ends hp.aligned (Nat.zero_lt_succ a.chars.length) (by omega) h hal htwo (by omega) (by omega)
      ?_) ?_
    · intro hbig
      rw [Nat.succ_eq_add_one] at hbig
      exact hnull (by omega)
    rintro r t ⟨hc, hroom⟩
    have hst := hc.stores h.userSpace
    cases r with
    | false =>
      refine Ends.pure ⟨hst, fun _ => Or.inl ?_, fun _ _ _ h => by cases h⟩
      have hbig : ¬ sz.toNat + round4 (a.chars.length + 1) ≤ sp.toNat + 4096 :=
        fun hle => absurd (hroom.mpr hle) Bool.false_ne_true
      omega
    | true =>
      have hnext := hp.push (Nat.not_le.mp hargc) h.userSpace (hroom.mp rfl) hc htwo
      have hlen' : (done ++ [a]).length = done.length + 1 := by
        rw [length_append, length_singleton]
      have happ : done ++ [a] ++ argv = done ++ a :: argv := by
        rw [append_assoc, singleton_append]
      have hrest := ih hnext (h.stores hst) (by omega) (happ ▸ hnull)
      rw [happ, hlen'] at hrest
      refine hrest.post ?_
      rintro r u ⟨hst', hnone, hsome⟩
      exact ⟨hst.trans hst', hnone, hsome⟩

/-! ### The words -/

/-- The program finds its arguments: from `esp` up, a return address, `argc`, `argv`, the array of pointers
and its end, and above them the strings, the first one on top. -/
structure Passed (s : Kmem) (d : Frame) (sz esp : Word) (argv : List CString) (ptr : Nat → Word) :
    Prop where
  pc : userWord s d esp = some 0xffffffff
  argc : userWord s d (esp + 4) = some (BitVec.ofNat 32 argv.length)
  array : userWord s d (esp + 8) = some (esp + 12)
  pointer : ∀ i < argv.length, userWord s d (esp + 12 + BitVec.ofNat 32 (4 * i)) = some (ptr i)
  last : userWord s d (esp + 12 + BitVec.ofNat 32 (4 * argv.length)) = some 0
  string : ∀ i a, argv[i]? = some a → StringAt s d sz (ptr i) a
  page : sz.toNat ≤ esp.toNat + 4096
  top : esp.toNat + 4 * (argv.length + 4) ≤ sz.toNat
  above : ∀ i < argv.length, esp.toNat + 4 * (argv.length + 4) ≤ (ptr i).toNat
  order : ∀ i j b, i < j → argv[j]? = some b → (ptr j).toNat + b.chars.length + 1 ≤ (ptr i).toNat

lemma getInt_finish_pc (argc : Nat) : (finish argc sp ustack).getInt 0 = 0xffffffff := by
  rw [finish, Bytes.getInt_putInt_of_ne _ _ (by omega), Bytes.getInt_putInt_of_ne _ _ (by omega),
    Bytes.getInt_putInt_self _ _ (by omega)]

lemma getInt_finish_array (argc : Nat) :
    (finish argc sp ustack).getInt 2 = sp - BitVec.ofNat 32 ((argc + 1) * 4) := by
  rw [finish, Bytes.getInt_putInt_self _ _ (by omega)]

lemma getInt_finish_pointer {argc i : Nat} (hi : i < argc) :
    (finish argc sp ustack).getInt (3 + i) = ustack.getInt (3 + i) := by
  rw [finish, Bytes.getInt_putInt_of_ne _ _ (by omega), Bytes.getInt_putInt_of_ne _ _ (by omega),
    Bytes.getInt_putInt_of_ne _ _ (by omega), Bytes.getInt_putInt_of_ne _ _ (by omega)]

lemma getInt_finish_argc (argc : Nat) : (finish argc sp ustack).getInt 1 = BitVec.ofNat 32 argc := by
  rw [finish, Bytes.getInt_putInt_of_ne _ _ (by omega), Bytes.getInt_putInt_self _ _ (by omega)]

lemma getInt_finish_last {argc : Nat} (hargc : argc ≤ MAXARG) :
    (finish argc sp ustack).getInt (3 + argc) = 0 := by
  rw [MAXARG] at hargc
  rw [finish, Bytes.getInt_putInt_of_ne _ _ (by omega), Bytes.getInt_putInt_of_ne _ _ (by omega),
    Bytes.getInt_putInt_of_ne _ _ (by omega), Bytes.getInt_putInt_self _ _ (by omega)]

/-- `copyout` of the words of `ustack`. -/
lemma CopiedOut.userWord_of_lt {esp : Word} {m i : Nat} (hm : 4 * m < 0x100000000)
    (hc : CopiedOut d esp (BitVec.ofNat 32 (4 * m)) ustack.byte s true t) (hi : i < m) :
    userWord t d (esp + BitVec.ofNat 32 (4 * i)) = some (ustack.getInt i) := by
  refine userWord_eq ?_
  intro j hj
  rw [add_assoc, ← ofNat_add]
  refine hc.userByte_of_lt ?_
  rw [toNat_ofNat]
  omega

lemma Pushed.passed {esp : Word} (h : Pushed s d sz argv sp ustack) (hmax : argv.length ≤ MAXARG)
    (hs : UserSpace U s d) (hesp : esp = sp - BitVec.ofNat 32 (4 * (argv.length + 4)))
    (hroom : sz.toNat + 4 * (argv.length + 4) ≤ sp.toNat + 4096) (htwo : 8192 ≤ sz.toNat)
    (hc : CopiedOut d esp (BitVec.ofNat 32 (4 * (argv.length + 4)))
      (finish argv.length sp ustack).byte s true t) :
    Passed t d sz esp argv fun i => ustack.getInt (3 + i) := by
  have hmax' : argv.length ≤ 32 := hmax
  have htotal := h.total
  have hto : esp.toNat = sp.toNat - 4 * (argv.length + 4) := by
    rw [hesp, toNat_sub, toNat_ofNat]
    have hlt := sp.isLt
    omega
  have hlen : (BitVec.ofNat 32 (4 * (argv.length + 4))).toNat = 4 * (argv.length + 4) := by
    rw [toNat_ofNat]
    omega
  have hword : ∀ i < argv.length + 4, userWord t d (esp + BitVec.ofNat 32 (4 * i)) =
      some ((finish argv.length sp ustack).getInt i) :=
    fun i hi => hc.userWord_of_lt (by omega) hi
  have hshift : ∀ i, esp + 12 + BitVec.ofNat 32 (4 * i) = esp + BitVec.ofNat 32 (4 * (3 + i)) := by
    intro i
    rw [Nat.mul_add, ofNat_add, ← add_assoc]
    rfl
  constructor
  case pc =>
    have h₀ := hword 0 (by omega)
    rwa [getInt_finish_pc, add_zero] at h₀
  case argc =>
    have h₁ := hword 1 (by omega)
    rwa [getInt_finish_argc] at h₁
  case array =>
    have h₂ := hword 2 (by omega)
    have harray : sp - BitVec.ofNat 32 ((argv.length + 1) * 4) = esp + 12 := by
      have hsplit : BitVec.ofNat 32 (4 * (argv.length + 4)) =
          BitVec.ofNat 32 ((argv.length + 1) * 4) + 12 := by
        rw [show 4 * (argv.length + 4) = (argv.length + 1) * 4 + 12 by omega, ofNat_add]
        rfl
      rw [hesp, hsplit]
      bv_omega
    rwa [getInt_finish_array, harray] at h₂
  case pointer =>
    intro i hi
    rw [hshift, hword _ (by omega), getInt_finish_pointer hi]
  case last => rw [hshift, hword _ (by omega), getInt_finish_last hmax]
  case string =>
    intro i a ha
    obtain ⟨hstr, hge⟩ := h.string i a ha
    exact hstr.copied hge hs hc (by omega)
  case page => omega
  case top => omega
  case above =>
    intro i hi
    obtain ⟨-, hge⟩ := h.string i argv[i] (List.getElem?_eq_getElem hi)
    omega
  case order => exact h.order

/-! ### The whole stack -/

/-- The argument vector fits on the stack page. -/
def Fits (argv : List CString) : Prop := stringBytes argv + 4 * (argv.length + 4) ≤ 4096

instance (argv : List CString) : Decidable (Fits argv) := Nat.decLe _ _

lemma push_eq_sub {m : Nat} (hsp : sp.toNat % 4 = 0) : push sp (4 * m) = sp - BitVec.ofNat 32 (4 * m) := by
  refine BitVec.eq_of_toNat_eq ?_
  rw [toNat_push, toNat_sub, toNat_ofNat]
  omega

lemma finish_ends (hp : Pushed s d sz argv sp ustack) (h : Image k {pageNo sz - 2} U s d sz)
    (hal : sz.toNat % 4096 = 0) (htwo : 8192 ≤ sz.toNat) (hmax : argv.length ≤ MAXARG)
    (hnull : ¬ Fits argv → E .null) :
    Ends (copyout d (sp - BitVec.ofNat 32 ((3 + argv.length + 1) * 4)) (finish argv.length sp ustack).byte
      (BitVec.ofNat 32 ((3 + argv.length + 1) * 4))) s E fun r t => Stores U d s t ∧
      (r = false → ¬ Fits argv) ∧ (r = true →
        Passed t d sz (sp - BitVec.ofNat 32 ((3 + argv.length + 1) * 4)) argv
          fun i => ustack.getInt (3 + i)) := by
  have hmax' : argv.length ≤ 32 := hmax
  have htotal := hp.total
  have hpage := hp.page
  have hwords : (3 + argv.length + 1) * 4 = 4 * (argv.length + 4) := by omega
  have hround : round4 (4 * (argv.length + 4)) = 4 * (argv.length + 4) := by
    rw [round4]
    omega
  have hfits : sz.toNat + round4 (4 * (argv.length + 4)) ≤ sp.toNat + 4096 ↔ Fits argv := by
    rw [hround, Fits]
    omega
  rw [hwords, ← push_eq_sub hp.aligned]
  refine (push_ends hp.aligned (by omega) (by omega) h hal htwo (by omega) (by omega) ?_).imp
    (fun _ h => h) ?_
  · intro hbig
    refine hnull fun hfit => ?_
    have hle := hfits.mpr hfit
    omega
  · rintro r t ⟨hc, hr⟩
    rw [hfits] at hr
    refine ⟨hc.stores h.userSpace, ?_, ?_⟩
    · rintro rfl hfit
      exact absurd (hr.mpr hfit) Bool.false_ne_true
    · rintro rfl
      refine hp.passed hmax h.userSpace (push_eq_sub hp.aligned) ?_ htwo hc
      have hle := hfits.mpr (hr.mp rfl)
      omega

/-- There are two more pages below `KERNBASE` and enough memory for them. -/
def Spacious (U : Set Frame) (sz : Word) : Prop :=
  sz.toNat + 8192 < 2147483648 ∧ ¬ AtMost (1028 + (sz.toNat + 4095) / 4096) U

lemma Spacious.not_few (h : Spacious U sz) : ¬ AtMost 1025 U :=
  fun hfew => h.2 (hfew.mono (by omega))

/-- The stack is built with all arguments on it; or not, if there is no room for it. -/
lemma buildStack_ends (h : Image k ∅ U s d sz) (hal : sz.toNat % 4096 = 0) (hnull : ¬ Fits argv → E .null) :
    Ends (buildStack k d sz argv) s E fun r t => (∀ f ∉ U, t.page f = s.page f) ∧ Space Users U t d ∧
      (r = none → ¬ (Spacious U sz ∧ Fits argv ∧ argv.length ≤ MAXARG)) ∧
      ∀ sz' esp, r = some (sz', esp) → Image k {pageNo sz' - 2} U t d sz' ∧ sz'.toNat % 4096 = 0 ∧
        ∃ ptr, Passed t d sz' esp argv ptr := by
  have hle : sz.toNat ≤ 2147483648 := h.size_le
  have htwo : (sz + 2 * PGSIZE).toNat = sz.toNat + 8192 := by
    rw [PGSIZE]
    bv_omega
  have hback : sz + 2 * PGSIZE - 2 * PGSIZE = sz := BitVec.add_sub_cancel sz (2 * PGSIZE)
  rw [buildStack]
  generalize sz + 2 * PGSIZE = new at htwo hback ⊢
  have hgrow : sz ≤ new := by
    show sz.toNat ≤ _
    omega
  refine Ends.bind (h.allocuvm fun hlt => absurd hgrow (BitVec.not_le.mpr hlt)) ?_
  rintro r t ⟨hout, ⟨rfl, hspace, hnone⟩ | ⟨hne, -, hlt, hr, himage⟩⟩
  · rw [if_pos rfl]
    refine Ends.pure ⟨hout, hspace, ?_, fun _ _ h => by cases h⟩
    rintro - ⟨⟨hlow, hmany⟩, -, -⟩
    refine hmany ((hnone ?_ ?_).mono (by omega))
    · show 0 < new.toNat
      omega
    · show new.toNat < 2147483648
      omega
  rw [if_neg hne]
  obtain rfl := hr hgrow
  rw [hback]
  have hguard : pageNo sz = pageNo r - 2 := by
    rw [pageNo, pageNo, htwo]
    omega
  have hmem : pageNo sz ∈ Users := by
    have hlt' : r.toNat < 2147483648 := hlt
    show _ < 524288
    rw [pageNo]
    omega
  have hpres : present (pteOf t.page d (pageNo sz)) = true := by
    rw [himage.mapped _ hmem, pageNo]
    omega
  refine Ends.bind (clearpteu_ends himage.space ?_) ?_
  · intro htab
    rw [pteOf_of_none htab, present_zero] at hpres
    cases hpres
  rintro _ t₁ ⟨hspace₁, hkeeps₁, hpte₁, -⟩
  have himage₁ := himage.clear hspace₁ hkeeps₁ hpte₁
  rw [hguard] at himage₁
  have hout₁ : ∀ f ∉ U, t₁.page f = s.page f := fun f hf => (hkeeps₁.outside f hf).trans (hout f hf)
  have hbytes : 4096 < stringBytes ([] ++ argv) → E .null := by
    intro hbig
    refine hnull fun hfit => ?_
    rw [nil_append] at hbig
    rw [Fits] at hfit
    omega
  refine Ends.bind (pushStrings_ends (pushed_nil (by omega)) himage₁ (by omega) (by omega)
    (Nat.zero_le _) hbytes) ?_
  rintro r t₂ ⟨hst₂, hnone₂, hsome₂⟩
  rw [nil_append] at hnone₂ hsome₂
  have hout₂ : ∀ f ∉ U, t₂.page f = s.page f := fun f hf => (hst₂.outside f hf).trans (hout₁ f hf)
  cases r with
  | none =>
    refine Ends.pure ⟨hout₂, hst₂.space hspace₁, ?_, fun _ _ h => by cases h⟩
    rintro - ⟨-, hfit, hmax⟩
    rw [Fits] at hfit
    rcases hnone₂ rfl with hbig | hmany <;> omega
  | some x =>
    obtain ⟨hargc, hmax, hpushed⟩ := hsome₂ x.1 x.2.1 x.2.2 rfl
    have himage₂ := himage₁.stores hst₂
    rw [hargc] at hmax
    dsimp only
    rw [hargc]
    refine Ends.bind (finish_ends hpushed himage₂ (by omega) (by omega) hmax hnull) ?_
    rintro r t₃ ⟨hst₃, hfalse, htrue⟩
    have hout₃ : ∀ f ∉ U, t₃.page f = s.page f := fun f hf => (hst₃.outside f hf).trans (hout₂ f hf)
    cases r with
    | false =>
      refine Ends.pure ⟨hout₃, hst₃.space himage₂.space, ?_, fun _ _ h => by cases h⟩
      rintro - ⟨-, hfit, -⟩
      exact hfalse rfl hfit
    | true =>
      refine Ends.pure ⟨hout₃, hst₃.space himage₂.space, (fun h => by cases h), ?_⟩
      intro sz' esp heq
      cases heq
      exact ⟨himage₂.stores hst₃, by omega, _, htrue rfl⟩

end Xv6.Vm
