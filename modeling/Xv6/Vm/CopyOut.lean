import Mathlib.Data.List.Nodup
import Mathlib.Data.List.Perm.Subperm
import Xv6.Machine.Memory
import Xv6.Machine.Run
import Xv6.Vm.Growproc
import Xv6.Vm.KernelMap

/-!
# `copyout` stays on user pages

In an address space that `setupkvm`, `allocuvm` and `clearpteu` have built, `copyout` writes to user pages
only. It looks up every page of its block in the page tables without asking whether there is a table.
-/

namespace Xv6.Vm

open Machine Function List BitVec

variable {k : Kernel} {U : Set Frame} {s t : Kmem} {d f : Frame} {E : Stop → Prop} {va len x : Word}
  {bytes : Nat → Byte} {r : Bool}

/-- The pages that users may use are user pages. -/
structure UserSpace (U : Set Frame) (s : Kmem) (d : Frame) : Prop where
  space : Space Users U s d
  kernel : ∀ p ∉ Users, user (pteOf s.page d p) = false

/-- The byte at `x` is on a page that is present with `PTE_U`. -/
def Usable (s : Kmem) (d : Frame) (x : Word) : Prop :=
  present (pteOf s.page d (pageNo x)) = true ∧ user (pteOf s.page d (pageNo x)) = true

lemma UserSpace.mem_users (h : UserSpace U s d) (hx : Usable s d x) : pageNo x ∈ Users := by
  by_contra hnot
  have hkernel := h.kernel _ hnot
  rw [hx.2] at hkernel
  cases hkernel

/-! ### One page -/

/-- `uva2ka` finds the page, if it is one that the user may use. -/
lemma uva2ka_ends {uva : Word} (htab : tableOf s.page d (pageNo uva / 1024) = none → E .null) :
    Ends (uva2ka d uva) s E fun r t => t = s ∧ ((r = none ∧ ¬ Usable s d uva) ∨
      ∃ f, r = some f ∧ Usable s d uva ∧ pageOf s.page d (pageNo uva) = some f) := by
  refine Ends.bind (walkpgdir_ends d uva) ?_
  rintro r t ⟨rfl, rfl⟩
  rw [PDX_eq, PTX_eq]
  cases ht : tableOf t.page d (pageNo uva / 1024) with
  | none => exact Ends.throw (htab ht)
  | some =>
    refine Ends.bind (getEntry_ends _) ?_
    rintro v t' ⟨rfl, rfl⟩
    rw [← pteOf_of_table ht]
    refine Ends.ite ?_ fun hp => Ends.ite ?_ fun hu => ?_
    · intro hp
      refine Ends.pure ⟨rfl, Or.inl ⟨rfl, fun husable => ?_⟩⟩
      simp [husable.1] at hp
    · intro hu
      refine Ends.pure ⟨rfl, Or.inl ⟨rfl, fun husable => ?_⟩⟩
      simp [husable.2] at hu
    · have hp' : present (pteOf t'.page d (pageNo uva)) = true := by simpa using hp
      have hu' : user (pteOf t'.page d (pageNo uva)) = true := by simpa using hu
      exact Ends.pure ⟨rfl, Or.inr ⟨_, rfl, ⟨hp', hu'⟩, pageOf_eq_some.mpr ⟨hp', rfl⟩⟩⟩

/-- What `copyout` of `len` bytes to `va` leaves. -/
structure CopiedOut (d : Frame) (va len : Word) (bytes : Nat → Byte) (s : Kmem) (r : Bool) (t : Kmem) :
    Prop where
  freelist : t.freelist = s.freelist
  table : ∀ i, tableOf t.page d i = tableOf s.page d i
  pte : ∀ p, pteOf t.page d p = pteOf s.page d p
  /-- every byte of memory that has changed is in the block, on a page for the user -/
  only : ∀ f o, t.page f o ≠ s.page f o → ∃ x, InBlock va len.toNat x ∧ Usable s d x ∧
    pageOf s.page d (pageNo x) = some f ∧ x.toNat % 4096 = o.val
  returns : r = true ↔ ∀ x, InBlock va len.toNat x → Usable s d x
  done : r = true → ∀ j < len.toNat, ∃ f, pageOf s.page d (pageNo (va + BitVec.ofNat 32 j)) = some f ∧
    (t.page f).byte ((va + BitVec.ofNat 32 j).toNat % 4096) = bytes j

lemma CopiedOut.usable (h : CopiedOut d va len bytes s r t) : Usable t d x ↔ Usable s d x := by
  rw [Usable, Usable, h.pte]

lemma CopiedOut.page_eq (h : CopiedOut d va len bytes s r t) (p : Nat) :
    pageOf t.page d p = pageOf s.page d p :=
  pageOf_congr (h.pte p)

lemma copiedOut_nil : CopiedOut d va 0 bytes s true s where
  freelist := rfl
  table _ := rfl
  pte _ := rfl
  only _ _ h := absurd rfl h
  returns := ⟨fun _ _ hx => absurd hx (Nat.not_lt_zero _), fun _ => rfl⟩
  done _ _ hj := absurd hj (Nat.not_lt_zero _)

lemma copiedOut_fail (hlen : 0 < len.toNat) (hva : ¬ Usable s d va) :
    CopiedOut d va len bytes s false s where
  freelist := rfl
  table _ := rfl
  pte _ := rfl
  only _ _ h := absurd rfl h
  returns := by
    refine ⟨(fun h => by cases h), fun hall => absurd (hall va ?_) hva⟩
    rw [InBlock, BitVec.sub_self]
    exact hlen
  done := fun h => by cases h

section Chunk

variable {n : Word} {j : Nat} (hn : va.toNat % 4096 + n.toNat ≤ 4096) {p : Nat → Byte}

include hn

/-- A block that ends on its first page does not wrap. -/
lemma toNat_chunk (hj : j < n.toNat) : (va + BitVec.ofNat 32 j).toNat = va.toNat + j := by
  rw [toNat_add, toNat_ofNat]
  omega

lemma pageNo_chunk (hj : j < n.toNat) : pageNo (va + BitVec.ofNat 32 j) = pageNo va := by
  rw [pageNo, pageNo, toNat_chunk hn hj]
  omega

lemma pageNo_of_inBlock (hx : InBlock va n.toNat x) : pageNo x = pageNo va := by
  obtain ⟨j, hj, rfl⟩ := hx.eq_add
  exact pageNo_chunk hn hj

/-- The bytes on the first page. -/
lemma copiedOut_chunk (h : UserSpace U s d) (hva : Usable s d va)
    (hf : pageOf s.page d (pageNo va) = some f) :
    CopiedOut d va n bytes s true ⟨update s.page f
      ((s.page f).overwrite (va.toNat % 4096) n.toNat bytes), s.freelist⟩ where
  freelist := rfl
  table i := tableOf_congr (update_of_ne (page_ne_dir h.space (h.mem_users hva) hf).symm _ _) i
  pte p := pteOf_congr
    (update_of_ne (page_ne_dir h.space (h.mem_users hva) hf).symm _ _)
    (fun i tab ht => update_of_ne (page_ne_table h.space (h.mem_users hva) hf ht).symm _ _) p
  only g o hne := by
    have hg : g = f := by
      by_contra hne'
      exact hne (congrFun (update_of_ne hne' _ _) o)
    subst hg
    have ho : va.toNat % 4096 ≤ o.val ∧ o.val < va.toNat % 4096 + n.toNat := by
      by_contra hnot
      refine hne ((congrFun (update_self _ _ _) o).trans ?_)
      exact if_neg hnot
    have hj : o.val - va.toNat % 4096 < n.toNat := by omega
    refine ⟨va + BitVec.ofNat 32 (o.val - va.toNat % 4096), ?_, ?_, ?_, ?_⟩
    · exact inBlock_add hj (Nat.le_of_lt n.isLt)
    · rwa [Usable, pageNo_chunk hn hj]
    · rw [pageNo_chunk hn hj, hf]
    · rw [toNat_chunk hn hj]
      omega
  returns := by
    refine ⟨fun _ x hx => ?_, fun _ => rfl⟩
    rwa [Usable, pageNo_of_inBlock hn hx]
  done _ j hj := by
    refine ⟨f, ?_, ?_⟩
    · rw [pageNo_chunk hn hj, hf]
    · have hoff : (va + BitVec.ofNat 32 j).toNat % 4096 = va.toNat % 4096 + j := by
        rw [toNat_chunk hn hj]
        omega
      show (update s.page f _ f).byte _ = _
      rw [hoff, update_self]
      exact Bytes.byte_overwrite_of_mem _ _ hj hn

end Chunk

lemma CopiedOut.userSpace (h : UserSpace U s d) (hc : CopiedOut d va len bytes s r t) :
    UserSpace U t d := by
  refine ⟨?_, ?_⟩
  · have hheld : ∀ x f, Held Users t.page d x f ↔ Held Users s.page d x f := by
      intro x f
      cases x with
      | dir => exact Iff.rfl
      | table => simp only [Held, hc.table]
      | page => simp only [Held, hc.page_eq]
    rw [Space, hc.freelist]
    exact h.space.congr hheld
  · intro p hp
    rw [hc.pte]
    exact h.kernel p hp

/-- An address is its page and its offset. -/
lemma eq_of_page {x y : Word} (hpage : pageNo x = pageNo y) (hoff : x.toNat % 4096 = y.toNat % 4096) :
    x = y := by
  rw [pageNo, pageNo] at hpage
  refine eq_of_toNat_eq ?_
  omega

lemma inBlock_word_split {n : Word} (hn : n ≤ len) :
    InBlock va len.toNat x ↔ InBlock va n.toNat x ∨ InBlock (va + n) (len - n).toNat x := by
  have hsub : (len - n).toNat = len.toNat - n.toNat := by bv_omega
  rw [inBlock_split (show n.toNat ≤ len.toNat from hn) (Nat.le_of_lt len.isLt), ofNat_toNat,
    setWidth_eq, hsub]

/-- The rest of the bytes after those on the first page. -/
lemma CopiedOut.append {n : Word} {u : Kmem} (h : UserSpace U s d) (hn : n ≤ len)
    (h₁ : CopiedOut d va n bytes s true t)
    (h₂ : CopiedOut d (va + n) (len - n) (fun j => bytes (n.toNat + j)) t r u) :
    CopiedOut d va len bytes s r u := by
  have hle : n.toNat ≤ len.toNat := hn
  have hlen : len.toNat ≤ 0x100000000 := Nat.le_of_lt len.isLt
  have hsub : (len - n).toNat = len.toNat - n.toNat := by bv_omega
  have hofNat : BitVec.ofNat 32 n.toNat = n := by
    rw [ofNat_toNat, setWidth_eq]
  have hsplit : ∀ x, InBlock va len.toNat x ↔ InBlock va n.toNat x ∨ InBlock (va + n) (len - n).toNat x :=
    fun _ => inBlock_word_split hn
  constructor
  case freelist => exact h₂.freelist.trans h₁.freelist
  case table => exact fun i => (h₂.table i).trans (h₁.table i)
  case pte => exact fun p => (h₂.pte p).trans (h₁.pte p)
  case only =>
    intro f o hne
    by_cases hmid : t.page f o = s.page f o
    · rw [← hmid] at hne
      obtain ⟨x, hx, husable, hpage, ho⟩ := h₂.only f o hne
      exact ⟨x, (hsplit x).mpr (Or.inr hx), h₁.usable.mp husable, by rw [← h₁.page_eq, hpage], ho⟩
    · obtain ⟨x, hx, hrest⟩ := h₁.only f o hmid
      exact ⟨x, (hsplit x).mpr (Or.inl hx), hrest⟩
  case returns =>
    rw [h₂.returns]
    constructor
    · intro hall x hx
      rcases (hsplit x).mp hx with hx | hx
      · exact h₁.returns.mp rfl x hx
      · exact h₁.usable.mp (hall x hx)
    · intro hall x hx
      exact h₁.usable.mpr (hall x ((hsplit x).mpr (Or.inr hx)))
  case done =>
    intro hr j hj
    rcases Nat.lt_or_ge j n.toNat with hfirst | hrest
    · obtain ⟨f, hf, hbyte⟩ := h₁.done rfl j hfirst
      refine ⟨f, hf, ?_⟩
      rw [← hbyte]
      -- a later store to this byte would be at the same address, which is not in the rest
      by_contra hne
      have ho : (va + BitVec.ofNat 32 j).toNat % 4096 < 4096 := Nat.mod_lt _ (by decide)
      rw [Bytes.byte, Bytes.byte, dif_pos ho, dif_pos ho] at hne
      obtain ⟨x, hx, husable, hpage, hoff⟩ := h₂.only f _ hne
      have hin : InBlock va n.toNat (va + BitVec.ofNat 32 j) := inBlock_add hfirst (by omega)
      have hsame : pageNo x = pageNo (va + BitVec.ofNat 32 j) := by
        refine page_inj h.space (h.mem_users (h₁.usable.mp husable)) ?_
          (h.mem_users (h₁.returns.mp rfl _ hin)) hf
        rw [← h₁.page_eq, hpage]
      have hx' : x = va + BitVec.ofNat 32 j := eq_of_page hsame hoff
      have hnot := hin.not_rest hle hlen
      rw [hofNat, ← hsub] at hnot
      exact hnot (hx' ▸ hx)
    · obtain ⟨f, hf, hbyte⟩ := h₂.done hr (j - n.toNat) (by omega)
      have haddr : va + n + BitVec.ofNat 32 (j - n.toNat) = va + BitVec.ofNat 32 j := by
        conv_rhs => rw [← Nat.add_sub_cancel' hrest, BitVec.ofNat_add, hofNat, ← BitVec.add_assoc]
      rw [haddr, h₁.page_eq] at hf
      rw [haddr, Nat.add_sub_cancel' hrest] at hbyte
      exact ⟨f, hf, hbyte⟩

/-! ### `copyout` -/

lemma store_ends (f : Frame) (o n : Nat) (b : Nat → Byte) : Ends (store f o n b) s E fun _ t =>
    t = ⟨update s.page f ((s.page f).overwrite o n b), s.freelist⟩ :=
  Ends.modify rfl

lemma toNat_offset (va : Word) : (va - PGROUNDDOWN va).toNat = va.toNat % 4096 := by
  have hdown := toNat_PGROUNDDOWN va
  rw [pageNo] at hdown
  bv_omega

/-- A chunk ends at the end of the page, or it is all there is. -/
lemma chunk_cases (va len : Word) : va.toNat % 4096 + (chunk va len).toNat ≤ 4096 ∧
    (chunk va len = len ∨ va + chunk va len = PGROUNDDOWN va + PGSIZE) := by
  have hdown := toNat_PGROUNDDOWN va
  rw [pageNo] at hdown
  rw [chunk, PGSIZE]
  split
  · refine ⟨?_, Or.inl rfl⟩
    bv_omega
  · refine ⟨?_, Or.inr ?_⟩
    · bv_omega
    · bv_omega

lemma copyoutFrom_ends {buf : Nat} (h : UserSpace U s d)
    (htab : ∀ x, InBlock va len.toNat x → tableOf s.page d (pageNo x / 1024) = none → E .null) :
    Ends (copyoutFrom d p va len buf) s E fun r t =>
      CopiedOut d va len (fun j => p (buf + j)) s r t := by
  induction va, len, buf using copyoutFrom.induct generalizing s with
  | case1 va len buf hlen va0 =>
    rename_i ih
    rw [copyoutFrom, dif_pos hlen]
    have hpos : 0 < len.toNat := hlen
    have hva : InBlock va len.toNat va := by
      rw [InBlock, BitVec.sub_self]
      exact hpos
    have hpage : pageNo (PGROUNDDOWN va) = pageNo va := pageNo_PGROUNDDOWN va
    refine Ends.bind (uva2ka_ends ?_) ?_
    · rw [hpage]
      exact htab va hva
    rintro r t ⟨rfl, ⟨rfl, hnot⟩ | ⟨f, rfl, husable, hf⟩⟩
    · rw [Usable, hpage] at hnot
      exact Ends.pure (copiedOut_fail hpos hnot)
    rw [Usable, hpage] at husable
    rw [hpage] at hf
    obtain ⟨hchunk, hend⟩ := chunk_cases va len
    have hle : chunk va len ≤ len := (chunk_pos va hlen).2
    refine Ends.bind (store_ends _ _ _ _) ?_
    rintro _ u rfl
    rw [toNat_offset]
    have hfirst : CopiedOut d va (chunk va len) (fun j => p (buf + j)) t true _ :=
      copiedOut_chunk hchunk h husable hf
    rcases hend with hall | hnext
    · -- nothing is left
      rw [hall] at hfirst ⊢
      rw [BitVec.sub_self, copyoutFrom, dif_neg (by decide)]
      exact Ends.pure hfirst
    · have hva0 : va0 + PGSIZE = va + chunk va len := hnext.symm
      rw [hva0] at ih
      rw [← hnext]
      refine (ih (hfirst.userSpace h) ?_).post ?_
      · intro x hx hnone
        rw [hfirst.table] at hnone
        exact htab x ((inBlock_word_split hle).mpr (Or.inr hx)) hnone
      · intro r u hrest
        refine hfirst.append h hle ?_
        simpa only [Nat.add_assoc] using hrest
  | case2 va len buf hlen =>
    rw [copyoutFrom, dif_neg hlen]
    obtain rfl : len = 0 := by bv_omega
    exact Ends.pure copiedOut_nil

/-! ### Directories as they are built -/

/-- A call that changes an address space after `setupkvm` has made it. -/
inductive Build
  | allocuvm (oldsz newsz : Word)
  | clearpteu (uva : Word)
  | copyout (va : Word) (p : Nat → Byte) (len : Word)

/-- The memory after the call, unless it panics. -/
def build (k : Kernel) (d : Frame) (s : Kmem) : Build → Option Kmem
  | .allocuvm oldsz newsz => (allocuvm k d oldsz newsz s).toOption.map Prod.snd
  | .clearpteu uva => (clearpteu d uva s).toOption.map Prod.snd
  | .copyout va p len => (copyout d va p len s).toOption.map Prod.snd

/-- `setupkvm` has made the directory `d`, and calls have changed it. -/
def Built (k : Kernel) (d : Frame) (s : Kmem) : Prop :=
  ∃ s₀ t₀, s₀.freelist.Nodup ∧ (∀ f ∈ s₀.freelist, k.Allocatable f) ∧
    setupkvm k s₀ = .ok (some d, t₀) ∧ Reach (build k d) Always t₀ s

lemma userSpace_setupkvm {s₀ : Kmem} (hU : ∀ f ∈ U, k.Allocatable f) (h : Free U s₀)
    (hrun : setupkvm k s₀ = .ok (some d, t)) : UserSpace U t d := by
  obtain ⟨-, ⟨hnone, -⟩ | ⟨d', hd, hspace, hpte, -⟩⟩ :=
    (setupkvm_ends (E := fun _ => False) h hU).of_ok hrun
  · cases hnone
  · cases hd
    refine ⟨hspace, fun p _ => ?_⟩
    rw [hpte]
    exact kpte_not_user k p

/-- Every call keeps the address space one. -/
lemma UserSpace.build {b : Build} (h : UserSpace U s d) (hU : ∀ f ∈ U, k.Allocatable f)
    (hstep : build k d s b = some t) : UserSpace U t d := by
  cases b with
  | allocuvm =>
    obtain ⟨r, hspace, hkeeps⟩ :=
      Ends.of_toOption (allocuvm_any (E := fun _ => True) trivial h.space hU) hstep
    refine ⟨hspace, fun p hp => ?_⟩
    rw [hkeeps.pte p hp]
    exact h.kernel p hp
  | clearpteu uva =>
    obtain ⟨r, hspace, hkeeps, hpte, -⟩ :=
      Ends.of_toOption (clearpteu_ends (E := fun _ => True) h.space fun _ => trivial) hstep
    refine ⟨hspace, fun p hp => ?_⟩
    rcases eq_or_ne p (pageNo uva) with rfl | hne
    · rw [hpte]
      exact user_clear_U _
    · rw [hkeeps.pte p hne]
      exact h.kernel p hp
  | copyout =>
    obtain ⟨r, hcopied⟩ :=
      Ends.of_toOption (copyoutFrom_ends (E := fun _ => True) h fun _ _ _ => trivial) hstep
    exact hcopied.userSpace h

lemma Built.userSpace (h : Built k d s) : ∃ U, UserSpace U s d := by
  obtain ⟨s₀, t₀, hnodup, hfree, hrun, hreach⟩ := h
  refine ⟨{f | f ∈ s₀.freelist}, hreach.invariant (I := fun s => UserSpace _ s d) ?_ ?_⟩
  · exact userSpace_setupkvm hfree (pool_of_free hnodup fun _ _ h => h) hrun
  · intro s b t hs _ hstep
    exact hs.build hfree hstep

def freePages (n : Nat) : Kmem where
  page _ _ := 0
  freelist := (List.range n).map fun i => BitVec.ofNat 20 (0x400 + i)

section FreePages

variable {n : Nat} (hmax : n ≤ 0xD000)

include hmax

lemma freePages_nodup : (freePages n).freelist.Nodup := by
  refine List.Nodup.map_on ?_ nodup_range
  intro i hi j hj hij
  rw [mem_range] at hi hj
  have hnat := congrArg BitVec.toNat hij
  rw [toNat_ofNat, toNat_ofNat] at hnat
  omega

lemma freePages_allocatable : ∀ f ∈ (freePages n).freelist, smallKernel.Allocatable f := by
  intro f hf
  obtain ⟨i, hi, rfl⟩ := mem_map.mp hf
  rw [mem_range] at hi
  have haddr : (Frame.addr (BitVec.ofNat 20 (0x400 + i))).toNat = (0x400 + i) * 4096 := by
    rw [toNat_addr, toNat_ofNat]
    omega
  rintro (hlow | hhigh)
  · rw [P2V, show smallKernel.end_ = 0x80110000 from rfl, show KERNBASE = 0x80000000 from rfl] at hlow
    bv_omega
  · have hge : 0xE000000 ≤ (Frame.addr (BitVec.ofNat 20 (0x400 + i))).toNat := hhigh
    omega

lemma freePages_not_atMost {m : Nat} (hm : m < n) : ¬ AtMost m {f | f ∈ (freePages n).freelist} := by
  rintro ⟨l, hlen, hsub⟩
  have hle : (freePages n).freelist.length ≤ l.length :=
    (subperm_of_subset (freePages_nodup hmax) hsub).length_le
  rw [freePages, length_map, length_range] at hle
  omega

/-- With more free pages than a directory and all its tables take, `setupkvm` makes one. -/
lemma setupkvm_freePages (hn : 1025 < n) : ∃ d t, setupkvm smallKernel (freePages n) = .ok (some d, t) ∧
    Built smallKernel d t ∧ Space Users {f | f ∈ (freePages n).freelist} t d ∧ pteOf t.page d = kpte smallKernel ∧
    ∀ i, (∀ m ∈ smallKernel.kmap, ∀ p ∈ m.range, p / 1024 ≠ i) → tableOf t.page d i = none := by
  have hfree : Free {f | f ∈ (freePages n).freelist} (freePages n) :=
    pool_of_free (freePages_nodup hmax) fun _ _ h => h
  obtain ⟨r, t, hrun, -, ⟨-, -, hfew⟩ | ⟨d, rfl, hspace, hpte, htabs⟩⟩ :=
    (setupkvm_ends hfree (freePages_allocatable hmax)).exists_ok
  · exact absurd hfew (freePages_not_atMost hmax hn)
  · exact ⟨d, t, hrun, ⟨freePages n, t, freePages_nodup hmax, freePages_allocatable hmax, hrun,
      Reach.refl⟩, hspace, hpte, htabs⟩

end FreePages

lemma copyout_null (hlen : 0 < len) (htab : tableOf s.page d (pageNo (PGROUNDDOWN va) / 1024) = none) :
    copyout d va p len s = .error .null := by
  have hends : Ends (copyout d va p len) s (fun e => e = .null) fun _ _ => False := by
    rw [copyout, copyoutFrom, dif_pos hlen]
    refine Ends.bind (Q := fun _ _ => False) ?_ fun _ _ hfalse => hfalse.elim
    refine Ends.bind (walkpgdir_ends d _) ?_
    rintro r t ⟨rfl, rfl⟩
    rw [PDX_eq, htab]
    exact Ends.throw rfl
  obtain ⟨e, hrun, rfl⟩ := hends.exists_error
  exact hrun

end Xv6.Vm
