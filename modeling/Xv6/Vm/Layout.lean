import Xv6.Machine.Bytes

/-!
# The memory layout

The constants of `memlayout.h` and `mmu.h`, the parts of a virtual address and of a page-table entry. A
page of physical memory is named by its number, which stands for its physical address and for the kernel's
pointer to it: `V2P` and `P2V` between the two are not written.
-/

namespace Xv6.Vm

open Machine BitVec

def PGSIZE : Word := 4096
def NPDENTRIES : Word := 1024
def EXTMEM : Word := 0x100000
def PHYSTOP : Word := 0xE000000
def DEVSPACE : Word := 0xFE000000
def KERNBASE : Word := 0x80000000
def KERNLINK : Word := KERNBASE + EXTMEM

def PTE_P : Word := 0x001
def PTE_W : Word := 0x002
def PTE_U : Word := 0x004

def V2P (a : Word) : Word := a - KERNBASE
def P2V (a : Word) : Word := a + KERNBASE

def PDX (va : Word) : Nat := ((va >>> 22) &&& 0x3FF).toNat
def PTX (va : Word) : Nat := ((va >>> 12) &&& 0x3FF).toNat
def PGADDR (d t o : Word) : Word := d <<< 22 ||| t <<< 12 ||| o

def PGROUNDUP (sz : Word) : Word := (sz + PGSIZE - 1) &&& ~~~(PGSIZE - 1)
def PGROUNDDOWN (a : Word) : Word := a &&& ~~~(PGSIZE - 1)

/-- The number of a page of physical memory. -/
abbrev Frame := BitVec 20

/-- The physical address of the page. -/
def Frame.addr (f : Frame) : Word := f ++ 0#12

/-- The page in a page-table or page-directory entry. -/
def PTE_ADDR (pte : Word) : Frame := pte.extractLsb' 12 20

def PTE_FLAGS (pte : Word) : Word := pte &&& 0xFFF

/-! ### Virtual addresses -/

/-- The number of the virtual page. -/
def pageNo (va : Word) : Nat := va.toNat / 4096

lemma PDX_eq (va : Word) : PDX va = pageNo va / 1024 := by
  have hmask : (va >>> 22).toNat &&& 0x3FF = (va >>> 22).toNat % 1024 := Nat.and_two_pow_sub_one_eq_mod _ 10
  rw [PDX, toNat_and, pageNo]
  show (va >>> 22).toNat &&& 0x3FF = _
  rw [hmask, toNat_ushiftRight, Nat.shiftRight_eq_div_pow]
  have := va.isLt
  omega

lemma PTX_eq (va : Word) : PTX va = pageNo va % 1024 := by
  have hmask : (va >>> 12).toNat &&& 0x3FF = (va >>> 12).toNat % 1024 := Nat.and_two_pow_sub_one_eq_mod _ 10
  rw [PTX, toNat_and, pageNo]
  show (va >>> 12).toNat &&& 0x3FF = _
  rw [hmask, toNat_ushiftRight, Nat.shiftRight_eq_div_pow]

/-- A mask that clears the low `n` bits. -/
lemma toNat_and_mask {mask : Word} {n : Nat}
    (hmask : ∀ i : Fin 32, mask.getLsbD i.val = decide (n ≤ i.val)) (x : Word) :
    (x &&& mask).toNat = x.toNat / (1 <<< n) * (1 <<< n) := by
  have hshift : x &&& mask = (x >>> n) <<< n := by
    refine eq_of_getLsbD_eq ?_
    intro i hi
    rw [getLsbD_and, hmask ⟨i, hi⟩, getLsbD_shiftLeft, getLsbD_ushiftRight]
    by_cases h : i < n
    · simp [h]
    · simp [h, hi, Nat.add_sub_cancel' (Nat.le_of_not_lt h), Nat.le_of_not_lt h]
  rw [hshift, toNat_shiftLeft, toNat_ushiftRight, Nat.shiftRight_eq_div_pow,
    Nat.shiftLeft_eq, Nat.one_shiftLeft]
  exact Nat.mod_eq_of_lt (Nat.lt_of_le_of_lt (Nat.div_mul_le_self _ _) x.isLt)

lemma toNat_clear (x : Word) : (x &&& ~~~(PGSIZE - 1)).toNat = x.toNat / 4096 * 4096 :=
  toNat_and_mask (n := 12) (by decide) x

lemma toNat_PGROUNDDOWN (a : Word) : (PGROUNDDOWN a).toNat = pageNo a * 4096 := toNat_clear a

lemma toNat_PGROUNDUP {sz : Word} (h : sz.toNat ≤ 0xFFFFF000) :
    (PGROUNDUP sz).toNat = (sz.toNat + 4095) / 4096 * 4096 := by
  have hadd : (sz + PGSIZE - 1).toNat = sz.toNat + 4095 := by
    rw [PGSIZE]
    bv_omega
  rw [PGROUNDUP, toNat_clear, hadd]

/-! ### Page-table entries -/

/-- The entry refers to a page. -/
def present (pte : Word) : Bool := pte &&& PTE_P != 0

/-- User programs may use the page. -/
def user (pte : Word) : Bool := pte &&& PTE_U != 0

/-! ### Bits of entries -/

lemma flag_bit (i : Fin 32) (v : Word) : (v &&& BitVec.twoPow 32 i != 0) = v.getLsbD i := by
  have hne : ∀ i : Fin 32, BitVec.twoPow 32 i.val ≠ 0#32 := by decide
  rw [and_twoPow]
  cases hv : v.getLsbD i
  · simp
  · simp [hne i]

lemma present_eq (pte : Word) : present pte = pte.getLsbD 0 := flag_bit 0 pte

lemma user_eq (pte : Word) : user pte = pte.getLsbD 2 := flag_bit 2 pte

lemma getLsbD_of_lt {v : Word} (h : v < 4096) {i : Nat} (hi : 12 ≤ i) : v.getLsbD i = false := by
  have hv : v.toNat < 2 ^ i :=
    Nat.lt_of_lt_of_le (show v.toNat < 2 ^ 12 from h) (Nat.pow_le_pow_right (by decide) hi)
  exact Nat.testBit_lt_two_pow hv

lemma getLsbD_addr (f : Frame) (i : Nat) : f.addr.getLsbD i = (decide (12 ≤ i) && f.getLsbD (i - 12)) := by
  rw [Frame.addr, getLsbD_append]
  by_cases h : i < 12
  · simp [h, Nat.not_le.mpr h]
  · simp [h, Nat.le_of_not_lt h]

lemma toNat_addr (f : Frame) : f.addr.toNat = f.toNat * 4096 := by
  rw [Frame.addr, toNat_append, Nat.shiftLeft_eq]
  simp

lemma getLsbD_PTE_P (i : Nat) : PTE_P.getLsbD i = decide (i = 0) := by
  rw [show PTE_P = BitVec.twoPow 32 0 from rfl, getLsbD_twoPow]
  simp [eq_comm]

lemma getLsbD_flags (i : Fin 32) : (0xFFF : Word).getLsbD i.val = decide (i.val < 12) := by
  revert i
  decide

@[simp] lemma present_zero : present 0 = false := rfl

@[simp] lemma present_or_P (v : Word) : present (v ||| PTE_P) = true := by
  rw [present_eq, getLsbD_or, getLsbD_PTE_P, decide_eq_true rfl, Bool.or_true]

lemma PTE_ADDR_entry (f : Frame) {perm : Word} (h : perm < 4096) :
    PTE_ADDR (f.addr ||| perm ||| PTE_P) = f := by
  refine eq_of_getLsbD_eq ?_
  intro i hi
  have hperm := getLsbD_of_lt h (Nat.le_add_right 12 i)
  simp [PTE_ADDR, hi, getLsbD_addr, getLsbD_PTE_P, hperm]

lemma PTE_FLAGS_entry (f : Frame) {perm : Word} (h : perm < 4096) :
    PTE_FLAGS (f.addr ||| perm ||| PTE_P) = perm ||| PTE_P := by
  refine eq_of_getLsbD_eq ?_
  intro i hi
  rw [PTE_FLAGS, getLsbD_and, getLsbD_flags ⟨i, hi⟩]
  simp only [getLsbD_or, getLsbD_addr, getLsbD_PTE_P]
  by_cases hlt : i < 12
  · simp [hlt, Nat.not_le.mpr hlt]
  · simp [hlt, getLsbD_of_lt h (Nat.le_of_not_lt hlt)]
    omega

lemma user_entry (f : Frame) {perm : Word} : user (f.addr ||| perm ||| PTE_P) = user perm := by
  rw [user_eq, user_eq, getLsbD_or, getLsbD_or, getLsbD_addr, getLsbD_PTE_P]
  simp

lemma addr_PTE_ADDR (pte : Word) : (PTE_ADDR pte).addr ||| PTE_FLAGS pte = pte := by
  refine eq_of_getLsbD_eq ?_
  intro i hi
  rw [getLsbD_or, getLsbD_addr, PTE_FLAGS, getLsbD_and, getLsbD_flags ⟨i, hi⟩, PTE_ADDR,
    getLsbD_extractLsb']
  by_cases hlt : i < 12
  · simp [hlt, Nat.not_le.mpr hlt]
  · have hge : 12 ≤ i := Nat.le_of_not_lt hlt
    have hsub : i - 12 < 20 := by omega
    simp [hlt, hge, hsub, Nat.add_sub_cancel' hge]

/-- The flags of a present page make its entry present again. -/
lemma flags_or_P {pte : Word} (h : present pte = true) : PTE_FLAGS pte ||| PTE_P = PTE_FLAGS pte := by
  refine eq_of_getLsbD_eq ?_
  intro i hi
  rw [getLsbD_or, getLsbD_PTE_P]
  by_cases hzero : i = 0
  · subst hzero
    rw [present_eq] at h
    rw [PTE_FLAGS, getLsbD_and, h]
    rfl
  · simp [hzero]

lemma PTE_FLAGS_lt (pte : Word) : PTE_FLAGS pte < 4096 := by
  have hle : (PTE_FLAGS pte).toNat ≤ 0xFFF := by
    rw [PTE_FLAGS, toNat_and]
    exact Nat.and_le_right
  show (PTE_FLAGS pte).toNat < 4096
  omega

/-! ### Clearing `PTE_U` -/

lemma getLsbD_PTE_U (i : Nat) : PTE_U.getLsbD i = decide (i = 2) := by
  rw [show PTE_U = BitVec.twoPow 32 2 from rfl, getLsbD_twoPow]
  simp [eq_comm]

lemma present_clear_U (pte : Word) : present (pte &&& ~~~PTE_U) = present pte := by
  rw [present_eq, present_eq, getLsbD_and, getLsbD_not, getLsbD_PTE_U]
  simp

lemma user_clear_U (pte : Word) : user (pte &&& ~~~PTE_U) = false := by
  rw [user_eq, getLsbD_and, getLsbD_not, getLsbD_PTE_U]
  simp

lemma PTE_ADDR_clear_U (pte : Word) : PTE_ADDR (pte &&& ~~~PTE_U) = PTE_ADDR pte := by
  refine eq_of_getLsbD_eq ?_
  intro i hi
  have hlt : 12 + i < 32 := by omega
  have hne : 12 + i ≠ 2 := by omega
  simp only [PTE_ADDR, getLsbD_extractLsb', getLsbD_and, getLsbD_not, getLsbD_PTE_U]
  simp [hlt, hne]

end Xv6.Vm
