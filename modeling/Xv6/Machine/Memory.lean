import Mathlib.Data.List.GetD
import Mathlib.Logic.Function.Basic
import Xv6.Machine.Bytes

/-!
# Memory of a 32-bit machine

A memory gives a byte for every address. A block of `n` bytes starts at an address and goes on past
the largest address from address 0. Bytes are copied to a block, and words are read from four bytes.
-/

namespace Machine

open BitVec

variable {m : Word → Byte} {a x : Word} {n : Nat} {b : Byte} {bs : List Byte} {k : Nat}

/-- The address is one of the `n` addresses from `a` on. -/
def InBlock (a : Word) (n : Nat) (x : Word) : Prop := (x - a).toNat < n

instance (a : Word) (n : Nat) (x : Word) : Decidable (InBlock a n x) := Nat.decLt _ _

/-- The memory after the bytes have been copied to `a`. -/
def blit (m : Word → Byte) (a : Word) (bs : List Byte) : Word → Byte :=
  fun x => bs.getD (x - a).toNat (m x)

def loadWord (m : Word → Byte) (a : Word) : Word := wordAt (fun k => m (a + BitVec.ofNat 32 k)) 0

/-! ### Blocks -/

lemma inBlock_iff (h : a.toNat + n ≤ 0x100000000) :
    InBlock a n x ↔ a.toNat ≤ x.toNat ∧ x.toNat < a.toNat + n := by
  rw [InBlock, toNat_sub]
  omega

lemma sub_of_add (hk : k < 0x100000000) : (a + BitVec.ofNat 32 k - a).toNat = k := by
  rw [BitVec.add_comm, BitVec.add_sub_cancel, BitVec.toNat_ofNat, Nat.mod_eq_of_lt hk]

lemma inBlock_add (hk : k < n) (hn : n ≤ 0x100000000) : InBlock a n (a + BitVec.ofNat 32 k) := by
  rw [InBlock, sub_of_add (Nat.lt_of_lt_of_le hk hn)]
  exact hk

lemma InBlock.eq_add (h : InBlock a n x) : ∃ k < n, x = a + BitVec.ofNat 32 k := by
  refine ⟨(x - a).toNat, h, ?_⟩
  rw [BitVec.ofNat_toNat, BitVec.setWidth_eq, BitVec.add_comm, BitVec.sub_add_cancel]

/-- A block is its first `k` addresses and the others. -/
lemma inBlock_split (hk : k ≤ n) (hn : n ≤ 0x100000000) :
    InBlock a n x ↔ InBlock a k x ∨ InBlock (a + BitVec.ofNat 32 k) (n - k) x := by
  simp only [InBlock]
  rw [toNat_sub, toNat_sub, toNat_add, toNat_ofNat]
  omega

/-- The two parts have no address in common. -/
lemma InBlock.not_rest (h : InBlock a k x) (hk : k ≤ n) (hn : n ≤ 0x100000000) :
    ¬ InBlock (a + BitVec.ofNat 32 k) (n - k) x := by
  simp only [InBlock] at h ⊢
  rw [toNat_sub] at h ⊢
  rw [toNat_add, toNat_ofNat]
  omega

/-! ### Copies -/

lemma blit_of_notMem (h : ¬ InBlock a bs.length x) : blit m a bs x = m x := by
  rw [blit, List.getD_eq_default]
  exact Nat.le_of_not_lt h

lemma blit_add (hk : k < bs.length) (hn : bs.length ≤ 0x100000000) :
    blit m a bs (a + BitVec.ofNat 32 k) = bs[k] := by
  rw [blit, sub_of_add (Nat.lt_of_lt_of_le hk hn), List.getD_eq_getElem _ _ hk]

/-- Copying byte by byte. -/
lemma blit_cons (hn : bs.length < 0x100000000) :
    blit (Function.update m a b) (a + 1) bs = blit m a (b :: bs) := by
  funext x
  by_cases hx : x = a
  · subst hx
    have hlast : (x - (x + 1)).toNat = 0xffffffff := by bv_omega
    rw [blit, blit, hlast, List.getD_eq_default _ _ (by omega), Function.update_self, BitVec.sub_self]
    rfl
  · have hsucc : (x - a).toNat = (x - (a + 1)).toNat + 1 := by bv_omega
    rw [blit, blit, hsucc, Function.update_of_ne hx, List.getD_cons_succ]

/-! ### Words -/

lemma loadWord_eq {v : Word} (h : ∀ k < 4, m (a + BitVec.ofNat 32 k) = byteOf v k) : loadWord m a = v := by
  refine wordAt_eq ?_
  intro k hk
  rw [Nat.zero_add]
  exact h k hk

lemma loadWord_congr {m' : Word → Byte} (h : ∀ x, InBlock a 4 x → m' x = m x) :
    loadWord m' a = loadWord m a := by
  refine wordAt_congr ?_
  intro k hk
  rw [Nat.zero_add]
  exact h _ (inBlock_add hk (by decide))

end Machine
