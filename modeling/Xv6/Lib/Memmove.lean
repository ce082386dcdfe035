import Xv6.Machine.Memory

/-!
# `memmove`

The kernel has one `memmove` and the user library another. The kernel's copies downwards where the
destination starts inside the source. The user library's always copies upwards, and there it reads bytes that
it has already overwritten.
-/

namespace Xv6.Lib

open Machine Function

variable {m m' : Word → Byte} {dst src : Word} {n : Nat}

/-- `while(n-- > 0) *d++ = *s++` -/
def copyUp : Nat → (Word → Byte) → Word → Word → Word → Byte
  | 0, m, _, _ => m
  | n + 1, m, d, s => copyUp n (Function.update m d (m s)) (d + 1) (s + 1)

/-- `while(n-- > 0) *--d = *--s` -/
def copyDown : Nat → (Word → Byte) → Word → Word → Word → Byte
  | 0, m, _, _ => m
  | n + 1, m, d, s => copyDown n (Function.update m (d - 1) (m (s - 1))) (d - 1) (s - 1)

/-- `memmove` of the kernel. -/
def memmove (m : Word → Byte) (dst src n : Word) : Word → Byte :=
  if src < dst ∧ dst < src + n then copyDown n.toNat m (dst + n) (src + n)
  else copyUp n.toNat m dst src

/-- `memmove` of the user library, where `n` is signed. -/
def userMemmove (m : Word → Byte) (dst src n : Word) : Word → Byte := copyUp n.toInt.toNat m dst src

/-- The block at `dst` holds what the one at `src` held, and nothing else has changed. -/
structure Moved (dst src : Word) (n : Nat) (m m' : Word → Byte) : Prop where
  copied : ∀ k < n, m' (dst + BitVec.ofNat 32 k) = m (src + BitVec.ofNat 32 k)
  others : ∀ x, ¬ InBlock dst n x → m' x = m x

lemma moved_zero : Moved dst src 0 m m := ⟨fun _ hk => absurd hk (Nat.not_lt_zero _), fun _ _ => rfl⟩

/-- Address `k + 1` of a block is address `k` of the next one. -/
lemma add_one_add (a : Word) (k : Nat) : a + 1 + BitVec.ofNat 32 k = a + BitVec.ofNat 32 (k + 1) := by
  rw [BitVec.add_assoc, BitVec.ofNat_add, BitVec.add_comm 1]
  rfl

/-- The first byte and then the others. The source must not have been overwritten by the first byte. -/
lemma Moved.head (h : Moved (dst + 1) (src + 1) n (update m dst (m src)) m') (hn : n < 0x100000000)
    (hsep : ∀ k < n, src + 1 + BitVec.ofNat 32 k ≠ dst) : Moved dst src (n + 1) m m' := by
  have hout : ¬ InBlock (dst + 1) n dst := by
    rw [InBlock]
    bv_omega
  constructor
  · intro k hk
    cases k with
    | zero =>
      rw [BitVec.add_zero, BitVec.add_zero, h.others dst hout, update_self]
    | succ k =>
      have hk : k < n := Nat.lt_of_succ_lt_succ hk
      rw [← add_one_add, ← add_one_add, h.copied k hk, update_of_ne (hsep k hk)]
  · intro x hx
    have hne : x ≠ dst := by
      rintro rfl
      exact hx (by rw [InBlock, BitVec.sub_self]; exact Nat.succ_pos n)
    have hrest : ¬ InBlock (dst + 1) n x := by
      rw [InBlock] at hx ⊢
      bv_omega
    rw [h.others x hrest, update_of_ne hne]

/-- The last byte and then the others. -/
lemma Moved.last (h : Moved dst src n
      (update m (dst + BitVec.ofNat 32 n) (m (src + BitVec.ofNat 32 n))) m') (hn : n < 0x100000000)
    (hsep : ∀ k < n, src + BitVec.ofNat 32 k ≠ dst + BitVec.ofNat 32 n) : Moved dst src (n + 1) m m' := by
  have hout : ¬ InBlock dst n (dst + BitVec.ofNat 32 n) := by
    rw [InBlock, sub_of_add hn]
    exact Nat.lt_irrefl n
  constructor
  · intro k hk
    by_cases hkn : k = n
    · subst hkn
      rw [h.others _ hout, update_self]
    · have hlt : k < n := by omega
      rw [h.copied k hlt, update_of_ne (hsep k hlt)]
  · intro x hx
    have hin : InBlock dst (n + 1) (dst + BitVec.ofNat 32 n) := inBlock_add (Nat.lt_succ_self n) hn
    have hne : x ≠ dst + BitVec.ofNat 32 n := by
      rintro rfl
      exact hx hin
    have hrest : ¬ InBlock dst n x := fun hin => hx (Nat.lt_succ_of_lt hin)
    rw [h.others x hrest, update_of_ne hne]

/-- Copying upwards is right if the destination does not start inside the source. -/
lemma copyUp_moved (hn : n < 0x100000000) (h : dst = src ∨ ¬ InBlock src n dst) :
    Moved dst src n m (copyUp n m dst src) := by
  induction n generalizing m dst src with
  | zero => exact moved_zero
  | succ n ih =>
    apply Moved.head (ih (Nat.lt_of_succ_lt hn) ?_) (Nat.lt_of_succ_lt hn)
    · intro k hk heq
      rcases h with rfl | hout
      · bv_omega
      · apply hout
        rw [← heq, add_one_add]
        exact inBlock_add (Nat.succ_lt_succ hk) (Nat.le_of_lt hn)
    · rcases h with rfl | hout
      · exact .inl rfl
      · refine .inr ?_
        rw [InBlock] at hout ⊢
        bv_omega

/-- Copying downwards is right if the source does not start inside the destination. -/
lemma copyDown_moved (hn : n < 0x100000000) (h : src = dst ∨ ¬ InBlock dst n src) :
    Moved dst src n m (copyDown n m (dst + BitVec.ofNat 32 n) (src + BitVec.ofNat 32 n)) := by
  induction n generalizing m with
  | zero => exact moved_zero
  | succ n ih =>
    have hpred : ∀ a : Word, a + BitVec.ofNat 32 (n + 1) - 1 = a + BitVec.ofNat 32 n := by
      intro a
      rw [BitVec.ofNat_add, ← BitVec.add_assoc]
      exact BitVec.add_sub_cancel _ _
    have hout : src = dst ∨ ¬ InBlock dst n src := h.imp_right fun hout hin => hout (Nat.lt_succ_of_lt hin)
    rw [copyDown, hpred, hpred]
    apply Moved.last (ih (Nat.lt_of_succ_lt hn) hout) (Nat.lt_of_succ_lt hn)
    intro k hk heq
    rcases h with rfl | hout
    · bv_omega
    · rw [InBlock] at hout
      bv_omega

/-- The destination starts inside the source, behind its first byte. -/
def Clobbers (dst src : Word) (n : Nat) : Prop := src.toNat < dst.toNat ∧ dst.toNat < src.toNat + n

instance (dst src : Word) (n : Nat) : Decidable (Clobbers dst src n) := inferInstanceAs (Decidable (_ ∧ _))

/-- A memory in which every byte is its own address. -/
def identityMemory : Word → Byte := fun x => x.setWidth 8

end Xv6.Lib
