import Mathlib.Tactic.Common

/-!
# Byte buffers with little-endian words

A buffer of `n` bytes, read and written as 32-bit words in little-endian order. Word `i` occupies
bytes `4 * i` to `4 * i + 3`. A sequence of bytes is also read and written as the fields of a record, at
any offset.
-/

namespace Machine

open BitVec

abbrev Byte := BitVec 8
abbrev Short := BitVec 16
abbrev Word := BitVec 32

/-- A character constant. -/
def chr (x : Char) : Byte := BitVec.ofNat 8 x.toNat

/-! ### Fields of a record -/

/-- The 16-bit field at byte `o`. -/
def shortAt (f : Nat → Byte) (o : Nat) : Short := f (o + 1) ++ f o

/-- The 32-bit field at byte `o`. -/
def wordAt (f : Nat → Byte) (o : Nat) : Word := f (o + 3) ++ f (o + 2) ++ f (o + 1) ++ f o

/-- Byte `k` of a field, from the lowest. -/
def byteOf {w : Nat} (v : BitVec w) (k : Nat) : Byte := v.extractLsb' (8 * k) 8

lemma shortAt_eq {f : Nat → Byte} {o : Nat} {v : Short} (h : ∀ k < 2, f (o + k) = byteOf v k) :
    shortAt f o = v := by
  rw [shortAt, h 1 (by omega), ← Nat.add_zero o, h 0 (by omega)]
  ext k hk
  simp only [byteOf, getElem_append, getElem_extractLsb']
  split_ifs <;> rw [getLsbD_eq_getElem (by omega)] <;> congr 1 <;> omega

lemma wordAt_eq {f : Nat → Byte} {o : Nat} {v : Word} (h : ∀ k < 4, f (o + k) = byteOf v k) :
    wordAt f o = v := by
  rw [wordAt, h 3 (by omega), h 2 (by omega), h 1 (by omega), ← Nat.add_zero o, h 0 (by omega)]
  ext k hk
  simp only [byteOf, getElem_append, getElem_extractLsb']
  split_ifs <;> rw [getLsbD_eq_getElem (by omega)] <;> congr 1 <;> omega

lemma shortAt_congr {f g : Nat → Byte} {o : Nat} (h : ∀ k < 2, f (o + k) = g (o + k)) :
    shortAt f o = shortAt g o := by
  rw [shortAt, shortAt, h 1 (by omega), ← Nat.add_zero o, h 0 (by omega)]

lemma wordAt_congr {f g : Nat → Byte} {o : Nat} (h : ∀ k < 4, f (o + k) = g (o + k)) :
    wordAt f o = wordAt g o := by
  rw [wordAt, wordAt, h 3 (by omega), h 2 (by omega), h 1 (by omega), ← Nat.add_zero o, h 0 (by omega)]

/-! ### Buffers -/

abbrev Bytes (n : Nat) := Fin n → Byte

namespace Bytes

variable {n : Nat}

/-- The byte at offset `k`; past the end of the buffer there is nothing to read. -/
def byte (b : Bytes n) (k : Nat) : Byte := if h : k < n then b ⟨k, h⟩ else 0

/-- The word at word index `i`. -/
def getInt (b : Bytes n) (i : Nat) : Word :=
  b.byte (4 * i + 3) ++ b.byte (4 * i + 2) ++ b.byte (4 * i + 1) ++ b.byte (4 * i)

/-- Store a word at word index `i`. -/
def putInt (b : Bytes n) (i : Nat) (v : Word) : Bytes n :=
  fun j => if j.val / 4 = i then v.extractLsb' (8 * (j.val % 4)) 8 else b j

lemma byte_putInt_self (b : Bytes n) {i k : Nat} (v : Word) (hk : k < 4) (hn : 4 * i + 4 ≤ n) :
    (b.putInt i v).byte (4 * i + k) = v.extractLsb' (8 * k) 8 := by
  have hlt : 4 * i + k < n := by omega
  have hdiv : (4 * i + k) / 4 = i := by omega
  have hmod : (4 * i + k) % 4 = k := by omega
  simp [byte, putInt, hlt, hdiv, hmod]

lemma byte_putInt_of_ne (b : Bytes n) {i j k : Nat} (v : Word) (hij : j ≠ i) (hk : k < 4) :
    (b.putInt i v).byte (4 * j + k) = b.byte (4 * j + k) := by
  have hdiv : (4 * j + k) / 4 ≠ i := by omega
  simp [byte, putInt, hdiv]

/-- A word stored inside the buffer is read back. -/
@[simp] lemma getInt_putInt_self (b : Bytes n) {i : Nat} (v : Word) (hn : 4 * i + 4 ≤ n) :
    (b.putInt i v).getInt i = v := by
  have h0 := byte_putInt_self b v (k := 0) (by omega) hn
  rw [Nat.add_zero] at h0
  rw [getInt, byte_putInt_self b v (by omega) hn, byte_putInt_self b v (by omega) hn,
    byte_putInt_self b v (by omega) hn, h0]
  ext k hk
  simp only [getElem_append, getElem_extractLsb']
  split_ifs <;> rw [getLsbD_eq_getElem (by omega)] <;> congr 1 <;> omega

/-- Storing a word leaves the other words as they were. -/
lemma getInt_putInt_of_ne (b : Bytes n) {i j : Nat} (v : Word) (hij : j ≠ i) :
    (b.putInt i v).getInt j = b.getInt j := by
  have h0 := byte_putInt_of_ne b v hij (k := 0) (by omega)
  rw [Nat.add_zero] at h0
  rw [getInt, byte_putInt_of_ne b v hij (by omega), byte_putInt_of_ne b v hij (by omega),
    byte_putInt_of_ne b v hij (by omega), h0, getInt]

/-- The buffer with `m` bytes of `f` from byte `o` on. -/
def overwrite (b : Bytes n) (o m : Nat) (f : Nat → Byte) : Bytes n :=
  fun j => if o ≤ j.val ∧ j.val < o + m then f (j.val - o) else b j

lemma byte_overwrite_of_mem (b : Bytes n) {o m k : Nat} (f : Nat → Byte) (hk : k < m)
    (hn : o + m ≤ n) : (b.overwrite o m f).byte (o + k) = f k := by
  have hlt : o + k < n := by omega
  simp [byte, overwrite, hlt, hk]

lemma byte_overwrite_of_notMem (b : Bytes n) {o m k : Nat} (f : Nat → Byte)
    (hk : k < o ∨ o + m ≤ k) : (b.overwrite o m f).byte k = b.byte k := by
  have hmem : ¬ (o ≤ k ∧ k < o + m) := by omega
  simp [byte, overwrite, hmem]

end Bytes

end Machine
