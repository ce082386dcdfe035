import Mathlib.Data.Nat.ModEq
import Mathlib.Tactic.Common

/-!
# Ring buffers with wrapping counters

A ring of `N` cells and counters of `w` bits that only go up: cell `c mod N` is the one for count
`c`. The counters wrap at `2 ^ w`, which does no harm when `N` divides it.
-/

namespace Machine

open Function

namespace Ring

variable {α : Type*} {w N : Nat} [NeZero N] {data : Fin N → α} {r c : BitVec w} {n j : Nat} {b : α}

/-- The cell for count `c`. -/
def index (N : Nat) [NeZero N] (c : BitVec w) : Fin N := Fin.ofNat N c.toNat

def contents (data : Fin N → α) (r : BitVec w) : Nat → List α
  | 0 => []
  | n + 1 => data (index N r) :: contents data (r + 1) n

lemma index_add (hN : N ∣ 2 ^ w) (r : BitVec w) (j : Nat) :
    (index N (r + BitVec.ofNat w j)).val = (r.toNat + j) % N := by
  simp only [index, Fin.val_ofNat, BitVec.toNat_add, BitVec.toNat_ofNat]
  rw [Nat.mod_mod_of_dvd _ hN, Nat.add_mod, Nat.mod_mod_of_dvd _ hN, ← Nat.add_mod]

/-- Counts that are less than `N` apart have different cells. -/
lemma index_ne (hN : N ∣ 2 ^ w) (hj : j < n) (hn : n < N) :
    index N (r + BitVec.ofNat w j) ≠ index N (r + BitVec.ofNat w n) := by
  intro h
  have hmod : r.toNat + j ≡ r.toNat + n [MOD N] := by
    rw [Nat.ModEq, ← index_add hN, ← index_add hN, h]
  have hjn := Nat.ModEq.add_left_cancel' _ hmod
  exact absurd (Nat.ModEq.eq_of_lt_of_lt hjn (hj.trans hn) hn) hj.ne

lemma add_ofNat_succ (r : BitVec w) (j : Nat) : r + BitVec.ofNat w (j + 1) = r + 1 + BitVec.ofNat w j := by
  rw [BitVec.add_assoc, BitVec.add_comm 1, BitVec.ofNat_add]
  rfl

lemma contents_succ (data : Fin N → α) (r : BitVec w) (n : Nat) :
    contents data r (n + 1) = contents data r n ++ [data (index N (r + BitVec.ofNat w n))] := by
  induction n generalizing r with
  | zero => simp [contents]
  | succ n ih => rw [contents, ih, contents, List.cons_append, add_ofNat_succ]

/-- The first `m` of the cells. -/
lemma take_contents (data : Fin N → α) (r : BitVec w) (m n : Nat) :
    (contents data r (m + n)).take m = contents data r m := by
  induction m generalizing r with
  | zero => rfl
  | succ m ih => rw [Nat.succ_add, contents, List.take_succ_cons, ih, contents]

/-- The cells after the first `m`. -/
lemma drop_contents (data : Fin N → α) (r : BitVec w) (m n : Nat) :
    (contents data r (m + n)).drop m = contents data (r + BitVec.ofNat w m) n := by
  induction m generalizing r with
  | zero => simp
  | succ m ih => rw [Nat.succ_add, contents, List.drop_succ_cons, ih, add_ofNat_succ]

/-- A store to another cell does not change the contents. -/
lemma contents_update {i : Fin N} (h : ∀ j < n, index N (r + BitVec.ofNat w j) ≠ i) :
    contents (update data i b) r n = contents data r n := by
  induction n with
  | zero => rfl
  | succ n ih =>
    rw [contents_succ, contents_succ, ih fun j hj => h j (Nat.lt_succ_of_lt hj),
      update_of_ne (h n (Nat.lt_succ_self n))]

/-- A store to the cell after the last one appends. -/
lemma contents_push (hN : N ∣ 2 ^ w) (hn : n < N) (hc : c = r + BitVec.ofNat w n) :
    contents (update data (index N c) b) r (n + 1) = contents data r n ++ [b] := by
  subst hc
  rw [contents_succ, contents_update fun j hj => index_ne hN hj hn, update_self]

end Ring

end Machine
