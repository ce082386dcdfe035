import Mathlib.Tactic.Common

/-!
# Words as sets of bits

A word of width `w` as the set of its bits: a single bit, adding a bit, removing one, and
inclusion of one word in another.
-/

namespace Machine

open BitVec

variable {w : Nat} {u v x : BitVec w} {i j : Fin w}

/-- The word whose only bit is `i`. -/
def bit (i : Fin w) : BitVec w := 1#w <<< i.val

def hasBit (v : BitVec w) (i : Fin w) : Bool := v.getLsbD i.val

def setBit (v : BitVec w) (i : Fin w) : BitVec w := v ||| bit i

def clearBit (v : BitVec w) (i : Fin w) : BitVec w := v &&& ~~~(bit i)

lemma shift_lt (v : BitVec 32) : v.toNat % 32 < 32 := Nat.mod_lt _ (by decide)

lemma hasBit_bit (i j : Fin w) : hasBit (bit i) j = decide (i = j) := by
  rw [hasBit, bit, ← twoPow_eq, getLsbD_twoPow]
  simp [Fin.ext_iff]

lemma hasBit_setBit (v : BitVec w) (i j : Fin w) :
    hasBit (setBit v i) j = (hasBit v j || decide (i = j)) := by
  have hbit := hasBit_bit i j
  rw [hasBit] at hbit
  rw [hasBit, setBit, getLsbD_or, hbit, hasBit]

lemma hasBit_clearBit (v : BitVec w) (i j : Fin w) :
    hasBit (clearBit v i) j = (hasBit v j && !decide (i = j)) := by
  have hbit := hasBit_bit i j
  rw [hasBit] at hbit
  rw [hasBit, clearBit, getLsbD_and, getLsbD_not, hbit, hasBit]
  simp

lemma hasBit_or (u v : BitVec w) (i : Fin w) : hasBit (u ||| v) i = (hasBit u i || hasBit v i) :=
  getLsbD_or

@[simp] lemma hasBit_zero (i : Fin w) : hasBit 0#w i = false := by
  simp [hasBit]

@[simp] lemma hasBit_setBit_self (v : BitVec w) (i : Fin w) : hasBit (setBit v i) i = true := by
  simp [hasBit_setBit]

@[simp] lemma hasBit_clearBit_self (v : BitVec w) (i : Fin w) : hasBit (clearBit v i) i = false := by
  simp [hasBit_clearBit]

lemma hasBit_setBit_of_ne (v : BitVec w) (h : i ≠ j) : hasBit (setBit v i) j = hasBit v j := by
  simp [hasBit_setBit, h]

lemma hasBit_clearBit_of_ne (v : BitVec w) (h : i ≠ j) : hasBit (clearBit v i) j = hasBit v j := by
  simp [hasBit_clearBit, h]

/-- Every bit of `u` is a bit of `v`. -/
def Included (u v : BitVec w) : Prop := ∀ i, hasBit u i = true → hasBit v i = true

instance (u v : BitVec w) : Decidable (Included u v) := inferInstanceAs (Decidable (∀ _, _))

lemma included_zero (v : BitVec w) : Included 0#w v := by
  intro i hi
  simp at hi

/-- Adding a bit to both sides, where the larger side may have lost it. -/
lemma Included.setBit (h : Included u x) (hx : Included x (setBit v i)) :
    Included (setBit u i) (setBit v i) := by
  intro j hj
  by_cases hij : i = j
  · subst hij
    exact hasBit_setBit_self v i
  · rw [hasBit_setBit_of_ne u hij] at hj
    exact hx j (h j hj)

/-- Removing a bit from both sides. -/
lemma Included.clearBit (h : Included u x) (hx : Included x (Machine.setBit v i)) :
    Included (clearBit u i) (clearBit v i) := by
  intro j hj
  by_cases hij : i = j
  · subst hij
    simp at hj
  · rw [hasBit_clearBit_of_ne u hij] at hj
    have hjx := hx j (h j hj)
    rw [hasBit_setBit_of_ne v hij] at hjx
    rwa [hasBit_clearBit_of_ne v hij]

end Machine
