import Mathlib.Tactic.Common

/-!
# Exclusive ownership

Agents hold at most one thing each, and no thing has two holders. A step in which one agent lets go
of what it holds, or takes something that nobody holds, keeps this.
-/

namespace Machine

variable {ι κ : Type*} {own own' : ι → Option κ}

/-- No two agents hold the same thing. -/
def Exclusive (own : ι → Option κ) : Prop :=
  ∀ a b k, own a = some k → own b = some k → a = b

lemma exclusive_none : Exclusive fun _ : ι => (none : Option κ) := by
  intro a b k ha
  cases ha

/-- Agent `a` keeps what it held or takes something free, and the others take nothing. -/
lemma Exclusive.step {a : ι} (h : Exclusive own)
    (hother : ∀ b, b ≠ a → ∀ k, own' b = some k → own b = some k)
    (hself : ∀ k, own' a = some k → own a = some k ∨ ∀ b, own b ≠ some k) : Exclusive own' := by
  intro b d k hb hd
  by_cases hba : b = a
  · subst hba
    by_cases hdb : d = b
    · exact hdb.symm
    · have hd' := hother d hdb k hd
      rcases hself k hb with hb' | hfree
      · exact h b d k hb' hd'
      · exact absurd hd' (hfree d)
  · have hb' := hother b hba k hb
    by_cases hda : d = a
    · subst hda
      rcases hself k hd with hd' | hfree
      · exact h b d k hb' hd'
      · exact absurd hb' (hfree b)
    · exact h b d k hb' (hother d hda k hd)

end Machine
