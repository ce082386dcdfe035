import Xv6.Machine.Bytes
import Xv6.Machine.Hoare

/-!
# Loops that count up

A loop over the values of a machine word below a limit. The body gives the next value, or leaves the loop.
A loop whose variable passes the largest word would start again from small values; here it stops with an
error. The rule for these loops has an invariant that may depend on the variable.
-/

namespace Machine

variable {σ ε : Type} {E : ε → Prop} {e : ε} {lim a : Word} {s : σ}
  {body : Word → StateT σ (Except ε) (Option Word)} {I : Word → σ → Prop} {Q : σ → Prop}

/-- The loop from `a` on; `false` if the body left it. -/
def forBelow (e : ε) (lim : Word) (body : Word → StateT σ (Except ε) (Option Word)) (a : Word) :
    StateT σ (Except ε) Bool :=
  if _h : a < lim then do
    match ← body a with
    | none => pure false
    | some a' => if _h' : a < a' then forBelow e lim body a' else throw e
  else pure true
termination_by lim.toNat - a.toNat
decreasing_by bv_omega

/-- The invariant holds at the first value that is not below the limit, or `Q` where the loop is left. -/
lemma Ends.forBelow (h : I a s)
    (hbody : ∀ a s, a < lim → I a s → Ends (body a) s E fun r t =>
      (r = none ∧ Q t) ∨ ∃ a', r = some a' ∧ a < a' ∧ I a' t) :
    Ends (forBelow e lim body a) s E fun r t =>
      (r = false ∧ Q t) ∨ (r = true ∧ ∃ a', lim ≤ a' ∧ I a' t) := by
  induction a using forBelow.induct lim generalizing s with
  | case1 a ha ih =>
    rw [Machine.forBelow, dif_pos ha]
    refine Ends.bind (hbody a s ha h) ?_
    rintro r t (⟨rfl, hQ⟩ | ⟨a', rfl, hlt, hI⟩)
    · exact Ends.pure (Or.inl ⟨rfl, hQ⟩)
    · simp only [dif_pos hlt]
      exact ih a' hlt hI
  | case2 a ha =>
    rw [Machine.forBelow, dif_neg ha]
    exact Ends.pure (Or.inr ⟨rfl, a, BitVec.not_lt.mp ha, h⟩)

/-! ### Runs -/

lemma forBelow_of_ge (h : lim ≤ a) : Machine.forBelow e lim body a s = .ok (true, s) := by
  rw [Machine.forBelow, dif_neg (BitVec.not_lt.mpr h)]
  rfl

lemma forBelow_of_ok {a' : Word} {t : σ} (h : a < lim) (hbody : body a s = .ok (some a', t)) (hlt : a < a') :
    Machine.forBelow e lim body a s = Machine.forBelow e lim body a' t := by
  rw [Machine.forBelow, dif_pos h]
  show (body a s >>= _) = _
  rw [hbody]
  exact congrFun (dif_pos hlt) t

lemma forBelow_of_error {x : ε} (h : a < lim) (hbody : body a s = .error x) :
    Machine.forBelow e lim body a s = .error x := by
  rw [Machine.forBelow, dif_pos h]
  show (body a s >>= _) = _
  rw [hbody]
  rfl

end Machine
