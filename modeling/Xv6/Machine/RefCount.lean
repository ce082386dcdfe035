import Mathlib.Data.Finset.Card

/-!
# Reference counts

Places, each of which may point to an object, and the number of places that point to one. There may
be infinitely many places, as long as only finitely many point to the object.
-/

namespace Machine

variable {ι κ : Type*} {m : ι → Option κ} {a : ι} {k : κ} {v : Option κ} {n n' : Nat}

/-- Exactly `n` of the places point to `k`. -/
def RefCount (m : ι → Option κ) (k : κ) (n : Nat) : Prop :=
  ∃ holders : Finset ι, (∀ a, a ∈ holders ↔ m a = some k) ∧ holders.card = n

lemma refCount_none : RefCount (fun _ : ι => none) k 0 :=
  ⟨∅, fun a => by simp, Finset.card_empty⟩

lemma RefCount.pos (h : RefCount m k n) (ha : m a = some k) : 0 < n := by
  obtain ⟨holders, hmem, rfl⟩ := h
  exact Finset.card_pos.mpr ⟨a, (hmem a).mpr ha⟩

variable [DecidableEq ι]

/-- A place that pointed elsewhere points to `k`. -/
lemma RefCount.take (h : RefCount m k n) (ha : m a ≠ some k) :
    RefCount (Function.update m a (some k)) k (n + 1) := by
  obtain ⟨holders, hmem, rfl⟩ := h
  refine ⟨insert a holders, fun b => ?_, Finset.card_insert_of_notMem fun h => ha ((hmem a).mp h)⟩
  rw [Finset.mem_insert, hmem]
  by_cases hb : b = a
  · subst hb
    simp
  · simp [hb]

/-- A place that pointed to `k` points elsewhere. -/
lemma RefCount.drop (h : RefCount m k (n + 1)) (ha : m a = some k) (hv : v ≠ some k) :
    RefCount (Function.update m a v) k n := by
  obtain ⟨holders, hmem, hcard⟩ := h
  refine ⟨holders.erase a, fun b => ?_, ?_⟩
  · rw [Finset.mem_erase, hmem]
    by_cases hb : b = a
    · subst hb
      simp [hv]
    · simp [hb]
  · rw [Finset.card_erase_of_mem ((hmem a).mpr ha), hcard, Nat.add_sub_cancel]

/-- A place that did not point to `k` still does not. -/
lemma RefCount.other (h : RefCount m k n) (ha : m a ≠ some k) (hv : v ≠ some k) :
    RefCount (Function.update m a v) k n := by
  obtain ⟨holders, hmem, hcard⟩ := h
  refine ⟨holders, fun b => ?_, hcard⟩
  rw [hmem]
  by_cases hb : b = a
  · subst hb
    simp [ha, hv]
  · simp [hb]

end Machine
