import Mathlib.Logic.Function.Basic
import Mathlib.Tactic.Common

/-!
# Tables of slots

A table has slots that are empty or hold a key with its value. If no two slots hold the same key, it stands
for a map. A new key may go to any empty slot, and to forget a key its slot is emptied; either way the map
changes at that key only.
-/

namespace Machine

open Function

variable {ι K V : Type*} {f : ι → Option (K × V)} {i : ι} {k : K} {v : V}

/-- No two slots hold the same key. -/
def DistinctKeys (f : ι → Option (K × V)) : Prop :=
  ∀ ⦃i j k v w⦄, f i = some (k, v) → f j = some (k, w) → i = j

open Classical in
/-- The map that a table stands for. -/
noncomputable def toMap (f : ι → Option (K × V)) (k : K) : Option V :=
  if h : ∃ v i, f i = some (k, v) then some h.choose else none

lemma toMap_eq_none : toMap f k = none ↔ ∀ i v, f i ≠ some (k, v) := by
  rw [toMap]
  split_ifs with h
  · obtain ⟨v, i, hi⟩ := h
    simp only [false_iff]
    exact fun hno => hno i v hi
  · simp only [true_iff]
    exact fun i v hi => h ⟨v, i, hi⟩

lemma DistinctKeys.toMap_eq_some (h : DistinctKeys f) : toMap f k = some v ↔ ∃ i, f i = some (k, v) := by
  rw [toMap]
  split_ifs with hk
  · obtain ⟨i, hi⟩ := hk.choose_spec
    constructor
    · intro heq
      cases heq
      exact ⟨i, hi⟩
    · rintro ⟨j, hj⟩
      obtain rfl := h hi hj
      rw [hj] at hi
      cases hi
      rfl
  · simp only [false_iff]
    exact fun hex => hk ⟨v, hex⟩

section Insert

variable [DecidableEq ι]

/-- The slots with a key after one slot has changed. -/
lemma update_eq_some {x : Option (K × V)} {j : ι} {y : K × V} :
    update f i x j = some y ↔ j = i ∧ x = some y ∨ j ≠ i ∧ f j = some y := by
  by_cases hji : j = i
  · subst hji
    simp
  · simp [hji]

section

variable (h : DistinctKeys f)

include h

/-- A new key goes to an empty slot. -/
lemma DistinctKeys.insert (hk : toMap f k = none) :
    DistinctKeys (update f i (some (k, v))) := by
  have hnew := toMap_eq_none.mp hk
  intro a b l w w' ha hb
  rw [update_eq_some] at ha hb
  rcases ha with ⟨rfl, ha⟩ | ⟨-, ha⟩ <;> rcases hb with ⟨rfl, hb⟩ | ⟨-, hb⟩
  · rfl
  · cases ha
    exact absurd hb (hnew b w')
  · cases hb
    exact absurd ha (hnew a w)
  · exact h ha hb

/-- A slot changes that has key `k`, or no key, before and after. -/
lemma DistinctKeys.toMap_update [DecidableEq K] {x : Option (K × V)}
    (h' : DistinctKeys (update f i x)) (hi : ∀ l w, f i = some (l, w) → l = k)
    (hx : ∀ l w, x = some (l, w) → l = k) (hk : ∀ j w, j ≠ i → f j ≠ some (k, w)) :
    toMap (update f i x) = update (toMap f) k (x.map Prod.snd) := by
  funext l
  apply Option.ext
  intro w
  rw [h'.toMap_eq_some]
  simp only [update_eq_some]
  by_cases hl : l = k
  · subst hl
    rw [update_self]
    constructor
    · rintro ⟨j, ⟨-, rfl⟩ | ⟨hji, hj⟩⟩
      · rfl
      · exact absurd hj (hk j w hji)
    · intro heq
      obtain ⟨⟨l', w'⟩, rfl, rfl⟩ := Option.map_eq_some_iff.mp heq
      exact ⟨i, .inl ⟨rfl, by rw [hx l' w' rfl]⟩⟩
  · rw [update_of_ne hl, h.toMap_eq_some]
    constructor
    · rintro ⟨j, ⟨-, heq⟩ | ⟨-, hj⟩⟩
      · exact absurd (hx l w heq) hl
      · exact ⟨j, hj⟩
    · rintro ⟨j, hj⟩
      refine ⟨j, .inr ⟨?_, hj⟩⟩
      rintro rfl
      exact hl (hi l w hj)

lemma DistinctKeys.toMap_insert [DecidableEq K] (hi : f i = none)
    (hk : toMap f k = none) : toMap (update f i (some (k, v))) = update (toMap f) k (some v) := by
  refine h.toMap_update (h.insert hk) ?_ ?_ fun j w _ => toMap_eq_none.mp hk j w
  · intro l w heq
    cases hi.symm.trans heq
  · rintro l w ⟨⟩
    rfl

/-- A slot is emptied. -/
lemma DistinctKeys.erase (i : ι) : DistinctKeys (update f i none) := by
  intro a b l w w' ha hb
  rw [update_eq_some] at ha hb
  rcases ha with ⟨-, ha⟩ | ⟨-, ha⟩
  · cases ha
  · rcases hb with ⟨-, hb⟩ | ⟨-, hb⟩
    · cases hb
    · exact h ha hb

lemma DistinctKeys.toMap_erase [DecidableEq K] (hi : f i = some (k, v)) :
    toMap (update f i none) = update (toMap f) k none := by
  refine h.toMap_update (h.erase i) ?_ ?_ fun j w hji hj => hji (h hj hi)
  · intro l w heq
    cases hi.symm.trans heq
    rfl
  · rintro l w ⟨⟩

end

end Insert

end Machine
