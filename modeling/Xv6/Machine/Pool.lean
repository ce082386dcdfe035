import Mathlib.Order.BooleanAlgebra.Set

/-!
# A pool of resources

Resources are free or held at a place. The pool is the set of all of them: it only changes when one comes
from outside or goes there. Moving a resource between the free list and a place goes through outside.
-/

namespace Machine

open List

variable {ι κ : Type*} {U : Set κ} {own own' : ι → κ → Prop} {free : List κ} {x : ι} {f : κ}

/-- Every resource of `U`, and no other, is held at one place or free once. -/
structure Pool (U : Set κ) (own : ι → κ → Prop) (free : List κ) : Prop where
  inj : ∀ {x y f}, own x f → own y f → x = y
  nodup : free.Nodup
  notMem : ∀ {x f}, own x f → f ∉ free
  mem_iff : ∀ {f}, f ∈ U ↔ (∃ x, own x f) ∨ f ∈ free

lemma Pool.mem_of_own (h : Pool U own free) (hx : own x f) : f ∈ U := h.mem_iff.mpr (Or.inl ⟨x, hx⟩)

lemma Pool.mem_of_free (h : Pool U own free) (hf : f ∈ free) : f ∈ U := h.mem_iff.mpr (Or.inr hf)

lemma Pool.congr (h : Pool U own free) (hown : ∀ x f, own' x f ↔ own x f) : Pool U own' free := by
  have heq : own' = own := funext fun x => funext fun f => propext (hown x f)
  rw [heq]
  exact h

def AtMost (n : Nat) (U : Set κ) : Prop := ∃ l : List κ, l.length ≤ n ∧ ∀ f ∈ U, f ∈ l

lemma AtMost.mono {m n : Nat} (h : AtMost m U) (hmn : m ≤ n) : AtMost n U := by
  obtain ⟨l, hlen, hl⟩ := h
  exact ⟨l, Nat.le_trans hlen hmn, hl⟩

lemma AtMost.insert {n : Nat} (h : AtMost n (U \ {f})) : AtMost (n + 1) U := by
  obtain ⟨l, hlen, hl⟩ := h
  refine ⟨f :: l, Nat.succ_le_succ hlen, ?_⟩
  intro g hg
  by_cases hgf : g = f
  · exact mem_cons.mpr (Or.inl hgf)
  · exact mem_cons_of_mem f (hl g ⟨hg, hgf⟩)

/-- Nothing is held. -/
lemma pool_of_free (hfree : free.Nodup) (hown : ∀ x f, ¬ own x f) : Pool {f | f ∈ free} own free where
  inj hx := absurd hx (hown _ _)
  nodup := hfree
  notMem hx := absurd hx (hown _ _)
  mem_iff := ⟨Or.inr, fun h => h.resolve_left fun ⟨x, hx⟩ => hown x _ hx⟩

/-- The first free resource leaves the pool. -/
lemma Pool.alloc (h : Pool U own (f :: free)) : Pool (U \ {f}) own free where
  inj := h.inj
  nodup := h.nodup.of_cons
  notMem hx hmem := h.notMem hx (mem_cons_of_mem f hmem)
  mem_iff {g} := by
    rw [Set.mem_sdiff, Set.mem_singleton_iff, h.mem_iff, mem_cons]
    constructor
    · rintro ⟨hx | rfl | hg, hne⟩
      · exact Or.inl hx
      · exact absurd rfl hne
      · exact Or.inr hg
    · rintro (⟨x, hx⟩ | hg)
      · refine ⟨Or.inl ⟨x, hx⟩, ?_⟩
        rintro rfl
        exact h.notMem hx mem_cons_self
      · refine ⟨Or.inr (Or.inr hg), ?_⟩
        rintro rfl
        exact (nodup_cons.mp h.nodup).1 hg

/-- A resource from outside becomes free. -/
lemma Pool.release (h : Pool U own free) (hf : f ∉ U) : Pool (insert f U) own (f :: free) where
  inj := h.inj
  nodup := nodup_cons.mpr ⟨fun hmem => hf (h.mem_of_free hmem), h.nodup⟩
  notMem hx hmem := by
    rcases mem_cons.mp hmem with rfl | hmem
    · exact hf (h.mem_of_own hx)
    · exact h.notMem hx hmem
  mem_iff {g} := by
    rw [Set.mem_insert_iff, h.mem_iff, mem_cons]
    exact or_left_comm

/-- A place takes a resource from outside. -/
lemma Pool.take (h : Pool U own free) (hf : f ∉ U)
    (hown : ∀ y g, own' y g ↔ own y g ∨ (y = x ∧ g = f)) : Pool (insert f U) own' free where
  inj {y z g} hy hz := by
    rw [hown] at hy hz
    rcases hy with hy | ⟨rfl, rfl⟩ <;> rcases hz with hz | ⟨rfl, hg⟩
    · exact h.inj hy hz
    · exact absurd (h.mem_of_own (hg ▸ hy)) hf
    · exact absurd (h.mem_of_own hz) hf
    · rfl
  nodup := h.nodup
  notMem {y g} hy hmem := by
    rw [hown] at hy
    rcases hy with hy | ⟨rfl, rfl⟩
    · exact h.notMem hy hmem
    · exact hf (h.mem_of_free hmem)
  mem_iff {g} := by
    rw [Set.mem_insert_iff, h.mem_iff]
    constructor
    · rintro (rfl | ⟨y, hy⟩ | hmem)
      · exact Or.inl ⟨x, (hown x g).mpr (Or.inr ⟨rfl, rfl⟩)⟩
      · exact Or.inl ⟨y, (hown y g).mpr (Or.inl hy)⟩
      · exact Or.inr hmem
    · rintro (⟨y, hy⟩ | hmem)
      · rcases (hown y g).mp hy with hy | ⟨-, rfl⟩
        · exact Or.inr (Or.inl ⟨y, hy⟩)
        · exact Or.inl rfl
      · exact Or.inr (Or.inr hmem)

/-- What a place holds leaves the pool. -/
lemma Pool.drop (h : Pool U own free) (hx : own x f)
    (hown : ∀ y g, own' y g ↔ own y g ∧ g ≠ f) : Pool (U \ {f}) own' free where
  inj hy hz := h.inj ((hown _ _).mp hy).1 ((hown _ _).mp hz).1
  nodup := h.nodup
  notMem hy := h.notMem ((hown _ _).mp hy).1
  mem_iff {g} := by
    rw [Set.mem_sdiff, Set.mem_singleton_iff, h.mem_iff]
    constructor
    · rintro ⟨⟨y, hy⟩ | hmem, hne⟩
      · exact Or.inl ⟨y, (hown y g).mpr ⟨hy, hne⟩⟩
      · exact Or.inr hmem
    · rintro (⟨y, hy⟩ | hmem)
      · obtain ⟨hy, hne⟩ := (hown y g).mp hy
        exact ⟨Or.inl ⟨y, hy⟩, hne⟩
      · refine ⟨Or.inr hmem, ?_⟩
        rintro rfl
        exact h.notMem hx hmem

/-! ### Two holders -/

section Two

variable {ι' : Type*} {other : ι' → κ → Prop} {free' free'' : List κ}

lemma Pool.reorder (h : Pool U own free) (hnodup : free'.Nodup) (hfree : ∀ f, f ∈ free' ↔ f ∈ free) :
    Pool U own free' where
  inj := h.inj
  nodup := hnodup
  notMem hx hmem := h.notMem hx ((hfree _).mp hmem)
  mem_iff {f} := by rw [h.mem_iff, hfree]

/-- What is left for the first holder when a second one has taken some of the free resources. -/
lemma Pool.rest (h : Pool U own free) (h' : Pool {f | f ∈ free} other free') :
    Pool {f | (∃ x, own x f) ∨ f ∈ free'} own free' where
  inj := h.inj
  nodup := h'.nodup
  notMem hx hmem := h.notMem hx (h'.mem_of_free hmem)
  mem_iff := Iff.rfl

/-- A resource of the second holder is not among them. -/
lemma Pool.notMem_rest (h : Pool U own free) (h' : Pool {f | f ∈ free} other free') {x : ι'}
    (hx : other x f) : f ∉ {f | (∃ x, own x f) ∨ f ∈ free'} := by
  rintro (⟨y, hy⟩ | hmem)
  · exact h.notMem hy (h'.mem_of_own hx)
  · exact h'.notMem hx hmem

/-- The second holder alone, after the first one has freed everything. -/
lemma Pool.handover {none : ι → κ → Prop} (hnone : ∀ x f, ¬ none x f) (h : Pool U own free)
    (h' : Pool {f | f ∈ free} other free')
    (h'' : Pool {f | (∃ x, own x f) ∨ f ∈ free'} none free'') : Pool U other free'' where
  inj := h'.inj
  nodup := h''.nodup
  notMem hx hmem := h.notMem_rest h' hx (h''.mem_of_free hmem)
  mem_iff {f} := by
    have hfree : f ∈ free'' ↔ (∃ x, own x f) ∨ f ∈ free' := by
      have hiff := h''.mem_iff (f := f)
      constructor
      · intro hmem
        exact hiff.mpr (Or.inr hmem)
      · intro hmem
        exact (hiff.mp hmem).resolve_left fun ⟨x, hx⟩ => hnone x f hx
    have hold : f ∈ free ↔ (∃ x, other x f) ∨ f ∈ free' := h'.mem_iff
    rw [h.mem_iff, hfree, hold]
    exact or_left_comm

end Two

/-! ### One of many holders -/

section Part

variable {β : Type*} {g : β → ι} {own₁ : β → κ → Prop} {free' : List κ}

/-- What the places `g` hold and what is free. -/
def share (own : ι → κ → Prop) (g : β → ι) (free : List κ) : Set κ := {f | (∃ y, own (g y) f) ∨ f ∈ free}

lemma Pool.part (h : Pool U own free) (hg : g.Injective) :
    Pool (share own g free) (fun y => own (g y)) free where
  inj hx hy := hg (h.inj hx hy)
  nodup := h.nodup
  notMem := h.notMem
  mem_iff := Iff.rfl

lemma Pool.share_subset (h : Pool U own free) : share own g free ⊆ U := by
  rintro f (⟨y, hy⟩ | hf)
  · exact h.mem_of_own hy
  · exact h.mem_of_free hf

lemma Pool.notMem_share (h : Pool U own free) (hne : ∀ y, g y ≠ x) (hx : own x f) :
    f ∉ share own g free := by
  rintro (⟨y, hy⟩ | hf)
  · exact hne y (h.inj hy hx)
  · exact h.notMem hx hf

/-- The places `g` make another use of their share. -/
lemma Pool.replace (h : Pool U own free) (h' : Pool (share own g free) own₁ free')
    (hin : ∀ y f, own' (g y) f ↔ own₁ y f) (hout : ∀ x f, (∀ y, g y ≠ x) → (own' x f ↔ own x f)) :
    Pool U own' free' := by
  have hcases : ∀ {x f}, own' x f → (∃ y, x = g y ∧ own₁ y f) ∨ own x f ∧ f ∉ share own g free := by
    intro x f hx
    by_cases hg : ∃ y, g y = x
    · obtain ⟨y, rfl⟩ := hg
      exact Or.inl ⟨y, rfl, (hin y f).mp hx⟩
    · have hx := (hout x f fun y hy => hg ⟨y, hy⟩).mp hx
      exact Or.inr ⟨hx, h.notMem_share (fun y hy => hg ⟨y, hy⟩) hx⟩
  refine ⟨?_, h'.nodup, ?_, ?_⟩
  · intro x y f hx hy
    rcases hcases hx with ⟨a, rfl, ha⟩ | ⟨hx, hf⟩ <;> rcases hcases hy with ⟨b, rfl, hb⟩ | ⟨hy, hf'⟩
    · rw [h'.inj ha hb]
    · exact absurd (h'.mem_of_own ha) hf'
    · exact absurd (h'.mem_of_own hb) hf
    · exact h.inj hx hy
  · intro x f hx hmem
    rcases hcases hx with ⟨a, -, ha⟩ | ⟨-, hf⟩
    · exact h'.notMem ha hmem
    · exact hf (h'.mem_of_free hmem)
  · intro f
    constructor
    · intro hU
      by_cases hf : f ∈ share own g free
      · exact (h'.mem_iff.mp hf).imp_left fun ⟨y, hy⟩ => ⟨g y, (hin y f).mpr hy⟩
      · obtain ⟨x, hx⟩ := (h.mem_iff.mp hU).resolve_right fun hfree => hf (Or.inr hfree)
        refine Or.inl ⟨x, (hout x f ?_).mpr hx⟩
        rintro y rfl
        exact hf (Or.inl ⟨y, hx⟩)
    · rintro (⟨x, hx⟩ | hf)
      · rcases hcases hx with ⟨a, -, ha⟩ | ⟨hx, -⟩
        · exact h.share_subset (h'.mem_of_own ha)
        · exact h.mem_of_own hx
      · exact h.share_subset (h'.mem_of_free hf)

/-- The places `g` of a larger set. -/
lemma Pool.embed (h : Pool U own₁ free) :
    Pool U (fun x f => ∃ y, g y = x ∧ own₁ y f) free where
  inj := by
    rintro _ _ f ⟨y, rfl, hy⟩ ⟨z, rfl, hz⟩
    rw [h.inj hy hz]
  nodup := h.nodup
  notMem := by
    rintro _ f ⟨y, -, hy⟩
    exact h.notMem hy
  mem_iff {f} := by
    rw [h.mem_iff]
    simp

end Part

end Machine
