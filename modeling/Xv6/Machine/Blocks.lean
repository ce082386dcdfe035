import Mathlib.Data.List.Chain
import Mathlib.Tactic.Common

/-!
# Memory cut into blocks

A stretch of memory that is cut into consecutive blocks. A block has a length in units of eight bytes and is
free or in use. Where the blocks are follows from where the first one is.
-/

namespace Machine.Heap

open List

structure Block where
  units : Nat
  free : Bool
deriving DecidableEq, Repr

variable {a x y : Nat} {b c : Block} {L M : List Block}

/-- The number of bytes. -/
def span : List Block → Nat
  | [] => 0
  | b :: L => 8 * b.units + span L

/-- In the blocks `L`, laid out from `a` on, block `b` is at `x`. -/
def At : Nat → List Block → Nat → Block → Prop
  | _, [], _, _ => False
  | a, b :: L, x, c => (x = a ∧ c = b) ∨ At (a + 8 * b.units) L x c

/-- The addresses of the free blocks. -/
def frees : Nat → List Block → List Nat
  | _, [] => []
  | a, b :: L => if b.free then a :: frees (a + 8 * b.units) L else frees (a + 8 * b.units) L

@[simp] lemma span_nil : span [] = 0 := rfl

@[simp] lemma span_cons : span (b :: L) = 8 * b.units + span L := rfl

@[simp] lemma span_append : span (L ++ M) = span L + span M := by
  induction L with
  | nil => simp
  | cons b L ih => simp [ih, Nat.add_assoc]

@[simp] lemma at_nil : ¬ At a [] x b := id

@[simp] lemma at_cons : At a (b :: L) x c ↔ (x = a ∧ c = b) ∨ At (a + 8 * b.units) L x c := Iff.rfl

@[simp] lemma at_append : At a (L ++ M) x c ↔ At a L x c ∨ At (a + span L) M x c := by
  induction L generalizing a with
  | nil => simp
  | cons b L ih => simp [ih, or_assoc, Nat.add_assoc]

@[simp] lemma frees_nil : frees a [] = [] := rfl

lemma frees_cons_free (h : b.free = true) : frees a (b :: L) = a :: frees (a + 8 * b.units) L := if_pos h

lemma frees_cons_used (h : b.free = false) : frees a (b :: L) = frees (a + 8 * b.units) L := by
  rw [frees, h]
  rfl

@[simp] lemma frees_append : frees a (L ++ M) = frees a L ++ frees (a + span L) M := by
  induction L generalizing a with
  | nil => simp
  | cons b L ih =>
    cases hb : b.free with
    | true => simp [frees_cons_free hb, ih, Nat.add_assoc]
    | false => simp [frees_cons_used hb, ih, Nat.add_assoc]

/-- A block lies inside the stretch. -/
lemma At.bounds (h : At a L x b) : a ≤ x ∧ x + 8 * b.units ≤ a + span L := by
  induction L generalizing a with
  | nil => exact h.elim
  | cons c L ih =>
    rw [span_cons]
    rcases h with ⟨rfl, rfl⟩ | h
    · omega
    · have := ih h
      omega

lemma At.mem (h : At a L x b) : b ∈ L := by
  induction L generalizing a with
  | nil => exact h.elim
  | cons c L ih =>
    rcases h with ⟨-, rfl⟩ | h
    · exact mem_cons_self
    · exact mem_cons_of_mem c (ih h)

/-- A block divides the others into those below and those above it. -/
lemma At.split (h : At a L x b) : ∃ l r, L = l ++ b :: r ∧ x = a + span l := by
  induction L generalizing a with
  | nil => exact h.elim
  | cons c L ih =>
    rcases h with ⟨rfl, rfl⟩ | h
    · exact ⟨[], L, rfl, rfl⟩
    · obtain ⟨l, r, rfl, rfl⟩ := ih h
      exact ⟨c :: l, r, rfl, by rw [span_cons, Nat.add_assoc]⟩

lemma at_mid : At a (L ++ b :: M) (a + span L) b :=
  at_append.mpr (Or.inr (Or.inl ⟨rfl, rfl⟩))

lemma mem_frees : x ∈ frees a L ↔ ∃ b, At a L x b ∧ b.free = true := by
  induction L generalizing a with
  | nil => simp
  | cons c L ih =>
    cases hc : c.free with
    | true =>
      rw [frees_cons_free hc, mem_cons, ih]
      constructor
      · rintro (rfl | ⟨b, hb, hfree⟩)
        · exact ⟨c, Or.inl ⟨rfl, rfl⟩, hc⟩
        · exact ⟨b, Or.inr hb, hfree⟩
      · rintro ⟨b, ⟨rfl, -⟩ | hb, hfree⟩
        · exact Or.inl rfl
        · exact Or.inr ⟨b, hb, hfree⟩
    | false =>
      rw [frees_cons_used hc, ih]
      constructor
      · rintro ⟨b, hb, hfree⟩
        exact ⟨b, Or.inr hb, hfree⟩
      · rintro ⟨b, ⟨-, rfl⟩ | hb, hfree⟩
        · rw [hc] at hfree
          cases hfree
        · exact ⟨b, hb, hfree⟩

/-- No block is empty. -/
def Solid (L : List Block) : Prop := ∀ b ∈ L, 0 < b.units

lemma solid_append : Solid (L ++ M) ↔ Solid L ∧ Solid M := forall_mem_append

lemma solid_cons : Solid (b :: L) ↔ 0 < b.units ∧ Solid L := forall_mem_cons

/-- Of two blocks, one ends before the other starts. -/
lemma At.disjoint (h : At a L x b) (h' : At a L y c) :
    (x = y ∧ b = c) ∨ x + 8 * b.units ≤ y ∨ y + 8 * c.units ≤ x := by
  induction L generalizing a with
  | nil => exact h.elim
  | cons d L ih =>
    rcases h with ⟨rfl, rfl⟩ | h <;> rcases h' with ⟨rfl, rfl⟩ | h'
    · exact Or.inl ⟨rfl, rfl⟩
    · exact Or.inr (Or.inl h'.bounds.1)
    · exact Or.inr (Or.inr h.bounds.1)
    · exact ih h h'

lemma At.eq (hL : Solid L) (h : At a L x b) (h' : At a L x c) : b = c := by
  have hb := hL b h.mem
  have hc := hL c h'.mem
  rcases h.disjoint h' with ⟨-, heq⟩ | hlt | hlt
  · exact heq
  · omega
  · omega

/-- Every byte is in a block. -/
lemma exists_at {z : Nat} (hle : a ≤ z) (hlt : z < a + span L) :
    ∃ x b, At a L x b ∧ x ≤ z ∧ z < x + 8 * b.units := by
  induction L generalizing a with
  | nil =>
    rw [span_nil] at hlt
    omega
  | cons c L ih =>
    rw [span_cons] at hlt
    by_cases hz : z < a + 8 * c.units
    · exact ⟨a, c, Or.inl ⟨rfl, rfl⟩, hle, hz⟩
    · obtain ⟨x, b, hb, hin⟩ := ih (Nat.le_of_not_lt hz) (by omega)
      exact ⟨x, b, Or.inr hb, hin⟩

/-- The free blocks are in the order of their addresses. -/
lemma frees_sorted (hL : Solid L) : (frees a L).Pairwise (· < ·) := by
  induction L generalizing a with
  | nil => exact List.Pairwise.nil
  | cons c L ih =>
    obtain ⟨hc, hL⟩ := solid_cons.mp hL
    cases hfree : c.free with
    | false =>
      rw [frees_cons_used hfree]
      exact ih hL
    | true =>
      rw [frees_cons_free hfree]
      refine List.Pairwise.cons ?_ (ih hL)
      intro x hx
      obtain ⟨b, hb, -⟩ := mem_frees.mp hx
      have := hb.bounds.1
      omega

lemma length_frees_le (hL : Solid L) : 8 * (frees a L).length ≤ span L := by
  induction L generalizing a with
  | nil => exact Nat.le_refl _
  | cons c L ih =>
    obtain ⟨hc, hL⟩ := solid_cons.mp hL
    rw [span_cons]
    cases hfree : c.free with
    | false =>
      rw [frees_cons_used hfree]
      exact Nat.le_trans (ih hL) (Nat.le_add_left _ _)
    | true =>
      rw [frees_cons_free hfree, length_cons]
      have := ih hL (a := a + 8 * c.units)
      omega

/-- No two free blocks are next to each other. -/
def Coalesced (L : List Block) : Prop := L.IsChain fun b c => ¬ (b.free = true ∧ c.free = true)

/-- The last block, if there is one, is in use. -/
def LastUsed (L : List Block) : Prop := ∀ c ∈ L.getLast?, c.free = false

/-- The first block, if there is one, is in use. -/
def FirstUsed (L : List Block) : Prop := ∀ c ∈ L.head?, c.free = false

lemma firstUsed_or (L : List Block) : FirstUsed L ∨ ∃ c M, L = c :: M ∧ c.free = true := by
  cases L with
  | nil => exact Or.inl fun c hc => by cases hc
  | cons c M =>
    cases hc : c.free with
    | true => exact Or.inr ⟨c, M, rfl, hc⟩
    | false =>
      refine Or.inl ?_
      rintro d ⟨⟩
      exact hc

lemma lastUsed_or (L : List Block) : LastUsed L ∨ ∃ M c, L = M ++ [c] ∧ c.free = true := by
  induction L using List.reverseRecOn with
  | nil => exact Or.inl fun c hc => by cases hc
  | append_singleton M c =>
    cases hc : c.free with
    | true => exact Or.inr ⟨M, c, rfl, hc⟩
    | false =>
      refine Or.inl ?_
      intro d hd
      rw [List.getLast?_concat] at hd
      cases hd
      exact hc

/-- A free block does not start where the first block, which is in use, starts. -/
lemma FirstUsed.lt (h : FirstUsed L) (hL : Solid L) (hb : At a L x b) (hfree : b.free = true) : a < x := by
  cases L with
  | nil => exact hb.elim
  | cons =>
    rcases hb with ⟨rfl, rfl⟩ | hb
    · rw [h b rfl] at hfree
      cases hfree
    · have hpos := (solid_cons.mp hL).1
      have hge := hb.bounds.1
      omega

/-- A free block does not end where the last block, which is in use, ends. -/
lemma LastUsed.lt (h : LastUsed L) (hL : Solid L) (hb : At a L x b) (hfree : b.free = true) :
    x + 8 * b.units < a + span L := by
  induction L using List.reverseRecOn with
  | nil => exact hb.elim
  | append_singleton M c =>
    have hpos := hL c (mem_append_right M mem_cons_self)
    rw [span_append, span_cons]
    rcases at_append.mp hb with hb | ⟨rfl, rfl⟩ | hb
    · have hle := hb.bounds.2
      omega
    · rw [h b List.getLast?_concat] at hfree
      cases hfree
    · exact hb.elim

lemma coalesced_used (h : b.free = false) : Coalesced (L ++ b :: M) ↔ Coalesced L ∧ Coalesced M := by
  simp [Coalesced, isChain_append, isChain_cons, h]

lemma coalesced_free (h : b.free = true) :
    Coalesced (L ++ b :: M) ↔ (Coalesced L ∧ LastUsed L) ∧ Coalesced M ∧ FirstUsed M := by
  simp only [Coalesced, LastUsed, FirstUsed, isChain_append, isChain_cons, List.head?_cons,
    Option.mem_some_iff, forall_eq', h, and_true, true_and, Bool.not_eq_true]
  tauto

/-- Where a free block ends, no free block starts. -/
lemma Coalesced.not_free (h : Coalesced L) (hL : Solid L) (hx : At a L x b)
    (hy : At a L (x + 8 * b.units) c) (hb : b.free = true) : c.free = false := by
  obtain ⟨l, r, rfl, rfl⟩ := hx.split
  obtain ⟨hl, hbr⟩ := solid_append.mp hL
  obtain ⟨hbpos, hr⟩ := solid_cons.mp hbr
  obtain ⟨-, -, hfirst⟩ := (coalesced_free hb).mp h
  rcases at_append.mp hy with hy | ⟨heq, -⟩ | hy
  · have := hy.bounds
    omega
  · omega
  · cases hc : c.free with
    | false => rfl
    | true => exact absurd (hfirst.lt hr hy hc) (Nat.lt_irrefl _)

end Machine.Heap
