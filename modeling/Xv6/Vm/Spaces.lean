import Xv6.Machine.Pool
import Xv6.Vm.PageTables

/-!
# What a page directory means

The tables and entries that a page directory leads to, who holds which page of physical memory, and what
the stores of `vm.c` do to this. A page is held as the directory, as a table or as a user page. `Space P U`
says that the pages of the set `U` are free or held at one place in this address space; of the virtual pages
only those in `P` count as holders.
-/

namespace Xv6.Vm

open Machine

variable {m m' : Frame → Page} {d f : Frame} {i j p q : Nat} {t : Frame} {v : Word}

/-! ### Entries -/

/-- The page table of directory entry `i`. -/
def tableOf (m : Frame → Page) (d : Frame) (i : Nat) : Option Frame :=
  if present ((m d).getInt i) then some (PTE_ADDR ((m d).getInt i)) else none

/-- The entry of virtual page `p`; 0 if there is no table for it. -/
def pteOf (m : Frame → Page) (d : Frame) (p : Nat) : Word :=
  match tableOf m d (p / 1024) with
  | none => 0
  | some t => (m t).getInt (p % 1024)

/-- The page of physical memory at virtual page `p`. -/
def pageOf (m : Frame → Page) (d : Frame) (p : Nat) : Option Frame :=
  if present (pteOf m d p) then some (PTE_ADDR (pteOf m d p)) else none

lemma pteOf_of_table (h : tableOf m d (p / 1024) = some t) : pteOf m d p = (m t).getInt (p % 1024) := by
  rw [pteOf, h]

lemma pteOf_of_none (h : tableOf m d (p / 1024) = none) : pteOf m d p = 0 := by
  rw [pteOf, h]

lemma pageOf_eq_none : pageOf m d p = none ↔ present (pteOf m d p) = false := by
  simp [pageOf]

lemma pageOf_eq_some :
    pageOf m d p = some f ↔ present (pteOf m d p) = true ∧ PTE_ADDR (pteOf m d p) = f := by
  simp [pageOf]

/-- The directory has 1024 entries. -/
lemma tableOf_of_ge (h : 1024 ≤ i) : tableOf m d i = none := by
  have hzero : (m d).getInt i = 0 := by
    have hbyte : ∀ k, (m d).byte (4 * i + k) = 0 := by
      intro k
      exact dif_neg (by omega)
    rw [Bytes.getInt, hbyte, hbyte, hbyte, ← Nat.add_zero (4 * i), hbyte]
    rfl
  rw [tableOf, hzero]
  rfl

lemma lt_of_tableOf (h : tableOf m d i = some t) : i < 1024 := by
  by_contra hge
  rw [tableOf_of_ge (Nat.le_of_not_lt hge)] at h
  cases h

lemma getInt_zero (i : Nat) : Bytes.getInt (fun _ => 0 : Page) i = 0 := by
  simp [Bytes.getInt, Bytes.byte]

/-! ### Holders -/

inductive Place
  | dir
  | table (i : Nat)
  | page (p : Nat)

/-- Page `f` of physical memory is held at a place of the address space. -/
def Held (P : Set Nat) (m : Frame → Page) (d : Frame) : Place → Frame → Prop
  | .dir, f => f = d
  | .table i, f => tableOf m d i = some f
  | .page p, f => p ∈ P ∧ pageOf m d p = some f

/-- The pages of `U` are free or held in the address space of `d`. -/
abbrev Space (P : Set Nat) (U : Set Frame) (s : Kmem) (d : Frame) : Prop :=
  Pool U (Held P s.page d) s.freelist

abbrev Free (U : Set Frame) (s : Kmem) : Prop :=
  Pool U (fun (_ : Place) (_ : Frame) => False) s.freelist

variable {P : Set Nat} {U : Set Frame} {s s' : Kmem} {free : List Frame}

lemma Space.dir_mem (h : Space P U s d) : d ∈ U :=
  h.mem_of_own (show Held P s.page d .dir d from rfl)

lemma Space.table_mem (h : Space P U s d) (ht : tableOf s.page d i = some t) : t ∈ U :=
  h.mem_of_own (show Held P s.page d (.table i) t from ht)

lemma Space.page_mem (h : Space P U s d) (hp : p ∈ P) (hf : pageOf s.page d p = some f) : f ∈ U :=
  h.mem_of_own (show Held P s.page d (.page p) f from ⟨hp, hf⟩)

section

variable (h : Pool U (Held P m d) free)

include h

lemma table_ne_dir (ht : tableOf m d i = some t) : t ≠ d := by
  rintro rfl
  have hplace := h.inj (x := .dir) (y := .table i) rfl ht
  cases hplace

lemma table_inj (hi : tableOf m d i = some t) (hj : tableOf m d j = some t) : i = j := by
  have hplace := h.inj (x := .table i) (y := .table j) hi hj
  cases hplace
  rfl

lemma page_ne_dir (hp : p ∈ P) (hf : pageOf m d p = some f) : f ≠ d := by
  rintro rfl
  have hplace := h.inj (x := .dir) (y := .page p) rfl ⟨hp, hf⟩
  cases hplace

lemma page_ne_table (hp : p ∈ P) (hf : pageOf m d p = some f) (ht : tableOf m d i = some t) : f ≠ t := by
  rintro rfl
  have hplace := h.inj (x := .table i) (y := .page p) ht ⟨hp, hf⟩
  cases hplace

lemma page_inj (hp : p ∈ P) (hf : pageOf m d p = some f)
    (hq : q ∈ P) (hg : pageOf m d q = some f) : p = q := by
  have hplace := h.inj (x := .page p) (y := .page q) ⟨hp, hf⟩ ⟨hq, hg⟩
  cases hplace
  rfl

end

/-! ### Stores -/

/-- A store to a page that is neither the directory nor a table changes no entry. -/
lemma tableOf_congr (hd : m' d = m d) (i : Nat) : tableOf m' d i = tableOf m d i := by
  rw [tableOf, tableOf, hd]

lemma pteOf_congr (hd : m' d = m d) (ht : ∀ i t, tableOf m d i = some t → m' t = m t) (p : Nat) :
    pteOf m' d p = pteOf m d p := by
  rw [pteOf, pteOf, tableOf_congr hd]
  cases h : tableOf m d (p / 1024) with
  | none => rfl
  | some t => simp only [ht _ t h]

lemma pageOf_congr (h : pteOf m' d p = pteOf m d p) : pageOf m' d p = pageOf m d p := by
  rw [pageOf, pageOf, h]

lemma held_congr (hd : m' d = m d) (ht : ∀ i t, tableOf m d i = some t → m' t = m t) (x : Place)
    (f : Frame) : Held P m' d x f ↔ Held P m d x f := by
  cases x with
  | dir => exact Iff.rfl
  | table => simp only [Held, tableOf_congr hd]
  | page p => simp only [Held, pageOf_congr (pteOf_congr hd ht p)]

/-- The memory with an entry stored. -/
def setEntry (m : Frame → Page) (e : Entry) (v : Word) : Frame → Page :=
  Function.update m e.1 ((m e.1).putInt e.2 v)

lemma setEntry_of_ne (h : f ≠ t) : setEntry m (t, i) v f = m f := Function.update_of_ne h _ _

section Pte

variable (h : Pool U (Held P m d) free) (ht : tableOf m d (p / 1024) = some t)

include h ht

lemma tableOf_setPte (i : Nat) : tableOf (setEntry m (t, p % 1024) v) d i = tableOf m d i :=
  tableOf_congr (setEntry_of_ne (table_ne_dir h ht).symm) i

/-- A store of an entry of a table changes this entry only. -/
lemma pteOf_setPte (q : Nat) :
    pteOf (setEntry m (t, p % 1024) v) d q = if q = p then v else pteOf m d q := by
  rw [pteOf, tableOf_setPte h ht]
  by_cases hdiv : q / 1024 = p / 1024
  · have htq : tableOf m d (q / 1024) = some t := by rw [hdiv, ht]
    simp only [htq]
    rw [setEntry, Function.update_self]
    by_cases hqp : q = p
    · subst hqp
      rw [if_pos rfl, Bytes.getInt_putInt_self _ _ (by omega)]
    · rw [if_neg hqp, Bytes.getInt_putInt_of_ne _ _ (by omega), pteOf_of_table htq]
  · have hqp : q ≠ p := by
      rintro rfl
      exact hdiv rfl
    rw [if_neg hqp, pteOf]
    cases htq : tableOf m d (q / 1024) with
    | none => rfl
    | some u =>
      have hut : u ≠ t := by
        rintro rfl
        exact hdiv (table_inj h htq ht)
      simp only [setEntry_of_ne hut]

/-- The pages in `P` are held as before if the entry is of another page. -/
lemma held_setPte (hp : p ∉ P) (x : Place) (f : Frame) :
    Held P (setEntry m (t, p % 1024) v) d x f ↔ Held P m d x f := by
  cases x with
  | dir => exact Iff.rfl
  | table => simp only [Held, tableOf_setPte h ht]
  | page q =>
    refine and_congr_right fun hq => ?_
    have hqp : q ≠ p := by
      rintro rfl
      exact hp hq
    rw [pageOf_congr]
    rw [pteOf_setPte h ht, if_neg hqp]

end Pte

section Table

variable (h : Pool U (Held P m d) free) (hi : tableOf m d i = none) (hlt : i < 1024)
  (ht : t ∉ U) (hzero : m t = fun _ => 0)

/-- The entry that `walkpgdir` makes for a new table. -/
def tableEntry (t : Frame) : Word := t.addr ||| PTE_P ||| PTE_W ||| PTE_U

lemma tableEntry_eq (t : Frame) : tableEntry t = t.addr ||| (PTE_W ||| PTE_U) ||| PTE_P := by
  rw [tableEntry, BitVec.or_assoc, BitVec.or_assoc, BitVec.or_assoc]
  rfl

include hlt in
lemma tableOf_setTable (j : Nat) : tableOf (setEntry m (d, i) (tableEntry t)) d j =
    if j = i then some t else tableOf m d j := by
  rw [tableOf, setEntry, Function.update_self]
  by_cases hj : j = i
  · subst hj
    rw [if_pos rfl, Bytes.getInt_putInt_self _ _ (by omega), tableEntry_eq, present_or_P,
      if_pos rfl, PTE_ADDR_entry _ (by decide)]
  · rw [if_neg hj, Bytes.getInt_putInt_of_ne _ _ hj, tableOf]

include h hi hlt ht hzero

/-- An empty table changes no entry. -/
lemma pteOf_setTable (q : Nat) : pteOf (setEntry m (d, i) (tableEntry t)) d q = pteOf m d q := by
  have htd : t ≠ d := by
    rintro rfl
    exact ht (h.mem_of_own (show Held P m t .dir t from rfl))
  rw [pteOf, tableOf_setTable hlt]
  by_cases hq : q / 1024 = i
  · rw [if_pos hq, pteOf_of_none (hq ▸ hi)]
    simp only [setEntry_of_ne htd, hzero]
    exact getInt_zero _
  · rw [if_neg hq, pteOf]
    cases htq : tableOf m d (q / 1024) with
    | none => rfl
    | some => simp only [setEntry_of_ne (table_ne_dir h htq)]

lemma held_setTable (x : Place) (f : Frame) : Held P (setEntry m (d, i) (tableEntry t)) d x f ↔
    Held P m d x f ∨ (x = .table i ∧ f = t) := by
  cases x with
  | dir => simp [Held]
  | table j =>
    simp only [Held, tableOf_setTable hlt, Place.table.injEq]
    by_cases hj : j = i
    · subst hj
      simp [hi, eq_comm]
    · simp [hj]
  | page q =>
    simp only [Held, pageOf_congr (pteOf_setTable h hi hlt ht hzero q)]
    simp

end Table

/-! ### Holding virtual pages -/

/-- Virtual pages without a physical page hold nothing. -/
lemma Space.congr_pages {P' : Set Nat} (h : Space P U s d)
    (hP : ∀ p f, pageOf s.page d p = some f → (p ∈ P' ↔ p ∈ P)) : Space P' U s d := by
  refine h.congr ?_
  intro x f
  cases x with
  | dir => exact Iff.rfl
  | table => exact Iff.rfl
  | page p => exact and_congr_left fun hf => hP p f hf

/-- A virtual page holds the page it is mapped to. -/
lemma Space.own (h : Space P U s d) (hp : pageOf s.page d p = some f) (hf : f ∉ U) :
    Space (insert p P) (insert f U) s d := by
  refine h.take (x := .page p) hf ?_
  intro y g
  cases y with
  | dir => simp [Held]
  | table => simp [Held]
  | page =>
    simp only [Held, Set.mem_insert_iff, Place.page.injEq]
    constructor
    · rintro ⟨rfl | hq, hg⟩
      · rw [hp] at hg
        cases hg
        exact Or.inr ⟨rfl, rfl⟩
      · exact Or.inl ⟨hq, hg⟩
    · rintro (⟨hq, hg⟩ | ⟨rfl, rfl⟩)
      · exact ⟨Or.inr hq, hg⟩
      · exact ⟨Or.inl rfl, hp⟩

/-- A virtual page no longer counts. -/
lemma Space.disown (h : Space P U s d) (hp : p ∈ P) (hf : pageOf s.page d p = some f) :
    Space (P \ {p}) (U \ {f}) s d := by
  have hheld : Held P s.page d (.page p) f := ⟨hp, hf⟩
  refine h.drop hheld ?_
  intro y g
  cases y with
  | dir =>
    refine ⟨?_, fun hy => hy.1⟩
    rintro rfl
    exact ⟨rfl, (page_ne_dir h hp hf).symm⟩
  | table => exact ⟨fun ht => ⟨ht, (page_ne_table h hp hf ht).symm⟩, fun hy => hy.1⟩
  | page =>
    simp only [Held, Set.mem_sdiff, Set.mem_singleton_iff]
    constructor
    · rintro ⟨⟨hq, hqp⟩, hg⟩
      refine ⟨⟨hq, hg⟩, ?_⟩
      rintro rfl
      exact hqp (page_inj h hq hg hp hf)
    · rintro ⟨⟨hq, hg⟩, hne⟩
      refine ⟨⟨hq, ?_⟩, hg⟩
      rintro rfl
      rw [hf] at hg
      cases hg
      exact hne rfl

/-- The same address space in another memory. -/
lemma Space.transport (h : Space P U s d) (hfree : s'.freelist = s.freelist) (hd : s'.page d = s.page d)
    (ht : ∀ i t, tableOf s.page d i = some t → s'.page t = s.page t) : Space P U s' d := by
  rw [Space, hfree]
  exact h.congr (held_congr hd ht)

end Xv6.Vm
