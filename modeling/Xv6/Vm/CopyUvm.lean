import Xv6.Vm.Growproc
import Xv6.Vm.KernelMap

/-!
# `copyuvm` makes a private copy

The child's pages have the contents and flags of the parent's and are pages that were free; if there are
not enough of them, all pages it took become free again.
-/

namespace Xv6.Vm

open Machine Function

variable {k : Kernel} {U : Set Frame} {s t : Kmem} {pgdir d f : Frame} {E : Stop → Prop} {sz i : Word}
  {p : Nat}

/-- The parent's directory maps the pages of `[0, PGROUNDUP(sz))`, and it uses no page of `U`. -/
structure Parent (U : Set Frame) (s : Kmem) (pgdir : Frame) (sz : Word) : Prop where
  size_le : sz ≤ KERNBASE
  dir : pgdir ∉ U
  table : ∀ i tab, tableOf s.page pgdir i = some tab → tab ∉ U
  mapped : ∀ p, 4096 * p < sz.toNat → ∃ f, pageOf s.page pgdir p = some f ∧ f ∉ U

lemma Parent.pteOf_eq (h : Parent U s pgdir sz) (hout : ∀ f ∉ U, t.page f = s.page f) (p : Nat) :
    pteOf t.page pgdir p = pteOf s.page pgdir p :=
  pteOf_congr (hout pgdir h.dir) (fun i tab ht => hout tab (h.table i tab ht)) p

/-- Page `p` of the child has the contents and flags of the parent's. -/
def Copied (s : Kmem) (pgdir : Frame) (t : Kmem) (d : Frame) (p : Nat) : Prop :=
  ∃ f f', pageOf s.page pgdir p = some f ∧ t.page f' = s.page f ∧
    pteOf t.page d p = f'.addr ||| PTE_FLAGS (pteOf s.page pgdir p) ||| PTE_P

lemma Keeps.copied {A : Set Nat} {u : Kmem} (h : Keeps Users A U d t u) (hp : p ∈ Users) (hA : p ∉ A)
    (hc : Copied s pgdir t d p) : Copied s pgdir u d p := by
  obtain ⟨f, f', hf, hcontent, hpte⟩ := hc
  have hf' : pageOf t.page d p = some f' := pageOf_entry (PTE_FLAGS_lt _) hpte
  exact ⟨f, f', hf, (h.content p hp hA f' hf').trans hcontent, (h.pte p hA).trans hpte⟩

/-- What holds of the child before the page at `i` is copied. -/
structure CopiedTo (k : Kernel) (U : Set Frame) (s : Kmem) (pgdir d : Frame) (i : Word) (t : Kmem) :
    Prop where
  space : Space Users U t d
  outside : ∀ f ∉ U, t.page f = s.page f
  copied : ∀ p, 4096 * p < i.toNat → Copied s pgdir t d p
  absent : ∀ p ∈ Users, i.toNat ≤ 4096 * p → present (pteOf t.page d p) = false
  kernel : ∀ p ∉ Users, pteOf t.page d p = kpte k p

/-- One round of the loop of `copyuvm`. -/
lemma copyPage_ends (hs : Parent U s pgdir sz) (hU : ∀ f ∈ U, k.Allocatable f)
    (ha : i.toNat % 4096 = 0) (hi : i < sz) (h : CopiedTo k U s pgdir d i t) :
    Ends (copyPage k pgdir d i) t E fun r u =>
      (r = none ∧ Space Users U u d ∧ ∀ f ∉ U, u.page f = s.page f) ∨
        (r = some (i + PGSIZE) ∧ CopiedTo k U s pgdir d (i + PGSIZE) u) := by
  have hsz : sz.toNat ≤ 2147483648 := hs.size_le
  have hi' : i.toNat < sz.toNat := hi
  have hpage : 4096 * pageNo i = i.toNat := by
    rw [pageNo]
    omega
  have hnext : (i + PGSIZE).toNat = i.toNat + 4096 := by
    rw [PGSIZE]
    bv_omega
  have huser : pageNo i ∈ Users := show pageNo i < 524288 by omega
  obtain ⟨f, hf, hfU⟩ := hs.mapped (pageNo i) (by omega)
  obtain ⟨hpres, hfv⟩ := pageOf_eq_some.mp hf
  refine Ends.bind (walkpgdir_ends pgdir i) ?_
  rintro r t' ⟨rfl, rfl⟩
  rw [PDX_eq, PTX_eq]
  cases htab : tableOf t'.page pgdir (pageNo i / 1024) with
  | none =>
    have hzero := pteOf_of_none htab
    rw [hs.pteOf_eq h.outside] at hzero
    rw [hzero] at hpres
    cases hpres
  | some =>
    refine Ends.bind (getEntry_ends _) ?_
    rintro v t₁ ⟨rfl, rfl⟩
    rw [← pteOf_of_table htab, hs.pteOf_eq h.outside, hpres, hfv]
    refine Ends.ite (fun h => by cases h) fun _ => Ends.bind (kalloc_space h.space) ?_
    rintro r t₂ (⟨rfl, rfl, -⟩ | ⟨mem, rfl, hmem, hpg, hloose⟩)
    · exact Ends.pure (Or.inl ⟨rfl, h.space, h.outside⟩)
    refine Ends.bind (Ends.modify (Q := fun _ u => u =
      { t₂ with page := update t₂.page mem (t₂.page f) }) rfl) ?_
    rintro _ t₃ rfl
    have hfill := hloose.fill (t₂.page f)
    have hkeeps : Keeps Users ∅ U d t₁ { t₂ with page := update t₂.page mem (t₂.page f) } :=
      (Keeps.of_page hpg).trans (Keeps.fill hloose hmem _)
    have habs : present (pteOf (update t₂.page mem (t₂.page f)) d (pageNo i)) = false := by
      rw [hkeeps.pte _ (Set.notMem_empty _)]
      exact h.absent _ huser (Nat.le_of_eq hpage.symm)
    refine Ends.bind (mapUser_ends hfill hmem huser ha (PTE_FLAGS_lt _) habs) ?_
    rintro r t₄ ⟨hcontent, ⟨rfl, hspace, hkeeps', -⟩ | ⟨rfl, hspace, hkeeps', hpte⟩⟩
    · refine Ends.bind (kfree_space (A := ∅) hspace (fun hin => hin.2 rfl) (hU mem hmem)) ?_
      rintro _ t₅ ⟨hspace₅, hkeeps₅, -⟩
      rw [Set.insert_sdiff_self_of_mem hmem] at hspace₅ hkeeps₅
      refine Ends.pure (Or.inl ⟨rfl, hspace₅, ?_⟩)
      intro g hg
      rw [((hkeeps.trans hkeeps').trans hkeeps₅).outside g hg, h.outside g hg]
    · have hall : Keeps Users {pageNo i} U d t₁ t₄ := hkeeps.of_empty.trans hkeeps'
      refine Ends.pure (Or.inr ⟨rfl, hspace, ?_, ?_, ?_, ?_⟩)
      · intro g hg
        rw [hall.outside g hg, h.outside g hg]
      · intro p hp
        rcases Nat.lt_or_ge (4096 * p) i.toNat with hold | hnew
        · have hne : p ≠ pageNo i := by omega
          exact hall.copied (show p < 524288 by omega) hne (h.copied p hold)
        · obtain rfl : p = pageNo i := by omega
          refine ⟨f, mem, hf, ?_, hpte⟩
          rw [hcontent]
          refine (update_self _ _ _).trans ?_
          rw [hpg, h.outside f hfU]
      · intro p hp hge
        have hne : p ≠ pageNo i := by omega
        rw [hall.pte p hne]
        exact h.absent p hp (by omega)
      · intro p hp
        have hne : p ≠ pageNo i := by
          rintro rfl
          exact hp huser
        rw [hall.pte p hne]
        exact h.kernel p hp

/-- The child that is returned. -/
structure IsCopy (k : Kernel) (U : Set Frame) (s : Kmem) (pgdir : Frame) (sz : Word) (t : Kmem)
    (d : Frame) : Prop where
  /-- a page of the child is one of the pages that were free -/
  fresh : ∀ p, 4096 * p < sz.toNat → ∃ f f', pageOf s.page pgdir p = some f ∧
    pageOf t.page d p = some f' ∧ f' ∈ U ∧ t.page f' = s.page f ∧
    PTE_FLAGS (pteOf t.page d p) = PTE_FLAGS (pteOf s.page pgdir p)
  absent : ∀ p ∈ Users, sz.toNat ≤ 4096 * p → pageOf t.page d p = none
  kernel : ∀ p ∉ Users, pteOf t.page d p = kpte k p

/-- The whole of `copyuvm`. -/
lemma copyuvm_ends (h : Free U s) (hU : ∀ f ∈ U, k.Allocatable f) (hs : Parent U s pgdir sz) :
    Ends (copyuvm k pgdir sz) s E fun r t => (∀ f ∉ U, t.page f = s.page f) ∧
      ((r = none ∧ Free U t) ∨ ∃ d, r = some d ∧ Space Users U t d ∧ IsCopy k U s pgdir sz t d) := by
  refine Ends.bind (setupkvm_ends h hU) ?_
  rintro r t ⟨hout, ⟨rfl, hfree, -⟩ | ⟨d, rfl, hspace, hpte, -⟩⟩
  · exact Ends.pure ⟨hout, Or.inl ⟨rfl, hfree⟩⟩
  refine Ends.bind (Ends.forBelow (Q := fun u => Space Users U u d ∧ ∀ f ∉ U, u.page f = s.page f)
    (I := fun i u => i.toNat % 4096 = 0 ∧ i.toNat ≤ (sz.toNat + 4095) / 4096 * 4096 ∧
      CopiedTo k U s pgdir d i u) ?_ ?_) ?_
  · refine ⟨rfl, Nat.zero_le _, hspace, hout, (fun p hp => absurd hp (Nat.not_lt_zero _)), ?_, ?_⟩
    · intro p hp _
      rw [hpte, kpte_of_user hp, present_zero]
    · intro p _
      rw [hpte]
  · rintro i u hi ⟨halign, -, hc⟩
    refine (copyPage_ends hs hU halign hi hc).post ?_
    have hi' : i.toNat < sz.toNat := hi
    have hsz : sz.toNat ≤ 2147483648 := hs.size_le
    have hnext : (i + PGSIZE).toNat = i.toNat + 4096 := by
      rw [PGSIZE]
      bv_omega
    rintro r u' (⟨rfl, hQ⟩ | ⟨rfl, hc'⟩)
    · exact Or.inl ⟨rfl, hQ⟩
    · exact Or.inr ⟨_, rfl, show i.toNat < _ by omega, by omega, by omega, hc'⟩
  · rintro r u (⟨rfl, hspace', hout'⟩ | ⟨rfl, i, hge, halign, hle, hc⟩)
    · refine Ends.bind (freevm_ends hspace' hU) ?_
      rintro _ t' ⟨hfree, hout''⟩
      exact Ends.pure ⟨fun f hf => (hout'' f hf).trans (hout' f hf), Or.inl ⟨rfl, hfree⟩⟩
    · have hge' : sz.toNat ≤ i.toNat := hge
      refine Ends.pure ⟨hc.outside, Or.inr ⟨d, rfl, hc.space, ?_, ?_, hc.kernel⟩⟩
      · intro p hp
        obtain ⟨f, f', hf, hcontent, hpte'⟩ := hc.copied p (Nat.lt_of_lt_of_le hp hge')
        have hf' : pageOf u.page d p = some f' := pageOf_entry (PTE_FLAGS_lt _) hpte'
        have huser : p ∈ Users := by
          have hsz : sz.toNat ≤ 2147483648 := hs.size_le
          show p < 524288
          omega
        refine ⟨f, f', hf, hf', hc.space.page_mem huser hf', hcontent, ?_⟩
        rw [hpte', PTE_FLAGS_entry _ (PTE_FLAGS_lt _), flags_or_P (pageOf_eq_some.mp hf).1]
      · intro p hp hge
        rw [pageOf_eq_none]
        exact hc.absent p hp (by omega)

/-- The address space of a process is such a parent. -/
lemma AddressSpace.parent (h : AddressSpace k U s d sz) : Parent {f | f ∈ s.freelist} s d sz where
  size_le := h.size_le
  dir := h.space.notMem (show Held Users s.page d .dir d from rfl)
  table i tab ht := h.space.notMem (show Held Users s.page d (.table i) tab from ht)
  mapped p hp := by
    have hsz : sz.toNat ≤ 2147483648 := h.size_le
    have huser : p ∈ Users := show p < 524288 by omega
    have hf := pageOf_eq_some.mpr ⟨(h.mapped p huser).mpr hp, rfl⟩
    exact ⟨_, hf, h.space.notMem (show Held Users s.page d (.page p) _ from ⟨huser, hf⟩)⟩

end Xv6.Vm
