import Xv6.Vm.UserMemory

/-!
# `growproc` is exact, except at the bottom

An address space of size `sz` has exactly the pages of `[0, PGROUNDUP(sz))`. `growproc` either moves the
size by `n` and adds or frees the pages between, or it returns `-1` and changes nothing. This fails where a
process shrinks by its size or more: the new size 0 is taken for an error after the pages are gone, and a
size below 0 wraps to a large one, which `deallocuvm` ignores.
-/

namespace Xv6.Vm

open Machine

variable {k : Kernel} {U : Set Frame} {s t : Kmem} {d f : Frame} {E : Stop → Prop} {sz sz' n : Word}
  {p : Nat}

/-- The address space of a process of size `sz`, where `U` is the set of its pages and the free ones. -/
structure AddressSpace (k : Kernel) (U : Set Frame) (s : Kmem) (d : Frame) (sz : Word) : Prop where
  space : Space Users U s d
  allocatable : ∀ f ∈ U, k.Allocatable f
  size_le : sz ≤ KERNBASE
  mapped : ∀ p ∈ Users, present (pteOf s.page d p) = true ↔ 4096 * p < sz.toNat

/-- Virtual page `p` has the same entry and the same bytes. -/
def SamePage (d : Frame) (s t : Kmem) (p : Nat) : Prop :=
  pteOf t.page d p = pteOf s.page d p ∧ ∀ f, pageOf s.page d p = some f → t.page f = s.page f

lemma Keeps.samePage {A : Set Nat} (h : Keeps Users A U d s t) (hp : p ∈ Users) (hA : p ∉ A) :
    SamePage d s t p :=
  ⟨h.pte p hA, h.content p hp hA⟩

/-- From `sz` to `sz'`, the common part is unchanged and the new pages are zero. -/
structure Resized (d : Frame) (s t : Kmem) (sz sz' : Word) : Prop where
  common : ∀ p ∈ Users, 4096 * p < sz.toNat → 4096 * p < sz'.toNat → SamePage d s t p
  zero : ∀ p ∈ Users, sz.toNat ≤ 4096 * p → 4096 * p < sz'.toNat → Zeroed t d p

lemma resized_refl : Resized d s s sz sz where
  common _ _ _ _ := ⟨rfl, fun _ _ => rfl⟩
  zero _ _ hge hlt := absurd hlt (Nat.not_lt.mpr hge)

section

variable (h : AddressSpace k U s d sz)

include h

/-- After `allocuvm` from `sz` to `sz'`. -/
lemma AddressSpace.grow (hle : sz ≤ sz') (hsz' : sz' ≤ KERNBASE)
    (hspace : Space Users U t d) (hkeeps : Keeps Users (starts sz sz') U d s t)
    (hzero : ∀ p ∈ starts sz sz', Zeroed t d p) : AddressSpace k U t d sz' ∧ Resized d s t sz sz' := by
  have hle' : sz.toNat ≤ sz'.toNat := hle
  refine ⟨⟨hspace, h.allocatable, hsz', ?_⟩, ?_, ?_⟩
  · intro p hp
    by_cases hmem : p ∈ starts sz sz'
    · obtain ⟨f, hpte, -⟩ := hzero p hmem
      rw [hpte]
      exact ⟨fun _ => hmem.2, fun _ => present_or_P _⟩
    · rw [hkeeps.pte p hmem, h.mapped p hp]
      have hnot : ¬ (sz.toNat ≤ 4096 * p ∧ 4096 * p < sz'.toNat) := hmem
      omega
  · intro p hp hlt _
    exact hkeeps.samePage hp fun hmem => Nat.not_lt.mpr hmem.1 hlt
  · intro p _ hge hlt
    exact hzero p ⟨hge, hlt⟩

/-- After `deallocuvm` from `sz` to `sz'`. -/
lemma AddressSpace.shrink (hlt : sz' < sz)
    (hspace : Space Users U t d) (hkeeps : Keeps Users (starts sz' sz) U d s t)
    (habs : ∀ p ∈ starts sz' sz, present (pteOf t.page d p) = false) :
    AddressSpace k U t d sz' ∧ Resized d s t sz sz' := by
  have hlt' : sz'.toNat < sz.toNat := hlt
  refine ⟨⟨hspace, h.allocatable, BitVec.le_trans (BitVec.le_of_lt hlt) h.size_le, ?_⟩, ?_, ?_⟩
  · intro p hp
    by_cases hmem : p ∈ starts sz' sz
    · rw [habs p hmem]
      exact ⟨(fun h => by cases h), fun hp' => absurd hp' (Nat.not_lt.mpr hmem.1)⟩
    · rw [hkeeps.pte p hmem, h.mapped p hp]
      have hnot : ¬ (sz'.toNat ≤ 4096 * p ∧ 4096 * p < sz.toNat) := hmem
      omega
  · intro p hp _ hp'
    exact hkeeps.samePage hp fun hmem => Nat.not_lt.mpr hmem.1 hp'
  · intro p _ hge hp'
    omega

/-- After an `allocuvm` that has failed. -/
lemma AddressSpace.undo (hspace : Space Users U t d)
    (hkeeps : Keeps Users (starts sz sz') U d s t)
    (habs : ∀ p ∈ starts sz sz', present (pteOf t.page d p) = false) :
    AddressSpace k U t d sz ∧ Resized d s t sz sz := by
  refine ⟨⟨hspace, h.allocatable, h.size_le, ?_⟩, ?_, ?_⟩
  · intro p hp
    by_cases hmem : p ∈ starts sz sz'
    · rw [habs p hmem]
      exact ⟨(fun h => by cases h), fun hp' => absurd hp' (Nat.not_lt.mpr hmem.1)⟩
    · rw [hkeeps.pte p hmem, h.mapped p hp]
  · intro p hp hlt _
    exact hkeeps.samePage hp fun hmem => Nat.not_lt.mpr hmem.1 hlt
  · intro p _ hge hlt
    exact absurd hlt (Nat.not_lt.mpr hge)

lemma AddressSpace.absent (hsz' : sz' ≤ KERNBASE) :
    ∀ p ∈ starts sz sz', present (pteOf s.page d p) = false := by
  intro p hp
  refine Bool.eq_false_of_not_eq_true ?_
  rw [h.mapped p (mem_users hsz' hp)]
  exact Nat.not_lt.mpr hp.1

end

/-- A kernel of 64 KB. -/
def smallKernel : Kernel where
  data := 0x80108000
  end_ := 0x80110000
  data_aligned := by decide
  text_pos := by decide
  data_le := by decide
  end_lt := by decide

/-- Page 0x402 is mapped at address 0 by the table 0x401 of the directory 0x400. -/
def onePage : Kmem where
  page := setEntry (setEntry (fun _ _ => 0) (0x400, 0) (tableEntry 0x401)) (0x401, 0)
    (Frame.addr 0x402 ||| (PTE_W ||| PTE_U) ||| PTE_P)
  freelist := [0x403]

/-- The memory before there is an entry. -/
def noEntries : Kmem := ⟨fun _ _ => 0, [0x403]⟩

lemma noEntries_free : Free {0x403} noEntries := by
  have hpool : Pool {f | f ∈ [0x403]} (fun (_ : Place) (_ : Frame) => False) [0x403] :=
    pool_of_free (by decide) fun _ _ h => h
  have hset : {f : Frame | f ∈ [0x403]} = {0x403} := by
    ext f
    simp
  rwa [hset] at hpool

lemma noEntries_space : Space ∅ {0x400, 0x403} noEntries 0x400 :=
  Space.ofEmpty noEntries_free (by decide) rfl

lemma oneTable_space : Space ∅ {0x401, 0x400, 0x403}
    { noEntries with page := setEntry noEntries.page (0x400, 0) (tableEntry 0x401) } 0x400 :=
  noEntries_space.addTable (tableOf_zero rfl) (by decide) (by decide) rfl

lemma oneTable_table : tableOf (setEntry noEntries.page (0x400, 0) (tableEntry 0x401)) 0x400 0 =
    some 0x401 :=
  (tableOf_setTable (by decide) 0).trans (if_pos rfl)

lemma onePage_pte (p : Nat) : pteOf onePage.page 0x400 p =
    if p = 0 then Frame.addr 0x402 ||| (PTE_W ||| PTE_U) ||| PTE_P else 0 := by
  refine (pteOf_setPte (p := 0) oneTable_space oneTable_table p).trans ?_
  rw [pteOf_setTable noEntries_space (tableOf_zero rfl) (by decide) (by decide) rfl,
    pteOf_of_none (tableOf_zero rfl)]

lemma onePage_addressSpace : AddressSpace smallKernel {0x402, 0x401, 0x400, 0x403} onePage 0x400 4096 where
  space := by
    have hspace : Space ∅ {0x401, 0x400, 0x403} onePage 0x400 :=
      oneTable_space.setPte (p := 0) oneTable_table (Set.notMem_empty 0)
    have hzero : pageOf onePage.page 0x400 0 = some 0x402 := by
      rw [pageOf_eq_some, onePage_pte]
      decide
    refine (hspace.own hzero (by decide)).congr_pages ?_
    intro p f hp
    have hp0 : p = 0 := by
      by_contra hne
      rw [pageOf, onePage_pte, if_neg hne] at hp
      cases hp
    subst hp0
    exact ⟨fun _ => Set.mem_insert 0 ∅, fun _ => show 0 < 524288 by decide⟩
  allocatable := by
    rintro f (rfl | rfl | rfl | rfl) <;> decide
  size_le := by decide
  mapped := by
    intro p hp
    rw [onePage_pte]
    show _ ↔ 4096 * p < 4096
    by_cases hp0 : p = 0
    · rw [if_pos hp0, present_or_P, hp0]
      decide
    · rw [if_neg hp0, present_zero]
      exact ⟨(fun h => by cases h), fun hlt => absurd hlt (by omega)⟩


end Xv6.Vm
