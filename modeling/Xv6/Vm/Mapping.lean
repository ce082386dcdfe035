import Xv6.Vm.Spaces

/-!
# Making mappings

What `kalloc`, `kfree`, `walkpgdir` and `mappages` do to an address space. A result says which entries
changed; `Keeps` says that the others did not, and that nothing changed outside the pages it owns.
-/

namespace Xv6.Vm

open Machine Function

variable {k : Kernel} {P P' A A' : Set Nat} {U U' : Set Frame} {s t u : Kmem} {d f : Frame}
  {E : Stop → Prop} {ι : Type} {own : ι → Frame → Prop} {a pa perm : Word} {n p : Nat} {i : Nat}
  {va size : Word} {tab : Frame}

/-! ### Changes -/

/-- Between `s` and `t`, only entries of pages in `A` have changed, tables have only been added, and
memory has changed in `U` only, there not in the pages of `P` other than those in `A`. -/
structure Keeps (P A : Set Nat) (U : Set Frame) (d : Frame) (s t : Kmem) : Prop where
  pte : ∀ p ∉ A, pteOf t.page d p = pteOf s.page d p
  content : ∀ p ∈ P, p ∉ A → ∀ f, pageOf s.page d p = some f → t.page f = s.page f
  table : ∀ i u, tableOf s.page d i = some u → tableOf t.page d i = some u
  outside : ∀ f ∉ U, t.page f = s.page f

lemma Keeps.page_eq (h : Keeps P A U d s t) (hp : p ∉ A) : pageOf t.page d p = pageOf s.page d p :=
  pageOf_congr (h.pte p hp)

lemma Keeps.refl : Keeps P A U d s s :=
  ⟨fun _ _ => rfl, fun _ _ _ _ _ => rfl, fun _ _ h => h, fun _ _ => rfl⟩

lemma Keeps.of_page (h : t.page = s.page) : Keeps P A U d s t := by
  constructor <;> rw [h]
  case pte => exact fun _ _ => rfl
  case content => exact fun _ _ _ _ _ => rfl
  case table => exact fun _ _ h => h
  case outside => exact fun _ _ => rfl

lemma Keeps.trans (h : Keeps P A U d s t) (h' : Keeps P A U d t u) : Keeps P A U d s u where
  pte p hp := (h'.pte p hp).trans (h.pte p hp)
  content p hp hA f hf :=
    (h'.content p hp hA f ((h.page_eq hA).trans hf)).trans (h.content p hp hA f hf)
  table i v hi := h'.table i v (h.table i v hi)
  outside f hf := (h'.outside f hf).trans (h.outside f hf)

lemma Keeps.mono (h : Keeps P A U d s t) (hP : P' \ A' ⊆ P) (hA : A ⊆ A') (hU : U ⊆ U') :
    Keeps P' A' U' d s t where
  pte p hp := h.pte p fun hmem => hp (hA hmem)
  content p hp hA' := h.content p (hP ⟨hp, hA'⟩) fun hmem => hA' (hA hmem)
  table := h.table
  outside f hf := h.outside f fun hmem => hf (hU hmem)

lemma Keeps.weaken (h : Keeps P A U d s t) (hA : A ⊆ A') : Keeps P A' U d s t :=
  h.mono Set.sdiff_subset hA (Set.Subset.refl U)

lemma Keeps.of_empty (h : Keeps P ∅ U d s t) : Keeps P A U d s t := h.weaken (Set.empty_subset A)

/-- Only tables for pages in `A` have been added. -/
def TablesFor (A : Set Nat) (d : Frame) (s t : Kmem) : Prop :=
  ∀ i, (∀ p ∈ A, p / 1024 ≠ i) → tableOf t.page d i = tableOf s.page d i

lemma TablesFor.refl : TablesFor A d s s := fun _ _ => rfl

lemma TablesFor.trans (h : TablesFor A d s t) (h' : TablesFor A d t u) : TablesFor A d s u :=
  fun i hi => (h' i hi).trans (h i hi)

lemma TablesFor.mono (h : TablesFor A d s t) (hA : A ⊆ A') : TablesFor A' d s t :=
  fun i hi => h i fun p hp => hi p (hA hp)

/-- A store outside the address space changes nothing in it. -/
lemma Space.of_agree (h : Space P U s d) (hfree : t.freelist = s.freelist)
    (hpage : ∀ g ∈ U, t.page g = s.page g) : Space P U t d :=
  h.transport hfree (hpage d h.dir_mem) fun _ tab ht => hpage tab (h.table_mem ht)

lemma Keeps.of_agree (h : Space P U s d) (hpage : ∀ g ∈ U, t.page g = s.page g)
    (hout : ∀ g ∉ U', t.page g = s.page g) : Keeps P A U' d s t where
  pte p _ := pteOf_congr (hpage d h.dir_mem) (fun _ tab ht => hpage tab (h.table_mem ht)) p
  content _ hp _ f hf := hpage f (h.page_mem hp hf)
  table i _ hi := (tableOf_congr (hpage d h.dir_mem) i).trans hi
  outside := hout

/-! ### The allocator -/

/-- `kfree` takes the page. -/
def Kernel.Allocatable (k : Kernel) (f : Frame) : Prop := ¬ (P2V f.addr < k.end_ ∨ f.addr ≥ PHYSTOP)

instance (k : Kernel) (f : Frame) : Decidable (k.Allocatable f) :=
  inferInstanceAs (Decidable (¬ (P2V f.addr < k.end_ ∨ f.addr ≥ PHYSTOP)))

lemma Kernel.Allocatable.ne_zero (h : k.Allocatable f) : f ≠ 0 := by
  rintro rfl
  refine h (Or.inl ?_)
  have htext : KERNLINK < k.data := k.text_pos
  have hdata : k.data ≤ k.end_ := k.data_le
  have hzero : P2V (Frame.addr 0) = KERNBASE := by decide
  rw [hzero]
  have hlink : KERNBASE < KERNLINK := by decide
  bv_omega

lemma kalloc_ends (h : Pool U own s.freelist) : Ends kalloc s E fun r t =>
    (r = none ∧ t = s ∧ s.freelist = []) ∨
      ∃ f, r = some f ∧ f ∈ U ∧ t.page = s.page ∧ Pool (U \ {f}) own t.freelist := by
  refine Ends.modifyGet ?_
  cases hfree : s.freelist with
  | nil => exact Or.inl ⟨rfl, rfl, rfl⟩
  | cons r =>
    rw [hfree] at h
    exact Or.inr ⟨r, rfl, h.mem_of_free List.mem_cons_self, rfl, h.alloc⟩

/-- The page that is allocated is loose. -/
lemma kalloc_space (h : Space P U s d) : Ends kalloc s E fun r t =>
    (r = none ∧ t = s ∧ s.freelist = []) ∨
      ∃ f, r = some f ∧ f ∈ U ∧ t.page = s.page ∧ Space P (U \ {f}) t d := by
  refine (kalloc_ends h).post ?_
  rintro r t (hnone | ⟨f, rfl, hf, hpage, hpool⟩)
  · exact Or.inl hnone
  · refine Or.inr ⟨f, rfl, hf, hpage, ?_⟩
    rw [Space, hpage]
    exact hpool

lemma Space.fill (h : Space P (U \ {f}) s d) (b : Page) :
    Space P (U \ {f}) { s with page := update s.page f b } d :=
  Space.of_agree h rfl fun _ hg => update_of_ne hg.2 _ _

lemma Keeps.fill (h : Space P (U \ {f}) s d) (hf : f ∈ U) (b : Page) :
    Keeps P A U d s { s with page := update s.page f b } := by
  refine Keeps.of_agree h (fun _ hg => update_of_ne hg.2 _ _) ?_
  intro g hg
  refine update_of_ne ?_ _ _
  rintro rfl
  exact hg hf

lemma memset_ends (f : Frame) (b : Byte) : Ends (memset f b) s E fun _ t =>
    t = { s with page := update s.page f fun _ => b } :=
  Ends.modify rfl

lemma kfree_ends (h : Pool U own s.freelist) (hf : f ∉ U) (hk : k.Allocatable f) :
    Ends (kfree k f) s E fun _ t => t.page = update s.page f (fun _ => 1) ∧
      t.freelist = f :: s.freelist ∧ Pool (insert f U) own t.freelist := by
  rw [kfree, if_neg hk]
  refine Ends.bind (memset_ends f 1) ?_
  rintro _ t rfl
  exact Ends.modify ⟨rfl, rfl, h.release hf⟩

/-- A loose page is freed. -/
lemma kfree_space (h : Space P U s d) (hf : f ∉ U) (hk : k.Allocatable f) :
    Ends (kfree k f) s E fun _ t => Space P (insert f U) t d ∧ Keeps P A (insert f U) d s t ∧
      t.freelist = f :: s.freelist := by
  refine (kfree_ends h hf hk).post ?_
  rintro _ t ⟨hpage, hfree, hpool⟩
  have hagree : ∀ g ∈ U, t.page g = s.page g := by
    intro g hg
    rw [hpage, update_of_ne]
    rintro rfl
    exact hf hg
  refine ⟨?_, Keeps.of_agree h hagree ?_, hfree⟩
  · exact hpool.congr (held_congr (hagree d h.dir_mem) fun _ tab ht => hagree tab (h.table_mem ht))
  · intro g hg
    rw [hpage, update_of_ne]
    rintro rfl
    exact hg (Set.mem_insert _ _)

/-! ### Page tables -/

lemma getEntry_ends (e : Entry) : Ends (getEntry e) s E fun v t =>
    v = (s.page e.1).getInt e.2 ∧ t = s := ⟨rfl, rfl⟩

lemma putEntry_ends (e : Entry) (v : Word) : Ends (putEntry e v) s E fun _ t =>
    t = { s with page := setEntry s.page e v } :=
  Ends.modify rfl

lemma walkpgdir_ends (d : Frame) (va : Word) : Ends (walkpgdir d va false) s E fun r t =>
    t = s ∧ r = (tableOf s.page d (PDX va)).map fun tab => (tab, PTX va) := by
  refine Ends.bind (getEntry_ends _) ?_
  rintro pde t ⟨rfl, rfl⟩
  refine Ends.ite ?_ ?_
  all_goals
    intro hp
    exact Ends.pure ⟨rfl, by simp [tableOf, hp]⟩

/-- An empty table from outside is added. -/
lemma Space.addTable (h : Space P U s d) (hi : tableOf s.page d i = none) (hlt : i < 1024) (hf : f ∉ U)
    (hzero : s.page f = fun _ => 0) :
    Space P (insert f U) { s with page := setEntry s.page (d, i) (tableEntry f) } d :=
  h.take hf (held_setTable h hi hlt hf hzero)

lemma Keeps.addTable (h : Space P U s d) (hi : tableOf s.page d i = none) (hlt : i < 1024) (hf : f ∉ U)
    (hzero : s.page f = fun _ => 0) :
    Keeps P A U d s { s with page := setEntry s.page (d, i) (tableEntry f) } where
  pte p _ := pteOf_setTable h hi hlt hf hzero p
  content p hp _ g hg := setEntry_of_ne (page_ne_dir h hp hg)
  table j tab hj := by
    have hne : j ≠ i := by
      rintro rfl
      rw [hi] at hj
      cases hj
    rw [tableOf_setTable hlt, if_neg hne, hj]
  outside g hg := by
    refine setEntry_of_ne ?_
    rintro rfl
    exact hg h.dir_mem

lemma tableOf_zero (hzero : s.page d = fun _ => 0) : tableOf s.page d i = none := by
  rw [tableOf, hzero, getInt_zero]
  rfl

/-- An empty directory. -/
lemma Space.ofEmpty (h : Free U s) (hd : d ∉ U) (hzero : s.page d = fun _ => 0) :
    Space P (insert d U) s d := by
  refine h.take (x := .dir) hd ?_
  intro x f
  cases x with
  | dir => simp [Held]
  | table => simp [Held, tableOf_zero hzero]
  | page p =>
    have hnone : pageOf s.page d p = none := by
      rw [pageOf_eq_none, pteOf_of_none (tableOf_zero hzero), present_zero]
    simp [Held, hnone]

/-- A table is found or added; no entry changes. -/
lemma walkpgdir_alloc_ends (h : Space P U s d) (va : Word) :
    Ends (walkpgdir d va true) s E fun r t => Space P U t d ∧ Keeps P ∅ U d s t ∧
      TablesFor {pageNo va} d s t ∧
      ((r = none ∧ t.freelist = []) ∨
        ∃ tab, r = some (tab, PTX va) ∧ tableOf t.page d (PDX va) = some tab) := by
  refine Ends.bind (getEntry_ends _) ?_
  rintro pde t ⟨rfl, rfl⟩
  refine Ends.ite ?_ ?_
  · intro hp
    exact Ends.pure ⟨h, Keeps.refl, TablesFor.refl, Or.inr ⟨_, rfl, by simp [tableOf, hp]⟩⟩
  intro hp
  have hnone : tableOf t.page d (PDX va) = none := by simp [tableOf, hp]
  refine Ends.ite (fun h => by cases h) fun _ => Ends.bind (kalloc_space h) ?_
  rintro r t' (⟨rfl, rfl, hempty⟩ | ⟨f, rfl, hf, hpage, hloose⟩)
  · exact Ends.pure ⟨h, Keeps.refl, TablesFor.refl, Or.inl ⟨rfl, hempty⟩⟩
  refine Ends.bind (memset_ends f 0) ?_
  rintro _ t₁ rfl
  refine Ends.bind (putEntry_ends _ _) ?_
  rintro _ t₂ rfl
  have hfill := hloose.fill fun _ => 0
  have hkeeps : Keeps P ∅ U d t { t' with page := update t'.page f fun _ => 0 } :=
    (Keeps.of_page hpage).trans (Keeps.fill hloose hf _)
  have hlt : PDX va < 1024 := by
    rw [PDX_eq, pageNo]
    have := va.isLt
    omega
  have hdir : update t'.page f (fun _ => 0) d = t.page d := by
    rw [update_of_ne hloose.dir_mem.2, hpage]
  have hnone' : tableOf (update t'.page f fun _ => 0) d (PDX va) = none :=
    (tableOf_congr hdir _).trans hnone
  have hzero : update t'.page f (fun _ => 0) f = fun _ => 0 := update_self _ _ _
  have hfU : f ∉ U \ {f} := fun hmem => hmem.2 rfl
  have hspace := Space.addTable hfill hnone' hlt hfU hzero
  rw [Set.insert_sdiff_self_of_mem hf] at hspace
  refine Ends.pure ⟨hspace, hkeeps.trans ?_, ?_, Or.inr ⟨f, rfl, ?_⟩⟩
  · exact (Keeps.addTable hfill hnone' hlt hfU hzero).mono Set.sdiff_subset (Set.Subset.refl _)
      Set.sdiff_subset
  · intro i hi
    have hne : i ≠ PDX va := by
      rw [PDX_eq]
      exact (hi _ rfl).symm
    exact (tableOf_setTable hlt i).trans ((if_neg hne).trans (tableOf_congr hdir i))
  · exact (tableOf_setTable hlt _).trans (if_pos rfl)

/-! ### Mapping pages -/

lemma Space.setPte {v : Word} (h : Space P U s d) (ht : tableOf s.page d (p / 1024) = some tab)
    (hp : p ∉ P) : Space P U { s with page := setEntry s.page (tab, p % 1024) v } d :=
  h.congr (held_setPte h ht hp)

lemma Keeps.setPte {v : Word} (h : Space P U s d) (ht : tableOf s.page d (p / 1024) = some tab)
    (hA : p ∈ A) : Keeps P A U d s { s with page := setEntry s.page (tab, p % 1024) v } where
  pte q hq := by
    have hne : q ≠ p := by
      rintro rfl
      exact hq hA
    exact (pteOf_setPte h ht q).trans (if_neg hne)
  content q hq _ f hf := setEntry_of_ne (page_ne_table h hq hf ht)
  table i u hi := (tableOf_setPte h ht i).trans hi
  outside f hf := by
    refine setEntry_of_ne ?_
    rintro rfl
    exact hf (h.table_mem ht)

/-- The page is mapped, unless there is no page for a table. -/
lemma mapPage_ends (h : Space P U s d) (hp : pageNo a ∉ P)
    (habs : present (pteOf s.page d (pageNo a)) = false) :
    Ends (mapPage d a pa perm) s E fun r t => Space P U t d ∧ TablesFor {pageNo a} d s t ∧
      ((r = false ∧ Keeps P ∅ U d s t ∧ t.freelist = []) ∨
        (r = true ∧ Keeps P {pageNo a} U d s t ∧ pteOf t.page d (pageNo a) = pa ||| perm ||| PTE_P)) := by
  refine Ends.bind (walkpgdir_alloc_ends h a) ?_
  rintro r t ⟨hspace, hkeeps, htabs, ⟨rfl, hempty⟩ | ⟨tab, rfl, htab⟩⟩
  · exact Ends.pure ⟨hspace, htabs, Or.inl ⟨rfl, hkeeps, hempty⟩⟩
  rw [PDX_eq] at htab
  refine Ends.bind (getEntry_ends _) ?_
  rintro v t' ⟨rfl, rfl⟩
  have hv : (t'.page tab).getInt (PTX a) = pteOf t'.page d (pageNo a) := by
    rw [PTX_eq, pteOf_of_table htab]
  rw [hv, hkeeps.pte _ (Set.notMem_empty _), habs]
  refine Ends.ite (fun h => by cases h) fun _ => Ends.bind (putEntry_ends _ _) ?_
  rintro _ u rfl
  rw [PTX_eq]
  refine Ends.pure ⟨hspace.setPte htab hp, ?_, Or.inr ⟨rfl, ?_, ?_⟩⟩
  · exact fun i hi => (tableOf_setPte hspace htab i).trans (htabs i hi)
  · have hsame : Keeps P {pageNo a} U d s t' := hkeeps.of_empty
    exact hsame.trans (Keeps.setPte hspace htab rfl)
  · exact (pteOf_setPte hspace htab _).trans (if_pos rfl)

def pages (p q : Nat) : Set Nat := {x | p ≤ x ∧ x ≤ q}

lemma pageNo_succ (h : pageNo a + 1 < 1048576) : pageNo (a + PGSIZE) = pageNo a + 1 := by
  rw [pageNo] at h ⊢
  have hadd : (a + PGSIZE).toNat = a.toNat + 4096 := by
    rw [PGSIZE]
    bv_omega
  rw [hadd, pageNo]
  omega

/-- All pages of the range are mapped, or there is no page for a table. -/
lemma mapLoop_ends (h : Space P U s d) (hlast : pageNo a + n < 1048576)
    (hP : ∀ p ∈ pages (pageNo a) (pageNo a + n), p ∉ P)
    (habs : ∀ p ∈ pages (pageNo a) (pageNo a + n), present (pteOf s.page d p) = false) :
    Ends (mapLoop d perm n a pa) s E fun r t => Space P U t d ∧
      Keeps P (pages (pageNo a) (pageNo a + n)) U d s t ∧
      TablesFor (pages (pageNo a) (pageNo a + n)) d s t ∧ (r = false → t.freelist = []) ∧
      ∀ j ≤ n, pteOf t.page d (pageNo a + j) = (pa + BitVec.ofNat 32 (4096 * j)) ||| perm ||| PTE_P ∨
        (r = false ∧ pteOf t.page d (pageNo a + j) = pteOf s.page d (pageNo a + j)) := by
  induction n generalizing a pa s with
  | zero =>
    have hmem : pageNo a ∈ pages (pageNo a) (pageNo a + 0) := ⟨Nat.le_refl _, Nat.le_refl _⟩
    refine (mapPage_ends h (hP _ hmem) (habs _ hmem)).post ?_
    have hsub := Set.singleton_subset_iff.mpr hmem
    rintro r t ⟨hspace, htabs, ⟨rfl, hkeeps, hempty⟩ | ⟨rfl, hkeeps, hpte⟩⟩
    · refine ⟨hspace, hkeeps.of_empty, htabs.mono hsub, fun _ => hempty, ?_⟩
      exact fun j _ => Or.inr ⟨rfl, hkeeps.pte _ (Set.notMem_empty _)⟩
    · refine ⟨hspace, hkeeps.weaken hsub, htabs.mono hsub, (fun h => by cases h), ?_⟩
      intro j hj
      obtain rfl : j = 0 := Nat.le_zero.mp hj
      exact Or.inl (by simpa using hpte)
  | succ n ih =>
    have hmem : pageNo a ∈ pages (pageNo a) (pageNo a + (n + 1)) := ⟨Nat.le_refl _, by omega⟩
    refine Ends.bind (mapPage_ends h (hP _ hmem) (habs _ hmem)) ?_
    have hfirst := Set.singleton_subset_iff.mpr hmem
    rintro r t ⟨hspace, htabs, ⟨rfl, hkeeps, hempty⟩ | ⟨rfl, hkeeps, hpte⟩⟩
    · refine Ends.pure ⟨hspace, hkeeps.of_empty, htabs.mono hfirst, fun _ => hempty, ?_⟩
      exact fun j _ => Or.inr ⟨rfl, hkeeps.pte _ (Set.notMem_empty _)⟩
    have hnext : pageNo (a + PGSIZE) = pageNo a + 1 := pageNo_succ (by omega)
    have hsub : ∀ p ∈ pages (pageNo (a + PGSIZE)) (pageNo (a + PGSIZE) + n),
        p ∈ pages (pageNo a) (pageNo a + (n + 1)) ∧ p ≠ pageNo a := by
      rintro p ⟨hle, hge⟩
      exact ⟨⟨by omega, by omega⟩, by omega⟩
    refine (ih hspace (by omega) (fun p hp => hP p (hsub p hp).1) ?_).post ?_
    · intro p hp
      rw [hkeeps.pte p (hsub p hp).2]
      exact habs p (hsub p hp).1
    · rintro r t' ⟨hspace', hkeeps', htabs', hempty, hptes⟩
      refine ⟨hspace', ?_, ?_, hempty, ?_⟩
      · exact (hkeeps.weaken hfirst).trans (hkeeps'.weaken fun p hp => (hsub p hp).1)
      · exact (htabs.mono hfirst).trans (htabs'.mono fun p hp => (hsub p hp).1)
      · intro j hj
        cases j with
        | zero =>
          have hsame := hkeeps'.pte (pageNo a) fun hp => (hsub _ hp).2 rfl
          rw [hpte] at hsame
          exact Or.inl (by simpa using hsame)
        | succ j =>
          have hj' := hptes j (by omega)
          have hpa : pa + PGSIZE + BitVec.ofNat 32 (4096 * j) =
              pa + BitVec.ofNat 32 (4096 * (j + 1)) := by
            rw [Nat.mul_succ, BitVec.ofNat_add, BitVec.add_assoc, BitVec.add_comm PGSIZE]
            rfl
          rw [hnext, Nat.add_assoc, Nat.add_comm 1 j, hpa] at hj'
          refine hj'.imp_right fun hr => ⟨hr.1, hr.2.trans (hkeeps.pte _ ?_)⟩
          show pageNo a + (j + 1) ≠ pageNo a
          omega

/-- The number of the last page of a block. -/
def lastPage (va size : Word) : Nat := (va.toNat + size.toNat - 1) / 4096

lemma mappages_eq (hsize : 0 < size.toNat) (hend : va.toNat + size.toNat ≤ 4294967296) :
    mappages d va size pa perm = mapLoop d perm (lastPage va size - pageNo va) (PGROUNDDOWN va) pa := by
  have hdown := toNat_PGROUNDDOWN va
  have hlast := toNat_PGROUNDDOWN (va + size - 1)
  rw [pageNo] at hdown hlast
  have hsum : (va + size - 1).toNat = va.toNat + size.toNat - 1 := by bv_omega
  rw [hsum] at hlast
  have hpages : pageNo (PGROUNDDOWN (va + size - 1) - PGROUNDDOWN va) =
      lastPage va size - pageNo va := by
    rw [pageNo, lastPage, pageNo, BitVec.toNat_sub, hdown, hlast]
    omega
  rw [mappages, hpages]

lemma pageNo_PGROUNDDOWN (a : Word) : pageNo (PGROUNDDOWN a) = pageNo a := by
  rw [pageNo, toNat_PGROUNDDOWN]
  exact Nat.mul_div_cancel _ (by decide)

/-- `mappages` of a block that does not pass the largest address. -/
lemma mappages_ends (h : Space P U s d) (hsize : 0 < size.toNat)
    (hend : va.toNat + size.toNat ≤ 4294967296) (hP : ∀ p ∈ pages (pageNo va) (lastPage va size), p ∉ P)
    (habs : ∀ p ∈ pages (pageNo va) (lastPage va size), present (pteOf s.page d p) = false) :
    Ends (mappages d va size pa perm) s E fun r t => Space P U t d ∧
      Keeps P (pages (pageNo va) (lastPage va size)) U d s t ∧
      TablesFor (pages (pageNo va) (lastPage va size)) d s t ∧ (r = false → t.freelist = []) ∧
      ∀ p ∈ pages (pageNo va) (lastPage va size),
        pteOf t.page d p = (pa + BitVec.ofNat 32 (4096 * (p - pageNo va))) ||| perm ||| PTE_P ∨
          (r = false ∧ pteOf t.page d p = pteOf s.page d p) := by
  have hle : pageNo va ≤ lastPage va size := Nat.div_le_div_right (by omega)
  have hlt : lastPage va size < 1048576 := by
    rw [lastPage]
    omega
  have hrange : pages (pageNo (PGROUNDDOWN va))
      (pageNo (PGROUNDDOWN va) + (lastPage va size - pageNo va)) =
      pages (pageNo va) (lastPage va size) := by
    rw [pageNo_PGROUNDDOWN, Nat.add_sub_cancel' hle]
  rw [← hrange] at hP habs
  rw [mappages_eq hsize hend]
  refine (mapLoop_ends h ?_ hP habs).post ?_
  · rw [pageNo_PGROUNDDOWN]
    omega
  rintro r t ⟨hspace, hkeeps, htabs, hempty, hpte⟩
  rw [hrange] at hkeeps htabs
  rw [pageNo_PGROUNDDOWN] at hpte
  refine ⟨hspace, hkeeps, htabs, hempty, ?_⟩
  rintro p ⟨hge, hp⟩
  have hj := hpte (p - pageNo va) (by omega)
  rwa [Nat.add_sub_cancel' hge] at hj

lemma mappages_page (haligned : a.toNat % 4096 = 0) :
    mappages d a PGSIZE pa perm = mapPage d a pa perm := by
  have hdown : PGROUNDDOWN a = a := by
    refine BitVec.eq_of_toNat_eq ?_
    rw [toNat_PGROUNDDOWN, pageNo]
    omega
  have hlast : lastPage a PGSIZE = pageNo a := by
    show (a.toNat + 4096 - 1) / 4096 = a.toNat / 4096
    omega
  have hend : a.toNat + PGSIZE.toNat ≤ 4294967296 := by
    show a.toNat + 4096 ≤ 4294967296
    omega
  rw [mappages_eq (by decide) hend, hlast, Nat.sub_self, hdown]
  rfl

lemma mapUser_ends (h : Space P (U \ {f}) s d) (hf : f ∈ U) (hp : pageNo a ∈ P)
    (haligned : a.toNat % 4096 = 0) (hperm : perm < 4096)
    (habs : present (pteOf s.page d (pageNo a)) = false) :
    Ends (mappages d a PGSIZE f.addr perm) s E fun r t =>
      t.page f = s.page f ∧
      ((r = false ∧ Space P (U \ {f}) t d ∧ Keeps P ∅ U d s t ∧ t.freelist = []) ∨
        (r = true ∧ Space P U t d ∧ Keeps P {pageNo a} U d s t ∧
          pteOf t.page d (pageNo a) = f.addr ||| perm ||| PTE_P)) := by
  -- until it is mapped, the virtual page may count as a holder or not
  have hfree : ∀ {t : Kmem}, present (pteOf t.page d (pageNo a)) = false →
      ∀ p g, pageOf t.page d p = some g → (p ∈ P \ {pageNo a} ↔ p ∈ P) := by
    intro t ht p g hg
    refine ⟨fun hmem => hmem.1, fun hmem => ⟨hmem, ?_⟩⟩
    rintro rfl
    rw [pageOf_eq_none.mpr ht] at hg
    cases hg
  have hother : Space (P \ {pageNo a}) (U \ {f}) s d := h.congr_pages (hfree habs)
  rw [mappages_page haligned]
  refine (mapPage_ends hother (fun hmem => hmem.2 rfl) habs).post ?_
  rintro r t ⟨hspace, -, ⟨rfl, hkeeps, hempty⟩ | ⟨rfl, hkeeps, hpte⟩⟩
  · have habs' : present (pteOf t.page d (pageNo a)) = false := by
      rw [hkeeps.pte _ (Set.notMem_empty _), habs]
    refine ⟨hkeeps.outside f fun hmem => hmem.2 rfl, Or.inl ⟨rfl, ?_, ?_, hempty⟩⟩
    · exact hspace.congr_pages fun p g hg => (hfree habs' p g hg).symm
    · refine ⟨hkeeps.pte, ?_, hkeeps.table, fun g hg => hkeeps.outside g fun hmem => hg hmem.1⟩
      intro p hpP hnot g hg
      exact hkeeps.content p ((hfree habs p g hg).mpr hpP) hnot g hg
  · refine ⟨hkeeps.outside f fun hmem => hmem.2 rfl, Or.inr ⟨rfl, ?_, ?_, hpte⟩⟩
    · have hpage : pageOf t.page d (pageNo a) = some f := by
        rw [pageOf_eq_some, hpte]
        exact ⟨present_or_P _, PTE_ADDR_entry f hperm⟩
      have hown := hspace.own hpage fun hmem => hmem.2 rfl
      rwa [Set.insert_sdiff_self_of_mem hp, Set.insert_sdiff_self_of_mem hf] at hown
    · exact hkeeps.mono (Set.Subset.refl _) (Set.Subset.refl _) Set.sdiff_subset

end Xv6.Vm
