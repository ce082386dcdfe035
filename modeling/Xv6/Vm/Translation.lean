import Xv6.Vm.Growproc

/-!
# Mapping and unmapping as updates

What `mappages` and `deallocuvm` do to the map from virtual pages to entries. The loop of `mappages` ends
when its variable reaches the last page, which may be the last page of all. The loop of `deallocuvm` jumps
over the 4 MB of a missing page table; it does the same, in every memory, as the loop that visits each
page.
-/

namespace Xv6.Vm

open Machine BitVec

variable {k : Kernel} {U : Set Frame} {s t : Kmem} {d f : Frame} {E : Stop → Prop}
  {a va pa perm size last oldsz newsz : Word} {n m p q : Nat}

/-! ### `mappages` -/

/-- The loop of `mappages` from `a` on, for at most `n` rounds; `none` if it is not over by then. -/
def mapRounds (pgdir : Frame) (perm last : Word) : Nat → Word → Word → Op (Option Bool)
  | 0, _, _ => return none
  | n + 1, a, pa => do
    if ← mapPage pgdir a pa perm then
      if a = last then
        return some true
      else
        mapRounds pgdir perm last n (a + PGSIZE) (pa + PGSIZE)
    else
      return some false

/-- The variable meets the last page: one round for each page is enough. -/
lemma mapRounds_eq (hn : n < m) (hlast : last.toNat = a.toNat + 4096 * n) :
    mapRounds d perm last m a pa = some <$> mapLoop d perm n a pa := by
  induction n generalizing m a pa with
  | zero =>
    obtain ⟨m, rfl⟩ := Nat.exists_eq_succ_of_ne_zero (Nat.ne_zero_of_lt hn)
    have ha : a = last := eq_of_toNat_eq (by omega)
    rw [mapRounds, mapLoop, map_eq_pure_bind]
    refine bind_congr fun r => ?_
    cases r with
    | false => rfl
    | true => exact if_pos ha
  | succ n ih =>
    obtain ⟨m, rfl⟩ := Nat.exists_eq_succ_of_ne_zero (Nat.ne_zero_of_lt hn)
    have ha : a ≠ last := by
      rintro rfl
      omega
    have hnext : last.toNat = (a + PGSIZE).toNat + 4096 * n := by
      have hlt := last.isLt
      rw [PGSIZE]
      bv_omega
    rw [mapRounds, mapLoop, map_bind]
    refine bind_congr fun r => ?_
    cases r with
    | false => rfl
    | true => exact (if_neg ha).trans (ih (Nat.lt_of_succ_lt_succ hn) hnext)

/-- The virtual pages of `[PGROUNDDOWN(va), va + size)`. -/
def block (va size : Word) : Set Nat :=
  {p | (PGROUNDDOWN va).toNat ≤ 4096 * p ∧ 4096 * p < va.toNat + size.toNat}

lemma block_eq (hsize : 0 < size.toNat) : block va size = pages (pageNo va) (lastPage va size) := by
  ext p
  rw [block, pages, Set.mem_ofPred_eq, Set.mem_ofPred_eq, toNat_PGROUNDDOWN, lastPage]
  constructor <;> rintro ⟨hlo, hhi⟩ <;> exact ⟨by omega, by omega⟩

/-- The entry for page `p` of a block at `va` that is mapped to `pa`. -/
def entryFor (va pa perm : Word) (p : Nat) : Word :=
  (pa + BitVec.ofNat 32 (4096 * (p - pageNo va))) ||| perm ||| PTE_P

/-- The page of a physical address, if it is the address of a page. -/
lemma addr_PTE_ADDR_of_aligned {x : Word} (h : x.toNat % 4096 = 0) : (PTE_ADDR x).addr = x := by
  have hflags : PTE_FLAGS x = 0#32 := by
    have hmask : x.toNat &&& 0xFFF = x.toNat % 4096 := Nat.and_two_pow_sub_one_eq_mod _ 12
    refine eq_of_toNat_eq ?_
    rw [PTE_FLAGS, toNat_and]
    exact hmask.trans h
  have hx := addr_PTE_ADDR x
  rwa [hflags, or_zero] at hx

/-- The entry maps to the page at the same distance from `pa`, with these flags. -/
lemma entryFor_spec (hpa : pa.toNat % 4096 = 0) (hperm : perm < 4096) :
    present (entryFor va pa perm p) = true ∧ PTE_FLAGS (entryFor va pa perm p) = perm ||| PTE_P ∧
    (PTE_ADDR (entryFor va pa perm p)).addr = pa + BitVec.ofNat 32 (4096 * (p - pageNo va)) := by
  have haligned : (pa + BitVec.ofNat 32 (4096 * (p - pageNo va))).toNat % 4096 = 0 := by
    rw [toNat_add, toNat_ofNat]
    omega
  have haddr := addr_PTE_ADDR_of_aligned haligned
  rw [entryFor, ← haddr, PTE_FLAGS_entry _ hperm, PTE_ADDR_entry _ hperm]
  exact ⟨present_or_P _, rfl, rfl⟩

/-- Mapping a block of which no page is present, in a directory with tables of its own: the loop of
`mappages` ends after at most one round for each page. On success every page of the block has its entry, and
no other entry has changed; on failure a page of the block has its entry or the old one. -/
theorem mappages_updates (h : Space ∅ U s d) (hpa : pa.toNat % 4096 = 0) (hsize : 0 < size.toNat)
    (hend : va.toNat + size.toNat ≤ 4294967296)
    (habs : ∀ p ∈ block va size, present (pteOf s.page d p) = false) :
    (∀ n, lastPage va size - pageNo va < n →
      mapRounds d perm (PGROUNDDOWN (va + size - 1)) n (PGROUNDDOWN va) pa =
        some <$> mappages d va size pa perm) ∧
    Ends (mappages d va size pa perm) s (fun _ => False) (fun r t => Space ∅ U t d ∧
      (∀ p ∉ block va size, pteOf t.page d p = pteOf s.page d p) ∧
      (r = true → ∀ p ∈ block va size, pteOf t.page d p = entryFor va pa perm p) ∧
      (r = false → ∀ p ∈ block va size,
        pteOf t.page d p = entryFor va pa perm p ∨ pteOf t.page d p = pteOf s.page d p)) ∧
    (perm < 4096 → ∀ p, present (entryFor va pa perm p) = true ∧
      PTE_FLAGS (entryFor va pa perm p) = perm ||| PTE_P ∧
      (PTE_ADDR (entryFor va pa perm p)).addr = pa + BitVec.ofNat 32 (4096 * (p - pageNo va))) := by
  refine ⟨?_, ?_, fun hperm p => entryFor_spec hpa hperm⟩
  · intro n hn
    rw [mappages_eq hsize hend]
    refine mapRounds_eq hn ?_
    have hsum : (va + size - 1).toNat = va.toNat + size.toNat - 1 := by bv_omega
    rw [toNat_PGROUNDDOWN, toNat_PGROUNDDOWN, lastPage, pageNo, pageNo, hsum]
    omega
  · rw [block_eq hsize] at habs ⊢
    refine (mappages_ends h hsize hend (fun p _ => Set.notMem_empty p) habs).imp (fun _ h => h) ?_
    rintro r t ⟨hspace, hkeeps, -, -, hpte⟩
    refine ⟨hspace, hkeeps.pte, ?_, ?_⟩
    · rintro rfl p hp
      exact (hpte p hp).resolve_right fun hr => by cases hr.1
    · rintro rfl p hp
      exact (hpte p hp).imp_right fun hr => hr.2

/-- The last two pages of the address space are mapped in an empty directory. -/
theorem mappages_updates_top : Space ∅ {0x400, 0x403} noEntries 0x400 ∧
    Ends (mappages 0x400 0xFFFFE000 0x2000 0x5000 PTE_W) noEntries (fun _ => False) fun r t =>
      Space ∅ {0x400, 0x403} t 0x400 ∧ (r = true →
        ∀ p ∈ block 0xFFFFE000 0x2000, pteOf t.page 0x400 p = entryFor 0xFFFFE000 0x5000 PTE_W p) := by
  refine ⟨noEntries_space, ?_⟩
  have habs : ∀ p ∈ block 0xFFFFE000 0x2000, present (pteOf noEntries.page 0x400 p) = false := by
    intro p _
    rw [pteOf_of_none (tableOf_zero rfl), present_zero]
  have haligned : (0x5000 : Word).toNat % 4096 = 0 := by decide
  obtain ⟨-, hends, -⟩ := mappages_updates noEntries_space haligned (by decide) (by decide) habs
  exact hends.imp (fun _ h => h) fun r t ht => ⟨ht.1, ht.2.2.1⟩

/-! ### `deallocuvm` -/

/-- `deallocuvm` is the loop over all pages. Where the user pages can be freed, it frees those that are
present at page addresses in `[PGROUNDUP(newsz), oldsz)`, each once, and clears their entries and no
other. -/
theorem deallocuvm_frees_present (h : Space Users U s d) (hk : Freeable k s d) (hlt : newsz < oldsz)
    (hle : oldsz ≤ KERNBASE) :
    deallocuvm k d oldsz newsz = (do
      clearPages k d ((oldsz.toNat + 4095) / 4096 - (newsz.toNat + 4095) / 4096) (PGROUNDUP newsz)
      return newsz) ∧
    Ends (deallocuvm k d oldsz newsz) s (fun _ => False) fun r t => r = newsz ∧ Space Users U t d ∧
      ∃ l, Cleared d s l t ∧
        ∀ p, p ∈ l ↔ p ∈ starts (PGROUNDUP newsz) oldsz ∧ present (pteOf s.page d p) = true := by
  refine ⟨deallocuvm_eq d hlt hle, ?_⟩
  have hround := toNat_PGROUNDUP_le (BitVec.le_trans (BitVec.le_of_lt hlt) hle)
  have hold : oldsz.toNat ≤ 2147483648 := hle
  have hlt' : newsz.toNat < oldsz.toNat := hlt
  have hpage := pageNo_PGROUNDUP (BitVec.le_trans (BitVec.le_of_lt hlt) hle)
  rw [deallocuvm_eq d hlt hle]
  refine Ends.bind (clearPages_ends h hk (by omega)) ?_
  rintro _ t ⟨hspace, -, l, hcl, hl⟩
  refine Ends.pure ⟨rfl, hspace, l, hcl, ?_⟩
  intro p
  rw [hl, hpage, starts, Set.mem_ofPred_eq, hround]
  refine and_congr_left fun _ => ?_
  constructor
  · rintro ⟨hlo, hhi⟩
    exact ⟨by omega, by omega⟩
  · rintro ⟨hlo, hhi⟩
    exact ⟨by omega, by omega⟩

/-- A process of one page gives it back. -/
theorem deallocuvm_frees_present_one : Freeable smallKernel onePage 0x400 ∧
    Ends (deallocuvm smallKernel 0x400 4096 0) onePage (fun _ => False) fun r t => r = 0 ∧
      ∃ l, Cleared 0x400 onePage l t ∧ ∀ p, p ∈ l ↔
        p ∈ starts (PGROUNDUP 0) 4096 ∧ present (pteOf onePage.page 0x400 p) = true := by
  have hspace := onePage_addressSpace.space
  have hk : Freeable smallKernel onePage 0x400 :=
    fun p hp f hf => onePage_addressSpace.allocatable f (hspace.page_mem hp hf)
  refine ⟨hk, ?_⟩
  have hends := (deallocuvm_frees_present hspace hk (show (0 : Word) < 4096 by decide) (by decide)).2
  exact hends.imp (fun _ h => h) fun r t ht => ⟨ht.1, ht.2.2⟩

/-- A page that is present but belongs to the kernel stops the loop. -/
lemma clearPage_kfree (hf : pageOf s.page d (pageNo a) = some f) (hk : ¬ k.Allocatable f) :
    clearPage k d a s = .error .kfree := by
  obtain ⟨hpres, rfl⟩ := pageOf_eq_some.mp hf
  cases htab : tableOf s.page d (pageNo a / 1024) with
  | none =>
    rw [pteOf_of_none htab] at hpres
    cases hpres
  | some tab =>
    have hwalk := walkpgdir_run (s := s) d a
    rw [htab] at hwalk
    show (walkpgdir d a false s >>= _) = _
    rw [hwalk]
    have hv : (s.page tab).getInt (PTX a) = pteOf s.page d (pageNo a) := by
      rw [PTX_eq, pteOf_of_table htab]
    show (if present ((s.page tab).getInt (PTX a)) then
      if PTE_ADDR ((s.page tab).getInt (PTX a)) = 0 then _ else _ else _ : Op Unit) s = _
    rw [hv, if_pos hpres]
    by_cases hzero : PTE_ADDR (pteOf s.page d (pageNo a)) = 0
    · rw [if_pos hzero]
      rfl
    · rw [if_neg hzero]
      show (kfree k _ s >>= _) = _
      rw [kfree, if_pos (Classical.not_not.mp hk)]
      rfl

/-- So `deallocuvm` panics if the first page of the range is one. -/
lemma deallocuvm_kfree (hlt : newsz < oldsz) (hle : oldsz ≤ KERNBASE)
    (hfirst : PGROUNDUP newsz < oldsz) (hf : pageOf s.page d (pageNo (PGROUNDUP newsz)) = some f)
    (hk : ¬ k.Allocatable f) : deallocuvm k d oldsz newsz s = .error .kfree := by
  have hround := toNat_PGROUNDUP_le (BitVec.le_trans (BitVec.le_of_lt hlt) hle)
  have hfirst' : (PGROUNDUP newsz).toNat < oldsz.toNat := hfirst
  obtain ⟨n, hn⟩ : ∃ n, (oldsz.toNat + 4095) / 4096 - (newsz.toNat + 4095) / 4096 = n + 1 :=
    ⟨(oldsz.toNat + 4095) / 4096 - (newsz.toNat + 4095) / 4096 - 1, by omega⟩
  rw [deallocuvm_eq d hlt hle, hn]
  show ((clearPage k d (PGROUNDUP newsz) s >>= _) >>= _) = _
  rw [clearPage_kfree hf hk]
  rfl

/-- A directory that maps address 0 to the second page of physical memory, which is the kernel's. -/
def kernelPage : Kmem where
  page := setEntry (setEntry (fun _ _ => 0) (0x400, 0) (tableEntry 0x401)) (0x401, 0)
    (Frame.addr 1 ||| (PTE_W ||| PTE_U) ||| PTE_P)
  freelist := [0x403]

lemma kernelPage_pte (p : Nat) : pteOf kernelPage.page 0x400 p =
    if p = 0 then Frame.addr 1 ||| (PTE_W ||| PTE_U) ||| PTE_P else 0 := by
  refine (pteOf_setPte (p := 0) oneTable_space oneTable_table p).trans ?_
  rw [pteOf_setTable noEntries_space (tableOf_zero rfl) (by decide) (by decide) rfl,
    pteOf_of_none (tableOf_zero rfl)]

/-- The frame of the only user entry is not 0, but `kfree` does not take it: the kernel panics. -/
theorem deallocuvm_panics_on_kernel_page :
    (∀ p ∈ Users, ∀ f, pageOf kernelPage.page 0x400 p = some f → f ≠ 0) ∧
    deallocuvm smallKernel 0x400 4096 0 kernelPage = .error .kfree := by
  constructor
  · intro p _ f hf
    obtain ⟨hpres, rfl⟩ := pageOf_eq_some.mp hf
    rw [kernelPage_pte] at hpres ⊢
    split at hpres
    · rename_i hp
      rw [if_pos hp]
      decide
    · cases hpres
  · have hf : pageOf kernelPage.page 0x400 (pageNo (PGROUNDUP 0)) = some 1 := by
      have hzero : pageNo (PGROUNDUP 0) = 0 := by decide
      rw [hzero, pageOf_eq_some, kernelPage_pte]
      decide
    exact deallocuvm_kfree (by decide) (by decide) (by decide) hf (by decide)

end Xv6.Vm
