import Xv6.Vm.Mapping

/-!
# Growing, shrinking and freeing

`allocuvm` adds zeroed pages or, if it runs out of pages, takes back what it has added. `deallocuvm` frees
the user pages of a range, `freevm` all pages of an address space.
-/

namespace Xv6.Vm

open Machine Function List
open BitVec (le_of_lt le_trans not_le not_lt)

variable {k : Kernel} {U : Set Frame} {s t : Kmem} {d f : Frame} {E : Stop → Prop}
  {a oldsz newsz sz : Word} {n p : Nat}

/-- The virtual pages below `KERNBASE`. -/
def Users : Set Nat := {p | p < 524288}

/-- The virtual pages that start in `[lo, hi)`. -/
def starts (lo hi : Word) : Set Nat := {p | lo.toNat ≤ 4096 * p ∧ 4096 * p < hi.toNat}

/-! ### `deallocuvm` -/

/-- A user page is freed and its entry cleared. -/
lemma unmap_ends {tab : Frame} {α : Type} {x : α} (h : Space Users U s d) (hk : k.Allocatable f)
    (hp : p ∈ Users) (ht : tableOf s.page d (p / 1024) = some tab) (hf : pageOf s.page d p = some f) :
    Ends (do kfree k f; putEntry (tab, p % 1024) 0; return x) s E fun r t =>
      r = x ∧ Space Users U t d ∧ Keeps Users {p} U d s t ∧ pteOf t.page d p = 0 ∧
        t.freelist = f :: s.freelist := by
  have hfU : f ∈ U := h.page_mem hp hf
  have hout : Space (Users \ {p}) (U \ {f}) s d := h.disown hp hf
  have hloose : f ∉ U \ {f} := fun hmem => hmem.2 rfl
  refine Ends.bind (kfree_space (A := {p}) hout hloose hk) ?_
  rintro _ t ⟨hspace, hkeeps, hfree⟩
  rw [Set.insert_sdiff_self_of_mem hfU] at hspace hkeeps
  have ht' := hkeeps.table _ _ ht
  refine Ends.bind (putEntry_ends _ _) ?_
  rintro _ t' rfl
  have hpte : pteOf (setEntry t.page (tab, p % 1024) 0) d p = 0 :=
    (pteOf_setPte hspace ht' p).trans (if_pos rfl)
  have hnot : p ∉ Users \ {p} := fun hmem => hmem.2 rfl
  refine Ends.pure ⟨rfl, ?_, ?_, hpte, hfree⟩
  · refine (hspace.setPte ht' hnot).congr_pages ?_
    intro q g hg
    refine ⟨fun hq => ⟨hq, ?_⟩, fun hq => hq.1⟩
    rintro rfl
    rw [pageOf, hpte] at hg
    cases hg
  · exact (hkeeps.trans (Keeps.setPte hspace ht' rfl)).mono (Set.Subset.refl _) (Set.Subset.refl _)
      (Set.Subset.refl _)

lemma toNat_nextTable {a : Word} (h : pageNo a < 524288) :
    (PGADDR (BitVec.ofNat 32 (PDX a) + 1) 0 0 - PGSIZE + PGSIZE).toNat =
      (pageNo a / 1024 + 1) * 4194304 := by
  have hdir : (BitVec.ofNat 32 (PDX a) + 1).toNat = pageNo a / 1024 + 1 := by
    rw [PDX_eq]
    bv_omega
  have haddr : PGADDR (BitVec.ofNat 32 (PDX a) + 1) 0 0 = (BitVec.ofNat 32 (PDX a) + 1) <<< 22 := by
    simp [PGADDR]
  rw [BitVec.sub_add_cancel, haddr, BitVec.toNat_shiftLeft, hdir, Nat.shiftLeft_eq]
  omega

lemma toNat_PGROUNDUP_le (h : sz ≤ KERNBASE) : (PGROUNDUP sz).toNat = (sz.toNat + 4095) / 4096 * 4096 := by
  refine toNat_PGROUNDUP ?_
  rw [KERNBASE] at h
  bv_omega

lemma pageNo_PGROUNDUP (h : sz ≤ KERNBASE) : pageNo (PGROUNDUP sz) = (sz.toNat + 4095) / 4096 := by
  rw [pageNo, toNat_PGROUNDUP_le h]
  omega

/-- A user page starts below `KERNBASE`. -/
lemma mem_users {lo hi : Word} (hhi : hi ≤ KERNBASE) (hp : p ∈ starts lo hi) : p ∈ Users := by
  have hlt := hp.2
  have hhi' : hi.toNat ≤ 2147483648 := hhi
  show p < 524288
  omega

variable (k) in
/-- The body of a loop over all pages: a page that is present is freed and its entry cleared. -/
def clearPage (pgdir : Frame) (a : Word) : Op Unit := do
  match ← walkpgdir pgdir a false with
  | none => return ()
  | some pte =>
    let v ← getEntry pte
    if present v then
      if PTE_ADDR v = 0 then throw .kfree
      else
        kfree k (PTE_ADDR v)
        putEntry pte 0
        return ()
    else
      return ()

variable (k) in
/-- The loop over `n` pages from `a` on. -/
def clearPages (pgdir : Frame) : Nat → Word → Op Unit
  | 0, _ => return ()
  | n + 1, a => do
    clearPage k pgdir a
    clearPages pgdir n (a + PGSIZE)

lemma walkpgdir_run (d : Frame) (va : Word) : walkpgdir d va false s =
    .ok ((tableOf s.page d (pageNo va / 1024)).map fun tab => (tab, PTX va), s) := by
  obtain ⟨r, t, heq, rfl, rfl⟩ := (walkpgdir_ends (E := fun _ => False) d va).exists_ok
  rw [heq, PDX_eq]

lemma clearPage_none (h : tableOf s.page d (pageNo a / 1024) = none) : clearPage k d a s = .ok ((), s) := by
  have hwalk := walkpgdir_run (s := s) d a
  rw [h] at hwalk
  exact bind_eq_ok.mpr ⟨_, hwalk, rfl⟩

lemma deallocPage_none (h : tableOf s.page d (pageNo a / 1024) = none) : deallocPage k d a s =
    .ok (PGADDR (BitVec.ofNat 32 (PDX a) + 1) 0 0 - PGSIZE, s) := by
  have hwalk := walkpgdir_run (s := s) d a
  rw [h] at hwalk
  exact bind_eq_ok.mpr ⟨_, hwalk, rfl⟩

/-- Where there is a table, the two bodies do the same. -/
lemma deallocPage_some {tab : Frame} (h : tableOf s.page d (pageNo a / 1024) = some tab) :
    deallocPage k d a s = (do clearPage k d a; return a) s := by
  have hwalk := walkpgdir_run (s := s) d a
  rw [h] at hwalk
  show (walkpgdir d a false s >>= _) = ((walkpgdir d a false s >>= _) >>= _)
  rw [hwalk]
  show (if present ((s.page tab).getInt (PTX a)) then _ else _ : Op Word) s =
    ((if present ((s.page tab).getInt (PTX a)) then _ else _ : Op Unit) s >>= _)
  split
  · show (if PTE_ADDR ((s.page tab).getInt (PTX a)) = 0 then _ else _ : Op Word) s =
      ((if PTE_ADDR ((s.page tab).getInt (PTX a)) = 0 then _ else _ : Op Unit) s >>= _)
    split
    · rfl
    · show (kfree k _ s >>= _) = ((kfree k _ s >>= _) >>= _)
      cases kfree k (PTE_ADDR ((s.page tab).getInt (PTX a))) s <;> rfl
  · rfl

variable (k) in
/-- One round of the loop of `deallocuvm`. -/
def deallocRound (pgdir : Frame) (a : Word) : Op (Option Word) := do
  return some ((← deallocPage k pgdir a) + PGSIZE)

lemma toNat_step (h : a.toNat + 4096 < 4294967296) : (a + PGSIZE).toNat = a.toNat + 4096 := by
  rw [PGSIZE]
  bv_omega

/-- Pages without a table are passed over. -/
lemma clearPages_skip {j : Nat} (hlim : a.toNat + 4096 * j < 4294967296)
    (h : ∀ p, pageNo a ≤ p → p < pageNo a + j → tableOf s.page d (p / 1024) = none) :
    clearPages k d (j + n) a s = clearPages k d n (a + BitVec.ofNat 32 (4096 * j)) s := by
  induction j generalizing a with
  | zero =>
    have ha : a + BitVec.ofNat 32 (4096 * 0) = a := by
      rw [Nat.mul_zero]
      exact BitVec.add_zero a
    rw [Nat.zero_add, ha]
  | succ j ih =>
    have hsmall : a.toNat + 4096 < 4294967296 := by
      have hle : 4096 ≤ 4096 * (j + 1) := Nat.le_mul_of_pos_right _ (Nat.succ_pos j)
      exact Nat.lt_of_le_of_lt (Nat.add_le_add_left hle _) hlim
    have hnext := toNat_step hsmall
    have hpage : pageNo (a + PGSIZE) = pageNo a + 1 := by
      rw [pageNo, hnext, pageNo]
      omega
    have hrun : clearPages k d (j + 1 + n) a s = clearPages k d (j + n) (a + PGSIZE) s := by
      rw [Nat.add_right_comm, clearPages]
      show (clearPage k d a s >>= _) = _
      rw [clearPage_none (h _ (Nat.le_refl _) (by omega))]
      rfl
    have haddr : a + PGSIZE + BitVec.ofNat 32 (4096 * j) = a + BitVec.ofNat 32 (4096 * (j + 1)) := by
      rw [PGSIZE]
      bv_omega
    rw [hrun, ih (by omega) (fun p hlo hhi => h p (by omega) (by omega)), haddr]

/-- The loop of `deallocuvm` from `a` on is the loop over the `n` pages that are left. -/
lemma forBelow_dealloc (hle : oldsz ≤ KERNBASE) (ha : a.toNat % 4096 = 0)
    (hn : n = (oldsz.toNat + 4095) / 4096 - pageNo a) :
    forBelow .wrap oldsz (deallocRound k d) a s = (do clearPages k d n a; return true) s := by
  induction n using Nat.strong_induction_on generalizing a s with
  | _ n ih =>
    have hold : oldsz.toNat ≤ 2147483648 := hle
    have hpage : a.toNat = 4096 * pageNo a := by
      rw [pageNo]
      omega
    by_cases hlt : a < oldsz
    · have hlt' : a.toNat < oldsz.toNat := hlt
      cases ht : tableOf s.page d (pageNo a / 1024) with
      | none =>
        have hto := toNat_nextTable (a := a) (by omega)
        generalize hnext : PGADDR (BitVec.ofNat 32 (PDX a) + 1) 0 0 - PGSIZE + PGSIZE = a' at hto
        have hpage' : pageNo a' = (pageNo a / 1024 + 1) * 1024 := by
          rw [pageNo, hto]
          omega
        have hrun : deallocRound k d a s = .ok (some a', s) := by
          show (deallocPage k d a s >>= _) = _
          rw [deallocPage_none ht, ← hnext]
          rfl
        have hgt : a < a' := show a.toNat < a'.toNat by omega
        rw [forBelow_of_ok hlt hrun hgt]
        -- the pages that are passed over, as far as they are below `oldsz`
        obtain ⟨j, hj⟩ : ∃ j, j = n - ((oldsz.toNat + 4095) / 4096 - pageNo a') := ⟨_, rfl⟩
        rw [ih ((oldsz.toNat + 4095) / 4096 - pageNo a') (by omega) (by omega) rfl]
        have hsplit : n = j + ((oldsz.toNat + 4095) / 4096 - pageNo a') := by omega
        have hskip : clearPages k d n a s =
            clearPages k d ((oldsz.toNat + 4095) / 4096 - pageNo a') a' s := by
          rw [hsplit, clearPages_skip (by omega)]
          · rcases Nat.eq_zero_or_pos ((oldsz.toNat + 4095) / 4096 - pageNo a') with hzero | hpos
            · rw [hzero]
              rfl
            · have hmeet : a + BitVec.ofNat 32 (4096 * j) = a' := by bv_omega
              rw [hmeet]
          · intro p hlo hhi
            have hsame : p / 1024 = pageNo a / 1024 := by omega
            rw [hsame, ht]
        show (clearPages k d _ a' s >>= _) = (clearPages k d n a s >>= _)
        rw [hskip]
      | some =>
        have hstep := toNat_step (a := a) (by omega)
        have hpage' : pageNo (a + PGSIZE) = pageNo a + 1 := by
          rw [pageNo, hstep, pageNo]
          omega
        obtain ⟨m, rfl⟩ : ∃ m, n = m + 1 := ⟨n - 1, by omega⟩
        show _ = ((clearPage k d a s >>= _) >>= _)
        have hround : deallocRound k d a s = clearPage k d a s >>= fun r => .ok (some (a + PGSIZE), r.2) := by
          show (deallocPage k d a s >>= _) = _
          rw [deallocPage_some ht]
          show ((clearPage k d a s >>= _) >>= _) = _
          cases clearPage k d a s <;> rfl
        cases hclear : clearPage k d a s with
        | error =>
          rw [hclear] at hround
          exact forBelow_of_error hlt hround
        | ok =>
          rw [hclear] at hround
          rw [forBelow_of_ok hlt hround (show a.toNat < _ by omega)]
          exact ih m (by omega) (by omega) (by omega)
    · have hge : oldsz ≤ a := not_lt.mp hlt
      have hzero : n = 0 := by
        have hge' : oldsz.toNat ≤ a.toNat := hge
        omega
      rw [forBelow_of_ge hge, hzero]
      rfl

/-- The loop of `deallocuvm` that jumps is the loop over all pages, in every memory. -/
lemma deallocuvm_eq (d : Frame) (hlt : newsz < oldsz) (hle : oldsz ≤ KERNBASE) :
    deallocuvm k d oldsz newsz = (do
      clearPages k d ((oldsz.toNat + 4095) / 4096 - (newsz.toNat + 4095) / 4096) (PGROUNDUP newsz)
      return newsz) := by
  have hround := toNat_PGROUNDUP_le (le_trans (le_of_lt hlt) hle)
  have hpage := pageNo_PGROUNDUP (le_trans (le_of_lt hlt) hle)
  funext s
  rw [deallocuvm, if_neg (not_le.mpr hlt)]
  show (forBelow .wrap oldsz (deallocRound k d) (PGROUNDUP newsz) s >>= _) = _
  rw [forBelow_dealloc hle (by omega) rfl, hpage]
  show ((clearPages k d _ (PGROUNDUP newsz) s >>= _) >>= _) = (clearPages k d _ (PGROUNDUP newsz) s >>= _)
  cases clearPages k d _ (PGROUNDUP newsz) s <;> rfl

/-- The user pages can be given to `kfree`. -/
def Freeable (k : Kernel) (s : Kmem) (d : Frame) : Prop :=
  ∀ p ∈ Users, ∀ f, pageOf s.page d p = some f → k.Allocatable f

/-- Between `s` and `t`, the entries of the pages in `l` have been cleared and their pages freed. -/
structure Cleared (d : Frame) (s : Kmem) (l : List Nat) (t : Kmem) : Prop where
  nodup : l.Nodup
  present_of_mem : ∀ p ∈ l, present (pteOf s.page d p) = true
  zero : ∀ p ∈ l, pteOf t.page d p = 0
  rest : ∀ p ∉ l, pteOf t.page d p = pteOf s.page d p
  freelist : t.freelist = l.map (fun p => PTE_ADDR (pteOf s.page d p)) ++ s.freelist

lemma Cleared.refl : Cleared d s [] s where
  nodup := nodup_nil
  present_of_mem _ hp := by cases hp
  zero _ hp := by cases hp
  rest _ _ := rfl
  freelist := rfl

lemma Cleared.trans {l l' : List Nat} {u : Kmem} (h : Cleared d s l t) (h' : Cleared d t l' u) :
    Cleared d s (l' ++ l) u := by
  -- what is cleared later was present then, so it was not cleared before
  have hdisj : ∀ p ∈ l', p ∉ l := by
    intro p hp hmem
    have hpres := h'.present_of_mem p hp
    rw [h.zero p hmem] at hpres
    cases hpres
  refine ⟨?_, ?_, ?_, ?_, ?_⟩
  · refine nodup_append.mpr ⟨h'.nodup, h.nodup, ?_⟩
    rintro p hp _ hmem rfl
    exact hdisj p hp hmem
  · intro p hp
    rcases mem_append.mp hp with hp' | hp
    · rw [← h.rest p (hdisj p hp')]
      exact h'.present_of_mem p hp'
    · exact h.present_of_mem p hp
  · intro p hp
    by_cases hp' : p ∈ l'
    · exact h'.zero p hp'
    · rw [h'.rest p hp']
      exact h.zero p ((mem_append.mp hp).resolve_left hp')
  · intro p hp
    rw [h'.rest p fun hmem => hp (mem_append_left l hmem),
      h.rest p fun hmem => hp (mem_append_right l' hmem)]
  · have hsame : l'.map (fun p => PTE_ADDR (pteOf t.page d p)) =
        l'.map (fun p => PTE_ADDR (pteOf s.page d p)) :=
      map_congr_left fun p hp => congrArg PTE_ADDR (h.rest p (hdisj p hp))
    rw [h'.freelist, h.freelist, hsame, map_append, append_assoc]

lemma Cleared.freeable {l : List Nat} (h : Cleared d s l t) (hk : Freeable k s d) : Freeable k t d := by
  intro p hp f hf
  have hpres := (pageOf_eq_some.mp hf).1
  have hnot : p ∉ l := by
    intro hmem
    rw [h.zero p hmem] at hpres
    cases hpres
  exact hk p hp f ((pageOf_congr (h.rest p hnot)).symm.trans hf)

lemma clearPage_ends (h : Space Users U s d) (hk : Freeable k s d) (hp : pageNo a ∈ Users) :
    Ends (clearPage k d a) s E fun _ t => Space Users U t d ∧ Keeps Users {pageNo a} U d s t ∧
      ∃ l, Cleared d s l t ∧ ∀ p, p ∈ l ↔ p = pageNo a ∧ present (pteOf s.page d p) = true := by
  have hrest : present (pteOf s.page d (pageNo a)) = false →
      ∀ p, p ∈ [] ↔ p = pageNo a ∧ present (pteOf s.page d p) = true := by
    intro habs p
    refine ⟨(fun hmem => by cases hmem), ?_⟩
    rintro ⟨rfl, hpres⟩
    rw [habs] at hpres
    cases hpres
  refine Ends.bind (walkpgdir_ends d a) ?_
  rintro r t ⟨rfl, rfl⟩
  rw [PDX_eq, PTX_eq]
  cases htab : tableOf t.page d (pageNo a / 1024) with
  | none =>
    refine Ends.pure ⟨h, Keeps.refl, [], Cleared.refl, hrest ?_⟩
    rw [pteOf_of_none htab, present_zero]
  | some =>
    refine Ends.bind (getEntry_ends _) ?_
    rintro v t' ⟨rfl, rfl⟩
    rw [← pteOf_of_table htab]
    refine Ends.ite ?_ fun habs =>
      Ends.pure ⟨h, Keeps.refl, [], Cleared.refl, hrest (Bool.eq_false_of_not_eq_true habs)⟩
    intro hpres
    have hf : pageOf t'.page d (pageNo a) = some (PTE_ADDR (pteOf t'.page d (pageNo a))) :=
      pageOf_eq_some.mpr ⟨hpres, rfl⟩
    have halloc := hk _ hp _ hf
    refine Ends.ite (fun hzero => absurd hzero halloc.ne_zero) fun _ => ?_
    refine (unmap_ends h halloc hp htab hf).post ?_
    rintro _ t ⟨-, hspace, hkeeps, hpte, hfree⟩
    refine ⟨hspace, hkeeps, [pageNo a], ⟨pairwise_singleton _ _, ?_, ?_, ?_, hfree⟩, ?_⟩
    · intro p hmem
      rwa [mem_singleton.mp hmem]
    · intro p hmem
      rw [mem_singleton.mp hmem, hpte]
    · exact fun p hnot => hkeeps.pte p fun hmem => hnot (mem_singleton.mpr hmem)
    · intro p
      rw [mem_singleton]
      refine ⟨?_, fun hmem => hmem.1⟩
      rintro rfl
      exact ⟨rfl, hpres⟩

/-- The loop clears the pages that are present, each once. -/
lemma clearPages_ends (h : Space Users U s d) (hk : Freeable k s d) (hend : pageNo a + n ≤ 524288) :
    Ends (clearPages k d n a) s E fun _ t => Space Users U t d ∧
      Keeps Users {p | pageNo a ≤ p ∧ p < pageNo a + n} U d s t ∧ ∃ l, Cleared d s l t ∧
      ∀ p, p ∈ l ↔ (pageNo a ≤ p ∧ p < pageNo a + n) ∧ present (pteOf s.page d p) = true := by
  induction n generalizing a s with
  | zero =>
    refine Ends.pure ⟨h, Keeps.refl, [], Cleared.refl, ?_⟩
    intro p
    refine ⟨(fun hmem => by cases hmem), ?_⟩
    rintro ⟨⟨hlo, hhi⟩, -⟩
    omega
  | succ n ih =>
    refine Ends.bind (clearPage_ends h hk (show pageNo a < 524288 by omega)) ?_
    rintro _ t ⟨hspace, hkeeps, l, hcl, hl⟩
    have hnext : pageNo (a + PGSIZE) = pageNo a + 1 := pageNo_succ (by omega)
    refine (ih hspace (hcl.freeable hk) (by omega)).post ?_
    rintro _ u ⟨hspace', hkeeps', l', hcl', hl'⟩
    refine ⟨hspace', (hkeeps.weaken ?_).trans (hkeeps'.weaken ?_), l' ++ l, hcl.trans hcl', ?_⟩
    · exact Set.singleton_subset_iff.mpr ⟨Nat.le_refl _, by omega⟩
    · rintro p ⟨hlo, hhi⟩
      exact ⟨by omega, by omega⟩
    intro p
    rw [mem_append, hl', hl, hnext]
    by_cases hp : p = pageNo a
    · subst hp
      constructor
      · rintro (⟨⟨hlo, -⟩, -⟩ | ⟨-, hpres⟩)
        · omega
        · exact ⟨⟨Nat.le_refl _, by omega⟩, hpres⟩
      · rintro ⟨-, hpres⟩
        exact Or.inr ⟨rfl, hpres⟩
    · have hsame : pteOf t.page d p = pteOf s.page d p := by
        refine hcl.rest p ?_
        rw [hl]
        exact fun hmem => hp hmem.1
      rw [hsame]
      constructor
      · rintro (⟨⟨hlo, hhi⟩, hpres⟩ | ⟨heq, -⟩)
        · exact ⟨⟨by omega, by omega⟩, hpres⟩
        · exact absurd heq hp
      · rintro ⟨⟨hlo, hhi⟩, hpres⟩
        exact Or.inl ⟨⟨by omega, by omega⟩, hpres⟩

/-- The pages that start in `[newsz, oldsz)` are freed. -/
lemma deallocuvm_ends (h : Space Users U s d) (hU : ∀ f ∈ U, k.Allocatable f)
    (hlt : newsz < oldsz) (hle : oldsz ≤ KERNBASE) :
    Ends (deallocuvm k d oldsz newsz) s E fun r t => r = newsz ∧ Space Users U t d ∧
      Keeps Users (starts newsz oldsz) U d s t ∧
      ∀ p ∈ starts newsz oldsz, present (pteOf t.page d p) = false := by
  have hk : Freeable k s d := fun p hp f hf => hU f (h.page_mem hp hf)
  have hpage := pageNo_PGROUNDUP (le_trans (le_of_lt hlt) hle)
  have hold : oldsz.toNat ≤ 2147483648 := hle
  have hlt' : newsz.toNat < oldsz.toNat := hlt
  rw [deallocuvm_eq d hlt hle]
  refine Ends.bind (clearPages_ends h hk (by omega)) ?_
  rintro _ t ⟨hspace, hkeeps, l, hcl, hl⟩
  rw [hpage] at hkeeps hl
  refine Ends.pure ⟨rfl, hspace, hkeeps.weaken ?_, ?_⟩
  · rintro p ⟨hlo, hhi⟩
    exact ⟨by omega, by omega⟩
  · rintro p ⟨hlo, hhi⟩
    by_cases hp : p ∈ l
    · rw [hcl.zero p hp, present_zero]
    · rw [hcl.rest p hp]
      refine Bool.eq_false_of_not_eq_true fun hpres => hp ?_
      exact (hl p).mpr ⟨⟨by omega, by omega⟩, hpres⟩

/-! ### `allocuvm` -/

/-- The page is writable by the user and contains zeros. -/
def Zeroed (s : Kmem) (d : Frame) (p : Nat) : Prop :=
  ∃ f, pteOf s.page d p = f.addr ||| (PTE_W ||| PTE_U) ||| PTE_P ∧ s.page f = fun _ => 0

lemma pageOf_entry {perm : Word} (hperm : perm < 4096)
    (hpte : pteOf s.page d p = f.addr ||| perm ||| PTE_P) : pageOf s.page d p = some f := by
  rw [pageOf_eq_some, hpte]
  exact ⟨present_or_P _, PTE_ADDR_entry f hperm⟩

lemma Keeps.zeroed {A : Set Nat} (h : Keeps Users A U d s t) (hp : p ∈ Users) (hA : p ∉ A)
    (hz : Zeroed s d p) : Zeroed t d p := by
  obtain ⟨f, hpte, hzero⟩ := hz
  refine ⟨f, (h.pte p hA).trans hpte, ?_⟩
  rw [h.content p hp hA f (pageOf_entry (by decide) hpte), hzero]

/-- The pages are in the directory, its tables, the user pages or free. -/
lemma atMost_of_free {n m : Nat} (h : Space Users U s d) (hfree : AtMost m {f | f ∈ s.freelist})
    (hlim : ∀ p ∈ Users, present (pteOf s.page d p) = true → p < n) : AtMost (1025 + n + m) U := by
  obtain ⟨l, hlen, hl⟩ := hfree
  refine ⟨d :: ((List.range 1024).filterMap (tableOf s.page d) ++
    (List.range n).filterMap (pageOf s.page d) ++ l), ?_, ?_⟩
  · have htabs := length_filterMap_le (tableOf s.page d) (List.range 1024)
    have hpages := length_filterMap_le (pageOf s.page d) (List.range n)
    rw [length_range] at htabs hpages
    rw [length_cons, length_append, length_append]
    omega
  · intro f hf
    rw [mem_cons, mem_append, mem_append, mem_filterMap, mem_filterMap]
    rcases h.mem_iff.mp hf with ⟨x, hx⟩ | hfree
    · cases x with
      | dir => exact Or.inl hx
      | table i => exact Or.inr (Or.inl (Or.inl ⟨i, mem_range.mpr (lt_of_tableOf hx), hx⟩))
      | page p =>
        have hp := hlim p hx.1 (pageOf_eq_some.mp hx.2).1
        exact Or.inr (Or.inl (Or.inr ⟨p, mem_range.mpr hp, hx.2⟩))
    · exact Or.inr (Or.inr (hl f hfree))

lemma atMost_of_empty {n : Nat} (h : Space Users U s d) (hempty : s.freelist = [])
    (hlim : ∀ p ∈ Users, present (pteOf s.page d p) = true → p < n) : AtMost (1025 + n) U := by
  refine atMost_of_free (m := 0) h ⟨[], Nat.le_refl 0, ?_⟩ hlim
  intro f hf
  rwa [hempty] at hf

/-- Where all user pages are below `newsz`, there are not enough pages for one more. -/
def Exhausted (U : Set Frame) (s : Kmem) (d : Frame) (newsz : Word) : Prop :=
  (∀ p ∈ Users, present (pteOf s.page d p) = true → 4096 * p < newsz.toNat) →
    AtMost (1026 + (newsz.toNat + 4095) / 4096) U

lemma exhausted_of_empty (h : Space Users U s d) (hempty : s.freelist = []) : Exhausted U s d newsz := by
  intro hlim
  refine (atMost_of_empty (n := (newsz.toNat + 4095) / 4096) h hempty ?_).mono (by omega)
  intro p hp hpres
  have hlt := hlim p hp hpres
  omega

/-- The same when one page is loose. -/
lemma exhausted_of_loose (h : Space Users (U \ {f}) t d) (hempty : t.freelist = [])
    (hpte : ∀ p, pteOf t.page d p = pteOf s.page d p) : Exhausted U s d newsz := by
  intro hlim
  refine (AtMost.insert (atMost_of_empty (n := (newsz.toNat + 4095) / 4096) h hempty ?_)).mono (by omega)
  intro p hp hpres
  rw [hpte] at hpres
  have hlt := hlim p hp hpres
  omega

/-- A page that is mapped already makes `mappages` panic. -/
lemma mapPage_remap {pa perm : Word} {Q : Bool → Kmem → Prop} (hE : E .remap)
    (hp : present (pteOf s.page d (pageNo a)) = true) : Ends (mapPage d a pa perm) s E Q := by
  cases htab : tableOf s.page d (pageNo a / 1024) with
  | none =>
    rw [pteOf_of_none htab] at hp
    cases hp
  | some =>
    rw [pteOf_of_table htab] at hp
    rw [← PDX_eq, tableOf, Option.ite_none_right_eq_some] at htab
    obtain ⟨hpde, hframe⟩ := htab
    cases hframe
    refine Ends.bind (Ends.bind (getEntry_ends _) ?_) (Q := fun r t => t = s ∧
      r = some (PTE_ADDR ((s.page d).getInt (PDX a)), PTX a)) ?_
    · rintro pde t ⟨rfl, rfl⟩
      exact Ends.ite (fun _ => Ends.pure ⟨rfl, rfl⟩) fun hnot => absurd hpde hnot
    rintro r t ⟨rfl, rfl⟩
    refine Ends.bind (getEntry_ends _) ?_
    rintro v t' ⟨rfl, rfl⟩
    refine Ends.ite (fun _ => Ends.throw hE) fun hnot => absurd ?_ hnot
    rw [PTX_eq]
    exact hp

/-- One round of `allocuvm`. -/
lemma allocPage_ends (h : Space Users U s d) (hU : ∀ f ∈ U, k.Allocatable f) (ha : a.toNat % 4096 = 0)
    (hold : oldsz.toNat ≤ a.toNat) (halt : a < newsz) (hnew : newsz < KERNBASE)
    (habs : present (pteOf s.page d (pageNo a)) = false ∨ E .remap) :
    Ends (allocPage k d oldsz newsz a) s E fun r t => Space Users U t d ∧
      ((r = none ∧ Keeps Users (starts oldsz newsz) U d s t ∧
          (∀ p ∈ starts oldsz newsz, present (pteOf t.page d p) = false) ∧ Exhausted U s d newsz) ∨
        (r = some (a + PGSIZE) ∧ Keeps Users {pageNo a} U d s t ∧ Zeroed t d (pageNo a))) := by
  have hlt : oldsz < newsz := Nat.lt_of_le_of_lt hold halt
  have hpage : pageNo a ∈ Users := by
    show pageNo a < 524288
    rw [pageNo]
    rw [KERNBASE] at hnew
    bv_omega
  refine Ends.bind (kalloc_space h) ?_
  rintro r t (⟨rfl, rfl, hempty⟩ | ⟨f, rfl, hf, hpg, hloose⟩)
  · refine Ends.bind (deallocuvm_ends h hU hlt (le_of_lt hnew)) ?_
    rintro r t' ⟨-, hspace, hkeeps, hgone⟩
    exact Ends.pure ⟨hspace, Or.inl ⟨rfl, hkeeps, hgone, exhausted_of_empty h hempty⟩⟩
  refine Ends.bind (memset_ends f 0) ?_
  rintro _ t₁ rfl
  have hfill := hloose.fill fun _ => 0
  have hkeeps₁ : Keeps Users ∅ U d s { t with page := update t.page f fun _ => 0 } :=
    (Keeps.of_page hpg).trans (Keeps.fill hloose hf _)
  by_cases hE : E .remap ∧ present (pteOf (update t.page f fun _ => 0) d (pageNo a)) = true
  · rw [mappages_page ha]
    exact Ends.bind (Q := fun _ _ => False) (mapPage_remap hE.1 hE.2) fun _ _ hfalse => hfalse.elim
  have habs₁ : present (pteOf (update t.page f fun _ => 0) d (pageNo a)) = false := by
    rcases habs with habs | hremap
    · rw [hkeeps₁.pte _ (Set.notMem_empty _), habs]
    · exact Bool.eq_false_of_not_eq_true fun hp => hE ⟨hremap, hp⟩
  refine Ends.bind (mapUser_ends hfill hf hpage ha (by decide) habs₁) ?_
  rintro r t₂ ⟨hcontent, ⟨rfl, hspace, hkeeps, hempty⟩ | ⟨rfl, hspace, hkeeps, hpte⟩⟩
  · refine Ends.bind (deallocuvm_ends hspace (fun g hg => hU g hg.1) hlt (le_of_lt hnew)) ?_
    rintro r t₃ ⟨-, hspace₃, hkeeps₃, hgone⟩
    refine Ends.bind (kfree_space (A := ∅) hspace₃ (fun hmem => hmem.2 rfl) (hU f hf)) ?_
    rintro _ t₄ ⟨hspace₄, hkeeps₄, -⟩
    rw [Set.insert_sdiff_self_of_mem hf] at hspace₄ hkeeps₄
    refine Ends.pure ⟨hspace₄, Or.inl ⟨rfl, ?_, ?_, ?_⟩⟩
    · exact ((hkeeps₁.trans hkeeps).of_empty.trans
        (hkeeps₃.mono Set.sdiff_subset (Set.Subset.refl _) Set.sdiff_subset)).trans hkeeps₄.of_empty
    · intro p hp
      rw [hkeeps₄.pte p (Set.notMem_empty p)]
      exact hgone p hp
    · exact exhausted_of_loose hspace hempty fun p => (hkeeps₁.trans hkeeps).pte p (Set.notMem_empty p)
  · refine Ends.pure ⟨hspace, Or.inr ⟨rfl, hkeeps₁.of_empty.trans hkeeps, f, hpte, ?_⟩⟩
    rw [hcontent]
    exact update_self _ _ _

/-- The pages of the range are added, or none of them is there. -/
lemma allocuvm_ends (h : Space Users U s d) (hU : ∀ f ∈ U, k.Allocatable f) (hle : oldsz ≤ newsz)
    (hnew : newsz < KERNBASE)
    (habs : ∀ p ∈ starts oldsz newsz, present (pteOf s.page d p) = false ∨ E .remap) :
    Ends (allocuvm k d oldsz newsz) s E fun r t => Space Users U t d ∧
      Keeps Users (starts oldsz newsz) U d s t ∧
      ((r = newsz ∧ ∀ p ∈ starts oldsz newsz, Zeroed t d p) ∨
        (r = 0 ∧ (∀ p ∈ starts oldsz newsz, present (pteOf t.page d p) = false) ∧
          Exhausted U s d newsz)) := by
  have hold : oldsz ≤ KERNBASE := le_trans hle (le_of_lt hnew)
  have hround := toNat_PGROUNDUP_le hold
  rw [allocuvm, if_neg (not_le.mpr hnew), if_neg (not_lt.mpr hle)]
  -- the invariant: the pages below `a` are added, the others not yet
  refine Ends.bind (Ends.forBelow (Q := fun t => Space Users U t d ∧
    Keeps Users (starts oldsz newsz) U d s t ∧
    (∀ p ∈ starts oldsz newsz, present (pteOf t.page d p) = false) ∧ Exhausted U s d newsz)
    (I := fun a t =>
    a.toNat % 4096 = 0 ∧ (PGROUNDUP oldsz).toNat ≤ a.toNat ∧ Space Users U t d ∧
    Keeps Users (starts oldsz newsz) U d s t ∧
    (∀ p ∈ starts oldsz newsz, 4096 * p < a.toNat → Zeroed t d p) ∧
    ∀ p ∈ starts oldsz newsz, a.toNat ≤ 4096 * p → present (pteOf t.page d p) = false ∨ E .remap) ?_ ?_) ?_
  · refine ⟨by omega, Nat.le_refl _, h, Keeps.refl, ?_, fun p hp _ => habs p hp⟩
    rintro p ⟨hlo, -⟩ hhi
    omega
  · rintro a t halt ⟨halign, hge, hspace, hkeeps, hdone, hrest⟩
    have halt' : a.toNat < newsz.toNat := halt
    have ha : 4096 * pageNo a = a.toNat := by
      rw [pageNo]
      omega
    have hmem : pageNo a ∈ starts oldsz newsz := ⟨by omega, by omega⟩
    refine (allocPage_ends hspace hU halign (by omega) halt hnew
      (hrest _ hmem (Nat.le_of_eq ha.symm))).post ?_
    rintro r t' ⟨hspace', ⟨rfl, hkeeps', hgone, hnone⟩ | ⟨rfl, hkeeps', hzero⟩⟩
    · refine Or.inl ⟨rfl, hspace', hkeeps.trans hkeeps', hgone, fun hlim => hnone fun p hp hpres => ?_⟩
      by_cases hmem' : p ∈ starts oldsz newsz
      · exact hmem'.2
      · rw [hkeeps.pte p hmem'] at hpres
        exact hlim p hp hpres
    have hnext : (a + PGSIZE).toNat = a.toNat + 4096 := by
      rw [PGSIZE]
      rw [KERNBASE] at hnew
      bv_omega
    refine Or.inr ⟨_, rfl, ?_, by omega, by omega, hspace', ?_, ?_, ?_⟩
    · show a.toNat < _
      omega
    · exact hkeeps.trans (hkeeps'.weaken (Set.singleton_subset_iff.mpr hmem))
    · intro p hp hlt
      rcases eq_or_ne p (pageNo a) with rfl | hne
      · exact hzero
      · refine hkeeps'.zeroed (mem_users (le_of_lt hnew) hp) hne (hdone p hp ?_)
        omega
    · intro p hp hge'
      have hne : p ≠ pageNo a := by omega
      rw [hkeeps'.pte p hne]
      exact hrest p hp (by omega)
  · rintro r t (⟨rfl, hspace, hkeeps, hgone⟩ | ⟨rfl, a, hge, -, -, hspace, hkeeps, hdone, -⟩)
    · exact Ends.pure ⟨hspace, hkeeps, Or.inr ⟨rfl, hgone⟩⟩
    · refine Ends.pure ⟨hspace, hkeeps, Or.inl ⟨rfl, ?_⟩⟩
      intro p hp
      exact hdone p hp (Nat.lt_of_lt_of_le hp.2 hge)

/-- Whatever the sizes are, `allocuvm` changes only user pages. -/
lemma allocuvm_any (hE : E .remap) (h : Space Users U s d) (hU : ∀ f ∈ U, k.Allocatable f) :
    Ends (allocuvm k d oldsz newsz) s E fun _ t => Space Users U t d ∧ Keeps Users Users U d s t := by
  by_cases hbig : newsz ≥ KERNBASE
  · rw [allocuvm, if_pos hbig]
    exact Ends.pure ⟨h, Keeps.refl⟩
  by_cases hsmall : newsz < oldsz
  · rw [allocuvm, if_neg hbig, if_pos hsmall]
    exact Ends.pure ⟨h, Keeps.refl⟩
  have hnew : newsz < KERNBASE := not_le.mp hbig
  refine (allocuvm_ends h hU (not_lt.mp hsmall) hnew fun _ _ => Or.inr hE).post ?_
  rintro r t ⟨hspace, hkeeps, -⟩
  exact ⟨hspace, hkeeps.weaken fun p hp => mem_users (le_of_lt hnew) hp⟩

/-! ### `clearpteu` -/

/-- Another entry for the same page. -/
lemma Space.setFlags {P : Set Nat} {tab : Frame} {v : Word} (h : Space P U s d)
    (ht : tableOf s.page d (p / 1024) = some tab) (hpres : present v = present (pteOf s.page d p))
    (hframe : PTE_ADDR v = PTE_ADDR (pteOf s.page d p)) :
    Space P U { s with page := setEntry s.page (tab, p % 1024) v } d := by
  refine h.congr ?_
  intro x f
  cases x with
  | dir => exact Iff.rfl
  | table => simp only [Held, tableOf_setPte h ht]
  | page q =>
    have hsame : pageOf (setEntry s.page (tab, p % 1024) v) d q = pageOf s.page d q := by
      rw [pageOf, pageOf, pteOf_setPte h ht]
      split
      · rename_i hq
        rw [hq, hpres, hframe]
      · rfl
    simp only [Held, hsame]

/-- `clearpteu` clears one flag in one entry and changes no other byte of memory. -/
lemma clearpteu_ends {uva : Word} (h : Space Users U s d)
    (htab : tableOf s.page d (pageNo uva / 1024) = none → E .clearpteu) :
    Ends (clearpteu d uva) s E fun _ t => Space Users U t d ∧
      Keeps Users {pageNo uva} U d s t ∧
      pteOf t.page d (pageNo uva) = pteOf s.page d (pageNo uva) &&& ~~~PTE_U ∧
      ∀ p ∈ Users, ∀ f, pageOf s.page d p = some f → t.page f = s.page f := by
  refine Ends.bind (walkpgdir_ends d uva) ?_
  rintro r t ⟨rfl, rfl⟩
  rw [PDX_eq, PTX_eq]
  cases ht : tableOf t.page d (pageNo uva / 1024) with
  | none => exact Ends.throw (htab ht)
  | some =>
    refine Ends.bind (getEntry_ends _) ?_
    rintro v t' ⟨rfl, rfl⟩
    rw [← pteOf_of_table ht]
    refine (putEntry_ends _ _).post ?_
    rintro _ u rfl
    refine ⟨h.setFlags ht ?_ ?_, Keeps.setPte h ht rfl, ?_, ?_⟩
    · exact present_clear_U _
    · exact PTE_ADDR_clear_U _
    · exact (pteOf_setPte h ht _).trans (if_pos rfl)
    · intro p hp f hf
      exact setEntry_of_ne (page_ne_table h hp hf ht)

/-! ### `freevm` -/

/-- What is held when the tables below `i` are free and there are no user pages. -/
def HeldFrom (m : Frame → Page) (d : Frame) (i : Nat) : Place → Frame → Prop
  | .dir, f => f = d
  | .table j, f => i ≤ j ∧ tableOf m d j = some f
  | .page _, _ => False

lemma heldFrom_succ_of_none {m : Frame → Page} {i : Nat} (hi : tableOf m d i = none) (x : Place)
    (f : Frame) : HeldFrom m d (i + 1) x f ↔ HeldFrom m d i x f := by
  cases x with
  | dir => exact Iff.rfl
  | page => exact Iff.rfl
  | table j =>
    refine and_congr_left fun hj => ?_
    have hne : j ≠ i := by
      rintro rfl
      rw [hi] at hj
      cases hj
    omega

lemma heldFrom_succ_of_some {m : Frame → Page} {i : Nat} {free : List Frame}
    (h : Pool U (HeldFrom m d i) free) (hi : tableOf m d i = some f) (x : Place) (g : Frame) :
    HeldFrom m d (i + 1) x g ↔ HeldFrom m d i x g ∧ g ≠ f := by
  have hheld : HeldFrom m d i (.table i) f := ⟨Nat.le_refl i, hi⟩
  cases x with
  | dir =>
    refine ⟨?_, fun hx => hx.1⟩
    rintro rfl
    refine ⟨rfl, ?_⟩
    rintro rfl
    have hplace := h.inj (show HeldFrom m g i .dir g from rfl) hheld
    cases hplace
  | page => exact ⟨False.elim, fun hx => hx.1⟩
  | table j =>
    constructor
    · rintro ⟨hle, hj⟩
      refine ⟨⟨Nat.le_of_succ_le hle, hj⟩, ?_⟩
      rintro rfl
      have hplace := h.inj (show HeldFrom m d i (.table j) g from ⟨Nat.le_of_succ_le hle, hj⟩) hheld
      cases hplace
      omega
    · rintro ⟨⟨hle, hj⟩, hne⟩
      refine ⟨?_, hj⟩
      have hji : j ≠ i := by
        rintro rfl
        rw [hi] at hj
        cases hj
        exact hne rfl
      omega

lemma freeTable_ends {i : Word} (h : Pool U (HeldFrom s.page d i.toNat) t.freelist)
    (hU : ∀ f ∈ U, k.Allocatable f) (hd : t.page d = s.page d) :
    Ends (freeTable k d i) t E fun r t' => r = some (i + 1) ∧ t'.page d = s.page d ∧
      Pool U (HeldFrom s.page d (i.toNat + 1)) t'.freelist ∧ ∀ f ∉ U, t'.page f = t.page f := by
  refine Ends.bind (getEntry_ends _) ?_
  rintro pde t₁ ⟨rfl, rfl⟩
  rw [hd]
  refine Ends.ite ?_ ?_
  · intro hp
    have hi : tableOf s.page d i.toNat = some (PTE_ADDR ((s.page d).getInt i.toNat)) := if_pos hp
    have hfU := h.mem_of_own (show HeldFrom s.page d i.toNat (.table i.toNat) _ from ⟨Nat.le_refl _, hi⟩)
    have hdrop := h.drop (show HeldFrom s.page d i.toNat (.table i.toNat) _ from ⟨Nat.le_refl _, hi⟩)
      (heldFrom_succ_of_some h hi)
    refine Ends.bind (kfree_ends hdrop (fun hmem => hmem.2 rfl) (hU _ hfU)) ?_
    rintro _ t ⟨hpage, -, hpool⟩
    rw [Set.insert_sdiff_self_of_mem hfU] at hpool
    refine Ends.pure ⟨rfl, ?_, hpool, ?_⟩
    · have hne := hdrop.mem_of_own (show HeldFrom s.page d (i.toNat + 1) .dir d from rfl)
      rw [hpage, update_of_ne hne.2, hd]
    · intro f hf
      rw [hpage, update_of_ne]
      rintro rfl
      exact hf hfU
  · intro hp
    have hi : tableOf s.page d i.toNat = none := if_neg hp
    exact Ends.pure ⟨rfl, hd, h.congr (heldFrom_succ_of_none hi), fun _ _ => rfl⟩

/-- All pages of the address space become free. -/
lemma freevm_ends (h : Space Users U s d) (hU : ∀ f ∈ U, k.Allocatable f) :
    Ends (freevm k (some d)) s E fun _ t => Free U t ∧ ∀ f ∉ U, t.page f = s.page f := by
  refine Ends.bind (deallocuvm_ends h hU (by decide) (BitVec.le_refl _)) ?_
  rintro r t ⟨-, hspace, hkeeps, habs⟩
  have hstart : Pool U (HeldFrom t.page d 0) t.freelist := by
    refine hspace.congr ?_
    intro x f
    cases x with
    | dir => exact Iff.rfl
    | table i => exact ⟨fun hx => hx.2, fun hx => ⟨Nat.zero_le i, hx⟩⟩
    | page p =>
      refine ⟨False.elim, ?_⟩
      rintro ⟨hp, hf⟩
      have hp' : p < 524288 := hp
      have hmem : p ∈ starts 0 KERNBASE := ⟨Nat.zero_le _, show 4096 * p < 2147483648 by omega⟩
      rw [pageOf_eq_none.mpr (habs p hmem)] at hf
      cases hf
  refine Ends.bind (Ends.forBelow (Q := fun _ => False) (I := fun i t' => i.toNat ≤ 1024 ∧
    t'.page d = t.page d ∧ Pool U (HeldFrom t.page d i.toNat) t'.freelist ∧
    ∀ f ∉ U, t'.page f = t.page f) ?_ ?_) ?_
  · exact ⟨Nat.zero_le _, rfl, hstart, fun _ _ => rfl⟩
  · rintro i t' hi ⟨-, hd, hpool, hout⟩
    have hi' : i.toNat < 1024 := hi
    have hsucc : (i + 1).toNat = i.toNat + 1 := by bv_omega
    refine (freeTable_ends hpool hU hd).post ?_
    rintro r t'' ⟨rfl, hd', hpool', hout'⟩
    refine Or.inr ⟨_, rfl, ?_, by omega, hd', hsucc ▸ hpool', ?_⟩
    · show i.toNat < _
      omega
    · exact fun f hf => (hout' f hf).trans (hout f hf)
  · rintro r t' (⟨-, hQ⟩ | ⟨-, i, hge, hle, hd, hpool, hout⟩)
    · exact hQ.elim
    have hi : i.toNat = 1024 := Nat.le_antisymm hle hge
    rw [hi] at hpool
    have hdir := show HeldFrom t.page d 1024 .dir d from rfl
    have hdrop : Pool (U \ {d}) (fun (_ : Place) (_ : Frame) => False) t'.freelist := by
      refine hpool.drop hdir ?_
      intro x f
      cases x with
      | dir => exact ⟨False.elim, fun hx => hx.2 hx.1⟩
      | page => exact ⟨False.elim, fun hx => hx.1⟩
      | table =>
        refine ⟨False.elim, ?_⟩
        rintro ⟨⟨hj, htab⟩, -⟩
        rw [tableOf_of_ge hj] at htab
        cases htab
    have hdU := hpool.mem_of_own hdir
    refine (kfree_ends hdrop (fun hmem => hmem.2 rfl) (hU d hdU)).post ?_
    rintro _ t'' ⟨hpage, -, hfree⟩
    rw [Set.insert_sdiff_self_of_mem hdU] at hfree
    refine ⟨hfree, ?_⟩
    intro f hf
    have hne : f ≠ d := by
      rintro rfl
      exact hf hdU
    rw [hpage, update_of_ne hne, hout f hf, hkeeps.outside f hf]

end Xv6.Vm
