import Xv6.Vm.CopyOut
import Xv6.Vm.Exec

/-!
# Loading a program

The loop of `exec` over the program headers keeps one invariant, whatever the headers contain: the new
address space has exactly the pages below its size. A segment is loaded only after the size has passed its
end, so all its pages are there.
-/

namespace Xv6.Vm

open Machine Function

variable {k : Kernel} {G : Set Nat} {U : Set Frame} {s t u : Kmem} {d f : Frame} {E : Stop → Prop}
  {sz sz' addr off fsz i : Word} {ip : File} {p : Nat}

/-- Only bytes of user pages change. -/
structure Stores (U : Set Frame) (d : Frame) (s t : Kmem) : Prop where
  freelist : t.freelist = s.freelist
  table : ∀ i, tableOf t.page d i = tableOf s.page d i
  pte : ∀ p, pteOf t.page d p = pteOf s.page d p
  outside : ∀ f ∉ U, t.page f = s.page f

lemma Stores.refl : Stores U d s s := ⟨rfl, fun _ => rfl, fun _ => rfl, fun _ _ => rfl⟩

lemma Stores.trans (h : Stores U d s t) (h' : Stores U d t u) : Stores U d s u where
  freelist := h'.freelist.trans h.freelist
  table i := (h'.table i).trans (h.table i)
  pte p := (h'.pte p).trans (h.pte p)
  outside f hf := (h'.outside f hf).trans (h.outside f hf)

lemma Stores.space (h : Stores U d s t) (hs : Space Users U s d) : Space Users U t d := by
  have hheld : ∀ x f, Held Users t.page d x f ↔ Held Users s.page d x f := by
    intro x f
    cases x with
    | dir => exact Iff.rfl
    | table => simp only [Held, h.table]
    | page p => simp only [Held, pageOf_congr (h.pte p)]
  rw [Space, h.freelist]
  exact hs.congr hheld

lemma stores_page (h : Space Users U s d) (hp : p ∈ Users) (hf : pageOf s.page d p = some f) (b : Page) :
    Stores U d s ⟨update s.page f b, s.freelist⟩ where
  freelist := rfl
  table i := tableOf_congr (update_of_ne (page_ne_dir h hp hf).symm _ _) i
  pte p := pteOf_congr (update_of_ne (page_ne_dir h hp hf).symm _ _)
    (fun i tab ht => update_of_ne (page_ne_table h hp hf ht).symm _ _) p
  outside g hg := by
    refine update_of_ne ?_ _ _
    rintro rfl
    exact hg (h.page_mem hp hf)

/-! ### Images -/

/-- The address space of a program: the pages of `G` are not for the user, the other pages are. -/
structure Image (k : Kernel) (G : Set Nat) (U : Set Frame) (s : Kmem) (d : Frame) (sz : Word) : Prop
    extends AddressSpace k U s d sz where
  kernel : ∀ p ∉ Users, user (pteOf s.page d p) = false
  guard : ∀ p ∈ Users, 4096 * p < sz.toNat → (user (pteOf s.page d p) = false ↔ p ∈ G)

lemma Image.userSpace (h : Image k G U s d sz) : UserSpace U s d := ⟨h.space, h.kernel⟩

lemma Image.stores (h : Image k G U s d sz) (hst : Stores U d s t) : Image k G U t d sz where
  space := hst.space h.space
  allocatable := h.allocatable
  size_le := h.size_le
  mapped p := by
    rw [hst.pte]
    exact h.mapped p
  kernel p := by
    rw [hst.pte]
    exact h.kernel p
  guard p := by
    rw [hst.pte]
    exact h.guard p

/-- After `setupkvm`. -/
lemma image_kernel (hspace : Space Users U s d) (hU : ∀ f ∈ U, k.Allocatable f)
    (hpte : pteOf s.page d = kpte k) : Image k ∅ U s d 0 where
  space := hspace
  allocatable := hU
  size_le := by decide
  mapped p hp := by
    rw [hpte, kpte_of_user hp, present_zero]
    exact ⟨fun h => absurd h Bool.false_ne_true, fun h => absurd h (Nat.not_lt_zero _)⟩
  kernel p _ := by
    rw [hpte]
    exact kpte_not_user k p
  guard p _ h := absurd h (Nat.not_lt_zero _)

/-- After `allocuvm`. -/
lemma Image.grow (h : Image k ∅ U s d sz) (hle : sz ≤ sz') (hsz' : sz' ≤ KERNBASE)
    (hspace : Space Users U t d) (hkeeps : Keeps Users (starts sz sz') U d s t)
    (hzero : ∀ p ∈ starts sz sz', Zeroed t d p) : Image k ∅ U t d sz' where
  toAddressSpace := (h.toAddressSpace.grow hle hsz' hspace hkeeps hzero).1
  kernel p hp := by
    rw [hkeeps.pte p fun hmem => hp (mem_users hsz' hmem)]
    exact h.kernel p hp
  guard p hp hlt := by
    rcases Nat.lt_or_ge (4096 * p) sz.toNat with hold | hnew
    · rw [hkeeps.pte p fun hmem => Nat.not_lt.mpr hmem.1 hold]
      exact h.guard p hp hold
    · obtain ⟨f, hpte, -⟩ := hzero p ⟨hnew, hlt⟩
      have huser : user (pteOf t.page d p) = true := by
        rw [hpte, user_entry]
        decide
      rw [huser]
      exact ⟨fun h => absurd h.symm Bool.false_ne_true, fun h => absurd h (Set.notMem_empty p)⟩

/-- `PGROUNDUP` of the size adds no page. -/
lemma Image.roundUp (h : Image k ∅ U s d sz) (hsz : sz < KERNBASE) : Image k ∅ U s d (PGROUNDUP sz) := by
  have hround := toNat_PGROUNDUP_le (BitVec.le_of_lt hsz)
  have hsz' : sz.toNat < 2147483648 := hsz
  have hstart : ∀ p, 4096 * p < (PGROUNDUP sz).toNat ↔ 4096 * p < sz.toNat := by
    intro p
    omega
  refine ⟨⟨h.space, h.allocatable, ?_, ?_⟩, h.kernel, ?_⟩
  · show (PGROUNDUP sz).toNat ≤ 2147483648
    omega
  · intro p hp
    rw [hstart]
    exact h.mapped p hp
  · intro p hp hlt
    exact h.guard p hp ((hstart p).mp hlt)

/-- `allocuvm` moves the size up to `sz'`, or leaves a larger one, or fails. -/
lemma Image.allocuvm (h : Image k ∅ U s d sz) (hsz : sz' < sz → sz < KERNBASE) :
    Ends (allocuvm k d sz sz') s E fun r t => (∀ f ∉ U, t.page f = s.page f) ∧
      ((r = 0 ∧ Space Users U t d ∧ (0 < sz' → sz' < KERNBASE →
          AtMost (1026 + (sz'.toNat + 4095) / 4096) U)) ∨
        (r ≠ 0 ∧ sz' ≤ r ∧ r < KERNBASE ∧ (sz ≤ sz' → r = sz') ∧ Image k ∅ U t d r)) := by
  by_cases hbig : sz' ≥ KERNBASE
  · rw [Vm.allocuvm, if_pos hbig]
    exact Ends.pure ⟨fun _ _ => rfl, Or.inl ⟨rfl, h.space, fun _ hlt => absurd hbig (BitVec.not_le.mpr hlt)⟩⟩
  have hnew : sz' < KERNBASE := BitVec.not_le.mp hbig
  by_cases hsmall : sz' < sz
  · rw [Vm.allocuvm, if_neg hbig, if_pos hsmall]
    refine Ends.pure ⟨fun _ _ => rfl, Or.inr ⟨?_, BitVec.le_of_lt hsmall, hsz hsmall, ?_, h⟩⟩
    · rintro rfl
      exact absurd hsmall (Nat.not_lt_zero _)
    · exact fun hle => absurd hsmall (BitVec.not_lt.mpr hle)
  have hle : sz ≤ sz' := BitVec.not_lt.mp hsmall
  refine (allocuvm_ends h.space h.allocatable hle hnew
    fun p hp => .inl (h.absent (BitVec.le_of_lt hnew) p hp)).post ?_
  rintro r t ⟨hspace, hkeeps, ⟨rfl, hzero⟩ | ⟨rfl, -, hnone⟩⟩
  · refine ⟨hkeeps.outside, ?_⟩
    by_cases hr : r = 0
    · exact Or.inl ⟨hr, hspace, fun hpos => absurd (hr ▸ hpos) (Nat.not_lt_zero _)⟩
    · exact Or.inr ⟨hr, BitVec.le_refl r, hnew, fun _ => rfl,
        h.grow hle (BitVec.le_of_lt hnew) hspace hkeeps hzero⟩
  · refine ⟨hkeeps.outside, Or.inl ⟨rfl, hspace, fun _ _ => hnone ?_⟩⟩
    intro p hp hpres
    exact Nat.lt_of_lt_of_le ((h.mapped p hp).mp hpres) hle

/-! ### One segment -/

lemma File.readi_le {n n' : Word} {b : Nat → Byte} (h : ip.readi off n = some (n', b)) : n' ≤ n := by
  rw [File.readi] at h
  split at h
  · cases h
  · rename_i hoff
    cases h
    split
    · rename_i hend
      bv_omega
    · exact BitVec.le_refl n

section Segment

variable (h : Image k ∅ U s d sz) (hsz : sz < KERNBASE) (ha : addr.toNat % 4096 = 0)
  (hend : addr.toNat + fsz.toNat ≤ sz.toNat)

include h hsz ha hend

/-- One page of a segment that ends below the size. -/
lemma loadPage_ends (hi : i.toNat % 4096 = 0) (hlt : i < fsz) :
    Ends (loadPage d sz addr ip off fsz i) s E fun r t =>
      Stores U d s t ∧ (r = none ∨ r = some (i + PGSIZE)) := by
  have hsz' : sz.toNat < 2147483648 := hsz
  have hlt' : i.toNat < fsz.toNat := hlt
  have haddr : (addr + i).toNat = addr.toNat + i.toNat := by bv_omega
  have hpage : 4096 * pageNo (addr + i) = (addr + i).toNat := by
    rw [pageNo]
    omega
  have hmem : pageNo (addr + i) ∈ Users := by
    show pageNo (addr + i) < 524288
    omega
  have hpres : present (pteOf s.page d (pageNo (addr + i))) = true :=
    (h.mapped _ hmem).mpr (by omega)
  refine Ends.bind (walkpgdir_ends d (addr + i)) ?_
  rintro r t ⟨rfl, rfl⟩
  rw [PDX_eq, PTX_eq]
  cases htab : tableOf t.page d (pageNo (addr + i) / 1024) with
  | none =>
    rw [pteOf_of_none htab, present_zero] at hpres
    cases hpres
  | some =>
    refine Ends.bind (getEntry_ends _) ?_
    rintro v t' ⟨rfl, rfl⟩
    rw [← pteOf_of_table htab]
    dsimp only
    have hn : (if fsz - i < PGSIZE then fsz - i else PGSIZE) ≤ fsz - i := by
      split
      · exact BitVec.le_refl _
      · rename_i hge
        exact BitVec.not_lt.mp hge
    cases hread : ip.readi (off + i) (if fsz - i < PGSIZE then fsz - i else PGSIZE) with
    | none => exact Ends.pure ⟨Stores.refl, Or.inl rfl⟩
    | some x =>
      have hle := BitVec.le_trans (File.readi_le hread) hn
      have hroom : (addr + i).toNat + x.1.toNat ≤ sz.toNat := by bv_omega
      have hf : pageOf t'.page d (pageNo (addr + i)) = some _ := pageOf_eq_some.mpr ⟨hpres, rfl⟩
      have hlow : addr + i < KERNBASE := by
        show (addr + i).toNat < 2147483648
        omega
      refine Ends.ite (fun _ => ?_) fun hstray => absurd ⟨hpres, hroom, hlow⟩ hstray
      refine Ends.bind (store_ends _ _ _ _) ?_
      rintro _ u rfl
      have hst := stores_page h.space hmem hf
        ((t'.page (PTE_ADDR (pteOf t'.page d (pageNo (addr + i))))).overwrite 0 x.1.toNat x.2)
      exact Ends.ite (fun _ => Ends.pure ⟨hst, Or.inr rfl⟩) fun _ => Ends.pure ⟨hst, Or.inl rfl⟩

/-- A segment that ends below the size is loaded without a panic, to user pages. -/
lemma loaduvm_ends : Ends (loaduvm d sz addr ip off fsz) s E fun _ t => Stores U d s t := by
  have hsz' : sz.toNat < 2147483648 := hsz
  rw [loaduvm, if_neg (not_not.mpr ha)]
  refine (Ends.forBelow (I := fun i t => i.toNat % 4096 = 0 ∧ Stores U d s t)
    (Q := fun t => Stores U d s t) ⟨rfl, Stores.refl⟩ ?_).post ?_
  · rintro i t hlt ⟨hi, hst⟩
    have hlt' : i.toNat < fsz.toNat := hlt
    refine (loadPage_ends (h.stores hst) hsz ha hend hi hlt).post ?_
    rintro r t' ⟨hst', rfl | rfl⟩
    · exact Or.inl ⟨rfl, hst.trans hst'⟩
    · have hnext : (i + PGSIZE).toNat = i.toNat + 4096 := by
        rw [PGSIZE]
        bv_omega
      exact Or.inr ⟨_, rfl, show i.toNat < _ by omega, by omega, hst.trans hst'⟩
  · rintro r t (⟨-, hst⟩ | ⟨-, i, -, -, hst⟩)
    · exact hst
    · exact hst

end Segment

/-! ### All segments -/

/-- Whatever the headers are, no panic, and the image is one again. -/
lemma loadSegments_ends {n : Nat} (h : Image k ∅ U s d sz) (hsz : sz < KERNBASE) :
    Ends (loadSegments k d ip n off sz) s E fun r t => (∀ f ∉ U, t.page f = s.page f) ∧
      Space Users U t d ∧ (n = 0 → r = some sz) ∧
      ∀ sz', r = some sz' → Image k ∅ U t d sz' ∧ sz' < KERNBASE := by
  induction n generalizing s off sz with
  | zero =>
    refine Ends.pure ⟨fun _ _ => rfl, h.space, fun _ => rfl, ?_⟩
    rintro sz' heq
    cases heq
    exact ⟨h, hsz⟩
  | succ n ih =>
    have hbad : ∀ {t : Kmem}, (∀ f ∉ U, t.page f = s.page f) → Space Users U t d →
        Ends (pure none : Op (Option Word)) t E fun r t => (∀ f ∉ U, t.page f = s.page f) ∧
          Space Users U t d ∧ (n + 1 = 0 → r = some sz) ∧
          ∀ sz', r = some sz' → Image k ∅ U t d sz' ∧ sz' < KERNBASE :=
      fun hout hspace => Ends.pure ⟨hout, hspace, fun h => absurd h (Nat.succ_ne_zero n),
        fun sz' heq => by cases heq⟩
    rw [loadSegments]
    cases ip.readProghdr off with
    | none => exact hbad (fun _ _ => rfl) h.space
    | some ph =>
      refine Ends.ite (fun _ => ?_) fun _ => ?_
      · refine (ih h hsz).post ?_
        rintro r t ⟨hout, hspace, -, hsome⟩
        exact ⟨hout, hspace, fun h => absurd h (Nat.succ_ne_zero n), hsome⟩
      refine Ends.ite (fun _ => hbad (fun _ _ => rfl) h.space) fun hmem => ?_
      refine Ends.ite (fun _ => hbad (fun _ _ => rfl) h.space) fun hwrap => ?_
      refine Ends.bind (h.allocuvm fun _ => hsz) ?_
      rintro r t ⟨hout, ⟨rfl, hspace, -⟩ | ⟨hne, hge, hr, -, himage⟩⟩
      · rw [if_pos rfl]
        exact hbad hout hspace
      rw [if_neg hne]
      refine Ends.ite (fun _ => hbad hout himage.space) fun halign => ?_
      have hend : ph.vaddr.toNat + ph.filesz.toNat ≤ r.toNat := by bv_omega
      refine Ends.bind (loaduvm_ends himage hr (not_not.mp halign) hend) ?_
      rintro ok t' hst
      have hout' : ∀ f ∉ U, t'.page f = s.page f := fun f hf => (hst.outside f hf).trans (hout f hf)
      cases ok with
      | false => exact hbad hout' (hst.space himage.space)
      | true =>
        refine (ih (himage.stores hst) hr).post ?_
        rintro r' t'' ⟨hout'', hspace'', -, hsome⟩
        exact ⟨fun f hf => (hout'' f hf).trans (hout' f hf), hspace'',
          fun h => absurd h (Nat.succ_ne_zero n), hsome⟩

end Xv6.Vm
