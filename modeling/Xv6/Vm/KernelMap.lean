import Xv6.Vm.UserMemory

/-!
# The kernel's part of an address space

`setupkvm` makes a directory with the kernel's mappings and no user page, or leaves all pages free.
-/

namespace Xv6.Vm

open Machine Function List

variable {k : Kernel} {U : Set Frame} {s t : Kmem} {d f : Frame} {E : Stop → Prop} {p : Nat}
  {m m' : Kmap}

/-! ### The table `kmap` -/

/-- The virtual pages of an entry of `kmap`. -/
def Kmap.range (m : Kmap) : Set Nat :=
  pages (pageNo m.virt) (lastPage m.virt (m.phys_end - m.phys_start))

instance (m : Kmap) : DecidablePred (· ∈ m.range) := fun p =>
  inferInstanceAs (Decidable (pageNo m.virt ≤ p ∧ p ≤ lastPage m.virt (m.phys_end - m.phys_start)))

/-- The page-table entries after those of `m` have been made. -/
def Kmap.over (pte : Nat → Word) (m : Kmap) : Nat → Word := fun p =>
  if p ∈ m.range then
    (m.phys_start + BitVec.ofNat 32 (4096 * (p - pageNo m.virt))) ||| m.perm ||| PTE_P
  else pte p

/-- The entries that `setupkvm` makes. -/
def kpte (k : Kernel) : Nat → Word := k.kmap.foldl Kmap.over fun _ => 0

/-- The entry is a block above `KERNBASE` that does not wrap. -/
structure Kmap.Ok (m : Kmap) : Prop where
  pos : 0 < (m.phys_end - m.phys_start).toNat
  end_le : m.virt.toNat + (m.phys_end - m.phys_start).toNat ≤ 4294967296
  kernel : KERNBASE ≤ m.virt

lemma Kmap.Ok.notMem_users (h : m.Ok) (hp : p ∈ m.range) : p ∉ Users := by
  intro hu
  have hle : 2147483648 ≤ m.virt.toNat := h.kernel
  have hp' : pageNo m.virt ≤ p := hp.1
  have hu' : p < 524288 := hu
  rw [pageNo] at hp'
  omega

lemma Kernel.data_bounds (k : Kernel) : 0x80100000 < k.data.toNat ∧ k.data.toNat < 0x8E000000 := by
  have htext : 0x80100000 < k.data.toNat := k.text_pos
  have hle : k.data.toNat ≤ k.end_.toNat := k.data_le
  have hend : k.end_.toNat < 0x8E000000 := k.end_lt
  omega

lemma toNat_text (k : Kernel) : (V2P k.data - V2P KERNLINK).toNat = k.data.toNat - 0x80100000 := by
  have hdata := k.data_bounds
  rw [V2P, V2P, show KERNLINK = 0x80100000 from rfl, show KERNBASE = 0x80000000 from rfl]
  bv_omega

lemma toNat_dataSize (k : Kernel) : (PHYSTOP - V2P k.data).toNat = 0x8E000000 - k.data.toNat := by
  have hdata := k.data_bounds
  rw [V2P, show PHYSTOP = 0xE000000 from rfl, show KERNBASE = 0x80000000 from rfl]
  bv_omega

lemma kmap_ok (k : Kernel) : ∀ m ∈ k.kmap, m.Ok := by
  have hdata := k.data_bounds
  have htext := toNat_text k
  have hsize := toNat_dataSize k
  simp only [Kernel.kmap, mem_cons, not_mem_nil, or_false]
  rintro m (rfl | rfl | rfl | rfl)
  · exact ⟨by decide, by decide, by decide⟩
  · have hpos : 0 < (V2P k.data - V2P KERNLINK).toNat := by omega
    have hend : 0x80100000 + (V2P k.data - V2P KERNLINK).toNat ≤ 4294967296 := by omega
    exact ⟨hpos, hend, show KERNBASE ≤ KERNLINK by decide⟩
  · have hpos : 0 < (PHYSTOP - V2P k.data).toNat := by omega
    have hend : k.data.toNat + (PHYSTOP - V2P k.data).toNat ≤ 4294967296 := by omega
    exact ⟨hpos, hend, show 0x80000000 ≤ k.data.toNat by omega⟩
  · exact ⟨by decide, by decide, by decide⟩

/-- Where the four blocks are, as page numbers. -/
lemma kmap_range (k : Kernel) : k.kmap.map Kmap.range = [pages 0x80000 0x800FF,
    pages 0x80100 (pageNo k.data - 1), pages (pageNo k.data) 0x8DFFF, pages 0xFE000 0xFFFFF] := by
  have hdata := k.data_bounds
  have haligned := k.data_aligned
  have htext : lastPage KERNLINK (V2P k.data - V2P KERNLINK) = pageNo k.data - 1 := by
    rw [lastPage, toNat_text, show KERNLINK.toNat = 0x80100000 from rfl, pageNo]
    omega
  have hlast : lastPage k.data (PHYSTOP - V2P k.data) = 0x8DFFF := by
    rw [lastPage, toNat_dataSize]
    omega
  simp only [Kernel.kmap, map_cons, map_nil, Kmap.range, htext, hlast]
  rfl

lemma kmap_disjoint (k : Kernel) : k.kmap.Pairwise fun m m' => ∀ p ∈ m.range, p ∉ m'.range := by
  have hdata := k.data_bounds
  have hpage : 0x80100 ≤ pageNo k.data ∧ pageNo k.data ≤ 0x8DFFF := by
    rw [pageNo]
    omega
  have hpair : (k.kmap.map Kmap.range).Pairwise fun A A' => ∀ p ∈ A, p ∉ A' := by
    rw [kmap_range]
    simp only [pairwise_cons, mem_cons, not_mem_nil, or_false, forall_eq_or_imp,
      forall_eq, pages, Set.mem_ofPred_eq]
    refine ⟨⟨?_, ?_, ?_⟩, ⟨?_, ?_⟩, ?_, (fun _ h => by cases h), List.Pairwise.nil⟩ <;> intro p hp hp' <;> omega
  exact pairwise_map.mp hpair

/-- What holds of all entries that are made, and of 0, holds of all entries. -/
lemma foldl_over {Q : Nat → Word → Prop} {l : List Kmap} {pte : Nat → Word} (hpte : ∀ p, Q p (pte p))
    (hl : ∀ m ∈ l, ∀ p ∈ m.range,
      Q p ((m.phys_start + BitVec.ofNat 32 (4096 * (p - pageNo m.virt))) ||| m.perm ||| PTE_P)) :
    ∀ p, Q p (l.foldl Kmap.over pte p) := by
  induction l generalizing pte with
  | nil => exact hpte
  | cons m rest ih =>
    refine ih ?_ fun m' hm' => hl m' (mem_cons_of_mem m hm')
    intro p
    rw [Kmap.over]
    split
    · exact hl m mem_cons_self p ‹_›
    · exact hpte p

lemma kpte_of_user (hp : p ∈ Users) : kpte k p = 0 := by
  refine foldl_over (Q := fun p v => p ∈ Users → v = 0) (fun _ _ => rfl) ?_ p hp
  intro m hm q hq hu
  exact absurd hu ((kmap_ok k m hm).notMem_users hq)

/-- A page-aligned physical address has no flag. -/
lemma user_aligned {pa perm : Word} (hpa : pa.toNat % 4096 = 0) (hperm : user perm = false) :
    user (pa ||| perm ||| PTE_P) = false := by
  have hbit : pa.getLsbD 2 = false := by
    have hmod : pa.toNat / 2 ^ 2 % 2 = 0 := by omega
    rw [BitVec.getLsbD, Nat.testBit_eq_decide_div_mod_eq, hmod]
    rfl
  rw [user_eq] at hperm ⊢
  rw [BitVec.getLsbD_or, BitVec.getLsbD_or, hbit, hperm, getLsbD_PTE_P]
  rfl

lemma kmap_aligned (k : Kernel) : ∀ m ∈ k.kmap, m.phys_start.toNat % 4096 = 0 ∧ user m.perm = false := by
  have haligned := k.data_aligned
  have hphys : (V2P k.data).toNat % 4096 = 0 := by
    rw [V2P, KERNBASE]
    bv_omega
  simp only [Kernel.kmap, mem_cons, not_mem_nil, or_false]
  rintro m (rfl | rfl | rfl | rfl)
  · exact ⟨rfl, by decide⟩
  · exact ⟨show (V2P KERNLINK).toNat % 4096 = 0 by decide, show user 0 = false by decide⟩
  · exact ⟨hphys, show user PTE_W = false by decide⟩
  · exact ⟨rfl, by decide⟩

/-- The kernel's pages are not for the user. -/
lemma kpte_not_user (k : Kernel) (p : Nat) : user (kpte k p) = false := by
  refine foldl_over (Q := fun _ v => user v = false) (fun _ => by decide) ?_ p
  intro m hm q hq
  obtain ⟨hphys, hperm⟩ := kmap_aligned k m hm
  refine user_aligned ?_ hperm
  rw [BitVec.toNat_add, BitVec.toNat_ofNat]
  omega

/-! ### `setupkvm` -/

lemma kmapLoop_ends {l : List Kmap} (h : Space Users U s d) (hok : ∀ m ∈ l, m.Ok)
    (hdisj : l.Pairwise fun m m' => ∀ p ∈ m.range, p ∉ m'.range)
    (habs : ∀ m ∈ l, ∀ p ∈ m.range, present (pteOf s.page d p) = false) :
    Ends (kmapLoop d l) s E fun r t => Space Users U t d ∧ (∀ f ∉ U, t.page f = s.page f) ∧
      (∀ i, (∀ m ∈ l, ∀ p ∈ m.range, p / 1024 ≠ i) → tableOf t.page d i = tableOf s.page d i) ∧
      (∀ p ∈ Users, pteOf t.page d p = pteOf s.page d p) ∧ (r = false → t.freelist = []) ∧
      (r = true → pteOf t.page d = l.foldl Kmap.over (pteOf s.page d)) := by
  induction l generalizing s with
  | nil => exact Ends.pure ⟨h, fun _ _ => rfl, fun _ _ => rfl, fun _ _ => rfl, (fun h => by cases h), fun _ => rfl⟩
  | cons m rest ih =>
    have hm : m.Ok := hok m mem_cons_self
    rw [pairwise_cons] at hdisj
    refine Ends.bind (mappages_ends h hm.pos hm.end_le (fun p hp => hm.notMem_users hp)
      (habs m mem_cons_self)) ?_
    rintro r t ⟨hspace, hkeeps, htabs, hempty, hpte⟩
    have husers : ∀ p ∈ Users, pteOf t.page d p = pteOf s.page d p :=
      fun p hp => hkeeps.pte p fun hmem => hm.notMem_users hmem hp
    have htabs' : ∀ i, (∀ m' ∈ m :: rest, ∀ p ∈ m'.range, p / 1024 ≠ i) →
        tableOf t.page d i = tableOf s.page d i :=
      fun i hi => htabs i (hi m mem_cons_self)
    cases r with
    | false => exact Ends.pure ⟨hspace, hkeeps.outside, htabs', husers, hempty, fun h => by cases h⟩
    | true =>
      have hover : pteOf t.page d = Kmap.over (pteOf s.page d) m := by
        funext p
        by_cases hp : p ∈ m.range
        · have hnew := (hpte p hp).resolve_right fun hr => by cases hr.1
          rw [Kmap.over, if_pos hp, hnew]
        · rw [Kmap.over, if_neg hp, hkeeps.pte p hp]
      refine (ih hspace (fun m' hm' => hok m' (mem_cons_of_mem m hm')) hdisj.2 ?_).imp (fun _ h => h) ?_
      · intro m' hm' p hp
        have hnot : p ∉ m.range := fun hpm => hdisj.1 m' hm' p hpm hp
        rw [hkeeps.pte p hnot]
        exact habs m' (mem_cons_of_mem m hm') p hp
      · rintro r t' ⟨hspace', hout, htabs'', husers', hempty', hptes⟩
        refine ⟨hspace', fun f hf => (hout f hf).trans (hkeeps.outside f hf), ?_,
          fun p hp => (husers' p hp).trans (husers p hp), hempty', ?_⟩
        · intro i hi
          rw [htabs'' i fun m' hm' => hi m' (mem_cons_of_mem m hm'), htabs' i hi]
        · intro hr
          rw [hptes hr, hover]
          rfl

/-- A new address space with the kernel's mappings only; or none, if there were not enough pages, and the
same pages are free. -/
lemma setupkvm_ends (h : Free U s) (hU : ∀ f ∈ U, k.Allocatable f) :
    Ends (setupkvm k) s E fun r t => (∀ f ∉ U, t.page f = s.page f) ∧
      ((r = none ∧ Free U t ∧ AtMost 1025 U) ∨ ∃ d, r = some d ∧ Space Users U t d ∧ pteOf t.page d = kpte k ∧
        ∀ i, (∀ m ∈ k.kmap, ∀ p ∈ m.range, p / 1024 ≠ i) → tableOf t.page d i = none) := by
  refine Ends.bind (kalloc_ends h) ?_
  rintro r t (⟨rfl, rfl, hempty⟩ | ⟨d, rfl, hd, hpage, hpool⟩)
  · refine Ends.pure ⟨fun _ _ => rfl, Or.inl ⟨rfl, h, [], Nat.zero_le _, ?_⟩⟩
    intro f hf
    have hmem := (h.mem_iff.mp hf).resolve_left fun ⟨_, hfalse⟩ => hfalse
    rwa [hempty] at hmem
  refine Ends.bind (memset_ends d 0) ?_
  rintro _ t₁ rfl
  have hzero : update t.page d (fun _ => 0) d = fun _ => 0 := update_self _ _ _
  have hspace : Space Users U { t with page := update t.page d fun _ => 0 } d := by
    have hempty := Space.ofEmpty (P := Users)
      (s := { t with page := update t.page d fun _ => 0 }) hpool (fun hmem => hmem.2 rfl) hzero
    rwa [Set.insert_sdiff_self_of_mem hd] at hempty
  have hout : ∀ f ∉ U, update t.page d (fun _ => 0) f = s.page f := by
    intro f hf
    have hne : f ≠ d := by
      rintro rfl
      exact hf hd
    rw [update_of_ne hne, hpage]
  have hnone : pteOf (update t.page d fun _ => 0) d = fun _ => 0 :=
    funext fun p => pteOf_of_none (tableOf_zero (s := { t with page := _ }) hzero)
  refine Ends.ite (fun hbig => absurd hbig (by decide)) fun _ => ?_
  refine Ends.bind (kmapLoop_ends hspace (kmap_ok k) (kmap_disjoint k) ?_) ?_
  · intro m _ p _
    rw [hnone, present_zero]
  rintro r t₂ ⟨hspace₂, hout₂, htabs, husers, hempty, hpte⟩
  have hout' : ∀ f ∉ U, t₂.page f = s.page f := fun f hf => (hout₂ f hf).trans (hout f hf)
  cases r with
  | true =>
    refine Ends.pure ⟨hout', Or.inr ⟨d, rfl, hspace₂, ?_, ?_⟩⟩
    · rw [hpte rfl, hnone]
      rfl
    · intro i hi
      rw [htabs i hi]
      exact tableOf_zero (s := { t with page := _ }) hzero
  | false =>
    refine Ends.bind (freevm_ends hspace₂ hU) ?_
    rintro _ t₃ ⟨hfree, hout₃⟩
    refine Ends.pure ⟨fun f hf => (hout₃ f hf).trans (hout' f hf), Or.inl ⟨rfl, hfree, ?_⟩⟩
    refine atMost_of_empty (n := 0) hspace₂ (hempty rfl) fun p hp hpres => ?_
    rw [husers p hp, hnone, present_zero] at hpres
    cases hpres

end Xv6.Vm
