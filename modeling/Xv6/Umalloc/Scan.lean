import Xv6.Umalloc.FreeList

/-!
# Taking a block

The scan of `malloc` goes once around the free list. If no block is long enough, `morecore` appends memory
and `free` puts it into the list; a second time around finds a block.
-/

namespace Xv6.Umalloc

open Machine Machine.Heap Vm Function List

variable {s t : State} {base p q v nu : Word} {start n x y : Nat} {b c : Block} {L l r : List Block}
  {f g : Bool} {E : Stop → Prop} {fuel : Nat}

/-! ### The block -/

/-- In `L'`, there is one more block in use than in `L`: one of `n` units at `y`. -/
structure OneMore (start : Nat) (L : List Block) (n y : Nat) (L' : List Block) : Prop where
  fresh : ∀ d, d.free = false → ¬ At start L y d
  new : At start L' y ⟨n, false⟩
  used : ∀ z d, d.free = false → (At start L' z d ↔ At start L z d ∨ (z = y ∧ d = ⟨n, false⟩))

/-- The result is a block of `n` units that was not in use. -/
def Took (base : Word) (start : Nat) (L : List Block) (n : Nat) (r : Word) (t : State) : Prop :=
  ∃ L' y, Rep base start t L' ∧ r = word (y + 8) ∧ OneMore start L n y L'

/-- A block becomes two: the length of the first is stored in its header, a new header has that of the
second. -/
lemma Cut.carve (h : Cut base start s (l ++ b :: r)) {v w : Word} (hn : 0 < n) (hlt : n < b.units)
    (hv : v.toNat = b.units - n) (hw : w.toNat = n)
    (hsize : t.size = update (update s.size (word (start + span l)) v)
      (word (start + span l + 8 * (b.units - n))) w)
    (hsz : t.sz = s.sz) : Cut base start t (l ++ ⟨b.units - n, f⟩ :: ⟨n, g⟩ :: r) := by
  obtain ⟨hl, hb, hr, hbase, hend⟩ := h.parts
  have hne : ∀ z, z < start + span l ∨ start + span l + 8 * b.units ≤ z ∧ z < 2147483648 →
      word z ≠ word (start + span l + 8 * (b.units - n)) :=
    fun z hz => word_ne (by omega) (by omega) (by omega)
  refine ⟨h.base_pos, h.base_lt, ?_, hsz ▸ h.sz_le, ?_, ?_, ?_⟩
  · rw [hsz, h.sz_eq]
    simp only [span_append, span_cons]
    omega
  · refine solid_append.mpr ⟨hl, solid_cons.mpr ⟨?_, solid_cons.mpr ⟨hn, hr⟩⟩⟩
    show 0 < b.units - n
    omega
  · intro x d hd
    rw [hsize]
    rcases at_append.mp hd with hd | ⟨rfl, rfl⟩ | ⟨rfl, rfl⟩ | hd
    · have hpos := hl d hd.mem
      have hbounds := hd.bounds
      rw [update_of_ne (hne x (by omega))]
      exact h.update_size (at_append.mpr (Or.inl hd)) (by omega) v
    · rw [update_of_ne, update_self, hv]
      exact word_ne (by omega) (by omega) (by omega)
    · rw [update_self, hw]
    · have hmul : start + span l + 8 * (b.units - n) + 8 * n = start + span l + 8 * b.units := by omega
      rw [hmul] at hd
      have hpos := hr d hd.mem
      have hbounds := hd.bounds
      rw [update_of_ne (hne x (by omega))]
      exact h.update_size (at_append.mpr (Or.inr (Or.inr hd))) (by omega) v
  · rw [hsize, update_of_ne, h.update_base v]
    rw [← word_toNat base]
    exact hne _ (Or.inl (by omega))

/-- Only the last node before a free block points to it. -/
lemma Rep.eq_pred (h : Rep base start s (l ++ b :: r)) (hb : b.free = true)
    (hv : v ∈ base :: (frees start (l ++ b :: r)).map word) (hptr : s.ptr v = word (start + span l)) :
    v = pred base start l := by
  have hring := h.ring
  rw [frees_append, frees_cons_free hb, map_append, map_cons] at hv hring
  obtain ⟨hwl, hwr⟩ := walk_append.mp hring
  rw [← cons_append, mem_append] at hv
  rcases hv with hv | hv
  · by_contra hne
    have hmem := (hwl.step h.sorted_below hv hne).1
    rw [hptr] at hmem
    exact h.notMem_below (mem_cons_of_mem _ hmem)
  · exfalso
    by_cases hlast : v = ((frees (start + span l + 8 * b.units) r).map word).getLastD (word (start + span l))
    · have hnext := hwr.last
      rw [← hlast, hptr] at hnext
      exact h.notMem_below (hnext ▸ mem_cons_self)
    · have hmem := (hwr.step h.sorted_above hv hlast).1
      rw [hptr] at hmem
      exact h.ne_of_above hmem rfl

lemma advance_one (x : Nat) : advance (word x) 1 = word (x + 8) := by
  rw [word_add]
  rfl

/-- A free block that is long enough is taken, or the end of it. -/
lemma take_ends (h : Rep base start s L) (hx : At start L x b) (hb : b.free = true) (hn : 0 < n)
    (hle : n ≤ b.units) (hnu : nu.toNat = n) (hp : p ∈ base :: (frees start L).map word)
    (hptr : s.ptr p = word x) :
    Ends (take nu p (word x)) s E fun r t => t.sz = s.sz ∧ Took base start L n r t := by
  obtain ⟨l, r, rfl, rfl⟩ := hx.split
  obtain ⟨hl, hbpos, hr, hbase, hend⟩ := h.parts
  have hpred := h.eq_pred hb hp hptr
  have hsize := h.toNat_size
  obtain ⟨⟨hcl, hlast⟩, hcr, hfirst⟩ := (coalesced_free hb).mp h.coalesced
  have hring := h.ring
  rw [frees_append, frees_cons_free hb, map_append, map_cons] at hring
  have hnodup : (base :: ((frees start l).map word ++
      word (start + span l) :: (frees (start + span l + 8 * b.units) r).map word)).Nodup := by
    have hnd := nodup_of_sorted (nodes_sorted hbase h.solid h.end_le)
    rwa [frees_append, frees_cons_free hb, map_append, map_cons] at hnd
  have hfresh : ∀ y, start + span l ≤ y → y < start + span l + 8 * b.units →
      ∀ d, d.free = false → ¬ At start (l ++ b :: r) y d := by
    intro y hlo hhi d hd hy
    have hpos := h.solid d hy.mem
    rcases hx.disjoint hy with ⟨-, rfl⟩ | hlt | hlt
    · rw [hb] at hd
      cases hd
    · omega
    · omega
  refine Ends.get_bind (Ends.ite ?_ ?_)
  · -- the whole block, which leaves the list
    intro heq
    obtain rfl : b.units = n := by rw [← hsize, heq, hnu]
    refine Ends.set_bind (Ends.pure ⟨rfl, l ++ ⟨b.units, false⟩ :: r, start + span l,
      ⟨h.toCut.flag.congr size_setPtr rfl, ?_, ?_, ?_⟩, advance_one _, hfresh _ (by omega) (by omega), at_mid, ?_⟩)
    · exact (coalesced_used rfl).mpr ⟨hcl, hcr⟩
    · show Walk (s.setPtr _ _).ptr _ _ _
      rw [ptr_setPtr, hpred, frees_append, frees_cons_used rfl, map_append]
      exact hring.skip hnodup
    · show p ∈ _
      rw [hpred, frees_append, map_append, ← cons_append]
      exact mem_append_left _ pred_mem
    · intro z d hd
      simp only [at_append, at_cons]
      constructor
      · rintro (hz | hz | hz)
        · exact Or.inl (Or.inl hz)
        · exact Or.inr hz
        · exact Or.inl (Or.inr (Or.inr hz))
      · rintro ((hz | ⟨-, rfl⟩ | hz) | hz)
        · exact Or.inl hz
        · rw [hb] at hd
          cases hd
        · exact Or.inr (Or.inr hz)
        · exact Or.inr (Or.inl hz)
  · -- the end of the block; the rest stays where it is in the list
    intro hne
    have hlt : n < b.units := by
      refine Nat.lt_of_le_of_ne hle fun heq => hne (BitVec.eq_of_toNat_eq ?_)
      rw [hsize, hnu, heq]
    have hrest : (s.size (word (start + span l)) - nu).toNat = b.units - n := by bv_omega
    have haddr : advance (word (start + span l)) (s.size (word (start + span l)) - nu) =
        word (start + span l + 8 * (b.units - n)) := by
      refine BitVec.eq_of_toNat_eq ?_
      rw [toNat_advance (by omega) (by omega), hrest, toNat_word (by omega)]
    simp only [size_setSize, update_self, haddr]
    refine Ends.set_bind (Ends.pure ⟨rfl, l ++ ⟨b.units - n, true⟩ :: ⟨n, false⟩ :: r,
      start + span l + 8 * (b.units - n), ⟨h.toCut.carve hn hlt hrest hnu ?_ rfl, ?_, ?_, ?_⟩,
      advance_one _, hfresh _ (by omega) (by omega), ?_, ?_⟩)
    · exact size_setSize.trans (by rw [size_setSize])
    · refine (coalesced_free rfl).mpr ⟨⟨hcl, hlast⟩, (coalesced_used (L := []) rfl).mpr ⟨List.IsChain.nil, hcr⟩, ?_⟩
      rintro d ⟨⟩
      rfl
    · show Walk ((s.setSize _ _).setSize _ _).ptr _ _ _
      have hmul : start + span l + 8 * (b.units - n) + 8 * n = start + span l + 8 * b.units := by omega
      rw [ptr_setSize, ptr_setSize, frees_append, frees_cons_free rfl, frees_cons_used rfl, hmul,
        map_append, map_cons]
      exact hring
    · show p ∈ _
      rw [hpred, frees_append, map_append, ← cons_append]
      exact mem_append_left _ pred_mem
    · exact at_append.mpr (Or.inr (Or.inr (Or.inl ⟨rfl, rfl⟩)))
    · intro z d hd
      have hmul : start + span l + 8 * (b.units - n) + 8 * n = start + span l + 8 * b.units := by omega
      simp only [at_append, at_cons, hmul]
      constructor
      · rintro (hz | ⟨-, rfl⟩ | hz | hz)
        · exact Or.inl (Or.inl hz)
        · cases hd
        · exact Or.inr hz
        · exact Or.inl (Or.inr (Or.inr hz))
      · rintro ((hz | ⟨-, rfl⟩ | hz) | hz)
        · exact Or.inl hz
        · rw [hb] at hd
          cases hd
        · exact Or.inr (Or.inr (Or.inr hz))
        · exact Or.inr (Or.inr (Or.inl hz))

/-! ### The scan -/

/-- Nodes that are too short, other than `freep`, are passed over. -/
lemma scan_walk {l : List Word} (hw : Walk s.ptr p l q) (hl : ∀ v ∈ l, s.size v < nu ∧ v ≠ s.freep) :
    scan nu (l.length + fuel) p (s.ptr p) s = scan nu fuel (l.getLastD p) q s := by
  induction l generalizing p with
  | nil => rw [show s.ptr p = q from hw, length_nil, Nat.zero_add, getLastD_nil]
  | cons v l ih =>
    obtain ⟨hsize, hne⟩ := hl v mem_cons_self
    have hstep : scan nu (l.length + fuel + 1) p v s = scan nu (l.length + fuel) v (s.ptr v) s := by
      show (if s.size v ≥ nu then _ else if v = s.freep then _ else _ : Op Word) s = _
      rw [if_neg (BitVec.not_le.mpr hsize), if_neg hne]
    rw [hw.1, length_cons, Nat.add_right_comm, hstep, getLastD_cons]
    exact ih hw.2 fun u hu => hl u (mem_cons_of_mem v hu)

section

variable (h : Rep base start s L)

include h

/-- The scan stops at a node that is long enough. -/
lemma scan_take (hn : 0 < n) (hnu : nu.toNat = n)
    (hp : p ∈ base :: (frees start L).map word) (hptr : s.ptr p = q)
    (hq : q ∈ base :: (frees start L).map word) (hbig : nu ≤ s.size q) :
    Ends (scan nu (fuel + 1) p q) s E fun r t => t.sz = s.sz ∧ Took base start L n r t := by
  have hle : nu.toNat ≤ (s.size q).toNat := hbig
  refine Ends.get_bind (Ends.ite (fun _ => ?_) fun hsmall => absurd hbig hsmall)
  rcases mem_cons.mp hq with rfl | hq
  · have hzero : (0 : Word).toNat = 0 := rfl
    rw [h.base_size, hzero] at hle
    omega
  · obtain ⟨x, b, hx, hb, rfl⟩ := mem_map_frees.mp hq
    rw [h.units x b hx, hnu] at hle
    exact take_ends h hx hb hn hle hnu hp hptr

/-- Around the circle from `freep`: there is a first node that is long enough, or all are too short. -/
lemma Rep.around (nu : Word) : ∃ l q, Walk s.ptr s.freep l q ∧
    (∀ v ∈ l, s.size v < nu ∧ v ≠ s.freep) ∧ l.length ≤ (frees start L).length ∧
    l.getLastD s.freep ∈ base :: (frees start L).map word ∧ q ∈ base :: (frees start L).map word ∧
    (nu ≤ s.size q ∨ q = s.freep ∧ ∀ v ∈ base :: (frees start L).map word, s.size v < nu) := by
  obtain ⟨ys, hw, hperm⟩ := h.ring.rotate h.freep
  have hnd : (s.freep :: ys).Nodup := by
    have hbase := h.base_lt
    exact hperm.nodup_iff.mpr (nodup_of_sorted (nodes_sorted (by omega) h.solid h.end_le))
  have hlen : ys.length = (frees start L).length := by simpa using hperm.length_eq
  have hfirst : ∀ v ∈ ys, v ≠ s.freep := by
    rintro v hv rfl
    exact (nodup_cons.mp hnd).1 hv
  cases hfind : ys.find? fun v => decide (nu ≤ s.size v) with
  | some q =>
    obtain ⟨hq, l, r, rfl, hl⟩ := List.find?_eq_some_iff_append.mp hfind
    have hsub : ∀ v ∈ s.freep :: l, v ∈ base :: (frees start L).map word := by
      intro v hv
      refine hperm.mem_iff.mp ?_
      rw [← cons_append]
      exact mem_append_left _ hv
    refine ⟨l, q, (walk_append.mp hw).1, ?_, ?_, hsub _ (getLastD_mem _ _), ?_, Or.inl (by simpa using hq)⟩
    · intro v hv
      refine ⟨?_, hfirst v (mem_append_left _ hv)⟩
      have hsmall := hl v hv
      simp only [Bool.not_eq_true', decide_eq_false_iff_not] at hsmall
      exact BitVec.not_le.mp hsmall
    · rw [← hlen, length_append]
      exact Nat.le_add_right _ _
    · exact hperm.mem_iff.mp (mem_cons_of_mem _ (mem_append_right _ mem_cons_self))
  | none =>
    have hsmall : ∀ v ∈ ys, s.size v < nu := by
      intro v hv
      have hnot := List.find?_eq_none.mp hfind v hv
      rw [decide_eq_true_eq] at hnot
      exact BitVec.not_le.mp hnot
    refine ⟨ys, s.freep, hw, fun v hv => ⟨hsmall v hv, hfirst v hv⟩, Nat.le_of_eq hlen,
      hperm.mem_iff.mp (getLastD_mem _ _), h.freep, ?_⟩
    by_cases hlast : nu ≤ s.size s.freep
    · exact Or.inl hlast
    · refine Or.inr ⟨rfl, ?_⟩
      intro v hv
      rcases mem_cons.mp (hperm.mem_iff.mpr hv) with rfl | hv
      · exact BitVec.not_le.mp hlast
      · exact hsmall v hv

/-- There are fewer free blocks than units of memory. -/
lemma Rep.length_le : (frees start L).length ≤ 268435456 := by
  have hlen := length_frees_le (a := start) h.solid
  have hend := h.end_le
  omega

/-- If there is a free block that is long enough, the scan takes one. -/
lemma scan_found (hn : 0 < n) (hnu : nu.toNat = n) (hx : At start L x b)
    (hb : b.free = true) (hle : n ≤ b.units) (hfuel : 268435456 < fuel) :
    Ends (scan nu fuel s.freep (s.ptr s.freep)) s E fun r t => t.sz = s.sz ∧ Took base start L n r t := by
  obtain ⟨l, q, hw, hl, hlen, hlast, hq, hcases⟩ := h.around nu
  have hmax := h.length_le
  obtain ⟨k, rfl⟩ : ∃ k, fuel = l.length + (k + 1) := ⟨fuel - l.length - 1, by omega⟩
  refine Ends.congr (scan_walk hw hl) (scan_take h hn hnu hlast hw.last hq ?_)
  refine hcases.resolve_right fun hnone => ?_
  have hlt := hnone.2 (word x) (mem_cons_of_mem _ (mem_map_frees.mpr ⟨x, b, hx, hb, rfl⟩))
  have hlt' : (s.size (word x)).toNat < nu.toNat := hlt
  rw [h.units x b hx] at hlt'
  omega

end

/-! ### More memory -/

lemma Rep.freep_ne (h : Rep base start s L) : s.freep ≠ 0 := by
  rcases mem_cons.mp h.freep with hbase | hmem
  · rw [hbase]
    exact h.base_pos
  · have hge := (mem_bounds h.solid h.end_le hmem).1
    have hlt := h.base_lt
    intro hzero
    rw [hzero] at hge
    have hnat : (0 : Word).toNat = 0 := rfl
    omega

/-- A request for less than 2 GB moves the size by it or fails. -/
lemma growSize_cases {sz v : Word} (avail : Bool) (hsz : sz.toNat ≤ 2147483648) (hpos : 0 < v.toNat)
    (hv : v.toNat < 2147483648) : growSize avail sz v = none ∨
    growSize avail sz v = some (sz + v) ∧ (sz + v).toNat = sz.toNat + v.toNat ∧
      (sz + v).toNat < 2147483648 := by
  have hslt : (0 : Word).slt v = true := by
    have hint : v.toInt = v.toNat := BitVec.toInt_eq_toNat_of_lt (by omega)
    rw [BitVec.slt_iff_toInt_lt, hint]
    exact Int.natCast_pos.mpr hpos
  have hsum : (sz + v).toNat = sz.toNat + v.toNat := by bv_omega
  rw [growSize, if_pos hslt]
  by_cases hbig : sz + v ≥ KERNBASE
  · exact Or.inl (if_pos hbig)
  · have hlt : (sz + v).toNat < 2147483648 := Nat.lt_of_not_le hbig
    have hnot : ¬ sz + v < sz := by bv_omega
    rw [if_neg hbig, if_neg hnot]
    by_cases havail : avail = true ∧ sz + v ≠ 0
    · exact Or.inr ⟨if_pos havail, hsum, hlt⟩
    · exact Or.inl (if_neg havail)

lemma sbrk_ends (hsz : s.sz.toNat ≤ 2147483648) (hpos : 0 < v.toNat) (hv : v.toNat < 2147483648) :
    Ends (sbrk v) s E fun r t => t.mem = s.mem ∧ t.freep = s.freep ∧
      ((r = -1 ∧ t.sz = s.sz) ∨
        (r = s.sz ∧ t.sz.toNat = s.sz.toNat + v.toNat ∧ t.sz.toNat < 2147483648)) := by
  refine Ends.get_bind ?_
  rcases growSize_cases (s.pages.headD false) hsz hpos hv with hnone | ⟨hsome, hsum, hlt⟩
  · rw [hnone]
    exact Ends.set_bind (Ends.pure ⟨rfl, rfl, Or.inl ⟨rfl, rfl⟩⟩)
  · rw [hsome]
    exact Ends.set_bind (Ends.pure ⟨rfl, rfl, Or.inr ⟨rfl, hsum, hlt⟩⟩)

/-- New memory is a block in use. -/
lemma Rep.grow (h : Rep base start s L) (hmem : t.mem = s.mem) (hfreep : t.freep = s.freep) (hn : 0 < n)
    (hnu : nu.toNat = n) (hsz : t.sz.toNat = s.sz.toNat + 8 * n) (hlt : t.sz.toNat < 2147483648) :
    Rep base start (t.setSize s.sz nu) (L ++ [⟨n, false⟩]) := by
  have hszeq := h.sz_eq
  have hbase := h.base_lt
  have hsize : t.size = s.size := funext fun p => congrArg Header.size (congrFun hmem p)
  have hptr : t.ptr = s.ptr := funext fun p => congrArg Header.ptr (congrFun hmem p)
  have hfrees : frees start (L ++ [⟨n, false⟩]) = frees start L := by
    rw [frees_append, frees_cons_used rfl, frees_nil, append_nil]
  refine ⟨⟨h.base_pos, h.base_lt, ?_, Nat.le_of_lt hlt, ?_, ?_, ?_⟩, ?_, ?_, ?_⟩
  · show t.sz.toNat = _
    rw [hsz, hszeq, span_append, Nat.add_assoc]
    rfl
  · exact solid_append.mpr ⟨h.solid, solid_cons.mpr ⟨hn, fun b hb => by cases hb⟩⟩
  · intro x d hd
    rw [size_setSize, hsize, ← word_toNat s.sz]
    rcases at_append.mp hd with hd | ⟨rfl, rfl⟩ | hnil
    · have hpos := h.solid d hd.mem
      have hbounds := hd.bounds
      rw [update_of_ne (word_ne (by omega) (by omega) (by omega)), h.units x d hd]
    · rw [hszeq, update_self, hnu]
    · exact hnil.elim
  · rw [size_setSize, hsize, update_of_ne, h.base_size]
    intro heq
    have hto := congrArg BitVec.toNat heq
    omega
  · exact (coalesced_used rfl).mpr ⟨h.coalesced, List.IsChain.nil⟩
  · rw [ptr_setSize, hptr, hfrees]
    exact h.ring
  · show t.freep ∈ _
    rw [hfreep, hfrees]
    exact h.freep

/-- `morecore` fails, or there is a free block that is long enough. -/
lemma morecore_ends (h : Rep base start s L) (hn : 0 < n) (hnu : nu.toNat = n) (hlt : 8 * n < 2147483648)
    (hfuel : 268435457 < fuel) :
    Ends (morecore fuel nu) s E fun r t => (r = 0 ∧ t.sz = s.sz ∧ Rep base start t L) ∨
      (r ≠ 0 ∧ r = t.freep ∧ s.sz ≤ t.sz ∧ ∃ L', Rep base start t L' ∧
        (∀ z d, d.free = false → (At start L' z d ↔ At start L z d)) ∧
        ∃ y d, At start L' y d ∧ d.free = true ∧ n ≤ d.units) := by
  rw [morecore]
  obtain ⟨m, w, hm, hnm, hmlt, hw⟩ : ∃ (m : Nat) (w : Word), w.toNat = m ∧ n ≤ m ∧ 8 * m < 2147483648 ∧
      (if nu < 4096 then 4096 else nu) = w := by
    by_cases hsmall : nu < 4096
    · have hsmall' : nu.toNat < 4096 := hsmall
      exact ⟨4096, 4096, rfl, by omega, by decide, if_pos hsmall⟩
    · exact ⟨n, nu, hnu, Nat.le_refl n, hlt, if_neg hsmall⟩
  simp only [hw]
  have hmul : (w * 8).toNat = 8 * m := by bv_omega
  refine Ends.bind (sbrk_ends h.sz_le (by omega) (by omega)) ?_
  rintro r t ⟨hmem, hfreep, ⟨rfl, hsz⟩ | ⟨rfl, hsz, hend⟩⟩
  · refine Ends.ite (fun _ => Ends.pure (Or.inl ⟨rfl, hsz, ?_⟩)) fun hne => absurd rfl hne
    obtain ⟨mem, freep, sz, pages⟩ := t
    obtain rfl : mem = s.mem := hmem
    obtain rfl : freep = s.freep := hfreep
    obtain rfl : sz = s.sz := hsz
    exact ⟨h.toCut.congr rfl rfl, h.coalesced, h.ring, h.freep⟩
  · have hle := h.sz_le
    have hszeq := h.sz_eq
    refine Ends.ite (fun hminus => ?_) fun _ => ?_
    · have hto := congrArg BitVec.toNat hminus
      have hbig : (-1 : Word).toNat = 4294967295 := rfl
      omega
    have hrep := h.grow hmem hfreep (by omega) hm (hsz.trans (by rw [hmul])) hend
    have hnew : At start (L ++ [⟨m, false⟩]) s.sz.toNat ⟨m, false⟩ := by
      rw [hszeq]
      exact at_mid
    have hlen := hrep.length_le
    have hadv : advance s.sz 1 = word (s.sz.toNat + 8) := by
      rw [← advance_one, word_toNat]
    refine Ends.bind (Ends.modify rfl) (Q := fun _ u => u = t.setSize s.sz w) ?_
    rintro _ u rfl
    rw [hadv]
    refine Ends.bind (free_ends hrep hnew rfl (by omega)) ?_
    rintro _ u ⟨husz, L', hrep', hused, y, d, hd, hfree, hdle⟩
    refine Ends.get_bind (Ends.pure (Or.inr ⟨hrep'.freep_ne, rfl, ?_, L', hrep', ?_, y, d, hd, hfree,
      Nat.le_trans hnm hdle⟩))
    · show s.sz.toNat ≤ u.sz.toNat
      rw [husz]
      show s.sz.toNat ≤ t.sz.toNat
      omega
    · intro z d hd
      rw [hused z d hd, at_append]
      constructor
      · rintro ⟨hz | ⟨rfl, -⟩ | hnil, hne⟩
        · exact hz
        · exact absurd hszeq.symm hne
        · exact hnil.elim
      · intro hz
        have hpos := h.solid d hz.mem
        have hbounds := hz.bounds
        exact ⟨Or.inl hz, by omega⟩

/-- The scan of `malloc`: 0 and nothing has changed, or a block that was not in use. -/
lemma scan_ends (h : Rep base start s L) (hn : 0 < n) (hnu : nu.toNat = n) (hlt : 8 * n < 2147483648)
    (hfuel : 1073741824 ≤ fuel) :
    Ends (scan nu fuel s.freep (s.ptr s.freep)) s E fun r t => s.sz ≤ t.sz ∧
      ((r = 0 ∧ t.sz = s.sz ∧ Rep base start t L) ∨ Took base start L n r t) := by
  obtain ⟨l, q, hw, hl, hlen, hlast, hq, hcases⟩ := h.around nu
  have hmax := h.length_le
  obtain ⟨k, rfl⟩ : ∃ k, fuel = l.length + (k + 1) := ⟨fuel - l.length - 1, by omega⟩
  refine Ends.congr (scan_walk hw hl) ?_
  rcases hcases with hbig | ⟨rfl, hnone⟩
  · refine (scan_take h hn hnu hlast hw.last hq hbig).post ?_
    rintro r t ⟨hsz, htook⟩
    exact ⟨hsz ▸ BitVec.le_refl _, Or.inr htook⟩
  · -- back at `freep`, with all nodes too short
    have hsmall := hnone _ h.freep
    refine Ends.get_bind (Ends.ite (fun hbig => absurd hsmall (BitVec.not_lt.mpr hbig)) fun _ => ?_)
    refine Ends.ite (fun _ => ?_) fun hne => absurd rfl hne
    refine Ends.bind (morecore_ends h hn hnu hlt (by omega)) ?_
    rintro r t (⟨rfl, hsz, hrep⟩ | ⟨hne, rfl, hsz, L', hrep, hused, y, d, hd, hfree, hle⟩)
    · exact Ends.ite (fun _ => Ends.pure ⟨hsz ▸ BitVec.le_refl _, Or.inl ⟨rfl, hsz, hrep⟩⟩) fun hne =>
        absurd rfl hne
    · refine Ends.ite (fun hzero => absurd hzero hne) fun _ => Ends.get_bind ?_
      refine (scan_found hrep hn hnu hd hfree hle (by omega)).post ?_
      rintro r u ⟨husz, L'', z, hrep', hr, hfresh, hnew, hmore⟩
      refine ⟨husz ▸ hsz, Or.inr ⟨L'', z, hrep', hr, ?_, hnew, ?_⟩⟩
      · intro c hc
        rw [← hused z c hc]
        exact hfresh c hc
      · intro x c hc
        rw [hmore x c hc, hused x c hc]

end Xv6.Umalloc
