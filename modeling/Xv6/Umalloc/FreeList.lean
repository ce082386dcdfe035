import Xv6.Machine.Blocks
import Xv6.Machine.Links
import Xv6.Umalloc.Allocator

/-!
# The free list

The memory that the process has got from `sbrk` is cut into blocks. Every block has its length in its header;
the free blocks are in a circle with `base`, in the order of their addresses. `free` finds the place of the
block in this order from wherever `freep` is, and joins it with its neighbours.
-/

namespace Xv6.Umalloc

open Machine Machine.Heap Function List
open BitVec (le_of_lt lt_irrefl lt_trans not_lt toNat_ofNat)

variable {s t : State} {base bp p q v : Word} {start n x y : Nat} {b c : Block} {L l r : List Block}
  {f g : Bool} {E : Stop → Prop} {fuel : Nat}

/-! ### Headers -/

@[simp] lemma ptr_setPtr : (s.setPtr p v).ptr = update s.ptr p v := by
  funext q
  simp only [State.ptr, State.setPtr, update_apply]
  split <;> rfl

@[simp] lemma size_setPtr : (s.setPtr p v).size = s.size := by
  funext q
  simp only [State.size, State.setPtr, update_apply]
  split
  · rename_i hq
    rw [hq]
  · rfl

@[simp] lemma ptr_setSize : (s.setSize p v).ptr = s.ptr := by
  funext q
  simp only [State.ptr, State.setSize, update_apply]
  split
  · rename_i hq
    rw [hq]
  · rfl

@[simp] lemma size_setSize : (s.setSize p v).size = update s.size p v := by
  funext q
  simp only [State.size, State.setSize, update_apply]
  split <;> rfl

/-- An address as a pointer. -/
def word (x : Nat) : Word := BitVec.ofNat 32 x

lemma toNat_word (h : x < 4294967296) : (word x).toNat = x := by
  rw [word, toNat_ofNat]
  exact Nat.mod_eq_of_lt h

lemma word_ne (hx : x < 4294967296) (hy : y < 4294967296) (h : x ≠ y) : word x ≠ word y := by
  intro heq
  have hxy := congrArg BitVec.toNat heq
  rw [toNat_word hx, toNat_word hy] at hxy
  exact h hxy

lemma word_toNat (v : Word) : word v.toNat = v := BitVec.ofNat_toNat _ _

lemma word_add (x y : Nat) : word (x + y) = word x + word y := BitVec.ofNat_add _ _

/-- The end of a block. -/
lemma toNat_advance (hx : x < 4294967296) (hv : x + 8 * v.toNat < 4294967296) :
    (advance (word x) v).toNat = x + 8 * v.toNat := by
  have hw := toNat_word hx
  rw [advance]
  bv_omega

/-! ### The representation -/

/-- The memory from `start` to the end of the process is cut into the blocks `L`. -/
structure Cut (base : Word) (start : Nat) (s : State) (L : List Block) : Prop where
  base_pos : base ≠ 0
  base_lt : base.toNat + 8 ≤ start
  sz_eq : s.sz.toNat = start + span L
  sz_le : s.sz.toNat ≤ 2147483648
  solid : Solid L
  units : ∀ x b, At start L x b → (s.size (word x)).toNat = b.units
  base_size : s.size base = 0

/-- No two free blocks are next to each other, and they are in a circle with `base`. -/
structure Rep (base : Word) (start : Nat) (s : State) (L : List Block) : Prop extends
    Cut base start s L where
  coalesced : Coalesced L
  ring : Walk s.ptr base ((frees start L).map word) base
  freep : s.freep ∈ base :: (frees start L).map word

lemma mem_map_frees : v ∈ (frees start L).map word ↔ ∃ x b, At start L x b ∧ b.free = true ∧ v = word x := by
  rw [mem_map]
  constructor
  · rintro ⟨x, hx, rfl⟩
    obtain ⟨b, hb, hfree⟩ := mem_frees.mp hx
    exact ⟨x, b, hb, hfree, rfl⟩
  · rintro ⟨x, b, hb, hfree, rfl⟩
    exact ⟨x, mem_frees.mpr ⟨b, hb, hfree⟩, rfl⟩

/-- A free block lies in the stretch. -/
lemma mem_bounds (hL : Solid L) (hend : start + span L ≤ 2147483648)
    (hv : v ∈ (frees start L).map word) : start ≤ v.toNat ∧ v.toNat < start + span L := by
  obtain ⟨x, b, hb, -, rfl⟩ := mem_map_frees.mp hv
  have hpos := hL b hb.mem
  have hbounds := hb.bounds
  rw [toNat_word (by omega)]
  omega

/-- The free blocks, after something below them, are in the order of the words. -/
lemma nodes_sorted (hlow : p.toNat < start) (hL : Solid L) (hend : start + span L ≤ 2147483648) :
    (p :: (frees start L).map word).Pairwise (· < ·) := by
  refine List.Pairwise.cons ?_ ?_
  · intro v hv
    exact Nat.lt_of_lt_of_le hlow (mem_bounds hL hend hv).1
  · rw [pairwise_map]
    refine (frees_sorted hL).imp_of_mem ?_
    intro x y hx hy hlt
    have hx' := (mem_bounds hL hend (mem_map_of_mem hx)).2
    obtain ⟨b, hb, -⟩ := mem_frees.mp hx
    obtain ⟨c, hc, -⟩ := mem_frees.mp hy
    have hb' := hb.bounds
    have hc' := hc.bounds
    show (word x).toNat < (word y).toNat
    rw [toNat_word (by omega), toNat_word (by omega)]
    exact hlt

lemma nodup_of_sorted {l : List Word} (h : l.Pairwise (· < ·)) : l.Nodup :=
  h.imp fun hlt heq => absurd (heq ▸ hlt) (BitVec.lt_irrefl _)

/-- A walk through two lists. -/
lemma walk_parts {f : Word → Word} {xs ys : List Word} (h : Walk f p (xs ++ ys) q) :
    Walk f p xs (ys.head?.getD q) ∧ ∀ v, f v = ys.head?.getD q → Walk f v ys q := by
  cases ys with
  | nil =>
    rw [append_nil] at h
    exact ⟨h, fun v hv => hv⟩
  | cons =>
    obtain ⟨hx, hy⟩ := walk_append.mp h
    exact ⟨hx, fun v hv => ⟨hv, hy⟩⟩

/-- The last node before the block that follows `l`. -/
def pred (base : Word) (start : Nat) (l : List Block) : Word := ((frees start l).map word).getLastD base

lemma pred_mem : pred base start l ∈ base :: (frees start l).map word := getLastD_mem _ _

lemma Cut.end_le (h : Cut base start s L) : start + span L ≤ 2147483648 := by
  rw [← h.sz_eq]
  exact h.sz_le

section Parts

variable (h : Cut base start s (l ++ b :: r))

include h

/-- What there is below and above a block. -/
lemma Cut.parts : Solid l ∧ 0 < b.units ∧ Solid r ∧ base.toNat < start ∧
    start + span l + 8 * b.units + span r ≤ 2147483648 := by
  obtain ⟨hl, hr⟩ := solid_append.mp h.solid
  obtain ⟨hb, hr⟩ := solid_cons.mp hr
  have hbase := h.base_lt
  have hend := h.end_le
  rw [span_append, span_cons] at hend
  exact ⟨hl, hb, hr, by omega, by omega⟩

lemma Cut.toNat_block : (word (start + span l)).toNat = start + span l := by
  obtain ⟨-, -, -, -, hend⟩ := h.parts
  exact toNat_word (by omega)

lemma Cut.toNat_size : (s.size (word (start + span l))).toNat = b.units := h.units _ _ at_mid

/-- The end of the block. -/
lemma Cut.toNat_next : (advance (word (start + span l)) (s.size (word (start + span l)))).toNat =
    start + span l + 8 * b.units := by
  obtain ⟨-, -, -, -, hend⟩ := h.parts
  have hsize := h.toNat_size
  rw [toNat_advance (by omega) (by omega), hsize]

lemma Cut.below (hv : v ∈ base :: (frees start l).map word) : v < word (start + span l) := by
  obtain ⟨hl, -, -, hbase, hend⟩ := h.parts
  show v.toNat < _
  rw [h.toNat_block]
  rcases mem_cons.mp hv with rfl | hv
  · omega
  · exact (mem_bounds hl (by omega) hv).2

lemma Cut.above (hv : v ∈ (frees (start + span l + 8 * b.units) r).map word) :
    word (start + span l) < v := by
  obtain ⟨-, hb, hr, -, hend⟩ := h.parts
  have hge := (mem_bounds hr hend hv).1
  show _ < v.toNat
  rw [h.toNat_block]
  omega

lemma Cut.notMem_below : word (start + span l) ∉ base :: (frees start l).map word :=
  fun hmem => lt_irrefl _ (h.below hmem)

lemma Cut.ne_of_above (hv : v ∈ (frees (start + span l + 8 * b.units) r).map word) :
    v ≠ word (start + span l) := by
  rintro rfl
  exact lt_irrefl _ (h.above hv)

lemma Cut.sorted_below : (base :: (frees start l).map word).Pairwise (· < ·) := by
  obtain ⟨hl, -, -, hbase, hend⟩ := h.parts
  exact nodes_sorted hbase hl (by omega)

lemma Cut.sorted_above :
    (word (start + span l) :: (frees (start + span l + 8 * b.units) r).map word).Pairwise (· < ·) := by
  obtain ⟨-, hb, hr, -, hend⟩ := h.parts
  refine nodes_sorted ?_ hr hend
  rw [h.toNat_block]
  omega

/-- The length of another block than this one. -/
lemma Cut.update_size (hx : At start (l ++ b :: r) x c) (hne : x ≠ start + span l) (w : Word) :
    (Function.update s.size (word (start + span l)) w (word x)).toNat = c.units := by
  obtain ⟨-, -, -, -, hend⟩ := h.parts
  have hbounds := hx.bounds
  have hall := h.end_le
  rw [Function.update_of_ne (word_ne (by omega) (by omega) hne), h.units x c hx]

lemma Cut.update_base (w : Word) : Function.update s.size (word (start + span l)) w base = 0 := by
  rw [Function.update_of_ne, h.base_size]
  rintro heq
  exact lt_irrefl _ (heq ▸ h.below mem_cons_self)

end Parts

/-- The lengths are all that counts. -/
lemma Cut.congr (h : Cut base start s L) (hsize : t.size = s.size) (hsz : t.sz = s.sz) :
    Cut base start t L where
  base_pos := h.base_pos
  base_lt := h.base_lt
  sz_eq := by rw [hsz, h.sz_eq]
  sz_le := by rw [hsz]; exact h.sz_le
  solid := h.solid
  units := by rw [hsize]; exact h.units
  base_size := by rw [hsize, h.base_size]

/-- Whether a block is free does not count either. -/
lemma Cut.flag (h : Cut base start s (l ++ b :: r)) : Cut base start s (l ++ ⟨b.units, f⟩ :: r) := by
  obtain ⟨hl, hb, hr, -, -⟩ := h.parts
  refine ⟨h.base_pos, h.base_lt, ?_, h.sz_le, ?_, ?_, h.base_size⟩
  · rw [h.sz_eq, span_append, span_append, span_cons, span_cons]
  · exact solid_append.mpr ⟨hl, solid_cons.mpr ⟨hb, hr⟩⟩
  · intro x d hd
    rcases at_append.mp hd with hd | ⟨rfl, rfl⟩ | hd
    · exact h.units x d (at_append.mpr (Or.inl hd))
    · exact h.toNat_size
    · exact h.units x d (at_append.mpr (Or.inr (Or.inr hd)))

/-- Two blocks become one, whose length is stored in the first one. -/
lemma Cut.join (h : Cut base start s (l ++ b :: c :: r)) {w : Word} (hw : w.toNat = b.units + c.units)
    (hsize : t.size = update s.size (word (start + span l)) w) (hsz : t.sz = s.sz) :
    Cut base start t (l ++ ⟨b.units + c.units, f⟩ :: r) := by
  obtain ⟨hl, hb, hcr, -, -⟩ := h.parts
  obtain ⟨hc, hr⟩ := solid_cons.mp hcr
  refine ⟨h.base_pos, h.base_lt, ?_, hsz ▸ h.sz_le, ?_, ?_, hsize ▸ h.update_base w⟩
  · rw [hsz, h.sz_eq]
    simp only [span_append, span_cons]
    omega
  · exact solid_append.mpr ⟨hl, solid_cons.mpr ⟨Nat.add_pos_left hb _, hr⟩⟩
  · intro x d hd
    rw [hsize]
    rcases at_append.mp hd with hd | ⟨rfl, rfl⟩ | hd
    · have hpos := hl d hd.mem
      have hbounds := hd.bounds
      exact h.update_size (at_append.mpr (Or.inl hd)) (by omega) w
    · rw [update_self, hw]
    · have hbounds := hd.bounds
      rw [Nat.mul_add, ← Nat.add_assoc] at hd
      exact h.update_size (at_append.mpr (Or.inr (Or.inr (Or.inr hd)))) (by simp at hbounds; omega) w

/-! ### The search -/

/-- The loop of `free` ends at `p`. -/
def Stops (s : State) (bp p : Word) : Prop :=
  (p < bp ∧ bp < s.ptr p) ∨ (s.ptr p ≤ p ∧ (p < bp ∨ bp < s.ptr p))

lemma search_of_stops (h : Stops s bp p) : search s bp (fuel + 1) p = some p := by
  rw [search]
  rcases h with h | h
  · rw [if_pos h]
  · rw [if_pos h, ite_self]

lemma search_of_not (h : ¬ Stops s bp p) : search s bp (fuel + 1) p = search s bp fuel (s.ptr p) := by
  rw [search, if_neg fun h' => h (Or.inl h'), if_neg fun h' => h (Or.inr h')]

/-- The search walks to the first place where it stops. -/
lemma search_walk {l : List Word} (hw : Walk s.ptr p l q) (hnot : ∀ v ∈ p :: l, ¬ Stops s bp v)
    (hq : Stops s bp q) (hfuel : l.length + 1 < fuel) : search s bp fuel p = some q := by
  obtain ⟨fuel, rfl⟩ := Nat.exists_eq_succ_of_ne_zero (Nat.ne_zero_of_lt hfuel)
  rw [search_of_not (hnot p mem_cons_self)]
  induction l generalizing p fuel with
  | nil =>
    obtain ⟨fuel, rfl⟩ : ∃ m, fuel = m + 1 := ⟨fuel - 1, by simp at hfuel; omega⟩
    rw [show s.ptr p = q from hw, search_of_stops hq]
  | cons y l ih =>
    obtain ⟨fuel, rfl⟩ : ∃ m, fuel = m + 1 := ⟨fuel - 1, by simp at hfuel; omega⟩
    rw [hw.1, search_of_not (hnot y (mem_cons_of_mem p mem_cons_self))]
    refine ih hw.2 (fun v hv => hnot v (mem_cons_of_mem p hv)) fuel ?_
    simp only [length_cons] at hfuel ⊢
    omega

section Used

variable (h : Rep base start s (l ++ b :: r)) (hb : b.free = false)

include h hb

lemma Rep.walks : Walk s.ptr base ((frees start l).map word)
      (((frees (start + span l + 8 * b.units) r).map word).head?.getD base) ∧
    Walk s.ptr (pred base start l) ((frees (start + span l + 8 * b.units) r).map word) base := by
  have hring := h.ring
  rw [frees_append, frees_cons_used hb, map_append] at hring
  obtain ⟨hl, hr⟩ := walk_parts hring
  exact ⟨hl, hr _ hl.last⟩

/-- The search stops at the last node before the block. -/
lemma Rep.stops_pred : Stops s (word (start + span l)) (pred base start l) := by
  have hbelow := h.below pred_mem
  have hnext : s.ptr (pred base start l) = _ := (h.walks hb).1.last
  cases hfrees : (frees (start + span l + 8 * b.units) r).map word with
  | nil =>
    -- the block is behind all free ones, and the next node is `base`
    rw [hfrees] at hnext
    refine Or.inr ⟨?_, Or.inl hbelow⟩
    have hpred : pred base start l ∈ base :: (frees start l).map word := pred_mem
    rw [hnext]
    rcases mem_cons.mp hpred with heq | hmem
    · exact BitVec.le_of_eq heq.symm
    · exact le_of_lt (rel_of_pairwise_cons h.sorted_below hmem)
  | cons v =>
    have hv : v ∈ (frees (start + span l + 8 * b.units) r).map word := by
      rw [hfrees]
      exact mem_cons_self
    rw [hfrees] at hnext
    exact Or.inl ⟨hbelow, hnext ▸ h.above hv⟩

/-- It stops at no other node. -/
lemma Rep.not_stops (hv : v ∈ base :: (frees start (l ++ b :: r)).map word)
    (hne : v ≠ pred base start l) : ¬ Stops s (word (start + span l)) v := by
  obtain ⟨hwl, hwr⟩ := h.walks hb
  rw [frees_append, frees_cons_used hb, map_append, ← cons_append, mem_append] at hv
  rcases hv with hv | hv
  · -- before the block, the next node is before it as well
    obtain ⟨hmem, hlt⟩ := hwl.step h.sorted_below hv hne
    have hnext := h.below (mem_cons_of_mem base hmem)
    rintro (⟨-, hgt⟩ | ⟨hle, -⟩)
    · exact lt_irrefl _ (lt_trans hgt hnext)
    · exact absurd hlt (not_lt.mpr hle)
  · -- behind the block, the next node is behind it as well or `base`
    have hgt := h.above hv
    have hnot : ¬ v < word (start + span l) := not_lt.mpr (le_of_lt hgt)
    have hsorted := h.sorted_above.of_cons
    cases hfrees : (frees (start + span l + 8 * b.units) r).map word with
    | nil =>
      rw [hfrees] at hv
      cases hv
    | cons y ys =>
      rw [hfrees] at hwr hsorted hv
      by_cases hlast : v = ys.getLastD y
      · have hnext : s.ptr v = base := by
          rw [hlast]
          exact hwr.2.last
        have hbase := h.below mem_cons_self
        rintro (⟨hlt, -⟩ | ⟨-, hlt | hlt⟩)
        · exact hnot hlt
        · exact hnot hlt
        · rw [hnext] at hlt
          exact lt_irrefl _ (lt_trans hlt hbase)
      · obtain ⟨-, hup⟩ := hwr.2.step hsorted hv hlast
        rintro (⟨hlt, -⟩ | ⟨hle, -⟩)
        · exact hnot hlt
        · exact absurd hup (not_lt.mpr hle)

/-- From every node, the search finds the last node before the block. -/
lemma Rep.search_eq (hfuel : (frees start (l ++ b :: r)).length + 1 < fuel) :
    search s (word (start + span l)) fuel s.freep = some (pred base start l) := by
  by_cases hpp : s.freep = pred base start l
  · obtain ⟨fuel, rfl⟩ := Nat.exists_eq_succ_of_ne_zero (Nat.ne_zero_of_lt hfuel)
    rw [hpp]
    exact search_of_stops (h.stops_pred hb)
  · have hnd := nodup_of_sorted (nodes_sorted h.parts.2.2.2.1 h.solid h.end_le)
    have hpred : pred base start l ∈ base :: (frees start (l ++ b :: r)).map word := by
      rw [frees_append, map_append, ← cons_append]
      exact mem_append_left _ pred_mem
    obtain ⟨w, hw, hnot, hsub, hlen⟩ := h.ring.reach hnd h.freep hpred hpp
    refine search_walk hw ?_ (h.stops_pred hb) ?_
    · intro v hv
      refine h.not_stops hb (hsub v hv) ?_
      rintro rfl
      exact hnot hv
    · rw [length_map] at hlen
      omega

end Used

/-! ### Joining -/

/-- In the middle of `free`: the block behind `l` has got its length and its next node, but is not yet behind
the last node before it. -/
structure Mid (base : Word) (start : Nat) (s : State) (l : List Block) (b : Block) (r : List Block) : Prop
    extends Cut base start s (l ++ b :: r) where
  coalesced_l : Coalesced l
  coalesced_r : Coalesced r
  first : FirstUsed r
  walk_l : ∃ y, Walk s.ptr base ((frees start l).map word) y
  walk_r : Walk s.ptr (word (start + span l)) ((frees (start + span l + 8 * b.units) r).map word) base

lemma joinNext_of_eq (h : advance bp (s.size bp) = s.ptr p) : joinNext s bp p =
    (s.setSize bp (s.size bp + s.size (s.ptr p))).setPtr bp (s.ptr (s.ptr p)) := by
  simp only [joinNext, if_pos h, ptr_setSize]

lemma joinNext_of_ne (h : advance bp (s.size bp) ≠ s.ptr p) : joinNext s bp p = s.setPtr bp (s.ptr p) := by
  rw [joinNext, if_neg h]

lemma joinPrev_of_eq (h : advance p (s.size p) = bp) : joinPrev s bp p =
    (s.setSize p (s.size p + s.size bp)).setPtr p (s.ptr bp) := by
  simp only [joinPrev, if_pos h, ptr_setSize]

lemma joinPrev_of_ne (h : advance p (s.size p) ≠ bp) : joinPrev s bp p = s.setPtr p bp := by
  rw [joinPrev, if_neg h]

lemma Rep.joinNext (h : Rep base start s (l ++ b :: r)) (hb : b.free = false) :
    ∃ c r', b.units ≤ c.units ∧
      Mid base start (joinNext s (word (start + span l)) (pred base start l)) l c r' ∧
      ∀ y d, d.free = false →
        (At (start + span l + 8 * c.units) r' y d ↔ At (start + span l + 8 * b.units) r y d) := by
  obtain ⟨hl, hbpos, hr, hbase, hend⟩ := h.parts
  obtain ⟨hcl, hcr⟩ := (coalesced_used hb).mp h.coalesced
  obtain ⟨hwl, hwr⟩ := h.walks hb
  have hnext : s.ptr (pred base start l) = _ := hwl.last
  have hto := h.toNat_next
  rcases firstUsed_or r with hfirst | ⟨c, r, rfl, hc⟩
  · -- the next node is further away than the end of the block
    have hne : advance (word (start + span l)) (s.size (word (start + span l))) ≠ s.ptr (pred base start l) := by
      intro heq
      rw [heq, hnext] at hto
      cases hfrees : (frees (start + span l + 8 * b.units) r).map word with
      | nil =>
        rw [hfrees, List.head?_nil, Option.getD_none] at hto
        omega
      | cons v =>
        have hv : v ∈ (frees (start + span l + 8 * b.units) r).map word := by
          rw [hfrees]
          exact mem_cons_self
        obtain ⟨x, c, hx, hfree, rfl⟩ := mem_map_frees.mp hv
        have hlt := hfirst.lt hr hx hfree
        have hbounds := hx.bounds
        rw [hfrees, List.head?_cons, Option.getD_some, toNat_word (by omega)] at hto
        omega
    rw [joinNext_of_ne hne]
    refine ⟨b, r, Nat.le_refl _, ⟨h.toCut.congr size_setPtr rfl, hcl, hcr, hfirst, ?_, ?_⟩,
      fun y c _ => Iff.rfl⟩
    · rw [ptr_setPtr]
      exact ⟨_, hwl.update h.notMem_below _⟩
    · rw [ptr_setPtr]
      exact hwr.from (update_self _ _ _) fun v hv => update_of_ne (h.ne_of_above hv) _ _
  · -- the next block is free: it is the next node
    have habove : ∀ v ∈ (frees (start + span l + 8 * b.units) (c :: r)).map word, v ≠ word (start + span l) :=
      fun v hv => h.ne_of_above hv
    rw [frees_cons_free hc, map_cons] at hnext hwr habove
    rw [List.head?_cons, Option.getD_some] at hnext
    rw [span_cons] at hend
    obtain ⟨-, hcr, hfirst⟩ := (coalesced_free (L := []) hc).mp hcr
    have heq : advance (word (start + span l)) (s.size (word (start + span l))) =
        s.ptr (pred base start l) := by
      rw [hnext]
      exact BitVec.eq_of_toNat_eq (hto.trans (toNat_word (by omega)).symm)
    have hmul : start + span l + 8 * (b.units + c.units) = start + span l + 8 * b.units + 8 * c.units := by
      omega
    have hsum : (s.size (word (start + span l)) +
        s.size (word (start + span l + 8 * b.units))).toNat = b.units + c.units := by
      have hsize := h.toNat_size
      have hsizec := h.units _ _ (at_append.mpr (Or.inr (Or.inr (Or.inl ⟨rfl, rfl⟩))))
      bv_omega
    rw [joinNext_of_eq heq, hnext]
    refine ⟨⟨b.units + c.units, false⟩, r, Nat.le_add_right _ _, ⟨h.toCut.join hsum ?_ rfl, hcl, hcr, hfirst,
      ?_, ?_⟩, ?_⟩
    · rw [size_setPtr, size_setSize]
    · rw [ptr_setPtr, ptr_setSize]
      exact ⟨_, hwl.update h.notMem_below _⟩
    · rw [ptr_setPtr, ptr_setSize, hmul]
      exact hwr.2.from (update_self _ _ _) fun v hv =>
        update_of_ne (habove v (mem_cons_of_mem _ hv)) _ _
    · intro y d hd
      rw [hmul, at_cons]
      refine ⟨Or.inr, fun hor => hor.resolve_left ?_⟩
      rintro ⟨-, rfl⟩
      rw [hc] at hd
      cases hd

/-- The block is joined with the one before it if this is free. -/
lemma Mid.joinPrev (h : Mid base start s l b r) :
    ∃ L, Rep base start
        { joinPrev s (word (start + span l)) (pred base start l) with freep := pred base start l } L ∧
      (∀ y d, d.free = false →
        (At start L y d ↔ At start l y d ∨ At (start + span l + 8 * b.units) r y d)) ∧
      ∃ y d, At start L y d ∧ d.free = true ∧ b.units ≤ d.units := by
  obtain ⟨hl, hbpos, hr, hbase, hend⟩ := h.parts
  obtain ⟨next, hwl⟩ := h.walk_l
  have hpred : pred base start l ∈ base :: (frees start l).map word := pred_mem
  have hlow := h.below hpred
  have hnotr : pred base start l ∉
      word (start + span l) :: (frees (start + span l + 8 * b.units) r).map word := by
    intro hmem
    rcases mem_cons.mp hmem with heq | hmem
    · exact lt_irrefl _ (heq ▸ hlow)
    · exact lt_irrefl _ (lt_trans (h.above hmem) hlow)
  rcases lastUsed_or l with hlast | ⟨l, c, rfl, hc⟩
  · -- the last node before the block ends before the block starts
    have hne : advance (pred base start l) (s.size (pred base start l)) ≠ word (start + span l) := by
      intro heq
      have hto := congrArg BitVec.toNat heq
      rw [h.toNat_block] at hto
      rcases mem_cons.mp hpred with hp | hmem
      · rw [hp, h.base_size, ← word_toNat base, toNat_advance (by omega) (by simp; omega)] at hto
        simp only [BitVec.ofNat_eq_ofNat, toNat_ofNat, Nat.zero_mod] at hto
        omega
      · obtain ⟨x, c, hx, hfree, hp⟩ := mem_map_frees.mp hmem
        have hlt := hlast.lt hl hx hfree
        have hsize := h.units x c (at_append.mpr (Or.inl hx))
        rw [hp, toNat_advance (by omega) (by omega), hsize] at hto
        omega
    rw [joinPrev_of_ne hne]
    refine ⟨l ++ ⟨b.units, true⟩ :: r, ⟨h.toCut.flag.congr size_setPtr rfl, ?_, ?_, ?_⟩, ?_, _, _, at_mid, rfl,
      Nat.le_refl _⟩
    · exact (coalesced_free rfl).mpr ⟨⟨h.coalesced_l, hlast⟩, h.coalesced_r, h.first⟩
    · show Walk (s.setPtr _ _).ptr _ _ _
      rw [ptr_setPtr, frees_append, frees_cons_free rfl, map_append, map_cons]
      exact walk_append.mpr ⟨hwl.redirect (nodup_of_sorted h.sorted_below) _, h.walk_r.update hnotr _⟩
    · rw [frees_append, map_append, ← cons_append]
      exact mem_append_left _ hpred
    · intro y d hd
      rw [at_append, at_cons]
      refine or_congr_right ⟨fun hor => hor.resolve_left ?_, Or.inr⟩
      rintro ⟨-, rfl⟩
      cases hd
  · -- the block before is free: it is the last node before
    have hfrees : (frees start (l ++ [c])).map word = (frees start l).map word ++ [word (start + span l)] := by
      rw [frees_append, frees_cons_free hc, frees_nil, map_append]
      rfl
    have hp : pred base start (l ++ [c]) = word (start + span l) := by
      rw [pred, hfrees, getLastD_concat]
    have hspan : start + span (l ++ [c]) = start + span l + 8 * c.units := by
      rw [span_append, span_cons, span_nil, Nat.add_zero, Nat.add_assoc]
    have hcut : Cut base start s (l ++ c :: b :: r) := by
      have := h.toCut
      rwa [append_assoc] at this
    have hbp := h.toNat_block
    have hsizeb := h.toNat_size
    have hwr := h.walk_r
    rw [hp, hspan] at hnotr ⊢
    rw [hspan] at hbp hsizeb hwr
    rw [hfrees] at hwl
    have hmul : start + span l + 8 * (c.units + b.units) = start + span l + 8 * c.units + 8 * b.units := by
      omega
    have heq : advance (word (start + span l)) (s.size (word (start + span l))) =
        word (start + span l + 8 * c.units) :=
      BitVec.eq_of_toNat_eq (hcut.toNat_next.trans hbp.symm)
    have hsum : (s.size (word (start + span l)) +
        s.size (word (start + span l + 8 * c.units))).toNat = c.units + b.units := by
      have hsizec := hcut.toNat_size
      rw [span_append, span_cons] at hend
      bv_omega
    rw [joinPrev_of_eq heq]
    refine ⟨l ++ ⟨c.units + b.units, true⟩ :: r, ⟨hcut.join hsum ?_ rfl, ?_, ?_, ?_⟩, ?_, _, _, at_mid, rfl,
      Nat.le_add_left _ _⟩
    · exact size_setPtr.trans size_setSize
    · obtain ⟨hcl, -⟩ := (coalesced_free hc).mp h.coalesced_l
      exact (coalesced_free rfl).mpr ⟨hcl, h.coalesced_r, h.first⟩
    · show Walk ((s.setSize _ _).setPtr _ _).ptr _ _ _
      rw [ptr_setPtr, ptr_setSize, frees_append, frees_cons_free rfl, map_append, map_cons, hmul]
      refine walk_append.mpr ⟨(walk_append.mp hwl).1.update hcut.notMem_below _,
        hwr.from (update_self _ _ _) ?_⟩
      intro v hv
      refine update_of_ne ?_ _ _
      rintro rfl
      exact hnotr (mem_cons_of_mem _ hv)
    · rw [frees_append, frees_cons_free rfl, map_append, map_cons, ← cons_append]
      exact mem_append_right _ mem_cons_self
    · intro y d hd
      rw [at_append, at_cons, at_append, at_cons, hmul]
      constructor
      · rintro (hl | ⟨-, rfl⟩ | hr)
        · exact Or.inl (Or.inl hl)
        · cases hd
        · exact Or.inr hr
      · rintro ((hl | ⟨-, rfl⟩ | hnil) | hr)
        · exact Or.inl hl
        · rw [hc] at hd
          cases hd
        · exact hnil.elim
        · exact Or.inr (Or.inr hr)

lemma sz_joinNext (s : State) (bp p : Word) : (joinNext s bp p).sz = s.sz := by
  rw [joinNext]
  split <;> rfl

lemma sz_joinPrev (s : State) (bp p : Word) : (joinPrev s bp p).sz = s.sz := by
  rw [joinPrev]
  split <;> rfl

/-- `free` of a block in use. The other blocks in use stay as they are, and there is a free block at least as
long. -/
lemma free_ends (h : Rep base start s L) (hx : At start L x b) (hb : b.free = false)
    (hfuel : (frees start L).length + 1 < fuel) :
    Ends (free fuel (word (x + 8))) s E fun _ t => t.sz = s.sz ∧ ∃ L', Rep base start t L' ∧
      (∀ y d, d.free = false → (At start L' y d ↔ At start L y d ∧ y ≠ x)) ∧
      ∃ y d, At start L' y d ∧ d.free = true ∧ b.units ≤ d.units := by
  obtain ⟨l, r, rfl, rfl⟩ := hx.split
  have hbp : word (start + span l + 8) - 8 = word (start + span l) := by
    rw [word_add]
    exact BitVec.add_sub_cancel _ _
  obtain ⟨c, r', hn, hmid, hr⟩ := h.joinNext hb
  obtain ⟨L', hrep, hused, y, d, hd, hfree, hle⟩ := hmid.joinPrev
  refine Ends.get_bind ?_
  rw [hbp, h.search_eq hb hfuel]
  refine Ends.modify ⟨?_, L', hrep, ?_, y, d, hd, hfree, Nat.le_trans hn hle⟩
  · exact (sz_joinPrev _ _ _).trans (sz_joinNext _ _ _)
  · obtain ⟨hl, hbpos, -, -, -⟩ := h.parts
    intro y d hd
    rw [hused y d hd, hr y d hd, at_append, at_cons]
    constructor
    · rintro (hy | hy)
      · have hpos := hl d hy.mem
        have hbounds := hy.bounds
        exact ⟨Or.inl hy, by omega⟩
      · have hbounds := hy.bounds
        exact ⟨Or.inr (Or.inr hy), by omega⟩
    · rintro ⟨hy | ⟨rfl, -⟩ | hy, hne⟩
      · exact Or.inl hy
      · exact absurd rfl hne
      · exact Or.inr hy

end Xv6.Umalloc
