import Xv6.Machine.Run
import Xv6.Umalloc.Scan

/-!
# Programs that use the allocator

A program calls `malloc`, frees what it has got, and writes to it. As long as no size it asks for is more than
0x7ffffff0 the free list stays sound: together with the blocks in use, the free blocks cover the memory from
`sbrk` without overlap, and both loops end. With a larger size the number of units, or the number of bytes
that `sbrk` gets as an `int`, wraps.
-/

namespace Xv6.Umalloc

open Machine Machine.Heap List

variable {s t : State} {base p q v ap nbytes : Word} {start n x y : Nat} {L L' : List Block} {fuel : Nat}

/-- The allocator, and what the program has got from it: addresses and the sizes asked for. -/
structure World where
  heap : State
  live : List (Word × Word)

variable {w w' : World} {E : Stop → Prop}

inductive Call
  | malloc (nbytes : Word)
  | free (ap : Word)
  /-- the program writes to the memory it has got -/
  | write (mem : Word → Header)

/-- A header at `a` would overlap the memory of the program. -/
def World.Data (w : World) (a : Word) : Prop :=
  ∃ x ∈ w.live, x.1.toNat < a.toNat + 8 ∧ a.toNat < x.1.toNat + x.2.toNat

instance (w : World) (a : Word) : Decidable (w.Data a) := List.decidableBEx _ w.live

/-- A bound on the rounds of the loops that is never reached. -/
def rounds : Nat := 1073741824

def step (base : Word) (w : World) : Call → Option World
  | .malloc nbytes =>
    match malloc base rounds nbytes w.heap with
    | .ok (p, s) => some ⟨s, if p = 0 then w.live else (p, nbytes) :: w.live⟩
    | .error _ => none
  | .free ap =>
    match free rounds ap w.heap with
    | .ok (_, s) => some ⟨s, w.live.filter fun x => x.1 ≠ ap⟩
    | .error _ => none
  | .write mem =>
    some { w with heap := { w.heap with mem := fun a => if w.Data a then mem a else w.heap.mem a } }

/-- Sizes do not overflow, and only what is in use is freed. -/
def Call.Ok (w : World) : Call → Prop
  | .malloc nbytes => nbytes.toNat ≤ 0x7ffffff0
  | .free ap => ∃ n, (ap, n) ∈ w.live
  | .write _ => True

/-- The allocator before the first call, in a process of size `start`. -/
structure Fresh (base : Word) (start : Nat) (s : State) : Prop where
  base_pos : base ≠ 0
  base_lt : base.toNat + 8 ≤ start
  sz_eq : s.sz.toNat = start
  le : start ≤ 2147483648
  freep : s.freep = 0

/-! ### `malloc` -/

lemma toNat_nunits (h : nbytes.toNat ≤ 0x7ffffff0) : (nunits nbytes).toNat = (nbytes.toNat + 7) / 8 + 1 := by
  have hadd : (nbytes + 8 - 1).toNat = nbytes.toNat + 7 := by bv_omega
  have hdiv : ((nbytes + 8 - 1) / 8).toNat = (nbytes.toNat + 7) / 8 := by
    rw [BitVec.toNat_udiv, hadd]
    rfl
  have hone : (1 : Word).toNat = 1 := rfl
  rw [nunits, BitVec.toNat_add, hdiv, hone]
  exact Nat.mod_eq_of_lt (by omega)

/-- `base` is made a circle of its own. -/
lemma Fresh.rep (h : Fresh base start s) :
    Rep base start { (s.setPtr base base).setSize base 0 with freep := base } [] := by
  refine ⟨⟨h.base_pos, h.base_lt, h.sz_eq, h.sz_eq ▸ h.le, (fun b hb => by cases hb), (fun x b hb => hb.elim),
    ?_⟩, List.IsChain.nil, ?_, mem_cons_self⟩
  · show ((s.setPtr base base).setSize base 0).size base = 0
    rw [size_setSize, Function.update_self]
  · show ((s.setPtr base base).setSize base 0).ptr base = base
    rw [ptr_setSize, ptr_setPtr, Function.update_self]

lemma malloc_ends (h : Fresh base start s ∧ L = [] ∨ Rep base start s L) (hb : nbytes.toNat ≤ 0x7ffffff0)
    (hfuel : rounds ≤ fuel) : Ends (malloc base fuel nbytes) s E fun r t => s.sz ≤ t.sz ∧
      ((r = 0 ∧ t.sz = s.sz ∧ Rep base start t L) ∨
        Took base start L ((nbytes.toNat + 7) / 8 + 1) r t) := by
  have hlt : 8 * ((nbytes.toNat + 7) / 8 + 1) < 2147483648 := by omega
  refine Ends.get_bind ?_
  rcases h with ⟨hfresh, rfl⟩ | hrep
  · rw [if_pos hfresh.freep]
    refine Ends.bind (Q := fun _ t => t = { (s.setPtr base base).setSize base 0 with freep := base })
      (Ends.modify rfl) ?_
    rintro _ t rfl
    exact Ends.get_bind (scan_ends hfresh.rep (Nat.succ_pos _) (toNat_nunits hb) hlt hfuel)
  · rw [if_neg hrep.freep_ne]
    exact Ends.get_bind (scan_ends hrep (Nat.succ_pos _) (toNat_nunits hb) hlt hfuel)

/-! ### The blocks in use -/

/-- The blocks in use are what the program has got, one block for each address. -/
structure Lives (start : Nat) (live : List (Word × Word)) (L : List Block) : Prop where
  nodup : (live.map Prod.fst).Nodup
  block : ∀ p n, (p, n) ∈ live → ∃ x u, At start L x ⟨u, false⟩ ∧ p = word (x + 8) ∧ n.toNat + 8 ≤ 8 * u
  live : ∀ x u, At start L x ⟨u, false⟩ → ∃ n, (word (x + 8), n) ∈ live

/-- Different blocks have different addresses. -/
lemma Rep.addr_inj {b c : Block} (h : Rep base start s L) (hx : At start L x b) (hy : At start L y c)
    (heq : word (x + 8) = word (y + 8)) : x = y := by
  have hb := hx.bounds
  have hc := hy.bounds
  have hend := h.end_le
  have hto := congrArg BitVec.toNat heq
  rw [toNat_word (by omega), toNat_word (by omega)] at hto
  omega

lemma Lives.malloc (h : Lives start w.live L) (hmore : OneMore start L n y L') (hrep : Rep base start t L')
    (hn : nbytes.toNat + 8 ≤ 8 * n) : Lives start ((word (y + 8), nbytes) :: w.live) L' := by
  refine ⟨nodup_cons.mpr ⟨?_, h.nodup⟩, ?_, ?_⟩
  · rintro hmem
    obtain ⟨⟨p, k⟩, hp, hpy⟩ := mem_map.mp hmem
    obtain ⟨x, u, hx, rfl, -⟩ := h.block p k hp
    have hx' := (hmore.used x _ rfl).mpr (Or.inl hx)
    obtain rfl := hrep.addr_inj hx' hmore.new hpy
    exact hmore.fresh _ rfl hx
  · intro p k hp
    rcases mem_cons.mp hp with heq | hp
    · cases heq
      exact ⟨y, n, hmore.new, rfl, hn⟩
    · obtain ⟨x, u, hx, rfl, hle⟩ := h.block p k hp
      exact ⟨x, u, (hmore.used x _ rfl).mpr (Or.inl hx), rfl, hle⟩
  · intro x u hx
    rcases (hmore.used x _ rfl).mp hx with hx | ⟨rfl, -⟩
    · obtain ⟨k, hk⟩ := h.live x u hx
      exact ⟨k, mem_cons_of_mem _ hk⟩
    · exact ⟨nbytes, mem_cons_self⟩

lemma Lives.free {b : Block} (h : Lives start w.live L) (hrep : Rep base start s L) (hx : At start L x b)
    (hused : ∀ y d, d.free = false → (At start L' y d ↔ At start L y d ∧ y ≠ x)) :
    Lives start (w.live.filter fun z => z.1 ≠ word (x + 8)) L' := by
  refine ⟨h.nodup.sublist (filter_sublist.map _), ?_, ?_⟩
  · intro p k hp
    obtain ⟨hp, hne⟩ := mem_filter.mp hp
    obtain ⟨y, u, hy, rfl, hle⟩ := h.block p k hp
    refine ⟨y, u, (hused y _ rfl).mpr ⟨hy, ?_⟩, rfl, hle⟩
    rintro rfl
    simp at hne
  · intro y u hy
    obtain ⟨hy, hne⟩ := (hused y _ rfl).mp hy
    obtain ⟨k, hk⟩ := h.live y u hy
    refine ⟨k, mem_filter.mpr ⟨hk, ?_⟩⟩
    simpa using fun heq => hne (hrep.addr_inj hy hx heq)

/-- Headers are not in the memory of the program. -/
lemma Lives.header (h : Lives start w.live L) (hrep : Rep base start s L)
    (hv : v = base ∨ ∃ x b, At start L x b ∧ v = word x) : ¬ w.Data v := by
  rintro ⟨⟨p, k⟩, hp, hlo, hhi⟩
  obtain ⟨y, u, hy, rfl, hle⟩ := h.block p k hp
  have hybounds := hy.bounds
  have hend := hrep.end_le
  have hbase := hrep.base_lt
  simp only [toNat_word (show y + 8 < 4294967296 by simp at hybounds; omega)] at hlo hhi
  rcases hv with rfl | ⟨x, b, hx, rfl⟩
  · simp at hybounds
    omega
  · have hxbounds := hx.bounds
    have hpos := hrep.solid b hx.mem
    rw [toNat_word (by omega)] at hlo hhi
    rcases hx.disjoint hy with ⟨rfl, -⟩ | hlt | hlt
    · omega
    · omega
    · simp at hlt
      omega

/-- Only the headers count. -/
lemma Rep.congr_mem (h : Rep base start s L) (hsz : t.sz = s.sz) (hfreep : t.freep = s.freep)
    (hmem : ∀ v, (v = base ∨ ∃ x b, At start L x b ∧ v = word x) → t.mem v = s.mem v) :
    Rep base start t L := by
  have hbase : t.mem base = s.mem base := hmem base (Or.inl rfl)
  refine ⟨⟨h.base_pos, h.base_lt, hsz ▸ h.sz_eq, hsz ▸ h.sz_le, h.solid, ?_, ?_⟩, h.coalesced, ?_,
    hfreep ▸ h.freep⟩
  · intro x b hx
    rw [← h.units x b hx]
    exact congrArg (fun k : Header => k.size.toNat) (hmem _ (Or.inr ⟨x, b, hx, rfl⟩))
  · exact (congrArg Header.size hbase).trans h.base_size
  · refine h.ring.congr fun v hv => congrArg Header.ptr (hmem v ?_)
    refine (mem_cons.mp hv).imp_right fun hv => ?_
    obtain ⟨x, b, hx, -, rfl⟩ := mem_map_frees.mp hv
    exact ⟨x, b, hx, rfl⟩

/-! ### Runs -/

/-- What holds between the calls. -/
def Inv (base : Word) (start : Nat) (w : World) : Prop :=
  ∃ L, (Fresh base start w.heap ∧ L = [] ∨ Rep base start w.heap L) ∧ Lives start w.live L

lemma Fresh.inv (h : Fresh base start s) : Inv base start ⟨s, []⟩ :=
  ⟨[], Or.inl ⟨h, rfl⟩, nodup_nil, (fun _ _ hp => by cases hp), fun _ _ hx => hx.elim⟩

lemma Inv.step {c : Call} (h : Inv base start w) (hok : c.Ok w) (hstep : step base w c = some w') :
    Inv base start w' := by
  obtain ⟨L, hrep, hlive⟩ := h
  cases c with
  | malloc =>
    obtain ⟨p, t, heq, -, hcases⟩ :=
      (malloc_ends (E := fun _ => False) hrep hok (Nat.le_refl rounds)).exists_ok
    simp only [Umalloc.step, heq] at hstep
    cases hstep
    rcases hcases with ⟨rfl, -, hrep'⟩ | ⟨L', y, hrep', rfl, hmore⟩
    · exact ⟨L, Or.inr hrep', hlive⟩
    · have hne : word (y + 8) ≠ 0 := by
        have hbounds := hmore.new.bounds
        have hend := hrep'.end_le
        intro hzero
        have hto := congrArg BitVec.toNat hzero
        simp at hbounds
        rw [toNat_word (by omega)] at hto
        simp at hto
      refine ⟨L', Or.inr hrep', ?_⟩
      rw [if_neg hne]
      exact hlive.malloc hmore hrep' (by omega)
  | free ap =>
    obtain ⟨k, hk⟩ := hok
    obtain ⟨x, u, hx, rfl, -⟩ := hlive.block ap k hk
    rcases hrep with ⟨-, rfl⟩ | hrep
    · exact hx.elim
    have hfuel : (frees start L).length + 1 < rounds := by
      have := hrep.length_le
      rw [rounds]
      omega
    obtain ⟨_, t, heq, -, L', hrep', hused, -⟩ :=
      (free_ends (E := fun _ => False) hrep hx rfl hfuel).exists_ok
    simp only [Umalloc.step, heq] at hstep
    cases hstep
    exact ⟨L', Or.inr hrep', hlive.free hrep hx hused⟩
  | write =>
    cases hstep
    refine ⟨L, ?_, hlive⟩
    rcases hrep with ⟨hfresh, rfl⟩ | hrep
    · exact Or.inl ⟨⟨hfresh.base_pos, hfresh.base_lt, hfresh.sz_eq, hfresh.le, hfresh.freep⟩, rfl⟩
    · exact Or.inr (hrep.congr_mem rfl rfl fun v hv => if_neg (hlive.header hrep hv))

/-- The free blocks `F` and the blocks that the program has got. -/
def World.blocks (w : World) (F : List Word) : List Word := F ++ w.live.map fun x => x.1 - 8

/-- The free list, in the terms of its pointers and lengths. -/
structure Sound (base : Word) (start : Nat) (w : World) (F : List Word) : Prop where
  circular : Walk w.heap.ptr base F base
  ordered : (base :: F).Pairwise (· < ·)
  freep : w.heap.freep ∈ base :: F
  disjoint : (w.blocks F).Pairwise fun x y =>
    x.toNat + 8 * (w.heap.size x).toNat ≤ y.toNat ∨ y.toNat + 8 * (w.heap.size y).toNat ≤ x.toNat
  apart : ∀ x ∈ F, ∀ y ∈ F, x.toNat + 8 * (w.heap.size x).toNat ≠ y.toNat
  covers : ∀ a, (start ≤ a ∧ a < w.heap.sz.toNat) ↔
    ∃ x ∈ w.blocks F, x.toNat ≤ a ∧ a < x.toNat + 8 * (w.heap.size x).toNat

lemma word_sub (x : Nat) : word (x + 8) - 8 = word x := by
  rw [word_add]
  exact BitVec.add_sub_cancel _ _

/-- The blocks are those that the memory is cut into. -/
lemma Lives.mem_blocks (hlive : Lives start w.live L) :
    v ∈ w.blocks ((frees start L).map word) ↔ ∃ x b, At start L x b ∧ v = word x := by
  rw [World.blocks, mem_append, mem_map_frees, mem_map]
  constructor
  · rintro (⟨x, b, hx, -, rfl⟩ | ⟨⟨p, k⟩, hp, rfl⟩)
    · exact ⟨x, b, hx, rfl⟩
    · obtain ⟨x, u, hx, rfl, -⟩ := hlive.block p k hp
      exact ⟨x, _, hx, word_sub x⟩
  · rintro ⟨x, ⟨u, free⟩, hx, rfl⟩
    cases free with
    | true => exact Or.inl ⟨x, _, hx, rfl, rfl⟩
    | false =>
      obtain ⟨k, hk⟩ := hlive.live x u hx
      exact Or.inr ⟨_, hk, word_sub x⟩

lemma Rep.nodup_blocks (h : Rep base start w.heap L) (hlive : Lives start w.live L) :
    (w.blocks ((frees start L).map word)).Nodup := by
  have hbase := h.base_lt
  refine nodup_append.mpr ⟨?_, ?_, ?_⟩
  · exact (nodup_of_sorted (nodes_sorted (show base.toNat < start by omega) h.solid h.end_le)).of_cons
  · have hmap : (w.live.map fun x => x.1 - 8) = (w.live.map Prod.fst).map fun a => a - 8 := by
      rw [map_map]
      rfl
    rw [hmap]
    exact hlive.nodup.map fun a b hab => (BitVec.sub_left_inj 8).mp hab
  · rintro a ha _ hb rfl
    obtain ⟨x, b, hx, hfree, rfl⟩ := mem_map_frees.mp ha
    obtain ⟨⟨p, k⟩, hp, heq⟩ := mem_map.mp hb
    obtain ⟨y, u, hy, rfl, -⟩ := hlive.block p k hp
    have hxy : x = y := h.addr_inj hx hy (by rw [word_add, word_add, ← heq, word_sub])
    subst hxy
    rw [At.eq h.solid hx hy] at hfree
    cases hfree

lemma Rep.sound (h : Rep base start w.heap L) (hlive : Lives start w.live L) :
    Sound base start w ((frees start L).map word) := by
  have hbase := h.base_lt
  have hend := h.end_le
  have hto : ∀ {x b}, At start L x b → (word x).toNat = x ∧ (w.heap.size (word x)).toNat = b.units := by
    intro x b hx
    have hbounds := hx.bounds
    have hpos := h.solid b hx.mem
    exact ⟨toNat_word (by omega), h.units x b hx⟩
  refine ⟨h.ring, nodes_sorted (by omega) h.solid hend, h.freep, ?_, ?_, ?_⟩
  · refine (h.nodup_blocks hlive).pairwise_of_forall_ne fun u hu v hv hne => ?_
    obtain ⟨x, b, hx, rfl⟩ := hlive.mem_blocks.mp hu
    obtain ⟨y, c, hy, rfl⟩ := hlive.mem_blocks.mp hv
    rw [(hto hx).1, (hto hx).2, (hto hy).1, (hto hy).2]
    exact (hx.disjoint hy).resolve_left fun heq => hne (by rw [heq.1])
  · intro u hu v hv heq
    obtain ⟨x, b, hx, hb, rfl⟩ := mem_map_frees.mp hu
    obtain ⟨y, c, hy, hc, rfl⟩ := mem_map_frees.mp hv
    rw [(hto hx).1, (hto hx).2, (hto hy).1] at heq
    subst heq
    rw [h.coalesced.not_free h.solid hx hy hb] at hc
    cases hc
  · intro a
    rw [h.sz_eq]
    constructor
    · rintro ⟨hlo, hhi⟩
      obtain ⟨x, b, hx, hin⟩ := exists_at hlo hhi
      refine ⟨word x, hlive.mem_blocks.mpr ⟨x, b, hx, rfl⟩, ?_⟩
      rwa [(hto hx).1, (hto hx).2]
    · rintro ⟨v, hv, hin⟩
      obtain ⟨x, b, hx, rfl⟩ := hlive.mem_blocks.mp hv
      rw [(hto hx).1, (hto hx).2] at hin
      have hbounds := hx.bounds
      omega

/-- The half-open ranges of `m` bytes at `a` and of `n` bytes at `b` have no byte in common. -/
def Apart (a m b n : Nat) : Prop := a + m ≤ b ∨ b + n ≤ a

/-- A request of at most 0x7ffffff0 bytes gives 0, or memory of the process that is not in use and not in the
free list; the break does not go back. -/
theorem malloc_honours_size (h : Fresh base start s)
    (hrun : Reach (step base) (fun w c => c.Ok w) ⟨s, []⟩ w) (hb : nbytes.toNat ≤ 0x7ffffff0)
    (hfuel : rounds ≤ fuel) :
    Ends (malloc base fuel nbytes) w.heap (fun _ => False) fun p t => w.heap.sz ≤ t.sz ∧ (p = 0 ∨
      (start ≤ p.toNat ∧ p.toNat + nbytes.toNat ≤ t.sz.toNat) ∧
      (∀ x ∈ w.live, Apart p.toNat nbytes.toNat x.1.toNat x.2.toNat) ∧
      ∃ F, Walk t.ptr base F base ∧
        ∀ x ∈ F, Apart p.toNat nbytes.toNat x.toNat (8 * (t.size x).toNat)) := by
  obtain ⟨L, hcases, hlive⟩ := hrun.invariant h.inv fun _ _ _ hinv hok hstep => hinv.step hok hstep
  refine (malloc_ends hcases hb hfuel).imp (fun _ h => h) ?_
  rintro p t ⟨hsz, ⟨rfl, -, -⟩ | ⟨L', y, hrep, rfl, hmore⟩⟩
  · exact ⟨hsz, Or.inl rfl⟩
  have hybounds := hmore.new.bounds
  have hend := hrep.end_le
  simp only at hybounds
  have hto : (word (y + 8)).toNat = y + 8 := toNat_word (by omega)
  rw [hto]
  refine ⟨hsz, Or.inr ⟨⟨by omega, by rw [hrep.sz_eq]; omega⟩, ?_, _, hrep.ring, ?_⟩⟩
  · rintro ⟨q, k⟩ hq
    obtain ⟨x, u, hx, rfl, hle⟩ := hlive.block q k hq
    have hx' := (hmore.used x _ rfl).mpr (Or.inl hx)
    have hxbounds := hx'.bounds
    simp only at hxbounds
    simp only [toNat_word (show x + 8 < 4294967296 by omega)]
    rcases hx'.disjoint hmore.new with ⟨rfl, -⟩ | hlt | hlt
    · exact absurd hx (hmore.fresh _ rfl)
    · exact Or.inr (by simp only at hlt; omega)
    · exact Or.inl (by simp only at hlt; omega)
  · intro v hv
    obtain ⟨x, b, hx, hfree, rfl⟩ := mem_map_frees.mp hv
    have hxbounds := hx.bounds
    have hpos := hrep.solid b hx.mem
    rw [toNat_word (show x < 4294967296 by omega), hrep.units x b hx]
    rcases hx.disjoint hmore.new with ⟨-, rfl⟩ | hlt | hlt
    · cases hfree
    · exact Or.inr (by omega)
    · exact Or.inl (by simp only at hlt; omega)

/-- A process of three pages in which `base` is at 0x1000, on a system with enough memory. -/
def threePages : State := ⟨fun _ => ⟨0, 0⟩, 0, 0x3000, [true]⟩

lemma threePages_fresh : Fresh 0x1000 0x3000 threePages := ⟨by decide, by decide, rfl, by decide, rfl⟩

theorem malloc_honours_size_start : Fresh 0x1000 0x3000 threePages ∧
    Ends (malloc 0x1000 rounds 100) threePages (fun _ => False) fun _ t => threePages.sz ≤ t.sz :=
  ⟨threePages_fresh, (malloc_honours_size threePages_fresh Reach.refl (by decide) (Nat.le_refl rounds)).imp
    (fun _ h => h) fun _ _ h => h.1⟩

/-- The largest size is rounded to one unit, the header alone. A size close to it asks `sbrk` for -8 bytes, and
the result lies behind the new end of the process. -/
theorem malloc_wraps :
    (malloc 0x1000 10 0xffffffff threePages).map (fun r => (r.1, r.2.sz)) = .ok (0xb000, 0xb000) ∧
    (malloc 0x1000 10 0xfffffff0 threePages).map (fun r => (r.1, r.2.sz)) = .ok (0x3008, 0x2ff8) :=
  ⟨rfl, rfl⟩

end Xv6.Umalloc
