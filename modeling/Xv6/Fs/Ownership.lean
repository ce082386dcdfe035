import Xv6.Fs.Blocks
import Xv6.Machine.Exclusive

/-!
# Block ownership

Which blocks the inodes refer to. An inode has its addresses, the last of which is the indirect block, and
the entries of the indirect block as pointers. A block of the data area has at most one pointer to it, and
then it is marked in the bitmap.
-/

namespace Xv6.Blocks

open Machine Function
open Log (Block BSIZE)

/-! ### Pointers -/

/-- What an address refers to. -/
def target (v : Word) : Option Nat := if v = 0 then none else some v.toNat

@[simp] lemma target_zero : target 0 = none := rfl

lemma target_eq_none {v : Word} : target v = none ↔ v = 0 := by
  simp [target]

lemma target_eq_some {v : Word} {b : Nat} : target v = some b ↔ v ≠ 0 ∧ v.toNat = b := by
  simp [target]

lemma target_ofNat {b : Nat} (hpos : 0 < b) (hlt : b ≤ 0x7fffffff) :
    target (BitVec.ofNat 32 b) = some b := by
  have hnat : (BitVec.ofNat 32 b).toNat = b := by
    rw [BitVec.toNat_ofNat, Nat.mod_eq_of_lt (by omega)]
  rw [target_eq_some]
  refine ⟨?_, hnat⟩
  intro hzero
  rw [hzero] at hnat
  exact Nat.ne_of_lt hpos hnat

/-- Pointer `k` of an inode: its addresses, then the entries of its indirect block. -/
def ptr (disk : Disk) (d : Dinode) (k : Nat) : Option Nat :=
  if k ≤ NDIRECT then target (d.addr k)
  else
    match target (d.addr NDIRECT) with
    | none => none
    | some a => target ((disk a).getInt (k - (NDIRECT + 1)))

/-- The pointer to block `bn` of the file. -/
def slot (bn : Nat) : Nat := if bn < NDIRECT then bn else bn + 1

/-- Pointer `x.2` of inode `x.1`, for the allocated inodes. -/
def refs (sb : Superblock) (disk : Disk) (D : Nat → Dinode) (x : Nat × Nat) : Option Nat :=
  if x.1 < sb.ninodes ∧ (D x.1).type ≠ 0 then ptr disk (D x.1) x.2 else none

/-- Byte `k` of file `i` for given pointers; without a block it is zero. -/
def byteOfFile (disk : Disk) (R : Nat × Nat → Option Nat) (i k : Nat) : Byte :=
  match R (i, slot (k / BSIZE)) with
  | none => 0
  | some b => (disk b).byte (k % BSIZE)

lemma slot_ne (bn : Nat) : slot bn ≠ NDIRECT := by
  rw [slot]
  split_ifs <;> omega

lemma slot_injective {bn bn' : Nat} (h : slot bn = slot bn') : bn = bn' := by
  simp only [slot] at h
  split_ifs at h <;> omega

variable {sb : Superblock} {disk disk' : Disk} {D D' : Nat → Dinode} {d : Dinode} {i k : Nat}

lemma ptr_of_le (hk : k ≤ NDIRECT) : ptr disk d k = target (d.addr k) := if_pos hk

/-- The entries of an indirect block. -/
lemma ptr_entry {a : Nat} (ha : target (d.addr NDIRECT) = some a) (k : Nat) :
    ptr disk d (NDIRECT + 1 + k) = target ((disk a).getInt k) := by
  have hk : ¬ NDIRECT + 1 + k ≤ NDIRECT := by omega
  have hsub : NDIRECT + 1 + k - (NDIRECT + 1) = k := by omega
  rw [ptr, if_neg hk, ha, hsub]

lemma ptr_of_none (ha : target (d.addr NDIRECT) = none) (hk : NDIRECT < k) : ptr disk d k = none := by
  rw [ptr, if_neg (by omega), ha]

/-- The pointers depend on the indirect block only. -/
lemma ptr_congr (h : ∀ a, target (d.addr NDIRECT) = some a → disk' a = disk a) (k : Nat) :
    ptr disk' d k = ptr disk d k := by
  rw [ptr, ptr]
  cases ha : target (d.addr NDIRECT) with
  | none => rfl
  | some a => simp only [h a ha]

lemma ptr_of_sameBlocks {d' : Dinode} (h : Dinode.SameBlocks d d') (k : Nat) :
    ptr disk d' k = ptr disk d k := by
  rw [ptr, ptr, h.addr_eq, h.addr_eq]

/-- There are no pointers past the entries of the indirect block. -/
lemma lt_of_ptr_eq_some {b : Nat} (h : ptr disk d k = some b) : k < NDIRECT + 1 + NINDIRECT := by
  by_contra hk
  obtain ⟨j, rfl⟩ : ∃ j, k = NDIRECT + 1 + (NINDIRECT + j) :=
    ⟨k - (NDIRECT + 1 + NINDIRECT), by omega⟩
  cases ha : target (d.addr NDIRECT) with
  | none =>
    rw [ptr_of_none ha (by omega)] at h
    cases h
  | some a =>
    have hbyte : ∀ l, (disk a).byte (4 * (NINDIRECT + j) + l) = 0 := by
      intro l
      have hge : ¬ 4 * (NINDIRECT + j) + l < BSIZE := by
        simp only [NINDIRECT, BSIZE]
        omega
      simp [Bytes.byte, hge]
    have hzero : (disk a).getInt (NINDIRECT + j) = 0 := by
      rw [Bytes.getInt, hbyte, hbyte, hbyte, ← Nat.add_zero (4 * (NINDIRECT + j)), hbyte]
      rfl
    rw [ptr_entry ha, hzero] at h
    cases h

lemma refs_of_alloc (hi : i < sb.ninodes) (ht : (D i).type ≠ 0) (k : Nat) :
    refs sb disk D (i, k) = ptr disk (D i) k := if_pos ⟨hi, ht⟩

lemma refs_eq_some {x : Nat × Nat} {b : Nat} :
    refs sb disk D x = some b ↔ (x.1 < sb.ninodes ∧ (D x.1).type ≠ 0) ∧ ptr disk (D x.1) x.2 = some b := by
  rw [refs]
  split_ifs with h
  · exact ⟨fun hp => ⟨h, hp⟩, And.right⟩
  · exact ⟨(fun hn => by cases hn), fun hx => absurd hx.1 h⟩

/-- The inodes of the table count, and of the disk only the indirect blocks. -/
lemma refs_congr (hD : ∀ i < sb.ninodes, Dinode.SameBlocks (D i) (D' i))
    (hdisk : ∀ i a, refs sb disk D (i, NDIRECT) = some a → disk' a = disk a) :
    refs sb disk' D' = refs sb disk D := by
  funext x
  by_cases hx : x.1 < sb.ninodes
  · have hsame := hD x.1 hx
    simp only [refs, hsame.1]
    split_ifs with h
    · rw [ptr_of_sameBlocks hsame]
      apply ptr_congr
      intro a ha
      apply hdisk x.1 a
      rw [refs_of_alloc h.1 h.2, ptr_of_le (Nat.le_refl _), ha]
    · rfl
  · simp [refs, hx]

/-- A new direct address. -/
lemma ptr_setAddr_direct (hk : k < NDIRECT) (v : Word) (l : Nat) :
    ptr disk (d.setAddr k v) l = if l = k then target v else ptr disk d l := by
  have hind : (d.setAddr k v).addr NDIRECT = d.addr NDIRECT := d.addr_setAddr_of_ne v (by omega)
  simp only [ptr, hind]
  by_cases hlk : l = k
  · subst hlk
    rw [if_pos (by omega), d.addr_setAddr_self v (by omega), if_pos rfl]
  · rw [if_neg hlk, d.addr_setAddr_of_ne v hlk]

/-- A new indirect block without entries. -/
lemma ptr_setAddr_indirect (hnone : target (d.addr NDIRECT) = none) {v : Word} {b : Nat}
    (hv : target v = some b) (hzero : ∀ j, (disk b).getInt j = 0) (l : Nat) :
    ptr disk (d.setAddr NDIRECT v) l = if l = NDIRECT then some b else ptr disk d l := by
  have hself : (d.setAddr NDIRECT v).addr NDIRECT = v := d.addr_setAddr_self v (Nat.le_refl _)
  by_cases hl : l ≤ NDIRECT
  · rw [ptr_of_le hl, ptr_of_le hl]
    by_cases heq : l = NDIRECT
    · rw [if_pos heq, heq, hself, hv]
    · rw [if_neg heq, d.addr_setAddr_of_ne v heq]
  · rw [if_neg (by omega), ptr_of_none hnone (by omega)]
    obtain ⟨j, rfl⟩ : ∃ j, l = NDIRECT + 1 + j := ⟨l - (NDIRECT + 1), by omega⟩
    rw [ptr_entry (by rw [hself]; exact hv), hzero, target_zero]

/-- A new entry of the indirect block. -/
lemma ptr_putInt {a : Nat} (ha : target (d.addr NDIRECT) = some a) (hk : k < NINDIRECT) (v : Word)
    (l : Nat) : ptr (setBlock disk a ((disk a).putInt k v)) d l =
      if l = NDIRECT + 1 + k then target v else ptr disk d l := by
  by_cases hl : l ≤ NDIRECT
  · rw [ptr_of_le hl, ptr_of_le hl, if_neg (by omega)]
  · obtain ⟨j, rfl⟩ : ∃ j, l = NDIRECT + 1 + j := ⟨l - (NDIRECT + 1), by omega⟩
    rw [ptr_entry ha, ptr_entry ha]
    simp only [setBlock, update_self]
    by_cases hjk : j = k
    · subst hjk
      have hfit : 4 * j + 4 ≤ BSIZE := by
        simp only [NINDIRECT, BSIZE] at hk ⊢
        omega
      rw [if_pos rfl, Bytes.getInt_putInt_self _ _ hfit]
    · rw [if_neg (by omega), Bytes.getInt_putInt_of_ne _ _ hjk]

/-- One inode has one new pointer. -/
lemma refs_update (hi : i < sb.ninodes) (ht : (D i).type ≠ 0) (ht' : (D' i).type ≠ 0) {r : Option Nat}
    (hD : ∀ j < sb.ninodes, j ≠ i → D' j = D j)
    (hself : ∀ l, ptr disk' (D' i) l = if l = k then r else ptr disk (D i) l)
    (hother : ∀ j, j ≠ i → ∀ a, refs sb disk D (j, NDIRECT) = some a → disk' a = disk a) :
    refs sb disk' D' = update (refs sb disk D) (i, k) r := by
  funext ⟨j, l⟩
  by_cases hj : j = i
  · subst hj
    rw [refs_of_alloc hi ht', hself]
    by_cases hl : l = k
    · subst hl
      rw [if_pos rfl, update_self]
    · have hne : (j, l) ≠ (j, k) := by
        rintro ⟨⟩
        exact hl rfl
      rw [if_neg hl, update_of_ne hne, refs_of_alloc hi ht]
  · have hne : (j, l) ≠ (i, k) := by
      rintro ⟨⟩
      exact hj rfl
    rw [update_of_ne hne]
    by_cases hlt : j < sb.ninodes
    · simp only [refs, hD j hlt hj]
      split_ifs with h
      · apply ptr_congr
        intro a ha
        apply hother j hj a
        rw [refs_of_alloc h.1 h.2, ptr_of_le (Nat.le_refl _), ha]
      · rfl
    · simp [refs, hlt]

/-- An inode that is allocated without any block. -/
lemma refs_alloc (hfree : (D i).type = 0) (hnew : ∀ l, ptr disk' (D' i) l = none)
    (hD : ∀ j < sb.ninodes, j ≠ i → D' j = D j)
    (hdisk : ∀ j a, refs sb disk D (j, NDIRECT) = some a → disk' a = disk a) :
    refs sb disk' D' = refs sb disk D := by
  funext ⟨j, l⟩
  by_cases hj : j = i
  · subst hj
    have hnone : refs sb disk D (j, l) = none := if_neg fun hand => hand.2 hfree
    rw [hnone, refs]
    split_ifs
    · exact hnew l
    · rfl
  · by_cases hlt : j < sb.ninodes
    · simp only [refs, hD j hlt hj]
      split_ifs with h
      · apply ptr_congr
        intro a ha
        apply hdisk j a
        rw [refs_of_alloc h.1 h.2, ptr_of_le (Nat.le_refl _), ha]
      · rfl
    · simp [refs, hlt]

/-! ### Bytes of one block -/

lemma span_pos (off : Nat) {n : Nat} (hn : n ≠ 0) : 0 < span off n := by
  have hmod := Nat.mod_lt off (show 0 < BSIZE by decide)
  simp only [span]
  omega

lemma span_le (off n : Nat) : span off n ≤ n := Nat.min_le_left _ _

lemma span_fits (off n : Nat) : off % BSIZE + span off n ≤ BSIZE := by
  have hmod := Nat.mod_lt off (show 0 < BSIZE by decide)
  simp only [span]
  omega

/-- The bytes that are copied at once are in one block. -/
lemma add_div_of_fits {off j : Nat} (h : off % BSIZE + j < BSIZE) :
    (off + j) / BSIZE = off / BSIZE ∧ (off + j) % BSIZE = off % BSIZE + j := by
  have hdiv := Nat.div_add_mod off BSIZE
  have hpos : 0 < BSIZE := by decide
  constructor
  · rw [← hdiv, Nat.add_assoc, Nat.mul_add_div hpos, Nat.mul_add_div hpos, Nat.div_eq_of_lt h,
      Nat.mod_div_self]
  · rw [Nat.add_mod, Nat.mod_eq_of_lt (Nat.lt_of_le_of_lt (Nat.le_add_left j _) h), Nat.mod_eq_of_lt h]

/-! ### Owned blocks -/

/-- Every pointer has a block of the data area for itself that is marked in the bitmap, and so are the
    blocks before the data area. -/
structure Owned (sb : Superblock) (used : Nat → Bool) (R : Nat × Nat → Option Nat) : Prop where
  once : Exclusive R
  data : ∀ x b, R x = some b → sb.Data b
  marked : ∀ x b, R x = some b → used b = true
  reserved : ∀ b < sb.datastart, used b = true

variable {U U' : Nat → Bool} {R : Nat × Nat → Option Nat} {x : Nat × Nat} {b : Nat}

lemma Owned.congr (h : Owned sb U R) (hsb : sb.Wf) (hU : ∀ c < sb.size, U' c = U c) : Owned sb U' R where
  once := h.once
  data := h.data
  marked x c hx := by
    rw [hU c (h.data x c hx).2]
    exact h.marked x c hx
  reserved c hc := by
    rw [hU c (Nat.lt_of_lt_of_le hc hsb.data)]
    exact h.reserved c hc

/-- A free block is in the data area, and no pointer refers to it. -/
lemma Owned.data_of_free (h : Owned sb U R) (hb : U b = false) (hlt : b < sb.size) : sb.Data b := by
  refine ⟨?_, hlt⟩
  by_contra hlow
  rw [h.reserved b (by omega)] at hb
  cases hb

lemma Owned.ne_of_free (h : Owned sb U R) (hb : U b = false) (x : Nat × Nat) : R x ≠ some b := by
  intro hx
  rw [h.marked x b hx] at hb
  cases hb

/-- A pointer is set to a free block. -/
lemma Owned.assign (h : Owned sb U R) (hb : U b = false) (hlt : b < sb.size) (x : Nat × Nat)
    (hU : ∀ c < sb.size, U' c = (U c || decide (c = b))) (hsb : sb.Wf) :
    Owned sb U' (update R x (some b)) where
  once := by
    apply h.once.step (a := x)
    · intro y hy c hc
      rwa [update_of_ne hy] at hc
    · intro c hc
      rw [update_self] at hc
      cases hc
      exact .inr (h.ne_of_free hb)
  data y c hy := by
    by_cases hyx : y = x
    · subst hyx
      rw [update_self] at hy
      cases hy
      exact h.data_of_free hb hlt
    · rw [update_of_ne hyx] at hy
      exact h.data y c hy
  marked y c hy := by
    by_cases hyx : y = x
    · subst hyx
      rw [update_self] at hy
      cases hy
      simp [hU _ hlt]
    · rw [update_of_ne hyx] at hy
      rw [hU c (h.data y c hy).2, h.marked y c hy, Bool.true_or]
  reserved c hc := by
    rw [hU c (Nat.lt_of_lt_of_le hc hsb.data), h.reserved c hc, Bool.true_or]

/-! ### Areas of the disk -/

lemma Superblock.Wf.iblock_lt (hsb : sb.Wf) (hi : i < sb.ninodes) : sb.IBLOCK i < sb.bmapstart := by
  have hdiv : i / IPB ≤ sb.ninodes / IPB := Nat.div_le_div_right (Nat.le_of_lt hi)
  have harea := hsb.inodes
  rw [Superblock.IBLOCK]
  omega

lemma Superblock.le_bblock (sb : Superblock) (c : Nat) : sb.bmapstart ≤ sb.BBLOCK c :=
  Nat.le_add_left _ _

lemma Superblock.bblock_lt {c : Nat} (hc : c < sb.size) : sb.BBLOCK c < sb.datastart := by
  have hdiv : c / BPB ≤ sb.size / BPB := Nat.div_le_div_right (Nat.le_of_lt hc)
  rw [Superblock.BBLOCK, Superblock.datastart]
  omega

lemma Superblock.bmapstart_lt (sb : Superblock) : sb.bmapstart < sb.datastart :=
  Nat.lt_succ_of_le (Nat.le_add_right _ _)

lemma dinodes_setBlock (hsb : sb.Wf) (hb : sb.bmapstart ≤ b) (data : Block) (hi : i < sb.ninodes) :
    dinodes sb (setBlock disk b data) i = dinodes sb disk i := by
  have hne : sb.IBLOCK i ≠ b := by
    have hlt := hsb.iblock_lt hi
    omega
  rw [dinodes, setBlock, update_of_ne hne, dinodes]

lemma dinodes_putDinode (sb : Superblock) (disk : Disk) (i j : Nat) (d : Dinode) :
    dinodes sb (setBlock disk (sb.IBLOCK i) (putDinode (disk (sb.IBLOCK i)) (i % IPB) d)) j =
      if j = i then d else dinodes sb disk j := by
  have hmod : ∀ n, n % IPB < IPB := fun n => Nat.mod_lt n (by decide)
  rw [dinodes]
  by_cases hji : j = i
  · subst hji
    rw [if_pos rfl, setBlock, update_self, getDinode_putDinode_self _ _ (hmod j)]
  · rw [if_neg hji]
    by_cases hblock : sb.IBLOCK j = sb.IBLOCK i
    · have hslot : j % IPB ≠ i % IPB := by
        simp only [Superblock.IBLOCK, Nat.add_right_cancel_iff] at hblock
        intro heq
        rw [← Nat.div_add_mod j IPB, ← Nat.div_add_mod i IPB, hblock, heq] at hji
        exact hji rfl
      rw [hblock, setBlock, update_self, getDinode_putDinode_of_ne _ _ hslot, dinodes, hblock]
    · rw [setBlock, update_of_ne hblock, dinodes]

lemma used_setBlock {c : Nat} (hb : b < sb.bmapstart ∨ sb.datastart ≤ b) (data : Block)
    (hc : c < sb.size) : used sb (setBlock disk b data) c = used sb disk c := by
  have hne : sb.BBLOCK c ≠ b := by
    have hle := sb.le_bblock c
    have hlt := sb.bblock_lt hc
    omega
  rw [used, setBlock, update_of_ne hne, used]

/-- How a change of one bit shows in the bitmap. -/
private lemma used_change {f : Block → Block} {g : Bool → Bool → Bool} (b c : Nat)
    (hf : ∀ bp bj, bj < BPB → isUsed (f bp) bj = g (isUsed bp bj) (decide (bj = b % BPB)))
    (hg : ∀ x, g x false = x) :
    used sb (setBlock disk (sb.BBLOCK b) (f (disk (sb.BBLOCK b)))) c =
      g (used sb disk c) (decide (c = b)) := by
  have hmod : ∀ n, n % BPB < BPB := fun n => Nat.mod_lt n (by decide)
  rw [used, used]
  by_cases hblock : sb.BBLOCK c = sb.BBLOCK b
  · rw [hblock, setBlock, update_self, hf _ _ (hmod c)]
    simp only [Superblock.BBLOCK, Nat.add_right_cancel_iff] at hblock
    have hiff : c % BPB = b % BPB ↔ c = b := by
      constructor
      · intro heq
        rw [← Nat.div_add_mod c BPB, ← Nat.div_add_mod b BPB, hblock, heq]
      · rintro rfl
        rfl
    simp only [hiff]
  · have hcb : c ≠ b := by
      rintro rfl
      exact hblock rfl
    rw [setBlock, update_of_ne hblock]
    simp [hcb, hg]

lemma used_markUsed (sb : Superblock) (disk : Disk) (b c : Nat) :
    used sb (setBlock disk (sb.BBLOCK b) (markUsed (disk (sb.BBLOCK b)) (b % BPB))) c =
      (used sb disk c || decide (c = b)) :=
  used_change (f := fun bp => markUsed bp (b % BPB)) (g := or) b c
    (fun bp _ hbj => isUsed_markUsed bp hbj) Bool.or_false

end Xv6.Blocks
