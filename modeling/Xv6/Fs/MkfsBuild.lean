import Mathlib.Data.List.GetD
import Xv6.Fs.Mkfs
import Xv6.Fs.Ownership

/-!
# How `mkfs` builds files

What `iappend` does to the image in terms of the contents of files. The data blocks before `freeblock` each
have one pointer, those from there on are zero, and a file has pointers for just as many blocks as its
contents need. While `iappend` runs, the inode is in a variable and not yet in the image.
-/

namespace Xv6.Mkfs

open Machine Function List
open Log (Block BSIZE)
open Blocks

/-! ### Blocks and their pointers -/

/-- The image under construction: pointers `R`, first free block `F`, and the bytes of the files. -/
structure Core (image : Disk) (R : Nat × Nat → Option Nat) (F : Nat) (bytes : Nat → Nat → Byte) :
    Prop where
  once : Exclusive R
  range : ∀ x b, R x = some b → nmeta ≤ b ∧ b < F
  onto : ∀ b, nmeta ≤ b → b < F → ∃ x, R x = some b
  zero : ∀ b, F ≤ b → ∀ j, (image b).byte j = 0
  bytes : ∀ i k, byteOfFile image R i k = bytes i k

variable {image image' : Disk} {R R' : Nat × Nat → Option Nat} {F : Nat} {bytes : Nat → Nat → Byte}
  {x : Nat × Nat} {i b k : Nat} {p : Nat → Byte}

lemma Core.ne_free (h : Core image R F bytes) (x : Nat × Nat) : R x ≠ some F := fun hx =>
  Nat.lt_irrefl F (h.range x F hx).2

/-- A pointer is set to the next block. The blocks without an indirect pointer stay as they are. -/
lemma Core.assign (h : Core image R F bytes) (hF : nmeta ≤ F) (hnone : R x = none)
    (himage : ∀ b, nmeta ≤ b → (∀ i, R (i, NDIRECT) ≠ some b) → image' b = image b) :
    Core image' (update R x (some F)) (F + 1) bytes where
  once := by
    apply h.once.step (a := x)
    · intro y hy c hc
      rwa [update_of_ne hy] at hc
    · intro c hc
      rw [update_self] at hc
      cases hc
      exact .inr h.ne_free
  range y c hy := by
    by_cases hyx : y = x
    · subst hyx
      rw [update_self] at hy
      cases hy
      exact ⟨hF, Nat.lt_succ_self _⟩
    · rw [update_of_ne hyx] at hy
      obtain ⟨hlo, hhi⟩ := h.range y c hy
      exact ⟨hlo, Nat.lt_succ_of_lt hhi⟩
  onto c hlo hhi := by
    by_cases hcF : c = F
    · exact ⟨x, by rw [hcF, update_self]⟩
    · obtain ⟨y, hy⟩ := h.onto c hlo (by omega)
      have hyx : y ≠ x := by
        rintro rfl
        rw [hnone] at hy
        cases hy
      exact ⟨y, by rw [update_of_ne hyx, hy]⟩
  zero c hc j := by
    rw [himage c (by omega) fun i hi => absurd (h.range _ c hi).2 (by omega)]
    exact h.zero c (by omega) j
  bytes j k := by
    rw [← h.bytes j k, byteOfFile, byteOfFile]
    by_cases hx : (j, slot (k / BSIZE)) = x
    · rw [hx, update_self, hnone]
      simp only
      rw [himage F hF fun i hi => h.ne_free _ hi, h.zero F (Nat.le_refl _)]
    · rw [update_of_ne hx]
      cases hc : R (j, slot (k / BSIZE)) with
      | none => rfl
      | some c =>
        have hind : ∀ i, R (i, NDIRECT) ≠ some c := fun i hi =>
          slot_ne _ (congrArg Prod.snd (h.once _ _ c hc hi))
        simp only [himage c (h.range _ c hc).1 hind]

/-- Part of a block of a file is overwritten. -/
lemma Core.write (h : Core image R F bytes) {off m : Nat} (hb : R (i, slot (off / BSIZE)) = some b)
    (hm : off % BSIZE + m ≤ BSIZE) :
    Core (setBlock image b ((image b).overwrite (off % BSIZE) m p)) R F fun j k =>
      if j = i ∧ off ≤ k ∧ k < off + m then p (k - off) else bytes j k where
  once := h.once
  range := h.range
  onto := h.onto
  zero c hc j := by
    have hcb : c ≠ b := by
      rintro rfl
      exact absurd (h.range _ c hb).2 (by omega)
    rw [setBlock, update_of_ne hcb]
    exact h.zero c hc j
  bytes j k := by
    have hk := Nat.div_add_mod k BSIZE
    have hoff := Nat.div_add_mod off BSIZE
    rw [byteOfFile]
    cases hc : R (j, slot (k / BSIZE)) with
    | none =>
      have hout : ¬ (j = i ∧ off ≤ k ∧ k < off + m) := by
        rintro ⟨rfl, hlo, hhi⟩
        obtain ⟨o, rfl⟩ : ∃ o, k = off + o := ⟨k - off, by omega⟩
        rw [(add_div_of_fits (show off % BSIZE + o < BSIZE by omega)).1, hb] at hc
        cases hc
      rw [if_neg hout, ← h.bytes, byteOfFile, hc]
    | some c =>
      by_cases hcb : c = b
      · subst hcb
        have hx := h.once _ _ c hc hb
        obtain rfl : j = i := congrArg Prod.fst hx
        have hdiv : k / BSIZE = off / BSIZE := slot_injective (congrArg Prod.snd hx)
        rw [hdiv] at hk
        simp only [setBlock, update_self]
        by_cases hin : off ≤ k ∧ k < off + m
        · have hmod : k % BSIZE = off % BSIZE + (k - off) := by omega
          rw [if_pos ⟨trivial, hin⟩, hmod, Bytes.byte_overwrite_of_mem _ _ (by omega) hm]
        · rw [if_neg fun hand => hin hand.2, Bytes.byte_overwrite_of_notMem _ _ (by omega), ← h.bytes,
            byteOfFile, hc]
      · have hout : ¬ (j = i ∧ off ≤ k ∧ k < off + m) := by
          rintro ⟨rfl, hlo, hhi⟩
          obtain ⟨o, rfl⟩ : ∃ o, k = off + o := ⟨k - off, by omega⟩
          rw [(add_div_of_fits (show off % BSIZE + o < BSIZE by omega)).1, hb] at hc
          exact hcb (Option.some.inj hc).symm
        simp only [setBlock, update_of_ne hcb]
        rw [if_neg hout, ← h.bytes, byteOfFile, hc]

/-! ### Sizes -/

/-- The number of blocks for `n` bytes. -/
def nblocks (n : Nat) : Nat := (n + BSIZE - 1) / BSIZE

/-- The blocks that a file of `N` blocks takes, with the indirect block. -/
def cost (N : Nat) : Nat := N + if NDIRECT < N then 1 else 0

/-- Inode `i` has pointers for just `N` blocks. -/
structure Slots (R : Nat × Nat → Option Nat) (i N : Nat) : Prop where
  block : ∀ bn, R (i, slot bn) ≠ none ↔ bn < N
  indirect : R (i, NDIRECT) ≠ none ↔ NDIRECT < N

lemma cost_mono {N M : Nat} (h : N ≤ M) : cost N ≤ cost M := by
  rw [cost, cost]
  split_ifs <;> omega

/-! ### The inode that `iappend` works on -/

/-- The inodes of the image, with `din` for inode `i`. -/
def ptrs (s : State) (i : Nat) (din : Dinode) : Nat × Nat → Option Nat :=
  refs sb s.image (Function.update (dinodes sb s.image) i din)

/-- The state inside `iappend`. -/
structure View (s : State) (i : Nat) (din : Dinode) (files : Nat → List Byte) : Prop where
  inum : i < NINODES
  type : din.type ≠ 0
  free : nmeta ≤ s.freeblock ∧ s.freeblock ≤ FSSIZE + 1
  core : Core s.image (ptrs s i din) s.freeblock fun j k => (files j).getD k 0
  others : ∀ j, j ≠ i → Slots (ptrs s i din) j (nblocks (files j).length)

lemma sb_wf : sb.Wf := ⟨by decide, by decide, by decide⟩

lemma sb_datastart : sb.datastart = nmeta := by decide

variable {s t : State} {din : Dinode} {files : Nat → List Byte} {N : Nat}

section

variable (h : View s i din files)

include h

lemma View.ptrs_self (k : Nat) : ptrs s i din (i, k) = ptr s.image din k := by
  have ht : (update (dinodes sb s.image) i din i).type ≠ 0 := by
    rw [update_self]
    exact h.type
  rw [ptrs, refs_of_alloc h.inum ht, update_self]

lemma View.indirect : target (din.addr NDIRECT) = ptrs s i din (i, NDIRECT) := by
  rw [h.ptrs_self, ptr_of_le (Nat.le_refl _)]

lemma View.target_free : target (BitVec.ofNat 32 s.freeblock) = some s.freeblock := by
  obtain ⟨hlo, hhi⟩ := h.free
  have hpos : 0 < nmeta := by decide
  have hint : FSSIZE + 1 ≤ 0x7fffffff := by decide
  exact target_ofNat (by omega) (by omega)

/-- `freeblock++` for a pointer that was missing. -/
lemma View.assign {din' : Dinode} {image' : Disk} {k : Nat}
    (htype : din'.type ≠ 0) (hfree : s.freeblock ≤ FSSIZE)
    (hnone : ptrs s i din (i, k) = none)
    (hR : ptrs { s with image := image', freeblock := s.freeblock + 1 } i din' =
      update (ptrs s i din) (i, k) (some s.freeblock))
    (himage : ∀ b, nmeta ≤ b → (∀ j, ptrs s i din (j, NDIRECT) ≠ some b) → image' b = s.image b) :
    View { s with image := image', freeblock := s.freeblock + 1 } i din' files where
  inum := h.inum
  type := htype
  free := ⟨Nat.le_succ_of_le h.free.1, Nat.succ_le_succ hfree⟩
  core := by
    rw [hR]
    exact h.core.assign h.free.1 hnone himage
  others j hj := by
    have hne : ∀ l, (j, l) ≠ (i, k) := fun l heq => hj (congrArg Prod.fst heq)
    rw [hR]
    constructor
    · intro bn
      rw [update_of_ne (hne _)]
      exact (h.others j hj).block bn
    · rw [update_of_ne (hne _)]
      exact (h.others j hj).indirect

/-- A new address of the inode. -/
lemma View.ptrs_setAddr {k : Nat} (hk : k ≤ NDIRECT) (hnone : ptrs s i din (i, k) = none) :
    ptrs { s with freeblock := s.freeblock + 1 } i (din.setAddr k (BitVec.ofNat 32 s.freeblock)) =
      update (ptrs s i din) (i, k) (some s.freeblock) := by
  apply refs_update (D := update (dinodes sb s.image) i din) (i := i) h.inum
  · rw [update_self]
    exact h.type
  · rw [update_self]
    exact h.type
  · intro j _ hj
    rw [update_of_ne hj, update_of_ne hj]
  · intro l
    rw [update_self, update_self]
    by_cases hkd : k = NDIRECT
    · subst hkd
      apply ptr_setAddr_indirect (by rw [h.indirect, hnone]) h.target_free
      intro j
      have hzero := h.core.zero s.freeblock (Nat.le_refl _)
      simp [Bytes.getInt, hzero]
    · rw [ptr_setAddr_direct (by omega), h.target_free]
  · exact fun _ _ _ _ => rfl

end

/-- Pointer `k` of inode `i` is there, and was set to the next block if it was missing. -/
structure Ensured (s : State) (i : Nat) (din : Dinode) (files : Nat → List Byte) (k : Nat) (t : State)
    (din' : Dinode) : Prop where
  view : View t i din' files
  freeinode : t.freeinode = s.freeinode
  type : din'.type = din.type
  nlink : din'.nlink = din.nlink
  low : ∀ b < nmeta, t.image b = s.image b
  ptrs :
    (ptrs s i din (i, k) ≠ none ∧ ptrs t i din' = ptrs s i din ∧ t.freeblock = s.freeblock) ∨
    (ptrs s i din (i, k) = none ∧
      ptrs t i din' = Function.update (ptrs s i din) (i, k) (some s.freeblock) ∧
      t.freeblock = s.freeblock + 1)

variable {din' : Dinode} {din₁ : Dinode} {u : State}

lemma Ensured.ne_none {k : Nat} (h : Ensured s i din files k t din') :
    Mkfs.ptrs t i din' (i, k) ≠ none := by
  obtain ⟨hne, heq, -⟩ | ⟨-, heq, -⟩ := h.ptrs
  · rwa [heq]
  · rw [heq, update_self]
    exact Option.some_ne_none _

/-- If a block was taken for the pointer, it is the last one. -/
lemma Ensured.last {k b : Nat} (h : Ensured s i din files k t din')
    (hb : Mkfs.ptrs t i din' (i, k) = some b) : t.freeblock = s.freeblock ∨ t.freeblock = b + 1 := by
  obtain ⟨-, -, hfree⟩ | ⟨-, heq, hfree⟩ := h.ptrs
  · exact .inl hfree
  · rw [heq, update_self] at hb
    cases hb
    exact .inr hfree

lemma ensureAddr_ends (h : View s i din files) {k : Nat} (hk : k ≤ NDIRECT) (hfree : s.freeblock ≤ FSSIZE) :
    Ends (ensureAddr din k) s (fun _ => False) fun din' t => Ensured s i din files k t din' := by
  have hptr : ptrs s i din (i, k) = target (din.addr k) := by
    rw [h.ptrs_self, ptr_of_le hk]
  apply Ends.ite
  · intro hzero
    have hnone : ptrs s i din (i, k) = none := by
      rw [hptr, hzero, target_zero]
    have hR := h.ptrs_setAddr hk hnone
    exact ⟨h.assign h.type hfree hnone hR fun _ _ _ => rfl, rfl, rfl, rfl, fun _ _ => rfl,
      .inr ⟨hnone, hR, rfl⟩⟩
  · intro hne
    refine ⟨h, rfl, rfl, rfl, fun _ _ => rfl, .inl ⟨?_, rfl, rfl⟩⟩
    rw [hptr, Ne, target_eq_none]
    exact hne

/-- A new entry of the indirect block. -/
lemma View.ptrs_putInt (h : View s i din files) {a k : Nat}
    (ha : ptrs s i din (i, NDIRECT) = some a) (hk : k < NINDIRECT) :
    ptrs { s with
      image := setBlock s.image a ((s.image a).putInt k (BitVec.ofNat 32 s.freeblock))
      freeblock := s.freeblock + 1 } i din =
      update (ptrs s i din) (i, NDIRECT + 1 + k) (some s.freeblock) := by
  have hmeta : sb.bmapstart ≤ a := by
    have hlo := (h.core.range _ a ha).1
    have hlt : sb.bmapstart ≤ nmeta := by decide
    omega
  apply refs_update (D := update (dinodes sb s.image) i din) (i := i) h.inum
  · rw [update_self]
    exact h.type
  · rw [update_self]
    exact h.type
  · intro j hlt hj
    rw [update_of_ne hj, update_of_ne hj, dinodes_setBlock sb_wf hmeta _ hlt]
  · intro l
    rw [update_self, update_self, ptr_putInt (by rw [h.indirect, ha]) hk, h.target_free]
  · intro j hj c hc
    have hca : c ≠ a := by
      rintro rfl
      exact hj (congrArg Prod.fst (h.core.once _ _ c hc ha))
    exact update_of_ne hca ..

lemma rsect_ends {sec : Nat} {s : State} :
    Ends (rsect sec) s (fun _ => FSSIZE ≤ sec) fun buf t => sec < FSSIZE ∧ buf = s.image sec ∧ t = s := by
  apply Ends.get_bind
  apply Ends.ite
  · exact fun hlt => ⟨hlt, rfl, rfl⟩
  · exact fun hge => Nat.le_of_not_lt hge

lemma ensureEntry_ends (h : View s i din files) {a k : Nat} (ha : ptrs s i din (i, NDIRECT) = some a)
    (hk : k < NINDIRECT) (hfree : a < FSSIZE → s.freeblock ≤ FSSIZE) :
    Ends (ensureEntry a k) s (fun _ => FSSIZE ≤ a) fun x t =>
      Ensured s i din files (NDIRECT + 1 + k) t din ∧ ptrs t i din (i, NDIRECT + 1 + k) = some x := by
  have hptr : ptrs s i din (i, NDIRECT + 1 + k) = target ((s.image a).getInt k) := by
    rw [h.ptrs_self, ptr_entry (by rw [h.indirect, ha])]
  apply Ends.bind rsect_ends
  rintro bp t ⟨hlt, rfl, rfl⟩
  apply Ends.ite
  · intro hzero
    have hnone : ptrs t i din (i, NDIRECT + 1 + k) = none := by
      rw [hptr, hzero, target_zero]
    have hR := h.ptrs_putInt ha hk
    have hother : ∀ b, b ≠ a → setBlock t.image a
        ((t.image a).putInt k (BitVec.ofNat 32 t.freeblock)) b = t.image b :=
      fun b hb => update_of_ne hb ..
    have hview := h.assign h.type (hfree hlt) hnone hR fun b _ hb => hother b (by
      rintro rfl
      exact hb i ha)
    refine ⟨⟨hview, rfl, rfl, rfl, fun b hb => hother b ?_, .inr ⟨hnone, hR, rfl⟩⟩, ?_⟩
    · have hlo := (h.core.range _ a ha).1
      omega
    · rw [(target_eq_some.mp h.target_free).2]
      exact (congrFun hR _).trans (update_self ..)
  · intro hne
    have hsome := target_eq_some.mpr ⟨hne, rfl⟩
    rw [← hptr] at hsome
    refine ⟨⟨h, rfl, rfl, rfl, fun _ _ => rfl, .inl ⟨?_, rfl, rfl⟩⟩, hsome⟩
    rw [hsome]
    exact Option.some_ne_none _

/-! ### The block for an offset -/

/-- One more block. -/
lemma Slots.succ (h : Slots R i N) (hnew : R' (i, slot N) ≠ none)
    (hold : ∀ bn, bn ≠ N → R' (i, slot bn) = R (i, slot bn))
    (hind : R' (i, NDIRECT) ≠ none ↔ NDIRECT < N + 1) : Slots R' i (N + 1) where
  block bn := by
    by_cases hbn : bn = N
    · subst hbn
      exact iff_of_true hnew (Nat.lt_succ_self _)
    · rw [hold bn hbn, h.block]
      omega
  indirect := hind

/-- Block `fbn` of the file is block `x`, and the pointers reach up to there. -/
structure Placed (s : State) (i : Nat) (din : Dinode) (files : Nat → List Byte) (N fbn : Nat) (t : State)
    (din' : Dinode) (x : Nat) : Prop where
  view : View t i din' files
  slots : Slots (ptrs t i din') i (max N (fbn + 1))
  block : ptrs t i din' (i, slot fbn) = some x
  free : t.freeblock + cost N = s.freeblock + cost (max N (fbn + 1))
  last : t.freeblock = s.freeblock ∨ t.freeblock = x + 1
  freeinode : t.freeinode = s.freeinode
  type : din'.type = din.type
  nlink : din'.nlink = din.nlink
  low : ∀ b < nmeta, t.image b = s.image b

/-- The last pointer on the way to a block, when the indirect block is there if it is needed. -/
lemma Ensured.placed {x fbn : Nat} (h : Ensured s i din files (slot fbn) t din')
    (hx : Mkfs.ptrs t i din' (i, slot fbn) = some x) (hs : Slots (Mkfs.ptrs s i din) i N) (hfbn : fbn ≤ N)
    (hN : N ≠ NDIRECT ∨ fbn ≠ N) : Placed s i din files N fbn t din' x where
  view := h.view
  slots := by
    obtain ⟨hne, heq, -⟩ | ⟨hnone, heq, -⟩ := h.ptrs
    · rw [heq, Nat.max_eq_left ((hs.block fbn).mp hne)]
      exact hs
    · have hge : ¬ fbn < N := fun hlt => (hs.block fbn).mpr hlt hnone
      obtain rfl : fbn = N := by omega
      have hind : NDIRECT ≠ slot fbn := (slot_ne fbn).symm
      rw [Nat.max_eq_right (Nat.le_succ _)]
      refine hs.succ h.ne_none ?_ ?_
      · intro bn hbn
        have hslot : slot bn ≠ slot fbn := fun heq => hbn (slot_injective heq)
        rw [heq, update_of_ne fun hpair => hslot (congrArg Prod.snd hpair)]
      · rw [heq, update_of_ne fun hpair => hind (congrArg Prod.snd hpair), hs.indirect]
        omega
  block := hx
  free := by
    obtain ⟨hne, -, hfree⟩ | ⟨hnone, -, hfree⟩ := h.ptrs
    · rw [hfree, Nat.max_eq_left ((hs.block fbn).mp hne)]
    · have hge : ¬ fbn < N := fun hlt => (hs.block fbn).mpr hlt hnone
      obtain rfl : fbn = N := by omega
      rw [hfree, Nat.max_eq_right (Nat.le_succ _), cost, cost]
      split_ifs <;> omega
  last := h.last hx
  freeinode := h.freeinode
  type := h.type
  nlink := h.nlink
  low := h.low

/-- The first block past the direct ones takes the indirect block and the block. -/
lemma Ensured.placed_first {x : Nat} (h₁ : Ensured s i din files NDIRECT u din₁)
    (h₂ : Ensured u i din₁ files (slot NDIRECT) t din')
    (hx : Mkfs.ptrs t i din' (i, slot NDIRECT) = some x) (hs : Slots (Mkfs.ptrs s i din) i NDIRECT) :
    Placed s i din files NDIRECT NDIRECT t din' x := by
  have hnone₁ : Mkfs.ptrs s i din (i, NDIRECT) = none := by
    by_contra hne
    exact Nat.lt_irrefl _ (hs.indirect.mp hne)
  have hnone₂ : Mkfs.ptrs s i din (i, slot NDIRECT) = none := by
    by_contra hne
    exact Nat.lt_irrefl _ ((hs.block _).mp hne)
  obtain ⟨hne, -⟩ | ⟨-, heq₁, hfree₁⟩ := h₁.ptrs
  · exact absurd hnone₁ hne
  have hslot : (i, slot NDIRECT) ≠ (i, NDIRECT) := fun hpair =>
    slot_ne NDIRECT (congrArg Prod.snd hpair)
  obtain ⟨hne, -⟩ | ⟨-, heq₂, hfree₂⟩ := h₂.ptrs
  · rw [heq₁, update_of_ne hslot] at hne
    exact absurd hnone₂ hne
  have hcost : cost (NDIRECT + 1) = cost NDIRECT + 2 := by decide
  refine
    { view := h₂.view, slots := ?_, block := hx, free := ?_, last := ?_,
      freeinode := h₂.freeinode.trans h₁.freeinode, type := h₂.type.trans h₁.type,
      nlink := h₂.nlink.trans h₁.nlink,
      low := fun b hb => (h₂.low b hb).trans (h₁.low b hb) }
  · rw [Nat.max_eq_right (Nat.le_succ _)]
    refine hs.succ h₂.ne_none ?_ ?_
    · intro bn hbn
      have hbn' : slot bn ≠ slot NDIRECT := fun heq => hbn (slot_injective heq)
      rw [heq₂, update_of_ne fun hpair => hbn' (congrArg Prod.snd hpair), heq₁,
        update_of_ne fun hpair => slot_ne _ (congrArg Prod.snd hpair)]
    · rw [heq₂, update_of_ne hslot.symm, heq₁, update_self]
      exact iff_of_true (Option.some_ne_none _) (Nat.lt_succ_self _)
  · rw [Nat.max_eq_right (Nat.le_succ _), hcost, hfree₂, hfree₁]
    omega
  · rw [heq₂, update_self] at hx
    cases hx
    exact .inr hfree₂

/-- The indirect block was there already. -/
lemma Placed.of_ensured {k fbn x : Nat} (h : Placed u i din₁ files N fbn t din' x)
    (h₁ : Ensured s i din files k u din₁) (hfree : u.freeblock = s.freeblock) :
    Placed s i din files N fbn t din' x where
  view := h.view
  slots := h.slots
  block := h.block
  free := by rw [h.free, hfree]
  last := by
    rw [← hfree]
    exact h.last
  freeinode := h.freeinode.trans h₁.freeinode
  type := h.type.trans h₁.type
  nlink := h.nlink.trans h₁.nlink
  low b hb := (h.low b hb).trans (h₁.low b hb)

lemma slot_of_lt {bn : Nat} (h : bn < NDIRECT) : slot bn = bn := if_pos h

lemma slot_of_le {bn : Nat} (h : NDIRECT ≤ bn) : slot bn = NDIRECT + 1 + (bn - NDIRECT) := by
  rw [slot, if_neg (Nat.not_lt.mpr h)]
  omega

lemma fileBlock_ends (h : View s i din files) (hs : Slots (ptrs s i din) i N) {fbn : Nat} (hfbn : fbn ≤ N)
    (hmax : fbn < MAXFILE) (hfree : s.freeblock ≤ FSSIZE) :
    Ends (fileBlock din fbn) s (fun _ => FSSIZE + cost N < s.freeblock + cost (max N (fbn + 1)))
      fun r t => Placed s i din files N fbn t r.1 r.2 := by
  apply Ends.ite
  · intro hlt
    apply Ends.andThen (ensureAddr_ends h (Nat.le_of_lt hlt) hfree)
    intro din' t hE
    apply Ends.pure
    have hptr : ptrs t i din' (i, fbn) = target (din'.addr fbn) := by
      rw [hE.view.ptrs_self, ptr_of_le (Nat.le_of_lt hlt)]
    have hx : ptrs t i din' (i, fbn) = some (din'.addr fbn).toNat := by
      rw [hptr, target_eq_some]
      exact ⟨fun hzero => hE.ne_none (by rw [hptr, hzero, target_zero]), rfl⟩
    have hslot := slot_of_lt hlt
    rw [← hslot] at hE
    refine hE.placed (by rw [hslot, hx]) hs hfbn ?_
    omega
  · intro hge
    have hge := Nat.le_of_not_lt hge
    apply Ends.andThen (ensureAddr_ends h (Nat.le_refl _) hfree)
    intro din₁ u hE
    have hind := hE.view.indirect
    have ha : ptrs u i din₁ (i, NDIRECT) = some (din₁.addr NDIRECT).toNat := by
      rw [← hind, target_eq_some]
      exact ⟨fun hzero => hE.ne_none (by rw [← hind, hzero, target_zero]), rfl⟩
    have hlt := (hE.view.core.range _ _ ha).2
    have hk : fbn - NDIRECT < NINDIRECT := by
      have hdef : MAXFILE = NDIRECT + NINDIRECT := rfl
      omega
    apply Ends.bind ((ensureEntry_ends hE.view ha hk ?_).imp ?_ fun _ _ hq => hq)
    · rintro x t ⟨hE', hx⟩
      apply Ends.pure
      rw [← slot_of_le hge] at hE' hx
      obtain ⟨hne, heq, hfree'⟩ | ⟨hnone, -⟩ := hE.ptrs
      · rw [← heq] at hs
        have hN : NDIRECT < N := hs.indirect.mp (by rwa [heq])
        exact (hE'.placed hx hs hfbn (by omega)).of_ensured hE hfree'
      · obtain rfl : fbn = NDIRECT := by
          have hN : ¬ NDIRECT < N := fun hlt => hs.indirect.mpr hlt hnone
          omega
        obtain rfl : N = NDIRECT := by
          have hN : ¬ NDIRECT < N := fun hlt => hs.indirect.mpr hlt hnone
          omega
        exact hE.placed_first hE' hx hs
    · intro hlt'
      obtain hfree' | hfree' := hE.last ha <;> omega
    · intro _ hfull
      obtain ⟨-, -, hfree'⟩ | ⟨hnone, -, hfree'⟩ := hE.ptrs
      · omega
      · have hN : ¬ NDIRECT < N := fun hlt => hs.indirect.mpr hlt hnone
        obtain rfl : N = fbn := by omega
        obtain rfl : N = NDIRECT := by omega
        have hcost : cost (max NDIRECT (NDIRECT + 1)) = cost NDIRECT + 2 := by decide
        omega

/-! ### The loop of `iappend` -/

/-- The first `n` bytes of a buffer. -/
def taken (p : Nat → Byte) (n : Nat) : List Byte := (List.range n).map p

lemma length_taken (p : Nat → Byte) (n : Nat) : (taken p n).length = n := by
  rw [taken, length_map, length_range]

lemma taken_add (p : Nat → Byte) (m n : Nat) : taken p (m + n) = taken p m ++ taken (fun j => p (m + j)) n := by
  rw [taken, taken, taken, range_add, map_append, map_map]
  rfl

lemma getD_append_taken (l : List Byte) (p : Nat → Byte) (m k : Nat) :
    (l ++ taken p m).getD k 0 =
      if l.length ≤ k ∧ k < l.length + m then p (k - l.length) else l.getD k 0 := by
  rcases Nat.lt_or_ge k l.length with hlt | hge
  · rw [getD_append _ _ _ _ hlt, if_neg (by omega)]
  · rw [getD_append_right _ _ _ _ hge]
    by_cases hin : k < l.length + m
    · rw [if_pos ⟨hge, hin⟩, getD_eq_getElem _ _ (by rw [length_taken]; omega)]
      simp [taken]
    · rw [if_neg fun hand => hin hand.2, getD_eq_default _ _ (by rw [length_taken]; omega),
        getD_eq_default _ _ hge]

/-- The blocks for the bytes up to the end of what one round copies. -/
lemma nblocks_add_span {off n : Nat} (hn : n ≠ 0) :
    nblocks (off + span off n) = max (nblocks off) (off / BSIZE + 1) := by
  have hpos := span_pos off hn
  have hfits := span_fits off n
  have hdiv := Nat.div_add_mod off BSIZE
  have hB : BSIZE = 512 := rfl
  rw [hB] at hfits hdiv
  rw [nblocks, nblocks, hB]
  omega

lemma div_le_nblocks (off : Nat) : off / BSIZE ≤ nblocks off := by
  have hB : BSIZE = 512 := rfl
  rw [nblocks, hB]
  omega

lemma nblocks_mono {m n : Nat} (h : m ≤ n) : nblocks m ≤ nblocks n :=
  Nat.div_le_div_right (by omega)

/-- `n` more bytes fit into a file of `off` bytes and into the image. -/
def Fits (F off n : Nat) : Prop :=
  off + n ≤ MAXFILE * BSIZE ∧ F + cost (nblocks (off + n)) ≤ FSSIZE + cost (nblocks off)

/-- From `s` to `t`, `data` has been appended to file `i`. -/
structure Appended (s : State) (i : Nat) (din : Dinode) (files : Nat → List Byte) (data : List Byte)
    (t : State) (din' : Dinode) : Prop where
  view : View t i din' (Function.update files i (files i ++ data))
  slots : Slots (ptrs t i din') i (nblocks ((files i).length + data.length))
  free : t.freeblock ≤ FSSIZE ∧
    t.freeblock + cost (nblocks (files i).length) =
      s.freeblock + cost (nblocks ((files i).length + data.length))
  length : (files i).length + data.length ≤ MAXFILE * BSIZE
  freeinode : t.freeinode = s.freeinode
  type : din'.type = din.type
  nlink : din'.nlink = din.nlink
  low : ∀ b < nmeta, t.image b = s.image b

/-- The bytes are copied into the block. -/
lemma Placed.appended {x n : Nat}
    (h : Placed s i din files (nblocks (files i).length) ((files i).length / BSIZE) t din' x) (hn : n ≠ 0)
    (hmax : (files i).length / BSIZE < MAXFILE) (hfree : s.freeblock ≤ FSSIZE) (hx : x < FSSIZE) :
    Appended s i din files (taken p (span (files i).length n))
      { t with
        image := setBlock t.image x
          ((t.image x).overwrite ((files i).length % BSIZE) (span (files i).length n) p) } din' := by
  have hlo := (h.view.core.range _ x h.block).1
  have hmeta : sb.bmapstart ≤ x := by
    have hlt : sb.bmapstart ≤ nmeta := by decide
    omega
  have hptrs : ∀ data, ptrs { t with image := setBlock t.image x data } i din' = ptrs t i din' := by
    intro data
    apply refs_congr
    · intro j hj
      rw [update_apply, update_apply, dinodes_setBlock sb_wf hmeta _ hj]
      exact ⟨rfl, rfl⟩
    · intro j a ha
      apply update_of_ne
      rintro rfl
      exact slot_ne _ (congrArg Prod.snd (h.view.core.once _ _ a h.block ha))
  have hlen := length_taken p (span (files i).length n)
  refine
    { view := ⟨h.view.inum, h.view.type, h.view.free, ?_, ?_⟩, slots := ?_, free := ⟨?_, ?_⟩, length := ?_,
      freeinode := h.freeinode, type := h.type, nlink := h.nlink, low := ?_ }
  · rw [hptrs]
    have hcore := h.view.core.write (m := span (files i).length n) (p := p) h.block (span_fits _ _)
    refine ⟨hcore.once, hcore.range, hcore.onto, hcore.zero, fun j k => ?_⟩
    rw [hcore.bytes]
    by_cases hj : j = i
    · subst hj
      rw [update_self, getD_append_taken]
      simp only [true_and]
    · rw [update_of_ne hj, if_neg fun hand => hj hand.1]
  · intro j hj
    rw [hptrs, update_of_ne hj]
    exact h.view.others j hj
  · rw [hptrs, hlen, nblocks_add_span hn]
    exact h.slots
  · obtain hsame | hnew := h.last
    · exact hsame ▸ hfree
    · exact hnew ▸ hx
  · rw [hlen, nblocks_add_span hn]
    exact h.free
  · have hfits := span_fits (files i).length n
    have hdiv := Nat.div_add_mod (files i).length BSIZE
    have hmul : BSIZE * ((files i).length / BSIZE + 1) ≤ BSIZE * MAXFILE := Nat.mul_le_mul_left _ hmax
    rw [hlen, Nat.mul_comm MAXFILE]
    rw [Nat.mul_succ] at hmul
    omega
  · intro b hb
    exact (update_of_ne (by omega) ..).trans (h.low b hb)

lemma Appended.refl (h : View s i din files) (hs : Slots (ptrs s i din) i (nblocks (files i).length))
    (hfree : s.freeblock ≤ FSSIZE) (hlen : (files i).length ≤ MAXFILE * BSIZE) :
    Appended s i din files [] s din where
  view := by
    rw [append_nil, update_eq_self]
    exact h
  slots := hs
  free := ⟨hfree, rfl⟩
  length := hlen
  freeinode := rfl
  type := rfl
  nlink := rfl
  low _ _ := rfl

lemma Appended.trans {d₁ d₂ : List Byte} (h₁ : Appended s i din files d₁ u din₁)
    (h₂ : Appended u i din₁ (update files i (files i ++ d₁)) d₂ t din') :
    Appended s i din files (d₁ ++ d₂) t din' := by
  obtain ⟨hview, hslots, ⟨hle, hfree⟩, hlength, hinode, htype, hnlink, hlow⟩ := h₂
  rw [update_self, update_idem, append_assoc] at hview
  rw [update_self, length_append] at hslots hfree hlength
  have hsum : (d₁ ++ d₂).length = d₁.length + d₂.length := length_append
  have hfree₁ := h₁.free.2
  refine
    { view := hview, slots := ?_, free := ⟨hle, ?_⟩, length := ?_, freeinode := hinode.trans h₁.freeinode,
      type := htype.trans h₁.type, nlink := hnlink.trans h₁.nlink, low := fun b hb => (hlow b hb).trans (h₁.low b hb) }
  · rwa [hsum, ← Nat.add_assoc]
  · rw [hsum, ← Nat.add_assoc]
    omega
  · omega

lemma assert_ends {c : Bool} {E : Exit → Prop} (hE : c = false → E .assertion) :
    Ends (assert c) s E fun _ t => c = true ∧ t = s := by
  cases c with
  | true => exact ⟨rfl, rfl⟩
  | false => exact hE rfl

lemma appendLoop_ends (fuel : Nat) : ∀ {s : State} {din : Dinode} {files : Nat → List Byte} (p : Nat → Byte)
    (n : Nat), View s i din files → Slots (ptrs s i din) i (nblocks (files i).length) →
    s.freeblock ≤ FSSIZE → (files i).length ≤ MAXFILE * BSIZE → n ≤ fuel →
    Ends (appendLoop fuel din p (files i).length n) s (fun _ => ¬ Fits s.freeblock (files i).length n)
      fun r t => r.2 = (files i).length + n ∧ Appended s i din files (taken p n) t r.1 := by
  induction fuel with
  | zero =>
    intro s din files p n h hs hfree hlen hn
    obtain rfl := Nat.le_zero.mp hn
    exact ⟨rfl, .refl h hs hfree hlen⟩
  | succ fuel ih =>
    intro s din files p n h hs hfree hlen hn
    apply Ends.ite
    · rintro rfl
      exact ⟨rfl, .refl h hs hfree hlen⟩
    · intro hne
      have hpos := span_pos (files i).length hne
      have hle := span_le (files i).length n
      have hcost := cost_mono (nblocks_mono (Nat.add_le_add_left hle (files i).length))
      apply Ends.bind (assert_ends ?_)
      · rintro _ _ ⟨hmax, rfl⟩
        have hmax := of_decide_eq_true hmax
        apply Ends.bind ((fileBlock_ends h hs (div_le_nblocks _) hmax hfree).imp ?_ fun _ _ hq => hq)
        · rintro ⟨din', x⟩ t hP
          have hx := (hP.view.core.range _ x hP.block).2
          apply Ends.bind (rsect_ends.imp ?_ fun _ _ hq => hq)
          · rintro buf u ⟨hlt, rfl, rfl⟩
            have hA := hP.appended (p := p) hne hmax hfree hlt
            apply Ends.bind (Ends.modify (Q := fun _ t => t = _) rfl)
            rintro _ _ rfl
            have hlen' : (update files i (files i ++ taken p (span (files i).length n)) i).length =
                (files i).length + span (files i).length n := by
              rw [update_self, length_append, length_taken]
            have hslots := hA.slots
            have hfree' := hA.free
            have hlength := hA.length
            rw [length_taken] at hslots hfree' hlength
            have hrest := ih (fun j => p (span (files i).length n + j)) (n - span (files i).length n) hA.view
              (by rwa [hlen']) hfree'.1 (by rwa [hlen']) (by omega)
            rw [hlen', Nat.add_assoc, Nat.add_sub_cancel' hle] at hrest
            refine hrest.imp ?_ ?_
            · rintro _ hno ⟨hmax', hfits⟩
              apply hno
              rw [Fits, Nat.add_assoc, Nat.add_sub_cancel' hle]
              exact ⟨hmax', by omega⟩
            · rintro r v ⟨hr, hA'⟩
              refine ⟨hr, ?_⟩
              have hall := taken_add p (span (files i).length n) (n - span (files i).length n)
              rw [Nat.add_sub_cancel' hle] at hall
              rw [hall]
              exact hA.trans hA'
          · rintro _ hfull ⟨-, hfits⟩
            have hfree' := hP.free
            rw [← nblocks_add_span hne] at hfree'
            omega
        · rintro _ hfull ⟨-, hfits⟩
          rw [← nblocks_add_span hne] at hfull
          omega
      · rintro hno ⟨hmax, -⟩
        have hge := Nat.le_of_not_lt (of_decide_eq_false hno)
        have hmul := (Nat.le_div_iff_mul_le (by decide)).mp hge
        omega

end Xv6.Mkfs
