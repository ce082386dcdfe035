import Mathlib.Data.List.Perm.Lattice
import Xv6.Fs.Bcache
import Xv6.Machine.RefCount

/-!
# The buffers of the cache

The buffers stay in one circular list, a block has at most one buffer that is valid or referenced, and
`refcnt` counts the processes that use a buffer.

At boot every buffer has device 0 and block 0, so more than one buffer may have the numbers of that
block. They are not valid and not referenced, and `bget` takes the first match: what has to be kept is
that the buffer in use comes before the others in the list.
-/

namespace Xv6.Bcache

open Machine Function List
open Log (Block)
open Ide (ProcId BufId Buf Disk)

variable {s s' : State} {h : Hist} {l : Label} {q q' : ProcId} {i j : BufId} {b : Buf} {x : Pc}
  {dev blockno : Word} {data : Block} {buf : BufId → Buf} {refcnt : BufId → Nat} {k : Links Ptr}
  {ids before after : List BufId} {pc : ProcId → Pc} {t : BufId → Bool}

/-! ### The list -/

def Live (buf : BufId → Buf) (refcnt : BufId → Nat) (i : BufId) : Prop :=
  (buf i).valid = true ∨ refcnt i ≠ 0

def SameBlock (b c : Buf) : Prop := b.dev = c.dev ∧ b.blockno = c.blockno

lemma sameBlock_update (hsame : SameBlock b (buf i)) (j : BufId) :
    SameBlock (update buf i b j) (buf j) := by
  by_cases hji : j = i
  · subst hji
    rwa [update_self]
  · rw [update_of_ne hji]
    exact ⟨rfl, rfl⟩

/-- The buffers in the order of the list. -/
structure RingInv (k : Links Ptr) (buf : BufId → Buf) (refcnt : BufId → Nat) (ids : List BufId) :
    Prop where
  perm : ids.Perm (List.range NBUF)
  circle : k.Circle .head (ids.map .buf)
  /-- of the buffers with the same block only the first can be in use -/
  first : ids.Pairwise fun i j => SameBlock (buf i) (buf j) → ¬ Live buf refcnt j
  range : ∀ i, Live buf refcnt i → i < NBUF

section

variable (hinv : RingInv k buf refcnt ids)

include hinv

lemma RingInv.mem : i ∈ ids ↔ i < NBUF := by
  rw [hinv.perm.mem_iff, mem_range]

lemma RingInv.nodup : ids.Nodup :=
  hinv.perm.nodup_iff.mpr nodup_range

/-- At most one buffer of a block is in use. -/
lemma RingInv.unique (hi : Live buf refcnt i)
    (hj : Live buf refcnt j) (hsame : SameBlock (buf i) (buf j)) : i = j := by
  obtain ⟨before, after, rfl⟩ := append_of_mem (hinv.mem.mpr (hinv.range i hi))
  have hfirst := hinv.first
  rw [pairwise_append, pairwise_cons] at hfirst
  obtain ⟨_, ⟨hia, _⟩, hba⟩ := hfirst
  rcases mem_append.mp (hinv.mem.mpr (hinv.range j hj)) with hmem | hmem
  · exact absurd hi (hba j hmem i mem_cons_self ⟨hsame.1.symm, hsame.2.symm⟩)
  · rcases mem_cons.mp hmem with rfl | hmem
    · rfl
    · exact absurd hj (hia j hmem hsame)

/-- Fewer buffers are in use, with the same blocks. -/
lemma RingInv.mono {buf' : BufId → Buf} {refcnt' : BufId → Nat} (hsame : ∀ i, SameBlock (buf' i) (buf i))
    (hlive : ∀ i, Live buf' refcnt' i → Live buf refcnt i) : RingInv k buf' refcnt' ids where
  perm := hinv.perm
  circle := hinv.circle
  first := hinv.first.imp fun {i j} hpair hij hj =>
    hpair ⟨(hsame i).1.symm.trans (hij.1.trans (hsame j).1),
      (hsame i).2.symm.trans (hij.2.trans (hsame j).2)⟩ (hlive j hj)
  range := fun i hi => hinv.range i (hlive i hi)

/-- The loops of `bget` end. -/
lemma RingInv.scan_next (t : BufId → Bool) :
    scan k.next .head (test t) (NBUF + 1) (k.next .head) = some (ids.find? t) := by
  have hlen : (ids.map Ptr.buf).length < NBUF + 1 := by
    rw [length_map, hinv.perm.length_eq, length_range]
    exact Nat.lt_succ_self NBUF
  rw [hinv.circle.next.scan (nodup_cons.mp hinv.circle.nodup).1 hlen, List.findSome?_map,
    List.find?_eq_findSome?_guard]
  rfl

lemma RingInv.scan_prev (t : BufId → Bool) :
    scan k.prev .head (test t) (NBUF + 1) (k.prev .head) = some (ids.reverse.find? t) := by
  have hlen : (ids.map Ptr.buf).reverse.length < NBUF + 1 := by
    rw [length_reverse, length_map, hinv.perm.length_eq, length_range]
    exact Nat.lt_succ_self NBUF
  rw [hinv.circle.prev.scan (nodup_cons.mp hinv.circle.flip.nodup).1 hlen, ← map_reverse,
    List.findSome?_map, List.find?_eq_findSome?_guard]
  rfl

end

lemma live_update_refcnt {n : Nat} (hj : Live buf (update refcnt i n) j) : j = i ∨ Live buf refcnt j := by
  by_cases hji : j = i
  · exact .inl hji
  · rw [Live, update_of_ne hji] at hj
    exact .inr hj

lemma live_update_buf (hj : Live (update buf i b) refcnt j) : j = i ∨ Live buf refcnt j := by
  by_cases hji : j = i
  · exact .inl hji
  · rw [Live, update_of_ne hji] at hj
    exact .inr hj

/-- `bget` takes the first match. -/
lemma RingInv.hit (hinv : RingInv k buf refcnt ids)
    (hfind : ids.find? (fun i => (buf i).dev = dev && (buf i).blockno = blockno) = some i) (n : Nat) :
    RingInv k buf (update refcnt i n) ids := by
  obtain ⟨hi, before, after, rfl, hbefore⟩ := List.find?_eq_some_iff_append.mp hfind
  simp only [Bool.and_eq_true, decide_eq_true_eq] at hi
  have hfirst := hinv.first
  have hnd := hinv.nodup
  rw [pairwise_append, pairwise_cons] at hfirst
  rw [nodup_append, nodup_cons] at hnd
  obtain ⟨hb, ⟨hia, ha⟩, hba⟩ := hfirst
  refine ⟨hinv.perm, hinv.circle, ?_, fun j hj => ?_⟩
  · rw [pairwise_append, pairwise_cons]
    refine ⟨hb.imp_of_mem ?_, ⟨?_, ha.imp_of_mem ?_⟩, ?_⟩
    · intro j m _ hm hpair hsame hlive
      rcases live_update_refcnt hlive with rfl | hlive
      · exact hnd.2.2 _ hm _ mem_cons_self rfl
      · exact hpair hsame hlive
    · intro m hm hsame hlive
      rcases live_update_refcnt hlive with rfl | hlive
      · exact hnd.2.1.1 hm
      · exact hia m hm hsame hlive
    · intro j m _ hm hpair hsame hlive
      rcases live_update_refcnt hlive with rfl | hlive
      · exact hnd.2.1.1 hm
      · exact hpair hsame hlive
    · intro j hj m hm hsame hlive
      rcases live_update_refcnt hlive with rfl | hlive
      · -- a buffer before the first match is for another block
        have hne := hbefore j hj
        rw [hsame.1, hsame.2, hi.1, hi.2] at hne
        simp at hne
      · exact hba j hj m hm hsame hlive
  · rcases live_update_refcnt hj with rfl | hj
    · exact hinv.mem.mp (mem_append_right _ mem_cons_self)
    · exact hinv.range j hj

/-- A buffer gets the numbers of a block that no buffer has. -/
lemma RingInv.recycle (hinv : RingInv k buf refcnt ids) (hi : i ∈ ids)
    (hnone : ∀ j ∈ ids, ¬ ((buf j).dev = b.dev ∧ (buf j).blockno = b.blockno)) (n : Nat) :
    RingInv k (update buf i b) (update refcnt i n) ids := by
  refine ⟨hinv.perm, hinv.circle, ?_, fun j hj => ?_⟩
  · have hnd := hinv.nodup
    refine (hinv.first.and hnd).imp_of_mem ?_
    rintro j m hj hm ⟨hpair, hne⟩ hsame hlive
    by_cases hji : j = i
    · subst hji
      rw [update_self, update_of_ne (Ne.symm hne)] at hsame
      exact hnone m hm ⟨hsame.1.symm, hsame.2.symm⟩
    · rw [update_of_ne hji] at hsame
      by_cases hmi : m = i
      · subst hmi
        rw [update_self] at hsame
        exact hnone j hj hsame
      · rw [update_of_ne hmi] at hsame
        rw [Live, update_of_ne hmi, update_of_ne hmi] at hlive
        exact hpair hsame hlive
  · by_cases hji : j = i
    · subst hji
      exact hinv.mem.mp hi
    · rw [Live, update_of_ne hji, update_of_ne hji] at hj
      exact hinv.range j hj

/-- A buffer in use is moved to the head of the list. -/
lemma RingInv.toFront (hinv : RingInv k buf refcnt ids) (hi : Live buf refcnt i) :
    ∃ ids, RingInv ((k.unlink (.buf i)).linkAfter .head (.buf i)) buf refcnt ids := by
  obtain ⟨before, after, rfl⟩ := append_of_mem (hinv.mem.mpr (hinv.range i hi))
  have hmap : (before ++ i :: after).map Ptr.buf = before.map .buf ++ .buf i :: after.map .buf := by
    rw [map_append, map_cons]
  have hcircle := hinv.circle
  have hnd := hinv.nodup
  rw [hmap] at hcircle
  have hout : i ∉ before ++ after := by
    rw [nodup_middle, nodup_cons] at hnd
    exact hnd.1
  refine ⟨i :: (before ++ after), perm_middle.symm.trans hinv.perm, ?_, ?_, hinv.range⟩
  · rw [map_cons, map_append]
    refine hcircle.unlink.linkAfter ?_
    rw [← map_append, mem_cons, mem_map]
    rintro (hhead | ⟨j, hj, heq⟩)
    · cases hhead
    · cases heq
      exact hout hj
  · rw [pairwise_cons]
    refine ⟨fun j hj hsame hlive => ?_, hinv.first.sublist ?_⟩
    · obtain rfl := hinv.unique hi hlive hsame
      exact hout hj
    · exact (sublist_cons_self i after).append_left before

lemma circle_binitLoop (n : Nat) :
    (binitLoop ⟨fun _ => .head, fun _ => .head⟩ n).Circle .head ((List.range n).reverse.map .buf) := by
  induction n with
  | zero => exact ⟨rfl, rfl, nodup_singleton _⟩
  | succ n ih =>
    rw [range_succ, reverse_append, reverse_singleton, singleton_append, map_cons]
    refine ih.linkAfter ?_
    rw [mem_cons, mem_map]
    rintro (hhead | ⟨j, hj, heq⟩)
    · cases hhead
    · cases heq
      rw [mem_reverse, mem_range] at hj
      exact Nat.lt_irrefl n hj

lemma ringInv_boot (disk : Nat → Disk) (havedisk1 : Bool) :
    RingInv (boot disk havedisk1).links (boot disk havedisk1).ide.buf (boot disk havedisk1).refcnt
      (List.range NBUF).reverse := by
  have hlive : ∀ i, ¬ Live (boot disk havedisk1).ide.buf (boot disk havedisk1).refcnt i := by
    rintro i (hvalid | hrefcnt)
    · cases hvalid
    · exact hrefcnt rfl
  exact ⟨reverse_perm _, circle_binitLoop NBUF,
    pairwise_iff_forall_sublist.mpr fun _ _ h => hlive _ h, fun i hi => absurd hi (hlive i)⟩

/-! ### The reference counts -/

/-- The buffer that a process refers to without its sleep-lock. -/
def Pc.pins : Pc → Option BufId
  | .locking _ _ i | .releasing i => some i
  | .user | .checking .. | .reading .. | .returned .. | .writing _ => none

/-- `refcnt` counts these processes and the holder of the sleep-lock. -/
def RefInv (buf : BufId → Buf) (refcnt : BufId → Nat) (pc : ProcId → Pc) : Prop :=
  ∀ i, ∃ n, RefCount (fun q => (pc q).pins) i n ∧
    refcnt i = n + if (buf i).lock = none then 0 else 1

lemma pins_update (pc : ProcId → Pc) (q : ProcId) (x : Pc) :
    (fun q' => (update pc q x q').pins) = update (fun q' => (pc q').pins) q x.pins :=
  Function.comp_update Pc.pins pc q x

lemma RefInv.pinned (hinv : RefInv buf refcnt pc) (hq : (pc q).pins = some i) : refcnt i ≠ 0 := by
  obtain ⟨n, hcount, hn⟩ := hinv i
  have hpos := hcount.pos hq
  omega

lemma RefInv.locked (hinv : RefInv buf refcnt pc) (hlock : (buf i).lock = some q) : refcnt i ≠ 0 := by
  obtain ⟨n, _, hn⟩ := hinv i
  rw [hlock, if_neg (by intro h; cases h)] at hn
  omega

/-- The lock of a buffer changes with the count. -/
lemma RefInv.setLock {n : Nat} (hinv : RefInv buf (update refcnt i n) pc)
    (hn : refcnt i + (if (buf i).lock = none then 0 else 1) = n + if b.lock = none then 0 else 1) :
    RefInv (update buf i b) refcnt pc := by
  intro j
  obtain ⟨m, hcount, hm⟩ := hinv j
  refine ⟨m, hcount, ?_⟩
  by_cases hji : j = i
  · subst hji
    rw [update_self] at hm ⊢
    omega
  · rwa [update_of_ne hji] at hm ⊢

section

variable (hinv : RefInv buf refcnt pc)

include hinv

lemma RefInv.setBuf (hb : b.lock = (buf i).lock) : RefInv (update buf i b) refcnt pc := by
  refine RefInv.setLock (n := refcnt i) ?_ (by rw [hb])
  rwa [update_eq_self]

lemma RefInv.setPc (hx : x.pins = (pc q).pins) : RefInv buf refcnt (update pc q x) := by
  intro i
  rw [pins_update, hx, update_eq_self q (fun q' => (pc q').pins)]
  exact hinv i

lemma RefInv.take (hq : (pc q).pins = none) (hx : x.pins = some i) :
    RefInv buf (update refcnt i (refcnt i + 1)) (update pc q x) := by
  intro j
  obtain ⟨n, hcount, hn⟩ := hinv j
  rw [pins_update, hx]
  have hne : (pc q).pins ≠ some j := by
    rw [hq]
    exact (Option.some_ne_none j).symm
  by_cases hji : j = i
  · subst hji
    refine ⟨n + 1, hcount.take hne, ?_⟩
    rw [update_self, hn, Nat.add_right_comm]
  · rw [update_of_ne hji]
    exact ⟨n, hcount.other hne fun heq => hji (Option.some.inj heq).symm, hn⟩

lemma RefInv.drop (hq : (pc q).pins = some i) (hx : x.pins = none) :
    RefInv buf (update refcnt i (refcnt i - 1)) (update pc q x) := by
  intro j
  obtain ⟨n, hcount, hn⟩ := hinv j
  rw [pins_update, hx]
  have hne : none ≠ some j := (Option.some_ne_none j).symm
  by_cases hji : j = i
  · subst hji
    have hpos := hcount.pos hq
    obtain ⟨n, rfl⟩ := Nat.exists_eq_succ_of_ne_zero (Nat.ne_of_gt hpos)
    refine ⟨n, hcount.drop hq hne, ?_⟩
    rw [update_self, hn]
    omega
  · rw [update_of_ne hji]
    refine ⟨n, hcount.other ?_ hne, hn⟩
    rw [hq]
    exact fun heq => hji (Option.some.inj heq).symm

/-- The reference of a process becomes that of the holder. -/
lemma RefInv.lock (hq : (pc q).pins = some i) (hx : x.pins = none) (hlock : (buf i).lock = none)
    (hb : b.lock ≠ none) : RefInv (update buf i b) refcnt (update pc q x) := by
  have hpos := hinv.pinned hq
  refine (hinv.drop hq hx).setLock ?_
  rw [if_pos hlock, if_neg hb]
  omega

lemma RefInv.unlock (hq : (pc q).pins = none) (hx : x.pins = some i) (hlock : (buf i).lock ≠ none)
    (hb : b.lock = none) : RefInv (update buf i b) refcnt (update pc q x) := by
  refine (hinv.take hq hx).setLock ?_
  rw [if_neg hlock, if_pos hb]

end

lemma refInv_boot (disk : Nat → Disk) (havedisk1 : Bool) :
    RefInv (boot disk havedisk1).ide.buf (boot disk havedisk1).refcnt (boot disk havedisk1).pc :=
  fun _ => ⟨0, refCount_none, rfl⟩

end Xv6.Bcache
