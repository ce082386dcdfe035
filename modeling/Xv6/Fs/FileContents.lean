import Xv6.Fs.FileBytes
import Xv6.Machine.Run

/-!
# Files are byte arrays

What `readi` and `writei` do to the contents of files. In a sound file system every inode has its blocks for
itself, no block is missing below the size, and the valid entries of the inode cache agree with the disk.
`writei` replaces the bytes that it is given and keeps the file system sound; where a block is missing it
needs a free one, and without one it panics.
-/

namespace Xv6.Blocks

open Machine Function List
open BitVec (lt_def toNat_add)
open Log (Block BSIZE)

namespace State

/-- The pointers of the inodes on the disk. -/
def blocks (s : State) : Nat × Nat → Option Nat := Blocks.refs s.sb s.disk (dinodes s.sb s.disk)

def fileByte (s : State) (i k : Nat) : Byte := byteOfFile s.disk s.blocks i k

def fileSize (s : State) (i : Nat) : Nat := (dinodes s.sb s.disk i).size.toNat

def contents (s : State) (i : Nat) : List Byte := (List.range (s.fileSize i)).map (s.fileByte i)

def Allocated (s : State) (i : Nat) : Prop :=
  i < s.sb.ninodes ∧ (dinodes s.sb s.disk i).type ≠ 0

/-- The entry refers to an inode that has been read. -/
def Cached (s : State) (e : EntryId) : Prop := 0 < (s.icache e).ref ∧ (s.icache e).valid = true

structure Sound (s : State) : Prop where
  wf : s.sb.Wf
  owned : Owned s.sb s.used s.blocks
  full : ∀ i, s.Allocated i → ∀ k < s.fileSize i, s.blocks (i, slot (k / BSIZE)) ≠ none
  entries : ∀ e, 0 < (s.icache e).ref → e < NINODE ∧ (s.icache e).inum < s.sb.ninodes
  once : ∀ e e', 0 < (s.icache e).ref → 0 < (s.icache e').ref →
    (s.icache e).inum = (s.icache e').inum → e = e'
  cached : ∀ e, s.Cached e →
    (s.icache e).din = dinodes s.sb s.disk (s.icache e).inum ∧ (s.icache e).din.type ≠ 0

/-- A sound file system, but for blocks that may be missing below the size of a file. -/
structure Coherent (s : State) : Prop where
  wf : s.sb.Wf
  owned : Owned s.sb s.used s.blocks
  entries : ∀ e, 0 < (s.icache e).ref → e < NINODE ∧ (s.icache e).inum < s.sb.ninodes
  once : ∀ e e', 0 < (s.icache e).ref → 0 < (s.icache e').ref →
    (s.icache e).inum = (s.icache e').inum → e = e'
  cached : ∀ e, s.Cached e →
    (s.icache e).din = dinodes s.sb s.disk (s.icache e).inum ∧ (s.icache e).din.type ≠ 0

end State

variable {s t u : State} {e : EntryId} {src : Nat → Byte} {i k : Nat} {off n : Word} {K : Nat → Prop}

namespace State.Coherent

section

variable (h : s.Coherent)

include h

section

variable (he : s.Cached e)

include he

lemma view_eq : s.view e = dinodes s.sb s.disk := by
  rw [State.view, (h.cached e he).1, update_eq_self]

lemma refs_eq : s.refs e = s.blocks := by
  rw [State.refs, h.view_eq he, State.blocks]

lemma byteAt_eq : s.byteAt e i k = s.fileByte i k := by
  rw [State.byteAt, h.refs_eq he, State.fileByte]

lemma ready : s.Ready e where
  wf := h.wf
  inum := (h.entries e he.1).2
  alloc := (h.cached e he).2
  owned := by
    rw [h.refs_eq he]
    exact h.owned

lemma allocated : s.Allocated (s.icache e).inum := by
  refine ⟨(h.entries e he.1).2, ?_⟩
  rw [← (h.cached e he).1]
  exact (h.cached e he).2

lemma size_eq :
    (s.icache e).din.size.toNat = s.fileSize (s.icache e).inum := by
  rw [(h.cached e he).1, State.fileSize]

end

end

end State.Coherent

namespace State.Sound

lemma coherent (h : s.Sound) : s.Coherent := ⟨h.wf, h.owned, h.entries, h.once, h.cached⟩

lemma of_coherent (h : s.Coherent)
    (hfull : ∀ i, s.Allocated i → ∀ k < s.fileSize i, s.blocks (i, slot (k / BSIZE)) ≠ none) : s.Sound :=
  ⟨h.wf, h.owned, hfull, h.entries, h.once, h.cached⟩

/-- A file has at most `MAXFILE` blocks. -/
lemma size_le (h : s.Sound) (hi : s.Allocated i) : s.fileSize i ≤ MAXFILE * BSIZE := by
  by_contra hlarge
  obtain ⟨b, hb⟩ := Option.ne_none_iff_exists'.mp (h.full i hi (MAXFILE * BSIZE) (by omega))
  have hslot : ¬ slot (MAXFILE * BSIZE / BSIZE) < NDIRECT + 1 + NINDIRECT := by decide
  exact hslot (lt_of_ptr_eq_some (refs_eq_some.mp hb).2)

end State.Sound

/-! ### `readi` -/

/-- The sum of two words is smaller than the first just if it overflows. -/
lemma add_lt_iff (off n : Word) : off + n < off ↔ 0x100000000 ≤ off.toNat + n.toNat := by
  rw [lt_def, toNat_add]
  omega

lemma toNat_add_of_not_lt (h : ¬ off + n < off) : (off + n).toNat = off.toNat + n.toNat := by
  rw [add_lt_iff] at h
  rw [toNat_add]
  omega

/-- What reading from a byte array gives. -/
def readBytes (data : List Byte) (off n : Nat) : Option (List Byte) :=
  if data.length < off ∨ 0x100000000 ≤ off + n then none else some ((data.drop off).take n)

lemma length_contents (s : State) (i : Nat) : (s.contents i).length = s.fileSize i := by
  rw [State.contents, length_map, length_range]

lemma getElem_contents (hk : k < (s.contents i).length) : (s.contents i)[k] = s.fileByte i k := by
  simp [State.contents]

/-- How many bytes `readi` copies. -/
lemma toNat_readCount {size : Word} (hoff : ¬ size < off) (hsum : ¬ off + n < off) :
    (if size < off + n then size - off else n).toNat = min n.toNat (size.toNat - off.toNat) := by
  have hsumNat := toNat_add_of_not_lt hsum
  rw [lt_def] at hoff
  split_ifs with hlong
  · rw [lt_def, hsumNat] at hlong
    rw [BitVec.toNat_sub_of_le (Nat.le_of_not_lt hoff)]
    omega
  · rw [lt_def, hsumNat] at hlong
    omega

/-- The bytes that the loop collects are a part of the contents. -/
lemma map_fileByte_range (s : State) (i o m c : Nat) (hc : c = min m (s.fileSize i - o)) :
    ((List.range c).map fun j => s.fileByte i (o + j)) = ((s.contents i).drop o).take m := by
  apply ext_getElem
  · simp only [length_map, length_range, length_take, length_drop, length_contents]
    exact hc
  · intro j hj hj'
    simp only [getElem_map, getElem_range, getElem_take, getElem_drop, getElem_contents]

/-- `readi` of a part of a file whose blocks are there. -/
lemma readi_ends_of_present (h : s.Coherent) (he : s.Cached e) (hdev : (s.icache e).din.type ≠ T_DEV)
    (off n : Word)
    (hblocks : ∀ k < s.fileSize (s.icache e).inum, off.toNat ≤ k → k < off.toNat + n.toNat →
      s.blocks ((s.icache e).inum, slot (k / BSIZE)) ≠ none) :
    Ends (readi e off n) s (fun _ => False) fun r t =>
      t = s ∧ r = readBytes (s.contents (s.icache e).inum) off.toNat n.toNat := by
  have hreject : ((s.icache e).din.size < off ∨ off + n < off) ↔
      (s.contents (s.icache e).inum).length < off.toNat ∨ 0x100000000 ≤ off.toNat + n.toNat := by
    rw [add_lt_iff, lt_def, h.size_eq he, length_contents]
  apply Ends.get_bind
  rw [if_neg hdev]
  apply Ends.ite
  · intro hno
    rw [readBytes, if_pos (hreject.mp hno)]
    exact ⟨rfl, rfl⟩
  · intro hyes
    rw [readBytes, if_neg fun hc => hyes (hreject.mpr hc)]
    have hcount := toNat_readCount (not_or.mp hyes).1 (not_or.mp hyes).2
    rw [h.size_eq he] at hcount
    have hrefs : ∀ j < (if (s.icache e).din.size < off + n then (s.icache e).din.size - off
        else n).toNat,
        s.refs e ((s.icache e).inum, slot ((off.toNat + j) / BSIZE)) ≠ none := by
      intro j hj
      rw [h.refs_eq he]
      exact hblocks _ (by omega) (Nat.le_add_right ..) (by omega)
    apply Ends.bind (readLoop_ends _ _ _ (h.ready he) (Nat.le_refl _) hrefs)
    rintro data t ⟨rfl, rfl⟩
    refine ⟨rfl, ?_⟩
    simp only [h.byteAt_eq he]
    rw [map_fileByte_range t _ _ _ _ hcount]

lemma readi_ends (h : s.Sound) (he : s.Cached e) (hdev : (s.icache e).din.type ≠ T_DEV)
    (off n : Word) : Ends (readi e off n) s (fun _ => False) fun r t =>
      t = s ∧ r = readBytes (s.contents (s.icache e).inum) off.toNat n.toNat :=
  readi_ends_of_present h.coherent he hdev off n fun k hk _ _ =>
    h.full _ (h.coherent.allocated he) k hk

/-! ### `writei` -/

/-- The offsets for which writing to a byte array is refused. -/
def Refused (size off n : Nat) : Prop :=
  size < off ∨ 0x100000000 ≤ off + n ∨ MAXFILE * BSIZE < off + n

instance (size off n : Nat) : Decidable (Refused size off n) := inferInstanceAs (Decidable (_ ∨ _ ∨ _))

/-- The tests of `writei`. -/
lemma refused_iff (size off n : Word) :
    Refused size.toNat off.toNat n.toNat ↔
      (size < off ∨ off + n < off) ∨ BitVec.ofNat 32 (MAXFILE * BSIZE) < off + n := by
  have hmax : (BitVec.ofNat 32 (MAXFILE * BSIZE)).toNat = MAXFILE * BSIZE := by decide
  rw [Refused, add_lt_iff, lt_def, lt_def, hmax, or_assoc]
  by_cases hover : 0x100000000 ≤ off.toNat + n.toNat
  · simp [hover]
  · rw [toNat_add_of_not_lt (by rwa [add_lt_iff])]

/-- A byte array with the bytes from `off` on replaced. -/
def splice (old : List Byte) (off : Nat) (new : List Byte) : List Byte :=
  old.take off ++ new ++ old.drop (off + new.length)

/-- Pointer `k` is needed for bytes `[off, off + n)`. -/
def Needs (off n k : Nat) : Prop :=
  0 < n ∧ ∃ bn, bn < MAXFILE ∧ off / BSIZE ≤ bn ∧ bn * BSIZE < off + n ∧
    (k = slot bn ∨ NDIRECT ≤ bn ∧ k = NDIRECT)

instance (off n : Nat) : DecidablePred (Needs off n) := fun _ =>
  inferInstanceAs (Decidable (_ ∧ ∃ bn, bn < MAXFILE ∧ _))

lemma covers_needs {off n bn : Nat} (hmax : off + n ≤ MAXFILE * BSIZE) (hn : 0 < n)
    (hlo : off / BSIZE ≤ bn) (hhi : bn * BSIZE < off + n) : Covers (Needs off n) bn := by
  have hlt : bn < MAXFILE := by
    have hle := Nat.lt_of_lt_of_le hhi hmax
    exact Nat.lt_of_mul_lt_mul_right hle
  exact ⟨⟨hn, bn, hlt, hlo, hhi, .inl rfl⟩, fun hle => ⟨hn, bn, hlt, hlo, hhi, .inr ⟨hle, rfl⟩⟩⟩

lemma target_injective {v w : Word} (h : target v = target w) : v = w := by
  cases hw : target w with
  | none => rw [target_eq_none.mp (h.trans hw), target_eq_none.mp hw]
  | some =>
    have hv := target_eq_some.mp (h.trans hw)
    exact BitVec.eq_of_toNat_eq (hv.2.trans (target_eq_some.mp hw).2.symm)

/-- If all the blocks were there, the inode is as it was. -/
lemma Wrote.entry_eq [DecidablePred K] {off n : Nat} (hs : s.Ready e) (h : Wrote e K src off n s t)
    (hfull : ∀ k, K k → s.refs e ((s.icache e).inum, k) ≠ none) : t.icache e = s.icache e := by
  have hrefs : ∀ k, t.refs e ((s.icache e).inum, k) = s.refs e ((s.icache e).inum, k) := by
    intro k
    cases hk : s.refs e ((s.icache e).inum, k) with
    | some c => exact h.kept _ c hk
    | none =>
      by_contra hsome
      exact hfull k (h.new _ hk hsome).2 hk
  have haddr : ∀ k ≤ NDIRECT, (t.icache e).din.addr k = (s.icache e).din.addr k := by
    intro k hk
    have hself := hrefs k
    rw [← h.inum, h.ready.refs_self, h.inum, hs.refs_self, ptr_of_le hk, ptr_of_le hk] at hself
    exact target_injective hself
  obtain ⟨addrs, heq⟩ := h.entry
  have haddrs : addrs = (s.icache e).din.addrs := by
    funext j
    have hj := haddr j.val (Nat.lt_succ_iff.mp j.isLt)
    rw [heq, Dinode.addr, Dinode.addr, dif_pos j.isLt, dif_pos j.isLt] at hj
    exact hj
  rw [heq, haddrs]

/-- A pointer that is needed has a block once all the bytes are written. -/
lemma Wrote.needs_ne_none {off n : Nat} (h : Wrote e (Needs off n) src off n s t) (hk : Needs off n k) :
    t.refs e ((t.icache e).inum, k) ≠ none := by
  obtain ⟨hn, bn, -, hlo, hhi, hk⟩ := hk
  have hslot : t.refs e ((t.icache e).inum, slot bn) ≠ none := by
    -- the first byte of block `bn` that is written
    have hbyte : max off (bn * BSIZE) / BSIZE = bn := by
      rcases Nat.le_total off (bn * BSIZE) with hle | hle
      · rw [Nat.max_eq_right hle, Nat.mul_div_cancel _ (by decide)]
      · rw [Nat.max_eq_left hle]
        exact Nat.le_antisymm hlo ((Nat.le_div_iff_mul_le (by decide)).mpr hle)
    have hin : max off (bn * BSIZE) - off < n := by omega
    have hsome := (h.written _ hin).1
    rwa [Nat.add_sub_cancel' (Nat.le_max_left _ _), hbyte, ← h.inum] at hsome
  rcases hk with rfl | ⟨hle, rfl⟩
  · exact hslot
  · exact h.ready.indirect_ne_none hle hslot

/-- There was room for what has been written. -/
lemma Wrote.room_of_done {off n : Nat} (h : Wrote e (Needs off n) src off n s t) :
    s.Room e (Needs off n) := by
  rw [← h.room, State.Room]
  have hholes : t.holes e (Needs off n) = ∅ := by
    apply Finset.filter_false_of_mem
    rintro k _ ⟨hk, hnone⟩
    exact h.needs_ne_none hk hnone
  rw [hholes, Finset.card_empty]
  exact Nat.zero_le _

/-! ### `iupdate` -/

/-- Other fields of the inode at `e`. -/
def setDin (s : State) (e : EntryId) (d : Dinode) : State := setEntry s e { s.icache e with din := d }

section SetDin

variable {d : Dinode} (hsame : Dinode.SameBlocks (s.icache e).din d) {e' : EntryId} {c : Call}

lemma setDin_entry (s : State) (e : EntryId) (d : Dinode) :
    (setDin s e d).icache e = { s.icache e with din := d } := update_self ..

lemma setDin_others (h : e' ≠ e) : (setDin s e d).icache e' = s.icache e' :=
  update_of_ne h ..

include hsame in
lemma setDin_refs : (setDin s e d).refs e = s.refs e := by
  apply refs_congr
  · intro i _
    simp only [State.view, setDin_entry, update_apply]
    split_ifs
    · exact hsame
    · exact ⟨rfl, rfl⟩
  · exact fun _ _ _ => rfl

include hsame in
lemma setDin_ready (h : s.Ready e) : (setDin s e d).Ready e where
  wf := h.wf
  inum := by
    rw [setDin_entry]
    exact h.inum
  alloc := by
    simp only [setDin_entry, hsame.1]
    exact h.alloc
  owned := by
    rw [setDin_refs hsame]
    exact h.owned

end SetDin

/-- The state after `iupdate`. -/
def updated (s : State) (e : EntryId) : State :=
  logBlock s (s.sb.IBLOCK (s.icache e).inum) fun bp =>
    putDinode bp ((s.icache e).inum % IPB) (s.icache e).din

lemma updated_dinodes (s : State) (e : EntryId) : dinodes s.sb (updated s e).disk = s.view e := by
  funext j
  have hput := dinodes_putDinode s.sb s.disk (s.icache e).inum j (s.icache e).din
  rw [State.view, update_apply]
  exact hput

/-- Only a block of inodes changes. -/
lemma updated_disk (h : s.Ready e) {c : Nat} (hc : s.sb.bmapstart ≤ c) :
    (updated s e).disk c = s.disk c := by
  have hlt := h.wf.iblock_lt h.inum
  exact update_of_ne (by omega) ..

lemma updated_used (h : s.Ready e) (c : Nat) : (updated s e).used c = s.used c := by
  rw [State.used, State.used, Blocks.used, Blocks.used]
  exact congrArg (fun bp => isUsed bp (c % BPB)) (updated_disk h (s.sb.le_bblock c))

lemma updated_blocks (h : s.Ready e) : (updated s e).blocks = s.refs e := by
  have hrefs : Blocks.refs s.sb (updated s e).disk (s.view e) = Blocks.refs s.sb s.disk (s.view e) := by
    apply refs_congr
    · intro i _
      exact ⟨rfl, rfl⟩
    · intro i a ha
      apply updated_disk h
      exact Nat.le_trans (Nat.le_of_lt s.sb.bmapstart_lt) (h.owned.data _ a ha).1
  rw [State.refs, ← hrefs, ← updated_dinodes]
  rfl

/-- The contents are those of the inodes as they are in memory. -/
lemma updated_fileByte (h : s.Ready e) (i k : Nat) : (updated s e).fileByte i k = s.byteAt e i k := by
  rw [State.fileByte, State.byteAt, updated_blocks h, byteOfFile, byteOfFile]
  cases hb : s.refs e (i, slot (k / BSIZE)) with
  | none => rfl
  | some b =>
    have hle := Nat.le_trans (Nat.le_of_lt s.sb.bmapstart_lt) (h.owned.data _ b hb).1
    simp only [updated_disk h hle]

/-- `iupdate` after the inode at `e` has got blocks or other fields. -/
lemma State.Sound.updated (h : s.Sound) (he : s.Cached e) (ht : t.Ready e) (hsb : t.sb = s.sb)
    (hothers : ∀ e', e' ≠ e → t.icache e' = s.icache e')
    (hentry : ∃ d, t.icache e = { s.icache e with din := d })
    (htable : ∀ i < s.sb.ninodes, dinodes t.sb t.disk i = dinodes s.sb s.disk i)
    (hkept : ∀ x c, s.blocks x = some c → t.refs e x = some c)
    (hfull : ∀ k < (t.icache e).din.size.toNat,
      t.refs e ((s.icache e).inum, slot (k / BSIZE)) ≠ none) : (updated t e).Sound := by
  obtain ⟨d, hd⟩ := hentry
  have hinum : (t.icache e).inum = (s.icache e).inum := by rw [hd]
  have hself : dinodes t.sb (Blocks.updated t e).disk (s.icache e).inum = (t.icache e).din := by
    rw [updated_dinodes, ← hinum, t.view_self]
  have hother : ∀ i < s.sb.ninodes, i ≠ (s.icache e).inum →
      dinodes t.sb (Blocks.updated t e).disk i = dinodes s.sb s.disk i := by
    intro i hi hne
    rw [updated_dinodes, State.view, hinum, Function.update_of_ne hne, htable i hi]
  have hblocks := updated_blocks ht
  have href : ∀ e', (t.icache e').ref = (s.icache e').ref ∧ (t.icache e').inum = (s.icache e').inum ∧
      (t.icache e').valid = (s.icache e').valid := by
    intro e'
    by_cases hee : e' = e
    · subst hee
      rw [hd]
      exact ⟨rfl, rfl, rfl⟩
    · rw [hothers e' hee]
      exact ⟨rfl, rfl, rfl⟩
  constructor
  case wf => exact ht.wf
  case owned =>
    rw [hblocks]
    exact ht.owned.congr ht.wf fun c _ => updated_used ht c
  case full =>
    intro i hi k hk
    rw [hblocks]
    by_cases hie : i = (s.icache e).inum
    · subst hie
      apply hfull k
      rw [← hself]
      exact hk
    · have hlt : i < s.sb.ninodes := by
        rw [← hsb]
        exact hi.1
      have hsame := hother i hlt hie
      have halloc : s.Allocated i := ⟨hlt, by rw [← hsame]; exact hi.2⟩
      obtain ⟨b, hb⟩ := Option.ne_none_iff_exists'.mp (h.full i halloc k (by
        rw [State.fileSize, ← hsame]
        exact hk))
      rw [hkept _ b hb]
      exact Option.some_ne_none b
  case entries =>
    intro e' he'
    obtain ⟨hr, hi, -⟩ := href e'
    have hold := h.entries e' (by rw [← hr]; exact he')
    rw [← hi, ← hsb] at hold
    exact hold
  case once =>
    intro e₁ e₂ h₁ h₂ heq
    obtain ⟨hr₁, hi₁, -⟩ := href e₁
    obtain ⟨hr₂, hi₂, -⟩ := href e₂
    exact h.once e₁ e₂ (by rw [← hr₁]; exact h₁) (by rw [← hr₂]; exact h₂) (by rw [← hi₁, ← hi₂]; exact heq)
  case cached =>
    intro e' he'
    obtain ⟨hr, hi, hv⟩ := href e'
    have hcached : s.Cached e' := ⟨by rw [← hr]; exact he'.1, by rw [← hv]; exact he'.2⟩
    by_cases hee : e' = e
    · subst hee
      refine ⟨?_, ht.alloc⟩
      exact (by rw [← hself, ← hinum] : (t.icache e').din = dinodes t.sb _ (t.icache e').inum)
    · have hne : (s.icache e').inum ≠ (s.icache e).inum := fun heq =>
        hee (h.once e' e hcached.1 he.1 heq)
      have hold := h.cached e' hcached
      rw [← hother _ (h.entries e' hcached.1).2 hne, ← hothers e' hee] at hold
      exact hold

/-- From `s` to `t`, `writei` has replaced bytes `[off, off + n)` of the file at `e`. -/
structure Stored (e : EntryId) (src : Nat → Byte) (off n : Nat) (s t : State) : Prop where
  sound : t.Sound
  sb : t.sb = s.sb
  devsw : t.devsw = s.devsw
  others : ∀ e', e' ≠ e → t.icache e' = s.icache e'
  entry : ∃ d, t.icache e = { s.icache e with din := d }
  table : ∀ i < s.sb.ninodes, i ≠ (s.icache e).inum →
    dinodes t.sb t.disk i = dinodes s.sb s.disk i
  inode : ∃ size addrs, dinodes t.sb t.disk (s.icache e).inum =
    { dinodes s.sb s.disk (s.icache e).inum with size := size, addrs := addrs }
  size : t.fileSize (s.icache e).inum = max (s.fileSize (s.icache e).inum) (off + n)
  bytes : ∀ i k, ¬ (i = (s.icache e).inum ∧ off ≤ k ∧ k < off + n) →
    t.fileByte i k = s.fileByte i k
  written : ∀ j < n, t.fileByte (s.icache e).inum (off + j) = src j

/-- The file becomes larger. -/
lemma stored_of_grow [DecidablePred K] (h : s.Sound) (he : s.Cached e)
    (hw : Wrote e K src off.toNat n.toNat s t) (hoff : off.toNat ≤ s.fileSize (s.icache e).inum)
    (hsum : (off + n).toNat = off.toNat + n.toNat)
    (hgrow : s.fileSize (s.icache e).inum < off.toNat + n.toNat) :
    Stored e src off.toNat n.toNat s
      (updated (setDin t e { (t.icache e).din with size := off + n }) e) := by
  set d : Dinode := { (t.icache e).din with size := off + n }
  have hsame : Dinode.SameBlocks (t.icache e).din d := ⟨rfl, rfl⟩
  have hrefs := setDin_refs hsame
  have hready := setDin_ready hsame hw.ready
  have hentry := setDin_entry t e d
  have hbyte : ∀ i k, (updated (setDin t e d) e).fileByte i k = t.byteAt e i k := by
    intro i k
    rw [updated_fileByte hready, State.byteAt, State.byteAt, hrefs]
    rfl
  have hself : dinodes t.sb (updated (setDin t e d) e).disk (s.icache e).inum = d := by
    have hview := congrFun (updated_dinodes (setDin t e d) e) (s.icache e).inum
    rw [State.view, hentry, hw.inum, update_self] at hview
    exact hview
  have hothers : ∀ e', e' ≠ e → (setDin t e d).icache e' = s.icache e' := fun e' hne =>
    (setDin_others hne).trans (hw.others e' hne)
  obtain ⟨addrs, hfields⟩ := hw.entry
  have hcached : ∃ d', (setDin t e d).icache e = { s.icache e with din := d' } :=
    ⟨_, by rw [hentry, hfields]⟩
  constructor
  case sound =>
    apply h.updated he hready hw.sb hothers hcached hw.dinodes
    · intro x c hx
      rw [hrefs]
      apply hw.kept
      rw [h.coherent.refs_eq he]
      exact hx
    · intro k hk
      rw [hrefs]
      rw [hentry, hsum] at hk
      by_cases hold : k < s.fileSize (s.icache e).inum
      · obtain ⟨b, hb⟩ := Option.ne_none_iff_exists'.mp (h.full _ (h.coherent.allocated he) k hold)
        rw [hw.kept _ b (by rw [h.coherent.refs_eq he]; exact hb)]
        exact Option.some_ne_none b
      · -- the file had no byte here, so it has been written
        have hsome := (hw.written (k - off.toNat) (by omega)).1
        rwa [Nat.add_sub_cancel' (by omega)] at hsome
  case sb => exact hw.sb
  case devsw => exact hw.devsw
  case others => exact hothers
  case entry => exact hcached
  case table =>
    intro i hi hne
    have hview := congrFun (updated_dinodes (setDin t e d) e) i
    rw [State.view, hentry, hw.inum, update_of_ne hne] at hview
    exact hview.trans (hw.dinodes i hi)
  case inode =>
    refine ⟨off + n, addrs, hself.trans ?_⟩
    subst d
    rw [hfields, (h.cached e he).1]
  case size =>
    refine (congrArg (fun d => d.size.toNat) hself).trans ?_
    rw [hsum]
    omega
  case bytes =>
    intro i k hk
    rw [hbyte, hw.bytes i k hk, h.coherent.byteAt_eq he]
  case written =>
    intro j hj
    rw [hbyte, (hw.written j hj).2]

/-- The file keeps its size; all the blocks were there. -/
lemma stored_of_keep (h : s.Sound) (he : s.Cached e) {off n : Nat}
    (hw : Wrote e (Needs off n) src off n s t) (hfits : off + n ≤ s.fileSize (s.icache e).inum) :
    Stored e src off n s t := by
  have hentry : t.icache e = s.icache e := by
    apply hw.entry_eq (h.coherent.ready he)
    rintro k ⟨-, bn, -, hlo, hhi, hk⟩
    have hslot : s.refs e ((s.icache e).inum, slot bn) ≠ none := by
      have hfull := h.full _ (h.coherent.allocated he) (bn * BSIZE) (by omega)
      rwa [Nat.mul_div_cancel _ (show 0 < BSIZE by decide), ← h.coherent.refs_eq he] at hfull
    rcases hk with rfl | ⟨hle, rfl⟩
    · exact hslot
    · exact (h.coherent.ready he).indirect_ne_none hle hslot
  have hcache : t.icache = s.icache := by
    funext e'
    by_cases hee : e' = e
    · rw [hee, hentry]
    · exact hw.others e' hee
  have hsize : ∀ i < s.sb.ninodes, t.fileSize i = s.fileSize i := by
    intro i hi
    rw [State.fileSize, State.fileSize, hw.dinodes i hi]
  have hinum := (h.entries e he.1).2
  have hblocks : t.blocks = t.refs e := by
    have hview : dinodes t.sb t.disk (t.icache e).inum = (t.icache e).din := by
      rw [hentry, hw.dinodes _ hinum, (h.cached e he).1]
    rw [State.blocks, State.refs, State.view, ← hview, update_eq_self]
  have hbyte : ∀ i k, t.fileByte i k = t.byteAt e i k := by
    intro i k
    rw [State.fileByte, State.byteAt, hblocks]
  constructor
  case sound =>
    constructor
    case wf => exact hw.ready.wf
    case owned =>
      rw [hblocks]
      exact hw.ready.owned
    case full =>
      intro i hi k hk
      have hlt : i < s.sb.ninodes := by
        rw [← hw.sb]
        exact hi.1
      have halloc : s.Allocated i := ⟨hlt, by rw [← hw.dinodes i hlt]; exact hi.2⟩
      obtain ⟨b, hb⟩ := Option.ne_none_iff_exists'.mp (h.full i halloc k (by
        rw [← hsize i hlt]
        exact hk))
      rw [hblocks, hw.kept _ b (by rw [h.coherent.refs_eq he]; exact hb)]
      exact Option.some_ne_none b
    case entries =>
      rw [hcache, hw.sb]
      exact h.entries
    case once =>
      rw [hcache]
      exact h.once
    case cached =>
      intro e' he'
      have hold : s.Cached e' := by
        rw [State.Cached, hcache] at he'
        exact he'
      rw [hcache, hw.dinodes _ (h.entries e' hold.1).2]
      exact h.cached e' hold
  case sb => exact hw.sb
  case devsw => exact hw.devsw
  case others => exact hw.others
  case entry => exact ⟨_, hentry⟩
  case table => exact fun i hi _ => hw.dinodes i hi
  case inode => exact ⟨_, _, hw.dinodes _ hinum⟩
  case size =>
    rw [hsize _ hinum]
    omega
  case bytes =>
    intro i k hk
    rw [hbyte, hw.bytes i k hk, h.coherent.byteAt_eq he]
  case written =>
    intro j hj
    rw [hbyte, (hw.written j hj).2]

/-- `writei` refuses, or it stores all the bytes if there is room. -/
lemma writei_ends (h : s.Sound) (he : s.Cached e) (hdev : (s.icache e).din.type ≠ T_DEV)
    (src : Nat → Byte) (off n : Word) :
    Ends (writei e src off n) s
      (fun err => err = .outOfBlocks ∧
        ¬ Refused (s.fileSize (s.icache e).inum) off.toNat n.toNat ∧
        ¬ s.Room e (Needs off.toNat n.toNat))
      fun r t =>
        (Refused (s.fileSize (s.icache e).inum) off.toNat n.toNat ∧ r = none ∧ t = s) ∨
        (¬ Refused (s.fileSize (s.icache e).inum) off.toNat n.toNat ∧ r = some n ∧
          s.Room e (Needs off.toNat n.toNat) ∧ Stored e src off.toNat n.toNat s t) := by
  have hsize := h.coherent.size_eq he
  have hiff := refused_iff (s.icache e).din.size off n
  rw [hsize] at hiff
  apply Ends.get_bind
  rw [if_neg hdev]
  apply Ends.ite
  · intro hno
    exact .inl ⟨hiff.mpr (.inl hno), rfl, rfl⟩
  · intro hyes
    apply Ends.ite
    · intro hno
      exact .inl ⟨hiff.mpr (.inr hno), rfl, rfl⟩
    · intro hmax
      have hok : ¬ Refused (s.fileSize (s.icache e).inum) off.toNat n.toNat := by
        rw [hiff]
        exact not_or.mpr ⟨hyes, hmax⟩
      have hsum := toNat_add_of_not_lt (not_or.mp hyes).2
      have htests := hok
      simp only [Refused, not_or, Nat.not_lt] at htests
      have hloop := writeLoop_ends (K := Needs off.toNat n.toNat) n.toNat src off.toNat n.toNat
        (h.coherent.ready he) (Nat.le_refl _) htests.2.2 fun hn bn => covers_needs htests.2.2 hn
      apply Ends.bind (hloop.imp (fun err herr => ⟨herr.1, hok, herr.2⟩) fun _ _ hq => hq)
      intro _ t hw
      have hroom := hw.room_of_done
      apply Ends.get_bind
      apply Ends.ite
      · rintro ⟨-, hgrow⟩
        rw [hw.size, lt_def, hsize, hsum] at hgrow
        exact .inr ⟨hok, rfl, hroom, stored_of_grow h he hw htests.1 hsum hgrow⟩
      · intro hkeep
        refine .inr ⟨hok, rfl, hroom, stored_of_keep h he hw ?_⟩
        rw [hw.size, lt_def, lt_def, hsize, hsum] at hkeep
        have hzero : (0 : Word).toNat = 0 := rfl
        omega

/-- The three outcomes of `writei`. -/
lemma writei_cases (h : s.Sound) (he : s.Cached e) (hdev : (s.icache e).din.type ≠ T_DEV)
    (src : Nat → Byte) (off n : Word) :
    (Refused (s.fileSize (s.icache e).inum) off.toNat n.toNat ∧ writei e src off n s = .ok (none, s)) ∨
    (¬ Refused (s.fileSize (s.icache e).inum) off.toNat n.toNat ∧
      s.Room e (Needs off.toNat n.toNat) ∧
      ∃ t, writei e src off n s = .ok (some n, t) ∧ Stored e src off.toNat n.toNat s t) ∨
    (¬ Refused (s.fileSize (s.icache e).inum) off.toNat n.toNat ∧
      ¬ s.Room e (Needs off.toNat n.toNat) ∧ writei e src off n s = .error .outOfBlocks) := by
  have hends := writei_ends h he hdev src off n
  rw [Ends] at hends
  cases hw : writei e src off n s with
  | error =>
    rw [hw] at hends
    exact .inr (.inr ⟨hends.2.1, hends.2.2, by rw [hends.1]⟩)
  | ok x =>
    rw [hw] at hends
    rcases hends with ⟨hno, hr, ht⟩ | ⟨hyes, hr, hroom, hst⟩
    · exact .inl ⟨hno, by rw [← hr, ← ht]⟩
    · exact .inr (.inl ⟨hyes, hroom, x.2, by rw [← hr], hst⟩)

/-! ### Contents -/

lemma length_splice (old : List Byte) {off : Nat} (new : List Byte) (hoff : off ≤ old.length) :
    (splice old off new).length = max old.length (off + new.length) := by
  simp only [splice, length_append, length_take, length_drop]
  omega

lemma getElem_splice (old new : List Byte) {off k : Nat} (hoff : off ≤ old.length)
    (hk : k < (splice old off new).length) :
    (splice old off new)[k] =
      if h : off ≤ k ∧ k - off < new.length then new[k - off] else old.getD k 0 := by
  simp only [splice, append_assoc]
  by_cases hlow : k < off
  · have hnot : ¬ (off ≤ k ∧ k - off < new.length) := by omega
    rw [dif_neg hnot, getElem_append_left (by simp; omega), getElem_take]
    exact getElem_eq_getD 0
  · rw [getElem_append_right (by simp; omega)]
    have htake : (old.take off).length = off := by simp; omega
    simp only [htake]
    by_cases hmid : k - off < new.length
    · rw [dif_pos ⟨by omega, hmid⟩, getElem_append_left hmid]
    · have hnot : ¬ (off ≤ k ∧ k - off < new.length) := by omega
      have hidx : off + new.length + (k - off - new.length) = k := by omega
      rw [dif_neg hnot, getElem_append_right (by omega), getElem_drop]
      simp only [hidx]
      exact getElem_eq_getD 0

/-- The written file is the old one with the bytes replaced. -/
lemma Stored.contents_self {off n : Nat} (h : Stored e src off n s t)
    (hoff : off ≤ s.fileSize (s.icache e).inum) :
    t.contents (s.icache e).inum = splice (s.contents (s.icache e).inum) off ((List.range n).map src) := by
  have hlen := length_contents s (s.icache e).inum
  apply ext_getElem
  · rw [length_contents, h.size, length_splice _ _ (by omega), hlen, length_map, length_range]
  · intro k hk hk'
    rw [getElem_contents, getElem_splice _ _ (by omega)]
    rw [length_contents, h.size] at hk
    split_ifs with hin
    · rw [length_map, length_range] at hin
      have hwritten := h.written (k - off) hin.2
      rw [Nat.add_sub_cancel' hin.1] at hwritten
      rw [hwritten, getElem_map, getElem_range]
    · rw [length_map, length_range] at hin
      have hold : k < (s.contents (s.icache e).inum).length := by omega
      rw [h.bytes _ _ (by omega), ← getElem_contents hold]
      exact getElem_eq_getD 0

/-- The other files are as they were. -/
lemma Stored.contents_other {off n : Nat} (h : Stored e src off n s t) (hi : i < s.sb.ninodes)
    (hne : i ≠ (s.icache e).inum) : t.contents i = s.contents i := by
  have hsize : t.fileSize i = s.fileSize i := by
    rw [State.fileSize, State.fileSize, h.table i hi hne]
  rw [State.contents, State.contents, hsize]
  apply map_congr_left
  intro k _
  exact h.bytes i k fun hin => hne hin.1

/-! ### The inode cache -/

/-- A change of the cache that keeps the inodes of the valid entries. -/
lemma State.Coherent.setEntry (h : s.Coherent) {x : Inode}
    (hx : 0 < x.ref → e < NINODE ∧ x.inum < s.sb.ninodes)
    (honce : 0 < x.ref → ∀ e', e' ≠ e → 0 < (s.icache e').ref → (s.icache e').inum ≠ x.inum)
    (hcached : 0 < x.ref → x.valid = true →
      x.din = dinodes s.sb s.disk x.inum ∧ x.din.type ≠ 0) : (setEntry s e x).Coherent := by
  have hself : (Blocks.setEntry s e x).icache e = x := update_self ..
  have hother : ∀ e', e' ≠ e → (Blocks.setEntry s e x).icache e' = s.icache e' := fun e' hne =>
    update_of_ne hne ..
  refine ⟨h.wf, h.owned, ?_, ?_, ?_⟩
  · intro e' he'
    by_cases hee : e' = e
    · subst hee
      rw [hself] at he' ⊢
      exact hx he'
    · rw [hother e' hee] at he' ⊢
      exact h.entries e' he'
  · intro e₁ e₂ h₁ h₂ heq
    by_cases he₁ : e₁ = e
    · subst he₁
      by_cases he₂ : e₂ = e₁
      · exact he₂.symm
      · rw [hself] at h₁ heq
        rw [hother e₂ he₂] at h₂ heq
        exact absurd heq.symm (honce h₁ e₂ he₂ h₂)
    · rw [hother e₁ he₁] at h₁ heq
      by_cases he₂ : e₂ = e
      · subst he₂
        rw [hself] at h₂ heq
        exact absurd heq (honce h₂ e₁ he₁ h₁)
      · rw [hother e₂ he₂] at h₂ heq
        exact h.once e₁ e₂ h₁ h₂ heq
  · intro e' he'
    by_cases hee : e' = e
    · subst hee
      rw [State.Cached, hself] at he'
      rw [hself]
      exact hcached he'.1 he'.2
    · rw [State.Cached, hother e' hee] at he'
      rw [hother e' hee]
      exact h.cached e' he'

/-- `iget` finds the entry of the inode, or takes an unused one. -/
inductive Got (s : State) (i : Nat) : EntryId → State → Prop
  | found {e : EntryId} (href : 0 < (s.icache e).ref) (hinum : (s.icache e).inum = i) :
    Got s i e (setEntry s e { s.icache e with ref := (s.icache e).ref + 1 })
  | recycled {e : EntryId} (he : e < NINODE) (href : (s.icache e).ref = 0)
    (hnew : ∀ e' < NINODE, 0 < (s.icache e').ref → (s.icache e').inum ≠ i) :
    Got s i e (setEntry s e { s.icache e with inum := i, ref := 1, valid := false })

lemma iget_ends (s : State) (i : Nat) :
    Ends (iget i) s (fun _ => ∀ e < NINODE, (s.icache e).ref ≠ 0) (Got s i) := by
  apply Ends.get_bind
  cases hfind : (List.range NINODE).find? fun e => 0 < (s.icache e).ref ∧ (s.icache e).inum = i with
  | some e =>
    obtain ⟨href, hinum⟩ : 0 < (s.icache e).ref ∧ (s.icache e).inum = i := by
      simpa using List.find?_some hfind
    exact Got.found href hinum
  | none =>
    have hnew : ∀ e' < NINODE, 0 < (s.icache e').ref → (s.icache e').inum ≠ i := by
      intro e' he' href hinum
      have hno := List.find?_eq_none.mp hfind e' (mem_range.mpr he')
      simp [href, hinum] at hno
    cases hempty : (List.range NINODE).find? fun e => (s.icache e).ref = 0 with
    | none =>
      apply Ends.throw
      intro e he href
      have hno := List.find?_eq_none.mp hempty e (mem_range.mpr he)
      simp [href] at hno
    | some e =>
      have href : (s.icache e).ref = 0 := by simpa using List.find?_some hempty
      exact Got.recycled (mem_range.mp (mem_of_find?_eq_some hempty)) href hnew

lemma State.Coherent.got (h : s.Coherent) (hi : i < s.sb.ninodes) (hg : Got s i e t) : t.Coherent := by
  cases hg with
  | found href =>
    apply h.setEntry
    · exact fun _ => h.entries e href
    · intro _ e' hne href' heq
      exact hne (h.once e' e href' href heq)
    · exact fun _ hvalid => h.cached e ⟨href, hvalid⟩
  | recycled he href hnew =>
    apply h.setEntry
    · exact fun _ => ⟨he, hi⟩
    · intro _ e' _ href'
      exact hnew e' (h.entries e' href').1 href'
    · intro _ hvalid
      cases hvalid

lemma Got.entry (hg : Got s i e t) : 0 < (t.icache e).ref ∧ (t.icache e).inum = i := by
  cases hg with
  | found href hinum => simp [setEntry, hinum]
  | recycled => simp [setEntry]

lemma Got.of_ne (hg : Got s i e t) (hne : e' ≠ e) : t.icache e' = s.icache e' := by
  cases hg with
  | found | recycled => exact update_of_ne hne ..

/-- An entry in use for another inode is not the one that `iget` returns. -/
lemma Got.ne_of_inum (hg : Got s i e t) (href : 0 < (s.icache e').ref) (hinum : (s.icache e').inum ≠ i) :
    e' ≠ e := by
  rintro rfl
  cases hg with
  | found _ heq => exact hinum heq
  | recycled _ hzero => exact Nat.ne_of_gt href hzero

/-- The disk is as it was. -/
lemma Got.disk_eq (hg : Got s i e t) : t.sb = s.sb ∧ t.disk = s.disk := by
  cases hg with
  | found => exact ⟨rfl, rfl⟩
  | recycled => exact ⟨rfl, rfl⟩

/-- Nothing is missing below the size of a file when the disk is as it was. -/
lemma State.Sound.of_disk_eq (h : s.Sound) (ht : t.Coherent) (hdisk : t.sb = s.sb ∧ t.disk = s.disk) :
    t.Sound := by
  refine .of_coherent ht ?_
  have hfull := h.full
  simp only [State.Allocated, State.fileSize, State.blocks] at hfull ⊢
  rw [hdisk.1, hdisk.2]
  exact hfull

/-- `ilock` reads an allocated inode. -/
lemma ilock_ends (h : s.Coherent) (e : EntryId) :
    Ends (ilock e) s
      (fun _ => (s.icache e).ref = 0 ∨ (dinodes s.sb s.disk (s.icache e).inum).type = 0) fun _ t =>
      t.Coherent ∧ t.Cached e ∧
      (t = s ∨ (s.icache e).valid = false ∧ t = setEntry s e
        { s.icache e with din := dinodes s.sb s.disk (s.icache e).inum, valid := true }) := by
  apply Ends.get_bind
  apply Ends.ite
  · intro href
    exact Ends.throw (.inl (Nat.lt_one_iff.mp href))
  · intro href
    have href : 0 < (s.icache e).ref := Nat.le_of_not_lt href
    apply Ends.ite
    · intro hvalid
      exact ⟨h, ⟨href, hvalid⟩, .inl rfl⟩
    · intro hvalid
      apply Ends.bind (Ends.modify (Q := fun _ t => t = _) rfl)
      rintro _ t rfl
      apply Ends.ite
      · intro htype
        exact Ends.throw (.inr htype)
      · intro htype
        refine ⟨?_, ?_, .inr ⟨by simpa using hvalid, rfl⟩⟩
        · apply h.setEntry
          · exact fun _ => h.entries e href
          · intro _ e' hne href' heq
            exact hne (h.once e' e href' href heq)
          · exact fun _ _ => ⟨rfl, htype⟩
        · rw [State.Cached]
          simp only [setEntry, update_self]
          exact ⟨href, trivial⟩

/-- `iput` will free the inode. -/
def Frees (s : State) (e : EntryId) : Prop :=
  (s.icache e).valid ∧ (s.icache e).din.nlink = 0 ∧ (s.icache e).ref = 1

instance (s : State) (e : EntryId) : Decidable (Frees s e) := inferInstanceAs (Decidable (_ ∧ _ ∧ _))

/-- One reference fewer. -/
def dropped (s : State) (e : EntryId) : State :=
  setEntry s e { s.icache e with ref := (s.icache e).ref - 1 }

lemma iput_of_not_frees (h : ¬ Frees s e) : iput e s = .ok ((), dropped s e) := by
  have hfree : ifree e s = .ok ((), s) := by
    change (if Frees s e then _ else pure () : Op Unit) s = _
    rw [if_neg h]
    rfl
  change (ifree e s >>= _) = _
  rw [hfree]
  rfl

lemma State.Coherent.dropped (h : s.Coherent) (e : EntryId) : (dropped s e).Coherent := by
  have hpos : 0 < (s.icache e).ref - 1 → 0 < (s.icache e).ref := fun hlt =>
    Nat.lt_of_lt_of_le hlt (Nat.sub_le _ _)
  apply h.setEntry
  · exact fun href => h.entries e (hpos href)
  · intro href e' hne href' heq
    exact hne (h.once e' e href' (hpos href) heq)
  · exact fun href hvalid => h.cached e ⟨hpos href, hvalid⟩

/-! ### Sequences of calls -/

/-- A call of `readi` or `writei`, or one that looks up an inode or lets it go. -/
inductive Call
  | iget (i : Nat)
  | ilock (e : EntryId)
  | iput (e : EntryId)
  | readi (e : EntryId) (off n : Word)
  | writei (e : EntryId) (src : Nat → Byte) (off n : Word)

def Call.run : Call → Op Unit
  | .iget i => do
    let _ ← Blocks.iget i
  | .ilock e => Blocks.ilock e
  | .iput e => Blocks.iput e
  | .readi e off n => do
    let _ ← Blocks.readi e off n
  | .writei e src off n => do
    let _ ← Blocks.writei e src off n

/-- The callers read and write inodes that they have locked. Only inodes of the table are looked up, and
    no file is removed. -/
def Call.Allowed (s : State) : Call → Prop
  | .iget i => i < s.sb.ninodes
  | .ilock _ => True
  | .iput e => ¬ Frees s e
  | .readi e _ _ => s.Cached e ∧ (s.icache e).din.type ≠ T_DEV
  | .writei e _ _ _ => s.Cached e ∧ (s.icache e).din.type ≠ T_DEV

def step (s : State) (c : Call) : Option State :=
  match c.run s with
  | .ok (_, t) => some t
  | .error _ => none

lemma step_eq_some : step s c = some t ↔ c.run s = .ok ((), t) := by
  rw [step]
  cases hrun : c.run s with
  | error => simp
  | ok => simp [Prod.ext_iff]

/-- A call leaves the disk alone or writes to a file. -/
lemma State.Sound.step_cases (h : s.Sound) (hc : c.Allowed s) (hstep : step s c = some t) :
    (t.Coherent ∧ t.sb = s.sb ∧ t.disk = s.disk) ∨
      ∃ e src off n, c = .writei e src off n ∧ Stored e src off.toNat n.toNat s t := by
  rw [step_eq_some] at hstep
  suffices hends : Ends c.run s (fun _ => True) fun _ t => (t.Coherent ∧ t.sb = s.sb ∧ t.disk = s.disk) ∨
      ∃ e src off n, c = .writei e src off n ∧ Stored e src off.toNat n.toNat s t from hends.of_ok hstep
  cases c with
  | iget i =>
    apply Ends.bind ((iget_ends s i).imp (fun _ _ => trivial) fun _ _ hg =>
      And.intro (h.coherent.got hc hg) hg.disk_eq)
    exact fun _ _ ht => .inl ht
  | ilock e =>
    refine (ilock_ends h.coherent e).imp (fun _ _ => trivial) ?_
    rintro _ t ⟨ht, -, rfl | ⟨-, rfl⟩⟩
    · exact .inl ⟨ht, rfl, rfl⟩
    · exact .inl ⟨ht, rfl, rfl⟩
  | iput e =>
    change Ends (iput e) s _ _
    rw [Ends, iput_of_not_frees hc]
    exact .inl ⟨h.coherent.dropped e, rfl, rfl⟩
  | readi e off n =>
    apply Ends.andThen (readi_ends h hc.1 hc.2 off n)
    rintro _ _ ⟨rfl, -⟩
    exact .inl ⟨h.coherent, rfl, rfl⟩
  | writei e src off n =>
    apply Ends.bind ((writei_ends h hc.1 hc.2 src off n).imp (fun _ _ => trivial) fun _ _ hq => hq)
    rintro _ t (⟨-, -, rfl⟩ | ⟨-, -, -, hst⟩)
    · exact .inl ⟨h.coherent, rfl, rfl⟩
    · exact .inr ⟨e, src, off, n, rfl, hst⟩

lemma State.Sound.step (h : s.Sound) (hc : c.Allowed s) (hstep : step s c = some t) : t.Sound := by
  rcases h.step_cases hc hstep with ⟨ht, hdisk⟩ | ⟨e, src, off, n, -, hst⟩
  · exact h.of_disk_eq ht hdisk
  · exact hst.sound

def emptyFile : Dinode := { Dinode.zero with type := T_FILE, nlink := 1 }

/-- Four blocks: the boot block, a block of inodes, the bitmap and one data block. -/
def tinySb : Superblock := ⟨4, 1, 2, 0, 1, 1, 2⟩

lemma tinySb_wf : tinySb.Wf := ⟨by decide, by decide, by decide⟩

/-- A disk with one empty file, which is open, and a bitmap that starts with `bits`. -/
def tinyDisk (bits : Byte) : State where
  sb := tinySb
  disk b := if b = 1 then putDinode (fun _ => 0) 1 emptyFile else if b = 2 then fun _ => bits else fun _ => 0
  logged := []
  icache e := if e = 0 then ⟨1, 1, true, emptyFile⟩ else ⟨0, 0, false, Dinode.zero⟩
  devsw _ := none

/-- A disk with one inode, which is open, and a bitmap that starts with `bits`. -/
def oneInode (d : Dinode) (bits : Byte) : State where
  sb := tinySb
  disk b := if b = 1 then putDinode (fun _ => 0) 1 d else if b = 2 then fun _ => bits else fun _ => 0
  logged := []
  icache e := if e = 0 then ⟨1, 1, true, d⟩ else ⟨0, 0, false, Dinode.zero⟩
  devsw _ := none

section OneInode

variable {d : Dinode} {bits : Byte}

lemma oneInode_dinodes_one (d : Dinode) (bits : Byte) : dinodes tinySb (oneInode d bits).disk 1 = d :=
  getDinode_putDinode_self _ _ (by decide)

lemma oneInode_allocated (hi : i < tinySb.ninodes)
    (ht : (dinodes tinySb (oneInode d bits).disk i).type ≠ 0) : i = 1 := by
  have hlt : i < 2 := hi
  have hzero : (dinodes tinySb (oneInode d bits).disk 0).type = 0 :=
    congrArg Dinode.type (getDinode_putDinode_of_ne _ _ (by decide))
  have hne : i ≠ 0 := by
    rintro rfl
    exact ht hzero
  omega

lemma oneInode_blocks (haddr : ∀ k, d.addr k = 0) (bits : Byte) :
    (oneInode d bits).blocks = fun _ => none := by
  funext ⟨i, k⟩
  change refs tinySb _ _ (i, k) = none
  rw [refs]
  split_ifs with h
  · obtain rfl := oneInode_allocated h.1 h.2
    have hptr : ptr (oneInode d bits).disk d k = none := by
      rw [ptr, haddr, haddr, target_zero]
      exact ite_self none
    change ptr (oneInode d bits).disk (dinodes tinySb (oneInode d bits).disk 1) k = none
    rw [oneInode_dinodes_one]
    exact hptr
  · rfl

/-- The file system is sound if the inode has no blocks. -/
lemma oneInode_sound (htype : d.type ≠ 0) (haddr : ∀ k, d.addr k = 0) (hsize : d.size = 0)
    (hbits : ∀ b < tinySb.datastart, (oneInode d bits).used b = true) : (oneInode d bits).Sound := by
  have hentry : ∀ e, 0 < ((oneInode d bits).icache e).ref → e = 0 := by
    intro e he
    by_contra hne
    simp [oneInode, hne] at he
  constructor
  case wf => exact tinySb_wf
  case owned =>
    rw [oneInode_blocks haddr]
    refine ⟨exclusive_none, ?_, ?_, hbits⟩
    · intro x b hx
      cases hx
    · intro x b hx
      cases hx
  case full =>
    intro i hi k hk
    obtain rfl := oneInode_allocated hi.1 hi.2
    have hzero : (oneInode d bits).fileSize 1 = 0 := by
      rw [State.fileSize, show (oneInode d bits).sb = tinySb from rfl, oneInode_dinodes_one, hsize]
      rfl
    rw [hzero] at hk
    exact absurd hk (Nat.not_lt_zero k)
  case entries =>
    intro e he
    obtain rfl := hentry e he
    exact ⟨by decide, (by decide : 1 < tinySb.ninodes)⟩
  case once =>
    intro e e' he he' _
    rw [hentry e he, hentry e' he']
  case cached =>
    intro e he
    obtain rfl := hentry e he.1
    exact ⟨(oneInode_dinodes_one d bits).symm, htype⟩

end OneInode

lemma tinyDisk_dinodes_one (bits : Byte) : dinodes tinySb (tinyDisk bits).disk 1 = emptyFile :=
  oneInode_dinodes_one emptyFile bits

lemma tinyDisk_sound {bits : Byte} (hbits : ∀ b < tinySb.datastart, (tinyDisk bits).used b = true) :
    (tinyDisk bits).Sound :=
  oneInode_sound (d := emptyFile) (by decide) (fun k => by simp [Dinode.addr, emptyFile, Dinode.zero]) rfl hbits

end Xv6.Blocks
