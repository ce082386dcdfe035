import Mathlib.Data.Finset.Card
import Mathlib.Data.Finset.Range
import Xv6.Fs.Ownership

/-!
# The bytes of files

`bmap`, `readi` and `writei` in terms of the bytes of files. A byte without a block counts as zero, so that
`balloc`, which clears the block, changes no byte. What the loop of `writei` has done so far is one
relation between the state before and the state now, and the loop goes on by transitivity.
-/

namespace Xv6.Blocks

open Machine Function List
open Log (Block BSIZE)

/-- How many pointers an inode has. -/
def NPTR : Nat := NDIRECT + 1 + NINDIRECT

namespace State

/-- The inodes, with the one at `e` as its copy in memory. -/
def view (s : State) (e : EntryId) : Nat → Dinode :=
  Function.update (dinodes s.sb s.disk) (s.icache e).inum (s.icache e).din

def refs (s : State) (e : EntryId) : Nat × Nat → Option Nat := Blocks.refs s.sb s.disk (s.view e)

def used (s : State) (b : Nat) : Bool := Blocks.used s.sb s.disk b

def byteAt (s : State) (e : EntryId) (i k : Nat) : Byte := byteOfFile s.disk (s.refs e) i k

/-- The free blocks. -/
def free (s : State) : Finset Nat := (Finset.range s.sb.size).filter fun b => s.used b = false

/-- The pointers of the inode at `e` that are needed and refer to no block. -/
def holes (s : State) (e : EntryId) (K : Nat → Prop) [DecidablePred K] : Finset Nat :=
  (Finset.range NPTR).filter fun k => K k ∧ s.refs e ((s.icache e).inum, k) = none

/-- There are enough free blocks for the pointers that are needed. -/
def Room (s : State) (e : EntryId) (K : Nat → Prop) [DecidablePred K] : Prop :=
  (s.holes e K).card ≤ s.free.card

instance (s : State) (e : EntryId) (K : Nat → Prop) [DecidablePred K] : Decidable (s.Room e K) :=
  inferInstanceAs (Decidable (_ ≤ _))

/-- The inode at `e` has been read from the disk, and the blocks are owned. -/
structure Ready (s : State) (e : EntryId) : Prop where
  wf : s.sb.Wf
  inum : (s.icache e).inum < s.sb.ninodes
  alloc : (s.icache e).din.type ≠ 0
  owned : Owned s.sb s.used (s.refs e)

end State

variable {s t u : State} {e : EntryId} {K : Nat → Prop} [DecidablePred K] {src src' : Nat → Byte}
  {off m n n' k b : Nat}

lemma State.view_self (s : State) (e : EntryId) : s.view e (s.icache e).inum = (s.icache e).din :=
  update_self ..

lemma State.Ready.refs_self (h : s.Ready e) (k : Nat) :
    s.refs e ((s.icache e).inum, k) = ptr s.disk (s.icache e).din k := by
  have ht : (s.view e (s.icache e).inum).type ≠ 0 := by
    rw [s.view_self]
    exact h.alloc
  rw [State.refs, refs_of_alloc h.inum ht, s.view_self]

/-- The indirect block of the inode at `e`. -/
lemma State.Ready.indirect (h : s.Ready e) :
    target ((s.icache e).din.addr NDIRECT) = s.refs e ((s.icache e).inum, NDIRECT) := by
  rw [h.refs_self, ptr_of_le (Nat.le_refl _)]

/-- An entry is there only if the indirect block is. -/
lemma State.Ready.indirect_ne_none (h : s.Ready e) {bn : Nat} (hle : NDIRECT ≤ bn)
    (hslot : s.refs e ((s.icache e).inum, slot bn) ≠ none) :
    s.refs e ((s.icache e).inum, NDIRECT) ≠ none := by
  intro hnone
  rw [h.refs_self] at hslot
  apply hslot
  apply ptr_of_none
  · rw [h.indirect, hnone]
  · rw [slot, if_neg (Nat.not_lt_of_le hle)]
    omega

lemma State.byteAt_of_none {i : Nat} (h : s.refs e (i, slot (k / BSIZE)) = none) : s.byteAt e i k = 0 := by
  rw [State.byteAt, byteOfFile, h]

lemma State.byteAt_of_some {i : Nat} (h : s.refs e (i, slot (k / BSIZE)) = some b) :
    s.byteAt e i k = (s.disk b).byte (k % BSIZE) := by
  rw [State.byteAt, byteOfFile, h]

/-! ### What `writei` has done -/

/-- From `s` to `t`, bytes `[off, off + n)` of the file at `e` have been set to those of `src`, with new
    blocks for some of the pointers in `K`. -/
structure Wrote (e : EntryId) (K : Nat → Prop) [DecidablePred K] (src : Nat → Byte) (off n : Nat)
    (s t : State) : Prop where
  sb : t.sb = s.sb
  devsw : t.devsw = s.devsw
  others : ∀ e', e' ≠ e → t.icache e' = s.icache e'
  entry : ∃ addrs, t.icache e = { s.icache e with din := { (s.icache e).din with addrs := addrs } }
  dinodes : ∀ i < s.sb.ninodes, dinodes t.sb t.disk i = dinodes s.sb s.disk i
  ready : t.Ready e
  kept : ∀ x c, s.refs e x = some c → t.refs e x = some c
  new : ∀ x, s.refs e x = none → t.refs e x ≠ none → x.1 = (s.icache e).inum ∧ K x.2
  bytes : ∀ i k, ¬ (i = (s.icache e).inum ∧ off ≤ k ∧ k < off + n) →
    t.byteAt e i k = s.byteAt e i k
  written : ∀ j < n, t.refs e ((s.icache e).inum, slot ((off + j) / BSIZE)) ≠ none ∧
    t.byteAt e (s.icache e).inum (off + j) = src j
  room : t.Room e K ↔ s.Room e K

namespace Wrote

lemma inum (h : Wrote e K src off n s t) : (t.icache e).inum = (s.icache e).inum := by
  obtain ⟨addrs, heq⟩ := h.entry
  rw [heq]

lemma type (h : Wrote e K src off n s t) : (t.icache e).din.type = (s.icache e).din.type := by
  obtain ⟨addrs, heq⟩ := h.entry
  rw [heq]

lemma size (h : Wrote e K src off n s t) : (t.icache e).din.size = (s.icache e).din.size := by
  obtain ⟨addrs, heq⟩ := h.entry
  rw [heq]

lemma refl (h : s.Ready e) : Wrote e K src off 0 s s where
  sb := rfl
  devsw := rfl
  others _ _ := rfl
  entry := ⟨(s.icache e).din.addrs, rfl⟩
  dinodes _ _ := rfl
  ready := h
  kept _ _ hx := hx
  new _ hx hx' := absurd hx hx'
  bytes _ _ _ := rfl
  written _ hj := absurd hj (Nat.not_lt_zero _)
  room := Iff.rfl

/-- The next bytes after the first `m`. -/
lemma trans (h₁ : Wrote e K src off m s t) (h₂ : Wrote e K src' (off + m) n' t u)
    (hn : n = m + n') (hsrc : ∀ j, src' j = src (m + j)) : Wrote e K src off n s u where
  sb := h₂.sb.trans h₁.sb
  devsw := h₂.devsw.trans h₁.devsw
  others e' he := (h₂.others e' he).trans (h₁.others e' he)
  entry := by
    obtain ⟨addrs₁, heq₁⟩ := h₁.entry
    obtain ⟨addrs₂, heq₂⟩ := h₂.entry
    exact ⟨addrs₂, by rw [heq₂, heq₁]⟩
  dinodes i hi := by
    rw [h₂.dinodes i (by rw [h₁.sb]; exact hi), h₁.dinodes i hi]
  ready := h₂.ready
  kept x c hx := h₂.kept x c (h₁.kept x c hx)
  new x hx hx' := by
    by_cases ht : t.refs e x = none
    · have hnew := h₂.new x ht hx'
      rwa [h₁.inum] at hnew
    · exact h₁.new x hx ht
  bytes i k hk := by
    rw [h₂.bytes i k (by rw [h₁.inum]; omega), h₁.bytes i k (by omega)]
  written j hj := by
    by_cases hjm : j < m
    · obtain ⟨hsome, hbyte⟩ := h₁.written j hjm
      rw [h₂.bytes _ _ (by omega)]
      refine ⟨?_, hbyte⟩
      obtain ⟨c, hc⟩ := Option.ne_none_iff_exists'.mp hsome
      rw [h₂.kept _ c hc]
      exact Option.some_ne_none c
    · obtain ⟨hsome, hbyte⟩ := h₂.written (j - m) (by omega)
      have hoff : off + m + (j - m) = off + j := by omega
      have hidx : m + (j - m) = j := by omega
      rw [h₁.inum, hoff] at hsome hbyte
      rw [hsrc, hidx] at hbyte
      exact ⟨hsome, hbyte⟩
  room := h₂.room.trans h₁.room

end Wrote

/-! ### A new block -/

/-- The state after `balloc` has found block `b`. -/
def allocated (s : State) (b : Nat) : State :=
  logBlock (logBlock s (s.sb.BBLOCK b) fun bp => markUsed bp (b % BPB)) b fun _ _ => 0

lemma freeBlock_eq_some (h : freeBlock s = some b) : b < s.sb.size ∧ s.used b = false := by
  refine ⟨?_, ?_⟩
  · exact mem_range.mp (mem_of_find?_eq_some h)
  · simpa [State.used] using List.find?_some h

lemma freeBlock_eq_none (h : freeBlock s = none) (hb : b < s.sb.size) : s.used b = true := by
  simpa [State.used] using List.find?_eq_none.mp h b (mem_range.mpr hb)

lemma balloc_ends (s : State) :
    Ends balloc s (fun err => err = .outOfBlocks ∧ s.free = ∅)
      fun b t => b < s.sb.size ∧ s.used b = false ∧ t = allocated s b := by
  apply Ends.get_bind
  cases hfree : freeBlock s with
  | none =>
    apply Ends.throw
    refine ⟨rfl, ?_⟩
    apply Finset.filter_false_of_mem
    intro b hb
    rw [freeBlock_eq_none hfree (Finset.mem_range.mp hb)]
    decide
  | some =>
    obtain ⟨hlt, hused⟩ := freeBlock_eq_some hfree
    exact ⟨hlt, hused, rfl⟩

section Allocated

variable (hsb : s.sb.Wf) (hb : s.sb.Data b)

include hb in
lemma allocated_disk_of_ne {c : Nat} (hc : s.sb.Data c) (hcb : c ≠ b) :
    (allocated s b).disk c = s.disk c := by
  have hne : c ≠ s.sb.BBLOCK b := by
    have hlt := Superblock.bblock_lt hb.2
    have hle := hc.1
    omega
  simp [allocated, logBlock, setBlock, hcb, hne]

lemma allocated_disk_self (s : State) (b j : Nat) : ((allocated s b).disk b).byte j = 0 := by
  simp [allocated, logBlock, setBlock, Bytes.byte]

include hsb hb in
lemma allocated_dinodes {i : Nat} (hi : i < s.sb.ninodes) :
    dinodes s.sb (allocated s b).disk i = dinodes s.sb s.disk i := by
  have hle : s.sb.bmapstart ≤ b := Nat.le_trans (Nat.le_of_lt s.sb.bmapstart_lt) hb.1
  simp only [allocated, logBlock]
  rw [dinodes_setBlock hsb hle _ hi, dinodes_setBlock hsb (s.sb.le_bblock b) _ hi]

include hb in
lemma allocated_used {c : Nat} (hc : c < s.sb.size) :
    (allocated s b).used c = (s.used c || decide (c = b)) := by
  simp only [State.used, allocated, logBlock]
  rw [used_setBlock (.inr hb.1) _ hc, used_markUsed]

end Allocated

/-- A free block becomes the target of a pointer that referred to none. -/
lemma Wrote.assign (h : s.Ready e) (hk : k < NPTR) (hK : K k)
    (hnone : s.refs e ((s.icache e).inum, k) = none) (hb : s.used b = false) (hlt : b < s.sb.size)
    (hsb : t.sb = s.sb) (hdev : t.devsw = s.devsw)
    (hothers : ∀ e', e' ≠ e → t.icache e' = s.icache e')
    (hentry : ∃ addrs, t.icache e = { s.icache e with din := { (s.icache e).din with addrs := addrs } })
    (hdin : ∀ i < s.sb.ninodes, Blocks.dinodes t.sb t.disk i = Blocks.dinodes s.sb s.disk i)
    (hused : ∀ c < s.sb.size, t.used c = (s.used c || decide (c = b)))
    (hrefs : t.refs e = update (s.refs e) ((s.icache e).inum, k) (some b))
    (hzero : k ≠ NDIRECT → ∀ j, (t.disk b).byte j = 0)
    (hdisk : ∀ c, s.sb.Data c → c ≠ b → (∀ i, s.refs e (i, NDIRECT) ≠ some c) →
      t.disk c = s.disk c) : Wrote e K src off 0 s t := by
  have hinum : (t.icache e).inum = (s.icache e).inum := by
    obtain ⟨addrs, heq⟩ := hentry
    rw [heq]
  have hother : ∀ x, x ≠ ((s.icache e).inum, k) → t.refs e x = s.refs e x := by
    intro x hx
    rw [hrefs, update_of_ne hx]
  constructor
  case sb => exact hsb
  case devsw => exact hdev
  case others => exact hothers
  case entry => exact hentry
  case dinodes => exact hdin
  case ready =>
    refine ⟨by rw [hsb]; exact h.wf, by rw [hsb, hinum]; exact h.inum, ?_, ?_⟩
    · obtain ⟨addrs, heq⟩ := hentry
      rw [heq]
      exact h.alloc
    · rw [hrefs, hsb]
      exact h.owned.assign hb hlt _ hused h.wf
  case kept =>
    intro x c hx
    rw [hother x, hx]
    rintro rfl
    rw [hnone] at hx
    cases hx
  case new =>
    intro x hx hx'
    by_cases heq : x = ((s.icache e).inum, k)
    · subst heq
      exact ⟨rfl, hK⟩
    · rw [hother x heq] at hx'
      exact absurd hx hx'
  case bytes =>
    intro i j _
    by_cases heq : (i, slot (j / BSIZE)) = ((s.icache e).inum, k)
    · -- the new block has only zeros
      have hkey : slot (j / BSIZE) = k := congrArg Prod.snd heq
      have hsome : t.refs e (i, slot (j / BSIZE)) = some b := by
        rw [hrefs, heq, update_self]
      rw [State.byteAt_of_some hsome, hzero (by rw [← hkey]; exact slot_ne _),
        State.byteAt_of_none (by rw [heq]; exact hnone)]
    · have hsame := hother _ heq
      cases hc : s.refs e (i, slot (j / BSIZE)) with
      | none =>
        rw [State.byteAt_of_none hc, State.byteAt_of_none (by rw [hsame]; exact hc)]
      | some c =>
        have hcb : c ≠ b := by
          rintro rfl
          exact h.owned.ne_of_free hb _ hc
        have hind : ∀ i', s.refs e (i', NDIRECT) ≠ some c := by
          intro i' hi'
          have heq' := h.owned.once _ _ c hc hi'
          exact slot_ne _ (congrArg Prod.snd heq')
        rw [State.byteAt_of_some hc, State.byteAt_of_some (by rw [hsame]; exact hc),
          hdisk c (h.owned.data _ c hc) hcb hind]
  case written =>
    intro j hj
    exact absurd hj (Nat.not_lt_zero j)
  case room =>
    have hfree : t.free = s.free.erase b := by
      ext c
      simp only [State.free, Finset.mem_filter, Finset.mem_range, Finset.mem_erase, hsb]
      by_cases hc : c < s.sb.size
      · rw [hused c hc]
        by_cases hcb : c = b <;> simp [hc, hcb]
      · simp [hc]
    have hholes : t.holes e K = (s.holes e K).erase k := by
      ext l
      simp only [State.holes, Finset.mem_filter, Finset.mem_range, Finset.mem_erase, hinum]
      by_cases hl : l = k
      · subst hl
        simp [hrefs]
      · rw [hother _ (fun heq => hl (congrArg Prod.snd heq))]
        simp [hl]
    have hmem : b ∈ s.free := by
      simp [State.free, hlt, hb]
    have hmem' : k ∈ s.holes e K := by
      simp [State.holes, hk, hK, hnone]
    rw [State.Room, State.Room, hfree, hholes, ← Finset.card_erase_add_one hmem,
      ← Finset.card_erase_add_one hmem', Nat.add_le_add_iff_right]

/-- Without room there may be no free block for a pointer that is needed. -/
lemma not_room (hk : k < NPTR) (hK : K k) (hnone : s.refs e ((s.icache e).inum, k) = none)
    (hfree : s.free = ∅) : ¬ s.Room e K := by
  have hmem : k ∈ s.holes e K := by
    simp [State.holes, hk, hK, hnone]
  rw [State.Room, hfree, Finset.card_empty]
  exact Nat.not_le_of_lt (Finset.card_pos.mpr ⟨k, hmem⟩)

/-! ### `bmap` -/

section Bmap

variable (h : s.Ready e)

include h in
/-- A block of the data area has a number that is an address. -/
lemma State.Ready.target_ofNat (hb : s.sb.Data b) : target (BitVec.ofNat 32 b) = some b := by
  have hpos : 0 < b := Nat.lt_of_lt_of_le (Nat.succ_pos _) hb.1
  have hle : b ≤ 0x7fffffff := Nat.le_trans (Nat.le_of_lt hb.2) h.wf.int
  exact Blocks.target_ofNat hpos hle

/-- `bmap` has set address `k` to a new block. -/
def addrAssigned (s : State) (e : EntryId) (k b : Nat) : State :=
  setEntry (allocated s b) e
    { s.icache e with din := (s.icache e).din.setAddr k (BitVec.ofNat 32 b) }

include h in
lemma addrAssigned_refs (hk : k ≤ NDIRECT) (hnone : s.refs e ((s.icache e).inum, k) = none)
    (hb : s.used b = false) (hlt : b < s.sb.size) :
    (addrAssigned s e k b).refs e = update (s.refs e) ((s.icache e).inum, k) (some b) := by
  have hdata := h.owned.data_of_free hb hlt
  have hself : (addrAssigned s e k b).icache e =
      { s.icache e with din := (s.icache e).din.setAddr k (BitVec.ofNat 32 b) } :=
    update_self ..
  -- no block that has a pointer has changed
  have hsame : ∀ x a, s.refs e x = some a → (addrAssigned s e k b).disk a = s.disk a := by
    intro x a ha
    apply allocated_disk_of_ne hdata (h.owned.data x a ha)
    rintro rfl
    exact h.owned.ne_of_free hb x ha
  have hcongr : ∀ l, ptr (addrAssigned s e k b).disk (s.icache e).din l =
      ptr s.disk (s.icache e).din l := by
    apply ptr_congr
    intro a ha
    rw [h.indirect] at ha
    exact hsame _ a ha
  apply refs_update (D := s.view e) (i := (s.icache e).inum) h.inum
  · rw [s.view_self]
    exact h.alloc
  · simp only [State.view, hself, update_self, Dinode.setAddr_type]
    exact h.alloc
  · intro j hj hne
    simp only [State.view, hself, update_of_ne hne]
    exact allocated_dinodes h.wf hdata hj
  · intro l
    rw [s.view_self]
    simp only [State.view, hself, update_self]
    by_cases hkd : k = NDIRECT
    · subst hkd
      rw [ptr_setAddr_indirect (by rw [h.indirect]; exact hnone) (h.target_ofNat hdata), hcongr]
      intro j
      have hzero := allocated_disk_self s b
      simp [addrAssigned, setEntry, Bytes.getInt, hzero]
    · rw [ptr_setAddr_direct (by omega), h.target_ofNat hdata, hcongr]
  · intro j _ a ha
    exact hsame _ a ha

include h in
lemma bmapAddr_ends (src : Nat → Byte) (off : Nat) (hk : k ≤ NDIRECT) (hK : K k) :
    Ends (bmapAddr e k) s (fun err => err = .outOfBlocks ∧ ¬ s.Room e K) fun b t =>
      Wrote e K src off 0 s t ∧ t.refs e ((s.icache e).inum, k) = some b ∧
        (s.refs e ((s.icache e).inum, k) ≠ none → t = s) := by
  have hptr : s.refs e ((s.icache e).inum, k) = target ((s.icache e).din.addr k) := by
    rw [h.refs_self, ptr_of_le hk]
  have hklt : k < NPTR := by
    simp only [NPTR]
    omega
  apply Ends.get_bind
  apply Ends.ite
  · intro hzero
    have hnone : s.refs e ((s.icache e).inum, k) = none := by
      rw [hptr, hzero, target_zero]
    apply Ends.bind ((balloc_ends s).imp (fun _ hno => ⟨hno.1, not_room hklt hK hnone hno.2⟩)
      fun _ _ hq => hq)
    rintro b t ⟨hlt, hb, rfl⟩
    have hdata := h.owned.data_of_free hb hlt
    have hrefs := addrAssigned_refs h hk hnone hb hlt
    refine ⟨?_, ?_, fun hsome => absurd hnone hsome⟩
    · exact Wrote.assign (t := addrAssigned s e k b) h hklt hK hnone hb hlt rfl rfl
        (fun e' he => update_of_ne he ..) ⟨_, update_self ..⟩
        (fun i hi => allocated_dinodes h.wf hdata hi) (fun c hc => allocated_used hdata hc) hrefs
        (fun _ => allocated_disk_self s b)
        (fun c hc hcb _ => allocated_disk_of_ne hdata hc hcb)
    · exact (congrFun hrefs _).trans (update_self ..)
  · intro hne
    have hsome := target_eq_some.mpr ⟨hne, rfl⟩
    rw [← hptr] at hsome
    exact ⟨Wrote.refl h, hsome, fun _ => rfl⟩

/-- `bmap` has set entry `k` of the indirect block `a` to a new block. -/
def entryAssigned (s : State) (a k b : Nat) : State :=
  logBlock (allocated s b) a fun bp => bp.putInt k (BitVec.ofNat 32 b)

include h in
lemma entryAssigned_refs {a : Nat} (ha : s.refs e ((s.icache e).inum, NDIRECT) = some a)
    (hk : k < NINDIRECT) (hb : s.used b = false) (hlt : b < s.sb.size) :
    (entryAssigned s a k b).refs e = update (s.refs e) ((s.icache e).inum, NDIRECT + 1 + k) (some b) := by
  have hdata := h.owned.data_of_free hb hlt
  have hdataA := h.owned.data _ a ha
  have hdisk : (entryAssigned s a k b).disk = setBlock (allocated s b).disk a
      (((allocated s b).disk a).putInt k (BitVec.ofNat 32 b)) := rfl
  have hind : target ((s.icache e).din.addr NDIRECT) = some a := by rw [h.indirect, ha]
  have hsame : ∀ x c, s.refs e x = some c → (allocated s b).disk c = s.disk c := by
    intro x c hc
    apply allocated_disk_of_ne hdata (h.owned.data x c hc)
    rintro rfl
    exact h.owned.ne_of_free hb x hc
  have htable : ∀ i < s.sb.ninodes,
      dinodes s.sb (entryAssigned s a k b).disk i = dinodes s.sb s.disk i := by
    intro i hi
    have hle : s.sb.bmapstart ≤ a := Nat.le_trans (Nat.le_of_lt s.sb.bmapstart_lt) hdataA.1
    rw [hdisk, dinodes_setBlock h.wf hle _ hi, allocated_dinodes h.wf hdata hi]
  have hself : (entryAssigned s a k b).view e (s.icache e).inum = (s.icache e).din :=
    State.view_self (entryAssigned s a k b) e
  apply refs_update (D := s.view e) (i := (s.icache e).inum) h.inum
  · rw [s.view_self]
    exact h.alloc
  · rw [hself]
    exact h.alloc
  · intro j hj hne
    simp only [State.view]
    rw [update_of_ne hne]
    exact (update_of_ne hne ..).trans (htable j hj)
  · intro l
    have hcongr : ptr (allocated s b).disk (s.icache e).din l = ptr s.disk (s.icache e).din l := by
      apply ptr_congr
      intro c hc
      rw [h.indirect] at hc
      exact hsame _ c hc
    rw [hself, s.view_self, hdisk, ptr_putInt hind hk, h.target_ofNat hdata, hcongr]
  · intro j hj c hc
    have hca : c ≠ a := by
      rintro rfl
      exact hj (congrArg Prod.fst (h.owned.once _ _ c hc ha))
    rw [hdisk, setBlock, update_of_ne hca, hsame _ c hc]

include h in
lemma bmapEntry_ends (src : Nat → Byte) (off : Nat) {a : Nat}
    (ha : s.refs e ((s.icache e).inum, NDIRECT) = some a) (hk : k < NINDIRECT) (hK : K (NDIRECT + 1 + k)) :
    Ends (bmapEntry a k) s (fun err => err = .outOfBlocks ∧ ¬ s.Room e K) fun b t =>
      Wrote e K src off 0 s t ∧ t.refs e ((s.icache e).inum, NDIRECT + 1 + k) = some b ∧
        (s.refs e ((s.icache e).inum, NDIRECT + 1 + k) ≠ none → t = s) := by
  have hptr : s.refs e ((s.icache e).inum, NDIRECT + 1 + k) = target ((s.disk a).getInt k) := by
    rw [h.refs_self, ptr_entry (by rw [h.indirect, ha])]
  have hklt : NDIRECT + 1 + k < NPTR := by
    simp only [NPTR]
    omega
  apply Ends.get_bind
  apply Ends.ite
  · intro hzero
    have hnone : s.refs e ((s.icache e).inum, NDIRECT + 1 + k) = none := by
      rw [hptr, hzero, target_zero]
    apply Ends.bind ((balloc_ends s).imp (fun _ hno => ⟨hno.1, not_room hklt hK hnone hno.2⟩)
      fun _ _ hq => hq)
    rintro b t ⟨hlt, hb, rfl⟩
    have hdata := h.owned.data_of_free hb hlt
    have hdataA := h.owned.data _ a ha
    have hab : b ≠ a := by
      rintro rfl
      exact h.owned.ne_of_free hb _ ha
    have hrefs := entryAssigned_refs h ha hk hb hlt
    have hle : s.sb.bmapstart ≤ a := Nat.le_trans (Nat.le_of_lt s.sb.bmapstart_lt) hdataA.1
    refine ⟨?_, ?_, fun hsome => absurd hnone hsome⟩
    · apply Wrote.assign (t := entryAssigned s a k b) h hklt hK hnone hb hlt rfl rfl
        (fun _ _ => rfl) ⟨_, rfl⟩ _ _ hrefs
      · intro _ j
        have hdisk : (entryAssigned s a k b).disk b = (allocated s b).disk b :=
          update_of_ne hab ..
        rw [hdisk]
        exact allocated_disk_self s b j
      · intro c hc hcb hcind
        have hca : c ≠ a := by
          rintro rfl
          exact hcind _ ha
        exact (update_of_ne hca ..).trans (allocated_disk_of_ne hdata hc hcb)
      · intro i hi
        exact (dinodes_setBlock h.wf hle _ hi).trans (allocated_dinodes h.wf hdata hi)
      · intro c hc
        exact (used_setBlock (.inr hdataA.1) _ hc).trans (allocated_used hdata hc)
    · exact (congrFun hrefs _).trans (update_self ..)
  · intro hne
    have hsome := target_eq_some.mpr ⟨hne, rfl⟩
    rw [← hptr] at hsome
    exact ⟨Wrote.refl h, hsome, fun _ => rfl⟩

/-- The pointers that block `bn` of a file needs are in `K`. -/
def Covers (K : Nat → Prop) (bn : Nat) : Prop := K (slot bn) ∧ (NDIRECT ≤ bn → K NDIRECT)

include h in
lemma bmap_ends (src : Nat → Byte) (off : Nat) {bn : Nat} (hbn : bn < MAXFILE) (hK : Covers K bn) :
    Ends (bmap e bn) s (fun err => err = .outOfBlocks ∧ ¬ s.Room e K) fun b t =>
      Wrote e K src off 0 s t ∧ t.refs e ((s.icache e).inum, slot bn) = some b ∧
        (s.refs e ((s.icache e).inum, slot bn) ≠ none → t = s) := by
  apply Ends.ite
  · intro hdirect
    have hslot : slot bn = bn := if_pos hdirect
    rw [hslot]
    have hKbn : K bn := hslot ▸ hK.1
    exact bmapAddr_ends h src off (Nat.le_of_lt hdirect) hKbn
  · intro hindirect
    have hslot : slot bn = NDIRECT + 1 + (bn - NDIRECT) := by
      rw [slot, if_neg hindirect]
      omega
    have hlt : bn - NDIRECT < NINDIRECT := by
      simp only [MAXFILE] at hbn
      omega
    rw [if_pos hlt]
    apply Ends.bind (bmapAddr_ends h src off (Nat.le_refl _) (hK.2 (Nat.le_of_not_lt hindirect)))
    rintro a t ⟨hst, ha, hsame⟩
    have hinum := hst.inum
    have hentry := bmapEntry_ends hst.ready src off (by rw [hinum]; exact ha) hlt (hslot ▸ hK.1)
    apply hentry.imp
    · rintro _ ⟨herr, hfull⟩
      exact ⟨herr, fun hroom => hfull (hst.room.mpr hroom)⟩
    · rintro b u ⟨htu, hb, hsame'⟩
      rw [hinum, ← hslot] at hb hsame'
      refine ⟨hst.trans htu rfl (fun j => by rw [Nat.zero_add]), hb, ?_⟩
      intro hsome
      obtain rfl := hsame (h.indirect_ne_none (Nat.le_of_not_lt hindirect) hsome)
      exact hsame' hsome

include h in
/-- `bmap` of a block that is there. -/
lemma bmap_of_some {bn : Nat} (hb : s.refs e ((s.icache e).inum, slot bn) = some b) :
    Ends (bmap e bn) s (fun _ => False) fun c t => c = b ∧ t = s := by
  have hslot : slot bn < NPTR := by
    rw [h.refs_self] at hb
    exact lt_of_ptr_eq_some hb
  have hbn : bn < MAXFILE := by
    simp only [slot, NPTR, MAXFILE] at hslot ⊢
    split_ifs at hslot <;> omega
  have hsome : s.refs e ((s.icache e).inum, slot bn) ≠ none := by simp [hb]
  have hcovers : Covers (fun k => s.refs e ((s.icache e).inum, k) ≠ none) bn := by
    exact ⟨hsome, fun hle => h.indirect_ne_none hle hsome⟩
  have hroom : s.Room e fun k => s.refs e ((s.icache e).inum, k) ≠ none := by
    have hholes : s.holes e (fun k => s.refs e ((s.icache e).inum, k) ≠ none) = ∅ := by
      apply Finset.filter_false_of_mem
      intro k _ hk
      exact hk.1 hk.2
    rw [State.Room, hholes, Finset.card_empty]
    exact Nat.zero_le _
  apply (bmap_ends h (fun _ => 0) 0 hbn hcovers).imp
  · intro _ hno
    exact hno.2 hroom
  · rintro c t ⟨-, hc, hsame⟩
    obtain rfl := hsame hsome
    rw [hb] at hc
    exact ⟨(Option.some.inj hc).symm, rfl⟩

end Bmap

/-! ### The loops of `readi` and `writei` -/

/-- Part of a block of the file is overwritten. -/
lemma Wrote.data (src : Nat → Byte) (h : s.Ready e)
    (hb : s.refs e ((s.icache e).inum, slot (off / BSIZE)) = some b) (hm : off % BSIZE + m ≤ BSIZE) :
    Wrote e K src off m s (logBlock s b fun bp => bp.overwrite (off % BSIZE) m src) := by
  have hdata := h.owned.data _ b hb
  have hle : s.sb.bmapstart ≤ b := Nat.le_trans (Nat.le_of_lt s.sb.bmapstart_lt) hdata.1
  generalize ht : (logBlock s b fun bp => bp.overwrite (off % BSIZE) m src) = t
  have hdisk : t.disk = setBlock s.disk b ((s.disk b).overwrite (off % BSIZE) m src) := by
    rw [← ht]
    rfl
  have hsb : t.sb = s.sb := by
    rw [← ht]
    rfl
  have hcache : t.icache = s.icache := by
    rw [← ht]
    rfl
  have htable : ∀ i < s.sb.ninodes, Blocks.dinodes t.sb t.disk i = Blocks.dinodes s.sb s.disk i := by
    intro i hi
    rw [hsb, hdisk, dinodes_setBlock h.wf hle _ hi]
  have hused : ∀ c < s.sb.size, t.used c = s.used c := by
    intro c hc
    rw [State.used, hsb, hdisk, used_setBlock (.inr hdata.1) _ hc, State.used]
  have hrefs : t.refs e = s.refs e := by
    simp only [State.refs, hsb]
    apply refs_congr
    · intro i hi
      simp only [State.view, hcache]
      by_cases hie : i = (s.icache e).inum
      · rw [hie, update_self, update_self]
        exact ⟨rfl, rfl⟩
      · rw [update_of_ne hie, update_of_ne hie, htable i hi]
        exact ⟨rfl, rfl⟩
    · intro i a ha
      have hab : a ≠ b := by
        rintro rfl
        exact slot_ne _ (congrArg Prod.snd (h.owned.once _ _ a ha hb)).symm
      rw [hdisk, setBlock, update_of_ne hab]
  constructor
  case sb => exact hsb
  case devsw => rw [← ht]; rfl
  case others => exact fun e' _ => congrFun hcache e'
  case entry => exact ⟨_, congrFun hcache e⟩
  case dinodes => exact htable
  case ready =>
    refine ⟨by rw [hsb]; exact h.wf, by rw [hsb, hcache]; exact h.inum, by rw [hcache]; exact h.alloc, ?_⟩
    rw [hsb, hrefs]
    exact h.owned.congr h.wf hused
  case kept =>
    intro x c hx
    rwa [hrefs]
  case new =>
    intro x hx hx'
    rw [hrefs] at hx'
    exact absurd hx hx'
  case bytes =>
    intro i k hk
    rw [State.byteAt, State.byteAt, hrefs, byteOfFile, byteOfFile]
    cases hc : s.refs e (i, slot (k / BSIZE)) with
    | none => rfl
    | some c =>
      simp only [hdisk, setBlock]
      by_cases hcb : c = b
      · subst hcb
        have hx := h.owned.once _ _ c hc hb
        have hi : i = (s.icache e).inum := congrArg Prod.fst hx
        have hdiv : k / BSIZE = off / BSIZE := slot_injective (congrArg Prod.snd hx)
        have hk' := Nat.div_add_mod k BSIZE
        have hoff := Nat.div_add_mod off BSIZE
        rw [hdiv] at hk'
        rw [update_self, Bytes.byte_overwrite_of_notMem]
        by_contra hin
        exact hk ⟨hi, by omega, by omega⟩
      · rw [update_of_ne hcb]
  case written =>
    intro j hj
    obtain ⟨hdiv, hmod⟩ := add_div_of_fits (show off % BSIZE + j < BSIZE by omega)
    have hsome : t.refs e ((s.icache e).inum, slot ((off + j) / BSIZE)) = some b := by
      rw [hrefs, hdiv, hb]
    rw [State.byteAt_of_some hsome, hdisk, setBlock, update_self, hmod,
      Bytes.byte_overwrite_of_mem _ _ hj hm, hsome]
    exact ⟨Option.some_ne_none b, rfl⟩
  case room =>
    have hfree : t.free = s.free := by
      ext c
      simp only [State.free, Finset.mem_filter, Finset.mem_range, hsb]
      by_cases hc : c < s.sb.size
      · rw [hused c hc]
      · simp [hc]
    rw [State.Room, hfree, State.holes, hrefs, hcache]
    rfl

/-- The loop of `writei` writes all the bytes if there is room. -/
lemma writeLoop_ends (fuel : Nat) : ∀ {s : State} (src : Nat → Byte) (off n : Nat), s.Ready e →
    n ≤ fuel → off + n ≤ MAXFILE * BSIZE →
    (0 < n → ∀ bn, off / BSIZE ≤ bn → bn * BSIZE < off + n → Covers K bn) →
    Ends (writeLoop e fuel src off n) s (fun err => err = .outOfBlocks ∧ ¬ s.Room e K) fun _ t =>
      Wrote e K src off n s t := by
  induction fuel with
  | zero =>
    intro s src off n h hn _ _
    obtain rfl := Nat.le_zero.mp hn
    exact Wrote.refl h
  | succ fuel ih =>
    intro s src off n h hn hmax hK
    apply Ends.ite
    · rintro rfl
      exact Wrote.refl h
    · intro hpos
      have hbn : off / BSIZE < MAXFILE := by
        simp only [MAXFILE, NDIRECT, NINDIRECT, BSIZE] at hmax ⊢
        omega
      have hcov : Covers K (off / BSIZE) := by
        apply hK (Nat.pos_of_ne_zero hpos) _ (Nat.le_refl _)
        have hle := Nat.div_mul_le_self off BSIZE
        omega
      have hm := span_pos off hpos
      have hmn := span_le off n
      apply Ends.bind (bmap_ends h src off hbn hcov)
      rintro b t ⟨hst, hb, -⟩
      rw [← hst.inum] at hb
      have htu := Wrote.data (K := K) src hst.ready hb (span_fits off n)
      have hsu := hst.trans htu (Nat.zero_add _).symm fun j => by rw [Nat.zero_add]
      have hcovers : 0 < n - span off n → ∀ bn, (off + span off n) / BSIZE ≤ bn →
          bn * BSIZE < off + span off n + (n - span off n) → Covers K bn := by
        intro _ bn hlo hhi
        apply hK (Nat.pos_of_ne_zero hpos) bn
        · exact Nat.le_trans (Nat.div_le_div_right (Nat.le_add_right _ _)) hlo
        · omega
      apply (ih (fun j => src (span off n + j)) (off + span off n) (n - span off n) hsu.ready
        (by omega) (by omega) hcovers).imp
      · rintro _ ⟨herr, hno⟩
        exact ⟨herr, fun hroom => hno (hsu.room.mpr hroom)⟩
      · intro _ v huv
        exact hsu.trans huv (by omega) fun _ => rfl

/-- The loop of `readi` over blocks that are there. -/
lemma readLoop_ends (fuel : Nat) : ∀ (off n : Nat), s.Ready e → n ≤ fuel →
    (∀ j < n, s.refs e ((s.icache e).inum, slot ((off + j) / BSIZE)) ≠ none) →
    Ends (readLoop e fuel off n) s (fun _ => False) fun data t =>
      t = s ∧ data = (List.range n).map fun j => s.byteAt e (s.icache e).inum (off + j) := by
  induction fuel with
  | zero =>
    intro off n _ hn _
    obtain rfl := Nat.le_zero.mp hn
    exact ⟨rfl, rfl⟩
  | succ fuel ih =>
    intro off n h hn hfull
    apply Ends.ite
    · rintro rfl
      exact ⟨rfl, rfl⟩
    · intro hpos
      have hm := span_pos off hpos
      have hmn := span_le off n
      have hfits := span_fits off n
      obtain ⟨b, hb⟩ := Option.ne_none_iff_exists'.mp (hfull 0 (by omega))
      rw [Nat.add_zero] at hb
      apply Ends.bind (bmap_of_some h hb)
      rintro c t ⟨rfl, rfl⟩
      apply Ends.get_bind
      have hrest : ∀ j < n - span off n, t.refs e
          ((t.icache e).inum, slot ((off + span off n + j) / BSIZE)) ≠ none := by
        intro j hj
        rw [Nat.add_assoc]
        exact hfull _ (by omega)
      apply Ends.bind (ih (off + span off n) (n - span off n) h (by omega) hrest)
      rintro data u ⟨rfl, rfl⟩
      refine ⟨rfl, ?_⟩
      have hsplit : n = span off n + (n - span off n) := by omega
      conv_rhs => rw [hsplit, range_add, map_append, map_map]
      congr 1
      · apply map_congr_left
        intro j hj
        have hj := mem_range.mp hj
        obtain ⟨hdiv, hmod⟩ := add_div_of_fits (show off % BSIZE + j < BSIZE by omega)
        rw [State.byteAt_of_some (by rw [hdiv]; exact hb), hmod]
      · apply map_congr_left
        intro j _
        simp only [Function.comp, Nat.add_assoc]

end Xv6.Blocks
