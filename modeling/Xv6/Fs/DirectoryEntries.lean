import Xv6.Fs.Directories
import Xv6.Machine.Slots

/-!
# Entries of directories

The entries of a directory are slots that hold a name and an inode number or are free. A name is the bytes
up to a zero byte, and at most `DIRSIZ` of them. `dirlookup` finds the first slot with a name, and `dirlink`
writes the first free one.
-/

namespace Xv6.Blocks

open Machine List Option Function
open Log (Block BSIZE)

variable {s t u : State} {e dp ip : EntryId} {i j k : Nat} {name w : Name} {de : Dirent}

/-- A free entry has the inode number 0. -/
def Dirent.slot (de : Dirent) : Option (Name × Nat) := if de.inum = 0 then none else some (de.key, de.inum.toNat)

/-- The entry that `sys_unlink` writes. -/
def Dirent.zero : Dirent := ⟨0, fun _ => 0⟩

/-- An inode that directories can hold: 0 marks a free entry, and the number has 16 bits. -/
def State.Inum (s : State) (j : Nat) : Prop := 0 < j ∧ j < s.sb.ninodes ∧ j < 0x10000

instance (s : State) (j : Nat) : Decidable (s.Inum j) := inferInstanceAs (Decidable (_ ∧ _ ∧ _))

lemma slot_newDirent (hj : s.Inum j) : (newDirent name j).slot = some (keyOf name, j) := by
  have hnat : (newDirent name j).inum.toNat = j := Nat.mod_eq_of_lt hj.2.2
  have hne : (newDirent name j).inum ≠ 0 := by
    intro hzero
    rw [hzero] at hnat
    exact Nat.ne_of_gt hj.1 hnat.symm
  rw [Dirent.slot, if_neg hne, key_newDirent, hnat]

/-! ### Slots -/

/-- Entry `k` of directory `i`. -/
def State.slots (s : State) (i k : Nat) : Option (Name × Nat) :=
  if direntSize * k < s.fileSize i then (s.dirent i k).slot else none

/-- A directory of whole entries that name inodes. -/
structure State.Listing (s : State) (i : Nat) : Prop where
  inum : i < s.sb.ninodes
  dir : (dinodes s.sb s.disk i).type = T_DIR
  size : direntSize ∣ s.fileSize i
  inodes : ∀ k w j, s.slots i k = some (w, j) → j < s.sb.ninodes

/-- A directory in which the names in use are pairwise different. -/
structure State.Directory (s : State) (i : Nat) : Prop extends s.Listing i where
  sound : s.Sound
  distinct : DistinctKeys (s.slots i)

/-- File `i` is the same in both states. -/
structure SameFile (i : Nat) (s t : State) : Prop where
  sb : t.sb = s.sb
  type : (dinodes t.sb t.disk i).type = (dinodes s.sb s.disk i).type
  size : t.fileSize i = s.fileSize i
  bytes : ∀ k, t.fileByte i k = s.fileByte i k

namespace SameFile

lemma of_disk_eq (h : t.sb = s.sb ∧ t.disk = s.disk) (i : Nat) : SameFile i s t := by
  refine ⟨h.1, ?_, ?_, fun k => ?_⟩
  · rw [h.1, h.2]
  · rw [State.fileSize, State.fileSize, h.1, h.2]
  · simp only [State.fileByte, State.blocks, h.1, h.2]

section

variable (h : SameFile i s t)

include h

lemma trans (h' : SameFile i t u) : SameFile i s u :=
  ⟨h'.sb.trans h.sb, h'.type.trans h.type, h'.size.trans h.size, fun k => (h'.bytes k).trans (h.bytes k)⟩

lemma slots_eq : t.slots i = s.slots i := by
  funext k
  simp only [State.slots, State.dirent, h.size, h.bytes]

lemma contents_eq : t.contents i = s.contents i := by
  rw [State.contents, State.contents, h.size]
  exact map_congr_left fun k _ => h.bytes k

lemma listing (hs : s.Listing i) : t.Listing i where
  inum := by
    rw [h.sb]
    exact hs.inum
  dir := h.type.trans hs.dir
  size := by
    rw [h.size]
    exact hs.size
  inodes := by
    rw [h.slots_eq, h.sb]
    exact hs.inodes

lemma directory (hs : s.Directory i) (ht : t.Sound) : t.Directory i where
  toListing := h.listing hs.toListing
  sound := ht
  distinct := by
    rw [h.slots_eq]
    exact hs.distinct

end

end SameFile

/-- `writei` leaves the other files alone. -/
lemma Stored.sameFile {src : Nat → Byte} {off n : Nat} (h : Stored e src off n s t)
    (hj : j < s.sb.ninodes) (hne : j ≠ (s.icache e).inum) : SameFile j s t where
  sb := h.sb
  type := congrArg Dinode.type (h.table j hj hne)
  size := congrArg (fun d => d.size.toNat) (h.table j hj hne)
  bytes := fun k => h.bytes j k fun hin => hne hin.1

/-- Entries do not overlap. -/
lemma entry_disjoint {l o : Nat} (hlk : l ≠ k) (ho : o < direntSize) :
    ¬ (direntSize * k ≤ direntSize * l + o ∧ direntSize * l + o < direntSize * k + direntSize) := by
  simp only [direntSize] at ho ⊢
  omega

/-- A file of whole entries grows by at most one. -/
lemma lt_max_entry {l n : Nat} (hlk : l ≠ k) (hk : k ≤ n) :
    direntSize * l < max (direntSize * n) (direntSize * k + direntSize) ↔ direntSize * l < direntSize * n := by
  simp only [direntSize]
  omega

/-- `writei` of one entry changes one slot. -/
lemma Stored.slots_eq (h : Stored e de.bytes (direntSize * k) direntSize s t)
    (hsize : direntSize ∣ s.fileSize (s.icache e).inum)
    (hk : direntSize * k ≤ s.fileSize (s.icache e).inum) :
    t.slots (s.icache e).inum = update (s.slots (s.icache e).inum) k de.slot := by
  obtain ⟨n, hn⟩ := hsize
  have hkn : k ≤ n := by
    rw [hn] at hk
    exact Nat.le_of_mul_le_mul_left hk (by decide)
  funext l
  by_cases hlk : l = k
  · subst hlk
    have hent : t.dirent (s.icache e).inum l = de := by
      rw [State.dirent, Dirent.ofBytes_congr h.written, Dirent.ofBytes_bytes]
    have hlt : direntSize * l < max (s.fileSize (s.icache e).inum) (direntSize * l + direntSize) :=
      Nat.lt_of_lt_of_le (Nat.lt_add_of_pos_right (by decide)) (Nat.le_max_right ..)
    rw [update_self, State.slots, hent, h.size, if_pos hlt]
  · have hent : t.dirent (s.icache e).inum l = s.dirent (s.icache e).inum l :=
      Dirent.ofBytes_congr fun o ho => h.bytes _ _ fun hin => entry_disjoint hlk ho hin.2
    rw [update_of_ne hlk, State.slots, State.slots, hent, h.size, hn]
    simp only [lt_max_entry hlk hkn]

lemma Stored.listing (h : Stored e de.bytes (direntSize * k) direntSize s t)
    (hs : s.Listing (s.icache e).inum) (hk : direntSize * k ≤ s.fileSize (s.icache e).inum)
    (hde : ∀ w j, de.slot = some (w, j) → j < s.sb.ninodes) : t.Listing (s.icache e).inum where
  inum := by
    rw [h.sb]
    exact hs.inum
  dir := by
    obtain ⟨size, addrs, hinode⟩ := h.inode
    rw [hinode]
    exact hs.dir
  size := by
    have hend : direntSize ∣ direntSize * k + direntSize := ⟨k + 1, by rw [Nat.mul_succ]⟩
    rw [h.size]
    rcases Nat.le_total (s.fileSize (s.icache e).inum) (direntSize * k + direntSize) with hle | hle
    · rwa [Nat.max_eq_right hle]
    · rw [Nat.max_eq_left hle]
      exact hs.size
  inodes := by
    intro l w j hl
    rw [h.slots_eq hs.size hk, update_eq_some] at hl
    rw [h.sb]
    rcases hl with ⟨-, hnew⟩ | ⟨-, hold⟩
    · exact hde w j hnew
    · exact hs.inodes l w j hold

/-! ### Reading entries -/

section Reading

variable (h : s.Sound) (hl : s.Listing (s.icache dp).inum) (hdp : s.Cached dp)

include h hl hdp

lemma type_listing : (s.icache dp).din.type = T_DIR := by
  rw [(h.cached dp hdp).1, hl.dir]

lemma readDirent_listing (hk : direntSize * k < s.fileSize (s.icache dp).inum) (p : Panic) :
    Ends (readDirent dp (direntSize * k) p) s (fun _ => False) fun de t =>
      t = s ∧ de = s.dirent (s.icache dp).inum k := by
  have hend : direntSize * k + direntSize ≤ s.fileSize (s.icache dp).inum := by
    obtain ⟨n, hn⟩ := hl.size
    rw [hn] at hk ⊢
    have hkn := Nat.lt_of_mul_lt_mul_left hk
    rw [← Nat.mul_succ]
    exact Nat.mul_le_mul_left _ hkn
  exact readDirent_ends h.coherent hdp (type_listing h hl hdp) hend
    (h.full _ (h.coherent.allocated hdp) _ hk) p

/-- The number of entries that the loops visit. -/
lemma direntCount_listing : direntSize * direntCount (s.icache dp).din = s.fileSize (s.icache dp).inum := by
  obtain ⟨n, hn⟩ := hl.size
  rw [direntCount, h.coherent.size_eq hdp, hn]
  simp only [direntSize]
  omega

end Reading

/-- Slot `k`, if it has the name. -/
def State.hit (s : State) (i : Nat) (w : Name) (k : Nat) : Option (Nat × Nat) :=
  match s.slots i k with
  | none => none
  | some (w', j) => if w' = w then some (direntSize * k, j) else none

lemma hit_eq_some {off : Nat} :
    s.hit i w k = some (off, j) ↔ s.slots i k = some (w, j) ∧ off = direntSize * k := by
  rw [State.hit]
  cases hslot : s.slots i k with
  | none => simp
  | some x =>
    obtain ⟨w', j'⟩ := x
    by_cases hw : w' = w
    · subst hw
      simp only [if_true, some.injEq, Prod.mk.injEq, true_and]
      exact ⟨fun hx => ⟨hx.2, hx.1.symm⟩, fun hx => ⟨hx.2.symm, hx.1⟩⟩
    · simp [hw]

/-- The offset and the inode of the first entry with the name. -/
def State.lookup (s : State) (i : Nat) (w : Name) : Option (Nat × Nat) :=
  (List.range (direntCount (dinodes s.sb s.disk i))).findSome? (s.hit i w)

lemma exists_of_lookup {off : Nat} (h : s.lookup i w = some (off, j)) :
    ∃ k, s.slots i k = some (w, j) ∧ off = direntSize * k := by
  obtain ⟨k, -, hk⟩ := exists_of_findSome?_eq_some h
  exact ⟨k, hit_eq_some.mp hk⟩

lemma lt_of_slots {x : Name × Nat} (h : s.slots i k = some x) : direntSize * k < s.fileSize i := by
  rw [State.slots] at h
  split_ifs at h with hlt
  exact hlt

lemma lookup_eq_none : s.lookup i w = none ↔ ∀ k j, s.slots i k ≠ some (w, j) := by
  rw [State.lookup, List.findSome?_eq_none_iff]
  constructor
  · intro hno k j hk
    have hlt := lt_of_slots hk
    have hmem : k ∈ List.range (direntCount (dinodes s.sb s.disk i)) := by
      rw [State.fileSize] at hlt
      simp only [mem_range, direntCount, direntSize] at hlt ⊢
      omega
    have hhit := hno k hmem
    rw [hit_eq_some.mpr ⟨hk, rfl⟩] at hhit
    cases hhit
  · intro hno k _
    by_contra hne
    obtain ⟨⟨off, j⟩, hk⟩ := ne_none_iff_exists'.mp hne
    exact hno k j (hit_eq_some.mp hk).1

/-- In a directory without repeated names the first entry with a name is the only one. -/
lemma lookup_eq_toMap (h : DistinctKeys (s.slots i)) (w : Name) :
    (s.lookup i w).map Prod.snd = toMap (s.slots i) w := by
  cases hlookup : s.lookup i w with
  | none => exact (toMap_eq_none.mpr (lookup_eq_none.mp hlookup)).symm
  | some =>
    obtain ⟨k, hk, -⟩ := exists_of_lookup hlookup
    exact (h.toMap_eq_some.mpr ⟨k, hk⟩).symm

/-- The entries of the inode cache are all in use. -/
def State.NoEntries (s : State) : Prop := ∀ e < NINODE, (s.icache e).ref ≠ 0

section Lookup

variable (h : s.Sound) (hl : s.Listing (s.icache dp).inum) (hdp : s.Cached dp)

include h hl hdp

lemma lookupLoop_ends (name : Name) {l : List Nat}
    (hmem : ∀ k ∈ l, direntSize * k < s.fileSize (s.icache dp).inum) :
    Ends (lookupLoop dp name l) s (fun _ => False) fun r t =>
      t = s ∧ r = l.findSome? (s.hit (s.icache dp).inum (keyOf name)) := by
  induction l with
  | nil => exact ⟨rfl, rfl⟩
  | cons k l ih =>
    have hk := hmem k mem_cons_self
    have hrest := ih fun j hj => hmem j (mem_cons_of_mem k hj)
    have hslot : s.slots (s.icache dp).inum k = (s.dirent (s.icache dp).inum k).slot := if_pos hk
    apply Ends.bind (readDirent_listing h hl hdp hk .read)
    rintro de t ⟨rfl, rfl⟩
    rw [List.findSome?_cons, State.hit, hslot, Dirent.slot]
    apply Ends.ite
    · intro hzero
      rw [if_pos hzero]
      exact hrest
    · intro hlive
      rw [if_neg hlive, namecmpEq_eq_decide]
      apply Ends.ite
      · intro heq
        have hkey := of_decide_eq_true heq
        simp only [hkey, if_true]
        exact ⟨rfl, rfl⟩
      · intro hne
        have hkey : ¬ (t.dirent (t.icache dp).inum k).key = keyOf name := fun heq =>
          hne (decide_eq_true heq.symm)
        simp only [if_neg hkey]
        exact hrest

lemma dirlookup_ends (name : Name) :
    Ends (dirlookup dp name) s
      (fun _ => s.lookup (s.icache dp).inum (keyOf name) ≠ none ∧ s.NoEntries) fun r t =>
      s.lookup (s.icache dp).inum (keyOf name) = none ∧ r = none ∧ t = s ∨
      ∃ off j ip, s.lookup (s.icache dp).inum (keyOf name) = some (off, j) ∧ r = some (ip, off) ∧
        Got s j ip t := by
  have hcount := direntCount_listing h hl hdp
  have hloop := lookupLoop_ends h hl hdp name (l := List.range (direntCount (s.icache dp).din)) (by
    intro k hk
    rw [← hcount]
    exact Nat.mul_lt_mul_of_pos_left (mem_range.mp hk) (by decide))
  rw [(h.cached dp hdp).1] at hloop
  apply Ends.get_bind
  rw [if_neg (not_not.mpr (type_listing h hl hdp)), (h.cached dp hdp).1]
  apply Ends.andThen hloop
  rintro r t ⟨rfl, hr⟩
  change r = t.lookup _ _ at hr
  rw [← hr]
  cases r with
  | none => exact .inl ⟨rfl, rfl, rfl⟩
  | some x =>
    apply Ends.bind ((iget_ends t x.2).imp (fun _ hfull => ⟨some_ne_none x, hfull⟩) fun _ _ hq => hq)
    intro ip u hg
    exact .inr ⟨x.1, x.2, ip, rfl, rfl, hg⟩

lemma emptyLoop_ends (last : Nat) {l : List Nat}
    (hmem : ∀ k ∈ l, direntSize * k < s.fileSize (s.icache dp).inum) :
    Ends (emptyLoop dp last l) s (fun _ => False) fun off t =>
      t = s ∧ off = ((l.find? fun k => (s.slots (s.icache dp).inum k).isNone).map (direntSize * ·)).getD last := by
  induction l with
  | nil => exact ⟨rfl, rfl⟩
  | cons k l ih =>
    have hk := hmem k mem_cons_self
    have hrest := ih fun j hj => hmem j (mem_cons_of_mem k hj)
    have hslot : s.slots (s.icache dp).inum k = (s.dirent (s.icache dp).inum k).slot := if_pos hk
    apply Ends.bind (readDirent_listing h hl hdp hk .read)
    rintro de t ⟨rfl, rfl⟩
    rw [List.find?_cons, hslot, Dirent.slot]
    apply Ends.ite
    · intro hzero
      rw [if_pos hzero]
      exact ⟨rfl, rfl⟩
    · intro hlive
      rw [if_neg hlive]
      exact hrest

end Lookup

/-- Slot `k` is the first free one, at the latest the one after the last entry. -/
structure State.FirstFree (s : State) (i k : Nat) : Prop where
  le : direntSize * k ≤ s.fileSize i
  free : s.slots i k = none
  first : ∀ j < k, s.slots i j ≠ none

/-- The slot that `emptyLoop` finds. -/
lemma exists_firstFree {n : Nat} (hn : direntSize * n = s.fileSize i) :
    ∃ k, s.FirstFree i k ∧
      (((List.range n).find? fun k => (s.slots i k).isNone).map (direntSize * ·)).getD (direntSize * n) =
        direntSize * k := by
  cases hfind : (List.range n).find? fun k => (s.slots i k).isNone with
  | none =>
    refine ⟨n, ⟨Nat.le_of_eq hn, if_neg (by omega), ?_⟩, rfl⟩
    intro j hj hnone
    have hno := List.find?_eq_none.mp hfind j (mem_range.mpr hj)
    exact hno (by rw [hnone]; rfl)
  | some k =>
    obtain ⟨hk, hmem, hfirst⟩ := List.find?_range_eq_some.mp hfind
    refine ⟨k, ⟨?_, isNone_iff_eq_none.mp hk, ?_⟩, rfl⟩
    · rw [← hn]
      exact Nat.mul_le_mul_left _ (Nat.le_of_lt (mem_range.mp hmem))
    · intro j hj hnone
      have hno := hfirst j hj
      rw [hnone] at hno
      cases hno

/-! ### `dirlink` -/

/-- The reference that `dirlookup` took has been dropped again. -/
structure Returned (s t : State) : Prop where
  disk : t.sb = s.sb ∧ t.disk = s.disk
  refs : ∀ e, (t.icache e).ref = (s.icache e).ref
  used : ∀ e, 0 < (s.icache e).ref → t.icache e = s.icache e

/-- `iput` after `iget` never frees the inode: it had another reference, or it has not been read. -/
lemma iput_got (hg : Got s j ip t) : Ends (iput ip) t (fun _ => False) fun _ u => u = dropped t ip := by
  have hkeep : ¬ Frees t ip := by
    cases hg with
    | found =>
      simp only [Frees, setEntry, update_self]
      omega
    | recycled =>
      simp only [Frees, setEntry, update_self]
      exact fun hand => Bool.false_ne_true hand.1
  rw [Ends, iput_of_not_frees hkeep]

lemma Got.returned (hg : Got s j ip t) : Returned s (dropped t ip) := by
  cases hg with
  | found =>
    have hsame : ∀ e, (dropped (setEntry s ip { s.icache ip with ref := (s.icache ip).ref + 1 }) ip).icache e =
        s.icache e := by
      intro e
      by_cases he : e = ip
      · subst he
        simp [dropped, setEntry]
      · simp [dropped, setEntry]
    exact ⟨⟨rfl, rfl⟩, fun e => by rw [hsame], fun e _ => hsame e⟩
  | recycled _ href =>
    refine ⟨⟨rfl, rfl⟩, fun e => ?_, fun e he => ?_⟩
    · by_cases hee : e = ip
      · subst hee
        simp [dropped, setEntry, href]
      · simp [dropped, setEntry, hee]
    · have hee : e ≠ ip := by
        rintro rfl
        omega
      simp [dropped, setEntry, hee]

/-- There is no room for one more entry. -/
def State.DirFull (s : State) (i : Nat) : Prop :=
  s.fileSize i = MAXFILE * BSIZE ∧ ∀ k, direntSize * k < s.fileSize i → s.slots i k ≠ none

lemma refused_entry (hle : s.fileSize i ≤ MAXFILE * BSIZE) (hk : direntSize * k ≤ s.fileSize i)
    (hr : Refused (s.fileSize i) (direntSize * k) direntSize) :
    direntSize * k = s.fileSize i ∧ s.fileSize i = MAXFILE * BSIZE := by
  have hmax : MAXFILE * BSIZE = 16 * 4480 := by decide
  rw [Refused, hmax] at hr
  rw [hmax] at hle ⊢
  simp only [direntSize] at hr hk ⊢
  omega

section Link

variable (h : s.Sound) (hl : s.Listing (s.icache dp).inum) (hdp : s.Cached dp)

include h hl hdp

lemma writeDirent_ends (hk : direntSize * k ≤ s.fileSize (s.icache dp).inum) (de : Dirent) (p : Panic) :
    Ends (writeDirent dp (direntSize * k) de p) s
      (fun err => err = .outOfBlocks ∧ ¬ s.Room dp (Needs (direntSize * k) direntSize) ∨
        err = p ∧ direntSize * k = s.fileSize (s.icache dp).inum ∧
          s.fileSize (s.icache dp).inum = MAXFILE * BSIZE)
      fun _ t => Stored dp de.bytes (direntSize * k) direntSize s t := by
  have hdev : (s.icache dp).din.type ≠ T_DEV := by
    rw [type_listing h hl hdp]
    decide
  have hmax := h.size_le (h.coherent.allocated hdp)
  have hlt : MAXFILE * BSIZE < 2 ^ 32 := by decide
  have hoff : (BitVec.ofNat 32 (direntSize * k)).toNat = direntSize * k := Nat.mod_eq_of_lt (by omega)
  have hlen : (BitVec.ofNat 32 direntSize).toNat = direntSize := by decide
  have hw := writei_ends h hdp hdev de.bytes (BitVec.ofNat 32 (direntSize * k)) (BitVec.ofNat 32 direntSize)
  rw [hoff, hlen] at hw
  apply Ends.bind (hw.imp (fun _ herr => .inl ⟨herr.1, herr.2.2⟩) fun _ _ hq => hq)
  rintro r t (⟨hno, rfl, rfl⟩ | ⟨-, rfl, -, hst⟩)
  · rw [if_neg (by simp)]
    exact Ends.throw (.inr ⟨rfl, refused_entry hmax hk hno⟩)
  · rw [if_pos rfl]
    exact hst

lemma dirlink_ends (name : Name) (inum : Nat) :
    Ends (dirlink dp name inum) s
      (fun err =>
        s.lookup (s.icache dp).inum (keyOf name) ≠ none ∧ s.NoEntries ∨
        s.lookup (s.icache dp).inum (keyOf name) = none ∧
          (err = .outOfBlocks ∧ (∃ k, s.FirstFree (s.icache dp).inum k ∧
            ¬ s.Room dp (Needs (direntSize * k) direntSize)) ∨
          err = .dirlink ∧ s.DirFull (s.icache dp).inum))
      fun done t =>
        s.lookup (s.icache dp).inum (keyOf name) ≠ none ∧ done = false ∧ Returned s t ∧ t.Coherent ∨
        s.lookup (s.icache dp).inum (keyOf name) = none ∧ done = true ∧
          ∃ k, s.FirstFree (s.icache dp).inum k ∧
            Stored dp (newDirent name inum).bytes (direntSize * k) direntSize s t := by
  apply Ends.bind ((dirlookup_ends h hl hdp name).imp (fun _ hfull => .inl hfull) fun _ _ hq => hq)
  rintro r t (⟨hnone, rfl, rfl⟩ | ⟨off, j, ip, hsome, rfl, hg⟩)
  · have hcount := direntCount_listing h hl hdp
    have hempty := emptyLoop_ends h hl hdp (direntSize * direntCount (t.icache dp).din)
      (l := List.range (direntCount (t.icache dp).din)) (by
        intro k hk
        rw [← hcount]
        exact Nat.mul_lt_mul_of_pos_left (mem_range.mp hk) (by decide))
    obtain ⟨k, hfree, hoff⟩ := exists_firstFree hcount
    rw [hoff] at hempty
    apply Ends.get_bind
    apply Ends.andThen hempty
    rintro off t ⟨rfl, rfl⟩
    have hwrite := writeDirent_ends h hl hdp hfree.le (newDirent name inum) .dirlink
    apply Ends.bind (hwrite.imp ?_ fun _ _ hq => hq)
    · exact fun _ _ hst => .inr ⟨hnone, rfl, k, hfree, hst⟩
    · rintro err (⟨rfl, hroom⟩ | ⟨rfl, hend, hmax⟩)
      · exact .inr ⟨hnone, .inl ⟨rfl, k, hfree, hroom⟩⟩
      · refine .inr ⟨hnone, .inr ⟨rfl, hmax, fun j hj => hfree.first j ?_⟩⟩
        rw [← hend] at hj
        exact Nat.lt_of_mul_lt_mul_left hj
  · obtain ⟨k, hk, -⟩ := exists_of_lookup hsome
    have ht := (h.coherent.got (hl.inodes k _ j hk) hg).dropped ip
    apply Ends.andThen (iput_got hg)
    rintro _ u rfl
    exact .inl ⟨by rw [hsome]; exact some_ne_none _, rfl, hg.returned, ht⟩

end Link

end Xv6.Blocks
