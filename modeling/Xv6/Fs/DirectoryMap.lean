import Xv6.Fs.DirectoryEntries

/-!
# Directories are finite maps

If the names in use are pairwise different, a directory stands for a map from names to inodes. `dirlookup`
reads the map, `dirlink` adds a name that is not there, and what `sys_unlink` does to the directory removes
one, whatever happens to other files in between.
-/

namespace Xv6.Blocks

open Machine Function
open Log (Block BSIZE)

variable {s t u : State} {e dp ip : EntryId} {i j k : Nat} {name : Name}

/-! ### `sys_unlink` -/

def dot : Name := [0x2e]
def dotdot : Name := [0x2e, 0x2e]

/-- The loop of `isdirempty`. -/
def emptyFrom (dp : EntryId) : List Nat → Op Bool
  | [] => pure true
  | i :: is => do
    let de ← readDirent dp (direntSize * i) .isdirempty
    if de.inum ≠ 0 then pure false else emptyFrom dp is

/-- `isdirempty` looks at the entries after `.` and `..`. -/
def isdirempty (dp : EntryId) : Op Bool := do
  let s ← get
  emptyFrom dp ((List.range (direntCount (s.icache dp).din)).drop 2)

/-- `ip->type == T_DIR && !isdirempty(ip)` -/
def notEmpty (ip : EntryId) : Op Bool := do
  let s ← get
  if (s.icache ip).din.type = T_DIR then do
    let empty ← isdirempty ip
    pure !empty
  else pure false

/-- `sys_unlink` with `dp` locked, up to the write that clears the entry. -/
def unlinkEntry (dp : EntryId) (name : Name) : Op (Option EntryId) := do
  if strncmpEq (cstr name) (cstr dot) DIRSIZ ∨ strncmpEq (cstr name) (cstr dotdot) DIRSIZ then pure none
  else
    match ← dirlookup dp name with
    | none => pure none
    | some (ip, off) => do
      ilock ip
      let s ← get
      if (s.icache ip).din.nlink.toInt < 1 then throw .nlink
      else do
        if ← notEmpty ip then do
          iunlockput ip
          pure none
        else do
          writeDirent dp off .zero .writei
          pure (some ip)

/-- `iget` keeps the entries that are in use. -/
lemma Got.cached (hg : Got s j ip t) (he : s.Cached e) :
    t.Cached e ∧ (t.icache e).inum = (s.icache e).inum := by
  by_cases hee : e = ip
  · subst hee
    cases hg with
    | found => simpa [State.Cached, setEntry] using he.2
    | recycled _ href => exact absurd href (Nat.ne_of_gt he.1)
  · rw [State.Cached, hg.of_ne hee]
    exact ⟨he, rfl⟩

/-- `ilock` keeps the entries that have been read. -/
lemma ilock_keeps (h : s.Sound) (ip : EntryId) :
    Ends (ilock ip) s (fun _ => True) fun _ t => t.Sound ∧ t.Cached ip ∧ (t.sb = s.sb ∧ t.disk = s.disk) ∧
      ∀ e, s.Cached e → t.icache e = s.icache e := by
  refine (ilock_ends h.coherent ip).imp (fun _ _ => trivial) ?_
  rintro _ t ⟨ht, hip, rfl | ⟨hvalid, rfl⟩⟩
  · exact ⟨h, hip, ⟨rfl, rfl⟩, fun _ _ => rfl⟩
  · refine ⟨h.of_disk_eq ht ⟨rfl, rfl⟩, hip, ⟨rfl, rfl⟩, fun e he => update_of_ne ?_ ..⟩
    rintro rfl
    exact Bool.false_ne_true (hvalid.symm.trans he.2)

lemma readDirent_keeps (h : s.Sound) (he : s.Cached e) (hdir : (s.icache e).din.type = T_DIR) (off : Nat)
    (p : Panic) : Ends (readDirent e off p) s (fun _ => True) fun _ t => t = s := by
  have hdev : (s.icache e).din.type ≠ T_DEV := by
    rw [hdir]
    decide
  apply Ends.bind ((readi_ends h he hdev _ _).imp (fun _ hf => hf.elim) fun _ _ hq => hq.1)
  rintro r t rfl
  cases r with
  | none => exact trivial
  | some => exact .ite (fun _ => rfl) fun _ => trivial

lemma isdirempty_keeps (h : s.Sound) (he : s.Cached e) (hdir : (s.icache e).din.type = T_DIR) :
    Ends (isdirempty e) s (fun _ => True) fun _ t => t = s := by
  apply Ends.get_bind
  induction (List.range (direntCount (s.icache e).din)).drop 2 with
  | nil => exact rfl
  | cons k l ih =>
    apply Ends.bind (readDirent_keeps h he hdir _ _)
    rintro de t rfl
    exact .ite (fun _ => rfl) fun _ => ih

lemma notEmpty_keeps (h : s.Sound) (he : s.Cached e) :
    Ends (notEmpty e) s (fun _ => True) fun _ t => t = s := by
  apply Ends.get_bind
  apply Ends.ite
  · exact fun hdir => (isdirempty_keeps h he hdir).bind fun _ _ ht => ht
  · exact fun _ => rfl

/-- From `s` to `t` the name has been removed from directory `i`. -/
structure Erased (i : Nat) (name : Name) (s t : State) : Prop where
  sound : t.Sound
  listing : t.Listing i
  slot : ∃ k j, s.slots i k = some (keyOf name, j) ∧ t.slots i = Function.update (s.slots i) k none
  others : ∀ j < s.sb.ninodes, j ≠ i → SameFile j s t

lemma erase_ends (h : s.Sound) (hl : s.Listing (s.icache dp).inum) (hdp : s.Cached dp)
    (hk : s.slots (s.icache dp).inum k = some (keyOf name, j)) :
    Ends (writeDirent dp (direntSize * k) .zero .writei) s (fun _ => True) fun _ t =>
      Erased (s.icache dp).inum name s t := by
  have hle := Nat.le_of_lt (lt_of_slots hk)
  refine (writeDirent_ends h hl hdp hle .zero .writei).imp (fun _ _ => trivial) ?_
  intro _ t hst
  refine ⟨hst.sound, hst.listing hl hle fun w j hw => ?_, ⟨k, j, hk, hst.slots_eq hl.size hle⟩, ?_⟩
  · cases hw
  · exact fun j hj hne => hst.sameFile hj hne

/-- What `sys_unlink` does to the directory when it succeeds. -/
lemma unlinkEntry_ends (h : s.Sound) (hl : s.Listing (s.icache dp).inum) (hdp : s.Cached dp) (name : Name) :
    Ends (unlinkEntry dp name) s (fun _ => True) fun r t => r ≠ none → Erased (s.icache dp).inum name s t := by
  apply Ends.ite
  · exact fun _ hne => absurd rfl hne
  intro _
  apply Ends.bind ((dirlookup_ends h hl hdp name).imp (fun _ _ => trivial) fun _ _ hq => hq)
  rintro r t (⟨-, rfl, rfl⟩ | ⟨off, j, ip, hsome, rfl, hg⟩)
  · exact fun hne => absurd rfl hne
  obtain ⟨k, hk, rfl⟩ := exists_of_lookup hsome
  have ht := h.of_disk_eq (h.coherent.got (hl.inodes k _ j hk) hg) hg.disk_eq
  obtain ⟨hdp', hinum⟩ := hg.cached hdp
  apply Ends.bind (ilock_keeps ht ip)
  rintro _ u ⟨hu, hip, hdisk, hkeep⟩
  have hsame := fun j => (SameFile.of_disk_eq hg.disk_eq j).trans (.of_disk_eq hdisk j)
  have hudp : u.Cached dp := by
    rw [State.Cached, hkeep dp hdp']
    exact hdp'
  have huinum : (u.icache dp).inum = (s.icache dp).inum := by
    rw [hkeep dp hdp', hinum]
  apply Ends.get_bind
  apply Ends.ite
  · exact fun _ => trivial
  intro _
  apply Ends.bind (notEmpty_keeps hu hip)
  rintro full v rfl
  apply Ends.ite
  · intro _
    apply Ends.bind Ends.trivial
    exact fun _ _ _ hne => absurd rfl hne
  · intro _
    have hlisting : v.Listing (v.icache dp).inum := by
      rw [huinum]
      exact (hsame _).listing hl
    have hslot : v.slots (v.icache dp).inum k = some (keyOf name, j) := by
      rw [huinum, (hsame _).slots_eq]
      exact hk
    have herase := erase_ends hu hlisting hudp hslot
    rw [huinum] at herase
    apply Ends.bind herase
    intro _ w hw _
    refine ⟨hw.sound, hw.listing, ?_, fun j' hj' hne => ?_⟩
    · rw [← (hsame _).slots_eq]
      exact hw.slot
    · exact (hsame j').trans (hw.others j' (by rw [(hsame j').sb]; exact hj') hne)

/-! ### Runs -/

/-- A call that changes a directory, or another one. -/
inductive DirCall
  | dirlink (dp : EntryId) (name : Name) (inum : Nat)
  | unlink (dp : EntryId) (name : Name)
  /-- another link count, and `iupdate` -/
  | nlink (e : EntryId) (n : Short)
  | other (c : Call)

def setNlink (e : EntryId) (n : Short) : Op Unit := do
  modifyDin e fun d => { d with nlink := n }
  iupdate e

/-- The state after a call that succeeds. -/
def dirStep (s : State) : DirCall → Option State
  | .dirlink dp name inum =>
    match dirlink dp name inum s with
    | .ok (true, t) => some t
    | _ => none
  | .unlink dp name =>
    match unlinkEntry dp name s with
    | .ok (some _, t) => some t
    | _ => none
  | .nlink e n =>
    match setNlink e n s with
    | .ok (_, t) => some t
    | .error _ => none
  | .other c => step s c

/-- The entries of directory `i` are changed by `dirlink` and `sys_unlink` only. -/
def DirCall.Allowed (i : Nat) (s : State) : DirCall → Prop
  | .dirlink dp _ inum => s.Cached dp ∧ (s.icache dp).inum = i ∧ s.Inum inum
  | .unlink dp _ => s.Cached dp ∧ (s.icache dp).inum = i
  | .nlink e _ => s.Cached e
  | .other (.writei e src off n) => (Call.writei e src off n).Allowed s ∧ (s.icache e).inum ≠ i
  | .other c => c.Allowed s

/-- What a call does to the map of the directory. -/
def DirCall.apply (m : Name → Option Nat) : DirCall → Name → Option Nat
  | .dirlink _ name inum => Function.update m (keyOf name) (some inum)
  | .unlink _ name => Function.update m (keyOf name) none
  | .nlink _ _ => m
  | .other _ => m

/-- The link count is no part of the contents. -/
lemma setNlink_ends (h : s.Sound) (he : s.Cached e) (n : Short) (i : Nat) :
    Ends (setNlink e n) s (fun _ => False) fun _ t => t.Sound ∧ SameFile i s t := by
  generalize hd : { (s.icache e).din with nlink := n } = d
  have hrun : setNlink e n s = .ok ((), updated (setDin s e d) e) := by
    subst hd
    rfl
  have hsame : Dinode.SameBlocks (s.icache e).din d := by
    subst hd
    exact ⟨rfl, rfl⟩
  have hsize : d.size = (s.icache e).din.size := by
    subst hd
    rfl
  have hentry := setDin_entry s e d
  have hready := setDin_ready hsame (h.coherent.ready he)
  have hrefs := (setDin_refs hsame).trans (h.coherent.refs_eq he)
  have hview : dinodes s.sb (updated (setDin s e d) e).disk i =
      update (dinodes s.sb s.disk) (s.icache e).inum d i := by
    have hupdated := congrFun (updated_dinodes (setDin s e d) e) i
    rw [State.view, hentry] at hupdated
    exact hupdated
  have hfields : (dinodes s.sb (updated (setDin s e d) e).disk i).type = (dinodes s.sb s.disk i).type ∧
      (dinodes s.sb (updated (setDin s e d) e).disk i).size = (dinodes s.sb s.disk i).size := by
    rw [hview]
    by_cases hie : i = (s.icache e).inum
    · subst hie
      rw [update_self, hsame.1, hsize, (h.cached e he).1]
      exact ⟨rfl, rfl⟩
    · rw [update_of_ne hie]
      exact ⟨rfl, rfl⟩
  rw [Ends, hrun]
  refine ⟨h.updated he hready rfl (fun _ hne => setDin_others hne) ⟨d, hentry⟩ (fun _ _ => rfl) ?_ ?_,
    rfl, hfields.1, congrArg BitVec.toNat hfields.2, fun k => ?_⟩
  · intro x c hx
    rw [hrefs]
    exact hx
  · intro k hk
    rw [hentry, hsize, h.coherent.size_eq he] at hk
    rw [hrefs]
    exact h.full _ (h.coherent.allocated he) k hk
  · rw [updated_fileByte hready, State.byteAt, hrefs]
    rfl

/-- The other calls leave the directory alone. -/
lemma other_sameFile {c : Call} (h : s.Sound) (hi : i < s.sb.ninodes) (hc : (DirCall.other c).Allowed i s)
    (hstep : step s c = some t) : t.Sound ∧ SameFile i s t := by
  have hallowed : c.Allowed s := by
    cases c with
    | writei => exact hc.1
    | iget | ilock | iput | readi => exact hc
  refine ⟨h.step hallowed hstep, ?_⟩
  rcases h.step_cases hallowed hstep with ⟨-, hdisk⟩ | ⟨e, src, off, n, rfl, hst⟩
  · exact .of_disk_eq hdisk i
  · exact hst.sameFile hi (Ne.symm hc.2)

/-- A name that is not there goes to a free slot. -/
lemma State.Directory.linked (h : s.Directory i) (hi : (s.icache dp).inum = i) (hj : s.Inum j)
    (hnone : toMap (s.slots i) (keyOf name) = none) (hfree : s.FirstFree i k)
    (hst : Stored dp (newDirent name j).bytes (direntSize * k) direntSize s t) :
    t.Directory i ∧ t.slots i = update (s.slots i) k (some (keyOf name, j)) := by
  subst hi
  have hslots := hst.slots_eq h.size hfree.le
  rw [slot_newDirent hj] at hslots
  refine ⟨⟨hst.listing h.toListing hfree.le fun w j' hw => ?_, hst.sound, ?_⟩, hslots⟩
  · rw [slot_newDirent hj] at hw
    cases hw
    exact hj.2.1
  · rw [hslots]
    exact h.distinct.insert hnone

/-- The slot of a name is cleared. -/
lemma State.Directory.erased (h : s.Directory i) (he : Erased i name s t) :
    t.Directory i ∧ toMap (t.slots i) = update (toMap (s.slots i)) (keyOf name) none := by
  obtain ⟨k, j, hk, hslots⟩ := he.slot
  rw [hslots]
  refine ⟨⟨he.listing, he.sound, ?_⟩, h.distinct.toMap_erase hk⟩
  rw [hslots]
  exact h.distinct.erase k

lemma State.Directory.step {c : DirCall} (h : s.Directory i) (hc : c.Allowed i s)
    (hstep : dirStep s c = some t) : t.Directory i ∧ toMap (t.slots i) = c.apply (toMap (s.slots i)) := by
  cases c with
  | dirlink dp name inum =>
    obtain ⟨hdp, hi, hinum⟩ := hc
    have hl : s.Listing (s.icache dp).inum := hi ▸ h.toListing
    simp only [dirStep] at hstep
    split at hstep
    · rename_i hrun
      cases hstep
      rcases (dirlink_ends h.sound hl hdp name inum).of_ok hrun with ⟨-, hdone, -⟩ | ⟨hnone, -, k, hfree, hst⟩
      · cases hdone
      · rw [hi] at hnone hfree
        have hmap := lookup_eq_toMap h.distinct (keyOf name)
        rw [hnone] at hmap
        obtain ⟨ht, hslots⟩ := h.linked hi hinum hmap.symm hfree hst
        exact ⟨ht, by rw [hslots]; exact h.distinct.toMap_insert hfree.free hmap.symm⟩
    · cases hstep
  | unlink dp name =>
    obtain ⟨hdp, hi⟩ := hc
    have hl : s.Listing (s.icache dp).inum := hi ▸ h.toListing
    simp only [dirStep] at hstep
    split at hstep
    · rename_i ip t' hrun
      cases hstep
      have hends := (unlinkEntry_ends h.sound hl hdp name).of_ok hrun (Option.some_ne_none ip)
      rw [hi] at hends
      exact h.erased hends
    · cases hstep
  | nlink e n =>
    simp only [dirStep] at hstep
    split at hstep
    · rename_i hrun
      cases hstep
      obtain ⟨ht, hsame⟩ := (setNlink_ends h.sound hc n i).of_ok hrun
      exact ⟨hsame.directory h ht, by rw [hsame.slots_eq]; rfl⟩
    · cases hstep
  | other =>
    obtain ⟨ht, hsame⟩ := other_sameFile h.sound h.inum hc hstep
    exact ⟨hsame.directory h ht, by rw [hsame.slots_eq]; rfl⟩

/-- After any sequence of calls that succeed, where `m` is the map of the directory at the start with the
    names that have since been linked and without those that have been erased: the names in use are pairwise
    different. `dirlookup` returns the inode of the name in `m`, or nothing. `dirlink` returns -1 just if `m` has
    the name, and then nothing on the disk changes; otherwise it fills one free slot. To erase a name clears
    one slot. Both leave all other slots and all other files as they were. `dirlookup` panics just if it has
    found the name and the inode cache is full. -/
theorem directories_refine_maps {s₀ s : State} {i : Nat} {m : Name → Option Nat} (h₀ : s₀.Directory i)
    (hrun : Reach (withHistory dirStep fun _ c _ m => c.apply m) (fun x c => c.Allowed i x.1)
      (s₀, toMap (s₀.slots i)) (s, m))
    {dp : EntryId} (hdp : s.Cached dp) (hi : (s.icache dp).inum = i) (name : Name) :
    DistinctKeys (s.slots i) ∧ m = toMap (s.slots i) ∧
    Ends (dirlookup dp name) s (fun _ => m (keyOf name) ≠ none ∧ s.NoEntries) (fun r t =>
      t.disk = s.disk ∧ r.map (fun x => (t.icache x.1).inum) = m (keyOf name)) ∧
    (∀ inum, s.Inum inum → Ends (dirlink dp name inum) s
      (fun err => m (keyOf name) ≠ none ∧ s.NoEntries ∨
        m (keyOf name) = none ∧ (err = .outOfBlocks ∨ err = .dirlink ∧ s.DirFull i)) fun done t =>
      (done = false ↔ m (keyOf name) ≠ none) ∧ (done = false → t.disk = s.disk) ∧
      (done = true → (∃ k, s.slots i k = none ∧
          t.slots i = Function.update (s.slots i) k (some (keyOf name, inum))) ∧
        ∀ j < s.sb.ninodes, j ≠ i → t.contents j = s.contents j)) ∧
    (∀ ip t, unlinkEntry dp name s = .ok (some ip, t) →
      (∃ k j, s.slots i k = some (keyOf name, j) ∧ t.slots i = Function.update (s.slots i) k none) ∧
      ∀ j < s.sb.ninodes, j ≠ i → t.contents j = s.contents j) := by
  have hinv := hrun.invariant (I := fun x => x.1.Directory i ∧ x.2 = toMap (x.1.slots i)) ⟨h₀, rfl⟩ (by
    rintro x c y ⟨hx, hm⟩ hc hstep
    obtain ⟨hstep, hnext⟩ := withHistory_eq_some.mp hstep
    obtain ⟨hy, hmap⟩ := hx.step hc hstep
    exact ⟨hy, by rw [hnext, hmap, hm]⟩)
  obtain ⟨h, rfl⟩ : s.Directory i ∧ m = toMap (s.slots i) := hinv
  have hl : s.Listing (s.icache dp).inum := hi ▸ h.toListing
  have hmap := lookup_eq_toMap h.distinct (keyOf name)
  have hiff : s.lookup i (keyOf name) = none ↔ toMap (s.slots i) (keyOf name) = none := by
    rw [← hmap, Option.map_eq_none_iff]
  have hlookup := dirlookup_ends h.sound hl hdp name
  have hlink := dirlink_ends h.sound hl hdp name
  have hunlink := unlinkEntry_ends h.sound hl hdp name
  rw [hi] at hlookup hunlink
  simp only [hi, ne_eq, hiff] at hlink
  refine ⟨h.distinct, rfl, ?_, ?_, ?_⟩
  · refine hlookup.imp (fun _ hfull => ⟨fun hnone => hfull.1 (hiff.mpr hnone), hfull.2⟩) ?_
    rintro r t (⟨hnone, rfl, rfl⟩ | ⟨off, j, ip, hsome, rfl, hg⟩)
    · exact ⟨rfl, (hiff.mp hnone).symm⟩
    · rw [hsome] at hmap
      exact ⟨hg.disk_eq.2, (congrArg some hg.entry.2).trans hmap⟩
  · intro inum hinum
    refine (hlink inum).imp ?_ ?_
    · rintro err (hfull | ⟨hnone, ⟨rfl, -⟩ | hfull⟩)
      · exact .inl hfull
      · exact .inr ⟨hnone, .inl rfl⟩
      · exact .inr ⟨hnone, .inr hfull⟩
    · rintro done t (⟨hsome, rfl, hret, -⟩ | ⟨hnone, rfl, k, hfree, hst⟩)
      · exact ⟨⟨fun _ => hsome, fun _ => rfl⟩, fun _ => hret.disk.2, fun hf => by cases hf⟩
      · refine ⟨⟨(fun hf => by cases hf), fun hne => absurd hnone hne⟩, (fun hf => by cases hf), fun _ => ⟨?_, ?_⟩⟩
        · exact ⟨k, hfree.free, (h.linked hi hinum hnone hfree hst).2⟩
        · exact fun j hj hne => hst.contents_other hj (by rw [hi]; exact hne)
  · intro ip t hrun
    have herased := hunlink.of_ok hrun (Option.some_ne_none ip)
    exact ⟨herased.slot, fun j hj hne => (herased.others j hj hne).contents_eq⟩

/-- A disk with one empty directory, which is open. -/
def emptyDir : State := oneInode { Dinode.zero with type := T_DIR, nlink := 1 } 0x07

lemma emptyDir_size : emptyDir.fileSize 1 = 0 := congrArg (fun d => d.size.toNat) (oneInode_dinodes_one ..)

lemma emptyDir_slots : emptyDir.slots 1 = fun _ => none := by
  funext k
  rw [State.slots, emptyDir_size]
  exact if_neg (Nat.not_lt_zero _)

lemma emptyDir_directory : emptyDir.Directory 1 where
  inum := by decide
  dir := congrArg Dinode.type (oneInode_dinodes_one ..)
  size := by
    rw [emptyDir_size]
    exact Nat.dvd_zero _
  inodes := by
    intro k w j hk
    rw [emptyDir_slots] at hk
    cases hk
  sound := oneInode_sound (by decide) (fun k => by simp [Dinode.addr, Dinode.zero]) rfl (by decide)
  distinct := by
    intro a b w j j' ha
    rw [emptyDir_slots] at ha
    cases ha

lemma emptyDir_lookup (w : Name) : emptyDir.lookup 1 w = none := by
  rw [lookup_eq_none, emptyDir_slots]
  intro k j hk
  cases hk

lemma emptyDir_dirlink (name : Name) : ∃ t k, dirlink 0 name 1 emptyDir = .ok (true, t) ∧
    Stored 0 (newDirent name 1).bytes (direntSize * k) direntSize emptyDir t := by
  have hcached : emptyDir.Cached 0 := ⟨by decide, rfl⟩
  have hlisting : emptyDir.Listing (emptyDir.icache 0).inum := emptyDir_directory.toListing
  have hlookup := emptyDir_lookup (keyOf name)
  have hends : Ends (dirlink 0 name 1) emptyDir (fun _ => False) fun done t => done = true ∧
      ∃ k, Stored 0 (newDirent name 1).bytes (direntSize * k) direntSize emptyDir t := by
    refine (dirlink_ends emptyDir_directory.sound hlisting hcached name 1).imp ?_ ?_
    · rintro err (⟨hsome, -⟩ | ⟨-, ⟨-, k, hfree, hroom⟩ | ⟨-, hfull, -⟩⟩)
      · exact hsome hlookup
      · have hk : k = 0 := by
          by_contra hne
          exact hfree.first 0 (Nat.pos_of_ne_zero hne) (congrFun emptyDir_slots 0)
        subst hk
        exact hroom (by decide +kernel)
      · rw [show (emptyDir.icache 0).inum = 1 from rfl, emptyDir_size] at hfull
        exact absurd hfull (by decide)
    · rintro done t (⟨hsome, -⟩ | ⟨-, rfl, k, -, hst⟩)
      · exact absurd hlookup hsome
      · exact ⟨rfl, k, hst⟩
  obtain ⟨done, t, hrun, rfl, k, hst⟩ := hends.exists_ok
  exact ⟨t, k, hrun, hst⟩

/-- A name that has been linked is found under any name with the same first bytes. -/
theorem directories_refine_maps_link : ∃ t, dirlink 0 (List.replicate 14 65) 1 emptyDir = .ok (true, t) ∧
    ∃ x u, dirlookup 0 (List.replicate 15 65) t = .ok (some x, u) ∧ (u.icache x.1).inum = 1 := by
  obtain ⟨t, k, hrun, hst⟩ := emptyDir_dirlink (List.replicate 14 65)
  refine ⟨t, hrun, ?_⟩
  have hstep : dirStep emptyDir (.dirlink 0 (List.replicate 14 65) 1) = some t := by
    rw [dirStep, hrun]
  have hallowed : (DirCall.dirlink 0 (List.replicate 14 65) 1).Allowed 1 emptyDir :=
    ⟨⟨by decide, rfl⟩, rfl, by decide⟩
  obtain ⟨d, hd⟩ := hst.entry
  have hcached : t.Cached 0 := by
    rw [State.Cached, hd]
    exact ⟨(by decide : 0 < 1), rfl⟩
  obtain ⟨-, -, hlookup, -⟩ := directories_refine_maps emptyDir_directory
    (.single hallowed (withHistory_eq_some.mpr ⟨hstep, rfl⟩)) hcached (by rw [hd]; rfl) (List.replicate 15 65)
  have hkey : keyOf (List.replicate 15 65) = keyOf (List.replicate 14 65) := by decide
  have hends : Ends (dirlookup 0 (List.replicate 15 65)) t (fun _ => False) fun r u =>
      r.map (fun x => (u.icache x.1).inum) = some 1 := by
    refine hlookup.imp ?_ ?_
    · rintro _ ⟨-, hfull⟩
      exact hfull 1 (by decide) (by rw [hst.others 1 (by decide)]; rfl)
    · rintro r u ⟨-, hinum⟩
      rw [hinum, hkey]
      exact Function.update_self (keyOf (List.replicate 14 65)) (some 1) (toMap (emptyDir.slots 1))
  obtain ⟨r, u, hr, hinum⟩ := hends.exists_ok
  obtain ⟨x, rfl, hx⟩ := Option.map_eq_some_iff.mp hinum
  exact ⟨x, u, hr, hx⟩

end Xv6.Blocks
