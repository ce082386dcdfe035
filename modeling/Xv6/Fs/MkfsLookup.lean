import Xv6.Fs.Directories
import Xv6.Fs.MkfsImage

/-!
# The kernel reads what `mkfs` wrote

The entries of the root directory are those that `mkfs` appended, so `namei` finds the inode of each file,
and the contents of the inode are the bytes that `mkfs` read.
-/

namespace Xv6.Mkfs

open Machine List
open Log (Block BSIZE)
open Blocks hiding State

variable {files : List Input} {image : Disk} {s t : Blocks.State} {j : Nat}

/-! ### The root directory -/

lemma getD_entry (name : List Byte) (inum : Nat) (hj : j < direntSize) :
    (entry name inum).getD j 0 = (newDirent name inum).bytes j := by
  rw [getD_eq_getElem _ _ (by rwa [length_entry])]
  simp [entry, taken]

lemma getD_entries (fs : List Input) : ∀ (n : Nat) {k j : Nat} (hk : k < fs.length), j < direntSize →
    (entries n fs).getD (direntSize * k + j) 0 = (newDirent fs[k].name (n + k)).bytes j := by
  induction fs with
  | nil =>
    intro n k j hk
    cases hk
  | cons f fs ih =>
    intro n k j hk hj
    rw [entries]
    cases k with
    | zero =>
      rw [Nat.mul_zero, Nat.zero_add, getD_append _ _ _ _ (by rwa [length_entry]), getD_entry _ _ hj]
      rfl
    | succ k =>
      have hlen := length_entry f.name n
      have hidx : direntSize * (k + 1) + j - direntSize = direntSize * k + j := by
        rw [Nat.mul_succ]
        omega
      rw [getD_append_right _ _ _ _ (by rw [hlen, Nat.mul_succ]; omega), hlen, hidx,
        ih (n + 1) (Nat.lt_of_succ_lt_succ hk) hj, getElem_cons_succ, Nat.add_assoc,
        Nat.add_comm 1 k]

/-- Entry `k` of the root directory, after the two for the directory itself. -/
lemma getD_layout_root (files : List Input) {k j : Nat} (hk : k < files.length) (hj : j < direntSize) :
    (layout files ROOTINO).getD (direntSize * (k + 2) + j) 0 =
      (newDirent files[k].name (2 + k)).bytes j := by
  have hlen : (entry dot ROOTINO ++ entry dotdot ROOTINO).length = direntSize * 2 := by
    rw [length_append, length_entry, length_entry, Nat.mul_two]
  have hidx : direntSize * (k + 2) + j - direntSize * 2 = direntSize * k + j := by
    rw [Nat.mul_add]
    omega
  rw [layout_root, getD_append_right _ _ _ _ (by rw [hlen, Nat.mul_add]; omega), hlen, hidx,
    getD_entries files 2 hk hj]

lemma getD_layout_dot (files : List Input) (hj : j < direntSize) :
    (layout files ROOTINO).getD j 0 = (newDirent dot ROOTINO).bytes j := by
  rw [layout_root, append_assoc, getD_append _ _ _ _ (by rwa [length_entry]), getD_entry _ _ hj]

lemma getD_layout_dotdot (files : List Input) (hj : j < direntSize) :
    (layout files ROOTINO).getD (direntSize + j) 0 = (newDirent dotdot ROOTINO).bytes j := by
  have hlen := length_entry dot ROOTINO
  have hidx : direntSize + j - direntSize = j := Nat.add_sub_cancel_left ..
  rw [layout_root, append_assoc, getD_append_right _ _ _ _ (by rw [hlen]; omega), hlen, hidx,
    getD_append _ _ _ _ (by rwa [length_entry]), getD_entry _ _ hj]

section Mounted

variable (h : Holds image (layout files) (files.length + 2)) (hs : Mounted image s) {k : Nat}

include h hs

lemma fileByte_eq (i k : Nat) : s.fileByte i k = (layout files i).getD k 0 := by
  rw [State.fileByte, h.blocks_eq hs, hs.disk]
  exact h.core.bytes i k

lemma dirent_eq_of_bytes {de : Dirent}
    (hbytes : ∀ j < direntSize, (layout files ROOTINO).getD (direntSize * k + j) 0 = de.bytes j) :
    s.dirent ROOTINO k = de := by
  rw [State.dirent, Dirent.ofBytes_congr (g := de.bytes), Dirent.ofBytes_bytes]
  intro j hj
  rw [fileByte_eq h hs, hbytes j hj]

lemma dirent_file (hk : k < files.length) : s.dirent ROOTINO (k + 2) = newDirent files[k].name (2 + k) :=
  dirent_eq_of_bytes h hs fun _ hj => getD_layout_root files hk hj

lemma dirent_dot : s.dirent ROOTINO 0 = newDirent dot ROOTINO :=
  dirent_eq_of_bytes h hs fun j hj => by
    rw [Nat.mul_zero, Nat.zero_add, getD_layout_dot files hj]

lemma dirent_dotdot : s.dirent ROOTINO 1 = newDirent dotdot ROOTINO :=
  dirent_eq_of_bytes h hs fun j hj => by
    rw [Nat.mul_one, getD_layout_dotdot files hj]

/-- The entries that `mkfs` wrote are all there. -/
lemma root_present (hk : k < files.length + 2) : s.Present ROOTINO k := by
  intro j hj
  have hlen := length_layout_root files
  have hlt : direntSize * j + direntSize ≤ direntSize * (files.length + 2) := by
    rw [← Nat.mul_succ]
    exact Nat.mul_le_mul_left _ (by omega)
  have hpos : 0 < direntSize := by decide
  constructor
  · rw [h.fileSize_root hs]
    have hdiv := Nat.lt_div_mul_add (a := (layout files ROOTINO).length) (b := BSIZE) (by decide)
    rw [Nat.succ_mul]
    omega
  · exact h.block_ne_none hs (by omega)

lemma contents_eq {i : Nat} (hi : i < NINODES) (hne : i ≠ ROOTINO) : s.contents i = layout files i := by
  have hsize := h.fileSize_eq hs hi hne
  apply ext_getElem
  · rw [length_contents, hsize]
  · intro k hk hk'
    rw [getElem_contents, fileByte_eq h hs, getD_eq_getElem _ _ hk']

end Mounted

/-! ### Lookup of a file -/

lemma Input.name_ne_zero (f : Input) : ∀ c ∈ f.name, c ≠ 0 := by
  intro c hc
  apply f.arg_ne_zero
  rw [Input.name] at hc
  split_ifs at hc
  · exact mem_of_mem_tail hc
  · exact hc

lemma Input.slash_notMem_name {f : Input} (h : slash ∉ f.arg) : slash ∉ f.name := by
  intro hmem
  apply h
  rw [Input.name] at hmem
  split_ifs at hmem
  · exact mem_of_mem_tail hmem
  · exact hmem

/-- The entry for another name is passed over. -/
lemma newDirent_misses {p q : Name} (hp : ∀ c ∈ p, c ≠ 0) (hq : ∀ c ∈ q, c ≠ 0)
    (hne : p.take DIRSIZ ≠ q.take DIRSIZ) (inum : Nat) : (newDirent q inum).Misses (p.take DIRSIZ) := by
  right
  rw [namecmpEq_newDirent (fun c hc => hp c (mem_of_mem_take hc)) hq, take_take, Nat.min_self]
  exact decide_eq_false hne

lemma newDirent_hits {p : Name} (hp : ∀ c ∈ p, c ≠ 0) {inum : Nat} (hpos : 0 < inum)
    (hlt : inum < 0x10000) : ¬ (newDirent p inum).Misses (p.take DIRSIZ) := by
  rintro (hzero | hname)
  · have hnat : inum % 0x10000 = 0 := congrArg BitVec.toNat hzero
    rw [Nat.mod_eq_of_lt hlt] at hnat
    exact Nat.ne_of_gt hpos hnat
  · rw [namecmpEq_newDirent (fun c hc => hp c (mem_of_mem_take hc)) hp, take_take, Nat.min_self] at hname
    exact of_decide_eq_false hname rfl

/-- The names differ in what the kernel compares. -/
structure Named (files : List Input) : Prop where
  ne_nil : ∀ f ∈ files, f.name ≠ []
  ne_dot : ∀ f ∈ files, f.name.take DIRSIZ ≠ dot.take DIRSIZ ∧ f.name.take DIRSIZ ≠ dotdot.take DIRSIZ
  distinct : files.Pairwise fun f g => f.name.take DIRSIZ ≠ g.name.take DIRSIZ

lemma misses_before (hnamed : Named files) (h : Holds image (layout files) (files.length + 2))
    (hs : Mounted image s) (hk : k < files.length) :
    ∀ j < k + 2, (s.dirent ROOTINO j).Misses (files[k].name.take DIRSIZ) := by
  have hzero := files[k].name_ne_zero
  have hdots := hnamed.ne_dot files[k] (getElem_mem hk)
  intro j hj
  match j with
  | 0 =>
    rw [dirent_dot h hs]
    exact newDirent_misses hzero (by decide) hdots.1 _
  | 1 =>
    rw [dirent_dotdot h hs]
    exact newDirent_misses hzero (by decide) hdots.2 _
  | j + 2 =>
    have hlt : j < k := Nat.lt_of_add_lt_add_right hj
    have hj' : j < files.length := Nat.lt_trans hlt hk
    rw [dirent_file h hs hj']
    exact newDirent_misses hzero files[j].name_ne_zero
      (pairwise_iff_getElem.mp hnamed.distinct j k hj' hk hlt).symm _

lemma Mounted.of_coherent (hs : Mounted image s) (ht : t.Coherent) (hsb : t.sb = s.sb)
    (hdisk : t.disk = s.disk) : Mounted image t :=
  ⟨hsb.trans hs.sb, hdisk.trans hs.disk, ht.entries, ht.once, ht.cached⟩

lemma typeOf_file {n k : Nat} (hk : k < n) : typeOf (n + 2) (2 + k) = T_FILE := by
  have hone : ROOTINO = 1 := rfl
  rw [typeOf, if_neg (by omega), if_neg (by omega)]

/-- The inode of a file, once it has been looked up. -/
lemma read_file (hinodes : files.length + 2 ≤ NINODES) (h : Holds image (layout files) (files.length + 2))
    (ht : Mounted image t) {e : EntryId} (hk : k < files.length) (href : 0 < (t.icache e).ref)
    (hinum : (t.icache e).inum = 2 + k) :
    ∃ u, ilock e t = .ok ((), u) ∧ (u.icache e).din.type = T_FILE ∧
      (u.icache e).din.size.toNat = files[k].data.length ∧
      readi e 0 (BitVec.ofNat 32 files[k].data.length) u = .ok (some files[k].data, u) := by
  have hlt : 2 + k < NINODES := by omega
  have hne : 2 + k ≠ ROOTINO := by
    have hone : ROOTINO = 1 := rfl
    omega
  have htype : (dinodes t.sb t.disk (2 + k)).type = T_FILE := by
    rw [h.sb_eq ht, ht.disk, h.type _ hlt, typeOf_file hk]
  have halloc : (dinodes t.sb t.disk (t.icache e).inum).type ≠ 0 := by
    rw [hinum, htype]
    decide
  obtain ⟨_, u, hlock, hu, hcached, hsb, hdisk, -, hicache⟩ :=
    (ilock_ends_of_alloc (h.coherent ht) href halloc).exists_ok
  have hmount := ht.of_coherent hu hsb hdisk
  have hinum' : (u.icache e).inum = 2 + k := (hicache e).1.trans hinum
  have hcontents := contents_eq h hmount hlt hne
  rw [layout_file files hk] at hcontents
  have hlen : u.fileSize (2 + k) = files[k].data.length := by
    rw [← length_contents, hcontents]
  have hsize : files[k].data.length < 0x100000000 := hlen ▸ (dinodes u.sb u.disk _).size.isLt
  have hword : (BitVec.ofNat 32 files[k].data.length).toNat = files[k].data.length :=
    Nat.mod_eq_of_lt hsize
  refine ⟨u, hlock, ?_, ?_, ?_⟩
  · rw [(hu.cached e hcached).1, hinum', hsb, hdisk, htype]
  · rw [hu.size_eq hcached, hinum', hlen]
  · have hread := readi_ends_of_present hu hcached (h.type_ne_dev hmount hcached) 0
      (BitVec.ofNat 32 files[k].data.length) (by
        intro j hj _ _
        rw [hinum', hlen] at hj
        rw [hinum']
        exact h.block_ne_none hmount (by rwa [layout_file files hk]))
    obtain ⟨r, v, hr, rfl, rfl⟩ := hread.exists_ok
    have hzero : (0 : Word).toNat = 0 := rfl
    have hyes : ¬ (files[k].data.length < 0 ∨ 0x100000000 ≤ 0 + files[k].data.length) := by
      rw [Nat.zero_add]
      exact not_or.mpr ⟨Nat.not_lt_zero _, Nat.not_le.mpr hsize⟩
    rw [hr, hinum', hcontents, hword, hzero, readBytes, if_neg hyes, drop_zero, take_length]

/-- `namei` finds the inode of a file. -/
lemma lookup_file (hnamed : Named files) (hslash : ∀ f ∈ files, slash ∉ f.arg)
    (hinodes : files.length + 2 ≤ NINODES) (h : Holds image (layout files) (files.length + 2))
    (hs : Mounted image s) (hfree : s.TwoFree) (hk : k < files.length) (cwd : EntryId) :
    ∃ e t, namei cwd (slash :: files[k].name) s = .ok (some e, t) ∧ Mounted image t ∧
      0 < (t.icache e).ref ∧ (t.icache e).inum = 2 + k := by
  have hmem := getElem_mem hk
  have hsb := h.sb_eq hs
  have hroot : typeOf (files.length + 2) ROOTINO = T_DIR := by
    rw [typeOf, if_neg (by simp [ROOTINO]), if_pos rfl]
  have hdir : (dinodes s.sb s.disk ROOTINO).type = T_DIR := by
    rw [hsb, hs.disk, h.type ROOTINO (by decide), hroot]
  have hnlink : (dinodes s.sb s.disk ROOTINO).nlink ≠ 0 := by
    rw [hsb, hs.disk, h.nlink ROOTINO (by decide) (by rw [hroot]; decide)]
    decide
  have hsmall : NINODES < 0x10000 := by decide
  have hdirent := dirent_file h hs hk
  have hinum : (s.dirent ROOTINO (k + 2)).inum.toNat = 2 + k := by
    rw [hdirent]
    exact Nat.mod_eq_of_lt (by omega)
  have hlookup := namei_root (h.coherent hs) hfree (by rw [hsb]; decide) hdir hnlink
    (hnamed.ne_nil _ hmem) (Input.slash_notMem_name (hslash _ hmem))
    (root_present h hs (Nat.add_lt_add_right hk 2)) (misses_before hnamed h hs hk)
    (by rw [hdirent]; exact newDirent_hits files[k].name_ne_zero (by omega) (by omega))
    (by rw [hinum]; exact Nat.ne_of_gt (Nat.lt_of_lt_of_le (by decide) (Nat.le_add_right 2 k)))
    (by rw [hinum, hsb, Nat.add_comm]; exact Nat.lt_of_lt_of_le (Nat.add_lt_add_right hk 2) hinodes) cwd
  obtain ⟨r, t, hrun, e, rfl, ht, hsb', hdisk', href, hinum'⟩ := hlookup.exists_ok
  exact ⟨e, t, hrun, hs.of_coherent ht hsb' hdisk', href, hinum'.trans hinum⟩

/-- For every list of files with names that differ for the kernel and that fit, `mkfs` builds an image, and on
    it `namei` finds each file as a regular file of the same length, whose contents `readi` returns. -/
theorem mkfs_files_read_back (hnamed : Named files) (hslash : ∀ f ∈ files, slash ∉ f.arg)
    (hinodes : files.length + 2 ≤ NINODES) (hmax : ∀ f ∈ files, f.data.length ≤ MAXFILE * BSIZE)
    (htotal : nmeta + cost (nblocks (direntSize * (files.length + 2))) + inputBlocks files ≤ FSSIZE) :
    ∃ image, main files = some image ∧ ∀ s, Mounted image s → s.TwoFree → ∀ cwd, ∀ f ∈ files,
      ∃ e t u, namei cwd (slash :: f.name) s = .ok (some e, t) ∧ ilock e t = .ok ((), u) ∧
        (u.icache e).din.type = T_FILE ∧ (u.icache e).din.size.toNat = f.data.length ∧
        readi e 0 (BitVec.ofNat 32 f.data.length) u = .ok (some f.data, u) := by
  obtain ⟨image, hmain⟩ := exists_main hinodes hslash (layout_room hinodes hmax htotal)
  refine ⟨image, hmain, ?_⟩
  intro s hs hfree cwd f hf
  have h := main_eq_some hinodes hmain
  obtain ⟨k, hk, rfl⟩ := List.getElem_of_mem hf
  obtain ⟨e, t, hrun, ht, href, hinum⟩ := lookup_file hnamed hslash hinodes h hs hfree hk cwd
  obtain ⟨u, hlock, htype, hsize, hread⟩ := read_file hinodes h ht hk href hinum
  exact ⟨e, t, u, hrun, hlock, htype, hsize, hread⟩

/-- A file `_cat` of three bytes. -/
def catInput : Input := ⟨[0x5f, 0x63, 0x61, 0x74], by decide, [[0x7f, 0x45], [0x4c]], by decide⟩

lemma boot_twoFree (image : Disk) : (boot image).TwoFree :=
  ⟨0, by decide, 1, by decide, by decide, rfl, rfl⟩

theorem mkfs_files_read_back_cat : ∃ image, main [catInput] = some image ∧
    ∃ e t u, namei 0 [slash, 0x63, 0x61, 0x74] (boot image) = .ok (some e, t) ∧ ilock e t = .ok ((), u) ∧
      (u.icache e).din.type = T_FILE ∧ (u.icache e).din.size.toNat = 3 ∧
      readi e 0 3 u = .ok (some [0x7f, 0x45, 0x4c], u) := by
  obtain ⟨image, hmain, hread⟩ := @mkfs_files_read_back [catInput]
    ⟨by decide, by decide, List.pairwise_singleton _ _⟩ (by decide) (by decide) (by decide) (by decide)
  exact ⟨image, hmain, hread _ (boot_mounted image) (boot_twoFree image) 0 catInput List.mem_cons_self⟩

end Xv6.Mkfs
