import Mathlib.Algebra.Order.BigOperators.Group.Finset
import Xv6.Fs.FileContents
import Xv6.Fs.MkfsBuild

/-!
# The image that `mkfs` builds

What holds of the image after each step of `mkfs`: the inodes are allocated in order, each file has the
bytes that were appended to it, and the blocks before `freeblock` are those that the files take.
-/

namespace Xv6.Mkfs

open Machine Function List
open Log (Block BSIZE)
open Blocks hiding State

/-! ### The files and the room they take -/

/-- The first free block when the image holds these files. -/
def total (files : Nat → List Byte) : Nat :=
  nmeta + ∑ j ∈ Finset.range NINODES, cost (nblocks (files j).length)

/-- The files fit into the image. -/
def Room (files : Nat → List Byte) : Prop :=
  (∀ j, (files j).length ≤ MAXFILE * BSIZE) ∧ total files ≤ FSSIZE

variable {files files' : Nat → List Byte} {s t : State} {i : Nat} {b : Nat} {fs : List Input} {type : Short}

/-- The files with `data` appended to file `i`. -/
def append (files : Nat → List Byte) (i : Nat) (data : List Byte) : Nat → List Byte :=
  Function.update files i (files i ++ data)

lemma append_self (files : Nat → List Byte) (i : Nat) (data : List Byte) :
    append files i data i = files i ++ data := update_self ..

lemma append_of_ne (files : Nat → List Byte) {j : Nat} (data : List Byte) (hj : j ≠ i) :
    append files i data j = files j := update_of_ne hj ..

lemma append_append (files : Nat → List Byte) (i : Nat) (d₁ d₂ : List Byte) :
    append (append files i d₁) i d₂ = append files i (d₁ ++ d₂) := by
  rw [append, append_self, append, append, update_idem, append_assoc]

lemma append_nil (files : Nat → List Byte) (i : Nat) : append files i [] = files := by
  rw [append, List.append_nil, update_eq_self]

lemma prefix_append (files : Nat → List Byte) (i : Nat) (data : List Byte) (j : Nat) :
    files j <+: append files i data j := by
  by_cases hj : j = i
  · subst hj
    rw [append_self]
    exact List.prefix_append ..
  · rw [append_of_ne files data hj]

lemma total_append (files : Nat → List Byte) (hi : i < NINODES) (data : List Byte) :
    total (append files i data) + cost (nblocks (files i).length) =
      total files + cost (nblocks ((files i).length + data.length)) := by
  have hmem := Finset.mem_range.mpr hi
  rw [total, total, ← Finset.add_sum_erase _ _ hmem,
    ← Finset.add_sum_erase _ (fun j => cost (nblocks (files j).length)) hmem, append_self, length_append]
  have hrest : ∑ j ∈ (Finset.range NINODES).erase i, cost (nblocks (append files i data j).length) =
      ∑ j ∈ (Finset.range NINODES).erase i, cost (nblocks (files j).length) := by
    apply Finset.sum_congr rfl
    intro j hj
    rw [append_of_ne files data (Finset.ne_of_mem_erase hj)]
  omega

lemma total_mono (h : ∀ j, files j <+: files' j) : total files ≤ total files' := by
  apply Nat.add_le_add_left
  apply Finset.sum_le_sum
  intro j _
  exact cost_mono (nblocks_mono (h j).length_le)

lemma Room.mono (h : Room files') (hpre : ∀ j, files j <+: files' j) : Room files :=
  ⟨fun j => (hpre j).length_le.trans (h.1 j), (total_mono hpre).trans h.2⟩

/-! ### The state between two calls -/

/-- The type of inode `j` when inode `n` is the next to be allocated. -/
def typeOf (n j : Nat) : Short := if j = 0 ∨ n ≤ j then 0 else if j = ROOTINO then T_DIR else T_FILE

def blocks (s : State) : Nat × Nat → Option Nat := refs sb s.image (dinodes sb s.image)

structure Built (s : State) (files : Nat → List Byte) : Prop where
  room : Room files
  free : s.freeblock = total files
  inodes : 1 ≤ s.freeinode ∧ s.freeinode ≤ NINODES
  core : Core s.image (blocks s) s.freeblock fun j k => (files j).getD k 0
  slots : ∀ j, Slots (blocks s) j (nblocks (files j).length)
  size : ∀ j < NINODES, (dinodes sb s.image j).size.toNat = (files j).length
  type : ∀ j < NINODES, (dinodes sb s.image j).type = typeOf s.freeinode j
  nlink : ∀ j < NINODES, typeOf s.freeinode j ≠ 0 → (dinodes sb s.image j).nlink = 1
  super : s.image 1 = emptyImage 1

lemma iblock_lt (hi : i < NINODES) : sb.IBLOCK i < nmeta := by
  have hlt := sb_wf.iblock_lt hi
  have hle : sb.bmapstart ≤ nmeta := by decide
  omega

lemma nmeta_lt : nmeta < FSSIZE := by decide

/-- The image with inode `i` replaced. -/
def withInode (s : State) (i : Nat) (din : Dinode) : State :=
  { s with image := setBlock s.image (sb.IBLOCK i) (putDinode (s.image (sb.IBLOCK i)) (i % IPB) din) }

lemma withInode_dinodes (s : State) (i : Nat) (din : Dinode) :
    dinodes sb (withInode s i din).image = update (dinodes sb s.image) i din := by
  funext j
  have hput := dinodes_putDinode sb s.image i j din
  rw [update_apply]
  exact hput

lemma withInode_of_ne (s : State) (din : Dinode) (hb : b ≠ sb.IBLOCK i) :
    (withInode s i din).image b = s.image b :=
  update_of_ne hb ..

lemma withInode_image (hi : i < NINODES) (s : State) (din : Dinode) (hb : nmeta ≤ b) :
    (withInode s i din).image b = s.image b := by
  have hlt := iblock_lt hi
  exact withInode_of_ne s din (by omega)

lemma withInode_super (s : State) (i : Nat) (din : Dinode) : (withInode s i din).image 1 = s.image 1 := by
  have hlt : 1 < sb.inodestart := by decide
  have hle : sb.inodestart ≤ sb.IBLOCK i := Nat.le_add_left ..
  exact withInode_of_ne s din (by omega)

lemma winode_ends (hi : i < NINODES) (din : Dinode) :
    Ends (winode i din) s (fun _ => False) fun _ t => t = withInode s i din := by
  apply Ends.bind (rsect_ends.imp ?_ fun _ _ hq => hq)
  · rintro _ _ ⟨-, rfl, rfl⟩
    exact rfl
  · intro _ hfull
    have hlt := iblock_lt hi
    have hlt' := nmeta_lt
    omega

lemma rinode_ends (hi : i < NINODES) :
    Ends (rinode i) s (fun _ => False) fun din t => din = dinodes sb s.image i ∧ t = s := by
  apply Ends.bind (rsect_ends.imp ?_ fun _ _ hq => hq)
  · rintro _ _ ⟨-, rfl, rfl⟩
    exact ⟨rfl, rfl⟩
  · intro _ hfull
    have hlt := iblock_lt hi
    have hlt' := nmeta_lt
    omega

/-- Writing an inode makes the pointers in the variable those of the image. -/
lemma withInode_blocks (hi : i < NINODES) {din din' : Dinode} (hsame : Dinode.SameBlocks din din')
    (hrange : ∀ x b, ptrs s i din x = some b → nmeta ≤ b) : blocks (withInode s i din') = ptrs s i din := by
  rw [blocks, withInode_dinodes]
  apply refs_congr
  · intro j _
    rw [update_apply, update_apply]
    split_ifs
    · exact hsame
    · exact ⟨rfl, rfl⟩
  · intro j a ha
    exact withInode_image hi s din' (hrange _ a ha)

lemma Core.congr {image image' : Disk} {R : Nat × Nat → Option Nat} {F : Nat} {bytes : Nat → Nat → Byte}
    (h : Core image R F bytes) (hF : nmeta ≤ F) (himage : ∀ b, nmeta ≤ b → image' b = image b) :
    Core image' R F bytes where
  once := h.once
  range := h.range
  onto := h.onto
  zero b hb j := by
    rw [himage b (Nat.le_trans hF hb)]
    exact h.zero b hb j
  bytes j k := by
    rw [← h.bytes, byteOfFile, byteOfFile]
    cases hb : R (j, slot (k / BSIZE)) with
    | none => rfl
    | some b => simp only [himage b (h.range _ b hb).1]

lemma ptrs_eq (s : State) (i : Nat) : ptrs s i (dinodes sb s.image i) = blocks s := by
  rw [ptrs, update_eq_self, blocks]

lemma Built.view (h : Built s files) (hi : i < NINODES) (ht : typeOf s.freeinode i ≠ 0) :
    View s i (dinodes sb s.image i) files where
  inum := hi
  type := by rwa [h.type i hi]
  free := by
    have hle := h.room.2
    rw [h.free]
    exact ⟨Nat.le_add_right .., by omega⟩
  core := by
    rw [ptrs_eq]
    exact h.core
  others j _ := by
    rw [ptrs_eq]
    exact h.slots j

/-- The inode is written back. -/
lemma Appended.built {data : List Byte} {din' : Dinode} (h : Built s files) (hi : i < NINODES)
    (hA : Appended s i (dinodes sb s.image i) files data t din') {size : Nat}
    (hsize : size = (files i).length + data.length) :
    Built (withInode t i { din' with size := BitVec.ofNat 32 size }) (append files i data) := by
  have hlen : (append files i data i).length = size := by
    rw [append_self, length_append, hsize]
  have hdin : ∀ j < NINODES, dinodes sb t.image j = dinodes sb s.image j := by
    intro j hj
    exact congrArg (fun bp => getDinode bp (j % IPB)) (hA.low _ (iblock_lt hj))
  have hblocks : blocks (withInode t i { din' with size := BitVec.ofNat 32 size }) = ptrs t i din' :=
    withInode_blocks hi ⟨rfl, rfl⟩ fun x b hb => (hA.view.core.range x b hb).1
  have hfree : t.freeblock = total (append files i data) := by
    have hsum := total_append files hi data
    have hfree := hA.free.2
    rw [h.free] at hfree
    omega
  constructor
  · refine ⟨fun j => ?_, by rw [← hfree]; exact hA.free.1⟩
    by_cases hj : j = i
    · subst hj
      rw [hlen, hsize]
      exact hA.length
    · rw [append_of_ne files data hj]
      exact h.room.1 j
  · exact hfree
  · rw [withInode, hA.freeinode]
    exact h.inodes
  · rw [hblocks]
    exact hA.view.core.congr hA.view.free.1 fun b hb => withInode_image hi t _ hb
  · intro j
    rw [hblocks]
    by_cases hj : j = i
    · subst hj
      rw [hlen, hsize]
      exact hA.slots
    · exact hA.view.others j hj
  · intro j hj
    rw [withInode_dinodes]
    by_cases hji : j = i
    · subst hji
      rw [hlen, update_self]
      have hmax : MAXFILE * BSIZE < 0x100000000 := by decide
      have hle := hA.length
      exact Nat.mod_eq_of_lt (by omega)
    · rw [append_of_ne files data hji, update_of_ne hji, hdin j hj]
      exact h.size j hj
  · intro j hj
    have hnext : (withInode t i { din' with size := BitVec.ofNat 32 size }).freeinode = s.freeinode :=
      hA.freeinode
    rw [withInode_dinodes, hnext]
    by_cases hji : j = i
    · subst hji
      rw [update_self]
      exact hA.type.trans (h.type j hj)
    · rw [update_of_ne hji, hdin j hj]
      exact h.type j hj
  · intro j hj halloc
    have hnext : (withInode t i { din' with size := BitVec.ofNat 32 size }).freeinode = s.freeinode :=
      hA.freeinode
    rw [hnext] at halloc
    rw [withInode_dinodes]
    by_cases hji : j = i
    · subst hji
      rw [update_self]
      exact hA.nlink.trans (h.nlink j hj halloc)
    · rw [update_of_ne hji, hdin j hj]
      exact h.nlink j hj halloc
  · rw [withInode_super, hA.low 1 (by decide)]
    exact h.super

/-- `iappend` appends, if there is room. -/
lemma iappend_ends (h : Built s files) (hi : i < NINODES) (ht : typeOf s.freeinode i ≠ 0)
    (p : Nat → Byte) (n : Nat) :
    Ends (iappend i p n) s (fun _ => ¬ Room (append files i (taken p n))) fun _ t =>
      Built t (append files i (taken p n)) ∧ t.freeinode = s.freeinode := by
  apply Ends.andThen (rinode_ends hi)
  rintro din _ ⟨rfl, rfl⟩
  rw [h.size i hi]
  apply Ends.bind ((appendLoop_ends n p n (h.view hi ht) (by rw [ptrs_eq]; exact h.slots i)
    (by rw [h.free]; exact h.room.2) (h.room.1 i) (Nat.le_refl n)).imp ?_ fun _ _ hq => hq)
  · rintro ⟨din', off⟩ t ⟨hoff, hA⟩
    refine (winode_ends hi _).imp (fun _ hf => hf.elim) ?_
    rintro _ _ rfl
    exact ⟨hA.built h hi (by rw [length_taken]; exact hoff), hA.freeinode⟩
  · rintro _ hno ⟨hlength, htotal⟩
    apply hno
    have hsum := total_append files hi (taken p n)
    have hlen := hlength i
    rw [append_self, length_append] at hlen
    rw [length_taken] at hsum hlen
    rw [Fits, h.free]
    omega

/-! ### New files -/

lemma Built.eq_nil (h : Built s files) (hj : typeOf s.freeinode i = 0) : files i = [] := by
  by_contra hne
  have hlen : 0 < (files i).length := length_pos_iff.mpr hne
  have hblock : 0 < nblocks (files i).length := by
    have hB : BSIZE = 512 := rfl
    rw [nblocks, hB]
    omega
  apply ((h.slots i).block 0).mpr hblock
  rw [blocks, refs]
  by_cases hi : i < NINODES
  · exact if_neg fun hand => hand.2 (by rw [h.type i hi, hj])
  · exact if_neg fun hand => hi hand.1

/-- The inode that `ialloc` writes. -/
def newInode (type : Short) : Dinode := { Dinode.zero with type := type, nlink := 1 }

lemma ptr_newInode (image : Disk) (type : Short) (k : Nat) : ptr image (newInode type) k = none := by
  have haddr : ∀ k, (newInode type).addr k = 0 := by
    intro k
    rw [Dinode.addr]
    split_ifs
    · rfl
    · rfl
  by_cases hk : k ≤ NDIRECT
  · rw [ptr_of_le hk, haddr, target_zero]
  · exact ptr_of_none (by rw [haddr, target_zero]) (by omega)

lemma typeOf_self (n : Nat) : typeOf n n = 0 := if_pos (.inr (Nat.le_refl n))

/-- The inodes are allocated in order. -/
lemma typeOf_succ {n j : Nat} (hj : j ≠ n) : typeOf (n + 1) j = typeOf n j := by
  have hiff : j = 0 ∨ n + 1 ≤ j ↔ j = 0 ∨ n ≤ j := by omega
  simp only [typeOf, hiff]

lemma Built.newInode (h : Built s files) (hlt : s.freeinode < NINODES)
    (htype : type = typeOf (s.freeinode + 1) s.freeinode) :
    Built (withInode { s with freeinode := s.freeinode + 1 } s.freeinode (newInode type)) files := by
  have hnil := h.eq_nil (typeOf_self s.freeinode)
  have himage : ∀ b, nmeta ≤ b →
      (withInode { s with freeinode := s.freeinode + 1 } s.freeinode (Mkfs.newInode type)).image b =
        s.image b := fun b hb => withInode_image hlt _ _ hb
  have hblocks : blocks (withInode { s with freeinode := s.freeinode + 1 } s.freeinode
      (Mkfs.newInode type)) = blocks s := by
    rw [blocks, withInode_dinodes]
    apply refs_alloc (i := s.freeinode)
    · rw [h.type _ hlt, typeOf_self]
    · intro k
      rw [update_self, ptr_newInode]
    · exact fun j _ hj => update_of_ne hj ..
    · exact fun j a ha => himage a (h.core.range _ a ha).1
  have hfree := Nat.le_add_right nmeta (∑ j ∈ Finset.range NINODES, cost (nblocks (files j).length))
  constructor
  · exact h.room
  · exact h.free
  · exact ⟨Nat.le_add_left .., hlt⟩
  · rw [hblocks]
    exact h.core.congr (by rwa [h.free, total]) himage
  · rw [hblocks]
    exact h.slots
  · intro j hj
    rw [withInode_dinodes, update_apply]
    split_ifs with hji
    · rw [hji, hnil]
      rfl
    · exact h.size j hj
  · intro j hj
    rw [withInode_dinodes, update_apply]
    split_ifs with hji
    · rw [hji]
      exact htype
    · exact (h.type j hj).trans (typeOf_succ hji).symm
  · intro j hj halloc
    rw [withInode_dinodes, update_apply]
    split_ifs with hji
    · rfl
    · exact h.nlink j hj (by rwa [← typeOf_succ hji])
  · rw [withInode_super]
    exact h.super

lemma ialloc_ends (h : Built s files) (hlt : s.freeinode < NINODES)
    (htype : type = typeOf (s.freeinode + 1) s.freeinode) :
    Ends (ialloc type) s (fun _ => False) fun inum t =>
      inum = s.freeinode ∧ Built t files ∧ t.freeinode = s.freeinode + 1 := by
  apply Ends.get_bind
  apply Ends.bind (Ends.modify (Q := fun _ t => t = { s with freeinode := s.freeinode + 1 }) rfl)
  rintro _ _ rfl
  apply Ends.bind (winode_ends hlt _)
  rintro _ _ rfl
  exact ⟨rfl, h.newInode hlt htype, rfl⟩

lemma taken_getD (buf : List Byte) : taken (fun j => buf.getD j 0) buf.length = buf := by
  apply ext_getElem
  · exact length_taken ..
  · intro j hj hj'
    simp [taken, hj']

lemma appendAll_ends (hi : i < NINODES) (bufs : List (List Byte)) : ∀ {s : State} {files : Nat → List Byte},
    Built s files → typeOf s.freeinode i ≠ 0 →
    Ends (appendAll i bufs) s (fun _ => ¬ Room (append files i bufs.flatten)) fun _ t =>
      Built t (append files i bufs.flatten) ∧ t.freeinode = s.freeinode := by
  induction bufs with
  | nil =>
    intro s files h _
    rw [flatten_nil, append_nil]
    exact ⟨h, rfl⟩
  | cons buf bufs ih =>
    intro s files h ht
    have hbuf := iappend_ends h hi ht (fun j => buf.getD j 0) buf.length
    rw [taken_getD] at hbuf
    rw [flatten_cons, ← append_append]
    apply Ends.bind (hbuf.imp (fun _ hno hroom => hno (hroom.mono (prefix_append _ i _))) fun _ _ hq => hq)
    rintro _ t ⟨hbuilt, hnext⟩
    refine (ih hbuilt (by rwa [hnext])).imp (fun _ hno => hno) ?_
    rintro _ u ⟨hbuilt', hnext'⟩
    exact ⟨hbuilt', hnext'.trans hnext⟩

def Input.data (f : Input) : List Byte := f.reads.flatten

/-- The directory entry that `mkfs` appends for a file. -/
def entry (name : List Byte) (inum : Nat) : List Byte := taken (newDirent name inum).bytes direntSize

/-- The files after `f` has been added with inode `n`. -/
def place (files : Nat → List Byte) (n : Nat) (f : Input) : Nat → List Byte :=
  append (append files ROOTINO (entry f.name n)) n f.data

def placeAll : (Nat → List Byte) → Nat → List Input → Nat → List Byte
  | files, _, [] => files
  | files, n, f :: fs => placeAll (place files n f) (n + 1) fs

lemma prefix_place (files : Nat → List Byte) (n : Nat) (f : Input) (j : Nat) : files j <+: place files n f j :=
  (prefix_append files ROOTINO _ j).trans (prefix_append _ n _ j)

lemma prefix_placeAll (fs : List Input) : ∀ (files : Nat → List Byte) (n j : Nat),
    files j <+: placeAll files n fs j := by
  induction fs with
  | nil => exact fun files n j => prefix_rfl
  | cons f fs ih => exact fun files n j => (prefix_place files n f j).trans (ih _ _ j)

lemma typeOf_root {n : Nat} (hn : 2 ≤ n) : typeOf n ROOTINO ≠ 0 := by
  have hroot : ¬ (ROOTINO = 0 ∨ n ≤ ROOTINO) := by
    have hone : ROOTINO = 1 := rfl
    omega
  rw [typeOf, if_neg hroot, if_pos rfl]
  decide

lemma typeOf_last {n : Nat} (hn : 2 ≤ n) : typeOf (n + 1) n = T_FILE := by
  have hone : ROOTINO = 1 := rfl
  rw [typeOf, if_neg (by omega), if_neg (by omega)]

lemma addFile_ends (h : Built s files) (hn : 2 ≤ s.freeinode) (hlt : s.freeinode < NINODES) (f : Input) :
    Ends (addFile f) s (fun _ => ¬ (slash ∉ f.arg ∧ Room (place files s.freeinode f))) fun _ t =>
      Built t (place files s.freeinode f) ∧ t.freeinode = s.freeinode + 1 := by
  apply Ends.bind (assert_ends ?_)
  · rintro _ s ⟨-, rfl⟩
    apply Ends.andThen (ialloc_ends h hlt (typeOf_last hn).symm)
    rintro _ t ⟨rfl, hbuilt, hnext⟩
    have hroot := iappend_ends hbuilt (i := ROOTINO) (by decide)
      (typeOf_root (by omega)) (newDirent f.name s.freeinode).bytes direntSize
    apply Ends.bind (hroot.imp ?_ fun _ _ hq => hq)
    · rintro _ u ⟨hbuilt', hnext'⟩
      refine (appendAll_ends hlt f.reads hbuilt' ?_).imp (fun _ hno hand => hno hand.2) ?_
      · rw [hnext', hnext, typeOf_last hn]
        decide
      · rintro _ v ⟨hbuilt'', hnext''⟩
        exact ⟨hbuilt'', hnext''.trans (hnext'.trans hnext)⟩
    · exact fun _ hno hand => hno (hand.2.mono (prefix_append _ _ _))
  · intro hcontains hand
    simp only [Bool.not_eq_false', contains_iff_mem] at hcontains
    exact hand.1 hcontains

lemma addFiles_ends (fs : List Input) : ∀ {s : State} {files : Nat → List Byte}, Built s files →
    2 ≤ s.freeinode → s.freeinode + fs.length ≤ NINODES →
    Ends (addFiles fs) s
      (fun _ => ¬ ((∀ f ∈ fs, slash ∉ f.arg) ∧ Room (placeAll files s.freeinode fs))) fun _ t =>
      Built t (placeAll files s.freeinode fs) ∧ t.freeinode = s.freeinode + fs.length := by
  induction fs with
  | nil => exact fun h _ _ => ⟨h, rfl⟩
  | cons f fs ih =>
    intro s files h hn hlen
    rw [length_cons] at hlen
    apply Ends.bind ((addFile_ends h hn (by omega) f).imp ?_ fun _ _ hq => hq)
    · rintro _ t ⟨hbuilt, hnext⟩
      have hrest := ih hbuilt (by omega) (by omega)
      rw [hnext] at hrest
      refine hrest.imp ?_ ?_
      · rintro _ hno ⟨hslash, hroom⟩
        exact hno ⟨fun g hg => hslash g (mem_cons_of_mem _ hg), hroom⟩
      · rintro _ u ⟨hbuilt', hnext'⟩
        refine ⟨hbuilt', ?_⟩
        rw [hnext', length_cons]
        omega
    · rintro _ hno ⟨hslash, hroom⟩
      exact hno ⟨hslash f mem_cons_self, hroom.mono (prefix_placeAll fs _ _)⟩

/-! ### The whole image -/

lemma emptyImage_of_ne (hb : b ≠ 1) : emptyImage b = fun _ => 0 := if_neg hb

lemma dinodes_emptyImage (j : Nat) : dinodes sb emptyImage j = Dinode.zero := by
  have hle : sb.inodestart ≤ sb.IBLOCK j := Nat.le_add_left ..
  have hlt : 1 < sb.inodestart := by decide
  have hbyte : ∀ k, Bytes.byte (fun _ => 0 : Block) k = 0 := by
    intro k
    simp [Bytes.byte]
  rw [dinodes, emptyImage_of_ne (by omega), getDinode]
  simp only [hbyte]
  simp [Dinode.ofBytes, Dinode.zero, shortAt, wordAt]

lemma cost_nblocks_zero : cost (nblocks 0) = 0 := by decide

lemma total_nil : total (fun _ => []) = nmeta := by
  simp [total, cost_nblocks_zero]

lemma start_built : Built start fun _ => [] := by
  have hblocks : blocks start = fun _ => none := by
    funext x
    rw [blocks, start, refs]
    exact if_neg fun hand => hand.2 (by rw [dinodes_emptyImage]; rfl)
  constructor
  · exact ⟨fun _ => Nat.zero_le _, total_nil ▸ Nat.le_of_lt nmeta_lt⟩
  · exact total_nil.symm
  · exact ⟨Nat.le_refl _, by decide⟩
  · rw [hblocks]
    refine ⟨?_, ?_, ?_, ?_, ?_⟩
    · intro x y b hx
      cases hx
    · intro x b hx
      cases hx
    · exact fun b hlo hhi => absurd hlo (Nat.not_le.mpr hhi)
    · intro b hb j
      have hmeta : 1 < nmeta := by decide
      have hge : nmeta ≤ b := hb
      have hzero : start.image b = fun _ => 0 := emptyImage_of_ne (by omega)
      rw [hzero]
      simp [Bytes.byte]
    · exact fun _ _ => rfl
  · intro j
    rw [hblocks]
    constructor
    · intro bn
      exact iff_of_false (fun hne => hne rfl) (Nat.not_lt_zero _)
    · exact iff_of_false (fun hne => hne rfl) (Nat.not_lt_zero _)
  · intro j _
    rw [start, dinodes_emptyImage]
    rfl
  · intro j _
    have hfree : j = 0 ∨ 1 ≤ j := Nat.eq_zero_or_pos j
    rw [start, dinodes_emptyImage, typeOf, if_pos hfree]
    rfl
  · intro j _ hne
    exact absurd (if_pos (Nat.eq_zero_or_pos j)) hne
  · rfl

/-- The files of the image for a list of inputs. -/
def layout (fs : List Input) : Nat → List Byte :=
  placeAll (append (append (fun _ => []) ROOTINO (entry dot ROOTINO)) ROOTINO (entry dotdot ROOTINO)) 2 fs

/-- The entries of the root directory for the files from inode `n` on. -/
def entries : Nat → List Input → List Byte
  | _, [] => []
  | n, f :: fs => entry f.name n ++ entries (n + 1) fs

lemma length_entry (name : List Byte) (inum : Nat) : (entry name inum).length = direntSize := length_taken ..

lemma length_entries (fs : List Input) : ∀ n, (entries n fs).length = direntSize * fs.length := by
  induction fs with
  | nil => exact fun _ => rfl
  | cons f fs ih =>
    intro n
    rw [entries, length_append, length_entry, ih, length_cons, Nat.mul_succ, Nat.add_comm]

lemma placeAll_root (fs : List Input) : ∀ {files : Nat → List Byte} {n : Nat}, 2 ≤ n →
    placeAll files n fs ROOTINO = files ROOTINO ++ entries n fs := by
  induction fs with
  | nil => exact fun _ => (List.append_nil _).symm
  | cons f fs ih =>
    intro files n hn
    have hne : ROOTINO ≠ n := Nat.ne_of_lt hn
    rw [placeAll, ih (by omega), place, append_of_ne _ _ hne, append_self, entries, append_assoc]

lemma layout_root (fs : List Input) :
    layout fs ROOTINO = entry dot ROOTINO ++ entry dotdot ROOTINO ++ entries 2 fs := by
  rw [layout, placeAll_root fs (Nat.le_refl 2), append_append, append_self, nil_append]

lemma length_layout_root (fs : List Input) : (layout fs ROOTINO).length = direntSize * (fs.length + 2) := by
  rw [layout_root, length_append, length_append, length_entry, length_entry, length_entries, Nat.mul_add]
  omega

lemma placeAll_file (fs : List Input) : ∀ {files : Nat → List Byte} {n : Nat} {j : Nat}, 2 ≤ n →
    j ≠ ROOTINO → placeAll files n fs j =
      files j ++ if n ≤ j then (fs[j - n]?.map Input.data).getD [] else [] := by
  induction fs with
  | nil =>
    intro files n j _ _
    simp [placeAll]
  | cons f fs ih =>
    intro files n j hn hj
    rw [placeAll, ih (by omega) hj, place]
    rcases Nat.lt_trichotomy j n with hlt | rfl | hgt
    · rw [append_of_ne _ _ (Nat.ne_of_lt hlt), append_of_ne _ _ hj, if_neg (by omega), if_neg (by omega)]
    · rw [append_self, append_of_ne _ _ hj, if_neg (by omega), if_pos (Nat.le_refl _)]
      simp
    · obtain ⟨k, rfl⟩ := Nat.exists_eq_add_of_lt hgt
      have hidx : n + k + 1 - n = k + 1 := by omega
      have hidx' : n + k + 1 - (n + 1) = k := by omega
      rw [append_of_ne _ _ (Nat.ne_of_gt hgt), append_of_ne _ _ hj, if_pos (by omega), if_pos (by omega),
        hidx, hidx', List.getElem?_cons_succ]

lemma layout_file (fs : List Input) {k : Nat} (hk : k < fs.length) : layout fs (2 + k) = fs[k].data := by
  have hne : 2 + k ≠ ROOTINO := by
    have hone : ROOTINO = 1 := rfl
    omega
  rw [layout, placeAll_file fs (Nat.le_refl 2) hne, append_append, append_of_ne _ _ hne,
    if_pos (by omega), Nat.add_sub_cancel_left, List.getElem?_eq_getElem hk]
  rfl

/-- The blocks that the contents of the inputs take. -/
def inputBlocks : List Input → Nat
  | [] => 0
  | f :: fs => cost (nblocks f.data.length) + inputBlocks fs

lemma total_placeAll (fs : List Input) : ∀ {files : Nat → List Byte} {n : Nat}, 2 ≤ n →
    n + fs.length ≤ NINODES → (∀ j, n ≤ j → files j = []) →
    total (placeAll files n fs) + cost (nblocks (files ROOTINO).length) =
      total files + cost (nblocks ((files ROOTINO).length + direntSize * fs.length)) + inputBlocks fs := by
  induction fs with
  | nil =>
    intro files n _ _ _
    have hzero : inputBlocks [] = 0 := rfl
    rw [placeAll, length_nil, Nat.mul_zero, Nat.add_zero, hzero, Nat.add_zero]
  | cons f fs ih =>
    intro files n hn hlen hnil
    have hne : ROOTINO ≠ n := Nat.ne_of_lt hn
    rw [length_cons] at hlen
    have hrest := @ih (place files n f) (n + 1) (by omega) (by omega) (by
      intro j hj
      have hjn : j ≠ n := by omega
      have hjr : j ≠ ROOTINO := by
        have hone : ROOTINO = 1 := rfl
        omega
      rw [place, append_of_ne _ _ hjn, append_of_ne _ _ hjr, hnil j (by omega)])
    have hroot := total_append files (i := ROOTINO) (by decide) (entry f.name n)
    have hfile := total_append (append files ROOTINO (entry f.name n)) (i := n) (by omega) f.data
    rw [append_of_ne _ _ hne.symm, hnil n (Nat.le_refl n), length_nil, Nat.zero_add,
      cost_nblocks_zero, Nat.add_zero] at hfile
    rw [length_entry] at hroot
    have hself : (place files n f ROOTINO).length = (files ROOTINO).length + direntSize := by
      rw [place, append_of_ne _ _ hne, append_self, length_append, length_entry]
    have hplace : total (place files n f) =
        total (append files ROOTINO (entry f.name n)) + cost (nblocks f.data.length) := hfile
    have hblocks : inputBlocks (f :: fs) = cost (nblocks f.data.length) + inputBlocks fs := rfl
    have hlength : (files ROOTINO).length + direntSize + direntSize * fs.length =
        (files ROOTINO).length + direntSize * (f :: fs).length := by
      rw [length_cons, Nat.mul_succ]
      omega
    rw [hself, hlength] at hrest
    rw [placeAll, hblocks]
    omega

lemma total_layout (fs : List Input) (hlen : fs.length + 2 ≤ NINODES) :
    total (layout fs) = nmeta + cost (nblocks (direntSize * (fs.length + 2))) + inputBlocks fs := by
  have hroot : ROOTINO < NINODES := by decide
  have hempty := total_nil
  have hdots := total_append (fun _ => []) hroot (entry dot ROOTINO ++ entry dotdot ROOTINO)
  have hall := @total_placeAll fs
    (append (fun _ => []) ROOTINO (entry dot ROOTINO ++ entry dotdot ROOTINO)) 2 (Nat.le_refl 2)
    (by omega) (by
      intro j hj
      exact append_of_ne _ _ (Nat.ne_of_gt hj))
  rw [length_append, length_entry, length_entry, length_nil, cost_nblocks_zero, Nat.zero_add,
    Nat.add_zero] at hdots
  rw [append_self, nil_append, length_append, length_entry, length_entry] at hall
  have hlength : direntSize + direntSize + direntSize * fs.length = direntSize * (fs.length + 2) := by
    rw [Nat.mul_add]
    omega
  rw [hlength] at hall
  rw [layout, append_append]
  omega

/-- There is room if each file has at most `MAXFILE` blocks and all of them fit. -/
lemma layout_room (hlen : fs.length + 2 ≤ NINODES) (hmax : ∀ f ∈ fs, f.data.length ≤ MAXFILE * BSIZE)
    (htotal : nmeta + cost (nblocks (direntSize * (fs.length + 2))) + inputBlocks fs ≤ FSSIZE) :
    Room (layout fs) := by
  refine ⟨fun j => ?_, by rwa [total_layout fs hlen]⟩
  by_cases hroot : j = ROOTINO
  · subst hroot
    have hsmall : direntSize * NINODES ≤ MAXFILE * BSIZE := by decide
    rw [length_layout_root]
    exact (Nat.mul_le_mul_left _ hlen).trans hsmall
  · rw [layout, placeAll_file fs (Nat.le_refl 2) hroot, append_append, append_of_ne _ _ hroot, nil_append]
    split_ifs
    · cases hget : fs[j - 2]? with
      | none => exact Nat.zero_le _
      | some f => exact hmax f (mem_of_getElem? hget)
    · exact Nat.zero_le _

/-- What the image holds, with `n` the number of the next inode. -/
structure Holds (image : Disk) (files : Nat → List Byte) (n : Nat) : Prop where
  room : Room files
  core : Core image (refs sb image (dinodes sb image)) (total files) fun j k => (files j).getD k 0
  slots : ∀ j, Slots (refs sb image (dinodes sb image)) j (nblocks (files j).length)
  root : (dinodes sb image ROOTINO).size.toNat = ((files ROOTINO).length / BSIZE + 1) * BSIZE
  size : ∀ j < NINODES, j ≠ ROOTINO → (dinodes sb image j).size.toNat = (files j).length
  type : ∀ j < NINODES, (dinodes sb image j).type = typeOf n j
  nlink : ∀ j < NINODES, typeOf n j ≠ 0 → (dinodes sb image j).nlink = 1
  used : ∀ b < FSSIZE, used sb image b = decide (b < total files)
  super : image 1 = emptyImage 1

/-- The bitmap of `balloc`. -/
lemma isUsed_foldl_markUsed (n : Nat) (hb : b < BPB) :
    isUsed ((List.range n).foldl markUsed fun _ => 0) b = decide (b < n) := by
  induction n with
  | zero =>
    simp only [range_zero, foldl_nil, isUsed, Bytes.byte]
    split_ifs <;> simp [hasBit]
  | succ n ih =>
    rw [range_succ, foldl_append, foldl_cons, foldl_nil, isUsed_markUsed _ hb, ih, ← Bool.decide_or]
    congr 1
    rw [Nat.lt_succ_iff_lt_or_eq]

/-- The size of the root directory is rounded up and the bitmap is written. -/
lemma Built.holds (h : Built s files) {size : Nat}
    (hsize : size = ((files ROOTINO).length / BSIZE + 1) * BSIZE) :
    Holds (setBlock (withInode s ROOTINO
      { dinodes sb s.image ROOTINO with size := BitVec.ofNat 32 size }).image sb.bmapstart
      ((List.range s.freeblock).foldl markUsed fun _ => 0)) files s.freeinode := by
  have hroot : ROOTINO < NINODES := by decide
  have hbmap : sb.bmapstart < nmeta := by decide
  generalize hu : withInode s ROOTINO { dinodes sb s.image ROOTINO with size := BitVec.ofNat 32 size } = u
  generalize hbits : ((List.range s.freeblock).foldl markUsed fun _ => 0 : Block) = bits
  have himage : ∀ b, nmeta ≤ b → setBlock u.image sb.bmapstart bits b = s.image b := by
    intro b hb
    have hne : b ≠ sb.bmapstart := by omega
    rw [setBlock, update_of_ne hne, ← hu]
    exact withInode_image hroot _ _ hb
  have hdin : ∀ j < NINODES, dinodes sb (setBlock u.image sb.bmapstart bits) j =
      if j = ROOTINO then { dinodes sb s.image ROOTINO with size := BitVec.ofNat 32 size }
      else dinodes sb s.image j := by
    intro j hj
    rw [dinodes_setBlock sb_wf (Nat.le_refl _) _ hj, ← hu, withInode_dinodes, update_apply]
  have hblocks : refs sb (setBlock u.image sb.bmapstart bits)
      (dinodes sb (setBlock u.image sb.bmapstart bits)) = blocks s := by
    apply refs_congr
    · intro j hj
      rw [hdin j hj]
      split_ifs with hji
      · subst hji
        exact ⟨rfl, rfl⟩
      · exact ⟨rfl, rfl⟩
    · exact fun j a ha => himage a (h.core.range _ a ha).1
  have hfree : nmeta ≤ total files := Nat.le_add_right ..
  constructor
  · exact h.room
  · rw [hblocks, ← h.free]
    exact h.core.congr (h.free ▸ hfree) himage
  · rw [hblocks]
    exact h.slots
  · rw [hdin ROOTINO hroot, if_pos rfl, ← hsize]
    have hmax : MAXFILE * BSIZE + BSIZE < 0x100000000 := by decide
    have hdiv := Nat.div_mul_le_self (files ROOTINO).length BSIZE
    have hlen := h.room.1 ROOTINO
    rw [Nat.succ_mul] at hsize
    exact Nat.mod_eq_of_lt (by omega)
  · intro j hj hne
    rw [hdin j hj, if_neg hne]
    exact h.size j hj
  · intro j hj
    rw [hdin j hj]
    split_ifs with hji
    · subst hji
      exact h.type ROOTINO hj
    · exact h.type j hj
  · intro j hj hne
    rw [hdin j hj]
    split_ifs with hji
    · subst hji
      exact h.nlink ROOTINO hj hne
    · exact h.nlink j hj hne
  · intro b hb
    have hlt : b < BPB := Nat.lt_trans hb (by decide)
    have hblock : sb.BBLOCK b = sb.bmapstart := by
      rw [Superblock.BBLOCK, Nat.div_eq_of_lt hlt, Nat.zero_add]
    rw [used, hblock, setBlock, update_self, Nat.mod_eq_of_lt hlt, ← hbits,
      isUsed_foldl_markUsed _ hlt, h.free]
  · have hne : 1 ≠ sb.bmapstart := by decide
    rw [setBlock, update_of_ne hne, ← hu, withInode_super]
    exact h.super

lemma finish_ends (h : Built s files) :
    Ends (do fixRoot; let s ← get; balloc s.freeblock) s (fun _ => False) fun _ t =>
      Holds t.image files s.freeinode := by
  have hroot : ROOTINO < NINODES := by decide
  apply Ends.bind (Q := fun _ t => t = withInode s ROOTINO { dinodes sb s.image ROOTINO with
    size := BitVec.ofNat 32 (((files ROOTINO).length / BSIZE + 1) * BSIZE) })
  · apply Ends.bind (rinode_ends hroot)
    rintro din s ⟨rfl, rfl⟩
    rw [h.size ROOTINO hroot]
    exact winode_ends hroot _
  · rintro _ t rfl
    apply Ends.get_bind
    apply Ends.bind (assert_ends ?_)
    · rintro _ t ⟨-, rfl⟩
      exact h.holds rfl
    · intro hfull
      have hle := h.room.2
      have hlt : FSSIZE < BSIZE * 8 := by decide
      rw [← h.free] at hle
      exact of_decide_eq_false hfull (Nat.lt_of_le_of_lt hle hlt)

lemma build_ends (fs : List Input) (hlen : fs.length + 2 ≤ NINODES) :
    Ends (build fs) start (fun _ => ¬ ((∀ f ∈ fs, slash ∉ f.arg) ∧ Room (layout fs))) fun _ t =>
      Holds t.image (layout fs) (fs.length + 2) := by
  have hroot : ROOTINO < NINODES := by decide
  have hpre := prefix_placeAll fs
    (append (append (fun _ => []) ROOTINO (entry dot ROOTINO)) ROOTINO (entry dotdot ROOTINO)) 2
  apply Ends.andThen (ialloc_ends start_built (by decide) (by decide))
  rintro rootino s ⟨rfl, h, hnext⟩
  have htype : typeOf s.freeinode ROOTINO ≠ 0 := by
    rw [hnext]
    exact typeOf_root (Nat.le_refl _)
  apply Ends.bind (assert_ends fun hne => by cases hne)
  rintro _ s ⟨-, rfl⟩
  apply Ends.bind ((iappend_ends h hroot htype _ direntSize).imp ?_ fun _ _ hq => hq)
  · rintro _ t ⟨h₁, hnext₁⟩
    apply Ends.bind ((iappend_ends h₁ hroot (by rwa [hnext₁]) _ direntSize).imp ?_ fun _ _ hq => hq)
    · rintro _ u ⟨h₂, hnext₂⟩
      have hu : u.freeinode = 2 := hnext₂.trans (hnext₁.trans hnext)
      have hfiles := addFiles_ends fs h₂ (by omega) (by omega)
      rw [hu] at hfiles
      apply Ends.bind hfiles
      rintro _ v ⟨hbuilt, hnext₃⟩
      rw [Nat.add_comm, ← hnext₃]
      exact (finish_ends hbuilt).imp (fun _ hf => hf.elim) fun _ _ hq => hq
    · exact fun _ hno hand => hno (hand.2.mono hpre)
  · exact fun _ hno hand => hno (hand.2.mono fun j => (prefix_append _ _ _ j).trans (hpre j))

lemma main_eq_some {image : Disk} (hlen : fs.length + 2 ≤ NINODES) (hmain : main fs = some image) :
    Holds image (layout fs) (fs.length + 2) := by
  rw [main] at hmain
  cases hrun : build fs start with
  | error =>
    rw [hrun] at hmain
    cases hmain
  | ok =>
    rw [hrun] at hmain
    cases hmain
    exact (build_ends fs hlen).of_ok hrun

/-- `mkfs` builds an image if the names have no slash and there is room. -/
lemma exists_main (hlen : fs.length + 2 ≤ NINODES) (hslash : ∀ f ∈ fs, slash ∉ f.arg)
    (hroom : Room (layout fs)) : ∃ image, main fs = some image := by
  have hends := (build_ends fs hlen).imp (fun _ hno => hno ⟨hslash, hroom⟩) fun _ _ hq => hq
  obtain ⟨_, t, hrun, -⟩ := hends.exists_ok
  exact ⟨t.image, by rw [main, hrun]⟩

/-! ### The image as the kernel finds it -/

/-- The kernel runs on the image, and its inode cache agrees with the disk. -/
structure Mounted (image : Disk) (s : Blocks.State) : Prop where
  sb : s.sb = Superblock.ofBytes (image 1).byte
  disk : s.disk = image
  entries : ∀ e, 0 < (s.icache e).ref → e < NINODE ∧ (s.icache e).inum < s.sb.ninodes
  once : ∀ e e', 0 < (s.icache e).ref → 0 < (s.icache e').ref →
    (s.icache e).inum = (s.icache e').inum → e = e'
  cached : ∀ e, s.Cached e →
    (s.icache e).din = dinodes s.sb s.disk (s.icache e).inum ∧ (s.icache e).din.type ≠ 0

lemma superblock_emptyImage : Superblock.ofBytes (emptyImage 1).byte = sb := by decide

section Mounted

variable {image : Disk} {n : Nat} {s : Blocks.State}

section

variable (h : Holds image files n)

include h

section

variable (hs : Mounted image s)

include hs

lemma Holds.sb_eq : s.sb = sb := by
  rw [hs.sb, h.super, superblock_emptyImage]

lemma Holds.blocks_eq : s.blocks = refs sb image (dinodes sb image) := by
  rw [State.blocks, h.sb_eq hs, hs.disk]

lemma Holds.used_eq (hb : b < FSSIZE) : s.used b = decide (b < total files) := by
  rw [State.used, h.sb_eq hs, hs.disk, h.used b hb]

lemma Holds.coherent : s.Coherent := by
  have hblocks := h.blocks_eq hs
  have hsb := h.sb_eq hs
  have hle := h.room.2
  refine ⟨hsb ▸ sb_wf, ⟨?_, ?_, ?_, ?_⟩, hs.entries, hs.once, hs.cached⟩
  · rw [hblocks]
    exact h.core.once
  · intro x b hx
    rw [hblocks] at hx
    obtain ⟨hlo, hhi⟩ := h.core.range x b hx
    rw [hsb, Superblock.Data, sb_datastart]
    exact ⟨hlo, Nat.lt_of_lt_of_le hhi hle⟩
  · intro x b hx
    rw [hblocks] at hx
    have hhi := (h.core.range x b hx).2
    rw [h.used_eq hs (Nat.lt_of_lt_of_le hhi hle)]
    exact decide_eq_true hhi
  · intro b hb
    rw [hsb, sb_datastart] at hb
    have hlt : b < total files := Nat.lt_of_lt_of_le hb (Nat.le_add_right ..)
    rw [h.used_eq hs (Nat.lt_of_lt_of_le hlt hle)]
    exact decide_eq_true hlt

/-- The bytes of a file have their blocks; in the root directory there may be one block too few. -/
lemma Holds.block_ne_none {i k : Nat}
    (hk : k < (files i).length) : s.blocks (i, slot (k / BSIZE)) ≠ none := by
  rw [h.blocks_eq hs]
  apply ((h.slots i).block _).mpr
  have hB : BSIZE = 512 := rfl
  rw [nblocks, hB]
  omega

lemma Holds.fileSize_eq {i : Nat} (hi : i < NINODES)
    (hne : i ≠ ROOTINO) : s.fileSize i = (files i).length := by
  rw [State.fileSize, h.sb_eq hs, hs.disk]
  exact h.size i hi hne

lemma Holds.fileSize_root : s.fileSize ROOTINO = ((files ROOTINO).length / BSIZE + 1) * BSIZE := by
  rw [State.fileSize, h.sb_eq hs, hs.disk, h.root]

/-- Nothing is missing if the root directory does not end with its last block. -/
lemma Holds.sound (hround : (files ROOTINO).length % BSIZE ≠ 0) : s.Sound := by
  refine .of_coherent (h.coherent hs) ?_
  intro i hi k hk
  by_cases hroot : i = ROOTINO
  · subst hroot
    rw [h.fileSize_root hs] at hk
    rw [h.blocks_eq hs]
    apply ((h.slots ROOTINO).block _).mpr
    have hB : BSIZE = 512 := rfl
    rw [nblocks]
    rw [hB] at hk hround ⊢
    omega
  · have hlt := hi.1
    rw [h.sb_eq hs] at hlt
    rw [h.fileSize_eq hs hlt hroot] at hk
    exact h.block_ne_none hs hk

end

end

/-- A block number below the number of blocks of `n` bytes has a byte below `n`. -/
lemma mul_lt_of_lt_nblocks {bn n : Nat} (h : bn < nblocks n) : bn * BSIZE < n := by
  have hB : BSIZE = 512 := rfl
  rw [nblocks] at h
  rw [hB] at h ⊢
  omega

/-- No inode of the image is a device. -/
lemma Holds.type_ne_dev (h : Holds image files n) (hs : Mounted image s) {e : EntryId} (he : s.Cached e) :
    (s.icache e).din.type ≠ T_DEV := by
  have hlt := (hs.entries e he.1).2
  rw [(hs.cached e he).1, hs.disk, h.sb_eq hs, h.type _ (by rwa [h.sb_eq hs] at hlt), typeOf]
  split_ifs <;> decide

/-- The kernel before it has used any inode. -/
def boot (image : Disk) : Blocks.State where
  sb := .ofBytes (image 1).byte
  disk := image
  logged := []
  icache := fun _ => ⟨0, 0, false, Dinode.zero⟩
  devsw := fun _ => none

lemma boot_mounted (image : Disk) : Mounted image (boot image) where
  sb := rfl
  disk := rfl
  entries _ href := absurd href (Nat.lt_irrefl 0)
  once _ _ href := absurd href (Nat.lt_irrefl 0)
  cached _ he := absurd he.1 (Nat.lt_irrefl 0)

lemma exists_main_nil : ∃ image, main [] = some image := by
  apply exists_main (by decide)
  · intro f hf
    cases hf
  · apply layout_room (by decide)
    · intro f hf
      cases hf
    · decide

/-- An empty file. -/
def emptyInput : Input := ⟨[0x61], by decide, [], by simp⟩

end Mounted

end Xv6.Mkfs
