import Xv6.Fs.Log
import Xv6.Machine.Bits

/-!
# The file system on the disk

The format of `fs.h`: the super block, the bitmap, the inodes with their block addresses, and the
entries of directories. Each record is read from its bytes and written as its bytes.
-/

namespace Xv6.Blocks

open Machine
open Log (Block BSIZE)

def NDIRECT : Nat := 12
def NINDIRECT : Nat := BSIZE / 4
def MAXFILE : Nat := NDIRECT + NINDIRECT
def DIRSIZ : Nat := 14
def ROOTINO : Nat := 1

/-- `sizeof(struct dinode)` -/
def dinodeSize : Nat := 64

/-- `sizeof(struct dirent)` -/
def direntSize : Nat := 16

/-- Inodes per block. -/
def IPB : Nat := BSIZE / dinodeSize

/-- Bitmap bits per block. -/
def BPB : Nat := BSIZE * 8

def T_DIR : Short := 1
def T_FILE : Short := 2
def T_DEV : Short := 3

abbrev Disk := Nat → Block

def setBlock (disk : Disk) (b : Nat) (data : Block) : Disk := Function.update disk b data

/-! ### The super block -/

structure Superblock where
  size : Nat
  nblocks : Nat
  ninodes : Nat
  nlog : Nat
  logstart : Nat
  inodestart : Nat
  bmapstart : Nat
  deriving DecidableEq

namespace Superblock

def ofBytes (f : Nat → Byte) : Superblock where
  size := (wordAt f 0).toNat
  nblocks := (wordAt f 4).toNat
  ninodes := (wordAt f 8).toNat
  nlog := (wordAt f 12).toNat
  logstart := (wordAt f 16).toNat
  inodestart := (wordAt f 20).toNat
  bmapstart := (wordAt f 24).toNat

def bytes (sb : Superblock) (j : Nat) : Byte :=
  byteOf (BitVec.ofNat 32
    ([sb.size, sb.nblocks, sb.ninodes, sb.nlog, sb.logstart, sb.inodestart, sb.bmapstart].getD
      (j / 4) 0)) (j % 4)

/-- The block that holds inode `i`. -/
def IBLOCK (sb : Superblock) (i : Nat) : Nat := i / IPB + sb.inodestart

/-- The block of the bitmap that holds the bit of block `b`. -/
def BBLOCK (sb : Superblock) (b : Nat) : Nat := b / BPB + sb.bmapstart

/-- The first block after the bitmap. -/
def datastart (sb : Superblock) : Nat := sb.bmapstart + sb.size / BPB + 1

/-- The areas of the disk follow each other as `mkfs` lays them out. -/
structure Wf (sb : Superblock) : Prop where
  inodes : sb.inodestart + sb.ninodes / IPB + 1 ≤ sb.bmapstart
  data : sb.datastart ≤ sb.size
  /-- the block numbers in `balloc` are signed integers -/
  int : sb.size ≤ 0x7fffffff

/-- Block `b` may hold the contents of files. -/
def Data (sb : Superblock) (b : Nat) : Prop := sb.datastart ≤ b ∧ b < sb.size

instance (sb : Superblock) (b : Nat) : Decidable (sb.Data b) := inferInstanceAs (Decidable (_ ∧ _))

end Superblock

/-! ### The bitmap -/

def bitIndex (bi : Nat) : Fin 8 := ⟨bi % 8, Nat.mod_lt bi (by decide)⟩

/-- `bp->data[bi/8] & m` with `m = 1 << (bi % 8)` -/
def isUsed (bp : Block) (bi : Nat) : Bool := hasBit (bp.byte (bi / 8)) (bitIndex bi)

/-- `bp->data[bi/8] |= m` -/
def markUsed (bp : Block) (bi : Nat) : Block :=
  fun j => if j.val = bi / 8 then setBit (bp j) (bitIndex bi) else bp j

/-- `bp->data[bi/8] &= ~m` -/
def markFree (bp : Block) (bi : Nat) : Block :=
  fun j => if j.val = bi / 8 then clearBit (bp j) (bitIndex bi) else bp j

lemma bitIndex_ne {bi bj : Nat} (hdiv : bj / 8 = bi / 8) (hne : bj ≠ bi) : bitIndex bi ≠ bitIndex bj := by
  intro h
  have hmod : bi % 8 = bj % 8 := congrArg Fin.val h
  omega

/-- How a change of one byte shows in the bits. -/
private lemma isUsed_change (bp bp' : Block) (bi : Nat) {bj : Nat} (g : Byte → Byte)
    (hbp : ∀ j, bp' j = if j.val = bi / 8 then g (bp j) else bp j) (hbj : bj < BPB) :
    isUsed bp' bj =
      if bj / 8 = bi / 8 then hasBit (g (bp.byte (bj / 8))) (bitIndex bj) else isUsed bp bj := by
  have hlt : bj / 8 < BSIZE := by
    simp only [BPB, BSIZE] at hbj ⊢
    omega
  simp only [isUsed, Bytes.byte, dif_pos hlt, hbp]
  split_ifs <;> rfl

lemma isUsed_markUsed (bp : Block) {bi bj : Nat} (hbj : bj < BPB) :
    isUsed (markUsed bp bi) bj = (isUsed bp bj || decide (bj = bi)) := by
  have hchange := isUsed_change bp (markUsed bp bi) bi (fun x => setBit x (bitIndex bi)) (fun _ => rfl) hbj
  rw [hchange]
  by_cases heq : bj = bi
  · subst heq
    simp
  · split_ifs with hdiv
    · rw [hasBit_setBit_of_ne _ (bitIndex_ne hdiv heq)]
      simp [isUsed, heq]
    · simp [heq]

/-- The bit of block `b` in the bitmap. -/
def used (sb : Superblock) (disk : Disk) (b : Nat) : Bool := isUsed (disk (sb.BBLOCK b)) (b % BPB)

/-! ### Inodes -/

/-- `struct dinode` -/
structure Dinode where
  type : Short
  major : Short
  minor : Short
  nlink : Short
  size : Word
  addrs : Fin (NDIRECT + 1) → Word

namespace Dinode

/-- `addrs[k]` -/
def addr (d : Dinode) (k : Nat) : Word := if h : k < NDIRECT + 1 then d.addrs ⟨k, h⟩ else 0

/-- `addrs[k] = v` -/
def setAddr (d : Dinode) (k : Nat) (v : Word) : Dinode :=
  { d with addrs := fun i => if i.val = k then v else d.addrs i }

def zero : Dinode := ⟨0, 0, 0, 0, 0, fun _ => 0⟩

/-- The inodes refer to the same blocks. -/
def SameBlocks (d d' : Dinode) : Prop := d'.type = d.type ∧ d'.addrs = d.addrs

def ofBytes (f : Nat → Byte) : Dinode where
  type := shortAt f 0
  major := shortAt f 2
  minor := shortAt f 4
  nlink := shortAt f 6
  size := wordAt f 8
  addrs := fun i => wordAt f (12 + 4 * i.val)

def bytes (d : Dinode) (j : Nat) : Byte :=
  if j < 2 then byteOf d.type j
  else if j < 4 then byteOf d.major (j - 2)
  else if j < 6 then byteOf d.minor (j - 4)
  else if j < 8 then byteOf d.nlink (j - 6)
  else if j < 12 then byteOf d.size (j - 8)
  else byteOf (d.addr ((j - 12) / 4)) ((j - 12) % 4)

@[simp] lemma ofBytes_bytes (d : Dinode) : ofBytes d.bytes = d := by
  have htype : shortAt d.bytes 0 = d.type := shortAt_eq fun k hk => by simp [bytes, hk]
  have hmajor : shortAt d.bytes 2 = d.major := shortAt_eq fun k hk => by
    simp [bytes, show ¬ 2 + k < 2 by omega, show 2 + k < 4 by omega]
  have hminor : shortAt d.bytes 4 = d.minor := shortAt_eq fun k hk => by
    simp [bytes, show ¬ 4 + k < 2 by omega, show ¬ 4 + k < 4 by omega, show 4 + k < 6 by omega]
  have hnlink : shortAt d.bytes 6 = d.nlink := shortAt_eq fun k hk => by
    simp [bytes, show ¬ 6 + k < 2 by omega, show ¬ 6 + k < 4 by omega, show ¬ 6 + k < 6 by omega,
      show 6 + k < 8 by omega]
  have hsize : wordAt d.bytes 8 = d.size := wordAt_eq fun k hk => by
    simp [bytes, show ¬ 8 + k < 2 by omega, show ¬ 8 + k < 4 by omega, show ¬ 8 + k < 6 by omega,
      show ¬ 8 + k < 8 by omega, show 8 + k < 12 by omega]
  have haddrs : (fun i : Fin (NDIRECT + 1) => wordAt d.bytes (12 + 4 * i.val)) = d.addrs := by
    funext i
    apply wordAt_eq
    intro k hk
    have hdiv : (12 + 4 * i.val + k - 12) / 4 = i.val := by omega
    have hmod : (12 + 4 * i.val + k - 12) % 4 = k := by omega
    have hge : ¬ 12 + 4 * i.val + k < 12 := by omega
    rw [bytes, if_neg (by omega), if_neg (by omega), if_neg (by omega), if_neg (by omega), if_neg hge,
      hdiv, hmod, addr, dif_pos i.isLt]
  rw [ofBytes, htype, hmajor, hminor, hnlink, hsize, haddrs]

lemma ofBytes_congr {f g : Nat → Byte} (h : ∀ j < dinodeSize, f j = g j) : ofBytes f = ofBytes g := by
  have hshort : ∀ o ≤ 6, shortAt f o = shortAt g o := fun o ho =>
    shortAt_congr fun k hk => h _ (by simp only [dinodeSize]; omega)
  have hword : ∀ o ≤ 60, wordAt f o = wordAt g o := fun o ho =>
    wordAt_congr fun k hk => h _ (by simp only [dinodeSize]; omega)
  have haddrs : (fun i : Fin (NDIRECT + 1) => wordAt f (12 + 4 * i.val)) =
      fun i => wordAt g (12 + 4 * i.val) := by
    funext i
    have hi : i.val < 13 := i.isLt
    exact hword _ (by omega)
  rw [ofBytes, ofBytes, hshort 0 (by omega), hshort 2 (by omega), hshort 4 (by omega),
    hshort 6 (by omega), hword 8 (by omega), haddrs]

lemma SameBlocks.addr_eq {d d' : Dinode} (h : SameBlocks d d') (k : Nat) : d'.addr k = d.addr k := by
  rw [addr, addr, h.2]

lemma addr_setAddr_self (d : Dinode) {k : Nat} (v : Word) (hk : k ≤ NDIRECT) :
    (d.setAddr k v).addr k = v := by
  simp [addr, setAddr, Nat.lt_succ_of_le hk]

lemma addr_setAddr_of_ne (d : Dinode) {k l : Nat} (v : Word) (h : l ≠ k) :
    (d.setAddr k v).addr l = d.addr l := by
  simp [addr, setAddr, h]

@[simp] lemma setAddr_type (d : Dinode) (k : Nat) (v : Word) : (d.setAddr k v).type = d.type := rfl

end Dinode

def getDinode (bp : Block) (k : Nat) : Dinode := .ofBytes fun j => bp.byte (dinodeSize * k + j)

/-- Store inode `k` of a block. -/
def putDinode (bp : Block) (k : Nat) (d : Dinode) : Block :=
  bp.overwrite (dinodeSize * k) dinodeSize d.bytes

lemma getDinode_putDinode_self (bp : Block) {k : Nat} (d : Dinode) (hk : k < IPB) :
    getDinode (putDinode bp k d) k = d := by
  have hfit : dinodeSize * k + dinodeSize ≤ BSIZE := by
    simp only [IPB, dinodeSize, BSIZE] at hk ⊢
    omega
  rw [getDinode, Dinode.ofBytes_congr (g := d.bytes), Dinode.ofBytes_bytes]
  intro j hj
  exact Bytes.byte_overwrite_of_mem bp d.bytes hj hfit

lemma getDinode_putDinode_of_ne (bp : Block) {k l : Nat} (d : Dinode) (h : l ≠ k) :
    getDinode (putDinode bp k d) l = getDinode bp l := by
  apply Dinode.ofBytes_congr
  intro j hj
  apply Bytes.byte_overwrite_of_notMem
  simp only [dinodeSize] at hj ⊢
  omega

/-- The inodes on the disk. -/
def dinodes (sb : Superblock) (disk : Disk) (i : Nat) : Dinode :=
  getDinode (disk (sb.IBLOCK i)) (i % IPB)

/-! ### Directory entries -/

/-- `struct dirent` -/
structure Dirent where
  inum : Short
  name : Fin DIRSIZ → Byte

namespace Dirent

def ofBytes (f : Nat → Byte) : Dirent where
  inum := shortAt f 0
  name := fun i => f (2 + i.val)

def bytes (de : Dirent) (j : Nat) : Byte :=
  if j < 2 then byteOf de.inum j
  else if h : j - 2 < DIRSIZ then de.name ⟨j - 2, h⟩ else 0

@[simp] lemma ofBytes_bytes (de : Dirent) : ofBytes de.bytes = de := by
  have hinum : shortAt de.bytes 0 = de.inum := shortAt_eq fun k hk => by simp [bytes, hk]
  have hname : (fun i : Fin DIRSIZ => de.bytes (2 + i.val)) = de.name := by
    funext i
    simp [bytes, show ¬ 2 + i.val < 2 by omega]
  rw [ofBytes, hinum, hname]

lemma ofBytes_congr {f g : Nat → Byte} (h : ∀ j < direntSize, f j = g j) : ofBytes f = ofBytes g := by
  have hinum : shortAt f 0 = shortAt g 0 :=
    shortAt_congr fun k hk => h _ (by simp only [direntSize]; omega)
  have hname : (fun i : Fin DIRSIZ => f (2 + i.val)) = fun i => g (2 + i.val) := by
    funext i
    have hi : i.val < 14 := i.isLt
    exact h _ (by simp only [direntSize]; omega)
  rw [ofBytes, ofBytes, hinum, hname]

end Dirent

end Xv6.Blocks
