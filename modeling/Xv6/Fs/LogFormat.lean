import Xv6.Fs.Log

/-!
# The log area, the header block and the buffers

Where the blocks of the log lie, that `read_head` reads back what `write_head` wrote, and what
`bread` returns after a block has been read or written.
-/

namespace Xv6.Log

open Machine List

variable {L : Layout} {b : BlockNo} {i : Nat} {disk : Disk}

/-! ### The log area -/

lemma Layout.addr_toNat (L : Layout) (hi : i < L.size) : (L.addr i).toNat = L.start + i := by
  have hle := L.in_range
  rw [Layout.addr, BitVec.toNat_ofNat, Nat.mod_eq_of_lt (by omega)]

lemma Layout.inLog_addr (L : Layout) (hi : i < L.size) : L.InLog (L.addr i) := by
  rw [Layout.InLog, L.addr_toNat hi]
  omega

lemma Layout.addr_injective (L : Layout) {i j : Nat} (hi : i < L.size) (hj : j < L.size)
    (h : L.addr i = L.addr j) : i = j := by
  have hnat := congrArg BitVec.toNat h
  rw [L.addr_toNat hi, L.addr_toNat hj] at hnat
  omega

lemma Layout.Home.ne_addr (hb : L.Home b) (hi : i < L.size) : b ≠ L.addr i := by
  rintro rfl
  exact hb (L.inLog_addr hi)

/-! ### The header block -/

lemma getInt_putBlocks_of_le (hb : Block) (bs : List BlockNo) {i j : Nat} (hj : j ≤ i) :
    (putBlocks hb i bs).getInt j = hb.getInt j := by
  induction bs generalizing hb i with
  | nil => rfl
  | cons b bs ih =>
    rw [putBlocks, ih _ (by omega), Bytes.getInt_putInt_of_ne _ _ (by omega)]

lemma getInt_putBlocks (hb : Block) (bs : List BlockNo) {i k : Nat} (hk : k < bs.length)
    (hfit : 4 * (i + bs.length) + 4 ≤ BSIZE) : (putBlocks hb i bs).getInt (i + k + 1) = bs[k] := by
  induction bs generalizing hb i k with
  | nil => simp at hk
  | cons b bs ih =>
    simp only [length_cons] at hk hfit
    rw [putBlocks]
    cases k with
    | zero =>
      rw [getInt_putBlocks_of_le _ _ (by omega), Nat.add_zero,
        Bytes.getInt_putInt_self _ _ (by omega), getElem_cons_zero]
    | succ k =>
      have hidx : i + (k + 1) + 1 = i + 1 + k + 1 := by omega
      rw [hidx, ih _ (by omega) (by omega), getElem_cons_succ]

/-- `read_head` reads back what `write_head` wrote. -/
lemma entriesOf_headOf (hb : Block) {lh : List BlockNo} (hlen : lh.length ≤ LOGSIZE) :
    entriesOf (headOf hb lh) = lh := by
  have hlen' : lh.length ≤ 30 := hlen
  have hn : (headOf hb lh).getInt 0 = BitVec.ofNat 32 lh.length := by
    rw [headOf, getInt_putBlocks_of_le _ _ (Nat.le_refl 0), Bytes.getInt_putInt_self _ _ (by decide)]
  have hnat : (BitVec.ofNat 32 lh.length).toInt.toNat = lh.length := by
    have htoNat : (BitVec.ofNat 32 lh.length).toNat = lh.length := by
      rw [BitVec.toNat_ofNat, Nat.mod_eq_of_lt (by omega)]
    rw [BitVec.toInt_eq_toNat_of_lt (by omega), htoNat, Int.toNat_natCast]
  apply ext_getElem
  · simp [entriesOf, hn, hnat]
  · intro k hk hk'
    simp only [entriesOf, getElem_map, getElem_range]
    have hfit : 4 * (0 + lh.length) + 4 ≤ BSIZE := by simp only [BSIZE]; omega
    have hget := getInt_putBlocks (hb.putInt 0 (BitVec.ofNat 32 lh.length)) lh hk' hfit
    rwa [Nat.zero_add] at hget

/-- The log on disk: the entries of the header with the contents of their log blocks. -/
def logEntries (L : Layout) (disk : Disk) : List (BlockNo × Block) :=
  (entriesOf (disk (L.addr 0))).mapIdx fun i b => (b, disk (L.addr (i + 1)))

lemma logEntries_fst (L : Layout) (disk : Disk) :
    (logEntries L disk).map Prod.fst = entriesOf (disk (L.addr 0)) := by
  apply ext_getElem
  · simp [logEntries]
  · intro k hk hk'
    simp [logEntries]

lemma mem_logEntries {e : BlockNo × Block} :
    e ∈ logEntries L disk ↔
      ∃ i, (entriesOf (disk (L.addr 0)))[i]? = some e.1 ∧ e.2 = disk (L.addr (i + 1)) := by
  rw [logEntries, mem_mapIdx]
  constructor
  · rintro ⟨i, hi, rfl⟩
    exact ⟨i, List.getElem?_eq_getElem hi, rfl⟩
  · rintro ⟨i, hget, hdata⟩
    obtain ⟨hi, heq⟩ := List.getElem?_eq_some_iff.mp hget
    exact ⟨i, hi, Prod.ext heq hdata.symm⟩

lemma logEntries_of_empty (h : entriesOf (disk (L.addr 0)) = []) : logEntries L disk = [] := by
  simp [logEntries, h]

/-- The log on disk depends on the log area only. -/
lemma logEntries_congr {disk disk' : Disk} (hfits : (entriesOf (disk (L.addr 0))).length < L.size)
    (h : ∀ i < L.size, disk' (L.addr i) = disk (L.addr i)) : logEntries L disk' = logEntries L disk := by
  apply ext_getElem
  · simp [logEntries, h 0 L.size_pos]
  · intro k hk hk'
    simp only [logEntries, length_mapIdx] at hk'
    simp only [logEntries, getElem_mapIdx, Prod.mk.injEq]
    refine ⟨?_, h _ (by omega)⟩
    congr 2
    exact h 0 L.size_pos

/-! ### Buffers -/

@[simp] lemma bread_load (s : State) (b c : BlockNo) : bread (load s b) c = bread s c := by
  rw [load]
  cases hb : s.cache b with
  | some => rfl
  | none =>
    by_cases hc : c = b
    · subst hc
      simp [bread, hb]
    · simp [bread, Function.update_of_ne hc]

lemma bread_bwrite_self (s : State) (b : BlockNo) (d : Block) : bread (bwrite s b d) b = d := by
  simp [bread, bwrite]

lemma bread_bwrite_of_ne (s : State) {b c : BlockNo} (d : Block) (h : c ≠ b) :
    bread (bwrite s b d) c = bread s c := by
  simp [bread, bwrite, Function.update_of_ne h]

end Xv6.Log
