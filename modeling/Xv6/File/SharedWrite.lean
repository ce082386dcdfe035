import Xv6.Fs.FileContents

/-!
# Writing through a shared file

`filewrite` on a regular file, for any number of calls that share one `struct file`. A call writes its bytes in
chunks, each in a transaction of its own under the lock of the inode, at the offset that the calls share. A
chunk is one step. The history of a run is the list of the chunks in the order in which they were written.
-/

namespace Xv6.SharedWrite

open Machine Function List
open Log (BSIZE MAXOPBLOCKS)
open Blocks (EntryId Op T_DEV MAXFILE Needs)

abbrev CallId := Nat

/-- A call of `filewrite`. -/
structure Write where
  addr : Nat → Byte
  n : Nat
  i : Nat
  /-- what the call has returned -/
  result : Option Int

structure State where
  fs : Blocks.State
  /-- `f->ip` -/
  ip : EntryId
  /-- `f->off` -/
  off : Word
  calls : CallId → Option Write

inductive Label
  | call (c : CallId) (addr : Nat → Byte) (n : Nat)
  | chunk (c : CallId)
  | finish (c : CallId)

/-- `max` of `filewrite` -/
def maxChunk : Nat := ((MAXOPBLOCKS - 1 - 1 - 2) / 2) * 512

/-- `n1`, the length of the next chunk. -/
def Write.len (w : Write) : Nat := min (w.n - w.i) maxChunk

/-- The next chunk. -/
def Write.next (w : Write) : List Byte := (List.range w.len).map fun j => w.addr (w.i + j)

/-- `i == n ? n : -1` -/
def Write.value (w : Write) : Int := if w.i = w.n then w.n else -1

/-- The transaction for one chunk. -/
def writeChunk (s : State) (w : Write) : Op (Option Word) := do
  Blocks.ilock s.ip
  Blocks.writei s.ip (fun j => w.addr (w.i + j)) s.off (BitVec.ofNat 32 w.len)

def setCall (s : State) (c : CallId) (w : Write) : State :=
  { s with calls := Function.update s.calls c (some w) }

/-- The state after the transaction; a chunk that is written in part is a panic. -/
def afterChunk (s : State) (c : CallId) (w : Write) (r : Option Word) (fs : Blocks.State) :
    Option State :=
  match r with
  | none => some (setCall { s with fs := fs } c { w with result := some w.value })
  | some r =>
    if r = BitVec.ofNat 32 w.len then
      some (setCall { s with fs := fs, off := s.off + r } c { w with i := w.i + w.len })
    else none

def step (s : State) : Label → Option State
  | .call c addr n =>
    if s.calls c = none ∧ n ≤ 0x7fffffff then some (setCall s c ⟨addr, n, 0, none⟩) else none
  | .chunk c =>
    match s.calls c with
    | none => none
    | some w =>
      if w.result = none ∧ w.i < w.n then
        match writeChunk s w s.fs with
        | .error _ => none
        | .ok (r, fs) => afterChunk s c w r fs
      else none
  | .finish c =>
    match s.calls c with
    | none => none
    | some w =>
      if w.result = none ∧ ¬ w.i < w.n then some (setCall s c { w with result := some w.value })
      else none

/-- The chunks that have been written, each with its call. -/
abbrev History := List (CallId × List Byte)

/-- A step with the label `chunk` that moves the offset has written a chunk. -/
def record (s : State) (l : Label) (t : State) (h : History) : History :=
  match l with
  | .chunk c =>
    match s.calls c with
    | none => h
    | some w => if t.off = s.off then h else h ++ [(c, w.next)]
  | _ => h

def bytesOf (h : History) (c : CallId) : List Byte :=
  ((h.filter fun x => x.1 = c).map Prod.snd).flatten

/-- The inode of the file. -/
def State.inum (s : State) : Nat := (s.fs.icache s.ip).inum

def State.contents (s : State) : List Byte := s.fs.contents s.inum

/-- No chunk reaches past the largest file. -/
def Fits (s : State) : Label → Prop
  | .chunk c => ∀ w ∈ s.calls c, s.off.toNat + w.len ≤ MAXFILE * BSIZE
  | _ => True

/-- The file is a regular file of a sound file system. -/
structure Regular (s : State) : Prop where
  sound : s.fs.Sound
  cached : s.fs.Cached s.ip
  type : (s.fs.icache s.ip).din.type ≠ T_DEV
  /-- the offset is the size of the file -/
  off : s.off.toNat = s.contents.length

variable {s t : State} {c : CallId} {w : Write} {h h' : History} {fs : Blocks.State} {old : List Byte}

lemma Write.len_le (w : Write) : w.len ≤ maxChunk := Nat.min_le_right _ _

lemma Write.len_pos (hw : w.i < w.n) : 0 < w.len := by
  have hmax : 0 < maxChunk := by decide
  rw [Write.len]
  omega

lemma Write.toNat_len (w : Write) : (BitVec.ofNat 32 w.len).toNat = w.len := by
  have hle : w.len ≤ 1536 := w.len_le
  rw [BitVec.toNat_ofNat]
  omega

/-- What a chunk does: the bytes come after the end of the file. -/
lemma writeChunk_cases (hs : Regular s) (hfits : s.off.toNat + w.len ≤ MAXFILE * BSIZE) :
    (∃ fs, writeChunk s w s.fs = .ok (some (BitVec.ofNat 32 w.len), fs) ∧
      Blocks.Stored s.ip (fun j => w.addr (w.i + j)) s.off.toNat w.len s.fs fs) ∨
    (¬ s.fs.Room s.ip (Needs s.off.toNat w.len) ∧ writeChunk s w s.fs = .error .outOfBlocks) := by
  have hlock : Blocks.ilock s.ip s.fs = .ok ((), s.fs) := by
    have href : ¬ (s.fs.icache s.ip).ref < 1 := Nat.not_lt_of_le hs.cached.1
    change (if _ then _ else if _ then _ else _ : Op Unit) s.fs = _
    rw [if_neg href, if_pos hs.cached.2]
    rfl
  have hrun : writeChunk s w s.fs =
      Blocks.writei s.ip (fun j => w.addr (w.i + j)) s.off (BitVec.ofNat 32 w.len) s.fs := by
    change (Blocks.ilock s.ip s.fs >>= fun x => _) = _
    rw [hlock]
    rfl
  have hyes : ¬ Blocks.Refused (s.fs.fileSize (s.fs.icache s.ip).inum) s.off.toNat
      (BitVec.ofNat 32 w.len).toNat := by
    have hoff := hs.off
    rw [State.contents, State.inum, Blocks.length_contents] at hoff
    have hsmall : MAXFILE * BSIZE < 0x100000000 := by decide
    simp only [Blocks.Refused, w.toNat_len]
    omega
  rw [hrun]
  rcases Blocks.writei_cases hs.sound hs.cached hs.type (fun j => w.addr (w.i + j)) s.off
    (BitVec.ofNat 32 w.len) with ⟨hno, -⟩ | ⟨-, -, fs, hw, hst⟩ | ⟨-, hfull, hw⟩
  · exact absurd hno hyes
  · rw [w.toNat_len] at hst
    exact .inl ⟨fs, hw, hst⟩
  · rw [w.toNat_len] at hfull
    exact .inr ⟨hfull, hw⟩

/-- A chunk goes to the end of the file and moves the offset there. -/
lemma Regular.chunk (hs : Regular s) (hpos : 0 < w.len) (hfits : s.off.toNat + w.len ≤ MAXFILE * BSIZE)
    (hst : Blocks.Stored s.ip (fun j => w.addr (w.i + j)) s.off.toNat w.len s.fs fs) (w' : Write) :
    Regular (setCall { s with fs := fs, off := s.off + BitVec.ofNat 32 w.len } c w') ∧
      (setCall { s with fs := fs, off := s.off + BitVec.ofNat 32 w.len } c w').contents =
        s.contents ++ w.next ∧
      s.off + BitVec.ofNat 32 w.len ≠ s.off := by
  obtain ⟨d, hentry⟩ := hst.entry
  have hinum : (fs.icache s.ip).inum = s.inum := by
    rw [hentry]
    rfl
  have hoff := hs.off
  have hlen : s.contents.length = s.fs.fileSize s.inum := Blocks.length_contents ..
  have hcontents : fs.contents s.inum = s.contents ++ w.next := by
    have hsplice := hst.contents_self (Nat.le_of_eq (hoff.trans hlen))
    refine hsplice.trans ?_
    have htake : (s.fs.contents s.inum).take s.off.toNat = s.contents :=
      take_of_length_le (Nat.le_of_eq hoff.symm)
    have hdrop : ∀ m, (s.fs.contents s.inum).drop (s.off.toNat + m) = [] := by
      intro m
      apply drop_of_length_le
      have hsize : (s.fs.contents s.inum).length = s.off.toNat := hoff.symm
      omega
    change (s.fs.contents s.inum).take _ ++ _ ++ (s.fs.contents s.inum).drop _ = _
    rw [htake, hdrop, append_nil]
    rfl
  have hsum : (s.off + BitVec.ofNat 32 w.len).toNat = s.off.toNat + w.len := by
    have hsmall : MAXFILE * BSIZE < 0x100000000 := by decide
    rw [BitVec.toNat_add, w.toNat_len]
    omega
  have hcached : fs.Cached s.ip := by
    rw [Blocks.State.Cached, hentry]
    exact hs.cached
  refine ⟨⟨hst.sound, hcached, ?_, ?_⟩, ?_, ?_⟩
  · obtain ⟨size, addrs, hinode⟩ := hst.inode
    have hdin := (hst.sound.cached _ hcached).1
    have hinode' : (fs.icache s.ip).din = { (s.fs.icache s.ip).din with size := size, addrs := addrs } := by
      rw [hdin, hinum, (hs.sound.cached _ hs.cached).1]
      exact hinode
    have htype : (fs.icache s.ip).din.type = (s.fs.icache s.ip).din.type := by rw [hinode']
    exact fun heq => hs.type (htype.symm.trans heq)
  · have hlen' : (fs.contents (fs.icache s.ip).inum).length = s.off.toNat + w.len := by
      rw [hinum, hcontents, length_append, ← hoff]
      simp [Write.next]
    exact hsum.trans hlen'.symm
  · change fs.contents (fs.icache s.ip).inum = _
    rw [hinum, hcontents]
  · intro heq
    rw [heq] at hsum
    omega

lemma step_chunk (hc : s.calls c = some w) (hgo : w.result = none ∧ w.i < w.n)
    (hw : writeChunk s w s.fs = .ok (some (BitVec.ofNat 32 w.len), fs)) :
    step s (.chunk c) = some (setCall { s with fs := fs, off := s.off + BitVec.ofNat 32 w.len } c
      { w with i := w.i + w.len }) := by
  simp only [step, hc, if_pos hgo, hw, afterChunk, if_pos]

/-! ### Runs -/

/-- The file is what was there with the chunks, and every call has written the first `i` of its bytes. -/
structure Appended (old : List Byte) (s : State) (h : History) : Prop where
  regular : Regular s
  contents : s.contents = old ++ (h.map Prod.snd).flatten
  chunks : ∀ x ∈ h, x.2.length ≤ maxChunk
  started : ∀ x ∈ h, s.calls x.1 ≠ none
  calls : ∀ c w, s.calls c = some w → bytesOf h c = (List.range w.i).map w.addr ∧ w.i ≤ w.n ∧
    ∀ r, w.result = some r → r = w.n ∧ w.i = w.n

lemma bytesOf_append_self (h : History) (c : CallId) (data : List Byte) :
    bytesOf (h ++ [(c, data)]) c = bytesOf h c ++ data := by
  simp [bytesOf]

lemma bytesOf_append_of_ne (h : History) {c c' : CallId} (data : List Byte) (hne : c ≠ c') :
    bytesOf (h ++ [(c, data)]) c' = bytesOf h c' := by
  simp [bytesOf, hne]

lemma bytesOf_eq_nil (hnone : ∀ x ∈ h, x.1 ≠ c) : bytesOf h c = [] := by
  have hfilter : h.filter (fun x => x.1 = c) = [] := by
    apply filter_eq_nil_iff.mpr
    intro x hx
    simpa using hnone x hx
  rw [bytesOf, hfilter]
  rfl

/-- A call changes and nothing is written. -/
lemma Appended.setCall (hs : Appended old s h)
    (hw : bytesOf h c = (List.range w.i).map w.addr ∧ w.i ≤ w.n ∧ ∀ r, w.result = some r → r = w.n ∧ w.i = w.n) :
    Appended old (setCall s c w) h where
  regular := ⟨hs.regular.sound, hs.regular.cached, hs.regular.type, hs.regular.off⟩
  contents := hs.contents
  chunks := hs.chunks
  started x hx := by
    by_cases hxc : x.1 = c
    · simp [SharedWrite.setCall, hxc]
    · simp only [SharedWrite.setCall, update_of_ne hxc]
      exact hs.started x hx
  calls c' w' hc' := by
    by_cases hcc : c' = c
    · subst hcc
      simp only [SharedWrite.setCall, update_self, Option.some.injEq] at hc'
      subst hc'
      exact hw
    · simp only [SharedWrite.setCall, update_of_ne hcc] at hc'
      exact hs.calls c' w' hc'

lemma Appended.step {l : Label} (hs : Appended old s h) (hfits : Fits s l) (hstep : step s l = some t) :
    Appended old t (record s l t h) := by
  cases l with
  | call =>
    simp only [SharedWrite.step] at hstep
    split_ifs at hstep with hnew
    cases hstep
    apply hs.setCall
    refine ⟨?_, Nat.zero_le _, ?_⟩
    · apply bytesOf_eq_nil
      rintro x hx rfl
      exact hs.started x hx hnew.1
    · intro r hr
      cases hr
  | finish c =>
    simp only [SharedWrite.step] at hstep
    cases hc : s.calls c with
    | none =>
      rw [hc] at hstep
      cases hstep
    | some w =>
      simp only [hc] at hstep
      split_ifs at hstep with hdone
      cases hstep
      obtain ⟨hbytes, hle, -⟩ := hs.calls c w hc
      have heq : w.i = w.n := Nat.le_antisymm hle (Nat.le_of_not_lt hdone.2)
      apply hs.setCall
      refine ⟨hbytes, hle, ?_⟩
      intro r hr
      simp only [Write.value, if_pos heq, Option.some.injEq] at hr
      exact ⟨hr.symm, heq⟩
  | chunk c =>
    cases hc : s.calls c with
    | none =>
      simp only [SharedWrite.step, hc] at hstep
      cases hstep
    | some w =>
      have hgo : w.result = none ∧ w.i < w.n := by
        by_contra hno
        simp only [SharedWrite.step, hc, if_neg hno] at hstep
        cases hstep
      have hfits := hfits w hc
      rcases writeChunk_cases hs.regular hfits with ⟨fs, hrun, hst⟩ | ⟨-, hrun⟩
      · rw [step_chunk hc hgo hrun] at hstep
        cases hstep
        obtain ⟨hbytes, hle, hres⟩ := hs.calls c w hc
        obtain ⟨hreg, hcontents, hmoved⟩ := hs.regular.chunk (c := c) (Write.len_pos hgo.2) hfits hst
          { w with i := w.i + w.len }
        have hrecord : record s (.chunk c)
            (SharedWrite.setCall { s with fs := fs, off := s.off + BitVec.ofNat 32 w.len } c
              { w with i := w.i + w.len }) h = h ++ [(c, w.next)] := by
          simp only [record, hc]
          exact if_neg hmoved
        rw [hrecord]
        constructor
        case regular => exact hreg
        case contents => rw [hcontents, hs.contents]; simp
        case chunks =>
          intro x hx
          rcases mem_append.mp hx with hx | hx
          · exact hs.chunks x hx
          · rw [mem_singleton.mp hx]
            simpa [Write.next] using w.len_le
        case started =>
          intro x hx
          by_cases hxc : x.1 = c
          · simp [SharedWrite.setCall, hxc]
          · simp only [SharedWrite.setCall, update_of_ne hxc]
            rcases mem_append.mp hx with hx | hx
            · exact hs.started x hx
            · rw [mem_singleton.mp hx] at hxc
              exact absurd rfl hxc
        case calls =>
          intro c' w' hc'
          by_cases hcc : c' = c
          · subst hcc
            simp only [SharedWrite.setCall, update_self, Option.some.injEq] at hc'
            subst hc'
            refine ⟨?_, ?_, ?_⟩
            · rw [bytesOf_append_self, hbytes, range_add, map_append, map_map]
              rfl
            · have hlen : w.len ≤ w.n - w.i := Nat.min_le_left _ _
              show w.i + w.len ≤ w.n
              omega
            · intro r hr
              rw [hgo.1] at hr
              cases hr
          · simp only [SharedWrite.setCall, update_of_ne hcc] at hc'
            rw [bytesOf_append_of_ne _ _ (Ne.symm hcc)]
            exact hs.calls c' w' hc'
      · simp only [SharedWrite.step, hc, if_pos hgo, hrun] at hstep
        cases hstep

/-- An open file on a disk with one free block. -/
def tinyFile : State := ⟨Blocks.tinyDisk 0x07, 0, 0, fun _ => none⟩

lemma tinyFile_contents : tinyFile.contents = [] := by
  apply eq_nil_of_length_eq_zero
  rw [State.contents, Blocks.length_contents]
  exact congrArg (fun d => d.size.toNat) (Blocks.tinyDisk_dinodes_one 0x07)

lemma tinyFile_regular : Regular tinyFile where
  sound := Blocks.tinyDisk_sound (by decide)
  cached := ⟨by decide, rfl⟩
  type := by decide
  off := by
    rw [tinyFile_contents]
    rfl

end Xv6.SharedWrite
