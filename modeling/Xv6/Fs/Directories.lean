import Mathlib.Data.List.GetD
import Mathlib.Data.List.TakeWhile
import Xv6.Fs.FileContents

/-!
# Directories and paths

A directory is a file whose contents are a sequence of entries. Names are compared up to `DIRSIZ` bytes, so
two names are the same for the kernel just if they agree there.
-/

namespace Xv6.Blocks

open Machine List
open Log (Block BSIZE)

variable {s t : State} {e : EntryId} {i k : Nat} {name : Name}

/-! ### Names -/

lemma cstr_cons_zero (c : Byte) (cs : Name) : cstr (c :: cs) 0 = c := rfl

/-- The bytes of a string, at most `n` of them. -/
def strOf (p : Nat → Byte) (n : Nat) : Name := ((List.range n).map p).takeWhile (· ≠ 0)

lemma strOf_succ (p : Nat → Byte) (n : Nat) :
    strOf p (n + 1) = if p 0 = 0 then [] else p 0 :: strOf (fun i => p (i + 1)) n := by
  have hmap : (List.range (n + 1)).map p = p 0 :: (List.range n).map fun i => p (i + 1) := by
    rw [range_succ_eq_map, map_cons, map_map]
    rfl
  rw [strOf, hmap, takeWhile_cons]
  by_cases h0 : p 0 = 0#8
  · simp [h0]
  · simp [h0, strOf]

/-- `strncmp` compares the bytes before the end of the strings. -/
lemma strncmpEq_eq_decide (n : Nat) (p q : Nat → Byte) :
    strncmpEq p q n = decide (strOf p n = strOf q n) := by
  induction n generalizing p q with
  | zero => rfl
  | succ n ih =>
    rw [strncmpEq, strOf_succ, strOf_succ, ih]
    by_cases hp : p 0 = 0#8
    · by_cases hq : q 0 = 0#8
      · simp [hp, hq]
      · have hq' : ¬ 0#8 = q 0 := Ne.symm hq
        simp [hp, hq, hq']
    · by_cases hq : q 0 = 0#8
      · simp [hp, hq]
      · by_cases hpq : p 0 = q 0
        · simp [hq, hpq]
        · simp [hp, hq, hpq]

/-- The bytes of a string without zero bytes. -/
lemma strOf_cstr (n : Nat) {p : Name} (hp : ∀ c ∈ p, c ≠ 0) : strOf (cstr p) n = p.take n := by
  induction n generalizing p with
  | zero => rfl
  | succ n ih =>
    rw [strOf_succ]
    cases p with
    | nil => rfl
    | cons c =>
      rw [cstr_cons_zero, if_neg (hp c mem_cons_self), take_succ_cons]
      exact congrArg (c :: ·) (ih fun b hb => hp b (mem_cons_of_mem _ hb))

/-- The part of a name that directories keep. -/
def keyOf (name : Name) : Name := strOf (cstr name) DIRSIZ

/-- The name in an entry. -/
def Dirent.key (de : Dirent) : Name := strOf (fun i => if h : i < DIRSIZ then de.name ⟨i, h⟩ else 0) DIRSIZ

lemma namecmpEq_eq_decide (name : Name) (de : Dirent) : namecmpEq name de = decide (keyOf name = de.key) :=
  strncmpEq_eq_decide DIRSIZ _ _

lemma key_newDirent (name : Name) (inum : Nat) : (newDirent name inum).key = keyOf name := by
  refine congrArg (List.takeWhile _) (map_congr_left ?_)
  intro j hj
  exact dif_pos (mem_range.mp hj)

/-- The name in an entry is cut off after `DIRSIZ` bytes. -/
lemma namecmpEq_newDirent {p q : Name} (hp : ∀ c ∈ p, c ≠ 0) (hq : ∀ c ∈ q, c ≠ 0) (inum : Nat) :
    namecmpEq p (newDirent q inum) = decide (p.take DIRSIZ = q.take DIRSIZ) := by
  rw [namecmpEq_eq_decide, key_newDirent, keyOf, keyOf, strOf_cstr _ hp, strOf_cstr _ hq]

/-- A path of one element. -/
lemma elems_single (hne : name ≠ []) (hslash : slash ∉ name) (n : Nat) :
    elems (n + 2) (slash :: name) = [name.take DIRSIZ] := by
  have hall : ∀ c ∈ name, (decide (c ≠ slash)) = true := by
    intro c hc
    apply decide_eq_true
    rintro rfl
    exact hslash hc
  have hskip : skipelem (slash :: name) = some (name.take DIRSIZ, []) := by
    cases name with
    | nil => exact absurd rfl hne
    | cons c cs =>
      have hc : ¬ c = slash := of_decide_eq_true (hall c mem_cons_self)
      have htake := takeWhile_eq_self_iff.mpr hall
      have hdrop := dropWhile_eq_nil_iff.mpr hall
      have hpath : (slash :: c :: cs).dropWhile (· = slash) = c :: cs := by
        simp [List.dropWhile, hc]
      rw [skipelem, hpath]
      simp only [htake, hdrop, dropWhile_nil]
  rw [elems, hskip]
  simp [elems, skipelem]

/-! ### Entries of a directory -/

/-- Entry `k` of directory `i`. -/
def State.dirent (s : State) (i k : Nat) : Dirent := .ofBytes fun j => s.fileByte i (direntSize * k + j)

/-- An entry lies in one block. -/
lemma dirent_div {j : Nat} (hj : j < direntSize) (k : Nat) :
    (direntSize * k + j) / BSIZE = direntSize * k / BSIZE := by
  have hB : BSIZE = 512 := rfl
  have hD : direntSize = 16 := rfl
  rw [hD] at hj
  rw [hB, hD]
  omega

lemma readDirent_ends (h : s.Coherent) (he : s.Cached e) (hdir : (s.icache e).din.type = T_DIR)
    (hsize : direntSize * k + direntSize ≤ s.fileSize (s.icache e).inum)
    (hblock : s.blocks ((s.icache e).inum, slot (direntSize * k / BSIZE)) ≠ none) (p : Panic) :
    Ends (readDirent e (direntSize * k) p) s (fun _ => False) fun de t =>
      t = s ∧ de = s.dirent (s.icache e).inum k := by
  have hdev : (s.icache e).din.type ≠ T_DEV := by
    rw [hdir]
    decide
  have hlt : s.fileSize (s.icache e).inum < 0x100000000 := (dinodes s.sb s.disk _).size.isLt
  have hoff : (BitVec.ofNat 32 (direntSize * k)).toNat = direntSize * k :=
    Nat.mod_eq_of_lt (by omega)
  have hlen : (BitVec.ofNat 32 direntSize).toNat = direntSize := by decide
  apply Ends.bind (readi_ends_of_present h he hdev _ _ ?_)
  · rintro r t ⟨rfl, rfl⟩
    have hread : readBytes (t.contents (t.icache e).inum) (direntSize * k) direntSize =
        some ((List.range direntSize).map fun j => t.fileByte (t.icache e).inum (direntSize * k + j)) := by
      rw [readBytes, if_neg (by rw [length_contents]; simp only [direntSize] at hsize ⊢; omega),
        map_fileByte_range t _ _ direntSize _ (by omega)]
    rw [hoff, hlen, hread]
    apply Ends.ite
    · intro _
      refine ⟨rfl, Dirent.ofBytes_congr fun j hj => ?_⟩
      rw [getD_eq_getElem _ _ (by simpa using hj), getElem_map, getElem_range]
    · intro hne
      exact absurd (by simp) hne
  · intro j _ hlo hhi
    rw [hoff] at hlo hhi
    rw [hlen] at hhi
    obtain ⟨o, rfl⟩ := Nat.exists_eq_add_of_le hlo
    rw [dirent_div (by omega)]
    exact hblock

/-! ### Lookup -/

/-- The entries that `dirlookup` passes over. -/
def Dirent.Misses (de : Dirent) (name : Name) : Prop := de.inum = 0 ∨ namecmpEq name de = false

/-- The blocks of the entries up to `k` are there. -/
def State.Present (s : State) (i k : Nat) : Prop :=
  ∀ j ≤ k, direntSize * j + direntSize ≤ s.fileSize i ∧ s.blocks (i, slot (direntSize * j / BSIZE)) ≠ none

/-- The first entry with the name is found, whatever comes after it. -/
lemma lookupLoop_found (h : s.Coherent) (he : s.Cached e) (hdir : (s.icache e).din.type = T_DIR)
    (hpresent : s.Present (s.icache e).inum k)
    (hmiss : ∀ j < k, (s.dirent (s.icache e).inum j).Misses name)
    (hhit : ¬ (s.dirent (s.icache e).inum k).Misses name) :
    ∀ {l : List Nat}, l.Pairwise (· < ·) → k ∈ l → Ends (lookupLoop e name l) s (fun _ => False) fun r t =>
      t = s ∧ r = some (direntSize * k, (s.dirent (s.icache e).inum k).inum.toNat) := by
  intro l
  induction l with
  | nil =>
    intro _ hk
    cases hk
  | cons j l ih =>
    intro hl hk
    obtain ⟨hj, hl⟩ := pairwise_cons.mp hl
    have hjk : j = k ∨ j < k ∧ k ∈ l := by
      rcases mem_cons.mp hk with heq | hmem
      · exact .inl heq.symm
      · exact .inr ⟨hj k hmem, hmem⟩
    have hle : j ≤ k := by
      rcases hjk with heq | hlt
      · exact Nat.le_of_eq heq
      · exact Nat.le_of_lt hlt.1
    apply Ends.bind (readDirent_ends h he hdir (hpresent j hle).1 (hpresent j hle).2 .read)
    rintro de t ⟨rfl, rfl⟩
    rcases hjk with rfl | ⟨hlt, hmem⟩
    · obtain ⟨hinum, hname⟩ := not_or.mp hhit
      rw [if_neg hinum, if_pos (Bool.not_eq_false _ ▸ hname)]
      exact ⟨rfl, rfl⟩
    · have hrest := ih hl hmem
      rcases hmiss j hlt with hzero | hname
      · rw [if_pos hzero]
        exact hrest
      · apply Ends.ite
        · exact fun _ => hrest
        · intro _
          rw [hname]
          exact hrest

lemma dirlookup_found (h : s.Coherent) (he : s.Cached e) (hdir : (s.icache e).din.type = T_DIR)
    (hpresent : s.Present (s.icache e).inum k)
    (hmiss : ∀ j < k, (s.dirent (s.icache e).inum j).Misses name)
    (hhit : ¬ (s.dirent (s.icache e).inum k).Misses name) :
    Ends (dirlookup e name) s (fun _ => ∀ e < NINODE, (s.icache e).ref ≠ 0) fun r t =>
      ∃ ip, r = some (ip, direntSize * k) ∧ Got s (s.dirent (s.icache e).inum k).inum.toNat ip t := by
  have hcount : k ∈ List.range (direntCount (s.icache e).din) := by
    have hsize := (hpresent k (Nat.le_refl k)).1
    rw [← h.size_eq he] at hsize
    rw [mem_range, direntCount]
    simp only [direntSize] at hsize ⊢
    omega
  apply Ends.get_bind
  rw [if_neg (not_not.mpr hdir)]
  apply Ends.bind ((lookupLoop_found h he hdir hpresent hmiss hhit pairwise_lt_range hcount).imp
    (fun _ hf => hf.elim) fun _ _ hq => hq)
  rintro r t ⟨rfl, rfl⟩
  apply Ends.bind (iget_ends t _)
  intro ip u hg
  exact ⟨ip, rfl, hg⟩

/-- The entries of directories are on the disk. -/
lemma dirent_congr (hsb : t.sb = s.sb) (hdisk : t.disk = s.disk) : t.dirent = s.dirent := by
  funext i k
  simp only [State.dirent, State.fileByte, State.blocks, hsb, hdisk]

lemma State.Present.congr (h : s.Present i k) (hsb : t.sb = s.sb) (hdisk : t.disk = s.disk) :
    t.Present i k := by
  simp only [State.Present, State.fileSize, State.blocks, hsb, hdisk] at h ⊢
  exact h

/-- The entries of the cache that are not in use include two different ones. -/
def State.TwoFree (s : State) : Prop :=
  ∃ e₁ < NINODE, ∃ e₂ < NINODE, e₁ ≠ e₂ ∧ (s.icache e₁).ref = 0 ∧ (s.icache e₂).ref = 0

/-- `iget` leaves an entry free. -/
lemma State.TwoFree.got (h : s.TwoFree) (hg : Got s i e t) : ∃ e' < NINODE, (t.icache e').ref = 0 := by
  obtain ⟨e₁, h₁, e₂, h₂, hne, hfree₁, hfree₂⟩ := h
  by_cases he : e₁ = e
  · subst he
    exact ⟨e₂, h₂, by rw [hg.of_ne hne.symm, hfree₂]⟩
  · exact ⟨e₁, h₁, by rw [hg.of_ne he, hfree₁]⟩

/-- `ilock` reads the inode and leaves the references alone. -/
lemma ilock_ends_of_alloc (h : s.Coherent) (href : 0 < (s.icache e).ref)
    (halloc : (dinodes s.sb s.disk (s.icache e).inum).type ≠ 0) :
    Ends (ilock e) s (fun _ => False) fun _ t => t.Coherent ∧ t.Cached e ∧
      t.sb = s.sb ∧ t.disk = s.disk ∧ t.devsw = s.devsw ∧
      ∀ e', (t.icache e').inum = (s.icache e').inum ∧ (t.icache e').ref = (s.icache e').ref := by
  refine (ilock_ends h e).imp ?_ ?_
  · rintro _ (hzero | hzero)
    · exact Nat.ne_of_gt href hzero
    · exact halloc hzero
  · rintro _ t ⟨ht, he, rfl | ⟨-, rfl⟩⟩
    · exact ⟨ht, he, rfl, rfl, rfl, fun _ => ⟨rfl, rfl⟩⟩
    · refine ⟨ht, he, rfl, rfl, rfl, fun e' => ?_⟩
      by_cases hee : e' = e
      · subst hee
        simp [setEntry]
      · simp [setEntry, Function.update_of_ne hee]

/-- `namei` of a name in the root directory. -/
lemma namei_root (h : s.Coherent) (hfree : s.TwoFree) (hroot : ROOTINO < s.sb.ninodes)
    (hdir : (dinodes s.sb s.disk ROOTINO).type = T_DIR) (hnlink : (dinodes s.sb s.disk ROOTINO).nlink ≠ 0)
    (hne : name ≠ []) (hslash : slash ∉ name) (hpresent : s.Present ROOTINO k)
    (hmiss : ∀ j < k, (s.dirent ROOTINO j).Misses (name.take DIRSIZ))
    (hhit : ¬ (s.dirent ROOTINO k).Misses (name.take DIRSIZ))
    (hself : (s.dirent ROOTINO k).inum.toNat ≠ ROOTINO)
    (hlt : (s.dirent ROOTINO k).inum.toNat < s.sb.ninodes) (cwd : EntryId) :
    Ends (namei cwd (slash :: name)) s (fun _ => False) fun r t => ∃ e, r = some e ∧ t.Coherent ∧
      t.sb = s.sb ∧ t.disk = s.disk ∧ 0 < (t.icache e).ref ∧
      (t.icache e).inum = (s.dirent ROOTINO k).inum.toNat := by
  have helems : elems (slash :: name).length (slash :: name) = [name.take DIRSIZ] := by
    cases name with
    | nil => exact absurd rfl hne
    | cons c cs => exact elems_single hne hslash cs.length
  apply Ends.bind (Q := fun r t => ∃ e, r = some (e, []) ∧ t.Coherent ∧ t.sb = s.sb ∧ t.disk = s.disk ∧
    0 < (t.icache e).ref ∧ (t.icache e).inum = (s.dirent ROOTINO k).inum.toNat)
  · rw [namex, helems]
    apply Ends.bind ((iget_ends s ROOTINO).imp ?_ fun _ _ hq => hq)
    · intro dp s₁ hg₁
      have h₁ := h.got hroot hg₁
      obtain ⟨hsb₁, hdisk₁⟩ := hg₁.disk_eq
      obtain ⟨href₁, hinum₁⟩ := hg₁.entry
      have halloc : (dinodes s₁.sb s₁.disk (s₁.icache dp).inum).type ≠ 0 := by
        rw [hinum₁, hsb₁, hdisk₁, hdir]
        decide
      apply Ends.bind (ilock_ends_of_alloc h₁ href₁ halloc)
      rintro _ s₂ ⟨h₂, hcached, hsb₂, hdisk₂, -, hicache⟩
      have hsb := hsb₂.trans hsb₁
      have hdisk := hdisk₂.trans hdisk₁
      have hinum : (s₂.icache dp).inum = ROOTINO := (hicache dp).1.trans hinum₁
      have hdin : (s₂.icache dp).din = dinodes s.sb s.disk ROOTINO := by
        rw [(h₂.cached dp hcached).1, hsb, hdisk, hinum]
      apply Ends.get_bind
      rw [if_neg (by rw [hdin]; exact not_not.mpr hdir), if_neg (by simp)]
      have hdirent := dirent_congr hsb hdisk
      have hlookup := dirlookup_found (k := k) h₂ hcached (by rw [hdin, hdir])
        (hinum ▸ hpresent.congr hsb hdisk) (by rw [hinum, hdirent]; exact hmiss)
        (by rw [hinum, hdirent]; exact hhit)
      rw [hinum, hdirent] at hlookup
      apply Ends.bind (hlookup.imp ?_ fun _ _ hq => hq)
      · rintro _ s₃ ⟨ip, rfl, hg₃⟩
        have h₃ := h₂.got (by rwa [hsb]) hg₃
        have hdp : dp ≠ ip := hg₃.ne_of_inum hcached.1 (by rw [hinum]; exact hself.symm)
        have hkeep : ¬ Frees s₃ dp := by
          rw [Frees, hg₃.of_ne hdp, hdin]
          exact fun hand => hnlink hand.2.1
        obtain ⟨href₃, hinum₃⟩ := hg₃.entry
        apply Ends.bind (Q := fun _ t => t = dropped s₃ dp)
        · rw [iunlockput, Ends, iput_of_not_frees hkeep]
        · rintro _ t rfl
          have hip : (dropped s₃ dp).icache ip = s₃.icache ip := Function.update_of_ne hdp.symm ..
          refine ⟨ip, rfl, h₃.dropped dp, hg₃.disk_eq.1.trans hsb, hg₃.disk_eq.2.trans hdisk, ?_, ?_⟩
          · rwa [hip]
          · rwa [hip]
      · obtain ⟨e', he', hzero⟩ := hfree.got hg₁
        exact fun _ hno => hno e' he' (by rw [(hicache e').2, hzero])
    · obtain ⟨e', he', -, -, -, hzero, -⟩ := hfree
      exact fun _ hno => hno e' he' hzero
  · rintro r t ⟨e, rfl, hq⟩
    exact ⟨e, rfl, hq⟩

end Xv6.Blocks
