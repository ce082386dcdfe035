import Xv6.Fs.Inode
import Xv6.Machine.Hoare
import Xv6.Machine.RefCount

/-!
# References to cached inodes

The `ref` of an entry of the inode cache counts the open files and current directories that refer to it
and the variables of the running call. Each function of `fs.c` takes and drops references as it says,
on its error paths too, whatever is on the disk.
-/

namespace Xv6.Fs

open Machine Function List

variable {s k : State} {e e' : EntryId} {es : List EntryId} {x : Ientry} {dev : Word} {inum : Nat}
  {name : Name} {refs : FileId ⊕ ProcId → Option EntryId} {path : List Char} {p : ProcId} {parent : Bool}

/-- The open files and the current directories that refer to inodes. -/
def State.inodeRefs (s : State) : FileId ⊕ ProcId → Option EntryId
  | .inl f => if (s.file f).type = .inode then some (s.file f).ip else none
  | .inr p => (s.proc p).cwd

/-- The running call holds the references `es` besides those of `refs`. -/
structure InodeInv (icache : EntryId → Ientry) (refs : FileId ⊕ ProcId → Option EntryId)
    (es : List EntryId) : Prop where
  count : ∀ e, ∃ n, RefCount refs e n ∧ (icache e).ref = n + es.count e
  range : ∀ e, (icache e).ref ≠ 0 → e < NINODE
  unique : ∀ e e', (icache e).ref ≠ 0 → (icache e').ref ≠ 0 → (icache e).dev = (icache e').dev →
    (icache e).inum = (icache e').inum → e = e'

/-- The tables of files and processes are those of `k`. -/
structure Held (k : State) (refs : FileId ⊕ ProcId → Option EntryId) (es : List EntryId) (s : State) :
    Prop where
  file : s.file = k.file
  proc : s.proc = k.proc
  pipe : s.pipe = k.pipe
  inodes : InodeInv s.icache refs es

/-- The order in which the references are held does not matter. -/
lemma Held.perm {es' : List EntryId} (h : Held k refs es s) (hperm : es.Perm es') : Held k refs es' s := by
  refine ⟨h.file, h.proc, h.pipe, fun e => ?_, h.inodes.range, h.inodes.unique⟩
  rw [← hperm.count_eq]
  exact h.inodes.count e

/-- The references and the inode of an entry stay as they are. -/
lemma Held.setEntry (h : Held k refs es s) (href : x.ref = (s.icache e).ref)
    (hdev : x.dev = (s.icache e).dev) (hinum : x.inum = (s.icache e).inum) :
    Held k refs es (setEntry s e x) := by
  have hall : ∀ i, ((Fs.setEntry s e x).icache i).ref = (s.icache i).ref ∧
      ((Fs.setEntry s e x).icache i).dev = (s.icache i).dev ∧
      ((Fs.setEntry s e x).icache i).inum = (s.icache i).inum := by
    intro i
    simp only [Fs.setEntry]
    by_cases hi : i = e
    · subst hi
      rw [update_self]
      exact ⟨href, hdev, hinum⟩
    · rw [update_of_ne hi]
      exact ⟨rfl, rfl, rfl⟩
  refine ⟨h.file, h.proc, h.pipe, fun i => ?_, fun i hi => ?_, fun i j hi hj hd hn => ?_⟩
  · rw [(hall i).1]
    exact h.inodes.count i
  · rw [(hall i).1] at hi
    exact h.inodes.range i hi
  · rw [(hall i).1] at hi
    rw [(hall j).1] at hj
    rw [(hall i).2.1, (hall j).2.1] at hd
    rw [(hall i).2.2, (hall j).2.2] at hn
    exact h.inodes.unique i j hi hj hd hn

/-- One more reference to an entry, or one to an entry that had none. -/
lemma Held.take (h : Held k refs es s) (href : x.ref = (s.icache e).ref + 1) (he : e < NINODE)
    (hunique : ∀ i, i ≠ e → (s.icache i).ref ≠ 0 → ¬ ((s.icache i).dev = x.dev ∧ (s.icache i).inum = x.inum)) :
    Held k refs (e :: es) (Fs.setEntry s e x) := by
  have hother : ∀ i, i ≠ e → (Fs.setEntry s e x).icache i = s.icache i :=
    fun i hi => update_of_ne hi _ _
  have hself : (Fs.setEntry s e x).icache e = x := update_self ..
  refine ⟨h.file, h.proc, h.pipe, fun i => ?_, fun i hi => ?_, fun i j hi hj hd hn => ?_⟩
  · obtain ⟨n, hcount, hn⟩ := h.inodes.count i
    refine ⟨n, hcount, ?_⟩
    by_cases hie : i = e
    · subst hie
      rw [hself, href, hn, count_cons_self, Nat.add_assoc]
    · rw [hother i hie, hn, count_cons_of_ne (Ne.symm hie)]
  · by_cases hie : i = e
    · exact hie ▸ he
    · rw [hother i hie] at hi
      exact h.inodes.range i hi
  · by_cases hie : i = e
    · subst hie
      by_cases hje : j = i
      · exact hje.symm
      · rw [hother j hje] at hj hd hn
        rw [hself] at hd hn
        exact absurd ⟨hd.symm, hn.symm⟩ (hunique j hje hj)
    · rw [hother i hie] at hi hd hn
      by_cases hje : j = e
      · subst hje
        rw [hself] at hd hn
        exact absurd ⟨hd, hn⟩ (hunique i hie hi)
      · rw [hother j hje] at hj hd hn
        exact h.inodes.unique i j hi hj hd hn

lemma Held.drop (h : Held k refs (e :: es) s) (href : x.ref = (s.icache e).ref - 1)
    (hdev : x.dev = (s.icache e).dev) (hinum : x.inum = (s.icache e).inum) :
    Held k refs es (Fs.setEntry s e x) := by
  have hother : ∀ i, i ≠ e → (Fs.setEntry s e x).icache i = s.icache i :=
    fun i hi => update_of_ne hi _ _
  have hself : (Fs.setEntry s e x).icache e = x := update_self ..
  have hle : ∀ i, ((Fs.setEntry s e x).icache i).ref ≠ 0 → (s.icache i).ref ≠ 0 := by
    intro i hi
    by_cases hie : i = e
    · subst hie
      rw [hself, href] at hi
      omega
    · rwa [hother i hie] at hi
  have hsame : ∀ i, ((Fs.setEntry s e x).icache i).dev = (s.icache i).dev ∧
      ((Fs.setEntry s e x).icache i).inum = (s.icache i).inum := by
    intro i
    by_cases hie : i = e
    · subst hie
      rw [hself]
      exact ⟨hdev, hinum⟩
    · rw [hother i hie]
      exact ⟨rfl, rfl⟩
  refine ⟨h.file, h.proc, h.pipe, fun i => ?_, fun i hi => h.inodes.range i (hle i hi),
    fun i j hi hj hd hn => ?_⟩
  · obtain ⟨n, hcount, hn⟩ := h.inodes.count i
    refine ⟨n, hcount, ?_⟩
    by_cases hie : i = e
    · subst hie
      rw [count_cons_self] at hn
      rw [hself, href, hn]
      omega
    · rw [count_cons_of_ne (Ne.symm hie)] at hn
      rw [hother i hie, hn]
  · rw [(hsame i).1, (hsame j).1] at hd
    rw [(hsame i).2, (hsame j).2] at hn
    exact h.inodes.unique i j (hle i hi) (hle j hj) hd hn

/-! ### The inode cache -/

lemma Held.setInode (h : Held k refs es s) (inum : Nat) (x : Inode) : Held k refs es (setInode s inum x) :=
  ⟨h.file, h.proc, h.pipe, h.inodes⟩

lemma iupdate_held {f : Inode → Inode} : Triple (Held k refs es) (iupdate e f) fun _ => Held k refs es :=
  .modify fun _ h => h.setInode _ _

lemma modifyEntry_held {f : Ientry → Ientry}
    (hf : ∀ x, (f x).ref = x.ref ∧ (f x).dev = x.dev ∧ (f x).inum = x.inum) :
    Triple (Held k refs es) (modifyEntry e f) fun _ => Held k refs es :=
  .modify fun _ h => h.setEntry (hf _).1 (hf _).2.1 (hf _).2.2

lemma acquiresleep_held : Triple (Held k refs es) (acquiresleep e) fun _ => Held k refs es :=
  .look fun _ _ => .ite (fun _ => .throw) fun _ => modifyEntry_held fun _ => ⟨rfl, rfl, rfl⟩

lemma releasesleep_held : Triple (Held k refs es) (releasesleep e) fun _ => Held k refs es :=
  modifyEntry_held fun _ => ⟨rfl, rfl, rfl⟩

lemma iget_held : Triple (Held k refs es) (iget dev inum) fun e => Held k refs (e :: es) := by
  refine .get_bind fun s h => ?_
  split
  · rename_i e hfind
    have he := List.find?_some hfind
    simp only [Bool.and_eq_true, decide_eq_true_eq] at he
    obtain ⟨⟨hpos, hdev⟩, hinum⟩ := he
    refine .bind (Q := fun _ => Held k refs (e :: es)) (.modify ?_) fun _ => .pure fun _ h => h
    rintro t rfl
    refine h.take rfl (mem_range.mp (mem_of_find?_eq_some hfind)) ?_
    rintro i hie hi ⟨hd, hn⟩
    exact hie (h.inodes.unique i e hi (Nat.ne_of_gt hpos) hd hn)
  · rename_i hnone
    split
    · rename_i e hfind
      have he := List.find?_some hfind
      simp only [decide_eq_true_eq] at he
      refine .bind (Q := fun _ => Held k refs (e :: es)) (.modify ?_) fun _ => .pure fun _ h => h
      rintro t rfl
      refine h.take (by rw [he]) (mem_range.mp (mem_of_find?_eq_some hfind)) ?_
      rintro i _ hi ⟨hd, hn⟩
      have hno := List.find?_eq_none.mp hnone i (mem_range.mpr (h.inodes.range i hi))
      simp only [Bool.and_eq_true, decide_eq_true_eq, not_and] at hno
      exact hno ⟨Nat.pos_of_ne_zero hi, hd⟩ hn
    · exact .throw

lemma idup_held (hpos : ∀ s, Held k refs es s → (s.icache e).ref ≠ 0) :
    Triple (Held k refs es) (idup e) fun e => Held k refs (e :: es) := by
  refine .bind (Q := fun _ => Held k refs (e :: es)) (.modify fun s h => ?_) fun _ => .pure fun _ h => h
  have he := hpos s h
  refine h.take rfl (h.inodes.range e he) ?_
  rintro i hie hi ⟨hd, hn⟩
  exact hie (h.inodes.unique i e hi he hd hn)

lemma readInode_held : Triple (Held k refs es) (readInode e) fun _ => Held k refs es :=
  .look fun _ _ => .ite (fun _ => .pure fun _ h => h) fun _ => .ite (fun _ => .throw) fun _ =>
    modifyEntry_held fun _ => ⟨rfl, rfl, rfl⟩

lemma ilock_held : Triple (Held k refs es) (ilock e) fun _ => Held k refs es :=
  .look fun _ _ => .ite (fun _ => .throw) fun _ => acquiresleep_held.bind fun _ => readInode_held

lemma iunlock_held : Triple (Held k refs es) (iunlock e) fun _ => Held k refs es :=
  .look fun _ _ => .ite (fun _ => .throw) fun _ => releasesleep_held

lemma ifree_held : Triple (Held k refs es) (ifree e) fun _ => Held k refs es := by
  refine .look fun _ _ => .ite (fun _ => ?_) fun _ => .pure fun _ h => h
  exact iupdate_held.bind fun _ => modifyEntry_held fun _ => ⟨rfl, rfl, rfl⟩

lemma iput_held : Triple (Held k refs (e :: es)) (iput e) fun _ => Held k refs es :=
  acquiresleep_held.bind fun _ => ifree_held.bind fun _ => releasesleep_held.bind fun _ =>
    .modify fun _ h => h.drop rfl rfl rfl

lemma iunlockput_held : Triple (Held k refs (e :: es)) (iunlockput e) fun _ => Held k refs es :=
  iunlock_held.bind fun _ => iput_held

lemma ialloc_held {type : FileType} :
    Triple (Held k refs es) (ialloc dev type) fun e => Held k refs (e :: es) := by
  refine .get_bind fun s h => ?_
  split
  · refine Triple.bind (Q := fun _ => Held k refs es) ?_ fun _ => iget_held
    rintro t _ _ rfl heq
    cases heq
    exact h.setInode _ _
  · exact .throw

/-! ### Directories and paths -/

/-- The references in the result of a lookup. -/
def found {β : Type} : Option (EntryId × β) → List EntryId
  | none => []
  | some (e, _) => [e]

lemma dirlookup_held : Triple (Held k refs es) (dirlookup e name) fun r => Held k refs (found r ++ es) := by
  refine .look fun s h => .ite (fun _ => .throw) fun _ => ?_
  split
  · exact .pure fun _ h => h
  · exact iget_held.bind fun ip => .pure fun _ h => h

lemma dirlink_held : Triple (Held k refs es) (dirlink e name inum) fun _ => Held k refs es := by
  refine dirlookup_held.bind fun r => ?_
  match r with
  | some (ip, off) => exact iput_held.bind fun _ => .pure fun _ h => h
  | none =>
    refine .look fun _ _ => .ite (fun _ => .throw) fun _ => ?_
    exact iupdate_held.bind fun _ => .pure fun _ h => h

lemma namexLoop_held {names : List Name} :
    Triple (Held k refs (e :: es)) (namexLoop parent e names) fun r => Held k refs (found r ++ es) := by
  induction names generalizing e with
  | nil =>
    refine .ite (fun _ => ?_) fun _ => .pure fun _ h => h
    exact iput_held.bind fun _ => .pure fun _ h => h
  | cons name rest ih =>
    refine ilock_held.bind fun _ => .look fun _ _ => ?_
    refine .ite (fun _ => ?_) fun _ => .ite (fun _ => ?_) fun _ => dirlookup_held.bind fun r => ?_
    · exact iunlockput_held.bind fun _ => .pure fun _ h => h
    · exact iunlock_held.bind fun _ => .pure fun _ h => h
    · match r with
      | none => exact iunlockput_held.bind fun _ => .pure fun _ h => h
      | some (next, off) =>
        -- the reference to the directory is dropped, the one to the next inode is kept
        refine Triple.imp (iunlockput_held.bind fun _ => ih) (fun t ht => ht.perm ?_) fun _ _ h => h
        exact List.Perm.swap ..

lemma namexStart_held :
    Triple (Held k k.inodeRefs es) (namexStart p path) fun e => Held k k.inodeRefs (e :: es) := by
  refine .ite (fun _ => iget_held) fun _ => .look fun s h => ?_
  split
  · exact .throw
  · rename_i e he
    refine idup_held fun t ht => ?_
    have hcwd : k.inodeRefs (.inr p) = some e := by
      rw [State.inodeRefs, ← h.proc]
      exact he
    obtain ⟨n, hcount, hn⟩ := ht.inodes.count e
    have hpos := hcount.pos hcwd
    omega

lemma namex_held :
    Triple (Held k k.inodeRefs es) (namex p path parent) fun r => Held k k.inodeRefs (found r ++ es) :=
  namexStart_held.bind fun _ => namexLoop_held

lemma namei_held :
    Triple (Held k k.inodeRefs es) (namei p path) fun r => Held k k.inodeRefs (r.toList ++ es) := by
  refine namex_held.bind fun r => .pure fun s h => ?_
  match r with
  | none => exact h
  | some (e, _) => exact h

end Xv6.Fs
