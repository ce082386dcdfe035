import Xv6.File.Syscalls
import Xv6.Fs.InodeRefs

/-!
# Reference counts of files and inodes

Whatever the system calls do and wherever they fail, between two of them the `ref` of a file is the number
of descriptors that refer to it, the `ref` of a cached inode is the number of open files and current
directories that refer to it, and an end of a pipe is open when there is a file for it.

Inside a call the counts also include references held by its variables. Some calls store a reference in
a descriptor before they count it, or count it down before they clear the descriptor; the files for which
this is so are kept as debts.
-/

namespace Xv6.Fs

open Machine Function List Option

variable {s s' : State} {f f' : FileId} {e : EntryId} {p q : ProcId} {fd : Nat} {pp : PipeId}
  {fs ds : List FileId} {es : List EntryId} {l : Label} {file : FileId → File} {pipe : PipeId → Option Pipe}
  {fs' ds' : List FileId} {x : File} {proc : ProcId → Proc} {refs : FileId ⊕ ProcId → Option EntryId}
  {icache : EntryId → Ientry} {page : Option PipeId} {a : FileId ⊕ ProcId}

/-! ### The invariant -/

/-- The descriptors. -/
def fdRefs (proc : ProcId → Proc) (x : ProcId × Nat) : Option FileId := (proc x.1).ofile x.2

/-- `writeopen` and `readopen` -/
def Pipe.isOpen (x : Pipe) (writable : Bool) : Bool := if writable then x.writeopen else x.readopen

def IsEnd (file : FileId → File) (pp : PipeId) (writable : Bool) (f : FileId) : Prop :=
  (file f).type = .pipe ∧ (file f).pipe = pp ∧ (file f).writable = writable

/-- A file that is an end of a pipe is the only one, and the pipe is open there. -/
structure PipeInv (file : FileId → File) (pipe : PipeId → Option Pipe) : Prop where
  isPipe : ∀ f, (file f).type = .pipe → pipe (file f).pipe ≠ none
  ends : ∀ pp x w, pipe pp = some x → (x.isOpen w = true ↔ ∃ f, IsEnd file pp w f)
  single : ∀ pp writable f f', IsEnd file pp writable f → IsEnd file pp writable f' → f = f'

/-- The running call holds references to `fs`, and owes references to `ds`. -/
structure FileInv (file : FileId → File) (proc : ProcId → Proc) (fs ds : List FileId) : Prop where
  count : ∀ f, ∃ n, RefCount (fdRefs proc) f n ∧ (file f).ref + ds.count f = n + fs.count f
  closed : ∀ f, (file f).ref = 0 → (file f).type = .none
  idle : ∀ p, (proc p).state = .unused ∨ (proc p).state = .zombie →
    (∀ fd, (proc p).ofile fd = none) ∧ (proc p).cwd = none
  range : ∀ p fd, (proc p).ofile fd ≠ none → fd < NOFILE

structure Counts (fs ds : List FileId) (es : List EntryId) (s : State) : Prop where
  files : FileInv s.file s.proc fs ds
  pipes : PipeInv s.file s.pipe
  inodes : InodeInv s.icache s.inodeRefs es

/-- The same in a call of the process `p`. -/
structure Refs (p : ProcId) (fs ds : List FileId) (es : List EntryId) (s : State) : Prop
    extends Counts fs ds es s where
  caller : (s.proc p).state = .live

/-- A function of `fs.c` changes only the references to inodes. -/
lemma Refs.lift_frame {α : Type} {m : Call α} {es' : α → List EntryId}
    (hm : ∀ k, Triple (Held k k.inodeRefs es) m fun a => Held k k.inodeRefs (es' a))
    (h : Refs p fs ds es s) : Triple (fun t => t = s) m
      fun a t => Refs p fs ds (es' a) t ∧ t.file = s.file ∧ t.proc = s.proc := by
  rintro s a t rfl hrun
  obtain ⟨hfile, hproc, hpipe, hinodes⟩ := hm s s a t ⟨rfl, rfl, rfl, h.inodes⟩ hrun
  refine ⟨⟨⟨?_, ?_, ?_⟩, ?_⟩, hfile, hproc⟩
  · rw [hfile, hproc]
    exact h.files
  · rw [hfile, hpipe]
    exact h.pipes
  · have hrefs : t.inodeRefs = s.inodeRefs := by
      funext x
      cases x <;> simp only [State.inodeRefs, hfile, hproc]
    rw [hrefs]
    exact hinodes
  · rw [hproc]
    exact h.caller

lemma Refs.lift {α : Type} {m : Call α} {es' : α → List EntryId}
    (hm : ∀ k, Triple (Held k k.inodeRefs es) m fun a => Held k k.inodeRefs (es' a)) :
    Triple (Refs p fs ds es) m fun a => Refs p fs ds (es' a) :=
  .fix fun _ h => (Refs.lift_frame hm h).imp (fun _ ht => ht) fun _ _ ht => ht.1

/-- Only how often a file is held and owed matters. -/
lemma FileInv.congr (h : FileInv file proc fs ds)
    (hcount : ∀ f, ds'.count f + fs.count f = ds.count f + fs'.count f) : FileInv file proc fs' ds' := by
  refine ⟨fun f => ?_, h.closed, h.idle, h.range⟩
  obtain ⟨n, hn, heq⟩ := h.count f
  have hf := hcount f
  exact ⟨n, hn, by omega⟩

lemma Refs.congr (h : Refs p fs ds es s)
    (hcount : ∀ f, ds'.count f + fs.count f = ds.count f + fs'.count f) : Refs p fs' ds' es s :=
  ⟨⟨h.files.congr hcount, h.pipes, h.inodes⟩, h.caller⟩

/-- A reference that is held pays a debt. -/
lemma Refs.cancel (h : Refs p (f :: fs) (f :: ds) es s) : Refs p fs ds es s := by
  refine h.congr fun g => ?_
  rw [count_cons, count_cons]
  omega

/-- A reference is taken now and paid for later. -/
lemma Refs.borrow (h : Refs p fs ds es s) : Refs p (f :: fs) (f :: ds) es s := by
  refine h.congr fun g => ?_
  rw [count_cons, count_cons]
  omega

lemma Refs.swap (h : Refs p (f :: f' :: fs) ds es s) : Refs p (f' :: f :: fs) ds es s :=
  h.congr fun g => congrArg (ds.count g + ·) ((List.Perm.swap f' f fs).count_eq g)

/-! ### Files -/

/-- A file keeps its kind and what it refers to. -/
structure SameFile (x y : File) : Prop where
  type : x.type = y.type
  pipe : x.pipe = y.pipe
  writable : x.writable = y.writable
  ip : x.ip = y.ip

lemma PipeInv.mono {file file' : FileId → File} (h : PipeInv file pipe)
    (hsame : ∀ f, SameFile (file' f) (file f)) : PipeInv file' pipe := by
  have hend : ∀ pp w f, IsEnd file' pp w f ↔ IsEnd file pp w f := by
    intro pp w f
    rw [IsEnd, (hsame f).type, (hsame f).pipe, (hsame f).writable]
    exact Iff.rfl
  refine ⟨fun f hf => ?_, fun pp x w hx => ?_, fun pp w f f' hf hf' => ?_⟩
  · rw [(hsame f).type] at hf
    rw [(hsame f).pipe]
    exact h.isPipe f hf
  · simp only [hend]
    exact h.ends pp x w hx
  · exact h.single pp w f f' ((hend pp w f).mp hf) ((hend pp w f').mp hf')

lemma inodeRefs_mono (hfile : ∀ f, SameFile (s'.file f) (s.file f))
    (hproc : ∀ p, (s'.proc p).cwd = (s.proc p).cwd) : s'.inodeRefs = s.inodeRefs := by
  funext x
  cases x with
  | inl f => rw [State.inodeRefs, State.inodeRefs, (hfile f).type, (hfile f).ip]
  | inr p => exact hproc p

/-- One file changes, with its count. -/
lemma FileInv.setFile (h : FileInv file proc fs ds) (hx : x.ref = 0 → x.type = .none)
    (hself : x.ref + ds'.count f + fs.count f = (file f).ref + ds.count f + fs'.count f)
    (hother : ∀ g, g ≠ f → ds'.count g + fs.count g = ds.count g + fs'.count g) :
    FileInv (update file f x) proc fs' ds' := by
  refine ⟨fun g => ?_, ?_, h.idle, h.range⟩
  · obtain ⟨n, hn, heq⟩ := h.count g
    refine ⟨n, hn, ?_⟩
    by_cases hgf : g = f
    · subst hgf
      rw [update_self]
      omega
    · rw [update_of_ne hgf]
      have hg := hother g hgf
      omega
  · exact (forall_update_iff file (p := fun _ y => y.ref = 0 → y.type = .none)).mpr
      ⟨hx, fun g _ => h.closed g⟩

lemma Refs.setRef (h : Refs p fs ds es s) (hx : SameFile x (s.file f)) (hpos : x.ref ≠ 0)
    (hself : x.ref + ds'.count f + fs.count f = (s.file f).ref + ds.count f + fs'.count f)
    (hother : ∀ g, g ≠ f → ds'.count g + fs.count g = ds.count g + fs'.count g) :
    Refs p fs' ds' es (setFile s f x) := by
  have hall : ∀ g, SameFile ((setFile s f x).file g) (s.file g) :=
    (forall_update_iff s.file (p := fun g y => SameFile y (s.file g))).mpr
      ⟨hx, fun g _ => ⟨rfl, rfl, rfl, rfl⟩⟩
  refine ⟨⟨h.files.setFile (fun h => absurd h hpos) hself hother, h.pipes.mono hall, ?_⟩, h.caller⟩
  rw [inodeRefs_mono hall fun _ => rfl]
  exact h.inodes

lemma count_cons_ne {g : FileId} (hne : g ≠ f) : (f :: fs).count g = fs.count g :=
  count_cons_of_ne (Ne.symm hne)

/-- A new file has one reference, which the call holds. -/
lemma filealloc_refs (h : Refs p fs [] es s) : Triple (fun t => t = s) filealloc fun r t =>
    match r with
    | none => t = s
    | some f => t = setFile s f { s.file f with ref := 1 } ∧ (s.file f).ref = 0 ∧
        Refs p (f :: fs) [] es t := by
  refine .get_bind ?_
  rintro s rfl
  split
  · rename_i f hfind
    have hf := List.find?_some hfind
    simp only [decide_eq_true_eq] at hf
    refine Triple.bind (Q := fun _ t => t = setFile s f { s.file f with ref := 1 } ∧
      (s.file f).ref = 0 ∧ Refs p (f :: fs) [] es t) ?_ fun _ => .pure fun t ht => ht
    rintro t _ _ rfl heq
    cases heq
    refine ⟨rfl, hf, h.setRef ⟨rfl, rfl, rfl, rfl⟩ Nat.one_ne_zero ?_ fun g hg => ?_⟩
    · dsimp only
      rw [hf, count_cons_self]
      omega
    · rw [count_cons_ne hg]
  · exact .pure fun t ht => ht

lemma filedup_refs (h : Refs p fs ds es s) : Triple (fun t => t = s) (filedup f)
    fun _ t => Refs p (f :: fs) ds es t ∧ t.proc = s.proc := by
  refine .get_bind ?_
  rintro s rfl
  refine .ite (fun _ => .throw) fun _ => ?_
  refine Triple.bind (Q := fun _ t => Refs p (f :: fs) ds es t ∧ t.proc = s.proc) ?_
    fun _ => .pure fun _ ht => ht
  rintro t _ _ rfl heq
  cases heq
  refine ⟨h.setRef ⟨rfl, rfl, rfl, rfl⟩ (Nat.succ_ne_zero _) ?_ fun g hg => ?_, rfl⟩
  · dsimp only
    rw [count_cons_self]
    omega
  · rw [count_cons_ne hg]

/-! ### The last reference to a file -/

lemma inodeRefs_setFile (s : State) (f : FileId) (x : File) :
    (setFile s f x).inodeRefs =
      update s.inodeRefs (.inl f) (if x.type = .inode then some x.ip else none) := by
  funext y
  cases y with
  | inl g =>
    by_cases hg : g = f
    · subst hg
      simp [State.inodeRefs, setFile]
    · have hne : (Sum.inl g : FileId ⊕ ProcId) ≠ .inl f := fun h => hg (Sum.inl.inj h)
      rw [update_of_ne hne, State.inodeRefs, State.inodeRefs, setFile]
      simp only [update_of_ne hg]
  | inr => rw [update_of_ne (by simp)]; rfl

/-- A place that referred to an inode does not any more, and the call holds the reference. -/
lemma InodeInv.drop (h : InodeInv icache refs es) (ha : refs a = some e) :
    InodeInv icache (update refs a none) (e :: es) := by
  refine ⟨fun i => ?_, h.range, h.unique⟩
  obtain ⟨n, hn, heq⟩ := h.count i
  by_cases hi : i = e
  · subst hi
    obtain ⟨n, rfl⟩ := Nat.exists_eq_succ_of_ne_zero (Nat.ne_of_gt (hn.pos ha))
    refine ⟨n, hn.drop ha (some_ne_none i).symm, ?_⟩
    rw [heq, count_cons_self]
    omega
  · refine ⟨n, hn.other ?_ (some_ne_none i).symm, ?_⟩
    · rw [ha]
      exact fun h => hi (some.inj h).symm
    · rw [heq, count_cons_of_ne (Ne.symm hi)]

/-- A reference that the call holds is stored in a place. -/
lemma InodeInv.store (h : InodeInv icache refs (e :: es)) (ha : refs a = none) :
    InodeInv icache (update refs a (some e)) es := by
  refine ⟨fun i => ?_, h.range, h.unique⟩
  obtain ⟨n, hn, heq⟩ := h.count i
  have hne : refs a ≠ some i := by
    rw [ha]
    exact (some_ne_none i).symm
  by_cases hi : i = e
  · subst hi
    refine ⟨n + 1, hn.take hne, ?_⟩
    rw [heq, count_cons_self]
    omega
  · refine ⟨n, hn.other hne (fun h => hi (some.inj h).symm), ?_⟩
    rw [heq, count_cons_of_ne (Ne.symm hi)]

/-- A file that is no end of a pipe becomes one of another kind. -/
lemma PipeInv.setFile (h : PipeInv file pipe) (hf : (file f).type ≠ .pipe) (hx : x.type ≠ .pipe) :
    PipeInv (update file f x) pipe := by
  have hend : ∀ pp w g, IsEnd (update file f x) pp w g ↔ IsEnd file pp w g := by
    intro pp w g
    by_cases hg : g = f
    · subst hg
      rw [IsEnd, IsEnd, update_self]
      exact ⟨fun h => absurd h.1 hx, fun h => absurd h.1 hf⟩
    · rw [IsEnd, IsEnd, update_of_ne hg]
  refine ⟨fun g hg => ?_, fun pp y w hy => ?_, fun pp w g g' hg hg' => ?_⟩
  · by_cases hgf : g = f
    · subst hgf
      rw [update_self] at hg
      exact absurd hg hx
    · rw [update_of_ne hgf] at hg ⊢
      exact h.isPipe g hg
  · simp only [hend]
    exact h.ends pp y w hy
  · exact h.single pp w g g' ((hend pp w g).mp hg) ((hend pp w g').mp hg')

/-- `pipeclose` for the file that is the end. -/
lemma PipeInv.close {y y' : Pipe} (h : PipeInv file pipe) (hf : (file f).type = .pipe)
    (hx : x.type ≠ .pipe) (hy : pipe (file f).pipe = some y)
    (hclosed : y'.isOpen (file f).writable = false)
    (hother : ∀ w, w ≠ (file f).writable → y'.isOpen w = y.isOpen w) :
    PipeInv (update file f x)
      (update pipe (file f).pipe (if !y'.readopen && !y'.writeopen then none else some y')) := by
  have hend : ∀ pp w g, IsEnd (update file f x) pp w g ↔ g ≠ f ∧ IsEnd file pp w g := by
    intro pp w g
    by_cases hg : g = f
    · subst hg
      rw [IsEnd, update_self]
      exact ⟨fun h => absurd h.1 hx, fun h => absurd rfl h.1⟩
    · rw [IsEnd, IsEnd, update_of_ne hg]
      exact ⟨fun h => ⟨hg, h⟩, fun h => h.2⟩
  -- another end of the same pipe is the other one
  have hpeer : ∀ w g, g ≠ f → IsEnd file (file f).pipe w g → w ≠ (file f).writable := by
    rintro w g hg hgend rfl
    exact hg (h.single _ _ g f hgend ⟨hf, rfl, rfl⟩)
  have hopen : ∀ w, y'.isOpen w = true ↔ ∃ g, g ≠ f ∧ IsEnd file (file f).pipe w g := by
    intro w
    by_cases hw : w = (file f).writable
    · subst hw
      rw [hclosed]
      constructor
      · intro h
        cases h
      · rintro ⟨g, hg, hgend⟩
        exact absurd rfl (hpeer _ g hg hgend)
    · rw [hother w hw, h.ends _ y w hy]
      constructor
      · rintro ⟨g, hg⟩
        refine ⟨g, ?_, hg⟩
        rintro rfl
        exact hw hg.2.2.symm
      · rintro ⟨g, _, hg⟩
        exact ⟨g, hg⟩
  refine ⟨fun g hg => ?_, fun pp z w hz => ?_, fun pp w g g' hg hg' => ?_⟩
  · have hgf : g ≠ f := by
      rintro rfl
      rw [update_self] at hg
      exact hx hg
    rw [update_of_ne hgf] at hg ⊢
    by_cases hpp : (file g).pipe = (file f).pipe
    · rw [hpp, update_self, if_neg]
      · exact some_ne_none y'
      · have hstill := (hopen (file g).writable).mpr ⟨g, hgf, hg, hpp, rfl⟩
        rw [Pipe.isOpen] at hstill
        split_ifs at hstill <;> simp [hstill]
    · rw [update_of_ne hpp]
      exact h.isPipe g hg
  · simp only [hend]
    by_cases hpp : pp = (file f).pipe
    · subst hpp
      rw [update_self] at hz
      split_ifs at hz
      cases hz
      exact hopen w
    · rw [update_of_ne hpp] at hz
      rw [h.ends pp z w hz]
      constructor
      · rintro ⟨g, hg⟩
        refine ⟨g, ?_, hg⟩
        rintro rfl
        exact hpp hg.2.1.symm
      · rintro ⟨g, _, hg⟩
        exact ⟨g, hg⟩
  · exact h.single pp w g g' ((hend pp w g).mp hg).2 ((hend pp w g').mp hg').2

lemma inodeRefs_setFile_none (hf : (s.file f).type ≠ .inode) (hx : x.type ≠ .inode) :
    (setFile s f x).inodeRefs = s.inodeRefs := by
  rw [inodeRefs_setFile, if_neg hx]
  refine update_eq_self_iff.mpr ?_
  rw [State.inodeRefs, if_neg hf]

lemma pipeclose_spec {y : Pipe} {w : Bool} (hy : s.pipe pp = some y) :
    Triple (fun t => t = s) (pipeclose pp w) fun _ t => ∃ y' : Pipe, y'.isOpen w = false ∧
      (∀ v, v ≠ w → y'.isOpen v = y.isOpen v) ∧
      t = setPipe s pp (if !y'.readopen && !y'.writeopen then none else some y') := by
  refine .get_bind ?_
  rintro s rfl
  rw [hy]
  rintro t _ _ rfl heq
  cases heq
  refine ⟨if w then { y with writeopen := false } else { y with readopen := false }, ?_, ?_, rfl⟩
  · cases w <;> rfl
  · intro v hv
    cases w <;> cases v <;> first | exact absurd rfl hv | rfl

/-- What a file refers to when the last reference goes. -/
lemma closeLast_refs (h : Refs p fs ds es s) (href : (s.file f).ref = 1) :
    Triple (fun t => t = setFile s f { s.file f with ref := 0, type := .none })
      (closeLast (s.file f)) fun _ t => Refs p fs (f :: ds) es t ∧ t.proc = s.proc := by
  have hfiles : FileInv (setFile s f { s.file f with ref := 0, type := .none }).file s.proc fs
      (f :: ds) := by
    refine h.files.setFile (fun _ => rfl) ?_ fun g hg => ?_
    · dsimp only
      rw [href, count_cons_self]
      omega
    · rw [count_cons_ne hg]
  rw [closeLast]
  split
  · rename_i htype
    obtain ⟨y, hy⟩ := ne_none_iff_exists'.mp (h.pipes.isPipe f htype)
    refine (pipeclose_spec (s := setFile s f _) hy).imp (fun _ ht => ht) ?_
    rintro _ _ ⟨y', hclosed, hother, rfl⟩
    refine ⟨⟨⟨hfiles, h.pipes.close htype (by simp) hy hclosed hother, ?_⟩, h.caller⟩, rfl⟩
    have hrefs := inodeRefs_setFile_none (s := s) (f := f)
      (x := { s.file f with ref := 0, type := .none }) (by simp [htype]) (by simp)
    exact hrefs ▸ h.inodes
  · rename_i htype
    -- the reference of the file becomes one of the call, which `iput` drops
    have hmoved : Refs p fs (f :: ds) ((s.file f).ip :: es)
        (setFile s f { s.file f with ref := 0, type := .none }) := by
      refine ⟨⟨hfiles, h.pipes.setFile (by simp [htype]) (by simp), ?_⟩, h.caller⟩
      rw [inodeRefs_setFile]
      refine h.inodes.drop ?_
      rw [State.inodeRefs, if_pos htype]
    exact (Refs.lift_frame (fun k => iput_held) hmoved).imp (fun _ ht => ht) fun _ _ ht => ⟨ht.1, ht.2.2⟩
  · rename_i htype
    refine .pure ?_
    rintro t rfl
    refine ⟨⟨⟨hfiles, h.pipes.setFile (by simp [htype]) (by simp), ?_⟩, h.caller⟩, rfl⟩
    rw [inodeRefs_setFile_none (by simp [htype]) (by simp)]
    exact h.inodes

lemma fileclose_owed (h : Refs p fs ds es s) : Triple (fun t => t = s) (fileclose f)
    fun _ t => Refs p fs (f :: ds) es t ∧ t.proc = s.proc := by
  refine .get_bind ?_
  rintro s rfl
  refine .ite (fun _ => .throw) fun hpos => .ite (fun hmany => ?_) fun hone => ?_
  · rintro t _ _ rfl heq
    cases heq
    refine ⟨h.setRef ⟨rfl, rfl, rfl, rfl⟩ (Nat.sub_ne_zero_of_lt hmany) ?_ fun g hg => ?_, rfl⟩
    · dsimp only
      rw [count_cons_self]
      omega
    · rw [count_cons_ne hg]
  · have href : (s.file f).ref = 1 := by omega
    refine Triple.bind (Q := fun _ t => t = setFile s f { s.file f with ref := 0, type := .none })
      ?_ fun _ => closeLast_refs h href
    rintro t _ _ rfl heq
    cases heq
    rfl

/-- A reference that the call holds is dropped. -/
lemma fileclose_refs : Triple (Refs p (f :: fs) ds es) (fileclose f) fun _ => Refs p fs ds es :=
  .fix fun _ h => (fileclose_owed h).imp (fun _ ht => ht) fun _ _ ht => ht.1.cancel

/-! ### Descriptors -/

lemma fdRefs_setOfile (s : State) (p : ProcId) (fd : Nat) (v : Option FileId) :
    fdRefs (setOfile s p fd v).proc = update (fdRefs s.proc) (p, fd) v := by
  funext x
  obtain ⟨q, i⟩ := x
  simp only [fdRefs, setOfile, setProc, update_apply, Prod.mk.injEq]
  split_ifs <;> simp_all

lemma cwd_setOfile (q : ProcId) (v : Option FileId) :
    ((setOfile s p fd v).proc q).cwd = (s.proc q).cwd := by
  simp only [setOfile, setProc, update_apply]
  split_ifs with hq
  · rw [hq]
  · rfl

lemma state_setOfile (q : ProcId) (v : Option FileId) :
    ((setOfile s p fd v).proc q).state = (s.proc q).state := by
  simp only [setOfile, setProc, update_apply]
  split_ifs with hq
  · rw [hq]
  · rfl

/-- A descriptor changes, and the references that the call holds with it. -/
lemma Refs.setOfile {fs' : List FileId} {v : Option FileId} (h : Refs p fs ds es s)
    (hcount : ∀ f, ∀ n, RefCount (fdRefs s.proc) f n → ∃ n',
      RefCount (update (fdRefs s.proc) (q, fd) v) f n' ∧ n' + fs'.count f = n + fs.count f)
    (hv : v ≠ none → ((s.proc q).state ≠ .unused ∧ (s.proc q).state ≠ .zombie) ∧ fd < NOFILE) :
    Refs p fs' ds es (Fs.setOfile s q fd v) := by
  have hofile : ∀ r i, ((Fs.setOfile s q fd v).proc r).ofile i =
      update (fdRefs s.proc) (q, fd) v (r, i) :=
    fun r i => congrFun (fdRefs_setOfile s q fd v) (r, i)
  refine ⟨⟨⟨fun f => ?_, h.files.closed, fun r hr => ⟨fun i => ?_, ?_⟩, fun r i hi => ?_⟩, h.pipes, ?_⟩, ?_⟩
  · obtain ⟨n, hn, heq⟩ := h.files.count f
    obtain ⟨n', hn', heq'⟩ := hcount f n hn
    refine ⟨n', ?_, ?_⟩
    · rw [fdRefs_setOfile]
      exact hn'
    · simp only [Fs.setOfile, setProc]
      omega
  · rw [state_setOfile] at hr
    rw [hofile]
    by_cases hslot : (r, i) = (q, fd)
    · rw [hslot, update_self]
      by_contra hne
      cases hslot
      exact hr.elim (hv hne).1.1 (hv hne).1.2
    · rw [update_of_ne hslot]
      exact (h.files.idle r hr).1 i
  · rw [state_setOfile] at hr
    rw [cwd_setOfile]
    exact (h.files.idle r hr).2
  · rw [hofile] at hi
    by_cases hslot : (r, i) = (q, fd)
    · rw [hslot, update_self] at hi
      cases hslot
      exact (hv hi).2
    · rw [update_of_ne hslot] at hi
      exact h.files.range r i hi
  · have hrefs : (Fs.setOfile s q fd v).inodeRefs = s.inodeRefs :=
      inodeRefs_mono (fun _ => ⟨rfl, rfl, rfl, rfl⟩) fun r => cwd_setOfile r v
    rw [hrefs]
    exact h.inodes
  · rw [state_setOfile]
    exact h.caller

/-- A reference that the call holds goes into a descriptor. -/
lemma Refs.install (h : Refs p (f :: fs) ds es s) (hnone : (s.proc q).ofile fd = none)
    (hq : (s.proc q).state ≠ .unused ∧ (s.proc q).state ≠ .zombie) (hfd : fd < NOFILE) :
    Refs p fs ds es (Fs.setOfile s q fd (some f)) := by
  refine h.setOfile (fun g n hn => ?_) fun _ => ⟨hq, hfd⟩
  have hne : fdRefs s.proc (q, fd) ≠ some g := by
    rw [fdRefs, hnone]
    exact (some_ne_none g).symm
  by_cases hg : g = f
  · subst hg
    exact ⟨n + 1, hn.take hne, by rw [count_cons_self]; omega⟩
  · exact ⟨n, hn.other hne fun h => hg (some.inj h).symm, by rw [count_cons_ne hg]⟩

/-- The call holds the reference that was in a descriptor. -/
lemma Refs.clear (h : Refs p fs ds es s) (hsome : (s.proc q).ofile fd = some f) :
    Refs p (f :: fs) ds es (Fs.setOfile s q fd none) := by
  refine h.setOfile (fun g n hn => ?_) fun hne => absurd rfl hne
  by_cases hg : g = f
  · subst hg
    obtain ⟨n, rfl⟩ := Nat.exists_eq_succ_of_ne_zero
      (Nat.ne_of_gt (hn.pos (show fdRefs s.proc (q, fd) = some g from hsome)))
    exact ⟨n, hn.drop hsome (some_ne_none g).symm, by rw [count_cons_self]; omega⟩
  · refine ⟨n, hn.other ?_ (some_ne_none g).symm, by rw [count_cons_ne hg]⟩
    rw [fdRefs, hsome]
    exact fun h => hg (some.inj h).symm

lemma fdalloc_refs (h : Refs p (f :: fs) ds es s) : Triple (fun t => t = s) (fdalloc p f) fun r t =>
    match r with
    | none => t = s
    | some fd => t = setOfile s p fd (some f) ∧ Refs p fs ds es t := by
  refine .get_bind ?_
  rintro s rfl
  split
  · rename_i fd hfind
    have hfd := List.find?_some hfind
    simp only [decide_eq_true_eq] at hfd
    refine Triple.bind (Q := fun _ t => t = setOfile s p fd (some f) ∧ Refs p fs ds es t) ?_
      fun _ => .pure fun t ht => ht
    rintro t _ _ rfl heq
    cases heq
    refine ⟨rfl, h.install hfd ?_ (mem_range.mp (mem_of_find?_eq_some hfind))⟩
    rw [h.caller]
    exact ⟨fun h => (by cases h), fun h => (by cases h)⟩
  · exact .pure fun t ht => ht

/-- What `argfd` has found is in the descriptor. -/
lemma argfd_refs (h : Refs p fs ds es s) : Triple (fun t => t = s) (argfd p fd) fun r t =>
    t = s ∧ ∀ f, r = some f → (s.proc p).ofile fd = some f := by
  refine .get_bind ?_
  rintro s rfl
  refine .pure fun t ht => ⟨ht, fun f hf => ?_⟩
  split_ifs at hf
  exact hf

lemma sysDup_refs : Triple (Refs p [] [] []) (sysDup p fd) fun _ => Refs p [] [] [] := by
  refine .fix fun s h => (argfd_refs h).bind fun r => ?_
  match r with
  | none => exact .pure fun t ht => ht.1 ▸ h
  | some f =>
    -- the descriptor is taken before the reference is counted
    refine .fix fun t ht => ?_
    obtain ⟨rfl, _⟩ := ht
    refine (fdalloc_refs (h.borrow (f := f))).bind fun r => ?_
    match r with
    | none => exact .pure fun t ht => ht ▸ h
    | some fd =>
      refine .fix fun t ht => (filedup_refs ht.2).bind fun _ => .pure fun _ h => h.1.cancel

lemma sysClose_refs : Triple (Refs p [] [] []) (sysClose p fd) fun _ => Refs p [] [] [] := by
  refine .fix fun s h => (argfd_refs h).bind fun r => ?_
  match r with
  | none => exact .pure fun t ht => ht.1 ▸ h
  | some f =>
    refine .bind (.modify fun t ht => ?_) fun _ => fileclose_refs
    obtain ⟨rfl, hf⟩ := ht
    exact h.clear (hf f rfl)

/-! ### Pipes -/

/-- Two files become the ends of a new pipe. -/
lemma PipeInv.open {x x' : File} (h : PipeInv file pipe) (hpp : pipe pp = none) (hne : f' ≠ f)
    (hf : (file f).type ≠ .pipe) (hf' : (file f').type ≠ .pipe) (hx : IsEnd (fun _ => x) pp false f)
    (hx' : IsEnd (fun _ => x') pp true f') :
    PipeInv (update (update file f x) f' x') (update pipe pp (some ⟨true, true⟩)) := by
  have hold : ∀ w g, ¬ IsEnd file pp w g := by
    rintro w g ⟨htype, rfl, _⟩
    exact h.isPipe g htype hpp
  have hend : ∀ pp' w g, IsEnd (update (update file f x) f' x') pp' w g ↔
      if pp' = pp then g = (if w then f' else f) else IsEnd file pp' w g := by
    intro pp' w g
    by_cases hg' : g = f'
    · subst hg'
      rw [IsEnd, update_self, hx'.1, hx'.2.1, hx'.2.2]
      rcases eq_or_ne pp' pp with rfl | hpp'
      · cases w <;> simp [hne]
      · simp [IsEnd, hf', hpp', hpp'.symm]
    · by_cases hg : g = f
      · subst hg
        rw [IsEnd, update_of_ne hg', update_self, hx.1, hx.2.1, hx.2.2]
        rcases eq_or_ne pp' pp with rfl | hpp'
        · cases w <;> simp [hg']
        · simp [IsEnd, hf, hpp', hpp'.symm]
      · rw [IsEnd, update_of_ne hg', update_of_ne hg]
        split_ifs with hpp' hw
        · subst hpp'
          exact ⟨fun h => absurd h (hold _ _), fun h => absurd h hg'⟩
        · subst hpp'
          exact ⟨fun h => absurd h (hold _ _), fun h => absurd h hg⟩
        · exact Iff.rfl
  refine ⟨fun g hg => ?_, fun pp' y w hy => ?_, fun pp' w g g' hg hg' => ?_⟩
  · rw [update_apply]
    split_ifs with hpp'
    · exact some_ne_none _
    · have hgend := (hend _ _ g).mp ⟨hg, rfl, rfl⟩
      rw [if_neg hpp'] at hgend
      rw [← hgend.2.1]
      exact h.isPipe g hgend.1
  · simp only [hend]
    by_cases hpp' : pp' = pp
    · subst hpp'
      rw [update_self] at hy
      cases hy
      cases w <;> simp [Pipe.isOpen]
    · rw [update_of_ne hpp'] at hy
      simp only [if_neg hpp']
      exact h.ends pp' y w hy
  · have hg := (hend pp' w g).mp hg
    have hg' := (hend pp' w g').mp hg'
    split_ifs at hg hg' with hpp'
    · exact hg.trans hg'.symm
    · exact hg.trans hg'.symm
    · exact h.single pp' w g g' hg hg'

/-- A file that the call holds gets its kind. -/
lemma FileInv.setKind (h : FileInv file proc fs ds) (href : x.ref = (file f).ref)
    (hpos : (file f).ref ≠ 0) : FileInv (update file f x) proc fs ds := by
  refine h.setFile (fun h => absurd (href ▸ h) hpos) ?_ fun _ _ => rfl
  rw [href]

lemma Refs.held_pos (h : Refs p fs [] es s) (hf : f ∈ fs) : (s.file f).ref ≠ 0 := by
  obtain ⟨n, _, hn⟩ := h.files.count f
  have hpos := count_pos_iff.mpr hf
  rw [count_nil] at hn
  omega

/-- The files of a new pipe, both held by the call. -/
def pipeEnds : Option (FileId × FileId) → List FileId
  | none => []
  | some (rf, wf) => [rf, wf]

lemma openEnds_refs (h : Refs p (f' :: f :: fs) [] es s) (hpp : s.pipe pp = none) (hne : f' ≠ f)
    (hf : (s.file f).type = .none) (hf' : (s.file f').type = .none) :
    Refs p (f' :: f :: fs) [] es
      (setFile (setFile (setPipe s pp (some ⟨true, true⟩)) f
        { s.file f with type := .pipe, writable := false, pipe := pp }) f'
        { s.file f' with type := .pipe, writable := true, pipe := pp }) := by
  refine ⟨⟨?_, ?_, ?_⟩, h.caller⟩
  · refine FileInv.setKind (FileInv.setKind h.files ?_ (h.held_pos (f := f) (by simp))) ?_ ?_
    · exact rfl
    · simp only [setFile, setPipe, update_of_ne hne]
    · simp only [setFile, setPipe, update_of_ne hne]
      exact h.held_pos (f := f') (by simp)
  · exact h.pipes.open hpp hne (by simp [hf]) (by simp [hf']) ⟨rfl, rfl, rfl⟩ ⟨rfl, rfl, rfl⟩
  · rw [inodeRefs_setFile_none, inodeRefs_setFile_none]
    · exact h.inodes
    · simp [setPipe, hf]
    · simp
    · simp only [setFile, setPipe, update_of_ne hne, hf']
      simp
    · simp

lemma pipealloc_refs (h : Refs p [] [] [] s) (hpage : ∀ pp, page = some pp → s.pipe pp = none) :
    Triple (fun t => t = s) (pipealloc page) fun r t => Refs p (pipeEnds r) [] [] t := by
  refine (filealloc_refs h).bind fun r => ?_
  match r with
  | none => exact .pure fun t ht => ht ▸ h
  | some f0 =>
    refine .fix fun t ht => ?_
    obtain ⟨rfl, href0, ht⟩ := ht
    refine (filealloc_refs ht).bind fun r => ?_
    match r with
    | none =>
      refine Triple.bind (fileclose_refs.imp (fun u hu => ?_) fun _ _ hu => hu) fun _ =>
        .pure fun _ hu => hu
      exact hu ▸ ht
    | some f1 =>
      refine .fix fun u hu => ?_
      obtain ⟨hueq, href1, hu⟩ := hu
      match page, hpage with
      | none, _ =>
        refine Triple.bind (fileclose_refs.imp (fun v hv => ?_) fun _ _ hv => hv) fun _ =>
          fileclose_refs.bind fun _ => .pure fun _ hv => hv
        exact hv ▸ hu.swap
      | some pp, hpage =>
        -- `f1` was free when `f0` was not any more
        have hne : f1 ≠ f0 := by
          rintro rfl
          simp [setFile] at href1
        have hf0 : (u.file f0).type = .none := by
          rw [hueq]
          simp only [setFile, update_of_ne hne.symm, update_self]
          exact h.files.closed f0 href0
        have hf1 : (u.file f1).type = .none := by
          rw [hueq]
          simp only [setFile, update_self, update_of_ne hne]
          simp only [setFile, update_of_ne hne] at href1
          exact h.files.closed f1 href1
        have hpp : u.pipe pp = none := by
          rw [hueq]
          exact hpage pp rfl
        rintro _ r v rfl hrun
        cases hrun
        have hopen := (openEnds_refs hu hpp hne hf0 hf1).swap
        simp only [pipeEnds, setFile, setPipe, update_of_ne hne] at hopen ⊢
        exact hopen

lemma sysPipe_refs (h : Refs p [] [] [] s) (hpage : ∀ pp, page = some pp → s.pipe pp = none) :
    Triple (fun t => t = s) (sysPipe p page) fun _ => Refs p [] [] [] := by
  refine (pipealloc_refs h hpage).bind fun r => ?_
  match r with
  | none => exact .pure fun _ ht => ht
  | some (rf, wf) =>
    -- both files are held again when a descriptor is missing
    have hclose : Triple (Refs p [rf, wf] [] []) (do fileclose rf; fileclose wf)
        fun _ => Refs p [] [] [] := fileclose_refs.bind fun _ => fileclose_refs
    refine .fix fun t ht => (fdalloc_refs ht).bind fun r => ?_
    match r with
    | none => exact hclose.imp (fun u hu => hu ▸ ht) fun _ _ hu => hu
    | some fd0 =>
      refine .fix fun u hu => (fdalloc_refs hu.2).bind fun r => ?_
      match r with
      | some fd1 => exact .pure fun _ hv => hv.2
      | none =>
        refine .bind (.modify fun v hv => ?_) fun _ => hclose
        have hrf : (u.proc p).ofile fd0 = some rf := by
          rw [hu.1]
          simp [setOfile, setProc]
        exact hv ▸ hu.2.clear hrf

end Xv6.Fs
