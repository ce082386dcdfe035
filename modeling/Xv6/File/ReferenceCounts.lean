import Xv6.File.References
import Xv6.Machine.Run

/-!
# Reference counts between system calls

What each system call does with the references that it takes, on every path out of it. A process that has
exited or that is not in use has no files and no current directory.
-/

namespace Xv6.Fs

open Machine Function List

variable {s s' : State} {f : FileId} {e : EntryId} {p np : ProcId} {fs ds : List FileId}
  {es : List EntryId} {l : Label} {refs : FileId ⊕ ProcId → Option EntryId} {path : List Char} {k : State}
  {type : FileType} {dp ip : EntryId} {fds : List Nat} {omode : Word} {name : Name}

/-! ### Names -/

lemma linkBad_held : Triple (Held k refs (e :: es)) (linkBad e) fun _ => Held k refs es :=
  ilock_held.bind fun _ => iupdate_held.bind fun _ => iunlockput_held

lemma linkInto_held : Triple (Held k refs (dp :: ip :: es)) (linkInto dp ip name)
      fun _ => Held k refs es := by
  refine .look fun _ _ => .ite (fun _ => iunlockput_held.bind fun _ => linkBad_held) fun _ => ?_
  refine dirlink_held.bind fun done => iunlockput_held.bind fun _ => ?_
  exact .ite (fun _ => iput_held) fun _ => linkBad_held

lemma nameiparent_held :
    Triple (Held k k.inodeRefs es) (nameiparent p path)
      fun r => Held k k.inodeRefs (found r ++ es) := namex_held

lemma sysLink_held {old new : List Char} :
    Triple (Held k k.inodeRefs es) (sysLink p old new) fun _ => Held k k.inodeRefs es := by
  refine namei_held.bind fun r => ?_
  match r with
  | none => exact .pure fun _ h => h
  | some ip =>
    refine ilock_held.bind fun _ => .look fun _ _ => .ite (fun _ => iunlockput_held) fun _ => ?_
    refine iupdate_held.bind fun _ => iunlock_held.bind fun _ => nameiparent_held.bind fun r => ?_
    match r with
    | none => exact linkBad_held
    | some (dp, name) => exact ilock_held.bind fun _ => linkInto_held

lemma unlinkEntry_held {off : Nat} : Triple (Held k refs (ip :: dp :: es)) (unlinkEntry dp ip off)
      fun _ => Held k refs es := by
  refine .look fun _ _ => .ite (fun _ => .throw) fun _ => .ite (fun _ => ?_) fun _ => ?_
  · exact iunlockput_held.bind fun _ => iunlockput_held
  · refine iupdate_held.bind fun _ => iupdate_held.bind fun _ => ?_
    refine Triple.imp (iunlockput_held.bind fun _ => iupdate_held.bind fun _ => iunlockput_held)
      (fun t ht => ht.perm ?_) fun _ _ h => h
    exact List.Perm.swap ..

lemma sysUnlink_held :
    Triple (Held k k.inodeRefs es) (sysUnlink p path) fun _ => Held k k.inodeRefs es := by
  refine nameiparent_held.bind fun r => ?_
  match r with
  | none => exact .pure fun _ h => h
  | some (dp, name) =>
    refine ilock_held.bind fun _ => .ite (fun _ => iunlockput_held) fun _ => ?_
    refine dirlookup_held.bind fun r => ?_
    match r with
    | none => exact iunlockput_held
    | some (ip, off) => exact ilock_held.bind fun _ => unlinkEntry_held

lemma createDots_held : Triple (Held k refs es) (createDots dp ip type) fun _ => Held k refs es := by
  refine .look fun _ _ => .ite (fun _ => ?_) fun _ => .pure fun _ h => h
  refine iupdate_held.bind fun _ => dirlink_held.bind fun _ => .ite (fun _ => ?_) fun _ => .throw
  exact dirlink_held.bind fun _ => .ite (fun _ => .pure fun _ h => h) fun _ => .throw

lemma createNew_held {dp : EntryId} : Triple (Held k refs (dp :: es)) (createNew dp name type)
      fun ip => Held k refs (ip :: es) := by
  refine .look fun _ _ => ialloc_held.bind fun ip => ilock_held.bind fun _ => ?_
  refine iupdate_held.bind fun _ => createDots_held.bind fun _ => .look fun _ _ => ?_
  refine dirlink_held.bind fun _ => .ite (fun _ => ?_) fun _ => .throw
  refine Triple.imp (iunlockput_held.bind fun _ => .pure fun _ h => h) (fun t ht => ht.perm ?_)
    fun _ _ h => h
  exact List.Perm.swap ..

lemma create_held :
    Triple (Held k k.inodeRefs es) (create p path type) fun r => Held k k.inodeRefs (r.toList ++ es) := by
  refine nameiparent_held.bind fun r => ?_
  match r with
  | none => exact .pure fun _ h => h
  | some (dp, name) =>
    refine ilock_held.bind fun _ => dirlookup_held.bind fun r => ?_
    match r with
    | none => exact createNew_held.bind fun ip => .pure fun _ h => h
    | some (ip, off) =>
      refine Triple.imp (Triple.bind iunlockput_held fun _ => ilock_held.bind fun _ =>
        .look fun _ _ => .ite (fun _ => .pure fun _ h => h) fun _ => iunlockput_held.bind fun _ =>
          .pure fun _ h => h) (fun t ht => ht.perm ?_) fun _ _ h => h
      exact List.Perm.swap ..

lemma openInode_held :
    Triple (Held k k.inodeRefs es) (openInode p path omode)
      fun r => Held k k.inodeRefs (r.toList ++ es) := by
  refine .ite (fun _ => create_held) fun _ => namei_held.bind fun r => ?_
  match r with
  | none => exact .pure fun _ h => h
  | some ip =>
    refine ilock_held.bind fun _ => .look fun _ _ => .ite (fun _ => ?_) fun _ => .pure fun _ h => h
    exact iunlockput_held.bind fun _ => .pure fun _ h => h

/-- The reference that `sys_open` holds goes into the file. -/
lemma Refs.openFile {x : File} (h : Refs p fs [] (e :: es) s) (htype : (s.file f).type = .none)
    (href : x.ref = (s.file f).ref) (hpos : (s.file f).ref ≠ 0) (hx : x.type = .inode)
    (hip : x.ip = e) : Refs p fs [] es (setFile s f x) := by
  refine ⟨⟨h.files.setKind href hpos, h.pipes.setFile (by simp [htype]) (by simp [hx]), ?_⟩, h.caller⟩
  rw [inodeRefs_setFile, if_pos hx, hip]
  refine h.inodes.store ?_
  rw [State.inodeRefs, if_neg (by simp [htype])]

lemma sysOpen_refs : Triple (Refs p [] [] []) (sysOpen p path omode) fun _ => Refs p [] [] [] := by
  refine (Refs.lift fun k => openInode_held).bind fun r => ?_
  cases r with
  | none => exact .pure fun _ h => h
  | some =>
    refine .fix fun s h => (filealloc_refs h).bind fun r => ?_
    cases r with
    | none => exact (Refs.lift fun k => iunlockput_held).imp (fun t ht => ht ▸ h) fun _ _ h => h
    | some f =>
      refine .fix fun t ht => ?_
      obtain ⟨rfl, href, ht⟩ := ht
      have htype : ∀ x, ((setFile s f { s.file f with ref := 1 }).file f) = x → x.type = .none ∧
          x.ref ≠ 0 := by
        rintro _ rfl
        simp only [setFile, update_self]
        exact ⟨h.files.closed f href, Nat.one_ne_zero⟩
      refine (fdalloc_refs ht).bind fun r => ?_
      cases r with
      | none =>
        refine Triple.bind (fileclose_refs.imp (fun u hu => ?_) fun _ _ hu => hu) fun _ =>
          Refs.lift fun k => iunlockput_held
        exact hu ▸ ht
      | some =>
        refine .fix fun u hu => (Refs.lift_frame (fun k => iunlock_held) hu.2).bind fun _ =>
          .modify fun v hv => ?_
        obtain ⟨hv, hfile, _⟩ := hv
        have hvf : v.file f = (setFile s f { s.file f with ref := 1 }).file f := by
          rw [hfile, hu.1]
          rfl
        exact hv.openFile (htype _ hvf.symm).1 rfl (htype _ hvf.symm).2 rfl rfl

lemma sysCreate_held :
    Triple (Held k k.inodeRefs es) (sysCreate p path type) fun _ => Held k k.inodeRefs es := by
  refine create_held.bind fun r => ?_
  match r with
  | none => exact .pure fun _ h => h
  | some ip => exact iunlockput_held

lemma exec_held : Triple (Held k k.inodeRefs es) (exec p path) fun _ => Held k k.inodeRefs es := by
  refine namei_held.bind fun r => ?_
  match r with
  | none => exact .pure fun _ h => h
  | some ip => exact ilock_held.bind fun _ => iunlockput_held

/-! ### Current directories -/

lemma inodeRefs_setProc (s : State) (p : ProcId) (x : Proc) :
    (setProc s p x).inodeRefs = update s.inodeRefs (.inr p) x.cwd := by
  funext y
  cases y with
  | inl =>
    rw [update_of_ne (by simp)]
    rfl
  | inr q =>
    by_cases hq : q = p
    · subst hq
      rw [update_self]
      simp [State.inodeRefs, setProc]
    · have hne : (Sum.inr q : FileId ⊕ ProcId) ≠ .inr p := fun h => hq (Sum.inr.inj h)
      rw [update_of_ne hne]
      simp [State.inodeRefs, setProc, hq]

/-- A process keeps its descriptors. -/
lemma FileInv.setProc {file : FileId → File} {proc : ProcId → Proc} {x : Proc}
    (h : FileInv file proc fs ds) (hofile : x.ofile = (proc p).ofile)
    (hidle : x.state = .unused ∨ x.state = .zombie → (∀ fd, x.ofile fd = none) ∧ x.cwd = none) :
    FileInv file (update proc p x) fs ds := by
  have hall : ∀ q, (update proc p x q).ofile = (proc q).ofile :=
    (forall_update_iff proc (p := fun q y => y.ofile = (proc q).ofile)).mpr ⟨hofile, fun _ _ => rfl⟩
  have hrefs : fdRefs (update proc p x) = fdRefs proc :=
    funext fun y => congrFun (hall y.1) y.2
  refine ⟨fun f => ?_, h.closed, ?_, fun q fd hq => ?_⟩
  · rw [hrefs]
    exact h.count f
  · exact (forall_update_iff proc (p := fun _ y => y.state = .unused ∨ y.state = .zombie →
      (∀ fd, y.ofile fd = none) ∧ y.cwd = none)).mpr ⟨hidle, fun q _ => h.idle q⟩
  · rw [hall] at hq
    exact h.range q fd hq

/-- `iput` of a current directory that the process gives up. -/
lemma iput_cwd (h : Refs p fs ds es s) (hcwd : (s.proc p).cwd = some e) :
    Triple (fun t => t = s) (iput e) fun _ => Held s (update s.inodeRefs (.inr p) none) es := by
  refine iput_held.imp ?_ fun _ _ ht => ht
  rintro t rfl
  exact ⟨rfl, rfl, rfl, h.inodes.drop hcwd⟩

lemma sysChdir_refs : Triple (Refs p [] [] []) (sysChdir p path) fun _ => Refs p [] [] [] := by
  refine (Refs.lift fun k => namei_held).bind fun r => ?_
  match r with
  | none => exact .pure fun _ h => h
  | some ip =>
    refine (Refs.lift fun k => ilock_held).bind fun _ => .get_bind fun s h => ?_
    refine .ite (fun _ => ?_) fun _ => (Refs.lift_frame (fun k => iunlock_held) h).bind fun _ => ?_
    · exact (Refs.lift fun k => iunlockput_held).imp (fun t ht => ht ▸ h) fun _ _ ht => ht
    · split
      · exact .throw
      · rename_i old hold
        refine .fix fun t ht => ?_
        obtain ⟨ht, _, hproc⟩ := ht
        rw [← hproc] at hold
        refine (iput_cwd ht hold).bind fun _ => .modify fun u hu => ?_
        refine ⟨⟨?_, ?_, ?_⟩, ?_⟩
        · refine FileInv.setProc ?_ rfl fun hidle => ?_
          · show FileInv u.file u.proc [] []
            rw [hu.file, hu.proc]
            exact ht.files
          · rw [hu.proc, ht.caller] at hidle
            rcases hidle with hidle | hidle <;> cases hidle
        · simp only [setProc, hu.file, hu.pipe]
          exact ht.pipes
        · have hrefs : u.inodeRefs = t.inodeRefs := by
            funext y
            cases y <;> simp only [State.inodeRefs, hu.file, hu.proc]
          have hstore := hu.inodes.store (update_self ..)
          rw [update_idem] at hstore
          rw [inodeRefs_setProc, hrefs]
          exact hstore
        · simp only [setProc, update_self, hu.proc]
          exact ht.caller

/-! ### `fork`, `exit` and `wait` -/

/-- The new process `np` has copies of the descriptors of `p` that are not in `fds`. -/
structure Child (p np : ProcId) (cwd : Option EntryId) (fds : List Nat) (s : State) : Prop where
  refs : Refs p [] [] [] s
  cwd : (s.proc p).cwd = cwd
  embryo : (s.proc np).state = .embryo
  noCwd : (s.proc np).cwd = none
  free : ∀ fd ∈ fds, (s.proc np).ofile fd = none ∧ fd < NOFILE

lemma copyFiles_child {cwd : Option EntryId} (hnodup : fds.Nodup) :
    Triple (Child p np cwd fds) (copyFiles p np fds) fun _ => Child p np cwd [] := by
  induction fds with
  | nil => exact .pure fun _ h => h
  | cons fd fds ih =>
    obtain ⟨hfd, hrest⟩ := nodup_cons.mp hnodup
    refine .get_bind fun s h => ?_
    split
    · refine (ih hrest).imp ?_ fun _ _ ht => ht
      rintro t rfl
      exact ⟨h.refs, h.cwd, h.embryo, h.noCwd, fun i hi => h.free i (mem_cons_of_mem _ hi)⟩
    · rename_i f hf
      refine (filedup_refs h.refs).bind fun _ => .bind (.modify fun t ht => ?_) fun _ => ih hrest
      obtain ⟨ht, hproc⟩ := ht
      obtain ⟨hnone, hlt⟩ := h.free fd (mem_cons_self ..)
      have hembryo : (t.proc np).state = .embryo := hproc ▸ h.embryo
      refine ⟨ht.install (hproc ▸ hnone) ?_ hlt, ?_, ?_, ?_, fun i hi => ⟨?_, ?_⟩⟩
      · rw [hembryo]
        exact ⟨fun h => (by cases h), fun h => (by cases h)⟩
      · rw [cwd_setOfile, hproc]
        exact h.cwd
      · rw [state_setOfile]
        exact hembryo
      · rw [cwd_setOfile, hproc]
        exact h.noCwd
      · have hne : i ≠ fd := fun h => hfd (h ▸ hi)
        simp only [setOfile, setProc, update_self, update_of_ne hne, hproc]
        exact (h.free i (mem_cons_of_mem _ hi)).1
      · exact (h.free i (mem_cons_of_mem _ hi)).2

/-- A slot of the process table is taken. -/
lemma Refs.child (h : Refs p [] [] [] s) (hnp : (s.proc np).state = .unused) :
    Child p np (s.proc p).cwd (List.range NOFILE) (setProc s np { s.proc np with state := .embryo }) := by
  have hidle := h.files.idle np (.inl hnp)
  have hne : p ≠ np := by
    rintro rfl
    rw [h.caller] at hnp
    cases hnp
  have hrefs : (setProc s np { s.proc np with state := .embryo }).inodeRefs = s.inodeRefs := by
    rw [inodeRefs_setProc]
    exact update_eq_self_iff.mpr rfl
  refine ⟨⟨⟨h.files.setProc rfl ?_, h.pipes, hrefs ▸ h.inodes⟩, ?_⟩, ?_, ?_, ?_, fun fd hfd => ⟨?_, ?_⟩⟩
  · rintro (hst | hst) <;> cases hst
  · simp only [setProc, update_of_ne hne]
    exact h.caller
  · simp only [setProc, update_of_ne hne]
  · simp only [setProc, update_self]
  · simp only [setProc, update_self]
    exact hidle.2
  · simp only [setProc, update_self]
    exact hidle.1 fd
  · exact mem_range.mp hfd

/-- The child runs, in the current directory of its parent. -/
lemma Refs.run (h : Refs p [] [] [e] s) (hcwd : (s.proc np).cwd = none) :
    Counts [] [] [] (setProc s np { s.proc np with state := .live, cwd := some e }) := by
  refine ⟨h.files.setProc rfl ?_, h.pipes, ?_⟩
  · rintro (hst | hst) <;> cases hst
  · rw [inodeRefs_setProc]
    exact h.inodes.store hcwd

lemma fork_refs {ok : Bool} : Triple (Refs p [] [] []) (fork p ok) fun _ => Counts [] [] [] := by
  refine .get_bind fun s h => ?_
  split
  · exact .pure fun t ht => ht ▸ h.toCounts
  · rename_i np hfind
    have hnp := List.find?_some hfind
    simp only [decide_eq_true_eq] at hnp
    refine .ite (fun _ => ?_) fun _ => .pure fun t ht => ht ▸ h.toCounts
    refine .bind (.modify (Q := fun _ => Child p np (s.proc p).cwd (List.range NOFILE))
      fun t ht => ht ▸ h.child hnp) fun _ => (copyFiles_child nodup_range).bind fun _ => ?_
    split
    · exact .throw
    · rename_i e he
      refine .fix fun t ht => ?_
      have hpos : ∀ u, Held t t.inodeRefs [] u → (u.icache e).ref ≠ 0 := by
        intro u hu
        obtain ⟨n, hn, heq⟩ := hu.inodes.count e
        have hcount := hn.pos (show t.inodeRefs (.inr p) = some e from ht.cwd.trans he)
        omega
      refine Triple.bind (Q := fun _ u => Refs p [] [] [e] u ∧ u.proc = t.proc) ?_ fun _ =>
        .modify fun u hu => hu.1.run (hu.2 ▸ ht.noCwd)
      rintro _ a u rfl hrun
      cases hrun
      obtain ⟨hfile, hproc, hpipe, hinodes⟩ :=
        idup_held hpos _ _ _ ⟨rfl, rfl, rfl, ht.refs.inodes⟩ rfl
      exact ⟨⟨⟨ht.refs.files, ht.refs.pipes, hinodes⟩, ht.refs.caller⟩, rfl⟩

lemma closeFiles_refs :
    Triple (fun s => Refs p [] [] [] s ∧ ∀ fd, (s.proc p).ofile fd ≠ none → fd ∈ fds)
      (closeFiles p fds) fun _ s => Refs p [] [] [] s ∧ ∀ fd, (s.proc p).ofile fd = none := by
  induction fds with
  | nil =>
    refine .pure fun s h => ⟨h.1, fun fd => ?_⟩
    by_contra hne
    cases h.2 fd hne
  | cons fd fds ih =>
    refine .get_bind fun s h => ?_
    split
    · rename_i hnone
      refine ih.imp ?_ fun _ _ ht => ht
      rintro t rfl
      refine ⟨h.1, fun i hi => (mem_cons.mp (h.2 i hi)).resolve_left ?_⟩
      rintro rfl
      exact hi hnone
    · rename_i hf
      -- the descriptor refers to the file until it has been closed
      refine (fileclose_owed h.1).bind fun _ => .bind (.modify fun t ht => ?_) fun _ => ih
      obtain ⟨ht, hproc⟩ := ht
      refine ⟨(ht.clear (hproc ▸ hf)).cancel, fun i hi => ?_⟩
      simp only [setOfile, setProc, update_self, hproc] at hi
      by_cases hfd : i = fd
      · rw [hfd, update_self] at hi
        exact absurd rfl hi
      · rw [update_of_ne hfd] at hi
        exact (mem_cons.mp (h.2 i hi)).resolve_left hfd

lemma exit_refs : Triple (Refs p [] [] []) (exit p) fun _ => Counts [] [] [] := by
  refine .ite (fun _ => .throw) fun _ => Triple.bind (closeFiles_refs.imp (fun s h => ?_)
    fun _ _ h => h) fun _ => .get_bind fun s h => ?_
  · exact ⟨h, fun fd hfd => mem_range.mpr (h.files.range p fd hfd)⟩
  · obtain ⟨h, hclosed⟩ := h
    split
    · exact .throw
    · rename_i he
      refine (iput_cwd h he).bind fun _ => .modify fun t ht => ⟨?_, ?_, ?_⟩
      · refine FileInv.setProc ?_ rfl fun _ => ⟨fun fd => ?_, rfl⟩
        · show FileInv t.file t.proc [] []
          rw [ht.file, ht.proc]
          exact h.files
        · rw [ht.proc]
          exact hclosed fd
      · simp only [setProc, ht.file, ht.pipe]
        exact h.pipes
      · have hrefs : t.inodeRefs = s.inodeRefs := by
          funext y
          cases y <;> simp only [State.inodeRefs, ht.file, ht.proc]
        rw [inodeRefs_setProc, hrefs]
        exact ht.inodes

lemma Counts.wait (h : Counts [] [] [] s) (hp : (s.proc p).state = .zombie) :
    Counts [] [] [] (setProc s p { s.proc p with state := .unused }) := by
  have hrefs : (setProc s p { s.proc p with state := .unused }).inodeRefs = s.inodeRefs := by
    rw [inodeRefs_setProc]
    exact update_eq_self_iff.mpr rfl
  exact ⟨h.files.setProc rfl fun _ => h.files.idle p (.inr hp), h.pipes, hrefs ▸ h.inodes⟩

/-! ### Runs -/

lemma step_eq_some : step s l = some s' ↔ enabled s l ∧ syscall l s = .ok ((), s') := by
  rw [step]
  split_ifs with hl
  · constructor
    · intro h
      split at h
      · rename_i heq
        cases h
        exact ⟨hl, heq⟩
      · cases h
    · rintro ⟨_, h⟩
      rw [h]
  · simp [hl]

lemma enabled_live (hl : enabled s l) (hwait : ∀ p, l ≠ .wait p) : (s.proc l.proc).state = .live := by
  cases l with
  | wait p => exact absurd rfl (hwait p)
  | pipe p page =>
    cases page with
    | none => exact of_decide_eq_true hl
    | some =>
      simp only [enabled, Bool.and_eq_true, decide_eq_true_eq] at hl
      exact hl.1
  | _ => simpa [enabled] using hl

lemma enabled_page {page : Option PipeId} (hl : enabled s (.pipe p page)) (pp : PipeId)
    (hpp : page = some pp) : s.pipe pp = none := by
  subst hpp
  simp only [enabled, Bool.and_eq_true, Option.isNone_iff_eq_none] at hl
  exact hl.2

lemma Counts.step (h : Counts [] [] [] s) (hstep : step s l = some s') : Counts [] [] [] s' := by
  obtain ⟨hl, hrun⟩ := step_eq_some.mp hstep
  by_cases hwait : ∃ p, l = .wait p
  · obtain ⟨p, rfl⟩ := hwait
    cases hrun
    exact h.wait (by simpa [enabled] using hl)
  · have hlive : Refs l.proc [] [] [] s := ⟨h, enabled_live hl fun p hp => hwait ⟨p, hp⟩⟩
    cases l with
    | dup => exact (sysDup_refs s () s' hlive hrun).toCounts
    | close => exact (sysClose_refs s () s' hlive hrun).toCounts
    | pipe => exact (sysPipe_refs hlive (enabled_page hl) s () s' rfl hrun).toCounts
    | link => exact (Refs.lift (fun k => sysLink_held) s () s' hlive hrun).toCounts
    | unlink => exact (Refs.lift (fun k => sysUnlink_held) s () s' hlive hrun).toCounts
    | «open» => exact (sysOpen_refs s () s' hlive hrun).toCounts
    | mkdir | mknod => exact (Refs.lift (fun k => sysCreate_held) s () s' hlive hrun).toCounts
    | chdir => exact (sysChdir_refs s () s' hlive hrun).toCounts
    | exec => exact (Refs.lift (fun k => exec_held) s () s' hlive hrun).toCounts
    | fork => exact fork_refs s () s' hlive hrun
    | exit => exact exit_refs s () s' hlive hrun
    | wait p => exact absurd ⟨p, rfl⟩ hwait

lemma counts_boot (ninodes : Nat) (inode : Nat → Inode) : Counts [] [] [] (boot ninodes inode) := by
  have hfd : fdRefs (boot ninodes inode).proc = fun _ => none := by
    funext x
    simp only [fdRefs, boot]
    split_ifs <;> rfl
  have hrefs : (boot ninodes inode).inodeRefs =
      update (fun _ => none) (.inr initproc) (some 0) := by
    funext x
    cases x with
    | inl => rw [update_of_ne (by simp)]; rfl
    | inr =>
      simp only [State.inodeRefs, boot, update_apply, Sum.inr.injEq]
      split_ifs <;> rfl
  refine ⟨⟨fun f => ⟨0, hfd ▸ refCount_none, rfl⟩, fun _ _ => rfl, fun p hp => ?_, fun p fd hne => ?_⟩,
    ⟨fun f hf => ?_, fun pp x w hx => ?_, fun pp w f f' hf => ?_⟩, fun e => ?_, fun e he => ?_,
    fun e e' he he' _ _ => ?_⟩
  · simp only [boot] at hp ⊢
    split_ifs at hp ⊢
    · rcases hp with hp | hp <;> cases hp
    · exact ⟨fun _ => rfl, rfl⟩
  · exact absurd (congrFun hfd (p, fd)) hne
  · cases hf
  · cases hx
  · cases hf.1
  · rw [hrefs]
    by_cases he : e = 0
    · subst he
      exact ⟨1, refCount_none.take (by simp), rfl⟩
    · refine ⟨0, refCount_none.other (by simp) ?_, ?_⟩
      · exact fun h => he (Option.some.inj h).symm
      · simp [boot, he]
  · by_contra hlt
    have hne : e ≠ 0 := by
      rintro rfl
      exact hlt (by decide)
    simp [boot, hne] at he
  · simp only [boot] at he he'
    split_ifs at he he' with h0 h0'
    · rw [h0, h0']
    all_goals simp at he he'

/-- In every run of the system calls, with any disk, the `ref` of a file is the number of descriptors
    that refer to it, the `ref` of a cached inode is the number of open files and current directories
    that refer to it, no inode is cached twice, and an end of a pipe is open when a file for it is. -/
theorem reference_counts_exact {ninodes : Nat} {inode : Nat → Inode}
    (hrun : Reach step Always (boot ninodes inode) s) :
    (∀ f, RefCount (fdRefs s.proc) f (s.file f).ref) ∧
      (∀ e, RefCount s.inodeRefs e (s.icache e).ref) ∧
      (∀ e e', (s.icache e).ref ≠ 0 → (s.icache e').ref ≠ 0 →
        (s.icache e).dev = (s.icache e').dev → (s.icache e).inum = (s.icache e').inum → e = e') ∧
      ∀ pp x, s.pipe pp = some x →
        (x.readopen = true ↔ ∃ f, (s.file f).ref ≠ 0 ∧ IsEnd s.file pp false f) ∧
        (x.writeopen = true ↔ ∃ f, (s.file f).ref ≠ 0 ∧ IsEnd s.file pp true f) := by
  have h : Counts [] [] [] s :=
    hrun.invariant (I := Counts [] [] []) (counts_boot ninodes inode) fun _ _ _ h _ => h.step
  have hopen : ∀ pp w, (∃ f, IsEnd s.file pp w f) ↔
      ∃ f, (s.file f).ref ≠ 0 ∧ IsEnd s.file pp w f := by
    intro pp w
    constructor
    · rintro ⟨f, hf⟩
      refine ⟨f, fun href => ?_, hf⟩
      have htype := h.files.closed f href
      rw [hf.1] at htype
      cases htype
    · rintro ⟨f, _, hf⟩
      exact ⟨f, hf⟩
  refine ⟨fun f => ?_, fun e => ?_, h.inodes.unique, fun pp x hx => ⟨?_, ?_⟩⟩
  · obtain ⟨n, hn, heq⟩ := h.files.count f
    simp only [List.count_nil, Nat.add_zero] at heq
    exact heq ▸ hn
  · obtain ⟨n, hn, heq⟩ := h.inodes.count e
    simp only [List.count_nil, Nat.add_zero] at heq
    exact heq ▸ hn
  · exact (h.pipes.ends pp x false hx).trans (hopen pp false)
  · exact (h.pipes.ends pp x true hx).trans (hopen pp true)

/-- A disk with only a root directory. -/
def emptyDisk (inum : Nat) : Inode :=
  if inum = ROOTINO then ⟨.dir, 1, [⟨ROOTINO, dot⟩, ⟨ROOTINO, dotdot⟩]⟩ else ⟨.free, 0, []⟩

/-- A file and a pipe in two processes, of which the child has closed the reading end. -/
theorem reference_counts_exact_after_fork : ∃ s, Reach step Always (boot 4 emptyDisk) s ∧
    ((s.file 0).ref = 3 ∧ (s.file 1).ref = 1 ∧ (s.icache 0).ref = 2 ∧ (s.icache 1).ref = 1) ∧
      RefCount (fdRefs s.proc) 0 (s.file 0).ref := by
  have hexec : ∃ s, Reach step Always (boot 4 emptyDisk) s ∧
      ((s.file 0).ref = 3 ∧ (s.file 1).ref = 1 ∧ (s.icache 0).ref = 2 ∧ (s.icache 1).ref = 1) :=
    Reach.exists_of_exec [.open 0 ['/', 'f'] (O_CREATE ||| O_RDWR), .dup 0 0, .pipe 0 (some 0),
      .fork 0 true, .close 1 2, .close 1 1, .open 1 ['g'] O_RDONLY] (by decide +kernel)
  obtain ⟨s, hrun, hs⟩ := hexec
  exact ⟨s, hrun, hs, (reference_counts_exact hrun).1 0⟩

end Xv6.Fs
