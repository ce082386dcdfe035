import Mathlib.Data.List.GetD
import Xv6.Shell.Grammar

/-!
# The strings of a command

After `nulterminate` the strings that a command points at are the texts of its tokens: the zeros go
where words end, so no byte of a word is overwritten. With the two directions for the grammar this
says what `parsecmd` does on every line.
-/

namespace Xv6.Shell

open Machine Function List

variable {line q e : Ptr} {m m' : Mem} {cmd : Cmd} {t : Tree} {w : List Byte} {n a i : Nat}

/-! ### Strings in memory -/

/-- The string at `a`, of at most `n` bytes. -/
def cstr (m : Mem) : (n a : Nat) → List Byte
  | 0, _ => []
  | n + 1, a => if m a = 0 then [] else m a :: cstr m n (a + 1)

/-- The tree with the strings that a command points at. -/
def Cmd.view (line : Ptr) (m : Mem) : Cmd → Tree
  | .exec argv => .exec (argv.map fun a => cstr m line.length (addr line a.1))
  | .redir cmd file _ mode fd =>
    .redir (cmd.view line m) (cstr m line.length (addr line file)) mode fd
  | .pipe left right => .pipe (left.view line m) (right.view line m)
  | .list left right => .list (left.view line m) (right.view line m)
  | .back cmd => .back (cmd.view line m)

/-- The string `w` at `a`, with its NUL. -/
def StringAt (m : Mem) : Nat → List Byte → Prop
  | a, [] => m a = 0
  | a, b :: w => (m a = b ∧ b ≠ 0) ∧ StringAt m (a + 1) w

lemma StringAt.cstr_eq (h : StringAt m a w) (hn : w.length ≤ n) : cstr m n a = w := by
  induction w generalizing n a with
  | nil =>
    cases n with
    | zero => rfl
    | succ => exact if_pos h
  | cons b w ih =>
    cases n with
    | zero => exact absurd hn (Nat.not_succ_le_zero _)
    | succ =>
      obtain ⟨⟨rfl, h0⟩, hrest⟩ := h
      rw [cstr, if_neg h0, ih hrest (Nat.le_of_succ_le_succ hn)]

/-! ### What `nulterminate` writes -/

lemma load_addr (h : e <:+ line) : load line (addr line e) = deref e := by
  obtain ⟨front, rfl⟩ := h
  rw [load, addr, length_append, Nat.add_sub_cancel, getD_append_right _ _ _ _ le_rfl, Nat.sub_self]
  cases e <;> rfl

lemma addr_tail {c : Byte} (h : c :: q <:+ line) : addr line q = addr line (c :: q) + 1 := by
  have hle := h.length_le
  rw [length_cons] at hle
  rw [addr, addr, length_cons]
  omega

/-- The words of the line are as they were. -/
def Kept (line : Ptr) (m : Mem) : Prop := ∀ i, isWord (load line i) = true → m i = load line i

lemma kept_cut (hm : Kept line m) (hw : WordAt line w q e) : Kept line (cut line m e) := by
  intro i hi
  by_cases hie : i = addr line e
  · subst hie
    have hsuffix : e <:+ line := by
      rw [← hw.rest]
      exact (dropWhile_suffix _).trans hw.suffix
    rw [cut, update_self]
    rw [load_addr hsuffix] at hi ⊢
    cases e with
    | nil => rfl
    | cons =>
      -- a word does not end before a byte that goes on with it
      have hhead := List.head?_dropWhile_not isWord q
      rw [hw.rest] at hhead
      cases hhead.symm.trans hi
  · rw [cut, update_of_ne hie]
    exact hm i hi

lemma cut_zero (h : m i = 0) (e : Ptr) : cut line m e i = 0 := by
  by_cases hi : i = addr line e
  · rw [hi, cut, update_self]
  · rw [cut, update_of_ne hi, h]

section Args

variable {argv : List (Ptr × Ptr)} {args : List (List Byte)}

lemma kept_cuts (hm : Kept line m) (h : List.Forall₂ (fun a w => WordAt line w a.1 a.2) argv args) :
    Kept line (argv.foldl (fun m a => cut line m a.2) m) := by
  induction h generalizing m with
  | nil => exact hm
  | cons hw _ ih => exact ih (kept_cut hm hw)

lemma cuts_zero (argv : List (Ptr × Ptr)) (h : m i = 0) :
    argv.foldl (fun m a => cut line m a.2) m i = 0 := by
  induction argv generalizing m with
  | nil => exact h
  | cons a argv ih => exact ih (cut_zero h a.2)

lemma cuts_end {x : Ptr × Ptr} (h : x ∈ argv) (m : Mem) :
    argv.foldl (fun m a => cut line m a.2) m (addr line x.2) = 0 := by
  induction argv generalizing m with
  | nil => cases h
  | cons y argv ih =>
    rcases mem_cons.mp h with rfl | hmem
    · exact cuts_zero argv (update_self ..)
    · exact ih hmem _

end Args

lemma Shows.kept (h : Shows line cmd t) (hm : Kept line m) : Kept line (nulterminate line cmd m) := by
  induction h generalizing m with
  | exec h => exact kept_cuts hm h
  | redir _ hw ih => exact kept_cut (ih hm) hw
  | pipe _ _ ih ih' | list _ _ ih ih' => exact ih' (ih hm)
  | back _ ih => exact ih hm

lemma nulterminate_zero (cmd : Cmd) (h : m i = 0) : nulterminate line cmd m i = 0 := by
  induction cmd generalizing m with
  | exec argv => exact cuts_zero argv h
  | redir cmd file efile mode fd ih => exact cut_zero (ih h) efile
  | pipe left right ih ih' | list left right ih ih' => exact ih' (ih h)
  | back cmd ih => exact ih h

/-- All strings of the command have an end. -/
def Cmd.Cut (line : Ptr) (m : Mem) : Cmd → Prop
  | .exec argv => ∀ x ∈ argv, m (addr line x.2) = 0
  | .redir cmd _ efile _ _ => cmd.Cut line m ∧ m (addr line efile) = 0
  | .pipe left right | .list left right => left.Cut line m ∧ right.Cut line m
  | .back cmd => cmd.Cut line m

lemma Cmd.Cut.mono (h : cmd.Cut line m) (hzero : ∀ i, m i = 0 → m' i = 0) : cmd.Cut line m' := by
  induction cmd with
  | exec => exact fun x hx => hzero _ (h x hx)
  | redir cmd file efile mode fd ih => exact ⟨ih h.1, hzero _ h.2⟩
  | pipe left right ih ih' | list left right ih ih' => exact ⟨ih h.1, ih' h.2⟩
  | back cmd ih => exact ih h

lemma cut_nulterminate (cmd : Cmd) (m : Mem) : cmd.Cut line (nulterminate line cmd m) := by
  induction cmd generalizing m with
  | exec => exact fun x hx => cuts_end hx m
  | redir cmd file efile mode fd ih =>
    exact ⟨(ih m).mono fun i hi => cut_zero hi efile, update_self ..⟩
  | pipe left right ih ih' | list left right ih ih' =>
    exact ⟨(ih m).mono fun i hi => nulterminate_zero right hi, ih' _⟩
  | back cmd ih => exact ih m

/-! ### The strings -/

/-- A word whose bytes are kept and whose end is cut is a string. -/
lemma stringAt_word (hline : 0 ∉ line) (hm : Kept line m) (hq : q <:+ line)
    (hend : m (addr line (q.dropWhile isWord)) = 0) : StringAt m (addr line q) (q.takeWhile isWord) := by
  induction q with
  | nil => exact hend
  | cons c r ih =>
    by_cases hc : isWord c = true
    · rw [takeWhile_cons_of_pos hc]
      rw [dropWhile_cons_of_pos hc] at hend
      have hr : r <:+ line := (suffix_cons c r).trans hq
      refine ⟨⟨?_, ?_⟩, ?_⟩
      · have hload := load_addr hq
        rw [hm _ (by rw [hload]; exact hc), hload]
        rfl
      · rintro rfl
        exact hline (hq.subset mem_cons_self)
      · rw [← addr_tail hq]
        exact ih hr hend
    · rw [takeWhile_cons_of_neg hc]
      rw [dropWhile_cons_of_neg hc] at hend
      exact hend

lemma WordAt.cstr_eq (hline : 0 ∉ line) (hm : Kept line m) (hw : WordAt line w q e)
    (hend : m (addr line e) = 0) : cstr m line.length (addr line q) = w := by
  have hstring := stringAt_word hline hm hw.suffix (by rw [hw.rest, hend])
  rw [hw.word] at hstring
  refine hstring.cstr_eq ?_
  rw [← hw.word]
  exact ((List.takeWhile_prefix _).length_le).trans hw.suffix.length_le

lemma Shows.view_eq (hline : 0 ∉ line) (hm : Kept line m) (h : Shows line cmd t)
    (hcut : cmd.Cut line m) : cmd.view line m = t := by
  induction h with
  | @exec argv args h =>
    refine congrArg Tree.exec ?_
    induction h with
    | nil => rfl
    | @cons x w argv args hw _ ih =>
      rw [map_cons, hw.cstr_eq hline hm (hcut x mem_cons_self),
        ih fun y hy => hcut y (mem_cons_of_mem _ hy)]
  | redir _ hw ih => rw [Cmd.view, ih hcut.1, hw.cstr_eq hline hm hcut.2]
  | pipe _ _ ih ih' | list _ _ ih ih' => rw [Cmd.view, ih hcut.1, ih' hcut.2]
  | back _ ih => rw [Cmd.view, ih hcut]

/-- After `nulterminate` a command has the texts of its tokens. -/
lemma Shows.view_nulterminate (hline : 0 ∉ line) (h : Shows line cmd t) :
    cmd.view line (nulterminate line cmd (load line)) = t :=
  h.view_eq hline (h.kept fun _ _ => rfl) (cut_nulterminate cmd _)

/-! ### `parsecmd` -/

lemma at_start (line : Ptr) : At line line (tokens line) := ⟨suffix_rfl, rfl⟩

lemma calls_suffice (line : Ptr) : 4 * (tokens line).length + 4 ≤ 4 * line.length + 4 := by
  have hle : (tokens line).length ≤ line.length := length_lex_le _ _
  omega

lemma parseall_sound (hline : 0 ∉ line) :
    Ends (parseall (4 * line.length + 4)) line Fail.IsPanic fun cmd _ =>
      ∃ t, Line (tokens line) t ∧ Shows line cmd t := by
  rw [parseall]
  refine ((sound hline _).lines line _ (at_start line) (calls_suffice line)).bind ?_
  rintro cmd s ⟨us, rest, t, htokens, hderives, h, hc⟩
  refine (h.peek hline (nil_subset _)).bind ?_
  rintro b s ⟨-, h⟩
  refine Ends.get_bind (Ends.ite (fun hs => Ends.pure ⟨t, ?_, hc⟩) fun _ => Ends.throw ⟨_, rfl⟩)
  have hrest : rest = [] := by
    rw [← h.tokens, hs]
    rfl
  rwa [htokens, hrest, append_nil]

lemma parseall_complete (hline : 0 ∉ line) (hderives : Line (tokens line) t) :
    Ends (parseall (4 * line.length + 4)) line (fun _ => False) fun cmd _ => Shows line cmd t := by
  rw [parseall]
  have hat : At line line (tokens line ++ []) := by
    rw [append_nil]
    exact at_start line
  have hn : 4 * (tokens line ++ []).length + 4 ≤ 4 * line.length + 4 := by
    rw [append_nil]
    exact calls_suffice line
  refine ((complete hline _).lines line _ [] t hderives hat (.inl rfl) hn).bind ?_
  rintro cmd s ⟨h, hc⟩
  refine (h.peek_nil hline []).bind ?_
  rintro b s rfl
  exact Ends.get_bind (Ends.pure hc)

/-- `parsecmd` returns on what the grammar derives, with the tree of the grammar, and panics on
    everything else. -/
structure ParseExact (line : List Byte) : Prop where
  returns : (∃ x, parsecmd line = .ok x) ↔ ∃ t, Line (tokens line) t
  tree : ∀ cmd m, parsecmd line = .ok (cmd, m) →
    ∀ t, Line (tokens line) t ↔ t = cmd.view line m
  panics : ∀ e, parsecmd line = .error e → e.IsPanic

lemma parsecmd_eq_ok (h : parsecmd line = .ok (cmd, m)) :
    ∃ s, parseall (4 * line.length + 4) line = .ok (cmd, s) ∧ m = nulterminate line cmd (load line) := by
  obtain ⟨y, hy, hx⟩ := bind_eq_ok.mp h
  cases hx
  exact ⟨y.2, hy, rfl⟩

/-- The parser accepts its grammar, on every line. -/
theorem parseExact_of_no_nul (hline : 0 ∉ line) : ParseExact line := by
  have hsound := parseall_sound hline
  refine ⟨⟨?_, ?_⟩, ?_, ?_⟩
  · rintro ⟨⟨cmd, m⟩, hx⟩
    obtain ⟨s, hs, _⟩ := parsecmd_eq_ok hx
    obtain ⟨t, hderives, _⟩ := hsound.of_ok hs
    exact ⟨t, hderives⟩
  · rintro ⟨t, hderives⟩
    obtain ⟨cmd, s, hs, _⟩ := (parseall_complete hline hderives).exists_ok
    exact ⟨_, bind_eq_ok.mpr ⟨(cmd, s), hs, rfl⟩⟩
  · intro cmd m hcmd t
    obtain ⟨s, hs, rfl⟩ := parsecmd_eq_ok hcmd
    obtain ⟨u, hderives, hu⟩ := hsound.of_ok hs
    constructor
    · intro ht
      exact (((parseall_complete hline ht).of_ok hs).view_nulterminate hline).symm
    · rintro rfl
      rwa [hu.view_nulterminate hline]
  · intro e he
    rcases bind_eq_error.mp he with herror | ⟨y, _, hy⟩
    · exact hsound.of_error herror
    · cases hy

/-- The line `a b>f|c&`. -/
def pipeLine : List Byte := ['a', ' ', 'b', '>', 'f', '|', 'c', '&'].map chr

theorem parseExact_pipeLine : ParseExact pipeLine ∧
    (parsecmd pipeLine).toOption.map (fun x => x.1.view pipeLine x.2) =
      some (.back (.pipe (.redir (.exec [[chr 'a'], [chr 'b']]) [chr 'f'] (O_WRONLY ||| O_CREATE) 1)
        (.exec [[chr 'c']]))) :=
  ⟨parseExact_of_no_nul (by decide), by decide +kernel⟩

end Xv6.Shell
