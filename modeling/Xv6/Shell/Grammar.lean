import Mathlib.Data.List.Forall2
import Mathlib.Logic.Function.Iterate
import Xv6.Shell.Tokens

/-!
# The grammar of command lines

    line  ::= pipe '&'* [';' line]
    pipe  ::= exec ['|' pipe]
    exec  ::= '(' line ')' redir* | redir* (word redir*)*
    redir ::= ('<' | '>' | '>>') word

with at most `MAXARGS - 1` words in a command. What the parser returns is derived from the tokens it
has read, and it returns on everything that can be derived.
-/

namespace Xv6.Shell

open Machine List

/-! ### Trees -/

/-- A command with its texts. -/
inductive Tree
  | exec (args : List (List Byte))
  | redir (cmd : Tree) (file : List Byte) (mode fd : Nat)
  | pipe (left right : Tree)
  | list (left right : Tree)
  | back (cmd : Tree)
  deriving DecidableEq

inductive Op
  | read
  | write
  | append

def Op.token : Op → Token
  | .read => .lt
  | .write => .gt
  | .append => .gtgt

def Op.mode : Op → Nat
  | .read => O_RDONLY
  | .write | .append => O_WRONLY ||| O_CREATE

def Op.fd : Op → Nat
  | .read => 0
  | .write | .append => 1

structure Redir where
  op : Op
  file : List Byte

def Redir.tokens (r : Redir) : List Token := [r.op.token, .word r.file]

def redirTokens (rs : List Redir) : List Token := rs.flatMap Redir.tokens

/-- The redirections of a command, the later ones outside. -/
def Tree.wrap (t : Tree) (rs : List Redir) : Tree :=
  rs.foldl (fun t r => .redir t r.file r.op.mode r.op.fd) t

/-- A word of a command, and the redirections after it. -/
structure Arg where
  word : List Byte
  redirs : List Redir

def Arg.tokens (a : Arg) : List Token := .word a.word :: redirTokens a.redirs

mutual

inductive Line : List Token → Tree → Prop
  | last {ts : List Token} {t : Tree} (k : Nat) (h : Pipe ts t) :
      Line (ts ++ List.replicate k .amp) (Tree.back^[k] t)
  | more {ts us : List Token} {t u : Tree} (k : Nat) (h : Pipe ts t) (hu : Line us u) :
      Line (ts ++ List.replicate k .amp ++ .semi :: us) (.list (Tree.back^[k] t) u)

inductive Pipe : List Token → Tree → Prop
  | last {ts : List Token} {t : Tree} (h : Exec ts t) : Pipe ts t
  | more {ts us : List Token} {t u : Tree} (h : Exec ts t) (hu : Pipe us u) :
      Pipe (ts ++ .bar :: us) (.pipe t u)

inductive Exec : List Token → Tree → Prop
  | block {ts : List Token} {t : Tree} (rs : List Redir) (h : Line ts t) :
      Exec (.lpar :: (ts ++ .rpar :: redirTokens rs)) (t.wrap rs)
  | plain (rs : List Redir) (args : List Arg) (hle : args.length ≤ MAXARGS - 1) :
      Exec (redirTokens rs ++ args.flatMap Arg.tokens)
        ((Tree.exec (args.map Arg.word)).wrap (rs ++ args.flatMap Arg.redirs))

end

/-! ### Commands and trees -/

variable {line s : Ptr} {ts us rest : List Token} {t u : Tree} {cmd : Cmd} {n k argc : Nat}
  {toks : List Char} {w : List Byte} {rs : List Redir} {args : List Arg} {words : List (List Byte)}

/-- A command points at the texts of a tree. -/
inductive Shows (line : Ptr) : Cmd → Tree → Prop
  | exec {argv : List (Ptr × Ptr)} {args : List (List Byte)}
      (h : List.Forall₂ (fun a w => WordAt line w a.1 a.2) argv args) :
      Shows line (.exec argv) (.exec args)
  | redir {cmd : Cmd} {t : Tree} {w : List Byte} {file efile : Ptr} {mode fd : Nat}
      (h : Shows line cmd t) (hw : WordAt line w file efile) :
      Shows line (.redir cmd file efile mode fd) (.redir t w mode fd)
  | pipe {left right : Cmd} {t u : Tree} (h : Shows line left t) (hu : Shows line right u) :
      Shows line (.pipe left right) (.pipe t u)
  | list {left right : Cmd} {t u : Tree} (h : Shows line left t) (hu : Shows line right u) :
      Shows line (.list left right) (.list t u)
  | back {cmd : Cmd} {t : Tree} (h : Shows line cmd t) : Shows line (.back cmd) (.back t)

lemma redirect_op (o : Op) (cmd : Cmd) (q e : Ptr) :
    redirect o.token.code cmd q e = .redir cmd q e o.mode o.fd := by
  cases o <;> rfl

lemma redirTokens_cons (r : Redir) (rs : List Redir) :
    redirTokens (r :: rs) = r.op.token :: .word r.file :: redirTokens rs := rfl

lemma wrap_append (t : Tree) (rs rs' : List Redir) : t.wrap (rs ++ rs') = (t.wrap rs).wrap rs' :=
  foldl_append

/-- A further word goes to the command that the redirections are around. -/
lemma Shows.addArg {q e : Ptr} (rs : List Redir) (h : Shows line cmd ((Tree.exec words).wrap rs))
    (hw : WordAt line w q e) : Shows line (cmd.addArg q e) ((Tree.exec (words ++ [w])).wrap rs) := by
  induction rs using List.reverseRecOn generalizing cmd with
  | nil =>
    cases h with
    | exec h => exact .exec (rel_append h (.cons hw .nil))
  | append_singleton rs r ih =>
    rw [wrap_append] at h ⊢
    cases h with
    | redir h hfile => exact .redir (ih h) hfile

/-! ### The next token -/

lemma start_of_peeks (h : peeks toks ts = true) :
    ∃ tok ts' x, ts = tok :: ts' ∧ tok.start = some x ∧ x ∈ toks := by
  cases ts with
  | nil => cases h
  | cons tok ts' =>
    rw [peeks] at h
    cases hstart : tok.start with
    | none =>
      rw [hstart] at h
      cases h
    | some x =>
      rw [hstart] at h
      exact ⟨tok, ts', x, rfl, hstart, of_decide_eq_true h⟩

/-- Only tokens of redirections start with the same symbol. -/
lemma eq_of_start {x : Char} {tok tok' : Token} (h : tok.start = some x) (hx : x ≠ '>')
    (h' : tok'.start = some x) : tok' = tok := by
  cases tok <;> cases h <;> cases tok' <;> simp [Token.start] at h' hx ⊢

lemma cons_of_peeks {x : Char} (tok : Token) (h : peeks [x] ts = true) (hstart : tok.start = some x)
    (hx : x ≠ '>') : ∃ ts', ts = tok :: ts' := by
  obtain ⟨tok', ts', y, rfl, hstart', hy⟩ := start_of_peeks h
  rw [mem_singleton.mp hy] at hstart'
  exact ⟨ts', by rw [eq_of_start hstart hx hstart']⟩

lemma redir_of_peeks (h : peeks ['<', '>'] ts = true) : ∃ o ts', ts = Op.token o :: ts' := by
  obtain ⟨tok, ts', x, rfl, hstart, hx⟩ := start_of_peeks h
  cases tok with
  | lt => exact ⟨.read, ts', rfl⟩
  | gt => exact ⟨.write, ts', rfl⟩
  | gtgt => exact ⟨.append, ts', rfl⟩
  | word => cases hstart
  | _ =>
    obtain rfl := Option.some.inj hstart
    exact absurd hx (by decide)

lemma eq_word_of_code {tok : Token} (h : tok.code = chr 'a') : ∃ w, tok = .word w := by
  cases tok with
  | word w => exact ⟨w, rfl⟩
  | _ => exact absurd h (by decide)

lemma code_ne_zero (tok : Token) : tok.code ≠ 0 := by
  cases tok with
  | word => exact (by decide : chr 'a' ≠ 0)
  | _ => decide

/-! ### What is returned can be derived -/

def Fail.IsPanic (e : Fail) : Prop := ∃ p, e = .panic p

/-- The tokens up to the cursor derive the tree. -/
def Parsed (line : Ptr) (G : List Token → Tree → Prop) (ts : List Token) (cmd : Cmd) (s : Ptr) :
    Prop :=
  ∃ us rest t, ts = us ++ rest ∧ G us t ∧ At line s rest ∧ Shows line cmd t

section Sound

variable (hline : 0 ∉ line)
include hline

lemma parseredirs_sound (h : At line s ts) (hc : Shows line cmd t) (hn : ts.length < n) :
    Ends (parseredirs n cmd) s Fail.IsPanic fun cmd s => ∃ rs rest,
      ts = redirTokens rs ++ rest ∧ At line s rest ∧ Shows line cmd (t.wrap rs) := by
  induction n generalizing s ts cmd t with
  | zero => exact absurd hn (Nat.not_lt_zero _)
  | succ n ih =>
    rw [parseredirs]
    refine h.peek_bind hline (by decide) fun s h => ?_
    refine Ends.ite (fun hpeek => ?_) fun _ => ?_
    · obtain ⟨o, ts, rfl⟩ := redir_of_peeks hpeek
      refine (h.gettoken hline).bind ?_
      rintro tok s ⟨htok, h, _⟩
      cases ts with
      | nil =>
        refine (h.gettoken_nil hline).bind ?_
        rintro file s ⟨hret, _⟩
        rw [hret]
        exact Ends.throw ⟨_, rfl⟩
      | cons tok' ts =>
        refine (h.gettoken hline).bind ?_
        rintro file s ⟨hret, hfile, hword⟩
        refine Ends.ite (fun _ => Ends.throw ⟨_, rfl⟩) fun hword' => ?_
        rw [not_not, hret] at hword'
        obtain ⟨w, rfl⟩ := eq_word_of_code hword'
        rw [htok, redirect_op]
        have hlen : ts.length < n := by
          simp only [length_cons] at hn
          omega
        refine (ih hfile (.redir hc (hword w rfl)) hlen).post ?_
        rintro cmd s ⟨rs, rest, rfl, hrest⟩
        exact ⟨⟨o, w⟩ :: rs, rest, rfl, hrest⟩
    · exact Ends.pure ⟨[], ts, rfl, h, hc⟩

lemma execLoop_sound {rs : List Redir} (h : At line s ts)
    (hc : Shows line cmd ((Tree.exec words).wrap rs)) (hargc : words.length = argc)
    (hle : argc ≤ MAXARGS - 1) (hn : ts.length < n) :
    Ends (execLoop n argc cmd) s Fail.IsPanic fun cmd s => ∃ args rest,
      ts = List.flatMap Arg.tokens args ++ rest ∧ argc + args.length ≤ MAXARGS - 1 ∧
      At line s rest ∧
      Shows line cmd ((Tree.exec (words ++ args.map Arg.word)).wrap (rs ++ args.flatMap Arg.redirs)) := by
  induction n generalizing s ts cmd words rs argc with
  | zero => exact absurd hn (Nat.not_lt_zero _)
  | succ n ih =>
    have hdone : ∀ {s}, At line s ts → ∃ args rest,
        ts = List.flatMap Arg.tokens args ++ rest ∧ argc + args.length ≤ MAXARGS - 1 ∧
        At line s rest ∧ Shows line cmd
          ((Tree.exec (words ++ args.map Arg.word)).wrap (rs ++ args.flatMap Arg.redirs)) := by
      intro s h
      refine ⟨[], ts, rfl, hle, h, ?_⟩
      simpa using hc
    rw [execLoop]
    refine h.peek_bind hline (by decide) fun s h => ?_
    refine Ends.ite (fun _ => Ends.pure (hdone h)) fun _ => ?_
    cases ts with
    | nil =>
      refine (h.gettoken_nil hline).bind ?_
      rintro tok s ⟨hret, h⟩
      rw [if_pos hret]
      exact Ends.pure (hdone h)
    | cons tok' ts =>
      refine (h.gettoken hline).bind ?_
      rintro tok s ⟨hret, htok, hword⟩
      rw [if_neg (by rw [hret]; exact code_ne_zero _)]
      refine Ends.ite (fun _ => Ends.throw ⟨_, rfl⟩) fun hword' => ?_
      rw [not_not, hret] at hword'
      obtain ⟨w, rfl⟩ := eq_word_of_code hword'
      refine Ends.ite (fun _ => Ends.throw ⟨_, rfl⟩) fun hmax => ?_
      have hlen : ts.length < n := by
        simp only [length_cons] at hn
        omega
      refine (parseredirs_sound hline htok (hc.addArg rs (hword w rfl)) hlen).bind ?_
      rintro cmd s ⟨rs', rest, rfl, h, hc⟩
      rw [← wrap_append] at hc
      have hrest : rest.length < n := by
        rw [length_append] at hlen
        omega
      refine (ih h hc (by rw [length_append, hargc]; rfl) (by omega) hrest).imp (fun _ he => he) ?_
      rintro cmd s ⟨args, rest, rfl, hle, h, hc⟩
      refine ⟨⟨w, rs'⟩ :: args, rest, ?_, ?_, h, ?_⟩
      · simp only [flatMap_cons, Arg.tokens, cons_append, append_assoc]
      · rw [length_cons]
        omega
      · simpa only [map_cons, flatMap_cons, append_assoc, singleton_append] using hc

lemma backLoop_sound (h : At line s ts) (hc : Shows line cmd t) (hn : ts.length < n) :
    Ends (backLoop n cmd) s Fail.IsPanic fun cmd s => ∃ k rest,
      ts = List.replicate k .amp ++ rest ∧ At line s rest ∧ Shows line cmd (Tree.back^[k] t) := by
  induction n generalizing s ts cmd t with
  | zero => exact absurd hn (Nat.not_lt_zero _)
  | succ n ih =>
    rw [backLoop]
    refine h.peek_bind hline (by decide) fun s h => ?_
    refine Ends.ite (fun hpeek => ?_) fun _ => ?_
    · obtain ⟨ts, rfl⟩ := cons_of_peeks .amp hpeek rfl (by decide)
      refine (h.gettoken hline).bind ?_
      rintro tok s ⟨_, h, _⟩
      refine (ih h (.back hc) (Nat.lt_of_succ_lt_succ hn)).post ?_
      rintro cmd s ⟨k, rest, rfl, hrest⟩
      exact ⟨k + 1, rest, rfl, hrest⟩
    · exact Ends.pure ⟨0, ts, rfl, h, hc⟩

end Sound

/-- The four functions on `n` calls: what they return is derived, or they panic. Each needs calls
    for the tokens that are left. -/
structure Sound (line : Ptr) (n : Nat) : Prop where
  lines : ∀ s ts, At line s ts → 4 * ts.length + 4 ≤ n →
    Ends (parseline n) s Fail.IsPanic (Parsed line Line ts)
  pipes : ∀ s ts, At line s ts → 4 * ts.length + 3 ≤ n →
    Ends (parsepipe n) s Fail.IsPanic (Parsed line Pipe ts)
  execs : ∀ s ts, At line s ts → 4 * ts.length + 2 ≤ n →
    Ends (parseexec n) s Fail.IsPanic (Parsed line Exec ts)
  blocks : ∀ s ts, At line s ts → 4 * ts.length + 1 ≤ n →
    Ends (parseblock n) s Fail.IsPanic (Parsed line Exec ts)

section Sound

variable (hline : 0 ∉ line) (ih : Sound line n)
include hline ih

lemma parseline_sound (h : At line s ts) (hn : 4 * ts.length + 4 ≤ n + 1) :
    Ends (parseline (n + 1)) s Fail.IsPanic (Parsed line Line ts) := by
  rw [parseline]
  refine (ih.pipes s ts h (by omega)).bind ?_
  rintro cmd s ⟨us, rest, t, rfl, hpipe, h, hc⟩
  rw [length_append] at hn
  refine (backLoop_sound hline h hc (by omega)).bind ?_
  rintro cmd s ⟨k, rest, rfl, h, hc⟩
  rw [length_append] at hn
  refine h.peek_bind hline (by decide) fun s h => ?_
  refine Ends.ite (fun hpeek => ?_) fun _ => ?_
  · obtain ⟨rest, rfl⟩ := cons_of_peeks .semi hpeek rfl (by decide)
    rw [length_cons] at hn
    refine (h.gettoken hline).bind ?_
    rintro tok s ⟨_, h, _⟩
    refine (ih.lines s rest h (by omega)).bind ?_
    rintro right s ⟨us', rest, t', rfl, hright, h, hc'⟩
    refine Ends.pure ⟨_, rest, _, ?_, .more k hpipe hright, h, .list hc hc'⟩
    simp only [append_assoc, cons_append]
  · refine Ends.pure ⟨_, rest, _, ?_, .last k hpipe, h, hc⟩
    rw [append_assoc]

lemma parsepipe_sound (h : At line s ts) (hn : 4 * ts.length + 3 ≤ n + 1) :
    Ends (parsepipe (n + 1)) s Fail.IsPanic (Parsed line Pipe ts) := by
  rw [parsepipe]
  refine (ih.execs s ts h (by omega)).bind ?_
  rintro cmd s ⟨us, rest, t, rfl, hexec, h, hc⟩
  rw [length_append] at hn
  refine h.peek_bind hline (by decide) fun s h => ?_
  refine Ends.ite (fun hpeek => ?_) fun _ => Ends.pure ⟨us, rest, t, rfl, .last hexec, h, hc⟩
  obtain ⟨rest, rfl⟩ := cons_of_peeks .bar hpeek rfl (by decide)
  rw [length_cons] at hn
  refine (h.gettoken hline).bind ?_
  rintro tok s ⟨_, h, _⟩
  refine (ih.pipes s rest h (by omega)).bind ?_
  rintro right s ⟨us', rest, t', rfl, hright, h, hc'⟩
  refine Ends.pure ⟨_, rest, _, ?_, .more hexec hright, h, .pipe hc hc'⟩
  rw [append_assoc, cons_append]

lemma parseblock_sound (h : At line s ts) (hn : 4 * ts.length + 1 ≤ n + 1) :
    Ends (parseblock (n + 1)) s Fail.IsPanic (Parsed line Exec ts) := by
  rw [parseblock]
  refine h.peek_bind hline (by decide) fun s h => ?_
  refine Ends.ite (fun hpeek => ?_) fun _ => Ends.throw ⟨_, rfl⟩
  obtain ⟨ts, rfl⟩ := cons_of_peeks .lpar hpeek rfl (by decide)
  rw [length_cons] at hn
  refine (h.gettoken hline).bind ?_
  rintro tok s ⟨_, h, _⟩
  refine (ih.lines s ts h (by omega)).bind ?_
  rintro cmd s ⟨us, rest, t, rfl, hinner, h, hc⟩
  refine h.peek_bind hline (by decide) fun s h => ?_
  refine Ends.ite (fun hpeek => ?_) fun _ => Ends.throw ⟨_, rfl⟩
  obtain ⟨rest, rfl⟩ := cons_of_peeks .rpar hpeek rfl (by decide)
  rw [length_append, length_cons] at hn
  refine (h.gettoken hline).bind ?_
  rintro tok s ⟨_, h, _⟩
  refine (parseredirs_sound hline h hc (by omega)).post ?_
  rintro cmd s ⟨rs, rest, rfl, h, hc⟩
  refine ⟨_, rest, _, ?_, .block rs hinner, h, hc⟩
  simp only [cons_append, append_assoc]

lemma parseexec_sound (h : At line s ts) (hn : 4 * ts.length + 2 ≤ n + 1) :
    Ends (parseexec (n + 1)) s Fail.IsPanic (Parsed line Exec ts) := by
  rw [parseexec]
  refine h.peek_bind hline (by decide) fun s h => ?_
  refine Ends.ite (fun _ => ih.blocks s ts h (by omega)) fun _ => ?_
  refine (parseredirs_sound hline h (.exec .nil) (by omega)).bind ?_
  rintro cmd s ⟨rs, rest, rfl, h, hc⟩
  rw [length_append] at hn
  refine (execLoop_sound hline h hc rfl (Nat.zero_le _) (by omega)).post ?_
  rintro cmd s ⟨args, rest, rfl, hle, h, hc⟩
  rw [length_nil, Nat.zero_add] at hle
  refine ⟨_, rest, _, ?_, .plain rs args hle, h, hc⟩
  rw [append_assoc]

omit ih in
lemma sound (n : Nat) : Sound line n := by
  induction n with
  | zero => constructor <;> exact fun _ _ _ hn => absurd hn (by omega)
  | succ n ih =>
    exact ⟨fun _ _ => parseline_sound hline ih, fun _ _ => parsepipe_sound hline ih,
      fun _ _ => parseexec_sound hline ih, fun _ _ => parseblock_sound hline ih⟩

end Sound

/-! ### What can be derived is returned -/

/-- The tokens end, or one of these symbols comes next. -/
def Follow (toks : List Char) (rest : List Token) : Prop := rest = [] ∨ peeks toks rest = true

lemma Follow.mono {toks' : List Char} (h : Follow toks rest) (hsub : toks ⊆ toks') : Follow toks' rest := by
  refine h.imp_right fun hpeek => ?_
  obtain ⟨tok, ts, x, rfl, hstart, hx⟩ := start_of_peeks hpeek
  rw [peeks, hstart]
  exact decide_eq_true (hsub hx)

lemma Follow.not_peeks {toks' : List Char} (h : Follow toks rest)
    (hne : (toks.any fun x => x ∈ toks') = false) : peeks toks' rest = false := by
  rcases h with rfl | hpeek
  · rfl
  · obtain ⟨tok, ts, x, rfl, hstart, hx⟩ := start_of_peeks hpeek
    rw [peeks, hstart]
    exact Bool.eq_false_iff.mpr (any_eq_false.mp hne x hx)

/-- What may follow a command. -/
def afterExec : List Char := ['|', ')', '&', ';']

def afterPipe : List Char := [')', '&', ';']

def afterLine : List Char := [')']

lemma peeks_op (o : Op) (ts : List Token) : peeks ['<', '>'] (o.token :: ts) = true := by
  cases o <;> rfl

lemma not_peeks_op (o : Op) (ts : List Token) (h : '<' ∉ toks ∧ '>' ∉ toks) :
    peeks toks (o.token :: ts) = false := by
  cases o with
  | read => exact decide_eq_false h.1
  | write | append => exact decide_eq_false h.2

/-- A word or what follows the command comes next. -/
lemma not_peeks_args (args : List Arg) (hrest : Follow afterExec rest)
    (h : (afterExec.any fun x => x ∈ toks) = false) :
    peeks toks (args.flatMap Arg.tokens ++ rest) = false := by
  cases args with
  | nil => exact hrest.not_peeks h
  | cons => rfl

lemma not_lpar_exec (rs : List Redir) (args : List Arg) (hrest : Follow afterExec rest) :
    peeks ['('] (redirTokens rs ++ (args.flatMap Arg.tokens ++ rest)) = false := by
  cases rs with
  | nil => exact not_peeks_args args hrest (by decide)
  | cons r => exact not_peeks_op r.op _ (by decide)

/-- The parser stops before `rest` with a command for the tree. -/
def Returns (line : Ptr) (t : Tree) (rest : List Token) (cmd : Cmd) (s : Ptr) : Prop :=
  At line s rest ∧ Shows line cmd t

section Complete

variable (hline : 0 ∉ line)
include hline

lemma parseredirs_complete (rs : List Redir) (h : At line s (redirTokens rs ++ rest))
    (hrest : peeks ['<', '>'] rest = false) (hc : Shows line cmd t)
    (hn : (redirTokens rs ++ rest).length < n) :
    Ends (parseredirs n cmd) s (fun _ => False) (Returns line (t.wrap rs) rest) := by
  induction n generalizing s cmd t rs with
  | zero => exact absurd hn (Nat.not_lt_zero _)
  | succ n ih =>
    rw [parseredirs]
    refine h.peek_bind hline (by decide) fun s h => ?_
    cases rs with
    | nil =>
      refine Ends.ite (fun hpeek => ?_) fun _ => Ends.pure ⟨h, hc⟩
      cases hrest.symm.trans hpeek
    | cons r rs =>
      rw [redirTokens_cons, cons_append, cons_append] at h hn ⊢
      rw [if_pos (peeks_op r.op _)]
      refine (h.gettoken hline).bind ?_
      rintro tok s ⟨htok, h, _⟩
      refine (h.gettoken hline).bind ?_
      rintro file s ⟨hfile, h, hword⟩
      have hfile' : file.ret = chr 'a' := hfile
      rw [if_neg (not_not.mpr hfile'), htok, redirect_op]
      refine ih rs h (.redir hc (hword _ rfl)) ?_
      rw [length_cons, length_cons] at hn
      omega

lemma execLoop_complete (args : List Arg) (h : At line s (args.flatMap Arg.tokens ++ rest))
    (hrest : Follow afterExec rest) (hc : Shows line cmd ((Tree.exec words).wrap rs))
    (hle : argc + args.length ≤ MAXARGS - 1) (hn : (args.flatMap Arg.tokens ++ rest).length < n) :
    Ends (execLoop n argc cmd) s (fun _ => False) (Returns line
      ((Tree.exec (words ++ args.map Arg.word)).wrap (rs ++ args.flatMap Arg.redirs)) rest) := by
  induction n generalizing s cmd words rs argc args with
  | zero => exact absurd hn (Nat.not_lt_zero _)
  | succ n ih =>
    rw [execLoop]
    refine h.peek_bind hline (by decide) fun s h => ?_
    cases args with
    | nil =>
      have hdone : ∀ {s}, At line s rest → Returns line
          ((Tree.exec (words ++ List.map Arg.word [])).wrap (rs ++ List.flatMap Arg.redirs []))
          rest cmd s := by
        intro s h
        rw [map_nil, flatMap_nil, append_nil, append_nil]
        exact ⟨h, hc⟩
      refine Ends.ite (fun _ => Ends.pure (hdone h)) fun hpeek => ?_
      obtain rfl := hrest.resolve_right hpeek
      refine (At.gettoken_nil hline h).bind ?_
      rintro tok s ⟨hret, h⟩
      rw [if_pos hret]
      exact Ends.pure (hdone h)
    | cons a args =>
      have htokens : List.flatMap Arg.tokens (a :: args) ++ rest =
          .word a.word :: (redirTokens a.redirs ++ (args.flatMap Arg.tokens ++ rest)) := by
        simp only [flatMap_cons, Arg.tokens, cons_append, append_assoc]
      rw [htokens] at h hn ⊢
      rw [length_cons] at hle hn
      have hpeek : ∀ ts, peeks ['|', ')', '&', ';'] (.word a.word :: ts) = false := fun _ => rfl
      rw [hpeek, if_neg Bool.false_ne_true]
      refine (h.gettoken hline).bind ?_
      rintro tok s ⟨hret, h, hword⟩
      have hret' : tok.ret = chr 'a' := hret
      have hmax : ¬ argc + 1 ≥ MAXARGS := by
        simp only [MAXARGS] at hle ⊢
        omega
      rw [if_neg (by rw [hret]; exact code_ne_zero _), if_neg (not_not.mpr hret'), if_neg hmax]
      refine (parseredirs_complete hline a.redirs h (not_peeks_args args hrest (by decide))
        (hc.addArg rs (hword _ rfl)) (by omega)).bind ?_
      rintro cmd s ⟨h, hc⟩
      rw [← wrap_append] at hc
      rw [length_append] at hn
      refine (ih args h hc (by omega) (by omega)).post ?_
      intro cmd s hret
      simpa only [map_cons, flatMap_cons, append_assoc, singleton_append] using hret

lemma backLoop_complete (k : Nat) (h : At line s (List.replicate k .amp ++ rest))
    (hrest : peeks ['&'] rest = false) (hc : Shows line cmd t)
    (hn : (List.replicate k Token.amp ++ rest).length < n) :
    Ends (backLoop n cmd) s (fun _ => False) (Returns line (Tree.back^[k] t) rest) := by
  induction n generalizing s cmd t k with
  | zero => exact absurd hn (Nat.not_lt_zero _)
  | succ n ih =>
    rw [backLoop]
    refine h.peek_bind hline (by decide) fun s h => ?_
    cases k with
    | zero =>
      refine Ends.ite (fun hpeek => ?_) fun _ => Ends.pure ⟨h, hc⟩
      cases hrest.symm.trans hpeek
    | succ k =>
      have hpeek : peeks ['&'] (List.replicate (k + 1) .amp ++ rest) = true := rfl
      rw [if_pos hpeek]
      refine (At.gettoken (t := .amp) hline h).bind ?_
      rintro tok s ⟨_, h, _⟩
      exact ih k h (.back hc) (Nat.lt_of_succ_lt_succ hn)

end Complete

/-- The four functions on `n` calls return on what can be derived. -/
structure Complete (line : Ptr) (n : Nat) : Prop where
  lines : ∀ s us rest t, Line us t → At line s (us ++ rest) → Follow afterLine rest →
    4 * (us ++ rest).length + 4 ≤ n →
    Ends (parseline n) s (fun _ => False) (Returns line t rest)
  pipes : ∀ s us rest t, Pipe us t → At line s (us ++ rest) → Follow afterPipe rest →
    4 * (us ++ rest).length + 3 ≤ n →
    Ends (parsepipe n) s (fun _ => False) (Returns line t rest)
  execs : ∀ s us rest t, Exec us t → At line s (us ++ rest) → Follow afterExec rest →
    4 * (us ++ rest).length + 2 ≤ n →
    Ends (parseexec n) s (fun _ => False) (Returns line t rest)
  blocks : ∀ s us rs rest t, Line us t →
    At line s (.lpar :: (us ++ .rpar :: (redirTokens rs ++ rest))) → Follow afterExec rest →
    4 * (Token.lpar :: (us ++ .rpar :: (redirTokens rs ++ rest))).length + 1 ≤ n →
    Ends (parseblock n) s (fun _ => False) (Returns line (t.wrap rs) rest)

section Complete

variable (hline : 0 ∉ line) (ih : Complete line n)
include hline ih

/-- A pipe with its ampersands, and what the parser does then. -/
lemma backs_complete {f : Cmd → Parse Cmd} {Q : Cmd → Ptr → Prop} (k : Nat) (hpipe : Pipe us t)
    (h : At line s (us ++ (List.replicate k .amp ++ rest))) (hrest : Follow [')', ';'] rest)
    (hn : 4 * (us ++ (List.replicate k Token.amp ++ rest)).length + 4 ≤ n + 1)
    (hf : ∀ cmd s, Returns line (Tree.back^[k] t) rest cmd s → Ends (f cmd) s (fun _ => False) Q) :
    Ends (do let cmd ← parsepipe n; let cmd ← backLoop n cmd; f cmd) s (fun _ => False) Q := by
  have hfollow : Follow afterPipe (List.replicate k .amp ++ rest) := by
    cases k with
    | zero => exact hrest.mono (by decide)
    | succ => exact .inr rfl
  refine (ih.pipes s us _ t hpipe h hfollow (by omega)).bind ?_
  rintro cmd s ⟨h, hc⟩
  rw [length_append] at hn
  exact (backLoop_complete hline k h (hrest.not_peeks (by decide)) hc (by omega)).bind hf

lemma parseline_complete (hderives : Line us t) (h : At line s (us ++ rest))
    (hrest : Follow afterLine rest) (hn : 4 * (us ++ rest).length + 4 ≤ n + 1) :
    Ends (parseline (n + 1)) s (fun _ => False) (Returns line t rest) := by
  rw [parseline]
  cases hderives with
  | last k hpipe =>
    rw [append_assoc] at h hn
    refine backs_complete hline ih k hpipe h (hrest.mono (by decide)) hn ?_
    rintro cmd s ⟨h, hc⟩
    refine h.peek_bind hline (by decide) fun s h => ?_
    rw [hrest.not_peeks (by decide)]
    exact Ends.pure ⟨h, hc⟩
  | more k hpipe hu =>
    rw [append_assoc, append_assoc, cons_append] at h hn
    refine backs_complete hline ih k hpipe h (.inr rfl) hn ?_
    rintro cmd s ⟨h, hc⟩
    refine h.peek_bind hline (by decide) fun s h => ?_
    refine (h.gettoken hline).bind ?_
    rintro tok s ⟨_, h, _⟩
    rw [length_append, length_append, length_cons] at hn
    refine (ih.lines s _ rest _ hu h hrest (by omega)).bind ?_
    rintro right s ⟨h, hc'⟩
    exact Ends.pure ⟨h, .list hc hc'⟩

lemma parsepipe_complete (hderives : Pipe us t) (h : At line s (us ++ rest))
    (hrest : Follow afterPipe rest) (hn : 4 * (us ++ rest).length + 3 ≤ n + 1) :
    Ends (parsepipe (n + 1)) s (fun _ => False) (Returns line t rest) := by
  rw [parsepipe]
  cases hderives with
  | last hexec =>
    refine (ih.execs s us rest t hexec h (hrest.mono (by decide)) (by omega)).bind ?_
    rintro cmd s ⟨h, hc⟩
    refine h.peek_bind hline (by decide) fun s h => ?_
    rw [hrest.not_peeks (by decide)]
    exact Ends.pure ⟨h, hc⟩
  | more hexec hu =>
    rw [append_assoc, cons_append] at h hn
    refine (ih.execs s _ _ _ hexec h (.inr rfl) (by omega)).bind ?_
    rintro cmd s ⟨h, hc⟩
    refine h.peek_bind hline (by decide) fun s h => ?_
    refine (h.gettoken hline).bind ?_
    rintro tok s ⟨_, h, _⟩
    rw [length_append, length_cons] at hn
    refine (ih.pipes s _ rest _ hu h hrest (by omega)).bind ?_
    rintro right s ⟨h, hc'⟩
    exact Ends.pure ⟨h, .pipe hc hc'⟩

lemma parseblock_complete (hderives : Line us t)
    (h : At line s (.lpar :: (us ++ .rpar :: (redirTokens rs ++ rest)))) (hrest : Follow afterExec rest)
    (hn : 4 * (Token.lpar :: (us ++ .rpar :: (redirTokens rs ++ rest))).length + 1 ≤ n + 1) :
    Ends (parseblock (n + 1)) s (fun _ => False) (Returns line (t.wrap rs) rest) := by
  rw [parseblock]
  rw [length_cons] at hn
  refine h.peek_bind hline (by decide) fun s h => ?_
  refine (h.gettoken hline).bind ?_
  rintro tok s ⟨_, h, _⟩
  refine (ih.lines s us _ t hderives h (.inr rfl) (by omega)).bind ?_
  rintro cmd s ⟨h, hc⟩
  refine h.peek_bind hline (by decide) fun s h => ?_
  refine (h.gettoken hline).bind ?_
  rintro tok s ⟨_, h, _⟩
  rw [length_append, length_cons] at hn
  exact parseredirs_complete hline rs h (hrest.not_peeks (by decide)) hc (by omega)

lemma parseexec_complete (hderives : Exec us t) (h : At line s (us ++ rest))
    (hrest : Follow afterExec rest) (hn : 4 * (us ++ rest).length + 2 ≤ n + 1) :
    Ends (parseexec (n + 1)) s (fun _ => False) (Returns line t rest) := by
  rw [parseexec]
  refine h.peek_bind hline (by decide) fun s h => ?_
  cases hderives with
  | block rs hinner =>
    rw [cons_append, append_assoc, cons_append] at h hn ⊢
    exact ih.blocks s _ rs rest _ hinner h hrest (by omega)
  | plain rs args =>
    rw [append_assoc] at h hn ⊢
    rw [not_lpar_exec rs args hrest]
    refine (parseredirs_complete hline rs h (not_peeks_args args hrest (by decide))
      (.exec .nil) (by omega)).bind ?_
    rintro cmd s ⟨h, hc⟩
    rw [length_append] at hn
    exact execLoop_complete hline args h hrest hc (by omega) (by omega)

omit ih in
lemma complete (n : Nat) : Complete line n := by
  induction n with
  | zero =>
    exact ⟨fun _ _ _ _ _ _ _ hn => absurd hn (by omega),
      fun _ _ _ _ _ _ _ hn => absurd hn (by omega),
      fun _ _ _ _ _ _ _ hn => absurd hn (by omega),
      fun _ _ _ _ _ _ _ _ hn => absurd hn (by omega)⟩
  | succ n ih =>
    exact ⟨fun _ _ _ _ => parseline_complete hline ih, fun _ _ _ _ => parsepipe_complete hline ih,
      fun _ _ _ _ => parseexec_complete hline ih, fun _ _ _ _ _ => parseblock_complete hline ih⟩

end Complete

end Xv6.Shell
