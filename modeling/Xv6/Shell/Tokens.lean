import Mathlib.Data.List.DropRight
import Xv6.Shell.Parser

/-!
# Tokens

The list of tokens that repeated calls of `gettoken` find, and what `peek` and `gettoken` do in
terms of this list. The cursor is always at a suffix of the line, and white space before a token does
not count.
-/

namespace Xv6.Shell

open Machine List

inductive Token
  | word (text : List Byte)
  | lt
  | gt
  | gtgt
  | bar
  | amp
  | semi
  | lpar
  | rpar
  deriving DecidableEq

/-- What `gettoken` returns for a token. -/
def Token.code : Token → Byte
  | .word _ => chr 'a'
  | .lt => chr '<'
  | .gt => chr '>'
  | .gtgt => chr '+'
  | .bar => chr '|'
  | .amp => chr '&'
  | .semi => chr ';'
  | .lpar => chr '('
  | .rpar => chr ')'

def Token.start : Token → Option Char
  | .word _ => none
  | .lt => some '<'
  | .gt | .gtgt => some '>'
  | .bar => some '|'
  | .amp => some '&'
  | .semi => some ';'
  | .lpar => some '('
  | .rpar => some ')'

def text (q e : Ptr) : List Byte := q.take (q.length - e.length)

/-- The token that `gettoken` has found. -/
def Got.token (g : Got) : Option Token :=
  if g.ret = chr 'a' then some (.word (text g.q g.eq))
  else [.lt, .gt, .gtgt, .bar, .amp, .semi, .lpar, .rpar].find? fun t => t.code = g.ret

/-- The tokens of the first `n` calls of `gettoken`. -/
def lex : Nat → Ptr → List Token
  | 0, _ => []
  | n + 1, s =>
    match (nextToken s).1.token with
    | none => []
    | some t => t :: lex n (nextToken s).2

def tokens (s : Ptr) : List Token := lex s.length s

def peeks (toks : List Char) : List Token → Bool
  | [] => false
  | t :: _ => t.start.any fun x => x ∈ toks

variable {s e q line : Ptr} {c : Byte} {t : Token} {ts : List Token} {toks : List Char} {n m : Nat}
  {w : List Byte}

/-! ### One token -/

/-- How a token stands at a pointer, and where it ends. -/
inductive Scans : Ptr → Token → Ptr → Prop
  | word (c : Byte) (r : Ptr) (hc : isWord c = true) (h0 : c ≠ 0) :
      Scans (c :: r) (.word ((c :: r).takeWhile isWord)) ((c :: r).dropWhile isWord)
  | one (t : Token) (x : Char) (r : Ptr) (hstart : t.start = some x) : Scans (chr x :: r) t r
  | gtgt (r : Ptr) : Scans (chr '>' :: chr '>' :: r) .gtgt r

lemma text_dropWhile (q : Ptr) : text q (q.dropWhile isWord) = q.takeWhile isWord := by
  have hlen := congrArg List.length (takeWhile_append_dropWhile (p := isWord) (l := q))
  rw [length_append] at hlen
  rw [text, show q.length - (q.dropWhile isWord).length = (q.takeWhile isWord).length by omega]
  nth_rewrite 2 [← takeWhile_append_dropWhile (p := isWord) (l := q)]
  exact take_left

lemma strchr_iff : strchr toks c = true ↔ ∃ x ∈ toks, chr x = c := by
  simp only [strchr, any_eq_true, decide_eq_true_eq]

lemma scan_spec (r : Ptr) (hspace : strchr whitespace c = false) (h0 : c ≠ 0) :
    ∃ t e, Scans (c :: r) t e ∧ scan (c :: r) = (t.code, e) ∧ Got.token ⟨t.code, c :: r, e⟩ = some t := by
  by_cases hsym : strchr ['|', '(', ')', ';', '&', '<'] c = true
  · obtain ⟨x, hx, rfl⟩ := strchr_iff.mp hsym
    simp only [mem_cons, not_mem_nil, or_false] at hx
    rcases hx with rfl | rfl | rfl | rfl | rfl | rfl
    · exact ⟨.bar, r, .one _ _ _ rfl, rfl, rfl⟩
    · exact ⟨.lpar, r, .one _ _ _ rfl, rfl, rfl⟩
    · exact ⟨.rpar, r, .one _ _ _ rfl, rfl, rfl⟩
    · exact ⟨.semi, r, .one _ _ _ rfl, rfl, rfl⟩
    · exact ⟨.amp, r, .one _ _ _ rfl, rfl, rfl⟩
    · exact ⟨.lt, r, .one _ _ _ rfl, rfl, rfl⟩
  · have hscan : scan (c :: r) = if c = chr '>' then
        if deref r = chr '>' then (chr '+', r.tail) else (c, r)
        else (chr 'a', (c :: r).dropWhile isWord) := by
      simp only [scan, deref, headD_cons, tail_cons, h0, hsym, if_false, Bool.false_eq_true]
      rfl
    rw [hscan]
    split_ifs with hgt hgtgt
    · subst hgt
      cases r with
      | nil => cases hgtgt
      | cons d r =>
        obtain rfl : d = chr '>' := hgtgt
        exact ⟨.gtgt, r, .gtgt r, rfl, rfl⟩
    · subst hgt
      exact ⟨.gt, r, .one _ _ _ rfl, rfl, rfl⟩
    · have hword : isWord c = true := by
        rw [isWord, hspace, Bool.not_false, Bool.true_and, Bool.not_eq_true',
          ← Bool.not_eq_true, strchr_iff]
        rintro ⟨x, hx, rfl⟩
        simp only [symbols, mem_cons, not_mem_nil, or_false] at hx
        refine hsym (strchr_iff.mpr ⟨x, ?_, rfl⟩)
        simp only [mem_cons, not_mem_nil, or_false]
        tauto
      refine ⟨_, _, .word c r hword h0, rfl, ?_⟩
      exact congrArg (fun w => some (Token.word w)) (text_dropWhile (c :: r))

lemma Scans.length_lt (h : Scans s t e) : e.length < s.length := by
  cases h with
  | word c r hc =>
    rw [dropWhile_cons_of_pos hc, length_cons]
    exact Nat.lt_succ_of_le (dropWhile_suffix _).length_le
  | one => exact Nat.lt_succ_self _
  | gtgt => exact Nat.lt_succ_of_lt (Nat.lt_succ_self _)

lemma Scans.suffix (h : Scans s t e) : e <:+ s := by
  cases h with
  | word => exact dropWhile_suffix _
  | one => exact suffix_cons _ _
  | gtgt => exact (suffix_cons _ _).trans (suffix_cons _ _)

lemma skip_suffix (s : Ptr) : skip s <:+ s := dropWhile_suffix _

lemma skip_skip (s : Ptr) : skip (skip s) = skip s := dropWhile_idempotent _ _

/-- A call of `gettoken` on a line without NULs. -/
lemma nextToken_spec (hs : 0 ∉ s) :
    (skip s = [] ∧ nextToken s = (⟨0, [], []⟩, [])) ∨
      ∃ t e, Scans (skip s) t e ∧ nextToken s = (⟨t.code, skip s, e⟩, skip e) ∧
        (nextToken s).1.token = some t := by
  rw [nextToken]
  cases hskip : skip s with
  | nil => exact .inl ⟨rfl, rfl⟩
  | cons c r =>
    right
    have hspace : strchr whitespace c = false := by
      have hhead := List.head?_dropWhile_not (strchr whitespace) s
      rw [← skip, hskip] at hhead
      exact hhead
    have h0 : c ≠ 0 := by
      rintro rfl
      exact hs ((skip_suffix s).subset (hskip ▸ mem_cons_self))
    obtain ⟨t, e, hscans, hscan, htoken⟩ := scan_spec r hspace h0
    refine ⟨t, e, hscans, ?_, ?_⟩
    · simp only [hscan]
    · simp only [hscan]
      exact htoken

/-! ### The list of tokens -/

lemma not_mem_of_suffix (hs : 0 ∉ s) (h : e <:+ s) : 0 ∉ e := fun he => hs (h.subset he)

lemma length_nextToken (hs : 0 ∉ s) (h : (nextToken s).1.token = some t) :
    (nextToken s).2.length < s.length := by
  rcases nextToken_spec hs with ⟨_, hnext⟩ | ⟨t, e, hscans, hnext, _⟩
  · rw [hnext] at h
    cases h
  · rw [hnext]
    calc (skip e).length ≤ e.length := (skip_suffix e).length_le
      _ < (skip s).length := hscans.length_lt
      _ ≤ s.length := (skip_suffix s).length_le

lemma nextToken_suffix (hs : 0 ∉ s) : (nextToken s).2 <:+ s := by
  rcases nextToken_spec hs with ⟨_, hnext⟩ | ⟨t, e, hscans, hnext, _⟩
  · rw [hnext]
    exact nil_suffix
  · rw [hnext]
    exact (skip_suffix e).trans (hscans.suffix.trans (skip_suffix s))

/-- With a call for every byte there is none left for want of calls. -/
lemma lex_eq_lex (hs : 0 ∉ s) (hn : s.length ≤ n) (hm : s.length ≤ m) : lex n s = lex m s := by
  induction n generalizing s m with
  | zero =>
    obtain rfl := length_eq_zero_iff.mp (Nat.le_zero.mp hn)
    cases m <;> rfl
  | succ n ih =>
    cases m with
    | zero =>
      obtain rfl := length_eq_zero_iff.mp (Nat.le_zero.mp hm)
      rfl
    | succ =>
      rw [lex, lex]
      cases htoken : (nextToken s).1.token with
      | none => rfl
      | some =>
        have hlt := length_nextToken hs htoken
        refine congrArg _ (ih (not_mem_of_suffix hs (nextToken_suffix hs)) ?_ ?_)
        · exact Nat.le_of_lt_succ (hlt.trans_le hn)
        · exact Nat.le_of_lt_succ (hlt.trans_le hm)

lemma length_lex_le (n : Nat) (s : Ptr) : (lex n s).length ≤ n := by
  induction n generalizing s with
  | zero => exact le_rfl
  | succ n ih =>
    rw [lex]
    cases (nextToken s).1.token with
    | none => exact Nat.zero_le _
    | some => exact Nat.succ_le_succ (ih _)

lemma tokens_of_none (h : (nextToken s).1.token = none) : tokens s = [] := by
  rw [tokens]
  cases s.length with
  | zero => rfl
  | succ =>
    rw [lex, h]

lemma tokens_of_some (hs : 0 ∉ s) (h : (nextToken s).1.token = some t) :
    tokens s = t :: tokens (nextToken s).2 := by
  have hlt := length_nextToken hs h
  rw [tokens]
  cases hlen : s.length with
  | zero => omega
  | succ =>
    rw [lex, h]
    refine congrArg _ (lex_eq_lex (not_mem_of_suffix hs (nextToken_suffix hs)) ?_ le_rfl)
    omega

lemma nextToken_skip (s : Ptr) : nextToken (skip s) = nextToken s := by
  simp only [nextToken, skip_skip]

lemma tokens_skip (hs : 0 ∉ s) : tokens (skip s) = tokens s := by
  cases h : (nextToken s).1.token with
  | none => rw [tokens_of_none h, tokens_of_none (by rw [nextToken_skip, h])]
  | some =>
    rw [tokens_of_some hs h, tokens_of_some (not_mem_of_suffix hs (skip_suffix s))
      (by rw [nextToken_skip, h]), nextToken_skip]

lemma tokens_eq_nil_iff (hs : 0 ∉ s) : tokens s = [] ↔ skip s = [] := by
  rcases nextToken_spec hs with ⟨hskip, hnext⟩ | ⟨t, e, hscans, _, htoken⟩
  · refine iff_of_true (tokens_of_none ?_) hskip
    rw [hnext]
    rfl
  · refine iff_of_false ?_ ?_
    · rw [tokens_of_some hs htoken]
      exact cons_ne_nil _ _
    · intro hskip
      have hlt := hscans.length_lt
      rw [hskip] at hlt
      exact absurd hlt (Nat.not_lt_zero _)

/-! ### `peek` -/

lemma chr_inj {x y : Char} (hx : x ∈ symbols) (hy : y ∈ symbols) (h : chr x = chr y) : x = y := by
  have hall : (symbols.all fun x => symbols.all fun y => chr x = chr y → x = y) = true := by decide
  exact of_decide_eq_true (all_eq_true.mp (all_eq_true.mp hall x hx) y hy) h

lemma chr_ne_zero {x : Char} (hx : x ∈ symbols) : chr x ≠ 0 := by
  have hall : (symbols.all fun x => decide (chr x ≠ 0)) = true := by decide
  exact of_decide_eq_true (all_eq_true.mp hall x hx)

lemma start_mem_symbols {x : Char} (h : t.start = some x) : x ∈ symbols := by
  cases t <;> cases h <;> decide

lemma strchr_chr {x : Char} (htoks : toks ⊆ symbols) (hx : x ∈ symbols) :
    strchr toks (chr x) = decide (x ∈ toks) := by
  rw [Bool.eq_iff_iff, strchr_iff, decide_eq_true_eq]
  constructor
  · rintro ⟨y, hy, heq⟩
    exact chr_inj (htoks hy) hx heq ▸ hy
  · exact fun hmem => ⟨x, hmem, rfl⟩

lemma not_strchr_of_isWord (htoks : toks ⊆ symbols) (hc : isWord c = true) : strchr toks c = false := by
  rw [← Bool.not_eq_true, strchr_iff]
  rintro ⟨x, hx, rfl⟩
  rw [isWord, strchr_iff.mpr ⟨x, htoks hx, rfl⟩, Bool.not_true, Bool.and_false] at hc
  cases hc

lemma peek_scans (htoks : toks ⊆ symbols) (h : Scans s t e) :
    (deref s ≠ 0 && strchr toks (deref s) : Bool) = peeks toks (t :: ts) := by
  cases h with
  | word c r hc =>
    change (decide (c ≠ 0) && strchr toks c) = false
    rw [not_strchr_of_isWord htoks hc, Bool.and_false]
  | one t x r hstart =>
    have hx := start_mem_symbols hstart
    change (decide (chr x ≠ 0) && strchr toks (chr x)) = _
    rw [decide_eq_true (chr_ne_zero hx), strchr_chr htoks hx, peeks, hstart]
    rfl
  | gtgt =>
    change (decide (chr '>' ≠ 0) && strchr toks (chr '>')) = _
    rw [decide_eq_true (chr_ne_zero (x := '>') (by decide)), strchr_chr htoks (by decide)]
    rfl

/-- Whether the next token starts with one of `toks`. -/
lemma peek_eq (hs : 0 ∉ s) (htoks : toks ⊆ symbols) :
    (deref (skip s) ≠ 0 && strchr toks (deref (skip s)) : Bool) = peeks toks (tokens s) := by
  rcases nextToken_spec hs with ⟨hskip, hnext⟩ | ⟨t, e, hscans, _, htoken⟩
  · rw [(tokens_eq_nil_iff hs).mpr hskip, hskip]
    rfl
  · rw [tokens_of_some hs htoken]
    exact peek_scans htoks hscans

/-! ### The cursor -/

/-- The word `w` stands in the line from `q` to `e`. -/
structure WordAt (line : Ptr) (w : List Byte) (q e : Ptr) : Prop where
  suffix : q <:+ line
  word : q.takeWhile isWord = w
  rest : q.dropWhile isWord = e

/-- The cursor is in the line, with the tokens `ts` before it. -/
structure At (line s : Ptr) (ts : List Token) : Prop where
  suffix : s <:+ line
  tokens : tokens s = ts

variable {E : Fail → Prop} (hline : 0 ∉ line)
include hline

lemma At.peek (h : At line s ts) (htoks : toks ⊆ symbols) :
    Ends (peek toks) s E fun b s' => b = peeks toks ts ∧ At line s' ts := by
  have hs := not_mem_of_suffix hline h.suffix
  refine Ends.modifyGet ⟨?_, (skip_suffix s).trans h.suffix, ?_⟩
  · rw [← h.tokens]
    exact peek_eq hs htoks
  · rw [tokens_skip hs, h.tokens]

lemma At.peek_bind {α : Type} {f : Bool → Parse α} {Q : α → Ptr → Prop} (h : At line s ts)
    (htoks : toks ⊆ symbols) (hf : ∀ s, At line s ts → Ends (f (peeks toks ts)) s E Q) :
    Ends (Shell.peek toks >>= f) s E Q := by
  refine (h.peek hline htoks).bind ?_
  rintro b s ⟨rfl, h⟩
  exact hf s h

lemma At.peek_nil (h : At line s []) (toks : List Char) : Ends (Shell.peek toks) s E fun _ s' => s' = [] :=
  Ends.modifyGet ((tokens_eq_nil_iff (not_mem_of_suffix hline h.suffix)).mp h.tokens)

lemma At.gettoken_nil (h : At line s []) : Ends gettoken s E fun g s' => g.ret = 0 ∧ At line s' [] := by
  have hs := not_mem_of_suffix hline h.suffix
  have hskip := (tokens_eq_nil_iff hs).mp h.tokens
  rcases nextToken_spec hs with ⟨_, hnext⟩ | ⟨t, e, hscans, _⟩
  · refine Ends.modifyGet ?_
    rw [hnext]
    exact ⟨rfl, nil_suffix, rfl⟩
  · have hlt := hscans.length_lt
    rw [hskip] at hlt
    exact absurd hlt (Nat.not_lt_zero _)

/-- `gettoken` at a token. -/
lemma At.gettoken (h : At line s (t :: ts)) :
    Ends gettoken s E fun g s' => g.ret = t.code ∧ At line s' ts ∧
      ∀ w, t = .word w → WordAt line w g.q g.eq := by
  have hs := not_mem_of_suffix hline h.suffix
  rcases nextToken_spec hs with ⟨hskip, _⟩ | ⟨t', e, hscans, hnext, htoken⟩
  · cases ((tokens_eq_nil_iff hs).mpr hskip).symm.trans h.tokens
  · have htokens := (tokens_of_some hs htoken).symm.trans h.tokens
    have hsuffix := (nextToken_suffix hs).trans h.suffix
    rw [hnext] at htokens hsuffix
    cases htokens
    refine Ends.modifyGet ?_
    rw [hnext]
    refine ⟨rfl, ⟨hsuffix, rfl⟩, ?_⟩
    rintro w rfl
    have hq : skip s <:+ line := (skip_suffix s).trans h.suffix
    generalize skip s = q at hscans hq
    cases hscans with
    | word => exact ⟨hq, rfl, rfl⟩
    | one _ x r hstart => cases hstart

end Xv6.Shell
