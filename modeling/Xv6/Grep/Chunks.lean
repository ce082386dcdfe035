import Mathlib.Data.List.GetD
import Xv6.Grep.Match

/-!
# The input of `grep`

`grep` reads into a buffer behind the part of a line that it kept from the last time, writes the lines that
match and keeps what follows the last newline. If it has read no newline, it forgets what is in the buffer.
So its output is right where every piece of the input has a newline, up to the last newline.
-/

namespace Xv6.Grep

open Machine Function List

/-- `sizeof(buf)` -/
def BUFSIZE : Nat := 1024

def newline : Byte := chr '\n'

abbrev Buffer := Nat → Byte

variable {buf : Buffer} {p m n : Nat} {c : Byte} {pattern piece : List Byte}

/-! ### The program -/

/-- `strchr(buf+p, c)`, which looks at `n` bytes at most. -/
def strchr (buf : Buffer) (c : Byte) : Nat → Nat → Option Nat
  | 0, _ => none
  | n + 1, p => if buf p = 0 then none else if buf p = c then some p else strchr buf c n (p + 1)

/-- The string at `buf+p`, up to `n` bytes. -/
def strAt (buf : Buffer) : Nat → Nat → List Byte
  | 0, _ => []
  | n + 1, p => if buf p = 0 then [] else buf p :: strAt buf n (p + 1)

def bytesAt (buf : Buffer) (p n : Nat) : List Byte := (List.range n).map fun j => buf (p + j)

/-- What the inner loop keeps. -/
structure Scan where
  buf : Buffer
  /-- `p - buf` -/
  p : Nat
  /-- the writes so far -/
  out : List (List Byte)

/-- One line, whose newline is at `q`. -/
def line (pattern : List Byte) (x : Scan) (q : Nat) : Scan :=
  let buf := Function.update x.buf q 0
  if match' pattern (strAt buf (BUFSIZE - x.p) x.p) then
    let buf := Function.update buf q newline
    ⟨buf, q + 1, x.out ++ [bytesAt buf x.p (q + 1 - x.p)]⟩
  else ⟨buf, q + 1, x.out⟩

/-- The inner loop, for at most `n` lines. -/
def scan (pattern : List Byte) : Nat → Scan → Scan
  | 0, x => x
  | n + 1, x =>
    match strchr x.buf newline (BUFSIZE - x.p) x.p with
    | none => x
    | some q => scan pattern n (line pattern x q)

/-- `read(fd, buf+m, ...)`, and `buf[m] = '\0'` after it. -/
def fill (buf : Buffer) (m : Nat) (piece : List Byte) : Buffer := fun j =>
  if j < m then buf j else if j = m + piece.length then 0 else piece.getD (j - m) (buf j)

/-- `memmove(buf, buf+p, m)` -/
def move (buf : Buffer) (p m : Nat) : Buffer := fun j => if j < m then buf (p + j) else buf j

structure State where
  buf : Buffer
  m : Nat
  out : List (List Byte)

/-- The body of the outer loop. -/
def round (pattern : List Byte) (s : State) (piece : List Byte) : State :=
  let m := s.m + piece.length
  let x := scan pattern BUFSIZE ⟨fill s.buf s.m piece, 0, s.out⟩
  let m := if x.p = 0 then 0 else m
  if 0 < m then ⟨move x.buf x.p (m - x.p), m - x.p, x.out⟩ else ⟨x.buf, m, x.out⟩

/-- `grep`, where `read` returns the pieces one after the other and then 0. -/
def grep (pattern : List Byte) (buf : Buffer) (pieces : List (List Byte)) : List (List Byte) :=
  (pieces.foldl (round pattern) ⟨buf, 0, []⟩).out

/-- Every piece has a byte and is no longer than what `grep` asks for. -/
def Fits (pattern : List Byte) : State → List (List Byte) → Prop
  | _, [] => True
  | s, piece :: pieces =>
    piece ≠ [] ∧ piece.length ≤ BUFSIZE - s.m - 1 ∧ Fits pattern (round pattern s piece) pieces

instance decidableFits (pattern : List Byte) : ∀ s pieces, Decidable (Fits pattern s pieces)
  | _, [] => isTrue trivial
  | s, piece :: pieces =>
    have := decidableFits pattern (round pattern s piece) pieces
    inferInstanceAs (Decidable (_ ∧ _ ∧ _))

/-! ### Lines -/

/-- The lines that end in a newline, without it. -/
def terminated (input : List Byte) : List (List Byte) := (input.splitOn newline).dropLast

/-- What `grep` has to write. -/
def expected (pattern input : List Byte) : List (List Byte) :=
  ((terminated input).filter (match' pattern)).map (· ++ [newline])

lemma splitOn_cons {l r : List Byte} (hl : newline ∉ l) :
    (l ++ newline :: r).splitOn newline = l :: r.splitOn newline := by
  apply splitOnP_append_cons_of_forall_mem
  · intro b hb
    rw [beq_eq_false_iff_ne]
    rintro rfl
    exact hl hb
  · exact beq_self_eq_true newline

lemma terminated_cons {l r : List Byte} (hl : newline ∉ l) :
    terminated (l ++ newline :: r) = l :: terminated r := by
  have hne : r.splitOn newline ≠ [] := splitOnP_ne_nil _ _
  rw [terminated, terminated, splitOn_cons hl, dropLast_cons_of_ne_nil hne]

lemma terminated_of_notMem {l : List Byte} (hl : newline ∉ l) : terminated l = [] := by
  have hsplit : l.splitOn newline = [l] := by
    apply splitOnP_eq_singleton
    intro b hb
    rw [beq_eq_false_iff_ne]
    rintro rfl
    exact hl hb
  rw [terminated, hsplit]
  rfl

/-- What `grep` has to write for one line. -/
def one (pattern l : List Byte) : List (List Byte) := if match' pattern l then [l ++ [newline]] else []

lemma expected_cons {l r : List Byte} (hl : newline ∉ l) :
    expected pattern (l ++ newline :: r) = one pattern l ++ expected pattern r := by
  rw [expected, terminated_cons hl, filter_cons, one]
  split_ifs <;> rfl

lemma expected_of_notMem {l : List Byte} (hl : newline ∉ l) : expected pattern l = [] := by
  rw [expected, terminated_of_notMem hl]
  rfl

/-! ### Strings in the buffer -/

variable {xs l r : List Byte} {x : Scan} {buf' : Buffer}

/-- The string `xs` is at `buf+p`. -/
def Holds (buf : Buffer) : Nat → List Byte → Prop
  | p, [] => buf p = 0
  | p, b :: xs => buf p = b ∧ b ≠ 0 ∧ Holds buf (p + 1) xs

lemma holds_of (hbytes : ∀ j (h : j < xs.length), buf (p + j) = xs[j]) (hzero : buf (p + xs.length) = 0)
    (hnul : ∀ b ∈ xs, b ≠ 0) : Holds buf p xs := by
  induction xs generalizing p with
  | nil => exact hzero
  | cons b xs ih =>
    obtain ⟨hb, hnul⟩ := forall_mem_cons.mp hnul
    refine ⟨hbytes 0 (Nat.succ_pos _), hb, ih ?_ ?_ hnul⟩
    · intro j hj
      rw [Nat.add_assoc, Nat.add_comm 1]
      exact hbytes (j + 1) (Nat.succ_lt_succ hj)
    · rw [Nat.add_assoc, Nat.add_comm 1]
      exact hzero

namespace Holds

lemma get (h : Holds buf p xs) {j : Nat} (hj : j < xs.length) : buf (p + j) = xs[j] := by
  induction xs generalizing p j with
  | nil => exact absurd hj (Nat.not_lt_zero j)
  | cons b xs ih =>
    cases j with
    | zero => exact h.1
    | succ =>
      rw [getElem_cons_succ, ← ih h.2.2 (Nat.lt_of_succ_lt_succ hj), Nat.add_assoc, Nat.add_comm 1]

lemma nul_free (h : Holds buf p xs) : ∀ b ∈ xs, b ≠ 0 := by
  induction xs generalizing p with
  | nil => exact fun _ hb => by cases hb
  | cons b xs ih => exact forall_mem_cons.mpr ⟨h.2.1, ih h.2.2⟩

/-- Only the bytes from `p` on count. -/
lemma congr (h : Holds buf p xs) (heq : ∀ j, p ≤ j → buf' j = buf j) : Holds buf' p xs := by
  induction xs generalizing p with
  | nil => exact (heq p (Nat.le_refl p)).trans h
  | cons b xs ih =>
    exact ⟨(heq p (Nat.le_refl p)).trans h.1, h.2.1, ih h.2.2 fun j hj => heq j (Nat.le_of_succ_le hj)⟩

/-- The string after a part of it. -/
lemma append (h : Holds buf p (l ++ r)) : Holds buf (p + l.length) r := by
  induction l generalizing p with
  | nil => exact h
  | cons b l ih =>
    rw [length_cons, Nat.add_comm l.length, ← Nat.add_assoc]
    exact ih h.2.2

/-- A zero byte ends the string. -/
lemma cut (h : Holds buf p (l ++ r)) : Holds (update buf (p + l.length) 0) p l := by
  apply holds_of
  · intro j hj
    have hget := h.get (j := j) (by rw [length_append]; omega)
    rw [update_of_ne (by omega), hget, getElem_append_left hj]
  · exact update_self ..
  · exact fun b hb => h.nul_free b (mem_append_left r hb)

lemma strAt_eq (h : Holds buf p xs) (hn : xs.length < n) : strAt buf n p = xs := by
  induction xs generalizing p n with
  | nil =>
    obtain ⟨n, rfl⟩ := Nat.exists_eq_succ_of_ne_zero (Nat.ne_of_gt hn)
    rw [strAt, if_pos (show buf p = 0 from h)]
  | cons b xs ih =>
    obtain ⟨n, rfl⟩ := Nat.exists_eq_succ_of_ne_zero (Nat.ne_of_gt (Nat.zero_lt_of_lt hn))
    rw [strAt, if_neg (h.1.trans_ne h.2.1), h.1, ih h.2.2 (Nat.lt_of_succ_lt_succ hn)]

lemma strchr_none (h : Holds buf p xs) (hc : c ∉ xs) : strchr buf c n p = none := by
  induction n generalizing p xs with
  | zero => rfl
  | succ n ih =>
    cases xs with
    | nil => rw [strchr, if_pos (show buf p = 0 from h)]
    | cons =>
      obtain ⟨hb, hc⟩ := not_or.mp (mem_cons.not.mp hc)
      rw [strchr, if_neg (h.1.trans_ne h.2.1), if_neg (h.1.trans_ne (Ne.symm hb))]
      exact ih h.2.2 hc

lemma strchr_some (h : Holds buf p (l ++ c :: r)) (hc : c ∉ l) (hn : l.length < n) :
    strchr buf c n p = some (p + l.length) := by
  induction l generalizing p n with
  | nil =>
    obtain ⟨n, rfl⟩ := Nat.exists_eq_succ_of_ne_zero (Nat.ne_of_gt hn)
    rw [strchr, if_neg (h.1.trans_ne h.2.1), if_pos h.1]
    rfl
  | cons b l ih =>
    obtain ⟨n, rfl⟩ := Nat.exists_eq_succ_of_ne_zero (Nat.ne_of_gt (Nat.zero_lt_of_lt hn))
    obtain ⟨hb, hc⟩ := not_or.mp (mem_cons.not.mp hc)
    rw [strchr, if_neg (h.1.trans_ne h.2.1), if_neg (h.1.trans_ne (Ne.symm hb)),
      ih h.2.2 hc (Nat.lt_of_succ_lt_succ hn), length_cons, Nat.add_assoc, Nat.add_comm 1]

lemma bytesAt_eq (h : Holds buf p (l ++ r)) : bytesAt buf p l.length = l := by
  apply ext_getElem
  · simp [bytesAt]
  · intro j hj hj'
    simp only [bytesAt, getElem_map, getElem_range]
    rw [h.get (by rw [length_append]; omega), getElem_append_left hj']

end Holds

/-! ### The inner loop -/

/-- One line is written if it matches. -/
lemma line_spec (pattern : List Byte) (h : Holds x.buf x.p (l ++ newline :: r)) (hb : x.p + (l ++ newline :: r).length < BUFSIZE) :
    Holds (line pattern x (x.p + l.length)).buf (x.p + l.length + 1) r ∧
      (line pattern x (x.p + l.length)).p = x.p + l.length + 1 ∧
      (line pattern x (x.p + l.length)).out = x.out ++ one pattern l := by
  have happ : Holds x.buf x.p ((l ++ [newline]) ++ r) := by
    rw [append_assoc]
    exact h
  have hrest := happ.append
  have hbytes := happ.bytesAt_eq
  rw [length_append, length_singleton] at hbytes hrest
  rw [length_append] at hb
  have hline : strAt (update x.buf (x.p + l.length) 0) (BUFSIZE - x.p) x.p = l :=
    h.cut.strAt_eq (by omega)
  -- the newline is put back, so that the buffer is as it was
  have hback : update (update x.buf (x.p + l.length) 0) (x.p + l.length) newline = x.buf := by
    rw [update_idem, ← h.append.1, update_eq_self]
  have hlen : x.p + l.length + 1 - x.p = l.length + 1 := by omega
  simp only [line, hline, one, hback, hlen, hbytes]
  split_ifs with hmatch
  · exact ⟨hrest, rfl, rfl⟩
  · refine ⟨hrest.congr fun j hj => ?_, rfl, (append_nil _).symm⟩
    exact update_of_ne (by omega) ..

/-- The lines of the string are written, and what follows the last newline is left. -/
structure Scanned (pattern xs : List Byte) (x y : Scan) (tail : List Byte) : Prop where
  holds : Holds y.buf y.p tail
  no_newline : newline ∉ tail
  place : y.p + tail.length = x.p + xs.length
  out : y.out = x.out ++ expected pattern xs
  /-- more input continues the rest -/
  more : ∀ zs, expected pattern (xs ++ zs) = expected pattern xs ++ expected pattern (tail ++ zs)
  le : x.p ≤ y.p
  moved : newline ∈ xs → x.p < y.p

lemma scan_spec (pattern : List Byte) (h : Holds x.buf x.p xs) (hb : x.p + xs.length < BUFSIZE)
    (hn : xs.length < n) : ∃ tail, Scanned pattern xs x (scan pattern n x) tail := by
  induction n generalizing x xs with
  | zero => exact absurd hn (Nat.not_lt_zero _)
  | succ n ih =>
    by_cases hnl : newline ∈ xs
    · obtain ⟨l, r, rfl, hl⟩ := eq_append_cons_of_mem hnl
      obtain ⟨hholds, hp, hout⟩ := line_spec pattern h hb
      have hfind : strchr x.buf newline (BUFSIZE - x.p) x.p = some (x.p + l.length) :=
        h.strchr_some hl (by rw [length_append] at hb; omega)
      rw [length_append, length_cons] at hn hb
      rw [← hp] at hholds
      obtain ⟨tail, ht⟩ := ih hholds (by rw [hp]; omega) (by omega)
      have hstep : scan pattern (n + 1) x = scan pattern n (line pattern x (x.p + l.length)) := by
        rw [scan, hfind]
      have hle := ht.le
      rw [hp] at hle
      refine ⟨tail, ?_⟩
      rw [hstep]
      refine ⟨ht.holds, ht.no_newline, ?_, ?_, fun zs => ?_, by omega, fun _ => by omega⟩
      · rw [ht.place, hp, length_append, length_cons]
        omega
      · rw [ht.out, hout, expected_cons hl, append_assoc]
      · rw [append_assoc, cons_append, expected_cons hl, expected_cons hl, ht.more, append_assoc]
    · refine ⟨xs, ?_⟩
      rw [scan, h.strchr_none hnl]
      exact ⟨h, hnl, rfl, by rw [expected_of_notMem hnl, append_nil],
        fun zs => by rw [expected_of_notMem hnl, nil_append], Nat.le_refl _, fun hmem => absurd hmem hnl⟩

/-! ### The outer loop -/

variable {s : State} {carry : List Byte}

/-- The buffer starts with the beginning of a line. -/
structure Carried (s : State) (carry : List Byte) : Prop where
  length : s.m = carry.length
  bytes : ∀ j (h : j < carry.length), s.buf j = carry[j]
  nul_free : ∀ b ∈ carry, b ≠ 0
  no_newline : newline ∉ carry

/-- The string in the buffer after `read`. -/
lemma Carried.fill (h : Carried s carry) (hnul : ∀ b ∈ piece, b ≠ 0) :
    Holds (fill s.buf s.m piece) 0 (carry ++ piece) := by
  apply holds_of
  · intro j hj
    rw [Nat.zero_add, Grep.fill, h.length]
    rw [length_append] at hj
    by_cases hlt : j < carry.length
    · rw [if_pos hlt, getElem_append_left hlt, h.bytes j hlt]
    · rw [if_neg hlt, if_neg (by omega), getElem_append_right (by omega), getD_eq_getElem _ _ (by omega)]
  · rw [Nat.zero_add, Grep.fill, length_append, h.length, if_neg (by omega), if_pos rfl]
  · intro b hb
    rcases mem_append.mp hb with hb | hb
    · exact h.nul_free b hb
    · exact hnul b hb

/-- A piece without a newline is forgotten, together with what was kept. -/
lemma round_of_notMem (pattern : List Byte) (h : Carried s carry) (hnul : ∀ b ∈ piece, b ≠ 0) (hpiece : newline ∉ piece) :
    Carried (round pattern s piece) [] ∧ (round pattern s piece).out = s.out := by
  have hno : newline ∉ carry ++ piece := by
    rw [mem_append]
    exact not_or.mpr ⟨h.no_newline, hpiece⟩
  have hscan : scan pattern BUFSIZE ⟨fill s.buf s.m piece, 0, s.out⟩ = ⟨fill s.buf s.m piece, 0, s.out⟩ := by
    rw [show BUFSIZE = 1023 + 1 from rfl, scan, (h.fill hnul).strchr_none hno]
  rw [round, hscan]
  exact ⟨⟨rfl, (fun _ hj => by cases hj), (fun _ hb => by cases hb), (fun hb => by cases hb)⟩, rfl⟩

/-- The lines of a piece with a newline are written, and its rest is kept. -/
lemma round_of_mem (pattern : List Byte) (h : Carried s carry) (hnul : ∀ b ∈ piece, b ≠ 0) (hpiece : newline ∈ piece)
    (hfits : piece.length ≤ BUFSIZE - s.m - 1) :
    ∃ tail, Carried (round pattern s piece) tail ∧
      (round pattern s piece).out = s.out ++ expected pattern (carry ++ piece) ∧
      ∀ zs, expected pattern (carry ++ piece ++ zs) =
        expected pattern (carry ++ piece) ++ expected pattern (tail ++ zs) := by
  have hpos : 0 < piece.length := length_pos_of_mem hpiece
  have hlen : (carry ++ piece).length = s.m + piece.length := by rw [length_append, h.length]
  have hlt : s.m + piece.length < BUFSIZE := by omega
  obtain ⟨tail, ht⟩ := scan_spec (x := ⟨fill s.buf s.m piece, 0, s.out⟩) (n := BUFSIZE) pattern (h.fill hnul)
    (show 0 + (carry ++ piece).length < BUFSIZE by omega) (by rw [hlen]; exact hlt)
  have hmoved := ht.moved (mem_append_right carry hpiece)
  have hplace : (scan pattern BUFSIZE ⟨fill s.buf s.m piece, 0, s.out⟩).p + tail.length = 0 + _ := ht.place
  rw [hlen] at hplace
  generalize hy : scan pattern BUFSIZE ⟨fill s.buf s.m piece, 0, s.out⟩ = y at ht hmoved hplace
  have hround : round pattern s piece = ⟨move y.buf y.p tail.length, tail.length, y.out⟩ := by
    have hrest : s.m + piece.length - y.p = tail.length := by omega
    rw [round, hy]
    simp only [if_neg (Nat.ne_of_gt hmoved), hrest, if_pos (Nat.lt_of_lt_of_le hpos (Nat.le_add_left ..))]
  rw [hround]
  refine ⟨tail, ⟨rfl, ?_, ht.holds.nul_free, ht.no_newline⟩, ht.out, ht.more⟩
  intro j hj
  exact (if_pos hj).trans (ht.holds.get hj)

/-- The pieces that have a newline. -/
lemma rounds_of_mem {ps : List (List Byte)} (h : Carried s carry) (hnul : ∀ b ∈ ps.flatten, b ≠ 0)
    (hps : ∀ piece ∈ ps, newline ∈ piece) (hfits : Fits pattern s ps) :
    ∃ tail done, Carried (ps.foldl (round pattern) s) tail ∧
      (ps.foldl (round pattern) s).out = s.out ++ done ∧
      ∀ zs, expected pattern (carry ++ ps.flatten ++ zs) = done ++ expected pattern (tail ++ zs) := by
  induction ps generalizing s carry with
  | nil => exact ⟨carry, [], h, (append_nil _).symm, fun zs => by rw [flatten_nil, append_nil]; rfl⟩
  | cons piece ps ih =>
    obtain ⟨hpiece, hps⟩ := forall_mem_cons.mp hps
    rw [flatten_cons, forall_mem_append] at hnul
    obtain ⟨-, hlen, hfits⟩ := hfits
    obtain ⟨mid, hmid, hout, hmore⟩ := round_of_mem pattern h hnul.1 hpiece hlen
    obtain ⟨tail, done, htail, hout', hmore'⟩ := ih hmid hnul.2 hps hfits
    refine ⟨tail, expected pattern (carry ++ piece) ++ done, htail, ?_, fun zs => ?_⟩
    · rw [foldl_cons, hout', hout, append_assoc]
    · rw [flatten_cons, ← append_assoc carry, append_assoc (carry ++ piece), hmore,
        ← append_assoc mid, hmore', append_assoc]

/-- The pieces after the last newline. -/
lemma rounds_of_notMem {qs : List (List Byte)} (h : Carried s carry) (hnul : ∀ b ∈ qs.flatten, b ≠ 0)
    (hqs : ∀ piece ∈ qs, newline ∉ piece) : (qs.foldl (round pattern) s).out = s.out := by
  induction qs generalizing s carry with
  | nil => rfl
  | cons piece qs ih =>
    obtain ⟨hpiece, hqs⟩ := forall_mem_cons.mp hqs
    rw [flatten_cons, forall_mem_append] at hnul
    obtain ⟨hround, hout⟩ := round_of_notMem pattern h hnul.1 hpiece
    rw [foldl_cons, ih hround hnul.2 hqs, hout]

lemma Fits.left {ps qs : List (List Byte)} (h : Fits pattern s (ps ++ qs)) : Fits pattern s ps := by
  induction ps generalizing s with
  | nil => exact trivial
  | cons piece ps ih => exact ⟨h.1, h.2.1, ih h.2.2⟩

/-- The text of a character string. -/
def str (s : String) : List Byte := s.toList.map chr

end Xv6.Grep
