import Mathlib.Data.List.Induction
import Xv6.Driver.Console

/-!
# The line discipline of the console

What the keys make of the input, without the ring: a list of committed bytes and the line that is
still being edited. A second history are the bytes that the calls of `consoleread` have taken. The
ring always holds what is committed and not taken, and after it the line.
-/

namespace Xv6.Console

open Machine Function List

variable {s s' : State} {i : Input} {unread line u v : List Byte} {b c : Byte} {q : ProcId}
  {k n target : Nat} {dst : List Byte}

/-! ### Editing a line -/

/-- The line with one more byte: what is committed, and the line then. `used` bytes are committed
    and not yet read. -/
def append (used : Nat) (line : List Byte) (c : Byte) : List Byte × List Byte :=
  if c = chr '\n' ∨ c = C 'D' ∨ used + (line ++ [c]).length = INPUT_BUF then (line ++ [c], [])
  else ([], line ++ [c])

/-- What a key commits, and the line then. -/
def edit (used : Nat) (line : List Byte) (c : Byte) : List Byte × List Byte :=
  if c = C 'P' then ([], line)
  else if c = C 'U' then ([], [])
  else if c = C 'H' ∨ c = chr '\x7f' then ([], line.dropLast)
  else if c ≠ 0 ∧ used + line.length < INPUT_BUF then append used line (translate c)
  else ([], line)

/-! ### The ring -/

/-- The ring holds `unread`, and after it the line. -/
structure Input.Holds (i : Input) (unread line : List Byte) : Prop where
  w : i.w = i.r + BitVec.ofNat 32 unread.length
  e : i.e = i.w + BitVec.ofNat 32 line.length
  le : unread.length + line.length ≤ INPUT_BUF
  cells : Ring.contents i.buf i.r (unread.length + line.length) = unread ++ line

lemma input_buf_dvd : INPUT_BUF ∣ 2 ^ 32 := by decide

section Indices

variable (h : i.Holds unread line)
include h

lemma Input.Holds.lt : unread.length + line.length < 4294967296 :=
  Nat.lt_of_le_of_lt h.le (by decide)

lemma Input.Holds.sub_w : (i.w - i.r).toNat = unread.length := by
  have hlt := h.lt
  have hw := h.w
  bv_omega

lemma Input.Holds.sub_line : (i.e - i.w).toNat = line.length := by
  have hlt := h.lt
  have he := h.e
  bv_omega

lemma Input.Holds.e_eq : i.e = i.r + BitVec.ofNat 32 (unread.length + line.length) := by
  rw [h.e, h.w, BitVec.add_assoc, BitVec.ofNat_add]

lemma Input.Holds.sub_e : (i.e - i.r).toNat = unread.length + line.length := by
  have hlt := h.lt
  have he := h.e_eq
  bv_omega

lemma Input.Holds.full_iff :
    i.e = i.r + BitVec.ofNat 32 INPUT_BUF ↔ unread.length + line.length = INPUT_BUF := by
  rw [← h.sub_e]
  simp only [INPUT_BUF]
  constructor
  · intro he
    bv_omega
  · intro he
    bv_omega

lemma Input.Holds.room_iff :
    i.e - i.r < BitVec.ofNat 32 INPUT_BUF ↔ unread.length + line.length < INPUT_BUF := by
  rw [BitVec.lt_def, h.sub_e]
  rfl

lemma Input.Holds.line_nil_iff : i.e = i.w ↔ line = [] := by
  rw [← length_eq_zero_iff, ← h.sub_line]
  constructor
  · intro he
    rw [he, BitVec.sub_self]
    rfl
  · intro he
    bv_omega

lemma Input.Holds.empty_iff : i.r = i.w ↔ unread = [] := by
  rw [← length_eq_zero_iff, ← h.sub_w]
  constructor
  · intro he
    rw [he, BitVec.sub_self]
    rfl
  · intro he
    bv_omega

lemma Input.Holds.unread_eq : Ring.contents i.buf i.r unread.length = unread := by
  rw [← Ring.take_contents i.buf i.r unread.length line.length, h.cells, take_left]

lemma Input.Holds.line_eq : Ring.contents i.buf i.w line.length = line := by
  rw [h.w, ← Ring.drop_contents i.buf i.r unread.length line.length, h.cells, drop_left]

end Indices

lemma Input.Holds.put (h : i.Holds unread line) (hlt : unread.length + line.length < INPUT_BUF)
    (c : Byte) : (i.put c).Holds unread (line ++ [c]) where
  w := h.w
  e := by
    have he : (i.put c).e = i.w + BitVec.ofNat 32 line.length + 1 := by
      rw [← h.e]
      rfl
    rw [he, length_append, BitVec.ofNat_add, ← BitVec.add_assoc]
    rfl
  le := by
    rw [length_append, ← Nat.add_assoc]
    exact hlt
  cells := by
    rw [length_append, ← Nat.add_assoc, ← append_assoc, ← h.cells]
    exact Ring.contents_push input_buf_dvd hlt h.e_eq

lemma Input.Holds.commit (h : i.Holds unread line) :
    ({ i with w := i.e } : Input).Holds (unread ++ line) [] where
  w := by
    rw [length_append]
    exact h.e_eq
  e := (BitVec.add_zero _).symm
  le := by
    rw [length_append]
    exact h.le
  cells := by
    rw [length_append, append_nil]
    exact h.cells

/-- The last byte of the line is given up. -/
lemma Input.Holds.erase (h : i.Holds unread (line ++ [b])) :
    ({ i with e := i.e - 1 } : Input).Holds unread line ∧ i.buf (Ring.index INPUT_BUF (i.e - 1)) = b := by
  have he : i.e - 1 = i.w + BitVec.ofNat 32 line.length := by
    rw [h.e, length_append, BitVec.ofNat_add, ← BitVec.add_assoc]
    exact BitVec.add_sub_cancel _ _
  have hcell : i.r + BitVec.ofNat 32 (unread.length + line.length) = i.e - 1 := by
    rw [he, h.w, BitVec.add_assoc, BitVec.ofNat_add]
  have hle := h.le
  have hcells := h.cells
  rw [length_append, length_singleton, ← Nat.add_assoc] at hle hcells
  rw [Ring.contents_succ, hcell, ← append_assoc] at hcells
  obtain ⟨hkept, hlast⟩ := append_inj' hcells rfl
  exact ⟨⟨h.w, he, Nat.le_of_succ_le hle, hkept⟩, singleton_inj.mp hlast⟩

/-- The first byte is taken. -/
lemma Input.Holds.get (h : i.Holds (b :: unread) line) : i.get.1 = b ∧ i.get.2.Holds unread line := by
  have hw : i.w = i.r + 1 + BitVec.ofNat 32 unread.length := by
    rw [h.w, length_cons, Ring.add_ofNat_succ]
  have hle := h.le
  have hcells := h.cells
  rw [length_cons, Nat.succ_add] at hle hcells
  rw [Ring.contents, cons_append] at hcells
  obtain ⟨hb, hrest⟩ := cons_eq_cons.mp hcells
  exact ⟨hb, hw, h.e, Nat.le_of_succ_le hle, hrest⟩

/-! ### Keys -/

section

variable (h : i.Holds unread line)

include h

lemma Input.Holds.backspace : (backspace i).Holds unread line.dropLast := by
  rw [Console.backspace]
  rcases eq_nil_or_concat line with rfl | ⟨front, b, rfl⟩
  · rw [if_neg (not_not.mpr (h.line_nil_iff.mpr rfl))]
    exact h
  · rw [concat_eq_append] at h ⊢
    rw [if_pos (mt h.line_nil_iff.mp (by simp)), dropLast_concat]
    exact h.erase.1

/-- The kill-line key takes the whole line: a newline would have ended it. -/
lemma Input.Holds.killLoop (hnewline : chr '\n' ∉ line) : (killLoop line.length i).Holds unread [] := by
  induction line using List.reverseRecOn generalizing i with
  | nil => exact h
  | append_singleton line b ih =>
    obtain ⟨hless, hb⟩ := h.erase
    rw [mem_append, not_or] at hnewline
    have hgo : i.e ≠ i.w ∧ i.buf (Ring.index INPUT_BUF (i.e - 1)) ≠ chr '\n' := by
      refine ⟨mt h.line_nil_iff.mp (by simp), ?_⟩
      rw [hb]
      exact fun hnew => hnewline.2 (mem_singleton.mpr hnew.symm)
    rw [length_append, length_singleton, Console.killLoop, if_pos hgo]
    exact ih hless hnewline.1

lemma commits_iff : commits i c = true ↔
    c = chr '\n' ∨ c = C 'D' ∨ unread.length + line.length = INPUT_BUF := by
  simp only [commits, Bool.or_eq_true, decide_eq_true_eq, h.full_iff, or_assoc]

lemma Input.Holds.accept (hlt : unread.length + line.length < INPUT_BUF) (c : Byte) :
    (accept i c).1.Holds (unread ++ (append unread.length line (translate c)).1)
      (append unread.length line (translate c)).2 := by
  have hput := h.put hlt (translate c)
  simp only [Console.accept, append, commits_iff hput]
  split_ifs
  · exact hput.commit
  · rw [append_nil]
    exact hput

lemma Input.Holds.key (hnewline : chr '\n' ∉ line) (c : Byte) :
    (key i c).1.Holds (unread ++ (edit unread.length line c).1) (edit unread.length line c).2 := by
  simp only [Console.key, edit, h.room_iff]
  split_ifs with hP hU hH hroom
  · rwa [append_nil]
  · rw [h.sub_line, append_nil]
    exact h.killLoop hnewline
  · rw [append_nil]
    exact h.backspace
  · exact h.accept hroom.2 c
  · rwa [append_nil]

end

lemma newline_edit (hnewline : chr '\n' ∉ line) (c : Byte) : chr '\n' ∉ (edit k line c).2 := by
  rw [edit]
  split_ifs with hP hU hH hroom
  · exact hnewline
  · exact not_mem_nil
  · exact fun hmem => hnewline ((dropLast_sublist line).subset hmem)
  · rw [append]
    split_ifs with hend
    · exact not_mem_nil
    · rw [mem_append, mem_singleton, not_or]
      exact ⟨hnewline, fun hc => hend (.inl hc.symm)⟩
  · exact hnewline

/-! ### Reading -/

/-- What a critical section of `consoleread` takes from the ring, and what it ends with. -/
inductive ReadSpec (target : Nat) (dst : List Byte) : List Byte → ReadOut → Prop
  | bytes (taken : List Byte) (o : ReadOut) (hdst : o.dst = dst ++ taken) (heof : C 'D' ∉ taken)
      (hn : o.n + o.dst.length = target) (hdone : o.fin = .done → 0 < target → o.dst ≠ []) :
      ReadSpec target dst taken o
  | eof (o : ReadOut) (hdst : dst = []) (hout : o.dst = []) (hn : o.n = target)
      (hfin : o.fin = .done) : ReadSpec target dst [C 'D'] o

lemma ReadSpec.cons {o : ReadOut} {taken : List Byte} (h : ReadSpec target (dst ++ [b]) taken o)
    (hb : b ≠ C 'D') : ReadSpec target dst (b :: taken) o := by
  cases h with
  | bytes taken o hdst heof hn hdone =>
    refine .bytes _ _ (by rw [hdst, append_assoc, singleton_append]) ?_ hn hdone
    rw [mem_cons, not_or]
    exact ⟨hb.symm, heof⟩
  | eof o hdst => exact absurd hdst (by simp)

lemma readLoop_spec (killed : Bool) (h : i.Holds unread line) (hn : n + dst.length = target) :
    ∃ taken rest, unread = taken ++ rest ∧
      (readLoop killed target n dst i).input.Holds rest line ∧
      (readLoop killed target n dst i).input.r = i.r + BitVec.ofNat 32 taken.length ∧
      ReadSpec target dst taken (readLoop killed target n dst i) := by
  induction n generalizing dst i unread with
  | zero =>
    refine ⟨[], unread, rfl, h, (BitVec.add_zero _).symm, ?_⟩
    refine .bytes _ _ (append_nil _).symm not_mem_nil hn fun _ hpos hdst => ?_
    change dst = [] at hdst
    rw [hdst, length_nil] at hn
    omega
  | succ n ih =>
    cases unread with
    | nil =>
      rw [readLoop, if_pos (h.empty_iff.mpr rfl)]
      refine ⟨[], [], rfl, h, (BitVec.add_zero _).symm, ?_⟩
      refine .bytes _ _ (append_nil _).symm not_mem_nil hn fun hfin => ?_
      cases killed <;> cases hfin
    | cons b unread =>
      obtain ⟨hb, hget⟩ := h.get
      have hlen : n + (dst ++ [b]).length = target := by
        rw [length_append, length_singleton]
        omega
      rw [readLoop, if_neg (mt h.empty_iff.mp (cons_ne_nil _ _))]
      simp only [hb]
      split_ifs with heof hmore hnewline
      · -- the end of file is left for the next call
        have hback : ({ i.get.2 with r := i.get.2.r - 1 } : Input) = i := by
          have hr : i.get.2.r - 1 = i.r := BitVec.add_sub_cancel _ _
          rw [hr]
          rfl
        rw [hback]
        refine ⟨[], b :: unread, rfl, h, (BitVec.add_zero _).symm, ?_⟩
        refine .bytes _ _ (append_nil _).symm not_mem_nil hn fun _ _ hdst => ?_
        change dst = [] at hdst
        rw [hdst, length_nil] at hn
        omega
      · subst heof
        have hdst : dst.length = 0 := by omega
        rw [length_eq_zero_iff] at hdst
        refine ⟨[C 'D'], unread, rfl, hget, rfl, .eof _ hdst hdst ?_ rfl⟩
        rw [hdst] at hn
        exact hn
      · refine ⟨[b], unread, rfl, hget, rfl, ?_⟩
        refine .bytes _ _ rfl ?_ ?_ fun _ _ hdst => ?_
        · rw [mem_singleton]
          exact Ne.symm heof
        · exact hlen
        · exact absurd hdst (by simp)
      · obtain ⟨taken, rest, hunread, hrest, hr, hspec⟩ := ih hget hlen
        refine ⟨b :: taken, rest, by rw [hunread, cons_append], hrest, ?_, hspec.cons heof⟩
        rw [hr, length_cons, Ring.add_ofNat_succ]
        rfl

/-! ### Histories -/

/-- A process and the number of its call. -/
abbrev CallId := ProcId × Nat

/-- What a call has asked for, returned and stored. -/
structure Result where
  n : Nat
  ret : Int
  dst : List Byte
  deriving DecidableEq

structure Hist where
  /-- the committed input -/
  committed : List Byte
  /-- the line that is being edited -/
  line : List Byte
  /-- the bytes that calls of `consoleread` have taken, in order -/
  taken : List (CallId × Byte)
  /-- the number of calls by each process -/
  calls : ProcId → Nat
  results : CallId → Option Result

def Hist.key (h : Hist) (c : Byte) : Hist :=
  let x := edit (h.committed.length - h.taken.length) h.line c
  { h with committed := h.committed ++ x.1, line := x.2 }

def Hist.take (h : Hist) (q : ProcId) (bs : List Byte) : Hist :=
  { h with taken := h.taken ++ bs.map fun b => ((q, h.calls q), b) }

def Hist.finish (h : Hist) (q : ProcId) (target : Nat) : Pc → Hist
  | .user ret dst =>
    { h with results := Function.update h.results (q, h.calls q) (some ⟨target, ret, dst⟩) }
  | .read .. => h

/-- The bytes that `input.r` moves over in a step. -/
def moved (i j : Input) : List Byte := Ring.contents i.buf i.r (j.r - i.r).toNat

def next (s : State) (l : Label) (s' : State) (h : Hist) : Hist :=
  match l with
  | .intr cs => cs.foldl Hist.key h
  | .consoleread q _ => { h with calls := Function.update h.calls q (h.calls q + 1) }
  | .run q =>
    match s.pc q with
    | .read _ _ target _ => (h.take q (moved s.input s'.input)).finish q target (s'.pc q)
    | .user .. => h
  | .kill _ => h

def Hist.zero : Hist := ⟨[], [], [], fun _ => 0, fun _ => none⟩

def Hist.got (h : Hist) (k : CallId) : List Byte := (h.taken.filter fun x => x.1 = k).map Prod.snd

/-- What a call that asked for `n` bytes has taken, returned and stored: the end of file and nothing
    else, or bytes before it. -/
inductive Outcome (n : Nat) : List Byte → Int → List Byte → Prop
  | eof : Outcome n [C 'D'] 0 []
  | bytes (dst : List Byte) (heof : C 'D' ∉ dst) (hpos : 0 < n → dst ≠ []) :
      Outcome n dst dst.length dst
  | killed (dst : List Byte) (heof : C 'D' ∉ dst) : Outcome n dst (-1) dst

structure Exact (s : State) (h : Hist) : Prop where
  order : (s.input.w - s.input.r).toNat ≤ (s.input.e - s.input.r).toNat ∧
    (s.input.e - s.input.r).toNat ≤ INPUT_BUF
  stream : h.committed = h.taken.map Prod.snd ++
    Ring.contents s.input.buf s.input.r (s.input.w - s.input.r).toNat
  line : Ring.contents s.input.buf s.input.w (s.input.e - s.input.w).toNat = h.line
  pending : ∀ k, h.results k = none → C 'D' ∉ h.got k
  results : ∀ k x, h.results k = some x → Outcome x.n (h.got k) x.ret x.dst

/-! ### The invariant -/

variable {h : Hist} {bs cs : List Byte} {m : CallId}

structure RingInv (i : Input) (h : Hist) (unread : List Byte) : Prop where
  holds : i.Holds unread h.line
  stream : h.committed = h.taken.map Prod.snd ++ unread
  newline : chr '\n' ∉ h.line

/-- What is known of a call in progress. -/
def Pc.Inv (h : Hist) (q : ProcId) : Pc → Prop
  | .user .. => True
  | .read dst n target _ => h.got (q, h.calls q) = dst ∧ h.results (q, h.calls q) = none ∧
      n + dst.length = target

structure Inv (s : State) (h : Hist) : Prop where
  ring : ∃ unread, RingInv s.input h unread
  call : ∀ q, (s.pc q).Inv h q
  later : ∀ q n, h.calls q < n → h.got (q, n) = [] ∧ h.results (q, n) = none
  pending : ∀ k, h.results k = none → C 'D' ∉ h.got k
  results : ∀ k x, h.results k = some x → Outcome x.n (h.got k) x.ret x.dst

lemma RingInv.used (hinv : RingInv i h unread) : h.committed.length - h.taken.length = unread.length := by
  rw [hinv.stream, length_append, length_map, Nat.add_sub_cancel_left]

lemma RingInv.key (hinv : RingInv i h unread) (c : Byte) :
    ∃ unread, RingInv (key i c).1 (h.key c) unread := by
  refine ⟨unread ++ (edit unread.length h.line c).1, ?_, ?_, ?_⟩
  · simp only [Hist.key, hinv.used]
    exact hinv.holds.key hinv.newline c
  · simp only [Hist.key, hinv.used]
    rw [← append_assoc, ← hinv.stream]
  · exact newline_edit hinv.newline c

lemma RingInv.keys (hinv : RingInv i h unread) (cs : List Byte) :
    ∃ unread, RingInv (keyLoop i cs).1 (cs.foldl Hist.key h) unread := by
  induction cs generalizing i h unread with
  | nil => exact ⟨unread, hinv⟩
  | cons c cs ih =>
    obtain ⟨unread, hkey⟩ := hinv.key c
    exact ih hkey

/-- Two histories with the same calls. -/
structure SameCalls (h h' : Hist) : Prop where
  taken : h'.taken = h.taken
  calls : h'.calls = h.calls
  results : h'.results = h.results

lemma sameCalls_keys (h : Hist) (cs : List Byte) : SameCalls h (cs.foldl Hist.key h) := by
  induction cs generalizing h with
  | nil => exact ⟨rfl, rfl, rfl⟩
  | cons c cs ih => exact ⟨(ih (h.key c)).taken, (ih (h.key c)).calls, (ih (h.key c)).results⟩

lemma SameCalls.got {h' : Hist} (hsame : SameCalls h h') (k : CallId) : h'.got k = h.got k := by
  rw [Hist.got, Hist.got, hsame.taken]

lemma Pc.Inv.wakeup {pc : Pc} (hpc : pc.Inv h q) : pc.wakeup.Inv h q := by
  cases pc with
  | user => trivial
  | read => exact hpc

lemma Pc.Inv.congr {h' : Hist} {pc : Pc} (hpc : pc.Inv h q) (hcalls : h'.calls q = h.calls q)
    (hgot : h'.got (q, h.calls q) = h.got (q, h.calls q))
    (hresults : h'.results (q, h.calls q) = h.results (q, h.calls q)) : pc.Inv h' q := by
  cases pc with
  | user => trivial
  | read =>
    simp only [Pc.Inv, hcalls, hgot, hresults]
    exact hpc

/-- Keys leave the calls alone. -/
lemma Inv.sameCalls {h' : Hist} (hinv : Inv s h) (hsame : SameCalls h h')
    (hring : ∃ unread, RingInv s'.input h' unread) (hpc : ∀ q, (s'.pc q).Inv h q) : Inv s' h' where
  ring := hring
  call := fun q => (hpc q).congr (by rw [hsame.calls]) (hsame.got _) (by rw [hsame.results])
  later := by
    intro q n hn
    rw [hsame.calls] at hn
    rw [hsame.got, hsame.results]
    exact hinv.later q n hn
  pending := by
    intro k hk
    rw [hsame.results] at hk
    rw [hsame.got]
    exact hinv.pending k hk
  results := by
    intro k x hk
    rw [hsame.results] at hk
    rw [hsame.got]
    exact hinv.results k x hk

lemma Inv.intr (hinv : Inv s h) (cs : List Byte) : Inv (consoleintr s cs) (cs.foldl Hist.key h) := by
  obtain ⟨unread, hring⟩ := hinv.ring
  refine hinv.sameCalls (sameCalls_keys h cs) ?_ fun q => ?_
  · have hinput : (consoleintr s cs).input = (keyLoop s.input cs).1 := by
      rw [consoleintr]
      split_ifs <;> rfl
    rw [hinput]
    exact hring.keys cs
  · rw [consoleintr]
    split_ifs
    · exact (hinv.call q).wakeup
    · exact hinv.call q

lemma Inv.kill (hinv : Inv s h) (q : ProcId) : Inv { s with
    killed := update s.killed q true,
    pc := update s.pc q (s.pc q).wakeup } h := by
  refine hinv.sameCalls ⟨rfl, rfl, rfl⟩ hinv.ring fun r => ?_
  by_cases hr : r = q
  · subst hr
    simp only [update_self]
    exact (hinv.call r).wakeup
  · simp only [update_of_ne hr]
    exact hinv.call r

lemma pc_setPc_self (s : State) (q : ProcId) (x : Pc) : (setPc s q x).pc q = x :=
  update_self ..

lemma pc_setPc_of_ne {r : ProcId} (s : State) (x : Pc) (hr : r ≠ q) : (setPc s q x).pc r = s.pc r :=
  update_of_ne hr ..

lemma Inv.start (hinv : Inv s h) (q : ProcId) (n : Nat) :
    Inv (setPc s q (.read [] n n false)) { h with calls := update h.calls q (h.calls q + 1) } where
  ring := by
    obtain ⟨unread, hring⟩ := hinv.ring
    exact ⟨unread, hring.holds, hring.stream, hring.newline⟩
  call := by
    intro r
    by_cases hr : r = q
    · subst hr
      obtain ⟨hgot, hresults⟩ := hinv.later r (h.calls r + 1) (Nat.lt_succ_self _)
      rw [pc_setPc_self]
      simp only [Pc.Inv, update_self]
      exact ⟨hgot, hresults, Nat.add_zero n⟩
    · rw [pc_setPc_of_ne _ _ hr]
      exact (hinv.call r).congr (update_of_ne hr ..) rfl rfl
  later := by
    intro r m hm
    refine hinv.later r m (lt_of_le_of_lt ?_ hm)
    by_cases hr : r = q
    · subst hr
      simp only [update_self]
      exact Nat.le_succ _
    · simp only [update_of_ne hr, le_refl]
  pending := hinv.pending
  results := hinv.results

/-! ### A critical section of `consoleread` -/

lemma got_take_self (h : Hist) (q : ProcId) (bs : List Byte) :
    (h.take q bs).got (q, h.calls q) = h.got (q, h.calls q) ++ bs := by
  have hall : (bs.map fun b => ((q, h.calls q), b)).filter (fun x => x.1 = (q, h.calls q)) =
      bs.map fun b => ((q, h.calls q), b) := by
    rw [filter_eq_self]
    intro x hx
    obtain ⟨b, _, rfl⟩ := mem_map.mp hx
    exact decide_eq_true rfl
  simp only [Hist.got, Hist.take, filter_append, hall, map_append, map_map]
  exact congrArg _ (map_id bs)

lemma got_take_of_ne (h : Hist) (bs : List Byte) (hm : m ≠ (q, h.calls q)) :
    (h.take q bs).got m = h.got m := by
  have hnone : (bs.map fun b => ((q, h.calls q), b)).filter (fun x => x.1 = m) = [] := by
    rw [filter_eq_nil_iff]
    intro x hx
    obtain ⟨b, _, rfl⟩ := mem_map.mp hx
    exact fun hq => hm (of_decide_eq_true hq).symm
  simp only [Hist.got, Hist.take, filter_append, hnone, append_nil]

/-- Where a call that has asked for `target` bytes and taken `got` may be. -/
def Pc.After (target : Nat) (got : List Byte) : Pc → Prop
  | .user ret dst => Outcome target got ret dst
  | .read dst n target' _ => got = dst ∧ C 'D' ∉ got ∧ n + dst.length = target'

lemma ReadSpec.after {o : ReadOut} {taken : List Byte} (h : ReadSpec target dst taken o)
    (hdst : C 'D' ∉ dst) : (o.pc target).After target (dst ++ taken) := by
  cases h with
  | bytes taken o hout heof hn hdone =>
    have hmem : C 'D' ∉ dst ++ taken := by
      rw [mem_append, not_or]
      exact ⟨hdst, heof⟩
    rw [← hout] at hmem ⊢
    have hret : (target - o.n : Int) = o.dst.length := by omega
    cases hfin : o.fin with
    | done =>
      simp only [ReadOut.pc, hfin, Pc.After, hret]
      exact .bytes _ hmem (hdone hfin)
    | killed =>
      simp only [ReadOut.pc, hfin]
      exact .killed _ hmem
    | sleep =>
      simp only [ReadOut.pc, hfin]
      exact ⟨rfl, hmem, hn⟩
  | eof o hnil hout hn hfin =>
    simp only [ReadOut.pc, hfin, Pc.After, hnil, hout, hn, nil_append, sub_self]
    exact .eof

section Finish

variable (h : Hist) (q : ProcId) (target : Nat) (x : Pc) {taken rest : List Byte}

@[simp] lemma finish_committed : (h.finish q target x).committed = h.committed := by cases x <;> rfl

@[simp] lemma finish_line : (h.finish q target x).line = h.line := by cases x <;> rfl

@[simp] lemma finish_taken : (h.finish q target x).taken = h.taken := by cases x <;> rfl

@[simp] lemma finish_calls : (h.finish q target x).calls = h.calls := by cases x <;> rfl

@[simp] lemma finish_got (m : CallId) : (h.finish q target x).got m = h.got m := by cases x <;> rfl

lemma results_of_ne {m : CallId} (bs : List Byte) (hm : m ≠ (q, h.calls q)) :
    ((h.take q bs).finish q target x).results m = h.results m := by
  cases x with
  | user => exact update_of_ne hm ..
  | read => rfl

lemma results_user (bs : List Byte) (ret : Int) (dst : List Byte) :
    ((h.take q bs).finish q target (.user ret dst)).results (q, h.calls q) = some ⟨target, ret, dst⟩ :=
  update_self ..

end Finish

/-- A critical section in which the call of `q` takes `bs`. -/
lemma Inv.took {x : Pc} {input : Input} (hinv : Inv s h)
    (hring : ∃ unread, RingInv input (h.take q bs) unread) (hnone : h.results (q, h.calls q) = none)
    (hafter : x.After target (h.got (q, h.calls q) ++ bs)) :
    Inv (setPc { s with input := input } q x) ((h.take q bs).finish q target x) where
  ring := by
    obtain ⟨unread, hring⟩ := hring
    refine ⟨unread, ?_, ?_, ?_⟩
    · rw [finish_line]
      exact hring.holds
    · rw [finish_committed, finish_taken]
      exact hring.stream
    · rw [finish_line]
      exact hring.newline
  call := by
    intro r
    by_cases hr : r = q
    · subst hr
      rw [pc_setPc_self]
      cases x with
      | user => trivial
      | read =>
        exact ⟨(got_take_self h r bs).trans hafter.1, hnone, hafter.2.2⟩
    · rw [pc_setPc_of_ne _ _ hr]
      have hne : (r, h.calls r) ≠ (q, h.calls q) := fun heq => hr (congrArg Prod.fst heq)
      refine (hinv.call r).congr (by rw [finish_calls]; rfl) ?_ (results_of_ne _ _ _ _ _ hne)
      rw [finish_got, got_take_of_ne h bs hne]
  later := by
    intro r m hm
    rw [finish_calls] at hm
    have hne : (r, m) ≠ (q, h.calls q) := by
      rintro ⟨⟩
      exact absurd hm (Nat.lt_irrefl _)
    rw [finish_got, got_take_of_ne h bs hne, results_of_ne _ _ _ _ _ hne]
    exact hinv.later r m hm
  pending := by
    intro k hk
    by_cases hne : k = (q, h.calls q)
    · subst hne
      rw [finish_got, got_take_self]
      cases x with
      | user => cases (results_user ..).symm.trans hk
      | read => exact hafter.2.1
    · rw [results_of_ne _ _ _ _ _ hne] at hk
      rw [finish_got, got_take_of_ne h bs hne]
      exact hinv.pending k hk
  results := by
    intro k y hk
    by_cases hne : k = (q, h.calls q)
    · subst hne
      rw [finish_got, got_take_self]
      cases x with
      | user =>
        cases (results_user ..).symm.trans hk
        exact hafter
      | read => cases hnone.symm.trans hk
    · rw [results_of_ne _ _ _ _ _ hne] at hk
      rw [finish_got, got_take_of_ne h bs hne]
      exact hinv.results k y hk

lemma moved_eq {j : Input} (hi : i.Holds (taken ++ rest) line)
    (hr : j.r = i.r + BitVec.ofNat 32 taken.length) : moved i j = taken := by
  have hlen : (j.r - i.r).toNat = taken.length := by
    have hlt := hi.lt
    rw [length_append] at hlt
    bv_omega
  have hall := hi.unread_eq
  rw [length_append] at hall
  rw [moved, hlen, ← Ring.take_contents i.buf i.r taken.length rest.length, hall, take_left]

lemma RingInv.took {j : Input} (hinv : RingInv i h (taken ++ rest)) (hj : j.Holds rest h.line)
    (q : ProcId) : RingInv j (h.take q taken) rest where
  holds := hj
  stream := by
    simp only [Hist.take, map_append, map_map, append_assoc]
    rw [hinv.stream]
    exact congrArg _ (congrArg (· ++ rest) (map_id taken).symm)
  newline := hinv.newline

lemma Inv.run (hinv : Inv s h) (hpc : s.pc q = .read dst n target false) :
    Inv (consoleread s q dst n target)
      ((h.take q (moved s.input (consoleread s q dst n target).input)).finish q target
        ((consoleread s q dst n target).pc q)) := by
  obtain ⟨unread, hring⟩ := hinv.ring
  have hcall := hinv.call q
  rw [hpc] at hcall
  obtain ⟨hgot, hnone, hn⟩ := hcall
  obtain ⟨taken, rest, rfl, hrest, hr, hspec⟩ :=
    readLoop_spec (s.killed q) hring.holds hn
  have hmoved : moved s.input (consoleread s q dst n target).input = taken :=
    moved_eq hring.holds hr
  rw [hmoved, consoleread, pc_setPc_self]
  refine hinv.took ⟨rest, hring.took hrest q⟩ hnone ?_
  rw [hgot]
  exact hspec.after (hgot ▸ hinv.pending _ hnone)

lemma Inv.step {l : Label} (hinv : Inv s h) (hstep : step s l = some s') : Inv s' (next s l s' h) := by
  cases l with
  | intr cs =>
    cases hstep
    exact hinv.intr cs
  | consoleread q n =>
    simp only [Console.step] at hstep
    split at hstep
    · cases hstep
      exact hinv.start q n.toNat
    · cases hstep
  | run =>
    simp only [Console.step] at hstep
    split at hstep
    · rename_i hpc
      cases hstep
      simp only [next, hpc]
      exact hinv.run hpc
    · cases hstep
  | kill q =>
    cases hstep
    exact hinv.kill q

lemma inv_boot : Inv boot .zero where
  ring := ⟨[], ⟨rfl, rfl, by decide, rfl⟩, rfl, not_mem_nil⟩
  call := fun _ => trivial
  later := fun _ _ _ => ⟨rfl, rfl⟩
  pending := fun _ _ => not_mem_nil
  results := fun _ _ hx => by cases hx

lemma Inv.exact (hinv : Inv s h) : Exact s h := by
  obtain ⟨unread, hring⟩ := hinv.ring
  refine ⟨?_, ?_, ?_, hinv.pending, hinv.results⟩
  · rw [hring.holds.sub_w, hring.holds.sub_e]
    exact ⟨Nat.le_add_right _ _, hring.holds.le⟩
  · rw [hring.holds.sub_w, hring.holds.unread_eq]
    exact hring.stream
  · rw [hring.holds.sub_line]
    exact hring.holds.line_eq

/-- In every run of `consoleintr` and `consoleread` the indices are in order, and what the readers
    have taken is, in order, what the keys have committed, up to what is still in the ring. A call
    that takes the end of file takes nothing else and has returned 0. -/
theorem exact_of_reach {x : State × Hist}
    (hrun : Reach (withHistory step next) Always (boot, .zero) x) : Exact x.1 x.2 := by
  have hinv : Inv x.1 x.2 := by
    refine hrun.invariant (I := fun y => Inv y.1 y.2) inv_boot ?_
    rintro y l z hinv - hstep
    obtain ⟨hst, hnext⟩ := withHistory_eq_some.mp hstep
    rw [hnext]
    exact hinv.step hst
  exact hinv.exact

/-- A line with a correction in it, one that ends with the end of file, and three calls. -/
theorem exact_after_three_reads : ∃ x : State × Hist,
    Reach (withHistory step next) Always (boot, .zero) x ∧
      (x.2.committed = [chr 'a', chr 'c', chr '\n', chr 'd', C 'D'] ∧
        x.2.results (0, 1) = some ⟨10, 3, [chr 'a', chr 'c', chr '\n']⟩ ∧
        x.2.results (0, 2) = some ⟨10, 1, [chr 'd']⟩ ∧ x.2.results (0, 3) = some ⟨10, 0, []⟩) ∧
      Exact x.1 x.2 := by
  have hexec : ∃ x : State × Hist, Reach (withHistory step next) Always (boot, .zero) x ∧
      (x.2.committed = [chr 'a', chr 'c', chr '\n', chr 'd', C 'D'] ∧
        x.2.results (0, 1) = some ⟨10, 3, [chr 'a', chr 'c', chr '\n']⟩ ∧
        x.2.results (0, 2) = some ⟨10, 1, [chr 'd']⟩ ∧ x.2.results (0, 3) = some ⟨10, 0, []⟩) :=
    Reach.exists_of_exec
      [.consoleread 0 10, .run 0, .intr [chr 'a', chr 'b'], .intr [C 'H', chr 'c', chr '\r'],
        .run 0, .intr [chr 'd', C 'D'], .consoleread 0 10, .run 0, .consoleread 0 10, .run 0]
      (by decide +kernel)
  obtain ⟨x, hrun, hx⟩ := hexec
  exact ⟨x, hrun, hx, exact_of_reach hrun⟩

end Xv6.Console
