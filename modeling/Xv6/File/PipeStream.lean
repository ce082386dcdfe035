import Xv6.File.Pipe
import Xv6.Machine.Exclusive

/-!
# A pipe is a stream of bytes

What the calls have written and read, as a history variable: `stored` are the bytes in the order in
which they went into the pipe, each with the number of the call of `pipewrite` that it belongs to, and
`returned` are the bytes that `piperead` has given out. The second is always the beginning of the first,
and what is missing is in the pipe.
-/

namespace Xv6.Pipes

open Machine Function List

variable {s s' : State} {p p' : Pipe} {q q' : ProcId} {addr : Nat → Byte} {n : Int} {i j k : Nat}
  {l : Label}

/-! ### The contents of a pipe -/

/-- `p->nwrite - p->nread`. -/
def Pipe.len (p : Pipe) : Nat := (p.nwrite - p.nread).toNat

/-- The bytes in the pipe. -/
def Pipe.contents (p : Pipe) : List Byte := Ring.contents p.data p.nread p.len

lemma pipesize_dvd : PIPESIZE ∣ 2 ^ 32 := by decide

lemma Pipe.nwrite_eq (p : Pipe) : p.nwrite = p.nread + BitVec.ofNat 32 p.len := by
  rw [Pipe.len, BitVec.ofNat_toNat, BitVec.setWidth_eq, BitVec.add_comm, BitVec.sub_add_cancel]

lemma Pipe.empty_iff (p : Pipe) : p.empty = true ↔ p.len = 0 := by
  rw [Pipe.empty, decide_eq_true_eq, Pipe.len]
  constructor
  · intro h
    rw [h, BitVec.sub_self]
    rfl
  · intro h
    have hsub : p.nwrite - p.nread = 0#32 := BitVec.eq_of_toNat_eq h
    rw [← BitVec.sub_add_cancel p.nwrite p.nread, hsub, BitVec.zero_add]

lemma Pipe.full_iff (p : Pipe) : p.full = true ↔ p.len = PIPESIZE := by
  rw [Pipe.full, decide_eq_true_eq]
  constructor
  · intro h
    rw [Pipe.len, h, BitVec.add_comm, BitVec.add_sub_cancel]
    rfl
  · intro h
    rw [p.nwrite_eq, h]

lemma Pipe.len_put (h : p.len < PIPESIZE) (b : Byte) : (p.put b).len = p.len + 1 := by
  simp only [Pipe.len, Pipe.put, PIPESIZE] at h ⊢
  bv_omega

lemma Pipe.contents_put (h : p.len < PIPESIZE) (b : Byte) : (p.put b).contents = p.contents ++ [b] := by
  rw [Pipe.contents, Pipe.len_put h]
  exact Ring.contents_push pipesize_dvd h p.nwrite_eq

lemma Pipe.len_get (h : p.len = k + 1) : p.get.2.len = k := by
  simp only [Pipe.len, Pipe.get] at h ⊢
  bv_omega

lemma Pipe.contents_get (h : p.len = k + 1) : p.contents = p.get.1 :: p.get.2.contents := by
  rw [Pipe.contents, h, Pipe.contents, Pipe.len_get h]
  rfl

/-! ### The loops -/

/-- The bytes `addr[i]`, ..., `addr[j - 1]`. -/
def bytesBetween (addr : Nat → Byte) (i j : Nat) : List Byte := (List.range' i (j - i)).map addr

/-- What the loop of `pipewrite` does to the pipe. -/
structure WriteSpec (p : Pipe) (addr : Nat → Byte) (i k : Nat) (r : Nat × Pipe × WriteEnd) : Prop where
  le : i ≤ r.1
  stop : r.1 ≤ i + k
  done : r.2.2 = .done → r.1 = i + k
  len : r.2.1.len ≤ PIPESIZE
  contents : r.2.1.contents = p.contents ++ bytesBetween addr i r.1

lemma bytesBetween_self (addr : Nat → Byte) (i : Nat) : bytesBetween addr i i = [] := by
  rw [bytesBetween, Nat.sub_self]
  rfl

lemma bytesBetween_cons (h : i + 1 ≤ j) :
    bytesBetween addr i j = addr i :: bytesBetween addr (i + 1) j := by
  obtain ⟨d, rfl⟩ := Nat.exists_eq_add_of_le h
  have hd : i + 1 + d - i = d + 1 := by omega
  have hd' : i + 1 + d - (i + 1) = d := by omega
  rw [bytesBetween, bytesBetween, hd, hd', List.range'_succ, map_cons]

lemma writeLoop_spec (killed : Bool) (addr : Nat → Byte) (k i : Nat) (p : Pipe)
    (hp : p.len ≤ PIPESIZE) : WriteSpec p addr i k (writeLoop killed addr k i p) := by
  induction k generalizing i p with
  | zero =>
    refine ⟨Nat.le_refl i, Nat.le_refl i, fun _ => rfl, hp, ?_⟩
    rw [writeLoop, bytesBetween_self, append_nil]
  | succ k ih =>
    rw [writeLoop]
    by_cases hfull : p.full = true
    · rw [if_pos hfull]
      refine ⟨Nat.le_refl i, Nat.le_add_right i _, ?_, hp, ?_⟩
      · split_ifs <;> intro h <;> cases h
      · rw [bytesBetween_self, append_nil]
    · rw [if_neg hfull]
      have hlt : p.len < PIPESIZE := by
        refine lt_of_le_of_ne hp fun heq => hfull ?_
        exact p.full_iff.mpr heq
      have hput := ih (i + 1) (p.put (addr i)) (by rw [Pipe.len_put hlt]; exact hlt)
      refine ⟨Nat.le_of_succ_le hput.le, ?_, fun hdone => ?_, hput.len, ?_⟩
      · exact hput.stop.trans (by omega)
      · rw [hput.done hdone]
        omega
      · rw [hput.contents, Pipe.contents_put hlt, bytesBetween_cons hput.le, append_assoc, singleton_append]

/-- What the loop of `piperead` returns it has taken from the front of the pipe. -/
lemma readLoop_spec (k : Nat) (p : Pipe) :
    (readLoop k p).1 ++ (readLoop k p).2.contents = p.contents ∧ (readLoop k p).2.len ≤ p.len := by
  induction k generalizing p with
  | zero => exact ⟨rfl, Nat.le_refl _⟩
  | succ k ih =>
    rw [readLoop]
    split_ifs with hempty
    · exact ⟨rfl, Nat.le_refl _⟩
    · obtain ⟨m, hm⟩ := Nat.exists_eq_succ_of_ne_zero fun h => hempty (p.empty_iff.mpr h)
      obtain ⟨hcontents, hlen⟩ := ih p.get.2
      constructor
      · rw [cons_append, hcontents, Pipe.contents_get hm]
      · rw [Pipe.len_get hm] at hlen
        exact hlen.trans (by omega)

/-! ### History -/

structure Trace where
  /-- the bytes stored, each with the number of the call -/
  stored : List (Nat × Byte)
  /-- the bytes that calls of `piperead` have returned -/
  returned : List Byte
  /-- how many calls of `pipewrite` there have been -/
  calls : Nat
  /-- the number of the last call of a process -/
  ticket : ProcId → Nat
  /-- the bytes given to a call, and what it has returned -/
  given : Nat → List Byte
  ret : Nat → Option Int

/-- The bytes stored by call `k`. -/
def Trace.storedOf (h : Trace) (k : Nat) : List Byte :=
  (h.stored.filter fun x => x.1 = k).map Prod.snd

def Trace.zero : Trace := ⟨[], [], 0, fun _ => 0, fun _ => [], fun _ => none⟩

def nextTrace (s : State) (l : Label) (_ : State) (h : Trace) : Trace :=
  match l with
  | .pipewrite q addr n =>
    { h with
      calls := h.calls + 1,
      ticket := Function.update h.ticket q h.calls,
      given := Function.update h.given h.calls (bytesBetween addr 0 n.toNat) }
  | .run q =>
    match s.pc q with
    | .write addr n i _ =>
      let r := writeResult s q addr n i
      let stored := h.stored ++ (bytesBetween addr i r.1).map (Prod.mk (h.ticket q))
      match r.2.2 with
      | .done => { h with stored := stored, ret := Function.update h.ret (h.ticket q) (some n) }
      | .broken => { h with stored := stored, ret := Function.update h.ret (h.ticket q) (some (-1)) }
      | .sleep => { h with stored := stored }
    | .read n _ =>
      if readWaits s.pipe then h
      else { h with returned := h.returned ++ (readLoop n.toNat s.pipe).1 }
    | .user _ => h
  | _ => h

/-! ### The writers -/

/-- A call of `pipewrite` in progress, with `i` bytes stored. -/
structure Writing where
  addr : Nat → Byte
  n : Int
  i : Nat

def Pc.writing : Pc → Option Writing
  | .write addr n i _ => some ⟨addr, n, i⟩
  | _ => none

@[simp] lemma writing_wakeup (chan : Chan) (pc : Pc) : (pc.wakeup chan).writing = pc.writing := by
  cases chan <;> cases pc <;> rfl

variable {w : ProcId → Option Writing} {h : Trace} {bs : List Byte} {x : Writing}

/-- Call `k` is in progress, and it is `x`. -/
structure Trace.Open (h : Trace) (k : Nat) (x : Writing) : Prop where
  lt : k < h.calls
  given : h.given k = bytesBetween x.addr 0 x.n.toNat
  le : x.i ≤ x.n.toNat
  stored : h.storedOf k = bytesBetween x.addr 0 x.i
  ret : h.ret k = none

/-- The calls of `pipewrite` have stored their bytes in order. -/
structure OrderInv (w : ProcId → Option Writing) (h : Trace) : Prop where
  current : ∀ q x, w q = some x → h.Open (h.ticket q) x
  once : Exclusive fun q => (w q).map fun _ => h.ticket q
  fresh : ∀ k, h.calls ≤ k → h.storedOf k = [] ∧ h.ret k = none
  order : ∀ k, h.storedOf k <+: h.given k
  done : ∀ k r, h.ret k = some r → 0 ≤ r → h.storedOf k = h.given k

lemma storedOf_append (h : Trace) (bs : List Byte) (j k : Nat) :
    Trace.storedOf { h with stored := h.stored ++ bs.map (Prod.mk j) } k =
      h.storedOf k ++ if k = j then bs else [] := by
  rw [Trace.storedOf, filter_append, map_append, Trace.storedOf]
  congr 1
  induction bs with
  | nil => simp
  | cons b bs ih =>
    rw [map_cons, filter_cons]
    by_cases hk : k = j
    · rw [if_pos hk] at ih ⊢
      rw [if_pos (by simp [hk]), map_cons, ih]
    · rw [if_neg hk] at ih ⊢
      rw [if_neg (by simp [Ne.symm hk]), ih]

lemma bytesBetween_append (hij : i ≤ j) (hjk : j ≤ k) :
    bytesBetween addr i j ++ bytesBetween addr j k = bytesBetween addr i k := by
  obtain ⟨d, rfl⟩ := Nat.exists_eq_add_of_le hij
  obtain ⟨e, rfl⟩ := Nat.exists_eq_add_of_le hjk
  have hd : i + d - i = d := by omega
  have he : i + d + e - (i + d) = e := by omega
  have hde : i + d + e - i = d + e := by omega
  rw [bytesBetween, bytesBetween, bytesBetween, hd, he, hde, ← map_append, List.range'_append_1]

lemma bytesBetween_prefix (hij : i ≤ j) (hjk : j ≤ k) : bytesBetween addr i j <+: bytesBetween addr i k :=
  ⟨_, bytesBetween_append hij hjk⟩

section

variable (hinv : OrderInv w h)

include hinv

lemma OrderInv.ticket_ne (hq : w q = some x) {y : Writing}
    (hr : w q' = some y) (hne : q' ≠ q) : h.ticket q' ≠ h.ticket q := by
  intro heq
  refine hne (hinv.once q' q (h.ticket q) ?_ ?_)
  · simp [hr, heq]
  · simp [hq]

/-- A process starts a call. -/
lemma OrderInv.start (hq : w q = none) (addr : Nat → Byte) (n : Int) :
    OrderInv (update w q (some ⟨addr, n, 0⟩))
      { h with
        calls := h.calls + 1,
        ticket := update h.ticket q h.calls,
        given := update h.given h.calls (bytesBetween addr 0 n.toNat) } where
  current := by
    intro r x hr
    by_cases hrq : r = q
    · subst hrq
      rw [update_self] at hr
      cases hr
      obtain ⟨hstored, hret⟩ := hinv.fresh h.calls (Nat.le_refl _)
      dsimp only
      rw [update_self]
      exact ⟨Nat.lt_succ_self _, update_self .., Nat.zero_le _,
        hstored.trans (bytesBetween_self addr 0).symm, hret⟩
    · rw [update_of_ne hrq] at hr
      have hopen := hinv.current r x hr
      dsimp only
      rw [update_of_ne hrq]
      refine ⟨Nat.lt_succ_of_lt hopen.lt, ?_, hopen.le, hopen.stored, hopen.ret⟩
      rw [← hopen.given]
      exact update_of_ne hopen.lt.ne _ _
  once := by
    refine hinv.once.step (a := q) (fun r hr k hk => ?_) fun k hk => .inr fun r hr => ?_
    · simpa only [update_of_ne hr] using hk
    · -- the number is new
      simp only [update_self, Option.map_some, Option.some.injEq] at hk
      obtain ⟨x, hx, hkr⟩ := Option.map_eq_some_iff.mp hr
      exact (hinv.current r x hx).lt.ne (hkr.trans hk.symm)
  fresh := fun k hk => hinv.fresh k (Nat.le_of_succ_le hk)
  order := by
    intro k
    dsimp only
    by_cases hk : k = h.calls
    · subst hk
      have hstored := (hinv.fresh h.calls (Nat.le_refl _)).1
      rw [update_self]
      exact hstored.symm ▸ nil_prefix
    · rw [update_of_ne hk]
      exact hinv.order k
  done := by
    intro k r hret hr
    dsimp only at hret ⊢
    by_cases hk : k = h.calls
    · subst hk
      cases (hinv.fresh h.calls (Nat.le_refl _)).2.symm.trans hret
    · rw [update_of_ne hk]
      exact hinv.done k r hret hr

/-- A writer stores its bytes up to `j`. -/
lemma OrderInv.store (hq : w q = some x) (hi : x.i ≤ j) (hj : j ≤ x.n.toNat) :
    OrderInv (update w q (some { x with i := j }))
      { h with stored := h.stored ++ (bytesBetween x.addr x.i j).map (Prod.mk (h.ticket q)) } where
  current := by
    intro r y hr
    by_cases hrq : r = q
    · subst hrq
      rw [update_self] at hr
      cases hr
      obtain ⟨hlt, hgiven, _, hstored, hret⟩ := hinv.current r x hq
      refine ⟨hlt, hgiven, hj, ?_, hret⟩
      rw [storedOf_append, if_pos rfl, hstored, bytesBetween_append (Nat.zero_le _) hi]
    · rw [update_of_ne hrq] at hr
      obtain ⟨hlt, hgiven, hle, hstored, hret⟩ := hinv.current r y hr
      refine ⟨hlt, hgiven, hle, ?_, hret⟩
      rw [storedOf_append, if_neg (hinv.ticket_ne hq hr hrq), append_nil, hstored]
  once := by
    refine hinv.once.step (a := q) (fun r hr k hk => ?_) fun k hk => .inl ?_
    · simpa only [update_of_ne hr] using hk
    · simpa [hq] using hk
  fresh := by
    intro k hk
    rw [storedOf_append, if_neg fun heq => ?_, append_nil]
    · exact hinv.fresh k hk
    · subst heq
      exact absurd hk (Nat.not_le_of_lt (hinv.current q x hq).lt)
  order := by
    intro k
    rw [storedOf_append]
    split_ifs with hk
    · subst hk
      obtain ⟨_, hgiven, _, hstored, _⟩ := hinv.current q x hq
      rw [hstored, hgiven, bytesBetween_append (Nat.zero_le _) hi]
      exact bytesBetween_prefix (Nat.zero_le _) hj
    · rw [append_nil]
      exact hinv.order k
  done := by
    intro k r hret hr
    rw [storedOf_append, if_neg fun heq => ?_, append_nil]
    · exact hinv.done k r hret hr
    · subst heq
      cases (hinv.current q x hq).ret.symm.trans hret

/-- A call returns `r`. -/
lemma OrderInv.finish (hq : w q = some x) (r : Int) (hr : 0 ≤ r → x.i = x.n.toNat) :
    OrderInv (update w q none) { h with ret := update h.ret (h.ticket q) (some r) } where
  current := by
    intro p y hp
    by_cases hpq : p = q
    · subst hpq
      rw [update_self] at hp
      cases hp
    · rw [update_of_ne hpq] at hp
      obtain ⟨hlt, hgiven, hle, hstored, hret⟩ := hinv.current p y hp
      refine ⟨hlt, hgiven, hle, hstored, ?_⟩
      dsimp only
      rw [update_of_ne (hinv.ticket_ne hq hp hpq), hret]
  once := by
    refine hinv.once.step (a := q) (fun p hp k hk => ?_) fun k hk => ?_
    · simpa only [update_of_ne hp] using hk
    · simp at hk
  fresh := by
    intro k hk
    obtain ⟨hstored, hret⟩ := hinv.fresh k hk
    refine ⟨hstored, ?_⟩
    dsimp only at hk ⊢
    rw [update_of_ne, hret]
    rintro rfl
    exact absurd hk (Nat.not_le_of_lt (hinv.current q x hq).lt)
  order := hinv.order
  done := by
    intro k v hret hv
    dsimp only at hret ⊢
    by_cases hk : k = h.ticket q
    · subst hk
      rw [update_self] at hret
      cases hret
      obtain ⟨_, hgiven, _, hstored, _⟩ := hinv.current q x hq
      rw [hgiven]
      exact hstored.trans (by rw [hr hv])
    · rw [update_of_ne hk] at hret
      exact hinv.done k v hret hv

/-- Reads do not matter to the writers. -/
lemma OrderInv.read (bs : List Byte) : OrderInv w { h with returned := bs } where
  current := by
    intro q x hq
    obtain ⟨hlt, hgiven, hle, hstored, hret⟩ := hinv.current q x hq
    exact ⟨hlt, hgiven, hle, hstored, hret⟩
  once := hinv.once
  fresh := hinv.fresh
  order := hinv.order
  done := hinv.done

end

/-! ### The invariant -/

def writers (s : State) : ProcId → Option Writing := fun q => (s.pc q).writing

@[simp] lemma writers_wakeup (chan : Chan) (s : State) : writers (wakeup chan s) = writers s := by
  funext q
  simp [writers, wakeup]

@[simp] lemma writers_setPc (s : State) (q : ProcId) (x : Pc) :
    writers (setPc s q x) = update (writers s) q x.writing := by
  funext r
  by_cases hr : r = q
  · subst hr
    simp [writers, setPc]
  · simp [writers, setPc, update_of_ne hr]

structure StreamInv (s : State) (h : Trace) : Prop where
  len : s.pipe.len ≤ PIPESIZE
  stream : h.returned ++ s.pipe.contents = h.stored.map Prod.snd
  order : OrderInv (writers s) h

/-- A step that moves no byte and starts or ends no call of `pipewrite`. -/
lemma StreamInv.quiet (hinv : StreamInv s h) (hlen : s'.pipe.len = s.pipe.len)
    (hcontents : s'.pipe.contents = s.pipe.contents) (hwriters : writers s' = writers s) :
    StreamInv s' h where
  len := hlen ▸ hinv.len
  stream := hcontents ▸ hinv.stream
  order := hwriters ▸ hinv.order

lemma update_writers_of_none (hq : writers s q = none) : update (writers s) q none = writers s :=
  update_eq_self_iff.mpr hq.symm

lemma StreamInv.pipewrite (hinv : StreamInv s h) {b : Bool} (hq : s.pc q = .write addr n i b) :
    StreamInv (pipewrite s q addr n i) (nextTrace s (.run q) (pipewrite s q addr n i) h) := by
  have hw : writers s q = some ⟨addr, n, i⟩ := by
    rw [writers, hq]
    rfl
  have hi : i ≤ n.toNat := (hinv.order.current q _ hw).le
  have hspec : WriteSpec s.pipe addr i (n.toNat - i) (writeResult s q addr n i) :=
    writeLoop_spec _ addr _ i s.pipe hinv.len
  have hstop : (writeResult s q addr n i).1 ≤ n.toNat := hspec.stop.trans (by omega)
  have hstore := hinv.order.store hw hspec.le hstop
  have hstream : h.returned ++ (writeResult s q addr n i).2.1.contents =
      (h.stored ++ (bytesBetween addr i (writeResult s q addr n i).1).map
        (Prod.mk (h.ticket q))).map Prod.snd := by
    rw [hspec.contents, ← append_assoc, hinv.stream, map_append, map_map]
    congr 1
    exact (map_id _).symm
  have hdone := hspec.done
  -- the call returns, or it goes on later
  cases hend : (writeResult s q addr n i).2.2 with
  | done =>
    simp only [nextTrace, hq, Pipes.pipewrite, hend]
    refine ⟨hspec.len, hstream, ?_⟩
    have hfinish := hstore.finish (q := q) (update_self ..) n fun _ => by
      rw [hdone hend]
      exact Nat.add_sub_cancel' hi
    rw [update_idem] at hfinish
    rw [writers_setPc, writers_wakeup]
    exact hfinish
  | broken =>
    simp only [nextTrace, hq, Pipes.pipewrite, hend]
    refine ⟨hspec.len, hstream, ?_⟩
    have hfinish := hstore.finish (q := q) (update_self ..) (-1) fun hneg => by cases hneg
    rw [update_idem] at hfinish
    rw [writers_setPc]
    exact hfinish
  | sleep =>
    simp only [nextTrace, hq, Pipes.pipewrite, hend]
    refine ⟨hspec.len, hstream, ?_⟩
    rw [writers_setPc, writers_wakeup]
    exact hstore

lemma StreamInv.piperead (hinv : StreamInv s h) {b : Bool} (hq : s.pc q = .read n b) :
    StreamInv (piperead s q n) (nextTrace s (.run q) (piperead s q n) h) := by
  have hw : writers s q = none := by
    rw [writers, hq]
    rfl
  simp only [nextTrace, hq, Pipes.piperead]
  split_ifs with hwait hkilled
  · refine hinv.quiet rfl rfl ?_
    rw [writers_setPc]
    exact update_writers_of_none hw
  · refine hinv.quiet rfl rfl ?_
    rw [writers_setPc]
    exact update_writers_of_none hw
  · obtain ⟨hcontents, hlen⟩ := readLoop_spec n.toNat s.pipe
    refine ⟨hlen.trans hinv.len, ?_, ?_⟩
    · rw [append_assoc]
      exact (congrArg (h.returned ++ ·) hcontents).trans hinv.stream
    · rw [writers_setPc, writers_wakeup]
      rw [show (Pc.user _).writing = none from rfl]
      exact (update_writers_of_none hw).symm ▸ hinv.order.read _

lemma StreamInv.step (hinv : StreamInv s h) (hstep : step s l = some s') :
    StreamInv s' (nextTrace s l s' h) := by
  rw [Pipes.step] at hstep
  split_ifs at hstep
  cases l with
  | pipewrite q addr n =>
    simp only [liveStep] at hstep
    split at hstep
    · rename_i hq
      cases hstep
      have hw : writers s q = none := by
        rw [writers, hq]
        rfl
      refine ⟨hinv.len, hinv.stream, ?_⟩
      rw [writers_setPc]
      exact hinv.order.start hw addr n
    · cases hstep
  | piperead =>
    simp only [liveStep] at hstep
    split at hstep
    · rename_i hq
      cases hstep
      refine hinv.quiet rfl rfl ?_
      rw [writers_setPc]
      exact update_writers_of_none (by rw [writers, hq]; rfl)
    · cases hstep
  | run =>
    simp only [liveStep] at hstep
    split at hstep
    · rename_i hq
      cases hstep
      exact hinv.pipewrite hq
    · rename_i hq
      cases hstep
      exact hinv.piperead hq
    · cases hstep
  | kill q =>
    cases hstep
    refine hinv.quiet rfl rfl ?_
    have hset := writers_setPc s q (((s.pc q).wakeup .nread).wakeup .nwrite)
    rw [writing_wakeup, writing_wakeup] at hset
    exact hset.trans (update_eq_self q (writers s))
  | pipeclose writable =>
    cases hstep
    cases writable <;> exact hinv.quiet rfl rfl (writers_wakeup _ _)

lemma len_alloc (data : Fin PIPESIZE → Byte) : (alloc data).pipe.len = 0 := by
  simp [Pipe.len, alloc]

lemma streamInv_alloc (data : Fin PIPESIZE → Byte) : StreamInv (alloc data) .zero where
  len := by
    rw [len_alloc]
    exact Nat.zero_le _
  stream := by
    rw [Pipe.contents, len_alloc]
    rfl
  order :=
    { current := by
        intro q x hq
        cases hq
      once := exclusive_none
      fresh := fun k _ => ⟨rfl, rfl⟩
      order := fun k => nil_prefix
      done := by
        intro k r hr
        cases hr }

/-! ### A FIFO byte stream -/

structure FifoStream (s : State) (h : Trace) : Prop where
  /-- modulo `2 ^ 32` -/
  bound : (s.pipe.nwrite - s.pipe.nread).toNat ≤ PIPESIZE
  returned : h.returned <+: h.stored.map Prod.snd
  /-- what has not been returned is in the pipe -/
  contents : h.returned ++ s.pipe.contents = h.stored.map Prod.snd
  /-- each call stores its bytes in the order given, and all of them if it returns their number -/
  order : ∀ k, h.storedOf k <+: h.given k
  complete : ∀ k r, h.ret k = some r → 0 ≤ r → h.storedOf k = h.given k

/-- A pipe in a page with any contents is a FIFO byte stream, in every run of any number of readers
    and writers. -/
theorem fifoStream_of_reach {data : Fin PIPESIZE → Byte} {x : State × Trace}
    (hrun : Reach (withHistory step nextTrace) Always (alloc data, .zero) x) :
    FifoStream x.1 x.2 := by
  have hinv : StreamInv x.1 x.2 := by
    refine hrun.invariant (I := fun y => StreamInv y.1 y.2) (streamInv_alloc data) ?_
    rintro y l z hinv _ hstep
    obtain ⟨hst, hnext⟩ := withHistory_eq_some.mp hstep
    rw [hnext]
    exact hinv.step hst
  exact ⟨hinv.len, ⟨_, hinv.stream⟩, hinv.stream, hinv.order.order, hinv.order.done⟩

/-- Two writers and a reader: the reader gets the first two of three bytes of the first writer. -/
theorem fifoStream_after_read : ∃ x : State × Trace,
    Reach (withHistory step nextTrace) Always (alloc fun _ => 0, .zero) x ∧
      x.2.returned = [7, 8] ∧ x.2.stored = [(0, 7), (0, 8), (0, 9), (1, 5)] ∧
      FifoStream x.1 x.2 := by
  have hexec : ∃ x : State × Trace,
      Reach (withHistory step nextTrace) Always (alloc fun _ => 0, .zero) x ∧
        x.2.returned = [7, 8] ∧ x.2.stored = [(0, 7), (0, 8), (0, 9), (1, 5)] :=
    Reach.exists_of_exec
      [.piperead 2 2, .run 2, .pipewrite 0 (fun i => BitVec.ofNat 8 (7 + i)) 3,
        .pipewrite 1 (fun _ => 5) 1, .run 0, .run 1, .run 2] (by decide +kernel)
  obtain ⟨x, hrun, hreturned, hstored⟩ := hexec
  exact ⟨x, hrun, hreturned, hstored, fifoStream_of_reach hrun⟩

end Xv6.Pipes
