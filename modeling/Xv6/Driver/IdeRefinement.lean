import Mathlib.Data.List.Induction
import Mathlib.Data.List.Nodup
import Xv6.Driver.Ide

/-!
# `ide.c` refines `memide.c`

The requests that `iderw` has put into the queue, as a history variable, and the calls of the `iderw`
of `memide.c` for the same requests in the same order. The disk executes the requests in queue order,
so its contents, and each buffer when `iderw` returns, are those of the sequential calls.
-/

namespace Xv6.Ide

open Machine Function List Option
open Log (Block)

variable {s s' : State} {q q' : ProcId} {i j : BufId} {b x : Buf} {data : Block} {d : Disk}
  {l : Label} {disksize : Nat}

/-! ### Requests one after another -/

/-- A call of `iderw`: the caller, and the buffer at the time of the call. -/
structure Req where
  proc : ProcId
  id : BufId
  buf : Buf

variable {r : Req} {rs fin pend : List Req}

/-- The calls of `memide.c` for a list of requests: the disk, and the buffer of each request. -/
def memRun (disksize : Nat) (d : Disk) : List Req → Except Panic (Disk × List Buf)
  | [] => .ok (d, [])
  | r :: rs =>
    match memiderw disksize d r.proc r.buf with
    | .error e => .error e
    | .ok (d', b) =>
      match memRun disksize d' rs with
      | .error e => .error e
      | .ok (d'', bs) => .ok (d'', b :: bs)

/-- The transfers alone. -/
def transfers (d : Disk) : List Req → Disk × List Buf
  | [] => (d, [])
  | r :: rs =>
    ((transfers (memTransfer d r.buf).1 rs).1,
      (memTransfer d r.buf).2 :: (transfers (memTransfer d r.buf).1 rs).2)

/-- A request that `memide.c` can carry out. -/
structure Req.Ok (disksize : Nat) (r : Req) : Prop where
  lock : r.buf.lock = some r.proc
  ask : r.buf.clean = false
  dev : r.buf.dev = 1
  range : r.buf.blockno.toNat < disksize

lemma memiderw_ok (h : r.Ok disksize) : memiderw disksize d r.proc r.buf = .ok (memTransfer d r.buf) := by
  rw [memiderw, if_neg (not_not.mpr h.lock), if_neg (by rw [h.ask]; exact Bool.false_ne_true),
    if_neg (not_not.mpr h.dev), if_neg (Nat.not_le_of_lt h.range)]

lemma memRun_ok (h : ∀ r ∈ rs, r.Ok disksize) : memRun disksize d rs = .ok (transfers d rs) := by
  induction rs generalizing d with
  | nil => rfl
  | cons r rs ih =>
    rw [memRun, memiderw_ok (h r mem_cons_self)]
    dsimp only
    rw [ih fun r' hr => h r' (mem_cons_of_mem r hr)]
    rfl

lemma length_transfers : (transfers d rs).2.length = rs.length := by
  induction rs generalizing d with
  | nil => rfl
  | cons r rs ih => rw [transfers, length_cons, ih, length_cons]

lemma transfers_concat (d : Disk) (rs : List Req) (r : Req) :
    transfers d (rs ++ [r]) =
      ((memTransfer (transfers d rs).1 r.buf).1,
        (transfers d rs).2 ++ [(memTransfer (transfers d rs).1 r.buf).2]) := by
  induction rs generalizing d with
  | nil => rfl
  | cons r' rs ih =>
    rw [cons_append, transfers, ih]
    rfl

/-! ### Commands -/

/-- The disk finds in its ports what `idestart` has put there. -/
lemma regs_cmd {dev sector : Nat} (h : sector < 0x10000000) (out : Option Block) :
    (regs dev sector).cmd out = ⟨dev % 2, sector, out⟩ := by
  simp only [regs, Regs.cmd, Cmd.mk.injEq, and_true]
  constructor <;> omega

lemma cmd_eq (hblock : b.blockno.toNat < FSSIZE) :
    b.cmd = ⟨b.dev.toNat % 2, b.blockno.toNat, if b.dirty then some b.data else none⟩ := by
  have hlt : b.blockno.toNat * sectorPerBlock < 0x10000000 := by
    rw [sectorPerBlock, Nat.mul_one]
    exact Nat.lt_trans hblock (by decide)
  rw [Buf.cmd, regs_cmd hlt, sectorPerBlock, Nat.mul_one]

/-- The command of a request does to disk 1 what `memide.c` does. -/
lemma exec_cmd (hdev : b.dev = 1) (hblock : b.blockno.toNat < FSSIZE) (disk : Nat → Disk) :
    (b.cmd.exec disk).1 1 = (memTransfer (disk 1) b).1 ∧
      b.finish (b.cmd.exec disk).2 = (memTransfer (disk 1) b).2 := by
  rw [cmd_eq hblock, hdev, Cmd.exec, memTransfer, Buf.finish]
  cases b.dirty <;> simp

/-! ### History -/

structure Hist where
  /-- the requests in the order in which they were put into the queue -/
  issued : List Req
  /-- the buffers that `idestart` was called for -/
  started : List BufId
  /-- the buffers that `ideintr` has taken off the queue -/
  completed : List BufId
  /-- the place of the last request of a process -/
  last : ProcId → Nat

def Hist.zero : Hist := ⟨[], [], [], fun _ => 0⟩

def nextHist (s : State) (l : Label) (s' : State) (h : Hist) : Hist :=
  if s'.panic = none then
    match l with
    | .iderw q i =>
      { h with
        issued := h.issued ++ [⟨q, i, s.buf i⟩],
        started := if s.queue = [] then h.started ++ [i] else h.started,
        last := Function.update h.last q h.issued.length }
    | .ideintr =>
      { h with
        completed := h.completed ++ s.queue.take 1,
        started := h.started ++ (s.queue.drop 1).take 1 }
    | _ => h
  else h

/-! ### The queue -/

/-- The buffer of the call of `iderw` that a process is in, or has just left. -/
def Pc.inside : Pc → Option BufId
  | .waiting i _ | .returned i => some i
  | .user => none

def Pc.waits : Pc → Option BufId
  | .waiting i _ => some i
  | _ => none

variable {h : Hist} {v : Device}

/-- What the disk is doing for the first request. -/
def Device.Serves : Device → List Req → Prop
  | .idle, pend => pend = []
  | .busy c, pend => ∃ r rest, pend = r :: rest ∧ c = r.buf.cmd ∧ r.buf.blockno.toNat < FSSIZE
  | .done _, pend => ∃ r rest, pend = r :: rest ∧ r.buf.blockno.toNat < FSSIZE

/-- The requests `fin` are completed and `pend` are in the queue. -/
structure QueueInv (s : State) (h : Hist) (fin pend : List Req) : Prop where
  issued : h.issued = fin ++ pend
  completed : h.completed = fin.map Req.id
  queue : s.queue = pend.map Req.id
  started : h.started = h.completed ++ s.queue.take 1
  nodup : (pend.map Req.id).Nodup
  lock : ∀ q i, (s.pc q).inside = some i → (s.buf i).lock = some q
  pending : ∀ k r, pend[k]? = some r → s.buf r.id = r.buf ∧ (s.pc r.proc).waits = some r.id ∧
    h.last r.proc = fin.length + k
  ask : ∀ r ∈ fin ++ pend, r.buf.lock = some r.proc ∧ r.buf.clean = false
  last : ∀ q i, (s.pc q).inside = some i →
    ∃ r, (fin ++ pend)[h.last q]? = some r ∧ r.proc = q ∧ r.id = i
  returned : ∀ q i, s.pc q = .returned i → h.last q < fin.length
  device : s.device.Serves pend

lemma inside_of_waits {pc : Pc} (h : pc.waits = some i) : pc.inside = some i := by
  cases pc <;> first | exact h | cases h

@[simp] lemma inside_wakeup (pc : Pc) : (pc.wakeup i).inside = pc.inside := by
  cases pc <;> rfl

@[simp] lemma waits_wakeup (pc : Pc) : (pc.wakeup i).waits = pc.waits := by
  cases pc <;> rfl

/-- Nobody is in `iderw` with a buffer that a process outside it holds. -/
lemma QueueInv.outside (hinv : QueueInv s h fin pend) (hpc : s.pc q = .user)
    (hlock : (s.buf i).lock = none ∨ (s.buf i).lock = some q) (q' : ProcId) :
    (s.pc q').inside ≠ some i := by
  intro hq'
  have hown := hinv.lock q' i hq'
  rcases hlock with hnone | hsome
  · cases hnone.symm.trans hown
  · obtain rfl := some.inj (hsome.symm.trans hown)
    rw [hpc] at hq'
    cases hq'

/-- A change of a buffer that nobody is in `iderw` with. -/
lemma QueueInv.setBuf (hinv : QueueInv s h fin pend) (hout : ∀ q, (s.pc q).inside ≠ some i)
    (x : Buf) : QueueInv (setBuf s i x) h fin pend where
  issued := hinv.issued
  completed := hinv.completed
  queue := hinv.queue
  started := hinv.started
  nodup := hinv.nodup
  lock := by
    intro q j hq
    have hne : j ≠ i := by
      rintro rfl
      exact hout q hq
    simp only [Ide.setBuf, update_of_ne hne]
    exact hinv.lock q j hq
  pending := by
    intro k r hr
    obtain ⟨hbuf, hwaits, hlast⟩ := hinv.pending k r hr
    have hne : r.id ≠ i := by
      rintro rfl
      exact hout _ (inside_of_waits hwaits)
    simp only [Ide.setBuf, update_of_ne hne]
    exact ⟨hbuf, hwaits, hlast⟩
  ask := hinv.ask
  last := hinv.last
  returned := hinv.returned
  device := hinv.device

/-! ### The disk -/

/-- The first request has been executed when the interrupt is raised. -/
def Device.executed : Device → List Req → List Req
  | .done _, pend => pend.take 1
  | _, _ => []

structure DiskInv (d : Disk) (s : State) (h : Hist) (fin pend : List Req) : Prop where
  disk : s.disk 1 = (transfers d (fin ++ s.device.executed pend)).1
  port : ∀ data r rest, s.device = .done data → pend = r :: rest →
    r.buf.finish data = (memTransfer (transfers d fin).1 r.buf).2
  result : ∀ q i, (s.pc q).inside = some i → h.last q < fin.length →
    (transfers d fin).2[h.last q]? = some (s.buf i)

lemma DiskInv.setBuf (hinv : DiskInv d s h fin pend) (hout : ∀ q, (s.pc q).inside ≠ some i)
    (x : Buf) : DiskInv d (setBuf s i x) h fin pend where
  disk := hinv.disk
  port := hinv.port
  result := by
    intro q j hq hlt
    have hne : j ≠ i := by
      rintro rfl
      exact hout q hq
    simp only [Ide.setBuf, update_of_ne hne]
    exact hinv.result q j hq hlt

/-- The invariant: some of the requests are completed, and if all are for disk 1, the disk is that of
    the sequential calls. -/
def IdeInv (d : Disk) (s : State) (h : Hist) : Prop :=
  ∃ fin pend, QueueInv s h fin pend ∧
    ((∀ r ∈ fin ++ pend, r.buf.dev = 1) → DiskInv d s h fin pend)

lemma IdeInv.setBuf (hinv : IdeInv d s h) (hpc : s.pc q = .user)
    (hlock : (s.buf i).lock = none ∨ (s.buf i).lock = some q) (x : Buf) :
    IdeInv d (Ide.setBuf s i x) h := by
  obtain ⟨fin, pend, hqueue, hdisk⟩ := hinv
  have hout := hqueue.outside hpc hlock
  exact ⟨fin, pend, hqueue.setBuf hout x, fun hdev => (hdisk hdev).setBuf hout x⟩

lemma IdeInv.panic (hinv : IdeInv d s h) (e : Option Panic) : IdeInv d { s with panic := e } h := by
  obtain ⟨fin, pend, hq, hdisk⟩ := hinv
  refine ⟨fin, pend, ⟨hq.issued, hq.completed, hq.queue, hq.started, hq.nodup, hq.lock, hq.pending,
    hq.ask, hq.last, hq.returned, hq.device⟩, fun hdev => ?_⟩
  obtain ⟨hd, hport, hresult⟩ := hdisk hdev
  exact ⟨hd, hport, hresult⟩

/-! ### A new request -/

lemma Serves.append (hne : pend ≠ []) (hv : v.Serves pend) : v.Serves (pend ++ [r]) := by
  cases v with
  | idle => exact absurd hv hne
  | busy =>
    obtain ⟨r', rest, rfl, hc⟩ := hv
    exact ⟨r', rest ++ [r], rfl, hc⟩
  | done =>
    obtain ⟨r', rest, rfl, hblock⟩ := hv
    exact ⟨r', rest ++ [r], rfl, hblock⟩

lemma idestart_ok (hv : idestart b = .ok v) : v = .busy b.cmd ∧ b.blockno.toNat < FSSIZE := by
  rw [idestart] at hv
  split_ifs at hv with hblock
  cases hv
  exact ⟨rfl, Nat.lt_of_not_le hblock⟩

/-- The disk after `iderw` has put a request into the queue. -/
lemma QueueInv.serves_new (hinv : QueueInv s h fin pend)
    (hv : (if s.queue = [] then idestart r.buf else .ok s.device) = .ok v) :
    v.Serves (pend ++ [r]) ∧ v.executed (pend ++ [r]) = s.device.executed pend ∧
      ∀ data, v = .done data → s.device = .done data ∧ pend ≠ [] := by
  by_cases hempty : s.queue = []
  · rw [if_pos hempty] at hv
    obtain ⟨rfl, hblock⟩ := idestart_ok hv
    have hpend : pend = [] := map_eq_nil_iff.mp (hinv.queue.symm.trans hempty)
    subst hpend
    refine ⟨⟨r, [], rfl, rfl, hblock⟩, ?_, fun data hd => by cases hd⟩
    cases s.device <;> rfl
  · rw [if_neg hempty] at hv
    cases hv
    have hpend : pend ≠ [] := by
      rintro rfl
      exact hempty hinv.queue
    refine ⟨Serves.append hpend hinv.device, ?_, fun data hd => ⟨hd, hpend⟩⟩
    obtain ⟨r', rest, rfl⟩ := exists_cons_of_ne_nil hpend
    cases s.device <;> rfl

lemma QueueInv.iderw (hinv : QueueInv s h fin pend) (hpc : s.pc q = .user)
    (hlock : (s.buf i).lock = some q) (hask : (s.buf i).clean = false)
    (hv : v.Serves (pend ++ [⟨q, i, s.buf i⟩])) :
    QueueInv (setPc { s with queue := s.queue ++ [i], device := v } q (.waiting i true))
      { h with
        issued := h.issued ++ [⟨q, i, s.buf i⟩],
        started := if s.queue = [] then h.started ++ [i] else h.started,
        last := update h.last q h.issued.length } fin (pend ++ [⟨q, i, s.buf i⟩]) where
  issued := by
    dsimp only
    rw [hinv.issued, append_assoc]
  completed := hinv.completed
  queue := by
    simp only [Ide.setPc, hinv.queue, map_append, map_cons, map_nil]
  started := by
    simp only [Ide.setPc]
    rw [hinv.started]
    cases s.queue with
    | nil => rw [if_pos rfl, take_nil, append_nil]; rfl
    | cons j js => rw [if_neg (cons_ne_nil j js)]; rfl
  nodup := by
    rw [map_append, nodup_append]
    refine ⟨hinv.nodup, nodup_singleton _, fun j hj k hk hjk => ?_⟩
    obtain ⟨r, hr, rfl⟩ := mem_map.mp hj
    obtain ⟨n, hn⟩ := mem_iff_getElem?.mp hr
    obtain rfl := mem_singleton.mp hk
    apply hinv.outside hpc (.inr hlock) r.proc
    rw [inside_of_waits (hinv.pending n r hn).2.1, hjk]
  lock := by
    intro q' j hq'
    simp only [Ide.setPc] at hq' ⊢
    by_cases hqq : q' = q
    · subst hqq
      rw [update_self] at hq'
      cases hq'
      exact hlock
    · rw [update_of_ne hqq] at hq'
      exact hinv.lock q' j hq'
  pending := by
    intro k r hr
    simp only [Ide.setPc]
    rcases Nat.lt_or_ge k pend.length with hk | hk
    · rw [List.getElem?_append_left hk] at hr
      obtain ⟨hbuf, hwaits, hlast⟩ := hinv.pending k r hr
      have hne : r.proc ≠ q := by
        rintro rfl
        rw [hpc] at hwaits
        cases hwaits
      rw [update_of_ne hne, update_of_ne hne]
      exact ⟨hbuf, hwaits, hlast⟩
    · rw [List.getElem?_append_right hk] at hr
      have hzero : k = pend.length := by
        have hlt := (List.getElem?_eq_some_iff.mp hr).1
        rw [length_singleton] at hlt
        omega
      rw [hzero, Nat.sub_self] at hr
      cases hr
      rw [update_self, update_self, hinv.issued, length_append, hzero]
      exact ⟨rfl, rfl, rfl⟩
  ask := by
    intro r hr
    rw [← append_assoc, mem_append] at hr
    rcases hr with hr | hr
    · exact hinv.ask r hr
    · obtain rfl := mem_singleton.mp hr
      exact ⟨hlock, hask⟩
  last := by
    intro q' j hq'
    simp only [Ide.setPc] at hq' ⊢
    rw [← append_assoc]
    by_cases hqq : q' = q
    · subst hqq
      rw [update_self] at hq' ⊢
      cases hq'
      refine ⟨⟨q', i, s.buf i⟩, ?_, rfl, rfl⟩
      rw [hinv.issued, List.getElem?_concat_length]
    · rw [update_of_ne hqq] at hq' ⊢
      obtain ⟨r, hr, hproc, hid⟩ := hinv.last q' j hq'
      refine ⟨r, ?_, hproc, hid⟩
      rw [List.getElem?_append_left (List.getElem?_eq_some_iff.mp hr).1, hr]
  returned := by
    intro q' j hq'
    simp only [Ide.setPc] at hq' ⊢
    by_cases hqq : q' = q
    · subst hqq
      rw [update_self] at hq'
      cases hq'
    · rw [update_of_ne hqq] at hq' ⊢
      exact hinv.returned q' j hq'
  device := hv

lemma DiskInv.iderw (hinv : DiskInv d s h fin pend) (hqueue : QueueInv s h fin pend)
    (hv : v.executed (pend ++ [r]) = s.device.executed pend)
    (hdone : ∀ data, v = .done data → s.device = .done data ∧ pend ≠ []) :
    DiskInv d (setPc { s with queue := s.queue ++ [i], device := v } q (.waiting i true))
      { h with
        issued := h.issued ++ [r],
        started := if s.queue = [] then h.started ++ [i] else h.started,
        last := update h.last q h.issued.length } fin (pend ++ [r]) where
  disk := by
    simp only [Ide.setPc]
    rw [hv, hinv.disk]
  port := by
    intro data r' rest hdata hcons
    obtain ⟨hold, hne⟩ := hdone data hdata
    obtain ⟨r₀, rest₀, rfl⟩ := exists_cons_of_ne_nil hne
    obtain ⟨rfl, -⟩ := List.cons.inj hcons
    exact hinv.port data _ _ hold rfl
  result := by
    intro q' j hq' hlt
    simp only [Ide.setPc] at hq' hlt ⊢
    by_cases hqq : q' = q
    · subst hqq
      rw [update_self, hqueue.issued, length_append] at hlt
      exact absurd hlt (by omega)
    · rw [update_of_ne hqq] at hq' hlt ⊢
      exact hinv.result q' j hq' hlt

lemma panic_setPc (s : State) (q : ProcId) (x : Pc) : (setPc s q x).panic = s.panic := rfl

lemma iderwTest_none (h : iderwTest s q b = none) : b.lock = some q ∧ b.clean = false := by
  rw [iderwTest] at h
  split_ifs at h with hlock hclean
  exact ⟨not_not.mp hlock, Bool.not_eq_true _ ▸ hclean⟩

/-- `iderw` panics, or it puts the request into the queue. -/
lemma iderw_cases (s : State) (q : ProcId) (i : BufId) : (∃ e, iderw s q i = { s with panic := some e }) ∨
      ∃ v, iderwTest s q (s.buf i) = none ∧
        (if s.queue = [] then idestart (s.buf i) else .ok s.device) = .ok v ∧
        iderw s q i = setPc { s with queue := s.queue ++ [i], device := v } q (.waiting i true) := by
  rw [iderw]
  cases htest : iderwTest s q (s.buf i) with
  | some e => exact .inl ⟨e, rfl⟩
  | none =>
    dsimp only
    cases hv : (if s.queue = [] then idestart (s.buf i) else .ok s.device) with
    | error e => exact .inl ⟨e, rfl⟩
    | ok v => exact .inr ⟨v, rfl, rfl, rfl⟩

lemma IdeInv.iderw (hinv : IdeInv d s h) (hpanic : s.panic = none) (hpc : s.pc q = .user) :
    IdeInv d (iderw s q i) (nextHist s (.iderw q i) (iderw s q i) h) := by
  rcases iderw_cases s q i with ⟨e, hs⟩ | ⟨v, htest, hv, hs⟩
  · rw [hs, nextHist, if_neg (by intro h; cases h)]
    exact hinv.panic _
  · obtain ⟨hlock, hask⟩ := iderwTest_none htest
    obtain ⟨fin, pend, hqueue, hdisk⟩ := hinv
    obtain ⟨hserves, hexec, hdone⟩ := hqueue.serves_new (r := ⟨q, i, s.buf i⟩) hv
    rw [hs, nextHist, panic_setPc, if_pos hpanic]
    refine ⟨fin, pend ++ [⟨q, i, s.buf i⟩], hqueue.iderw hpc hlock hask hserves, fun hdev => ?_⟩
    refine (hdisk fun r hr => hdev r ?_).iderw hqueue hexec hdone
    rw [← append_assoc]
    exact mem_append_left _ hr

/-! ### A request is completed -/

lemma QueueInv.head_buf (hinv : QueueInv s h fin (r :: pend)) : s.buf r.id = r.buf :=
  (hinv.pending 0 r rfl).1

/-- The buffers of the other requests stay as they are. -/
lemma QueueInv.tail_buf (hinv : QueueInv s h fin (r :: pend)) {k : Nat} {r' : Req}
    (hk : pend[k]? = some r') (x : Buf) : update s.buf r.id x r'.id = r'.buf := by
  have hne : r'.id ≠ r.id := by
    intro heq
    apply (nodup_cons.mp hinv.nodup).1
    rw [← heq]
    exact mem_map_of_mem (mem_of_getElem? hk)
  rw [update_of_ne hne]
  exact (hinv.pending (k + 1) r' hk).1

/-- A process in `iderw` whose request is completed has another buffer than the first in the queue. -/
lemma QueueInv.ne_head (hinv : QueueInv s h fin (r :: pend)) (hq : (s.pc q).inside = some i)
    (hlt : h.last q < fin.length) : i ≠ r.id := by
  rintro rfl
  obtain ⟨_, hwaits, hlast⟩ := hinv.pending 0 r rfl
  have hown := hinv.lock _ _ (inside_of_waits hwaits)
  obtain rfl := some.inj ((hinv.lock q _ hq).symm.trans hown)
  omega

lemma returned_of_wakeup {pc : Pc} (h : pc.wakeup i = .returned j) : pc = .returned j := by
  cases pc <;> first | exact h | cases h

/-- The state after `ideintr`, up to the command that it may start. -/
def afterIntr (s : State) (r : Req) (rest : List Req) (data : Block) (v : Device) : State :=
  { setBuf s r.id ((s.buf r.id).finish data) with
    queue := rest.map Req.id, pc := fun q => (s.pc q).wakeup r.id, device := v }

lemma QueueInv.ideintr (hinv : QueueInv s h fin (r :: pend)) (hv : v.Serves pend) :
    QueueInv (afterIntr s r pend data v)
      { h with
        completed := h.completed ++ s.queue.take 1,
        started := h.started ++ (s.queue.drop 1).take 1 } (fin ++ [r]) pend where
  issued := by
    rw [hinv.issued, append_assoc]
    rfl
  completed := by
    rw [hinv.completed, hinv.queue, map_append]
    rfl
  queue := rfl
  started := by
    dsimp only [afterIntr, Ide.setBuf]
    rw [hinv.started, hinv.queue]
    rfl
  nodup := (nodup_cons.mp hinv.nodup).2
  lock := by
    intro q j hq
    simp only [afterIntr, Ide.setBuf, inside_wakeup] at hq ⊢
    by_cases hj : j = r.id
    · subst hj
      rw [update_self]
      exact hinv.lock q r.id hq
    · rw [update_of_ne hj]
      exact hinv.lock q j hq
  pending := by
    intro k r' hk
    simp only [afterIntr, Ide.setBuf, waits_wakeup]
    obtain ⟨_, hwaits, hlast⟩ := hinv.pending (k + 1) r' hk
    refine ⟨hinv.tail_buf hk _, hwaits, ?_⟩
    rw [hlast, length_append, length_singleton]
    omega
  ask := by
    rw [append_assoc]
    exact hinv.ask
  last := by
    intro q j hq
    simp only [afterIntr, inside_wakeup] at hq
    rw [append_assoc]
    exact hinv.last q j hq
  returned := by
    intro q j hq
    have hlt := hinv.returned q j (returned_of_wakeup hq)
    rw [length_append]
    exact Nat.lt_add_right _ hlt
  device := hv

lemma DiskInv.ideintr (hinv : DiskInv d s h fin (r :: pend)) (hqueue : QueueInv s h fin (r :: pend))
    (hdevice : s.device = .done data) (hv : ∀ data, v ≠ .done data) :
    DiskInv d (afterIntr s r pend data v)
      { h with
        completed := h.completed ++ s.queue.take 1,
        started := h.started ++ (s.queue.drop 1).take 1 } (fin ++ [r]) pend where
  disk := by
    have hexec : v.executed pend = [] := by
      cases v with
      | done data => exact absurd rfl (hv data)
      | _ => rfl
    have hdisk := hinv.disk
    rw [hdevice] at hdisk
    simp only [afterIntr, Ide.setBuf]
    rw [hexec, append_nil, hdisk]
    rfl
  port := fun data _ _ hdata => absurd hdata (hv data)
  result := by
    intro q j hq hlt
    simp only [afterIntr, Ide.setBuf, inside_wakeup] at hq ⊢
    rw [transfers_concat]
    rcases Nat.lt_succ_iff_lt_or_eq.mp (length_append ▸ hlt) with hlt | heq
    · rw [update_of_ne (hqueue.ne_head hq hlt), List.getElem?_append_left (by rwa [length_transfers])]
      exact hinv.result q j hq hlt
    · -- the request that has just been completed
      obtain ⟨r', hr', _, rfl⟩ := hqueue.last q j hq
      rw [heq, List.getElem?_append_right (Nat.le_refl _), Nat.sub_self] at hr'
      cases hr'
      rw [update_self, hqueue.head_buf, hinv.port data r pend hdevice rfl, heq,
        ← length_transfers (d := d), List.getElem?_concat_length]

/-- `ideintr` panics, or it completes the first request and starts the next one. -/
lemma QueueInv.ideintr_cases (hinv : QueueInv s h fin pend) (hdevice : s.device = .done data) :
    ∃ r rest, pend = r :: rest ∧ ((∃ e, Ide.ideintr s data = { s with panic := some e }) ∨
      ∃ v, Ide.ideintr s data = afterIntr s r rest data v ∧ v.Serves rest ∧ ∀ data, v ≠ .done data) := by
  have hserves := hinv.device
  rw [hdevice] at hserves
  obtain ⟨r, rest, rfl, _⟩ := hserves
  refine ⟨r, rest, rfl, ?_⟩
  rw [Ide.ideintr, show s.queue = r.id :: rest.map Req.id from hinv.queue]
  cases rest with
  | nil => exact .inr ⟨.idle, rfl, rfl, fun _ h => by cases h⟩
  | cons r' rest =>
    have hbuf : update s.buf r.id ((s.buf r.id).finish data) r'.id = r'.buf :=
      hinv.tail_buf (k := 0) rfl _
    simp only [map_cons, Ide.setBuf, hbuf]
    cases hstart : idestart r'.buf with
    | error e => exact .inl ⟨e, rfl⟩
    | ok =>
      obtain ⟨rfl, hblock⟩ := idestart_ok hstart
      exact .inr ⟨_, rfl, ⟨r', rest, rfl, rfl, hblock⟩, fun _ h => by cases h⟩

lemma IdeInv.ideintr (hinv : IdeInv d s h) (hpanic : s.panic = none) (hdevice : s.device = .done data) :
    IdeInv d (ideintr s data) (nextHist s .ideintr (ideintr s data) h) := by
  obtain ⟨fin, pend, hqueue, hdisk⟩ := hinv
  obtain ⟨r, rest, rfl, ⟨e, heq⟩ | ⟨v, heq, hserves, hv⟩⟩ := hqueue.ideintr_cases hdevice
  · rw [heq, nextHist, if_neg (by intro h; cases h)]
    exact IdeInv.panic ⟨fin, r :: rest, hqueue, hdisk⟩ _
  · rw [heq, nextHist, if_pos (show (afterIntr _ _ _ _ _).panic = none from hpanic)]
    refine ⟨fin ++ [r], rest, hqueue.ideintr hserves, fun hdev => ?_⟩
    rw [append_assoc] at hdev
    exact (hdisk hdev).ideintr hqueue hdevice hv

/-! ### The other steps -/

lemma IdeInv.disk {c : Cmd} (hinv : IdeInv d s h) (hdevice : s.device = .busy c) :
    IdeInv d { s with disk := (c.exec s.disk).1, device := .done (c.exec s.disk).2 } h := by
  obtain ⟨fin, pend, hq, hdisk⟩ := hinv
  have hserves := hq.device
  rw [hdevice] at hserves
  obtain ⟨r, rest, rfl, rfl, hblock⟩ := hserves
  refine ⟨fin, r :: rest, ⟨hq.issued, hq.completed, hq.queue, hq.started, hq.nodup, hq.lock,
    hq.pending, hq.ask, hq.last, hq.returned, ⟨r, rest, rfl, hblock⟩⟩, fun hdev => ?_⟩
  obtain ⟨hd, _, hresult⟩ := hdisk hdev
  rw [hdevice] at hd
  have hnone : (Device.busy r.buf.cmd).executed (r :: rest) = [] := rfl
  rw [hnone, append_nil] at hd
  have hexec := exec_cmd (hdev r (by simp)) hblock s.disk
  rw [hd] at hexec
  refine ⟨?_, ?_, hresult⟩
  · dsimp only
    rw [hexec.1, Device.executed, take_succ_cons, take_zero, transfers_concat]
  · intro data r' rest' hdata hcons
    obtain ⟨rfl, -⟩ := List.cons.inj hcons
    cases hdata
    exact hexec.2

lemma QueueInv.index_of_clean (hinv : QueueInv s h fin pend) (hq : (s.pc q).inside = some i)
    (hclean : (s.buf i).clean = true) : h.last q < fin.length := by
  obtain ⟨r, hr, rfl, rfl⟩ := hinv.last q i hq
  by_contra hge
  have hle : fin.length ≤ h.last r.proc := Nat.le_of_not_lt hge
  rw [List.getElem?_append_right hle] at hr
  obtain ⟨hbuf, _⟩ := hinv.pending _ r hr
  have hask := (hinv.ask r (mem_append_right _ (mem_of_getElem? hr))).2
  rw [← hbuf, hclean] at hask
  cases hask

/-- A process goes on in `iderw`, or leaves it with its request completed. -/
lemma IdeInv.move {x : Pc} (hinv : IdeInv d s h) (hx : x.inside = none ∨ x.inside = (s.pc q).inside)
    (hwaits : x.waits = (s.pc q).waits ∨ ∃ i, (s.pc q).inside = some i ∧ (s.buf i).clean = true)
    (hret : ∀ i, x = .returned i → (s.pc q).inside = some i ∧ (s.buf i).clean = true) :
    IdeInv d (setPc s q x) h := by
  obtain ⟨fin, pend, hqueue, hdisk⟩ := hinv
  have hinside : ∀ q' i, ((setPc s q x).pc q').inside = some i → (s.pc q').inside = some i := by
    intro q' i hq'
    simp only [Ide.setPc] at hq'
    by_cases hqq : q' = q
    · subst hqq
      rw [update_self] at hq'
      rcases hx with hnone | hsame
      · cases hnone.symm.trans hq'
      · rwa [← hsame]
    · rwa [update_of_ne hqq] at hq'
  refine ⟨fin, pend, ⟨hqueue.issued, hqueue.completed, hqueue.queue, hqueue.started, hqueue.nodup,
    fun q' i hq' => hqueue.lock q' i (hinside q' i hq'), ?_, hqueue.ask,
    fun q' i hq' => hqueue.last q' i (hinside q' i hq'), ?_, hqueue.device⟩, fun hdev => ?_⟩
  · intro k r hr
    obtain ⟨hbuf, hwait, hlast⟩ := hqueue.pending k r hr
    refine ⟨hbuf, ?_, hlast⟩
    simp only [Ide.setPc]
    by_cases hqq : r.proc = q
    · subst hqq
      rw [update_self]
      rcases hwaits with hsame | ⟨i, hi, hclean⟩
      · rw [hsame, hwait]
      · -- a pending request is not completed
        have hlt := hqueue.index_of_clean hi hclean
        omega
    · rw [update_of_ne hqq, hwait]
  · intro q' i hq'
    simp only [Ide.setPc] at hq'
    by_cases hqq : q' = q
    · subst hqq
      rw [update_self] at hq'
      obtain ⟨hi, hclean⟩ := hret i hq'
      exact hqueue.index_of_clean hi hclean
    · rw [update_of_ne hqq] at hq'
      exact hqueue.returned q' i hq'
  · obtain ⟨hd, hport, hresult⟩ := hdisk hdev
    exact ⟨hd, hport, fun q' i hq' => hresult q' i (hinside q' i hq')⟩

/-! ### What a step does -/

lemma step_panic (hstep : step s l = some s') : s.panic = none ∧ liveStep s l = some s' := by
  rw [step] at hstep
  split_ifs at hstep with hpanic
  exact ⟨hpanic, hstep⟩

lemma step_acquiresleep (hstep : step s (.acquiresleep q i) = some s') :
    s.pc q = .user ∧ (s.buf i).lock = none ∧ s' = setBuf s i { s.buf i with lock := some q } := by
  have hlive := (step_panic hstep).2
  simp only [liveStep] at hlive
  split at hlive
  · rename_i hpc
    split_ifs at hlive with hlock
    exact ⟨hpc, hlock, (some.inj hlive).symm⟩
  · cases hlive

lemma withBuf_eq_some (hstep : withBuf s q i x = some s') :
    s.pc q = .user ∧ (s.buf i).lock = some q ∧ s' = setBuf s i x := by
  rw [withBuf] at hstep
  split at hstep
  · rename_i hpc
    split_ifs at hstep with hlock
    exact ⟨hpc, hlock, (some.inj hstep).symm⟩
  · cases hstep

lemma step_iderw (hstep : step s (.iderw q i) = some s') : s.pc q = .user ∧ s' = iderw s q i := by
  have hlive := (step_panic hstep).2
  simp only [liveStep] at hlive
  split at hlive
  · rename_i hpc
    exact ⟨hpc, (some.inj hlive).symm⟩
  · cases hlive

lemma step_run (hstep : step s (.run q) = some s') :
    ∃ i, s.pc q = .waiting i false ∧
      s' = setPc s q (if (s.buf i).clean then .returned i else .waiting i true) := by
  have hlive := (step_panic hstep).2
  simp only [liveStep] at hlive
  split at hlive
  · rename_i i hpc
    exact ⟨i, hpc, (some.inj hlive).symm⟩
  · cases hlive

lemma step_leave (hstep : step s (.leave q) = some s') :
    ∃ i, s.pc q = .returned i ∧ s' = setPc s q .user := by
  have hlive := (step_panic hstep).2
  simp only [liveStep] at hlive
  split at hlive
  · rename_i i hpc
    exact ⟨i, hpc, (some.inj hlive).symm⟩
  · cases hlive

lemma step_disk (hstep : step s .disk = some s') :
    ∃ c, s.device = .busy c ∧
      s' = { s with disk := (c.exec s.disk).1, device := .done (c.exec s.disk).2 } := by
  have hlive := (step_panic hstep).2
  simp only [liveStep] at hlive
  split at hlive
  · rename_i c hdevice
    exact ⟨c, hdevice, (some.inj hlive).symm⟩
  · cases hlive

lemma step_ideintr (hstep : step s .ideintr = some s') :
    ∃ data, s.device = .done data ∧ s' = ideintr s data := by
  have hlive := (step_panic hstep).2
  simp only [liveStep] at hlive
  split at hlive
  · rename_i data hdevice
    exact ⟨data, hdevice, (some.inj hlive).symm⟩
  · cases hlive

lemma IdeInv.step (hinv : IdeInv d s h) (hstep : step s l = some s') : IdeInv d s' (nextHist s l s' h) := by
  obtain ⟨hpanic, hlive⟩ := step_panic hstep
  cases l with
  | acquiresleep =>
    simp only [nextHist, ite_self]
    obtain ⟨hpc, hlock, rfl⟩ := step_acquiresleep hstep
    exact hinv.setBuf hpc (.inl hlock) _
  | releasesleep | edit =>
    simp only [nextHist, ite_self]
    obtain ⟨hpc, hlock, rfl⟩ := withBuf_eq_some hlive
    exact hinv.setBuf hpc (.inr hlock) _
  | iderw =>
    obtain ⟨hpc, rfl⟩ := step_iderw hstep
    exact hinv.iderw hpanic hpc
  | run =>
    simp only [nextHist, ite_self]
    obtain ⟨i, hpc, rfl⟩ := step_run hstep
    refine hinv.move ?_ ?_ ?_
    · rw [hpc]
      split_ifs <;> exact .inr rfl
    · rw [hpc]
      split_ifs with hclean
      · exact .inr ⟨i, rfl, hclean⟩
      · exact .inl rfl
    · intro j hj
      split_ifs at hj with hclean
      cases hj
      exact ⟨by rw [hpc]; rfl, hclean⟩
  | leave =>
    simp only [nextHist, ite_self]
    obtain ⟨i, hpc, rfl⟩ := step_leave hstep
    refine hinv.move (.inl rfl) (.inl ?_) ?_
    · rw [hpc]
      rfl
    · intro j hj
      cases hj
  | disk =>
    simp only [nextHist, ite_self]
    obtain ⟨c, hdevice, rfl⟩ := step_disk hstep
    exact hinv.disk hdevice
  | ideintr =>
    obtain ⟨data, hdevice, rfl⟩ := step_ideintr hstep
    exact hinv.ideintr hpanic hdevice

lemma ideInv_start (hs : Start s) : IdeInv (s.disk 1) s .zero := by
  have hpc : ∀ q, (s.pc q).inside = none := fun q => by rw [hs.pc q]; rfl
  refine ⟨[], [], ⟨rfl, rfl, hs.queue, ?_, nodup_nil, ?_, ?_, ?_, ?_, ?_, ?_⟩, fun _ => ?_⟩
  · rw [hs.queue]
    rfl
  · intro q i hq
    cases (hpc q).symm.trans hq
  · intro k r hr
    cases hr
  · intro r hr
    cases hr
  · intro q i hq
    cases (hpc q).symm.trans hq
  · intro q i hq
    rw [hs.pc q] at hq
    cases hq
  · rw [hs.device]
    rfl
  · refine ⟨?_, ?_, ?_⟩
    · rw [hs.device]
      rfl
    · intro data r rest _ hcons
      cases hcons
    · intro q i hq
      cases (hpc q).symm.trans hq

lemma QueueInv.idle_iff (hinv : QueueInv s h fin pend) : s.device = .idle ↔ s.queue = [] := by
  have hserves := hinv.device
  rw [hinv.queue, map_eq_nil_iff]
  cases hdevice : s.device with
  | idle =>
    rw [hdevice] at hserves
    exact ⟨fun _ => hserves, fun _ => rfl⟩
  | busy | done =>
    rw [hdevice] at hserves
    obtain ⟨r, rest, rfl, _⟩ := hserves
    constructor <;> intro h <;> cases h

/-! ### What the callers rely on -/

/-- A state in which the queue and the disk are at the requests made so far. -/
def Sound (s : State) : Prop := ∃ d h, IdeInv d s h

lemma Sound.step (hs : Sound s) (hstep : step s l = some s') : Sound s' := by
  obtain ⟨d, h, hinv⟩ := hs
  exact ⟨d, _, hinv.step hstep⟩

lemma Sound.setBuf (hs : Sound s) (hout : ∀ q, (s.pc q).inside ≠ some i) (x : Buf) :
    Sound (setBuf s i x) := by
  obtain ⟨d, h, fin, pend, hqueue, hdisk⟩ := hs
  exact ⟨d, h, fin, pend, hqueue.setBuf hout x, fun hdev => (hdisk hdev).setBuf hout x⟩

lemma Sound.lock (hs : Sound s) (hq : (s.pc q).inside = some i) : (s.buf i).lock = some q := by
  obtain ⟨_, _, _, _, hqueue, _⟩ := hs
  exact hqueue.lock q i hq

/-- The process of the first request is in `iderw`. -/
lemma Sound.head {rest : List BufId} (hs : Sound s) (hi : s.queue = i :: rest) :
    ∃ q, (s.pc q).inside = some i ∧ (s.buf i).clean = false := by
  obtain ⟨_, _, fin, pend, hqueue, _⟩ := hs
  rw [hqueue.queue, map_eq_cons_iff] at hi
  obtain ⟨r, rest, rfl, rfl, _⟩ := hi
  obtain ⟨hbuf, hwaits, _⟩ := hqueue.pending 0 r rfl
  refine ⟨r.proc, inside_of_waits hwaits, ?_⟩
  rw [hbuf]
  exact (hqueue.ask r (mem_append_right _ mem_cons_self)).2

/-- The disk executes the command of the first request. -/
lemma Sound.busy {c : Cmd} (hs : Sound s) (hc : s.device = .busy c) :
    ∃ i rest, s.queue = i :: rest ∧ c = (s.buf i).cmd ∧ (s.buf i).blockno.toNat < FSSIZE := by
  obtain ⟨_, _, fin, pend, hqueue, _⟩ := hs
  have hserves := hqueue.device
  rw [hc] at hserves
  obtain ⟨r, rest, rfl, rfl, hblock⟩ := hserves
  refine ⟨r.id, rest.map Req.id, hqueue.queue, ?_⟩
  rw [hqueue.head_buf]
  exact ⟨rfl, hblock⟩

lemma Sound.ideintr (hs : Sound s) (hdevice : s.device = .done data) :
    ∃ i rest, s.queue = i :: rest ∧ ((∃ e, Ide.ideintr s data = { s with panic := some e }) ∨
      ∃ v : Device, (∀ data, v ≠ .done data) ∧
        Ide.ideintr s data = { Ide.setBuf s i ((s.buf i).finish data) with
          queue := rest, pc := fun q => (s.pc q).wakeup i, device := v }) := by
  obtain ⟨_, _, fin, pend, hqueue, _⟩ := hs
  obtain ⟨r, rest, rfl, hcases⟩ := hqueue.ideintr_cases hdevice
  refine ⟨r.id, rest.map Req.id, hqueue.queue, ?_⟩
  rcases hcases with herr | ⟨v, heq, _, hv⟩
  · exact .inl herr
  · exact .inr ⟨v, hv, heq⟩

/-! ### The refinement -/

/-- The driver compared with `memide.c` on a disk that was `d`. -/
structure Refines (d : Disk) (s : State) (h : Hist) : Prop where
  /-- the disk works on the first request of the queue, and only then it works -/
  idle : s.device = .idle ↔ s.queue = []
  head : ∀ c, s.device = .busy c → ∃ i, s.queue.head? = some i ∧ c = (s.buf i).cmd
  /-- requests are started and completed in the order of the queue, each once -/
  queue : h.issued.map Req.id = h.completed ++ s.queue
  started : h.started = h.completed ++ s.queue.take 1
  nodup : s.queue.Nodup
  /-- `memide.c` carries out the same requests: a number of them that includes the completed ones give
      the disk, and a buffer with which `iderw` has returned is that of its request -/
  refine : ∀ disksize, (∀ r ∈ h.issued, r.buf.dev = 1 ∧ r.buf.blockno.toNat < disksize) →
    ∃ n bufs, h.completed.length ≤ n ∧ n ≤ h.started.length ∧
      memRun disksize d (h.issued.take n) = .ok (s.disk 1, bufs) ∧
      ∀ q i, s.pc q = .returned i →
        (∃ r, h.issued[h.last q]? = some r ∧ r.proc = q ∧ r.id = i) ∧
          bufs[h.last q]? = some (s.buf i)

lemma executed_prefix (v : Device) (pend : List Req) : ∃ k, v.executed pend = pend.take k ∧ k ≤ 1 := by
  cases v with
  | done => exact ⟨1, rfl, Nat.le_refl 1⟩
  | _ => exact ⟨0, rfl, Nat.zero_le 1⟩

lemma transfers_append_getElem {k : Nat} (hk : k < fin.length) (rs : List Req) :
    (transfers d (fin ++ rs)).2[k]? = (transfers d fin).2[k]? := by
  induction rs using List.reverseRecOn with
  | nil => rw [append_nil]
  | append_singleton rs r ih =>
    rw [← append_assoc, transfers_concat, List.getElem?_append_left, ih]
    rw [length_transfers, length_append]
    exact Nat.lt_add_right _ hk

lemma QueueInv.refine (hinv : QueueInv s h fin pend) (hdisk : DiskInv d s h fin pend)
    (hreq : ∀ r ∈ fin ++ pend, r.buf.dev = 1 ∧ r.buf.blockno.toNat < disksize) :
    ∃ n bufs, h.completed.length ≤ n ∧ n ≤ h.started.length ∧
      memRun disksize d (h.issued.take n) = .ok (s.disk 1, bufs) ∧
      ∀ q i, s.pc q = .returned i →
        (∃ r, h.issued[h.last q]? = some r ∧ r.proc = q ∧ r.id = i) ∧ bufs[h.last q]? = some (s.buf i) := by
  obtain ⟨k, hexec, hk⟩ := executed_prefix s.device pend
  have htake : (fin ++ pend).take (fin.length + (pend.take k).length) = fin ++ pend.take k := by
    rw [take_length_add_append, ← prefix_iff_eq_take.mp (List.take_prefix k pend)]
  refine ⟨fin.length + (pend.take k).length, (transfers d (fin ++ pend.take k)).2, ?_, ?_, ?_, ?_⟩
  · rw [hinv.completed, length_map]
    exact Nat.le_add_right _ _
  · rw [hinv.started, hinv.completed, hinv.queue, length_append, length_map,
      length_take, length_take, length_map]
    omega
  · have hok : ∀ r ∈ fin ++ pend.take k, r.Ok disksize := by
      intro r hr
      have hmem : r ∈ fin ++ pend := by
        rcases mem_append.mp hr with hr | hr
        · exact mem_append_left _ hr
        · exact mem_append_right _ (mem_of_mem_take hr)
      obtain ⟨hlock, hask⟩ := hinv.ask r hmem
      exact ⟨hlock, hask, (hreq r hmem).1, (hreq r hmem).2⟩
    rw [hinv.issued, htake, memRun_ok hok, hdisk.disk, hexec]
  · intro q i hq
    have hinside : (s.pc q).inside = some i := by
      rw [hq]
      rfl
    have hlt := hinv.returned q i hq
    refine ⟨hinv.issued ▸ hinv.last q i hinside, ?_⟩
    rw [transfers_append_getElem hlt]
    exact hdisk.result q i hinside hlt

/-- In every run the interrupt-driven driver refines the one in memory. -/
theorem refines_memide {s₀ : State} (hstart : Start s₀) {x : State × Hist}
    (hrun : Reach (withHistory step nextHist) Always (s₀, .zero) x) :
    Refines (s₀.disk 1) x.1 x.2 := by
  have hinv : IdeInv (s₀.disk 1) x.1 x.2 := by
    refine hrun.invariant (I := fun y => IdeInv (s₀.disk 1) y.1 y.2) (ideInv_start hstart) ?_
    rintro y l z hinv _ hstep
    obtain ⟨hst, hnext⟩ := withHistory_eq_some.mp hstep
    rw [hnext]
    exact hinv.step hst
  obtain ⟨fin, pend, hqueue, hdisk⟩ := hinv
  refine ⟨hqueue.idle_iff, ?_, ?_, hqueue.started, hqueue.queue ▸ hqueue.nodup, ?_⟩
  · intro c hc
    have hserves := hqueue.device
    rw [hc] at hserves
    obtain ⟨r, rest, rfl, rfl, _⟩ := hserves
    refine ⟨r.id, by rw [hqueue.queue]; rfl, ?_⟩
    rw [hqueue.head_buf]
  · rw [hqueue.issued, hqueue.completed, hqueue.queue, List.map_append]
  · intro disksize hreq
    rw [hqueue.issued] at hreq
    exact hqueue.refine (hdisk fun r hr => (hreq r hr).1) hreq

/-- One process writes block 5 and another one reads it into a second buffer. -/
theorem refines_memide_two_requests : ∃ x : State × Hist,
    Reach (withHistory step nextHist) Always (emptyDisks, .zero) x ∧
      x.1.pc 1 = .returned 1 ∧ x.2.completed = [0, 1] ∧
      Refines (emptyDisks.disk 1) x.1 x.2 := by
  have hexec : ∃ x : State × Hist,
      Reach (withHistory step nextHist) Always (emptyDisks, .zero) x ∧
        x.1.pc 1 = .returned 1 ∧ x.2.completed = [0, 1] :=
    Reach.exists_of_exec
      [.acquiresleep 0 0, .acquiresleep 1 1, .edit 0 0 true true 1 5 fun _ => 7, .iderw 0 0, .disk,
        .iderw 1 1, .ideintr, .disk, .run 0, .ideintr, .run 1] (by decide +kernel)
  obtain ⟨x, hrun, hpc, hcompleted⟩ := hexec
  exact ⟨x, hrun, hpc, hcompleted, refines_memide start_emptyDisks hrun⟩

end Xv6.Ide
