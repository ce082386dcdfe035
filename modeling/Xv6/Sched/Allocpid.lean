import Mathlib.Data.List.Perm.Basic
import Mathlib.Data.List.Nodup
import Mathlib.Logic.Function.Basic
import Mathlib.Order.Nat
import Xv6.Machine.Bytes
import Xv6.Machine.Run

/-!
# Process identifiers

Any number of CPUs run `allocpid`. An attempt reads `nextpid` three times, for `old`, for `pid` and for
the new value, before its `cas`, and other CPUs take steps in between. As `nextpid` only grows, a `cas`
that succeeds has read the same value each time.
-/

namespace Xv6.Allocpid

open Machine Function List

abbrev CpuId := Nat

/-- Where a CPU is in `allocpid`: before each read, at the `cas` and at the `return`. -/
inductive Pc
  | idle
  | old
  | pid (old : Word)
  | next (old pid : Word)
  | cas (old pid next : Word)
  | ret (pid : Word)
  deriving DecidableEq

structure State where
  nextpid : Word
  pc : CpuId → Pc
  /-- history: how many times a `cas` has succeeded -/
  taken : Nat
  /-- history: what the calls have returned -/
  returned : List Word

def setPc (s : State) (c : CpuId) (x : Pc) : State := { s with pc := Function.update s.pc c x }

inductive Label
  | call (c : CpuId)
  | run (c : CpuId)

def runStep (s : State) (c : CpuId) : Option State :=
  match s.pc c with
  | .idle => none
  | .old => some (setPc s c (.pid s.nextpid))
  | .pid old => some (setPc s c (.next old (s.nextpid + 1)))
  | .next old pid => some (setPc s c (.cas old pid (s.nextpid + 1)))
  | .cas old pid next =>
    if s.nextpid = old then
      some (setPc { s with nextpid := next, taken := s.taken + 1 } c (.ret pid))
    else some (setPc s c .old)
  | .ret pid => some (setPc { s with returned := pid :: s.returned } c .idle)

def step (s : State) : Label → Option State
  | .call c => if s.pc c = .idle then some (setPc s c .old) else none
  | .run c => runStep s c

/-- `nextpid` is 1 when the kernel starts. -/
def boot : State := ⟨1, fun _ => .idle, 0, []⟩

/-! ### The values read -/

variable {s s' : State} {c d : CpuId} {l : Label} {n : Nat} {x : Pc} {pc : CpuId → Pc}
  {returned : List Word} {v : Word}

/-- The value of `nextpid` after `n` allocations, and the `n`-th pid. -/
def nth (n : Nat) : Word := BitVec.ofNat 32 (n + 1)

lemma nth_succ (n : Nat) : nth n + 1 = nth (n + 1) := by
  rw [nth, nth, BitVec.ofNat_add (n + 1) 1]
  rfl

def INT_MAX : Nat := 2147483647

lemma nth_inj {m k : Nat} (hm : m < INT_MAX) (hk : k < INT_MAX) (h : nth m = nth k) : m = k := by
  have hnat := congrArg BitVec.toNat h
  simp only [nth, BitVec.toNat_ofNat, INT_MAX] at hm hk hnat
  omega

/-- What a CPU has read, when `n` allocations have been made: each value is at least as old as the one
    read after it. -/
def Read (n : Nat) : Pc → Prop
  | .idle | .old => True
  | .pid old => ∃ i ≤ n, old = nth i
  | .next old pid => ∃ j ≤ n, ∃ i ≤ j, old = nth i ∧ pid = nth (j + 1)
  | .cas old pid next =>
    ∃ k ≤ n, ∃ j ≤ k, ∃ i ≤ j, old = nth i ∧ pid = nth (j + 1) ∧ next = nth (k + 1)
  | .ret pid => ∃ i, 1 ≤ i ∧ i ≤ n ∧ pid = nth i

lemma Read.mono {m : Nat} (h : Read n x) (hle : n ≤ m) : Read m x := by
  cases x with
  | idle => trivial
  | old => trivial
  | pid =>
    obtain ⟨i, hi, hold⟩ := h
    exact ⟨i, hi.trans hle, hold⟩
  | next =>
    obtain ⟨j, hj, hrest⟩ := h
    exact ⟨j, hj.trans hle, hrest⟩
  | cas =>
    obtain ⟨k, hk, hrest⟩ := h
    exact ⟨k, hk.trans hle, hrest⟩
  | ret =>
    obtain ⟨i, hi, hin, hpid⟩ := h
    exact ⟨i, hi, hin.trans hle, hpid⟩

/-! ### The invariant -/

/-- The first `n` pids are each returned or about to be returned by one CPU. -/
structure Pids (n : Nat) (pc : CpuId → Pc) (returned : List Word) : Prop where
  nodup : returned.Nodup
  mem : ∀ v ∈ returned, ∃ i, 1 ≤ i ∧ i ≤ n ∧ v = nth i
  fresh : ∀ c v, pc c = .ret v → v ∉ returned
  once : ∀ c d v, pc c = .ret v → pc d = .ret v → c = d
  cover : ∀ i, 1 ≤ i → i ≤ n → nth i ∈ returned ∨ ∃ c, pc c = .ret (nth i)

structure Inv (s : State) : Prop where
  nextpid : s.nextpid = nth s.taken
  read : ∀ c, Read s.taken (s.pc c)
  pids : Pids s.taken s.pc s.returned

/-- The CPU is about to return. -/
def Pc.isRet : Pc → Bool
  | .ret _ => true
  | _ => false

lemma update_eq_ret (hx : x.isRet = false) : update pc c x d = .ret v ↔ d ≠ c ∧ pc d = .ret v := by
  by_cases hd : d = c
  · subst hd
    rw [update_self]
    constructor
    · rintro rfl
      cases hx
    · exact fun h => absurd rfl h.1
  · rw [update_of_ne hd]
    exact ⟨fun h => ⟨hd, h⟩, fun h => h.2⟩

/-- A CPU that is not about to return goes on. -/
lemma Pids.go (h : Pids n pc returned) (hc : (pc c).isRet = false) (hx : x.isRet = false) :
    Pids n (update pc c x) returned := by
  have hret : ∀ d v, update pc c x d = .ret v ↔ pc d = .ret v := by
    intro d v
    rw [update_eq_ret hx, and_iff_right_iff_imp]
    rintro hd rfl
    rw [hd] at hc
    cases hc
  refine ⟨h.nodup, h.mem, fun d v => ?_, fun d e v => ?_, fun i => ?_⟩
  · rw [hret]
    exact h.fresh d v
  · rw [hret, hret]
    exact h.once d e v
  · simp only [hret]
    exact h.cover i

/-- The next pid is taken. -/
lemma Pids.take (h : Pids n pc returned) (hread : ∀ d, Read n (pc d)) (hn : n + 1 < INT_MAX)
    (hc : (pc c).isRet = false) : Pids (n + 1) (update pc c (.ret (nth (n + 1)))) returned := by
  have hnew : ∀ i, i ≤ n → nth i ≠ nth (n + 1) := by
    intro i hi heq
    have hin := nth_inj (by omega) hn heq
    omega
  have hold : ∀ d, pc d ≠ .ret (nth (n + 1)) := by
    intro d hd
    obtain ⟨i, _, hi, heq⟩ : Read n (.ret (nth (n + 1))) := hd ▸ hread d
    exact hnew i hi heq.symm
  refine ⟨h.nodup, fun v hv => ?_, fun d v hd => ?_, fun d e v hd he => ?_, fun i hi hin => ?_⟩
  · obtain ⟨i, hi, hin, hv⟩ := h.mem v hv
    exact ⟨i, hi, Nat.le_succ_of_le hin, hv⟩
  · by_cases hdc : d = c
    · subst hdc
      rw [update_self] at hd
      cases hd
      intro hmem
      obtain ⟨i, _, hi, heq⟩ := h.mem _ hmem
      exact hnew i hi heq.symm
    · rw [update_of_ne hdc] at hd
      exact h.fresh d v hd
  · by_cases hdc : d = c <;> by_cases hec : e = c
    · rw [hdc, hec]
    · subst hdc
      rw [update_self] at hd
      rw [update_of_ne hec] at he
      cases hd
      exact absurd he (hold e)
    · subst hec
      rw [update_self] at he
      rw [update_of_ne hdc] at hd
      cases he
      exact absurd hd (hold d)
    · rw [update_of_ne hdc] at hd
      rw [update_of_ne hec] at he
      exact h.once d e v hd he
  · by_cases hlast : i = n + 1
    · subst hlast
      exact .inr ⟨c, update_self ..⟩
    · refine (h.cover i hi (by omega)).imp_right ?_
      rintro ⟨d, hd⟩
      refine ⟨d, ?_⟩
      rwa [update_of_ne]
      rintro rfl
      rw [hd] at hc
      cases hc

/-- A call returns. -/
lemma Pids.ret (h : Pids n pc returned) (hread : ∀ d, Read n (pc d)) (hc : pc c = .ret v) :
    Pids n (update pc c .idle) (v :: returned) := by
  have hret : ∀ d w, update pc c .idle d = .ret w ↔ d ≠ c ∧ pc d = .ret w :=
    fun d w => update_eq_ret rfl
  refine ⟨nodup_cons.mpr ⟨h.fresh c v hc, h.nodup⟩, fun w hw => ?_, fun d w hd => ?_,
    fun d e w hd he => ?_, fun i hi hin => ?_⟩
  · rcases mem_cons.mp hw with rfl | hw
    · exact (hc ▸ hread c : Read n (.ret w))
    · exact h.mem w hw
  · obtain ⟨hdc, hd⟩ := (hret d w).mp hd
    rw [mem_cons, not_or]
    refine ⟨?_, h.fresh d w hd⟩
    rintro rfl
    exact hdc (h.once d c w hd hc)
  · exact h.once d e w ((hret d w).mp hd).2 ((hret e w).mp he).2
  · rcases h.cover i hi hin with hmem | ⟨d, hd⟩
    · exact .inl (mem_cons_of_mem _ hmem)
    · by_cases hdc : d = c
      · subst hdc
        rw [hc] at hd
        cases hd
        exact .inl (mem_cons_self ..)
      · exact .inr ⟨d, (hret d _).mpr ⟨hdc, hd⟩⟩

/-! ### Steps -/

/-- A CPU that is not about to return goes on, and has read what it should. -/
lemma Inv.go {y : Pc} (h : Inv s) (hc : s.pc c = y) (hy : y.isRet = false) (hx : x.isRet = false)
    (hread : Read s.taken x) : Inv (setPc s c x) := by
  refine ⟨h.nextpid, ?_, h.pids.go (hc ▸ hy) hx⟩
  exact (forall_update_iff s.pc (p := fun _ y => Read s.taken y)).mpr ⟨hread, fun d _ => h.read d⟩

/-- The `cas` succeeds: all three reads saw the same value. -/
lemma Inv.cas {old pid next : Word} (h : Inv s) (hc : s.pc c = .cas old pid next)
    (hold : s.nextpid = old) (hn : s.taken + 1 < INT_MAX) :
    Inv (setPc { s with nextpid := next, taken := s.taken + 1 } c (.ret pid)) := by
  obtain ⟨k, hk, j, hj, i, hi, rfl, rfl, rfl⟩ : Read s.taken (.cas old pid next) := hc ▸ h.read c
  have heq : s.taken = i := nth_inj (by omega) (by omega) (h.nextpid.symm.trans hold)
  obtain rfl : j = s.taken := by omega
  obtain rfl : k = s.taken := by omega
  refine ⟨rfl, ?_, h.pids.take h.read hn (hc ▸ rfl)⟩
  exact (forall_update_iff s.pc (p := fun _ y => Read (s.taken + 1) y)).mpr
    ⟨⟨s.taken + 1, by omega, le_rfl, rfl⟩, fun d _ => (h.read d).mono (Nat.le_succ _)⟩

lemma Inv.ret {pid : Word} (h : Inv s) (hc : s.pc c = .ret pid) :
    Inv (setPc { s with returned := pid :: s.returned } c .idle) := by
  refine ⟨h.nextpid, ?_, h.pids.ret h.read hc⟩
  exact (forall_update_iff s.pc (p := fun _ y => Read s.taken y)).mpr ⟨trivial, fun d _ => h.read d⟩

lemma Inv.run (h : Inv s) (hstep : runStep s c = some s') (hn : s'.taken < INT_MAX) : Inv s' := by
  have hread := h.read c
  rw [runStep] at hstep
  split at hstep
  · cases hstep
  · rename_i hpc
    cases hstep
    exact h.go hpc rfl rfl ⟨s.taken, le_rfl, h.nextpid⟩
  · rename_i hpc
    cases hstep
    rw [hpc] at hread
    obtain ⟨i, hi, hold⟩ := hread
    refine h.go hpc rfl rfl ⟨s.taken, le_rfl, i, hi, hold, ?_⟩
    rw [h.nextpid, nth_succ]
  · rename_i hpc
    cases hstep
    rw [hpc] at hread
    obtain ⟨j, hj, i, hi, hold, hpid⟩ := hread
    refine h.go hpc rfl rfl ⟨s.taken, le_rfl, j, hj, i, hi, hold, hpid, ?_⟩
    rw [h.nextpid, nth_succ]
  · rename_i hpc
    split_ifs at hstep with hold
    · cases hstep
      exact h.cas hpc hold hn
    · cases hstep
      exact h.go hpc rfl rfl trivial
  · rename_i hpc
    cases hstep
    exact h.ret hpc

lemma Inv.step (h : Inv s) (hstep : step s l = some s') (hn : s'.taken < INT_MAX) : Inv s' := by
  cases l with
  | call =>
    simp only [Allocpid.step] at hstep
    split_ifs at hstep with hidle
    cases hstep
    exact h.go hidle rfl rfl trivial
  | run => exact h.run hstep hn

lemma taken_mono (hstep : step s l = some s') : s.taken ≤ s'.taken := by
  cases l with
  | call =>
    simp only [step] at hstep
    split_ifs at hstep
    cases hstep
    exact le_rfl
  | run =>
    simp only [step, runStep] at hstep
    split at hstep
    all_goals try split_ifs at hstep
    all_goals cases hstep
    all_goals simp [setPc]

lemma inv_boot : Inv boot where
  nextpid := rfl
  read := fun _ => trivial
  pids :=
    { nodup := nodup_nil
      mem := fun v hv => by cases hv
      fresh := fun c v hc => by cases hc
      once := fun c d v hc => by cases hc
      cover := fun i hi hin => absurd hin (Nat.not_le.mpr hi) }

/-- The pids `2 .. k + 1` -/
def firstPids (k : Nat) : List Word := (List.range k).map fun i => BitVec.ofNat 32 (i + 2)

lemma mem_firstPids {k : Nat} : v ∈ firstPids k ↔ ∃ i, 1 ≤ i ∧ i ≤ k ∧ v = nth i := by
  rw [firstPids, mem_map]
  constructor
  · rintro ⟨i, hi, rfl⟩
    exact ⟨i + 1, by omega, mem_range.mp hi, rfl⟩
  · rintro ⟨i, hi, hik, rfl⟩
    obtain ⟨i, rfl⟩ := Nat.exists_eq_add_of_le' hi
    exact ⟨i, mem_range.mpr hik, rfl⟩

lemma nodup_firstPids {k : Nat} (hk : k < INT_MAX) : (firstPids k).Nodup := by
  refine List.Nodup.map_on ?_ nodup_range
  intro i hi j hj heq
  have hi := mem_range.mp hi
  have hj := mem_range.mp hj
  have hij : i + 1 = j + 1 := nth_inj (by omega) (by omega) heq
  omega

/-- With no call in progress the pids that have been taken are those that have been returned. -/
lemma Inv.perm (h : Inv s) (hn : s.taken < INT_MAX) (hidle : ∀ c, s.pc c = .idle) :
    s.returned.Perm (firstPids s.taken) := by
  refine (perm_ext_iff_of_nodup h.pids.nodup (nodup_firstPids hn)).mpr fun v => ?_
  rw [mem_firstPids]
  constructor
  · exact h.pids.mem v
  · rintro ⟨i, hi, hin, rfl⟩
    refine (h.pids.cover i hi hin).resolve_right ?_
    rintro ⟨c, hc⟩
    rw [hidle c] at hc
    cases hc

/-- In every run with fewer than `2 ^ 31 - 1` allocations all pids differ; when no call is in progress
    after `k` of them, they are `2 .. k + 1` and `nextpid` is `k + 1`. -/
theorem pids_distinct (hrun : Reach step Always boot s) (hn : s.taken < INT_MAX) :
    s.returned.Nodup ∧ ((∀ c, s.pc c = .idle) →
      s.returned.Perm (firstPids s.returned.length) ∧
        s.nextpid = BitVec.ofNat 32 (s.returned.length + 1)) := by
  have h : s.taken < INT_MAX → Inv s := by
    refine hrun.invariant (I := fun s => s.taken < INT_MAX → Inv s) (fun _ => inv_boot) ?_
    intro t l u ht _ hstep hu
    exact (ht ((taken_mono hstep).trans_lt hu)).step hstep hu
  refine ⟨(h hn).pids.nodup, fun hidle => ?_⟩
  have hperm := (h hn).perm hn hidle
  have hlen : s.returned.length = s.taken := by
    rw [hperm.length_eq, firstPids, List.length_map, List.length_range]
  rw [hlen]
  exact ⟨hperm, (h hn).nextpid⟩

/-- Two CPUs, of which the second tries again. -/
theorem pids_distinct_after_retry : ∃ s, Reach step Always boot s ∧
    (s.taken < INT_MAX ∧ s.returned = [3, 2]) ∧ s.returned.Nodup := by
  have hexec : ∃ s, Reach step Always boot s ∧ (s.taken < INT_MAX ∧ s.returned = [3, 2]) :=
    Reach.exists_of_exec
      ([.call 0, .call 1, .run 0, .run 1, .run 0, .run 0, .run 0, .run 0] ++
        List.replicate 8 (.run 1)) (by decide +kernel)
  obtain ⟨s, hrun, hs⟩ := hexec
  exact ⟨s, hrun, hs, (pids_distinct hrun hs.1).1⟩

end Xv6.Allocpid
