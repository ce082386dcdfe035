import Xv6.Vm.Layout
import Xv6.Machine.Memory

/-!
# The multiprocessor table

`mp.c` looks for the configuration table that the firmware leaves in memory and walks over its entries, each
of which has a length that depends on its type. The loop has no increment of its own. At an entry of unknown
type the `break` leaves the `switch` and not the loop, and the cursor stays where it is.
-/

namespace Xv6.Mp

open Machine
open Vm (P2V)

def NCPU : Nat := 8

/-- `sizeof(struct mp)`, `sizeof(struct mpconf)` -/
def mpSize : Nat := 16
def mpconfSize : Word := 44

def MPPROC : Byte := 0x00
def MPBUS : Byte := 0x01
def MPIOAPIC : Byte := 0x02
def MPIOINTR : Byte := 0x03
def MPLINTR : Byte := 0x04

abbrev Memory := Word → Byte

/-! ### The table -/

def sum (mem : Memory) (addr : Word) (len : Nat) : Byte :=
  (List.range len).foldl (fun x i => x + mem (addr + BitVec.ofNat 32 i)) 0

/-- `memcmp(p, sig, 4) == 0` -/
def signature (mem : Memory) (p : Word) (a b c d : Char) : Bool :=
  mem p == chr a && mem (p + 1) == chr b && mem (p + 2) == chr c && mem (p + 3) == chr d

def mpsearch1 (mem : Memory) (a : Word) (len : Nat) : Option Word :=
  ((List.range (len / mpSize)).map fun i => P2V a + BitVec.ofNat 32 (mpSize * i)).find? fun p =>
    signature mem p '_' 'M' 'P' '_' && sum mem p mpSize == 0

/-- The 16-bit number at `a`. -/
def ushort (mem : Memory) (a : Word) : Word := (mem (a + 1) ++ mem a).setWidth 32

def mpsearch (mem : Memory) : Option Word :=
  let bda := P2V 0x400
  let p := ushort mem (bda + 0x0E) <<< 4
  let near := if p ≠ 0 then mpsearch1 mem p 1024
    else mpsearch1 mem (ushort mem (bda + 0x13) * 1024 - 1024) 1024
  match near with
  | some mp => some mp
  | none => mpsearch1 mem 0xF0000 0x10000

def confLength (mem : Memory) (conf : Word) : Word := ushort mem (conf + 4)

/-- `mpconfig`: the floating pointer and the table. -/
def mpconfig (mem : Memory) : Option (Word × Word) :=
  match mpsearch mem with
  | none => none
  | some mp =>
    let physaddr := loadWord mem (mp + 4)
    let conf := P2V physaddr
    if physaddr = 0 then none
    else if !signature mem conf 'P' 'C' 'M' 'P' then none
    else if mem (conf + 6) ≠ 1 ∧ mem (conf + 6) ≠ 4 then none
    else if sum mem conf (confLength mem conf).toNat ≠ 0 then none
    else some (mp, conf)

/-! ### The walk -/

/-- The variables of the loop. -/
structure Walk where
  p : Word
  ncpu : Nat
  /-- `cpus[i].apicid` -/
  apicid : Nat → Byte
  ioapicid : Byte
  ismp : Bool

/-- The body of the loop. -/
def body (mem : Memory) (w : Walk) : Walk :=
  if mem w.p = MPPROC then
    let w := if w.ncpu < NCPU then
      { w with ncpu := w.ncpu + 1, apicid := Function.update w.apicid w.ncpu (mem (w.p + 1)) } else w
    { w with p := w.p + 20 }
  else if mem w.p = MPIOAPIC then { w with p := w.p + 8, ioapicid := mem (w.p + 1) }
  else if mem w.p = MPBUS ∨ mem w.p = MPIOINTR ∨ mem w.p = MPLINTR then { w with p := w.p + 8 }
  -- `break` ends the `switch` only
  else { w with ismp := false }

/-- The loop up to the address `e`, for at most `fuel` rounds. -/
def mpLoop (mem : Memory) (e : Word) : Nat → Walk → Option Walk
  | 0, _ => none
  | fuel + 1, w => if w.p < e then mpLoop mem e fuel (body mem w) else some w

inductive Outcome
  /-- `panic("Expect to run on an SMP")` -/
  | expectSMP
  /-- `panic("Didn't find a suitable machine")` -/
  | notSuitable
  /-- with `lapic`, and `imcr` if the interrupt mode is switched -/
  | found (lapic : Word) (w : Walk) (imcr : Bool)

def tableEnd (mem : Memory) (conf : Word) : Word := conf + confLength mem conf

/-- The start of the walk, for the values that `ioapicid` and the array `cpus` have. -/
def start (conf : Word) (apicid : Nat → Byte) (ioapicid : Byte) : Walk :=
  ⟨conf + mpconfSize, 0, apicid, ioapicid, true⟩

/-- `mpinit`; nothing if the loop goes on for more than `fuel` rounds. -/
def mpinit (mem : Memory) (apicid : Nat → Byte) (ioapicid : Byte) (fuel : Nat) : Option Outcome :=
  match mpconfig mem with
  | none => some .expectSMP
  | some (mp, conf) =>
    match mpLoop mem (tableEnd mem conf) fuel (start conf apicid ioapicid) with
    | none => none
    | some w =>
      if w.ismp then some (.found (loadWord mem (conf + 36)) w (mem (mp + 12) ≠ 0)) else some .notSuitable

/-! ### Entries -/

/-- The length of an entry, if its type is known. -/
def entrySize (type : Byte) : Option Word :=
  if type = MPPROC then some 20
  else if type = MPIOAPIC ∨ type = MPBUS ∨ type = MPIOINTR ∨ type = MPLINTR then some 8
  else none

/-- The walk from `p` on meets the entry at `q`. -/
inductive Meets (mem : Memory) (e : Word) : Word → Word → Prop
  | here {p : Word} : p < e → Meets mem e p p
  | next {p q n : Word} : p < e → entrySize (mem p) = some n → Meets mem e (p + n) q → Meets mem e p q

variable {mem : Memory} {e p q n : Word} {w v : Walk} {fuel : Nat}

lemma entrySize_le (h : entrySize (mem p) = some n) : 0 < n.toNat ∧ n.toNat ≤ 20 := by
  rw [entrySize] at h
  split_ifs at h <;> cases h <;> decide

/-- An entry of known type is passed over. -/
lemma body_known (h : entrySize (mem w.p) = some n) :
    (body mem w).p = w.p + n ∧ (body mem w).ismp = w.ismp ∧
      ((body mem w).ncpu = w.ncpu ∨ w.ncpu < NCPU ∧ (body mem w).ncpu = w.ncpu + 1) := by
  rw [entrySize] at h
  rw [body]
  by_cases hproc : mem w.p = MPPROC
  · rw [if_pos hproc] at h ⊢
    cases h
    by_cases hn : w.ncpu < NCPU
    · rw [if_pos hn]
      exact ⟨rfl, rfl, .inr ⟨hn, rfl⟩⟩
    · rw [if_neg hn]
      exact ⟨rfl, rfl, .inl rfl⟩
  · rw [if_neg hproc] at h ⊢
    by_cases hio : mem w.p = MPIOAPIC
    · rw [if_pos (.inl hio)] at h
      cases h
      rw [if_pos hio]
      exact ⟨rfl, rfl, .inl rfl⟩
    · simp only [hio, false_or] at h
      rw [if_neg hio]
      split_ifs at h ⊢
      cases h
      exact ⟨rfl, rfl, .inl rfl⟩

/-- At an entry of unknown type nothing moves. -/
lemma body_unknown (h : entrySize (mem w.p) = none) : (body mem w).p = w.p := by
  rw [entrySize] at h
  rw [body]
  split_ifs at h with hproc hother
  simp only [not_or] at hother
  rw [if_neg hproc, if_neg hother.1, if_neg (by simp only [not_or]; exact hother.2)]

/-- The loop does not leave an entry of unknown type. -/
lemma mpLoop_stuck (hlt : w.p < e) (h : entrySize (mem w.p) = none) (fuel : Nat) :
    mpLoop mem e fuel w = none := by
  induction fuel generalizing w with
  | zero => rfl
  | succ fuel ih =>
    have hp := body_unknown h
    rw [mpLoop, if_pos hlt]
    exact ih (by rw [hp]; exact hlt) (by rw [hp]; exact h)

/-- If the walk meets an entry of unknown type, the loop goes on for ever. -/
lemma mpLoop_meets (hmeets : Meets mem e w.p q) (h : entrySize (mem q) = none) (fuel : Nat) :
    mpLoop mem e fuel w = none := by
  generalize hp : w.p = p at hmeets
  induction hmeets generalizing w fuel with
  | here hlt =>
    subst hp
    exact mpLoop_stuck hlt h fuel
  | next hlt hsize _ ih =>
    subst hp
    cases fuel with
    | zero => rfl
    | succ fuel =>
      rw [mpLoop, if_pos hlt]
      exact ih h fuel (body_known hsize).1

/-- If all entries are known, the loop ends, since every round moves the cursor on. -/
lemma mpLoop_ends (htop : e.toNat + 20 ≤ 0x100000000) (hcpu : w.ncpu ≤ NCPU)
    (hknown : ∀ q, Meets mem e w.p q → entrySize (mem q) ≠ none) (hfuel : e.toNat - w.p.toNat < fuel) :
    ∃ v, mpLoop mem e fuel w = some v ∧ v.ismp = w.ismp ∧ v.ncpu ≤ NCPU := by
  induction fuel generalizing w with
  | zero => exact absurd hfuel (Nat.not_lt_zero _)
  | succ fuel ih =>
    rw [mpLoop]
    split_ifs with hlt
    · obtain ⟨n, hn⟩ := Option.ne_none_iff_exists'.mp (hknown w.p (.here hlt))
      obtain ⟨hp, hismp, hncpu⟩ := body_known (w := w) hn
      have hsize := entrySize_le hn
      have hle : (body mem w).ncpu ≤ NCPU := by
        rcases hncpu with heq | ⟨hlt, heq⟩
        · rw [heq]
          exact hcpu
        · rw [heq]
          exact hlt
      obtain ⟨v, hv, hv', hcpu'⟩ := ih hle
        (fun q hq => hknown q (.next hlt hn (by rw [← hp]; exact hq)))
        (by rw [hp]; bv_omega)
      exact ⟨v, hv, hv'.trans hismp, hcpu'⟩
    · exact ⟨w, rfl, rfl, hcpu⟩

/-- For a table that `mpconfig` accepts: if the walk meets entries of known types only, `mpinit` returns with
    at most `NCPU` processors. If it meets an entry of unknown type, `mpinit` never returns, and so it does not
    panic. -/
theorem mpinit_walk {mem : Memory} {mp conf : Word} (hconf : mpconfig mem = some (mp, conf))
    (htop : (tableEnd mem conf).toNat + 20 ≤ 0x100000000) (apicid : Nat → Byte) (ioapicid : Byte) :
    ((∀ q, Meets mem (tableEnd mem conf) (conf + mpconfSize) q → entrySize (mem q) ≠ none) →
      ∃ n, ∀ fuel ≥ n, ∃ lapic w imcr, mpinit mem apicid ioapicid fuel = some (.found lapic w imcr) ∧
        w.ncpu ≤ NCPU) ∧
    ((∃ q, Meets mem (tableEnd mem conf) (conf + mpconfSize) q ∧ entrySize (mem q) = none) →
      ∀ fuel, mpinit mem apicid ioapicid fuel = none) := by
  constructor
  · intro hknown
    refine ⟨0x100000000, fun fuel hfuel => ?_⟩
    obtain ⟨w, hw, hismp, hncpu⟩ := mpLoop_ends (w := start conf apicid ioapicid) htop (Nat.zero_le _) hknown
      (show _ < fuel by omega)
    refine ⟨loadWord mem (conf + 36), w, mem (mp + 12) ≠ 0, ?_, hncpu⟩
    have hismp : w.ismp = true := hismp
    simp only [mpinit, hconf, hw, hismp, if_true]
  · rintro ⟨q, hq, hunknown⟩ fuel
    have hloop := mpLoop_meets (w := start conf apicid ioapicid) hq hunknown fuel
    simp only [mpinit, hconf, hloop]

/-- A memory with a table of one entry of the given type: the floating pointer is at `0xF0000` and the table at
    `0xF0100`. -/
def tableOf (type : Byte) : Memory := fun a =>
  -- "_MP_", the address of the table and the checksum
  if a = 0x800F0000 then chr '_' else if a = 0x800F0001 then chr 'M' else if a = 0x800F0002 then chr 'P'
  else if a = 0x800F0003 then chr '_' else if a = 0x800F0005 then 0x01 else if a = 0x800F0006 then 0x0F
  else if a = 0x800F000A then 0x95
  -- "PCMP", the length 45, the version and the checksum, and the entry
  else if a = 0x800F0100 then chr 'P' else if a = 0x800F0101 then chr 'C' else if a = 0x800F0102 then chr 'M'
  else if a = 0x800F0103 then chr 'P' else if a = 0x800F0104 then 45 else if a = 0x800F0106 then 1
  else if a = 0x800F0107 then 0xA2 - type else if a = 0x800F012C then type
  else 0

lemma mpconfig_tableOf_proc : mpconfig (tableOf MPPROC) = some (0x800F0000, 0x800F0100) := by decide +kernel

lemma mpconfig_tableOf_unknown : mpconfig (tableOf 0xFF) = some (0x800F0000, 0x800F0100) := by decide +kernel

theorem mpinit_walk_one_processor : ∃ n, ∀ fuel ≥ n, ∃ lapic w imcr,
    mpinit (tableOf MPPROC) (fun _ => 0) 0 fuel = some (.found lapic w imcr) ∧ w.ncpu ≤ NCPU := by
  apply (mpinit_walk mpconfig_tableOf_proc (by decide) (fun _ => 0) 0).1
  intro q hq
  cases hq with
  | here _ => decide
  | next _ hsize hq =>
    have hproc : entrySize (tableOf MPPROC (0x800F0100 + mpconfSize)) = some 20 := by decide
    rw [hproc] at hsize
    cases hsize
    cases hq with
    | here hlt => exact absurd hlt (by decide)
    | next hlt _ _ => exact absurd hlt (by decide)

/-- A table that `mpconfig` accepts, with one entry of unknown type: `mpinit` does not return. -/
theorem mpinit_hangs : mpconfig (tableOf 0xFF) = some (0x800F0000, 0x800F0100) ∧
    Meets (tableOf 0xFF) (tableEnd (tableOf 0xFF) 0x800F0100) (0x800F0100 + mpconfSize)
      (0x800F0100 + mpconfSize) ∧
    entrySize (tableOf 0xFF (0x800F0100 + mpconfSize)) = none ∧
    ∀ fuel, mpinit (tableOf 0xFF) (fun _ => 0) 0 fuel = none := by
  have hmeets : Meets (tableOf 0xFF) (tableEnd (tableOf 0xFF) 0x800F0100) (0x800F0100 + mpconfSize)
      (0x800F0100 + mpconfSize) := .here (by decide)
  have hunknown : entrySize (tableOf 0xFF (0x800F0100 + mpconfSize)) = none := by decide
  refine ⟨mpconfig_tableOf_unknown, hmeets, hunknown, fun fuel => ?_⟩
  have hloop := mpLoop_meets (w := start 0x800F0100 (fun _ => 0) 0) hmeets hunknown fuel
  simp only [mpinit, mpconfig_tableOf_unknown, hloop]

end Xv6.Mp
