import Mathlib.Data.List.Basic
import Mathlib.Logic.Function.Basic
import Mathlib.Tactic.Common

/-!
# Physical redo logs

A store is a function from addresses to contents. A redo log is a list of entries, each an address
and the contents to put there. `replay` applies a list of writes in order. `Covers` is the crash
invariant of a redo log: whatever the store holds at the addresses that the log names, installing
the log gives the intended store.
-/

namespace Machine.RedoLog

open Function

variable {A D : Type*}

/-! ### The crash invariant -/

/-- The log `entries` over `disk` stands for the store `spec` on the addresses in `home`: every
    entry carries the contents of `spec`, and every address without an entry holds them already. -/
structure Covers (home : A → Prop) (entries : List (A × D)) (disk spec : A → D) : Prop where
  entry : ∀ e ∈ entries, e.2 = spec e.1
  rest : ∀ a, home a → a ∉ entries.map Prod.fst → disk a = spec a

variable {home : A → Prop} {entries : List (A × D)} {disk disk' spec spec' : A → D}

/-- An empty log covers exactly the stores that agree with the disk. -/
lemma covers_nil : Covers home [] disk spec ↔ ∀ a, home a → disk a = spec a := by
  constructor
  · intro h a ha
    exact h.rest a ha (by simp)
  · intro h
    exact ⟨by simp, fun a ha _ => h a ha⟩

/-- Only the home addresses of the disk matter. -/
lemma Covers.congr (h : Covers home entries disk spec) (heq : ∀ a, home a → disk' a = disk a) :
    Covers home entries disk' spec :=
  ⟨h.entry, fun a ha hna => (heq a ha).trans (h.rest a ha hna)⟩

/-- Writing the log is the commit point: from a disk that holds `spec`, a log that carries every
    change from `spec` to `spec'` covers `spec'`. -/
lemma Covers.commit (hdisk : ∀ a, home a → disk a = spec a) (hentry : ∀ e ∈ entries, e.2 = spec' e.1)
    (hrest : ∀ a, home a → a ∉ entries.map Prod.fst → spec' a = spec a) : Covers home entries disk spec' :=
  ⟨hentry, fun a ha hna => (hdisk a ha).trans (hrest a ha hna).symm⟩

/-- When every entry has been installed the disk itself holds the store. -/
lemma Covers.installed (h : Covers home entries disk spec)
    (hinst : ∀ e ∈ entries, disk e.1 = spec e.1) : ∀ a, home a → disk a = spec a := by
  intro a ha
  by_cases hmem : a ∈ entries.map Prod.fst
  · obtain ⟨e, he, rfl⟩ := List.mem_map.mp hmem
    exact hinst e he
  · exact h.rest a ha hmem

variable [DecidableEq A]

/-- Installing an entry keeps the log covering the same store. -/
lemma Covers.install (h : Covers home entries disk spec) {e : A × D} (he : e ∈ entries) :
    Covers home entries (update disk e.1 e.2) spec := by
  refine ⟨h.entry, fun a ha hna => ?_⟩
  have hne : a ≠ e.1 := by
    rintro rfl
    exact hna (List.mem_map_of_mem he)
  rw [update_of_ne hne]
  exact h.rest a ha hna

/-! ### Replaying writes -/

/-- Apply writes in order, later ones over earlier ones. -/
def replay (ws : List (A × D)) (m : A → D) : A → D :=
  ws.foldl (fun m w => Function.update m w.1 w.2) m

@[simp] lemma replay_nil (m : A → D) : replay [] m = m := rfl

lemma replay_append (ws ws' : List (A × D)) (m : A → D) :
    replay (ws ++ ws') m = replay ws' (replay ws m) := by
  simp [replay]

lemma replay_concat (ws : List (A × D)) (a : A) (d : D) (m : A → D) :
    replay (ws ++ [(a, d)]) m = update (replay ws m) a d := by
  simp [replay]

/-- An address that no write names keeps its contents. -/
lemma replay_of_notMem {ws : List (A × D)} {a : A} (h : a ∉ ws.map Prod.fst) (m : A → D) :
    replay ws m a = m a := by
  induction ws generalizing m with
  | nil => rfl
  | cons w ws ih =>
    simp only [List.map_cons, List.mem_cons, not_or] at h
    have hstep : replay (w :: ws) m = replay ws (update m w.1 w.2) := rfl
    rw [hstep, ih h.2, update_of_ne h.1]

end Machine.RedoLog
