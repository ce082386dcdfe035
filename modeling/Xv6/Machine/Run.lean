import Mathlib.Tactic.Common

/-!
# Runs of a guarded transition function

A machine is a function `step : S → L → Option S`: from a state and a label it gives the next
state, or `none` when the label is not enabled. `Reach step ok s t` says that some run leads from
`s` to `t` in which every step is taken from a state and label that meet `ok`. The condition `ok`
is where an assumption about all steps of a run is stated; `Always` is the run without one.
-/

namespace Machine

open Option

variable {S L : Type*} {step : S → L → Option S} {ok ok' : S → L → Prop} {s t u : S} {l : L} {I : S → Prop}
  {P : S → Prop} {ls : List L}

/-- The states a run from `s` reaches when every step meets `ok`. -/
inductive Reach (step : S → L → Option S) (ok : S → L → Prop) (s : S) : S → Prop
  | refl : Reach step ok s s
  | tail {t u : S} {l : L} : Reach step ok s t → ok t l → step t l = some u → Reach step ok s u

/-- No condition on the steps. -/
def Always : S → L → Prop := fun _ _ => True

instance (s : S) (l : L) : Decidable (Always s l) := isTrue trivial

lemma Reach.trans (h : Reach step ok s t) (k : Reach step ok t u) : Reach step ok s u := by
  induction k with
  | refl => exact h
  | tail _ hok hstep ih => exact ih.tail hok hstep

lemma Reach.single (hok : ok s l) (hstep : step s l = some t) : Reach step ok s t :=
  Reach.refl.tail hok hstep

/-- A run is empty or takes a first step. -/
lemma Reach.head_cases (h : Reach step ok s t) :
    s = t ∨ ∃ l u, ok s l ∧ step s l = some u ∧ Reach step ok u t := by
  induction h with
  | refl => exact .inl rfl
  | @tail t u l _ hok hstep ih =>
    rcases ih with rfl | ⟨k, v, hk, hv, hrun⟩
    · exact .inr ⟨l, u, hok, hstep, .refl⟩
    · exact .inr ⟨k, v, hk, hv, hrun.tail hok hstep⟩

/-- A run under a condition is a run under every weaker one. -/
lemma Reach.mono (himp : ∀ s l, ok s l → ok' s l) (h : Reach step ok s t) : Reach step ok' s t := by
  induction h with
  | refl => exact .refl
  | tail _ hok hstep ih => exact ih.tail (himp _ _ hok) hstep

/-- The invariant rule: what holds at the start and is kept by every step that meets `ok`
    holds in every state reached. -/
lemma Reach.invariant (h : Reach step ok s t) (h0 : I s)
    (hstep : ∀ s l s', I s → ok s l → step s l = some s' → I s') : I t := by
  induction h with
  | refl => exact h0
  | tail _ hok hst ih => exact hstep _ _ _ ih hok hst

/-- A condition that follows from an invariant of the run holds at every step of it. -/
lemma Reach.strengthen (h : Reach step ok s t) (h0 : I s)
    (hstep : ∀ s l s', I s → ok s l → step s l = some s' → I s') (himp : ∀ s l, I s → ok s l → ok' s l) :
    Reach step ok' s t := by
  induction h with
  | refl => exact .refl
  | tail hrun hok hst ih => exact ih.tail (himp _ _ (hrun.invariant h0 hstep) hok) hst

/-- Execute a list of labels. -/
def exec (step : S → L → Option S) : S → List L → Option S
  | s, [] => some s
  | s, l :: ls =>
    match step s l with
    | none => none
    | some t => exec step t ls

@[simp] lemma exec_nil (s : S) : exec step s [] = some s := rfl

lemma exec_cons (s : S) (l : L) (ls : List L) :
    exec step s (l :: ls) = (step s l).bind fun t => exec step t ls := by
  simp only [exec]
  cases step s l <;> rfl

lemma exec_append (s : S) (ls ks : List L) :
    exec step s (ls ++ ks) = (exec step s ls).bind fun t => exec step t ks := by
  induction ls generalizing s with
  | nil => rfl
  | cons l ls ih =>
    rw [List.cons_append, exec_cons, exec_cons, bind_assoc]
    exact congrArg _ (funext ih)

/-- The state that an executed list of labels ends in. -/
lemma exists_exec [DecidablePred P] (h : (exec step s ls).any (fun t => decide (P t)) = true) :
    ∃ t, exec step s ls = some t ∧ P t := by
  cases he : exec step s ls with
  | none => simp [he] at h
  | some t =>
    simp only [he, any_some, decide_eq_true_eq] at h
    exact ⟨t, rfl, h⟩

/-- The machine that takes only the steps that meet `ok`. -/
def guarded (step : S → L → Option S) (ok : S → L → Prop) [∀ s l, Decidable (ok s l)] :
    S → L → Option S := fun s l => if ok s l then step s l else none

lemma step_of_guarded [∀ s l, Decidable (ok s l)] (h : guarded step ok s l = some t) :
    step s l = some t := by
  simp only [guarded] at h
  split_ifs at h
  exact h

lemma Reach.of_exec [∀ s l, Decidable (ok s l)] (h : exec (guarded step ok) s ls = some t) :
    Reach step ok s t := by
  induction ls generalizing s with
  | nil =>
    simp only [exec_nil, some.injEq] at h
    exact h ▸ .refl
  | cons l ls ih =>
    rw [exec_cons] at h
    obtain ⟨u, hu, ht⟩ := bind_eq_some_iff.mp h
    simp only [guarded] at hu
    split_ifs at hu with hok
    exact (Reach.single hok hu).trans (ih ht)

/-- A run that ends in a state with `P`, found by executing labels. -/
lemma Reach.exists_of_exec [∀ s l, Decidable (ok s l)] [DecidablePred P] (ls : List L)
    (h : (exec (guarded step ok) s ls).any (fun t => decide (P t)) = true) :
    ∃ t, Reach step ok s t ∧ P t := by
  obtain ⟨t, ht, hP⟩ := exists_exec h
  exact ⟨t, .of_exec ht, hP⟩

/-- Two machines that keep a relation at every label end every list of labels in states related by
    what it implies. -/
lemma exec_rel {S' : Type*} {step' : S' → L → Option S'} {R Q : S → S' → Prop} {s' : S'}
    (hstep : ∀ s s' l, R s s' → Option.Rel R (step s l) (step' s' l)) (himp : ∀ s s', R s s' → Q s s')
    (h : R s s') (ls : List L) : Option.Rel Q (exec step s ls) (exec step' s' ls) := by
  induction ls generalizing s s' with
  | nil => exact .some (himp s s' h)
  | cons l ls ih =>
    rw [exec_cons, exec_cons]
    have hrel := hstep s s' l h
    generalize step s l = x at hrel ⊢
    generalize step' s' l = y at hrel ⊢
    cases hrel with
    | none => exact .none
    | some hR => exact ih hR

/-! ### History variables

A history variable records what a run has done. It is updated at every step from the states before
and after, and no step reads it, so it does not restrict the runs.
-/

variable {H : Type*} {next : S → L → S → H → H}

/-- The machine with a history variable. -/
def withHistory (step : S → L → Option S) (next : S → L → S → H → H) (x : S × H) (l : L) :
    Option (S × H) :=
  (step x.1 l).map fun t => (t, next x.1 l t x.2)

lemma withHistory_eq_some {x y : S × H} :
    withHistory step next x l = some y ↔ step x.1 l = some y.1 ∧ y.2 = next x.1 l y.1 x.2 := by
  rw [withHistory, map_eq_some_iff]
  constructor
  · rintro ⟨t, ht, rfl⟩
    exact ⟨ht, rfl⟩
  · rintro ⟨ht, hh⟩
    exact ⟨y.1, ht, Prod.ext rfl hh.symm⟩

/-- Every run of the machine is one with the history variable. -/
lemma Reach.withHistory (h : Reach step ok s t) (x : H) :
    ∃ y, Reach (withHistory step next) (fun z l => ok z.1 l) (s, x) (t, y) := by
  induction h with
  | refl => exact ⟨x, .refl⟩
  | @tail t u l _ hok hst ih =>
    obtain ⟨y, hy⟩ := ih
    exact ⟨next t l u y, hy.tail hok (withHistory_eq_some.mpr ⟨hst, rfl⟩)⟩

end Machine
